import CodeCompaction.App.Run
import CodeCompaction.Main
import CodeCompaction.Proofs.App.Containment
import CodeCompaction.Proofs.App.Copying
import CodeCompaction.Proofs.App.Exits
import CodeCompaction.Proofs.App.Reporting
import CodeCompaction.Proofs.App.Restoring
import CodeCompaction.Proofs.App.Survival
import CodeCompaction.Proofs.Batch.Forms
import CodeCompaction.Proofs.Batch.Savings
import CodeCompaction.Proofs.Comment.Barred
import CodeCompaction.Proofs.Comment.Blocks
import CodeCompaction.Proofs.Comment.Brackets
import CodeCompaction.Proofs.Comment.Exhaustion
import CodeCompaction.Proofs.Comment.Frame
import CodeCompaction.Proofs.Comment.Idempotence
import CodeCompaction.Proofs.Comment.Inert
import CodeCompaction.Proofs.Comment.Joining
import CodeCompaction.Proofs.Comment.Opacity
import CodeCompaction.Proofs.Discovery.Visits
import CodeCompaction.Proofs.Log.Ownership
import CodeCompaction.Proofs.Minify.CanonicalJson
import CodeCompaction.Proofs.Minify.CommentedJson
import CodeCompaction.Proofs.Minify.Generic
import CodeCompaction.Proofs.Minify.Indentation
import CodeCompaction.Proofs.Minify.Layout
import CodeCompaction.Proofs.Minify.Respacing
import CodeCompaction.Proofs.Report.Reading
import CodeCompaction.Proofs.Tokens.Retention
import CodeCompaction.Proofs.Text.Size
import CodeCompaction.Proofs.Minify.Shrinking
import CodeCompaction.Proofs.Json.Indented
import CodeCompaction.Proofs.Config.Saving
import CodeCompaction.Proofs.Config.Checking
import CodeCompaction.Proofs.Minify.Markup
import CodeCompaction.Proofs.Minify.Sentinels
import CodeCompaction.Proofs.Path.Distinctness
import CodeCompaction.Proofs.Literal.Escapes
import CodeCompaction.Proofs.Literal.OnePass
import CodeCompaction.Proofs.Json.Grammar
import CodeCompaction.Proofs.Config.Loading
