import Mathlib
import CodeCompaction.Config.Check
import CodeCompaction.Options.Basic

namespace CodeCompaction.Config

open CodeCompaction.Json

section Merge

variable {d overrides : Draft} {n m : Text} {row : List Text}

end Merge

end Config

namespace Options

open Config Json

variable {o : Options}

end Options
end CodeCompaction
