import CodeCompaction.Json.Print
import CodeCompaction.Number.Notation

namespace CodeCompaction.Report

open CodeCompaction.Json CodeCompaction.Number

structure FileReport where
  source : Text
  bytesIn : Int
  bytesOut : Int
  outputPath : Option Text := none
  content : Option Text := none
  error : Option Text := none
  deriving Repr, DecidableEq

structure Summary where
  ok : Bool
  mode : Text
  files : List FileReport := []
  bytesIn : Int := 0
  bytesOut : Int := 0
  tokensIn : Option Int := none
  tokensOut : Option Int := none
  tokenizer : Option Text := none
  deriving Repr, DecidableEq

namespace Summary

def bytesSaved (s : Summary) : Int := s.bytesIn - s.bytesOut

def heading (s : Summary) : List Text :=
  ["Mode: ".toText ++ s.mode ++ [ch '\n'], "Files processed: ".toText ++ decimal s.files.length ++ [ch '\n']]

def sizes (before after saved : Int) : Text :=
  signedGrouped before ++ " -> ".toText ++ signedGrouped after ++ " (".toText ++
    explicitlySignedGrouped saved ++ " saved".toText

def ratio (s : Summary) : Text := fixed 1 (quotient s.bytesSaved s.bytesIn.toNat * 100)

def bytesLine (s : Summary) : List Text :=
  if 0 < s.bytesIn then
    ["Bytes: ".toText ++ sizes s.bytesIn s.bytesOut s.bytesSaved ++ ", ".toText ++ s.ratio ++
      "%)\n".toText]
  else []

def tokensLine (s : Summary) : List Text :=
  match s.tokensIn, s.tokensOut with
  | some before, some after =>
      ["Tokens (".toText ++ s.tokenizer.getD "None".toText ++ "): ".toText ++
        sizes before after (before - after) ++ ")\n".toText]
  | _, _ => []

def present (t : Option Text) : Option Text := t.filter (!·.isEmpty)

def fileLine? (f : FileReport) : Option Text := do
  let path ← present f.outputPath
  let status := match present f.error with
    | some e => "FAILED (".toText ++ e ++ ")".toText
    | none => path
  some ("  - ".toText ++ f.source ++ ": ".toText ++ status ++ [ch '\n'])

def filesBlock (s : Summary) : List Text :=
  match s.files.filterMap fileLine? with
  | [] => []
  | ls => "\nGenerated files:\n".toText :: ls

def pieces (s : Summary) : List Text := s.heading ++ s.bytesLine ++ s.tokensLine ++ s.filesBlock

def text (s : Summary) : Text := s.pieces.flatten

def member (name : String) (v : Value) : Text × Value := (name.toText, v)

def fileValue (f : FileReport) : Value := .obj [
  member "source" (.str f.source),
  member "bytes_in" (.int f.bytesIn),
  member "bytes_out" (.int f.bytesOut),
  member "output_path" (.ofOption .str f.outputPath),
  member "content" (.ofOption .str f.content),
  member "error" (.ofOption .str f.error)]

def value (s : Summary) : Value := .obj [
  member "ok" (.bool s.ok),
  member "mode" (.str s.mode),
  member "files" (.arr (s.files.map fileValue)),
  member "bytes_in" (.int s.bytesIn),
  member "bytes_out" (.int s.bytesOut),
  member "tokens_in" (.ofOption .int s.tokensIn),
  member "tokens_out" (.ofOption .int s.tokensOut),
  member "tokenizer" (.ofOption .str s.tokenizer)]

end Summary
end CodeCompaction.Report
