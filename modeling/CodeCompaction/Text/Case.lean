import CodeCompaction.Text.Basic
import CodeCompaction.Text.CaseTable

namespace CodeCompaction.Text

def mapped (expansions : List (Nat × List Nat)) (runs : List CaseRun) (c : CodePoint) : Text :=
  match expansions.lookup c.toNat with
  | some ns => ns.map CodePoint.ofNat
  | none =>
      match runs.find? (·.covers c.toNat) with
      | some r => [CodePoint.ofNat (r.apply c.toNat)]
      | none => [c]

def lowerChar (c : CodePoint) : Text :=
  match c with
  | ch a => if a.toNat < 0x80 then [ch a.toLower] else mapped lowerExpansions lowerRuns c
  | .lone _ => [c]

def upperChar (c : CodePoint) : Text :=
  match c with
  | ch a => if a.toNat < 0x80 then [ch a.toUpper] else mapped upperExpansions upperRuns c
  | .lone _ => [c]

def cased? (t : Text) : Bool :=
  match t.dropWhile (fun c => inRanges caseIgnorableRanges c.toNat) with
  | [] => false
  | c :: _ => inRanges casedRanges c.toNat

def lowerAfter : Text → Text → Text
  | _, [] => []
  | before, c :: cs =>
      let here : Text :=
        if c == '\u03a3' then
          if cased? before && !cased? cs then ['\u03c2'] else ['\u03c3']
        else lowerChar c
      here ++ lowerAfter (c :: before) cs

def lower (t : Text) : Text := lowerAfter [] t

def upper (t : Text) : Text := t.flatMap upperChar

end CodeCompaction.Text
