import Mathlib
import CodeCompaction.Proofs.Json.Indented
import CodeCompaction.Report.Summary

namespace CodeCompaction.Report

open CodeCompaction.Json CodeCompaction.Number

variable {s : Summary}

def FileReport.numbers (f : FileReport) : List Int := [f.bytesIn, f.bytesOut]

namespace Summary

def numbers (s : Summary) : List Int :=
  s.files.flatMap FileReport.numbers ++ [s.bytesIn, s.bytesOut] ++ s.tokensIn.toList ++ s.tokensOut.toList

def Legible (s : Summary) : Prop := ∀ n ∈ s.numbers, (decimal n.natAbs).length ≤ maxDigits

variable (limit : NestingLimit)

end Summary

end CodeCompaction.Report
