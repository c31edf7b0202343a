import Conformance.Proofs.Schedule
set_option autoImplicit false

/-!
# What a verbose run adds

A run can be told in notices, one for each fixture that it takes: the fixture has passed, or has failed with
a message. A quiet run writes the error lines of the notices. A verbose run takes the same fixtures and asks
the same of its stages; it puts a coloured line before each error line, writes one where a quiet run writes
none, and closes with the numbers of notices.
-/
namespace Conformance.Suite

inductive Notice where
  | passed (path : String)
  | failed (path message : String)
deriving DecidableEq, Repr

namespace Notice

def path : Notice → String
  | passed path => path
  | failed path _ => path

end Notice

def tally (colour : Colour) (count : ℕ) (word : String) : List String :=
  if count = 0 then [] else [coloured colour (toString count) ++ " " ++ coloured colour word]

def closing (failed skipped passed total : ℕ) : String :=
  "\n" ++ ", ".intercalate (tally .red failed "failed" ++ tally .yellow skipped "skipped" ++
    tally .green passed "passed" ++ [toString total ++ " total"]) ++ "\n"

/-! ## The summary -/

section Events

variable (all : List Event) (keepGoing : Bool)

end Events

end Conformance.Suite
