import Conformance.Json.Printer
import Conformance.Location
set_option autoImplicit false

/-!
# Does an observed document contain the expected one?

The members of an expected object are looked for by key in their order, the elements of an expected
array by position, and anything else has to be equal; what only the observed document has is ignored.
`compare` reports the first difference.
-/
namespace Conformance

inductive Mismatch where
  | missing (place : Path)
  | kinds (place : Path) (expected found : Json.Kind)
  | values (place : Path) (expected found : Json)
deriving Repr

namespace Mismatch

def place : Mismatch → Path
  | missing place => place
  | kinds place _ _ => place
  | values place _ _ => place

def message : Mismatch → String
  | missing place => "missing " ++ place.render ++ " from result"
  | kinds place expected found =>
    "type mismatch at " ++ place.render ++ ": expected " ++ expected.name ++ ", found " ++ found.name
  | values place expected found =>
    "mismatch at " ++ place.render ++ ": expected " ++ expected.render ++ ", found " ++ found.render

end Mismatch

namespace Comparison

open Json (Members)

/-- Equality where the first is neither an object nor an array. Numbers are equal by value. -/
def sameScalar : Json → Json → Bool
  | .null, .null => true
  | .bool a, .bool b => a == b
  | .number a, .number b => a.same b
  | .string a, .string b => a == b
  | _, _ => false

mutual

def compareAt (here : Path) : Json → Json → Except Mismatch Unit
  | .object members, observed =>
    match observed with
    | .object found => membersAt here members found
    | other => .error (.kinds here .object other.kind)
  | .array items, observed =>
    match observed with
    | .array found => elementsAt here 0 items found
    | other => .error (.kinds here .array other.kind)
  | scalar, observed =>
    if sameScalar scalar observed then .ok () else .error (.values here scalar observed)

def membersAt (here : Path) : List (String × Json) → Members → Except Mismatch Unit
  | [], _ => .ok ()
  | (key, expected) :: rest, found =>
    match found.get? key with
    | none => .error (.missing (here.extend (.key key)))
    | some observed =>
      match compareAt (here.extend (.key key)) expected observed with
      | .error m => .error m
      | .ok () => membersAt here rest found

/-- The elements from index `n` on. -/
def elementsAt (here : Path) (n : Nat) : List Json → List Json → Except Mismatch Unit
  | [], _ => .ok ()
  | _ :: _, [] => .error (.missing (here.extend (.index n)))
  | expected :: rest, observed :: found =>
    match compareAt (here.extend (.index n)) expected observed with
    | .error m => .error m
    | .ok () => elementsAt here (n + 1) rest found

end

/-- The first difference that keeps `observed` from containing `expected`. -/
def compare (expected observed : Json) : Except Mismatch Unit :=
  compareAt .root expected observed

end Comparison
end Conformance
