import Conformance.Json.Reader.Numeral
import Conformance.Json.Reader.Text
set_option autoImplicit false

/-!
# Values and documents

`value depth` reads a value that may open `depth` brackets inside one another. A document may open
127 of them.
-/
namespace Conformance.Json

namespace Reader

/-- The elements behind an opening bracket, in front of them those read before, reversed. -/
def elements (item : Reader Json) : Nat → Bool → List Json → Reader (List Json)
  | 0, _, _ => fun _ => .error (.here .endInArray [])
  | steps + 1, first, done => fun rest =>
    match nextElement first rest with
    | .error fault => .error fault
    | .ok (.closed rest) => .ok (done.reverse, rest)
    | .ok (.item rest) =>
      match item rest with
      | .error fault => .error fault
      | .ok (v, rest) => elements item steps false (v :: done) rest

/-- The pairs behind an opening brace, in front of them those read before, reversed. -/
def pairs (item : Reader Json) : Nat → Bool → List (String × Json) → Reader (List (String × Json))
  | 0, _, _ => fun _ => .error (.here .endInObject [])
  | steps + 1, first, done => fun rest =>
    match nextKey first rest with
    | .error fault => .error fault
    | .ok (.closed rest) => .ok (done.reverse, rest)
    | .ok (.item rest) =>
      match string rest with
      | .error fault => .error fault
      | .ok (key, rest) =>
        match colon rest with
        | .error fault => .error fault
        | .ok rest =>
          match item rest with
          | .error fault => .error fault
          | .ok (v, rest) => pairs item steps false ((key, v) :: done) rest

def array (item : Reader Json) (rest : Bytes) : Except Fault (Json × Bytes) :=
  (elements item (rest.length + 1) true [] rest).map fun r => (.array r.1, r.2)

def object (item : Reader Json) (rest : Bytes) : Except Fault (Json × Bytes) :=
  (pairs item (rest.length + 1) true [] rest).map fun r => (.object (Members.ofPairs r.1), r.2)

/-- A value whose arrays and objects, if any may be opened, hold what `inner` reads. -/
def valueOver (inner : Option (Reader Json)) (rest : Bytes) : Except Fault (Json × Bytes) :=
  match skipSpace rest with
  | [] => .error (.next .endInValue [])
  | b :: tail =>
    match Lead.of b with
    | .null => (word ['u', 'l', 'l'] tail).map fun rest => (.null, rest)
    | .true => (word ['r', 'u', 'e'] tail).map fun rest => (.bool true, rest)
    | .false => (word ['a', 'l', 's', 'e'] tail).map fun rest => (.bool false, rest)
    | .minus => (number true tail).map fun r => (.number r.1, r.2)
    | .digit => (number false (b :: tail)).map fun r => (.number r.1, r.2)
    | .quote => (string tail).map fun r => (.string r.1, r.2)
    | .bracket =>
      match inner with
      | none => .error (.next .tooDeep (b :: tail))
      | some item => array item tail
    | .brace =>
      match inner with
      | none => .error (.next .tooDeep (b :: tail))
      | some item => object item tail
    | .other => .error (.next .expectedValue (b :: tail))

def value : Nat → Reader Json
  | 0 => valueOver none
  | depth + 1 => valueOver (some (value depth))

/-- The number of brackets that a document may open inside one another. -/
def maxDepth : Nat := 127

def document (whole : Bytes) : Except Fault Json := do
  let (v, rest) ← value maxDepth whole
  finish rest
  pure v

end Reader

def read (whole : Bytes) : Except SyntaxError Json :=
  (Reader.document whole).mapError fun fault => fault.locate whole

def parse (text : String) : Except SyntaxError Json := read (Utf8.ofString text)

end Conformance.Json
