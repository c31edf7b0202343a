import Conformance.FileSystem
import Conformance.Fixture.Basic
import Conformance.Json.Reader.Value
import Conformance.Json.Reader.Skip
set_option autoImplicit false

/-!
# Reading a fixture

A fixture is written as an object with the fields `data` or `hexdata` and `expected`, or as an array
of the three by position. A payload field set to null counts as absent. Members with other names are
stepped over. Exactly one payload must be left, which is asked only of a text that is well formed.
-/
namespace Conformance

structure Fixture.Record where
  data : Option String
  hexdata : Option String
  expected : Json
deriving Repr

namespace Fixture.Record

open Json Json.Reader

def wanted : String := "struct RawFixture"

structure Draft where
  data : Option (Option String) := none
  hexdata : Option (Option String) := none
  expected : Option Json := none

inductive Field where
  | data | hexdata | expected
deriving DecidableEq, Repr

def Field.name : Field → String
  | data => "data"
  | hexdata => "hexdata"
  | expected => "expected"

def Field.ofKey? (key : String) : Option Field :=
  if key = "data" then some data
  else if key = "hexdata" then some hexdata
  else if key = "expected" then some expected
  else none

def Draft.has (draft : Draft) : Field → Bool
  | .data => draft.data.isSome
  | .hexdata => draft.hexdata.isSome
  | .expected => draft.expected.isSome

/-- The complaint about a value of the wrong type. A scalar is read first, a bracket is not. -/
def wrongType {α : Type} (wanted : String) (b : UInt8) (tail : Bytes) : Except Fault α :=
  let refuse (found : Found) (rest : Bytes) : Except Fault α :=
    .error (.here (.wrongType found wanted) rest)
  match Lead.of b with
  | .null => do refuse .null (← word ['u', 'l', 'l'] tail)
  | .true => do refuse (.bool true) (← word ['r', 'u', 'e'] tail)
  | .false => do refuse (.bool false) (← word ['a', 'l', 's', 'e'] tail)
  | .minus => do
    let (n, rest) ← number true tail
    refuse (.number n) rest
  | .digit => do
    let (n, rest) ← number false (b :: tail)
    refuse (.number n) rest
  | .quote => do
    let (s, rest) ← string tail
    refuse (.string s) rest
  | .bracket => refuse .array (b :: tail)
  | .brace => refuse .object (b :: tail)
  | .other => .error (.next .expectedValue (b :: tail))

/-- A payload: a string or null. -/
def payloadText (rest : Bytes) : Except Fault (Option String × Bytes) :=
  match skipSpace rest with
  | [] => .error (.next .endInValue [])
  | b :: tail =>
    match Lead.of b with
    | .null => (word ['u', 'l', 'l'] tail).map fun rest => (none, rest)
    | .quote => (string tail).map fun r => (some r.1, r.2)
    | _ => wrongType "a string" b tail

/-- The depth that the fixture's own bracket leaves to a value. -/
def innerDepth : Nat := maxDepth - 1

def readField (draft : Draft) (rest : Bytes) : Field → Except Fault (Draft × Bytes)
  | .data => (payloadText rest).map fun r => ({ draft with data := some r.1 }, r.2)
  | .hexdata => (payloadText rest).map fun r => ({ draft with hexdata := some r.1 }, r.2)
  | .expected => (value innerDepth rest).map fun r => ({ draft with expected := some r.1 }, r.2)

/-- Over the closing bracket, where it comes next. A complaint about the fields as a whole is reported
behind it. -/
def overClosing (closing : UInt8) (rest : Bytes) : Bytes :=
  match skipSpace rest with
  | [] => []
  | b :: tail => if b = closing then tail else b :: tail

/-- The members behind the opening brace. The number of steps is bounded by the bytes left. -/
def members : Nat → Bool → Draft → Bytes → Except Fault (Draft × Bytes)
  | 0, _, _, _ => .error (.next .endInObject [])
  | steps + 1, first, draft, rest =>
    match nextKey first rest with
    | .error fault => .error fault
    | .ok (.closed rest) => .ok (draft, rest)
    | .ok (.item rest) =>
      match string rest with
      | .error fault => .error fault
      | .ok (key, rest) =>
        match Field.ofKey? key with
        | none =>
          match colon rest with
          | .error fault => .error fault
          | .ok rest =>
            match skip rest with
            | .error fault => .error fault
            | .ok rest => members steps false draft rest
        | some field =>
          if draft.has field then
            .error (.here (.duplicateField field.name) (overClosing (byte '\x7d') rest))
          else
            match colon rest with
            | .error fault => .error fault
            | .ok rest =>
              match readField draft rest field with
              | .error fault => .error fault
              | .ok (draft, rest) => members steps false draft rest

def ofMembers (rest : Bytes) : Except Fault (Record × Bytes) := do
  let (draft, rest) ← members (rest.length + 1) true {} rest
  match draft.expected with
  | none => .error (.here (.missingField Field.expected.name) rest)
  | some expected => .ok (⟨draft.data.join, draft.hexdata.join, expected⟩, rest)

def endOfElements (rest : Bytes) : Except Fault Bytes :=
  match skipSpace rest with
  | [] => .error (.next .endInArray [])
  | b :: tail =>
    if b = byte ']' then .ok tail
    else if b = byte ',' then
      match skipSpace tail with
      | [] => .error (.next .trailingCharacters [])
      | c :: more =>
        if c = byte ']' then .error (.next .trailingComma (c :: more))
        else .error (.next .trailingCharacters (c :: more))
    else .error (.next .trailingCharacters (b :: tail))

def element (index : Nat) (rest : Bytes) : Except Fault Bytes := do
  match ← nextElement (index = 0) rest with
  | .closed rest => .error (.here (.tooFewFields index (wanted ++ " with 3 elements")) rest)
  | .item rest => .ok rest

def ofElements (rest : Bytes) : Except Fault (Record × Bytes) := do
  let (data, rest) ← payloadText (← element 0 rest)
  let (hexdata, rest) ← payloadText (← element 1 rest)
  let (expected, rest) ← value innerDepth (← element 2 rest)
  .ok (⟨data, hexdata, expected⟩, ← endOfElements rest)

def read (rest : Bytes) : Except Fault (Record × Bytes) :=
  match skipSpace rest with
  | [] => .error (.next .endInValue [])
  | b :: tail =>
    match Lead.of b with
    | .brace => ofMembers tail
    | .bracket => ofElements tail
    | _ => wrongType wanted b tail

def document (whole : Bytes) : Except Fault Record := do
  let (record, rest) ← read whole
  finish rest
  pure record

end Fixture.Record

inductive FixtureError where
  | unreadable (fault : FileFault)
  | malformed (e : Json.SyntaxError)
  | noPayload
  | twoPayloads
deriving Repr

def FixtureError.message : FixtureError → String
  | unreadable fault => "cannot read fixture: " ++ fault.message
  | malformed e => "malformed fixture: " ++ e.message
  | noPayload => "fixture has neither `data` nor `hexdata`"
  | twoPayloads => "fixture has both `data` and `hexdata`"

namespace Fixture

def Record.resolve (r : Record) : Except FixtureError Fixture :=
  match r.data, r.hexdata with
  | some data, none => .ok ⟨⟨.base64, data⟩, r.expected⟩
  | none, some data => .ok ⟨⟨.hex, data⟩, r.expected⟩
  | none, none => .error .noPayload
  | some _, some _ => .error .twoPayloads

def parse (text : String) : Except FixtureError Fixture :=
  let whole := Utf8.ofString text
  match Record.document whole with
  | .error fault => .error (.malformed (fault.locate whole))
  | .ok record => record.resolve

def load (files : FileSystem) (path : String) : Except FixtureError Fixture :=
  match files.text path with
  | .error fault => .error (.unreadable fault)
  | .ok text => parse text

end Fixture
end Conformance
