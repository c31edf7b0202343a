import Conformance.Json.Printer
import Conformance.Text.Quoted
import Conformance.Text.Utf8
set_option autoImplicit false

/-!
# Why a text cannot be read

A reader reports a cause and how many bytes it had left, so that it needs no position of its own;
`Fault.locate` turns that into the line and the column that a person is shown.
-/
namespace Conformance.Json

/-- What stands in a text where another type of value is asked for. -/
inductive Found where
  | null
  | bool (b : Bool)
  | number (n : Number)
  | string (s : String)
  | array
  | object
deriving Repr

namespace Found

def describe : Found → String
  | null => "null"
  | bool true => "boolean `true`"
  | bool false => "boolean `false`"
  | number (.double x) => "floating point `" ++ String.ofList (Number.text (.double x)) ++ "`"
  | number n => "integer `" ++ String.ofList n.text ++ "`"
  | string s => "string " ++ quoted s
  | array => "sequence"
  | object => "map"

end Found

inductive Cause where
  | endInValue | endInString | endInArray | endInObject
  | expectedWord | expectedValue | expectedColon | expectedCommaOrBracket | expectedCommaOrBrace
  | expectedKey | trailingComma | trailingCharacters
  | invalidNumber | numberOutOfRange
  | invalidEscape | controlCharacter | invalidUtf8 | loneSurrogate | unpairedSurrogate
  | tooDeep
  /-- A field of a record that is given a second time. -/
  | duplicateField (name : String)
  | missingField (name : String)
  /-- A record written by position with too few values. -/
  | tooFewFields (count : Nat) (wanted : String)
  | wrongType (found : Found) (wanted : String)
deriving Repr

namespace Cause

def describe : Cause → String
  | endInValue => "EOF while parsing a value"
  | endInString => "EOF while parsing a string"
  | endInArray => "EOF while parsing a list"
  | endInObject => "EOF while parsing an object"
  | expectedWord => "expected ident"
  | expectedValue => "expected value"
  | expectedColon => "expected `:`"
  | expectedCommaOrBracket => "expected `,` or `]`"
  | expectedCommaOrBrace => "expected `,` or `\x7d`"
  | expectedKey => "key must be a string"
  | trailingComma => "trailing comma"
  | trailingCharacters => "trailing characters"
  | invalidNumber => "invalid number"
  | numberOutOfRange => "number out of range"
  | invalidEscape => "invalid escape"
  | controlCharacter => "control character (\\u0000-\\u001F) found while parsing a string"
  | invalidUtf8 => "invalid unicode code point"
  | loneSurrogate => "lone leading surrogate in hex escape"
  | unpairedSurrogate => "unexpected end of hex escape"
  | tooDeep => "recursion limit exceeded"
  | duplicateField name => "duplicate field `" ++ name ++ "`"
  | missingField name => "missing field `" ++ name ++ "`"
  | tooFewFields count wanted => "invalid length " ++ toString count ++ ", expected " ++ wanted
  | wrongType found wanted => "invalid type: " ++ found.describe ++ ", expected " ++ wanted

end Cause

/-- A cause, the bytes left where it is reported, and how many columns before that place. -/
structure Fault where
  cause : Cause
  left : Nat
  back : Nat := 0
deriving Repr

namespace Fault

/-- Reported before the byte under the cursor. -/
def here (cause : Cause) (rest : Bytes) : Fault := ⟨cause, rest.length, 0⟩

/-- Reported at the byte under the cursor, or at the end. -/
def next (cause : Cause) (rest : Bytes) : Fault := ⟨cause, rest.length - 1, 0⟩

end Fault

/-- A fault as it is shown. Lines count from one, columns are the bytes read of the line. -/
structure SyntaxError where
  cause : Cause
  line : Nat
  column : Nat
deriving Repr

def newline : UInt8 := 0x0A

/-- The number of lines begun and the bytes of the last one. -/
def lineAndColumn (bytes : Bytes) : Nat × Nat :=
  (1 + bytes.count newline, (bytes.reverse.takeWhile (· != newline)).length)

def Fault.locate (fault : Fault) (whole : Bytes) : SyntaxError :=
  let (line, column) := lineAndColumn (whole.take (whole.length - fault.left))
  ⟨fault.cause, line, column - fault.back⟩

def SyntaxError.message (e : SyntaxError) : String :=
  e.cause.describe ++ " at line " ++ toString e.line ++ " column " ++ toString e.column

end Conformance.Json
