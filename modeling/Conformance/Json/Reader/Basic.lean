import Conformance.Json.Fault
set_option autoImplicit false

/-!
# Reading from the front of a byte string

A reader takes the front of what is left and returns the rest. Here are the parts that the strict
reader, the reader of fixtures and the skipping of unused values share: blanks, words, what a byte
begins, and the commas and brackets of arrays and objects.
-/
namespace Conformance.Json

abbrev Reader (α : Type) := Bytes → Except Fault (α × Bytes)

namespace Reader

def byte (c : Char) : UInt8 := c.toUInt8

def isSpace (b : UInt8) : Bool := b == 0x20 || b == 0x09 || b == 0x0A || b == 0x0D

def isDigit (b : UInt8) : Bool := 0x30 ≤ b && b ≤ 0x39

def digit (b : UInt8) : Nat := b.toNat - 0x30

def skipSpace (rest : Bytes) : Bytes := rest.dropWhile isSpace

/-- What a byte begins. -/
inductive Lead where
  | null | true | false | minus | digit | quote | bracket | brace | other
deriving DecidableEq, Repr

def Lead.of (b : UInt8) : Lead :=
  if b = byte 'n' then .null
  else if b = byte 't' then .true
  else if b = byte 'f' then .false
  else if b = byte '-' then .minus
  else if isDigit b then .digit
  else if b = byte '"' then .quote
  else if b = byte '[' then .bracket
  else if b = byte '\x7b' then .brace
  else .other

def word : List Char → Bytes → Except Fault Bytes
  | [], rest => .ok rest
  | _ :: _, [] => .error (.here .endInValue [])
  | c :: cs, b :: rest => if b = byte c then word cs rest else .error (.here .expectedWord rest)

/-- The place inside an array or an object where it ends or goes on. -/
inductive Turn where
  | closed (rest : Bytes)
  | item (rest : Bytes)

/-- Up to the next element of an array, over the comma unless it is the first. -/
def nextElement (first : Bool) (rest : Bytes) : Except Fault Turn :=
  match skipSpace rest with
  | [] => .error (.next .endInArray [])
  | b :: tail =>
    if b = byte ']' then .ok (.closed tail)
    else if first then .ok (.item (b :: tail))
    else if b = byte ',' then
      match skipSpace tail with
      | [] => .error (.next .endInValue [])
      | c :: more =>
        if c = byte ']' then .error (.next .trailingComma (c :: more)) else .ok (.item (c :: more))
    else .error (.next .expectedCommaOrBracket (b :: tail))

/-- Into the next key of an object, over the comma unless it is the first and over the quote. -/
def nextKey (first : Bool) (rest : Bytes) : Except Fault Turn :=
  match skipSpace rest with
  | [] => .error (.next .endInObject [])
  | b :: tail =>
    if b = byte '\x7d' then .ok (.closed tail)
    else if first then
      if b = byte '"' then .ok (.item tail) else .error (.next .expectedKey (b :: tail))
    else if b = byte ',' then
      match skipSpace tail with
      | [] => .error (.next .endInValue [])
      | c :: more =>
        if c = byte '"' then .ok (.item more)
        else if c = byte '\x7d' then .error (.next .trailingComma (c :: more))
        else .error (.next .expectedKey (c :: more))
    else .error (.next .expectedCommaOrBrace (b :: tail))

def colon (rest : Bytes) : Except Fault Bytes :=
  match skipSpace rest with
  | [] => .error (.next .endInObject [])
  | b :: tail => if b = byte ':' then .ok tail else .error (.next .expectedColon (b :: tail))

/-- Only blanks may follow a document. -/
def finish (rest : Bytes) : Except Fault Unit :=
  match skipSpace rest with
  | [] => .ok ()
  | b :: tail => .error (.next .trailingCharacters (b :: tail))

end Reader
end Conformance.Json
