import Conformance.Json.Reader.Text
set_option autoImplicit false

/-!
# Values that nobody asks for

`skip` steps over a value. It holds numbers and strings to their grammar only: no number is too great,
surrogates need no partner, and brackets may be open to any depth, so it keeps the open ones in a list.
-/
namespace Conformance.Json.Reader

/-- The exponent behind an `e`, which has at least one digit. -/
def skipExponent (rest : Bytes) : Except Fault Bytes :=
  let rest := match rest with
    | [] => []
    | b :: tail => if b = byte '+' ∨ b = byte '-' then tail else b :: tail
  match rest with
  | [] => .error (.here .invalidNumber [])
  | b :: tail =>
    if isDigit b then .ok (tail.dropWhile isDigit) else .error (.here .invalidNumber tail)

def skipExponentPart (rest : Bytes) : Except Fault Bytes :=
  match rest with
  | [] => .ok []
  | b :: tail => if b = byte 'e' ∨ b = byte 'E' then skipExponent tail else .ok (b :: tail)

def skipFractionPart (rest : Bytes) : Except Fault Bytes :=
  match rest with
  | [] => .ok []
  | b :: tail =>
    if b = byte '.' then
      match tail with
      | [] => .error (.next .invalidNumber [])
      | c :: more =>
        if isDigit c then skipExponentPart (more.dropWhile isDigit)
        else .error (.next .invalidNumber (c :: more))
    else skipExponentPart (b :: tail)

/-- A number behind its sign. -/
def skipNumber : Bytes → Except Fault Bytes
  | [] => .error (.here .invalidNumber [])
  | b :: rest =>
    if b = byte '0' then
      match rest with
      | [] => .ok []
      | c :: more =>
        if isDigit c then .error (.next .invalidNumber (c :: more)) else skipFractionPart (c :: more)
    else if isDigit b then skipFractionPart (rest.dropWhile isDigit)
    else .error (.here .invalidNumber rest)

/-- A string behind its opening quote. The number of steps is bounded by the bytes left. -/
def skipStringBytes : Nat → Bytes → Except Fault Bytes
  | 0, _ => .error (.here .endInString [])
  | _ + 1, [] => .error (.here .endInString [])
  | steps + 1, b :: rest =>
    if b = byte '"' then .ok rest
    else if b = byte '\\' then
      match rest with
      | [] => .error (.here .endInString [])
      | c :: more =>
        if (simpleEscape c).isSome then skipStringBytes steps more
        else if c = byte 'u' then
          match hexQuad more with
          | .error fault => .error fault
          | .ok (_, more) => skipStringBytes steps more
        else .error (.here .invalidEscape more)
    else if b < 0x20 then .error (.here .controlCharacter (b :: rest))
    else skipStringBytes steps rest

def skipString (rest : Bytes) : Except Fault Bytes := skipStringBytes (rest.length + 1) rest

inductive Bracket where
  | square | curly
deriving DecidableEq, Repr

namespace Bracket

def closing : Bracket → UInt8
  | square => byte ']'
  | curly => byte '\x7d'

def endInside : Bracket → Cause
  | square => .endInArray
  | curly => .endInObject

def expectedComma : Bracket → Cause
  | square => .expectedCommaOrBracket
  | curly => .expectedCommaOrBrace

end Bracket

/-- Over the key and the colon that stand before a value, where it is a member's. -/
def skipKey (inside : Bracket) (rest : Bytes) : Except Fault Bytes :=
  match inside with
  | .square => .ok rest
  | .curly =>
    match skipSpace rest with
    | [] => .error (.next .endInObject [])
    | b :: tail =>
      if b = byte '"' then
        match skipString tail with
        | .error fault => .error fault
        | .ok rest => colon rest
      else .error (.next .expectedKey (b :: tail))

def skipScalar (b : UInt8) (tail : Bytes) : Except Fault Bytes :=
  match Lead.of b with
  | .null => word ['u', 'l', 'l'] tail
  | .true => word ['r', 'u', 'e'] tail
  | .false => word ['a', 'l', 's', 'e'] tail
  | .minus => skipNumber tail
  | .digit => skipNumber (b :: tail)
  | .quote => skipString tail
  | _ => .error (.next .expectedValue (b :: tail))

def Bracket.opened? (b : UInt8) : Option Bracket :=
  match Lead.of b with
  | .bracket => some .square
  | .brace => some .curly
  | _ => none

mutual

/-- A value inside the brackets that are open, and what closes them. -/
def skipValue : Nat → List Bracket → Bytes → Except Fault Bytes
  | 0, _, _ => .error (.next .endInValue [])
  | steps + 1, enclosing, rest =>
    match skipSpace rest with
    | [] => .error (.next .endInValue [])
    | b :: tail =>
      match Bracket.opened? b with
      | none =>
        match skipScalar b tail with
        | .error fault => .error fault
        | .ok rest => skipAfter steps enclosing rest
      | some bracket =>
        match skipSpace tail with
        | [] => .error (.next bracket.endInside [])
        | c :: more =>
          if c = bracket.closing then skipAfter steps enclosing more
          else
            match skipKey bracket (c :: more) with
            | .error fault => .error fault
            | .ok rest => skipValue steps (bracket :: enclosing) rest

/-- What follows a value: nothing where no bracket is open, else a comma or the closing bracket. -/
def skipAfter : Nat → List Bracket → Bytes → Except Fault Bytes
  | _, [], rest => .ok rest
  | 0, bracket :: _, _ => .error (.next bracket.endInside [])
  | steps + 1, bracket :: enclosing, rest =>
    match skipSpace rest with
    | [] => .error (.next bracket.endInside [])
    | b :: tail =>
      if b = bracket.closing then skipAfter steps enclosing tail
      else if b = byte ',' then
        match skipKey bracket tail with
        | .error fault => .error fault
        | .ok rest => skipValue steps (bracket :: enclosing) rest
      else .error (.next bracket.expectedComma (b :: tail))

end

/-- Steps over a value. Each step takes at least one byte, the last one apart. -/
def skip (rest : Bytes) : Except Fault Bytes := skipValue (rest.length + 1) [] rest

end Conformance.Json.Reader
