import Conformance.Json.Reader.Basic
set_option autoImplicit false

/-!
# Number texts

Digits are taken into a 64-bit significand until the next one would not fit. An integer digit left
out adds one to the exponent; a fraction digit taken lowers it by one, one left out changes nothing.
-/
namespace Conformance.Json.Reader

open Number (Numeral)

/-- Takes digits into a significand as long as it stays below 2⁶⁴; the second part is left out. -/
def absorb : Nat → List Nat → Nat × List Nat
  | s, [] => (s, [])
  | s, d :: ds => if s * 10 + d < 0x1_0000_0000_0000_0000 then absorb (s * 10 + d) ds else (s, d :: ds)

def digits (rest : Bytes) : List Nat := (rest.takeWhile isDigit).map digit

def skipDigits (rest : Bytes) : Bytes := rest.dropWhile isDigit

/-- The digits before the point. A leading zero stands alone. -/
def integerDigits : Reader (List Nat)
  | [] => .error (.here .endInValue [])
  | b :: rest =>
    if b = byte '0' then
      match rest with
      | [] => .ok ([0], [])
      | c :: more =>
        if isDigit c then .error (.next .invalidNumber (c :: more)) else .ok ([0], c :: more)
    else if isDigit b then .ok (digits (b :: rest), skipDigits rest)
    else .error (.here .invalidNumber rest)

/-- The digits behind a point, at least one. -/
def fractionDigits (rest : Bytes) : Except Fault (List Nat × Bytes) :=
  match rest with
  | [] => .error (.next .endInValue [])
  | b :: _ =>
    if isDigit b then .ok (digits rest, skipDigits rest) else .error (.next .invalidNumber rest)

/-- The value of exponent digits; where it passes 2³¹ - 1, what is left behind that digit. -/
def exponentValue : Nat → Bytes → Except Bytes (Nat × Bytes)
  | v, [] => .ok (v, [])
  | v, b :: rest =>
    if isDigit b then
      if v * 10 + digit b < 0x8000_0000 then exponentValue (v * 10 + digit b) rest else .error rest
    else .ok (v, b :: rest)

def exponentSign : Bytes → Bool × Bytes
  | [] => (false, [])
  | b :: rest =>
    if b = byte '+' then (false, rest) else if b = byte '-' then (true, rest) else (false, b :: rest)

/-- The exponent behind an `e`, added to the one that the digits already have. An exponent beyond 31
bits makes every number zero or too great. -/
def withExponent (n : Numeral) (rest : Bytes) : Except Fault (Numeral × Bytes) :=
  let (down, rest) := exponentSign rest
  match rest with
  | [] => .error (.here .endInValue [])
  | b :: tail =>
    if isDigit b then
      match exponentValue 0 (b :: tail) with
      | .ok (v, rest) =>
        .ok ({ n with exponent := if down then n.exponent - v else n.exponent + v, plain := false }, rest)
      | .error rest =>
        if n.significand ≠ 0 ∧ down = false then .error (.here .numberOutOfRange rest)
        else .ok (⟨n.negative, 0, 0, false⟩, skipDigits rest)
    else .error (.here .invalidNumber tail)

/-- What follows the digits of a number: an exponent, or nothing of it. -/
def exponentPart (n : Numeral) (rest : Bytes) : Except Fault (Numeral × Bytes) :=
  match rest with
  | [] => .ok (n, [])
  | b :: tail => if b = byte 'e' ∨ b = byte 'E' then withExponent n tail else .ok (n, b :: tail)

def fractionPart (n : Numeral) (rest : Bytes) : Except Fault (Numeral × Bytes) :=
  match rest with
  | [] => .ok (n, [])
  | b :: tail =>
    if b = byte '.' then do
      let (ds, rest) ← fractionDigits tail
      let (s, out) := absorb n.significand ds
      exponentPart ⟨n.negative, s, n.exponent - (ds.length - out.length : Nat), false⟩ rest
    else exponentPart n (b :: tail)

/-- A number behind its sign. -/
def numeral (negative : Bool) (rest : Bytes) : Except Fault (Numeral × Bytes) := do
  let (ds, rest) ← integerDigits rest
  let (s, out) := absorb 0 ds
  fractionPart ⟨negative, s, out.length, out.isEmpty⟩ rest

def number (negative : Bool) (rest : Bytes) : Except Fault (Number × Bytes) := do
  let (n, rest) ← numeral negative rest
  match Number.ofNumeral? n with
  | some v => .ok (v, rest)
  | none => .error (.here .numberOutOfRange rest)

end Conformance.Json.Reader
