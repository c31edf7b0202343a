import Conformance.Decimal
set_option autoImplicit false

/-!
# JSON numbers

A number is an unsigned 64-bit integer, a negative signed 64-bit integer or a finite double. `same` is
equality by value across the three; `text` writes a number so that it reads back.
-/
namespace Conformance.Json

inductive Number where
  | natural (n : Nat) (fits : n < 0x1_0000_0000_0000_0000)
  /-- The integer `-n`. -/
  | negative (n : Nat) (fits : 0 < n ∧ n ≤ 0x8000_0000_0000_0000)
  | double (x : Binary64)
deriving DecidableEq, Repr

namespace Number

def integer? : Number → Option Int
  | natural n _ => some n
  | negative n _ => some (-n)
  | double _ => none

/-- A double is an integer when it is whole and its 128-bit whole part is that integer. -/
def integerIsDouble (i : Int) (x : Binary64) : Bool := x.isWhole && x.toInt128 == i

def same : Number → Number → Bool
  | double x, double y => x.same y
  | double x, m => m.integer?.any fun i => integerIsDouble i x
  | n, double y => n.integer?.any fun i => integerIsDouble i y
  | n, m => n.integer? == m.integer?

/-- A number text in parts: `±significand * 10 ^ exponent`, and whether it has neither a fraction nor
an exponent nor digits beyond the significand. -/
structure Numeral where
  negative : Bool
  significand : Nat
  exponent : Int
  plain : Bool
deriving DecidableEq, Repr

/-- The integer of a plain numeral, where 64 bits hold it. There is no negative zero among them. -/
def integerOf? (n : Numeral) : Option Number :=
  if n.plain = false then none
  else if n.negative = false then
    if h : n.significand < 0x1_0000_0000_0000_0000 then some (natural n.significand h) else none
  else
    if h : 0 < n.significand ∧ n.significand ≤ 0x8000_0000_0000_0000 then
      some (negative n.significand h)
    else none

/-- The number of a numeral, none where it lies beyond the greatest double. -/
def ofNumeral? (n : Numeral) : Option Number :=
  match integerOf? n with
  | some i => some i
  | none => (Decimal.scaled ⟨n.significand, n.exponent⟩).map fun x => double ⟨n.negative, x⟩

/-! ## Writing -/

/-- Between these exponents of the leading digit a double is written positionally. -/
def positional (exponent : Int) : Bool := -5 ≤ exponent && exponent ≤ 15

def zeros (n : Nat) : List Char := List.replicate n '0'

/-- The text of the digits `ds`, the first of which stands for a multiple of `10 ^ exponent`. A
positional text always has a fraction; the other form has a point only before a second digit, and
always the sign of the exponent. -/
def layout (ds : List Char) (exponent : Int) : List Char :=
  if positional exponent then
    match exponent with
    | .ofNat k =>
      let fraction := ds.drop (k + 1)
      ds.take (k + 1) ++ zeros (k + 1 - ds.length) ++ '.' :: (if fraction.isEmpty then ['0'] else fraction)
    | .negSucc k => '0' :: '.' :: (zeros k ++ ds)
  else
    let fraction := ds.drop 1
    ds.take 1 ++ (if fraction.isEmpty then [] else '.' :: fraction) ++ 'e'
      :: (if exponent < 0 then '-' else '+') :: Nat.toDigits 10 exponent.natAbs

/-- The digits of a whole number without the zeros at their end. -/
def significantDigits (n : Nat) : List Char :=
  ((Nat.toDigits 10 n).reverse.dropWhile (· = '0')).reverse

def magnitudeText (x : Magnitude) : List Char :=
  if x.isZero then ['0', '.', '0']
  else
    let d := Decimal.shortest x
    layout (significantDigits d.digits) (d.exponent + (Decimal.width d.digits - 1 : Nat))

def text : Number → List Char
  | natural n _ => Nat.toDigits 10 n
  | negative n _ => '-' :: Nat.toDigits 10 n
  | double x => (if x.negative then ['-'] else []) ++ magnitudeText x.magnitude

end Number
end Conformance.Json
