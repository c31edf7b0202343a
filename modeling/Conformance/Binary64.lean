set_option autoImplicit false

/-!
# Finite double-precision numbers

A magnitude is a whole number of ticks of 2⁻¹⁰⁷⁴, written `significand * 2 ^ scale` in the one way
that the format allows. `Magnitude.nearest` rounds a quotient of ticks to the nearest magnitude, a tie
to the even significand; every operation is its exact result, so rounded. Infinities and NaN are no
numbers here: an operation that leaves the range has no result.
-/
namespace Conformance

structure Magnitude where
  significand : Nat
  scale : Nat
  canonical : significand < 0x20_0000_0000_0000 ∧ scale ≤ 2045 ∧
    (0x10_0000_0000_0000 ≤ significand ∨ scale = 0)
deriving DecidableEq, Repr

namespace Magnitude

/-- One in ticks. -/
def unit : Nat := Nat.pow 2 1074

def ticks (x : Magnitude) : Nat := x.significand * Nat.pow 2 x.scale

def zero : Magnitude := ⟨0, 0, by decide⟩

def isZero (x : Magnitude) : Bool := x.significand == 0

/-- The whole number nearest to a quotient, the even one of two. -/
def divideToEven (num den : Nat) : Nat :=
  let q := num / den
  let r := num % den
  if 2 * r < den then q else if den < 2 * r then q + 1 else q + q % 2

/-- The scale at which a whole number of ticks has a significand of 53 bits, or 0. -/
def scaleOf (whole : Nat) : Nat :=
  if whole < 0x20_0000_0000_0000 then 0 else whole.log2 - 52

def ofParts? (significand scale : Nat) : Option Magnitude :=
  if h : significand < 0x20_0000_0000_0000 ∧ scale ≤ 2045 ∧
      (0x10_0000_0000_0000 ≤ significand ∨ scale = 0) then
    some ⟨significand, scale, h⟩
  else none

/-- The magnitude nearest to `num / den` ticks, none beyond the greatest. -/
def nearest (num den : Nat) : Option Magnitude :=
  let scale := scaleOf (num / den)
  let significand := divideToEven num (den * Nat.pow 2 scale)
  if significand = 0x20_0000_0000_0000 then ofParts? 0x10_0000_0000_0000 (scale + 1)
  else ofParts? significand scale

def ofNat (n : Nat) : Option Magnitude := nearest (n * unit) 1

def mul (x y : Magnitude) : Option Magnitude := nearest (x.ticks * y.ticks) unit

/-- The quotient by a divisor other than zero. -/
def div (x y : Magnitude) : Option Magnitude := nearest (x.ticks * unit) y.ticks

end Magnitude

structure Binary64 where
  negative : Bool
  magnitude : Magnitude
deriving DecidableEq, Repr

namespace Binary64

def ticks (x : Binary64) : Int :=
  if x.negative then -(x.magnitude.ticks : Int) else x.magnitude.ticks

/-- The comparison of doubles: by value, so the two zeros are equal. -/
def same (x y : Binary64) : Bool :=
  (x.magnitude.isZero && y.magnitude.isZero) || x == y

def isWhole (x : Binary64) : Bool := x.magnitude.ticks % Magnitude.unit == 0

/-- The whole part, toward zero. -/
def whole (x : Binary64) : Int :=
  let n : Int := (x.magnitude.ticks / Magnitude.unit : Nat)
  if x.negative then -n else n

/-- The whole part as a signed 128-bit integer; what lies outside becomes the nearest bound. -/
def toInt128 (x : Binary64) : Int :=
  max (-0x8000_0000_0000_0000_0000_0000_0000_0000)
    (min 0x7FFF_FFFF_FFFF_FFFF_FFFF_FFFF_FFFF_FFFF x.whole)

end Binary64
end Conformance
