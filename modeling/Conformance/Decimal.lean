import Conformance.Binary64
set_option autoImplicit false

/-!
# Decimal numbers and doubles

`Decimal.nearest` reads a decimal correctly rounded. `shortest` writes a magnitude with the fewest
digits that read back, of those the nearest decimal, and of two equally near the even one. The search
tests each candidate by reading it, so what it finds reads back by construction.
`scaled` is the coarser conversion that the reader of number texts uses: it rounds the digits to a
double first and then multiplies or divides by a rounded power of ten.
-/
namespace Conformance

/-- The number `digits * 10 ^ exponent`. -/
structure Decimal where
  digits : Nat
  exponent : Int
deriving DecidableEq, Repr

namespace Decimal

def ratio (d : Decimal) : Nat × Nat :=
  match d.exponent with
  | .ofNat k => (d.digits * Nat.pow 10 k * Magnitude.unit, 1)
  | .negSucc k => (d.digits * Magnitude.unit, Nat.pow 10 (k + 1))

def nearest (d : Decimal) : Option Magnitude := Magnitude.nearest d.ratio.1 d.ratio.2

/-- The number of digits of a whole number in base ten. -/
def width (n : Nat) : Nat := (Nat.toDigits 10 n).length

/-- The decimal exponent of the leading digit of a magnitude other than zero. -/
def leadingExponent (x : Magnitude) : Int :=
  let e : Int := (width x.ticks : Int) - width Magnitude.unit
  let (num, den) := ratio ⟨1, e⟩
  if num ≤ x.ticks * den then e else e - 1

/-- The two neighbours of a magnitude among the multiples of `10 ^ exponent`, the better one first:
the nearer, or the even one where both are equally near. -/
def neighbours (x : Magnitude) (exponent : Int) : List Decimal :=
  let (num, den) := match exponent with
    | .ofNat k => (x.ticks, Magnitude.unit * Nat.pow 10 k)
    | .negSucc k => (x.ticks * Nat.pow 10 (k + 1), Magnitude.unit)
  let q := num / den
  let r := num % den
  if 2 * r < den ∨ (2 * r = den ∧ q % 2 = 0) then [⟨q, exponent⟩, ⟨q + 1, exponent⟩]
  else [⟨q + 1, exponent⟩, ⟨q, exponent⟩]

def readsBack (x : Magnitude) (d : Decimal) : Bool := d.nearest == some x

def exact (x : Magnitude) : Decimal := ⟨x.ticks * Nat.pow 5 1074, -1074⟩

/-- Seventeen digits always suffice; `exact` stands behind them so that the result reads back without
that fact. -/
def shortest (x : Magnitude) : Decimal :=
  let e := leadingExponent x
  ((List.range 17).findSome? fun (n : Nat) => (neighbours x (e - n)).find? (readsBack x)).getD (exact x)

/-- Multiplies or divides by a power of ten that may lie far outside the range: at most 308 decimal
places at a time going down, at once going up. -/
def shift : Nat → Magnitude → Int → Option Magnitude
  | steps, x, e =>
    if e.natAbs ≤ 308 then do
      let power ← Magnitude.ofNat (Nat.pow 10 e.natAbs)
      if 0 ≤ e then x.mul power else x.div power
    else if x.isZero then some x
    else if 0 < e then none
    else match steps with
      | 0 => none
      | steps + 1 => do
        let power ← Magnitude.ofNat (Nat.pow 10 308)
        shift steps (← x.div power) (e + 308)

/-- The value that the reader of number texts gives to a decimal, none beyond the greatest double. -/
def scaled (d : Decimal) : Option Magnitude := do
  shift (d.exponent.natAbs / 308 + 1) (← Magnitude.ofNat d.digits) d.exponent

end Decimal
end Conformance
