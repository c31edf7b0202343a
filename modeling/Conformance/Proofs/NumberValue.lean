import Conformance.Json.Number
import Mathlib.Data.Rat.Cast.Order
import Mathlib.Tactic.NormNum
set_option autoImplicit false

/-!
# Numbers by value

Each number stands for one rational. The test that compares numbers across their three forms goes
through a test for a fraction and a conversion that saturates; it decides equality of the rationals.
-/
namespace Conformance

namespace Magnitude

theorem unit_pos : 0 < unit := by decide +kernel

theorem ticks_eq (x : Magnitude) : x.ticks = x.significand * 2 ^ x.scale := rfl

theorem scale_le_of_ticks_eq {x y : Magnitude} (h : x.ticks = y.ticks) : x.scale ≤ y.scale := by
  by_contra hlt
  obtain ⟨d, hd⟩ : ∃ d, x.scale = y.scale + (d + 1) := ⟨x.scale - y.scale - 1, by omega⟩
  -- the greater scale goes with a full significand, which leaves no room for the other one
  have hfull : 2 ^ 52 ≤ x.significand := x.canonical.2.2.resolve_right (by omega)
  have hsig : x.significand * 2 ^ (d + 1) = y.significand := by
    have hpos : 0 < 2 ^ y.scale := Nat.two_pow_pos _
    apply Nat.eq_of_mul_eq_mul_right hpos
    rw [ticks_eq, ticks_eq, hd, Nat.pow_add] at h
    rw [Nat.mul_assoc, Nat.mul_comm (2 ^ (d + 1))]
    exact h
  have hlarge : 2 ^ 52 * 2 ≤ x.significand * 2 ^ (d + 1) :=
    Nat.mul_le_mul hfull (by rw [Nat.pow_succ]; have := Nat.two_pow_pos d; omega)
  have hsmall := y.canonical.1
  omega

theorem ticks_injective {x y : Magnitude} (h : x.ticks = y.ticks) : x = y := by
  have hscale : x.scale = y.scale :=
    Nat.le_antisymm (scale_le_of_ticks_eq h) (scale_le_of_ticks_eq h.symm)
  have hsig : x.significand = y.significand := by
    apply Nat.eq_of_mul_eq_mul_right (Nat.two_pow_pos x.scale)
    rw [ticks_eq, ticks_eq, ← hscale] at h
    exact h
  cases x
  cases y
  simp only at hscale hsig
  subst hscale hsig
  rfl

theorem isZero_iff (x : Magnitude) : x.isZero = true ↔ x.ticks = 0 := by
  have hpos := Nat.two_pow_pos x.scale
  rw [isZero, beq_iff_eq, ticks_eq, Nat.mul_eq_zero]
  omega

end Magnitude

namespace Binary64

/-- A double is a whole number of ticks. -/
def value (x : Binary64) : ℚ := x.ticks / Magnitude.unit

theorem value_eq_iff (x y : Binary64) : x.value = y.value ↔ x.ticks = y.ticks := by
  have hunit : (Magnitude.unit : ℚ) ≠ 0 := by exact_mod_cast Magnitude.unit_pos.ne'
  rw [value, value, div_left_inj' hunit, Int.cast_inj]

theorem value_eq_int_iff (x : Binary64) (i : ℤ) :
    x.value = i ↔ x.ticks = i * (Magnitude.unit : ℤ) := by
  have hunit : (Magnitude.unit : ℚ) ≠ 0 := by exact_mod_cast Magnitude.unit_pos.ne'
  rw [value, div_eq_iff hunit]
  exact_mod_cast Iff.rfl

theorem natAbs_ticks (x : Binary64) : x.ticks.natAbs = x.magnitude.ticks := by
  rw [ticks]
  cases x.negative with
  | true => rw [if_pos rfl, Int.natAbs_neg, Int.natAbs_natCast]
  | false => rw [if_neg nofun, Int.natAbs_natCast]

theorem sign_eq_of_ticks_eq {x y : Binary64} (h : x.ticks = y.ticks) (hzero : x.magnitude.ticks ≠ 0) :
    x.negative = y.negative := by
  rw [ticks, ticks] at h
  cases hx : x.negative with
  | true =>
    cases hy : y.negative with
    | true => rfl
    | false =>
      rw [hx, hy, if_pos rfl, if_neg nofun] at h
      omega
  | false =>
    cases hy : y.negative with
    | true =>
      rw [hx, hy, if_neg nofun, if_pos rfl] at h
      omega
    | false => rfl

theorem magnitude_eq_of_ticks_eq {x y : Binary64} (h : x.ticks = y.ticks) :
    x.magnitude.ticks = y.magnitude.ticks := by
  have habs := congrArg Int.natAbs h
  rw [natAbs_ticks, natAbs_ticks] at habs
  exact habs

/-- Both zeros have no ticks; any other double is told by its ticks. -/
theorem same_iff_ticks_eq (x y : Binary64) : x.same y = true ↔ x.ticks = y.ticks := by
  simp only [same, Bool.or_eq_true, Bool.and_eq_true, Magnitude.isZero_iff, beq_iff_eq]
  constructor
  · rintro (⟨hx, hy⟩ | rfl)
    · simp [ticks, hx, hy]
    · rfl
  · intro h
    have hmagnitude := magnitude_eq_of_ticks_eq h
    by_cases hzero : x.magnitude.ticks = 0
    · exact Or.inl ⟨hzero, hmagnitude ▸ hzero⟩
    · have hsign := sign_eq_of_ticks_eq h hzero
      have hsame := Magnitude.ticks_injective hmagnitude
      cases x
      cases y
      exact Or.inr (congrArg₂ Binary64.mk hsign hsame)

theorem isWhole_iff (x : Binary64) :
    x.isWhole = true ↔ x.ticks = x.whole * (Magnitude.unit : ℤ) := by
  have hdiv := Nat.div_add_mod' x.magnitude.ticks Magnitude.unit
  have hwhole : x.magnitude.ticks % Magnitude.unit = 0 ↔
      x.magnitude.ticks = x.magnitude.ticks / Magnitude.unit * Magnitude.unit := by omega
  rw [isWhole, beq_iff_eq, hwhole, ← Int.natCast_inj, Int.natCast_mul, ticks, whole]
  cases x.negative with
  | true => rw [if_pos rfl, if_pos rfl, Int.neg_mul, Int.neg_inj]
  | false => rw [if_neg nofun, if_neg nofun]

theorem whole_eq_tdiv (x : Binary64) : x.whole = x.ticks.tdiv Magnitude.unit := by
  rw [whole, ticks]
  cases x.negative with
  | true => rw [if_pos rfl, if_pos rfl, Int.neg_tdiv, Int.ofNat_tdiv]
  | false => rw [if_neg nofun, if_neg nofun, Int.ofNat_tdiv]

end Binary64

namespace Json.Number

def value : Number → ℚ
  | natural n _ => n
  | negative n _ => -n
  | double x => x.value

theorem integer?_natural (n : ℕ) (fits : n < 2 ^ 64) : (natural n fits).integer? = some (n : ℤ) := rfl

theorem integer?_negative (n : ℕ) (fits : 0 < n ∧ n ≤ 2 ^ 63) :
    (negative n fits).integer? = some (-n : ℤ) := rfl

theorem value_of_integer? {n : Number} {i : ℤ} (h : n.integer? = some i) : n.value = i := by
  cases n with
  | natural m fits => simp only [integer?, Option.some.injEq] at h; subst h; simp [value]
  | negative m fits => simp only [integer?, Option.some.injEq] at h; subst h; simp [value]
  | double x => simp [integer?] at h

/-- No 64-bit integer comes near the bounds at which the conversion saturates. -/
theorem integer?_bounds {n : Number} {i : ℤ} (h : n.integer? = some i) :
    -(2 ^ 63) ≤ i ∧ i < 2 ^ 64 := by
  cases n with
  | natural m fits => simp only [integer?, Option.some.injEq] at h; omega
  | negative m fits => simp only [integer?, Option.some.injEq] at h; omega
  | double x => simp [integer?] at h

theorem integerIsDouble_iff (i : ℤ) (x : Binary64) (h : -(2 ^ 63) ≤ i ∧ i < 2 ^ 64) :
    integerIsDouble i x = true ↔ x.value = i := by
  have hunit : (0 : ℤ) < Magnitude.unit := by exact_mod_cast Magnitude.unit_pos
  rw [integerIsDouble, Bool.and_eq_true, beq_iff_eq, Binary64.value_eq_int_iff,
    Binary64.isWhole_iff]
  constructor
  · rintro ⟨hwhole, hcast⟩
    have hi : x.whole = i := by rw [Binary64.toInt128] at hcast; omega
    rw [hwhole, hi]
  · intro hticks
    have hwhole : x.whole = i := by
      rw [Binary64.whole_eq_tdiv, hticks, Int.mul_tdiv_cancel i hunit.ne']
    refine ⟨by rw [hticks, hwhole], ?_⟩
    rw [Binary64.toInt128, hwhole]
    omega

theorem same_double_iff {n : Number} {i : ℤ} (h : n.integer? = some i) (x : Binary64) :
    n.integer?.any (integerIsDouble · x) = true ↔ x.value = n.value := by
  rw [h, value_of_integer? h]
  exact integerIsDouble_iff i x (integer?_bounds h)

theorem same_integer_iff {m n : Number} {i j : ℤ} (hm : m.integer? = some i)
    (hn : n.integer? = some j) : (m.integer? == n.integer?) = true ↔ m.value = n.value := by
  rw [hm, hn, value_of_integer? hm, value_of_integer? hn, beq_iff_eq, Option.some.injEq, Int.cast_inj]

theorem same_iff_value_eq (m n : Number) : m.same n = true ↔ m.value = n.value := by
  cases m with
  | double x =>
    cases n with
    | double y => exact (Binary64.same_iff_ticks_eq x y).trans (Binary64.value_eq_iff x y).symm
    | natural b hb => exact same_double_iff (integer?_natural b hb) x
    | negative b hb => exact same_double_iff (integer?_negative b hb) x
  | natural a ha =>
    cases n with
    | double y => exact (same_double_iff (integer?_natural a ha) y).trans eq_comm
    | natural b hb => exact same_integer_iff (integer?_natural a ha) (integer?_natural b hb)
    | negative b hb => exact same_integer_iff (integer?_natural a ha) (integer?_negative b hb)
  | negative a ha =>
    cases n with
    | double y => exact (same_double_iff (integer?_negative a ha) y).trans eq_comm
    | natural b hb => exact same_integer_iff (integer?_negative a ha) (integer?_natural b hb)
    | negative b hb => exact same_integer_iff (integer?_negative a ha) (integer?_negative b hb)

end Json.Number
end Conformance
