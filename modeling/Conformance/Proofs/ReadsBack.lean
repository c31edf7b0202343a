import Conformance.Proofs.Rounding
import Mathlib.Algebra.Order.Field.Basic
import Mathlib.Tactic.FieldSimp
import Mathlib.Tactic.Ring
set_option autoImplicit false

/-!
# What a decimal reads back as

A decimal is rounded by its value alone, however its digits are split from its exponent. The decimal that
is chosen to write a magnitude reads back as that magnitude, so that it stands for no other one.
-/
namespace Conformance

namespace Magnitude

variable {num den num' den' : ℕ}

theorem divideToEven_mul (num den : ℕ) {c : ℕ} (hc : 0 < c) :
    divideToEven (num * c) (den * c) = divideToEven num den := by
  have hbelow : 2 * (num % den * c) < den * c ↔ 2 * (num % den) < den := by
    rw [← Nat.mul_assoc, Nat.mul_lt_mul_right hc]
  have habove : den * c < 2 * (num % den * c) ↔ den < 2 * (num % den) := by
    rw [← Nat.mul_assoc, Nat.mul_lt_mul_right hc]
  unfold divideToEven
  simp only [Nat.mul_div_mul_right _ _ hc, Nat.mul_mod_mul_right, hbelow, habove]

theorem nearest_mul (num den : ℕ) {c : ℕ} (hc : 0 < c) : nearest (num * c) (den * c) = nearest num den := by
  have hscaled : ∀ p, den * c * p = den * p * c := fun p => Nat.mul_right_comm den c p
  unfold nearest
  simp only [Nat.mul_div_mul_right _ _ hc, hscaled, divideToEven_mul _ _ hc]

/-- Equal quotients are rounded alike. -/
theorem nearest_eq_of_cross (hden : 0 < den) (hden' : 0 < den') (h : num * den' = num' * den) :
    nearest num den = nearest num' den' := by
  rw [← nearest_mul num den hden', h, Nat.mul_comm den den', nearest_mul num' den' hden]

end Magnitude

namespace Decimal

def value (d : Decimal) : ℚ := d.digits * 10 ^ d.exponent

theorem ratio_pos (d : Decimal) : 0 < d.ratio.2 := by
  obtain ⟨digits, exponent⟩ := d
  cases exponent with
  | ofNat k => exact Nat.one_pos
  | negSucc k => exact Nat.pow_pos (by decide)

theorem ratio_value (d : Decimal) : (d.ratio.1 : ℚ) / d.ratio.2 = d.value * Magnitude.unit := by
  obtain ⟨digits, exponent⟩ := d
  unfold value
  cases exponent with
  | ofNat k =>
    change ((digits * 10 ^ k * Magnitude.unit : ℕ) : ℚ) / ((1 : ℕ) : ℚ) = _
    push_cast
    rw [div_one, Int.ofNat_eq_natCast, zpow_natCast]
  | negSucc k =>
    change ((digits * Magnitude.unit : ℕ) : ℚ) / ((10 ^ (k + 1) : ℕ) : ℚ) = _
    push_cast
    rw [zpow_negSucc, div_eq_mul_inv]
    ring

theorem nearest_eq_of_value_eq {c d : Decimal} (h : c.value = d.value) : c.nearest = d.nearest := by
  have hc : (c.ratio.2 : ℚ) ≠ 0 := by exact_mod_cast c.ratio_pos.ne'
  have hd : (d.ratio.2 : ℚ) ≠ 0 := by exact_mod_cast d.ratio_pos.ne'
  apply Magnitude.nearest_eq_of_cross c.ratio_pos d.ratio_pos
  have hratio : (c.ratio.1 : ℚ) / c.ratio.2 = d.ratio.1 / d.ratio.2 := by
    rw [ratio_value, ratio_value, h]
  rw [div_eq_div_iff hc hd] at hratio
  exact_mod_cast hratio

theorem nearest_of_digits_eq_zero {d : Decimal} (h : d.digits = 0) : d.nearest = some .zero := by
  have hzero : d.value = (⟨0, 0⟩ : Decimal).value := by simp [value, h]
  rw [nearest_eq_of_value_eq hzero]
  decide +kernel

theorem nearest_of_all_digits (x : Magnitude) {n : ℕ} (hpos : 0 < n) (hunit : Magnitude.unit = 2 ^ n) :
    nearest ⟨x.ticks * Nat.pow 5 n, -(n : ℤ)⟩ = some x := by
  obtain ⟨k, rfl⟩ := Nat.exists_eq_succ_of_ne_zero hpos.ne'
  change Magnitude.nearest (x.ticks * 5 ^ (k + 1) * Magnitude.unit) (10 ^ (k + 1)) = some x
  rw [hunit, Nat.mul_assoc, ← Nat.mul_pow]
  exact x.nearest_ticks (Nat.pow_pos (by decide))

theorem exact_nearest (x : Magnitude) : (exact x).nearest = some x := by
  have hunit : Magnitude.unit = 2 ^ 1074 := by decide +kernel
  have hpos : 0 < 1074 := by decide
  have he : (-1074 : ℤ) = -(1074 : ℕ) := rfl
  unfold exact
  rw [he]
  -- the powers are too great to be written out
  generalize 1074 = n at hpos hunit ⊢
  exact nearest_of_all_digits x hpos hunit

/-- The search tests what it finds, and all digits stand behind it. -/
theorem shortest_nearest (x : Magnitude) : (shortest x).nearest = some x := by
  unfold shortest
  dsimp only
  cases hfound : (List.range 17).findSome? fun n =>
      (neighbours x (leadingExponent x - (n : ℕ))).find? (readsBack x) with
  | none => exact exact_nearest x
  | some d =>
    obtain ⟨n, -, hn⟩ := List.exists_of_findSome?_eq_some hfound
    have hread : readsBack x d = true := List.find?_some hn
    unfold readsBack at hread
    exact beq_iff_eq.1 hread

theorem shortest_digits_ne_zero {x : Magnitude} (h : x.isZero = false) : (shortest x).digits ≠ 0 := by
  intro hzero
  have hx := shortest_nearest x
  rw [nearest_of_digits_eq_zero hzero] at hx
  rw [← Option.some.inj hx] at h
  cases h

end Decimal
end Conformance
