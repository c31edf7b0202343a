import Conformance.Decimal
import Conformance.Proofs.NumberValue
import Mathlib.Algebra.Order.Ring.Nat
import Mathlib.Data.Nat.Prime.Basic
set_option autoImplicit false

/-!
# What rounding keeps

Rounding gives the magnitude whose ticks lie within half a unit of the last place. So a magnitude comes
back unchanged, and so does one that is missed by less than half of its own unit: the conversion of a
decimal is exact where nothing is lost on the way, and also where the quotient by the power of ten makes
up for what the digits lost.
-/
namespace Conformance

namespace Magnitude

/-! ## Scales -/

/-- The scale leaves 53 bits or fewer, and not fewer unless it is 0. -/
theorem scaleOf_spec (q : ℕ) :
    q < 2 ^ (53 + scaleOf q) ∧ (2 ^ (52 + scaleOf q) ≤ q ∨ scaleOf q = 0) := by
  rw [scaleOf]
  split
  · next h => exact ⟨h, .inr rfl⟩
  · next h =>
    have hq : q ≠ 0 := by omega
    have hlog : 53 ≤ q.log2 := (Nat.le_log2 hq).2 (by omega)
    have hlow := Nat.log2_self_le hq
    have hhigh := Nat.lt_log2_self (n := q)
    refine ⟨?_, .inl ?_⟩
    · rwa [show 53 + (q.log2 - 52) = q.log2 + 1 by omega]
    · rwa [show 52 + (q.log2 - 52) = q.log2 by omega]

theorem scaleOf_le {q e : ℕ} (h : q < 2 ^ (53 + e)) : scaleOf q ≤ e := by
  rcases (scaleOf_spec q).2 with hlow | hzero
  · have := (Nat.pow_lt_pow_iff_right (by decide)).1 (Nat.lt_of_le_of_lt hlow h)
    omega
  · omega

theorem le_scaleOf {q e : ℕ} (h : 2 ^ (52 + e) ≤ q) : e ≤ scaleOf q := by
  have := (Nat.pow_lt_pow_iff_right (by decide)).1 (Nat.lt_of_le_of_lt h (scaleOf_spec q).1)
  omega

theorem scaleOf_mul_two_pow {m e : ℕ} (hm : m ≠ 0) (he : 52 ≤ e) :
    scaleOf (m * 2 ^ e) = m.log2 + e - 52 := by
  have hlow := Nat.mul_le_mul_right (2 ^ e) (Nat.log2_self_le hm)
  have hhigh := Nat.mul_lt_mul_of_pos_right (Nat.lt_log2_self (n := m)) (Nat.two_pow_pos e)
  rw [← Nat.pow_add] at hlow hhigh
  apply Nat.le_antisymm
  · apply scaleOf_le
    rwa [show 53 + (m.log2 + e - 52) = m.log2 + 1 + e by omega]
  · apply le_scaleOf
    rwa [show 52 + (m.log2 + e - 52) = m.log2 + e by omega]

theorem scaleOf_ticks (x : Magnitude) : scaleOf x.ticks = x.scale := by
  obtain ⟨hsmall, -, hfull⟩ := x.canonical
  apply Nat.le_antisymm
  · apply scaleOf_le
    rw [ticks_eq, Nat.pow_add]
    exact Nat.mul_lt_mul_of_pos_right hsmall (Nat.two_pow_pos x.scale)
  · rcases hfull with hfull | hzero
    · apply le_scaleOf
      rw [ticks_eq, Nat.pow_add]
      exact Nat.mul_le_mul_right _ hfull
    · omega

/-! ## Rounding -/

theorem divideToEven_error (num : ℕ) {den : ℕ} (hden : 0 < den) :
    2 * (divideToEven num den * den) ≤ 2 * num + den ∧
      2 * num ≤ 2 * (divideToEven num den * den) + den := by
  have hdiv := Nat.div_add_mod' num den
  have hmod := Nat.mod_lt num hden
  rw [divideToEven]
  split
  · omega
  · split
    · rw [Nat.add_mul]
      omega
    · rcases Nat.mod_two_eq_zero_or_one (num / den) with heven | hodd
      · rw [heven, Nat.add_zero]
        omega
      · rw [hodd, Nat.add_mul]
        omega

theorem divideToEven_of_close {c num den : ℕ} (hlow : 2 * (c * den) < 2 * num + den)
    (hhigh : 2 * num < 2 * (c * den) + den) : divideToEven num den = c := by
  have hden : 0 < den := by omega
  have hdiv := Nat.div_add_mod' num den
  have hmod := Nat.mod_lt num hden
  have hle : num / den ≤ c := by
    by_contra hlt
    have := Nat.mul_le_mul_right den (Nat.succ_le_of_lt (Nat.lt_of_not_le hlt))
    rw [Nat.succ_mul] at this
    omega
  have hge : c ≤ num / den + 1 := by
    by_contra hlt
    have := Nat.mul_le_mul_right den (Nat.succ_le_of_lt (Nat.lt_of_not_le hlt))
    rw [Nat.succ_mul, Nat.succ_mul] at this
    omega
  rw [divideToEven]
  rcases Nat.lt_or_eq_of_le hle with hlt | rfl
  · obtain rfl : c = num / den + 1 := by omega
    have hnext : (num / den + 1) * den = num / den * den + den := Nat.add_one_mul _ _
    rw [if_neg (by omega), if_pos (by omega)]
  · exact if_pos (by omega)

theorem exists_ofParts {g e : ℕ} (hg : g ≤ 2 ^ 53) (hfull : 2 ^ 52 ≤ g ∨ e = 0) (he : e ≤ 2044) :
    ∃ x : Magnitude, x.ticks = g * 2 ^ e ∧
      (if g = 2 ^ 53 then ofParts? (2 ^ 52) (e + 1) else ofParts? g e) = some x := by
  by_cases hcarry : g = 2 ^ 53
  · have hparts : 2 ^ 52 < 2 ^ 53 ∧ e + 1 ≤ 2045 ∧ (2 ^ 52 ≤ 2 ^ 52 ∨ e + 1 = 0) := by omega
    refine ⟨⟨2 ^ 52, e + 1, hparts⟩, ?_, ?_⟩
    · change 2 ^ 52 * 2 ^ (e + 1) = _
      rw [hcarry, Nat.pow_succ']
      omega
    · rw [if_pos hcarry]
      exact dif_pos hparts
  · have hparts : g < 2 ^ 53 ∧ e ≤ 2045 ∧ (2 ^ 52 ≤ g ∨ e = 0) := by omega
    refine ⟨⟨g, e, hparts⟩, ticks_eq _, ?_⟩
    rw [if_neg hcarry]
    exact dif_pos hparts

/-- Rounding misses by half a unit of the last place at most. -/
theorem exists_nearest {num den e : ℕ} (hden : 0 < den) (he : scaleOf (num / den) = e) (hlimit : e ≤ 2044) :
    ∃ x, nearest num den = some x ∧ 2 * (x.ticks * den) ≤ 2 * num + den * 2 ^ e ∧
      2 * num ≤ 2 * (x.ticks * den) + den * 2 ^ e := by
  obtain ⟨hhigh, hlow⟩ := scaleOf_spec (num / den)
  rw [he] at hhigh hlow
  have hunit : 0 < den * 2 ^ e := Nat.mul_pos hden (Nat.two_pow_pos e)
  obtain ⟨herror, herror'⟩ := divideToEven_error num hunit
  have hnum : num < 2 ^ 53 * (den * 2 ^ e) := by
    have := (Nat.div_lt_iff_lt_mul hden).1 hhigh
    rwa [Nat.pow_add, Nat.mul_assoc, Nat.mul_comm (2 ^ e)] at this
  have hle : divideToEven num (den * 2 ^ e) ≤ 2 ^ 53 := by
    by_contra hlt
    have := Nat.mul_le_mul_right (den * 2 ^ e) (Nat.succ_le_of_lt (Nat.lt_of_not_le hlt))
    rw [Nat.succ_mul] at this
    omega
  have hfull : 2 ^ 52 ≤ divideToEven num (den * 2 ^ e) ∨ e = 0 := by
    refine hlow.imp_left fun hwhole => ?_
    have hnum : 2 ^ 52 * (den * 2 ^ e) ≤ num := by
      have := (Nat.le_div_iff_mul_le hden).1 hwhole
      rwa [Nat.pow_add, Nat.mul_assoc, Nat.mul_comm (2 ^ e)] at this
    by_contra hlt
    have := Nat.mul_le_mul_right (den * 2 ^ e) (Nat.succ_le_of_lt (Nat.lt_of_not_le hlt))
    rw [Nat.succ_mul] at this
    omega
  obtain ⟨x, hx, hparts⟩ := exists_ofParts hle hfull hlimit
  refine ⟨x, ?_, ?_, ?_⟩
  · rw [nearest, he]
    exact hparts
  · rwa [hx, Nat.mul_assoc, Nat.mul_comm (2 ^ e)]
  · rwa [hx, Nat.mul_assoc, Nat.mul_comm (2 ^ e)]

/-- What rounding gives where the scale and the significand are known. -/
theorem nearest_of_parts {x : Magnitude} {num den : ℕ} (hscale : scaleOf (num / den) = x.scale)
    (hsignificand : divideToEven num (den * 2 ^ x.scale) = x.significand) : nearest num den = some x := by
  have hsmall := x.canonical.1
  have hsignificand : divideToEven num (den * Nat.pow 2 x.scale) = x.significand := hsignificand
  rw [nearest, hscale, hsignificand, if_neg (by omega), ofParts?, dif_pos x.canonical]

/-- Rounding gives a magnitude back. -/
theorem nearest_ticks (x : Magnitude) {den : ℕ} (hden : 0 < den) :
    nearest (x.ticks * den) den = some x := by
  apply nearest_of_parts
  · rw [Nat.mul_div_cancel _ hden, scaleOf_ticks]
  · have hunit := Nat.mul_pos hden (Nat.two_pow_pos x.scale)
    have hproduct : x.ticks * den = x.significand * (den * 2 ^ x.scale) := by
      rw [ticks_eq, Nat.mul_assoc, Nat.mul_comm (2 ^ x.scale)]
    rw [hproduct]
    exact divideToEven_of_close (by omega) (by omega)

/-- A quotient that misses a magnitude by less than half of its unit is rounded to it. At a power of two
the unit below is a smaller one. -/
theorem nearest_of_close {x : Magnitude} {num den : ℕ} (hfull : 2 ^ 52 < x.significand)
    (hlow : 2 * (x.ticks * den) < 2 * num + den * 2 ^ x.scale)
    (hhigh : 2 * num < 2 * (x.ticks * den) + den * 2 ^ x.scale) : nearest num den = some x := by
  have hproduct : x.ticks * den = x.significand * (den * 2 ^ x.scale) := by
    rw [ticks_eq, Nat.mul_assoc, Nat.mul_comm (2 ^ x.scale)]
  rw [hproduct] at hlow hhigh
  have hsmall := x.canonical.1
  have hden : 0 < den := by
    by_contra hzero
    obtain rfl : den = 0 := by omega
    omega
  have habove := Nat.mul_le_mul_right (den * 2 ^ x.scale) (Nat.succ_le_of_lt hfull)
  have hbelow := Nat.mul_le_mul_right (den * 2 ^ x.scale) (Nat.succ_le_of_lt hsmall)
  rw [Nat.succ_mul] at habove hbelow
  refine nearest_of_parts (Nat.le_antisymm (scaleOf_le ?_) (le_scaleOf ?_))
    (divideToEven_of_close hlow hhigh)
  · rw [Nat.div_lt_iff_lt_mul hden, Nat.pow_add, Nat.mul_assoc, Nat.mul_comm (2 ^ x.scale)]
    omega
  · rw [Nat.le_div_iff_mul_le hden, Nat.pow_add, Nat.mul_assoc, Nat.mul_comm (2 ^ x.scale)]
    omega

/-! ## Whole numbers with a double of their own -/

/-- At most 53 bits in front of the last zeros. -/
def Representable (q : ℕ) : Prop := ∃ s e, s < 2 ^ 53 ∧ q = s * 2 ^ e

section Representable

variable {q : ℕ}

theorem Representable.mul_two_pow (h : Representable q) (e : ℕ) : Representable (q * 2 ^ e) := by
  obtain ⟨s, f, hs, rfl⟩ := h
  exact ⟨s, f + e, hs, by rw [Nat.pow_add, Nat.mul_assoc]⟩

theorem representable_of_le (h : q ≤ 2 ^ 53) : Representable q := by
  rcases Nat.lt_or_eq_of_le h with hlt | rfl
  · exact ⟨q, 0, hlt, by rw [Nat.pow_zero, Nat.mul_one]⟩
  · exact ⟨2 ^ 52, 1, by decide, by decide⟩

theorem two_pow_scaleOf_dvd (h : Representable q) : 2 ^ scaleOf q ∣ q := by
  obtain ⟨s, e, hs, hq⟩ := h
  have hscale : scaleOf q ≤ e := by
    apply scaleOf_le
    rw [hq, Nat.pow_add]
    exact Nat.mul_lt_mul_of_pos_right hs (Nat.two_pow_pos e)
  exact (Nat.pow_dvd_pow 2 hscale).trans ⟨s, by rw [hq, Nat.mul_comm]⟩

theorem exists_ticks (h : Representable q) (hlimit : scaleOf q ≤ 2044) : ∃ x : Magnitude, x.ticks = q := by
  have hdvd := Nat.div_mul_cancel (two_pow_scaleOf_dvd h)
  have hpos := Nat.two_pow_pos (scaleOf q)
  obtain ⟨hhigh, hlow⟩ := scaleOf_spec q
  rw [Nat.pow_add] at hhigh hlow
  have hsmall := (Nat.div_lt_iff_lt_mul hpos).2 hhigh
  have hfull := hlow.imp_left (Nat.le_div_iff_mul_le hpos).2
  obtain ⟨x, hx, -⟩ := exists_ofParts hsmall.le hfull hlimit
  exact ⟨x, hx.trans hdvd⟩

end Representable

/-- The exponent is left open, since the power itself is too great to be written out. -/
theorem exists_unit : ∃ e, 53 ≤ e ∧ e ≤ 1074 ∧ unit = 2 ^ e :=
  ⟨1074, by decide, Nat.le_refl 1074, by decide +kernel⟩

theorem exists_scaleOf_unit :
    ∃ e, 1 ≤ e ∧ e ≤ 1022 ∧ ∀ m, m ≠ 0 → scaleOf (m * unit) = m.log2 + e := by
  obtain ⟨e, hlow, hhigh, hunit⟩ := exists_unit
  refine ⟨e - 52, by omega, by omega, fun m hm => ?_⟩
  rw [hunit, scaleOf_mul_two_pow hm (by omega)]
  omega

theorem ofNat_of_ticks {x : Magnitude} {m : ℕ} (h : x.ticks = m * unit) : ofNat m = some x := by
  rw [ofNat, ← h, ← Nat.mul_one x.ticks]
  exact x.nearest_ticks Nat.one_pos

theorem exists_ofNat {m : ℕ} (hm : m ≠ 0) (hlimit : m.log2 ≤ 1022) :
    ∃ x, ofNat m = some x ∧ 2 * x.ticks ≤ 2 * (m * unit) + 2 ^ scaleOf (m * unit) ∧
      2 * (m * unit) ≤ 2 * x.ticks + 2 ^ scaleOf (m * unit) := by
  obtain ⟨e, -, he, hscale⟩ := exists_scaleOf_unit
  have hscale := hscale m hm
  have hwhole : scaleOf (m * unit / 1) = scaleOf (m * unit) := by rw [Nat.div_one]
  obtain ⟨x, hx, hlow, hhigh⟩ := exists_nearest Nat.one_pos hwhole (by omega)
  rw [Nat.mul_one, Nat.one_mul] at hlow hhigh
  exact ⟨x, hx, hlow, hhigh⟩

/-- Nothing but 0 is rounded to 0. -/
theorem exists_ofNat_pos {m : ℕ} (hm : m ≠ 0) (hlimit : m.log2 ≤ 1022) :
    ∃ x, ofNat m = some x ∧ 0 < x.ticks := by
  obtain ⟨x, hx, -, hhigh⟩ := exists_ofNat hm hlimit
  have hpos : 0 < m * unit := Nat.mul_pos (Nat.pos_of_ne_zero hm) unit_pos
  refine ⟨x, hx, ?_⟩
  rcases (scaleOf_spec (m * unit)).2 with hlow | hzero
  · rw [Nat.pow_add] at hlow
    omega
  · rw [hzero] at hhigh
    omega

theorem exists_ticks_unit {m : ℕ} (hm : m ≠ 0) (h : Representable m) (hlimit : m.log2 ≤ 1022) :
    ∃ x : Magnitude, x.ticks = m * unit := by
  obtain ⟨e, -, he, hscale⟩ := exists_scaleOf_unit
  have hscale := hscale m hm
  obtain ⟨f, -, -, hunit⟩ := exists_unit
  apply exists_ticks
  · rw [hunit]
    exact h.mul_two_pow f
  · omega

theorem mul_of_one (x : Magnitude) {y : Magnitude} (hy : y.ticks = unit) : x.mul y = some x := by
  rw [mul, hy]
  exact x.nearest_ticks unit_pos

end Magnitude

namespace Decimal

open Magnitude (Representable)

/-! ## Digits that end in zeros behind the point -/

theorem shift_of_le (steps : ℕ) (x : Magnitude) {e : ℤ} (h : e.natAbs ≤ 308) :
    shift steps x e = (Magnitude.ofNat (10 ^ e.natAbs)).bind fun power =>
      if 0 ≤ e then x.mul power else x.div power := by
  unfold shift
  rw [if_pos h]
  rfl

theorem scaled_of_ofNat {m : ℕ} {x : Magnitude} (h : Magnitude.ofNat m = some x) (e : ℤ) :
    scaled ⟨m, e⟩ = shift (e.natAbs / 308 + 1) x e := by
  simp only [scaled, h, Option.bind_eq_bind, Option.bind_some]

theorem representable_ten_pow {j : ℕ} (h : j ≤ 22) : Representable (10 ^ j) := by
  have hfive : 5 ^ j ≤ 2 ^ 53 := (Nat.pow_le_pow_right (by decide) h).trans (by decide)
  rw [show 10 = 5 * 2 from rfl, Nat.mul_pow]
  exact (Magnitude.representable_of_le hfive).mul_two_pow j

/-- The zeros cost nothing: either the product keeps all its bits, or it has no more of them than its two
factors make it have. -/
def ZerosKept (m j : ℕ) : Prop :=
  Representable (m * 10 ^ j) ∨ (m * 10 ^ j).log2 = m.log2 + (10 ^ j).log2

theorem div_of_representable {m d : ℕ} {x y z : Magnitude} (hx : x.ticks = m * d * Magnitude.unit)
    (hy : y.ticks = d * Magnitude.unit) (hz : z.ticks = m * Magnitude.unit) (hd : 0 < d) :
    x.div y = some z := by
  have hproduct : x.ticks * Magnitude.unit = z.ticks * y.ticks := by
    rw [hx, hy, hz]
    generalize Magnitude.unit = u
    ac_rfl
  rw [Magnitude.div, hproduct]
  exact z.nearest_ticks (by rw [hy]; exact Nat.mul_pos hd Magnitude.unit_pos)

/-- What the product lost is less than half a unit of the quotient. -/
theorem div_of_log2 {m d : ℕ} {x y z : Magnitude}
    (hlow : 2 * x.ticks ≤ 2 * (m * d * Magnitude.unit) + 2 ^ Magnitude.scaleOf (m * d * Magnitude.unit))
    (hhigh : 2 * (m * d * Magnitude.unit) ≤ 2 * x.ticks + 2 ^ Magnitude.scaleOf (m * d * Magnitude.unit))
    (hy : y.ticks = d * Magnitude.unit) (hz : z.ticks = m * Magnitude.unit)
    (hfull : 2 ^ 52 < z.significand) (hm : m ≠ 0) (hd : 2 ^ d.log2 < d)
    (hlog : (m * d).log2 = m.log2 + d.log2) : x.div y = some z := by
  obtain ⟨e, -, -, he⟩ := Magnitude.exists_scaleOf_unit
  have hscale := he m hm
  have hscale' := he (m * d) (Nat.mul_ne_zero hm (Nat.ne_zero_of_lt hd))
  rw [← hz, Magnitude.scaleOf_ticks] at hscale
  -- the unit of the product is that of the quotient times a power of two below the divisor
  have hunits : 2 ^ Magnitude.scaleOf (m * d * Magnitude.unit) < d * 2 ^ z.scale := by
    rw [hscale', hlog, hscale, show m.log2 + d.log2 + e = d.log2 + (m.log2 + e) by omega, Nat.pow_add]
    exact Nat.mul_lt_mul_of_pos_right hd (Nat.two_pow_pos _)
  have hproduct : z.ticks * y.ticks = m * d * Magnitude.unit * Magnitude.unit := by
    rw [hy, hz]
    generalize Magnitude.unit = u
    ac_rfl
  have hunit : y.ticks * 2 ^ z.scale = d * 2 ^ z.scale * Magnitude.unit := by
    rw [hy]
    generalize Magnitude.unit = u
    ac_rfl
  have hbelow := Nat.mul_lt_mul_of_pos_right
    (show 2 * (m * d * Magnitude.unit) < 2 * x.ticks + d * 2 ^ z.scale by omega) Magnitude.unit_pos
  have habove := Nat.mul_lt_mul_of_pos_right
    (show 2 * x.ticks < 2 * (m * d * Magnitude.unit) + d * 2 ^ z.scale by omega) Magnitude.unit_pos
  rw [Nat.add_mul, Nat.mul_assoc 2, Nat.mul_assoc 2] at hbelow habove
  rw [Magnitude.div]
  apply Magnitude.nearest_of_close hfull
  · rw [hproduct, hunit]
    exact hbelow
  · rw [hproduct, hunit]
    exact habove

theorem two_pow_log2_lt_ten_pow {j : ℕ} (hj : j ≠ 0) : 2 ^ (10 ^ j).log2 < 10 ^ j := by
  have hten : 10 ^ j ≠ 0 := (Nat.pow_pos (by decide)).ne'
  apply Nat.lt_of_le_of_ne (Nat.log2_self_le hten)
  intro h
  have hfive : 5 ∣ 2 ^ (10 ^ j).log2 := by
    rw [h]
    exact dvd_pow (by decide) hj
  exact absurd (Nat.Prime.dvd_of_dvd_pow (by decide) hfive) (by decide)

/-- A magnitude whose significand is the least of its length is a power of two, and a power of two with
zeros keeps all its bits. -/
theorem significand_gt_of_not_representable {m j : ℕ} {z : Magnitude} (hm : m ≠ 0)
    (hz : z.ticks = m * Magnitude.unit) (hj : j ≤ 22) (h : ¬ Representable (m * 10 ^ j)) :
    2 ^ 52 < z.significand := by
  obtain ⟨e, he, -, hscale⟩ := Magnitude.exists_scaleOf_unit
  have hscale := hscale m hm
  rw [← hz, Magnitude.scaleOf_ticks] at hscale
  have hfull : 2 ^ 52 ≤ z.significand := z.canonical.2.2.resolve_right (by omega)
  apply Nat.lt_of_le_of_ne hfull
  intro hleast
  have hdvd : m ∣ 2 ^ (52 + z.scale) := by
    rw [Nat.pow_add, hleast, ← Magnitude.ticks_eq, hz]
    exact Nat.dvd_mul_right m _
  obtain ⟨t, -, rfl⟩ := (Nat.dvd_prime_pow Nat.prime_two).1 hdvd
  rw [Nat.mul_comm] at h
  exact h ((representable_ten_pow hj).mul_two_pow t)

/-- The conversion of digits with `j` zeros behind the point. -/
theorem scaled_zeros {m j : ℕ} (hm : m ≠ 0) (hsmall : m ≤ 2 ^ 53) (hj : j ≤ 22)
    (hlimit : m * 10 ^ j < 2 ^ 128) (hkept : ZerosKept m j) :
    ∃ z : Magnitude, z.ticks = m * Magnitude.unit ∧ scaled ⟨m * 10 ^ j, -(j : ℤ)⟩ = some z := by
  have hten : 0 < 10 ^ j := Nat.pow_pos (by decide)
  have hdigits : m * 10 ^ j ≠ 0 := Nat.mul_ne_zero hm hten.ne'
  have hlog : ∀ q, q ≠ 0 → q ≤ m * 10 ^ j → q.log2 ≤ 1022 := by
    intro q hq hle
    have := (Nat.log2_lt hq).2 (Nat.lt_of_le_of_lt hle hlimit)
    omega
  obtain ⟨z, hz⟩ := Magnitude.exists_ticks_unit hm (Magnitude.representable_of_le hsmall)
    (hlog m hm (Nat.le_mul_of_pos_right m hten))
  obtain ⟨y, hy⟩ := Magnitude.exists_ticks_unit hten.ne' (representable_ten_pow hj)
    (hlog _ hten.ne' (Nat.le_mul_of_pos_left _ (Nat.pos_of_ne_zero hm)))
  obtain ⟨x, hofx, hlow, hhigh⟩ := Magnitude.exists_ofNat hdigits (hlog _ hdigits (Nat.le_refl _))
  have hplaces : (-(j : ℤ)).natAbs = j := by omega
  refine ⟨z, hz, ?_⟩
  rw [scaled_of_ofNat hofx, shift_of_le _ x (by omega), hplaces, Magnitude.ofNat_of_ticks hy,
    Option.bind_some]
  by_cases hrepresentable : Representable (m * 10 ^ j)
  · obtain ⟨x', hx'⟩ := Magnitude.exists_ticks_unit hdigits hrepresentable (hlog _ hdigits (Nat.le_refl _))
    obtain rfl := Option.some.inj (hofx.symm.trans (Magnitude.ofNat_of_ticks hx'))
    split
    · next hzero =>
      have hone : 10 ^ j = 1 := by rw [show j = 0 by omega, Nat.pow_zero]
      rw [hone, Nat.one_mul] at hy
      rw [hone, Nat.mul_one, ← hz] at hx'
      rw [x.mul_of_one hy, Magnitude.ticks_injective hx']
    · exact div_of_representable hx' hy hz hten
  · have hplace : j ≠ 0 := by
      rintro rfl
      rw [Nat.pow_zero, Nat.mul_one] at hrepresentable
      exact hrepresentable (Magnitude.representable_of_le hsmall)
    have hfull := significand_gt_of_not_representable hm hz hj hrepresentable
    rw [if_neg (by omega)]
    exact div_of_log2 hlow hhigh hy hz hfull hm (two_pow_log2_lt_ten_pow hplace)
      (hkept.resolve_left hrepresentable)

theorem exists_ofNat_ten_pow {k : ℕ} (hk : k ≤ 308) :
    ∃ y, Magnitude.ofNat (10 ^ k) = some y ∧ 0 < y.ticks := by
  have hten : 10 ^ k ≠ 0 := (Nat.pow_pos (by decide)).ne'
  rcases Nat.lt_or_eq_of_le hk with hlt | rfl
  · have hle := Nat.pow_le_pow_right (show 0 < 10 by decide) (Nat.le_pred_of_lt hlt)
    have hlog : (10 ^ k).log2 < 1023 :=
      (Nat.log2_lt hten).2 (Nat.lt_of_le_of_lt hle (by decide +kernel))
    exact Magnitude.exists_ofNat_pos hten (by omega)
  · -- the last power may be carried to the next binade, so it is rounded by itself
    have hpos : (Magnitude.ofNat (10 ^ 308)).any (0 < ·.ticks) = true := by decide +kernel
    obtain ⟨y, hy, hy'⟩ := (Option.any_eq_true ..).1 hpos
    exact ⟨y, hy, of_decide_eq_true hy'⟩

theorem scaled_zero (k : ℕ) : scaled ⟨0, -(k : ℤ)⟩ = some .zero := by
  have hzero : ∀ n, 0 = Magnitude.zero.ticks * n := fun n => (Nat.zero_mul n).symm
  have hofNat : Magnitude.ofNat 0 = some .zero :=
    Magnitude.ofNat_of_ticks (Nat.zero_mul Magnitude.unit).symm
  have hplaces : (-(k : ℤ)).natAbs = k := by omega
  rw [scaled_of_ofNat hofNat]
  by_cases hk : k ≤ 308
  · obtain ⟨y, hy, hpos⟩ := exists_ofNat_ten_pow hk
    rw [shift_of_le _ _ (by omega), hplaces, hy, Option.bind_some]
    split
    · rw [Magnitude.mul, ← hzero, hzero Magnitude.unit]
      exact Magnitude.nearest_ticks _ Magnitude.unit_pos
    · rw [Magnitude.div, ← hzero, hzero y.ticks]
      exact Magnitude.nearest_ticks _ hpos
  · unfold shift
    rw [hplaces, if_neg hk]
    rfl

end Decimal

end Conformance
