import Conformance.Proofs.Rounding
set_option autoImplicit false

/-!
# Equality of numbers is exact

Two numbers are the same exactly when they stand for the same rational, in whichever of the three forms
each of them is. What could spoil that loses nothing: an integer fits into the 128 bits in which it is
compared, a double that does not fit saturates where no integer is, and an integer equals a double only
if it has one of its own, so that one beyond 2⁵³ is never taken for its neighbour.
-/
namespace Conformance

namespace Binary64

variable (x : Binary64)

def FitsInt128 : Prop := -(2 ^ 127) ≤ x.whole ∧ x.whole < 2 ^ 127

instance : Decidable x.FitsInt128 := inferInstanceAs (Decidable (_ ∧ _))

theorem toInt128_of_fits (h : x.FitsInt128) : x.toInt128 = x.whole := by
  unfold FitsInt128 at h
  unfold toInt128
  omega

theorem toInt128_of_not_fits (h : ¬ x.FitsInt128) :
    x.toInt128 = -(2 ^ 127) ∨ x.toInt128 = 2 ^ 127 - 1 := by
  unfold FitsInt128 at h
  unfold toInt128
  omega

theorem representable_of_value_eq {i : ℤ} (h : x.value = i) : Magnitude.Representable i.natAbs := by
  obtain ⟨f, -, -, hunit⟩ := Magnitude.exists_unit
  have hticks : x.magnitude.significand * 2 ^ x.magnitude.scale = i.natAbs * 2 ^ f := by
    have habs := congrArg Int.natAbs ((x.value_eq_int_iff i).1 h)
    rwa [natAbs_ticks, Int.natAbs_mul, Int.natAbs_natCast, Magnitude.ticks_eq, hunit] at habs
  have hsmall : x.magnitude.significand < 2 ^ 53 := x.magnitude.canonical.1
  rcases Nat.le_total f x.magnitude.scale with hle | hle
  · refine ⟨x.magnitude.significand, x.magnitude.scale - f, hsmall, ?_⟩
    apply Nat.eq_of_mul_eq_mul_right (Nat.two_pow_pos f)
    rw [← hticks, Nat.mul_assoc, ← Nat.pow_add, Nat.sub_add_cancel hle]
  · -- below one the significand ends in as many zeros as the scale lacks
    have hsig : x.magnitude.significand = i.natAbs * 2 ^ (f - x.magnitude.scale) := by
      apply Nat.eq_of_mul_eq_mul_right (Nat.two_pow_pos x.magnitude.scale)
      rw [hticks, Nat.mul_assoc, ← Nat.pow_add, Nat.sub_add_cancel hle]
    apply Magnitude.representable_of_le
    have hfactor := Nat.le_mul_of_pos_right i.natAbs (Nat.two_pow_pos (f - x.magnitude.scale))
    omega

end Binary64

theorem exists_double_of_representable {i : ℤ} (h : Magnitude.Representable i.natAbs)
    (hlimit : i.natAbs ≤ 2 ^ 64) : ∃ x : Binary64, x.value = i := by
  obtain ⟨y, hy⟩ : ∃ y : Magnitude, y.ticks = i.natAbs * Magnitude.unit := by
    by_cases hzero : i.natAbs = 0
    · exact ⟨.zero, by rw [hzero, Nat.zero_mul]; rfl⟩
    · have hlog : i.natAbs.log2 < 65 := (Nat.log2_lt hzero).2 (by omega)
      exact Magnitude.exists_ticks_unit hzero h (by omega)
  refine ⟨⟨decide (i < 0), y⟩, ?_⟩
  rw [Binary64.value_eq_int_iff]
  unfold Binary64.ticks
  by_cases hneg : i < 0
  · simp only [hneg, decide_true, if_true, hy]
    rw [Nat.cast_mul, ← Int.neg_mul]
    congr 1
    omega
  · simp only [hneg, decide_false, Bool.false_eq_true, if_false, hy]
    rw [Nat.cast_mul]
    congr 1
    omega

namespace Json.Number

variable {m : Number} {i : ℤ}

theorem integer?_eq_none_iff (m : Number) : m.integer? = none ↔ ∃ x, m = .double x := by
  cases m <;> simp [integer?]

/-- The 128-bit word that is compared in an integer's place is that integer. -/
theorem toInt_ofInt_of_integer? (h : m.integer? = some i) : (BitVec.ofInt 128 i).toInt = i := by
  have hbounds := integer?_bounds h
  apply BitVec.toInt_ofInt_eq_self (by decide) <;> omega

theorem toInt128_ne_of_not_fits (h : m.integer? = some i) {x : Binary64} (hx : ¬ x.FitsInt128) :
    x.toInt128 ≠ i := by
  have hbounds := integer?_bounds h
  have hsaturated := x.toInt128_of_not_fits hx
  omega

theorem exists_same_double_iff (h : m.integer? = some i) :
    (∃ x, m.same (.double x) = true) ↔ Magnitude.Representable i.natAbs := by
  have hvalue : m.value = i := value_of_integer? h
  constructor
  · rintro ⟨x, hx⟩
    rw [same_iff_value_eq, hvalue] at hx
    exact x.representable_of_value_eq hx.symm
  · intro hrepresentable
    have hbounds := integer?_bounds h
    obtain ⟨x, hx⟩ := exists_double_of_representable hrepresentable (by omega)
    refine ⟨x, ?_⟩
    rw [same_iff_value_eq, hvalue]
    exact hx.symm

theorem same_equivalence : Equivalence fun m n : Number => m.same n = true where
  refl m := (same_iff_value_eq m m).2 rfl
  symm h := (same_iff_value_eq _ _).2 ((same_iff_value_eq _ _).1 h).symm
  trans h h' :=
    (same_iff_value_eq _ _).2 (((same_iff_value_eq _ _).1 h).trans ((same_iff_value_eq _ _).1 h'))

/-- Numbers are the same exactly when their rationals are equal; the conversions on the way are exact, or
saturate where no integer is, and only an integer of 53 bits has a double. -/
theorem same_exact :
    (∀ m n : Number, m.same n = true ↔ m.value = n.value) ∧
    (Equivalence fun m n : Number => m.same n = true) ∧
    (∀ m : Number, m.integer? = none ↔ ∃ x, m = .double x) ∧
    (∀ (m : Number) (i : ℤ), m.integer? = some i →
      m.value = i ∧ (BitVec.ofInt 128 i).toInt = i ∧
      ((∃ x, m.same (.double x) = true) ↔ Magnitude.Representable i.natAbs) ∧
      ∀ x : Binary64, ¬ x.FitsInt128 →
        x.toInt128 ≠ i ∧ m.same (.double x) = false ∧ same (.double x) m = false) ∧
    (∀ x : Binary64, x.FitsInt128 → x.toInt128 = x.whole) := by
  refine ⟨same_iff_value_eq, same_equivalence, integer?_eq_none_iff, fun m i h => ?_,
    Binary64.toInt128_of_fits⟩
  refine ⟨value_of_integer? h, toInt_ofInt_of_integer? h, exists_same_double_iff h, fun x hx => ?_⟩
  have hcast : x.toInt128 ≠ i := toInt128_ne_of_not_fits h hx
  have hdiffers : x.value ≠ m.value := by
    intro heq
    have hany := (same_double_iff h x).2 heq
    rw [h, Option.any_some, integerIsDouble, Bool.and_eq_true, beq_iff_eq] at hany
    exact hcast hany.2
  refine ⟨hcast, ?_, ?_⟩
  · rw [← Bool.not_eq_true, same_iff_value_eq]
    exact hdiffers.symm
  · rwa [← Bool.not_eq_true, same_iff_value_eq]

/-- The first integer without a double, which lies between two of them, and a double that saturates. -/
theorem same_exact_beyond_bounds :
    let m : Number := .natural (2 ^ 53 + 1) (by decide)
    let x : Binary64 := ⟨false, ⟨2 ^ 52, 1149, by decide⟩⟩
    m.integer? = some (2 ^ 53 + 1) ∧ (¬ ∃ y, m.same (.double y) = true) ∧
      ¬ x.FitsInt128 ∧ x.toInt128 = 2 ^ 127 - 1 ∧ m.same (.double x) = false := by
  intro m x
  have hm : m.integer? = some (2 ^ 53 + 1) := rfl
  have hx : ¬ x.FitsInt128 := by decide +kernel
  obtain ⟨-, -, hdouble, hbeyond⟩ := same_exact.2.2.2.1 m _ hm
  have hodd : ¬ Magnitude.Representable (2 ^ 53 + 1) := by
    rintro ⟨s, e, hs, heq⟩
    cases e with
    | zero => omega
    | succ e =>
      have heven : s * 2 ^ (e + 1) = s * 2 ^ e * 2 := by rw [Nat.mul_assoc, ← Nat.pow_succ]
      omega
  exact ⟨hm, fun h => hodd (hdouble.1 h), hx, by decide +kernel, (hbeyond x hx).2.1⟩

end Json.Number
end Conformance
