import Mathlib.Data.Nat.Digits.Lemmas
set_option autoImplicit false

/-!
# The digits of a number

The text of a number is that of its quotient by the base with one digit behind it, so that it determines
the number.
-/
namespace Conformance

theorem digitChar_injective : ∀ a < 16, ∀ b < 16, Nat.digitChar a = Nat.digitChar b → a = b := by
  decide

theorem toDigits_eq {base : ℕ} (hbase : 1 < base) (n : ℕ) :
    Nat.toDigits base n =
      (if n < base then [] else Nat.toDigits base (n / base)) ++ [Nat.digitChar (n % base)] := by
  split
  · next h => rw [Nat.toDigits_of_lt_base h, Nat.mod_eq_of_lt h, List.nil_append]
  · next h => exact Nat.toDigits_of_base_le hbase (Nat.le_of_not_lt h)

theorem toDigits_injective {base : ℕ} (hbase : 1 < base) (hlimit : base ≤ 16) {m n : ℕ}
    (h : Nat.toDigits base m = Nat.toDigits base n) : m = n := by
  induction m using Nat.strongRecOn generalizing n with
  | ind m ih =>
    rw [toDigits_eq hbase m, toDigits_eq hbase n] at h
    obtain ⟨hhigh, hlow⟩ := List.append_inj' h rfl
    have hmod : m % base = n % base := by
      have hm := Nat.mod_lt m (by omega : base > 0)
      have hn := Nat.mod_lt n (by omega : base > 0)
      exact digitChar_injective _ (by omega) _ (by omega) (List.singleton_inj.1 hlow)
    by_cases hm : m < base
    · by_cases hn : n < base
      · rwa [Nat.mod_eq_of_lt hm, Nat.mod_eq_of_lt hn] at hmod
      · rw [if_pos hm, if_neg hn] at hhigh
        exact absurd hhigh.symm Nat.toDigits_ne_nil
    · by_cases hn : n < base
      · rw [if_neg hm, if_pos hn] at hhigh
        exact absurd hhigh Nat.toDigits_ne_nil
      · rw [if_neg hm, if_neg hn] at hhigh
        have hdiv := ih (m / base) (Nat.div_lt_self (by omega) hbase) hhigh
        rw [← Nat.div_add_mod m base, ← Nat.div_add_mod n base, hdiv, hmod]

theorem mem_toDigits {base n : ℕ} (hbase : 1 < base) {c : Char} (h : c ∈ Nat.toDigits base n) :
    ∃ d, d < base ∧ c = Nat.digitChar d := by
  induction n using Nat.strongRecOn with
  | ind n ih =>
    rw [toDigits_eq hbase, List.mem_append] at h
    rcases h with hhigh | hlow
    · split at hhigh
      · cases hhigh
      · next hn => exact ih (n / base) (Nat.div_lt_self (by omega) hbase) hhigh
    · exact ⟨n % base, Nat.mod_lt n (by omega), List.mem_singleton.1 hlow⟩

end Conformance
