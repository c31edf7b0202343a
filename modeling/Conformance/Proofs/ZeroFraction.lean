import Conformance.Proofs.Containment
import Conformance.Proofs.DigitText
import Conformance.Proofs.ReadValue
import Conformance.Proofs.Rounding
set_option autoImplicit false

/-!
# Whole numbers with a fraction of zeros

Zeros behind the point are digits like any other: they are taken into the significand as long as 64 bits
hold it, and the quotient by the power of ten comes out of two roundings. Where the significand with its
zeros has a double of its own neither of them loses anything, so that both spellings are the same number;
where it has none the second rounding need not make up for the first.
-/
namespace Conformance.Json.Reader

open Number (Numeral)

/-! ## Digits that were written -/

def digitText (n : ℕ) : Bytes := (Nat.toDigits 10 n).map byte

def integerText (n : ℤ) : Bytes := (if n < 0 then [byte '-'] else []) ++ digitText n.natAbs

def zeroFraction (k : ℕ) : Bytes := byte '.' :: List.replicate k (byte '0')

theorem digitText_eq (n : ℕ) :
    digitText n = (if n < 10 then [] else digitText (n / 10)) ++ [byte (Nat.digitChar (n % 10))] := by
  rw [digitText, toDigits_eq (by decide), List.map_append]
  split <;> rfl

theorem byte_digitChar : ∀ d < 10, isDigit (byte (Nat.digitChar d)) = true ∧
    digit (byte (Nat.digitChar d)) = d ∧ (d ≠ 0 → byte (Nat.digitChar d) ≠ byte '0') := by
  decide

theorem isDigit_of_mem_digitText {n : ℕ} {b : UInt8} (h : b ∈ digitText n) : isDigit b = true := by
  obtain ⟨c, hc, rfl⟩ := List.mem_map.1 h
  obtain ⟨d, hd, rfl⟩ := mem_toDigits (by decide) hc
  exact (byte_digitChar d hd).1

theorem digitText_ne_nil (n : ℕ) : digitText n ≠ [] := by
  rw [digitText_eq]
  simp

theorem digitText_front {n : ℕ} (h : n ≠ 0) : ∃ b t, digitText n = b :: t ∧ b ≠ byte '0' := by
  induction n using Nat.strongRecOn with
  | ind n ih =>
    rw [digitText_eq]
    split
    · next hn =>
      have hne : n % 10 ≠ 0 := by omega
      exact ⟨_, [], rfl, (byte_digitChar (n % 10) (by omega)).2.2 hne⟩
    · next hn =>
      obtain ⟨b, t, ht, hb⟩ := ih (n / 10) (by omega) (by omega)
      rw [ht]
      exact ⟨b, _, rfl, hb⟩

theorem absorb_append {s t : ℕ} {ds : List ℕ} (h : absorb s ds = (t, [])) (es : List ℕ) :
    absorb s (ds ++ es) = absorb t es := by
  induction ds generalizing s with
  | nil =>
    obtain ⟨rfl, -⟩ := Prod.mk.inj h
    rfl
  | cons d ds ih =>
    rw [absorb] at h
    rw [List.cons_append, absorb]
    split at h
    · next hfits => rw [if_pos hfits, ih h]
    · cases (Prod.mk.inj h).2

theorem absorb_digitText {n : ℕ} (h : n < 2 ^ 64) : absorb 0 ((digitText n).map digit) = (n, []) := by
  induction n using Nat.strongRecOn with
  | ind n ih =>
    have hlast := (byte_digitChar (n % 10) (by omega)).2.1
    rw [digitText_eq, List.map_append, List.map_singleton, hlast]
    split
    · next hn =>
      rw [List.map_nil, List.nil_append, absorb, if_pos (by omega), absorb]
      congr 1
      omega
    · next hn =>
      rw [absorb_append (ih (n / 10) (by omega) (by omega)), absorb, if_pos (by omega), absorb]
      congr 1
      omega

/-- Of `k` zeros behind the digits of `n`, 64 bits hold `j`. -/
structure ZerosTaken (n k j : ℕ) : Prop where
  le : j ≤ k
  fits : n * 10 ^ j < 2 ^ 64
  full : j < k → 2 ^ 64 ≤ n * 10 ^ (j + 1)

theorem absorb_zeros {n : ℕ} (hn : n < 2 ^ 64) (k : ℕ) :
    ∃ j, ZerosTaken n k j ∧
      absorb n (List.replicate k 0) = (n * 10 ^ j, List.replicate (k - j) 0) := by
  induction k generalizing n with
  | zero => exact ⟨0, ⟨Nat.le_refl 0, by omega, by simp⟩, by simp [absorb]⟩
  | succ k ih =>
    rw [List.replicate_succ, absorb]
    split
    · next hfits =>
      have hnext : ∀ j, (n * 10 + 0) * 10 ^ j = n * 10 ^ (j + 1) := fun j => by
        rw [Nat.pow_succ', Nat.add_zero, Nat.mul_assoc]
      obtain ⟨j, ⟨hj, hlimit, hfull⟩, habsorb⟩ := ih hfits
      rw [hnext] at hlimit hfull habsorb
      refine ⟨j + 1, ⟨by omega, hlimit, fun hlt => hfull (by omega)⟩, ?_⟩
      rw [habsorb, Nat.add_sub_add_right]
    · next hfull =>
      exact ⟨0, ⟨Nat.zero_le _, by omega, fun _ => by omega⟩, by simp [List.replicate_succ]⟩

theorem integerDigits_digitText (n : ℕ) {rest : Bytes} (h : NoFront isDigit rest) :
    integerDigits (digitText n ++ rest) = .ok ((digitText n).map digit, rest) := by
  by_cases hn : n = 0
  · subst hn
    exact integerDigits_zero h
  · obtain ⟨b, t, ht, hb⟩ := digitText_front hn
    have hall : ∀ c ∈ b :: t, isDigit c = true := fun c hc => isDigit_of_mem_digitText (ht ▸ hc)
    obtain ⟨hfirst, hrest⟩ := List.forall_mem_cons.1 hall
    rw [ht]
    exact integerDigits_digits hfirst hb hrest h

theorem numeral_digitText (negative : Bool) {n : ℕ} (hn : n < 2 ^ 64) {rest : Bytes}
    (h : NoFront isDigit rest) :
    numeral negative (digitText n ++ rest) = fractionPart ⟨negative, n, 0, true⟩ rest := by
  have hopen : numeral negative (digitText n ++ rest) =
      fractionPart ⟨negative, (absorb 0 ((digitText n).map digit)).1,
        (absorb 0 ((digitText n).map digit)).2.length,
        (absorb 0 ((digitText n).map digit)).2.isEmpty⟩ rest := by
    rw [numeral, integerDigits_digitText n h]
    rfl
  rw [hopen, absorb_digitText hn]
  rfl

theorem numeral_integer (negative : Bool) {n : ℕ} (hn : n < 2 ^ 64) {rest : Bytes}
    (h : NoFront continuesNumber rest) :
    numeral negative (digitText n ++ rest) = .ok (⟨negative, n, 0, true⟩, rest) := by
  have hpoint : ∀ t, rest ≠ byte '.' :: t := ExponentText.none.noPoint h
  rw [numeral_digitText negative hn h.isDigit, fractionPart_of_noPoint _ hpoint]
  exact exponentPart_of_noFront _ h

theorem numeral_zeroFraction (negative : Bool) {n k : ℕ} (hn : n < 2 ^ 64) (hk : 1 ≤ k) :
    ∃ j, ZerosTaken n k j ∧ ∀ rest, NoFront continuesNumber rest →
      numeral negative (digitText n ++ (zeroFraction k ++ rest)) =
        .ok (⟨negative, n * 10 ^ j, -(j : ℤ), false⟩, rest) := by
  obtain ⟨j, htaken, habsorb⟩ := absorb_zeros hn k
  have hj := htaken.le
  refine ⟨j, htaken, fun rest h => ?_⟩
  have hzeros : Digits (List.replicate k (byte '0')) := by
    refine ⟨fun hnil => ?_, fun b hb => ?_⟩
    · rw [List.replicate_eq_nil_iff] at hnil
      omega
    · rw [List.eq_of_mem_replicate hb]
      rfl
  have hvalues : (List.replicate k (byte '0')).map digit = List.replicate k 0 := List.map_replicate
  have hplaces : (0 : ℤ) - (k - (k - j) : ℕ) = -(j : ℤ) := by omega
  rw [zeroFraction, List.cons_append, numeral_digitText negative hn (noFront_cons rfl _),
    fractionPart_point, fractionDigits_append hzeros h.isDigit, hvalues]
  change exponentPart ⟨negative, (absorb n (List.replicate k 0)).1,
    0 - ((List.replicate k 0).length - (absorb n (List.replicate k 0)).2.length : ℕ), false⟩ rest = _
  rw [habsorb, List.length_replicate, List.length_replicate, hplaces]
  exact exponentPart_of_noFront _ h

/-! ## The two numbers -/

theorem number_of_numeral {negative : Bool} {r left : Bytes} {m : Numeral} {v : Number}
    (h : numeral negative r = .ok (m, left)) (hv : Number.ofNumeral? m = some v) :
    number negative r = .ok (v, left) := by
  rw [number, h]
  simp only [bind, Except.bind, hv]

theorem exists_ofNumeral_integer {n : ℤ} (hn : n.natAbs ≤ 2 ^ 53) :
    ∃ a, Number.ofNumeral? ⟨n < 0, n.natAbs, 0, true⟩ = some a ∧ a.value = n := by
  by_cases hneg : n < 0
  · have hfits : 0 < n.natAbs ∧ n.natAbs ≤ 0x8000_0000_0000_0000 := by omega
    refine ⟨.negative n.natAbs hfits, ?_, ?_⟩
    · rw [Number.ofNumeral?, Number.integerOf?, decide_eq_true hneg]
      simp only [Bool.true_eq_false, if_false, dif_pos hfits]
    · have hvalue : n = -(n.natAbs : ℤ) := by omega
      rw [Number.value_of_integer? rfl, ← hvalue]
  · have hfits : n.natAbs < 0x1_0000_0000_0000_0000 := by omega
    refine ⟨.natural n.natAbs hfits, ?_, ?_⟩
    · rw [Number.ofNumeral?, Number.integerOf?, decide_eq_false hneg]
      simp only [Bool.true_eq_false, if_false, if_true, dif_pos hfits]
    · have hvalue : n = (n.natAbs : ℤ) := by omega
      rw [Number.value_of_integer? rfl, ← hvalue]

theorem exists_scaled {m j : ℕ} (hm : m ≤ 2 ^ 53) (hlimit : m * 10 ^ j < 2 ^ 64)
    (hkept : Decimal.ZerosKept m j) :
    ∃ z : Magnitude, z.ticks = m * Magnitude.unit ∧ Decimal.scaled ⟨m * 10 ^ j, -(j : ℤ)⟩ = some z := by
  by_cases hzero : m = 0
  · subst hzero
    exact ⟨.zero, (Nat.zero_mul _).symm, by rw [Nat.zero_mul]; exact Decimal.scaled_zero j⟩
  · have hplaces : j ≤ 22 := by
      by_contra hlt
      have hpower : 10 ^ 23 ≤ 10 ^ j := Nat.pow_le_pow_right (by decide) (by omega)
      have hproduct := Nat.le_mul_of_pos_left (10 ^ j) (Nat.pos_of_ne_zero hzero)
      omega
    exact Decimal.scaled_zeros hzero hm hplaces (by omega) hkept

theorem exists_ofNumeral_zeroFraction {n : ℤ} {j : ℕ} (hn : n.natAbs ≤ 2 ^ 53)
    (hlimit : n.natAbs * 10 ^ j < 2 ^ 64) (hkept : Decimal.ZerosKept n.natAbs j) :
    ∃ b, Number.ofNumeral? ⟨n < 0, n.natAbs * 10 ^ j, -(j : ℤ), false⟩ = some b ∧ b.value = n := by
  obtain ⟨z, hz, hscaled⟩ := exists_scaled hn hlimit hkept
  refine ⟨.double ⟨n < 0, z⟩, ?_, ?_⟩
  · rw [Number.ofNumeral?, Number.integerOf?, if_pos rfl]
    simp only [hscaled, Option.map_some]
  · have hticks : Binary64.ticks ⟨n < 0, z⟩ = n * (Magnitude.unit : ℤ) := by
      rw [Binary64.ticks]
      dsimp only
      rw [hz, Int.natCast_mul]
      by_cases hneg : n < 0
      · rw [decide_eq_true hneg, if_pos rfl, ← Int.neg_mul, show -(n.natAbs : ℤ) = n by omega]
      · rw [decide_eq_false hneg, if_neg Bool.false_ne_true, show (n.natAbs : ℤ) = n by omega]
    exact (Binary64.value_eq_int_iff _ n).2 hticks

/-! ## Wherever they stand -/

theorem value_digitText (depth : ℕ) (n : ℤ) (r : Bytes) :
    value depth ((if n < 0 then [byte '-'] else []) ++ (digitText n.natAbs ++ r)) =
      (number (n < 0) (digitText n.natAbs ++ r)).map fun x => (.number x.1, x.2) := by
  have hvalue : ∃ inner, value depth = valueOver inner := by
    cases depth <;> exact ⟨_, rfl⟩
  obtain ⟨inner, hinner⟩ := hvalue
  rw [hinner]
  by_cases hneg : n < 0
  · rw [if_pos hneg, decide_eq_true hneg]
    rfl
  · rw [if_neg hneg, decide_eq_false hneg, List.nil_append]
    obtain ⟨b, t, ht⟩ := List.exists_cons_of_ne_nil (digitText_ne_nil n.natAbs)
    have hb : isDigit b = true := isDigit_of_mem_digitText (ht ▸ List.mem_cons_self)
    rw [ht, List.cons_append]
    exact valueOver_digit inner hb _

theorem compare_number {a b : Number} (h : a.value = b.value) :
    Comparison.compare (.number a) (.number b) = .ok () :=
  (Comparison.compareAt_eq_ok_iff .root (.number a) (.number b)).2 (.number h)

/-- Up to this bound every zero that is taken is kept, and beyond it few zeros are. -/
theorem zerosKept_of_small {n j : ℕ} (hlimit : n * 10 ^ j < 2 ^ 64)
    (h : n ≤ 922337204 ∨ n * 5 ^ j ≤ 2 ^ 53) : Decimal.ZerosKept n j := by
  have hsplit : n * 10 ^ j = n * 5 ^ j * 2 ^ j := by rw [Nat.mul_assoc, ← Nat.mul_pow]
  rw [Decimal.ZerosKept, hsplit]
  rw [hsplit] at hlimit
  refine .inl (Magnitude.Representable.mul_two_pow ?_ j)
  rcases h with hn | hfive
  · rcases Nat.lt_or_ge 10 j with hj | hj
    · -- so many zeros fit into 64 bits only behind few digits
      have htwo := Nat.mul_le_mul_left (n * 5 ^ j) (Nat.pow_le_pow_right Nat.two_pos (Nat.succ_le_of_lt hj))
      exact Magnitude.representable_of_le (by omega)
    · have hpower : 5 ^ j ≤ 5 ^ 10 := Nat.pow_le_pow_right (by decide) hj
      rcases Nat.lt_or_eq_of_le hn with hlt | rfl
      · have hproduct := Nat.mul_le_mul (Nat.le_of_lt_succ hlt) hpower
        exact Magnitude.representable_of_le (by omega)
      · have hodd : 922337204 * 5 ^ j = 230584301 * 5 ^ j * 2 ^ 2 := by omega
        rw [hodd]
        exact (Magnitude.representable_of_le (by omega)).mul_two_pow 2
  · exact Magnitude.representable_of_le hfive

example : Decimal.ZerosKept 4503599627370497 3 := .inr (by decide +kernel)

/-- Zeros behind the point change nothing where those that are taken are kept: both spellings are read,
wherever they stand, and each is accepted for the other. -/
theorem compare_zeroFraction {n : ℤ} {k : ℕ} (hn : n.natAbs ≤ 2 ^ 53) (hk : 1 ≤ k)
    (hkept : ∀ j, ZerosTaken n.natAbs k j → Decimal.ZerosKept n.natAbs j) :
    ∃ v w : Json,
      (∀ depth rest, Delimited rest → value depth (integerText n ++ rest) = .ok (v, rest)) ∧
      (∀ depth rest, Delimited rest →
        value depth (integerText n ++ zeroFraction k ++ rest) = .ok (w, rest)) ∧
      Comparison.compare v w = .ok () ∧ Comparison.compare w v = .ok () := by
  have hlimit : n.natAbs < 2 ^ 64 := by omega
  obtain ⟨j, htaken, hread⟩ := numeral_zeroFraction (n < 0) hlimit hk
  obtain ⟨a, ha, hvalue⟩ := exists_ofNumeral_integer hn
  obtain ⟨b, hb, hvalue'⟩ := exists_ofNumeral_zeroFraction hn htaken.fits (hkept j htaken)
  have hsame := hvalue.trans hvalue'.symm
  refine ⟨.number a, .number b, fun depth rest hrest => ?_, fun depth rest hrest => ?_,
    compare_number hsame, compare_number hsame.symm⟩
  · rw [integerText, List.append_assoc, value_digitText,
      number_of_numeral (numeral_integer _ hlimit hrest.noFront) ha]
    rfl
  · rw [integerText, List.append_assoc, List.append_assoc, value_digitText,
      number_of_numeral (hread rest hrest.noFront) hb]
    rfl

theorem compare_zeroFraction_ten :
    ∃ v w : Json,
      (∀ depth rest, Delimited rest → value depth (integerText (-922337204) ++ rest) = .ok (v, rest)) ∧
      (∀ depth rest, Delimited rest →
        value depth (integerText (-922337204) ++ zeroFraction 10 ++ rest) = .ok (w, rest)) ∧
      Comparison.compare v w = .ok () ∧ Comparison.compare w v = .ok () :=
  compare_zeroFraction (by decide) (by decide) fun _ htaken =>
    zerosKept_of_small htaken.fits (.inl (by decide))

/-- The next number has lost a bit to its zeros, and the quotient does not make up for it. -/
theorem zeroFraction_lost :
    ∃ v w : Json, read (integerText 922337205) = .ok v ∧
      read (integerText 922337205 ++ zeroFraction 10) = .ok w ∧
      Comparison.compare v w ≠ .ok () ∧ Comparison.compare w v ≠ .ok () := by
  have hread : (read (integerText 922337205)).isOk = true := by decide +kernel
  have hread' : (read (integerText 922337205 ++ zeroFraction 10)).isOk = true := by decide +kernel
  obtain ⟨v, hv⟩ := exists_of_isOk hread
  obtain ⟨w, hw⟩ := exists_of_isOk hread'
  have hverdict : ((read (integerText 922337205)).bind fun v =>
      (read (integerText 922337205 ++ zeroFraction 10)).map fun w =>
        (Comparison.compare v w).isOk || (Comparison.compare w v).isOk).toOption = some false := by
    decide +kernel
  rw [hv, hw] at hverdict
  obtain ⟨hrefused, hrefused'⟩ := Bool.or_eq_false_iff.1 (Option.some.inj hverdict)
  refine ⟨v, w, hv, hw, fun h => ?_, fun h => ?_⟩
  · rw [h] at hrefused
    cases hrefused
  · rw [h] at hrefused'
    cases hrefused'

end Conformance.Json.Reader
