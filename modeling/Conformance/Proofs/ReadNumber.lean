import Conformance.Json.Reader.Numeral
import Conformance.Proofs.Grammar
import Conformance.Proofs.Outcome
set_option autoImplicit false

/-!
# Reading and skipping numbers

A reader is local when what it makes of a piece of text does not depend on what stands behind it, as
long as that does not continue the piece. The number reader is local on number texts, and what skips a
number takes exactly a number text.
-/
namespace Conformance.Json

open Reader (isDigit)

/-- What the reader gives stands in a piece of the kind, which it reads so in front of anything else. -/
def Local {α : Type} (f : Reader α) (text stop : Bytes → Prop) : Prop :=
  ∀ ⦃r : Bytes⦄ ⦃a : α⦄ ⦃left : Bytes⦄, f r = .ok (a, left) →
    ∃ p, r = p ++ left ∧ text p ∧ ∀ rest, stop rest → f (p ++ rest) = .ok (a, rest)

structure Takes (f : Bytes → Except Fault Bytes) (text stop : Bytes → Prop) : Prop where
  sound : ∀ {r left : Bytes}, f r = .ok left → ∃ p, r = p ++ left ∧ text p
  complete : ∀ {p rest : Bytes}, text p → stop rest → f (p ++ rest) = .ok rest

theorem digits_cons {b : UInt8} {ds : Bytes} (hb : isDigit b = true)
    (hds : ∀ c ∈ ds, isDigit c = true) : Digits (b :: ds) :=
  ⟨List.cons_ne_nil b ds, fun c hc => (List.mem_cons.1 hc).elim (fun h => h ▸ hb) (hds c)⟩

theorem Digits.cases {ds : Bytes} (h : Digits ds) :
    ∃ b t, ds = b :: t ∧ isDigit b = true ∧ ∀ c ∈ t, isDigit c = true := by
  obtain ⟨hne, hall⟩ := h
  cases ds with
  | nil => exact absurd rfl hne
  | cons b t => exact ⟨b, t, rfl, hall b List.mem_cons_self, fun c hc => hall c (List.mem_cons_of_mem b hc)⟩

theorem NoFront.isDigit {rest : Bytes} (h : NoFront continuesNumber rest) :
    NoFront Reader.isDigit rest := by
  intro b hb
  have hb := h b hb
  simp only [continuesNumber, Bool.or_eq_false_iff] at hb
  exact hb.1.1.1

theorem NoFront.noExponentMark {b : UInt8} {rest : Bytes} (h : NoFront continuesNumber (b :: rest)) :
    ¬ (b = Reader.byte 'e' ∨ b = Reader.byte 'E') := by
  have hb := h b rfl
  simp only [continuesNumber, Bool.or_eq_false_iff, beq_eq_false_iff_ne] at hb
  exact not_or.2 ⟨hb.1.2, hb.2⟩

theorem noDigit_of_exponentMark {e : UInt8} (he : e = Reader.byte 'e' ∨ e = Reader.byte 'E')
    (rest : Bytes) : NoFront Reader.isDigit (e :: rest) := by
  rcases he with rfl | rfl
  · exact noFront_cons rfl rest
  · exact noFront_cons rfl rest

theorem ExponentText.noDigit {p rest : Bytes} (h : ExponentText p)
    (hrest : NoFront continuesNumber rest) : NoFront Reader.isDigit (p ++ rest) := by
  cases h with
  | none => exact hrest.isDigit
  | digits he _ => exact noDigit_of_exponentMark he _
  | signed he _ _ => exact noDigit_of_exponentMark he _

theorem ExponentText.noPoint {p rest : Bytes} (h : ExponentText p)
    (hrest : NoFront continuesNumber rest) (t : Bytes) : p ++ rest ≠ Reader.byte '.' :: t := by
  intro ht
  cases h with
  | none => exact nomatch hrest (Reader.byte '.') (by rw [← List.nil_append rest, ht]; rfl)
  | digits he _ => rcases he with rfl | rfl <;> exact nomatch ht
  | signed he _ _ => rcases he with rfl | rfl <;> exact nomatch ht

theorem FractionText.noDigit {p rest : Bytes} (h : FractionText p)
    (hrest : NoFront continuesNumber rest) : NoFront Reader.isDigit (p ++ rest) := by
  cases h with
  | none hp => exact hp.noDigit hrest
  | digits _ _ => exact noFront_cons rfl _

namespace Reader

open Number (Numeral)

variable {ds rest : Bytes}

/-! ## Digits -/

theorem digits_append (hds : ∀ b ∈ ds, isDigit b = true) (h : NoFront isDigit rest) :
    digits (ds ++ rest) = ds.map digit := by
  rw [digits, h.takeWhile_append hds]

theorem skipDigits_append (hds : ∀ b ∈ ds, isDigit b = true) (h : NoFront isDigit rest) :
    skipDigits (ds ++ rest) = rest :=
  h.dropWhile_append hds

theorem integerDigits_zero (h : NoFront isDigit rest) :
    integerDigits (byte '0' :: rest) = .ok ([0], rest) := by
  cases rest with
  | nil => rfl
  | cons c rest => simp [integerDigits, h c rfl]

theorem integerDigits_digits {b : UInt8} (hfirst : isDigit b = true) (hzero : b ≠ byte '0')
    (hds : ∀ c ∈ ds, isDigit c = true) (h : NoFront isDigit rest) :
    integerDigits (b :: (ds ++ rest)) = .ok ((b :: ds).map digit, rest) := by
  have hall : ∀ c ∈ b :: ds, isDigit c = true := List.forall_mem_cons.2 ⟨hfirst, hds⟩
  unfold integerDigits
  dsimp only
  rw [if_neg hzero, if_pos hfirst, skipDigits_append hds h, ← List.cons_append, digits_append hall h]

theorem integerDigits_local : Local integerDigits WholeText (NoFront isDigit) := by
  intro r a left h
  cases r with
  | nil => cases h
  | cons b r =>
    unfold integerDigits at h
    dsimp only at h
    by_cases hzero : b = byte '0'
    · subst hzero
      rw [if_pos rfl] at h
      have hr : a = [0] ∧ r = left := by
        cases r with
        | nil => simpa [eq_comm] using h
        | cons c r =>
          dsimp only at h
          split at h
          · cases h
          · simpa [eq_comm] using h
      obtain ⟨rfl, rfl⟩ := hr
      exact ⟨[byte '0'], rfl, .zero, fun rest hrest => integerDigits_zero hrest⟩
    · rw [if_neg hzero] at h
      split at h
      · next hfirst =>
        obtain ⟨rfl, rfl⟩ := Prod.mk.inj (Except.ok.inj h)
        obtain ⟨ds, hr, hds, -, hfront⟩ := exists_run isDigit r
        have hdigits : digits (b :: r) = (b :: ds).map digit := by
          rw [hr, ← List.cons_append]
          exact digits_append (List.forall_mem_cons.2 ⟨hfirst, hds⟩) hfront
        refine ⟨b :: ds, by rw [List.cons_append]; exact congrArg _ hr, .digits hfirst hzero hds, ?_⟩
        intro rest hrest
        rw [hdigits]
        exact integerDigits_digits hfirst hzero hds hrest
      · cases h

theorem fractionDigits_append (hds : Digits ds) (h : NoFront isDigit rest) :
    fractionDigits (ds ++ rest) = .ok (ds.map digit, rest) := by
  have hskip := skipDigits_append hds.2 h
  have hdigits := digits_append hds.2 h
  obtain ⟨b, t, rfl, hb, -⟩ := hds.cases
  rw [List.cons_append] at hskip hdigits ⊢
  unfold fractionDigits
  dsimp only
  rw [if_pos hb, hskip, hdigits]

theorem fractionDigits_local : Local fractionDigits Digits (NoFront isDigit) := by
  intro r a left h
  cases r with
  | nil => cases h
  | cons b r =>
    unfold fractionDigits at h
    dsimp only at h
    split at h
    · next hb =>
      obtain ⟨rfl, rfl⟩ := Prod.mk.inj (Except.ok.inj h)
      obtain ⟨ds, hr, hds, hrun, hfront⟩ := exists_run isDigit (b :: r)
      have hne : ds ≠ [] := by simp [hrun, hb]
      refine ⟨ds, hr, ⟨hne, hds⟩, fun rest hrest => ?_⟩
      rw [fractionDigits_append ⟨hne, hds⟩ hrest, digits, ← hrun]
    · cases h

/-! ## Exponents -/

/-- Whether the exponent is too great does not depend on what stands behind its digits; where it is,
those left are skipped. -/
theorem exponentValue_cases (hds : ∀ b ∈ ds, isDigit b = true) (v : ℕ) :
    (∃ n, ∀ rest, NoFront isDigit rest → exponentValue v (ds ++ rest) = .ok (n, rest)) ∨
    ∀ rest, NoFront isDigit rest →
      ∃ behind, exponentValue v (ds ++ rest) = .error behind ∧ skipDigits behind = rest := by
  induction ds generalizing v with
  | nil =>
    refine Or.inl ⟨v, fun rest hrest => ?_⟩
    cases rest with
    | nil => rfl
    | cons b rest => simp [exponentValue, hrest b rfl]
  | cons b ds ih =>
    have hb : isDigit b = true := hds b List.mem_cons_self
    have hds := fun c hc => hds c (List.mem_cons_of_mem b hc)
    simp only [List.cons_append, exponentValue, if_pos hb]
    by_cases hsmall : v * 10 + digit b < 0x8000_0000
    · simp only [if_pos hsmall]
      exact ih hds _
    · simp only [if_neg hsmall]
      exact Or.inr fun rest hrest => ⟨ds ++ rest, rfl, skipDigits_append hds hrest⟩

inductive SignText : Bool → Bytes → Prop where
  | none : SignText false []
  | plus : SignText false [byte '+']
  | minus : SignText true [byte '-']

theorem exponentSign_cases (r : Bytes) :
    ∃ s, SignText (exponentSign r).1 s ∧ r = s ++ (exponentSign r).2 := by
  cases r with
  | nil => exact ⟨[], .none, rfl⟩
  | cons b r =>
    rw [exponentSign]
    by_cases hplus : b = byte '+'
    · subst hplus
      exact ⟨_, .plus, rfl⟩
    · by_cases hminus : b = byte '-'
      · subst hminus
        exact ⟨_, .minus, rfl⟩
      · rw [if_neg hplus, if_neg hminus]
        exact ⟨[], .none, rfl⟩

theorem exponentSign_append {down : Bool} {s : Bytes} (hs : SignText down s) (hds : Digits ds)
    (rest : Bytes) : exponentSign (s ++ (ds ++ rest)) = (down, ds ++ rest) := by
  obtain ⟨b, t, rfl, hb, -⟩ := hds.cases
  cases hs with
  | none =>
    have hplus : b ≠ byte '+' := by rintro rfl; cases hb
    have hminus : b ≠ byte '-' := by rintro rfl; cases hb
    rw [List.nil_append, List.cons_append, exponentSign, if_neg hplus, if_neg hminus]
  | plus => rfl
  | minus => rfl

theorem exponentText_of_sign {down : Bool} {e : UInt8} {s : Bytes} (hs : SignText down s)
    (he : e = byte 'e' ∨ e = byte 'E') (hds : Digits ds) : ExponentText (e :: (s ++ ds)) := by
  cases hs with
  | none => exact .digits he hds
  | plus => exact .signed he (Or.inl rfl) hds
  | minus => exact .signed he (Or.inr rfl) hds

def exponentDigits (n : Numeral) (down : Bool) : Reader Numeral
  | [] => .error (.here .endInValue [])
  | b :: tail =>
    if isDigit b then
      match exponentValue 0 (b :: tail) with
      | .ok (v, rest) =>
        .ok ({ n with exponent := if down then n.exponent - v else n.exponent + v, plain := false }, rest)
      | .error rest =>
        if n.significand ≠ 0 ∧ down = false then .error (.here .numberOutOfRange rest)
        else .ok (⟨n.negative, 0, 0, false⟩, skipDigits rest)
    else .error (.here .invalidNumber tail)

theorem withExponent_eq (n : Numeral) (r : Bytes) :
    withExponent n r = exponentDigits n (exponentSign r).1 (exponentSign r).2 := rfl

theorem exponentDigits_cases (n : Numeral) (down : Bool) (hds : Digits ds) :
    (∃ m, ∀ rest, NoFront isDigit rest → exponentDigits n down (ds ++ rest) = .ok (m, rest)) ∨
    ∀ rest, NoFront isDigit rest → ∃ fault, exponentDigits n down (ds ++ rest) = .error fault := by
  have hcases := exponentValue_cases hds.2 0
  obtain ⟨b, t, rfl, hb, -⟩ := hds.cases
  simp only [List.cons_append] at hcases ⊢
  simp only [exponentDigits, if_pos hb]
  rcases hcases with ⟨v, hvalue⟩ | hvalue
  · refine Or.inl ⟨{ n with
      exponent := if down then n.exponent - v else n.exponent + v, plain := false }, fun rest hrest => ?_⟩
    rw [hvalue rest hrest]
  · by_cases hlost : n.significand ≠ 0 ∧ down = false
    · refine Or.inr fun rest hrest => ?_
      obtain ⟨behind, hbehind, -⟩ := hvalue rest hrest
      exact ⟨_, by rw [hbehind]; exact if_pos hlost⟩
    · refine Or.inl ⟨⟨n.negative, 0, 0, false⟩, fun rest hrest => ?_⟩
      obtain ⟨behind, hbehind, hskip⟩ := hvalue rest hrest
      rw [hbehind, ← hskip]
      exact if_neg hlost

theorem exponentDigits_local (n : Numeral) (down : Bool) :
    Local (exponentDigits n down) Digits (NoFront isDigit) := by
  intro r m left h
  cases r with
  | nil => cases h
  | cons b tail =>
    by_cases hb : isDigit b = true
    · obtain ⟨ds, hr, hds, -, hfront⟩ := exists_run isDigit tail
      have hdigits : Digits (b :: ds) := digits_cons hb hds
      rw [hr, ← List.cons_append] at h ⊢
      rcases exponentDigits_cases n down hdigits with ⟨m', hread⟩ | hfault
      · obtain ⟨rfl, rfl⟩ := Prod.mk.inj (Except.ok.inj ((hread _ hfront).symm.trans h))
        exact ⟨b :: ds, rfl, hdigits, hread⟩
      · obtain ⟨fault, hfault⟩ := hfault _ hfront
        exact nomatch hfault.symm.trans h
    · rw [exponentDigits, if_neg hb] at h
      cases h

theorem exponentPart_of_noFront (n : Numeral) (hrest : NoFront continuesNumber rest) :
    exponentPart n rest = .ok (n, rest) := by
  cases rest with
  | nil => rfl
  | cons b rest => exact if_neg hrest.noExponentMark

theorem exponentPart_local (n : Numeral) :
    Local (exponentPart n) ExponentText (NoFront continuesNumber) := by
  have hnone : ∀ rest, NoFront continuesNumber rest → exponentPart n rest = .ok (n, rest) :=
    fun _ hrest => exponentPart_of_noFront n hrest
  intro r m left h
  cases r with
  | nil =>
    obtain ⟨rfl, rfl⟩ := Prod.mk.inj (Except.ok.inj h)
    exact ⟨[], rfl, .none, hnone⟩
  | cons e tail =>
    by_cases he : e = byte 'e' ∨ e = byte 'E'
    · have hopen : ∀ t, exponentPart n (e :: t) = withExponent n t := fun t => if_pos he
      rw [hopen, withExponent_eq] at h
      obtain ⟨s, hs, htail⟩ := exponentSign_cases tail
      obtain ⟨ds, hdigits, hds, hread⟩ := exponentDigits_local n _ h
      refine ⟨e :: (s ++ ds), ?_, exponentText_of_sign hs he hds, fun rest hrest => ?_⟩
      · rw [List.cons_append, List.append_assoc, ← hdigits, ← htail]
      · rw [List.cons_append, List.append_assoc, hopen, withExponent_eq, exponentSign_append hs hds]
        exact hread rest hrest.isDigit
    · have hr : exponentPart n (e :: tail) = .ok (n, e :: tail) := if_neg he
      obtain ⟨rfl, rfl⟩ := Prod.mk.inj (Except.ok.inj (hr.symm.trans h))
      exact ⟨[], rfl, .none, hnone⟩

/-! ## Numbers -/

theorem fractionPart_of_noPoint (n : Numeral) {r : Bytes} (h : ∀ t, r ≠ byte '.' :: t) :
    fractionPart n r = exponentPart n r := by
  cases r with
  | nil => rfl
  | cons b t => exact if_neg fun hb => h t (by rw [hb])

theorem fractionPart_point (n : Numeral) (t : Bytes) :
    fractionPart n (byte '.' :: t) = fractionDigits t >>= fun x =>
      exponentPart ⟨n.negative, (absorb n.significand x.1).1,
        n.exponent - (x.1.length - (absorb n.significand x.1).2.length : Nat), false⟩ x.2 :=
  rfl

theorem fractionPart_local (n : Numeral) :
    Local (fractionPart n) FractionText (NoFront continuesNumber) := by
  intro r m left h
  have hpoint := fractionPart_point n
  by_cases hb : ∃ t, r = byte '.' :: t
  · obtain ⟨t, rfl⟩ := hb
    rw [hpoint] at h
    obtain ⟨⟨ds, behind⟩, hdigits, hexponent⟩ := ok_of_bind_eq_ok h
    obtain ⟨d, rfl, hd, hreadDigits⟩ := fractionDigits_local hdigits
    obtain ⟨p, rfl, hp, hreadExponent⟩ := exponentPart_local _ hexponent
    refine ⟨byte '.' :: (d ++ p), by simp, .digits hd hp, fun rest hrest => ?_⟩
    rw [List.cons_append, List.append_assoc, hpoint, hreadDigits _ (hp.noDigit hrest)]
    exact hreadExponent rest hrest
  · rw [fractionPart_of_noPoint n fun t ht => hb ⟨t, ht⟩] at h
    obtain ⟨p, rfl, hp, hread⟩ := exponentPart_local n h
    refine ⟨p, rfl, .none hp, fun rest hrest => ?_⟩
    rw [fractionPart_of_noPoint n (hp.noPoint hrest)]
    exact hread rest hrest

theorem numeral_local (negative : Bool) :
    Local (numeral negative) NumberText (NoFront continuesNumber) := by
  intro r n left h
  obtain ⟨⟨ds, behind⟩, hdigits, hfraction⟩ := ok_of_bind_eq_ok h
  obtain ⟨d, rfl, hd, hreadDigits⟩ := integerDigits_local hdigits
  obtain ⟨p, rfl, hp, hreadFraction⟩ := fractionPart_local _ hfraction
  refine ⟨d ++ p, by simp, .intro hd hp, fun rest hrest => ?_⟩
  rw [List.append_assoc, numeral, hreadDigits _ (hp.noDigit hrest)]
  exact hreadFraction rest hrest

theorem number_local (negative : Bool) :
    Local (number negative) NumberText (NoFront continuesNumber) := by
  intro r v left h
  obtain ⟨⟨n, behind⟩, hnumeral, hvalue⟩ := ok_of_bind_eq_ok h
  obtain ⟨p, rfl, hp, hread⟩ := numeral_local negative hnumeral
  dsimp only at hvalue
  split at hvalue
  · next v' hv =>
    obtain ⟨rfl, rfl⟩ := Prod.mk.inj (Except.ok.inj hvalue)
    refine ⟨p, rfl, hp, fun rest hrest => ?_⟩
    rw [number, hread rest hrest]
    simp only [bind, Except.bind, hv]
  · cases hvalue

/-! ## Skipping -/

def skipExponentDigits : Bytes → Except Fault Bytes
  | [] => .error (.here .invalidNumber [])
  | b :: tail => if isDigit b then .ok (tail.dropWhile isDigit) else .error (.here .invalidNumber tail)

theorem skipExponent_eq (r : Bytes) : skipExponent r = skipExponentDigits (exponentSign r).2 := by
  cases r with
  | nil => rfl
  | cons b r =>
    by_cases hplus : b = byte '+'
    · subst hplus
      rfl
    · by_cases hminus : b = byte '-'
      · subst hminus
        rfl
      · have hsign : exponentSign (b :: r) = (false, b :: r) := by
          rw [exponentSign, if_neg hplus, if_neg hminus]
        rw [hsign]
        unfold skipExponent
        simp only [hplus, hminus, or_false, if_false]
        rfl

theorem skipExponentDigits_takes : Takes skipExponentDigits Digits (NoFront isDigit) where
  sound := by
    intro r left h
    cases r with
    | nil => cases h
    | cons b tail =>
      rw [skipExponentDigits] at h
      split at h
      · next hb =>
        obtain rfl := Except.ok.inj h
        obtain ⟨ds, hr, hds, -, -⟩ := exists_run isDigit tail
        exact ⟨b :: ds, congrArg _ hr, digits_cons hb hds⟩
      · cases h
  complete := by
    intro ds rest hds hrest
    obtain ⟨b, t, rfl, hb, ht⟩ := hds.cases
    rw [List.cons_append, skipExponentDigits, if_pos hb, hrest.dropWhile_append ht]

theorem skipExponentPart_takes : Takes skipExponentPart ExponentText (NoFront continuesNumber) where
  sound := by
    intro r left h
    cases r with
    | nil =>
      obtain rfl := Except.ok.inj h
      exact ⟨[], rfl, .none⟩
    | cons e tail =>
      by_cases he : e = byte 'e' ∨ e = byte 'E'
      · have hopen : skipExponentPart (e :: tail) = skipExponent tail := if_pos he
        rw [hopen, skipExponent_eq] at h
        obtain ⟨s, hs, htail⟩ := exponentSign_cases tail
        obtain ⟨ds, hdigits, hds⟩ := skipExponentDigits_takes.sound h
        exact ⟨e :: (s ++ ds), by rw [List.cons_append, List.append_assoc, ← hdigits, ← htail],
          exponentText_of_sign hs he hds⟩
      · have hr : skipExponentPart (e :: tail) = .ok (e :: tail) := if_neg he
        obtain rfl := Except.ok.inj (hr.symm.trans h)
        exact ⟨[], rfl, .none⟩
  complete := by
    intro p rest hp hrest
    have hopen : ∀ {e : UInt8} {down : Bool} {s ds : Bytes}, e = byte 'e' ∨ e = byte 'E' →
        SignText down s → Digits ds → skipExponentPart (e :: (s ++ (ds ++ rest))) = .ok rest := by
      intro e down s ds he hs hds
      have hskip : skipExponentPart (e :: (s ++ (ds ++ rest))) = skipExponent (s ++ (ds ++ rest)) := if_pos he
      rw [hskip, skipExponent_eq, exponentSign_append hs hds]
      exact skipExponentDigits_takes.complete hds hrest.isDigit
    cases hp with
    | none =>
      cases rest with
      | nil => rfl
      | cons b rest => exact if_neg hrest.noExponentMark
    | digits he hds => exact hopen he .none hds
    | signed he hsign hds =>
      rcases hsign with rfl | rfl
      · exact hopen he .plus hds
      · exact hopen he .minus hds

theorem skipFractionPart_of_noPoint {r : Bytes} (h : ∀ t, r ≠ byte '.' :: t) :
    skipFractionPart r = skipExponentPart r := by
  cases r with
  | nil => rfl
  | cons b t => exact if_neg fun hb => h t (by rw [hb])

theorem skipFractionPart_takes : Takes skipFractionPart FractionText (NoFront continuesNumber) where
  sound := by
    intro r left h
    by_cases hb : ∃ t, r = byte '.' :: t
    · obtain ⟨t, rfl⟩ := hb
      cases t with
      | nil => cases h
      | cons c more =>
        by_cases hc : isDigit c = true
        · have hopen : skipFractionPart (byte '.' :: c :: more) =
            skipExponentPart (more.dropWhile isDigit) := if_pos hc
          rw [hopen] at h
          obtain ⟨ds, hmore, hds, -, -⟩ := exists_run isDigit more
          obtain ⟨p, hleft, hp⟩ := skipExponentPart_takes.sound h
          refine ⟨byte '.' :: (c :: ds ++ p), ?_, .digits (digits_cons hc hds) hp⟩
          rw [List.cons_append, List.append_assoc, List.cons_append, ← hleft, ← hmore]
        · have hopen : skipFractionPart (byte '.' :: c :: more) = .error _ := if_neg hc
          rw [hopen] at h
          cases h
    · rw [skipFractionPart_of_noPoint fun t ht => hb ⟨t, ht⟩] at h
      obtain ⟨p, rfl, hp⟩ := skipExponentPart_takes.sound h
      exact ⟨p, rfl, .none hp⟩
  complete := by
    intro p rest hp hrest
    cases hp with
    | none hp =>
      rw [skipFractionPart_of_noPoint (hp.noPoint hrest)]
      exact skipExponentPart_takes.complete hp hrest
    | @digits ds q hds hp =>
      obtain ⟨c, t, rfl, hc, ht⟩ := hds.cases
      have hopen : skipFractionPart (byte '.' :: c :: (t ++ (q ++ rest))) =
        skipExponentPart ((t ++ (q ++ rest)).dropWhile isDigit) := if_pos hc
      rw [List.cons_append, List.append_assoc, List.cons_append, hopen,
        (hp.noDigit hrest).dropWhile_append ht]
      exact skipExponentPart_takes.complete hp hrest

theorem skipNumber_zero (h : NoFront isDigit rest) :
    skipNumber (byte '0' :: rest) = skipFractionPart rest := by
  cases rest with
  | nil => rfl
  | cons c rest => simp [skipNumber, h c rfl]

theorem skipNumber_digits {b : UInt8} (hb : isDigit b = true) (hzero : b ≠ byte '0') (r : Bytes) :
    skipNumber (b :: r) = skipFractionPart (r.dropWhile isDigit) := by
  unfold skipNumber
  dsimp only
  rw [if_neg hzero, if_pos hb]

theorem skipNumber_takes : Takes skipNumber NumberText (NoFront continuesNumber) where
  sound := by
    intro r left h
    cases r with
    | nil => cases h
    | cons b r =>
      by_cases hzero : b = byte '0'
      · subst hzero
        have hfront : NoFront isDigit r := by
          cases r with
          | nil => exact noFront_nil _
          | cons c r =>
            refine noFront_cons (Bool.eq_false_iff.2 fun hc => ?_) r
            simp [skipNumber, hc] at h
        rw [skipNumber_zero hfront] at h
        obtain ⟨p, rfl, hp⟩ := skipFractionPart_takes.sound h
        exact ⟨[byte '0'] ++ p, rfl, .intro .zero hp⟩
      · by_cases hb : isDigit b = true
        · rw [skipNumber_digits hb hzero] at h
          obtain ⟨ds, hr, hds, -, -⟩ := exists_run isDigit r
          obtain ⟨p, hleft, hp⟩ := skipFractionPart_takes.sound h
          refine ⟨b :: ds ++ p, ?_, .intro (.digits hb hzero hds) hp⟩
          rw [List.append_assoc, List.cons_append, ← hleft, ← hr]
        · simp [skipNumber, hzero, hb] at h
  complete := by
    intro p rest hp hrest
    obtain ⟨hds, hp⟩ := hp
    have hfront := hp.noDigit hrest
    cases hds with
    | zero =>
      rw [List.append_assoc, List.singleton_append, skipNumber_zero hfront]
      exact skipFractionPart_takes.complete hp hrest
    | digits hb hzero hds =>
      rw [List.append_assoc, List.cons_append, skipNumber_digits hb hzero,
        hfront.dropWhile_append hds]
      exact skipFractionPart_takes.complete hp hrest

end Reader
end Conformance.Json
