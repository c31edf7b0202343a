import Conformance.Proofs.DigitText
import Conformance.Proofs.PrefixCode
import Conformance.Proofs.ReadsBack
set_option autoImplicit false

/-!
# The text of a number

Behind its sign a number is written as digits, perhaps a point and more digits, and perhaps an exponent.
The text tells these parts, the parts stand for one decimal, and the decimal reads back as one magnitude:
no two numbers are written alike. An integer has neither a point nor an exponent, a double always has one
of them.
-/
namespace Conformance.Json.Number

/-- A number text behind its sign: the digits before the point and behind it, and the exponent. -/
structure Spelling where
  whole : List Char
  fraction : List Char
  exponent : Option ℤ

namespace Spelling

def fractionText : List Char → List Char
  | [] => []
  | c :: cs => '.' :: c :: cs

def exponentText : Option ℤ → List Char
  | none => []
  | some e => 'e' :: (if e < 0 then '-' else '+') :: Nat.toDigits 10 e.natAbs

def text (p : Spelling) : List Char := p.whole ++ (fractionText p.fraction ++ exponentText p.exponent)

def value (p : Spelling) : ℚ :=
  Nat.ofDigitChars 10 (p.whole ++ p.fraction) 0 * 10 ^ (p.exponent.getD 0 - p.fraction.length)

structure Valid (p : Spelling) : Prop where
  whole_ne : p.whole ≠ []
  whole : ∀ c ∈ p.whole, c.isDigit = true
  fraction : ∀ c ∈ p.fraction, c.isDigit = true

/-! ## The text tells the parts -/

theorem isDigit_of_mem_decimal {n : ℕ} {c : Char} (h : c ∈ Nat.toDigits 10 n) : c.isDigit = true :=
  Nat.isDigit_of_mem_toDigits (by decide) (by decide) h

theorem ne_of_isDigit {c d : Char} (hc : c.isDigit = true) (hd : d.isDigit = false) : c ≠ d := by
  rintro rfl
  rw [hc] at hd
  cases hd

theorem exponentText_injective {a b : Option ℤ} (h : exponentText a = exponentText b) : a = b := by
  cases a with
  | none =>
    cases b with
    | none => rfl
    | some j => cases h
  | some i =>
    cases b with
    | none => cases h
    | some j =>
      have htail := (List.cons.inj h).2
      obtain ⟨hsign, hdigits⟩ := List.cons.inj htail
      have habs : i.natAbs = j.natAbs := toDigits_injective (by decide) (by decide) hdigits
      have hneg : i < 0 ↔ j < 0 := by
        by_cases hi : i < 0 <;> by_cases hj : j < 0 <;> simp [hi, hj] at hsign ⊢
      congr 1
      omega

theorem exponentText_head (e : Option ℤ) : ∀ c ∈ (exponentText e).head?, c = 'e' := by
  cases e with
  | none => nofun
  | some e => simp [exponentText]

theorem fractionText_head (cs : List Char) (e : Option ℤ) :
    ∀ c ∈ (fractionText cs ++ exponentText e).head?, c = '.' ∨ c = 'e' := by
  cases cs with
  | nil =>
    intro c hc
    exact Or.inr (exponentText_head e c hc)
  | cons d cs => simp [fractionText]

theorem fraction_append_inj {cs ds : List Char} (hcs : ∀ c ∈ cs, c.isDigit = true)
    (hds : ∀ c ∈ ds, c.isDigit = true) {a b : Option ℤ}
    (h : fractionText cs ++ exponentText a = fractionText ds ++ exponentText b) : cs = ds ∧ a = b := by
  have hnot : ∀ {l : List Char}, (∀ c ∈ l, c.isDigit = true) → 'e' ∉ l :=
    fun hl he => ne_of_isDigit (hl 'e' he) rfl rfl
  have hpoint : ∀ e : Option ℤ, (exponentText e).head? ≠ some '.' := by
    intro e he
    cases exponentText_head e '.' he
  cases cs with
  | nil =>
    cases ds with
    | nil => exact ⟨rfl, exponentText_injective h⟩
    | cons d ds => exact absurd (congrArg List.head? h) (hpoint a)
  | cons c cs =>
    cases ds with
    | nil => exact absurd (congrArg List.head? h).symm (hpoint b)
    | cons d ds =>
      have hdigits : c :: cs ++ exponentText a = d :: ds ++ exponentText b := (List.cons.inj h).2
      obtain ⟨hfraction, hexponent⟩ := append_inj_of_char (hnot hcs) (hnot hds) (exponentText_head a)
        (exponentText_head b) hdigits
      exact ⟨hfraction, exponentText_injective hexponent⟩

theorem text_injective {p q : Spelling} (hp : p.Valid) (hq : q.Valid) (h : p.text = q.text) : p = q := by
  have hnot : ∀ c : Char, c.isDigit = true → ¬ (c = '.' ∨ c = 'e') :=
    fun c hc => not_or.2 ⟨ne_of_isDigit hc rfl, ne_of_isDigit hc rfl⟩
  obtain ⟨hwhole, hrest⟩ := append_inj_of_mark (fun c => c = '.' ∨ c = 'e')
    (fun c hc => hnot c (hp.whole c hc)) (fun c hc => hnot c (hq.whole c hc))
    (fractionText_head p.fraction p.exponent) (fractionText_head q.fraction q.exponent) h
  obtain ⟨hfraction, hexponent⟩ := fraction_append_inj hp.fraction hq.fraction hrest
  cases p
  cases q
  simp only at hwhole hfraction hexponent
  subst hwhole hfraction hexponent
  rfl

theorem mem_text {p : Spelling} (hp : p.Valid) {c : Char} (h : c ∈ p.text) :
    c.isDigit = true ∨ c ∈ ['.', 'e', '+', '-'] := by
  rw [text, List.mem_append, List.mem_append] at h
  rcases h with hwhole | hfraction | hexponent
  · exact Or.inl (hp.whole c hwhole)
  · cases hf : p.fraction with
    | nil =>
      rw [hf] at hfraction
      cases hfraction
    | cons d ds =>
      rw [hf] at hfraction
      rcases List.mem_cons.1 hfraction with rfl | hdigit
      · exact Or.inr (by decide)
      · exact Or.inl (hp.fraction c (hf ▸ hdigit))
  · cases he : p.exponent with
    | none =>
      rw [he] at hexponent
      cases hexponent
    | some e =>
      rw [he, exponentText, List.mem_cons, List.mem_cons] at hexponent
      rcases hexponent with rfl | hsign | hdigit
      · exact Or.inr (by decide)
      · split at hsign
        · exact Or.inr (by simp [hsign])
        · exact Or.inr (by simp [hsign])
      · exact Or.inl (isDigit_of_mem_decimal hdigit)

theorem text_head {p : Spelling} (hp : p.Valid) : ∃ c rest, p.text = c :: rest ∧ c.isDigit = true := by
  obtain ⟨c, rest, hwhole⟩ := List.exists_cons_of_ne_nil hp.whole_ne
  exact ⟨c, _, by rw [text, hwhole, List.cons_append], hp.whole c (by simp [hwhole])⟩

/-! ## The layout of digits -/

def ofLayout (ds : List Char) (exponent : ℤ) : Spelling :=
  if positional exponent then
    match exponent with
    | .ofNat k =>
      ⟨ds.take (k + 1) ++ zeros (k + 1 - ds.length),
        if (ds.drop (k + 1)).isEmpty then ['0'] else ds.drop (k + 1), none⟩
    | .negSucc k => ⟨['0'], zeros k ++ ds, none⟩
  else ⟨ds.take 1, ds.drop 1, some exponent⟩

theorem fractionText_of_ne_nil {cs : List Char} (h : cs ≠ []) : fractionText cs = '.' :: cs := by
  cases cs with
  | nil => exact absurd rfl h
  | cons c cs => rfl

variable {ds : List Char} (hne : ds ≠ [])

include hne in
theorem layout_eq (exponent : ℤ) : layout ds exponent = (ofLayout ds exponent).text := by
  unfold layout ofLayout
  split
  · cases exponent with
    | ofNat k =>
      dsimp only [text]
      split
      · simp [fractionText, exponentText]
      · next hrest =>
        rw [fractionText_of_ne_nil (by simpa using hrest)]
        simp [exponentText]
    | negSucc k =>
      dsimp only [text]
      rw [fractionText_of_ne_nil (by simp [hne])]
      simp [exponentText]
  · dsimp only [text]
    cases ds with
    | nil => exact absurd rfl hne
    | cons d ds => cases ds <;> simp [fractionText, exponentText]

include hne in
theorem valid_ofLayout (hdigits : ∀ c ∈ ds, c.isDigit = true) (exponent : ℤ) :
    (ofLayout ds exponent).Valid := by
  have htake : ∀ n, ∀ c ∈ ds.take n, c.isDigit = true := fun n c hc => hdigits c (List.mem_of_mem_take hc)
  have hdrop : ∀ n, ∀ c ∈ ds.drop n, c.isDigit = true := fun n c hc => hdigits c (List.mem_of_mem_drop hc)
  have hzeros : ∀ n, ∀ c ∈ zeros n, c.isDigit = true := by
    intro n c hc
    rw [List.eq_of_mem_replicate hc]
    rfl
  unfold ofLayout
  split
  · cases exponent with
    | ofNat k =>
      refine ⟨by simp [hne], ?_, ?_⟩
      · intro c hc
        exact (List.mem_append.1 hc).elim (htake _ c) (hzeros _ c)
      · dsimp only
        split
        · simp
        · exact hdrop _
    | negSucc k =>
      refine ⟨by simp, by simp, ?_⟩
      intro c hc
      exact (List.mem_append.1 hc).elim (hzeros _ c) (hdigits c)
  · exact ⟨by simp [hne], htake 1, hdrop 1⟩

include hne in
/-- A layout has a point or an exponent. -/
theorem marked_ofLayout (exponent : ℤ) :
    (ofLayout ds exponent).fraction ≠ [] ∨ (ofLayout ds exponent).exponent ≠ none := by
  unfold ofLayout
  split
  · left
    cases exponent with
    | ofNat k =>
      dsimp only
      split
      · simp
      · next hrest => simpa using hrest
    | negSucc k => simp [hne]
  · right
    simp

theorem ofDigitChars_zeros (ds : List Char) (j : ℕ) :
    Nat.ofDigitChars 10 (ds ++ zeros j) 0 = 10 ^ j * Nat.ofDigitChars 10 ds 0 := by
  rw [Nat.ofDigitChars_append, zeros, Nat.ofDigitChars_replicate_zero]

theorem ten_pow_mul (x : ℚ) (j : ℕ) (e : ℤ) : 10 ^ j * x * 10 ^ e = x * 10 ^ (j + e) := by
  rw [zpow_add₀ (by norm_num), zpow_natCast]
  ring

include hne in
/-- A layout stands for its digits, the first of them at the exponent. -/
theorem value_ofLayout (exponent : ℤ) :
    (ofLayout ds exponent).value = Nat.ofDigitChars 10 ds 0 * 10 ^ (exponent - (ds.length - 1)) := by
  have hpos : 0 < ds.length := List.length_pos_iff.2 hne
  unfold ofLayout
  split
  · cases exponent with
    | ofNat k =>
      dsimp only [value, Option.getD_none]
      split
      · next hrest =>
        have hle : ds.length ≤ k + 1 := by simpa using hrest
        have hzeros : zeros (k + 1 - ds.length) ++ ['0'] = zeros (k + 1 - ds.length + 1) := by
          simp [zeros, List.replicate_succ']
        rw [List.take_of_length_le hle, List.append_assoc, hzeros, ofDigitChars_zeros]
        push_cast
        rw [ten_pow_mul]
        congr 2
        simp only [List.length_singleton, Int.ofNat_eq_natCast]
        omega
      · next hrest =>
        have hlt : k + 1 < ds.length := by simpa using hrest
        have hnone : k + 1 - ds.length = 0 := by omega
        rw [hnone, zeros, List.replicate_zero, List.append_nil, List.take_append_drop]
        congr 2
        simp only [List.length_drop, Int.ofNat_eq_natCast]
        omega
    | negSucc k =>
      dsimp only [value, Option.getD_none]
      have hleading : Nat.ofDigitChars 10 (['0'] ++ (zeros k ++ ds)) 0 = Nat.ofDigitChars 10 ds 0 := by
        simp [zeros, Nat.ofDigitChars_cons, Nat.ofDigitChars_append, Nat.ofDigitChars_replicate_zero]
      rw [hleading]
      congr 2
      simp only [zeros, List.length_append, List.length_replicate, Int.negSucc_eq]
      omega
  · dsimp only [value, Option.getD_some]
    rw [List.take_append_drop]
    congr 2
    rw [List.length_drop]
    omega

end Spelling

/-! ## Decimals -/

theorem exists_significantDigits (n : ℕ) : ∃ j, Nat.toDigits 10 n = significantDigits n ++ zeros j := by
  have hsplit := List.takeWhile_append_dropWhile (p := (· = '0')) (l := (Nat.toDigits 10 n).reverse)
  have hzeros : (Nat.toDigits 10 n).reverse.takeWhile (· = '0') =
      zeros ((Nat.toDigits 10 n).reverse.takeWhile (· = '0')).length :=
    List.eq_replicate_of_mem fun c hc => by simpa using List.mem_takeWhile_imp hc
  refine ⟨((Nat.toDigits 10 n).reverse.takeWhile (· = '0')).length, ?_⟩
  rw [← List.reverse_inj, List.reverse_append, significantDigits, List.reverse_reverse, zeros,
    List.reverse_replicate]
  rw [zeros] at hzeros
  rw [← hzeros]
  exact hsplit.symm

theorem significantDigits_ne_nil {n : ℕ} (h : n ≠ 0) : significantDigits n ≠ [] := by
  intro hnil
  obtain ⟨j, hj⟩ := exists_significantDigits n
  have hvalue := Nat.ofDigitChars_toDigits (b := 10) (n := n) (by decide) (by decide)
  rw [hj, Spelling.ofDigitChars_zeros, hnil] at hvalue
  exact h (by simpa using hvalue.symm)

theorem isDigit_of_mem_significantDigits {n : ℕ} {c : Char} (h : c ∈ significantDigits n) :
    c.isDigit = true := by
  obtain ⟨j, hj⟩ := exists_significantDigits n
  apply Spelling.isDigit_of_mem_decimal (n := n)
  rw [hj]
  exact List.mem_append_left _ h

namespace Spelling

def ofDecimal (d : Decimal) : Spelling :=
  ofLayout (significantDigits d.digits) (d.exponent + (Decimal.width d.digits - 1 : ℕ))

variable {d : Decimal} (h : d.digits ≠ 0)

include h

theorem text_ofDecimal :
    layout (significantDigits d.digits) (d.exponent + (Decimal.width d.digits - 1 : ℕ)) =
      (ofDecimal d).text :=
  layout_eq (significantDigits_ne_nil h) _

theorem valid_ofDecimal : (ofDecimal d).Valid :=
  valid_ofLayout (significantDigits_ne_nil h) (fun _ => isDigit_of_mem_significantDigits) _

theorem marked_ofDecimal : (ofDecimal d).fraction ≠ [] ∨ (ofDecimal d).exponent ≠ none :=
  marked_ofLayout (significantDigits_ne_nil h) _

theorem value_ofDecimal : (ofDecimal d).value = d.value := by
  have hne := significantDigits_ne_nil h
  have hpos : 0 < (significantDigits d.digits).length := List.length_pos_iff.2 hne
  obtain ⟨j, hj⟩ := exists_significantDigits d.digits
  have hdigits : d.digits = 10 ^ j * Nat.ofDigitChars 10 (significantDigits d.digits) 0 := by
    rw [← ofDigitChars_zeros, ← hj, Nat.ofDigitChars_toDigits (by decide) (by decide)]
  have hwidth : Decimal.width d.digits = (significantDigits d.digits).length + j := by
    rw [Decimal.width, hj, List.length_append, zeros, List.length_replicate]
  -- the zeros that were taken off are made up for by the exponent
  have hexponent : d.exponent + (Decimal.width d.digits - 1 : ℕ) -
      ((significantDigits d.digits).length - 1) = j + d.exponent := by omega
  rw [ofDecimal, value_ofLayout hne, hexponent, ← ten_pow_mul, Decimal.value]
  congr 1
  exact_mod_cast hdigits.symm

end Spelling

/-! ## Numbers -/

def magnitudeSpelling (x : Magnitude) : Spelling :=
  if x.isZero then ⟨['0'], ['0'], none⟩ else .ofDecimal (Decimal.shortest x)

def spelling : Number → Spelling
  | natural n _ => ⟨Nat.toDigits 10 n, [], none⟩
  | negative n _ => ⟨Nat.toDigits 10 n, [], none⟩
  | double x => magnitudeSpelling x.magnitude

def isSigned : Number → Bool
  | natural _ _ => false
  | negative _ _ => true
  | double x => x.negative

section Magnitude

variable (x : Magnitude)

theorem magnitudeText_eq : magnitudeText x = (magnitudeSpelling x).text := by
  unfold magnitudeText magnitudeSpelling
  cases hx : x.isZero with
  | true =>
    rw [if_pos rfl, if_pos rfl]
    rfl
  | false =>
    rw [if_neg Bool.false_ne_true, if_neg Bool.false_ne_true]
    exact Spelling.text_ofDecimal (Decimal.shortest_digits_ne_zero hx)

theorem valid_magnitudeSpelling : (magnitudeSpelling x).Valid := by
  unfold magnitudeSpelling
  cases hx : x.isZero with
  | true =>
    rw [if_pos rfl]
    exact ⟨by simp, by simp, by simp⟩
  | false =>
    rw [if_neg Bool.false_ne_true]
    exact Spelling.valid_ofDecimal (Decimal.shortest_digits_ne_zero hx)

theorem marked_magnitudeSpelling :
    (magnitudeSpelling x).fraction ≠ [] ∨ (magnitudeSpelling x).exponent ≠ none := by
  unfold magnitudeSpelling
  cases hx : x.isZero with
  | true =>
    rw [if_pos rfl]
    exact Or.inl (by decide)
  | false =>
    rw [if_neg Bool.false_ne_true]
    exact Spelling.marked_ofDecimal (Decimal.shortest_digits_ne_zero hx)

/-- What is written is a decimal that reads back. -/
theorem exists_decimal_of_spelling :
    ∃ d : Decimal, d.value = (magnitudeSpelling x).value ∧ d.nearest = some x := by
  unfold magnitudeSpelling
  cases hx : x.isZero with
  | true =>
    rw [if_pos rfl]
    have hzero : x = .zero := Magnitude.ticks_injective ((x.isZero_iff.1 hx).trans rfl)
    refine ⟨⟨0, 0⟩, by simp [Decimal.value, Spelling.value, Nat.ofDigitChars_cons], ?_⟩
    rw [hzero]
    exact Decimal.nearest_of_digits_eq_zero rfl
  | false =>
    rw [if_neg Bool.false_ne_true]
    exact ⟨Decimal.shortest x, (Spelling.value_ofDecimal (Decimal.shortest_digits_ne_zero hx)).symm,
      Decimal.shortest_nearest x⟩

end Magnitude

theorem magnitudeSpelling_injective {x y : Magnitude} (h : magnitudeSpelling x = magnitudeSpelling y) :
    x = y := by
  obtain ⟨c, hc, hx⟩ := exists_decimal_of_spelling x
  obtain ⟨d, hd, hy⟩ := exists_decimal_of_spelling y
  rw [← h, ← hc] at hd
  rw [Decimal.nearest_eq_of_value_eq hd, hx] at hy
  exact Option.some.inj hy

theorem text_eq_spelling (n : Number) :
    n.text = (if n.isSigned then ['-'] else []) ++ n.spelling.text := by
  cases n with
  | natural n _ => simp [text, spelling, isSigned, Spelling.text, Spelling.fractionText, Spelling.exponentText]
  | negative n _ => simp [text, spelling, isSigned, Spelling.text, Spelling.fractionText, Spelling.exponentText]
  | double x => rw [text, magnitudeText_eq, spelling, isSigned]

theorem valid_spelling (n : Number) : n.spelling.Valid := by
  cases n with
  | natural n _ => exact ⟨Nat.toDigits_ne_nil, fun _ => Spelling.isDigit_of_mem_decimal, nofun⟩
  | negative n _ => exact ⟨Nat.toDigits_ne_nil, fun _ => Spelling.isDigit_of_mem_decimal, nofun⟩
  | double x => exact valid_magnitudeSpelling x.magnitude

theorem mem_text {n : Number} {c : Char} (h : c ∈ n.text) :
    c.isDigit = true ∨ c ∈ ['.', 'e', '+', '-'] := by
  rw [text_eq_spelling, List.mem_append] at h
  rcases h with hsign | hspelling
  · split at hsign
    · obtain rfl := List.mem_singleton.1 hsign
      exact Or.inr (by decide)
    · cases hsign
  · exact Spelling.mem_text n.valid_spelling hspelling

theorem not_mem_text (n : Number) {c : Char} (hdigit : c.isDigit = false)
    (hmark : c ∉ ['.', 'e', '+', '-']) : c ∉ n.text := by
  intro h
  rcases mem_text h with hd | hm
  · rw [hdigit] at hd
    cases hd
  · exact hmark hm

/-- The sign is told by the first character, which is a digit otherwise. -/
theorem isSigned_of_text_eq {m n : Number} (h : m.text = n.text) :
    m.isSigned = n.isSigned ∧ m.spelling.text = n.spelling.text := by
  obtain ⟨c, x, hm, hc⟩ := Spelling.text_head m.valid_spelling
  obtain ⟨d, y, hn, hd⟩ := Spelling.text_head n.valid_spelling
  rw [text_eq_spelling, text_eq_spelling] at h
  cases hms : m.isSigned with
  | true =>
    cases hns : n.isSigned with
    | true =>
      rw [hms, hns] at h
      exact ⟨rfl, (List.cons.inj h).2⟩
    | false =>
      rw [hms, hns, hn] at h
      exact absurd (List.cons.inj h).1.symm (Spelling.ne_of_isDigit hd rfl)
  | false =>
    cases hns : n.isSigned with
    | true =>
      rw [hms, hns, hm] at h
      exact absurd (List.cons.inj h).1 (Spelling.ne_of_isDigit hc rfl)
    | false =>
      rw [hms, hns] at h
      exact ⟨rfl, h⟩

theorem unmarked_of_integer? {n : Number} {i : ℤ} (h : n.integer? = some i) :
    n.spelling.fraction = [] ∧ n.spelling.exponent = none := by
  cases n with
  | natural n _ => exact ⟨rfl, rfl⟩
  | negative n _ => exact ⟨rfl, rfl⟩
  | double x => cases h

/-- No two numbers are written alike, not even equal ones of two forms. -/
theorem text_injective {m n : Number} (h : m.text = n.text) : m = n := by
  obtain ⟨hsigned, htext⟩ := isSigned_of_text_eq h
  have hspelling := Spelling.text_injective m.valid_spelling n.valid_spelling htext
  have hmarked : ∀ {x : Binary64} {k : Number} {i : ℤ}, k.integer? = some i →
      (double x).spelling ≠ k.spelling := by
    intro x k i hk heq
    obtain ⟨hfraction, hexponent⟩ := unmarked_of_integer? hk
    rw [← heq] at hfraction hexponent
    exact (marked_magnitudeSpelling x.magnitude).elim (· hfraction) (· hexponent)
  cases m with
  | natural a ha =>
    cases n with
    | natural b hb =>
      have hdigits : Nat.toDigits 10 a = Nat.toDigits 10 b := congrArg Spelling.whole hspelling
      obtain rfl := toDigits_injective (by decide) (by decide) hdigits
      rfl
    | negative b hb => cases hsigned
    | double y => exact absurd hspelling.symm (hmarked (integer?_natural a ha))
  | negative a ha =>
    cases n with
    | natural b hb => cases hsigned
    | negative b hb =>
      have hdigits : Nat.toDigits 10 a = Nat.toDigits 10 b := congrArg Spelling.whole hspelling
      obtain rfl := toDigits_injective (by decide) (by decide) hdigits
      rfl
    | double y => exact absurd hspelling.symm (hmarked (integer?_negative a ha))
  | double x =>
    cases n with
    | natural b hb => exact absurd hspelling (hmarked (integer?_natural b hb))
    | negative b hb => exact absurd hspelling (hmarked (integer?_negative b hb))
    | double y =>
      have hmagnitude : x.magnitude = y.magnitude := magnitudeSpelling_injective hspelling
      cases x
      cases y
      exact congrArg double (congrArg₂ Binary64.mk hsigned hmagnitude)

end Conformance.Json.Number
