import Conformance.Proofs.FirstMismatch
import Conformance.Proofs.NumberText
set_option autoImplicit false

/-!
# What a mismatch shows differs

The first character of a document's text tells its kind, and a scalar is told by its text, whatever stands
behind the comma that follows it. Values that are reported as different are different documents, so that
they are shown differently; kinds that are reported as different have different names.
-/
namespace Conformance

namespace Json

/-! ## Strings -/

/-- The characters whose escape is a letter or the character itself. -/
def letters : List (Char × Char) :=
  [('"', '"'), ('\\', '\\'), ('\x08', 'b'), ('\x0c', 'f'), ('\n', 'n'), ('\r', 'r'), ('\t', 't')]

theorem escape_cases (c : Char) :
    (escape c = [c] ∧ c ≠ '\\' ∧ c ≠ '"') ∨ (∃ l, (c, l) ∈ letters ∧ escape c = ['\\', l]) ∨
      (c.toNat < 0x20 ∧ escape c =
        ['\\', 'u', '0', '0', Nat.digitChar (c.toNat / 16), Nat.digitChar (c.toNat % 16)]) := by
  by_cases hletter : c ∈ letters.map (·.1)
  · right; left
    simp only [letters, List.map_cons, List.map_nil, List.mem_cons, List.not_mem_nil, or_false] at hletter
    rcases hletter with rfl | rfl | rfl | rfl | rfl | rfl | rfl
    · exact ⟨'"', by decide, by decide⟩
    · exact ⟨'\\', by decide, by decide⟩
    · exact ⟨'b', by decide, by decide⟩
    · exact ⟨'f', by decide, by decide⟩
    · exact ⟨'n', by decide, by decide⟩
    · exact ⟨'r', by decide, by decide⟩
    · exact ⟨'t', by decide, by decide⟩
  · simp only [letters, List.map_cons, List.map_nil, List.mem_cons, List.not_mem_nil, or_false,
      not_or] at hletter
    obtain ⟨hquote, hslash, hback, hfeed, hline, hreturn, htab⟩ := hletter
    rw [escape, if_neg hquote, if_neg hslash, if_neg hback, if_neg hfeed, if_neg hline, if_neg hreturn,
      if_neg htab]
    split
    · next hlow => exact Or.inr (Or.inr ⟨hlow, rfl⟩)
    · exact Or.inl ⟨rfl, hslash, hquote⟩

theorem letters_injective : ∀ p ∈ letters, ∀ q ∈ letters, p.2 = q.2 → p.1 = q.1 := by
  simp [letters]

theorem letters_ne_u : ∀ p ∈ letters, p.2 ≠ 'u' := by
  simp [letters]

theorem escape_head_ne (c : Char) (x : List Char) : (escape c ++ x).head? ≠ some '"' := by
  rcases escape_cases c with ⟨h, -, hquote⟩ | ⟨l, -, h⟩ | ⟨-, h⟩
  · rw [h]
    simpa using hquote
  · rw [h]
    simp
  · rw [h]
    simp

theorem escape_append_inj {c d : Char} {x y : List Char} (h : escape c ++ x = escape d ++ y) :
    c = d ∧ x = y := by
  rcases escape_cases c with ⟨hc, hcslash, -⟩ | ⟨l, hl, hc⟩ | ⟨hclow, hc⟩ <;>
    rcases escape_cases d with ⟨hd, hdslash, -⟩ | ⟨k, hk, hd⟩ | ⟨hdlow, hd⟩ <;>
    rw [hc, hd] at h <;>
    simp only [List.cons_append, List.nil_append, List.cons.injEq, true_and] at h
  · exact h
  · exact absurd h.1 hcslash
  · exact absurd h.1 hcslash
  · exact absurd h.1.symm hdslash
  · exact ⟨letters_injective _ hl _ hk h.1, h.2⟩
  · exact absurd h.1 (letters_ne_u _ hl)
  · exact absurd h.1.symm hdslash
  · exact absurd h.1.symm (letters_ne_u _ hk)
  · obtain ⟨hhigh, hlow, hxy⟩ := h
    have hdiv := digitChar_injective _ (by omega) _ (by omega) hhigh
    have hmod := digitChar_injective _ (by omega) _ (by omega) hlow
    exact ⟨Char.toNat_inj.1 (by omega), hxy⟩

theorem prefixCode_escape : Quoted.PrefixCode escape := ⟨escape_head_ne, escape_append_inj⟩

theorem stringText_append_inj {s t : String} {x y : List Char}
    (h : stringText s ++ x = stringText t ++ y) : s = t ∧ x = y := by
  obtain ⟨hst, hxy⟩ := prefixCode_escape.quote_append_inj h
  exact ⟨String.toList_inj.1 hst, hxy⟩

/-! ## The first character -/

def kindOfLead (c : Char) : Kind :=
  if c = 'n' then .null
  else if c = 't' ∨ c = 'f' then .boolean
  else if c = '"' then .string
  else if c = '[' then .array
  else if c = '\x7b' then .object
  else .number

theorem kindOfLead_of_isDigit {c : Char} (h : c.isDigit = true) : kindOfLead c = .number := by
  have hne : ∀ d : Char, d.isDigit = false → c ≠ d := fun d => Number.Spelling.ne_of_isDigit h
  simp [kindOfLead, hne 'n' rfl, hne 't' rfl, hne 'f' rfl, hne '"' rfl, hne '[' rfl, hne '\x7b' rfl]

theorem exists_lead (v : Json) : ∃ c rest, v.text = c :: rest ∧ kindOfLead c = v.kind := by
  cases v with
  | null => exact ⟨'n', _, rfl, rfl⟩
  | bool b =>
    cases b with
    | true => exact ⟨'t', _, rfl, rfl⟩
    | false => exact ⟨'f', _, rfl, rfl⟩
  | number n =>
    obtain ⟨c, rest, hspelling, hc⟩ := Number.Spelling.text_head n.valid_spelling
    rw [text, Number.text_eq_spelling, hspelling]
    cases n.isSigned with
    | true => exact ⟨'-', _, rfl, rfl⟩
    | false => exact ⟨c, rest, rfl, kindOfLead_of_isDigit hc⟩
  | string s => exact ⟨'"', _, rfl, rfl⟩
  | array items => exact ⟨'[', _, rfl, rfl⟩
  | object members => exact ⟨'\x7b', _, rfl, rfl⟩

theorem kind_eq_of_text {v w : Json} {x y : List Char} (h : v.text ++ x = w.text ++ y) :
    v.kind = w.kind := by
  obtain ⟨c, vrest, hv, hc⟩ := exists_lead v
  obtain ⟨d, wrest, hw, hd⟩ := exists_lead w
  rw [hv, hw] at h
  rw [← hc, ← hd, (List.cons.inj h).1]

/-! ## Scalars -/

theorem Number.comma_not_mem_text (n : Number) : ',' ∉ n.text :=
  n.not_mem_text rfl (by decide)

/-- A scalar is told by its text, up to a comma. -/
theorem scalar_of_text {v w : Json} (hv : v.isContainer = false) {x y : List Char}
    (hx : ∀ c ∈ x.head?, c = ',') (hy : ∀ c ∈ y.head?, c = ',') (h : v.text ++ x = w.text ++ y) :
    v = w ∧ x = y := by
  have hkind := kind_eq_of_text h
  cases v with
  | object _ | array _ => cases hv
  | null =>
    cases w with
    | null => exact ⟨rfl, List.append_cancel_left h⟩
    | bool _ | number _ | string _ | array _ | object _ => cases hkind
  | bool a =>
    cases w with
    | bool b =>
      cases a with
      | true =>
        cases b with
        | true => exact ⟨rfl, List.append_cancel_left h⟩
        | false => exact absurd (List.cons.inj h).1 (by decide)
      | false =>
        cases b with
        | true => exact absurd (List.cons.inj h).1 (by decide)
        | false => exact ⟨rfl, List.append_cancel_left h⟩
    | null | number _ | string _ | array _ | object _ => cases hkind
  | number m =>
    cases w with
    | number n =>
      obtain ⟨hmn, hxy⟩ := append_inj_of_char m.comma_not_mem_text n.comma_not_mem_text hx hy h
      exact ⟨congrArg number (Number.text_injective hmn), hxy⟩
    | null | bool _ | string _ | array _ | object _ => cases hkind
  | string s =>
    cases w with
    | string t =>
      obtain ⟨rfl, hxy⟩ := stringText_append_inj h
      exact ⟨rfl, hxy⟩
    | null | bool _ | number _ | array _ | object _ => cases hkind

/-! ## Messages -/

theorem toList_render (v : Json) : v.render.toList = v.text := String.toList_ofList

theorem render_ne_of_not_alike {v w : Json} (hv : v.isContainer = false) (h : ¬ Alike v w) :
    v.render ≠ w.render := by
  intro heq
  have htext : v.text ++ [] = w.text ++ [] := by rw [String.ofList_inj.1 heq]
  obtain ⟨rfl, -⟩ := scalar_of_text hv (by simp) (by simp) htext
  exact h (.refl v)

theorem Kind.name_injective {a b : Kind} (h : a.name = b.name) : a = b := by
  cases a <;> cases b <;> first | rfl | exact absurd h (by decide)

theorem Kind.comma_not_mem_name (k : Kind) : ',' ∉ k.name.toList := by
  cases k <;> decide

end Json

open Json

/-- The end of a message that shows two texts. -/
theorem toList_shown_eq (before : String) {s t s' t' : String}
    (h : before ++ ": expected " ++ s ++ ", found " ++ t = before ++ ": expected " ++ s' ++ ", found " ++ t') :
    s.toList ++ (", found ".toList ++ t.toList) = s'.toList ++ (", found ".toList ++ t'.toList) := by
  have hlist := congrArg String.toList h
  simp only [String.toList_append, List.append_assoc] at hlist
  exact List.append_cancel_left (List.append_cancel_left hlist)

theorem comma_front (cs : List Char) : ∀ c ∈ (", found ".toList ++ cs).head?, c = ',' := by
  simp

/-- A mismatch never shows the same thing twice: neither are the two documents printed alike nor is there
one document, or one kind, that both could be. -/
theorem message_consistent {e o : Json} {m : Mismatch} (h : Comparison.compare e o = .error m) :
    (∀ p v w, m = .values p v w → v.render ≠ w.render ∧ ∀ x : Json,
      m.message ≠ "mismatch at " ++ p.render ++ ": expected " ++ x.render ++ ", found " ++ x.render) ∧
    (∀ p a b, m = .kinds p a b → (a = .object ∨ a = .array) ∧ b ≠ a ∧ ∀ k : Kind,
      m.message ≠ "type mismatch at " ++ p.render ++ ": expected " ++ k.name ++ ", found " ++ k.name) := by
  obtain ⟨l, u, hjudge⟩ := Comparison.exists_judge_of_compare h
  constructor
  · rintro p v w rfl
    obtain ⟨rfl, hv, -, hunlike⟩ := (Comparison.judge_values_iff hjudge v w).1 ⟨p, rfl⟩
    have hdiffers := render_ne_of_not_alike hv hunlike
    refine ⟨hdiffers, fun x hx => ?_⟩
    have hshown := toList_shown_eq ("mismatch at " ++ p.render) hx
    rw [toList_render v, toList_render w, toList_render x] at hshown
    obtain ⟨rfl, hfound⟩ := scalar_of_text hv (comma_front _) (comma_front _) hshown
    exact hdiffers (congrArg String.ofList (List.append_cancel_left hfound).symm)
  · rintro p a b rfl
    obtain ⟨w, -, hcontainer, hne, rfl, rfl⟩ := (Comparison.judge_kinds_iff hjudge a b).1 ⟨p, rfl⟩
    refine ⟨?_, hne, fun k hk => ?_⟩
    · cases u with
      | object _ => exact Or.inl rfl
      | array _ => exact Or.inr rfl
      | null | bool _ | number _ | string _ => cases hcontainer
    · have hshown := toList_shown_eq ("type mismatch at " ++ p.render) hk
      obtain ⟨hexpected, hfound⟩ := append_inj_of_char (Kind.comma_not_mem_name _)
        (Kind.comma_not_mem_name _) (comma_front _) (comma_front _) hshown
      have hfirst := Kind.name_injective (String.toList_inj.1 hexpected)
      have hsecond := Kind.name_injective (String.toList_inj.1 (List.append_cancel_left hfound))
      exact hne (hsecond.trans hfirst.symm)

/-- An integer beyond 2⁵³ and the double next to it, whose digits differ in the last place alone. -/
theorem message_consistent_neighbours :
    let e : Json := .array [.number (.natural (2 ^ 53 + 1) (by decide))]
    let o : Json := .array [.number (.double ⟨false, ⟨2 ^ 52, 1075, by decide⟩⟩)]
    ∃ m, Comparison.compare e o = .error m ∧
      m.message = "mismatch at 0: expected 9007199254740993, found 9007199254740992.0" ∧
      ∀ p v w, m = .values p v w → v.render ≠ w.render := by
  intro e o
  have hshown : (Comparison.compare e o).mapError Mismatch.message =
      .error "mismatch at 0: expected 9007199254740993, found 9007199254740992.0" := by decide +kernel
  obtain ⟨m, hm, hmessage⟩ := mapError_eq_error_iff.1 hshown
  exact ⟨m, hm, hmessage, fun p v w hv => ((message_consistent hm).1 p v w hv).1⟩

end Conformance
