import Conformance.Proofs.DigitText
import Conformance.Proofs.FirstMismatch
import Conformance.Proofs.PrefixCode
set_option autoImplicit false

/-!
# What a shown path tells

A quoted key is a word of a prefix code: no escape begins another one and none begins with a quote, so
the closing quote is the first that stands outside an escape. A step that is shown as it stands ends
before the next dot. The two kinds are told apart by their first character as long as no key that is
shown as it stands begins with a quote. Where one does, two places of a document may be shown alike, and
so are the root and a member that has the root's name for a key.
-/
namespace Conformance

/-! ## Quoted text -/

namespace Quoted

def ofLetter (l : Char) : Char :=
  if l = '0' then '\x00'
  else if l = 't' then '\t'
  else if l = 'n' then '\n'
  else if l = 'r' then '\r'
  else l

theorem escape_cases (c : Char) :
    (escape c = [c] ∧ c ≠ '\\' ∧ c ≠ '"') ∨ (∃ l, l ≠ 'u' ∧ ofLetter l = c ∧ escape c = ['\\', l]) ∨
      escape c = ['\\', 'u', '\x7b'] ++ (hex c.toNat ++ ['\x7d']) := by
  by_cases hletter : c ∈ ['\x00', '\t', '\n', '\r', '"', '\\']
  · simp only [List.mem_cons, List.not_mem_nil, or_false] at hletter
    right; left
    rcases hletter with rfl | rfl | rfl | rfl | rfl | rfl
    · exact ⟨'0', by decide⟩
    · exact ⟨'t', by decide⟩
    · exact ⟨'n', by decide⟩
    · exact ⟨'r', by decide⟩
    · exact ⟨'"', by decide⟩
    · exact ⟨'\\', by decide⟩
  · simp only [List.mem_cons, List.not_mem_nil, or_false, not_or] at hletter
    obtain ⟨hnul, htab, hline, hreturn, hquote, hslash⟩ := hletter
    rw [escape, if_neg hnul, if_neg htab, if_neg hline, if_neg hreturn, if_neg hquote, if_neg hslash]
    split
    · exact Or.inr (Or.inr (List.append_assoc _ _ _))
    · exact Or.inl ⟨rfl, hslash, hquote⟩

theorem escape_head_ne (c : Char) (x : List Char) : (escape c ++ x).head? ≠ some '"' := by
  rcases escape_cases c with ⟨h, -, hquote⟩ | ⟨l, -, -, h⟩ | h
  · rw [h]
    simpa using hquote
  · rw [h]
    simp
  · rw [h]
    simp

theorem hex_append_inj {m n : ℕ} {x y : List Char}
    (h : hex m ++ '\x7d' :: x = hex n ++ '\x7d' :: y) : m = n ∧ x = y := by
  have hnobrace : ∀ d < 16, ¬ Nat.digitChar d = '\x7d' := by decide
  have hdigits : ∀ k, ∀ c ∈ hex k, ¬ c = '\x7d' := by
    intro k c hc
    obtain ⟨d, hd, rfl⟩ := mem_toDigits (by omega) hc
    exact hnobrace d hd
  obtain ⟨hhex, hrest⟩ := append_inj_of_mark _ (hdigits m) (hdigits n) (by simp) (by simp) h
  exact ⟨toDigits_injective (by omega) (by omega) hhex, (List.cons.inj hrest).2⟩

theorem escape_append_inj {c d : Char} {x y : List Char} (h : escape c ++ x = escape d ++ y) :
    c = d ∧ x = y := by
  rcases escape_cases c with ⟨hc, hcslash, -⟩ | ⟨l, hl, hlc, hc⟩ | hc <;>
    rcases escape_cases d with ⟨hd, hdslash, -⟩ | ⟨k, hk, hkd, hd⟩ | hd <;>
    rw [hc, hd] at h <;>
    simp only [List.cons_append, List.nil_append, List.append_assoc, List.cons.injEq, true_and] at h
  · exact h
  · exact absurd h.1 hcslash
  · exact absurd h.1 hcslash
  · exact absurd h.1.symm hdslash
  · obtain ⟨rfl, rfl⟩ := h
    exact ⟨hlc.symm.trans hkd, rfl⟩
  · exact absurd h.1 hl
  · exact absurd h.1.symm hdslash
  · exact absurd h.1.symm hk
  · obtain ⟨hcode, hrest⟩ := hex_append_inj h
    exact ⟨Char.toNat_inj.1 hcode, hrest⟩

theorem prefixCode_escape : PrefixCode escape := ⟨escape_head_ne, escape_append_inj⟩

end Quoted

theorem quoted_injective {a b : String} (h : quoted a = quoted b) : a = b := by
  have htext : Quoted.quote Quoted.escape a.toList ++ [] = Quoted.quote Quoted.escape b.toList ++ [] := by
    rw [List.append_nil, List.append_nil]
    exact String.ofList_inj.1 h
  exact String.toList_inj.1 (Quoted.prefixCode_escape.quote_append_inj htext).1

/-! ## Steps -/

namespace Step

/-- A key that is shown as it stands does not begin with a quote. -/
def Legible : Step → Prop
  | .key name => isAwkward name = true ∨ name.toList.head? ≠ some '"'
  | .index _ => True

theorem legible_cases {s : Step} (hs : s.Legible) :
    (∃ name, s = .key name ∧ isAwkward name = true ∧
      s.render.toList = Quoted.quote Quoted.escape name.toList) ∨
    ((∀ c ∈ s.render.toList, ¬ c = '.') ∧ s.render.toList.head? ≠ some '"') := by
  cases s with
  | key name =>
    rw [render]
    split
    · next h => exact Or.inl ⟨name, rfl, h, by rw [quoted, String.toList_ofList]⟩
    · next h =>
      refine Or.inr ⟨fun c hc hdot => h ?_, hs.resolve_left h⟩
      rw [isAwkward, Bool.or_eq_true, List.any_eq_true]
      exact Or.inr ⟨c, hc, by simp [hdot]⟩
  | index n =>
    right
    refine ⟨fun c hc hdot => ?_, fun hhead => ?_⟩
    · have hdigit := isDigit_of_mem_index hc
      rw [hdot] at hdigit
      cases hdigit
    · have hdigit := isDigit_of_mem_index (List.mem_of_head? hhead)
      cases hdigit

/-- Behind a step comes the next one or nothing. -/
theorem render_append_inj {s t : Step} (hs : s.Legible) (ht : t.Legible) {x y : List Char}
    (hx : ∀ c ∈ x.head?, c = '.') (hy : ∀ c ∈ y.head?, c = '.')
    (h : s.render.toList ++ x = t.render.toList ++ y) : s.render = t.render ∧ x = y := by
  have hfirst : ∀ {u : Step} {z : List Char}, u.render.toList.head? ≠ some '"' →
      (u.render.toList ++ z).head? ≠ some '"' := by
    intro u z hu
    have hne : u.render.toList ≠ [] := by simpa using u.render_ne_empty
    rwa [List.head?_append_of_ne_nil _ hne]
  rcases legible_cases hs with ⟨a, -, -, ha⟩ | ⟨hsdots, hsfirst⟩ <;>
    rcases legible_cases ht with ⟨b, -, -, hb⟩ | ⟨htdots, htfirst⟩
  · rw [ha, hb] at h
    obtain ⟨hab, hxy⟩ := Quoted.prefixCode_escape.quote_append_inj h
    exact ⟨String.toList_inj.1 (by rw [ha, hb, hab]), hxy⟩
  · rw [ha] at h
    exact absurd (congrArg List.head? h.symm) (hfirst htfirst)
  · rw [hb] at h
    exact absurd (congrArg List.head? h) (hfirst hsfirst)
  · obtain ⟨hst, hxy⟩ := append_inj_of_mark _ hsdots htdots hx hy h
    exact ⟨String.toList_inj.1 hst, hxy⟩

theorem key_injective {a b : String} (ha : Legible (.key a)) (hb : Legible (.key b))
    (h : render (.key a) = render (.key b)) : a = b := by
  rw [render, render] at h
  by_cases haw : isAwkward a = true
  · by_cases hbw : isAwkward b = true
    · rw [if_pos haw, if_pos hbw] at h
      exact quoted_injective h
    · rw [if_pos haw, if_neg hbw] at h
      exact absurd (h ▸ quoted_head a) (hb.resolve_left hbw)
  · by_cases hbw : isAwkward b = true
    · rw [if_neg haw, if_pos hbw] at h
      exact absurd (h ▸ quoted_head b) (ha.resolve_left haw)
    · rwa [if_neg haw, if_neg hbw] at h

theorem index_injective {m n : ℕ} (h : render (.index m) = render (.index n)) : m = n := by
  have hdigits := congrArg String.toList h
  rw [render, render, Nat.toString_eq_repr, Nat.toString_eq_repr, Nat.toList_repr,
    Nat.toList_repr] at hdigits
  exact toDigits_injective (by omega) (by omega) hdigits

/-- The children of one node are all members or all elements. -/
theorem eq_of_render_eq {v c d : Json} {s t : Step} (hc : v.child? s = some c)
    (hd : v.child? t = some d) (hs : s.Legible) (ht : t.Legible) (h : s.render = t.render) : s = t := by
  cases v with
  | object members =>
    cases s with
    | index i => simp [Json.child?] at hc
    | key a =>
      cases t with
      | index j => simp [Json.child?] at hd
      | key b => exact congrArg Step.key (key_injective hs ht h)
  | array items =>
    cases s with
    | key a => simp [Json.child?] at hc
    | index i =>
      cases t with
      | key b => simp [Json.child?] at hd
      | index j => exact congrArg Step.index (index_injective h)
  | null | bool _ | number _ | string _ => simp [Json.child?] at hc

end Step

/-! ## Paths -/

namespace Path

def behind : Location → List Char
  | [] => []
  | s :: rest => '.' :: (joined (s :: rest)).toList

theorem joined_cons (s : Step) (l : Location) :
    (joined (s :: l)).toList = s.render.toList ++ behind l := by
  cases l with
  | nil => simp [joined, behind]
  | cons t rest => simp [joined, behind]

theorem behind_head (l : Location) : ∀ c ∈ (behind l).head?, c = '.' := by
  cases l with
  | nil => simp [behind]
  | cons s rest => simp [behind]

theorem joined_eq_of_behind_eq {l m : Location} (h : behind l = behind m) : joined l = joined m := by
  cases l with
  | nil =>
    cases m with
    | nil => rfl
    | cons t m => cases h
  | cons s l =>
    cases m with
    | nil => cases h
    | cons t m => exact String.toList_inj.1 (List.cons.inj h).2

theorem joined_eq_empty {l : Location} (h : joined l = "") : l = [] := by
  rwa [← root_descend_text, root_descend_text_eq_empty_iff] at h

theorem joined_injective {v : Json} {l m : Location} (hl : ∃ w, v.at? l = some w)
    (hm : ∃ w, v.at? m = some w) (hlegible : ∀ s ∈ l ++ m, s.Legible) (h : joined l = joined m) :
    l = m := by
  induction l generalizing v m with
  | nil => exact (joined_eq_empty h.symm).symm
  | cons s l ih =>
    cases m with
    | nil => exact joined_eq_empty h
    | cons t m =>
      obtain ⟨w, hw⟩ := hl
      obtain ⟨c, hc, hcl⟩ := Option.bind_eq_some_iff.1 hw
      obtain ⟨u, hu⟩ := hm
      obtain ⟨d, hd, hdm⟩ := Option.bind_eq_some_iff.1 hu
      have hs : s.Legible := hlegible s (by simp)
      have ht : t.Legible := hlegible t (by simp)
      have htext : s.render.toList ++ behind l = t.render.toList ++ behind m := by
        rw [← joined_cons, ← joined_cons, h]
      obtain ⟨hrender, hbehind⟩ := Step.render_append_inj hs ht (behind_head l) (behind_head m) htext
      obtain rfl := Step.eq_of_render_eq hc hd hs ht hrender
      obtain rfl := Option.some.inj (hc.symm.trans hd)
      have hrest : ∀ r ∈ l ++ m, r.Legible := fun r hr => hlegible r (by simp at hr ⊢; tauto)
      rw [ih ⟨w, hcl⟩ ⟨u, hdm⟩ hrest (joined_eq_of_behind_eq hbehind)]

theorem descend_render_injective {v : Json} {l m : Location} (hl : ∃ w, v.at? l = some w)
    (hm : ∃ w, v.at? m = some w) (hlegible : ∀ s ∈ l ++ m, s.Legible)
    (hlroot : l = [] → m ≠ [.key "(root)"]) (hmroot : m = [] → l ≠ [.key "(root)"])
    (h : (root.descend l).render = (root.descend m).render) : l = m := by
  by_cases hlnil : l = []
  · subst hlnil
    exact (((root_descend_render_eq_root_iff m).1 h.symm).resolve_right (hlroot rfl)).symm
  · by_cases hmnil : m = []
    · subst hmnil
      exact ((root_descend_render_eq_root_iff l).1 h).resolve_right (hmroot rfl)
    · rw [root_descend_render, root_descend_render, if_neg hlnil, if_neg hmnil] at h
      exact joined_injective hl hm hlegible h

end Path

open Conformance.Path Json

/-- Two places of a document are shown alike only if they are the same, and so are the places of two
mismatches, where no key that is shown as it stands begins with a quote or names the root. -/
theorem shown_place_eq_iff {e : Json} {l l' : Location} (hl : ∃ v, e.at? l = some v)
    (hl' : ∃ v, e.at? l' = some v) (hlegible : ∀ s ∈ l ++ l', s.Legible)
    (hroot : l = [] → l' ≠ [.key "(root)"]) (hroot' : l' = [] → l ≠ [.key "(root)"]) :
    ((root.descend l).render = (root.descend l').render ↔ l = l') ∧
    ∀ o o' m m', FirstMismatch e o m l → FirstMismatch e o' m' l' →
      (m.place.render = m'.place.render ↔ l = l') := by
  have hshown : (root.descend l).render = (root.descend l').render ↔ l = l' :=
    ⟨descend_render_injective hl hl' hlegible hroot hroot', congrArg fun k => (root.descend k).render⟩
  refine ⟨hshown, fun o o' m m' h h' => ?_⟩
  rw [h.shown, h'.shown, ← root_descend_render, ← root_descend_render]
  exact hshown

theorem shown_place_dotted_keys :
    let e : Json := .object [("a.b", .object [("c", .null)]), ("a", .object [("b.c", .null)])]
    let l : Location := [.key "a.b", .key "c"]
    let l' : Location := [.key "a", .key "b.c"]
    (∃ v, e.at? l = some v) ∧ (∃ v, e.at? l' = some v) ∧ (∀ s ∈ l ++ l', s.Legible) ∧
      (root.descend l).render ≠ (root.descend l').render := by
  intro e l l'
  have hl : ∃ v, e.at? l = some v := ⟨.null, rfl⟩
  have hl' : ∃ v, e.at? l' = some v := ⟨.null, rfl⟩
  have hlegible : ∀ s ∈ l ++ l', s.Legible := by simp [l, l', Step.Legible]
  have hiff := (shown_place_eq_iff hl hl' hlegible nofun nofun).1
  exact ⟨hl, hl', hlegible, fun h => absurd (hiff.1 h) (by decide)⟩

/-- A member by the root's name is shown like the root, and a key of two quotes like the empty key. -/
theorem shown_places_coincide :
    let e : Json := .object [("(root)", .null), ("", .null), ("\"\"", .null)]
    (∃ v, e.at? [] = some v) ∧ (∃ v, e.at? [.key "(root)"] = some v) ∧
      (∃ v, e.at? [.key ""] = some v) ∧ (∃ v, e.at? [.key "\"\""] = some v) ∧
      (root.descend []).render = (root.descend [.key "(root)"]).render ∧
      (root.descend [.key ""]).render = (root.descend [.key "\"\""]).render ∧
      Comparison.compare e .null = .error (.kinds root .object .null) ∧
      Comparison.compare e (.object []) = .error (.missing (root.descend [.key "(root)"])) := by
  refine ⟨⟨_, rfl⟩, ⟨_, rfl⟩, ⟨_, rfl⟩, ⟨_, rfl⟩, ?_, ?_, rfl, rfl⟩
  · decide
  · decide

end Conformance
