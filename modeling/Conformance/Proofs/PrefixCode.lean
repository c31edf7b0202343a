import Conformance.Text.Quoted
import Mathlib.Data.List.TakeWhile
set_option autoImplicit false

/-!
# Texts that tell where they end

A text without a mark ends before the first one. A quoted text ends at the first quote outside an escape,
as long as no escape begins another one and none begins with a quote: it is a word of a prefix code, so
that what stands behind it can be told from it.
-/
namespace Conformance

/-- Up to a mark that does not occur before it, a text is determined by what it begins. -/
theorem append_inj_of_mark (mark : Char → Prop) [DecidablePred mark] {p q x y : List Char}
    (hp : ∀ c ∈ p, ¬ mark c) (hq : ∀ c ∈ q, ¬ mark c) (hx : ∀ c ∈ x.head?, mark c)
    (hy : ∀ c ∈ y.head?, mark c) (h : p ++ x = q ++ y) : p = q ∧ x = y := by
  have before : ∀ {r z : List Char}, (∀ c ∈ r, ¬ mark c) → (∀ c ∈ z.head?, mark c) →
      (r ++ z).takeWhile (fun c => ¬ mark c) = r := by
    intro r z hr hz
    rw [List.takeWhile_append_of_pos (by simpa using hr)]
    cases z with
    | nil => simp
    | cons c z => simp [hz c rfl]
  have hpq : p = q := by rw [← before hp hx, h, before hq hy]
  subst hpq
  exact ⟨rfl, List.append_cancel_left h⟩

theorem append_inj_of_char {p q x y : List Char} {c : Char} (hp : c ∉ p) (hq : c ∉ q)
    (hx : ∀ d ∈ x.head?, d = c) (hy : ∀ d ∈ y.head?, d = c) (h : p ++ x = q ++ y) : p = q ∧ x = y :=
  append_inj_of_mark (· = c) (fun _ hd => ne_of_mem_of_not_mem hd hp)
    (fun _ hd => ne_of_mem_of_not_mem hd hq) hx hy h

namespace Quoted

structure PrefixCode (code : Char → List Char) : Prop where
  head_ne : ∀ c x, (code c ++ x).head? ≠ some '"'
  append_inj : ∀ {c d : Char} {x y : List Char}, code c ++ x = code d ++ y → c = d ∧ x = y

theorem PrefixCode.quote_append_inj {code : Char → List Char} (hcode : PrefixCode code)
    {s t x y : List Char} (h : quote code s ++ x = quote code t ++ y) : s = t ∧ x = y := by
  have hinside := (List.cons.inj h).2
  simp only [List.append_eq, List.append_assoc] at hinside
  clear h
  induction s generalizing t with
  | nil =>
    cases t with
    | nil => exact ⟨rfl, (List.cons.inj hinside).2⟩
    | cons d t =>
      rw [List.flatMap_cons, List.append_assoc] at hinside
      exact absurd (congrArg List.head? hinside.symm) (hcode.head_ne d _)
  | cons c s ih =>
    rw [List.flatMap_cons, List.append_assoc] at hinside
    cases t with
    | nil => exact absurd (congrArg List.head? hinside) (hcode.head_ne c _)
    | cons d t =>
      rw [List.flatMap_cons, List.append_assoc] at hinside
      obtain ⟨rfl, hrest⟩ := hcode.append_inj hinside
      obtain ⟨rfl, hxy⟩ := ih hrest
      exact ⟨rfl, hxy⟩

end Quoted
end Conformance
