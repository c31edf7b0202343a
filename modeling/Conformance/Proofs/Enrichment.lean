import Conformance.Proofs.ContainmentOrder
import Conformance.Proofs.FirstMismatch
set_option autoImplicit false

/-!
# Answers that say more

An observed document that contains another has a match wherever the other has one, so that the first
node without a match stays or comes later in the expected document. Where a node was there and did not
match, it is still there and still does not match.
-/
namespace Conformance

open Json

namespace Json

theorem Distinct.at? {v : Json} (hv : v.Distinct) {l : Location} {w : Json} (h : v.at? l = some w) :
    w.Distinct := by
  induction l generalizing v with
  | nil => exact Option.some.inj h ▸ hv
  | cons s rest ih =>
    obtain ⟨c, hc, hrest⟩ := Option.bind_eq_some_iff.1 h
    exact ih (hv.child (mem_children_of_child? hc)) hrest

theorem Alike.symm {v w : Json} (h : Alike v w) : Alike w v := by
  cases h with
  | object e o => exact .object o e
  | array e o => exact .array o e
  | number h => exact .number h.symm
  | string s => exact .string s
  | bool b => exact .bool b
  | null => exact .null

end Json

/-! ## Where a comparison fails -/

namespace Comparison

section Node

variable (here : Path) {v w : Json}

theorem judge_of_kind_ne (hv : v.isContainer = true) (hne : w.kind ≠ v.kind) :
    judge here v (some w) = .error (.kinds here v.kind w.kind) := by
  cases v with
  | object members =>
    cases w with
    | object found => exact absurd rfl hne
    | null | bool _ | number _ | string _ | array _ => rfl
  | array items =>
    cases w with
    | array found => exact absurd rfl hne
    | null | bool _ | number _ | string _ | object _ => rfl
  | null | bool _ | number _ | string _ => cases hv

theorem judge_of_not_alike (hv : v.isContainer = false) (hunlike : ¬ Alike v w) :
    judge here v (some w) = .error (.values here v w) := by
  rw [judge_scalar here hv, if_neg ((sameScalar_iff_alike hv w).not.2 hunlike)]

end Node

/-- The converse of `compare_eq_error`. -/
theorem compare_of_judge {e o v : Json} (he : e.Distinct) {m : Mismatch} {l : Location}
    (hl : e.at? l = some v) (hbefore : MatchedBefore e o l)
    (hjudge : judge (Path.root.descend l) v (o.at? l) = .error m) : compare e o = .error m := by
  have hfirst := FirstMismatch.of_judge hl hbefore hjudge
  cases hc : compare e o with
  | ok u =>
    obtain ⟨w, hw, halike⟩ :=
      (containedIn_iff_at? e o).1 ((compareAt_eq_ok_iff .root he o).1 hc) l v hl
    exact absurd halike (hfirst.unmatched hl hw)
  | error m' =>
    obtain ⟨l', v', hl', hbefore', hjudge'⟩ := compare_eq_error he hc
    have hfirst' := FirstMismatch.of_judge hl' hbefore' hjudge'
    obtain rfl := hfirst.location_unique he hfirst'
    rw [hfirst.mismatch_unique hfirst']

end Comparison

/-! ## More in the observed document -/

section Enriched

variable {e o o' : Json} {l : Location}

theorem MatchedBefore.enriched (h : MatchedBefore e o l) (ho : ContainedIn o o') : MatchedBefore e o' l := by
  intro k v hk hv
  obtain ⟨w, hw, hvw⟩ := h k v hk hv
  obtain ⟨w', hw', hww'⟩ := ho.at? hw
  exact ⟨w', hw', hvw.trans hww'.alike⟩

/-- No node in front of a first mismatch is one for a document that contains the observed one. -/
theorem FirstMismatch.enriched_not_precedes {m m' : Mismatch} {l' : Location} (h : FirstMismatch e o m l)
    (h' : FirstMismatch e o' m' l') (ho : ContainedIn o o') : ¬ e.Precedes l' l := by
  intro hprecedes
  obtain ⟨v, hv⟩ := h'.inside
  obtain ⟨w, hw, halike⟩ := (h.earlier.enriched ho) l' v hprecedes hv
  exact h'.unmatched hv hw halike

end Enriched

/-- A document that contains the observed one fails no earlier, and a node that was there and differed
still differs. -/
theorem compare_enriched {e o o' : Json} (he : e.Distinct) (ho : o.Distinct)
    (h : Comparison.compare o o' = .ok ()) :
    (∀ p a b, Comparison.compare e o = .error (.kinds p a b) →
      Comparison.compare e o' = .error (.kinds p a b)) ∧
    (∀ p v w, Comparison.compare e o = .error (.values p v w) →
      ∃ w', Comparison.compare e o' = .error (.values p v w') ∧ Comparison.compare w w' = .ok ()) ∧
    (∀ p, Comparison.compare e o = .error (.missing p) →
      ∃ l, FirstMismatch e o (.missing p) l ∧
        (Comparison.compare e o' = .ok () ∨
          ∃ m' l', Comparison.compare e o' = .error m' ∧ FirstMismatch e o' m' l' ∧
            (l' = l ∨ e.Precedes l l') ∧ ¬ e.Precedes l' l)) := by
  have hoo' : ContainedIn o o' := (Comparison.compareAt_eq_ok_iff .root ho o').1 h
  refine ⟨fun p a b hkinds => ?_, fun p a b hvalues => ?_, fun p hmissing => ?_⟩
  · obtain ⟨l, v, hl, hbefore, hjudge⟩ := Comparison.compare_eq_error he hkinds
    obtain ⟨w, hw, hv, hne, rfl, rfl⟩ := (Comparison.judge_kinds_iff hjudge a b).1 ⟨p, rfl⟩
    obtain ⟨w', hw', hww'⟩ := hoo'.at? hw
    have hkind := Comparison.kind_eq_of_alike hww'.alike
    obtain rfl := Comparison.judge_place hjudge
    refine Comparison.compare_of_judge he hl (hbefore.enriched hoo') ?_
    rw [hw', ← hkind]
    exact Comparison.judge_of_kind_ne _ hv (hkind ▸ hne)
  · obtain ⟨l, v, hl, hbefore, hjudge⟩ := Comparison.compare_eq_error he hvalues
    obtain ⟨rfl, hv, hw, hunlike⟩ := (Comparison.judge_values_iff hjudge a b).1 ⟨p, rfl⟩
    obtain ⟨w', hw', hww'⟩ := hoo'.at? hw
    obtain rfl := Comparison.judge_place hjudge
    refine ⟨w', ?_, (Comparison.compareAt_eq_ok_iff .root (ho.at? hw) w').2 hww'⟩
    refine Comparison.compare_of_judge he hl (hbefore.enriched hoo') ?_
    rw [hw']
    exact Comparison.judge_of_not_alike _ hv fun halike => hunlike (halike.trans hww'.alike.symm)
  · obtain ⟨l, v, hl, hbefore, hjudge⟩ := Comparison.compare_eq_error he hmissing
    have hfirst := FirstMismatch.of_judge hl hbefore hjudge
    refine ⟨l, hfirst, ?_⟩
    cases hc : Comparison.compare e o' with
    | ok u => exact Or.inl rfl
    | error m' =>
      obtain ⟨l', v', hl', hbefore', hjudge'⟩ := Comparison.compare_eq_error he hc
      have hfirst' := FirstMismatch.of_judge hl' hbefore' hjudge'
      have hnot := hfirst.enriched_not_precedes hfirst' hoo'
      refine Or.inr ⟨m', l', rfl, hfirst', ?_, hnot⟩
      by_cases heq : l' = l
      · exact Or.inl heq
      · exact Or.inr ((precedes_total ((mem_locations_iff he l').2 ⟨v', hl'⟩)
          ((mem_locations_iff he l).2 ⟨v, hl⟩) heq).resolve_left hnot)

/-- An element that was missing is there, and the comparison fails at a member behind it. -/
theorem compare_enriched_missing_element :
    let one : Json := .number (.natural 1 (by decide))
    let e : Json := .object [("a", .array [one, .null]), ("b", .object [])]
    let o : Json := .object [("a", .array [one])]
    let o' : Json := .object [("b", .array [one]), ("a", .array [one, .null, one])]
    e.Distinct ∧ o.Distinct ∧ Comparison.compare o o' = .ok () ∧
      ∃ l m' l', FirstMismatch e o (.missing ⟨"a.1"⟩) l ∧ Comparison.compare e o' = .error m' ∧
        FirstMismatch e o' m' l' ∧ (l' = l ∨ e.Precedes l l') := by
  intro one e o o'
  have hone : one.Distinct := .number _
  have hempty : Distinct (.object []) := .object (by decide) nofun
  have he : e.Distinct := .object (by decide) (by simp [Distinct.array, Distinct.null, hone, hempty])
  have ho : o.Distinct := .object (by decide) (by simp [Distinct.array, hone])
  have hoo' : Comparison.compare o o' = .ok () := eq_ok_of_toBool (by decide +kernel)
  have hfails : (Comparison.compare e o').isOk = false := by decide +kernel
  obtain ⟨l, hl, hok | ⟨m', l', hm', hl', hplace, -⟩⟩ :=
    (compare_enriched he ho hoo').2.2 ⟨"a.1"⟩ (by rfl)
  · rw [hok] at hfails
    cases hfails
  · exact ⟨he, ho, hoo', l, m', l', hl, hm', hl', hplace⟩

end Conformance
