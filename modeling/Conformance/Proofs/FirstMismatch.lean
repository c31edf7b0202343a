import Conformance.Proofs.Containment
set_option autoImplicit false

/-!
# The first mismatch

A failed comparison tells of one location of the expected document: the first, depth first, that has no
match. What it tells, the variant, what it carries and the text of its path, is a matter of that location
alone, so that the location and the mismatch determine each other.
-/
namespace Conformance

open Json

def MatchedBefore (e o : Json) (l : Location) : Prop :=
  ∀ k v, e.Precedes k l → e.at? k = some v → ∃ w, o.at? k = some w ∧ Alike v w

/-- What a mismatch says about the location `l`. -/
structure FirstMismatch (e o : Json) (m : Mismatch) (l : Location) : Prop where
  inside : ∃ v, e.at? l = some v
  earlier : MatchedBefore e o l
  missing : (∃ p, m = .missing p) ↔ ∃ parent s v w, l = parent ++ [s] ∧ e.at? parent = some v ∧
    o.at? parent = some w ∧ v.isContainer = true ∧ w.kind = v.kind ∧ w.child? s = none
  /-- An array lacks an index only by being too short by it. -/
  missingIndex : ∀ parent i items, (∃ p, m = .missing p) → l = parent ++ [.index i] →
    o.at? parent = some (.array items) → i = items.length
  kinds : ∀ a b, (∃ p, m = .kinds p a b) ↔ ∃ v w, e.at? l = some v ∧ v.isContainer = true ∧
    o.at? l = some w ∧ w.kind ≠ v.kind ∧ a = v.kind ∧ b = w.kind
  values : ∀ v w, (∃ p, m = .values p v w) ↔ e.at? l = some v ∧ v.isContainer = false ∧
    o.at? l = some w ∧ ¬ Alike v w
  text : m.place.text = Path.joined l
  root : m.place.text = "" ↔ l = []
  shown : m.place.render = if l = [] then "(root)" else Path.joined l

namespace Comparison

/-! ## One node -/

section Node

variable {here : Path} {v : Json} {found : Option Json} {m : Mismatch}

theorem judge_eq_error (h : judge here v found = .error m) :
    (found = none ∧ m = .missing here) ∨
    (∃ w, found = some w ∧ v.isContainer = true ∧ w.kind ≠ v.kind ∧ m = .kinds here v.kind w.kind) ∨
    (∃ w, found = some w ∧ v.isContainer = false ∧ ¬ Alike v w ∧ m = .values here v w) := by
  cases found with
  | none => exact Or.inl ⟨rfl, (Except.error.inj h).symm⟩
  | some w =>
    have hunlike : ¬ Alike v w := by
      rw [← judge_some_eq_ok_iff here, h]
      exact nofun
    cases v with
    | object members =>
      cases w with
      | object found => exact absurd (Alike.object members found) hunlike
      | null | bool _ | number _ | string _ | array _ =>
        exact Or.inr (Or.inl ⟨_, rfl, rfl, nofun, (Except.error.inj h).symm⟩)
    | array items =>
      cases w with
      | array found => exact absurd (Alike.array items found) hunlike
      | null | bool _ | number _ | string _ | object _ =>
        exact Or.inr (Or.inl ⟨_, rfl, rfl, nofun, (Except.error.inj h).symm⟩)
    | null | bool _ | number _ | string _ =>
      refine Or.inr (Or.inr ⟨w, rfl, rfl, hunlike, ?_⟩)
      rw [judge_scalar here rfl, if_neg (by rwa [sameScalar_iff_alike rfl])] at h
      exact (Except.error.inj h).symm

theorem judge_place (h : judge here v found = .error m) : m.place = here := by
  rcases judge_eq_error h with ⟨-, rfl⟩ | ⟨w, -, -, -, rfl⟩ | ⟨w, -, -, -, rfl⟩ <;> rfl

theorem judge_missing_iff (h : judge here v found = .error m) :
    (∃ p, m = .missing p) ↔ found = none := by
  rcases judge_eq_error h with ⟨rfl, rfl⟩ | ⟨w, rfl, -, -, rfl⟩ | ⟨w, rfl, -, -, rfl⟩
  · exact ⟨fun _ => rfl, fun _ => ⟨here, rfl⟩⟩
  · exact ⟨nofun, nofun⟩
  · exact ⟨nofun, nofun⟩

theorem judge_kinds_iff (h : judge here v found = .error m) (a b : Kind) :
    (∃ p, m = .kinds p a b) ↔ ∃ w, found = some w ∧ v.isContainer = true ∧ w.kind ≠ v.kind ∧
      a = v.kind ∧ b = w.kind := by
  rcases judge_eq_error h with ⟨rfl, rfl⟩ | ⟨w, rfl, hv, hne, rfl⟩ | ⟨w, rfl, hv, -, rfl⟩
  · exact ⟨nofun, nofun⟩
  · constructor
    · rintro ⟨p, heq⟩
      obtain ⟨-, rfl, rfl⟩ := Mismatch.kinds.inj heq
      exact ⟨w, rfl, hv, hne, rfl, rfl⟩
    · rintro ⟨w', heq, -, -, rfl, rfl⟩
      obtain rfl := Option.some.inj heq
      exact ⟨here, rfl⟩
  · refine ⟨nofun, ?_⟩
    rintro ⟨w', -, hv', -⟩
    rw [hv] at hv'
    cases hv'

theorem judge_values_iff (h : judge here v found = .error m) (a b : Json) :
    (∃ p, m = .values p a b) ↔ a = v ∧ v.isContainer = false ∧ found = some b ∧ ¬ Alike v b := by
  rcases judge_eq_error h with ⟨rfl, rfl⟩ | ⟨w, rfl, hv, -, rfl⟩ | ⟨w, rfl, hv, hunlike, rfl⟩
  · refine ⟨nofun, ?_⟩
    rintro ⟨-, -, heq, -⟩
    cases heq
  · refine ⟨nofun, ?_⟩
    rintro ⟨-, hv', -⟩
    rw [hv] at hv'
    cases hv'
  · constructor
    · rintro ⟨p, heq⟩
      obtain ⟨-, rfl, rfl⟩ := Mismatch.values.inj heq
      exact ⟨rfl, hv, rfl, hunlike⟩
    · rintro ⟨rfl, -, heq, -⟩
      obtain rfl := Option.some.inj heq
      exact ⟨here, rfl⟩

end Node

/-! ## The first node without a match -/

/-- A failed comparison reports what is said of one node. -/
theorem exists_judge_of_compare {e o : Json} {m : Mismatch} (h : compare e o = .error m) :
    ∃ l v, judge (Path.root.descend l) v (o.at? l) = .error m := by
  rw [compare, compareAt_eq_nodes] at h
  obtain ⟨-, n, -, -, -, hjudge⟩ := forM_eq_error h
  exact ⟨n.1, n.2, hjudge⟩

theorem compare_eq_error {e o : Json} (he : e.Distinct) {m : Mismatch} (h : compare e o = .error m) :
    ∃ l v, e.at? l = some v ∧ MatchedBefore e o l ∧
      judge (Path.root.descend l) v (o.at? l) = .error m := by
  rw [compare, compareAt_eq_nodes] at h
  obtain ⟨before, ⟨l, v⟩, after, hnodes, hbefore, hv⟩ := forM_eq_error h
  have hmem : (l, v) ∈ e.nodes := by rw [hnodes]; simp
  refine ⟨l, v, at?_of_mem_nodes he hmem, fun k u hk hu => ?_, hv⟩
  have hlocations : e.locations = before.map (·.1) ++ l :: after.map (·.1) := by
    rw [locations, hnodes, List.map_append, List.map_cons]
  have hnodup := locations_nodup he
  rw [Precedes, hlocations] at hk
  rw [hlocations] at hnodup
  obtain ⟨n, hn, rfl⟩ := List.mem_map.1 ((pair_sublist_iff_mem hnodup).1 hk)
  have hsame : e.at? n.1 = some n.2 := at?_of_mem_nodes he (by rw [hnodes]; simp [hn])
  obtain rfl := Option.some.inj (hsame.symm.trans hu)
  exact (judge_eq_ok_iff _ _ _).1 (hbefore n hn)

theorem isContainer_of_child? {v c : Json} {s : Step} (h : v.child? s = some c) :
    v.isContainer = true := by
  cases v with
  | object _ | array _ => rfl
  | null | bool _ | number _ | string _ => simp [child?] at h

theorem kind_eq_of_alike {v w : Json} (h : Alike v w) : w.kind = v.kind := by
  cases h <;> rfl

theorem at?_eq_none_iff {e o v : Json} {l : Location} (hl : e.at? l = some v)
    (hbefore : MatchedBefore e o l) :
    o.at? l = none ↔ ∃ parent s u w, l = parent ++ [s] ∧ e.at? parent = some u ∧
      o.at? parent = some w ∧ u.isContainer = true ∧ w.kind = u.kind ∧ w.child? s = none := by
  constructor
  · intro hnone
    rcases List.eq_nil_or_concat l with rfl | ⟨parent, s, rfl⟩
    · cases hnone
    · rw [List.concat_eq_append] at *
      have hparent := precedes_child hl
      rw [at?_snoc] at hl hnone
      obtain ⟨u, hu, hchild⟩ := Option.bind_eq_some_iff.1 hl
      obtain ⟨w, hw, halike⟩ := hbefore parent u hparent hu
      rw [hw, Option.bind_some] at hnone
      exact ⟨parent, s, u, w, rfl, hu, hw, isContainer_of_child? hchild, kind_eq_of_alike halike, hnone⟩
  · rintro ⟨parent, s, u, w, rfl, -, hw, -, -, hs⟩
    rw [at?_snoc, hw, Option.bind_some, hs]

theorem index_eq_length_of_at?_eq_none {e o v : Json} {parent : Location} {i : ℕ} {found : List Json}
    (hl : e.at? (parent ++ [.index i]) = some v) (hbefore : MatchedBefore e o (parent ++ [.index i]))
    (hparent : o.at? parent = some (.array found)) (hnone : o.at? (parent ++ [.index i]) = none) :
    i = found.length := by
  rw [at?_snoc, hparent] at hnone
  have hshort : found.length ≤ i := List.getElem?_eq_none_iff.1 hnone
  by_contra hne
  -- otherwise the first index that is missing stands in front of `i`
  rw [at?_snoc] at hl
  obtain ⟨u, hu, hchild⟩ := Option.bind_eq_some_iff.1 hl
  cases u with
  | array items =>
    have hi : i < items.length := (List.getElem?_eq_some_iff.1 hchild).1
    have hfirst : e.at? (parent ++ [.index found.length]) = some items[found.length] := by
      rw [at?_snoc, hu]
      exact List.getElem?_eq_getElem (by omega)
    have hprecedes : e.Precedes (parent ++ [.index found.length]) (parent ++ [.index i]) :=
      precedes_sibling hu (by omega) hi
    obtain ⟨w, hw, -⟩ := hbefore _ _ hprecedes hfirst
    rw [at?_snoc, hparent] at hw
    exact absurd (List.getElem?_eq_some_iff.1 hw).1 (Nat.lt_irrefl _)
  | null | bool _ | number _ | string _ | object _ => simp [child?] at hchild

end Comparison

namespace FirstMismatch

open Comparison

theorem of_judge {e o v : Json} {m : Mismatch} {l : Location} (hl : e.at? l = some v)
    (hbefore : MatchedBefore e o l) (h : judge (Path.root.descend l) v (o.at? l) = .error m) :
    FirstMismatch e o m l where
  inside := ⟨v, hl⟩
  earlier := hbefore
  missing := (judge_missing_iff h).trans (at?_eq_none_iff hl hbefore)
  missingIndex := by
    rintro parent i found hm rfl hparent
    exact index_eq_length_of_at?_eq_none hl hbefore hparent ((judge_missing_iff h).1 hm)
  kinds a b := by
    rw [judge_kinds_iff h]
    constructor
    · rintro ⟨w, hw, hv, hne, ha, hb⟩
      exact ⟨v, w, hl, hv, hw, hne, ha, hb⟩
    · rintro ⟨v', w, hl', hv, hw, hne, ha, hb⟩
      obtain rfl := Option.some.inj (hl.symm.trans hl')
      exact ⟨w, hw, hv, hne, ha, hb⟩
  values a b := by
    rw [judge_values_iff h, hl, Option.some.injEq]
    constructor
    · rintro ⟨rfl, hv, hb, hunlike⟩
      exact ⟨rfl, hv, hb, hunlike⟩
    · rintro ⟨rfl, hv, hb, hunlike⟩
      exact ⟨rfl, hv, hb, hunlike⟩
  text := by rw [judge_place h, Path.root_descend_text]
  root := by rw [judge_place h, Path.root_descend_text_eq_empty_iff]
  shown := by rw [judge_place h, Path.root_descend_render]

theorem unmatched {e o : Json} {m : Mismatch} {l : Location} (h : FirstMismatch e o m l) {v w : Json}
    (hv : e.at? l = some v) (hw : o.at? l = some w) : ¬ Alike v w := by
  intro halike
  cases m with
  | missing p =>
    have hnone := (at?_eq_none_iff hv h.earlier).2 (h.missing.1 ⟨p, rfl⟩)
    rw [hw] at hnone
    cases hnone
  | kinds p a b =>
    obtain ⟨v', w', hv', -, hw', hne, -, -⟩ := (h.kinds a b).1 ⟨p, rfl⟩
    obtain rfl := Option.some.inj (hv.symm.trans hv')
    obtain rfl := Option.some.inj (hw.symm.trans hw')
    exact hne (kind_eq_of_alike halike)
  | values p a b =>
    obtain ⟨hv', -, hw', hunlike⟩ := (h.values a b).1 ⟨p, rfl⟩
    obtain rfl := Option.some.inj (hv.symm.trans hv')
    obtain rfl := Option.some.inj (hw.symm.trans hw')
    exact hunlike halike

theorem not_precedes {e o : Json} {m m' : Mismatch} {l l' : Location} (h : FirstMismatch e o m l)
    (h' : FirstMismatch e o m' l') : ¬ e.Precedes l l' := by
  intro hprecedes
  obtain ⟨v, hv⟩ := h.inside
  obtain ⟨w, hw, halike⟩ := h'.earlier l v hprecedes hv
  exact h.unmatched hv hw halike

theorem location_unique {e o : Json} (he : e.Distinct) {m m' : Mismatch} {l l' : Location}
    (h : FirstMismatch e o m l) (h' : FirstMismatch e o m' l') : l = l' := by
  by_contra hne
  rcases precedes_total ((mem_locations_iff he l).2 h.inside) ((mem_locations_iff he l').2 h'.inside) hne
    with hlt | hgt
  · exact h.not_precedes h' hlt
  · exact h'.not_precedes h hgt

theorem mismatch_unique {e o : Json} {m m' : Mismatch} {l : Location} (h : FirstMismatch e o m l)
    (h' : FirstMismatch e o m' l) : m = m' := by
  have htext : m.place = m'.place := congrArg Path.mk (h.text.trans h'.text.symm)
  cases m with
  | missing p =>
    obtain ⟨p', rfl⟩ := h'.missing.2 (h.missing.1 ⟨p, rfl⟩)
    exact congrArg _ htext
  | kinds p a b =>
    obtain ⟨p', rfl⟩ := (h'.kinds a b).2 ((h.kinds a b).1 ⟨p, rfl⟩)
    exact congrArg (Mismatch.kinds · a b) htext
  | values p v w =>
    obtain ⟨p', rfl⟩ := (h'.values v w).2 ((h.values v w).1 ⟨p, rfl⟩)
    exact congrArg (Mismatch.values · v w) htext

end FirstMismatch

/-- A comparison fails with a mismatch exactly when there is one location that it is the first mismatch
of. -/
theorem compare_eq_error_iff_firstMismatch {e : Json} (he : e.Distinct) (o : Json) (m : Mismatch) :
    Comparison.compare e o = .error m ↔ ∃! l, FirstMismatch e o m l := by
  constructor
  · intro h
    obtain ⟨l, v, hl, hbefore, hjudge⟩ := Comparison.compare_eq_error he h
    have hfirst := FirstMismatch.of_judge hl hbefore hjudge
    exact ⟨l, hfirst, fun l' h' => h'.location_unique he hfirst⟩
  · rintro ⟨l, hfirst, -⟩
    cases hc : Comparison.compare e o with
    | error m' =>
      obtain ⟨l', v, hl, hbefore, hjudge⟩ := Comparison.compare_eq_error he hc
      have hfirst' := FirstMismatch.of_judge hl hbefore hjudge
      obtain rfl := hfirst.location_unique he hfirst'
      rw [hfirst.mismatch_unique hfirst']
    | ok u =>
      have hall := (containedIn_iff_at? e o).1 ((Comparison.compareAt_eq_ok_iff .root he o).1 hc)
      obtain ⟨v, hv⟩ := hfirst.inside
      obtain ⟨w, hw, halike⟩ := hall l v hv
      exact absurd halike (hfirst.unmatched hv hw)

theorem firstMismatch_awkward_key :
    let e : Json := .object [("n", .number (.natural 1 (by decide))),
      ("items", .array [.null, .object [("a.b", .bool true)]])]
    let o : Json := .object [("items", .array [.null, .object []]),
      ("n", .number (.natural 1 (by decide)))]
    e.Distinct ∧ ∃ m, Comparison.compare e o = .error m ∧
      m.message = "missing items.1.\"a.b\" from result" ∧ ∃! l, FirstMismatch e o m l := by
  intro e o
  have hinner : Distinct (.object [("a.b", .bool true)]) := .object (by decide) (by simp [Distinct.bool])
  have he : e.Distinct :=
    .object (by decide) (by simp [Distinct.number, Distinct.array, Distinct.null, hinner])
  have hm : Comparison.compare e o = .error (.missing ⟨"items.1.\"a.b\""⟩) := by rfl
  exact ⟨he, _, hm, by decide +kernel, (compare_eq_error_iff_firstMismatch he o _).1 hm⟩

end Conformance
