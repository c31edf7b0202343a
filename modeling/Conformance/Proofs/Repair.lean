import Conformance.Proofs.Replacement
set_option autoImplicit false

/-!
# Repairing what is reported

To put the expected value where a mismatch is reported is always possible. It gives every node up to that
location and below it a match and takes the match from none in front, so that the comparison comes
further: the locations repaired one after the other stand in the expected document in that order, and
there are no more of them than it has nodes.
-/
namespace Conformance

open Json Comparison

def Matched (e o : Json) (l : Location) : Prop :=
  ∀ v, e.at? l = some v → ∃ w, o.at? l = some w ∧ Alike v w

inductive Repairs (e : Json) : List Location → Json → Json → Prop where
  | done (o : Json) : Repairs e [] o o
  | next {l : Location} {ls : List Location} {m : Mismatch} {v o o' o'' : Json}
      (failed : compare e o = .error m) (first : FirstMismatch e o m l) (value : e.at? l = some v)
      (repaired : o.replace? l v = some o') (rest : Repairs e ls o' o'') : Repairs e (l :: ls) o o''

section Repair

variable {e o o' v : Json} {m : Mismatch} {l : Location}

namespace FirstMismatch

theorem not_matched (h : FirstMismatch e o m l) : ¬ Matched e o l := by
  intro hmatched
  obtain ⟨v, hv⟩ := h.inside
  obtain ⟨w, hw, halike⟩ := hmatched v hv
  exact h.unmatched hv hw halike

/-- The parent of what is missing can take it: an array is too short by just that index. -/
theorem exists_repair (h : FirstMismatch e o m l) (hv : e.at? l = some v) :
    ∃ o', o.replace? l v = some o' := by
  cases ho : o.at? l with
  | some w => exact exists_replace?_of_at? ho
  | none =>
    obtain ⟨parent, s, u, w, rfl, hu, hw, -, hkind, -⟩ := (at?_eq_none_iff hv h.earlier).1 ho
    have hchild : u.child? s = some v := by rwa [at?_snoc, hu, Option.bind_some] at hv
    cases u with
    | object members =>
      cases s with
      | index i => cases hchild
      | key k =>
        cases w with
        | object found =>
          exact exists_replace?_of_put? hw (show put? (.object found) (.key k) v = some _ from rfl)
        | null | bool _ | number _ | string _ | array _ => cases hkind
    | array items =>
      cases s with
      | key k => cases hchild
      | index i =>
        cases w with
        | array found =>
          obtain rfl := index_eq_length_of_at?_eq_none hv h.earlier hw ho
          have hput : put? (.array found) (.index found.length) v = some (.array (found ++ [v])) := by
            rw [put?, if_neg (Nat.lt_irrefl _), if_pos rfl]
          exact exists_replace?_of_put? hw hput
        | null | bool _ | number _ | string _ | object _ => cases hkind
    | null | bool _ | number _ | string _ => cases hchild

end FirstMismatch

/-- Below the location stands what is expected there, and a match elsewhere stays one. -/
theorem matched_of_repair (hv : e.at? l = some v) (hrepair : o.replace? l v = some o') {k : Location}
    (hk : l <+: k ∨ Matched e o k) : Matched e o' k := by
  intro u hu
  by_cases hbelow : l <+: k
  · obtain ⟨r, rfl⟩ := hbelow
    refine ⟨u, ?_, .refl u⟩
    rw [at?_append, hv, Option.bind_some] at hu
    rw [at?_withAt?_below hrepair, hu]
  · obtain ⟨w, hw, huw⟩ := hk.resolve_left hbelow u hu
    obtain ⟨w', hw', hww'⟩ := at?_replace?_beside hrepair hbelow hw
    exact ⟨w', hw', huw.trans hww'⟩

theorem matched_of_precedes (h : FirstMismatch e o m l) (hv : e.at? l = some v)
    (hrepair : o.replace? l v = some o') {k : Location} (hk : k = l ∨ e.Precedes k l) :
    Matched e o' k := by
  apply matched_of_repair hv hrepair
  rcases hk with rfl | hk
  · exact Or.inl (List.prefix_refl k)
  · exact Or.inr fun u hu => h.earlier k u hk hu

/-- The comparison comes past the location and all that is below it. -/
theorem FirstMismatch.precedes_of_repair (he : e.Distinct) (h : FirstMismatch e o m l)
    (hv : e.at? l = some v) (hrepair : o.replace? l v = some o') {m' : Mismatch} {l' : Location}
    (h' : FirstMismatch e o' m' l') : e.Precedes l l' ∧ ¬ l <+: l' := by
  have hl : l ∈ e.locations := (mem_locations_iff he l).2 h.inside
  have hl' : l' ∈ e.locations := (mem_locations_iff he l').2 h'.inside
  have hne : l ≠ l' := fun heq => h'.not_matched (matched_of_precedes h hv hrepair (Or.inl heq.symm))
  refine ⟨(precedes_total hl hl' hne).resolve_right fun hback => ?_, fun hbelow => ?_⟩
  · exact h'.not_matched (matched_of_precedes h hv hrepair (Or.inr hback))
  · exact h'.not_matched (matched_of_repair hv hrepair (Or.inl hbelow))

/-- Where all in front of some locations is matched, a repair leaves fewer of them. -/
theorem exists_rest_of_repair (he : e.Distinct) {before rest : List Location}
    (hlocations : e.locations = before ++ rest) (hbefore : ∀ k ∈ before, Matched e o k)
    (h : FirstMismatch e o m l) (hv : e.at? l = some v) (hrepair : o.replace? l v = some o') :
    ∃ between after, rest = between ++ l :: after ∧ ∀ k ∈ before ++ between ++ [l], Matched e o' k := by
  have hmem : l ∈ before ++ rest := hlocations ▸ (mem_locations_iff he l).2 h.inside
  have hrest : l ∈ rest :=
    (List.mem_append.1 hmem).resolve_left fun hl => h.not_matched (hbefore l hl)
  obtain ⟨between, after, rfl⟩ := List.append_of_mem hrest
  refine ⟨between, after, rfl, fun k hk => matched_of_precedes h hv hrepair ?_⟩
  rcases List.mem_append.1 hk with hfront | hlast
  · have hnodup := locations_nodup he
    rw [hlocations, ← List.append_assoc] at hnodup
    right
    rw [Precedes, hlocations, ← List.append_assoc]
    exact (pair_sublist_iff_mem hnodup).2 hfront
  · exact Or.inl (List.mem_singleton.1 hlast)

end Repair

/-! ## Repeated repairs -/

theorem Repairs.sublist_of_matched {e o o' : Json} (he : e.Distinct) {ls : List Location}
    (h : Repairs e ls o o') {before rest : List Location} (hlocations : e.locations = before ++ rest)
    (hbefore : ∀ k ∈ before, Matched e o k) : ls.Sublist rest := by
  induction h generalizing before rest with
  | done o => exact List.nil_sublist rest
  | @next l ls m v o o' o'' _ hfirst hv hrepair _ ih =>
    obtain ⟨between, after, rfl, hmatched⟩ :=
      exists_rest_of_repair he hlocations hbefore hfirst hv hrepair
    have hlocations' : e.locations = (before ++ between ++ [l]) ++ after := by simp [hlocations]
    exact ((ih hlocations' hmatched).cons_cons l).trans (List.sublist_append_right between (l :: after))

theorem Repairs.sublist {e o o' : Json} (he : e.Distinct) {ls : List Location} (h : Repairs e ls o o') :
    ls.Sublist e.locations :=
  h.sublist_of_matched he (List.nil_append e.locations).symm nofun

theorem Repairs.snoc {e o o' o'' v : Json} {ls : List Location} {l : Location} {m : Mismatch}
    (h : Repairs e ls o o') (failed : compare e o' = .error m) (first : FirstMismatch e o' m l)
    (value : e.at? l = some v) (repaired : o'.replace? l v = some o'') :
    Repairs e (ls ++ [l]) o o'' := by
  induction h with
  | done o => exact .next failed first value repaired (.done o'')
  | next failed' first' value' repaired' _ ih =>
    exact .next failed' first' value' repaired' (ih failed first repaired)

theorem Repairs.distinct {e o o' : Json} (he : e.Distinct) {ls : List Location} (h : Repairs e ls o o')
    (ho : o.Distinct) : o'.Distinct := by
  induction h with
  | done o => exact ho
  | next _ _ value repaired _ ih => exact ih (ho.replace? (he.at? value) repaired)

/-- What a failed comparison reports can be repaired. -/
theorem exists_repair_of_failed {e o : Json} (he : e.Distinct) {m : Mismatch}
    (h : compare e o = .error m) :
    ∃ l v o', FirstMismatch e o m l ∧ e.at? l = some v ∧ o.replace? l v = some o' := by
  obtain ⟨l, v, hl, hbefore, hjudge⟩ := compare_eq_error he h
  have hfirst := FirstMismatch.of_judge hl hbefore hjudge
  obtain ⟨o', ho'⟩ := hfirst.exists_repair hl
  exact ⟨l, v, o', hfirst, hl, ho'⟩

/-- As long as the comparison fails there is one more repair, and room for it. -/
theorem Repairs.exists_passing {e o o' : Json} (he : e.Distinct) {ls : List Location}
    (h : Repairs e ls o o') : ∃ ls' o'', Repairs e ls' o o'' ∧ compare e o'' = .ok () := by
  cases hc : compare e o' with
  | ok u => exact ⟨ls, o', h, hc⟩
  | error m =>
    obtain ⟨l, v, o'', hfirst, hv, hrepair⟩ := exists_repair_of_failed he hc
    have hlonger := h.snoc hc hfirst hv hrepair
    have hroom : e.locations.length - (ls ++ [l]).length < e.locations.length - ls.length := by
      have hlength := (hlonger.sublist he).length_le
      rw [List.length_append, List.length_singleton] at hlength ⊢
      omega
    exact hlonger.exists_passing he
termination_by e.locations.length - ls.length

/-- A repair of what is reported is possible and lets the comparison pass or come further; any repairs,
one after the other, go forward through the expected document, and they end in a pass. -/
theorem compare_repaired {e o : Json} (he : e.Distinct) (ho : o.Distinct) :
    (∀ m, compare e o = .error m → ∃ l v o', FirstMismatch e o m l ∧ e.at? l = some v ∧
      o.replace? l v = some o' ∧ o'.Distinct ∧
      (compare e o' = .ok () ∨ ∃ m' l', compare e o' = .error m' ∧ FirstMismatch e o' m' l' ∧
        e.Precedes l l' ∧ ¬ l <+: l')) ∧
    (∀ ls o', Repairs e ls o o' → ls.Sublist e.locations ∧ ls.length ≤ e.nodes.length ∧ o'.Distinct ∧
      (compare e o' = .ok () ∨ ∃ l o'', Repairs e (ls ++ [l]) o o'')) ∧
    (∃ ls o', Repairs e ls o o' ∧ compare e o' = .ok ()) := by
  have hstep : ∀ o' : Json, compare e o' = .ok () ∨ ∃ m, compare e o' = .error m := by
    intro o'
    cases compare e o' with
    | ok u => exact Or.inl rfl
    | error m => exact Or.inr ⟨m, rfl⟩
  refine ⟨fun m hm => ?_, fun ls o' h => ⟨h.sublist he, ?_, h.distinct he ho, ?_⟩, ?_⟩
  · obtain ⟨l, v, o', hfirst, hv, hrepair⟩ := exists_repair_of_failed he hm
    refine ⟨l, v, o', hfirst, hv, hrepair, ho.replace? (he.at? hv) hrepair, ?_⟩
    refine (hstep o').imp_right fun ⟨m', hm'⟩ => ?_
    obtain ⟨l', v', -, hfirst', -, -⟩ := exists_repair_of_failed he hm'
    exact ⟨m', l', hm', hfirst', hfirst.precedes_of_repair he hv hrepair hfirst'⟩
  · have hlength := (h.sublist he).length_le
    rwa [locations, List.length_map] at hlength
  · refine (hstep o').imp_right fun ⟨m, hm⟩ => ?_
    obtain ⟨l, v, o'', hfirst, hv, hrepair⟩ := exists_repair_of_failed he hm
    exact ⟨l, o'', h.snoc hm hfirst hv hrepair⟩
  · exact Repairs.exists_passing he (.done o)

/-- A value is put in the place of another, an element behind the last one and a member into an object. -/
theorem compare_repaired_three_times :
    let one : Json := .number (.natural 1 (by decide))
    let e : Json := .object [("a", .array [one, .null]), ("b", .object [])]
    let o : Json := .object [("c", .null), ("a", .array [.string "1"])]
    let o₁ : Json := .object [("c", .null), ("a", .array [one])]
    let o₂ : Json := .object [("c", .null), ("a", .array [one, .null])]
    let o₃ : Json := .object [("c", .null), ("a", .array [one, .null]), ("b", .object [])]
    e.Distinct ∧ o.Distinct ∧ compare e o = .error (.values ⟨"a.0"⟩ one (.string "1")) ∧
      o.replace? [.key "a", .index 0] one = some o₁ ∧ compare e o₁ = .error (.missing ⟨"a.1"⟩) ∧
      o₁.replace? [.key "a", .index 1] .null = some o₂ ∧ compare e o₂ = .error (.missing ⟨"b"⟩) ∧
      o₂.replace? [.key "b"] (.object []) = some o₃ ∧ compare e o₃ = .ok () ∧
      (∃ ls o', Repairs e ls o o' ∧ compare e o' = .ok ()) ∧
      ∀ ls o', Repairs e ls o o' → ls.length ≤ 5 := by
  intro one e o o₁ o₂ o₃
  have hone : one.Distinct := .number _
  have hempty : Distinct (.object []) := .object (by decide) nofun
  have he : e.Distinct := .object (by decide) (by simp [Distinct.array, Distinct.null, hone, hempty])
  have ho : o.Distinct := .object (by decide) (by simp [Distinct.array, Distinct.null, Distinct.string])
  obtain ⟨-, hrepairs, hpasses⟩ := compare_repaired he ho
  exact ⟨he, ho, rfl, rfl, rfl, rfl, rfl, rfl, rfl, hpasses, fun ls o' h => (hrepairs ls o' h).2.1⟩

end Conformance
