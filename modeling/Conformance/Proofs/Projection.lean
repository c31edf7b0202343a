import Conformance.Proofs.Rearrangement
set_option autoImplicit false

/-!
# What a comparison sees of the observed document

The projection of an observed document on an expected one keeps, all the way down, the members whose keys
are expected and as many elements as are expected. A comparison with the projection has the same outcome
as one with the whole document, so that two documents with equal projections cannot be told apart by it,
whether it passes or fails.
-/
namespace Conformance

namespace Json

mutual

/-- What of the observed document stands where the expected one has something. -/
def projection : (expected observed : Json) → Json
  | .object members, .object found =>
    .object (found.filterMap fun m => (projectedValue members m.1 m.2).map fun w => (m.1, w))
  | .array items, .array found => .array (projectedItems items found)
  | _, observed => observed

def projectedValue : List (String × Json) → String → Json → Option Json
  | [], _, _ => none
  | (key, expected) :: rest, k, observed =>
    if k = key then some (projection expected observed) else projectedValue rest k observed

def projectedItems : List Json → List Json → List Json
  | expected :: rest, observed :: found => projection expected observed :: projectedItems rest found
  | _, _ => []

end

theorem projectedValue_eq (members : Members) (k : String) (w : Json) :
    projectedValue members k w = (members.get? k).map fun v => projection v w := by
  induction members with
  | nil => rfl
  | cons m rest ih =>
    obtain ⟨key, v⟩ := m
    rw [projectedValue, ih, Members.get?, Members.get?, List.lookup_cons]
    by_cases hk : k = key
    · rw [if_pos hk, beq_iff_eq.2 hk]
      rfl
    · rw [if_neg hk, beq_eq_false_iff_ne.2 hk]

theorem projectedItems_eq (items found : List Json) :
    projectedItems items found = List.zipWith projection items found := by
  induction items generalizing found with
  | nil => rfl
  | cons v rest ih =>
    cases found with
    | nil => rfl
    | cons w found => rw [projectedItems, ih, List.zipWith_cons_cons]

theorem get?_projectedMembers (members found : Members) (k : String) :
    Members.get? (found.filterMap fun m => (projectedValue members m.1 m.2).map fun w => (m.1, w)) k =
      (members.get? k).bind fun v => (found.get? k).map v.projection := by
  induction found with
  | nil => cases members.get? k <;> rfl
  | cons m rest ih =>
    obtain ⟨key, w⟩ := m
    rw [List.filterMap_cons, projectedValue_eq]
    unfold Members.get? at *
    by_cases hk : k = key
    · subst hk
      cases hv : List.lookup k members with
      | none => simpa [hv] using ih
      | some v => simp
    · have hne : (k == key) = false := beq_eq_false_iff_ne.2 hk
      cases hv : List.lookup key members with
      | none => simpa [List.lookup_cons, hne] using ih
      | some v => simpa [List.lookup_cons, hne] using ih

theorem child?_projection {e v : Json} {s : Step} (h : e.child? s = some v) (o : Json) :
    (e.projection o).child? s = (o.child? s).map v.projection := by
  cases e with
  | object members =>
    cases s with
    | index i => cases h
    | key k =>
      have hv : Members.get? members k = some v := h
      cases o with
      | object found =>
        rw [projection, child?, get?_projectedMembers, hv]
        rfl
      | null | bool _ | number _ | string _ | array _ => rfl
  | array items =>
    cases s with
    | key k => cases h
    | index i =>
      have hv : items[i]? = some v := h
      cases o with
      | array found =>
        rw [projection, child?, projectedItems_eq, List.getElem?_zipWith, hv, child?]
        cases found[i]? <;> rfl
      | null | bool _ | number _ | string _ | object _ => rfl
  | null | bool _ | number _ | string _ => cases h

/-- The projection of a node is the node of the projection. -/
theorem at?_projection {e v : Json} {l : Location} (h : e.at? l = some v) (o : Json) :
    (e.projection o).at? l = (o.at? l).map v.projection := by
  induction l generalizing e o with
  | nil =>
    obtain rfl := Option.some.inj h
    rfl
  | cons s rest ih =>
    obtain ⟨c, hc, hrest⟩ := Option.bind_eq_some_iff.1 h
    rw [at?, at?, child?_projection hc]
    cases o.child? s with
    | none => rfl
    | some d => exact ih hrest d

end Json

open Json

namespace Comparison

/-- A node is judged by its kind alone, or it is a scalar and seen as it is. -/
theorem judge_projection (here : Path) (v : Json) (found : Option Json) :
    judge here v (found.map v.projection) = judge here v found := by
  cases found with
  | none => rfl
  | some w => cases v <;> cases w <;> rfl

theorem compareAt_projection (here : Path) {e : Json} (he : e.Distinct) (o : Json) :
    compareAt here e (e.projection o) = compareAt here e o := by
  rw [compareAt_eq_nodes, compareAt_eq_nodes]
  apply forM_congr
  intro n hn
  rw [at?_projection (at?_of_mem_nodes he hn), judge_projection]

end Comparison

/-- A comparison sees the projection of the observed document, and nothing else of it. -/
theorem compare_projection {e : Json} (he : e.Distinct) :
    (∀ o, Comparison.compare e (e.projection o) = Comparison.compare e o) ∧
    (∀ o o', e.projection o = e.projection o' → Comparison.compare e o = Comparison.compare e o') ∧
    (∀ same : Number → Number → Prop, (∀ m n, same m n → Number.SameValue m n) →
      ∀ o o', Rearranged same (e.projection o) (e.projection o') →
        SameOutcome same (Comparison.compare e o) (Comparison.compare e o')) := by
  have hseen : ∀ o, Comparison.compare e (e.projection o) = Comparison.compare e o :=
    Comparison.compareAt_projection .root he
  refine ⟨hseen, fun o o' h => ?_, fun same hsame o o' h => ?_⟩
  · rw [← hseen o, ← hseen o', h]
  · rw [← hseen o, ← hseen o']
    exact Comparison.compareAt_rearranged hsame .root e h

/-- What was not expected differs at two depths, what was found in place of a scalar in the order of its
members alone. -/
theorem compare_projection_unexpected_members :
    let inner (more : List (String × Json)) : Json := .array [.object (("k", .bool true) :: more), .null]
    let e : Json := .object [("a", .array [.object [("k", .bool true)]]), ("b", .string "x")]
    let o : Json := .object [("b", .object [("p", .null), ("q", .bool true)]), ("a", inner [("m", .null)])]
    let o' : Json := .object [("c", .null), ("a", inner []), ("b", .object [("q", .bool true), ("p", .null)])]
    e.Distinct ∧ Rearranged Number.SameValue (e.projection o) (e.projection o') ∧
      (∃ found, Comparison.compare e o = .error (.values ⟨"b"⟩ (.string "x") found)) ∧
      SameOutcome Number.SameValue (Comparison.compare e o) (Comparison.compare e o') := by
  intro inner e o o'
  have hone : Distinct (.object [("k", .bool true)]) := .object (by decide) (by simp [Distinct.bool])
  have he : e.Distinct :=
    .object (by decide) (by simp [Distinct.array, Distinct.string, hone])
  have hfound : Distinct (.object [("p", .null), ("q", .bool true)]) :=
    .object (by decide) (by simp [Distinct.bool, Distinct.null])
  have hfound' : Distinct (.object [("q", .bool true), ("p", .null)]) :=
    .object (by decide) (by simp [Distinct.bool, Distinct.null])
  let seen : Json := .object [("b", .object [("p", .null), ("q", .bool true)]),
    ("a", .array [.object [("k", .bool true)]])]
  let seen' : Json := .object [("a", .array [.object [("k", .bool true)]]),
    ("b", .object [("q", .bool true), ("p", .null)])]
  have hseen : seen.Distinct := .object (by decide) (by simp [Distinct.array, hone, hfound])
  have hseen' : seen'.Distinct := .object (by decide) (by simp [Distinct.array, hone, hfound'])
  have hto : ContainedIn seen seen' :=
    (Comparison.compareAt_eq_ok_iff .root hseen seen').1 (eq_ok_of_toBool (by decide +kernel))
  have hback : ContainedIn seen' seen :=
    (Comparison.compareAt_eq_ok_iff .root hseen' seen).1 (eq_ok_of_toBool (by decide +kernel))
  have hprojections : Rearranged Number.SameValue (e.projection o) (e.projection o') :=
    hto.antisymm hseen hseen' hback
  exact ⟨he, hprojections, ⟨_, rfl⟩,
    (compare_projection he).2.2 Number.SameValue (fun _ _ h => h) o o' hprojections⟩

end Conformance
