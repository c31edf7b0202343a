import Conformance.Json.Basic
import Conformance.Location
import Mathlib.Data.List.Flatten
import Mathlib.Data.List.Nodup
set_option autoImplicit false

/-!
# Documents as trees

The children of a node stand in the order in which they are stored, each behind the step that leads to
it. Objects and arrays differ in nothing else, so that an induction over a document has one case.
`nodes` goes through a document depth first, a node before its children. A location leads to a node by
lookups, which do not depend on that order; where no key is repeated both see the same nodes.
-/
namespace Conformance.Json

def children : Json → List (Step × Json)
  | .array items => items.zipIdx.map fun p => (.index p.2, p.1)
  | .object members => members.map fun m => (.key m.1, m.2)
  | _ => []

def child? : Json → Step → Option Json
  | .array items, .index i => items[i]?
  | .object members, .key k => Members.get? members k
  | _, _ => none

def at? (v : Json) : Location → Option Json
  | [] => some v
  | s :: rest => (v.child? s).bind fun c => at? c rest

inductive Distinct : Json → Prop where
  | null : Distinct .null
  | bool (b : Bool) : Distinct (.bool b)
  | number (n : Number) : Distinct (.number n)
  | string (s : String) : Distinct (.string s)
  | array {items : List Json} (values : ∀ v ∈ items, Distinct v) : Distinct (.array items)
  | object {members : Members} (keys : members.keys.Nodup)
      (values : ∀ m ∈ members, Distinct m.2) : Distinct (.object members)

def under (s : Step) (nodes : List (Location × Json)) : List (Location × Json) :=
  nodes.map fun n => (s :: n.1, n.2)

mutual

/-- Every node with its location, a node before its children. -/
def nodes : Json → List (Location × Json)
  | .array items => ([], .array items) :: elementNodes 0 items
  | .object members => ([], .object members) :: memberNodes members
  | scalar => [([], scalar)]

def elementNodes (n : Nat) : List Json → List (Location × Json)
  | [] => []
  | v :: rest => under (.index n) (nodes v) ++ elementNodes (n + 1) rest

def memberNodes : List (String × Json) → List (Location × Json)
  | [] => []
  | (k, v) :: rest => under (.key k) (nodes v) ++ memberNodes rest

end

def locations (v : Json) : List Location := v.nodes.map (·.1)

def Precedes (v : Json) (l m : Location) : Prop := List.Sublist [l, m] v.locations

/-! ## Children -/

theorem sizeOf_child_lt {v : Json} {c : Step × Json} (h : c ∈ v.children) : sizeOf c.2 < sizeOf v := by
  cases v with
  | array items =>
    obtain ⟨p, hp, rfl⟩ := List.mem_map.1 h
    have hmem := List.sizeOf_lt_of_mem (List.fst_mem_of_mem_zipIdx hp)
    simp only [array.sizeOf_spec]
    omega
  | object members =>
    obtain ⟨m, hm, rfl⟩ := List.mem_map.1 h
    have hmem := List.sizeOf_lt_of_mem hm
    have hpair : sizeOf m.2 < sizeOf m := by cases m; simp only [Prod.mk.sizeOf_spec]; omega
    simp only [object.sizeOf_spec]
    omega
  | null | bool _ | number _ | string _ => simp [children] at h

/-- What holds of a node as soon as it holds of its children holds of all documents. -/
theorem induction_children {P : Json → Prop} (step : ∀ v, (∀ c ∈ v.children, P c.2) → P v) (v : Json) :
    P v :=
  step v fun c hc =>
    have := sizeOf_child_lt hc
    induction_children step c.2
termination_by sizeOf v

theorem mem_of_get? {members : Members} {k : String} {v : Json} (h : members.get? k = some v) :
    (k, v) ∈ members := by
  induction members with
  | nil => simp [Members.get?] at h
  | cons m rest ih =>
    rw [Members.get?, List.lookup_cons] at h
    split at h
    · next heq =>
      obtain rfl := beq_iff_eq.1 heq
      obtain rfl := Option.some.inj h
      exact List.mem_cons_self
    · exact List.mem_cons_of_mem _ (ih h)

theorem get?_of_mem {members : Members} (hkeys : members.keys.Nodup) {k : String} {v : Json}
    (h : (k, v) ∈ members) : members.get? k = some v := by
  induction members with
  | nil => simp at h
  | cons m rest ih =>
    rw [Members.keys, List.map_cons, List.nodup_cons] at hkeys
    rw [Members.get?, List.lookup_cons]
    rcases List.mem_cons.1 h with rfl | htail
    · simp
    · have hne : (k == m.1) = false := by
        rw [beq_eq_false_iff_ne]
        rintro rfl
        exact hkeys.1 (List.mem_map.2 ⟨_, htail, rfl⟩)
      rw [hne]
      exact ih hkeys.2 htail

theorem mem_children_of_child? {v c : Json} {s : Step} (h : v.child? s = some c) :
    (s, c) ∈ v.children := by
  cases v with
  | array items =>
    cases s with
    | index i => exact List.mem_map.2 ⟨(c, i), List.mem_zipIdx_iff_getElem?.2 h, rfl⟩
    | key k => simp [child?] at h
  | object members =>
    cases s with
    | index i => simp [child?] at h
    | key k => exact List.mem_map.2 ⟨(k, c), mem_of_get? h, rfl⟩
  | null | bool _ | number _ | string _ => simp [child?] at h

theorem child?_of_mem_children {v : Json} (hv : v.Distinct) {c : Json} {s : Step}
    (h : (s, c) ∈ v.children) : v.child? s = some c := by
  cases hv with
  | array _ =>
    obtain ⟨p, hp, heq⟩ := List.mem_map.1 h
    obtain ⟨rfl, rfl⟩ := Prod.mk.inj heq
    exact List.mem_zipIdx_iff_getElem?.1 hp
  | object hkeys _ =>
    obtain ⟨m, hm, heq⟩ := List.mem_map.1 h
    obtain ⟨rfl, rfl⟩ := Prod.mk.inj heq
    exact get?_of_mem hkeys hm
  | null | bool _ | number _ | string _ => simp [children] at h

theorem Distinct.child {v : Json} (hv : v.Distinct) {c : Step × Json} (h : c ∈ v.children) :
    c.2.Distinct := by
  cases hv with
  | array hvalues =>
    obtain ⟨p, hp, rfl⟩ := List.mem_map.1 h
    exact hvalues _ (List.fst_mem_of_mem_zipIdx hp)
  | object _ hvalues =>
    obtain ⟨m, hm, rfl⟩ := List.mem_map.1 h
    exact hvalues m hm
  | null | bool _ | number _ | string _ => simp [children] at h

theorem Distinct.steps_nodup {v : Json} (hv : v.Distinct) : (v.children.map (·.1)).Nodup := by
  cases hv with
  | @array items _ =>
    have hsteps : (children (.array items)).map (·.1) = (items.zipIdx.map (·.2)).map Step.index := by
      simp only [children, List.map_map, Function.comp_def]
    rw [hsteps, List.zipIdx_map_snd]
    exact (List.nodup_range' 1).map fun i j h => Step.index.inj h
  | @object members hkeys _ =>
    have hsteps : (children (.object members)).map (·.1) = (Members.keys members).map Step.key := by
      simp only [children, Members.keys, List.map_map, Function.comp_def]
    rw [hsteps]
    exact hkeys.map fun i j h => Step.key.inj h
  | null | bool _ | number _ | string _ => exact List.nodup_nil

/-! ## Nodes -/

theorem elementNodes_eq (n : ℕ) (items : List Json) :
    elementNodes n items = (items.zipIdx n).flatMap fun p => under (.index p.2) p.1.nodes := by
  induction items generalizing n with
  | nil => rfl
  | cons v rest ih => rw [elementNodes, ih, List.zipIdx_cons, List.flatMap_cons]

theorem memberNodes_eq (members : Members) :
    memberNodes members = members.flatMap fun m => under (.key m.1) m.2.nodes := by
  induction members with
  | nil => rfl
  | cons m rest ih => rw [memberNodes, ih, List.flatMap_cons]

theorem nodes_eq (v : Json) :
    v.nodes = ([], v) :: v.children.flatMap fun c => under c.1 c.2.nodes := by
  cases v with
  | array items => rw [nodes, elementNodes_eq, children, List.flatMap_map]
  | object members => rw [nodes, memberNodes_eq, children, List.flatMap_map]
  | null | bool _ | number _ | string _ => rfl

theorem locations_eq (v : Json) :
    v.locations = [] :: v.children.flatMap fun c => c.2.locations.map (c.1 :: ·) := by
  rw [locations, nodes_eq, List.map_cons, List.map_flatMap]
  simp only [under, locations, List.map_map, Function.comp_def]

theorem mem_nodes_of_at? {v w : Json} {l : Location} (h : v.at? l = some w) : (l, w) ∈ v.nodes := by
  induction l generalizing v with
  | nil =>
    obtain rfl := Option.some.inj h
    rw [nodes_eq]
    exact List.mem_cons_self
  | cons s rest ih =>
    obtain ⟨c, hc, hrest⟩ := Option.bind_eq_some_iff.1 h
    rw [nodes_eq]
    refine List.mem_cons_of_mem _ (List.mem_flatMap.2 ⟨(s, c), mem_children_of_child? hc, ?_⟩)
    exact List.mem_map.2 ⟨(rest, w), ih hrest, rfl⟩

theorem at?_of_mem_nodes {v w : Json} (hv : v.Distinct) {l : Location} (h : (l, w) ∈ v.nodes) :
    v.at? l = some w := by
  induction v using induction_children generalizing l with
  | step v ih =>
    rw [nodes_eq] at h
    rcases List.mem_cons.1 h with heq | hbelow
    · obtain ⟨rfl, rfl⟩ := Prod.mk.inj heq
      rfl
    · obtain ⟨c, hc, hmem⟩ := List.mem_flatMap.1 hbelow
      obtain ⟨n, hn, heq⟩ := List.mem_map.1 hmem
      obtain ⟨rfl, rfl⟩ := Prod.mk.inj heq
      rw [at?, child?_of_mem_children hv hc, Option.bind_some]
      exact ih c hc (hv.child hc) hn

theorem mem_locations_iff {v : Json} (hv : v.Distinct) (l : Location) :
    l ∈ v.locations ↔ ∃ w, v.at? l = some w := by
  constructor
  · intro h
    obtain ⟨n, hn, rfl⟩ := List.mem_map.1 h
    exact ⟨n.2, at?_of_mem_nodes hv hn⟩
  · rintro ⟨w, hw⟩
    exact List.mem_map.2 ⟨(l, w), mem_nodes_of_at? hw, rfl⟩

theorem locations_nodup {v : Json} (hv : v.Distinct) : v.locations.Nodup := by
  induction v using induction_children with
  | step v ih =>
    rw [locations_eq, List.nodup_cons, List.nodup_flatMap]
    refine ⟨by simp, ?_, ?_⟩
    · intro c hc
      exact (ih c hc (hv.child hc)).map fun l m h => (List.cons.inj h).2
    · -- the blocks of two children differ in their first step
      refine (List.pairwise_map.1 hv.steps_nodup).imp fun {c d} hne l hl hm => ?_
      obtain ⟨l', _, rfl⟩ := List.mem_map.1 hl
      obtain ⟨m', _, heq⟩ := List.mem_map.1 hm
      exact hne (List.cons.inj heq).1.symm

theorem at?_append (v : Json) (l m : Location) : v.at? (l ++ m) = (v.at? l).bind (at? · m) := by
  induction l generalizing v with
  | nil => rfl
  | cons s rest ih =>
    rw [List.cons_append, at?, at?, Option.bind_assoc]
    simp only [ih]

theorem at?_snoc (v : Json) (l : Location) (s : Step) :
    v.at? (l ++ [s]) = (v.at? l).bind (child? · s) := by
  rw [at?_append]
  congr 1
  funext w
  cases h : w.child? s with
  | none => simp [at?, h]
  | some c => simp [at?, h]

/-! ## Order -/

theorem pair_sublist_of_getElem? {α : Type} {xs : List α} {i j : ℕ} {a b : α} (hij : i < j)
    (ha : xs[i]? = some a) (hb : xs[j]? = some b) : List.Sublist [a, b] xs := by
  rw [← List.take_append_drop j xs]
  have hleft : a ∈ xs.take j := List.mem_of_getElem? (by rw [List.getElem?_take_of_lt hij]; exact ha)
  have hright : b ∈ xs.drop j := by
    apply List.mem_of_getElem? (i := 0)
    rw [List.getElem?_drop]
    exact hb
  exact (List.singleton_sublist.2 hleft).append (List.singleton_sublist.2 hright)

theorem pair_sublist_iff_mem {α : Type} {xs ys : List α} {a b : α} (h : (xs ++ b :: ys).Nodup) :
    List.Sublist [a, b] (xs ++ b :: ys) ↔ a ∈ xs := by
  constructor
  · intro hsub
    obtain ⟨hxs, htail, hdisjoint⟩ := List.nodup_append.1 h
    obtain ⟨hb, -⟩ := List.nodup_cons.1 htail
    obtain ⟨l₁, l₂, heq, h₁, h₂⟩ := List.sublist_append_iff.1 hsub
    cases l₁ with
    | cons c l₁ =>
      obtain rfl := (List.cons.inj heq).1
      exact h₁.subset List.mem_cons_self
    | nil =>
      -- a second `b` would have to stand behind the first
      obtain rfl := heq
      cases h₂ with
      | cons _ h => exact absurd (h.subset (by simp)) hb
      | cons_cons _ h => exact absurd (h.subset (by simp)) hb
  · intro ha
    exact (List.singleton_sublist.2 ha).append (List.singleton_sublist.2 List.mem_cons_self)

theorem precedes_total {v : Json} {l m : Location} (hl : l ∈ v.locations) (hm : m ∈ v.locations)
    (hne : l ≠ m) : v.Precedes l m ∨ v.Precedes m l := by
  obtain ⟨i, hi⟩ := List.mem_iff_getElem?.1 hl
  obtain ⟨j, hj⟩ := List.mem_iff_getElem?.1 hm
  rcases Nat.lt_trichotomy i j with hlt | rfl | hlt
  · exact Or.inl (pair_sublist_of_getElem? hlt hi hj)
  · exact absurd (Option.some.inj (hi.symm.trans hj)) hne
  · exact Or.inr (pair_sublist_of_getElem? hlt hj hi)

theorem precedes_cons {v c : Json} {s : Step} (hc : v.child? s = some c) {l m : Location}
    (h : c.Precedes l m) : v.Precedes (s :: l) (s :: m) := by
  have hblock : List.Sublist (c.locations.map (s :: ·)) v.locations := by
    have hmem : c.locations.map (s :: ·) ∈
        v.children.map fun d => d.2.locations.map (d.1 :: ·) :=
      List.mem_map.2 ⟨(s, c), mem_children_of_child? hc, rfl⟩
    rw [v.locations_eq]
    exact (List.sublist_flatten_of_mem hmem).cons []
  exact (h.map (s :: ·)).trans hblock

theorem precedes_child {v w : Json} {l : Location} {s : Step} (h : v.at? (l ++ [s]) = some w) :
    v.Precedes l (l ++ [s]) := by
  induction l generalizing v with
  | nil =>
    have hmem : [s] ∈ v.locations := List.mem_map.2 ⟨([s], w), mem_nodes_of_at? h, rfl⟩
    rw [locations_eq] at hmem
    have htail := (List.mem_cons.1 hmem).resolve_left (by simp)
    rw [Precedes, locations_eq]
    exact (List.singleton_sublist.2 htail).cons_cons []
  | cons t rest ih =>
    obtain ⟨c, hc, hrest⟩ := Option.bind_eq_some_iff.1 h
    exact precedes_cons hc (ih hrest)

theorem precedes_sibling {v : Json} {l : Location} {items : List Json}
    (h : v.at? l = some (.array items)) {i j : ℕ} (hij : i < j) (hj : j < items.length) :
    v.Precedes (l ++ [.index i]) (l ++ [.index j]) := by
  induction l generalizing v with
  | nil =>
    obtain rfl := Option.some.inj h
    have hchild : ∀ n, n < items.length →
        ((children (.array items)).map fun c => [c.1])[n]? = some [Step.index n] := by
      intro n hn
      simp [children, hn]
    have hheads : List.Sublist ((children (.array items)).map fun c => [c.1])
        (locations (.array items)) := by
      rw [locations_eq, List.map_eq_flatMap]
      refine (List.Sublist.flatMap_right _ fun c _ => ?_).cons []
      rw [c.2.locations_eq]
      exact List.singleton_sublist.2 List.mem_cons_self
    exact (pair_sublist_of_getElem? hij (hchild i (by omega)) (hchild j hj)).trans hheads
  | cons t rest ih =>
    obtain ⟨c, hc, hrest⟩ := Option.bind_eq_some_iff.1 h
    exact precedes_cons hc (ih hrest)

end Conformance.Json
