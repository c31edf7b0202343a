import Conformance.Comparison
import Conformance.Proofs.NumberValue
import Conformance.Proofs.Outcome
import Conformance.Proofs.PathText
import Conformance.Proofs.Tree
set_option autoImplicit false

/-!
# Containment

What it means that a document is contained in another says nothing of an order or a path. The
comparison goes through the expected document in one order and stops at the first node that has no
match; it accepts exactly what is contained.
-/
namespace Conformance

namespace Json

def isContainer : Json → Bool
  | .object _ => true
  | .array _ => true
  | _ => false

inductive Alike : Json → Json → Prop where
  | object (e o : Members) : Alike (.object e) (.object o)
  | array (e o : List Json) : Alike (.array e) (.array o)
  | number {m n : Number} (h : m.value = n.value) : Alike (.number m) (.number n)
  | string (s : String) : Alike (.string s) (.string s)
  | bool (b : Bool) : Alike (.bool b) (.bool b)
  | null : Alike .null .null

inductive ContainedIn : Json → Json → Prop where
  | object {e o : Members} (present : ∀ k v, e.get? k = some v → ∃ w, o.get? k = some w)
      (contained : ∀ k v w, e.get? k = some v → o.get? k = some w → ContainedIn v w) :
      ContainedIn (.object e) (.object o)
  | array {e o : List Json} (enough : e.length ≤ o.length)
      (contained : ∀ (i : ℕ) v w, e[i]? = some v → o[i]? = some w → ContainedIn v w) :
      ContainedIn (.array e) (.array o)
  | number {m n : Number} (h : m.value = n.value) : ContainedIn (.number m) (.number n)
  | string (s : String) : ContainedIn (.string s) (.string s)
  | bool (b : Bool) : ContainedIn (.bool b) (.bool b)
  | null : ContainedIn .null .null

theorem Alike.refl (v : Json) : Alike v v := by
  cases v with
  | null => exact .null
  | bool b => exact .bool b
  | number n => exact .number rfl
  | string s => exact .string s
  | array items => exact .array items items
  | object members => exact .object members members

theorem ContainedIn.alike {e o : Json} (h : ContainedIn e o) : Alike e o := by
  cases h with
  | object _ _ => exact .object _ _
  | array _ _ => exact .array _ _
  | number h => exact .number h
  | string s => exact .string s
  | bool b => exact .bool b
  | null => exact .null

theorem ContainedIn.child {e o : Json} (h : ContainedIn e o) {s : Step} {v : Json}
    (hs : e.child? s = some v) : ∃ w, o.child? s = some w ∧ ContainedIn v w := by
  cases h with
  | object present contained =>
    cases s with
    | key k =>
      obtain ⟨w, hw⟩ := present k v hs
      exact ⟨w, hw, contained k v w hs hw⟩
    | index i => simp [child?] at hs
  | @array es os enough contained =>
    cases s with
    | key k => simp [child?] at hs
    | index i =>
      have hi : i < os.length := Nat.lt_of_lt_of_le (List.getElem?_eq_some_iff.1 hs).1 enough
      exact ⟨os[i], List.getElem?_eq_getElem hi, contained i v os[i] hs (List.getElem?_eq_getElem hi)⟩
  | number _ | string _ | bool _ | null => simp [child?] at hs

theorem containedIn_of_children {e o : Json} (h : Alike e o)
    (hs : ∀ s v, e.child? s = some v → ∃ w, o.child? s = some w ∧ ContainedIn v w) :
    ContainedIn e o := by
  have hfound : ∀ s v w, e.child? s = some v → o.child? s = some w → ContainedIn v w := by
    intro s v w hv hw
    obtain ⟨w', hw', hc⟩ := hs s v hv
    rw [hw] at hw'
    obtain rfl := Option.some.inj hw'
    exact hc
  cases h with
  | object e o =>
    refine .object (fun k v hv => ?_) fun k => hfound (.key k)
    obtain ⟨w, hw, -⟩ := hs (.key k) v hv
    exact ⟨w, hw⟩
  | array e o =>
    refine .array ?_ fun i => hfound (.index i)
    by_contra hlt
    obtain ⟨w, hw, -⟩ := hs (.index o.length) e[o.length] (List.getElem?_eq_getElem (by omega))
    exact absurd (List.getElem?_eq_some_iff.1 hw).1 (Nat.lt_irrefl _)
  | number h => exact .number h
  | string s => exact .string s
  | bool b => exact .bool b
  | null => exact .null

theorem ContainedIn.at? {e o : Json} (h : ContainedIn e o) {l : Location} {v : Json}
    (hv : e.at? l = some v) : ∃ w, o.at? l = some w ∧ ContainedIn v w := by
  induction l generalizing e o with
  | nil =>
    obtain rfl := Option.some.inj hv
    exact ⟨o, rfl, h⟩
  | cons s rest ih =>
    obtain ⟨c, hc, hrest⟩ := Option.bind_eq_some_iff.1 hv
    obtain ⟨d, hd, hcd⟩ := h.child hc
    rw [Json.at?, hd, Option.bind_some]
    exact ih hcd hrest

theorem containedIn_iff_at? (e o : Json) :
    ContainedIn e o ↔ ∀ l v, e.at? l = some v → ∃ w, o.at? l = some w ∧ Alike v w := by
  constructor
  · intro h l v hv
    obtain ⟨w, hw, hvw⟩ := h.at? hv
    exact ⟨w, hw, hvw.alike⟩
  · intro h
    induction e using induction_children generalizing o with
    | step e ih =>
      obtain ⟨w, hw, halike⟩ := h [] e rfl
      obtain rfl := Option.some.inj hw
      refine containedIn_of_children halike fun s c hc => ?_
      obtain ⟨d, hd, -⟩ := h [s] c (by rw [at?, hc]; rfl)
      obtain ⟨d', hd', heq⟩ := Option.bind_eq_some_iff.1 hd
      obtain rfl := Option.some.inj heq
      refine ⟨d', hd', ih (s, c) (mem_children_of_child? hc) d' fun l v hv => ?_⟩
      have hbelow := h (s :: l) v (by rw [at?, hc]; exact hv)
      rwa [at?, hd'] at hbelow

/-- Every document is contained in itself. -/
theorem ContainedIn.refl (v : Json) : ContainedIn v v :=
  (containedIn_iff_at? v v).2 fun _ w hw => ⟨w, hw, .refl w⟩

end Json

/-! ## Going through the expected document -/

open Json

namespace Comparison

/-- What is reported of one node, its children apart. -/
def judge (here : Path) (expected : Json) : Option Json → Except Mismatch Unit
  | none => .error (.missing here)
  | some observed =>
    match expected, observed with
    | .object _, .object _ => .ok ()
    | .object _, other => .error (.kinds here .object other.kind)
    | .array _, .array _ => .ok ()
    | .array _, other => .error (.kinds here .array other.kind)
    | scalar, observed =>
      if sameScalar scalar observed then .ok () else .error (.values here scalar observed)

def compareChild (here : Path) (observed : Json) (c : Step × Json) : Except Mismatch Unit :=
  match observed.child? c.1 with
  | none => .error (.missing (here.extend c.1))
  | some found => compareAt (here.extend c.1) c.2 found

theorem membersAt_eq (here : Path) (members found : Members) :
    membersAt here members found =
      (children (.object members)).forM (compareChild here (.object found)) := by
  induction members with
  | nil => rfl
  | cons m rest ih =>
    obtain ⟨k, v⟩ := m
    rw [membersAt, ih]
    change _ = (compareChild here (.object found) (.key k, v) >>= fun _ => _)
    rw [compareChild, child?]
    cases found.get? k with
    | none => rfl
    | some w =>
      simp only
      cases compareAt (here.extend (.key k)) v w <;> rfl

theorem elementsAt_eq (here : Path) (n : ℕ) (items found : List Json) :
    elementsAt here n items (found.drop n) =
      ((items.zipIdx n).map fun p => (Step.index p.2, p.1)).forM (compareChild here (.array found)) := by
  induction items generalizing n with
  | nil => cases found.drop n <;> rfl
  | cons v rest ih =>
    change _ = (compareChild here (.array found) (.index n, v) >>= fun _ =>
      ((rest.zipIdx (n + 1)).map fun p => (Step.index p.2, p.1)).forM (compareChild here (.array found)))
    rw [compareChild, child?, ← ih]
    cases hn : found[n]? with
    | none =>
      rw [List.drop_eq_nil_iff.2 (List.getElem?_eq_none_iff.1 hn)]
      rfl
    | some w =>
      obtain ⟨hlt, rfl⟩ := List.getElem?_eq_some_iff.1 hn
      rw [List.drop_eq_getElem_cons hlt, elementsAt]
      simp only
      cases compareAt (here.extend (.index n)) v found[n] <;> rfl

theorem compareAt_eq_children (here : Path) (e o : Json) :
    compareAt here e o = judge here e (some o) >>= fun _ => e.children.forM (compareChild here o) := by
  cases e with
  | object members =>
    cases o with
    | object found => exact membersAt_eq here members found
    | null | bool _ | number _ | string _ | array _ => rfl
  | array items =>
    cases o with
    | array found => exact elementsAt_eq here 0 items found
    | null | bool _ | number _ | string _ | object _ => rfl
  | null | bool _ | number _ | string _ =>
    simp only [compareAt, judge]
    split <;> rfl

/-- The comparison as one loop over the nodes of the expected document. -/
theorem compareAt_eq_nodes (here : Path) (e o : Json) :
    compareAt here e o = e.nodes.forM fun n => judge (here.descend n.1) n.2 (o.at? n.1) := by
  induction e using induction_children generalizing here o with
  | step e ih =>
    rw [compareAt_eq_children, nodes_eq]
    change _ = (judge here e (some o) >>= fun _ => List.forM _ _)
    rw [forM_flatMap]
    congr 1
    funext _
    refine forM_congr fun c hc => ?_
    rw [under, List.forM_eq_forM, List.forM_map, ← List.forM_eq_forM, compareChild]
    cases hfound : o.child? c.1 with
    | none =>
      -- the child itself comes first among its nodes
      rw [nodes_eq]
      change _ = (judge (here.extend c.1) c.2 (o.at? [c.1]) >>= fun _ => List.forM _ _)
      rw [at?, hfound]
      rfl
    | some found =>
      change compareAt (here.extend c.1) c.2 found = _
      rw [ih c hc]
      refine forM_congr fun n _ => ?_
      rw [at?, hfound]
      rfl

theorem sameScalar_iff_alike {v : Json} (hv : v.isContainer = false) (w : Json) :
    sameScalar v w = true ↔ Alike v w := by
  cases v with
  | object _ | array _ => simp [isContainer] at hv
  | null =>
    cases w with
    | null => exact ⟨fun _ => .null, fun _ => rfl⟩
    | bool _ | number _ | string _ | array _ | object _ => exact ⟨nofun, nofun⟩
  | bool b =>
    cases w with
    | bool c => exact ⟨fun h => beq_iff_eq.1 h ▸ .bool b, fun h => by cases h; exact beq_self_eq_true b⟩
    | null | number _ | string _ | array _ | object _ => exact ⟨nofun, nofun⟩
  | number m =>
    cases w with
    | number n =>
      refine (Number.same_iff_value_eq m n).trans ⟨.number, fun h => ?_⟩
      cases h with
      | number h => exact h
    | null | bool _ | string _ | array _ | object _ => exact ⟨nofun, nofun⟩
  | string s =>
    cases w with
    | string t => exact ⟨fun h => beq_iff_eq.1 h ▸ .string s, fun h => by cases h; exact beq_self_eq_true s⟩
    | null | bool _ | number _ | array _ | object _ => exact ⟨nofun, nofun⟩

theorem judge_scalar (here : Path) {v : Json} (hv : v.isContainer = false) (w : Json) :
    judge here v (some w) = if sameScalar v w then .ok () else .error (.values here v w) := by
  cases v with
  | object _ | array _ => simp [isContainer] at hv
  | null | bool _ | number _ | string _ => simp only [judge]

theorem judge_some_eq_ok_iff (here : Path) (v w : Json) :
    judge here v (some w) = .ok () ↔ Alike v w := by
  cases v with
  | object members =>
    cases w with
    | object found => exact ⟨fun _ => .object members found, fun _ => rfl⟩
    | null | bool _ | number _ | string _ | array _ => exact ⟨nofun, nofun⟩
  | array items =>
    cases w with
    | array found => exact ⟨fun _ => .array items found, fun _ => rfl⟩
    | null | bool _ | number _ | string _ | object _ => exact ⟨nofun, nofun⟩
  | null | bool _ | number _ | string _ =>
    rw [← sameScalar_iff_alike rfl, judge_scalar here rfl]
    split <;> simp [*]

theorem judge_eq_ok_iff (here : Path) (v : Json) (found : Option Json) :
    judge here v found = .ok () ↔ ∃ w, found = some w ∧ Alike v w := by
  cases found with
  | none => exact ⟨nofun, nofun⟩
  | some w =>
    rw [judge_some_eq_ok_iff]
    constructor
    · exact fun h => ⟨w, rfl, h⟩
    · rintro ⟨w', heq, h⟩
      exact Option.some.inj heq ▸ h

theorem compareAt_eq_ok_iff (here : Path) {e : Json} (he : e.Distinct) (o : Json) :
    compareAt here e o = .ok () ↔ ContainedIn e o := by
  rw [compareAt_eq_nodes, forM_eq_ok_iff, containedIn_iff_at?]
  constructor
  · intro h l v hv
    exact (judge_eq_ok_iff _ _ _).1 (h (l, v) (mem_nodes_of_at? hv))
  · intro h n hn
    exact (judge_eq_ok_iff _ _ _).2 (h n.1 n.2 (at?_of_mem_nodes he hn))

end Comparison

theorem compare_eq_ok_iff_containedIn {e : Json} (he : e.Distinct) (o : Json) :
    Comparison.compare e o = .ok () ↔ ContainedIn e o :=
  Comparison.compareAt_eq_ok_iff .root he o

/-- Members in another order, more of them, more elements, and a double for an integer. -/
theorem containedIn_rearranged :
    let e : Json := .object [("n", .number (.natural (2 ^ 53) (by decide))),
      ("items", .array [.null, .object [("k", .bool true)]])]
    let o : Json := .object [("items", .array [.null, .object [("", .null), ("k", .bool true)], .null]),
      ("n", .number (.double ⟨false, ⟨2 ^ 52, 1075, by decide⟩⟩))]
    e.Distinct ∧ ContainedIn e o := by
  intro e o
  have hinner : Distinct (.object [("k", .bool true)]) := .object (by decide) (by simp [Distinct.bool])
  have he : e.Distinct :=
    .object (by decide) (by simp [Distinct.number, Distinct.array, Distinct.null, hinner])
  exact ⟨he, (compare_eq_ok_iff_containedIn he o).1 (eq_ok_of_toBool (by decide +kernel))⟩

end Conformance
