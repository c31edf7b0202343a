import Conformance.Proofs.Containment
import Mathlib.Logic.Relation
set_option autoImplicit false

/-!
# Containment as an order

Containment is reflexive and transitive, and two documents that contain each other differ only in the
order of members and in how equal numbers are represented. A document from which another is made by
additions, of members anywhere in an object or of elements at the end of an array, is contained in it,
so that additions to the observed document and removals from the expected one keep a comparison passing.
-/
namespace Conformance

namespace Json

/-! ## Members under their keys -/

theorem Members.mem_keys_iff (members : Members) (k : String) :
    k ∈ members.keys ↔ ∃ v, members.get? k = some v := by
  induction members with
  | nil => simp [keys, get?]
  | cons m rest ih =>
    obtain ⟨key, value⟩ := m
    simp only [keys, get?, List.map_cons, List.mem_cons, List.lookup_cons] at ih ⊢
    by_cases hk : k = key
    · simp [hk]
    · simp only [hk, beq_eq_false_iff_ne.2 hk, false_or]
      exact ih

theorem Members.get?_around (before after : Members) (key : String) (v : Json) (k : String) :
    Members.get? (before ++ (key, v) :: after) k =
      (before.get? k).or (if k = key then some v else after.get? k) := by
  simp only [get?, List.lookup_append, List.lookup_cons]
  by_cases hk : k = key
  · simp [hk]
  · simp [hk, beq_eq_false_iff_ne.2 hk]

/-! ## The same document, rearranged -/

/-- The same document but for the order in which members stand, its numbers equal in this sense. -/
inductive Rearranged (same : Number → Number → Prop) : Json → Json → Prop where
  | object {a b : Members} (keys : a.keys.Perm b.keys)
      (values : ∀ k v w, a.get? k = some v → b.get? k = some w → Rearranged same v w) :
      Rearranged same (.object a) (.object b)
  | array {a b : List Json} (length : a.length = b.length)
      (items : ∀ (i : ℕ) v w, a[i]? = some v → b[i]? = some w → Rearranged same v w) :
      Rearranged same (.array a) (.array b)
  | number {m n : Number} (h : same m n) : Rearranged same (.number m) (.number n)
  | string (s : String) : Rearranged same (.string s) (.string s)
  | bool (b : Bool) : Rearranged same (.bool b) (.bool b)
  | null : Rearranged same .null .null

def Number.SameValue (m n : Number) : Prop := m.value = n.value

section Rearranged

variable {same : Number → Number → Prop} {a b : Json}

theorem Rearranged.symm (hsame : ∀ m n, same m n → same n m) (h : Rearranged same a b) :
    Rearranged same b a := by
  induction h with
  | object keys _ ih => exact .object keys.symm fun k w v hw hv => ih k v w hv hw
  | array length _ ih => exact .array length.symm fun i w v hw hv => ih i v w hv hw
  | number h => exact .number (hsame _ _ h)
  | string s => exact .string s
  | bool b => exact .bool b
  | null => exact .null

theorem Rearranged.containedIn (h : Rearranged Number.SameValue a b) : ContainedIn a b := by
  induction h with
  | @object a b keys _ ih =>
    refine .object (fun k v hv => ?_) ih
    have hk : k ∈ a.keys := (a.mem_keys_iff k).2 ⟨v, hv⟩
    exact (b.mem_keys_iff k).1 (keys.mem_iff.1 hk)
  | array length _ ih => exact .array length.le ih
  | number h => exact .number h
  | string s => exact .string s
  | bool b => exact .bool b
  | null => exact .null

end Rearranged

/-! ## The order -/

theorem Alike.trans {a b c : Json} (hab : Alike a b) (hbc : Alike b c) : Alike a c := by
  cases hab with
  | object a b => cases hbc; exact .object _ _
  | array a b => cases hbc; exact .array _ _
  | number hmn =>
    cases hbc with
    | number hnk => exact .number (hmn.trans hnk)
  | string s => exact hbc
  | bool b => exact hbc
  | null => exact hbc

theorem ContainedIn.trans {a b c : Json} (hab : ContainedIn a b) (hbc : ContainedIn b c) :
    ContainedIn a c := by
  rw [containedIn_iff_at?] at hab hbc ⊢
  intro l v hv
  obtain ⟨w, hw, hvw⟩ := hab l v hv
  obtain ⟨x, hx, hwx⟩ := hbc l w hw
  exact ⟨x, hx, hvw.trans hwx⟩

theorem ContainedIn.antisymm {a b : Json} (ha : a.Distinct) (hb : b.Distinct) (hab : ContainedIn a b)
    (hba : ContainedIn b a) : Rearranged Number.SameValue a b := by
  induction hab with
  | @object a b hthere _ ih =>
    cases ha with | object hakeys havalues =>
    cases hb with | object hbkeys hbvalues =>
    cases hba with | object hback hcontained =>
    refine .object ?_ fun k v w hv hw => ?_
    · -- without a repeated key, equal sets of keys are permutations
      refine (List.perm_ext_iff_of_nodup hakeys hbkeys).2 fun k => ?_
      rw [a.mem_keys_iff, b.mem_keys_iff]
      exact ⟨fun ⟨v, hv⟩ => hthere k v hv, fun ⟨w, hw⟩ => hback k w hw⟩
    · exact ih k v w hv hw (havalues _ (mem_of_get? hv)) (hbvalues _ (mem_of_get? hw))
        (hcontained k w v hw hv)
  | @array a b hthere _ ih =>
    cases ha with | array havalues =>
    cases hb with | array hbvalues =>
    cases hba with | array hback hcontained =>
    refine .array (Nat.le_antisymm hthere hback) fun i v w hv hw => ?_
    exact ih i v w hv hw (havalues v (List.mem_of_getElem? hv)) (hbvalues w (List.mem_of_getElem? hw))
      (hcontained i w v hw hv)
  | number h => exact .number h
  | string s => exact .string s
  | bool b => exact .bool b
  | null => exact .null

/-! ## A change inside one child -/

section Inside

variable {R : Json → Json → Prop} {v w : Json}

theorem child?_insideMember (hrefl : ∀ c, R c c) (h : R v w) (before after : Members) (key : String)
    (s : Step) :
    Option.Rel R ((Json.object (before ++ (key, v) :: after)).child? s)
      ((Json.object (before ++ (key, w) :: after)).child? s) := by
  cases s with
  | index i => exact .none
  | key k =>
    rw [child?, child?, Members.get?_around, Members.get?_around]
    cases before.get? k with
    | some c => exact .some (hrefl c)
    | none =>
      rw [Option.none_or, Option.none_or]
      by_cases hk : k = key
      · rw [if_pos hk, if_pos hk]
        exact .some h
      · rw [if_neg hk, if_neg hk]
        cases after.get? k with
        | none => exact .none
        | some c => exact .some (hrefl c)

theorem child?_insideElement (hrefl : ∀ c, R c c) (h : R v w) (before after : List Json) (s : Step) :
    Option.Rel R ((Json.array (before ++ v :: after)).child? s)
      ((Json.array (before ++ w :: after)).child? s) := by
  have hsame : ∀ c : Option Json, Option.Rel R c c := by
    intro c
    cases c with
    | none => exact .none
    | some c => exact .some (hrefl c)
  cases s with
  | key k => exact .none
  | index i =>
    rw [child?, child?, List.getElem?_append, List.getElem?_append]
    split
    · exact hsame _
    · rw [List.getElem?_cons, List.getElem?_cons]
      split
      · exact .some h
      · exact hsame _

theorem Distinct.insideMember (h : v.Distinct → w.Distinct) {before after : Members} {key : String}
    (hv : Distinct (.object (before ++ (key, v) :: after))) :
    Distinct (.object (before ++ (key, w) :: after)) := by
  cases hv with | object hkeys hvalues =>
  refine .object (by simpa [Members.keys] using hkeys) fun m hm => ?_
  rcases List.mem_append.1 hm with hbefore | hinside
  · exact hvalues m (List.mem_append_left _ hbefore)
  · rcases List.mem_cons.1 hinside with rfl | hafter
    · exact h (hvalues (key, v) (by simp))
    · exact hvalues m (by simp [hafter])

theorem Distinct.insideElement (h : v.Distinct → w.Distinct) {before after : List Json}
    (hv : Distinct (.array (before ++ v :: after))) : Distinct (.array (before ++ w :: after)) := by
  cases hv with | array hvalues =>
  refine .array fun x hx => ?_
  rcases List.mem_append.1 hx with hbefore | hinside
  · exact hvalues x (List.mem_append_left _ hbefore)
  · rcases List.mem_cons.1 hinside with rfl | hafter
    · exact h (hvalues v (by simp))
    · exact hvalues x (by simp [hafter])

theorem containedIn_of_rel {e o : Json} (h : Alike e o)
    (hs : ∀ s, Option.Rel ContainedIn (e.child? s) (o.child? s)) : ContainedIn e o := by
  refine containedIn_of_children h fun s c hc => ?_
  have hrel := hs s
  rw [hc] at hrel
  generalize o.child? s = found at hrel
  cases hrel with
  | @some _ d hcd => exact ⟨d, rfl, hcd⟩

end Inside

/-! ## Additions -/

inductive Addition : Json → Json → Prop where
  | member {before after : Members} {key : String} (v : Json)
      (fresh : key ∉ Members.keys (before ++ after)) :
      Addition (.object (before ++ after)) (.object (before ++ (key, v) :: after))
  | element (items : List Json) (v : Json) : Addition (.array items) (.array (items ++ [v]))
  | insideMember {before after : Members} {key : String} {v w : Json} (h : Addition v w) :
      Addition (.object (before ++ (key, v) :: after)) (.object (before ++ (key, w) :: after))
  | insideElement {before after : List Json} {v w : Json} (h : Addition v w) :
      Addition (.array (before ++ v :: after)) (.array (before ++ w :: after))

abbrev Additions : Json → Json → Prop := Relation.ReflTransGen Addition

theorem Addition.containedIn {a b : Json} (h : Addition a b) : ContainedIn a b := by
  induction h with
  | @member before after key v fresh =>
    refine containedIn_of_children (.object _ _) fun s c hs => ⟨c, ?_, .refl c⟩
    cases s with
    | index i => simp [child?] at hs
    | key k =>
      have hk : k ∈ Members.keys (before ++ after) := (Members.mem_keys_iff _ k).2 ⟨c, hs⟩
      have hne : k ≠ key := by
        rintro rfl
        exact fresh hk
      rw [child?, Members.get?_around, if_neg hne, ← hs]
      exact List.lookup_append.symm
  | element items v =>
    refine containedIn_of_children (.array _ _) fun s c hs => ⟨c, ?_, .refl c⟩
    cases s with
    | key k => simp [child?] at hs
    | index i =>
      obtain ⟨hi, rfl⟩ := List.getElem?_eq_some_iff.1 hs
      simp [child?, List.getElem?_append_left hi]
  | insideMember _ ih =>
    exact containedIn_of_rel (.object _ _) (child?_insideMember ContainedIn.refl ih _ _ _)
  | insideElement _ ih =>
    exact containedIn_of_rel (.array _ _) (child?_insideElement ContainedIn.refl ih _ _)

theorem Additions.containedIn {a b : Json} (h : Additions a b) : ContainedIn a b := by
  induction h with
  | refl => exact .refl a
  | tail _ hstep ih => exact ih.trans hstep.containedIn

theorem Addition.distinct {a b : Json} (h : Addition a b) (hb : b.Distinct) : a.Distinct := by
  induction h with
  | @member before after key v fresh =>
    cases hb with | object hkeys hvalues =>
    have hsub : List.Sublist (before ++ after) (before ++ (key, v) :: after) :=
      (List.sublist_cons_self _ after).append_left before
    exact .object (hkeys.sublist (hsub.map _)) fun m hm => hvalues m (hsub.subset hm)
  | element items v =>
    cases hb with | array hvalues =>
    exact .array fun x hx => hvalues x (List.mem_append_left _ hx)
  | insideMember _ ih => exact hb.insideMember ih
  | insideElement _ ih => exact hb.insideElement ih

theorem Additions.distinct {a b : Json} (h : Additions a b) (hb : b.Distinct) : a.Distinct := by
  induction h with
  | refl => exact hb
  | tail _ hstep ih => exact ih (hstep.distinct hb)

end Json

open Json

/-- Containment orders the documents, up to rearrangement, and additions go up in it. -/
theorem compare_partialOrder {a b : Json} (ha : a.Distinct) (hb : b.Distinct) :
    Comparison.compare a a = .ok () ∧
    (∀ c, Comparison.compare a b = .ok () → Comparison.compare b c = .ok () →
      Comparison.compare a c = .ok ()) ∧
    (Comparison.compare a b = .ok () ∧ Comparison.compare b a = .ok () ↔
      Rearranged Number.SameValue a b) ∧
    (∀ b', Additions b b' → Comparison.compare a b = .ok () → Comparison.compare a b' = .ok ()) ∧
    (∀ a', Additions a' a → Comparison.compare a b = .ok () → Comparison.compare a' b = .ok ()) := by
  have hcompare : ∀ {e : Json}, e.Distinct → ∀ o, Comparison.compare e o = .ok () ↔ ContainedIn e o :=
    fun he o => Comparison.compareAt_eq_ok_iff .root he o
  refine ⟨(hcompare ha a).2 (.refl a), fun c hab hbc => ?_, ⟨?_, fun h => ?_⟩, fun b' hadded hab => ?_,
    fun a' hadded hab => ?_⟩
  · exact (hcompare ha c).2 (((hcompare ha b).1 hab).trans ((hcompare hb c).1 hbc))
  · rintro ⟨hab, hba⟩
    exact ((hcompare ha b).1 hab).antisymm ha hb ((hcompare hb a).1 hba)
  · have hback := h.symm fun _ _ hmn => Eq.symm hmn
    exact ⟨(hcompare ha b).2 h.containedIn, (hcompare hb a).2 hback.containedIn⟩
  · exact (hcompare ha b').2 (((hcompare ha b).1 hab).trans hadded.containedIn)
  · exact (hcompare (hadded.distinct ha) b).2 (hadded.containedIn.trans ((hcompare ha b).1 hab))

/-- Members in another order, a double for an integer and the two zeros. -/
theorem compare_partialOrder_two_zeros :
    let a : Json := .object [("n", .number (.natural 3 (by decide))),
      ("items", .array [.null, .number (.double ⟨true, .zero⟩)])]
    let b : Json := .object [("items", .array [.null, .number (.natural 0 (by decide))]),
      ("n", .number (.double ⟨false, ⟨3 * 2 ^ 51, 1023, by decide⟩⟩))]
    a.Distinct ∧ b.Distinct ∧ Rearranged Number.SameValue a b ∧
      ∀ c, Additions b c → Comparison.compare a c = .ok () := by
  intro a b
  have ha : a.Distinct := .object (by decide) (by simp [Distinct.number, Distinct.array, Distinct.null])
  have hb : b.Distinct := .object (by decide) (by simp [Distinct.number, Distinct.array, Distinct.null])
  have hab : Comparison.compare a b = .ok () := eq_ok_of_toBool (by decide +kernel)
  have hba : Comparison.compare b a = .ok () := eq_ok_of_toBool (by decide +kernel)
  obtain ⟨-, -, hrearranged, hadded, -⟩ := compare_partialOrder ha hb
  exact ⟨ha, hb, hrearranged.1 ⟨hab, hba⟩, fun c hc => hadded c hc hab⟩

end Conformance
