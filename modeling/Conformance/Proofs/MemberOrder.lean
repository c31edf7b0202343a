import Conformance.Proofs.Rearrangement
set_option autoImplicit false

/-!
# The order of members

To permute the members of any objects, at any depth, is to rearrange a document and leave its numbers as
they are. Whether one document is contained in another does not depend on the order in either of them;
which mismatch is reported depends on the order in the expected one alone.
-/
namespace Conformance

namespace Json

inductive Permutation : Json → Json → Prop where
  | members {a b : Members} (h : List.Perm a b) : Permutation (.object a) (.object b)
  | insideMember (before after : Members) (key : String) {v w : Json} (h : Permutation v w) :
      Permutation (.object (before ++ (key, v) :: after)) (.object (before ++ (key, w) :: after))
  | insideElement (before after : List Json) {v w : Json} (h : Permutation v w) :
      Permutation (.array (before ++ v :: after)) (.array (before ++ w :: after))

abbrev Permutations : Json → Json → Prop := Relation.ReflTransGen Permutation

/-! ## Rearranged documents -/

section Rearranged

variable {same same' : Number → Number → Prop} {a b c : Json}

theorem Rearranged.refl (hsame : ∀ n, same n n) (v : Json) : Rearranged same v v := by
  induction v using induction_children with
  | step v ih =>
    have hchild : ∀ s u w, v.child? s = some u → v.child? s = some w → Rearranged same u w := by
      intro s u w hu hw
      obtain rfl := Option.some.inj (hu.symm.trans hw)
      exact ih (s, u) (mem_children_of_child? hu)
    cases v with
    | object members => exact .object (List.Perm.refl _) fun k => hchild (.key k)
    | array items => exact .array rfl fun i => hchild (.index i)
    | number n => exact .number (hsame n)
    | string s => exact .string s
    | bool b => exact .bool b
    | null => exact .null

theorem Rearranged.trans (hsame : ∀ l m n, same l m → same m n → same l n) (hab : Rearranged same a b)
    (hbc : Rearranged same b c) : Rearranged same a c := by
  induction hab generalizing c with
  | @object a b keys _ ih =>
    cases hbc with | @object _ c keys' values' =>
    refine .object (keys.trans keys') fun k u w hu hw => ?_
    have hk : k ∈ a.keys := (a.mem_keys_iff k).2 ⟨u, hu⟩
    obtain ⟨v, hv⟩ := (b.mem_keys_iff k).1 (keys.mem_iff.1 hk)
    exact ih k u v hu hv (values' k v w hv hw)
  | @array a b length _ ih =>
    cases hbc with | @array _ c length' items' =>
    refine .array (length.trans length') fun i u w hu hw => ?_
    have hi : i < b.length := length ▸ (List.getElem?_eq_some_iff.1 hu).1
    have hv : b[i]? = some b[i] := List.getElem?_eq_getElem hi
    exact ih i u b[i] hu hv (items' i b[i] w hv hw)
  | number h =>
    cases hbc with
    | number h' => exact .number (hsame _ _ _ h h')
  | string s => exact hbc
  | bool b => exact hbc
  | null => exact hbc

theorem Rearranged.mono (hsame : ∀ m n, same m n → same' m n) (h : Rearranged same a b) :
    Rearranged same' a b := by
  induction h with
  | object keys _ ih => exact .object keys ih
  | array length _ ih => exact .array length ih
  | number h => exact .number (hsame _ _ h)
  | string s => exact .string s
  | bool b => exact .bool b
  | null => exact .null

end Rearranged

/-! ## Permuted documents -/

section Permutation

variable {a b : Json}

theorem Permutation.distinct (h : Permutation a b) (ha : a.Distinct) : b.Distinct := by
  induction h with
  | members h =>
    cases ha with | object hkeys hvalues =>
    exact .object ((h.map _).nodup_iff.1 hkeys) fun m hm => hvalues m (h.mem_iff.2 hm)
  | insideMember before after key _ ih => exact ha.insideMember ih
  | insideElement before after _ ih => exact ha.insideElement ih

theorem Permutation.rearranged (h : Permutation a b) (ha : a.Distinct) : Rearranged Eq a b := by
  have hrefl : ∀ v : Json, Rearranged Eq v v := Rearranged.refl fun _ => rfl
  induction h with
  | @members a b h =>
    cases ha with | object hkeys _ =>
    have hkeys' : b.keys.Nodup := (h.map _).nodup_iff.1 hkeys
    refine .object (h.map _) fun k v w hv hw => ?_
    have hmoved : b.get? k = some v := get?_of_mem hkeys' (h.mem_iff.1 (mem_of_get? hv))
    obtain rfl := Option.some.inj (hmoved.symm.trans hw)
    exact hrefl v
  | @insideMember before after key v w _ ih =>
    cases ha with | object _ hvalues =>
    have hchild := child?_insideMember hrefl (ih (hvalues (key, v) (by simp))) before after key
    refine .object (by simp [Members.keys]) fun k c d hc hd => ?_
    have hrel := hchild (.key k)
    rw [child?, child?, hc, hd] at hrel
    cases hrel with
    | some hcd => exact hcd
  | @insideElement before after v w _ ih =>
    cases ha with | array hvalues =>
    have hchild := child?_insideElement hrefl (ih (hvalues v (by simp))) before after
    refine .array (by simp) fun i c d hc hd => ?_
    have hrel := hchild (.index i)
    rw [child?, child?, hc, hd] at hrel
    cases hrel with
    | some hcd => exact hcd

theorem Permutations.rearranged (h : Permutations a b) (ha : a.Distinct) :
    b.Distinct ∧ Rearranged Eq a b := by
  induction h with
  | refl => exact ⟨ha, .refl (fun _ => rfl) a⟩
  | tail _ hstep ih =>
    obtain ⟨hdistinct, hrearranged⟩ := ih
    exact ⟨hstep.distinct hdistinct,
      hrearranged.trans (fun _ _ _ h h' => h.trans h') (hstep.rearranged hdistinct)⟩

/-- Containment in both directions, whatever the order of members is. -/
theorem Rearranged.containedIn_both (h : Rearranged Eq a b) : ContainedIn a b ∧ ContainedIn b a := by
  have hvalue : Rearranged Number.SameValue a b := h.mono fun _ _ heq => congrArg Number.value heq
  exact ⟨hvalue.containedIn, (hvalue.symm fun _ _ heq => Eq.symm heq).containedIn⟩

end Permutation

end Json

open Json

/-- The order of members has no say in the verdict, and none in the report but for that of the expected
document. -/
theorem compare_permuted {e e' o o' : Json} (he : e.Distinct) (ho : o.Distinct) (hee' : Permutations e e')
    (hoo' : Permutations o o') :
    (Comparison.compare e' o' = .ok () ↔ Comparison.compare e o = .ok ()) ∧
    SameOutcome Eq (Comparison.compare e o) (Comparison.compare e o') := by
  obtain ⟨he', hexpected⟩ := hee'.rearranged he
  obtain ⟨-, hobserved⟩ := hoo'.rearranged ho
  refine ⟨?_, Comparison.compareAt_rearranged (fun _ _ heq => congrArg Number.value heq) .root e hobserved⟩
  obtain ⟨hto, hback⟩ := hexpected.containedIn_both
  obtain ⟨hto', hback'⟩ := hobserved.containedIn_both
  unfold Comparison.compare
  rw [Comparison.compareAt_eq_ok_iff .root he' o', Comparison.compareAt_eq_ok_iff .root he o]
  exact ⟨fun h => (hto.trans h).trans hback', fun h => (hback.trans h).trans hto'⟩

/-- Both documents are permuted at two depths: the observed one leaves the report as it is but for what
was found, the expected one moves it to another member. -/
theorem compare_permuted_two_depths :
    let one : Json := .number (.natural 1 (by decide))
    let e : Json := .object [("b", one), ("a", .array [.object [("k", .null), ("l", one)]])]
    let e' : Json := .object [("a", .array [.object [("l", one), ("k", .null)]]), ("b", one)]
    let o : Json := .object [("a", .array [.null]), ("b", .object [("p", one), ("q", .null)])]
    let o' : Json := .object [("b", .object [("q", .null), ("p", one)]), ("a", .array [.null])]
    e.Distinct ∧ o.Distinct ∧ Permutations e e' ∧ Permutations o o' ∧
      SameOutcome Eq (Comparison.compare e o) (Comparison.compare e o') ∧
      Comparison.compare e' o' ≠ .ok () ∧
      (∃ found, Comparison.compare e o = .error (.values ⟨"b"⟩ one found)) ∧
      Comparison.compare e' o = .error (.kinds ⟨"a.0"⟩ .object .null) := by
  intro one e e' o o'
  have hone : one.Distinct := .number _
  have hinner : Distinct (.object [("k", .null), ("l", one)]) :=
    .object (by decide) (by simp [Distinct.null, hone])
  have hfound : Distinct (.object [("p", one), ("q", .null)]) :=
    .object (by decide) (by simp [Distinct.null, hone])
  have he : e.Distinct := .object (by decide) (by simp [Distinct.array, hone, hinner])
  have ho : o.Distinct := .object (by decide) (by simp [Distinct.array, Distinct.null, hfound])
  have hee' : Permutations e e' := by
    refine .tail (.single (.insideMember [("b", one)] [] "a"
      (.insideElement [] [] (.members (List.Perm.swap _ _ _))))) ?_
    exact .members (List.Perm.swap _ _ _)
  have hoo' : Permutations o o' := by
    refine .tail (.single (.insideMember [("a", .array [.null])] [] "b"
      (.members (List.Perm.swap _ _ _)))) ?_
    exact .members (List.Perm.swap _ _ _)
  obtain ⟨hverdict, hreport⟩ := compare_permuted he ho hee' hoo'
  have hfails : ∃ found, Comparison.compare e o = .error (.values ⟨"b"⟩ one found) := ⟨_, rfl⟩
  refine ⟨he, ho, hee', hoo', hreport, fun hok => ?_, hfails, rfl⟩
  obtain ⟨found, hfails⟩ := hfails
  rw [hverdict.1 hok] at hfails
  cases hfails

end Conformance
