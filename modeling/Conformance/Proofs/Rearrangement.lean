import Conformance.Proofs.Enrichment
set_option autoImplicit false

/-!
# Observed documents in another order

Where the members of an observed document stand has no say in what a comparison reports: the same
variant at the same path, with the same kinds and the same expected value. Only what was found is
reported as it stood, so that it may differ in the order of its members.
-/
namespace Conformance

open Json

/-- The same outcome, but for the order of members in what was found. -/
inductive SameOutcome (same : Number → Number → Prop) :
    Except Mismatch Unit → Except Mismatch Unit → Prop where
  | contained : SameOutcome same (.ok ()) (.ok ())
  | missing (place : Path) : SameOutcome same (.error (.missing place)) (.error (.missing place))
  | kinds (place : Path) (expected found : Kind) :
      SameOutcome same (.error (.kinds place expected found)) (.error (.kinds place expected found))
  | values (place : Path) (expected : Json) {found found' : Json} (h : Rearranged same found found') :
      SameOutcome same (.error (.values place expected found)) (.error (.values place expected found'))

section SameOutcome

variable {same : Number → Number → Prop}

/-- What comes next is asked only where both outcomes are fine. -/
theorem SameOutcome.bind {x y f g : Except Mismatch Unit} (hfirst : SameOutcome same x y)
    (hnext : SameOutcome same f g) : SameOutcome same (x >>= fun _ => f) (y >>= fun _ => g) := by
  cases hfirst with
  | contained => exact hnext
  | missing place => exact .missing place
  | kinds place expected found => exact .kinds place expected found
  | values place expected hfound => exact .values place expected hfound

theorem sameOutcome_forM {α : Type} {xs : List α} {f g : α → Except Mismatch Unit}
    (h : ∀ a ∈ xs, SameOutcome same (f a) (g a)) : SameOutcome same (xs.forM f) (xs.forM g) := by
  induction xs with
  | nil => exact .contained
  | cons a rest ih =>
    obtain ⟨hfirst, hrest⟩ := List.forall_mem_cons.1 h
    exact hfirst.bind (ih hrest)

end SameOutcome

/-! ## Rearranged documents, node by node -/

namespace Json.Rearranged

variable {same : Number → Number → Prop} {o o' : Json}

theorem child? (h : Rearranged same o o') (s : Step) :
    Option.Rel (Rearranged same) (o.child? s) (o'.child? s) := by
  cases h with
  | @object a b keys values =>
    cases s with
    | index i => exact .none
    | key k =>
      change Option.Rel _ (a.get? k) (b.get? k)
      have hthere := keys.mem_iff (a := k)
      rw [Members.mem_keys_iff, Members.mem_keys_iff] at hthere
      cases ha : a.get? k with
      | some v =>
        obtain ⟨w, hb⟩ := hthere.1 ⟨v, ha⟩
        rw [hb]
        exact .some (values k v w ha hb)
      | none =>
        cases hb : b.get? k with
        | none => exact .none
        | some w =>
          obtain ⟨v, hv⟩ := hthere.2 ⟨w, hb⟩
          rw [ha] at hv
          cases hv
  | @array a b length items =>
    cases s with
    | key k => exact .none
    | index i =>
      change Option.Rel _ a[i]? b[i]?
      by_cases hi : i < a.length
      · have hi' : i < b.length := length ▸ hi
        rw [List.getElem?_eq_getElem hi, List.getElem?_eq_getElem hi']
        exact .some (items i _ _ (List.getElem?_eq_getElem hi) (List.getElem?_eq_getElem hi'))
      · rw [List.getElem?_eq_none (by omega), List.getElem?_eq_none (by omega)]
        exact .none
  | number _ | string _ | bool _ | null => exact .none

theorem at? (h : Rearranged same o o') (l : Location) :
    Option.Rel (Rearranged same) (o.at? l) (o'.at? l) := by
  induction l generalizing o o' with
  | nil => exact .some h
  | cons s rest ih =>
    have hstep := h.child? s
    rw [Json.at?, Json.at?]
    generalize o.child? s = c at hstep
    generalize o'.child? s = c' at hstep
    cases hstep with
    | none => exact .none
    | some hchild => exact ih hchild

variable (hsame : ∀ m n, same m n → Number.SameValue m n)
include hsame

theorem alike (h : Rearranged same o o') : Alike o o' := by
  cases h with
  | object _ _ => exact .object _ _
  | array _ _ => exact .array _ _
  | number h => exact .number (hsame _ _ h)
  | string s => exact .string s
  | bool b => exact .bool b
  | null => exact .null

end Json.Rearranged

namespace Comparison

variable {same : Number → Number → Prop} (hsame : ∀ m n, same m n → Number.SameValue m n) {o o' : Json}

theorem alike_of_kind_eq {v w : Json} (hv : v.isContainer = true) (h : w.kind = v.kind) : Alike v w := by
  cases v with
  | object members =>
    cases w with
    | object found => exact .object members found
    | null | bool _ | number _ | string _ | array _ => cases h
  | array items =>
    cases w with
    | array found => exact .array items found
    | null | bool _ | number _ | string _ | object _ => cases h
  | null | bool _ | number _ | string _ => cases hv

include hsame

theorem judge_rearranged (here : Path) (v : Json) {found found' : Option Json}
    (h : Option.Rel (Rearranged same) found found') :
    SameOutcome same (judge here v found) (judge here v found') := by
  cases h with
  | none => exact .missing here
  | @some o o' h =>
    have halike := h.alike hsame
    by_cases hmatch : Alike v o
    · rw [(judge_some_eq_ok_iff here v o).2 hmatch,
        (judge_some_eq_ok_iff here v o').2 (hmatch.trans halike)]
      exact .contained
    · have hmatch' : ¬ Alike v o' := fun hv => hmatch (hv.trans halike.symm)
      cases hv : v.isContainer with
      | false =>
        rw [judge_of_not_alike here hv hmatch, judge_of_not_alike here hv hmatch']
        exact .values here v h
      | true =>
        have hkind : o.kind ≠ v.kind := fun hk => hmatch (alike_of_kind_eq hv hk)
        have hkind' : o'.kind = o.kind := kind_eq_of_alike halike
        rw [judge_of_kind_ne here hv hkind, judge_of_kind_ne here hv (hkind' ▸ hkind), hkind']
        exact .kinds here v.kind o.kind

theorem compareAt_rearranged (here : Path) (e : Json) (h : Rearranged same o o') :
    SameOutcome same (compareAt here e o) (compareAt here e o') := by
  rw [compareAt_eq_nodes, compareAt_eq_nodes]
  exact sameOutcome_forM fun n _ => judge_rearranged hsame _ _ (h.at? n.1)

end Comparison
end Conformance
