import Conformance.Proofs.Containment
set_option autoImplicit false

/-!
# Comparing further down

Paths are put behind each other by their texts, with the root as the path that adds nothing. A comparison
at a path is the comparison at the root with that path in front of what it reports. The path of every
node that is looked at is the join of its steps. It has a text unless it is the root, though the text of one
member is the name that the root is shown by.
-/
namespace Conformance

namespace Path

def append (outer inner : Path) : Path :=
  if inner.text = "" then outer
  else if outer.text = "" then inner
  else ⟨outer.text ++ "." ++ inner.text⟩

@[simp] theorem append_root (outer : Path) : outer.append root = outer := rfl

theorem root_append (inner : Path) : root.append inner = inner := by
  rw [append]
  split
  · next h => exact congrArg Path.mk h.symm
  · exact if_pos rfl

theorem extend_of_empty {place : Path} (h : place.text = "") (s : Step) : place.extend s = ⟨s.render⟩ := by
  rw [extend, child, if_pos (String.isEmpty_iff.2 h)]

theorem extend_of_ne_empty {place : Path} (h : place.text ≠ "") (s : Step) :
    place.extend s = ⟨place.text ++ "." ++ s.render⟩ :=
  congrArg Path.mk (extend_text_of_ne_empty h s)

theorem append_of_ne_empty {outer inner : Path} (houter : outer.text ≠ "") (hinner : inner.text ≠ "") :
    outer.append inner = ⟨outer.text ++ "." ++ inner.text⟩ := by
  rw [append, if_neg hinner, if_neg houter]

theorem append_of_outer_empty {outer inner : Path} (h : outer.text = "") : outer.append inner = inner := by
  have hroot : outer = root := congrArg Path.mk h
  rw [hroot, root_append]

theorem append_of_inner_empty {outer inner : Path} (h : inner.text = "") : outer.append inner = outer := by
  rw [append, if_pos h]

/-- No step is shown as an empty text, so that a path is the root only before its first step. -/
theorem append_extend (outer inner : Path) (s : Step) :
    outer.append (inner.extend s) = (outer.append inner).extend s := by
  by_cases houter : outer.text = ""
  · rw [append_of_outer_empty houter, append_of_outer_empty houter]
  · rw [append_of_ne_empty houter (extend_text_ne_empty inner s)]
    by_cases hinner : inner.text = ""
    · rw [append_of_inner_empty hinner, extend_of_empty hinner, extend_of_ne_empty houter]
    · have hboth : (outer.append inner).text ≠ "" := by
        rw [append_of_ne_empty houter hinner]
        simp
      rw [extend_of_ne_empty hboth, extend_of_ne_empty hinner, append_of_ne_empty houter hinner]
      simp only [String.append_assoc]

theorem append_descend (outer inner : Path) (l : Location) :
    outer.append (inner.descend l) = (outer.append inner).descend l := by
  induction l generalizing inner with
  | nil => rfl
  | cons s rest ih =>
    change outer.append ((inner.extend s).descend rest) = ((outer.append inner).extend s).descend rest
    rw [ih, append_extend]

theorem descend_append (place : Path) (k l : Location) : place.descend (k ++ l) = (place.descend k).descend l :=
  List.foldl_append

end Path

namespace Mismatch

def below (outer : Path) : Mismatch → Mismatch
  | missing place => missing (outer.append place)
  | kinds place expected found => kinds (outer.append place) expected found
  | values place expected found => values (outer.append place) expected found

end Mismatch

namespace Comparison

theorem judge_append (outer inner : Path) (v : Json) (found : Option Json) :
    judge (outer.append inner) v found = (judge inner v found).mapError (Mismatch.below outer) := by
  cases found with
  | none => rfl
  | some w =>
    cases v with
    | object members => cases w <;> rfl
    | array items => cases w <;> rfl
    | null | bool _ | number _ | string _ =>
      rw [judge_scalar _ rfl, judge_scalar _ rfl]
      split <;> rfl

theorem compareAt_append (outer inner : Path) (e o : Json) :
    compareAt (outer.append inner) e o = (compareAt inner e o).mapError (Mismatch.below outer) := by
  rw [compareAt_eq_nodes, compareAt_eq_nodes, ← forM_mapError]
  refine forM_congr fun n _ => ?_
  rw [← Path.append_descend, judge_append]

theorem compareAt_eq_below (place : Path) (e o : Json) :
    compareAt place e o = (compareAt .root e o).mapError (Mismatch.below place) := by
  have h := compareAt_append place .root e o
  rwa [Path.append_root] at h

/-- A comparison at a location is the one at the root with the location's path in front of what it reports, and
the paths that it builds on its way are the joins of their steps, of which only the root's is empty. Two of them are
shown as the root: its own, and that of a member by its name. -/
theorem compareAt_descend (l : Location) (e o : Json) :
    let place := Path.root.descend l
    (compareAt place e o = .ok () ↔ compareAt .root e o = .ok ()) ∧
    (∀ m, compareAt place e o = .error m ↔
      ∃ inner, compareAt .root e o = .error inner ∧ inner.below place = m) ∧
    compareAt place e o = (e.nodes.forM fun n => judge (place.descend n.1) n.2 (o.at? n.1)) ∧
    ∀ n ∈ e.nodes,
      let built := place.descend n.1
      built.text = Path.joined (l ++ n.1) ∧ (∀ s ∈ l ++ n.1, s.render ≠ "") ∧
        (built.text = "" ↔ l ++ n.1 = []) ∧
        (built.render = Path.root.render ↔ l ++ n.1 = [] ∨ l ++ n.1 = [.key "(root)"]) := by
  intro place
  refine ⟨?_, fun m => ?_, compareAt_eq_nodes place e o, fun n _ => ?_⟩
  · rw [compareAt_eq_below, mapError_eq_ok_iff]
  · rw [compareAt_eq_below, mapError_eq_error_iff]
  · have hbuilt : place.descend n.1 = Path.root.descend (l ++ n.1) := (Path.descend_append _ _ _).symm
    dsimp only
    rw [hbuilt]
    exact ⟨Path.root_descend_text _, fun s _ => s.render_ne_empty, Path.root_descend_text_eq_empty_iff _,
      Path.root_descend_render_eq_root_iff _⟩

/-- What is reported of a member by the root's name reads like a report on the whole document. -/
theorem member_shown_as_root :
    let e : Json := .object [("(root)", .object [])]
    let o : Json := .object [("(root)", .array [])]
    let place := Path.root.extend (.key "(root)")
    compare e o = .error (.kinds place .object .array) ∧ place.text ≠ "" ∧ place.render = Path.root.render ∧
      (Mismatch.kinds place .object .array).message = (Mismatch.kinds .root .object .array).message ∧
      compare (.object []) (.array []) = .error (.kinds .root .object .array) := by
  refine ⟨rfl, by decide, by decide, ?_, rfl⟩
  decide

end Comparison
end Conformance
