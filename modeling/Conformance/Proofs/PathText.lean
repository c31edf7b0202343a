import Conformance.Location
import Mathlib.Data.Nat.Notation
set_option autoImplicit false

/-!
# The text of a path

A path is extended by looking at its text alone, which works because no step is shown as an empty text:
what is gathered on the way down to a location is the join of its steps, and only the root has no text.
-/
namespace Conformance

theorem quoted_head (s : String) : (quoted s).toList.head? = some '"' := by
  rw [quoted, String.toList_ofList]
  rfl

theorem quoted_ne_empty (s : String) : quoted s ≠ "" := by
  intro h
  have hhead := quoted_head s
  rw [h] at hhead
  cases hhead

theorem Step.render_ne_empty (s : Step) : s.render ≠ "" := by
  cases s with
  | index n => exact Nat.repr_ne_empty
  | key name =>
    rw [render]
    split
    · exact quoted_ne_empty name
    · next h =>
      rintro rfl
      exact h rfl

theorem Step.isDigit_of_mem_index {n : ℕ} {c : Char} (h : c ∈ (render (.index n)).toList) :
    c.isDigit = true := by
  rw [render, Nat.toString_eq_repr, Nat.toList_repr] at h
  exact Nat.isDigit_of_mem_toDigits (by omega) (by omega) h

/-- Only a member is shown by the root's name. -/
theorem Step.render_eq_rootName_iff (s : Step) : s.render = "(root)" ↔ s = .key "(root)" := by
  constructor
  · intro h
    cases s with
    | index n =>
      have hdigit : '(' ∈ (render (.index n)).toList := by rw [h]; decide
      exact absurd (isDigit_of_mem_index hdigit) (by decide)
    | key name =>
      rw [render] at h
      split at h
      · have hhead := quoted_head name
        rw [h] at hhead
        exact absurd hhead (by decide)
      · rw [h]
  · rintro rfl
    decide

namespace Path

def descend (place : Path) (l : Location) : Path := l.foldl extend place

def joined (l : Location) : String := ".".intercalate (l.map Step.render)

theorem extend_text_of_ne_empty {place : Path} (h : place.text ≠ "") (s : Step) :
    (place.extend s).text = place.text ++ "." ++ s.render := by
  rw [extend, child, if_neg (by simpa using h)]

theorem extend_text_ne_empty (place : Path) (s : Step) : (place.extend s).text ≠ "" := by
  rw [extend, child]
  split
  · exact s.render_ne_empty
  · simp

theorem descend_text_ne_empty {place : Path} (h : place.text ≠ "") (l : Location) :
    (place.descend l).text ≠ "" := by
  induction l generalizing place with
  | nil => exact h
  | cons s rest ih => exact ih (extend_text_ne_empty place s)

theorem descend_text_of_ne_empty {place : Path} (h : place.text ≠ "") (l : Location) :
    (place.descend l).text = ".".intercalate (place.text :: l.map Step.render) := by
  induction l generalizing place with
  | nil => rfl
  | cons s rest ih =>
    change ((place.extend s).descend rest).text = _
    rw [ih (extend_text_ne_empty place s), extend_text_of_ne_empty h]
    rfl

theorem root_descend_text (l : Location) : (root.descend l).text = joined l := by
  cases l with
  | nil => rfl
  | cons s rest => exact descend_text_of_ne_empty s.render_ne_empty rest

theorem root_descend_text_eq_empty_iff (l : Location) : (root.descend l).text = "" ↔ l = [] := by
  cases l with
  | nil => exact ⟨fun _ => rfl, fun _ => rfl⟩
  | cons s rest =>
    exact ⟨fun h => absurd h (descend_text_ne_empty (extend_text_ne_empty root s) rest), nofun⟩

theorem root_descend_render (l : Location) :
    (root.descend l).render = if l = [] then "(root)" else joined l := by
  have hiff := root_descend_text_eq_empty_iff l
  rw [root_descend_text] at hiff
  rw [render, root_descend_text]
  simp only [String.isEmpty_iff, hiff]

theorem joined_eq_rootName_iff (l : Location) : joined l = "(root)" ↔ l = [.key "(root)"] := by
  cases l with
  | nil => exact ⟨fun h => absurd h (by decide), nofun⟩
  | cons s rest =>
    cases rest with
    | nil =>
      have hone : joined [s] = s.render := by simp [joined]
      rw [hone, s.render_eq_rootName_iff, List.singleton_inj]
    | cons t rest =>
      refine ⟨fun h => ?_, nofun⟩
      have hdot : '.' ∈ (joined (s :: t :: rest)).toList := by simp [joined]
      rw [h] at hdot
      exact absurd hdot (by decide)

theorem root_descend_render_eq_root_iff (l : Location) :
    (root.descend l).render = root.render ↔ l = [] ∨ l = [.key "(root)"] := by
  rw [root_descend_render]
  change _ = "(root)" ↔ _
  split
  · next h => simp [h]
  · next h => rw [joined_eq_rootName_iff, or_iff_right h]

end Path
end Conformance
