import Mathlib.Data.List.Basic
set_option autoImplicit false

/-!
# Outcomes that may be errors

Where an outcome is no error, none of its parts is; a loop ends at its first error.
-/
namespace Conformance

variable {α β ε ε' : Type}

section Part

variable {x : Except ε α}

theorem ok_of_map_eq_ok {f : α → β} {b : β} (h : x.map f = .ok b) : ∃ a, x = .ok a ∧ f a = b := by
  cases x with
  | error e => cases h
  | ok a => exact ⟨a, rfl, Except.ok.inj h⟩

theorem ok_of_bind_eq_ok {f : α → Except ε β} {b : β} (h : x >>= f = .ok b) :
    ∃ a, x = .ok a ∧ f a = .ok b := by
  cases x with
  | error e => cases h
  | ok a => exact ⟨a, rfl, h⟩

theorem mapError_eq_ok_iff {f : ε → ε'} {a : α} : x.mapError f = .ok a ↔ x = .ok a := by
  cases x with
  | error e => exact ⟨nofun, nofun⟩
  | ok b => exact ⟨fun h => congrArg _ (Except.ok.inj h), fun h => congrArg _ (Except.ok.inj h)⟩

theorem mapError_eq_error_iff {f : ε → ε'} {e' : ε'} :
    x.mapError f = .error e' ↔ ∃ e, x = .error e ∧ f e = e' := by
  cases x with
  | error e => simp [Except.mapError]
  | ok a => exact ⟨nofun, nofun⟩

theorem exists_of_isOk (h : x.isOk = true) : ∃ a, x = .ok a := by
  cases x with
  | error e => cases h
  | ok a => exact ⟨a, rfl⟩

theorem eq_ok_of_toBool {y : Except ε Unit} (h : y.toBool = true) : y = .ok () := by
  cases y with
  | error e => cases h
  | ok u => rfl

end Part

/-! ## Loops -/

theorem forM_flatMap (xs : List α) (f : α → List β) (g : β → Except ε Unit) :
    (xs.flatMap f).forM g = xs.forM fun a => (f a).forM g := by
  induction xs with
  | nil => rfl
  | cons a rest ih =>
    simp only [List.forM_eq_forM] at ih ⊢
    rw [List.flatMap_cons, List.forM_append, List.forM_cons, ih]

theorem forM_congr {xs : List α} {f g : α → Except ε Unit} (h : ∀ a ∈ xs, f a = g a) :
    xs.forM f = xs.forM g := by
  induction xs with
  | nil => rfl
  | cons a rest ih =>
    have hrest := ih fun b hb => h b (List.mem_cons_of_mem _ hb)
    change (f a >>= fun _ => rest.forM f) = (g a >>= fun _ => rest.forM g)
    rw [h a List.mem_cons_self, hrest]

theorem forM_mapError (xs : List α) (f : α → Except ε Unit) (g : ε → ε') :
    (xs.forM fun a => (f a).mapError g) = (xs.forM f).mapError g := by
  induction xs with
  | nil => rfl
  | cons a rest ih =>
    change ((f a).mapError g >>= fun _ => rest.forM fun a => (f a).mapError g) =
      (f a >>= fun _ => rest.forM f).mapError g
    rw [ih]
    cases f a <;> rfl

theorem forM_eq_ok_iff (xs : List α) (f : α → Except ε Unit) :
    xs.forM f = .ok () ↔ ∀ a ∈ xs, f a = .ok () := by
  induction xs with
  | nil => simp [pure, Except.pure]
  | cons a rest ih =>
    change (f a >>= fun _ => rest.forM f) = .ok () ↔ _
    rw [List.forall_mem_cons, ← ih]
    cases f a with
    | error e => simp [bind, Except.bind]
    | ok u => simp [bind, Except.bind]

theorem forM_eq_error {xs : List α} {f : α → Except ε Unit} {e : ε} (h : xs.forM f = .error e) :
    ∃ before a after, xs = before ++ a :: after ∧ (∀ b ∈ before, f b = .ok ()) ∧ f a = .error e := by
  induction xs with
  | nil => cases h
  | cons a rest ih =>
    change (f a >>= fun _ => rest.forM f) = .error e at h
    cases ha : f a with
    | error e' =>
      rw [ha] at h
      exact ⟨[], a, rest, rfl, by simp, ha.trans h⟩
    | ok u =>
      rw [ha] at h
      obtain ⟨before, b, after, rfl, hbefore, hb⟩ := ih h
      exact ⟨a :: before, b, after, rfl, List.forall_mem_cons.2 ⟨ha, hbefore⟩, hb⟩

end Conformance
