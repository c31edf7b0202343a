import Conformance.Proofs.Run
set_option autoImplicit false

/-!
# Counting fixtures

The loop of a run is followed from turn to turn. Whatever the stages answer and wherever the output stops
taking lines, the fixtures that have been counted are those that have been taken, so that what counts as
skipped in the end is what is left of the list. Nothing is left unless the last fixture failed.
-/
namespace Conformance.Suite

variable {σ : Type}

/-! ## One turn -/

section Turn

variable (stages : Stages σ) (settings : Settings) (path : String) (p : Progress σ)

def Progress.event : Event := (path, (check stages path p.world).1)

def Progress.sent : Sink × Bool :=
  p.out.write (Utf8.ofString (lines settings path (p.event stages path).2))

def Progress.turned : Progress σ :=
  { p.count (p.event stages path).2 with
    world := (check stages path p.world).2
    out := (p.sent stages settings path).1 }

def Progress.goesOn : Bool :=
  (p.sent stages settings path).2 && !ends settings (p.event stages path).2

theorem process_turn (rest : List String) :
    process stages settings (path :: rest) p =
      if p.goesOn stages settings path then process stages settings rest (p.turned stages settings path)
      else (p.turned stages settings path, (p.sent stages settings path).2) := by
  change (if (p.sent stages settings path).2 = false then (_, false)
    else if ends settings (p.event stages path).2 then (_, true) else _) = _
  unfold Progress.goesOn
  cases (p.sent stages settings path).2 with
  | false => rfl
  | true =>
    cases ends settings (p.event stages path).2 with
    | false => rfl
    | true => rfl

theorem turned_passed :
    (p.turned stages settings path).passed = p.passed + passes [p.event stages path] := by
  unfold Progress.turned
  cases h : (p.event stages path).2 with
  | ok u => simp [Progress.count, passes, h, Except.isOk, Except.toBool]
  | error failure => simp [Progress.count, passes, h, Except.isOk, Except.toBool]

theorem turned_failed :
    (p.turned stages settings path).failed = p.failed + failures [p.event stages path] := by
  unfold Progress.turned
  cases h : (p.event stages path).2 with
  | ok u => simp [Progress.count, failures, h, Except.isOk, Except.toBool]
  | error failure => simp [Progress.count, failures, h, Except.isOk, Except.toBool]

end Turn

theorem failures_pos_of_getLast? {done : List Event} {path : String} {failure : Failure}
    (h : done.getLast? = some (path, .error failure)) : 0 < failures done := by
  unfold failures
  rw [List.countP_pos_iff]
  exact ⟨_, List.mem_of_getLast? h, rfl⟩

/-! ## Turn after turn -/

/-- Where the loop can be: the events so far, the paths left, the progress, and whether it goes on from
there. -/
inductive Iteration (stages : Stages σ) (settings : Settings) (paths : List String) (first : Progress σ) :
    List Event → List String → Progress σ → Bool → Prop where
  | start : Iteration stages settings paths first [] paths first true
  | turn {done : List Event} {path : String} {left : List String} {p : Progress σ}
      (before : Iteration stages settings paths first done (path :: left) p true) :
      Iteration stages settings paths first (done ++ [p.event stages path]) left
        (p.turned stages settings path) (p.goesOn stages settings path)

namespace Iteration

variable {stages : Stages σ} {settings : Settings} {paths left : List String} {first p : Progress σ}
  {done : List Event} {on : Bool}

theorem taken (h : Iteration stages settings paths first done left p on) :
    done.map (·.1) ++ left = paths := by
  induction h with
  | start => rfl
  | turn _ ih =>
    rw [List.map_append, List.append_assoc]
    exact ih

theorem passed (h : Iteration stages settings paths first done left p on) :
    p.passed = first.passed + passes done := by
  induction h with
  | start => rfl
  | turn _ ih => rw [turned_passed, passes_append, ih, Nat.add_assoc]

theorem failed (h : Iteration stages settings paths first done left p on) :
    p.failed = first.failed + failures done := by
  induction h with
  | start => rfl
  | turn _ ih => rw [turned_failed, failures_append, ih, Nat.add_assoc]

theorem counted {s : σ} {out : Sink} (h : Iteration stages settings paths ⟨0, 0, s, out⟩ done left p on) :
    p.passed + p.failed = done.length ∧ done.length + left.length = paths.length ∧
      p.failed = failures done := by
  have hsum := passes_add_failures done
  have hlength := congrArg List.length h.taken
  rw [List.length_append, List.length_map] at hlength
  have hpassed : p.passed = 0 + passes done := h.passed
  have hfailed : p.failed = 0 + failures done := h.failed
  omega

/-- A run that ends at its first failure has none while it goes on. -/
theorem failures_failFast (h : Iteration stages settings paths first done left p on)
    (hfast : settings.keepGoing = false) : failures done ≤ 1 ∧ (on = true → failures done = 0) := by
  induction h with
  | start => exact ⟨Nat.zero_le 1, fun _ => rfl⟩
  | @turn done path left p before ih =>
    have hnone := ih.2 rfl
    have hlast : failures [p.event stages path] ≤ 1 := List.countP_le_length
    rw [failures_append, hnone, Nat.zero_add]
    refine ⟨hlast, fun hon => ?_⟩
    have hgoes := (Bool.and_eq_true_iff.1 hon).2
    cases hverdict : (p.event stages path).2 with
    | ok u => simp [failures, hverdict, Except.isOk, Except.toBool]
    | error failure =>
      rw [hverdict, ends, hfast, Bool.not_false, Bool.or_true] at hgoes
      cases hgoes

/-- The loop is at its turns, and nowhere else. -/
theorem process_eq (h : Iteration stages settings paths first done left p true) :
    process stages settings paths first = process stages settings left p := by
  generalize hon : true = on at h
  induction h with
  | start => rfl
  | @turn done path left p before ih =>
    rw [ih rfl, process_turn, if_pos hon.symm]

/-- The loop comes to an end: at the end of the paths, or behind a fixture that ends it, or where the
output takes no more. -/
theorem exists_last (h : Iteration stages settings paths first done left p true) :
    ∃ done' left' on', Iteration stages settings paths first done' left'
        (process stages settings left p).1 on' ∧
      ((process stages settings left p).2 = true →
        left' = [] ∨ ∃ e ∈ done'.getLast?, ends settings e.2 = true) := by
  induction left generalizing done p with
  | nil => exact ⟨done, [], true, h, fun _ => Or.inl rfl⟩
  | cons path rest ih =>
    rw [process_turn]
    cases hon : p.goesOn stages settings path with
    | true =>
      rw [if_pos rfl]
      exact ih (hon ▸ h.turn)
    | false =>
      rw [if_neg Bool.false_ne_true]
      refine ⟨_, rest, _, h.turn, fun hsent => Or.inr ⟨p.event stages path, by simp, ?_⟩⟩
      rw [Progress.goesOn, show (p.sent stages settings path).2 = true from hsent, Bool.true_and,
        Bool.not_eq_false'] at hon
      exact hon

end Iteration

/-! ## The counts of a run -/

theorem runWith_counts_eq {stages : Stages σ} {settings : Settings} {paths : List String} {s : σ} {out : Sink}
    {c : Counts} (h : (runWith stages settings paths s out).counts = some c) :
    ∃ p, process stages settings paths ⟨0, 0, s, out⟩ = (p, true) ∧
      c = ⟨paths.length, paths.length - p.passed - p.failed, p.passed, p.failed⟩ := by
  cases hprocess : process stages settings paths ⟨0, 0, s, out⟩ with
  | mk p taken =>
    rw [runWith, hprocess] at h
    cases taken with
    | false => cases h
    | true =>
      refine ⟨p, rfl, ?_⟩
      dsimp only at h
      by_cases hverbose : settings.verbose = true
      · rw [if_pos hverbose, Option.ite_none_right_eq_some] at h
        exact (Option.some.inj h.2).symm
      · rw [if_neg hverbose] at h
        exact (Option.some.inj h).symm

/-- What is counted is what was taken, at every turn of the loop and in the counts that a run gives. -/
theorem runWith_counts (stages : Stages σ) (settings : Settings) (paths : List String) (s : σ) (out : Sink) :
    let first : Progress σ := ⟨0, 0, s, out⟩
    let iteration := Iteration stages settings paths first
    (∀ done left p on, iteration done left p on →
      p.passed + p.failed = done.length ∧ done.map (·.1) ++ left = paths ∧
        p.passed + p.failed ≤ paths.length ∧
        (on = true → process stages settings paths first = process stages settings left p)) ∧
    (out.room = none → (runWith stages settings paths s out).counts.isSome = true) ∧
    ∀ c, (runWith stages settings paths s out).counts = some c →
      c.total = paths.length ∧ c.passed + c.failed + c.skipped = c.total ∧
        (settings.keepGoing = false → c.failed ≤ 1) ∧
        (c.allPassed = true ↔ c.passed = c.total ∧ c.skipped = 0) ∧
        ∃ done left p on, iteration done left p on ∧ process stages settings paths first = (p, true) ∧
          c.passed = p.passed ∧ c.failed = p.failed ∧ c.skipped = left.length ∧
          (0 < c.skipped → 1 ≤ c.failed ∧ ∃ path failure, done.getLast? = some (path, .error failure)) := by
  intro first iteration
  refine ⟨?_, ?_, ?_⟩
  · intro done left p on h
    obtain ⟨hsum, hlength, -⟩ := h.counted
    refine ⟨hsum, h.taken, by omega, ?_⟩
    rintro rfl
    exact h.process_eq
  · obtain ⟨room, written⟩ := out
    rintro rfl
    rw [runWith_eq]
    rfl
  · intro c hc
    obtain ⟨p, hprocess, rfl⟩ := runWith_counts_eq hc
    have hstart : iteration [] paths first true := .start
    obtain ⟨done, left, on, h, hend⟩ := hstart.exists_last
    rw [hprocess] at h hend
    change iteration done left p on at h
    obtain ⟨hsum, hlength, hfailed⟩ := h.counted
    have hleft : paths.length - p.passed - p.failed = left.length := by omega
    -- a list of fixtures is left only behind one that ended the run, and such a one has failed
    have hlast : 0 < left.length → ∃ path failure, done.getLast? = some (path, .error failure) := by
      intro hpos
      obtain ⟨⟨path, verdict⟩, hmem, hends⟩ := (hend rfl).resolve_left (List.ne_nil_of_length_pos hpos)
      cases verdict with
      | ok u => cases hends
      | error failure => exact ⟨path, failure, hmem⟩
    have hcount : (∃ path failure, done.getLast? = some (path, .error failure)) → 1 ≤ p.failed := by
      rintro ⟨path, failure, hpath⟩
      exact hfailed ▸ failures_pos_of_getLast? hpath
    refine ⟨rfl, ?_, ?_, ?_, done, left, p, on, h, hprocess, rfl, rfl, hleft, ?_⟩
    · dsimp only
      omega
    · intro hfast
      rw [hfailed]
      exact (h.failures_failFast hfast).1
    · rw [Counts.allPassed, beq_iff_eq]
      dsimp only
      constructor
      · intro hnone
        have hnothing : ¬ 0 < left.length := by
          intro hpos
          have hsome := hcount (hlast hpos)
          omega
        omega
      · omega
    · dsimp only
      intro hskipped
      have hpath := hlast (hleft ▸ hskipped)
      exact ⟨hcount hpath, hpath⟩

end Conformance.Suite
