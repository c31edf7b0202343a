import Conformance.Proofs.Outcome
import Conformance.Suite
import Mathlib.Tactic.Common
set_option autoImplicit false

/-!
# What a run amounts to

A run with an output that takes everything is a matter of its events, the verdicts on the fixtures in
their order up to the first that ends it. The counts, the text and the state that is left follow from
them.
-/
namespace Conformance.Suite

variable {σ : Type}

/-! ## One fixture -/

section Check

variable {stages : Stages σ} {path : String} {s left behind : σ} {fixture : Fixture}

theorem check_unloaded {e : FixtureError} (h : stages.load path s = (.error e, left)) :
    check stages path s = (.error (.fixture e), left) := by
  rw [check, h]

theorem check_undecoded {e : DecodeError} (hload : stages.load path s = (.ok fixture, left))
    (hdecode : stages.decode fixture.payload left = (.error e, behind)) :
    check stages path s = (.error (.decoding e), behind) := by
  rw [check, hload]
  dsimp only
  rw [hdecode]

theorem check_compared {v : Json} (hload : stages.load path s = (.ok fixture, left))
    (hdecode : stages.decode fixture.payload left = (.ok v, behind)) :
    check stages path s =
      ((stages.compare fixture.expected v behind).1.mapError .mismatch,
        (stages.compare fixture.expected v behind).2) := by
  rw [check, hload]
  dsimp only
  rw [hdecode]

theorem check_cases (stages : Stages σ) (path : String) (s : σ) :
    (∃ e left, stages.load path s = (.error e, left)) ∨
    (∃ fixture left e behind, stages.load path s = (.ok fixture, left) ∧
      stages.decode fixture.payload left = (.error e, behind)) ∨
    (∃ fixture left v behind, stages.load path s = (.ok fixture, left) ∧
      stages.decode fixture.payload left = (.ok v, behind)) := by
  obtain ⟨loaded, left⟩ := stages.load path s
  cases loaded with
  | error e => exact Or.inl ⟨e, left, rfl⟩
  | ok fixture =>
    cases hdecode : stages.decode fixture.payload left with
    | mk answer behind =>
      cases answer with
      | error e => exact Or.inr (Or.inl ⟨fixture, left, e, behind, rfl, hdecode⟩)
      | ok v => exact Or.inr (Or.inr ⟨fixture, left, v, behind, rfl, hdecode⟩)

end Check

def judged (fixture : Fixture) : Except DecodeError Json → Except Failure Unit
  | .error e => .error (.decoding e)
  | .ok v => (Comparison.compare fixture.expected v).mapError .mismatch

theorem judged_eq_error {fixture : Fixture} {answer : Except DecodeError Json} {failure : Failure}
    (h : judged fixture answer = .error failure) :
    (∃ e, answer = .error e ∧ failure = .decoding e) ∨
    (∃ v m, answer = .ok v ∧ Comparison.compare fixture.expected v = .error m ∧ failure = .mismatch m) := by
  cases answer with
  | error e => exact Or.inl ⟨e, rfl, (Except.error.inj h).symm⟩
  | ok v =>
    obtain ⟨m, hcompare, rfl⟩ := mapError_eq_error_iff.1 h
    exact Or.inr ⟨v, m, rfl, hcompare, rfl⟩

theorem check_loaded {load : Loader σ} {decode : Decoder σ} {path : String} {s left : σ} {fixture : Fixture}
    (h : load path s = (.ok fixture, left)) :
    check (stagesOf load decode) path s =
      (judged fixture (decode fixture.payload left).1, (decode fixture.payload left).2) := by
  have hload : (stagesOf load decode).load path s = (.ok fixture, left) := h
  cases hdecode : decode fixture.payload left with
  | mk answer behind =>
    cases answer with
    | error e => exact check_undecoded hload hdecode
    | ok v => exact check_compared hload hdecode

/-- Where a failure comes from. -/
theorem check_eq_error {load : Loader σ} {decode : Decoder σ} {path : String} {s : σ} {failure : Failure}
    (h : (check (stagesOf load decode) path s).1 = .error failure) :
    (∃ e, (load path s).1 = .error e ∧ failure = .fixture e) ∨
    ∃ fixture left, load path s = (.ok fixture, left) ∧
      judged fixture (decode fixture.payload left).1 = .error failure := by
  cases hload : load path s with
  | mk loaded left =>
    cases loaded with
    | error e =>
      have hcheck : check (stagesOf load decode) path s = (.error (.fixture e), left) := check_unloaded hload
      rw [hcheck] at h
      exact Or.inl ⟨e, rfl, (Except.error.inj h).symm⟩
    | ok fixture =>
      rw [check_loaded hload] at h
      exact Or.inr ⟨fixture, left, rfl, h⟩

theorem check_eq_ok_iff (load : Loader σ) (decode : Decoder σ) (path : String) (s : σ) :
    (check (stagesOf load decode) path s).1 = .ok () ↔
      ∃ fixture v, (load path s).1 = .ok fixture ∧ (decode fixture.payload (load path s).2).1 = .ok v ∧
        Comparison.compare fixture.expected v = .ok () := by
  rcases check_cases (stagesOf load decode) path s with ⟨e, left, hload⟩ |
    ⟨fixture, left, e, behind, hload, hdecode⟩ | ⟨fixture, left, v, behind, hload, hdecode⟩
  · rw [check_unloaded hload, show load path s = _ from hload]
    exact ⟨nofun, fun ⟨_, _, h, _⟩ => nomatch h⟩
  · rw [check_undecoded hload hdecode, show load path s = _ from hload]
    refine ⟨nofun, ?_⟩
    rintro ⟨f, v, hf, hv, -⟩
    obtain rfl := Except.ok.inj hf
    rw [show decode fixture.payload left = _ from hdecode] at hv
    cases hv
  · rw [check_compared hload hdecode, show load path s = _ from hload]
    constructor
    · intro h
      exact ⟨fixture, v, rfl, congrArg Prod.fst hdecode, mapError_eq_ok_iff.1 h⟩
    · rintro ⟨f, w, hf, hw, h⟩
      obtain rfl := Except.ok.inj hf
      rw [show decode fixture.payload left = _ from hdecode] at hw
      obtain rfl := Except.ok.inj hw
      exact mapError_eq_ok_iff.2 h

/-! ## Events -/

abbrev Event := String × Except Failure Unit

/-- The events as they would be if none ended the run. -/
def events (stages : Stages σ) : List String → σ → List Event
  | [], _ => []
  | path :: rest, s => (path, (check stages path s).1) :: events stages rest (check stages path s).2

def stateBehind (stages : Stages σ) (paths : List String) (s : σ) : σ :=
  paths.foldl (fun s path => (check stages path s).2) s

def ran (stages : Stages σ) (settings : Settings) (paths : List String) (s : σ) : List Event :=
  let all := events stages paths s
  all.take (all.findIdx (fun e => ends settings e.2) + 1)

/-- A failure that is not fatal does not end a run that keeps going. -/
theorem ends_of_mild {settings : Settings} {verdict : Except Failure Unit} (hgoes : settings.keepGoing = true)
    (hmild : ∀ failure, verdict = .error failure → failure.isFatal = false) :
    ends settings verdict = false := by
  cases verdict with
  | ok u => rfl
  | error failure =>
    rw [ends, hmild failure rfl, hgoes]
    rfl

def passes (events : List Event) : ℕ := events.countP fun e => e.2.isOk

def failures (events : List Event) : ℕ := events.countP fun e => !e.2.isOk

def text (settings : Settings) (events : List Event) : Bytes :=
  events.flatMap fun e => Utf8.ofString (lines settings e.1 e.2)

section Events

variable (stages : Stages σ) (settings : Settings) (paths : List String) (s : σ)

theorem events_paths : (events stages paths s).map (·.1) = paths := by
  induction paths generalizing s with
  | nil => rfl
  | cons path rest ih => rw [events, List.map_cons, ih]

theorem mem_events {stages : Stages σ} {paths : List String} {s : σ} {e : Event} (h : e ∈ events stages paths s) :
    e.1 ∈ paths ∧ ∃ t, e.2 = (check stages e.1 t).1 := by
  induction paths generalizing s with
  | nil => cases h
  | cons path rest ih =>
    rw [events, List.mem_cons] at h
    rcases h with rfl | hrest
    · exact ⟨List.mem_cons_self, s, rfl⟩
    · obtain ⟨hpath, hcheck⟩ := ih hrest
      exact ⟨List.mem_cons_of_mem _ hpath, hcheck⟩

theorem events_take (n : ℕ) : events stages (paths.take n) s = (events stages paths s).take n := by
  induction paths generalizing s n with
  | nil => rw [List.take_nil, events, List.take_nil]
  | cons path rest ih =>
    cases n with
    | zero => rfl
    | succ n => rw [List.take_succ_cons, events, events, List.take_succ_cons, ih]

theorem stateBehind_append (xs ys : List String) :
    stateBehind stages (xs ++ ys) s = stateBehind stages ys (stateBehind stages xs s) :=
  List.foldl_append

theorem events_append (xs ys : List String) :
    events stages (xs ++ ys) s = events stages xs s ++ events stages ys (stateBehind stages xs s) := by
  induction xs generalizing s with
  | nil => rfl
  | cons path rest ih =>
    rw [List.cons_append, events, ih, events]
    rfl

theorem ran_cons (path : String) :
    ran stages settings (path :: paths) s =
      (path, (check stages path s).1) ::
        if ends settings (check stages path s).1 then []
        else ran stages settings paths (check stages path s).2 := by
  rw [ran, events, List.take_succ_cons, List.findIdx_cons]
  cases ends settings (check stages path s).1 with
  | true => rfl
  | false => rfl

theorem ran_eq_take : ran stages settings paths s =
    (events stages paths s).take (ran stages settings paths s).length := by
  rw [ran, List.length_take, List.take_eq_take_iff]
  omega

theorem ran_paths : (ran stages settings paths s).map (·.1) =
    paths.take (ran stages settings paths s).length := by
  have h := congrArg (List.map (·.1)) (ran_eq_take stages settings paths s)
  rw [h, List.map_take, events_paths]

theorem events_ran : events stages ((ran stages settings paths s).map (·.1)) s =
    ran stages settings paths s := by
  rw [ran_paths, events_take, ← ran_eq_take]

end Events

section Sums

variable (settings : Settings) (xs ys : List Event)

theorem passes_append : passes (xs ++ ys) = passes xs + passes ys := List.countP_append

theorem failures_append : failures (xs ++ ys) = failures xs + failures ys := List.countP_append

theorem passes_add_failures : passes xs + failures xs = xs.length := by
  rw [passes, failures, List.length_eq_countP_add_countP fun e => e.2.isOk]
  simp only [Bool.not_eq_true, Bool.decide_eq_false]

theorem text_cons (e : Event) :
    text settings (e :: xs) = Utf8.ofString (lines settings e.1 e.2) ++ text settings xs :=
  List.flatMap_cons

theorem text_append : text settings (xs ++ ys) = text settings xs ++ text settings ys :=
  List.flatMap_append

end Sums

/-! ## The loop -/

section Loop

variable (stages : Stages σ) (settings : Settings) (paths : List String) (s : σ) (written : Bytes)

theorem process_cons (passed failed : ℕ) (path : String) :
    process stages settings (path :: paths) ⟨passed, failed, s, ⟨none, written⟩⟩ =
      let turn := check stages path s
      let next : Progress σ := ⟨passed + passes [(path, turn.1)], failed + failures [(path, turn.1)],
        turn.2, ⟨none, written ++ Utf8.ofString (lines settings path turn.1)⟩⟩
      if ends settings turn.1 then (next, true) else process stages settings paths next := by
  rw [process]
  dsimp only
  obtain ⟨verdict, left⟩ := check stages path s
  cases verdict with
  | ok u => rfl
  | error failure => rfl

theorem process_eq (passed failed : ℕ) :
    process stages settings paths ⟨passed, failed, s, ⟨none, written⟩⟩ =
      let ran := ran stages settings paths s
      (⟨passed + passes ran, failed + failures ran, stateBehind stages (ran.map (·.1)) s,
        ⟨none, written ++ text settings ran⟩⟩, true) := by
  induction paths generalizing passed failed s written with
  | nil =>
    change (_, _) = (_, _)
    rw [ran, events, List.take_nil, text, List.flatMap_nil, List.append_nil]
    rfl
  | cons path rest ih =>
    rw [process_cons, ran_cons]
    dsimp only
    have hline : text settings [(path, (check stages path s).1)] =
        Utf8.ofString (lines settings path (check stages path s).1) := List.flatMap_singleton ..
    rw [← hline]
    cases ends settings (check stages path s).1 with
    | true => rfl
    | false =>
      rw [if_neg nofun, if_neg nofun, ih]
      dsimp only
      rw [Nat.add_assoc, Nat.add_assoc, List.append_assoc, ← passes_append, ← failures_append,
        ← text_append]
      rfl

theorem runWith_eq :
    runWith stages settings paths s ⟨none, written⟩ =
      let ran := ran stages settings paths s
      let counts : Counts :=
        ⟨paths.length, paths.length - passes ran - failures ran, passes ran, failures ran⟩
      let ending := if settings.verbose then Utf8.ofString (summary counts) else []
      ⟨some counts, stateBehind stages (ran.map (·.1)) s,
        ⟨none, written ++ text settings ran ++ ending⟩⟩ := by
  rw [runWith, process_eq]
  dsimp only
  rw [Nat.zero_add, Nat.zero_add]
  cases settings.verbose with
  | true => rfl
  | false => rw [if_neg nofun, if_neg nofun, List.append_nil]

end Loop

/-! ## Runs without a failure -/

section AllPass

variable (stages : Stages σ) (settings : Settings) (paths : List String) (s : σ)

theorem failures_eq_zero_iff (all : List Event) : failures all = 0 ↔ ∀ e ∈ all, e.2 = .ok () := by
  rw [failures, List.countP_eq_zero]
  refine forall₂_congr fun e _ => ?_
  cases e.2 with
  | ok u => simp [Except.isOk, Except.toBool]
  | error failure => simp [Except.isOk, Except.toBool]

theorem ran_eq_events_of_goes (h : ∀ e ∈ events stages paths s, ends settings e.2 = false) :
    ran stages settings paths s = events stages paths s := by
  rw [ran, List.findIdx_eq_length.2 h]
  exact List.take_of_length_le (Nat.le_succ _)

theorem ran_eq_events (h : ∀ e ∈ events stages paths s, e.2 = .ok ()) :
    ran stages settings paths s = events stages paths s := by
  apply ran_eq_events_of_goes
  intro e he
  rw [h e he]
  rfl

/-- No failure is left out because the run ended. -/
theorem failures_ran_eq_zero_iff :
    failures (ran stages settings paths s) = 0 ↔ ∀ e ∈ events stages paths s, e.2 = .ok () := by
  constructor
  · intro h
    induction paths generalizing s with
    | nil => exact nofun
    | cons path rest ih =>
      rw [failures_eq_zero_iff, ran_cons, List.forall_mem_cons] at h
      obtain ⟨hpath, hrest⟩ := h
      change (check stages path s).1 = .ok () at hpath
      -- a fixture that passes does not end the run, so the rest is part of it
      rw [hpath, if_neg nofun, ← failures_eq_zero_iff] at hrest
      rw [events, List.forall_mem_cons]
      exact ⟨hpath, ih _ hrest⟩
  · intro h
    rw [ran_eq_events stages settings paths s h, failures_eq_zero_iff]
    exact h

end AllPass

end Conformance.Suite
