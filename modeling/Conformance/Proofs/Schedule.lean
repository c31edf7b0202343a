import Conformance.Proofs.Run
import Mathlib.Data.List.Forall2
import Mathlib.Order.Bounds.Basic
set_option autoImplicit false

/-!
# The schedule of a run

What is asked of the stages can be recorded without changing a run. The record of a run is one visit
after the other, one for each fixture up to the first that ends the run, and what a visit holds is
told by how far its fixture came.
-/
namespace Conformance.Suite

inductive Stops (settings : Settings) : Except Failure Unit → Prop where
  | unloaded (e : FixtureError) : Stops settings (.error (.fixture e))
  | notStarted (program : String) (fault : StartFault) :
      Stops settings (.error (.decoding (.notStarted program fault)))
  | failed (failure : Failure) (h : settings.keepGoing = false) : Stops settings (.error failure)

theorem ends_iff_stops (settings : Settings) (verdict : Except Failure Unit) :
    ends settings verdict = true ↔ Stops settings verdict := by
  constructor
  · intro h
    cases verdict with
    | ok u => cases h
    | error failure =>
      rcases Bool.or_eq_true_iff.1 h with hfatal | hgoing
      · cases failure with
        | fixture e => exact .unloaded e
        | decoding e =>
          cases e with
          | notStarted program fault => exact .notStarted program fault
          | notJson _ _ | failed _ => cases hfatal
        | mismatch m => cases hfatal
      · exact .failed failure (Bool.not_eq_true' _ ▸ hgoing)
  · intro h
    cases h with
    | unloaded e => rfl
    | notStarted program fault => rfl
    | failed failure h => rw [ends, h, Bool.not_false, Bool.or_true]

/-- A run takes the first `n` of its fixtures: up to the first that stops it, or all. -/
def Extent (settings : Settings) (all : List Event) (n : ℕ) : Prop :=
  (∃ k, n = k + 1 ∧ IsLeast {i | ∃ e, all[i]? = some e ∧ Stops settings e.2} k) ∨
    (n = all.length ∧ ∀ e ∈ all, ¬ Stops settings e.2)

theorem ran_extent {σ : Type} (stages : Stages σ) (settings : Settings) (paths : List String) (s : σ) :
    Extent settings (events stages paths s) (ran stages settings paths s).length := by
  rw [ran]
  generalize events stages paths s = all
  rw [List.length_take]
  by_cases hstop : all.findIdx (fun e => ends settings e.2) < all.length
  · refine Or.inl ⟨all.findIdx fun e => ends settings e.2, Nat.min_eq_left hstop, ?_, ?_⟩
    · have hfirst := List.findIdx_getElem (w := hstop)
      exact ⟨_, List.getElem?_eq_getElem hstop, (ends_iff_stops _ _).1 hfirst⟩
    · rintro i ⟨e, he, hstops⟩
      obtain ⟨hi, rfl⟩ := List.getElem?_eq_some_iff.1 he
      by_contra hlt
      have hgoes := List.not_of_lt_findIdx (Nat.lt_of_not_le hlt)
      rw [(ends_iff_stops _ _).2 hstops] at hgoes
      cases hgoes
  · have hnone := Nat.le_antisymm List.findIdx_le_length (Nat.le_of_not_lt hstop)
    refine Or.inr ⟨by omega, fun e he hstops => ?_⟩
    have hgoes := List.findIdx_eq_length.1 hnone e he
    rw [(ends_iff_stops _ _).2 hstops] at hgoes
    cases hgoes

/-! ## The record -/

inductive Access where
  | load (path : String) (outcome : Except FixtureError Fixture)
  | decode (payload : Payload) (outcome : Except DecodeError Json)
  | compare (expected observed : Json) (outcome : Except Mismatch Unit)

namespace Access

def loads? : Access → Option String
  | load path _ => some path
  | _ => none

def decodes? : Access → Option Payload
  | decode payload _ => some payload
  | _ => none

def brings? : Access → Option Payload
  | load _ (.ok fixture) => some fixture.payload
  | _ => none

end Access

def Stages.recorded {σ : Type} (stages : Stages σ) : Stages (σ × List Access) where
  load path s :=
    let (outcome, left) := stages.load path s.1
    (outcome, left, s.2 ++ [.load path outcome])
  decode payload s :=
    let (outcome, left) := stages.decode payload s.1
    (outcome, left, s.2 ++ [.decode payload outcome])
  compare expected observed s :=
    let (outcome, left) := stages.compare expected observed s.1
    (outcome, left, s.2 ++ [.compare expected observed outcome])

def accesses {σ : Type} (stages : Stages σ) (settings : Settings) (paths : List String) (s : σ)
    (out : Sink) : List Access :=
  (runWith stages.recorded settings paths (s, []) out).decoder.2

inductive Visit : Event → List Access → Prop where
  | unloaded (path : String) (e : FixtureError) :
      Visit (path, .error (.fixture e)) [.load path (.error e)]
  | undecoded (path : String) (fixture : Fixture) (e : DecodeError) :
      Visit (path, .error (.decoding e))
        [.load path (.ok fixture), .decode fixture.payload (.error e)]
  | compared (path : String) (fixture : Fixture) (observed : Json) :
      Visit (path, (Comparison.compare fixture.expected observed).mapError .mismatch)
        [.load path (.ok fixture), .decode fixture.payload (.ok observed),
          .compare fixture.expected observed (Comparison.compare fixture.expected observed)]

theorem Visit.loads {e : Event} {accesses : List Access} (h : Visit e accesses) :
    accesses.filterMap Access.loads? = [e.1] := by
  cases h <;> rfl

theorem Visit.decodes {e : Event} {accesses : List Access} (h : Visit e accesses) :
    accesses.filterMap Access.decodes? = accesses.filterMap Access.brings? := by
  cases h <;> rfl

section Recorded

variable {σ : Type} {stages : Stages σ} {s left : σ}

theorem recorded_load {path : String} {outcome : Except FixtureError Fixture}
    (h : stages.load path s = (outcome, left)) (journal : List Access) :
    stages.recorded.load path (s, journal) = (outcome, left, journal ++ [.load path outcome]) := by
  simp only [Stages.recorded, h]

theorem recorded_decode {payload : Payload} {outcome : Except DecodeError Json}
    (h : stages.decode payload s = (outcome, left)) (journal : List Access) :
    stages.recorded.decode payload (s, journal) =
      (outcome, left, journal ++ [.decode payload outcome]) := by
  simp only [Stages.recorded, h]

end Recorded

section Record

variable {σ : Type} (load : Loader σ) (decode : Decoder σ)

theorem check_recorded (path : String) (s : σ) (journal : List Access) :
    let verdict := check (stagesOf load decode) path s
    ∃ accesses, Visit (path, verdict.1) accesses ∧
      check (stagesOf load decode).recorded path (s, journal) =
        (verdict.1, verdict.2, journal ++ accesses) := by
  dsimp only
  rcases check_cases (stagesOf load decode) path s with ⟨e, left, hload⟩ |
    ⟨fixture, left, e, behind, hload, hdecode⟩ | ⟨fixture, left, v, behind, hload, hdecode⟩
  · rw [check_unloaded hload, check_unloaded (recorded_load hload journal)]
    exact ⟨_, .unloaded path e, rfl⟩
  · rw [check_undecoded hload hdecode,
      check_undecoded (recorded_load hload journal) (recorded_decode hdecode _), List.append_assoc]
    exact ⟨_, .undecoded path fixture e, rfl⟩
  · rw [check_compared hload hdecode,
      check_compared (recorded_load hload journal) (recorded_decode hdecode _)]
    refine ⟨_, .compared path fixture v, ?_⟩
    simp only [Stages.recorded, stagesOf, List.append_assoc]
    rfl

/-- A record of every fixture has one visit for each, and changes neither the verdicts nor the state. -/
theorem recorded_events (paths : List String) (s : σ) (journal : List Access) :
    ∃ visits, List.Forall₂ Visit (events (stagesOf load decode) paths s) visits ∧
      events (stagesOf load decode).recorded paths (s, journal) = events (stagesOf load decode) paths s ∧
      stateBehind (stagesOf load decode).recorded paths (s, journal) =
        (stateBehind (stagesOf load decode) paths s, journal ++ visits.flatten) := by
  induction paths generalizing s journal with
  | nil => exact ⟨[], .nil, rfl, by rw [List.flatten_nil, List.append_nil]; rfl⟩
  | cons path rest ih =>
    obtain ⟨accesses, hvisit, hcheck⟩ := check_recorded load decode path s journal
    obtain ⟨visits, hvisits, hevents, hstate⟩ :=
      ih (check (stagesOf load decode) path s).2 (journal ++ accesses)
    refine ⟨accesses :: visits, .cons hvisit hvisits, ?_, ?_⟩
    · rw [events, hcheck, hevents, events]
    · rw [stateBehind, List.foldl_cons, hcheck, List.flatten_cons, ← List.append_assoc]
      exact hstate

variable (settings : Settings) (paths : List String) (s : σ)

theorem ran_recorded : ran (stagesOf load decode).recorded settings paths (s, []) =
    ran (stagesOf load decode) settings paths s := by
  obtain ⟨_, -, hevents, -⟩ := recorded_events load decode paths s []
  rw [ran, hevents, ran]

theorem accesses_eq : accesses (stagesOf load decode) settings paths s {} =
    (stateBehind (stagesOf load decode).recorded
      ((ran (stagesOf load decode) settings paths s).map (·.1)) (s, [])).2 := by
  rw [accesses, runWith_eq, ran_recorded]

end Record

theorem forall₂_loads {all : List Event} {visits : List (List Access)} (h : List.Forall₂ Visit all visits) :
    visits.flatten.filterMap Access.loads? = all.map (·.1) := by
  induction h with
  | nil => rfl
  | cons hvisit _ ih =>
    rw [List.flatten_cons, List.filterMap_append, hvisit.loads, ih, List.map_cons, List.singleton_append]

theorem forall₂_decodes {all : List Event} {visits : List (List Access)} (h : List.Forall₂ Visit all visits) :
    visits.flatten.filterMap Access.decodes? = visits.flatten.filterMap Access.brings? := by
  induction h with
  | nil => rfl
  | cons hvisit _ ih =>
    rw [List.flatten_cons, List.filterMap_append, List.filterMap_append, hvisit.decodes, ih]

/-- What a run asks of its stages, fixture by fixture. -/
theorem runWith_schedule {σ : Type} (load : Loader σ) (decode : Decoder σ) (settings : Settings)
    (paths : List String) (s : σ) (written : Bytes) :
    let stages := stagesOf load decode
    let plain := runWith stages settings paths s ⟨none, written⟩
    let recorded := runWith stages.recorded settings paths (s, []) ⟨none, written⟩
    ∃ n visits, Extent settings (events stages paths s) n ∧
      List.Forall₂ Visit ((events stages paths s).take n) visits ∧
      recorded = ⟨plain.counts, (plain.decoder, visits.flatten), plain.out⟩ ∧
      visits.flatten.filterMap Access.loads? = paths.take n ∧
      visits.flatten.filterMap Access.decodes? = visits.flatten.filterMap Access.brings? := by
  dsimp only
  obtain ⟨_, -, hevents, -⟩ := recorded_events load decode paths s []
  -- the verdicts are the same under record, and so is where the run ends
  have hran : ran (stagesOf load decode).recorded settings paths (s, []) =
      ran (stagesOf load decode) settings paths s := by
    rw [ran, hevents, ran]
  obtain ⟨visits, hvisits, -, hstate⟩ :=
    recorded_events load decode ((ran (stagesOf load decode) settings paths s).map (·.1)) s []
  have hvisited : List.Forall₂ Visit (ran (stagesOf load decode) settings paths s) visits := by
    rw [ran_paths, events_take, ← ran_eq_take] at hvisits
    exact hvisits
  refine ⟨_, visits, ran_extent (stagesOf load decode) settings paths s, ?_, ?_, ?_,
    forall₂_decodes hvisited⟩
  · rw [← ran_eq_take]
    exact hvisited
  · rw [runWith_eq, runWith_eq, hran]
    dsimp only
    rw [hstate, List.nil_append]
  · rw [forall₂_loads hvisited, ran_paths]

end Conformance.Suite
