import Conformance.Proofs.Run
set_option autoImplicit false

/-!
# A list of fixtures run in parts

Where the answer of a decoder depends on the payload alone and the files stay as they are, what becomes of a
fixture does not depend on those before it. The verdict on a list is then the conjunction of the verdicts on
its parts, in whatever order and wherever a run stops. The counts and the lines add up too where nothing
ends a run that keeps going.
-/
namespace Conformance.Suite

variable {σ : Type}

/-- Whether a run passes everything; none where it has no counts. -/
def verdict (files : FileSystem) (decoder : Decoder σ) (settings : Settings) (paths : List String)
    (s : σ) : Option Bool :=
  (run files decoder settings paths s {}).counts.map Counts.allPassed

def NeverFatal (stages : Stages σ) (path : String) : Prop :=
  ∀ s failure, (check stages path s).1 = .error failure → failure.isFatal = false

def outcomeOf (files : FileSystem) (answer : Payload → Except DecodeError Json) (path : String) :
    Except Failure Unit :=
  match Fixture.load files path with
  | .error e => .error (.fixture e)
  | .ok fixture => judged fixture (answer fixture.payload)

section Answered

variable {decoder : Decoder σ} {answer : Payload → Except DecodeError Json}
  (h : ∀ payload s, (decoder payload s).1 = answer payload) (files : FileSystem) (settings : Settings)
include h

theorem check_eq_outcomeOf (path : String) (s : σ) :
    (check (stagesOf (loader files) decoder) path s).1 = outcomeOf files answer path := by
  rw [outcomeOf]
  cases hload : Fixture.load files path with
  | error e =>
    have hunloaded : loader files path s = (.error e, s) := congrArg (·, s) hload
    rw [check_unloaded hunloaded]
  | ok fixture =>
    have hloaded : loader files path s = (.ok fixture, s) := congrArg (·, s) hload
    rw [check_loaded hloaded, h]

theorem events_eq_map (paths : List String) (s : σ) :
    events (stagesOf (loader files) decoder) paths s =
      paths.map fun path => (path, outcomeOf files answer path) := by
  induction paths generalizing s with
  | nil => rfl
  | cons path rest ih => rw [events, check_eq_outcomeOf h, ih, List.map_cons]

/-- A run passes everything when each of its paths passes for itself. -/
theorem verdict_eq (paths : List String) (s : σ) :
    verdict files decoder settings paths s =
      some (paths.all fun path => (outcomeOf files answer path).isOk) := by
  rw [verdict, run, runWith_eq]
  dsimp only
  rw [Option.map_some, Counts.allPassed, Option.some_inj, Bool.eq_iff_iff, beq_iff_eq,
    failures_ran_eq_zero_iff, events_eq_map h, List.forall_mem_map, List.all_eq_true]
  refine forall₂_congr fun path _ => ?_
  cases outcomeOf files answer path with
  | ok u => exact ⟨fun _ => rfl, fun _ => rfl⟩
  | error failure => exact ⟨nofun, nofun⟩

theorem verdict_single (path : String) (s : σ) :
    decide (verdict files decoder settings [path] s = some true) = (outcomeOf files answer path).isOk := by
  rw [verdict_eq h, List.all_cons, List.all_nil, Bool.and_true]
  simp

section NeverFatal

variable {verbose : Bool} {paths : List String}

theorem neverFatal_of_goes {path : String}
    (hgoes : ends ⟨true, verbose⟩ (outcomeOf files answer path) = false) :
    NeverFatal (stagesOf (loader files) decoder) path := by
  intro s failure hcheck
  rw [check_eq_outcomeOf h] at hcheck
  rw [hcheck] at hgoes
  exact (Bool.or_eq_false_iff.1 hgoes).1

/-- Nothing ends a run that keeps going. -/
theorem ran_eq_map (s : σ) (hsafe : ∀ path ∈ paths, NeverFatal (stagesOf (loader files) decoder) path) :
    ran (stagesOf (loader files) decoder) ⟨true, verbose⟩ paths s =
      paths.map fun path => (path, outcomeOf files answer path) := by
  rw [← events_eq_map h files paths s]
  apply ran_eq_events_of_goes
  rw [events_eq_map h, List.forall_mem_map]
  intro path hpath
  have hmild := hsafe path hpath s
  rw [check_eq_outcomeOf h] at hmild
  exact ends_of_mild rfl hmild

theorem counts_of_neverFatal (s : σ)
    (hsafe : ∀ path ∈ paths, NeverFatal (stagesOf (loader files) decoder) path) :
    let all := paths.map fun path => (path, outcomeOf files answer path)
    (run files decoder ⟨true, verbose⟩ paths s {}).counts =
      some ⟨paths.length, 0, passes all, failures all⟩ := by
  intro all
  have hsum := passes_add_failures all
  rw [List.length_map] at hsum
  rw [run, runWith_eq]
  dsimp only
  rw [ran_eq_map h files s hsafe, show paths.length - passes all - failures all = 0 by omega]

theorem written_of_neverFatal (s : σ)
    (hsafe : ∀ path ∈ paths, NeverFatal (stagesOf (loader files) decoder) path) :
    (run files decoder ⟨true, false⟩ paths s {}).out.written =
      text ⟨true, false⟩ (paths.map fun path => (path, outcomeOf files answer path)) := by
  rw [run, runWith_eq]
  dsimp only
  rw [ran_eq_map h files s hsafe]
  exact List.append_nil _

end NeverFatal

end Answered

/-- The verdict on a list of fixtures is the conjunction of the verdicts on its fixtures, each run alone, and
so on any parts of the list, and it depends neither on the state that a run starts in nor on whether it keeps
going. Where no fixture fails fatally, runs that keep going add up. -/
theorem verdict_conjunction {decoder : Decoder σ} {answer : Payload → Except DecodeError Json}
    (h : ∀ payload s, (decoder payload s).1 = answer payload) (files : FileSystem) :
    let verdict := verdict files decoder
    let safe := NeverFatal (stagesOf (loader files) decoder)
    (∀ settings paths s,
      verdict settings paths s = some (paths.all fun path => verdict settings [path] s = some true)) ∧
    (∀ settings settings' paths s s', verdict settings paths s = verdict settings' paths s') ∧
    (∀ settings xs ys s, (∀ path, path ∈ xs ↔ path ∈ ys) → verdict settings xs s = verdict settings ys s) ∧
    (∀ settings (parts : List (List String)) s,
      verdict settings parts.flatten s = some (parts.all fun part => verdict settings part s = some true)) ∧
    (∀ verbose xs ys s t u, (∀ path ∈ xs ++ ys, safe path) →
      let first := run files decoder ⟨true, verbose⟩ xs s {}
      let second := run files decoder ⟨true, verbose⟩ ys t {}
      let whole := run files decoder ⟨true, verbose⟩ (xs ++ ys) u {}
      (∃ c d, first.counts = some c ∧ second.counts = some d ∧
        whole.counts = some ⟨c.total + d.total, c.skipped + d.skipped, c.passed + d.passed,
          c.failed + d.failed⟩) ∧
      (verbose = false → whole.out.written = first.out.written ++ second.out.written)) ∧
    (∀ verbose xs ys s t, (∀ path ∈ xs, safe path) → xs.Perm ys →
      (run files decoder ⟨true, verbose⟩ xs s {}).counts =
        (run files decoder ⟨true, verbose⟩ ys t {}).counts) := by
  intro verdict safe
  have hverdict : ∀ settings paths s, verdict settings paths s = _ := verdict_eq h files
  refine ⟨?_, ?_, ?_, ?_, ?_, ?_⟩
  · intro settings paths s
    simp only [verdict, verdict_single h]
    exact hverdict settings paths s
  · intro settings settings' paths s s'
    rw [hverdict, hverdict]
  · intro settings xs ys s hsame
    rw [hverdict, hverdict, Option.some_inj, Bool.eq_iff_iff, List.all_eq_true, List.all_eq_true]
    exact forall_congr' fun path => by rw [hsame]
  · intro settings parts s
    simp only [hverdict, Option.some_inj, Bool.decide_eq_true, List.all_flatten]
  · intro verbose xs ys s t u hsafe first second whole
    obtain ⟨hxs, hys⟩ := List.forall_mem_append.1 hsafe
    refine ⟨⟨_, _, counts_of_neverFatal h files s hxs, counts_of_neverFatal h files t hys, ?_⟩, ?_⟩
    · have hwhole : whole.counts = _ := counts_of_neverFatal h files u hsafe
      rw [List.map_append, passes_append, failures_append, List.length_append] at hwhole
      exact hwhole
    · rintro rfl
      have hwhole := written_of_neverFatal h files u hsafe
      rw [List.map_append, text_append, ← written_of_neverFatal h files s hxs,
        ← written_of_neverFatal h files t hys] at hwhole
      exact hwhole
  · intro verbose xs ys s t hsafe hperm
    have hys : ∀ path ∈ ys, safe path := fun path hpath => hsafe path (hperm.mem_iff.2 hpath)
    have hevents := hperm.map fun path => (path, outcomeOf files answer path)
    rw [counts_of_neverFatal h files s hsafe, counts_of_neverFatal h files t hys, hperm.length_eq,
      passes, failures, hevents.countP_eq, hevents.countP_eq]
    rfl

/-- Two parts with a fixture in common, one that passes and one that does not, and a decoder that counts. -/
theorem verdict_conjunction_shared_fixture :
    let files : FileSystem := {
      kind := fun _ => some .file
      contents := fun path => .ok (Utf8.ofString
        (if path = "a.json" then "\x7b\"data\":\"AA==\",\"expected\":[null]\x7d"
          else "\x7b\"hexdata\":\"00\",\"expected\":[true]\x7d"))
      names := fun _ => .ok [] }
    let answer : Payload → Except DecodeError Json := fun _ => .ok (.array [.null])
    let decoder : Decoder ℕ := fun payload calls => (answer payload, calls + 1)
    let report := run files decoder ⟨true, false⟩
    (∀ payload s, (decoder payload s).1 = answer payload) ∧
    (∀ path ∈ ["a.json", "b.json"] ++ ["a.json"], NeverFatal (stagesOf (loader files) decoder) path) ∧
    verdict files decoder ⟨false, false⟩ ["b.json", "a.json"] 0 =
      verdict files decoder ⟨false, false⟩ ["a.json", "b.json", "a.json"] 0 ∧
    (∃ c d, (report ["a.json", "b.json"] 0 {}).counts = some c ∧ (report ["a.json"] 2 {}).counts = some d ∧
      (report (["a.json", "b.json"] ++ ["a.json"]) 0 {}).counts =
        some ⟨c.total + d.total, c.skipped + d.skipped, c.passed + d.passed, c.failed + d.failed⟩) := by
  intro files answer decoder report
  have hanswer : ∀ payload s, (decoder payload s).1 = answer payload := fun _ _ => rfl
  have ha : ends ⟨true, false⟩ (outcomeOf files answer "a.json") = false := by decide +kernel
  have hb : ends ⟨true, false⟩ (outcomeOf files answer "b.json") = false := by decide +kernel
  have hsafe : ∀ path ∈ ["a.json", "b.json"] ++ ["a.json"],
      NeverFatal (stagesOf (loader files) decoder) path := by
    simp only [List.cons_append, List.nil_append, List.forall_mem_cons]
    exact ⟨neverFatal_of_goes hanswer files ha, neverFatal_of_goes hanswer files hb,
      neverFatal_of_goes hanswer files ha, nofun⟩
  have hmem : ∀ path, path ∈ ["b.json", "a.json"] ↔ path ∈ ["a.json", "b.json", "a.json"] := by simp
  obtain ⟨-, -, hsame, -, hsums, -⟩ := verdict_conjunction hanswer files
  have hsum := hsums false ["a.json", "b.json"] ["a.json"] 0 2 0 hsafe
  exact ⟨hanswer, hsafe, hsame ⟨false, false⟩ ["b.json", "a.json"] ["a.json", "b.json", "a.json"] 0 hmem,
    hsum.1⟩

end Conformance.Suite
