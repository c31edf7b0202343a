import Conformance.Program
import Conformance.Proofs.Containment
import Conformance.Proofs.ReadDistinct
import Conformance.Proofs.Run
set_option autoImplicit false

/-!
# What the exit code says

A command that could be read exits with 0 when every fixture that its paths lead to has passed, and
with 1 otherwise. That a fixture passes is a matter of the files, of what the decoder answers behind
the calls for the fixtures before it, and of containment.
-/
namespace Conformance

open Suite

structure Call where
  program : String
  words : List String
deriving DecidableEq, Repr

/-- What comes of a call behind the calls before it. -/
abbrev Behaviour := List Call → Call → Launch

def Behaviour.launcher (behaviour : Behaviour) : Launcher (List Call) :=
  fun program words earlier => (behaviour earlier ⟨program, words⟩, earlier ++ [⟨program, words⟩])

namespace Program

def callOf (options : Options) (payload : Payload) : Call :=
  ⟨options.decoder, ["decode", payload.encoding.flag, payload.data]⟩

def callsFor (files : FileSystem) (options : Options) (path : String) : List Call :=
  match Fixture.load files path with
  | .ok fixture => [callOf options fixture.payload]
  | .error _ => []

/-- The decoder is started for a payload and ends. No word of a call can hold a NUL. -/
def Answers (options : Options) (behaviour : Behaviour) (earlier : List Call) (payload : Payload)
    (output : Bytes) (status : ExitStatus) : Prop :=
  hasNul options.decoder = false ∧ hasNul payload.data = false ∧
    ∃ diagnostics, behaviour earlier (callOf options payload) = .ended output diagnostics status

inductive Passes (files : FileSystem) (options : Options) (behaviour : Behaviour) (earlier : List Call)
    (path : String) : Prop where
  | intro {text : String} {fixture : Fixture} {output : Bytes} {status : ExitStatus} {v : Json}
      (readable : files.text path = .ok text) (accepted : Fixture.parse text = .ok fixture)
      (answered : Answers options behaviour earlier fixture.payload output status)
      (document : Json.read output = .ok v)
      (successful : options.checkStatus = true → status.success = true)
      (contained : Json.ContainedIn fixture.expected v) : Passes files options behaviour earlier path

theorem load_eq_ok_iff (files : FileSystem) (path : String) (fixture : Fixture) :
    Fixture.load files path = .ok fixture ↔
      ∃ text, files.text path = .ok text ∧ Fixture.parse text = .ok fixture := by
  rw [Fixture.load]
  cases files.text path with
  | error fault => simp
  | ok text => simp

theorem interpret_eq_ok_iff (d : ExternalDecoder) (output : Bytes) (status : ExitStatus) (v : Json) :
    d.interpret output status = .ok v ↔
      Json.read output = .ok v ∧ (d.checkStatus = true → status.success = true) := by
  rw [ExternalDecoder.interpret]
  cases hfailed : d.checkStatus && !status.success with
  | true =>
    obtain ⟨hcheck, hstatus⟩ := Bool.and_eq_true_iff.1 hfailed
    refine ⟨nofun, fun h => ?_⟩
    rw [h.2 hcheck] at hstatus
    cases hstatus
  | false =>
    rw [if_neg nofun, mapError_eq_ok_iff]
    refine ⟨fun h => ⟨h, fun hcheck => ?_⟩, And.left⟩
    rw [hcheck, Bool.true_and] at hfailed
    exact Bool.not_eq_false' _ ▸ hfailed

section Check

variable {files : FileSystem} {options : Options} (behaviour : Behaviour)

def reply (options : Options) : Launch → Except DecodeError Json
  | .refused e => .error (.notStarted options.decoder (.system e))
  | .ended output _ status => (decoderOf options).interpret output status

theorem toDecoder_of_hasNul {payload : Payload} (s : Session (List Call))
    (h : (hasNul options.decoder || hasNul payload.data) = true) :
    ((decoderOf options).toDecoder behaviour.launcher payload s).1 =
      .error (.notStarted options.decoder .nulInWord) := by
  unfold ExternalDecoder.toDecoder
  exact congrArg Prod.fst (if_pos h)

theorem toDecoder_of_not_hasNul {payload : Payload} (s : Session (List Call))
    (h : ¬ (hasNul options.decoder || hasNul payload.data) = true) :
    let answer := (decoderOf options).toDecoder behaviour.launcher payload s
    answer.1 = reply options (behaviour s.world (callOf options payload)) ∧
      answer.2.world = s.world ++ [callOf options payload] := by
  intro answer
  have hanswer : answer = _ := if_neg h
  have hstart : behaviour.launcher (decoderOf options).program (ExternalDecoder.words payload) s.world =
    (behaviour s.world (callOf options payload), s.world ++ [callOf options payload]) := rfl
  rw [hanswer, hstart]
  cases behaviour s.world (callOf options payload) with
  | refused e => exact ⟨rfl, rfl⟩
  | ended output diagnostics status => exact ⟨rfl, rfl⟩

variable {behaviour}

theorem toDecoder_eq_ok_iff (payload : Payload) (s : Session (List Call)) (v : Json) :
    ((decoderOf options).toDecoder behaviour.launcher payload s).1 = .ok v ↔
      ∃ output status, Answers options behaviour s.world payload output status ∧
        Json.read output = .ok v ∧ (options.checkStatus = true → status.success = true) := by
  by_cases hnul : (hasNul options.decoder || hasNul payload.data) = true
  · rw [toDecoder_of_hasNul behaviour s hnul]
    refine ⟨nofun, ?_⟩
    rintro ⟨output, status, ⟨hprogram, hdata, -⟩, -⟩
    rw [hprogram, hdata] at hnul
    cases hnul
  · rw [(toDecoder_of_not_hasNul behaviour s hnul).1]
    have hwords := Bool.or_eq_false_iff.1 (Bool.eq_false_iff.2 hnul)
    constructor
    · intro h
      cases hlaunch : behaviour s.world (callOf options payload) with
      | refused e =>
        rw [hlaunch] at h
        cases h
      | ended output diagnostics status =>
        rw [hlaunch] at h
        exact ⟨output, status, ⟨hwords.1, hwords.2, diagnostics, hlaunch⟩, (interpret_eq_ok_iff _ _ _ _).1 h⟩
    · rintro ⟨output, status, ⟨-, -, diagnostics, hlaunch⟩, h⟩
      rw [hlaunch]
      exact (interpret_eq_ok_iff _ _ _ _).2 h

def stagesFor (files : FileSystem) (options : Options) (behaviour : Behaviour) :
    Stages (Session (List Call)) :=
  stagesOf (loader files) ((decoderOf options).toDecoder behaviour.launcher)

theorem check_eq_ok_iff_passes (path : String) (s : Session (List Call)) :
    (check (stagesFor files options behaviour) path s).1 = .ok () ↔
      Passes files options behaviour s.world path := by
  rw [stagesFor, check_eq_ok_iff]
  constructor
  · rintro ⟨fixture, v, hload, hanswer, hcompare⟩
    obtain ⟨text, hreadable, haccepted⟩ := (load_eq_ok_iff _ _ _).1 hload
    obtain ⟨output, status, hanswered, hdocument, hsuccessful⟩ := (toDecoder_eq_ok_iff _ _ _).1 hanswer
    have hcontained := (Comparison.compareAt_eq_ok_iff .root (Fixture.parse_distinct haccepted) v).1 hcompare
    exact ⟨hreadable, haccepted, hanswered, hdocument, hsuccessful, hcontained⟩
  · rintro ⟨hreadable, haccepted, hanswered, hdocument, hsuccessful, hcontained⟩
    refine ⟨_, _, (load_eq_ok_iff _ _ _).2 ⟨_, hreadable, haccepted⟩,
      (toDecoder_eq_ok_iff _ _ _).2 ⟨_, _, hanswered, hdocument, hsuccessful⟩, ?_⟩
    exact (Comparison.compareAt_eq_ok_iff .root (Fixture.parse_distinct haccepted) _).2 hcontained

/-- A fixture that passes has had its one call. -/
theorem check_world {path : String} {s : Session (List Call)}
    (h : (check (stagesFor files options behaviour) path s).1 = .ok ()) :
    (check (stagesFor files options behaviour) path s).2.world = s.world ++ callsFor files options path := by
  rcases check_cases (stagesFor files options behaviour) path s with ⟨e, left, hload⟩ |
    ⟨fixture, left, e, behind, hload, hdecode⟩ | ⟨fixture, left, v, behind, hload, hdecode⟩
  · rw [check_unloaded hload] at h
    cases h
  · rw [check_undecoded hload hdecode] at h
    cases h
  · rw [check_compared hload hdecode]
    obtain ⟨hloaded, rfl⟩ := Prod.mk.inj hload
    have hanswer : (decoderOf options).toDecoder behaviour.launcher fixture.payload s = (.ok v, behind) :=
      hdecode
    have hnul : ¬ (hasNul options.decoder || hasNul fixture.payload.data) = true := by
      intro hnul
      have hrefused := toDecoder_of_hasNul behaviour s hnul
      rw [hanswer] at hrefused
      cases hrefused
    have hworld := (toDecoder_of_not_hasNul behaviour s hnul).2
    rw [hanswer] at hworld
    rw [callsFor, hloaded]
    exact hworld

theorem events_pass_iff (paths : List String) (s : Session (List Call)) :
    (∀ e ∈ events (stagesFor files options behaviour) paths s, e.2 = .ok ()) ↔
      ∀ i path, paths[i]? = some path →
        Passes files options behaviour (s.world ++ (paths.take i).flatMap (callsFor files options)) path := by
  induction paths generalizing s with
  | nil => exact ⟨fun _ _ _ => nofun, fun _ => nofun⟩
  | cons first rest ih =>
    rw [events, List.forall_mem_cons]
    constructor
    · rintro ⟨hfirst, hrest⟩ i path hi
      cases i with
      | zero =>
        obtain rfl := Option.some.inj hi
        rw [List.take_zero, List.flatMap_nil, List.append_nil]
        exact (check_eq_ok_iff_passes _ _).1 hfirst
      | succ i =>
        -- the calls behind the first fixture are those before it and its own
        have hpath := (ih _).1 hrest i path hi
        rw [check_world hfirst, List.append_assoc] at hpath
        exact hpath
    · intro h
      have hfirst := h 0 first rfl
      rw [List.take_zero, List.flatMap_nil, List.append_nil] at hfirst
      have hchecked := (check_eq_ok_iff_passes _ _).2 hfirst
      refine ⟨hchecked, (ih _).2 fun i path hi => ?_⟩
      rw [check_world hchecked, List.append_assoc]
      exact h (i + 1) path hi

theorem stateBehind_world {paths : List String} {s : Session (List Call)}
    (h : ∀ e ∈ events (stagesFor files options behaviour) paths s, e.2 = .ok ()) :
    (stateBehind (stagesFor files options behaviour) paths s).world =
      s.world ++ paths.flatMap (callsFor files options) := by
  induction paths generalizing s with
  | nil => exact (List.append_nil _).symm
  | cons first rest ih =>
    rw [events, List.forall_mem_cons] at h
    obtain ⟨hfirst, hrest⟩ := h
    have hworld := ih hrest
    rw [check_world hfirst, List.append_assoc] at hworld
    exact hworld

section Execute

variable {paths : List String} {earlier : List Call}

theorem execute_of_discover (h : Discovery.discover files options.fixtures = .ok paths) :
    let completion := execute files behaviour.launcher options earlier
    let all := ran (stagesFor files options behaviour) (settingsOf options) paths ⟨earlier, []⟩
    completion.exitCode = (if failures all = 0 then 0 else 1) ∧
      completion.world =
        (stateBehind (stagesFor files options behaviour) (all.map (·.1)) ⟨earlier, []⟩).world := by
  dsimp only
  rw [execute, h]
  dsimp only
  rw [Suite.run, runWith_eq]
  refine ⟨?_, rfl⟩
  change (if (failures _ == 0) = true then 0 else 1) = _
  simp only [beq_iff_eq]
  rfl

theorem execute_exitCode_iff (h : Discovery.discover files options.fixtures = .ok paths) :
    (execute files behaviour.launcher options earlier).exitCode = 0 ↔
      ∀ e ∈ events (stagesFor files options behaviour) paths ⟨earlier, []⟩, e.2 = .ok () := by
  rw [(execute_of_discover h).1, ← failures_ran_eq_zero_iff _ (settingsOf options), ite_eq_left_iff]
  omega

theorem discover_of_exitCode (h : (execute files behaviour.launcher options earlier).exitCode = 0) :
    ∃ paths, Discovery.discover files options.fixtures = .ok paths := by
  cases hfound : Discovery.discover files options.fixtures with
  | error e =>
    rw [execute, hfound] at h
    cases h
  | ok paths => exact ⟨paths, rfl⟩

theorem execute_exitCode_of_ne_zero (h : (execute files behaviour.launcher options earlier).exitCode ≠ 0) :
    (execute files behaviour.launcher options earlier).exitCode = 1 := by
  cases hfound : Discovery.discover files options.fixtures with
  | error e => rw [execute, hfound]
  | ok paths =>
    rw [(execute_of_discover hfound).1] at h ⊢
    exact if_neg fun hnone => h (if_pos hnone)

theorem execute_world (h : Discovery.discover files options.fixtures = .ok paths)
    (hall : ∀ e ∈ events (stagesFor files options behaviour) paths ⟨earlier, []⟩, e.2 = .ok ()) :
    (execute files behaviour.launcher options earlier).world =
      earlier ++ paths.flatMap (callsFor files options) := by
  rw [(execute_of_discover h).2, ran_eq_events _ _ _ _ hall, events_paths, stateBehind_world hall]

end Execute

theorem load_of_passes {path : String} {earlier : List Call}
    (h : Passes files options behaviour earlier path) : ∃ fixture, Fixture.load files path = .ok fixture := by
  obtain ⟨hreadable, haccepted, -, -, -, -⟩ := h
  exact ⟨_, (load_eq_ok_iff _ _ _).2 ⟨_, hreadable, haccepted⟩⟩

theorem forall₂_callsFor {paths : List String}
    (h : ∀ path ∈ paths, ∃ fixture, Fixture.load files path = .ok fixture) :
    List.Forall₂ (fun path call => ∃ fixture, Fixture.load files path = .ok fixture ∧
      call = callOf options fixture.payload) paths (paths.flatMap (callsFor files options)) := by
  induction paths with
  | nil => exact .nil
  | cons path rest ih =>
    obtain ⟨⟨fixture, hload⟩, hrest⟩ := List.forall_mem_cons.1 h
    rw [List.flatMap_cons, callsFor, hload]
    exact .cons ⟨fixture, hload, rfl⟩ (ih hrest)

end Check

/-- A command exits with 0 when every fixture that it finds passes, each with one call behind the calls
for those before it, and with 1 otherwise. -/
theorem run_exitCode {words : List String} {environment : Option String} {options : Options}
    (h : Arguments.parse words environment = .ok options) (files : FileSystem) (behaviour : Behaviour) :
    let completion := run files behaviour.launcher words environment []
    (completion.exitCode = 0 ↔
      ∃ paths, Discovery.discover files options.fixtures = .ok paths ∧
        ∀ i path, paths[i]? = some path →
          Passes files options behaviour ((paths.take i).flatMap (callsFor files options)) path) ∧
    (completion.exitCode ≠ 0 → completion.exitCode = 1) ∧
    (completion.exitCode = 0 →
      ∃ paths, Discovery.discover files options.fixtures = .ok paths ∧
        List.Forall₂ (fun path call => ∃ fixture, Fixture.load files path = .ok fixture ∧
          call = callOf options fixture.payload) paths completion.world) := by
  dsimp only
  rw [run, h]
  dsimp only
  refine ⟨⟨fun hcode => ?_, ?_⟩, execute_exitCode_of_ne_zero, fun hcode => ?_⟩
  · obtain ⟨paths, hfound⟩ := discover_of_exitCode hcode
    exact ⟨paths, hfound, (events_pass_iff _ _).1 ((execute_exitCode_iff hfound).1 hcode)⟩
  · rintro ⟨paths, hfound, hall⟩
    exact (execute_exitCode_iff hfound).2 ((events_pass_iff _ _).2 hall)
  · obtain ⟨paths, hfound⟩ := discover_of_exitCode hcode
    have hall := (execute_exitCode_iff hfound).1 hcode
    refine ⟨paths, hfound, ?_⟩
    rw [execute_world hfound hall]
    refine forall₂_callsFor fun path hpath => ?_
    obtain ⟨i, hi⟩ := List.getElem?_of_mem hpath
    exact load_of_passes ((events_pass_iff _ _).1 hall i path hi)

/-- An object and an array as fixtures, and answers that depend on the calls before. -/
theorem run_exitCode_two_fixtures :
    let files : FileSystem := {
      kind := fun _ => some .file
      contents := fun path => .ok (Utf8.ofString
        (if path = "a.json" then "\x7b\"data\":\"AA==\",\"expected\":\x7b\"n\":1\x7d\x7d" else "[null,\"00\",[2]]"))
      names := fun _ => .ok [] }
    let behaviour : Behaviour := fun earlier _ =>
      .ended (Utf8.ofString (if earlier = [] then "\x7b\"m\":[],\"n\":1\x7d" else "[2,3]")) [] (.exited 0)
    let options : Options := ⟨["a.json", "b.json"], "holmes", false, true, false⟩
    Arguments.parse ["--check-status", "a.json", "b.json"] none = .ok options ∧
      ∀ i path, ["a.json", "b.json"][i]? = some path →
        Passes files options behaviour
          ((["a.json", "b.json"].take i).flatMap (callsFor files options)) path := by
  intro files behaviour options
  have hparse : Arguments.parse ["--check-status", "a.json", "b.json"] none = .ok options := by
    decide +kernel
  have hcode : (run files behaviour.launcher ["--check-status", "a.json", "b.json"] none []).exitCode = 0 := by
    decide +kernel
  obtain ⟨paths, hfound, hall⟩ := (run_exitCode hparse files behaviour).1.1 hcode
  obtain rfl := Except.ok.inj hfound
  exact ⟨hparse, hall⟩

end Program
end Conformance
