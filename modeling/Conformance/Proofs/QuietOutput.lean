import Conformance.Program
import Conformance.Proofs.Expansion
import Conformance.Proofs.FailFast
import Conformance.Proofs.ReaderFaults
set_option autoImplicit false

/-!
# One failure, one line

A command that is not verbose writes a line for each fixture that failed, and nothing else. Whatever a failure
says stays on its line, so that the lines of the output are the failures. Only paths and the decoder's name,
which are shown as they are, could break one.
-/
namespace Conformance

open Json (newline)

/-- The output is these lines, each of them ended. -/
structure PrintsLines (output : Bytes) (lines : List String) : Prop where
  output_eq : output = lines.flatMap fun line => Utf8.ofString line ++ [newline]
  unbroken : ∀ line ∈ lines, newline ∉ Utf8.ofString line

namespace Utf8

theorem ofString_append (s t : String) : ofString (s ++ t) = ofString s ++ ofString t := by
  simp [ofString, encode]

/-- No other character has the byte of a line end in its form. -/
theorem newline_not_mem_utf8EncodeChar {c : Char} (h : c ≠ '\n') : newline ∉ String.utf8EncodeChar c := by
  have hval : c.val.toNat ≠ 10 := fun heq => h (Char.toNat_inj.1 heq)
  have hfar : ∀ n : ℕ, n < 256 → n ≠ 10 → newline ≠ UInt8.ofNat n := by
    intro n hlt hne heq
    have hnat := congrArg UInt8.toNat heq
    rw [UInt8.toNat_ofNat_of_lt' hlt] at hnat
    exact hne hnat.symm
  unfold String.utf8EncodeChar
  dsimp only
  split_ifs
  all_goals
    simp only [List.mem_cons, List.not_mem_nil, or_false, not_or]
    and_intros
  all_goals exact hfar _ (by omega) (by omega)

theorem newline_not_mem_ofString {s : String} (h : OneLine s) : newline ∉ ofString s := by
  intro hmem
  obtain ⟨c, hc, hbyte⟩ := List.mem_flatMap.1 hmem
  have hne : c ≠ '\n' := by
    rintro rfl
    exact h hc
  exact newline_not_mem_utf8EncodeChar hne hbyte

end Utf8

theorem PrintsLines.of_oneLine {lines : List String} (h : ∀ line ∈ lines, OneLine line) :
    PrintsLines (lines.flatMap fun line => Utf8.ofString (line ++ "\n")) lines where
  output_eq := by
    congr 1
    funext line
    rw [Utf8.ofString_append]
    rfl
  unbroken line hline := Utf8.newline_not_mem_ofString (h line hline)

theorem PrintsLines.eq_nil_iff {output : Bytes} {lines : List String} (h : PrintsLines output lines) :
    output = [] ↔ lines = [] := by
  rw [h.output_eq, List.flatMap_eq_nil_iff]
  constructor
  · intro hnone
    exact List.eq_nil_iff_forall_not_mem.2 fun line hline => by simpa using hnone line hline
  · rintro rfl
    exact nofun

/-! ## What a failure says -/

theorem ExternalDecoder.oneLine_of_interpret {d : ExternalDecoder} {output : Bytes} {status : ExitStatus}
    {e : DecodeError} (h : d.interpret output status = .error e) : OneLine e.message := by
  unfold interpret at h
  split at h
  · cases h
    change OneLine ("decoder " ++ status.describe)
    simp only [oneLine_append, status.oneLine_describe]
    decide
  · obtain ⟨fault, hread, rfl⟩ := mapError_eq_error_iff.1 h
    change OneLine ("decoder output is not valid JSON (" ++ fault.message ++ "): " ++ quoted (excerpt output))
    simp only [oneLine_append, Json.oneLine_of_read hread, oneLine_quoted]
    decide

/-- A decoder's output is quoted, its name is not. -/
theorem ExternalDecoder.oneLine_of_toDecoder {σ : Type} {d : ExternalDecoder} (hname : OneLine d.program)
    {launch : Launcher σ} {payload : Payload} {s : Session σ} {e : DecodeError}
    (h : (d.toDecoder launch payload s).1 = .error e) : OneLine e.message := by
  have hstart : ∀ fault : StartFault, OneLine (DecodeError.notStarted d.program fault).message := by
    intro fault
    change OneLine ("cannot run decoder `" ++ d.program ++ "`: " ++ fault.message)
    simp only [oneLine_append, hname, fault.oneLine_message]
    decide
  unfold toDecoder at h
  dsimp only at h
  split at h
  · cases h
    exact hstart _
  · split at h
    · cases h
      exact hstart _
    · exact oneLine_of_interpret h

namespace Suite

variable {σ : Type}

theorem oneLine_of_check {files : FileSystem} {d : ExternalDecoder} (hname : OneLine d.program)
    {launch : Launcher σ} {path : String} {s : Session σ} {failure : Failure}
    (h : (check (stagesOf (loader files) (d.toDecoder launch)) path s).1 = .error failure) :
    OneLine failure.message := by
  rcases check_eq_error h with ⟨e, hload, rfl⟩ | ⟨fixture, left, -, hjudged⟩
  · exact Fixture.oneLine_of_load hload
  · rcases judged_eq_error hjudged with ⟨e, hdecode, rfl⟩ | ⟨v, m, -, hcompare, rfl⟩
    · exact d.oneLine_of_toDecoder hname hdecode
    · exact oneLine_of_compare hcompare

def failureLine (f : String × Failure) : String := "Error: " ++ f.1 ++ ": " ++ f.2.message

theorem oneLine_failureLine {f : String × Failure} (hpath : OneLine f.1) (hmessage : OneLine f.2.message) :
    OneLine (failureLine f) := by
  unfold failureLine
  simp only [oneLine_append, hpath, hmessage]
  decide

/-- A quiet run prints the lines for the fixtures that failed. -/
theorem printsLines_quiet {files : FileSystem} {d : ExternalDecoder} (hname : OneLine d.program)
    (launch : Launcher σ) (keepGoing : Bool) {paths : List String} (hpaths : ∀ path ∈ paths, OneLine path)
    (s : Session σ) :
    let stages := stagesOf (loader files) (d.toDecoder launch)
    PrintsLines (runWith stages ⟨keepGoing, false⟩ paths s {}).out.written
      ((failed (ran stages ⟨keepGoing, false⟩ paths s)).map failureLine) := by
  intro stages
  rw [written_quiet stages paths s keepGoing]
  have hlines : ∀ line ∈ (failed (ran stages ⟨keepGoing, false⟩ paths s)).map failureLine,
      OneLine line := by
    intro line hline
    obtain ⟨f, hf, rfl⟩ := List.mem_map.1 hline
    have hevent := mem_failed hf
    rw [ran_eq_take] at hevent
    obtain ⟨hpath, t, hcheck⟩ := mem_events (List.mem_of_mem_take hevent)
    exact oneLine_failureLine (hpaths _ hpath) (oneLine_of_check hname hcheck.symm)
  have hprints := PrintsLines.of_oneLine hlines
  rw [List.flatMap_map] at hprints
  exact hprints

end Suite

/-! ## A list that cannot be made -/

theorem DiscoveryError.oneLine_message {e : DiscoveryError} (h : OneLine e.directory) : OneLine e.message := by
  change OneLine ("cannot list fixture directory " ++ e.directory ++ ": " ++ e.fault.message)
  simp only [oneLine_append, h, e.fault.oneLine_message]
  decide

namespace Program

open Suite

section Quiet

variable {σ : Type} (files : FileSystem) (options : Options) (launch : Launcher σ) (world : σ)

def stagesWith : Stages (Session σ) := stagesOf (loader files) ((decoderOf options).toDecoder launch)

def failedOf (paths : List String) : List (String × Failure) :=
  failed (ran (stagesWith files options launch) (settingsOf options) paths ⟨world, []⟩)

variable {files options}

theorem execute_unlisted {e : DiscoveryError} (h : Discovery.discover files options.fixtures = .error e)
    (hgiven : ∀ path ∈ options.fixtures, OneLine path) :
    PrintsLines (execute files launch options world).output ["Error: " ++ e.message] ∧
      (execute files launch options world).exitCode = 1 := by
  have hmessage := DiscoveryError.oneLine_message (hgiven _ (Discovery.discover_eq_error_iff.1 h).mem)
  have hlines : ∀ line ∈ ["Error: " ++ e.message], OneLine line := by
    intro line hline
    rw [List.mem_singleton.1 hline, oneLine_append]
    exact ⟨by decide, hmessage⟩
  have hprints := PrintsLines.of_oneLine hlines
  rw [List.flatMap_singleton] at hprints
  rw [execute, h]
  exact ⟨hprints, rfl⟩

theorem execute_listed {paths : List String} (h : Discovery.discover files options.fixtures = .ok paths)
    (hquiet : options.verbose = false) (hpaths : ∀ path ∈ paths, OneLine path)
    (hname : OneLine options.decoder) :
    let failures := failedOf files options launch world paths
    PrintsLines (execute files launch options world).output (failures.map failureLine) ∧
      ((execute files launch options world).exitCode = 0 ↔ failures = []) := by
  intro failures
  let report := runWith (stagesWith files options launch) (settingsOf options) paths ⟨world, []⟩ {}
  have hexecute : execute files launch options world = ⟨if report.counts.any Counts.allPassed then 0 else 1,
      report.out.written, report.decoder.log, report.decoder.world⟩ := by
    rw [execute, h]
    rfl
  have hcounts : report.counts.any Counts.allPassed = (failures.length == 0) := by
    change Option.any _ (runWith _ _ _ _ _).counts = _
    rw [runWith_eq, show failures = failedOf .. from rfl, failedOf, ← failures_eq_length]
    rfl
  have hsettings : settingsOf options = ⟨options.keepGoing, false⟩ := by rw [settingsOf, hquiet]
  have hprints : PrintsLines report.out.written (failures.map failureLine) := by
    change PrintsLines (runWith _ _ _ _ _).out.written (List.map _ (failedOf ..))
    rw [failedOf, hsettings]
    exact printsLines_quiet hname launch options.keepGoing hpaths ⟨world, []⟩
  rw [hexecute]
  refine ⟨hprints, ?_⟩
  dsimp only
  rw [hcounts, ← List.length_eq_zero_iff]
  by_cases hnone : failures.length = 0
  · simp [hnone]
  · simp [hnone]

/-- A run that ends at its first failure has one at most. -/
theorem length_failedOf (paths : List String) (h : options.keepGoing = false) :
    (failedOf files options launch world paths).length ≤ 1 := by
  obtain ⟨-, -, hone, -⟩ := ran_failFast (stagesWith files options launch) options.verbose paths ⟨world, []⟩
  rw [failedOf, settingsOf, h, hone, List.length_take]
  exact Nat.min_le_left _ _

/-- The failures are those that the run counts. -/
theorem counts_failedOf (paths : List String) :
    (Suite.run files ((decoderOf options).toDecoder launch) (settingsOf options) paths
      ⟨world, []⟩ {}).counts.map Counts.failed = some (failedOf files options launch world paths).length := by
  rw [Suite.run, runWith_eq, failedOf, ← failures_eq_length]
  rfl

theorem failedOf_sublist (paths : List String) :
    ((failedOf files options launch world paths).map (·.1)).Sublist paths := by
  refine (failed_paths_sublist _).trans ?_
  rw [ran_paths]
  exact List.take_sublist _ _

end Quiet

/-- A command that is not verbose prints one line for each fixture that failed, in their order, or the one line
that says which directory cannot be listed, and prints nothing exactly if it exits with 0. -/
theorem run_quiet {words : List String} {environment : Option String} {options : Options}
    (hparse : Arguments.parse words environment = .ok options) (hquiet : options.verbose = false)
    {files : FileSystem} (hgiven : ∀ path ∈ options.fixtures, OneLine path)
    (hfound : ∀ paths, Discovery.discover files options.fixtures = .ok paths → ∀ path ∈ paths, OneLine path)
    (hname : OneLine options.decoder) {σ : Type} (launch : Launcher σ) (world : σ) :
    let completion := run files launch words environment world
    ∃ lines, PrintsLines completion.output lines ∧
      (∀ line ∈ lines, "Error: ".toList <+: line.toList) ∧
      (completion.output = [] ↔ completion.exitCode = 0) ∧
      (∀ e, Discovery.discover files options.fixtures = .error e → lines = ["Error: " ++ e.message]) ∧
      ∀ paths, Discovery.discover files options.fixtures = .ok paths →
        let failures := failedOf files options launch world paths
        lines = failures.map (fun f => "Error: " ++ f.1 ++ ": " ++ f.2.message) ∧
          (failures.map (·.1)).Sublist paths ∧ (options.keepGoing = false → lines.length ≤ 1) ∧
          (Suite.run files ((decoderOf options).toDecoder launch) (settingsOf options) paths
            ⟨world, []⟩ {}).counts.map Counts.failed = some lines.length := by
  have hexecute : run files launch words environment world = execute files launch options world := by
    rw [run, hparse]
  dsimp only
  rw [hexecute]
  cases hdiscover : Discovery.discover files options.fixtures with
  | error e =>
    obtain ⟨hprints, hcode⟩ := execute_unlisted launch world hdiscover hgiven
    refine ⟨_, hprints, ?_, ?_, fun e' he => ?_, nofun⟩
    · intro line hline
      rw [List.mem_singleton.1 hline, String.toList_append]
      exact List.prefix_append _ _
    · rw [hprints.eq_nil_iff, hcode]
      exact ⟨nofun, nofun⟩
    · rw [Except.error.inj he]
  | ok paths =>
    obtain ⟨hprints, hcode⟩ := execute_listed launch world hdiscover hquiet (hfound paths hdiscover) hname
    refine ⟨_, hprints, ?_, ?_, nofun, fun paths' hpaths => ?_⟩
    · intro line hline
      obtain ⟨f, -, rfl⟩ := List.mem_map.1 hline
      unfold failureLine
      simp only [String.toList_append, List.append_assoc]
      exact List.prefix_append _ _
    · rw [hprints.eq_nil_iff, hcode, List.map_eq_nil_iff]
    · obtain rfl := Except.ok.inj hpaths
      refine ⟨rfl, failedOf_sublist launch world paths, fun hfast => ?_, ?_⟩
      · rw [List.length_map]
        exact length_failedOf launch world paths hfast
      · rw [List.length_map]
        exact counts_failedOf launch world paths

/-- A line end in a key, and an output that is nothing but line ends. -/
theorem run_quiet_awkward_texts :
    let files : FileSystem := {
      kind := fun _ => some .file
      contents := fun path => .ok (Utf8.ofString
        (if path = "a.json" then "\x7b\"data\":\"\",\"expected\":\x7b\"x\\ny\":\"\\n\"\x7d\x7d"
          else "\x7b\"hexdata\":\"\\n\",\"expected\":0\x7d"))
      names := fun _ => .ok [] }
    let launch : Launcher ℕ := fun _ _ n =>
      (.ended (if n = 0 then Utf8.ofString "\x7b\x7d" else [0x0A, 0xFF, 0x0A]) [0x0A] (.exited 1), n + 1)
    let words := ["--keep-going", "a.json", "b.json"]
    ∃ lines, PrintsLines (run files launch words none 0).output lines ∧
      lines = ["Error: a.json: missing \"x\\ny\" from result",
        "Error: b.json: decoder output is not valid JSON (expected value at line 2 column 1): \"\\n\uFFFD\\n\""] := by
  intro files launch words
  let options : Options := ⟨["a.json", "b.json"], "holmes", true, false, false⟩
  have hparse : Arguments.parse words none = .ok options := by decide +kernel
  have hpaths : ∀ path ∈ ["a.json", "b.json"], OneLine path := by decide
  have hdiscover : Discovery.discover files options.fixtures = .ok ["a.json", "b.json"] := rfl
  have hfound : ∀ paths, Discovery.discover files options.fixtures = .ok paths →
      ∀ path ∈ paths, OneLine path := by
    rintro paths hfound
    obtain rfl := Except.ok.inj (hdiscover.symm.trans hfound)
    exact hpaths
  obtain ⟨lines, hprints, -, -, -, hlines⟩ := run_quiet hparse rfl hpaths hfound (by decide) launch 0
  refine ⟨lines, hprints, ?_⟩
  rw [(hlines _ hdiscover).1]
  decide +kernel

end Program
end Conformance
