import Conformance.Decoder.Script
import Conformance.Proofs.Run
set_option autoImplicit false

/-!
# Decoders out of reach

Whether a decoder can be started is settled by its name and by the system. Among the payloads that the system
takes, those with a NUL are out of reach of every decoder, and to the others all are alike. A run that
keeps going over such payloads therefore skips nothing, unless a fixture cannot be loaded.
-/
namespace Conformance

structure Remains where
  output : Bytes
  diagnostics : Bytes
  status : ExitStatus

/-- A system that programs are started on. Whether one starts is a matter of its name, as long as its words are
not too long. What it does then may depend on its words, and on what happened before. -/
structure Host (σ : Type) where
  start : String → Except SystemError Unit
  maxWord : ℕ
  conduct : (program : String) → (words : List String) → σ → Remains × σ

namespace Host

variable {σ : Type}

def launcher (host : Host σ) : Launcher σ :=
  fun program words s =>
    match host.start program with
    | .error e => (.refused e, s)
    | .ok () =>
      if words.any fun word => host.maxWord < word.utf8ByteSize then (.refused .wordTooLong, s)
      else
        let remains := (host.conduct program words s).1
        (.ended remains.output remains.diagnostics remains.status, (host.conduct program words s).2)

def Starts (host : Host σ) (program : String) : Prop :=
  hasNul program = false ∧ host.start program = .ok ()

def Fits (host : Host σ) (payload : Payload) : Prop :=
  ∀ word ∈ ExternalDecoder.words payload, word.utf8ByteSize ≤ host.maxWord

end Host

def Script.host (script : Script) : Host (List (List String)) where
  start := script.files.startProgram script.search
  maxWord := Script.maxWord
  conduct _ words runs :=
    match script.entries.find? (·.fits words) with
    | some entry => (⟨entry.output, entry.diagnostics, entry.status⟩, runs ++ [words])
    | none => (⟨[], [], .exited 0⟩, runs ++ [words])

theorem Script.launcher_eq (script : Script) : script.launcher = script.host.launcher := by
  funext program words runs
  rw [Script.launcher, Host.launcher, Script.host]
  dsimp only
  cases script.files.startProgram script.search program with
  | error e => rfl
  | ok u =>
    dsimp only
    rw [Script.answer]
    cases script.entries.find? (·.fits words) with
    | some entry => rfl
    | none => rfl

def outOfReach : Except DecodeError Json → Bool
  | .ok _ => false
  | .error e => e.isFatal

/-! ## One payload -/

section Payload

variable {σ : Type} (d : ExternalDecoder) (host : Host σ)

theorem outOfReach_interpret (output : Bytes) (status : ExitStatus) :
    outOfReach (d.interpret output status) = false := by
  unfold ExternalDecoder.interpret
  split
  · rfl
  · cases Json.read output with
    | error e => rfl
    | ok v => rfl

variable {payload : Payload} (s : Session σ)

/-- Nothing is started for a payload with a NUL. -/
theorem toDecoder_nul (h : hasNul payload.data = true) :
    (d.toDecoder host.launcher payload s).1 = .error (.notStarted d.program .nulInWord) ∧
      (d.toDecoder host.launcher payload s).2.world = s.world := by
  unfold ExternalDecoder.toDecoder
  dsimp only
  rw [h, Bool.or_true]
  exact ⟨rfl, rfl⟩

theorem outOfReach_of_not_starts (h : ¬ host.Starts d.program) :
    outOfReach (d.toDecoder host.launcher payload s).1 = true := by
  unfold ExternalDecoder.toDecoder
  dsimp only
  split
  · rfl
  next hwords =>
    have hprogram := (Bool.or_eq_false_iff.1 (Bool.eq_false_iff.2 hwords)).1
    unfold Host.launcher
    cases hstart : host.start d.program with
    | error e => rfl
    | ok u => exact absurd ⟨hprogram, hstart⟩ h

theorem outOfReach_of_starts (h : host.Starts d.program) (hfits : host.Fits payload)
    (hnul : hasNul payload.data = false) :
    outOfReach (d.toDecoder host.launcher payload s).1 = false := by
  have hlong : ¬ (ExternalDecoder.words payload).any fun word => host.maxWord < word.utf8ByteSize := by
    simpa [Host.Fits] using hfits
  unfold ExternalDecoder.toDecoder Host.launcher
  dsimp only
  rw [h.1, hnul, h.2]
  dsimp only
  rw [if_neg hlong]
  exact outOfReach_interpret d _ _

/-- Among payloads that fit there is no other reason for a decoder to be out of reach. -/
theorem outOfReach_iff (hfits : host.Fits payload) :
    outOfReach (d.toDecoder host.launcher payload s).1 = true ↔
      (host.Starts d.program → hasNul payload.data = true) := by
  constructor
  · intro hout hstarts
    by_contra hnul
    rw [outOfReach_of_starts d host s hstarts hfits (Bool.eq_false_iff.2 hnul)] at hout
    cases hout
  · intro hnul
    by_cases hstarts : host.Starts d.program
    · rw [(toDecoder_nul d host s (hnul hstarts)).1]
      rfl
    · exact outOfReach_of_not_starts d host s hstarts

end Payload

/-! ## A run -/

namespace Suite

variable {σ : Type}

/-- A fixture that loads is fatal only where its decoder is out of reach. -/
theorem isFatal_of_loaded {load : Loader σ} {decode : Decoder σ} {path : String} {s left : σ}
    {fixture : Fixture} {failure : Failure} (hload : load path s = (.ok fixture, left))
    (h : (check (stagesOf load decode) path s).1 = .error failure) (hfatal : failure.isFatal = true) :
    outOfReach (decode fixture.payload left).1 = true := by
  rw [check_loaded hload] at h
  rcases judged_eq_error h with ⟨e, hanswer, rfl⟩ | ⟨v, m, -, -, rfl⟩
  · rw [hanswer]
    exact hfatal
  · cases hfatal

/-- A run that keeps going leaves nothing out behind a fixture that loads, if no fixture that loads finds its
decoder out of reach. -/
theorem ran_of_reached {load : Loader σ} {decode : Decoder σ} {settings : Settings}
    (hgoes : settings.keepGoing = true)
    (hreached : ∀ path s fixture left, load path s = (.ok fixture, left) →
      outOfReach (decode fixture.payload left).1 = false) (paths : List String) (s : σ) :
    (ran (stagesOf load decode) settings paths s).length = paths.length ∨
      ∃ path e, (ran (stagesOf load decode) settings paths s).getLast? =
        some (path, .error (.fixture e)) := by
  induction paths generalizing s with
  | nil => exact Or.inl rfl
  | cons path rest ih =>
    rw [ran_cons]
    cases hload : load path s with
    | mk loaded left =>
      cases loaded with
      | error e =>
        have hcheck : check (stagesOf load decode) path s = (.error (.fixture e), left) :=
          check_unloaded hload
        rw [hcheck]
        exact Or.inr ⟨path, e, rfl⟩
      | ok fixture =>
        have hends : ends settings (check (stagesOf load decode) path s).1 = false := by
          refine ends_of_mild hgoes fun failure h => Bool.eq_false_iff.2 fun hfatal => ?_
          have hout := isFatal_of_loaded hload h hfatal
          rw [hreached path s fixture left hload] at hout
          cases hout
        rw [hends, if_neg Bool.false_ne_true]
        rcases ih (check (stagesOf load decode) path s).2 with hall | ⟨last, e, hlast⟩
        · exact Or.inl (congrArg Nat.succ hall)
        · exact Or.inr ⟨last, e, by rw [List.getLast?_cons, hlast, Option.getD_some]⟩

/-- A decoder is out of reach of all payloads that fit or of none, those with a NUL aside, of which no decoder
is in reach. Where it can be started and no fixture brings such a payload or one that does not fit, keeping
going takes every fixture up to one that cannot be loaded. -/
theorem outOfReach_uniform {σ : Type} (d : ExternalDecoder) (host : Host σ) :
    let decode := d.toDecoder host.launcher
    (∀ p q, host.Fits p → host.Fits q → ∀ s t,
      (outOfReach (decode p s).1 = outOfReach (decode q t).1 ↔
        (host.Starts d.program → hasNul p.data = hasNul q.data))) ∧
    (∀ p s, hasNul p.data = true →
      (decode p s).1 = .error (.notStarted d.program .nulInWord) ∧ (decode p s).2.world = s.world) ∧
    (host.Starts d.program → ∀ load : Loader (Session σ),
      (∀ path s fixture left, load path s = (.ok fixture, left) →
        host.Fits fixture.payload ∧ hasNul fixture.payload.data = false) →
      ∀ verbose paths s,
        let settings : Settings := ⟨true, verbose⟩
        ∃ c, (runWith (stagesOf load decode) settings paths s {}).counts = some c ∧
          (0 < c.skipped → ∃ path e, (ran (stagesOf load decode) settings paths s).getLast? =
            some (path, .error (.fixture e)))) := by
  intro decode
  refine ⟨fun p q hp hq s t => ?_, fun p s hnul => toDecoder_nul d host s hnul,
    fun hstarts load hload verbose paths s => ?_⟩
  · rw [Bool.eq_iff_iff, outOfReach_iff d host s hp, outOfReach_iff d host t hq]
    by_cases hstarts : host.Starts d.program
    · simp only [hstarts, true_imp_iff]
      exact Bool.eq_iff_iff.symm
    · simp only [hstarts, false_imp_iff]
  · intro settings
    have hcounts := congrArg Report.counts (runWith_eq (stagesOf load decode) settings paths s [])
    refine ⟨_, hcounts, fun hskipped => ?_⟩
    have hreached : ∀ path s fixture left, load path s = (.ok fixture, left) →
        outOfReach (decode fixture.payload left).1 = false := by
      intro path s fixture left h
      obtain ⟨hfits, hnul⟩ := hload path s fixture left h
      exact outOfReach_of_starts d host left hstarts hfits hnul
    have hgoes : settings.keepGoing = true := rfl
    refine (ran_of_reached hgoes hreached paths s).resolve_left fun hall => ?_
    have htaken := passes_add_failures (ran (stagesOf load decode) settings paths s)
    dsimp only at hskipped
    omega

/-- A decoder with an unreadable answer to one payload, in a run that goes on behind it. -/
theorem outOfReach_uniform_unreadable_answer :
    let entries : List ScriptEntry := [⟨"-b", some "AA==", [], [], .exited 0⟩,
      ⟨"-b", none, Utf8.ofString "null", [], .exited 0⟩]
    let script : Script := ⟨⟨[(["holmes"], .file [] true)], [], true⟩, [], entries⟩
    let d : ExternalDecoder := ⟨"./holmes", false, false⟩
    let decode := d.toDecoder script.launcher
    let load : Loader (Session (List (List String))) :=
      fun path s => (.ok ⟨⟨.base64, if path = "a.json" then "AA==" else "AQ=="⟩, .null⟩, s)
    let report := runWith (stagesOf load decode) ⟨true, false⟩ ["a.json", "b.json"] ⟨[], []⟩ {}
    script.host.Starts d.program ∧
      outOfReach (decode ⟨.base64, "AA=="⟩ ⟨[], []⟩).1 = outOfReach (decode ⟨.base64, "AQ=="⟩ ⟨[], []⟩).1 ∧
      ∃ c, report.counts = some c ∧ c.failed = 1 ∧ c.skipped = 0 := by
  intro entries script d decode load report
  have hfits : ∀ data ∈ ["AA==", "AQ=="], script.host.Fits ⟨.base64, data⟩ ∧ hasNul data = false := by
    unfold Host.Fits
    decide +kernel
  have hplain := hfits "AA==" (by simp)
  have hother := hfits "AQ==" (by simp)
  have hstarts : script.host.Starts d.program := ⟨by decide +kernel, eq_ok_of_toBool (by decide +kernel)⟩
  have h := outOfReach_uniform d script.host
  rw [← script.launcher_eq] at h
  obtain ⟨huniform, -, hrun⟩ := h
  refine ⟨hstarts, (huniform _ _ hplain.1 hother.1 _ _).2 fun _ => hplain.2.trans hother.2.symm, ?_⟩
  have hload : ∀ path s fixture left, load path s = (.ok fixture, left) →
      script.host.Fits fixture.payload ∧ hasNul fixture.payload.data = false := by
    intro path s fixture left h
    obtain ⟨hfixture, -⟩ := Prod.mk.inj h
    obtain rfl := Except.ok.inj hfixture
    dsimp only
    split
    · exact hplain
    · exact hother
  obtain ⟨c, hcounts, -⟩ := hrun hstarts load hload false ["a.json", "b.json"] ⟨[], []⟩
  have hexactly : report.counts = some ⟨2, 0, 1, 1⟩ := by decide +kernel
  obtain rfl := Option.some.inj (hcounts.symm.trans hexactly)
  exact ⟨_, hcounts, rfl, rfl⟩

/-- A payload with a NUL ends a run that keeps going, though the decoder can be started. -/
theorem nul_ends_run :
    let entries : List ScriptEntry := [⟨"-b", none, Utf8.ofString "1", [], .exited 0⟩]
    let script : Script := ⟨⟨[(["holmes"], .file [] true)], [], true⟩, [], entries⟩
    let files : FileSystem := {
      kind := fun _ => some .file
      contents := fun path => .ok (Utf8.ofString
        (if path = "nul.json" then "\x7b\"data\":\"\\u0000\",\"expected\":1\x7d"
          else "\x7b\"data\":\"AA==\",\"expected\":1\x7d"))
      names := fun _ => .ok [] }
    let d : ExternalDecoder := ⟨"./holmes", false, false⟩
    let decode := d.toDecoder script.launcher
    script.host.Starts d.program ∧
      script.host.Fits ⟨.base64, "\x00"⟩ ∧ script.host.Fits ⟨.base64, "AA=="⟩ ∧
      (Fixture.load files "nul.json").toOption.map (·.payload) = some ⟨.base64, "\x00"⟩ ∧
      outOfReach (decode ⟨.base64, "\x00"⟩ ⟨[], []⟩).1 = true ∧
      outOfReach (decode ⟨.base64, "AA=="⟩ ⟨[], []⟩).1 = false ∧
      (run files decode ⟨true, false⟩ ["nul.json", "plain.json"] ⟨[], []⟩ {}).counts =
        some ⟨2, 1, 0, 1⟩ := by
  intro entries script files d decode
  have hstarts : script.host.Starts d.program := ⟨by decide +kernel, eq_ok_of_toBool (by decide +kernel)⟩
  refine ⟨hstarts, ?_, ?_, by decide +kernel, by decide +kernel, by decide +kernel, by decide +kernel⟩
  · unfold Host.Fits
    decide +kernel
  · unfold Host.Fits
    decide +kernel

end Suite
end Conformance
