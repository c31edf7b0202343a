import Conformance.Comparison
import Conformance.Decoder.Basic
import Conformance.Fixture.Reader
import Conformance.Text.Terminal
set_option autoImplicit false

/-!
# Running fixtures against a decoder

Fixtures are taken in order. Each is loaded, decoded and compared; its lines are written before the
next one is begun. A failure ends the run unless the run keeps going, and a fatal one ends it anyway.
What is left then counts as skipped. The output may refuse to take more, which ends the run at once.
-/
namespace Conformance

inductive Failure where
  | fixture (e : FixtureError)
  | decoding (e : DecodeError)
  | mismatch (m : Mismatch)
deriving Repr

namespace Failure

/-- A fatal failure ends a run that would keep going. -/
def isFatal : Failure → Bool
  | fixture _ => true
  | decoding e => e.isFatal
  | mismatch _ => false

def message : Failure → String
  | fixture e => e.message
  | decoding e => e.message
  | mismatch m => m.message

end Failure

structure Counts where
  total : Nat
  skipped : Nat
  passed : Nat
  failed : Nat
deriving DecidableEq, Repr

def Counts.allPassed (c : Counts) : Bool := c.failed == 0

/-! ## Output -/

/-- Bytes written so far, and how many more will be taken where there is a limit. -/
structure Sink where
  room : Option Nat := none
  written : Bytes := []
deriving Repr

/-- Writes as much as there is room for, and tells whether that was all. -/
def Sink.write (out : Sink) (bytes : Bytes) : Sink × Bool :=
  match out.room with
  | none => (⟨none, out.written ++ bytes⟩, true)
  | some n => (⟨some (n - bytes.length), out.written ++ bytes.take n⟩, bytes.length ≤ n)

namespace Suite

structure Settings where
  keepGoing : Bool := false
  verbose : Bool := false
deriving DecidableEq, Repr

inductive Colour where
  | red | green | yellow
deriving DecidableEq, Repr

def Colour.code : Colour → String
  | red => "31"
  | green => "32"
  | yellow => "33"

def coloured (colour : Colour) (text : String) : String :=
  Terminal.rendition colour.code ++ text ++ Terminal.rendition "39"

def errorLine (path : String) (failure : Failure) : String :=
  "Error: " ++ path ++ ": " ++ failure.message ++ "\n"

def lines (settings : Settings) (path : String) : Except Failure Unit → String
  | .ok () => if settings.verbose then coloured .green "PASS" ++ " " ++ path ++ "\n" else ""
  | .error failure =>
    (if settings.verbose then coloured .red "FAIL" ++ " " ++ path ++ "\n" else "")
      ++ errorLine path failure

/-- One part of the summary, left out where nothing is counted. -/
def summaryPart (colour : Colour) (count : Nat) (word : String) : String :=
  if 0 < count then coloured colour (toString count) ++ " " ++ coloured colour word ++ ", " else ""

def summary (c : Counts) : String :=
  "\n" ++ summaryPart .red c.failed "failed" ++ summaryPart .yellow c.skipped "skipped"
    ++ summaryPart .green c.passed "passed" ++ toString c.total ++ " total\n"

/-! ## The run -/

/-- Loads fixtures. It shares its state with the decoder, as a program may change the files that are
loaded after it. -/
abbrev Loader (σ : Type) := String → σ → Except FixtureError Fixture × σ

/-- Loads from files that stay as they are. -/
def loader {σ : Type} (files : FileSystem) : Loader σ := fun path s => (Fixture.load files path, s)

/-- What is done with one fixture, one stage after the other on a shared state. -/
structure Stages (σ : Type) where
  load : Loader σ
  decode : Decoder σ
  compare : (expected observed : Json) → σ → Except Mismatch Unit × σ

/-- The comparison leaves the state alone. -/
def stagesOf {σ : Type} (load : Loader σ) (decode : Decoder σ) : Stages σ :=
  ⟨load, decode, fun expected observed s => (Comparison.compare expected observed, s)⟩

def check {σ : Type} (stages : Stages σ) (path : String) (s : σ) : Except Failure Unit × σ :=
  match stages.load path s with
  | (.error e, s) => (.error (.fixture e), s)
  | (.ok fixture, s) =>
    match stages.decode fixture.payload s with
    | (.error e, s) => (.error (.decoding e), s)
    | (.ok observed, s) =>
      match stages.compare fixture.expected observed s with
      | (verdict, s) => (verdict.mapError .mismatch, s)

def ends (settings : Settings) : Except Failure Unit → Bool
  | .ok () => false
  | .error failure => failure.isFatal || !settings.keepGoing

structure Progress (σ : Type) where
  passed : Nat := 0
  failed : Nat := 0
  world : σ
  out : Sink

def Progress.count {σ : Type} (p : Progress σ) : Except Failure Unit → Progress σ
  | .ok () => { p with passed := p.passed + 1 }
  | .error _ => { p with failed := p.failed + 1 }

/-- Takes the fixtures in order up to the end of the run; the flag tells whether the output took
everything. -/
def process {σ : Type} (stages : Stages σ) (settings : Settings) :
    List String → Progress σ → Progress σ × Bool
  | [], p => (p, true)
  | path :: rest, p =>
    match check stages path p.world with
    | (verdict, s) =>
      match p.out.write (Utf8.ofString (lines settings path verdict)) with
      | (out, taken) =>
        let p := { p.count verdict with world := s, out := out }
        if taken = false then (p, false)
        else if ends settings verdict then (p, true)
        else process stages settings rest p

/-- What a run leaves behind. There are no counts where the output refused to take everything. -/
structure Report (σ : Type) where
  counts : Option Counts
  decoder : σ
  out : Sink

def runWith {σ : Type} (stages : Stages σ) (settings : Settings) (paths : List String) (s : σ)
    (out : Sink) : Report σ :=
  match process stages settings paths ⟨0, 0, s, out⟩ with
  | (p, false) => ⟨none, p.world, p.out⟩
  | (p, true) =>
    let counts : Counts := ⟨paths.length, paths.length - p.passed - p.failed, p.passed, p.failed⟩
    if settings.verbose then
      match p.out.write (Utf8.ofString (summary counts)) with
      | (out, taken) => ⟨if taken then some counts else none, p.world, out⟩
    else ⟨some counts, p.world, p.out⟩

def run {σ : Type} (files : FileSystem) (decoder : Decoder σ) (settings : Settings)
    (paths : List String) (s : σ) (out : Sink) : Report σ :=
  runWith (stagesOf (loader files) decoder) settings paths s out

end Suite
end Conformance
