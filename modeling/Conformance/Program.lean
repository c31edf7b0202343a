import Conformance.Arguments
import Conformance.Decoder.External
import Conformance.Discovery
import Conformance.Suite
import Conformance.Text.Terminal
set_option autoImplicit false

/-!
# The whole command

A command line is read, the fixtures it names are found and run against the decoder, and the exit code
says whether all passed. A command line that cannot be read, or that asks for help or the version,
starts nothing.
-/
namespace Conformance

structure Completion (σ : Type) where
  exitCode : Nat
  output : Bytes
  log : Bytes
  world : σ

namespace Program

def versionText : String := "holmes-tester 0.1.0\n"

/-! ## The help -/

def strong (s : String) : String := Terminal.rendition "1" ++ s ++ Terminal.rendition "0"

def heading (s : String) : String :=
  Terminal.rendition "1" ++ Terminal.rendition "4" ++ s ++ Terminal.rendition "0"

def descriptionColumn : Nat := 24

/-- A description goes on in its own column after a line end. -/
def indented (s : String) : String :=
  String.ofList (s.toList.flatMap fun c =>
    if c = '\n' then '\n' :: List.replicate descriptionColumn ' ' else [c])

/-- The help as a terminal would get it. It shows what the environment says of the decoder. -/
def helpText (environment : Option String) : String :=
  "Checks a decoder against fixture files: every field listed under `expected` must appear in the decoded result with the same value\n\n" ++
  heading "Usage:" ++ " " ++ strong "holmes-tester" ++ " [OPTIONS] [FIXTURE]...\n\n" ++
  heading "Arguments:" ++ "\n" ++
  "  [FIXTURE]...  Fixture files to run in order, directories are expanded to the .json files inside them\n\n" ++
  heading "Options:" ++ "\n" ++
  "      " ++ strong "--decoder" ++ " <PATH>  Decoder executable, run as `<PATH> decode -b|-x <payload>` [env: HOLMES_DECODER=" ++
  indented (environment.getD "") ++ "] [default: " ++ Arguments.defaultDecoder ++ "]\n" ++
  "      " ++ strong "--keep-going" ++ "      Report every failing fixture instead of stopping at the first one\n" ++
  "      " ++ strong "--check-status" ++ "    Treat a decoder that exits unsuccessfully as a failure\n" ++
  "  " ++ strong "-v" ++ ", " ++ strong "--verbose" ++ "         Trace decoder runs on stderr and print a line per fixture plus a summary\n" ++
  "  " ++ strong "-h" ++ ", " ++ strong "--help" ++ "            Print help\n" ++
  "  " ++ strong "-V" ++ ", " ++ strong "--version" ++ "         Print version\n"

def complaint : Interruption → String
  | .unknownArgument => "error: unexpected argument\n"
  | .invalidValue => "error: a value is required\n"
  | .conflict => "error: an argument cannot be used multiple times\n"
  | .tooManyValues => "error: unexpected value\n"
  | .help => ""
  | .version => ""

def interrupted {σ : Type} (environment : Option String) (world : σ) : Interruption → Completion σ
  | .help => ⟨0, Terminal.plain (Utf8.ofString (helpText environment)), [], world⟩
  | .version => ⟨0, Utf8.ofString versionText, [], world⟩
  | e => ⟨2, [], Utf8.ofString (complaint e), world⟩

def decoderOf (options : Options) : ExternalDecoder :=
  ⟨options.decoder, options.checkStatus, options.verbose⟩

def settingsOf (options : Options) : Suite.Settings := ⟨options.keepGoing, options.verbose⟩

/-- Finds the fixtures and runs them, with an output that takes everything. -/
def execute {σ : Type} (files : FileSystem) (launch : Launcher σ) (options : Options) (world : σ) :
    Completion σ :=
  match Discovery.discover files options.fixtures with
  | .error e => ⟨1, Utf8.ofString ("Error: " ++ e.message ++ "\n"), [], world⟩
  | .ok paths =>
    let report := Suite.run files ((decoderOf options).toDecoder launch) (settingsOf options) paths
      ⟨world, []⟩ {}
    let code := if report.counts.any Counts.allPassed then 0 else 1
    ⟨code, report.out.written, report.decoder.log, report.decoder.world⟩

def run {σ : Type} (files : FileSystem) (launch : Launcher σ) (words : List String)
    (environment : Option String) (world : σ) : Completion σ :=
  match Arguments.parse words environment with
  | .error e => interrupted environment world e
  | .ok options => execute files launch options world

end Program
end Conformance
