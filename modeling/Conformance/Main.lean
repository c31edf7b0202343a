import Conformance.Decoder.Transcript
import Conformance.FileSystem.Observed
import Conformance.Program
set_option autoImplicit false

/-!
# The command line program

Looks at the files that the command line names, runs the command on what it saw and prints what comes
of it. The decoder's runs are read from standard input as a transcript.
-/
namespace Conformance.Main

def systemError (e : IO.Error) : SystemError :=
  match e with
  | .noFileOrDirectory _ _ _ => .notFound
  | .permissionDenied _ _ _ => .accessDenied
  | .inappropriateType _ code _ =>
    if code = 21 then .isADirectory else if code = 20 then .notADirectory else .other code.toNat
  | .resourceExhausted _ code _ => if code = 24 then .tooManyOpenFiles else .other code.toNat
  | .invalidArgument _ code _ =>
    if code = 36 then .nameTooLong else if code = 40 then .tooManyLinks else .other code.toNat
  | .otherError code _ => .other code.toNat
  | _ => .other 5

def attempt {α : Type} (action : IO α) : IO (Except FileFault α) := do
  match ← action.toBaseIO with
  | .ok value => pure (.ok value)
  | .error e => pure (.error (.system (systemError e)))

def kindOf (path : String) : IO (Option FileKind) := do
  match ← attempt ((← IO.currentDir) / path).metadata with
  | .ok data =>
    match data.type with
    | .dir => pure (some .directory)
    | .file => pure (some .file)
    | _ => pure none
  | .error _ => pure none

def namesOf (path : String) : IO (Except FileFault (List String)) := do
  let listed ← attempt ((← IO.currentDir) / path).readDir
  pure (listed.map fun entries => entries.toList.map (·.fileName))

def observe (path : String) : IO Observation := do
  let contents ← attempt (IO.FS.readBinFile path)
  pure ⟨path, ← kindOf path, contents.map (·.toList), ← namesOf path⟩

/-- A path, and the entries where it is a directory. -/
def observeAround (path : String) : IO (List Observation) := do
  let seen ← observe path
  match seen.names with
  | .ok names => pure (seen :: (← names.mapM fun name => observe (FileSystem.entryPath path name)))
  | .error _ => pure [seen]

def observeAll (paths : List String) : IO (List Observation) := do
  let seen ← paths.mapM observeAround
  pure seen.flatten

def readTranscript : IO (List String) := do
  let text ← (← IO.getStdin).readToEnd
  pure ((text.splitOn "\n").filter fun line => !line.isEmpty)

def put (stream : IO.FS.Stream) (bytes : Bytes) : IO Unit := do
  stream.write bytes.toByteArray
  stream.flush

def execute (words : List String) (environment : Option String) : IO UInt32 := do
  let (seen, transcript) ← match Arguments.parse words environment with
    | .ok options => pure (← observeAll options.fixtures, ← readTranscript)
    | .error _ => pure ([], [])
  let completion :=
    Program.run (Observation.toFileSystem seen) Transcript.launcher words environment transcript
  put (← IO.getStderr) completion.log
  put (← IO.getStdout) completion.output
  pure completion.exitCode.toUInt32

end Conformance.Main

def main (words : List String) : IO UInt32 := do
  Conformance.Main.execute words (← IO.getEnv "HOLMES_DECODER")
