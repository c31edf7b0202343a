import Conformance.Decoder.External
import Conformance.FileSystem.Snapshot
set_option autoImplicit false

/-!
# A program with prepared answers

A script stands in for a decoder program: it answers by the first entry that fits its words and
records every run. It is started through a snapshot, where a program may be missing or not executable.
-/
namespace Conformance

structure ScriptEntry where
  flag : String := "-b"
  /-- None fits every run. -/
  data : Option String
  output : Bytes
  diagnostics : Bytes
  status : ExitStatus
deriving Repr

namespace ScriptEntry

def fits (entry : ScriptEntry) (words : List String) : Bool :=
  match entry.data with
  | none => true
  | some data => words[1]? == some entry.flag && words[2]? == some data

end ScriptEntry

/-- Where programs are looked for and what the one that is found answers. -/
structure Script where
  files : Snapshot
  search : List String
  entries : List ScriptEntry

namespace Script

def answer (script : Script) (words : List String) : Launch :=
  match script.entries.find? (·.fits words) with
  | some entry => .ended entry.output entry.diagnostics entry.status
  | none => .ended [] [] (.exited 0)

/-- The longest word in bytes that a program can be given. -/
def maxWord : Nat := 131071

/-- The launcher whose state is the list of runs, in order. -/
def launcher (script : Script) : Launcher (List (List String)) :=
  fun program words runs =>
    match script.files.startProgram script.search program with
    | .error e => (.refused e, runs)
    | .ok () =>
      if words.any fun word => maxWord < word.utf8ByteSize then (.refused .wordTooLong, runs)
      else (script.answer words, runs ++ [words])

end Script
end Conformance
