import Conformance.Decoder.External
set_option autoImplicit false

/-!
# Runs recorded earlier

A transcript holds what the runs of a program printed, one run a line: the exit code, a blank and the
output. It answers the runs in order; behind its end there is no program.
-/
namespace Conformance.Transcript

/-- The run on a line. A line without a number in front is no run. -/
def launch? (line : String) : Option Launch :=
  let chars := line.toList
  let code := String.ofList (chars.takeWhile Char.isDigit)
  code.toNat?.map fun n => .ended (Utf8.encode ((chars.dropWhile Char.isDigit).drop 1)) [] (.exited n)

/-- The launcher whose state is what is left of the transcript. -/
def launcher : Launcher (List String) :=
  fun _ _ lines =>
    match lines with
    | [] => (.refused .notFound, [])
    | line :: rest => ((launch? line).getD (.refused (.other 0)), rest)

end Conformance.Transcript
