import Conformance.Proofs.ExitCode
import Conformance.Proofs.InStep
import Conformance.Proofs.Schedule
set_option autoImplicit false

/-!
# Runs that look at the exit status

A run that checks the exit status of its decoder is compared with one that does not. The calls are the same,
and so is every verdict, but for the fixtures whose decoder ended without success: these fail where the status
is checked, whatever the output was. As no such failure is fatal, both runs go on to the same fixtures where
they keep going. What the decoder's runs leave in the log plays no part.
-/
namespace Conformance.Program

open Suite

def status? : Launch → Option ExitStatus
  | .refused _ => none
  | .ended _ _ status => some status

structure Pair where
  path : String
  checked : Except Failure Unit
  unchecked : Except Failure Unit

def Pair.event (pair : Pair) : Bool → Event
  | true => (pair.path, pair.checked)
  | false => (pair.path, pair.unchecked)

section Log

variable (files : List Call → FileSystem) (options : Options) (behaviour : Behaviour)

end Log

/-! ## One fixture -/

/-- What becomes of one fixture under both rules. Without a call it fails fatally, and a failure for the sake
of the status takes the place of a verdict that is not fatal either. -/
inductive Turn (behaviour : Behaviour) (earlier : List Call) :
    (checked unchecked : Except Failure Unit) → Option Call → Prop where
  | uncalled (failure : Failure) (fatal : failure.isFatal = true) :
      Turn behaviour earlier (.error failure) (.error failure) none
  | alike (call : Call) (verdict : Except Failure Unit)
      (successful : ∀ status, status? (behaviour earlier call) = some status → status.success = true) :
      Turn behaviour earlier verdict verdict (some call)
  | unlike (call : Call) (status : ExitStatus) (verdict : Except Failure Unit)
      (ended : status? (behaviour earlier call) = some status) (unsuccessful : status.success = false)
      (mild : ∀ failure, verdict = .error failure → failure.isFatal = false) :
      Turn behaviour earlier (.error (.decoding (.failed status))) verdict (some call)

section Turn

variable {files : List Call → FileSystem} {options : Options} {behaviour : Behaviour}

variable (files options behaviour)

end Turn

/-! ## Both runs -/

section Place

variable {files : List Call → FileSystem} {options : Options} {behaviour : Behaviour}
  {earlier calls : List Call} {call? : Option Call}

theorem Turn.passes {checked unchecked : Except Failure Unit}
    (turn : Turn behaviour earlier checked unchecked call?) (h : checked = .ok ()) : unchecked = .ok () := by
  cases turn with
  | uncalled failure fatal => cases h
  | alike call verdict successful => exact h
  | unlike call status verdict ended unsuccessful mild => cases h

end Place

section Runs

variable (files : List Call → FileSystem) (options : Options) (behaviour : Behaviour) (settings : Settings)

end Runs

end Conformance.Program
