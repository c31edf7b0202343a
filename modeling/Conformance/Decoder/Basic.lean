import Conformance.Fixture.Basic
import Conformance.SystemError
set_option autoImplicit false

/-!
# Decoders

A decoder answers payloads one after the other; an answer may depend on the earlier ones, which its
state stands for. Only a decoder that cannot be started is out of reach for good: the other errors are
bad answers to one payload.
-/
namespace Conformance

inductive ExitStatus where
  | exited (code : Nat)
  | killed (signal : Nat)
deriving DecidableEq, Repr

namespace ExitStatus

/-- The status of a program that ends itself with a code, of which eight bits are kept. -/
def ofCode (code : Int) : ExitStatus := .exited (code % 256).toNat

def success : ExitStatus → Bool
  | exited code => code == 0
  | killed _ => false

/-- The names of the signals from 1 on. -/
def signalNames : List String :=
  ["SIGHUP", "SIGINT", "SIGQUIT", "SIGILL", "SIGTRAP", "SIGABRT", "SIGBUS", "SIGFPE", "SIGKILL",
    "SIGUSR1", "SIGSEGV", "SIGUSR2", "SIGPIPE", "SIGALRM", "SIGTERM", "SIGSTKFLT", "SIGCHLD", "SIGCONT",
    "SIGSTOP", "SIGTSTP", "SIGTTIN", "SIGTTOU", "SIGURG", "SIGXCPU", "SIGXFSZ", "SIGVTALRM", "SIGPROF",
    "SIGWINCH", "SIGIO", "SIGPWR", "SIGSYS"]

def signalName? (signal : Nat) : Option String :=
  if signal = 0 then none else signalNames[signal - 1]?

def describe : ExitStatus → String
  | exited code => "exit status: " ++ toString code
  | killed signal =>
    "signal: " ++ toString signal ++
      match signalName? signal with
      | some name => " (" ++ name ++ ")"
      | none => ""

end ExitStatus

inductive DecodeError where
  | notStarted (program : String) (fault : StartFault)
  | notJson (e : Json.SyntaxError) (excerpt : String)
  | failed (status : ExitStatus)
deriving Repr

namespace DecodeError

def isFatal : DecodeError → Bool
  | notStarted _ _ => true
  | notJson _ _ => false
  | failed _ => false

def message : DecodeError → String
  | notStarted program fault => "cannot run decoder `" ++ program ++ "`: " ++ fault.message
  | notJson e excerpt =>
    "decoder output is not valid JSON (" ++ e.message ++ "): " ++ quoted excerpt
  | failed status => "decoder " ++ status.describe

end DecodeError

abbrev Decoder (σ : Type) := Payload → σ → Except DecodeError Json × σ

end Conformance
