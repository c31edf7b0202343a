import Conformance.Decoder.Basic
import Conformance.Json.Reader.Value
import Conformance.Text.Blank
import Conformance.Text.Terminal
set_option autoImplicit false

/-!
# A decoder that is a program

The program is run once per payload with the words `decode`, the flag of the encoding and the data,
and its output is read as one JSON document. How a program is run is the launcher's business, which
has a state of its own. A trace, where it is asked for, goes to the log: the words before the program
starts and its output after it ended, with what the program itself says there in between.
-/
namespace Conformance

inductive Launch where
  | refused (e : SystemError)
  | ended (output diagnostics : Bytes) (status : ExitStatus)
deriving Repr

abbrev Launcher (σ : Type) := (program : String) → (words : List String) → σ → Launch × σ

/-- A launcher's state and what has been logged. -/
structure Session (σ : Type) where
  world : σ
  log : Bytes := []

structure ExternalDecoder where
  program : String
  checkStatus : Bool := false
  logging : Bool := false
deriving Repr

namespace ExternalDecoder

def words (payload : Payload) : List String := ["decode", payload.encoding.flag, payload.data]

/-- How much of an output is shown where it cannot be read, in characters. -/
def excerptLength : Nat := 60

def excerpt (output : Bytes) : String :=
  String.ofList ((Utf8.decodeLossy output).take excerptLength)

/-- What an output says about a payload. The exit status comes first where it counts at all. -/
def interpret (d : ExternalDecoder) (output : Bytes) (status : ExitStatus) :
    Except DecodeError Json :=
  if d.checkStatus && !status.success then .error (.failed status)
  else (Json.read output).mapError fun e => .notJson e (excerpt output)

/-! ## The trace -/

/-- A word as the trace shows it. One that holds a NUL cannot be a word of a program. -/
def showWord (quote : String → String) (word : String) : String :=
  quote (if hasNul word then "<string-with-nul>" else word)

/-- The program's name is shown as the bytes that the system looks up, the other words as text. -/
def startLine (program : String) (words : List String) : String :=
  Terminal.rendition "30;45" ++ " TX " ++ Terminal.rendition "0" ++ " " ++ showWord quotedOctets program
    ++ String.join (words.map fun word => " " ++ showWord quoted word) ++ "\n"

def endLine (output : Bytes) : String :=
  Terminal.rendition "30;44" ++ " RX " ++ Terminal.rendition "0" ++ " " ++ Terminal.rendition "34"
    ++ String.ofList (trimEnd (Utf8.decodeLossy output)) ++ Terminal.rendition "39" ++ "\n"

def trace (d : ExternalDecoder) (line : String) : Bytes :=
  if d.logging then Utf8.ofString line else []

/-- The decoder that runs the program. A word with a NUL is refused before anything is started. -/
def toDecoder {σ : Type} (d : ExternalDecoder) (launch : Launcher σ) : Decoder (Session σ) :=
  fun payload s =>
    let log := s.log ++ d.trace (startLine d.program (words payload))
    if hasNul d.program || hasNul payload.data then
      (.error (.notStarted d.program .nulInWord), ⟨s.world, log⟩)
    else
      match launch d.program (words payload) s.world with
      | (.refused e, world) => (.error (.notStarted d.program (.system e)), ⟨world, log⟩)
      | (.ended output diagnostics status, world) =>
        (d.interpret output status, ⟨world, log ++ diagnostics ++ d.trace (endLine output)⟩)

end ExternalDecoder
end Conformance
