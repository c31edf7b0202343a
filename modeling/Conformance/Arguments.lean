set_option autoImplicit false

/-!
# The command line

Words are read from left to right. Fixtures and the value of a detached `--decoder` are held back and
judged when the next option that is known, a fixture behind a value, or the end is met; an unknown
option and a value given to a flag are reported before what is held back.
-/
namespace Conformance

structure Options where
  fixtures : List String
  decoder : String
  keepGoing : Bool
  checkStatus : Bool
  verbose : Bool
deriving DecidableEq, Repr

/-- Why the reading of a command line ends early: a complaint, or a request that stands alone. -/
inductive Interruption where
  | unknownArgument | invalidValue | conflict | tooManyValues
  | help | version
deriving DecidableEq, Repr

namespace Arguments

inductive Flag where
  | keepGoing | checkStatus | verbose | help | version
deriving DecidableEq, Repr

/-- What is not judged yet: fixtures, or `--decoder` before and behind its value. -/
inductive Held where
  | nothing
  | fixtures (values : List String)
  | decoder
  | decoderValue (value : String)
deriving DecidableEq, Repr

structure Draft where
  fixtures : List String := []
  decoder : Option String := none
  keepGoing : Bool := false
  checkStatus : Bool := false
  verbose : Bool := false
  held : Held := .nothing
deriving DecidableEq, Repr

namespace Draft

def setDecoder (d : Draft) (value : String) : Except Interruption Draft :=
  if d.decoder.isSome then .error .conflict else .ok { d with decoder := some value }

/-- Judges what is held back: a fixture is no empty word, a decoder needs a value and is given once. -/
def settle (d : Draft) : Except Interruption Draft :=
  let free := { d with held := .nothing }
  match d.held with
  | .nothing => .ok free
  | .fixtures values =>
    if values.any (·.isEmpty) then .error .invalidValue
    else .ok { free with fixtures := d.fixtures ++ values }
  | .decoder => .error .invalidValue
  | .decoderValue value => free.setDecoder value

def holdFixture (d : Draft) (word : String) : Except Interruption Draft :=
  match d.held with
  | .fixtures values => .ok { d with held := .fixtures (values ++ [word]) }
  | _ => d.settle.map fun d => { d with held := .fixtures [word] }

def raise (d : Draft) : Flag → Except Interruption Draft
  | .keepGoing =>
    if d.keepGoing then .error .conflict else .ok { d with keepGoing := true }
  | .checkStatus =>
    if d.checkStatus then .error .conflict else .ok { d with checkStatus := true }
  | .verbose => if d.verbose then .error .conflict else .ok { d with verbose := true }
  | .help => .error .help
  | .version => .error .version

def flag (d : Draft) (f : Flag) : Except Interruption Draft :=
  match d.settle with
  | .error e => .error e
  | .ok d => d.raise f

end Draft

def Flag.ofLetter? (c : Char) : Option Flag :=
  if c = 'v' then some verbose else if c = 'h' then some help else if c = 'V' then some version
  else none

def Flag.ofName? (name : String) : Option Flag :=
  if name = "keep-going" then some keepGoing
  else if name = "check-status" then some checkStatus
  else if name = "verbose" then some verbose
  else if name = "help" then some help
  else if name = "version" then some version
  else none

def letters (d : Draft) : List Char → Except Interruption Draft
  | [] => .ok d
  | c :: cs =>
    match Flag.ofLetter? c with
    | none => .error .unknownArgument
    | some f =>
      match d.flag f with
      | .error e => .error e
      | .ok d => letters d cs

/-- The name of a long option and the value behind its first equals sign. -/
def splitValue (chars : List Char) : String × Option String :=
  match chars.dropWhile (· ≠ '=') with
  | [] => (String.ofList chars, none)
  | _ :: value => (String.ofList (chars.takeWhile (· ≠ '=')), some (String.ofList value))

def long (d : Draft) (name : String) (value : Option String) : Except Interruption Draft :=
  if name = "decoder" then
    match d.settle with
    | .error e => .error e
    | .ok d =>
      match value with
      | some value => d.setDecoder value
      | none => .ok { d with held := .decoder }
  else
    match Flag.ofName? name, value with
    | none, _ => .error .unknownArgument
    | some _, some _ => .error .tooManyValues
    | some f, none => d.flag f

/-- A word that is no option: the value of `--decoder`, or a fixture. -/
def plain (d : Draft) (word : String) : Except Interruption Draft :=
  match d.held with
  | .decoder => .ok { d with held := .decoderValue word }
  | _ => d.holdFixture word

def holdAll (d : Draft) : List String → Except Interruption Draft
  | [] => .ok d
  | word :: rest =>
    match d.holdFixture word with
    | .error e => .error e
    | .ok d => holdAll d rest

/-- A word in front of `--`. A dash alone is plain. -/
def word (d : Draft) (text : String) : Except Interruption Draft :=
  match text.toList with
  | '-' :: '-' :: rest => long d (splitValue rest).1 (splitValue rest).2
  | '-' :: c :: rest => letters d (c :: rest)
  | _ => plain d text

def scan (d : Draft) : List String → Except Interruption Draft
  | [] => .ok d
  | text :: rest =>
    if text = "--" then holdAll d rest
    else
      match word d text with
      | .error e => .error e
      | .ok d => scan d rest

def defaultDecoder : String := "holmes"

/-- The decoder comes from the command line, else from the environment, where it may be empty. -/
def Draft.options (d : Draft) (environment : Option String) : Options :=
  ⟨d.fixtures, (d.decoder <|> environment).getD defaultDecoder, d.keepGoing, d.checkStatus, d.verbose⟩

def parse (words : List String) (environment : Option String) : Except Interruption Options :=
  match scan {} words with
  | .error e => .error e
  | .ok d =>
    match d.settle with
    | .error e => .error e
    | .ok d => .ok (d.options environment)

end Arguments
end Conformance
