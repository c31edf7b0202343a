set_option autoImplicit false

/-!
# What the operating system refuses

The refusals that files and programs meet, with the number and the text that the system gives them,
and those that a file name, a file's bytes or a program's words meet before the system is asked.
-/
namespace Conformance

inductive SystemError where
  | notFound | wordTooLong | accessDenied | notADirectory | isADirectory | tooManyOpenFiles
  | nameTooLong | tooManyLinks
  | other (code : Nat)
deriving DecidableEq, Repr

namespace SystemError

def code : SystemError → Nat
  | notFound => 2
  | wordTooLong => 7
  | accessDenied => 13
  | notADirectory => 20
  | isADirectory => 21
  | tooManyOpenFiles => 24
  | nameTooLong => 36
  | tooManyLinks => 40
  | other code => code

def describe : SystemError → String
  | notFound => "No such file or directory"
  | wordTooLong => "Argument list too long"
  | accessDenied => "Permission denied"
  | notADirectory => "Not a directory"
  | isADirectory => "Is a directory"
  | tooManyOpenFiles => "Too many open files"
  | nameTooLong => "File name too long"
  | tooManyLinks => "Too many levels of symbolic links"
  | other code => "Unknown error " ++ toString code

def message (e : SystemError) : String :=
  e.describe ++ " (os error " ++ toString e.code ++ ")"

end SystemError

inductive FileFault where
  | system (e : SystemError)
  | nulInName
  | notUtf8
deriving DecidableEq, Repr

def FileFault.message : FileFault → String
  | system e => e.message
  | nulInName => "file name contained an unexpected NUL byte"
  | notUtf8 => "stream did not contain valid UTF-8"

inductive StartFault where
  | system (e : SystemError)
  | nulInWord
deriving DecidableEq, Repr

def StartFault.message : StartFault → String
  | system e => e.message
  | nulInWord => "nul byte found in provided data"

def hasNul (s : String) : Bool := s.toList.any (· == '\x00')

end Conformance
