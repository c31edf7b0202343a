import Conformance.Json.Fault
set_option autoImplicit false

/-!
# Fixtures

A fixture is an encoded payload and the fragment that the decoded document must contain.
-/
namespace Conformance

inductive Encoding where
  | base64 | hex
deriving DecidableEq, Repr

def Encoding.flag : Encoding → String
  | base64 => "-b"
  | hex => "-x"

structure Payload where
  encoding : Encoding
  data : String
deriving DecidableEq, Repr

structure Fixture where
  payload : Payload
  expected : Json
deriving Repr

end Conformance
