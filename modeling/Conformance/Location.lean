import Conformance.Text.Quoted
set_option autoImplicit false

/-!
# Places in a document

A step leads from a node to one of its members or elements; a list of steps is a location. On the way
down a document the steps are gathered as a path, which is the text that is shown: the steps joined by
dots, a key that would read ambiguously there, or break the line, in quotes. A path without text is the
root, which has a name to be shown by.
-/
namespace Conformance

inductive Step where
  | key (name : String)
  | index (n : Nat)
deriving DecidableEq, Repr

namespace Step

def isControl (c : Char) : Bool := c.toNat < 0x20 || (0x7F ≤ c.toNat && c.toNat < 0xA0)

/-- An empty key, one with a dot and one with a control character are awkward. -/
def isAwkward (name : String) : Bool :=
  name.isEmpty || name.toList.any fun c => c == '.' || isControl c

def render : Step → String
  | key name => if isAwkward name then quoted name else name
  | index n => toString n

end Step

abbrev Location := List Step

/-- A place as it is shown, and nothing else. -/
structure Path where
  text : String
deriving DecidableEq, Repr

namespace Path

def root : Path := ⟨""⟩

/-- Only the text tells whether there is something to put a dot behind. -/
def child (place : Path) (segment : String) : Path :=
  if place.text.isEmpty then ⟨segment⟩ else ⟨place.text ++ "." ++ segment⟩

def extend (place : Path) (step : Step) : Path := place.child step.render

def render (place : Path) : String := if place.text.isEmpty then "(root)" else place.text

end Path
end Conformance
