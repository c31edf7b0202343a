import Conformance.Text.Unprintable
set_option autoImplicit false

/-!
# Quoted text

How a diagnostic quotes text that may hold anything: on one line, between double quotes, with every
character that does not show as an escape. There are two forms, which differ in ASCII alone: `quoted`
for text, and `quotedOctets` for what is a string of bytes first, such as the name of a program.
-/
namespace Conformance.Quoted

def hex (n : Nat) : List Char := Nat.toDigits 16 n

def escape (c : Char) : List Char :=
  if c = '\x00' then ['\\', '0']
  else if c = '\t' then ['\\', 't']
  else if c = '\n' then ['\\', 'n']
  else if c = '\r' then ['\\', 'r']
  else if c = '"' then ['\\', '"']
  else if c = '\\' then ['\\', '\\']
  else if isUnprintable c then ['\\', 'u', '\x7b'] ++ hex c.toNat ++ ['\x7d']
  else [c]

/-- The ASCII characters whose escape is a letter or a zero. -/
def hasLetter (c : Char) : Bool := c = '\x00' || c = '\t' || c = '\n' || c = '\r'

/-- In a string of bytes the single quote is escaped too, and an ASCII character that does not show
stands as the two digits of its byte. -/
def escapeOctet (c : Char) : List Char :=
  if c = '\x27' then ['\\', '\x27']
  else if c.toNat < 0x80 && isUnprintable c && !hasLetter c then
    ['\\', 'x', Nat.digitChar (c.toNat / 16), Nat.digitChar (c.toNat % 16)]
  else escape c

def quote (escape : Char → List Char) (text : List Char) : List Char :=
  '"' :: (text.flatMap escape ++ ['"'])

end Conformance.Quoted

namespace Conformance

/-- The text between double quotes, escaped so that it stays on one line. -/
def quoted (s : String) : String := String.ofList (Quoted.quote Quoted.escape s.toList)

def quotedOctets (s : String) : String := String.ofList (Quoted.quote Quoted.escapeOctet s.toList)

end Conformance
