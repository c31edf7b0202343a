set_option autoImplicit false

/-!
# UTF-8

Text as bytes and bytes as text. `characters` splits any byte string into characters and ill-formed
pieces; a piece is the longest start of some character's form, or one byte that starts none.
`decode?` reads text strictly, `decodeLossy` puts U+FFFD for each piece, and `validLength` is how far
a strict reading gets.
-/
namespace Conformance

abbrev Bytes := List UInt8

namespace Utf8

def encode (text : List Char) : Bytes := text.flatMap String.utf8EncodeChar

def ofString (s : String) : Bytes := encode s.toList

/-- Between two characters, or inside one: the continuation bytes still owed, the least and the
greatest byte that the next may be, and the bits read so far. -/
inductive State where
  | between
  | inside (owed : Nat) (least greatest : UInt8) (bits : Nat)

/-- What a byte between two characters does: it is a character, it opens one, or neither. -/
inductive Start where
  | character (c : Char)
  | opening (owed : Nat) (least greatest : UInt8) (bits : Nat)
  | illFormed

def start (b : UInt8) : Start :=
  if b < 0x80 then .character (Char.ofNat b.toNat)
  else if b < 0xC2 then .illFormed
  else if b < 0xE0 then .opening 1 0x80 0xBF (b.toNat - 0xC0)
  else if b = 0xE0 then .opening 2 0xA0 0xBF 0
  else if b = 0xED then .opening 2 0x80 0x9F 0xD
  else if b < 0xF0 then .opening 2 0x80 0xBF (b.toNat - 0xE0)
  else if b = 0xF0 then .opening 3 0x90 0xBF 0
  else if b < 0xF4 then .opening 3 0x80 0xBF (b.toNat - 0xF0)
  else if b = 0xF4 then .opening 3 0x80 0x8F 4
  else .illFormed

/-- The characters of a byte string in order, `none` for each ill-formed piece. -/
def charactersFrom : State → Bytes → List (Option Char)
  | .between, [] => []
  | .inside _ _ _ _, [] => [none]
  | .between, b :: rest =>
    match start b with
    | .character c => some c :: charactersFrom .between rest
    | .opening owed least greatest bits => charactersFrom (.inside owed least greatest bits) rest
    | .illFormed => none :: charactersFrom .between rest
  | .inside owed least greatest bits, b :: rest =>
    if least ≤ b ∧ b ≤ greatest then
      let bits := bits * 64 + (b.toNat - 0x80)
      if owed = 1 then some (Char.ofNat bits) :: charactersFrom .between rest
      else charactersFrom (.inside (owed - 1) 0x80 0xBF bits) rest
    else
      none :: match start b with
        | .character c => some c :: charactersFrom .between rest
        | .opening owed least greatest bits => charactersFrom (.inside owed least greatest bits) rest
        | .illFormed => none :: charactersFrom .between rest

def characters (bytes : Bytes) : List (Option Char) := charactersFrom .between bytes

def decode? (bytes : Bytes) : Option (List Char) :=
  let cs := characters bytes
  if cs.all Option.isSome then some (cs.filterMap id) else none

def decodeLossy (bytes : Bytes) : List Char :=
  (characters bytes).map (·.getD '\uFFFD')

/-- The length in bytes of the characters before the first ill-formed piece. -/
def validLength (bytes : Bytes) : Nat :=
  (encode (((characters bytes).takeWhile Option.isSome).filterMap id)).length

end Utf8
end Conformance
