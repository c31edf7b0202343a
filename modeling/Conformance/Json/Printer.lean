import Conformance.Json.Basic
set_option autoImplicit false

/-!
# The compact text of a document

No space between tokens, members in their order, and as few characters escaped as JSON allows.
-/
namespace Conformance.Json

def escape (c : Char) : List Char :=
  if c = '"' then ['\\', '"']
  else if c = '\\' then ['\\', '\\']
  else if c = '\x08' then ['\\', 'b']
  else if c = '\x0c' then ['\\', 'f']
  else if c = '\n' then ['\\', 'n']
  else if c = '\r' then ['\\', 'r']
  else if c = '\t' then ['\\', 't']
  else if c.toNat < 0x20 then
    ['\\', 'u', '0', '0', Nat.digitChar (c.toNat / 16), Nat.digitChar (c.toNat % 16)]
  else [c]

def stringText (s : String) : List Char := '"' :: (s.toList.flatMap escape ++ ['"'])

mutual

def text : Json → List Char
  | null => "null".toList
  | bool true => "true".toList
  | bool false => "false".toList
  | number n => n.text
  | string s => stringText s
  | array items => '[' :: (itemsText items ++ [']'])
  | object members => '\x7b' :: (membersText members ++ ['\x7d'])

def itemsText : List Json → List Char
  | [] => []
  | [v] => text v
  | v :: w :: rest => text v ++ ',' :: itemsText (w :: rest)

def membersText : List (String × Json) → List Char
  | [] => []
  | [(k, v)] => stringText k ++ ':' :: text v
  | (k, v) :: m :: rest => stringText k ++ ':' :: (text v ++ ',' :: membersText (m :: rest))

end

def render (v : Json) : String := String.ofList v.text

end Conformance.Json
