import Conformance.Text.Utf8
set_option autoImplicit false

/-!
# Text for a terminal

A terminal takes part of what it receives as orders: control characters, and sequences that begin with
ESC. `rendition` writes the sequence that sets colour and weight. `plain` is what is left for an output
that is no terminal: text and white space.

In a short sequence white space is carried out on the spot, and the sequence goes on behind it. `plain`
shows what follows there as text, up to the next control character, which takes the sequence up again.
-/
namespace Conformance.Terminal

def rendition (parameters : String) : String := "\x1b[" ++ parameters ++ "m"

/-- How far a sequence has got. A `string` is ended by the byte 0x9C, also where this byte is a part of
a character, and a `command` by BEL. -/
inductive Place where
  | text
  | escape
  | escapeIntermediate
  | control
  | deviceEntry
  | deviceParameters
  | deviceIntermediate
  | string
  | command
deriving DecidableEq, Repr

namespace Place

/-- The place behind a byte that follows ESC. The bytes 0x5B, 0x5D and 0x50 open a control sequence, an
operating system command and a device control string. -/
def afterEscape (b : UInt8) : Place :=
  if b < 0x20 || 0x7F ≤ b then escape
  else if b < 0x30 then escapeIntermediate
  else if b = 0x5B then control
  else if b = 0x5D then command
  else if b = 0x50 then deviceEntry
  else if b = 0x58 || b = 0x5E || b = 0x5F then string
  else text

/-- The place behind a byte. CAN and SUB end every sequence and ESC begins another one. -/
def next (place : Place) (b : UInt8) : Place :=
  if b = 0x18 || b = 0x1A then text
  else if b = 0x1B then escape
  else match place with
    | text => text
    | escape => afterEscape b
    | escapeIntermediate => if 0x30 ≤ b && b < 0x7F then text else escapeIntermediate
    | control => if 0x40 ≤ b && b < 0x7F then text else control
    | deviceEntry =>
      if b < 0x20 || 0x7F ≤ b then deviceEntry
      else if b < 0x30 then deviceIntermediate
      else if b < 0x40 then deviceParameters
      else string
    | deviceParameters =>
      if b < 0x20 || 0x7F ≤ b then deviceParameters
      else if b < 0x30 then deviceIntermediate
      else if b < 0x3C then deviceParameters
      else string
    | deviceIntermediate => if 0x30 ≤ b && b < 0x7F then string else deviceIntermediate
    | string => if b = 0x9C then text else string
    | command => if b = 0x07 then text else command

end Place

/-- The control characters that are white space. -/
def movesCursor (b : UInt8) : Bool := b = 0x09 || b = 0x0A || b = 0x0C || b = 0x0D

/-- A byte that belongs to shown text or white space. -/
def isText (b : UInt8) : Bool := movesCursor b || (0x20 ≤ b && b ≠ 0x7F)

/-- A byte with which shown text begins. -/
def Place.begins (place : Place) (b : UInt8) : Bool :=
  match place with
  | .text => isText b && !(0x80 ≤ b && b < 0xC0)
  | .escape | .escapeIntermediate | .control => movesCursor b
  | _ => false

/-- The shown part of what follows a place. A character beyond ASCII ends the sequence that it
interrupts. -/
def plainFrom : (showing : Bool) → Place → Bytes → Bytes
  | _, _, [] => []
  | showing, place, b :: rest =>
    if (showing && isText b) || place.begins b then
      b :: plainFrom true (if 0x80 ≤ b then .text else place) rest
    else plainFrom false (place.next b) rest

/-- What an output that is no terminal receives. -/
def plain (bytes : Bytes) : Bytes := plainFrom false .text bytes

end Conformance.Terminal
