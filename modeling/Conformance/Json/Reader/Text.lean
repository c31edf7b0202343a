import Conformance.Json.Reader.Basic
set_option autoImplicit false

/-!
# String texts

A string is gathered as bytes, an escape as the UTF-8 of the character it stands for. Whether the
whole is well formed is asked once, behind the closing quote.
-/
namespace Conformance.Json.Reader

def hexDigit (b : UInt8) : Option Nat :=
  if 0x30 ≤ b ∧ b ≤ 0x39 then some (b.toNat - 0x30)
  else if 0x41 ≤ b ∧ b ≤ 0x46 then some (b.toNat - 0x37)
  else if 0x61 ≤ b ∧ b ≤ 0x66 then some (b.toNat - 0x57)
  else none

def hexQuad : Bytes → Except Fault (Nat × Bytes)
  | a :: b :: c :: d :: rest =>
    match hexDigit a, hexDigit b, hexDigit c, hexDigit d with
    | some a, some b, some c, some d => .ok (((a * 16 + b) * 16 + c) * 16 + d, rest)
    | _, _, _, _ => .error (.here .invalidEscape rest)
  | _ => .error (.here .endInString [])

/-- The byte `c` of an escaped pair of surrogates. -/
def pairByte (c : Char) : Bytes → Except Fault Bytes
  | [] => .error (.here .endInString [])
  | b :: rest => if b = byte c then .ok rest else .error (.here .unpairedSurrogate rest)

/-- The character of a numeric escape, a pair of them for one beyond U+FFFF. -/
def escapedCharacter (rest : Bytes) : Except Fault (Char × Bytes) := do
  let (n, rest) ← hexQuad rest
  if 0xDC00 ≤ n ∧ n ≤ 0xDFFF then .error (.here .loneSurrogate rest)
  else if 0xD800 ≤ n ∧ n ≤ 0xDBFF then
    let rest ← pairByte '\\' rest
    let rest ← pairByte 'u' rest
    let (low, rest) ← hexQuad rest
    if 0xDC00 ≤ low ∧ low ≤ 0xDFFF then
      .ok (Char.ofNat ((n - 0xD800) * 1024 + (low - 0xDC00) + 0x10000), rest)
    else .error (.here .loneSurrogate rest)
  else .ok (Char.ofNat n, rest)

def simpleEscape (b : UInt8) : Option Char :=
  if b = byte '"' then some '"'
  else if b = byte '\\' then some '\\'
  else if b = byte '/' then some '/'
  else if b = byte 'b' then some '\x08'
  else if b = byte 'f' then some '\x0c'
  else if b = byte 'n' then some '\n'
  else if b = byte 'r' then some '\r'
  else if b = byte 't' then some '\t'
  else none

def escape : Bytes → Except Fault (Char × Bytes)
  | [] => .error (.here .endInString [])
  | b :: rest =>
    match simpleEscape b with
    | some c => .ok (c, rest)
    | none => if b = byte 'u' then escapedCharacter rest else .error (.here .invalidEscape rest)

/-- The bytes of a string up to its closing quote, in front of them those read before, reversed. The
number of steps is bounded by the bytes left. -/
def stringBytes : Nat → Bytes → Bytes → Except Fault (Bytes × Bytes)
  | 0, _, _ => .error (.here .endInString [])
  | _ + 1, _, [] => .error (.here .endInString [])
  | steps + 1, done, b :: rest =>
    if b = byte '"' then .ok (done.reverse, rest)
    else if b = byte '\\' then
      match escape rest with
      | .error fault => .error fault
      | .ok (c, rest) => stringBytes steps ((String.utf8EncodeChar c).reverse ++ done) rest
    else if b < 0x20 then .error (.here .controlCharacter rest)
    else stringBytes steps (b :: done) rest

/-- A string behind its opening quote. An ill-formed piece is reported as many columns before the
closing quote as bytes follow it. -/
def string (rest : Bytes) : Except Fault (String × Bytes) :=
  match stringBytes (rest.length + 1) [] rest with
  | .error fault => .error fault
  | .ok (bytes, rest) =>
    match Utf8.decode? bytes with
    | some text => .ok (String.ofList text, rest)
    | none => .error ⟨.invalidUtf8, rest.length, bytes.length - Utf8.validLength bytes⟩

end Conformance.Json.Reader
