import Conformance.Fixture.Reader
import Conformance.Proofs.OneLine
set_option autoImplicit false

/-!
# What the readers complain of

The readers of values and the skipping reader report causes with a fixed text. The reader of fixtures adds
the names of its own fields, and what it found in the place of one. No text out of the document gets into a
complaint but in quotes.
-/
namespace Conformance

namespace Json

/-- A cause whose text does not depend on anything. -/
def Cause.isFixed : Cause → Bool
  | duplicateField _ | missingField _ | tooFewFields _ _ | wrongType _ _ => false
  | _ => true

/-- An outcome whose fault, if it is one, has a cause of the kind. -/
def Reports (P : Cause → Prop) {α : Type} : Except Fault α → Prop
  | .ok _ => True
  | .error fault => P fault.cause

namespace Reports

variable {P Q : Cause → Prop} {α β : Type} {x : Except Fault α}

theorem of_error (hx : Reports P x) {fault : Fault} (h : x = .error fault) : P fault.cause := by
  rw [h] at hx
  exact hx

theorem mono (hx : Reports P x) (h : ∀ c, P c → Q c) : Reports Q x := by
  cases x with
  | error fault => exact h _ hx
  | ok a => trivial

theorem map (hx : Reports P x) (f : α → β) : Reports P (x.map f) := by
  cases x with
  | error fault => exact hx
  | ok a => trivial

theorem bind (hx : Reports P x) {f : α → Except Fault β} (hf : ∀ a, Reports P (f a)) :
    Reports P (x >>= f) := by
  cases x with
  | error fault => exact hx
  | ok a => exact hf a

end Reports

abbrev Fixed {α : Type} (x : Except Fault α) : Prop := Reports (fun c => c.isFixed = true) x

namespace Reader

/-! ## Parts -/

theorem fixed_word (cs : List Char) (rest : Bytes) : Fixed (word cs rest) := by
  induction cs generalizing rest with
  | nil => trivial
  | cons c cs ih =>
    cases rest with
    | nil => rfl
    | cons b rest =>
      rw [word]
      split
      · exact ih rest
      · rfl

theorem fixed_nextElement (first : Bool) (rest : Bytes) : Fixed (nextElement first rest) := by
  unfold nextElement
  repeat' split
  all_goals trivial

theorem fixed_nextKey (first : Bool) (rest : Bytes) : Fixed (nextKey first rest) := by
  unfold nextKey
  repeat' split
  all_goals trivial

theorem fixed_colon (rest : Bytes) : Fixed (colon rest) := by
  unfold colon
  repeat' split
  all_goals trivial

theorem fixed_finish (rest : Bytes) : Fixed (finish rest) := by
  unfold finish
  split
  · trivial
  · rfl

/-! ## Numbers -/

theorem fixed_integerDigits (rest : Bytes) : Fixed (integerDigits rest) := by
  unfold integerDigits
  repeat' split
  all_goals trivial

theorem fixed_fractionDigits (rest : Bytes) : Fixed (fractionDigits rest) := by
  unfold fractionDigits
  repeat' split
  all_goals trivial

theorem fixed_withExponent (n : Number.Numeral) (rest : Bytes) : Fixed (withExponent n rest) := by
  unfold withExponent
  dsimp only
  repeat' split
  all_goals trivial

theorem fixed_exponentPart (n : Number.Numeral) (rest : Bytes) : Fixed (exponentPart n rest) := by
  unfold exponentPart
  repeat' split
  all_goals first | trivial | exact fixed_withExponent _ _

theorem fixed_fractionPart (n : Number.Numeral) (rest : Bytes) : Fixed (fractionPart n rest) := by
  unfold fractionPart
  split
  · trivial
  · split
    · exact (fixed_fractionDigits _).bind fun _ => fixed_exponentPart _ _
    · exact fixed_exponentPart _ _

theorem fixed_number (negative : Bool) (rest : Bytes) : Fixed (number negative rest) := by
  have hnumeral : Fixed (numeral negative rest) :=
    (fixed_integerDigits rest).bind fun _ => fixed_fractionPart _ _
  refine hnumeral.bind fun r => ?_
  dsimp only
  split
  · trivial
  · rfl

/-! ## Strings -/

theorem fixed_hexQuad (rest : Bytes) : Fixed (hexQuad rest) := by
  unfold hexQuad
  repeat' split
  all_goals trivial

theorem fixed_pairByte (c : Char) (rest : Bytes) : Fixed (pairByte c rest) := by
  unfold pairByte
  repeat' split
  all_goals trivial

theorem fixed_escapedCharacter (rest : Bytes) : Fixed (escapedCharacter rest) := by
  refine (fixed_hexQuad rest).bind fun r => ?_
  dsimp only
  split
  · rfl
  · split
    · refine (fixed_pairByte _ _).bind fun _ => (fixed_pairByte _ _).bind fun _ =>
        (fixed_hexQuad _).bind fun _ => ?_
      split
      · trivial
      · rfl
    · trivial

theorem fixed_escape (rest : Bytes) : Fixed (escape rest) := by
  unfold escape
  repeat' split
  all_goals first | trivial | exact fixed_escapedCharacter _

theorem fixed_stringBytes (steps : ℕ) (done rest : Bytes) : Fixed (stringBytes steps done rest) := by
  induction steps generalizing done rest with
  | zero => rfl
  | succ steps ih =>
    cases rest with
    | nil => rfl
    | cons b rest =>
      rw [stringBytes]
      repeat' split
      all_goals first | trivial | exact ih _ _ | exact (fixed_escape rest).of_error ‹_›

theorem fixed_string (rest : Bytes) : Fixed (string rest) := by
  unfold string
  repeat' split
  all_goals first | trivial | exact (fixed_stringBytes _ _ _).of_error ‹_›

/-! ## Values -/

section Items

variable {item : Reader Json} (hitem : ∀ rest, Fixed (item rest))
include hitem

theorem fixed_elements (steps : ℕ) (first : Bool) (done : List Json) (rest : Bytes) :
    Fixed (elements item steps first done rest) := by
  induction steps generalizing first done rest with
  | zero => rfl
  | succ steps ih =>
    unfold elements
    split
    · exact (fixed_nextElement first rest).of_error ‹_›
    · trivial
    · split
      · exact (hitem _).of_error ‹_›
      · exact ih _ _ _

theorem fixed_pairs (steps : ℕ) (first : Bool) (done : List (String × Json)) (rest : Bytes) :
    Fixed (pairs item steps first done rest) := by
  induction steps generalizing first done rest with
  | zero => rfl
  | succ steps ih =>
    unfold pairs
    split
    · exact (fixed_nextKey first rest).of_error ‹_›
    · trivial
    · split
      · exact (fixed_string _).of_error ‹_›
      · split
        · exact (fixed_colon _).of_error ‹_›
        · split
          · exact (hitem _).of_error ‹_›
          · exact ih _ _ _

end Items

theorem fixed_valueOver {inner : Option (Reader Json)} (hinner : ∀ item ∈ inner, ∀ rest, Fixed (item rest))
    (rest : Bytes) : Fixed (valueOver inner rest) := by
  unfold valueOver
  split
  · rfl
  · split
    · exact (fixed_word _ _).map _
    · exact (fixed_word _ _).map _
    · exact (fixed_word _ _).map _
    · exact (fixed_number _ _).map _
    · exact (fixed_number _ _).map _
    · exact (fixed_string _).map _
    · split
      · rfl
      · exact (fixed_elements (hinner _ rfl) _ _ _ _).map _
    · split
      · rfl
      · exact (fixed_pairs (hinner _ rfl) _ _ _ _).map _
    · rfl

theorem fixed_value (depth : ℕ) (rest : Bytes) : Fixed (value depth rest) := by
  induction depth generalizing rest with
  | zero => exact fixed_valueOver (fun _ h => by cases h) rest
  | succ depth ih =>
    refine fixed_valueOver ?_ rest
    rintro item ⟨⟩
    exact ih

theorem fixed_document (whole : Bytes) : Fixed (document whole) :=
  (fixed_value _ _).bind fun _ => (fixed_finish _).bind fun _ => trivial

/-! ## Values that nobody asks for -/

theorem fixed_skipExponent (rest : Bytes) : Fixed (skipExponent rest) := by
  unfold skipExponent
  dsimp only
  repeat' split
  all_goals trivial

theorem fixed_skipExponentPart (rest : Bytes) : Fixed (skipExponentPart rest) := by
  unfold skipExponentPart
  repeat' split
  all_goals first | trivial | exact fixed_skipExponent _

theorem fixed_skipFractionPart (rest : Bytes) : Fixed (skipFractionPart rest) := by
  unfold skipFractionPart
  repeat' split
  all_goals first | trivial | exact fixed_skipExponentPart _

theorem fixed_skipNumber (rest : Bytes) : Fixed (skipNumber rest) := by
  unfold skipNumber
  repeat' split
  all_goals first | trivial | exact fixed_skipFractionPart _

theorem fixed_skipStringBytes (steps : ℕ) (rest : Bytes) : Fixed (skipStringBytes steps rest) := by
  induction steps generalizing rest with
  | zero => rfl
  | succ steps ih =>
    cases rest with
    | nil => rfl
    | cons b rest =>
      rw [skipStringBytes.eq_def]
      dsimp only
      repeat' split
      all_goals first | trivial | exact ih _ | exact (fixed_hexQuad _).of_error ‹_›

theorem fixed_skipString (rest : Bytes) : Fixed (skipString rest) := fixed_skipStringBytes _ _

theorem fixed_skipKey (inside : Bracket) (rest : Bytes) : Fixed (skipKey inside rest) := by
  unfold skipKey
  repeat' split
  all_goals first | trivial | exact fixed_colon _ | exact (fixed_skipString _).of_error ‹_›

theorem fixed_skipScalar (b : UInt8) (tail : Bytes) : Fixed (skipScalar b tail) := by
  unfold skipScalar
  split
  · exact fixed_word _ _
  · exact fixed_word _ _
  · exact fixed_word _ _
  · exact fixed_skipNumber _
  · exact fixed_skipNumber _
  · exact fixed_skipString _
  · rfl

theorem Bracket.isFixed_endInside (bracket : Bracket) : bracket.endInside.isFixed = true := by
  cases bracket <;> rfl

theorem Bracket.isFixed_expectedComma (bracket : Bracket) : bracket.expectedComma.isFixed = true := by
  cases bracket <;> rfl

mutual

theorem fixed_skipValue (steps : ℕ) (enclosing : List Bracket) (rest : Bytes) :
    Fixed (skipValue steps enclosing rest) := by
  match steps with
  | 0 => rfl
  | steps + 1 =>
    rw [skipValue]
    split
    · rfl
    · split
      · split
        · exact (fixed_skipScalar _ _).of_error ‹_›
        · exact fixed_skipAfter steps _ _
      · split
        · exact Bracket.isFixed_endInside _
        · split
          · exact fixed_skipAfter steps _ _
          · split
            · exact (fixed_skipKey _ _).of_error ‹_›
            · exact fixed_skipValue steps _ _

theorem fixed_skipAfter (steps : ℕ) (enclosing : List Bracket) (rest : Bytes) :
    Fixed (skipAfter steps enclosing rest) := by
  match steps, enclosing with
  | _, [] =>
    unfold skipAfter
    trivial
  | 0, bracket :: _ => exact bracket.isFixed_endInside
  | steps + 1, bracket :: enclosing =>
    rw [skipAfter]
    split
    · exact bracket.isFixed_endInside
    · split
      · exact fixed_skipAfter steps _ _
      · split
        · split
          · exact (fixed_skipKey _ _).of_error ‹_›
          · exact fixed_skipValue steps _ _
        · exact bracket.isFixed_expectedComma

end

end Reader

/-! ## Texts -/

theorem Cause.oneLine_of_isFixed {c : Cause} (h : c.isFixed = true) : OneLine c.describe := by
  cases c with
  | duplicateField | missingField | tooFewFields | wrongType => cases h
  | _ => decide

theorem Found.oneLine_describe (found : Found) : OneLine found.describe := by
  cases found with
  | null | array | object => decide
  | bool b => cases b <;> decide
  | string s =>
    change OneLine ("string " ++ quoted s)
    simp only [oneLine_append, oneLine_quoted]
    decide
  | number n =>
    have htext := n.newline_not_mem_text
    cases n with
    | double x =>
      change OneLine ("floating point `" ++ String.ofList (Number.text (.double x)) ++ "`")
      simp only [oneLine_append, oneLine_ofList, htext]
      decide
    | natural n h | negative n h =>
      change OneLine ("integer `" ++ String.ofList (Number.text _) ++ "`")
      simp only [oneLine_append, oneLine_ofList, htext]
      decide

theorem SyntaxError.oneLine_message {e : SyntaxError} (h : OneLine e.cause.describe) :
    OneLine e.message := by
  change OneLine (e.cause.describe ++ " at line " ++ e.line.repr ++ " column " ++ e.column.repr)
  simp only [oneLine_append, oneLine_nat, h]
  decide

abbrev Legible {α : Type} (x : Except Fault α) : Prop := Reports (fun c => OneLine c.describe) x

theorem Reports.legible {α : Type} {x : Except Fault α} (h : Fixed x) : Legible x :=
  h.mono fun _ => Cause.oneLine_of_isFixed

/-- A text that cannot be read as a document is complained of in one line. -/
theorem oneLine_of_read {whole : Bytes} {e : SyntaxError} (h : read whole = .error e) : OneLine e.message := by
  obtain ⟨fault, hdocument, rfl⟩ := mapError_eq_error_iff.1 h
  exact SyntaxError.oneLine_message ((Reader.fixed_document whole).legible.of_error hdocument)

end Json

/-! ## Fixtures -/

namespace Fixture

open Json Json.Reader

namespace Record

theorem legible_wrongType {α : Type} {wanted : String} (hwanted : OneLine wanted) (b : UInt8) (tail : Bytes) :
    Legible (wrongType wanted b tail : Except Fault α) := by
  have hrefuse : ∀ (found : Found) (rest : Bytes),
      Legible (.error (.here (.wrongType found wanted) rest) : Except Fault α) := by
    intro found rest
    change OneLine ("invalid type: " ++ found.describe ++ ", expected " ++ wanted)
    simp only [oneLine_append, found.oneLine_describe, hwanted]
    decide
  unfold wrongType
  dsimp only
  split
  · exact (fixed_word _ _).legible.bind fun _ => hrefuse _ _
  · exact (fixed_word _ _).legible.bind fun _ => hrefuse _ _
  · exact (fixed_word _ _).legible.bind fun _ => hrefuse _ _
  · exact (fixed_number _ _).legible.bind fun _ => hrefuse _ _
  · exact (fixed_number _ _).legible.bind fun _ => hrefuse _ _
  · exact (fixed_string _).legible.bind fun _ => hrefuse _ _
  · exact hrefuse _ _
  · exact hrefuse _ _
  · exact Cause.oneLine_of_isFixed rfl

theorem legible_payloadText (rest : Bytes) : Legible (payloadText rest) := by
  unfold payloadText
  split
  · exact Cause.oneLine_of_isFixed rfl
  · split
    · exact (fixed_word _ _).legible.map _
    · exact (fixed_string _).legible.map _
    · exact legible_wrongType (by decide) _ _

theorem legible_readField (draft : Draft) (rest : Bytes) (field : Field) :
    Legible (readField draft rest field) := by
  cases field with
  | data | hexdata => exact (legible_payloadText rest).map _
  | expected => exact (fixed_value _ rest).legible.map _

theorem oneLine_fieldName (field : Field) : OneLine field.name := by
  cases field <;> decide

theorem legible_members (steps : ℕ) (first : Bool) (draft : Draft) (rest : Bytes) :
    Legible (members steps first draft rest) := by
  induction steps generalizing first draft rest with
  | zero => exact Cause.oneLine_of_isFixed rfl
  | succ steps ih =>
    -- only a repeated field is complained of by name, and the names are the fixture's own
    unfold members
    split
    · exact (fixed_nextKey first rest).legible.of_error ‹_›
    · trivial
    · split
      · exact (fixed_string _).legible.of_error ‹_›
      · split
        · split
          · exact (fixed_colon _).legible.of_error ‹_›
          · split
            · exact (fixed_skipValue _ _ _).legible.of_error ‹_›
            · exact ih _ _ _
        · next field _ =>
          split
          · change OneLine ("duplicate field `" ++ field.name ++ "`")
            simp only [oneLine_append, oneLine_fieldName]
            decide
          · split
            · exact (fixed_colon _).legible.of_error ‹_›
            · split
              · exact (legible_readField _ _ _).of_error ‹_›
              · exact ih _ _ _

theorem legible_ofMembers (rest : Bytes) : Legible (ofMembers rest) := by
  refine (legible_members _ _ _ _).bind fun r => ?_
  dsimp only
  split
  · exact (show OneLine ("missing field `" ++ Field.expected.name ++ "`") by decide)
  · trivial

theorem fixed_endOfElements (rest : Bytes) : Fixed (endOfElements rest) := by
  unfold endOfElements
  repeat' split
  all_goals trivial

theorem legible_element (index : ℕ) (rest : Bytes) : Legible (element index rest) := by
  refine (fixed_nextElement _ _).legible.bind fun turn => ?_
  cases turn with
  | item rest => trivial
  | closed rest =>
    change OneLine ("invalid length " ++ index.repr ++ ", expected " ++ (wanted ++ " with 3 elements"))
    simp only [oneLine_append, oneLine_nat]
    decide

theorem legible_ofElements (rest : Bytes) : Legible (ofElements rest) :=
  (legible_element _ _).bind fun _ => (legible_payloadText _).bind fun _ =>
    (legible_element _ _).bind fun _ => (legible_payloadText _).bind fun _ =>
      (legible_element _ _).bind fun _ => (fixed_value _ _).legible.bind fun _ =>
        (fixed_endOfElements _).legible.bind fun _ => trivial

theorem legible_document (whole : Bytes) : Legible (document whole) := by
  have hread : Legible (read whole) := by
    unfold read
    split
    · exact Cause.oneLine_of_isFixed rfl
    · split
      · exact legible_ofMembers _
      · exact legible_ofElements _
      · exact legible_wrongType (by decide) _ _
  exact hread.bind fun _ => (fixed_finish _).legible.bind fun _ => trivial

end Record

/-- A fixture that cannot be loaded is complained of in one line, whatever its text. -/
theorem oneLine_of_load {files : FileSystem} {path : String} {e : FixtureError}
    (h : load files path = .error e) : OneLine e.message := by
  cases e with
  | noPayload | twoPayloads => decide
  | unreadable fault =>
    change OneLine ("cannot read fixture: " ++ fault.message)
    simp only [oneLine_append, fault.oneLine_message]
    decide
  | malformed e =>
    have hmessage : OneLine e.message := by
      unfold load at h
      split at h
      · cases h
      · unfold parse at h
        dsimp only at h
        split at h
        · next hdocument =>
          cases h
          exact SyntaxError.oneLine_message ((Record.legible_document _).of_error hdocument)
        · next record _ =>
          unfold Record.resolve at h
          split at h <;> cases h
    change OneLine ("malformed fixture: " ++ e.message)
    simp only [oneLine_append, hmessage]
    decide

end Fixture
end Conformance
