import Conformance.Decoder.Basic
import Conformance.Proofs.FirstMismatch
import Conformance.Proofs.NumberText
set_option autoImplicit false

/-!
# Texts on one line

The parts of a message are fixed words, numbers, quoted text, documents and places in a document. None of
them has a line end, whatever was in the files and in the decoder's output.
-/
namespace Conformance

def OneLine (s : String) : Prop := '\n' ∉ s.toList

instance : DecidablePred OneLine := fun s => inferInstanceAs (Decidable ('\n' ∉ s.toList))

@[simp] theorem oneLine_append (s t : String) : OneLine (s ++ t) ↔ OneLine s ∧ OneLine t := by
  simp [OneLine]

@[simp] theorem oneLine_ofList (cs : List Char) : OneLine (String.ofList cs) ↔ '\n' ∉ cs := by
  simp [OneLine]

/-! ## Numbers and quoted text -/

theorem newline_ne_digitChar : ∀ d < 16, '\n' ≠ Nat.digitChar d := by
  decide

theorem newline_not_mem_toDigits {base : ℕ} (hbase : 1 < base) (hlimit : base ≤ 16) (n : ℕ) :
    '\n' ∉ Nat.toDigits base n := by
  intro h
  obtain ⟨d, hd, heq⟩ := mem_toDigits hbase h
  exact newline_ne_digitChar d (by omega) heq

theorem newline_not_mem_decimal (n : ℕ) : '\n' ∉ Nat.toDigits 10 n :=
  newline_not_mem_toDigits (by decide) (by decide) n

@[simp] theorem oneLine_nat (n : ℕ) : OneLine n.repr :=
  (oneLine_ofList _).2 (newline_not_mem_decimal n)

theorem Quoted.newline_not_mem_escape (c : Char) : '\n' ∉ escape c := by
  by_cases hc : c = '\n'
  · subst hc
    decide
  · have hhex : '\n' ∉ Nat.toDigits 16 c.toNat := newline_not_mem_toDigits (by decide) (by decide) c.toNat
    unfold escape
    split_ifs <;> simp [hex, hhex, Ne.symm hc]

/-- Quoting takes the line ends out of any text. -/
@[simp] theorem oneLine_quoted (s : String) : OneLine (quoted s) := by
  rw [quoted, oneLine_ofList]
  simp [Quoted.quote, Quoted.newline_not_mem_escape]

/-! ## Documents -/

namespace Json

theorem Number.newline_not_mem_text (n : Number) : '\n' ∉ n.text :=
  n.not_mem_text rfl (by decide)

theorem newline_not_mem_escape (c : Char) : '\n' ∉ escape c := by
  by_cases hc : c = '\n'
  · subst hc
    decide
  · have hlow := newline_ne_digitChar (c.toNat % 16) (by omega)
    have hhigh : c.toNat < 0x20 → '\n' ≠ Nat.digitChar (c.toNat / 16) :=
      fun h => newline_ne_digitChar _ (by omega)
    unfold escape
    split_ifs <;> simp_all [Ne.symm hc]

theorem newline_not_mem_stringText (s : String) : '\n' ∉ stringText s := by
  simp [stringText, newline_not_mem_escape]

mutual

theorem newline_not_mem_text (v : Json) : '\n' ∉ v.text := by
  cases v with
  | null => decide
  | bool b => cases b <;> decide
  | number n => exact n.newline_not_mem_text
  | string s => exact newline_not_mem_stringText s
  | array items => simp [text, newline_not_mem_itemsText items]
  | object members => simp [text, newline_not_mem_membersText members]

theorem newline_not_mem_itemsText (items : List Json) : '\n' ∉ itemsText items := by
  match items with
  | [] => exact List.not_mem_nil
  | [v] => exact newline_not_mem_text v
  | v :: w :: rest =>
    simp [itemsText, newline_not_mem_text v, newline_not_mem_itemsText (w :: rest)]

theorem newline_not_mem_membersText (members : List (String × Json)) : '\n' ∉ membersText members := by
  match members with
  | [] => exact List.not_mem_nil
  | [(k, v)] => simp [membersText, newline_not_mem_stringText, newline_not_mem_text v]
  | (k, v) :: m :: rest =>
    simp [membersText, newline_not_mem_stringText, newline_not_mem_text v,
      newline_not_mem_membersText (m :: rest)]

end

@[simp] theorem oneLine_render (v : Json) : OneLine v.render :=
  (oneLine_ofList _).2 v.newline_not_mem_text

@[simp] theorem oneLine_kindName (kind : Kind) : OneLine kind.name := by
  cases kind <;> decide

end Json

/-! ## Places and mismatches -/

/-- A key that is shown as it stands has no control character. -/
theorem Step.oneLine_render (s : Step) : OneLine s.render := by
  cases s with
  | index n => exact oneLine_nat n
  | key name =>
    rw [render]
    split
    · exact oneLine_quoted name
    · next h =>
      intro hmem
      have hawkward : isAwkward name = true := by
        unfold isAwkward
        rw [Bool.or_eq_true, List.any_eq_true]
        exact Or.inr ⟨'\n', hmem, by decide⟩
      exact h hawkward

theorem Path.oneLine_extend {place : Path} (h : OneLine place.text) (s : Step) :
    OneLine (place.extend s).text := by
  unfold extend child
  split
  · exact s.oneLine_render
  · simp +decide [h, s.oneLine_render]

theorem Path.oneLine_descend {place : Path} (h : OneLine place.text) (l : Location) :
    OneLine (place.descend l).text := by
  induction l generalizing place with
  | nil => exact h
  | cons s rest ih => exact ih (oneLine_extend h s)

theorem Mismatch.oneLine_message {m : Mismatch} (h : OneLine m.place.text) : OneLine m.message := by
  have hplace : OneLine m.place.render := by
    unfold Path.render
    split
    · decide
    · exact h
  cases m with
  | missing place =>
    change OneLine ("missing " ++ place.render ++ " from result")
    simp only [oneLine_append, show OneLine place.render from hplace]
    decide
  | kinds place a b =>
    change OneLine ("type mismatch at " ++ place.render ++ ": expected " ++ a.name ++ ", found " ++ b.name)
    simp only [oneLine_append, Json.oneLine_kindName, show OneLine place.render from hplace]
    decide
  | values place v w =>
    change OneLine ("mismatch at " ++ place.render ++ ": expected " ++ v.render ++ ", found " ++ w.render)
    simp only [oneLine_append, Json.oneLine_render, show OneLine place.render from hplace]
    decide

/-- What a comparison says fits on a line, whatever the documents hold. -/
theorem oneLine_of_compare {e o : Json} {m : Mismatch} (h : Comparison.compare e o = .error m) :
    OneLine m.message := by
  obtain ⟨l, v, hjudge⟩ := Comparison.exists_judge_of_compare h
  apply Mismatch.oneLine_message
  rw [Comparison.judge_place hjudge]
  exact Path.oneLine_descend (show OneLine Path.root.text by decide) l

/-! ## The system and its programs -/

@[simp] theorem SystemError.oneLine_message (e : SystemError) : OneLine e.message := by
  have hdescribe : OneLine e.describe := by
    cases e with
    | other code =>
      change OneLine ("Unknown error " ++ code.repr)
      simp only [oneLine_append, oneLine_nat]
      decide
    | _ => decide
  change OneLine (e.describe ++ " (os error " ++ e.code.repr ++ ")")
  simp only [oneLine_append, oneLine_nat, hdescribe]
  decide

theorem FileFault.oneLine_message (fault : FileFault) : OneLine fault.message := by
  cases fault with
  | system e => exact e.oneLine_message
  | nulInName => decide
  | notUtf8 => decide

theorem StartFault.oneLine_message (fault : StartFault) : OneLine fault.message := by
  cases fault with
  | system e => exact e.oneLine_message
  | nulInWord => decide

theorem ExitStatus.oneLine_describe (status : ExitStatus) : OneLine status.describe := by
  cases status with
  | exited code =>
    change OneLine ("exit status: " ++ code.repr)
    simp only [oneLine_append, oneLine_nat]
    decide
  | killed signal =>
    simp only [describe, oneLine_append, Nat.toString_eq_repr, oneLine_nat]
    cases hname : signalName? signal with
    | none => decide
    | some name =>
      have hmem : name ∈ signalNames := by
        unfold signalName? at hname
        split at hname
        · cases hname
        · exact List.mem_of_getElem? hname
      have hall : ∀ name ∈ signalNames, OneLine name := by decide
      simp only [oneLine_append, hall name hmem]
      decide

end Conformance
