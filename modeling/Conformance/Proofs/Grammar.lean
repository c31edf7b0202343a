import Conformance.Json.Reader.Skip
import Mathlib.Data.List.Basic
import Mathlib.Data.Nat.Notation
set_option autoImplicit false

/-!
# The texts of JSON values

Which byte strings are JSON values, said without a reader. Arrays and objects differ in their brackets
and in what stands in front of a value inside them, so that one set of rules serves both. `Enclosed`
lists what one pair of brackets holds: the text of each value, and for a member its key.
-/
namespace Conformance.Json

open Reader

/-! ## Pieces of text -/

def Spaces (w : Bytes) : Prop := ∀ b ∈ w, isSpace b = true

instance : DecidablePred Spaces := fun w => List.decidableBAll (fun b => isSpace b = true) w

def NoFront (p : UInt8 → Bool) (rest : Bytes) : Prop := ∀ b ∈ rest.head?, p b = false

def delimits (b : UInt8) : Bool := isSpace b || b == byte ',' || b == byte ']' || b == byte '\x7d'

/-- What may stand behind a value: nothing, or something that ends it. -/
def Delimited (rest : Bytes) : Prop := ∀ b ∈ rest.head?, delimits b = true

def continuesNumber (b : UInt8) : Bool :=
  isDigit b || b == byte '.' || b == byte 'e' || b == byte 'E'

/-! ## Numbers and strings -/

def Digits (ds : Bytes) : Prop := ds ≠ [] ∧ ∀ b ∈ ds, isDigit b = true

inductive WholeText : Bytes → Prop where
  | zero : WholeText [byte '0']
  | digits {b : UInt8} {ds : Bytes} (hfirst : isDigit b = true) (hzero : b ≠ byte '0')
      (hrest : ∀ c ∈ ds, isDigit c = true) : WholeText (b :: ds)

inductive ExponentText : Bytes → Prop where
  | none : ExponentText []
  | digits {e : UInt8} {ds : Bytes} (he : e = byte 'e' ∨ e = byte 'E') (hds : Digits ds) :
      ExponentText (e :: ds)
  | signed {e sign : UInt8} {ds : Bytes} (he : e = byte 'e' ∨ e = byte 'E')
      (hsign : sign = byte '+' ∨ sign = byte '-') (hds : Digits ds) : ExponentText (e :: sign :: ds)

/-- What follows the digits before the point. -/
inductive FractionText : Bytes → Prop where
  | none {p : Bytes} (hp : ExponentText p) : FractionText p
  | digits {ds p : Bytes} (hds : Digits ds) (hp : ExponentText p) :
      FractionText (byte '.' :: (ds ++ p))

/-- A number behind its sign. -/
inductive NumberText : Bytes → Prop where
  | intro {ds p : Bytes} (hds : WholeText ds) (hp : FractionText p) : NumberText (ds ++ p)

/-- A string behind its opening quote, with the closing one. -/
inductive StringText : Bytes → Prop where
  | closed : StringText [byte '"']
  | byte {b : UInt8} {p : Bytes} (hquote : b ≠ Reader.byte '"') (hslash : b ≠ Reader.byte '\\')
      (hcontrol : ¬ b < 0x20) (hp : StringText p) : StringText (b :: p)
  | letter {b : UInt8} {p : Bytes} (hb : (simpleEscape b).isSome = true) (hp : StringText p) :
      StringText (Reader.byte '\\' :: b :: p)
  | code {a b c d : UInt8} {p : Bytes} (ha : (hexDigit a).isSome = true)
      (hb : (hexDigit b).isSome = true) (hc : (hexDigit c).isSome = true)
      (hd : (hexDigit d).isSome = true) (hp : StringText p) :
      StringText (Reader.byte '\\' :: Reader.byte 'u' :: a :: b :: c :: d :: p)

/-! ## Values -/

def Reader.Bracket.opening : Bracket → UInt8
  | square => byte '['
  | curly => byte '\x7b'

/-- What stands between a value inside brackets and the one before it; the first has none. -/
inductive Separator : Bool → Bytes → Prop where
  | first : Separator true []
  | comma {w : Bytes} (hw : Spaces w) : Separator false (w ++ [byte ','])

inductive LabelText : Bracket → Bytes → Prop where
  | element {w : Bytes} (hw : Spaces w) : LabelText .square w
  | member {w k m i : Bytes} (hw : Spaces w) (hk : StringText k) (hm : Spaces m) (hi : Spaces i) :
      LabelText .curly (w ++ byte '"' :: (k ++ m ++ byte ':' :: i))

inductive Part where
  | value
  /-- From the opening bracket or from a value inside on, to the closing bracket and with it. -/
  | inside (bracket : Bracket) (first : Bool)

inductive Written : Part → Bytes → Prop where
  | nullWord : Written .value (['n', 'u', 'l', 'l'].map byte)
  | trueWord : Written .value (['t', 'r', 'u', 'e'].map byte)
  | falseWord : Written .value (['f', 'a', 'l', 's', 'e'].map byte)
  | number {p : Bytes} (hp : NumberText p) : Written .value p
  | negative {p : Bytes} (hp : NumberText p) : Written .value (byte '-' :: p)
  | string {p : Bytes} (hp : StringText p) : Written .value (byte '"' :: p)
  | enclosed {bracket : Bracket} {p : Bytes} (hp : Written (.inside bracket true) p) :
      Written .value (bracket.opening :: p)
  | closed {bracket : Bracket} {first : Bool} {w : Bytes} (hw : Spaces w) :
      Written (.inside bracket first) (w ++ [bracket.closing])
  | item {bracket : Bracket} {first : Bool} {s l v r : Bytes} (hs : Separator first s)
      (hl : LabelText bracket l) (hv : Written .value v)
      (hr : Written (.inside bracket false) r) : Written (.inside bracket first) (s ++ l ++ v ++ r)

abbrev ValueText (p : Bytes) : Prop := Written .value p

/-! ## What brackets hold -/

inductive KeyText (key : String) : Bytes → Prop where
  | intro {w k m i : Bytes} (hw : Spaces w) (hk : Reader.string k = .ok (key, [])) (hm : Spaces m)
      (hi : Spaces i) : KeyText key (w ++ byte '"' :: (k ++ m ++ byte ':' :: i))

section Entries

variable {α : Type} (bracket : Bracket) (label : α → Bytes → Prop)

/-- The values behind an opening bracket or behind a value inside, each with its label. -/
inductive Entries : Bool → List (α × Bytes) → Bytes → Prop where
  | closed {first : Bool} {w : Bytes} (hw : Spaces w) : Entries first [] (w ++ [bracket.closing])
  | item {first : Bool} {a : α} {s l v r : Bytes} {entries : List (α × Bytes)}
      (hs : Separator first s) (hl : label a l) (hv : ValueText v) (hr : Entries false entries r) :
      Entries first ((a, v) :: entries) (s ++ l ++ v ++ r)

inductive Enclosed (entries : List (α × Bytes)) : Bytes → Prop where
  | intro {before inside after : Bytes} (hbefore : Spaces before)
      (hinside : Entries bracket label true entries inside) (hafter : Spaces after) :
      Enclosed entries (before ++ bracket.opening :: (inside ++ after))

end Entries

abbrev ObjectText (members : List (String × Bytes)) (text : Bytes) : Prop :=
  Enclosed .curly KeyText members text

abbrev ArrayText (items : List Bytes) (text : Bytes) : Prop :=
  Enclosed .square (fun (_ : Unit) => Spaces) (items.map ((), ·)) text

/-! ## Blanks -/

section Blanks

variable {w rest : Bytes}

theorem noFront_nil (p : UInt8 → Bool) : NoFront p [] := nofun

theorem noFront_cons {p : UInt8 → Bool} {b : UInt8} (h : p b = false) (rest : Bytes) :
    NoFront p (b :: rest) := by
  intro c hc
  rwa [← Option.some.inj hc]

theorem NoFront.takeWhile_append {p : UInt8 → Bool} (hw : ∀ b ∈ w, p b = true) (h : NoFront p rest) :
    (w ++ rest).takeWhile p = w := by
  rw [List.takeWhile_append_of_pos hw]
  cases rest with
  | nil => simp
  | cons b rest => simp [h b rfl]

theorem NoFront.dropWhile_append {p : UInt8 → Bool} (hw : ∀ b ∈ w, p b = true) (h : NoFront p rest) :
    (w ++ rest).dropWhile p = rest := by
  rw [List.dropWhile_append_of_pos hw]
  cases rest with
  | nil => rfl
  | cons b rest => simp [h b rfl]

/-- What a run of such bytes leaves. -/
theorem exists_run (p : UInt8 → Bool) (r : Bytes) :
    ∃ w, r = w ++ r.dropWhile p ∧ (∀ b ∈ w, p b = true) ∧ w = r.takeWhile p ∧
      NoFront p (r.dropWhile p) := by
  refine ⟨r.takeWhile p, List.takeWhile_append_dropWhile.symm, ?_, rfl, ?_⟩
  · exact List.all_eq_true.1 List.all_takeWhile
  · intro b hb
    have hhead := List.head?_dropWhile_not p r
    rwa [hb] at hhead

theorem skipSpace_append (hw : Spaces w) : skipSpace (w ++ rest) = skipSpace rest :=
  List.dropWhile_append_of_pos hw

theorem skipSpace_of_noFront (h : NoFront isSpace rest) : skipSpace rest = rest := by
  cases rest with
  | nil => rfl
  | cons b rest => simp [skipSpace, h b rfl]

theorem skipSpace_cases (r : Bytes) : ∃ w, Spaces w ∧ r = w ++ skipSpace r ∧ NoFront isSpace (skipSpace r) := by
  obtain ⟨w, hr, hw, -, hfront⟩ := exists_run isSpace r
  exact ⟨w, hw, hr, hfront⟩

theorem spaces_append {v : Bytes} (hv : Spaces v) (hw : Spaces w) : Spaces (v ++ w) := by
  intro b hb
  exact (List.mem_append.1 hb).elim (hv b) (hw b)

theorem Spaces.delimited_append (hw : Spaces w) (h : Delimited rest) : Delimited (w ++ rest) := by
  cases w with
  | nil => exact h
  | cons b w =>
    intro c hc
    obtain rfl := Option.some.inj hc
    rw [delimits, hw b List.mem_cons_self]
    rfl

theorem Delimited.noFront (h : Delimited rest) : NoFront continuesNumber rest := by
  intro b hb
  have hdelimits := h b hb
  simp only [delimits, isSpace, Bool.or_eq_true, beq_iff_eq] at hdelimits
  rcases hdelimits with (((((rfl | rfl) | rfl) | rfl) | rfl) | rfl) | rfl <;> decide

end Blanks

/-! ## How texts begin -/

theorem isDigit_front {b : UInt8} (h : isDigit b = true) :
    isSpace b = false ∧ b ≠ byte ',' ∧ b ≠ byte ']' ∧ b ≠ byte '\x7d' := by
  refine ⟨?_, ?_, ?_, ?_⟩
  · by_contra hspace
    simp only [isSpace, Bool.not_eq_false, Bool.or_eq_true, beq_iff_eq] at hspace
    rcases hspace with ((rfl | rfl) | rfl) | rfl <;> cases h
  all_goals
    rintro rfl
    cases h

theorem NumberText.front {p : Bytes} (h : NumberText p) : ∃ b t, p = b :: t ∧ isDigit b = true := by
  obtain ⟨hds, _⟩ := h
  cases hds with
  | zero => exact ⟨_, _, rfl, rfl⟩
  | digits hfirst _ _ => exact ⟨_, _, rfl, hfirst⟩

/-- No value begins with a byte that ends one. -/
theorem ValueText.front {p : Bytes} (h : ValueText p) : ∃ b t, p = b :: t ∧ delimits b = false := by
  cases h with
  | nullWord => exact ⟨_, _, rfl, rfl⟩
  | trueWord => exact ⟨_, _, rfl, rfl⟩
  | falseWord => exact ⟨_, _, rfl, rfl⟩
  | number hp =>
    obtain ⟨b, t, rfl, hb⟩ := hp.front
    obtain ⟨hspace, hcomma, hsquare, hcurly⟩ := isDigit_front hb
    exact ⟨b, t, rfl, by simp [delimits, hspace, hcomma, hsquare, hcurly]⟩
  | negative _ => exact ⟨_, _, rfl, rfl⟩
  | string _ => exact ⟨_, _, rfl, rfl⟩
  | @enclosed bracket q _ =>
    cases bracket with
    | square => exact ⟨_, _, rfl, rfl⟩
    | curly => exact ⟨_, _, rfl, rfl⟩

theorem Reader.Bracket.delimits_closing (bracket : Bracket) : delimits bracket.closing = true := by
  cases bracket <;> rfl

theorem delimited_cons {b : UInt8} (h : delimits b = true) (rest : Bytes) : Delimited (b :: rest) := by
  intro c hc
  rwa [← Option.some.inj hc]

theorem Separator.delimited {s : Bytes} (h : Separator false s) (rest : Bytes) : Delimited (s ++ rest) := by
  cases h with
  | comma hw =>
    rw [List.append_assoc]
    exact hw.delimited_append (delimited_cons rfl rest)

theorem Written.delimited {bracket : Bracket} {p : Bytes} (h : Written (.inside bracket false) p)
    (rest : Bytes) : Delimited (p ++ rest) := by
  cases h with
  | closed hw =>
    rw [List.append_assoc]
    exact hw.delimited_append (delimited_cons bracket.delimits_closing rest)
  | item hs _ _ _ =>
    rw [List.append_assoc, List.append_assoc, List.append_assoc]
    exact hs.delimited _

end Conformance.Json
