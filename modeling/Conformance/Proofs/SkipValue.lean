import Conformance.Proofs.ReadString
set_option autoImplicit false

/-!
# Skipping takes exactly the text of a value

The machine keeps the open brackets in a list and counts its steps. A piece of text moves it from one
state to another with the rest of the text and the list of brackets around the piece unchanged; the
number of steps that takes is no greater than the length of the piece, which is why `skip` has enough.
-/
namespace Conformance.Json

/-! ## What a byte begins -/

section Lead

open Reader

def Reader.Begins : Lead → UInt8 → Prop
  | .null, b => b = byte 'n'
  | .true, b => b = byte 't'
  | .false, b => b = byte 'f'
  | .minus, b => b = byte '-'
  | .digit, b => isDigit b = true
  | .quote, b => b = byte '"'
  | .bracket, b => b = byte '['
  | .brace, b => b = byte '\x7b'
  | .other, _ => True

theorem Reader.begins_of (b : UInt8) : Begins (Lead.of b) b := by
  unfold Lead.of
  split_ifs <;> first | assumption | trivial

theorem Reader.lead_of_digit {b : UInt8} (h : isDigit b = true) : Lead.of b = .digit := by
  have hne : ∀ c, isDigit c = false → b ≠ c := by
    rintro c hc rfl
    rw [h] at hc
    cases hc
  unfold Lead.of
  rw [if_neg (hne _ rfl), if_neg (hne _ rfl), if_neg (hne _ rfl), if_neg (hne _ rfl), if_pos h]

theorem Reader.Bracket.opened?_opening (bracket : Bracket) : opened? bracket.opening = some bracket := by
  cases bracket <;> rfl

theorem Reader.Bracket.eq_opening {b : UInt8} {bracket : Bracket} (h : opened? b = some bracket) :
    b = bracket.opening := by
  have hb := begins_of b
  rw [opened?] at h
  split at h
  · next hlead =>
    obtain rfl := Option.some.inj h
    rwa [hlead] at hb
  · next hlead =>
    obtain rfl := Option.some.inj h
    rwa [hlead] at hb
  · cases h

theorem Reader.Bracket.isSpace_opening (bracket : Bracket) : isSpace bracket.opening = false := by
  cases bracket <;> rfl

theorem Reader.Bracket.isSpace_closing (bracket : Bracket) : isSpace bracket.closing = false := by
  cases bracket <;> rfl

theorem isSpace_of_delimits {b : UInt8} (h : delimits b = false) : isSpace b = false := by
  simp only [delimits, Bool.or_eq_false_iff] at h
  exact h.1.1.1

theorem Reader.Bracket.ne_closing (bracket : Bracket) {b : UInt8} (h : delimits b = false) :
    b ≠ bracket.closing := by
  rintro rfl
  rw [bracket.delimits_closing] at h
  cases h

end Lead

theorem spaces_nil : Spaces [] := nofun

theorem LabelText.append_spaces {bracket : Reader.Bracket} {l w : Bytes} (hl : LabelText bracket l)
    (hw : Spaces w) : LabelText bracket (l ++ w) := by
  cases hl with
  | element hl => exact .element (spaces_append hl hw)
  | @member v k m i hv hk hm hi =>
    have h := LabelText.member hv hk hm (spaces_append hi hw)
    simpa only [List.append_assoc, List.cons_append] using h

theorem LabelText.spaces_append {bracket : Reader.Bracket} {l w : Bytes} (hw : Spaces w)
    (hl : LabelText bracket l) : LabelText bracket (w ++ l) := by
  cases hl with
  | element hl => exact .element (Json.spaces_append hw hl)
  | member hv hk hm hi =>
    rw [← List.append_assoc]
    exact .member (Json.spaces_append hw hv) hk hm hi

namespace Reader

variable {w p l rest : Bytes} {steps : ℕ} {bracket : Bracket} {enclosing : List Bracket}

theorem skipSpace_spaces_cons {b : UInt8} (hw : Spaces w) (hb : isSpace b = false) (rest : Bytes) :
    skipSpace (w ++ b :: rest) = b :: rest := by
  rw [skipSpace_append hw, skipSpace_of_noFront (noFront_cons hb rest)]

theorem word_append (cs : List Char) (rest : Bytes) : word cs (cs.map byte ++ rest) = .ok rest := by
  induction cs with
  | nil => rfl
  | cons c cs ih => rwa [List.map_cons, List.cons_append, word, if_pos rfl]

theorem eq_append_of_word {cs : List Char} {r left : Bytes} (h : word cs r = .ok left) :
    r = cs.map byte ++ left := by
  induction cs generalizing r with
  | nil => exact Except.ok.inj h
  | cons c cs ih =>
    cases r with
    | nil => cases h
    | cons b r =>
      rw [word] at h
      split at h
      · next hb => rw [hb, ih h, List.map_cons, List.cons_append]
      · cases h

/-! ## Values without brackets -/

theorem skipScalar_sound {b : UInt8} {tail left : Bytes} (h : skipScalar b tail = .ok left) :
    ∃ p, b :: tail = p ++ left ∧ ValueText p := by
  have hb := begins_of b
  rw [skipScalar] at h
  cases hlead : Lead.of b with
  | null =>
    rw [hlead] at h hb
    exact ⟨_, by rw [hb, eq_append_of_word h]; rfl, .nullWord⟩
  | true =>
    rw [hlead] at h hb
    exact ⟨_, by rw [hb, eq_append_of_word h]; rfl, .trueWord⟩
  | false =>
    rw [hlead] at h hb
    exact ⟨_, by rw [hb, eq_append_of_word h]; rfl, .falseWord⟩
  | minus =>
    rw [hlead] at h hb
    obtain ⟨p, rfl, hp⟩ := skipNumber_takes.sound h
    exact ⟨b :: p, rfl, hb ▸ .negative hp⟩
  | digit =>
    rw [hlead] at h
    obtain ⟨p, hp, htext⟩ := skipNumber_takes.sound h
    exact ⟨p, hp, .number htext⟩
  | quote =>
    rw [hlead] at h hb
    obtain ⟨p, rfl, hp⟩ := skipString_takes.sound h
    exact ⟨b :: p, rfl, hb ▸ .string hp⟩
  | bracket | brace | other =>
    rw [hlead] at h
    cases h

theorem skipValue_scalar {b : UInt8} {tail : Bytes} (hspace : isSpace b = false)
    (hopened : Bracket.opened? b = none) (h : skipScalar b tail = .ok rest) :
    skipValue (steps + 1) enclosing (b :: tail) = skipAfter steps enclosing rest := by
  rw [skipValue, skipSpace_of_noFront (noFront_cons hspace tail)]
  simp only [hopened, h]

/-! ## Labels -/

theorem colon_append {m : Bytes} (hm : Spaces m) (rest : Bytes) :
    colon (m ++ byte ':' :: rest) = .ok rest := by
  rw [colon, skipSpace_spaces_cons hm rfl]
  exact if_pos rfl

theorem colon_ok {r left : Bytes} (h : colon r = .ok left) :
    ∃ m, Spaces m ∧ r = m ++ byte ':' :: left := by
  obtain ⟨m, hm, hr, -⟩ := skipSpace_cases r
  rw [colon] at h
  split at h
  · cases h
  · next b tail hskip =>
    split at h
    · next hb =>
      obtain rfl := Except.ok.inj h
      exact ⟨m, hm, by rw [hr, hskip, hb]⟩
    · cases h

theorem skipKey_sound {r left : Bytes} (h : skipKey bracket r = .ok left) :
    ∃ l, r = l ++ left ∧ LabelText bracket l := by
  cases bracket with
  | square => exact ⟨[], Except.ok.inj h, .element spaces_nil⟩
  | curly =>
    obtain ⟨w, hw, hr, -⟩ := skipSpace_cases r
    rw [skipKey] at h
    split at h
    · cases h
    · next b tail hskip =>
      split at h
      · next hb =>
        split at h
        · cases h
        · next behind hkey =>
          obtain ⟨k, rfl, hk⟩ := skipString_takes.sound hkey
          obtain ⟨m, hm, rfl⟩ := colon_ok h
          refine ⟨w ++ byte '"' :: (k ++ m ++ byte ':' :: []), ?_, .member hw hk hm spaces_nil⟩
          rw [hr, hskip, hb]
          simp
      · cases h

theorem skipKey_complete (hl : LabelText bracket l) (rest : Bytes) :
    ∃ i, Spaces i ∧ skipKey bracket (l ++ rest) = .ok (i ++ rest) := by
  cases hl with
  | element hl => exact ⟨l, hl, rfl⟩
  | @member w k m i hw hk hm hi =>
    refine ⟨i, hi, ?_⟩
    simp only [List.append_assoc, List.cons_append]
    rw [skipKey, skipSpace_spaces_cons hw rfl]
    dsimp only
    rw [if_pos rfl, skipString_takes.complete hk trivial]
    exact colon_append hm _

/-- In front of a value inside brackets the machine does not mistake the label for a closing bracket. -/
theorem skipKey_front (hl : LabelText bracket l) {v : Bytes} (hv : ValueText v) (rest : Bytes) :
    ∃ b t i, skipSpace (l ++ (v ++ rest)) = b :: t ∧ b ≠ bracket.closing ∧ Spaces i ∧
      skipKey bracket (b :: t) = .ok (i ++ (v ++ rest)) := by
  cases hl with
  | element hl =>
    obtain ⟨b, t, rfl, hb⟩ := hv.front
    exact ⟨b, t ++ rest, [], skipSpace_spaces_cons hl (isSpace_of_delimits hb) _,
      Bracket.ne_closing _ hb, spaces_nil, rfl⟩
  | @member w k m i hw hk hm hi =>
    have hlabel := LabelText.member spaces_nil hk hm hi
    obtain ⟨i', hi', hkey⟩ := skipKey_complete hlabel (v ++ rest)
    refine ⟨byte '"', k ++ m ++ byte ':' :: i ++ (v ++ rest), i', ?_, by decide, hi', hkey⟩
    rw [List.append_assoc w, List.cons_append]
    exact skipSpace_spaces_cons hw (by decide) _

/-! ## Single moves -/

theorem skipValue_spaces (hw : Spaces w) (rest : Bytes) :
    skipValue steps enclosing (w ++ rest) = skipValue steps enclosing rest := by
  cases steps with
  | zero => rfl
  | succ steps => rw [skipValue, skipValue, skipSpace_append hw]

theorem skipAfter_closing (hw : Spaces w) (rest : Bytes) :
    skipAfter (steps + 1) (bracket :: enclosing) (w ++ bracket.closing :: rest) =
      skipAfter steps enclosing rest := by
  rw [skipAfter, skipSpace_spaces_cons hw bracket.isSpace_closing]
  exact if_pos rfl

theorem skipAfter_item {s : Bytes} (hs : Separator false s) (hl : LabelText bracket l) (rest : Bytes) :
    skipAfter (steps + 1) (bracket :: enclosing) (s ++ (l ++ rest)) =
      skipValue steps (bracket :: enclosing) rest := by
  obtain ⟨w, hw, rfl⟩ : ∃ w, Spaces w ∧ s = w ++ [byte ','] := by
    cases hs with
    | comma hw => exact ⟨_, hw, rfl⟩
  obtain ⟨i, hi, hkey⟩ := skipKey_complete hl rest
  have hclosing : byte ',' ≠ bracket.closing := by cases bracket <;> decide
  rw [List.append_assoc, List.singleton_append, skipAfter, skipSpace_spaces_cons hw rfl]
  dsimp only
  rw [if_neg hclosing, if_pos rfl, hkey]
  exact skipValue_spaces hi rest

theorem skipValue_closed (hw : Spaces w) (rest : Bytes) :
    skipValue (steps + 1) enclosing (bracket.opening :: (w ++ bracket.closing :: rest)) =
      skipAfter steps enclosing rest := by
  rw [skipValue, skipSpace_of_noFront (noFront_cons bracket.isSpace_opening _)]
  simp only [bracket.opened?_opening, skipSpace_spaces_cons hw bracket.isSpace_closing, if_true]

theorem skipValue_item (hl : LabelText bracket l) {v : Bytes} (hv : ValueText v) (rest : Bytes) :
    skipValue (steps + 1) enclosing (bracket.opening :: (l ++ (v ++ rest))) =
      skipValue steps (bracket :: enclosing) (v ++ rest) := by
  obtain ⟨b, t, i, hfront, hb, hi, hkey⟩ := skipKey_front hl hv rest
  rw [skipValue, skipSpace_of_noFront (noFront_cons bracket.isSpace_opening _)]
  simp only [bracket.opened?_opening, hfront, if_neg hb, hkey]
  exact skipValue_spaces hi _

/-! ## Texts are skipped -/

/-- How a piece moves the machine, in a number of steps that its length bounds. -/
def Skipped : Part → Bytes → Prop
  | .value, p => ∃ k, k ≤ p.length ∧ ∀ steps enclosing rest, Delimited rest →
      skipValue (steps + k) enclosing (p ++ rest) = skipAfter steps enclosing rest
  | .inside bracket true, p => ∃ k, k ≤ p.length + 1 ∧ ∀ steps enclosing rest,
      skipValue (steps + k) enclosing (bracket.opening :: (p ++ rest)) = skipAfter steps enclosing rest
  | .inside bracket false, p => ∃ k, k ≤ p.length ∧ ∀ steps enclosing rest,
      skipAfter (steps + k) (bracket :: enclosing) (p ++ rest) = skipAfter steps enclosing rest

theorem skipped_scalar {b : UInt8} {t : Bytes} (hspace : isSpace b = false)
    (hopened : Bracket.opened? b = none)
    (h : ∀ rest, Delimited rest → skipScalar b (t ++ rest) = .ok rest) : Skipped .value (b :: t) :=
  ⟨1, Nat.le_add_left 1 _, fun _ _ rest hrest => skipValue_scalar hspace hopened (h rest hrest)⟩

theorem skipped_number (hp : NumberText p) : Skipped .value p := by
  obtain ⟨b, t, rfl, hb⟩ := hp.front
  have hlead := lead_of_digit hb
  refine skipped_scalar (isDigit_front hb).1 (by rw [Bracket.opened?, hlead]) fun rest hrest => ?_
  rw [skipScalar, hlead]
  exact skipNumber_takes.complete hp hrest.noFront

theorem skipped_closed {first : Bool} (hw : Spaces w) :
    Skipped (.inside bracket first) (w ++ [bracket.closing]) := by
  have hsplit : ∀ rest, (w ++ [bracket.closing]) ++ rest = w ++ bracket.closing :: rest :=
    fun rest => by rw [List.append_assoc, List.singleton_append]
  cases first with
  | true =>
    refine ⟨1, Nat.le_add_left 1 _, fun steps enclosing rest => ?_⟩
    rw [hsplit]
    exact skipValue_closed hw rest
  | false =>
    refine ⟨1, by simp, fun steps enclosing rest => ?_⟩
    rw [hsplit]
    exact skipAfter_closing hw rest

theorem skipped_item {first : Bool} {s v r : Bytes} (hs : Separator first s)
    (hl : LabelText bracket l) (hv : ValueText v) (hr : Written (.inside bracket false) r)
    (ihv : Skipped .value v) (ihr : Skipped (.inside bracket false) r) :
    Skipped (.inside bracket first) (s ++ l ++ v ++ r) := by
  obtain ⟨i, hi, hvalue⟩ := ihv
  obtain ⟨j, hj, hbehind⟩ := ihr
  have hrun : ∀ steps enclosing rest,
      skipValue (steps + j + i) (bracket :: enclosing) (v ++ (r ++ rest)) =
        skipAfter steps enclosing rest := fun steps enclosing rest => by
    rw [hvalue _ _ _ (hr.delimited rest), hbehind]
  have hsplit : ∀ rest, s ++ l ++ v ++ r ++ rest = s ++ (l ++ (v ++ (r ++ rest))) :=
    fun rest => by simp only [List.append_assoc]
  cases first with
  | true =>
    cases hs
    refine ⟨j + i + 1, by simp only [List.length_append]; omega, fun steps enclosing rest => ?_⟩
    rw [hsplit, List.nil_append, ← Nat.add_assoc, ← Nat.add_assoc, skipValue_item hl hv, hrun]
  | false =>
    have hcomma : 1 ≤ s.length := by
      cases hs
      simp
    refine ⟨j + i + 1, by simp only [List.length_append]; omega, fun steps enclosing rest => ?_⟩
    rw [hsplit, ← Nat.add_assoc, ← Nat.add_assoc, skipAfter_item hs hl, hrun]

theorem skipped_of_written {part : Part} (h : Written part p) : Skipped part p := by
  induction h with
  | nullWord => exact skipped_scalar rfl rfl fun rest _ => word_append ['u', 'l', 'l'] rest
  | trueWord => exact skipped_scalar rfl rfl fun rest _ => word_append ['r', 'u', 'e'] rest
  | falseWord => exact skipped_scalar rfl rfl fun rest _ => word_append ['a', 'l', 's', 'e'] rest
  | number hp => exact skipped_number hp
  | negative hp =>
    exact skipped_scalar rfl rfl fun rest hrest => skipNumber_takes.complete hp hrest.noFront
  | string hp => exact skipped_scalar rfl rfl fun rest _ => skipString_takes.complete hp trivial
  | enclosed _ ih =>
    obtain ⟨k, hk, hrun⟩ := ih
    exact ⟨k, hk, fun steps enclosing rest _ => hrun steps enclosing rest⟩
  | closed hw => exact skipped_closed hw
  | item hs hl hv hr ihv ihr => exact skipped_item hs hl hv hr ihv ihr

theorem skip_complete (hw : Spaces w) (hp : ValueText p) (hrest : Delimited rest) :
    skip (w ++ p ++ rest) = .ok rest := by
  obtain ⟨k, hk, hrun⟩ := skipped_of_written hp
  obtain ⟨steps, hsteps⟩ : ∃ steps, (w ++ p ++ rest).length + 1 = steps + k :=
    ⟨(w ++ p ++ rest).length + 1 - k, by simp only [List.length_append]; omega⟩
  rw [skip, hsteps, List.append_assoc, skipValue_spaces hw, hrun _ _ _ hrest, skipAfter]

/-! ## What is skipped is a text -/

def RunsOverValue (steps : ℕ) : Prop :=
  ∀ ⦃enclosing : List Bracket⦄ ⦃r left : Bytes⦄, skipValue steps enclosing r = .ok left →
    ∃ w p behind fewer, r = w ++ (p ++ behind) ∧ Spaces w ∧ ValueText p ∧ fewer < steps ∧
      skipAfter fewer enclosing behind = .ok left

def RunsOverRest (steps : ℕ) : Prop :=
  ∀ ⦃bracket : Bracket⦄ ⦃enclosing : List Bracket⦄ ⦃r left : Bytes⦄,
    skipAfter steps (bracket :: enclosing) r = .ok left →
    ∃ p behind fewer, r = p ++ behind ∧ Written (.inside bracket false) p ∧ fewer < steps ∧
      skipAfter fewer enclosing behind = .ok left

/-- From a label on: the value behind it, then the rest of what the bracket holds. -/
theorem runs_from_label {r left : Bytes} (hvalue : RunsOverValue steps)
    (hrest : ∀ fewer < steps, RunsOverRest fewer) {first : Bool} {s : Bytes} (hs : Separator first s)
    (hl : LabelText bracket l) (h : skipValue steps (bracket :: enclosing) r = .ok left) :
    ∃ p behind fewer, s ++ (l ++ r) = p ++ behind ∧ Written (.inside bracket first) p ∧
      fewer < steps ∧ skipAfter fewer enclosing behind = .ok left := by
  obtain ⟨w, v, middle, fewer, rfl, hw, hv, hfewer, hafter⟩ := hvalue h
  obtain ⟨p, behind, fewest, rfl, hp, hfewest, hleft⟩ := hrest fewer hfewer hafter
  refine ⟨s ++ (l ++ w) ++ v ++ p, behind, fewest, ?_, .item hs (hl.append_spaces hw) hv hp,
    Nat.lt_trans hfewest hfewer, hleft⟩
  simp only [List.append_assoc]

theorem runsOverValue_succ (hvalue : RunsOverValue steps)
    (hrest : ∀ fewer < steps, RunsOverRest fewer) : RunsOverValue (steps + 1) := by
  intro enclosing r left h
  obtain ⟨w, hw, hr, -⟩ := skipSpace_cases r
  rw [skipValue] at h
  split at h
  · cases h
  · next b tail hskip =>
    rw [hskip] at hr
    split at h
    · split at h
      · cases h
      · next behind hscalar =>
        obtain ⟨p, hp, htext⟩ := skipScalar_sound hscalar
        exact ⟨w, p, behind, steps, by rw [hr, hp], hw, htext, Nat.lt_succ_self steps, h⟩
    · next bracket hopened =>
      obtain rfl := Bracket.eq_opening hopened
      obtain ⟨v, hv, htail, -⟩ := skipSpace_cases tail
      split at h
      · cases h
      · next c more hinside =>
        rw [hinside] at htail
        split at h
        · next hclosing =>
          refine ⟨w, bracket.opening :: (v ++ [bracket.closing]), more, steps, ?_, hw,
            .enclosed (.closed hv), Nat.lt_succ_self steps, h⟩
          rw [hr, htail, hclosing]
          simp
        · split at h
          · cases h
          · next behind hkey =>
            obtain ⟨l, hl, hlabel⟩ := skipKey_sound hkey
            obtain ⟨p, after, fewer, hp, hwritten, hfewer, hleft⟩ :=
              runs_from_label hvalue hrest .first (hlabel.spaces_append hv) h
            refine ⟨w, bracket.opening :: p, after, fewer, ?_, hw, .enclosed hwritten,
              Nat.lt_succ_of_lt hfewer, hleft⟩
            rw [hr, htail, hl, List.cons_append, ← hp]
            simp

theorem runsOverRest_succ (hvalue : RunsOverValue steps)
    (hrest : ∀ fewer < steps, RunsOverRest fewer) : RunsOverRest (steps + 1) := by
  intro bracket enclosing r left h
  obtain ⟨w, hw, hr, -⟩ := skipSpace_cases r
  rw [skipAfter] at h
  split at h
  · cases h
  · next b tail hskip =>
    rw [hskip] at hr
    split at h
    · next hclosing =>
      refine ⟨w ++ [bracket.closing], tail, steps, ?_, .closed hw, Nat.lt_succ_self steps, h⟩
      rw [hr, hclosing, List.append_assoc, List.singleton_append]
    · split at h
      · next hcomma =>
        split at h
        · cases h
        · next behind hkey =>
          obtain ⟨l, rfl, hlabel⟩ := skipKey_sound hkey
          obtain ⟨p, after, fewer, hp, hwritten, hfewer, hleft⟩ :=
            runs_from_label hvalue hrest (.comma hw) hlabel h
          refine ⟨p, after, fewer, ?_, hwritten, Nat.lt_succ_of_lt hfewer, hleft⟩
          rw [hr, hcomma, ← hp, List.append_assoc, List.singleton_append]
      · cases h

theorem runs (steps : ℕ) : RunsOverValue steps ∧ RunsOverRest steps := by
  induction steps using Nat.strongRecOn with
  | ind steps ih =>
    cases steps with
    | zero =>
      constructor
      · intro enclosing r left h
        rw [skipValue] at h
        cases h
      · intro bracket enclosing r left h
        rw [skipAfter] at h
        cases h
    | succ steps =>
      have hvalue := (ih steps (Nat.lt_succ_self steps)).1
      have hrest : ∀ fewer < steps, RunsOverRest fewer :=
        fun fewer hfewer => (ih fewer (Nat.lt_succ_of_lt hfewer)).2
      exact ⟨runsOverValue_succ hvalue hrest, runsOverRest_succ hvalue hrest⟩

theorem skip_sound {r left : Bytes} (h : skip r = .ok left) :
    ∃ w p, r = w ++ (p ++ left) ∧ Spaces w ∧ ValueText p := by
  obtain ⟨w, p, behind, fewer, rfl, hw, hp, -, hbehind⟩ := (runs (r.length + 1)).1 h
  rw [skipAfter] at hbehind
  obtain rfl := Except.ok.inj hbehind
  exact ⟨w, p, rfl, hw, hp⟩

end Reader
end Conformance.Json
