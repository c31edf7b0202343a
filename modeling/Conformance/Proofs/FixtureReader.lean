import Conformance.Proofs.FixtureText
import Conformance.Proofs.Restyled
set_option autoImplicit false

/-!
# An object with a fixture's fields is read

The loop over the members stops at the first one that it cannot take. `Draft.Accepts` says of a list of
members that there is no such one, and it says so of the list as a whole: how often a field comes and what
its values are, whatever the order and whatever else stands between them.
-/
namespace Conformance.Fixture.Record

open Json Json.Reader

/-! ## The values of a field -/

/-- The text of a member's value says this, at the depth that the fixture's own bracket leaves. -/
def Reads (p : Bytes) (v : Json) : Prop := value innerDepth p = .ok (v, [])

def valuesOf (field : Field) (members : List (Option String × Bytes)) : List Bytes :=
  (members.filter fun m => m.1 = some field.name).map (·.2)

def Fits (field : Field) (p : Bytes) : Prop :=
  ∃ v, Reads p v ∧ (field ≠ .expected → v = .null ∨ ∃ s, v = .string s)

section Values

variable {field : Field} {p : Bytes} {v v' : Json} {members : List (Option String × Bytes)}

theorem reads_unique (h : Reads p v) (h' : Reads p v') : v = v' :=
  (Prod.mk.inj (Except.ok.inj (h.symm.trans h'))).1

/-- As a document of its own the text says the same. -/
theorem read_of_reads (h : Reads p v) : Json.read p = .ok v := by
  obtain ⟨w, q, rfl, hw, -, hread⟩ := read_of_value_inside (Nat.sub_le _ _) h
  rw [List.append_nil]
  simpa using read_between hread hw spaces_nil

theorem valuesOf_own (field : Field) (p : Bytes) (members : List (Option String × Bytes)) :
    valuesOf field ((some field.name, p) :: members) = p :: valuesOf field members := by
  simp [valuesOf]

theorem valuesOf_other {name : Option String} (h : name ≠ some field.name) (p : Bytes)
    (members : List (Option String × Bytes)) :
    valuesOf field ((name, p) :: members) = valuesOf field members := by
  simp [valuesOf, h]

theorem valuesOf_sublist (field : Field) (m : Option String × Bytes)
    (members : List (Option String × Bytes)) :
    (valuesOf field members).Sublist (valuesOf field (m :: members)) :=
  ((List.sublist_cons_self m members).filter _).map _

theorem valuesOf_named (field : Field) (entries : List (String × Bytes)) :
    valuesOf field (entries.map fun e => (some e.1, e.2)) = textsOf field entries := by
  rw [valuesOf, textsOf, List.filter_map, List.map_map]
  simp [Function.comp_def]

end Values

/-! ## Reading one field -/

section Field

variable {draft : Draft} {field : Field} {r p inside left rest : Bytes} {depth : ℕ}

theorem payloadText_of_value {x : Option String} (h : value depth r = .ok (payloadDocument x, left)) :
    payloadText r = .ok (x, left) := by
  obtain ⟨inner, hinner⟩ : ∃ inner, value depth = valueOver inner := by
    cases depth <;> exact ⟨_, rfl⟩
  rw [hinner, valueOver] at h
  rw [payloadText]
  cases hskip : skipSpace r with
  | nil =>
    rw [hskip] at h
    cases h
  | cons b tail =>
    rw [hskip] at h
    dsimp only at h ⊢
    cases hlead : Lead.of b with
    | null =>
      rw [hlead] at h
      obtain ⟨left', hword, heq⟩ := ok_of_map_eq_ok h
      obtain ⟨hx, rfl⟩ := Prod.mk.inj heq
      cases x with
      | none => rw [hword]; rfl
      | some s => cases hx
    | quote =>
      rw [hlead] at h
      obtain ⟨found, hs, heq⟩ := ok_of_map_eq_ok h
      obtain ⟨hx, rfl⟩ := Prod.mk.inj heq
      cases x with
      | none => cases hx
      | some s =>
        obtain rfl := Json.string.inj hx
        rw [hs]; rfl
    | true | false | minus | digit =>
      rw [hlead] at h
      obtain ⟨found, -, heq⟩ := ok_of_map_eq_ok h
      cases x <;> cases (Prod.mk.inj heq).1
    | bracket | brace =>
      rw [hlead] at h
      cases inner with
      | none => cases h
      | some item =>
        obtain ⟨found, -, heq⟩ := ok_of_map_eq_ok h
        cases x <;> cases (Prod.mk.inj heq).1
    | other =>
      rw [hlead] at h
      cases h

theorem readField_complete (draft : Draft) (hp : Fits field p) (hrest : Delimited rest)
    (hinside : skipSpace inside = p ++ rest) :
    ∃ filled, readField draft inside field = .ok (filled, rest) ∧
      ∀ other, filled.has other = (draft.has other || decide (other = field)) := by
  obtain ⟨v, hreads, hpayload⟩ := hp
  have hvalue : value innerDepth inside = .ok (v, rest) := by
    obtain ⟨w, hw, hsplit, -⟩ := skipSpace_cases inside
    rw [hsplit, value_spaces innerDepth hw, hinside]
    exact readAlike_same p hreads rest hrest
  have hdocument : field ≠ .expected → ∃ x, v = payloadDocument x := by
    intro hfield
    rcases hpayload hfield with rfl | ⟨s, rfl⟩
    · exact ⟨none, rfl⟩
    · exact ⟨some s, rfl⟩
  cases field with
  | data | hexdata =>
    obtain ⟨x, rfl⟩ := hdocument (by decide)
    rw [readField, payloadText_of_value hvalue]
    refine ⟨_, rfl, fun other => ?_⟩
    cases other <;> simp [Draft.has]
  | expected =>
    rw [readField, hvalue]
    refine ⟨_, rfl, fun other => ?_⟩
    cases other <;> simp [Draft.has]

end Field

/-! ## Reading the members -/

section Members

variable {steps : ℕ} {first : Bool} {draft filled : Draft} {key : String} {field : Field}
  {r start middle inside behind p rest text : Bytes} {members : List (Option String × Bytes)}

theorem members_closed (hnext : nextKey first r = .ok (.closed behind)) :
    Record.members (steps + 1) first draft r = .ok (draft, behind) := by
  simp only [Record.members, hnext]

theorem members_skipped (hnext : nextKey first r = .ok (.item start))
    (hkey : string start = .ok (key, middle)) (hfield : Field.ofKey? key = none)
    (hcolon : colon middle = .ok inside) (hskip : skip inside = .ok behind) :
    Record.members (steps + 1) first draft r = Record.members steps false draft behind := by
  simp only [Record.members, hnext, hkey, hfield, hcolon, hskip]

theorem members_filled (hnext : nextKey first r = .ok (.item start))
    (hkey : string start = .ok (key, middle)) (hfield : Field.ofKey? key = some field)
    (hhas : draft.has field = false) (hcolon : colon middle = .ok inside)
    (hread : readField draft inside field = .ok (filled, behind)) :
    Record.members (steps + 1) first draft r = Record.members steps false filled behind := by
  simp only [Record.members, hnext, hkey, hfield, hhas, hcolon, hread, Bool.false_eq_true, if_false]

/-- Nothing in the members stops a reader that has what the draft has. -/
structure Draft.Accepts (draft : Draft) (members : List (Option String × Bytes)) : Prop where
  named : ∀ m ∈ members, m.1 ≠ none
  once : ∀ field, (draft.has field).toNat + (valuesOf field members).length ≤ 1
  fits : ∀ field, ∀ p ∈ valuesOf field members, Fits field p

theorem Draft.Accepts.tail {m : Option String × Bytes} (h : draft.Accepts (m :: members)) :
    draft.Accepts members where
  named := fun m' hm' => h.named m' (List.mem_cons_of_mem m hm')
  once := by
    intro field
    have honce := h.once field
    have hlength := (valuesOf_sublist field m members).length_le
    omega
  fits := fun field p hp => h.fits field p ((valuesOf_sublist field m members).subset hp)

theorem Draft.Accepts.has_eq_false (h : draft.Accepts ((some field.name, p) :: members)) :
    draft.has field = false := by
  have honce := h.once field
  rw [valuesOf_own, List.length_cons] at honce
  cases hhas : draft.has field with
  | false => rfl
  | true =>
    rw [hhas, Bool.toNat_true] at honce
    omega

theorem Draft.Accepts.after (h : draft.Accepts ((some field.name, p) :: members))
    (hfilled : ∀ other, filled.has other = (draft.has other || decide (other = field))) :
    filled.Accepts members where
  named := h.tail.named
  fits := h.tail.fits
  once := by
    intro other
    by_cases hother : other = field
    · subst hother
      have honce := h.once other
      rw [valuesOf_own, List.length_cons] at honce
      have hhas := Bool.toNat_le (filled.has other)
      omega
    · rw [hfilled other, decide_eq_false hother, Bool.or_false]
      exact h.tail.once other

/-- The induction is on the members; what the draft still accepts after one of them carries it. What was
found is kept, and what comes is found. -/
theorem members_complete (h : Entries .curly MemberText first members p) (haccepts : draft.Accepts members)
    (hsteps : p.length ≤ steps) (rest : Bytes) :
    ∃ found, Record.members steps first draft (p ++ rest) = .ok (found, rest) ∧
      ∀ field, draft.has field = true ∨ valuesOf field members ≠ [] → found.has field = true := by
  induction h generalizing draft steps with
  | closed hw =>
    rw [List.length_append, List.length_singleton] at hsteps
    obtain ⟨n, rfl⟩ := Nat.exists_eq_succ_of_ne_zero (by omega : steps ≠ 0)
    refine ⟨draft, members_closed (nextKey_closing hw rest), fun field hfield => ?_⟩
    exact hfield.resolve_right fun hvalues => hvalues rfl
  | @item first name s l v r members hs hl hv hr ih =>
    obtain ⟨b, t, hfront, -⟩ := hv.front
    simp only [List.length_append, hfront, List.length_cons] at hsteps
    obtain ⟨n, rfl⟩ := Nat.exists_eq_succ_of_ne_zero (by omega : steps ≠ 0)
    have hdelimited := (hr.written MemberText.label).delimited rest
    obtain ⟨k, middle, inside, hnext, hk, hname, hcolon, hspace, hskip⟩ := member_reads hs hl hv hdelimited
    cases name with
    | none => exact absurd rfl (haccepts.named _ List.mem_cons_self)
    | some key =>
      have hkey := string_of_spelled hk hname middle
      rw [List.append_assoc]
      cases hfield : Field.ofKey? key with
      | none =>
        obtain ⟨found, hfound, hhas⟩ := ih haccepts.tail (show r.length ≤ n by omega)
        refine ⟨found, (members_skipped hnext hkey hfield hcolon hskip).trans hfound, fun field h => ?_⟩
        rw [valuesOf_other fun heq => Field.ofKey?_eq_none hfield field (Option.some.inj heq)] at h
        exact hhas field h
      | some field =>
        obtain rfl := Field.ofKey?_eq_some hfield
        have hfits := haccepts.fits field v (by rw [valuesOf_own]; exact List.mem_cons_self)
        obtain ⟨filled, hread, hfilled⟩ := readField_complete draft hfits hdelimited hspace
        obtain ⟨found, hfound, hhas⟩ := ih (haccepts.after hfilled) (show r.length ≤ n by omega)
        refine ⟨found, (members_filled hnext hkey hfield haccepts.has_eq_false hcolon hread).trans hfound,
          fun other h => hhas other ?_⟩
        by_cases hother : other = field
        · exact .inl (by simp [hfilled, hother])
        · rw [valuesOf_other fun heq => Field.name_ne (Ne.symm hother) (Option.some.inj heq).symm] at h
          exact h.imp_left fun hdraft => by simp [hfilled, hdraft]

theorem document_complete (h : MembersText members text) (haccepts : Draft.Accepts {} members)
    (hexpected : valuesOf .expected members ≠ []) : ∃ record, document text = .ok record := by
  obtain @⟨before, inside, after, hbefore, hinside, hafter⟩ := h
  obtain ⟨found, hfound, hhas⟩ := members_complete hinside haccepts
    (Nat.le_succ_of_le (by rw [List.length_append]; omega) : inside.length ≤ (inside ++ after).length + 1) after
  obtain ⟨v, hv⟩ := Option.isSome_iff_exists.1 (hhas .expected (.inr hexpected))
  refine ⟨⟨found.data.join, found.hexdata.join, v⟩, ?_⟩
  have hread : Record.read (before ++ Bracket.curly.opening :: (inside ++ after)) =
      .ok (⟨found.data.join, found.hexdata.join, v⟩, after) := by
    rw [Record.read, skipSpace_spaces_cons hbefore Bracket.curly.isSpace_opening]
    change ofMembers (inside ++ after) = _
    rw [ofMembers, hfound]
    simp only [bind, Except.bind, hv]
  rw [document, hread]
  dsimp only [bind, Except.bind]
  rw [finish_spaces hafter]
  rfl

end Members

end Conformance.Fixture.Record
