import Conformance.Fixture.Reader
import Conformance.Proofs.Outcome
import Conformance.Proofs.Tree
set_option autoImplicit false

/-!
# No document that is read has a key twice

Arrays and objects are built by loops over a reader of values; what holds of every value that the
reader gives holds of every value that the loop has gathered. A fixture's expected document comes from
the same reader.
-/
namespace Conformance

namespace Json

namespace Members

variable {p : Json → Prop}

theorem forall_insert (key : String) {value : Json} {members : Members} (hvalue : p value)
    (h : ∀ m ∈ members, p m.2) : ∀ m ∈ members.insert key value, p m.2 := by
  induction members with
  | nil => exact List.forall_mem_singleton.2 hvalue
  | cons m rest ih =>
    obtain ⟨hm, hrest⟩ := List.forall_mem_cons.1 h
    rw [insert]
    split
    · exact List.forall_mem_cons.2 ⟨hvalue, hrest⟩
    · exact List.forall_mem_cons.2 ⟨hm, ih hrest⟩

theorem forall_foldl {pairs : List (String × Json)} {members : Members} (hpairs : ∀ m ∈ pairs, p m.2)
    (h : ∀ m ∈ members, p m.2) :
    ∀ m ∈ pairs.foldl (fun members q => Members.insert q.1 q.2 members) members, p m.2 := by
  induction pairs generalizing members with
  | nil => exact h
  | cons q rest ih =>
    obtain ⟨hq, hrest⟩ := List.forall_mem_cons.1 hpairs
    exact ih hrest (forall_insert q.1 hq h)

theorem forall_ofPairs {pairs : List (String × Json)} (h : ∀ m ∈ pairs, p m.2) :
    ∀ m ∈ ofPairs pairs, p m.2 :=
  forall_foldl h nofun

end Members

namespace Reader

def Gives (item : Reader Json) (p : Json → Prop) : Prop :=
  ∀ rest v left, item rest = .ok (v, left) → p v

section Loop

variable {item : Reader Json} {p : Json → Prop} {steps : ℕ} {first : Bool} {rest left : Bytes}

theorem elements_cases {done items : List Json}
    (h : elements item (steps + 1) first done rest = .ok (items, left)) :
    (nextElement first rest = .ok (.closed left) ∧ items = done.reverse) ∨
    ∃ start v behind, nextElement first rest = .ok (.item start) ∧ item start = .ok (v, behind) ∧
      elements item steps false (v :: done) behind = .ok (items, left) := by
  simp only [elements] at h
  cases hnext : nextElement first rest with
  | error fault => simp [hnext] at h
  | ok turn =>
    cases turn with
    | closed behind =>
      simp only [hnext, Except.ok.injEq, Prod.mk.injEq] at h
      exact Or.inl ⟨by rw [h.2], h.1.symm⟩
    | item start =>
      simp only [hnext] at h
      cases hitem : item start with
      | error fault => simp [hitem] at h
      | ok r =>
        simp only [hitem] at h
        exact Or.inr ⟨start, r.1, r.2, rfl, hitem, h⟩

theorem elements_forall (hitem : Gives item p) {done items : List Json}
    (h : elements item steps first done rest = .ok (items, left)) (hdone : ∀ v ∈ done, p v) :
    ∀ v ∈ items, p v := by
  induction steps generalizing first done rest with
  | zero => cases h
  | succ steps ih =>
    rcases elements_cases h with ⟨-, rfl⟩ | ⟨start, v, behind, -, hv, hrest⟩
    · exact fun v hv => hdone v (List.mem_reverse.1 hv)
    · exact ih hrest (List.forall_mem_cons.2 ⟨hitem start v behind hv, hdone⟩)

theorem pairs_cases {done found : List (String × Json)}
    (h : pairs item (steps + 1) first done rest = .ok (found, left)) :
    (nextKey first rest = .ok (.closed left) ∧ found = done.reverse) ∨
    ∃ start key middle inside v behind, nextKey first rest = .ok (.item start) ∧
      string start = .ok (key, middle) ∧ colon middle = .ok inside ∧ item inside = .ok (v, behind) ∧
      pairs item steps false ((key, v) :: done) behind = .ok (found, left) := by
  simp only [pairs] at h
  cases hnext : nextKey first rest with
  | error fault => simp [hnext] at h
  | ok turn =>
    cases turn with
    | closed behind =>
      simp only [hnext, Except.ok.injEq, Prod.mk.injEq] at h
      exact Or.inl ⟨by rw [h.2], h.1.symm⟩
    | item start =>
      simp only [hnext] at h
      cases hkey : string start with
      | error fault => simp [hkey] at h
      | ok k =>
        simp only [hkey] at h
        cases hcolon : colon k.2 with
        | error fault => simp [hcolon] at h
        | ok inside =>
          simp only [hcolon] at h
          cases hitem : item inside with
          | error fault => simp [hitem] at h
          | ok r =>
            simp only [hitem] at h
            exact Or.inr ⟨start, k.1, k.2, inside, r.1, r.2, rfl, hkey, hcolon, hitem, h⟩

theorem pairs_forall (hitem : Gives item p) {done found : List (String × Json)}
    (h : pairs item steps first done rest = .ok (found, left)) (hdone : ∀ m ∈ done, p m.2) :
    ∀ m ∈ found, p m.2 := by
  induction steps generalizing first done rest with
  | zero => cases h
  | succ steps ih =>
    rcases pairs_cases h with ⟨-, rfl⟩ | ⟨_, key, _, inside, v, behind, -, -, -, hv, hrest⟩
    · exact fun m hm => hdone m (List.mem_reverse.1 hm)
    · exact ih hrest (List.forall_mem_cons.2 ⟨hitem inside v behind hv, hdone⟩)

end Loop

theorem array_distinct {item : Reader Json} (hitem : Gives item Distinct) :
    Gives (array item) Distinct := by
  intro rest v left h
  obtain ⟨r, hr, heq⟩ := ok_of_map_eq_ok h
  obtain ⟨rfl, -⟩ := Prod.mk.inj heq
  exact .array (elements_forall hitem hr nofun)

theorem object_distinct {item : Reader Json} (hitem : Gives item Distinct) :
    Gives (object item) Distinct := by
  intro rest v left h
  obtain ⟨r, hr, heq⟩ := ok_of_map_eq_ok h
  obtain ⟨rfl, -⟩ := Prod.mk.inj heq
  have hpairs := pairs_forall hitem hr nofun
  exact .object (Members.nodup_keys_ofPairs r.1) (Members.forall_ofPairs hpairs)

theorem valueOver_distinct {inner : Option (Reader Json)}
    (hinner : ∀ item, inner = some item → Gives item Distinct) : Gives (valueOver inner) Distinct := by
  intro rest v left h
  rw [valueOver] at h
  split at h
  · cases h
  · next b tail _ =>
    split at h
    case h_1 | h_2 | h_3 | h_4 | h_5 | h_6 =>
      obtain ⟨r, -, heq⟩ := ok_of_map_eq_ok h
      obtain ⟨rfl, -⟩ := Prod.mk.inj heq
      constructor
    case h_7 =>
      split at h
      · cases h
      · exact array_distinct (hinner _ rfl) _ _ _ h
    case h_8 =>
      split at h
      · cases h
      · exact object_distinct (hinner _ rfl) _ _ _ h
    case h_9 => cases h

theorem value_distinct (depth : ℕ) : Gives (value depth) Distinct := by
  induction depth with
  | zero => exact valueOver_distinct nofun
  | succ depth ih =>
    refine valueOver_distinct fun item h => ?_
    obtain rfl := Option.some.inj h
    exact ih

end Reader

/-- The condition that a comparison asks of its documents holds of what is read. -/
theorem read_distinct {bytes : Bytes} {v : Json} (h : read bytes = .ok v) : v.Distinct := by
  rw [read] at h
  cases hdocument : Reader.document bytes with
  | error fault => simp [hdocument, Except.mapError] at h
  | ok w =>
    rw [hdocument] at h
    obtain rfl := Except.ok.inj h
    obtain ⟨⟨v, rest⟩, hv, hfinish⟩ := ok_of_bind_eq_ok hdocument
    obtain ⟨_, -, heq⟩ := ok_of_bind_eq_ok hfinish
    obtain rfl := Except.ok.inj heq
    exact Reader.value_distinct _ _ _ _ hv

end Json

namespace Fixture

namespace Record

open Json Json.Reader

variable {steps : ℕ} {first : Bool} {draft found : Draft} {rest left : Bytes}

theorem members_cases (h : members (steps + 1) first draft rest = .ok (found, left)) :
    (nextKey first rest = .ok (.closed left) ∧ found = draft) ∨
    ∃ start key middle, nextKey first rest = .ok (.item start) ∧ string start = .ok (key, middle) ∧
      ((Field.ofKey? key = none ∧ ∃ inside behind, colon middle = .ok inside ∧
          skip inside = .ok behind ∧ members steps false draft behind = .ok (found, left)) ∨
        ∃ field inside filled behind, Field.ofKey? key = some field ∧ draft.has field = false ∧
          colon middle = .ok inside ∧ readField draft inside field = .ok (filled, behind) ∧
          members steps false filled behind = .ok (found, left)) := by
  rw [members] at h
  cases hnext : nextKey first rest with
  | error fault => simp [hnext] at h
  | ok turn =>
    cases turn with
    | closed behind =>
      simp only [hnext, Except.ok.injEq, Prod.mk.injEq] at h
      exact Or.inl ⟨by rw [h.2], h.1.symm⟩
    | item start =>
      simp only [hnext] at h
      cases hkey : string start with
      | error fault => simp [hkey] at h
      | ok k =>
        simp only [hkey] at h
        refine Or.inr ⟨start, k.1, k.2, rfl, hkey, ?_⟩
        cases hfield : Field.ofKey? k.1 with
        | none =>
          simp only [hfield] at h
          cases hcolon : colon k.2 with
          | error fault => simp [hcolon] at h
          | ok inside =>
            simp only [hcolon] at h
            cases hskip : skip inside with
            | error fault => simp [hskip] at h
            | ok behind =>
              simp only [hskip] at h
              exact Or.inl ⟨rfl, inside, behind, rfl, hskip, h⟩
        | some field =>
          simp only [hfield] at h
          cases hhas : draft.has field with
          | true => simp [hhas] at h
          | false =>
            simp only [hhas] at h
            cases hcolon : colon k.2 with
            | error fault => simp [hcolon] at h
            | ok inside =>
              simp only [hcolon] at h
              cases hread : readField draft inside field with
              | error fault => simp [hread] at h
              | ok r =>
                simp only [hread] at h
                exact Or.inr ⟨field, inside, r.1, r.2, rfl, hhas, rfl, hread, h⟩

def Draft.Sound (draft : Draft) : Prop := ∀ v, draft.expected = some v → v.Distinct

theorem readField_sound (hdraft : draft.Sound) {field : Field}
    (h : readField draft rest field = .ok (found, left)) : found.Sound := by
  cases field with
  | data =>
    obtain ⟨r, -, heq⟩ := ok_of_map_eq_ok h
    obtain ⟨rfl, -⟩ := Prod.mk.inj heq
    exact hdraft
  | hexdata =>
    obtain ⟨r, -, heq⟩ := ok_of_map_eq_ok h
    obtain ⟨rfl, -⟩ := Prod.mk.inj heq
    exact hdraft
  | expected =>
    obtain ⟨r, hr, heq⟩ := ok_of_map_eq_ok h
    obtain ⟨rfl, -⟩ := Prod.mk.inj heq
    intro v hv
    obtain rfl := Option.some.inj hv
    exact value_distinct _ _ _ _ hr

theorem members_sound (hdraft : draft.Sound) (h : members steps first draft rest = .ok (found, left)) :
    found.Sound := by
  induction steps generalizing first draft rest with
  | zero => cases h
  | succ steps ih =>
    rcases members_cases h with ⟨-, rfl⟩ | ⟨_, _, _, -, -, hskipped | hread⟩
    · exact hdraft
    · obtain ⟨-, _, _, -, -, hrest⟩ := hskipped
      exact ih hdraft hrest
    · obtain ⟨_, _, _, _, -, -, -, hfield, hrest⟩ := hread
      exact ih (readField_sound hdraft hfield) hrest

theorem ofMembers_distinct {record : Record} (h : ofMembers rest = .ok (record, left)) :
    record.expected.Distinct := by
  obtain ⟨⟨draft, behind⟩, hdraft, hrest⟩ := ok_of_bind_eq_ok h
  dsimp only at hrest
  split at hrest
  · cases hrest
  · next v hv =>
    obtain ⟨rfl, -⟩ := Prod.mk.inj (Except.ok.inj hrest)
    have hempty : Draft.Sound {} := nofun
    exact members_sound hempty hdraft v hv

theorem ofElements_distinct {record : Record} (h : ofElements rest = .ok (record, left)) :
    record.expected.Distinct := by
  obtain ⟨_, -, h⟩ := ok_of_bind_eq_ok h
  obtain ⟨_, -, h⟩ := ok_of_bind_eq_ok h
  obtain ⟨_, -, h⟩ := ok_of_bind_eq_ok h
  obtain ⟨_, -, h⟩ := ok_of_bind_eq_ok h
  obtain ⟨_, -, h⟩ := ok_of_bind_eq_ok h
  obtain ⟨⟨v, _⟩, hv, h⟩ := ok_of_bind_eq_ok h
  obtain ⟨_, -, h⟩ := ok_of_bind_eq_ok h
  obtain ⟨rfl, -⟩ := Prod.mk.inj (Except.ok.inj h)
  exact value_distinct _ _ _ _ hv

theorem wrongType_ne_ok {α : Type} (wanted : String) (b : UInt8) (tail : Bytes) (a : α) :
    wrongType wanted b tail ≠ .ok a := by
  intro h
  rw [wrongType] at h
  split at h
  case h_1 | h_2 | h_3 | h_4 | h_5 | h_6 =>
    obtain ⟨_, -, hrefused⟩ := ok_of_bind_eq_ok h
    cases hrefused
  case h_7 | h_8 | h_9 => cases h

theorem read_distinct {record : Record} (h : read rest = .ok (record, left)) :
    record.expected.Distinct := by
  rw [read] at h
  split at h
  · cases h
  · split at h
    · exact ofMembers_distinct h
    · exact ofElements_distinct h
    · exact absurd h (wrongType_ne_ok _ _ _ _)

end Record

theorem parse_eq_ok_iff {text : String} {fixture : Fixture} :
    parse text = .ok fixture ↔
      ∃ record, Record.document (Utf8.ofString text) = .ok record ∧ record.resolve = .ok fixture := by
  rw [parse]
  cases hdocument : Record.document (Utf8.ofString text) with
  | error fault =>
    constructor
    · rintro ⟨⟩
    · rintro ⟨record, ⟨⟩, -⟩
  | ok record =>
    constructor
    · intro h
      exact ⟨record, rfl, h⟩
    · rintro ⟨record', h, hresolve⟩
      rwa [Except.ok.inj h]

theorem parse_distinct {text : String} {fixture : Fixture} (h : parse text = .ok fixture) :
    fixture.expected.Distinct := by
  obtain ⟨record, hdocument, hresolve⟩ := parse_eq_ok_iff.1 h
  obtain ⟨⟨r, _⟩, hread, hrest⟩ := ok_of_bind_eq_ok hdocument
  obtain ⟨_, -, heq⟩ := ok_of_bind_eq_ok hrest
  obtain rfl := Except.ok.inj heq
  have hdistinct := Record.read_distinct hread
  rw [Record.resolve] at hresolve
  split at hresolve
  case h_1 | h_2 =>
    obtain rfl := Except.ok.inj hresolve
    exact hdistinct
  case h_3 | h_4 => cases hresolve

end Fixture
end Conformance
