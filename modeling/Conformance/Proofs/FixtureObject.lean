import Conformance.Proofs.FixtureReader
import Mathlib.Data.List.Forall2
set_option autoImplicit false

/-!
# A fixture object means the same however it is written

What becomes of an object depends on what its fields are given and on how often, and on nothing else: not
on the order of the members, on members with other names, on blanks, or on how a key is spelled. A key
that spells no string stops the reader whatever the member is for.
-/
namespace Conformance.Fixture

open Json Json.Reader
open Record (Field PayloadOf Reads valuesOf valuesOf_named read_of_reads reads_unique payloadDocument)

/-! ## What an object says -/

section Object

variable (members : List (Option String × Bytes))

/-- What the fields are given can be read. Nothing is asked of the values of other members. -/
def Readable : Prop := ∀ field, ∀ p ∈ valuesOf field members, ∃ v, Reads p v

def Given (field : Field) (v : Json) : Prop := ∃ p ∈ valuesOf field members, Reads p v

inductive Misfit : Prop where
  | repeated {field : Field} (h : 1 < (valuesOf field members).length)
  | missing (h : valuesOf .expected members = [])
  | mistyped {field : Field} {v : Json} (hfield : field ≠ .expected) (hv : Given members field v)
      (hnull : v ≠ .null) (hstring : ∀ s, v ≠ .string s)

def Illformed : Prop := (∃ p, (none, p) ∈ members) ∨ Misfit members

structure Describes (fixture : Fixture) : Prop where
  payload : Given members (fieldOf fixture.payload.encoding) (.string fixture.payload.data)
  only : ∀ encoding, encoding ≠ fixture.payload.encoding →
    ∀ s, ¬ Given members (fieldOf encoding) (.string s)
  expected : Given members .expected fixture.expected

structure Meaning (outcome : Except FixtureError Fixture) : Prop where
  total : (∃ e, outcome = .error (.malformed e)) ∨ outcome = .error .noPayload ∨
    outcome = .error .twoPayloads ∨ ∃ fixture, outcome = .ok fixture
  malformed : (∃ e, outcome = .error (.malformed e)) ↔ Illformed members
  noPayload : outcome = .error .noPayload ↔
    ¬ Illformed members ∧ ∀ encoding s, ¬ Given members (fieldOf encoding) (.string s)
  twoPayloads : outcome = .error .twoPayloads ↔
    ¬ Illformed members ∧ ∀ encoding, ∃ s, Given members (fieldOf encoding) (.string s)
  ok : ∀ fixture, outcome = .ok fixture ↔ ¬ Illformed members ∧ Describes members fixture

end Object

theorem readable_of_forall {members : List (Option String × Bytes)}
    (h : ∀ m ∈ members, ∃ v, Reads m.2 v) : Readable members := by
  intro field p hp
  obtain ⟨m, hm, rfl⟩ := List.mem_map.1 hp
  exact h m (List.mem_of_mem_filter hm)

/-! ## Records -/

theorem forall_encoding {p : Encoding → Prop} : (∀ encoding, p encoding) ↔ p .base64 ∧ p .hex := by
  constructor
  · intro h
    exact ⟨h .base64, h .hex⟩
  · rintro ⟨hbase64, hhex⟩ encoding
    cases encoding with
    | base64 => exact hbase64
    | hex => exact hhex

def Record.payload (record : Record) : Encoding → Option String
  | .base64 => record.data
  | .hex => record.hexdata

section Resolve

variable {record : Record} {fixture : Fixture}

theorem resolve_total (record : Record) : record.resolve = .error .noPayload ∨
    record.resolve = .error .twoPayloads ∨ ∃ fixture, record.resolve = .ok fixture := by
  obtain ⟨data | data, hexdata | hexdata, v⟩ := record <;> simp [Record.resolve]

theorem resolve_ne_malformed (e : SyntaxError) : record.resolve ≠ .error (.malformed e) := by
  obtain ⟨data | data, hexdata | hexdata, v⟩ := record <;> simp [Record.resolve]

theorem resolve_eq_noPayload :
    record.resolve = .error .noPayload ↔ ∀ encoding, record.payload encoding = none := by
  rw [forall_encoding]
  obtain ⟨data | data, hexdata | hexdata, v⟩ := record <;> simp [Record.resolve, Record.payload]

theorem resolve_eq_twoPayloads :
    record.resolve = .error .twoPayloads ↔ ∀ encoding, ∃ s, record.payload encoding = some s := by
  rw [forall_encoding]
  obtain ⟨data | data, hexdata | hexdata, v⟩ := record <;> simp [Record.resolve, Record.payload]

theorem resolve_eq_ok : record.resolve = .ok fixture ↔
    record.payload fixture.payload.encoding = some fixture.payload.data ∧
      (∀ encoding, encoding ≠ fixture.payload.encoding → record.payload encoding = none) ∧
      record.expected = fixture.expected := by
  rw [forall_encoding]
  obtain ⟨data | data, hexdata | hexdata, v⟩ := record <;>
    obtain ⟨⟨_ | _, s⟩, w⟩ := fixture <;> simp [Record.resolve, Record.payload]

end Resolve

/-! ## Records of an object -/

structure Record.Of (record : Record) (members : List (Option String × Bytes)) : Prop where
  named : ∀ p, (none, p) ∉ members
  payload : ∀ encoding, PayloadOf (valuesOf (fieldOf encoding) members) (record.payload encoding)
  expected : ∃ p, valuesOf .expected members = [p] ∧ Json.read p = .ok record.expected

section Of

variable {record : Record} {members : List (Option String × Bytes)} {text : Bytes} {field : Field}
  {texts : List Bytes} {x : Option String} {p : Bytes} {v : Json}

theorem document_of (h : Record.document text = .ok record) (htext : MembersText members text) :
    record.Of members := by
  obtain ⟨entries, hfields, hdata, hhexdata, hexpected⟩ := Record.document_source h
  cases hfields with
  | named hobject =>
    obtain rfl := membersText_unique htext hobject.membersText
    refine ⟨fun p hp => ?_, forall_encoding.2 ⟨?_, ?_⟩, ?_⟩
    · obtain ⟨e, -, heq⟩ := List.mem_map.1 hp
      cases heq
    · rwa [fieldOf, valuesOf_named]
    · rwa [fieldOf, valuesOf_named]
    · rwa [valuesOf_named]
  | byPosition harray =>
    obtain ⟨inside, after, -, hskip⟩ := htext.skipSpace_eq
    obtain ⟨inside', after', -, hskip'⟩ := harray.skipSpace_eq
    cases (List.cons.inj (hskip.symm.trans hskip')).1

theorem payloadOf_length (h : PayloadOf texts x) : texts.length ≤ 1 := by
  cases x with
  | some s =>
    obtain ⟨p, rfl, -⟩ := h
    exact Nat.le_refl 1
  | none =>
    obtain rfl | ⟨p, rfl, -⟩ := h
    · exact Nat.zero_le 1
    · exact Nat.le_refl 1

theorem payloadOf_reads (h : PayloadOf texts x) (hp : p ∈ texts) (hv : Reads p v) :
    v = payloadDocument x := by
  have hread : ∀ {q w}, p ∈ [q] → Json.read q = .ok w → v = w := by
    intro q w hq hw
    rw [← List.mem_singleton.1 hq, read_of_reads hv] at hw
    exact Except.ok.inj hw
  cases x with
  | some s =>
    obtain ⟨q, rfl, hq⟩ := h
    exact hread hp hq
  | none =>
    obtain rfl | ⟨q, rfl, hq⟩ := h
    · cases hp
    · exact hread hp hq

theorem given_string_iff (hreadable : Readable members) (h : PayloadOf (valuesOf field members) x)
    (s : String) : Given members field (.string s) ↔ x = some s := by
  constructor
  · rintro ⟨p, hp, hv⟩
    have hx := payloadOf_reads h hp hv
    cases x with
    | none => cases hx
    | some s' => rw [Json.string.inj hx]
  · rintro rfl
    obtain ⟨p, hvalues, -⟩ := id h
    have hp : p ∈ valuesOf field members := by rw [hvalues]; exact List.mem_singleton_self p
    obtain ⟨v, hv⟩ := hreadable field p hp
    obtain rfl := payloadOf_reads h hp hv
    exact ⟨p, hp, hv⟩

theorem given_expected_iff (hreadable : Readable members) (h : record.Of members) (v : Json) :
    Given members .expected v ↔ record.expected = v := by
  obtain ⟨p, hvalues, hread⟩ := h.expected
  have hp : p ∈ valuesOf .expected members := by rw [hvalues]; exact List.mem_singleton_self p
  obtain ⟨v', hv'⟩ := hreadable .expected p hp
  have hv'eq : v' = record.expected := Except.ok.inj ((read_of_reads hv').symm.trans hread)
  constructor
  · rintro ⟨q, hq, hv⟩
    rw [hvalues, List.mem_singleton] at hq
    subst hq
    rw [← hv'eq, reads_unique hv hv']
  · rintro rfl
    exact ⟨p, hp, hv'eq ▸ hv'⟩

theorem wellformed_of (h : record.Of members) : ¬ Illformed members := by
  rintro (⟨p, hp⟩ | hmisfit)
  · exact h.named p hp
  · obtain ⟨p, hvalues, -⟩ := h.expected
    cases hmisfit with
    | @repeated field hlength =>
      cases field with
      | data => exact absurd (payloadOf_length (h.payload .base64)) (Nat.not_le.2 hlength)
      | hexdata => exact absurd (payloadOf_length (h.payload .hex)) (Nat.not_le.2 hlength)
      | expected =>
        rw [hvalues] at hlength
        exact absurd hlength (Nat.lt_irrefl 1)
    | missing hmissing =>
      rw [hmissing] at hvalues
      cases hvalues
    | @mistyped field v hfield hv hnull hstring =>
      obtain ⟨q, hq, hv⟩ := hv
      obtain ⟨x, hx⟩ : ∃ x, v = payloadDocument x := by
        cases field with
        | data => exact ⟨_, payloadOf_reads (h.payload .base64) hq hv⟩
        | hexdata => exact ⟨_, payloadOf_reads (h.payload .hex) hq hv⟩
        | expected => exact absurd rfl hfield
      cases x with
      | none => exact hnull hx
      | some s => exact hstring s hx

/-- Where nothing is wrong with the list of members, no member stops the reader. -/
theorem accepts_of_wellformed (hreadable : Readable members) (h : ¬ Illformed members) :
    Record.Draft.Accepts {} members where
  named := by
    rintro ⟨name, p⟩ hm rfl
    exact h (.inl ⟨p, hm⟩)
  once := by
    intro field
    by_contra hlength
    have hempty : Record.Draft.has {} field = false := by cases field <;> rfl
    rw [hempty, Bool.toNat_false, Nat.zero_add] at hlength
    exact h (.inr (.repeated (Nat.lt_of_not_le hlength)))
  fits := by
    intro field p hp
    obtain ⟨v, hv⟩ := hreadable field p hp
    refine ⟨v, hv, fun hfield => ?_⟩
    by_contra hpayload
    rw [not_or, not_exists] at hpayload
    exact h (.inr (.mistyped hfield ⟨p, hp, hv⟩ hpayload.1 hpayload.2))

theorem document_isOk_iff (hreadable : Readable members) (htext : MembersText members text) :
    (∃ record, Record.document text = .ok record) ↔ ¬ Illformed members := by
  constructor
  · rintro ⟨record, h⟩
    exact wellformed_of (document_of h htext)
  · intro h
    exact Record.document_complete htext (accepts_of_wellformed hreadable h)
      fun hmissing => h (.inr (.missing hmissing))

end Of

/-! ## The outcome -/

theorem meaning {text : String} {members : List (Option String × Bytes)}
    (htext : MembersText members (Utf8.ofString text)) (hreadable : Readable members) :
    Meaning members (parse text) := by
  have hwell := document_isOk_iff hreadable htext
  rw [parse]
  cases hdocument : Record.document (Utf8.ofString text) with
  | error fault =>
    -- an object with nothing wrong about it would have been read
    have hill : Illformed members := by
      by_contra h
      obtain ⟨record, hrecord⟩ := hwell.2 h
      rw [hdocument] at hrecord
      cases hrecord
    exact ⟨.inl ⟨_, rfl⟩, iff_of_true ⟨_, rfl⟩ hill, iff_of_false (by simp) fun h => h.1 hill,
      iff_of_false (by simp) fun h => h.1 hill, fun _ => iff_of_false (by simp) fun h => h.1 hill⟩
  | ok record =>
    have hof := document_of hdocument htext
    have hwell := wellformed_of hof
    have hpayload : ∀ encoding s,
        Given members (fieldOf encoding) (.string s) ↔ record.payload encoding = some s :=
      fun encoding => given_string_iff hreadable (hof.payload encoding)
    have habsent : ∀ encoding,
        (∀ s, ¬ Given members (fieldOf encoding) (.string s)) ↔ record.payload encoding = none := by
      intro encoding
      simp only [hpayload, Option.eq_none_iff_forall_ne_some, ne_eq]
    refine ⟨.inr (resolve_total record), iff_of_false ?_ hwell, ?_, ?_, fun fixture => ?_⟩
    · rintro ⟨e, he⟩
      exact resolve_ne_malformed e he
    · simp only [habsent, hwell, not_false_eq_true, true_and]
      exact resolve_eq_noPayload
    · simp only [hpayload, hwell, not_false_eq_true, true_and]
      exact resolve_eq_twoPayloads
    · refine resolve_eq_ok.trans ⟨?_, ?_⟩
      · rintro ⟨hdata, honly, hexpected⟩
        exact ⟨hwell, (hpayload _ _).2 hdata, fun encoding hne => (habsent encoding).2 (honly encoding hne),
          (given_expected_iff hreadable hof _).2 hexpected⟩
      · rintro ⟨-, hdata, honly, hexpected⟩
        exact ⟨(hpayload _ _).1 hdata, fun encoding hne => (habsent encoding).1 (honly encoding hne),
          (given_expected_iff hreadable hof _).1 hexpected⟩

/-! ## Other ways to write it -/

/-- The same variant with the same contents, the text of an error apart. -/
inductive SameOutcome : Except FixtureError Fixture → Except FixtureError Fixture → Prop where
  | ok (fixture : Fixture) : SameOutcome (.ok fixture) (.ok fixture)
  | malformed (e e' : SyntaxError) : SameOutcome (.error (.malformed e)) (.error (.malformed e'))
  | noPayload : SameOutcome (.error .noPayload) (.error .noPayload)
  | twoPayloads : SameOutcome (.error .twoPayloads) (.error .twoPayloads)

/-- The members that matter: those of a field, and those whose key spells nothing. -/
def asked (members : List (Option String × Bytes)) : List (Option String × Bytes) :=
  members.filter fun m => m.1.all fun key => (Field.ofKey? key).isSome

structure SameMember (m m' : Option String × Bytes) : Prop where
  name : m.1 = m'.1
  value : Restyled .value m.2 m'.2

/-- The members that matter are the same up to their order and the style of their values. -/
def Rewritten (members members' : List (Option String × Bytes)) : Prop :=
  ∃ moved, (asked members).Perm moved ∧ List.Forall₂ SameMember moved (asked members')

structure SameFields (members members' : List (Option String × Bytes)) : Prop where
  unnamed : (∃ p, (none, p) ∈ members) ↔ ∃ p, (none, p) ∈ members'
  length : ∀ field, (valuesOf field members).length = (valuesOf field members').length
  given : ∀ field v, Given members field v ↔ Given members' field v

section SameFields

variable {members members' : List (Option String × Bytes)} {outcome : Except FixtureError Fixture}

theorem SameFields.symm (h : SameFields members members') : SameFields members' members :=
  ⟨h.unnamed.symm, fun field => (h.length field).symm, fun field v => (h.given field v).symm⟩

theorem SameFields.misfit (h : SameFields members members') (hmisfit : Misfit members) :
    Misfit members' := by
  cases hmisfit with
  | @repeated field hlength => exact .repeated (h.length field ▸ hlength)
  | missing hmissing =>
    refine .missing (List.length_eq_zero_iff.1 ?_)
    rw [← h.length, hmissing, List.length_nil]
  | mistyped hfield hv hnull hstring => exact .mistyped hfield ((h.given _ _).1 hv) hnull hstring

theorem SameFields.illformed_iff (h : SameFields members members') :
    Illformed members ↔ Illformed members' :=
  or_congr h.unnamed ⟨h.misfit, h.symm.misfit⟩

theorem SameFields.describes (h : SameFields members members') {fixture : Fixture}
    (hdescribes : Describes members fixture) : Describes members' fixture where
  payload := (h.given _ _).1 hdescribes.payload
  only := fun encoding hne s hs => hdescribes.only encoding hne s ((h.given _ _).2 hs)
  expected := (h.given _ _).1 hdescribes.expected

theorem SameFields.meaning (h : SameFields members members') (hmeaning : Meaning members outcome) :
    Meaning members' outcome where
  total := hmeaning.total
  malformed := hmeaning.malformed.trans h.illformed_iff
  noPayload := by
    simp only [← h.given, ← h.illformed_iff]
    exact hmeaning.noPayload
  twoPayloads := by
    simp only [← h.given, ← h.illformed_iff]
    exact hmeaning.twoPayloads
  ok := fun fixture => (hmeaning.ok fixture).trans
    (and_congr (not_congr h.illformed_iff) ⟨h.describes, h.symm.describes⟩)

end SameFields

section Rewritten

variable {members members' : List (Option String × Bytes)} {field : Field}

theorem exists_mem_iff_of_forall₂ {α β : Type} {r : α → β → Prop} {p : α → Prop} {q : β → Prop}
    {l : List α} {l' : List β} (h : List.Forall₂ r l l') (hr : ∀ {a b}, r a b → (p a ↔ q b)) :
    (∃ a ∈ l, p a) ↔ ∃ b ∈ l', q b := by
  induction h with
  | nil => simp
  | cons hab _ ih => simp only [List.exists_mem_cons_iff, hr hab, ih]

theorem valuesOf_asked (field : Field) (members : List (Option String × Bytes)) :
    valuesOf field (asked members) = valuesOf field members := by
  rw [valuesOf, asked, List.filter_filter, valuesOf]
  congr 1
  refine List.filter_congr fun m _ => ?_
  by_cases h : m.1 = some field.name
  · have hasked : (Field.ofKey? field.name).isSome = true := by cases field <;> rfl
    simp [h, hasked]
  · simp [h]

theorem SameMember.values {l l' : List (Option String × Bytes)} (h : List.Forall₂ SameMember l l')
    (field : Field) : List.Forall₂ (Restyled .value) (valuesOf field l) (valuesOf field l') := by
  induction h with
  | nil => exact .nil
  | @cons m m' l l' hm _ ih =>
    obtain ⟨name, p⟩ := m
    obtain ⟨name', p'⟩ := m'
    obtain ⟨rfl, hvalue⟩ := hm
    by_cases hname : name = some field.name
    · subst hname
      rw [Record.valuesOf_own, Record.valuesOf_own]
      exact .cons hvalue ih
    · rwa [Record.valuesOf_other hname, Record.valuesOf_other hname]

theorem Rewritten.values (h : Rewritten members members') (field : Field) :
    ∃ moved, (valuesOf field members).Perm moved ∧
      List.Forall₂ (Restyled .value) moved (valuesOf field members') := by
  obtain ⟨moved, hperm, hsame⟩ := h
  rw [← valuesOf_asked field members, ← valuesOf_asked field members']
  exact ⟨valuesOf field moved, (hperm.filter _).map _, SameMember.values hsame field⟩

theorem Rewritten.exists_value_iff (h : Rewritten members members') (field : Field) {q : Bytes → Prop}
    (hq : ∀ {p p'}, Restyled .value p p' → (q p ↔ q p')) :
    (∃ p ∈ valuesOf field members, q p) ↔ ∃ p ∈ valuesOf field members', q p := by
  obtain ⟨moved, hperm, hsame⟩ := h.values field
  simp only [hperm.mem_iff]
  exact exists_mem_iff_of_forall₂ hsame hq

theorem exists_none_asked_iff (members : List (Option String × Bytes)) :
    (∃ p, (none, p) ∈ members) ↔ ∃ m ∈ asked members, m.1 = none := by
  constructor
  · rintro ⟨p, hp⟩
    exact ⟨(none, p), List.mem_filter.2 ⟨hp, rfl⟩, rfl⟩
  · rintro ⟨⟨name, p⟩, hm, rfl⟩
    exact ⟨p, List.mem_of_mem_filter hm⟩

theorem Rewritten.sameFields (h : Rewritten members members') : SameFields members members' where
  unnamed := by
    obtain ⟨moved, hperm, hsame⟩ := h
    simp only [exists_none_asked_iff, hperm.mem_iff]
    exact exists_mem_iff_of_forall₂ hsame fun hm => by rw [hm.name]
  length := by
    intro field
    obtain ⟨moved, hperm, hsame⟩ := h.values field
    exact hperm.length_eq.trans hsame.length_eq
  given := fun field _ => h.exists_value_iff field value_restyled

theorem Rewritten.readable (h : Rewritten members members') (hreadable : Readable members) :
    Readable members' := by
  intro field p hp
  by_contra hunread
  obtain ⟨q, hq, hqunread⟩ := (h.exists_value_iff field (q := fun p => ¬ ∃ v, Reads p v) fun hrestyled =>
    not_congr (exists_congr fun v => value_restyled hrestyled)).2 ⟨p, hp, hunread⟩
  exact hqunread (hreadable field q hq)

end Rewritten

theorem sameOutcome {members : List (Option String × Bytes)} {outcome outcome' : Except FixtureError Fixture}
    (h : Meaning members outcome) (h' : Meaning members outcome') : SameOutcome outcome outcome' := by
  rcases h.total with ⟨e, he⟩ | hnone | htwo | ⟨fixture, hfixture⟩
  · obtain ⟨e', he'⟩ := h'.malformed.2 (h.malformed.1 ⟨e, he⟩)
    rw [he, he']
    exact .malformed e e'
  · rw [hnone, h'.noPayload.2 (h.noPayload.1 hnone)]
    exact .noPayload
  · rw [htwo, h'.twoPayloads.2 (h.twoPayloads.1 htwo)]
    exact .twoPayloads
  · rw [hfixture, (h'.ok fixture).2 ((h.ok fixture).1 hfixture)]
    exact .ok fixture

/-- The meaning of an object is that of its fields, so an object that is written another way fares alike. -/
theorem parse_object {text : String} {members : List (Option String × Bytes)}
    (htext : MembersText members (Utf8.ofString text)) (hreadable : Readable members) :
    Meaning members (parse text) ∧
      ∀ (text' : String) (members' : List (Option String × Bytes)),
        MembersText members' (Utf8.ofString text') → Rewritten members members' →
          SameOutcome (parse text) (parse text') := by
  have hmeaning := meaning htext hreadable
  refine ⟨hmeaning, fun text' members' htext' hrewritten => ?_⟩
  exact sameOutcome (hrewritten.sameFields.meaning hmeaning) (meaning htext' (hrewritten.readable hreadable))

/-- A key in escapes, a member that nobody asks for, another order and other blanks. -/
theorem parse_object_moved :
    let text := "\x7b\"\\u0064ata\":\"\",\"more\":0,\"expected\":[0]\x7d"
    let text' := "\x7b\"expected\":[ 0 ],\"data\":\"\"\x7d"
    ∃ members fixture, MembersText members (Utf8.ofString text) ∧ Readable members ∧
      Describes members fixture ∧ parse text = .ok fixture ∧ parse text' = .ok fixture := by
  intro text text'
  have hzero : ValueText [byte '0'] := .number (.intro .zero (.none .none))
  have hlist : Restyled .value (Bracket.square.opening :: ([] ++ [] ++ [byte '0'] ++ [byte ']']))
      (Bracket.square.opening :: ([] ++ [0x20] ++ [byte '0'] ++ [0x20, byte ']'])) :=
    .enclosed (.item .first .first (.element spaces_nil (by decide)) (.same hzero)
      (.closed spaces_nil (show Spaces [0x20] by decide)))
  have hdata := memberText_of_skip (k := Utf8.ofString "\\u0064ata\"") rfl rfl
  have hmore := memberText_of_skip (k := Utf8.ofString "more\"") rfl rfl
  have hexpected := memberText_of_skip (k := Utf8.ofString "expected\"") rfl rfl
  have hdata' := memberText_of_skip (k := Utf8.ofString "data\"") rfl rfl
  have hclosed : Entries .curly MemberText false [] ([] ++ [byte '\x7d']) := .closed spaces_nil
  have hinside := Entries.item .first hdata (.string .closed) (.item (.comma spaces_nil) hmore hzero
    (.item (.comma spaces_nil) hexpected hlist.written hclosed))
  have hinside' := Entries.item .first hexpected hlist.symm.written
    (.item (.comma spaces_nil) hdata' (.string .closed) hclosed)
  have htext : MembersText [(some "data", [byte '"', byte '"']), (some "more", [byte '0']),
      (some "expected", Utf8.ofString "[0]")] (Utf8.ofString text) :=
    cast (congrArg (Enclosed _ _ _) (by decide +kernel)) (Enclosed.intro spaces_nil hinside spaces_nil)
  have htext' : MembersText [(some "expected", Utf8.ofString "[ 0 ]"),
      (some "data", [byte '"', byte '"'])] (Utf8.ofString text') :=
    cast (congrArg (Enclosed _ _ _) (by decide +kernel)) (Enclosed.intro spaces_nil hinside' spaces_nil)
  have hreadable : Readable [(some "data", [byte '"', byte '"']), (some "more", [byte '0']),
      (some "expected", Utf8.ofString "[0]")] := by
    refine readable_of_forall ?_
    simp only [List.forall_mem_cons]
    exact ⟨⟨.string "", rfl⟩, ⟨.number (.natural 0 (by decide)), rfl⟩,
      ⟨.array [.number (.natural 0 (by decide))], rfl⟩, by simp⟩
  have hrewritten : Rewritten [(some "data", [byte '"', byte '"']), (some "more", [byte '0']),
      (some "expected", Utf8.ofString "[0]")]
      [(some "expected", Utf8.ofString "[ 0 ]"), (some "data", [byte '"', byte '"'])] :=
    ⟨_, .swap _ _ _, .cons ⟨rfl, hlist⟩ (.cons ⟨rfl, .same (.string .closed)⟩ .nil)⟩
  obtain ⟨hmeaning, hsame⟩ := parse_object htext hreadable
  obtain ⟨fixture, hfixture⟩ := exists_of_isOk (x := parse text) (by decide +kernel)
  have hsame' := hsame text' _ htext' hrewritten
  rw [hfixture] at hsame'
  have hfixture' : parse text' = .ok fixture := by
    generalize parse text' = outcome at hsame'
    cases hsame'
    rfl
  exact ⟨_, fixture, htext, hreadable, ((hmeaning.ok fixture).1 hfixture).2, hfixture, hfixture'⟩

/-- Half of a pair of surrogates for a key, in a member that nobody asks for: without that member the
object is a fixture. -/
theorem parse_unspelled_key :
    let text := "\x7b\"\\ud800\":0,\"data\":\"\",\"expected\":0\x7d"
    ∃ members, MembersText members (Utf8.ofString text) ∧ (∀ m ∈ members, ∃ v, Reads m.2 v) ∧
      ¬ Misfit members ∧ (∃ e, parse text = .error (.malformed e)) ∧
      ∃ fixture, parse "\x7b\"data\":\"\",\"expected\":0\x7d" = .ok fixture := by
  intro text
  have hzero : ValueText [byte '0'] := .number (.intro .zero (.none .none))
  have hlone := memberText_of_skip (k := Utf8.ofString "\\ud800\"") rfl rfl
  have hdata := memberText_of_skip (k := Utf8.ofString "data\"") rfl rfl
  have hexpected := memberText_of_skip (k := Utf8.ofString "expected\"") rfl rfl
  have hclosed : Entries .curly MemberText false [] ([] ++ [byte '\x7d']) := .closed spaces_nil
  have hinside := Entries.item .first hlone hzero (.item (.comma spaces_nil) hdata (.string .closed)
    (.item (.comma spaces_nil) hexpected hzero hclosed))
  have htext : MembersText [(none, [byte '0']), (some "data", [byte '"', byte '"']),
      (some "expected", [byte '0'])] (Utf8.ofString text) :=
    cast (congrArg (Enclosed _ _ _) (by decide +kernel)) (Enclosed.intro spaces_nil hinside spaces_nil)
  have hreads : Reads [byte '0'] (.number (.natural 0 (by decide))) := rfl
  have hreadsText : Reads [byte '"', byte '"'] (.string "") := rfl
  have hreadable : ∀ m ∈ [(none, [byte '0']), (some "data", [byte '"', byte '"']),
      (some "expected", [byte '0'])], ∃ v, Reads (Prod.snd m) v := by
    simp only [List.forall_mem_cons]
    exact ⟨⟨_, hreads⟩, ⟨_, hreadsText⟩, ⟨_, hreads⟩, by simp⟩
  have hmalformed := (meaning htext (readable_of_forall hreadable)).malformed.2
    (.inl ⟨_, List.mem_cons_self⟩)
  refine ⟨_, htext, hreadable, fun hmisfit => ?_, hmalformed, exists_of_isOk (by decide +kernel)⟩
  cases hmisfit with
  | @repeated field hlength => cases field <;> exact absurd hlength (by decide +kernel)
  | missing hmissing => exact absurd hmissing (by decide +kernel)
  | @mistyped field v hfield hv hnull hstring =>
    obtain ⟨p, hp, hv⟩ := hv
    cases field with
    | data =>
      rw [List.mem_singleton.1 (show p ∈ [[byte '"', byte '"']] from hp)] at hv
      exact hstring "" (reads_unique hv hreadsText)
    | hexdata => cases (show p ∈ [] from hp)
    | expected => exact hfield rfl

end Conformance.Fixture
