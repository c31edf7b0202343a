import Conformance.Proofs.ObjectMembers
set_option autoImplicit false

/-!
# What the text of a fixture says

The loop over the members fills a draft; `Draft.Of` says that the draft has of each field what the only
text of that field says, and every step keeps it while the list of members grows. A text that is accepted
is an object, or an array of the three values by position, and nothing else.
-/
namespace Conformance

namespace Fixture

open Json Json.Reader

namespace Record

/-! ## The texts of a field -/

def textsOf (field : Field) (entries : List (String × Bytes)) : List Bytes :=
  (entries.filter fun m => m.1 = field.name).map (·.2)

section TextsOf

variable {field : Field} {key : String}

theorem textsOf_append (field : Field) (entries later : List (String × Bytes)) :
    textsOf field (entries ++ later) = textsOf field entries ++ textsOf field later := by
  rw [textsOf, List.filter_append, List.map_append]
  rfl

theorem textsOf_own (p : Bytes) : textsOf field [(field.name, p)] = [p] := by
  simp [textsOf]

theorem textsOf_other (h : key ≠ field.name) (p : Bytes) : textsOf field [(key, p)] = [] := by
  simp [textsOf, h]

theorem Field.ofKey?_eq_some (h : Field.ofKey? key = some field) : key = field.name := by
  unfold Field.ofKey? at h
  split_ifs at h <;> cases h <;> assumption

theorem Field.ofKey?_eq_none (h : Field.ofKey? key = none) (field : Field) : key ≠ field.name := by
  unfold Field.ofKey? at h
  split_ifs at h
  cases field <;> assumption

theorem Field.name_ne {other : Field} (h : other ≠ field) : field.name ≠ other.name := by
  cases field <;> cases other <;> first | exact absurd rfl h | decide

end TextsOf

/-! ## Drafts -/

def payloadDocument : Option String → Json
  | none => .null
  | some s => .string s

def Draft.document? (draft : Draft) : Field → Option Json
  | .data => draft.data.map payloadDocument
  | .hexdata => draft.hexdata.map payloadDocument
  | .expected => draft.expected

/-- The draft has of each field what its only text says, and nothing of a field without one. -/
def Draft.Of (draft : Draft) (entries : List (String × Bytes)) : Prop :=
  ∀ field, (textsOf field entries).map Json.read = (draft.document? field).toList.map .ok

variable {draft filled : Draft} {entries : List (String × Bytes)} {field : Field} {r left : Bytes}

theorem Draft.document?_of_has (h : draft.has field = false) : draft.document? field = none := by
  cases field with
  | data | hexdata =>
    rw [Draft.has, Option.isSome_eq_false_iff, Option.isNone_iff_eq_none] at h
    rw [Draft.document?, h]
    rfl
  | expected =>
    rwa [Draft.has, Option.isSome_eq_false_iff, Option.isNone_iff_eq_none] at h

theorem Draft.of_nil : Draft.Of {} [] := by
  intro field
  cases field <;> rfl

theorem Draft.Of.other_key {key : String} (h : draft.Of entries) (hkey : Field.ofKey? key = none)
    (p : Bytes) : draft.Of (entries ++ [(key, p)]) := by
  intro field
  rw [textsOf_append, textsOf_other (Field.ofKey?_eq_none hkey field), List.append_nil]
  exact h field

theorem Draft.Of.fill {p : Bytes} {v : Json} (h : draft.Of entries) (hhas : draft.has field = false)
    (hfilled : ∀ other, filled.document? other = if other = field then some v else draft.document? other)
    (hp : Json.read p = .ok v) : filled.Of (entries ++ [(field.name, p)]) := by
  intro other
  rw [textsOf_append, List.map_append, h other, hfilled other]
  by_cases hother : other = field
  · subst hother
    rw [if_pos rfl, Draft.document?_of_has hhas, textsOf_own, List.map_singleton, hp]
    rfl
  · rw [if_neg hother, textsOf_other (Field.name_ne hother)]
    exact List.append_nil _

theorem payloadText_value {x : Option String} (h : payloadText r = .ok (x, left)) :
    value 0 r = .ok (payloadDocument x, left) := by
  rw [value, valueOver]
  rw [payloadText] at h
  cases hskip : skipSpace r with
  | nil =>
    rw [hskip] at h
    cases h
  | cons b tail =>
    rw [hskip] at h
    dsimp only at h ⊢
    split at h
    · next hlead =>
      obtain ⟨left', hword, heq⟩ := ok_of_map_eq_ok h
      obtain ⟨rfl, rfl⟩ := Prod.mk.inj heq
      simp only [hlead, hword]
      rfl
    · next hlead =>
      obtain ⟨⟨s, left'⟩, hs, heq⟩ := ok_of_map_eq_ok h
      obtain ⟨rfl, rfl⟩ := Prod.mk.inj heq
      simp only [hlead, hs]
      rfl
    · exact absurd h (wrongType_ne_ok _ _ _ _)

theorem readField_value (h : readField draft r field = .ok (filled, left)) :
    ∃ depth v, depth ≤ maxDepth ∧ value depth r = .ok (v, left) ∧
      ∀ other, filled.document? other = if other = field then some v else draft.document? other := by
  cases field with
  | data | hexdata =>
    obtain ⟨⟨x, left'⟩, hx, heq⟩ := ok_of_map_eq_ok h
    obtain ⟨rfl, rfl⟩ := Prod.mk.inj heq
    refine ⟨0, payloadDocument x, Nat.zero_le _, payloadText_value hx, fun other => ?_⟩
    cases other <;> rfl
  | expected =>
    obtain ⟨⟨v, left'⟩, hv, heq⟩ := ok_of_map_eq_ok h
    obtain ⟨rfl, rfl⟩ := Prod.mk.inj heq
    refine ⟨innerDepth, v, Nat.sub_le _ _, hv, fun other => ?_⟩
    cases other <;> rfl

/-! ## Objects -/

theorem entries_cons {first : Bool} {start middle inside behind i v q : Bytes} {key : String}
    (hnext : nextKey first r = .ok (.item start)) (hkey : string start = .ok (key, middle))
    (hcolon : colon middle = .ok inside) (hinside : inside = i ++ (v ++ behind)) (hi : Spaces i)
    (hv : ValueText v) (hbehind : behind = q ++ left) (hq : Entries .curly KeyText false entries q) :
    ∃ p, r = p ++ left ∧ Entries .curly KeyText first ((key, v) :: entries) p := by
  obtain ⟨s, w, hs, hw, rfl⟩ := nextKey_item hnext
  obtain ⟨k, rfl, -, hread⟩ := string_local hkey
  obtain ⟨m, hm, rfl⟩ := colon_ok hcolon
  have hk := hread [] trivial
  rw [List.append_nil] at hk
  refine ⟨s ++ (w ++ byte '"' :: (k ++ m ++ byte ':' :: i)) ++ v ++ q, ?_,
    .item hs (.intro hw hk hm hi) hv hq⟩
  rw [hinside, hbehind]
  simp

/-- The draft grows with the members that are read. -/
theorem members_entries {steps : ℕ} {first : Bool} {found : Draft}
    (h : members steps first draft r = .ok (found, left)) :
    ∃ entries p, r = p ++ left ∧ Entries .curly KeyText first entries p ∧
      ∀ seen, draft.Of seen → found.Of (seen ++ entries) := by
  induction steps generalizing first draft r with
  | zero => cases h
  | succ steps ih =>
    rcases members_cases h with
      ⟨hnext, rfl⟩ | ⟨start, key, middle, hnext, hkey, hskipped | hread⟩
    · obtain ⟨w, hw, rfl⟩ := nextKey_closed hnext
      refine ⟨[], _, rfl, .closed hw, fun seen hseen => ?_⟩
      rwa [List.append_nil]
    · obtain ⟨hfield, inside, behind, hcolon, hskip, hrest⟩ := hskipped
      obtain ⟨entries, q, hbehind, hq, hof⟩ := ih hrest
      obtain ⟨i, v, hinside, hi, hv⟩ := skip_sound hskip
      obtain ⟨p, hp, hentries⟩ := entries_cons hnext hkey hcolon hinside hi hv hbehind hq
      refine ⟨_, p, hp, hentries, fun seen hseen => ?_⟩
      rw [List.append_cons]
      exact hof _ (hseen.other_key hfield v)
    · obtain ⟨field, inside, filled, behind, hfield, hhas, hcolon, hvalue, hrest⟩ := hread
      obtain ⟨entries, q, hbehind, hq, hof⟩ := ih hrest
      obtain ⟨depth, v, hdepth, hvalue, hfilled⟩ := readField_value hvalue
      obtain ⟨i, t, hinside, hi, ht, hreads⟩ := read_of_value_inside hdepth hvalue
      obtain ⟨p, hp, hentries⟩ := entries_cons hnext hkey hcolon hinside hi ht hbehind hq
      refine ⟨_, p, hp, hentries, fun seen hseen => ?_⟩
      obtain rfl := Field.ofKey?_eq_some hfield
      rw [List.append_cons]
      exact hof _ (hseen.fill hhas hfilled hreads)

def PayloadOf (texts : List Bytes) : Option String → Prop
  | some s => ∃ p, texts = [p] ∧ Json.read p = .ok (.string s)
  | none => texts = [] ∨ ∃ p, texts = [p] ∧ Json.read p = .ok .null

structure Source (record : Record) (entries : List (String × Bytes)) : Prop where
  data : PayloadOf (textsOf .data entries) record.data
  hexdata : PayloadOf (textsOf .hexdata entries) record.hexdata
  expected : ∃ p, textsOf .expected entries = [p] ∧ Json.read p = .ok record.expected

theorem payloadOf_singleton {p : Bytes} {x : Option String}
    (h : Json.read p = .ok (payloadDocument x)) : PayloadOf [p] x := by
  cases x with
  | none => exact .inr ⟨p, rfl, h⟩
  | some s => exact ⟨p, rfl, h⟩

theorem payloadOf_join {texts : List Bytes} {x : Option (Option String)}
    (h : texts.map Json.read = (x.map payloadDocument).toList.map .ok) : PayloadOf texts x.join := by
  cases x with
  | none => exact .inl (List.map_eq_nil_iff.1 h)
  | some x =>
    obtain ⟨p, rfl, hp⟩ := List.map_eq_singleton_iff.1 h
    exact payloadOf_singleton hp

theorem ofMembers_source {record : Record} (h : ofMembers r = .ok (record, left)) :
    ∃ entries p, r = p ++ left ∧ Entries .curly KeyText true entries p ∧ record.Source entries := by
  obtain ⟨⟨draft, behind⟩, hdraft, hrest⟩ := ok_of_bind_eq_ok h
  dsimp only at hrest
  split at hrest
  · cases hrest
  · next v hv =>
    obtain ⟨rfl, rfl⟩ := Prod.mk.inj (Except.ok.inj hrest)
    obtain ⟨entries, p, rfl, hentries, hof⟩ := members_entries hdraft
    have hof := hof [] Draft.of_nil
    rw [List.nil_append] at hof
    have hexpected := hof .expected
    rw [Draft.document?, hv] at hexpected
    exact ⟨entries, p, rfl, hentries, payloadOf_join (hof .data), payloadOf_join (hof .hexdata),
      List.map_eq_singleton_iff.1 hexpected⟩

/-! ## Arrays -/

theorem element_next {index : ℕ} (h : element index r = .ok left) :
    nextElement (index = 0) r = .ok (.item left) := by
  obtain ⟨turn, hturn, hrest⟩ := ok_of_bind_eq_ok h
  cases turn with
  | closed behind => cases hrest
  | item start => rw [hturn, Except.ok.inj hrest]

theorem endOfElements_closed (h : endOfElements r = .ok left) :
    ∃ w, Spaces w ∧ r = w ++ [Bracket.square.closing] ++ left := by
  obtain ⟨w, hw, hr, -⟩ := skipSpace_cases r
  rw [endOfElements] at h
  split at h
  · cases h
  · next b tail hskip =>
    split at h
    · next hb =>
      obtain rfl := Except.ok.inj h
      exact ⟨w, hw, by rw [hr, hskip, hb, List.append_assoc]; rfl⟩
    · split at h
      · split at h
        · cases h
        · split at h <;> cases h
      · cases h

/-- An element by position, with the rest of the array behind it. -/
theorem items_cons {index depth : ℕ} {start behind q : Bytes} {v : Json} {items : List Bytes}
    (hstart : element index r = .ok start) (hdepth : depth ≤ maxDepth)
    (hvalue : value depth start = .ok (v, behind)) (hbehind : behind = q ++ left)
    (hq : Entries .square (fun (_ : Unit) => Spaces) false (items.map ((), ·)) q) :
    ∃ t p, r = p ++ left ∧ Json.read t = .ok v ∧
      Entries .square (fun (_ : Unit) => Spaces) (index = 0) ((t :: items).map ((), ·)) p := by
  obtain ⟨s, w, hs, hw, rfl⟩ := nextElement_item (element_next hstart)
  obtain ⟨i, t, rfl, hi, ht, hread⟩ := read_of_value_inside hdepth hvalue
  refine ⟨t, s ++ (w ++ i) ++ t ++ q, ?_, hread, .item hs (spaces_append hw hi) ht hq⟩
  rw [hbehind]
  simp only [List.append_assoc]

theorem ofElements_source {record : Record} (h : ofElements r = .ok (record, left)) :
    ∃ d x e p, r = p ++ left ∧
      Entries .square (fun (_ : Unit) => Spaces) true ([d, x, e].map ((), ·)) p ∧
      record.Source [("data", d), ("hexdata", x), ("expected", e)] := by
  obtain ⟨r₀, hr₀, h⟩ := ok_of_bind_eq_ok h
  obtain ⟨⟨data, r₁⟩, hdata, h⟩ := ok_of_bind_eq_ok h
  obtain ⟨r₂, hr₂, h⟩ := ok_of_bind_eq_ok h
  obtain ⟨⟨hexdata, r₃⟩, hhexdata, h⟩ := ok_of_bind_eq_ok h
  obtain ⟨r₄, hr₄, h⟩ := ok_of_bind_eq_ok h
  obtain ⟨⟨expected, r₅⟩, hexpected, h⟩ := ok_of_bind_eq_ok h
  obtain ⟨r₆, hend, h⟩ := ok_of_bind_eq_ok h
  obtain ⟨rfl, rfl⟩ := Prod.mk.inj (Except.ok.inj h)
  obtain ⟨w, hw, hclosed⟩ := endOfElements_closed hend
  have hitems₃ : Entries .square (fun (_ : Unit) => Spaces) false (([] : List Bytes).map ((), ·))
      (w ++ [Bracket.square.closing]) := .closed hw
  obtain ⟨e, p₂, hp₂, he, hitems₂⟩ := items_cons hr₄ (Nat.sub_le _ _) hexpected hclosed hitems₃
  obtain ⟨x, p₁, hp₁, hx, hitems₁⟩ :=
    items_cons hr₂ (Nat.zero_le _) (payloadText_value hhexdata) hp₂ hitems₂
  obtain ⟨d, p₀, hp₀, hd, hitems₀⟩ :=
    items_cons hr₀ (Nat.zero_le _) (payloadText_value hdata) hp₁ hitems₁
  exact ⟨d, x, e, p₀, hp₀, hitems₀, payloadOf_singleton hd, payloadOf_singleton hx, e, rfl, he⟩

inductive FieldsText (text : Bytes) : List (String × Bytes) → Prop where
  | named {entries : List (String × Bytes)} (h : ObjectText entries text) : FieldsText text entries
  | byPosition {d x e : Bytes} (h : ArrayText [d, x, e] text) :
      FieldsText text [("data", d), ("hexdata", x), ("expected", e)]

theorem document_source {record : Record} {whole : Bytes} (h : document whole = .ok record) :
    ∃ entries, FieldsText whole entries ∧ record.Source entries := by
  obtain ⟨⟨record', left⟩, hread, hrest⟩ := ok_of_bind_eq_ok h
  obtain ⟨u, hfinish, heq⟩ := ok_of_bind_eq_ok hrest
  obtain rfl := Except.ok.inj heq
  have hleft := finish_ok hfinish
  obtain ⟨w, hw, hwhole, -⟩ := skipSpace_cases whole
  rw [Record.read] at hread
  split at hread
  · cases hread
  · next b tail hskip =>
    rw [hskip] at hwhole
    have hb := begins_of b
    split at hread
    · next hlead =>
      rw [hlead] at hb
      obtain ⟨entries, p, rfl, hentries, hsource⟩ := ofMembers_source hread
      refine ⟨entries, .named ?_, hsource⟩
      rw [hwhole, hb]
      exact .intro hw hentries hleft
    · next hlead =>
      rw [hlead] at hb
      obtain ⟨d, x, e, p, rfl, hitems, hsource⟩ := ofElements_source hread
      refine ⟨_, .byPosition ?_, hsource⟩
      rw [hwhole, hb]
      exact .intro hw hitems hleft
    · exact absurd hread (wrongType_ne_ok _ _ _ _)

end Record

open Record (Field FieldsText textsOf)

/-! ## Fixtures -/

def fieldOf : Encoding → Field
  | .base64 => .data
  | .hex => .hexdata

structure Source (fixture : Fixture) (entries : List (String × Bytes)) : Prop where
  expected : ∃ p, textsOf .expected entries = [p] ∧ Json.read p = .ok fixture.expected
  payload : ∃ p, textsOf (fieldOf fixture.payload.encoding) entries = [p] ∧
    Json.read p = .ok (.string fixture.payload.data)
  absent : ∀ encoding, encoding ≠ fixture.payload.encoding →
    textsOf (fieldOf encoding) entries = [] ∨
      ∃ p, textsOf (fieldOf encoding) entries = [p] ∧ Json.read p = .ok .null

theorem resolve_source {record : Record} {fixture : Fixture} {entries : List (String × Bytes)}
    (h : record.resolve = .ok fixture) (hsource : record.Source entries) : fixture.Source entries := by
  obtain ⟨hdata, hhexdata, hexpected⟩ := hsource
  rw [Record.resolve] at h
  split at h
  · next data hd hx =>
    obtain rfl := Except.ok.inj h
    rw [hd] at hdata
    rw [hx] at hhexdata
    refine ⟨hexpected, hdata, fun encoding hne => ?_⟩
    cases encoding with
    | base64 => exact absurd rfl hne
    | hex => exact hhexdata
  · next data hd hx =>
    obtain rfl := Except.ok.inj h
    rw [hd] at hdata
    rw [hx] at hhexdata
    refine ⟨hexpected, hhexdata, fun encoding hne => ?_⟩
    cases encoding with
    | base64 => exact hdata
    | hex => exact absurd rfl hne
  · cases h
  · cases h

/-- A text that is accepted gives the fixture's fields by name in an object, or by position in an array
of three; every other text is refused. -/
theorem parse_source {text : String} {fixture : Fixture} (h : parse text = .ok fixture) :
    ∃ entries, FieldsText (Utf8.ofString text) entries ∧ fixture.Source entries := by
  obtain ⟨record, hdocument, hresolve⟩ := parse_eq_ok_iff.1 h
  obtain ⟨entries, hfields, hsource⟩ := Record.document_source hdocument
  exact ⟨entries, hfields, resolve_source hresolve hsource⟩

/-- A key in escapes, a payload that is null and a member that nobody asks for. -/
theorem parse_source_escaped_key :
    let text := "\x7b\"\\u0064ata\":\"AA==\",\"hexdata\":null,\"more\":[1,\x7b\x7d],\"expected\":[\"n\"]\x7d"
    ∃ fixture, parse text = .ok fixture ∧
      ∃ entries, FieldsText (Utf8.ofString text) entries ∧ fixture.Source entries := by
  intro text
  obtain ⟨fixture, hfixture⟩ := exists_of_isOk (x := parse text) (by decide +kernel)
  exact ⟨fixture, hfixture, parse_source hfixture⟩

/-- An array is accepted, and no array is an object. -/
theorem parse_array_of_three :
    ∃ fixture, parse "[\"AA==\",null,1]" = .ok fixture ∧
      ∀ entries, ¬ ObjectText entries (Utf8.ofString "[\"AA==\",null,1]") := by
  obtain ⟨fixture, hfixture⟩ := exists_of_isOk (x := parse "[\"AA==\",null,1]") (by decide +kernel)
  refine ⟨fixture, hfixture, fun entries hobject => ?_⟩
  obtain ⟨inside, after, -, hfront⟩ := hobject.skipSpace_eq
  have hbracket : (skipSpace (Utf8.ofString "[\"AA==\",null,1]")).head? = some (byte '[') := by
    decide +kernel
  rw [hfront] at hbracket
  cases hbracket

end Fixture
end Conformance
