import Conformance.Proofs.ReadValue
set_option autoImplicit false

/-!
# The members of an object are determined by its text

The text of an object is taken apart by what the readers make of one member after the other. A key has
the form of a string, and yet it may spell none: half of a pair of surrogates is no character. So a
member is listed under what its key spells, if it spells anything.
-/
namespace Conformance.Json

open Reader

/-! ## Keys -/

/-- The string that a key spells, given behind its opening quote. -/
def spelled? (k : Bytes) : Option String := (Reader.string k).toOption.map (·.1)

inductive MemberText (name : Option String) : Bytes → Prop where
  | intro {w k m i : Bytes} (hw : Spaces w) (hk : StringText k) (hname : spelled? k = name)
      (hm : Spaces m) (hi : Spaces i) : MemberText name (w ++ byte '"' :: (k ++ m ++ byte ':' :: i))

abbrev MembersText (members : List (Option String × Bytes)) (text : Bytes) : Prop :=
  Enclosed .curly MemberText members text

variable {k k' l rest rest' left : Bytes} {key s : String} {name : Option String}

theorem stringText_unique (hk : StringText k) (hk' : StringText k') (h : k ++ rest = k' ++ rest') :
    k = k' ∧ rest = rest' := by
  have hskip : skipString (k ++ rest) = .ok rest := skipString_takes.complete hk trivial
  rw [h, skipString_takes.complete hk' trivial] at hskip
  obtain rfl := Except.ok.inj hskip
  exact ⟨List.append_cancel_right h, rfl⟩

theorem stringText_of_skip {k : Bytes} (h : skipString k = .ok []) : StringText k := by
  obtain ⟨p, rfl, hp⟩ := skipString_takes.sound h
  rwa [List.append_nil]

theorem string_spelled (hk : StringText k) (h : Reader.string (k ++ rest) = .ok (s, left)) :
    spelled? k = some s ∧ left = rest := by
  obtain ⟨p, hp, htext, hread⟩ := string_local h
  obtain ⟨rfl, rfl⟩ := stringText_unique hk htext hp
  have hwhole := hread [] trivial
  rw [List.append_nil] at hwhole
  rw [spelled?, hwhole]
  exact ⟨rfl, rfl⟩

theorem string_of_spelled (hk : StringText k) (h : spelled? k = some s) (rest : Bytes) :
    Reader.string (k ++ rest) = .ok (s, rest) := by
  unfold spelled? at h
  cases hread : Reader.string k with
  | error fault =>
    rw [hread] at h
    cases h
  | ok found =>
    rw [hread] at h
    obtain rfl : found.1 = s := Option.some.inj h
    obtain ⟨p, rfl, htext, hagain⟩ := string_local hread
    have hleft : [] = found.2 := (stringText_unique hk htext (List.append_nil _)).2
    rw [← hleft, List.append_nil]
    exact hagain rest trivial

theorem KeyText.memberText (h : KeyText key l) : MemberText (some key) l := by
  obtain ⟨hw, hk, hm, hi⟩ := h
  obtain ⟨k, rfl, htext, -⟩ := string_local hk
  rw [List.append_nil]
  exact .intro hw htext (string_spelled htext hk).1 hm hi

/-- A key without blanks around it. -/
theorem memberText_of_skip {k : Bytes} {name : Option String} (h : skipString k = .ok [])
    (hname : spelled? k = name) : MemberText name ([] ++ byte '"' :: (k ++ [] ++ byte ':' :: [])) :=
  .intro spaces_nil (stringText_of_skip h) hname spaces_nil spaces_nil

theorem MemberText.label (h : MemberText name l) : LabelText .curly l := by
  obtain ⟨hw, hk, -, hm, hi⟩ := h
  exact .member hw hk hm hi

/-! ## Members -/

section Relabelled

variable {α β : Type} {bracket : Bracket} {first : Bool} {label : α → Bytes → Prop}
  {label' : β → Bytes → Prop} {entries : List (α × Bytes)} {f : α → β} {p text : Bytes}

theorem Entries.relabelled (hf : ∀ {a l}, label a l → label' (f a) l)
    (h : Entries bracket label first entries p) :
    Entries bracket label' first (entries.map fun e => (f e.1, e.2)) p := by
  induction h with
  | closed hw => exact .closed hw
  | item hs hl hv _ ih => exact .item hs (hf hl) hv ih

theorem Enclosed.relabelled (hf : ∀ {a l}, label a l → label' (f a) l)
    (h : Enclosed bracket label entries text) :
    Enclosed bracket label' (entries.map fun e => (f e.1, e.2)) text := by
  obtain ⟨hbefore, hinside, hafter⟩ := h
  exact .intro hbefore (hinside.relabelled hf) hafter

theorem Entries.written (hf : ∀ {a l}, label a l → LabelText bracket l)
    (h : Entries bracket label first entries p) : Written (.inside bracket first) p := by
  induction h with
  | closed hw => exact .closed hw
  | item hs hl hv _ ih => exact .item hs (hf hl) hv ih

theorem Enclosed.skipSpace_eq (h : Enclosed bracket label entries text) :
    ∃ inside after, Entries bracket label true entries inside ∧
      skipSpace text = bracket.opening :: (inside ++ after) := by
  obtain ⟨hbefore, hinside, -⟩ := h
  exact ⟨_, _, hinside, skipSpace_spaces_cons hbefore bracket.isSpace_opening _⟩

end Relabelled

section Members

variable {first : Bool} {members members' : List (Option String × Bytes)} {v r p p' text : Bytes}
  {sep : Bytes}

/-- What the readers make of a member, whatever ends its value. -/
theorem member_reads (hs : Separator first sep) (hl : MemberText name l) (hv : ValueText v)
    (hrest : Delimited rest) :
    ∃ k middle inside, nextKey first (sep ++ l ++ v ++ rest) = .ok (.item (k ++ middle)) ∧
      StringText k ∧ spelled? k = name ∧ colon middle = .ok inside ∧ skipSpace inside = v ++ rest ∧
      skip inside = .ok rest := by
  obtain @⟨w, k, m, i, hw, hk, hname, hm, hi⟩ := hl
  refine ⟨k, m ++ byte ':' :: (i ++ (v ++ rest)), i ++ (v ++ rest), ?_, hk, hname,
    colon_append hm _, ?_, ?_⟩
  · have hsplit : sep ++ (w ++ byte '"' :: (k ++ m ++ byte ':' :: i)) ++ v ++ rest =
        sep ++ (w ++ byte '"' :: (k ++ (m ++ byte ':' :: (i ++ (v ++ rest))))) := by simp
    rw [hsplit]
    exact nextKey_separator hs hw _
  · obtain ⟨b, t, rfl, hb⟩ := hv.front
    exact skipSpace_spaces_cons hi (isSpace_of_delimits hb) _
  · rw [← List.append_assoc]
    exact skip_complete hi hv hrest

theorem Entries.unique (h : Entries .curly MemberText first members p)
    (h' : Entries .curly MemberText first members' p') (heq : p ++ rest = p' ++ rest') :
    members = members' := by
  induction h generalizing members' p' with
  | @closed first w hw =>
    cases h' with
    | closed _ => rfl
    | item hs hl hv hr =>
      obtain ⟨k, middle, inside, hnext, -⟩ :=
        member_reads hs hl hv ((hr.written MemberText.label).delimited rest')
      rw [← List.append_assoc, ← heq, nextKey_closing hw] at hnext
      cases hnext
  | @item first name s l v r members hs hl hv hr ih =>
    obtain ⟨k, middle, inside, hnext, hk, hname, hcolon, hspace, hskip⟩ :=
      member_reads hs hl hv ((hr.written MemberText.label).delimited rest)
    rw [← List.append_assoc, heq] at hnext
    cases h' with
    | closed hw =>
      rw [nextKey_closing hw] at hnext
      cases hnext
    | @item _ name' s' l' v' r' members' hs' hl' hv' hr' =>
      obtain ⟨k', middle', inside', hnext', hk', hname', hcolon', hspace', hskip'⟩ :=
        member_reads hs' hl' hv' ((hr'.written MemberText.label).delimited rest')
      rw [← List.append_assoc] at hnext'
      -- each reader has given both
      have hstart : k ++ middle = k' ++ middle' := by simpa using hnext.symm.trans hnext'
      obtain ⟨rfl, rfl⟩ := stringText_unique hk hk' hstart
      obtain rfl := Except.ok.inj (hcolon.symm.trans hcolon')
      have hrest := Except.ok.inj (hskip.symm.trans hskip')
      have hvalue := hspace.symm.trans hspace'
      rw [← hrest] at hvalue
      rw [← hname, ← hname', List.append_cancel_right hvalue, ih hr' hrest]

theorem membersText_unique (h : MembersText members text) (h' : MembersText members' text) :
    members = members' := by
  obtain ⟨inside, after, hinside, hskip⟩ := h.skipSpace_eq
  obtain ⟨inside', after', hinside', hskip'⟩ := h'.skipSpace_eq
  exact hinside.unique hinside' (List.cons.inj (hskip.symm.trans hskip')).2

theorem ObjectText.membersText {entries : List (String × Bytes)} (h : ObjectText entries text) :
    MembersText (entries.map fun e => (some e.1, e.2)) text :=
  Enclosed.relabelled KeyText.memberText h

theorem objectText_unique {entries entries' : List (String × Bytes)} (h : ObjectText entries text)
    (h' : ObjectText entries' text) : entries = entries' := by
  have hnamed : Function.Injective fun e : String × Bytes => (some e.1, e.2) := by
    rintro ⟨key, p⟩ ⟨key', p'⟩ heq
    simpa using heq
  exact List.map_injective_iff.2 hnamed (membersText_unique h.membersText h'.membersText)

end Members

end Conformance.Json
