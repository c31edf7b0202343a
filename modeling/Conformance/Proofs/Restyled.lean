import Conformance.Proofs.ObjectMembers
set_option autoImplicit false

/-!
# Other blanks and other escapes

Two texts that differ only in the blanks between their tokens and in the escapes of their keys are read
as the same value. The relation has the rules of the grammar, each for two texts at once, and reading is
followed along them.
-/
namespace Conformance.Json

open Reader

inductive LabelRestyled : Bracket → Bytes → Bytes → Prop where
  | element {w w' : Bytes} (hw : Spaces w) (hw' : Spaces w') : LabelRestyled .square w w'
  | member {w w' k k' m m' i i' : Bytes} (hw : Spaces w) (hw' : Spaces w') (hk : StringText k)
      (hk' : StringText k') (hname : spelled? k = spelled? k') (hm : Spaces m) (hm' : Spaces m')
      (hi : Spaces i) (hi' : Spaces i') :
      LabelRestyled .curly (w ++ byte '"' :: (k ++ m ++ byte ':' :: i))
        (w' ++ byte '"' :: (k' ++ m' ++ byte ':' :: i'))

/-- The same tokens with other blanks between them, and with keys that may be spelled in other escapes. -/
inductive Restyled : Part → Bytes → Bytes → Prop where
  | same {p : Bytes} (hp : ValueText p) : Restyled .value p p
  | enclosed {bracket : Bracket} {p p' : Bytes} (hp : Restyled (.inside bracket true) p p') :
      Restyled .value (bracket.opening :: p) (bracket.opening :: p')
  | closed {bracket : Bracket} {first : Bool} {w w' : Bytes} (hw : Spaces w) (hw' : Spaces w') :
      Restyled (.inside bracket first) (w ++ [bracket.closing]) (w' ++ [bracket.closing])
  | item {bracket : Bracket} {first : Bool} {s s' l l' v v' r r' : Bytes} (hs : Separator first s)
      (hs' : Separator first s') (hl : LabelRestyled bracket l l') (hv : Restyled .value v v')
      (hr : Restyled (.inside bracket false) r r') :
      Restyled (.inside bracket first) (s ++ l ++ v ++ r) (s' ++ l' ++ v' ++ r')

section Relation

variable {bracket : Bracket} {part : Part} {l l' p p' : Bytes}

theorem LabelRestyled.symm (h : LabelRestyled bracket l l') : LabelRestyled bracket l' l := by
  cases h with
  | element hw hw' => exact .element hw' hw
  | member hw hw' hk hk' hname hm hm' hi hi' => exact .member hw' hw hk' hk hname.symm hm' hm hi' hi

theorem LabelRestyled.label (h : LabelRestyled bracket l l') : LabelText bracket l := by
  cases h with
  | element hw _ => exact .element hw
  | member hw _ hk _ _ hm _ hi _ => exact .member hw hk hm hi

theorem Restyled.symm (h : Restyled part p p') : Restyled part p' p := by
  induction h with
  | same hp => exact .same hp
  | enclosed _ ih => exact .enclosed ih
  | closed hw hw' => exact .closed hw' hw
  | item hs hs' hl _ _ ihv ihr => exact .item hs' hs hl.symm ihv ihr

theorem Restyled.written (h : Restyled part p p') : Written part p := by
  induction h with
  | same hp => exact hp
  | enclosed _ ih => exact .enclosed ih
  | closed hw _ => exact .closed hw
  | item hs _ hl _ _ ihv ihr => exact .item hs hl.label ihv ihr

end Relation

namespace Reader

variable {depth steps : ℕ} {first : Bool} {v x : Json} {p p' w rest left : Bytes}

/-- A reader that stops where a value may end has taken the whole text. -/
theorem value_takes (hp : ValueText p) (hrest : Delimited rest) (hleft : Delimited left)
    (h : value depth (p ++ rest) = .ok (v, left)) : left = rest ∧ value depth p = .ok (v, []) := by
  obtain ⟨w, q, heq, hw, hq, hread⟩ := value_rereads (Nat.le_refl depth) h
  have hskip := skip_complete spaces_nil hp hrest
  have hskip' := skip_complete hw hq hleft
  rw [List.append_assoc, ← heq] at hskip'
  obtain rfl := Except.ok.inj (hskip'.symm.trans hskip)
  have hsame : p = w ++ q := by
    rw [← List.append_assoc] at heq
    exact List.append_cancel_right heq
  have hwhole := hread w [] hw (spaces_delimited spaces_nil)
  rw [List.append_nil, ← hsame] at hwhole
  exact ⟨rfl, hwhole⟩

theorem value_spaces (depth : ℕ) (hw : Spaces w) (rest : Bytes) :
    value depth (w ++ rest) = value depth rest := by
  cases depth with
  | zero => exact valueOver_spaces none hw rest
  | succ depth => exact valueOver_spaces _ hw rest

def ReadAlike : Part → Bytes → Bytes → Prop
  | .value, p, p' => ∀ ⦃depth : ℕ⦄ ⦃v : Json⦄, value depth p = .ok (v, []) →
      ∀ rest, Delimited rest → value depth (p' ++ rest) = .ok (v, rest)
  | .inside .square first, p, p' => ∀ ⦃depth steps : ℕ⦄ ⦃done items : List Json⦄,
      elements (value depth) steps first done p = .ok (items, []) → ∀ steps' rest, p'.length ≤ steps' →
        elements (value depth) steps' first done (p' ++ rest) = .ok (items, rest)
  | .inside .curly first, p, p' => ∀ ⦃depth steps : ℕ⦄ ⦃done found : List (String × Json)⦄,
      pairs (value depth) steps first done p = .ok (found, []) → ∀ steps' rest, p'.length ≤ steps' →
        pairs (value depth) steps' first done (p' ++ rest) = .ok (found, rest)

theorem readAlike_same (p : Bytes) : ReadAlike .value p p := by
  intro depth v h rest hrest
  obtain ⟨w, q, rfl, hw, -, hread⟩ := value_rereads (Nat.le_refl depth) h
  rw [List.append_nil, List.append_assoc]
  exact hread w rest hw hrest

theorem readAlike_enclosed {bracket : Bracket} (h : ReadAlike (.inside bracket true) p p') :
    ReadAlike .value (bracket.opening :: p) (bracket.opening :: p') := by
  intro depth v hv rest _
  cases bracket with
  | square =>
    cases depth with
    | zero => cases hv
    | succ depth =>
      change array (value depth) p = _ at hv
      obtain ⟨⟨items, left⟩, hitems, heq⟩ := ok_of_map_eq_ok hv
      obtain ⟨rfl, rfl⟩ := Prod.mk.inj heq
      change array (value depth) (p' ++ rest) = _
      rw [array, h hitems _ rest (by rw [List.length_append]; omega)]
      rfl
  | curly =>
    cases depth with
    | zero => cases hv
    | succ depth =>
      change object (value depth) p = _ at hv
      obtain ⟨⟨found, left⟩, hfound, heq⟩ := ok_of_map_eq_ok hv
      obtain ⟨rfl, rfl⟩ := Prod.mk.inj heq
      change object (value depth) (p' ++ rest) = _
      rw [object, h hfound _ rest (by rw [List.length_append]; omega)]
      rfl

theorem readAlike_closed {bracket : Bracket} {w' : Bytes} (hw : Spaces w) (hw' : Spaces w') :
    ReadAlike (.inside bracket first) (w ++ [bracket.closing]) (w' ++ [bracket.closing]) := by
  cases bracket with
  | square =>
    intro depth steps done items h steps' rest hsteps
    rw [List.length_append, List.length_singleton] at hsteps
    obtain ⟨n, rfl⟩ := Nat.exists_eq_succ_of_ne_zero (by omega : steps' ≠ 0)
    rw [← List.append_nil (w ++ _)] at h
    cases steps with
    | zero => cases h
    | succ steps =>
      rw [elements_closed (nextElement_closing hw [])] at h
      obtain ⟨rfl, -⟩ := Prod.mk.inj (Except.ok.inj h)
      exact elements_closed (nextElement_closing hw' rest)
  | curly =>
    intro depth steps done found h steps' rest hsteps
    rw [List.length_append, List.length_singleton] at hsteps
    obtain ⟨n, rfl⟩ := Nat.exists_eq_succ_of_ne_zero (by omega : steps' ≠ 0)
    rw [← List.append_nil (w ++ _)] at h
    cases steps with
    | zero => cases h
    | succ steps =>
      rw [pairs_closed (nextKey_closing hw [])] at h
      obtain ⟨rfl, -⟩ := Prod.mk.inj (Except.ok.inj h)
      exact pairs_closed (nextKey_closing hw' rest)

section Item

variable {s s' l l' u u' r r' : Bytes}

theorem readAlike_element (hs : Separator first s) (hs' : Separator first s')
    (hl : LabelRestyled .square l l') (hv : ValueText u) (hv' : ValueText u')
    (hr : Written (.inside .square false) r) (hr' : Written (.inside .square false) r')
    (ihv : ReadAlike .value u u') (ihr : ReadAlike (.inside .square false) r r') :
    ReadAlike (.inside .square first) (s ++ l ++ u ++ r) (s' ++ l' ++ u' ++ r') := by
  intro depth steps done items h steps' rest hsteps
  obtain ⟨b, t, hfront, -⟩ := hv'.front
  simp only [List.length_append, hfront, List.length_cons] at hsteps
  obtain ⟨n, rfl⟩ := Nat.exists_eq_succ_of_ne_zero (by omega : steps' ≠ 0)
  cases hl with
  | element hw hw' =>
    rw [List.append_assoc, List.append_assoc] at h
    cases steps with
    | zero => cases h
    | succ steps =>
      have hnext := nextElement_separator hs hw hv r
      rcases elements_cases h with ⟨hclosed, -⟩ | ⟨start, x, behind, hitem, hx, hrest⟩
      · rw [hnext] at hclosed
        cases hclosed
      · obtain rfl : u ++ r = start := by simpa using hnext.symm.trans hitem
        -- the loop goes on behind the value, so that the reader has not stopped inside it
        obtain ⟨q, rfl, hq, -⟩ := elements_rereads (value_rereads (Nat.le_refl depth)) hrest
        obtain ⟨hbehind, hvalue⟩ :=
          value_takes hv (by simpa using hr.delimited []) (hq.delimited []) hx
        rw [hbehind] at hrest
        have hvalue' := ihv hvalue (r' ++ rest) (hr'.delimited rest)
        have hnext' := nextElement_separator hs' hw' hv' (r' ++ rest)
        simp only [List.append_assoc]
        rw [elements_item hnext' hvalue']
        exact ihr hrest n rest (by omega)

theorem readAlike_member (hs : Separator first s) (hs' : Separator first s')
    (hl : LabelRestyled .curly l l') (hv : ValueText u) (hv' : ValueText u')
    (hr : Written (.inside .curly false) r) (hr' : Written (.inside .curly false) r')
    (ihv : ReadAlike .value u u') (ihr : ReadAlike (.inside .curly false) r r') :
    ReadAlike (.inside .curly first) (s ++ l ++ u ++ r) (s' ++ l' ++ u' ++ r') := by
  intro depth steps done found h steps' rest hsteps
  obtain ⟨b, t, hfront, -⟩ := hv'.front
  simp only [List.length_append, hfront, List.length_cons] at hsteps
  obtain ⟨n, rfl⟩ := Nat.exists_eq_succ_of_ne_zero (by omega : steps' ≠ 0)
  cases hl with
  | @member w w' k k' m m' i i' hw hw' hk hk' hname hm hm' hi hi' =>
    cases steps with
    | zero => cases h
    | succ steps =>
      have hsplit : s ++ (w ++ byte '"' :: (k ++ m ++ byte ':' :: i)) ++ u ++ r =
          s ++ (w ++ byte '"' :: (k ++ (m ++ byte ':' :: (i ++ (u ++ r))))) := by simp
      rw [hsplit] at h
      have hnext := nextKey_separator hs hw (k ++ (m ++ byte ':' :: (i ++ (u ++ r))))
      rcases pairs_cases h with
        ⟨hclosed, -⟩ | ⟨start, key, middle, inside, x, behind, hitem, hkey, hcolon, hx, hrest⟩
      · rw [hnext] at hclosed
        cases hclosed
      · obtain rfl : k ++ (m ++ byte ':' :: (i ++ (u ++ r))) = start := by
          simpa using hnext.symm.trans hitem
        obtain ⟨hspelled, rfl⟩ := string_spelled hk hkey
        rw [hname] at hspelled
        rw [colon_append hm] at hcolon
        obtain rfl := Except.ok.inj hcolon
        rw [value_spaces depth hi] at hx
        -- the loop goes on behind the value, so that the reader has not stopped inside it
        obtain ⟨q, rfl, hq, -⟩ := pairs_rereads (value_rereads (Nat.le_refl depth)) hrest
        obtain ⟨hbehind, hvalue⟩ :=
          value_takes hv (by simpa using hr.delimited []) (hq.delimited []) hx
        rw [hbehind] at hrest
        have hvalue' := ihv hvalue (r' ++ rest) (hr'.delimited rest)
        rw [← value_spaces depth hi'] at hvalue'
        have hsplit' : s' ++ (w' ++ byte '"' :: (k' ++ m' ++ byte ':' :: i')) ++ u' ++ r' ++ rest =
            s' ++ (w' ++ byte '"' :: (k' ++ (m' ++ byte ':' :: (i' ++ (u' ++ (r' ++ rest)))))) := by simp
        rw [hsplit', pairs_item (nextKey_separator hs' hw' _) (string_of_spelled hk' hspelled _)
          (colon_append hm' _) hvalue']
        exact ihr hrest n rest (by omega)

end Item

theorem readAlike_of_restyled {part : Part} (h : Restyled part p p') : ReadAlike part p p' := by
  induction h with
  | same hp => exact readAlike_same _
  | enclosed _ ih => exact readAlike_enclosed ih
  | closed hw hw' => exact readAlike_closed hw hw'
  | @item bracket first s s' l l' v v' r r' hs hs' hl hv hr ihv ihr =>
    cases bracket with
    | square =>
      exact readAlike_element hs hs' hl hv.written hv.symm.written hr.written hr.symm.written ihv ihr
    | curly =>
      exact readAlike_member hs hs' hl hv.written hv.symm.written hr.written hr.symm.written ihv ihr

/-- What is read depends neither on the blanks between the tokens nor on the escapes in keys. -/
theorem value_restyled (h : Restyled .value p p') :
    value depth p = .ok (v, []) ↔ value depth p' = .ok (v, []) := by
  have hread : ∀ {q q' : Bytes}, Restyled .value q q' → value depth q = .ok (v, []) →
      value depth q' = .ok (v, []) := by
    intro q q' hq hvalue
    have hagain := readAlike_of_restyled hq hvalue [] (spaces_delimited spaces_nil)
    rwa [List.append_nil] at hagain
  exact ⟨hread h, hread h.symm⟩

end Reader
end Conformance.Json
