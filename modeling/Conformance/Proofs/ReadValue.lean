import Conformance.Json.Reader.Value
import Conformance.Proofs.ReadDistinct
import Conformance.Proofs.SkipValue
set_option autoImplicit false

/-!
# A value is read alike wherever it stands

What the reader makes of the text of a value depends neither on the blanks in front of it nor on what
follows, and more depth changes nothing where less was enough. So the text that a member of an object
has for its value can be read again as a document of its own.
-/
namespace Conformance.Json

/-- What the first reader gives stands in the text of a value, of which the second makes the same
wherever it stands. -/
def Rereads (item item' : Reader Json) : Prop :=
  ∀ ⦃r : Bytes⦄ ⦃v : Json⦄ ⦃left : Bytes⦄, item r = .ok (v, left) →
    ∃ w p, r = w ++ (p ++ left) ∧ Spaces w ∧ ValueText p ∧
      ∀ before rest, Spaces before → Delimited rest → item' (before ++ (p ++ rest)) = .ok (v, rest)

namespace Reader

variable {first : Bool} {r left : Bytes}

/-! ## The places between values -/

theorem nextElement_closed (h : nextElement first r = .ok (.closed left)) :
    ∃ w, Spaces w ∧ r = w ++ [Bracket.square.closing] ++ left := by
  obtain ⟨w, hw, hr, -⟩ := skipSpace_cases r
  rw [nextElement] at h
  split at h
  · cases h
  · next b tail hskip =>
    split at h
    · next hb =>
      cases h
      exact ⟨w, hw, by rw [hr, hskip, hb, List.append_assoc]; rfl⟩
    · split at h
      · cases h
      · split at h
        · split at h
          · cases h
          · split at h <;> cases h
        · cases h

theorem nextElement_item (h : nextElement first r = .ok (.item left)) :
    ∃ s w, Separator first s ∧ Spaces w ∧ r = s ++ (w ++ left) := by
  obtain ⟨w, hw, hr, -⟩ := skipSpace_cases r
  rw [nextElement] at h
  split at h
  · cases h
  · next b tail hskip =>
    rw [hskip] at hr
    split at h
    · cases h
    · cases first with
      | true =>
        cases h
        exact ⟨[], w, .first, hw, hr⟩
      | false =>
        rw [if_neg Bool.false_ne_true] at h
        split at h
        · next hcomma =>
          obtain ⟨w', hw', htail, -⟩ := skipSpace_cases tail
          split at h
          · cases h
          · next c more hskip' =>
            split at h
            · cases h
            · cases h
              refine ⟨w ++ [byte ','], w', .comma hw, hw', ?_⟩
              rw [hr, hcomma, List.append_assoc, List.singleton_append, ← hskip', ← htail]
        · cases h

theorem nextElement_closing {w : Bytes} (hw : Spaces w) (rest : Bytes) :
    nextElement first (w ++ [Bracket.square.closing] ++ rest) = .ok (.closed rest) := by
  rw [List.append_assoc, List.singleton_append, nextElement,
    skipSpace_spaces_cons hw Bracket.square.isSpace_closing]
  exact if_pos rfl

theorem nextElement_separator {s w p : Bytes} (hs : Separator first s) (hw : Spaces w)
    (hp : ValueText p) (rest : Bytes) :
    nextElement first (s ++ (w ++ (p ++ rest))) = .ok (.item (p ++ rest)) := by
  obtain ⟨b, t, rfl, hb⟩ := hp.front
  have hskip := skipSpace_spaces_cons hw (isSpace_of_delimits hb) (t ++ rest)
  have hclosing : b ≠ byte ']' := Bracket.ne_closing .square hb
  cases hs with
  | first =>
    rw [List.nil_append, List.cons_append, nextElement, hskip]
    dsimp only
    rw [if_neg hclosing, if_pos rfl]
  | comma hcomma =>
    rw [List.append_assoc, List.singleton_append, List.cons_append, nextElement,
      skipSpace_spaces_cons hcomma rfl]
    dsimp only
    rw [if_neg (by decide), if_neg Bool.false_ne_true, if_pos rfl, hskip]
    exact if_neg hclosing

theorem nextKey_closed (h : nextKey first r = .ok (.closed left)) :
    ∃ w, Spaces w ∧ r = w ++ [Bracket.curly.closing] ++ left := by
  obtain ⟨w, hw, hr, -⟩ := skipSpace_cases r
  rw [nextKey] at h
  split at h
  · cases h
  · next b tail hskip =>
    split at h
    · next hb =>
      cases h
      exact ⟨w, hw, by rw [hr, hskip, hb, List.append_assoc]; rfl⟩
    · split at h
      · split at h <;> cases h
      · split at h
        · split at h
          · cases h
          · split at h
            · cases h
            · split at h <;> cases h
        · cases h

theorem nextKey_item (h : nextKey first r = .ok (.item left)) :
    ∃ s w, Separator first s ∧ Spaces w ∧ r = s ++ (w ++ byte '"' :: left) := by
  obtain ⟨w, hw, hr, -⟩ := skipSpace_cases r
  rw [nextKey] at h
  split at h
  · cases h
  · next b tail hskip =>
    rw [hskip] at hr
    split at h
    · cases h
    · cases first with
      | true =>
        rw [if_pos rfl] at h
        split at h
        · next hquote =>
          cases h
          exact ⟨[], w, .first, hw, by rw [hr, hquote]; rfl⟩
        · cases h
      | false =>
        rw [if_neg Bool.false_ne_true] at h
        split at h
        · next hcomma =>
          obtain ⟨w', hw', htail, -⟩ := skipSpace_cases tail
          split at h
          · cases h
          · next c more hskip' =>
            split at h
            · next hquote =>
              cases h
              refine ⟨w ++ [byte ','], w', .comma hw, hw', ?_⟩
              rw [hr, hcomma, List.append_assoc, List.singleton_append, ← hquote, ← hskip', ← htail]
            · split at h <;> cases h
        · cases h

theorem nextKey_closing {w : Bytes} (hw : Spaces w) (rest : Bytes) :
    nextKey first (w ++ [Bracket.curly.closing] ++ rest) = .ok (.closed rest) := by
  rw [List.append_assoc, List.singleton_append, nextKey,
    skipSpace_spaces_cons hw Bracket.curly.isSpace_closing]
  exact if_pos rfl

theorem nextKey_separator {s w : Bytes} (hs : Separator first s) (hw : Spaces w) (rest : Bytes) :
    nextKey first (s ++ (w ++ byte '"' :: rest)) = .ok (.item rest) := by
  have hskip := skipSpace_spaces_cons (b := byte '"') hw rfl rest
  cases hs with
  | first =>
    rw [List.nil_append, nextKey, hskip]
    rfl
  | comma hcomma =>
    rw [List.append_assoc, List.singleton_append, nextKey, skipSpace_spaces_cons hcomma rfl]
    dsimp only
    rw [if_neg (by decide), if_neg Bool.false_ne_true, if_pos rfl, hskip]
    rfl

/-! ## Arrays and objects -/

section Loop

variable {item item' : Reader Json} {steps : ℕ} {start : Bytes}

theorem elements_closed {done : List Json} (hnext : nextElement first r = .ok (.closed left)) :
    elements item (steps + 1) first done r = .ok (done.reverse, left) := by
  simp only [elements, hnext]

theorem elements_item {done : List Json} {v : Json} (hnext : nextElement first r = .ok (.item start))
    (hv : item start = .ok (v, left)) :
    elements item (steps + 1) first done r = elements item steps false (v :: done) left := by
  simp only [elements, hnext, hv]

theorem pairs_closed {done : List (String × Json)} (hnext : nextKey first r = .ok (.closed left)) :
    pairs item (steps + 1) first done r = .ok (done.reverse, left) := by
  simp only [pairs, hnext]

theorem pairs_item {done : List (String × Json)} {key : String} {middle inside : Bytes} {v : Json}
    (hnext : nextKey first r = .ok (.item start)) (hkey : string start = .ok (key, middle))
    (hcolon : colon middle = .ok inside) (hv : item inside = .ok (v, left)) :
    pairs item (steps + 1) first done r = pairs item steps false ((key, v) :: done) left := by
  simp only [pairs, hnext, hkey, hcolon, hv]

/-- The steps bound the piece that is read and not what stands behind it. -/
theorem elements_rereads (hitem : Rereads item item') {done items : List Json}
    (h : elements item steps first done r = .ok (items, left)) :
    ∃ p, r = p ++ left ∧ Written (.inside .square first) p ∧ ∀ steps' rest, p.length ≤ steps' →
      elements item' steps' first done (p ++ rest) = .ok (items, rest) := by
  induction steps generalizing first done r with
  | zero => cases h
  | succ steps ih =>
    rcases elements_cases h with ⟨hnext, rfl⟩ | ⟨start, v, behind, hnext, hv, hrest⟩
    · obtain ⟨w, hw, rfl⟩ := nextElement_closed hnext
      refine ⟨_, rfl, .closed hw, fun steps' rest hsteps => ?_⟩
      rw [List.length_append, List.length_singleton] at hsteps
      obtain ⟨k, rfl⟩ := Nat.exists_eq_succ_of_ne_zero (by omega : steps' ≠ 0)
      exact elements_closed (nextElement_closing hw rest)
    · obtain ⟨s, w, hs, hw, rfl⟩ := nextElement_item hnext
      obtain ⟨w', p, rfl, hw', hp, hread⟩ := hitem hv
      obtain ⟨q, rfl, hq, hloop⟩ := ih hrest
      refine ⟨s ++ (w ++ w') ++ p ++ q, by simp only [List.append_assoc],
        .item hs (.element (spaces_append hw hw')) hp hq, fun steps' rest hsteps => ?_⟩
      obtain ⟨b, t, hpb, -⟩ := hp.front
      have hlength : 1 ≤ p.length := by rw [hpb]; simp
      simp only [List.length_append] at hsteps
      obtain ⟨k, rfl⟩ := Nat.exists_eq_succ_of_ne_zero (by omega : steps' ≠ 0)
      have hsplit : s ++ (w ++ w') ++ p ++ q ++ rest = s ++ ((w ++ w') ++ (p ++ (q ++ rest))) := by
        simp only [List.append_assoc]
      have hnext' := nextElement_separator hs (spaces_append hw hw') hp (q ++ rest)
      rw [hsplit, elements_item hnext' (hread [] (q ++ rest) spaces_nil (hq.delimited rest))]
      exact hloop k rest (by omega)

theorem pairs_rereads (hitem : Rereads item item') {done found : List (String × Json)}
    (h : pairs item steps first done r = .ok (found, left)) :
    ∃ p, r = p ++ left ∧ Written (.inside .curly first) p ∧ ∀ steps' rest, p.length ≤ steps' →
      pairs item' steps' first done (p ++ rest) = .ok (found, rest) := by
  induction steps generalizing first done r with
  | zero => cases h
  | succ steps ih =>
    rcases pairs_cases h with
      ⟨hnext, rfl⟩ | ⟨start, key, middle, inside, v, behind, hnext, hkey, hcolon, hv, hrest⟩
    · obtain ⟨w, hw, rfl⟩ := nextKey_closed hnext
      refine ⟨_, rfl, .closed hw, fun steps' rest hsteps => ?_⟩
      rw [List.length_append, List.length_singleton] at hsteps
      obtain ⟨k, rfl⟩ := Nat.exists_eq_succ_of_ne_zero (by omega : steps' ≠ 0)
      exact pairs_closed (nextKey_closing hw rest)
    · obtain ⟨s, w, hs, hw, rfl⟩ := nextKey_item hnext
      obtain ⟨k, rfl, hk, hreadKey⟩ := string_local hkey
      obtain ⟨m, hm, rfl⟩ := colon_ok hcolon
      obtain ⟨i, p, rfl, hi, hp, hread⟩ := hitem hv
      obtain ⟨q, rfl, hq, hloop⟩ := ih hrest
      refine ⟨s ++ (w ++ byte '"' :: (k ++ m ++ byte ':' :: i)) ++ p ++ q, by simp,
        .item hs (.member hw hk hm hi) hp hq, fun steps' rest hsteps => ?_⟩
      simp only [List.length_append, List.length_cons] at hsteps
      obtain ⟨n, rfl⟩ := Nat.exists_eq_succ_of_ne_zero (by omega : steps' ≠ 0)
      have hsplit : s ++ (w ++ byte '"' :: (k ++ m ++ byte ':' :: i)) ++ p ++ q ++ rest =
          s ++ (w ++ byte '"' :: (k ++ (m ++ byte ':' :: (i ++ (p ++ (q ++ rest)))))) := by simp
      rw [hsplit, pairs_item (nextKey_separator hs hw _) (hreadKey _ trivial) (colon_append hm _)
        (hread i (q ++ rest) hi (hq.delimited rest))]
      exact hloop n rest (by omega)

theorem array_rereads (hitem : Rereads item item') {v : Json} (h : array item r = .ok (v, left)) :
    ∃ p, r = p ++ left ∧ Written (.inside .square true) p ∧
      ∀ rest, array item' (p ++ rest) = .ok (v, rest) := by
  obtain ⟨⟨items, left'⟩, hitems, heq⟩ := ok_of_map_eq_ok h
  obtain ⟨rfl, rfl⟩ := Prod.mk.inj heq
  obtain ⟨p, rfl, hp, hread⟩ := elements_rereads hitem hitems
  refine ⟨p, rfl, hp, fun rest => ?_⟩
  rw [array, hread _ rest (by rw [List.length_append]; omega)]
  rfl

theorem object_rereads (hitem : Rereads item item') {v : Json} (h : object item r = .ok (v, left)) :
    ∃ p, r = p ++ left ∧ Written (.inside .curly true) p ∧
      ∀ rest, object item' (p ++ rest) = .ok (v, rest) := by
  obtain ⟨⟨found, left'⟩, hfound, heq⟩ := ok_of_map_eq_ok h
  obtain ⟨rfl, rfl⟩ := Prod.mk.inj heq
  obtain ⟨p, rfl, hp, hread⟩ := pairs_rereads hitem hfound
  refine ⟨p, rfl, hp, fun rest => ?_⟩
  rw [object, hread _ rest (by rw [List.length_append]; omega)]
  rfl

end Loop

/-! ## Values -/

theorem valueOver_spaces (inner : Option (Reader Json)) {w : Bytes} (hw : Spaces w) (rest : Bytes) :
    valueOver inner (w ++ rest) = valueOver inner rest := by
  rw [valueOver, valueOver, skipSpace_append hw]

theorem valueOver_digit (inner : Option (Reader Json)) {b : UInt8} (hb : isDigit b = true) (t : Bytes) :
    valueOver inner (b :: t) = (number false (b :: t)).map fun r => (.number r.1, r.2) := by
  rw [valueOver, skipSpace_of_noFront (noFront_cons (isDigit_front hb).1 t)]
  simp only [lead_of_digit hb]

/-- It is enough to find the text of a value behind the blanks and to read it there again. -/
theorem rereads_of_front {inner : Option (Reader Json)} {w tail : Bytes} {b : UInt8} {v : Json}
    (hw : Spaces w) (hr : r = w ++ b :: tail)
    (h : ∃ p, tail = p ++ left ∧ ValueText (b :: p) ∧
      ∀ rest, Delimited rest → valueOver inner (b :: (p ++ rest)) = .ok (v, rest)) :
    ∃ w p, r = w ++ (p ++ left) ∧ Spaces w ∧ ValueText p ∧ ∀ before rest, Spaces before →
      Delimited rest → valueOver inner (before ++ (p ++ rest)) = .ok (v, rest) := by
  obtain ⟨p, rfl, hp, hread⟩ := h
  refine ⟨w, b :: p, hr, hw, hp, fun before rest hbefore hrest => ?_⟩
  rw [valueOver_spaces inner hbefore]
  exact hread rest hrest

theorem word_rereads {inner : Option (Reader Json)} {b : UInt8} {cs : List Char} {tail : Bytes}
    {v v' : Json} (htext : ValueText (b :: cs.map byte))
    (hread : ∀ t, valueOver inner (b :: t) = (word cs t).map fun rest => (v, rest))
    (h : (word cs tail).map (fun rest => (v, rest)) = .ok (v', left)) :
    ∃ p, tail = p ++ left ∧ ValueText (b :: p) ∧
      ∀ rest, Delimited rest → valueOver inner (b :: (p ++ rest)) = .ok (v', rest) := by
  obtain ⟨left', hword, heq⟩ := ok_of_map_eq_ok h
  obtain ⟨rfl, rfl⟩ := Prod.mk.inj heq
  refine ⟨cs.map byte, eq_append_of_word hword, htext, fun rest _ => ?_⟩
  rw [hread, word_append]
  rfl

theorem scalar_rereads {α : Type} {inner : Option (Reader Json)} {b : UInt8} {tail : Bytes} {v : Json}
    {f : Reader α} {text stop : Bytes → Prop} {wrap : α → Json} (hf : Local f text stop)
    (htext : ∀ {p}, text p → ValueText (b :: p)) (hstop : ∀ {rest}, Delimited rest → stop rest)
    (hread : ∀ t, valueOver inner (b :: t) = (f t).map fun x => (wrap x.1, x.2))
    (h : (f tail).map (fun x => (wrap x.1, x.2)) = .ok (v, left)) :
    ∃ p, tail = p ++ left ∧ ValueText (b :: p) ∧
      ∀ rest, Delimited rest → valueOver inner (b :: (p ++ rest)) = .ok (v, rest) := by
  obtain ⟨⟨a, left'⟩, ha, heq⟩ := ok_of_map_eq_ok h
  obtain ⟨rfl, rfl⟩ := Prod.mk.inj heq
  obtain ⟨p, rfl, hp, hlocal⟩ := hf ha
  refine ⟨p, rfl, htext hp, fun rest hrest => ?_⟩
  rw [hread, hlocal rest (hstop hrest)]
  rfl

theorem valueOver_rereads {inner inner' : Option (Reader Json)}
    (hinner : ∀ item, inner = some item → ∃ item', inner' = some item' ∧ Rereads item item') :
    Rereads (valueOver inner) (valueOver inner') := by
  intro r v left h
  obtain ⟨w, hw, hr, -⟩ := skipSpace_cases r
  rw [valueOver] at h
  split at h
  · cases h
  · next b tail hskip =>
    rw [hskip] at hr
    refine rereads_of_front hw hr ?_
    have hb := begins_of b
    cases hlead : Lead.of b with
    | null =>
      rw [hlead] at h hb
      subst hb
      exact word_rereads .nullWord (fun _ => rfl) h
    | true =>
      rw [hlead] at h hb
      subst hb
      exact word_rereads .trueWord (fun _ => rfl) h
    | false =>
      rw [hlead] at h hb
      subst hb
      exact word_rereads .falseWord (fun _ => rfl) h
    | minus =>
      rw [hlead] at h hb
      subst hb
      exact scalar_rereads (number_local true) .negative Delimited.noFront (fun _ => rfl) h
    | digit =>
      rw [hlead] at h hb
      obtain ⟨⟨n, left'⟩, hn, heq⟩ := ok_of_map_eq_ok h
      obtain ⟨rfl, rfl⟩ := Prod.mk.inj heq
      obtain ⟨p, hp, htext, hread⟩ := number_local false hn
      obtain ⟨c, t, rfl, -⟩ := htext.front
      obtain ⟨rfl, rfl⟩ := List.cons.inj hp
      refine ⟨t, rfl, .number htext, fun rest hrest => ?_⟩
      rw [valueOver_digit inner' hb, ← List.cons_append, hread rest hrest.noFront]
      rfl
    | quote =>
      rw [hlead] at h hb
      subst hb
      exact scalar_rereads string_local .string (fun _ => trivial) (fun _ => rfl) h
    | bracket =>
      rw [hlead] at h hb
      subst hb
      cases hitem : inner with
      | none =>
        rw [hitem] at h
        cases h
      | some item =>
        rw [hitem] at h
        obtain ⟨item', rfl, hrereads⟩ := hinner item hitem
        obtain ⟨p, rfl, hp, hread⟩ := array_rereads hrereads h
        exact ⟨p, rfl, @Written.enclosed .square p hp, fun rest _ => hread rest⟩
    | brace =>
      rw [hlead] at h hb
      subst hb
      cases hitem : inner with
      | none =>
        rw [hitem] at h
        cases h
      | some item =>
        rw [hitem] at h
        obtain ⟨item', rfl, hrereads⟩ := hinner item hitem
        obtain ⟨p, rfl, hp, hread⟩ := object_rereads hrereads h
        exact ⟨p, rfl, @Written.enclosed .curly p hp, fun rest _ => hread rest⟩
    | other =>
      rw [hlead] at h
      cases h

/-- More depth changes nothing where less was enough. -/
theorem value_rereads {depth depth' : ℕ} (h : depth ≤ depth') : Rereads (value depth) (value depth') := by
  induction depth generalizing depth' with
  | zero =>
    cases depth' with
    | zero => exact valueOver_rereads nofun
    | succ depth' => exact valueOver_rereads nofun
  | succ depth ih =>
    cases depth' with
    | zero => cases h
    | succ depth' =>
      refine valueOver_rereads fun item hitem => ⟨value depth', rfl, ?_⟩
      obtain rfl := Option.some.inj hitem
      exact ih (Nat.le_of_succ_le_succ h)

/-! ## Documents -/

theorem finish_ok {u : Unit} (h : finish r = .ok u) : Spaces r := by
  obtain ⟨w, hw, hr, -⟩ := skipSpace_cases r
  rw [finish] at h
  split at h
  · next hskip =>
    rw [hr, hskip, List.append_nil]
    exact hw
  · cases h

theorem finish_spaces {w : Bytes} (hw : Spaces w) : finish w = .ok () := by
  have hskip : skipSpace w = [] := by
    rw [← List.append_nil w, skipSpace_append hw]
    rfl
  rw [finish, hskip]

end Reader

open Reader

theorem spaces_delimited {w : Bytes} (hw : Spaces w) : Delimited w := by
  rw [← List.append_nil w]
  exact hw.delimited_append nofun

theorem read_of_value {whole left : Bytes} {v : Json} (hvalue : value maxDepth whole = .ok (v, left))
    (hleft : Spaces left) : read whole = .ok v := by
  rw [read, document, hvalue]
  dsimp only [bind, Except.bind]
  rw [finish_spaces hleft]
  rfl

theorem value_of_read {whole : Bytes} {v : Json} (h : read whole = .ok v) :
    ∃ left, value maxDepth whole = .ok (v, left) ∧ Spaces left := by
  obtain ⟨⟨v', left⟩, hvalue, hrest⟩ := ok_of_bind_eq_ok (mapError_eq_ok_iff.1 h)
  obtain ⟨u, hfinish, heq⟩ := ok_of_bind_eq_ok hrest
  obtain rfl := Except.ok.inj heq
  exact ⟨left, hvalue, finish_ok hfinish⟩

/-- Blanks around a document change nothing. -/
theorem read_between {before p after : Bytes} {v : Json} (h : read p = .ok v) (hbefore : Spaces before)
    (hafter : Spaces after) : read (before ++ p ++ after) = .ok v := by
  obtain ⟨left, hvalue, hleft⟩ := value_of_read h
  obtain ⟨w, q, rfl, hw, -, hread⟩ := value_rereads (Nat.le_refl maxDepth) hvalue
  have hblank := spaces_append hleft hafter
  have hagain := hread (before ++ w) (left ++ after) (spaces_append hbefore hw) (spaces_delimited hblank)
  refine read_of_value ?_ hblank
  simpa only [List.append_assoc] using hagain

/-- The piece that a reader of less depth takes is a document. -/
theorem read_of_value_inside {depth : ℕ} {r left : Bytes} {v : Json} (hdepth : depth ≤ maxDepth)
    (h : value depth r = .ok (v, left)) :
    ∃ w p, r = w ++ (p ++ left) ∧ Spaces w ∧ ValueText p ∧ read p = .ok v := by
  obtain ⟨w, p, rfl, hw, hp, hread⟩ := value_rereads hdepth h
  have hvalue := hread [] [] spaces_nil (spaces_delimited spaces_nil)
  rw [List.nil_append, List.append_nil] at hvalue
  exact ⟨w, p, rfl, hw, hp, read_of_value hvalue spaces_nil⟩

end Conformance.Json
