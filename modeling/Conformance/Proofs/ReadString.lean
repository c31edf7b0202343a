import Conformance.Proofs.ReadNumber
set_option autoImplicit false

/-!
# Reading and skipping strings

A string ends at the first quote outside an escape, so nothing that stands behind it matters. The reader
asks more of a string than its form: pairs of surrogates and UTF-8.
-/
namespace Conformance.Json.Reader

abbrev Anything : Bytes → Prop := fun _ => True

/-! ## Escapes -/

theorem hexQuad_ok {r left : Bytes} {n : ℕ} (h : hexQuad r = .ok (n, left)) :
    ∃ a b c d, r = a :: b :: c :: d :: left ∧ (hexDigit a).isSome = true ∧ (hexDigit b).isSome = true ∧
      (hexDigit c).isSome = true ∧ (hexDigit d).isSome = true ∧
      ∀ rest, hexQuad (a :: b :: c :: d :: rest) = .ok (n, rest) := by
  unfold hexQuad at h
  split at h
  · next a b c d rest =>
    split at h
    · next x y z w hx hy hz hw =>
      obtain ⟨rfl, rfl⟩ := Prod.mk.inj (Except.ok.inj h)
      refine ⟨a, b, c, d, rfl, by rw [hx]; rfl, by rw [hy]; rfl, by rw [hz]; rfl, by rw [hw]; rfl, ?_⟩
      intro rest
      simp only [hexQuad, hx, hy, hz, hw]
    · cases h
  · cases h

theorem hexQuad_complete {a b c d : UInt8} (ha : (hexDigit a).isSome = true)
    (hb : (hexDigit b).isSome = true) (hc : (hexDigit c).isSome = true)
    (hd : (hexDigit d).isSome = true) (rest : Bytes) :
    ∃ n, hexQuad (a :: b :: c :: d :: rest) = .ok (n, rest) := by
  obtain ⟨x, hx⟩ := Option.isSome_iff_exists.1 ha
  obtain ⟨y, hy⟩ := Option.isSome_iff_exists.1 hb
  obtain ⟨z, hz⟩ := Option.isSome_iff_exists.1 hc
  obtain ⟨w, hw⟩ := Option.isSome_iff_exists.1 hd
  exact ⟨((x * 16 + y) * 16 + z) * 16 + w, by simp only [hexQuad, hx, hy, hz, hw]⟩

def EscapeText (e : Bytes) : Prop := ∀ q, StringText q → StringText (byte '\\' :: (e ++ q))

theorem pairByte_ok {c : Char} {r left : Bytes} (h : pairByte c r = .ok left) : r = byte c :: left := by
  cases r with
  | nil => cases h
  | cons b r =>
    rw [pairByte] at h
    split at h
    · next hb => rw [hb, Except.ok.inj h]
    · cases h

section EscapedCharacter

variable {r behind left : Bytes} {n low : ℕ} {ch : Char}

theorem escapedCharacter_single (hquad : hexQuad r = .ok (n, left))
    (hlow : ¬ (0xDC00 ≤ n ∧ n ≤ 0xDFFF)) (hhigh : ¬ (0xD800 ≤ n ∧ n ≤ 0xDBFF)) :
    escapedCharacter r = .ok (Char.ofNat n, left) := by
  simp only [escapedCharacter, hquad, bind, Except.bind]
  rw [if_neg hlow, if_neg hhigh]

theorem escapedCharacter_pair (hquad : hexQuad r = .ok (n, byte '\\' :: byte 'u' :: behind))
    (hlow : ¬ (0xDC00 ≤ n ∧ n ≤ 0xDFFF)) (hhigh : 0xD800 ≤ n ∧ n ≤ 0xDBFF)
    (hquad' : hexQuad behind = .ok (low, left)) (hpair : 0xDC00 ≤ low ∧ low ≤ 0xDFFF) :
    escapedCharacter r =
      .ok (Char.ofNat ((n - 0xD800) * 1024 + (low - 0xDC00) + 0x10000), left) := by
  simp only [escapedCharacter, hquad, bind, Except.bind]
  rw [if_neg hlow, if_pos hhigh]
  simp only [pairByte, if_true, hquad']
  rw [if_pos hpair]

theorem escapedCharacter_cases (h : escapedCharacter r = .ok (ch, left)) :
    (∃ n, hexQuad r = .ok (n, left) ∧ ¬ (0xDC00 ≤ n ∧ n ≤ 0xDFFF) ∧ ¬ (0xD800 ≤ n ∧ n ≤ 0xDBFF)) ∨
    ∃ n low behind, hexQuad r = .ok (n, byte '\\' :: byte 'u' :: behind) ∧
      ¬ (0xDC00 ≤ n ∧ n ≤ 0xDFFF) ∧ (0xD800 ≤ n ∧ n ≤ 0xDBFF) ∧
      hexQuad behind = .ok (low, left) ∧ 0xDC00 ≤ low ∧ low ≤ 0xDFFF := by
  obtain ⟨⟨n, behind⟩, hquad, h⟩ := ok_of_bind_eq_ok h
  dsimp only at h
  by_cases hlow : 0xDC00 ≤ n ∧ n ≤ 0xDFFF
  · rw [if_pos hlow] at h
    cases h
  · rw [if_neg hlow] at h
    by_cases hhigh : 0xD800 ≤ n ∧ n ≤ 0xDBFF
    · rw [if_pos hhigh] at h
      obtain ⟨s, hs, h⟩ := ok_of_bind_eq_ok h
      obtain ⟨u, hu, h⟩ := ok_of_bind_eq_ok h
      obtain ⟨⟨low, behind'⟩, hquad', hlast⟩ := ok_of_bind_eq_ok h
      obtain rfl := pairByte_ok hs
      obtain rfl := pairByte_ok hu
      dsimp only at hlast
      split at hlast
      · next hpair =>
        obtain ⟨-, rfl⟩ := Prod.mk.inj (Except.ok.inj hlast)
        exact .inr ⟨n, low, _, hquad, hlow, hhigh, hquad', hpair⟩
      · cases hlast
    · rw [if_neg hhigh] at h
      obtain ⟨-, rfl⟩ := Prod.mk.inj (Except.ok.inj h)
      exact .inl ⟨n, hquad, hlow, hhigh⟩

end EscapedCharacter

theorem escapedCharacter_local :
    Local escapedCharacter (fun e => EscapeText (byte 'u' :: e)) Anything := by
  intro r ch left h
  rcases escapedCharacter_cases h with
    ⟨n, hquad, hlow, hhigh⟩ | ⟨n, low, behind, hquad, hlow, hhigh, hquad', hpair⟩
  · obtain ⟨a, b, c, d, rfl, ha, hb, hc, hd, hread⟩ := hexQuad_ok hquad
    rw [escapedCharacter_single hquad hlow hhigh] at h
    obtain ⟨rfl, -⟩ := Prod.mk.inj (Except.ok.inj h)
    exact ⟨[a, b, c, d], rfl, fun q hq => .code ha hb hc hd hq,
      fun rest _ => escapedCharacter_single (hread rest) hlow hhigh⟩
  · obtain ⟨a, b, c, d, rfl, ha, hb, hc, hd, hread⟩ := hexQuad_ok hquad
    obtain ⟨a', b', c', d', rfl, ha', hb', hc', hd', hread'⟩ := hexQuad_ok hquad'
    rw [escapedCharacter_pair hquad hlow hhigh hquad' hpair] at h
    obtain ⟨rfl, -⟩ := Prod.mk.inj (Except.ok.inj h)
    exact ⟨a :: b :: c :: d :: byte '\\' :: byte 'u' :: [a', b', c', d'], rfl,
      fun q hq => .code ha hb hc hd (.code ha' hb' hc' hd' hq),
      fun rest _ => escapedCharacter_pair (hread _) hlow hhigh (hread' rest) hpair⟩

theorem escape_local : Local escape EscapeText Anything := by
  intro r ch left h
  cases r with
  | nil => cases h
  | cons b r =>
    rw [escape] at h
    cases hsimple : simpleEscape b with
    | some c =>
      rw [hsimple] at h
      obtain ⟨rfl, rfl⟩ := Prod.mk.inj (Except.ok.inj h)
      refine ⟨[b], rfl, fun q hq => .letter (by rw [hsimple]; rfl) hq, fun rest _ => ?_⟩
      rw [List.singleton_append, escape, hsimple]
    | none =>
      rw [hsimple] at h
      dsimp only at h
      by_cases hb : b = byte 'u'
      · subst hb
        rw [if_pos rfl] at h
        obtain ⟨e, rfl, he, hread⟩ := escapedCharacter_local h
        exact ⟨byte 'u' :: e, rfl, he, fun rest hrest => hread rest hrest⟩
      · rw [if_neg hb] at h
        cases h

/-! ## Strings -/

section StringBytes

variable {steps : ℕ} {done r behind : Bytes}

/-- In front is the closing quote, an escape, or a byte that stands for itself. -/
theorem stringBytes_cases {x : Bytes × Bytes} (h : stringBytes (steps + 1) done r = .ok x) :
    (∃ left, r = byte '"' :: left ∧ x = (done.reverse, left)) ∨
    (∃ tail c behind, r = byte '\\' :: tail ∧ escape tail = .ok (c, behind) ∧
      stringBytes steps ((String.utf8EncodeChar c).reverse ++ done) behind = .ok x) ∨
    ∃ b tail, r = b :: tail ∧ b ≠ byte '"' ∧ b ≠ byte '\\' ∧ ¬ b < 0x20 ∧
      stringBytes steps (b :: done) tail = .ok x := by
  cases r with
  | nil => cases h
  | cons b tail =>
    rw [stringBytes] at h
    by_cases hquote : b = byte '"'
    · rw [if_pos hquote] at h
      exact .inl ⟨tail, by rw [hquote], (Except.ok.inj h).symm⟩
    · rw [if_neg hquote] at h
      by_cases hslash : b = byte '\\'
      · rw [if_pos hslash] at h
        cases hescape : escape tail with
        | error fault =>
          rw [hescape] at h
          cases h
        | ok escaped =>
          rw [hescape] at h
          exact .inr (.inl ⟨tail, escaped.1, escaped.2, by rw [hslash], hescape, h⟩)
      · rw [if_neg hslash] at h
        by_cases hcontrol : b < 0x20
        · rw [if_pos hcontrol] at h
          cases h
        · rw [if_neg hcontrol] at h
          exact .inr (.inr ⟨b, tail, rfl, hquote, hslash, hcontrol, h⟩)

theorem stringBytes_escape {c : Char} (h : escape r = .ok (c, behind)) :
    stringBytes (steps + 1) done (byte '\\' :: r) =
      stringBytes steps ((String.utf8EncodeChar c).reverse ++ done) behind := by
  rw [stringBytes, if_neg (by decide), if_pos rfl, h]

theorem stringBytes_byte {b : UInt8} (hquote : b ≠ byte '"') (hslash : b ≠ byte '\\')
    (hcontrol : ¬ b < 0x20) : stringBytes (steps + 1) done (b :: r) = stringBytes steps (b :: done) r := by
  rw [stringBytes, if_neg hquote, if_neg hslash, if_neg hcontrol]

end StringBytes

/-- The steps bound the piece that is read and not what stands behind it. -/
theorem stringBytes_ok {steps : ℕ} {done r bytes left : Bytes}
    (h : stringBytes steps done r = .ok (bytes, left)) :
    ∃ p, r = p ++ left ∧ StringText p ∧ ∀ steps' rest, p.length ≤ steps' →
      stringBytes steps' done (p ++ rest) = .ok (bytes, rest) := by
  induction steps generalizing done r with
  | zero => cases h
  | succ steps ih =>
    rcases stringBytes_cases h with
      ⟨behind, rfl, heq⟩ | ⟨tail, c, behind, rfl, hescape, hrest⟩ | ⟨b, tail, rfl, hquote, hslash, hcontrol, hrest⟩
    · obtain ⟨rfl, rfl⟩ := Prod.mk.inj heq
      refine ⟨[byte '"'], rfl, .closed, fun steps' rest hsteps => ?_⟩
      obtain ⟨k, rfl⟩ := Nat.exists_eq_succ_of_ne_zero (Nat.ne_of_gt hsteps)
      rfl
    · obtain ⟨e, rfl, he, hread⟩ := escape_local hescape
      obtain ⟨p, rfl, htext, hreadRest⟩ := ih hrest
      refine ⟨byte '\\' :: (e ++ p), by simp, he p htext, fun steps' rest hsteps => ?_⟩
      rw [List.length_cons, List.length_append] at hsteps
      obtain ⟨k, rfl⟩ := Nat.exists_eq_succ_of_ne_zero (by omega : steps' ≠ 0)
      rw [List.cons_append, List.append_assoc, stringBytes_escape (hread (p ++ rest) trivial)]
      exact hreadRest k rest (by omega)
    · obtain ⟨p, rfl, htext, hread⟩ := ih hrest
      refine ⟨b :: p, rfl, .byte hquote hslash hcontrol htext, fun steps' rest hsteps => ?_⟩
      rw [List.length_cons] at hsteps
      obtain ⟨k, rfl⟩ := Nat.exists_eq_succ_of_ne_zero (by omega : steps' ≠ 0)
      rw [List.cons_append, stringBytes_byte hquote hslash hcontrol]
      exact hread k rest (by omega)

theorem string_local : Local string StringText Anything := by
  intro r s left h
  rw [string] at h
  split at h
  · cases h
  · next bytes behind hbytes =>
    obtain ⟨p, rfl, hp, hread⟩ := stringBytes_ok hbytes
    split at h
    · next text htext =>
      obtain ⟨rfl, rfl⟩ := Prod.mk.inj (Except.ok.inj h)
      refine ⟨p, rfl, hp, fun rest _ => ?_⟩
      rw [string, hread _ rest (by rw [List.length_append]; omega)]
      simp only [htext]
    · cases h

/-! ## Skipping -/

theorem skipStringBytes_cases {steps : ℕ} {r left : Bytes}
    (h : skipStringBytes (steps + 1) r = .ok left) :
    r = byte '"' :: left ∨
    (∃ b behind, r = byte '\\' :: b :: behind ∧ (simpleEscape b).isSome = true ∧
      skipStringBytes steps behind = .ok left) ∨
    (∃ more n behind, r = byte '\\' :: byte 'u' :: more ∧ hexQuad more = .ok (n, behind) ∧
      skipStringBytes steps behind = .ok left) ∨
    ∃ b tail, r = b :: tail ∧ b ≠ byte '"' ∧ b ≠ byte '\\' ∧ ¬ b < 0x20 ∧
      skipStringBytes steps tail = .ok left := by
  cases r with
  | nil => cases h
  | cons b tail =>
    unfold skipStringBytes at h
    by_cases hquote : b = byte '"'
    · rw [if_pos hquote] at h
      exact .inl (by rw [hquote, Except.ok.inj h])
    · rw [if_neg hquote] at h
      by_cases hslash : b = byte '\\'
      · rw [if_pos hslash] at h
        cases tail with
        | nil => cases h
        | cons c more =>
          dsimp only at h
          by_cases hletter : (simpleEscape c).isSome = true
          · rw [if_pos hletter] at h
            exact .inr (.inl ⟨c, more, by rw [hslash], hletter, h⟩)
          · rw [if_neg hletter] at h
            split at h
            · next hu =>
              split at h
              · cases h
              · next n behind hquad =>
                exact .inr (.inr (.inl ⟨more, n, behind, by rw [hslash, hu], hquad, h⟩))
            · cases h
      · rw [if_neg hslash] at h
        by_cases hcontrol : b < 0x20
        · rw [if_pos hcontrol] at h
          cases h
        · rw [if_neg hcontrol] at h
          exact .inr (.inr (.inr ⟨b, tail, rfl, hquote, hslash, hcontrol, h⟩))

theorem skipStringBytes_sound {steps : ℕ} {r left : Bytes} (h : skipStringBytes steps r = .ok left) :
    ∃ p, r = p ++ left ∧ StringText p := by
  induction steps generalizing r with
  | zero => cases h
  | succ steps ih =>
    rcases skipStringBytes_cases h with
      rfl | ⟨b, behind, rfl, hb, hrest⟩ | ⟨more, n, behind, rfl, hquad, hrest⟩ |
      ⟨b, tail, rfl, hquote, hslash, hcontrol, hrest⟩
    · exact ⟨[byte '"'], rfl, .closed⟩
    · obtain ⟨p, rfl, hp⟩ := ih hrest
      exact ⟨byte '\\' :: b :: p, rfl, .letter hb hp⟩
    · obtain ⟨a, b, c, d, rfl, ha, hb, hc, hd, -⟩ := hexQuad_ok hquad
      obtain ⟨p, rfl, hp⟩ := ih hrest
      exact ⟨byte '\\' :: byte 'u' :: a :: b :: c :: d :: p, rfl, .code ha hb hc hd hp⟩
    · obtain ⟨p, rfl, hp⟩ := ih hrest
      exact ⟨b :: p, rfl, .byte hquote hslash hcontrol hp⟩

theorem skipStringBytes_complete {p : Bytes} (h : StringText p) {steps : ℕ} (hsteps : p.length ≤ steps)
    (rest : Bytes) : skipStringBytes steps (p ++ rest) = .ok rest := by
  induction h generalizing steps with
  | closed =>
    obtain ⟨k, rfl⟩ := Nat.exists_eq_succ_of_ne_zero (Nat.ne_of_gt hsteps)
    rfl
  | byte hquote hslash hcontrol _ ih =>
    rw [List.length_cons] at hsteps
    obtain ⟨k, rfl⟩ := Nat.exists_eq_succ_of_ne_zero (by omega : steps ≠ 0)
    exact (if_neg hquote).trans ((if_neg hslash).trans ((if_neg hcontrol).trans (ih (by omega))))
  | @letter b p hb _ ih =>
    simp only [List.length_cons] at hsteps
    obtain ⟨k, rfl⟩ := Nat.exists_eq_succ_of_ne_zero (by omega : steps ≠ 0)
    have hopen : skipStringBytes (k + 1) (byte '\\' :: b :: (p ++ rest)) = skipStringBytes k (p ++ rest) :=
      if_pos hb
    rw [List.cons_append, List.cons_append, hopen]
    exact ih (by omega)
  | @code a b c d p ha hb hc hd _ ih =>
    simp only [List.length_cons] at hsteps
    obtain ⟨k, rfl⟩ := Nat.exists_eq_succ_of_ne_zero (by omega : steps ≠ 0)
    obtain ⟨n, hquad⟩ := hexQuad_complete ha hb hc hd (p ++ rest)
    have hopen : skipStringBytes (k + 1) (byte '\\' :: byte 'u' :: a :: b :: c :: d :: (p ++ rest)) =
        skipStringBytes k (p ++ rest) := by
      rw [skipStringBytes, if_neg (by decide), if_pos rfl]
      rw [if_neg (by decide), if_pos rfl, hquad]
    simp only [List.cons_append]
    rw [hopen]
    exact ih (by omega)

theorem skipString_takes : Takes skipString StringText Anything where
  sound := skipStringBytes_sound
  complete := by
    intro p rest hp _
    exact skipStringBytes_complete hp (by rw [List.length_append]; omega) rest

end Conformance.Json.Reader
