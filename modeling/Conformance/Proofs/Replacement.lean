import Conformance.Proofs.Enrichment
set_option autoImplicit false

/-!
# A value put at a location

A member is put in the place of the one with its key or behind the others, an element in the place of the
one at its index or at the end. Below the location stands what was put there; anywhere else a node is the
one that was there, but for the containers on the way down, which keep their kind.
-/
namespace Conformance.Json

/-- A child put under a step. An array takes none that would leave a gap. -/
def put? : Json → Step → Json → Option Json
  | .object members, .key k, c => some (.object (Members.insert k c members))
  | .array items, .index i, c =>
    if i < items.length then some (.array (items.set i c))
    else if i = items.length then some (.array (items ++ [c]))
    else none
  | _, _, _ => none

/-- What stands at the start of a location, with this value put where it leads. -/
def withAt? (value : Json) : Location → Option Json → Option Json
  | [], _ => some value
  | s :: rest, found => found.bind fun v => (withAt? value rest (v.child? s)).bind (v.put? s)

def replace? (v : Json) (l : Location) (value : Json) : Option Json := withAt? value l (some v)

/-! ## One child -/

section Child

variable {v w c : Json} {s : Step}

theorem put?_eq_some (h : v.put? s c = some w) :
    (∃ members k, v = .object members ∧ s = .key k ∧ w = .object (Members.insert k c members)) ∨
    (∃ items i, v = .array items ∧ s = .index i ∧ i < items.length ∧ w = .array (items.set i c)) ∨
    (∃ items, v = .array items ∧ s = .index items.length ∧ w = .array (items ++ [c])) := by
  cases v with
  | object members =>
    cases s with
    | key k => exact Or.inl ⟨members, k, rfl, rfl, (Option.some.inj h).symm⟩
    | index i => cases h
  | array items =>
    cases s with
    | key k => cases h
    | index i =>
      rw [put?] at h
      split at h
      · next hi => exact Or.inr (Or.inl ⟨items, i, rfl, rfl, hi, (Option.some.inj h).symm⟩)
      · split at h
        · next hi =>
          subst hi
          exact Or.inr (Or.inr ⟨items, rfl, rfl, (Option.some.inj h).symm⟩)
        · cases h
  | null | bool _ | number _ | string _ => cases h

theorem alike_of_put? (h : v.put? s c = some w) : Alike v w := by
  rcases put?_eq_some h with ⟨members, k, rfl, rfl, rfl⟩ | ⟨items, i, rfl, rfl, -, rfl⟩ |
    ⟨items, rfl, rfl, rfl⟩
  · exact .object _ _
  · exact .array _ _
  · exact .array _ _

theorem child?_put? (h : v.put? s c = some w) : w.child? s = some c := by
  rcases put?_eq_some h with ⟨members, k, rfl, rfl, rfl⟩ | ⟨items, i, rfl, rfl, hi, rfl⟩ |
    ⟨items, rfl, rfl, rfl⟩
  · rw [child?, Members.get?_insert, if_pos rfl]
  · simp [child?, hi]
  · simp [child?]

theorem child?_put?_of_ne (h : v.put? s c = some w) {t : Step} (hne : t ≠ s) :
    w.child? t = v.child? t := by
  rcases put?_eq_some h with ⟨members, k, rfl, rfl, rfl⟩ | ⟨items, i, rfl, rfl, -, rfl⟩ |
    ⟨items, rfl, rfl, rfl⟩
  · cases t with
    | index j => rfl
    | key k' =>
      rw [child?, child?, Members.get?_insert, if_neg]
      rintro rfl
      exact hne rfl
  · cases t with
    | key k => rfl
    | index j =>
      rw [child?, child?, List.getElem?_set_ne]
      rintro rfl
      exact hne rfl
  · cases t with
    | key k => rfl
    | index j =>
      have hj : j ≠ items.length := by
        rintro rfl
        exact hne rfl
      rw [child?, child?, List.getElem?_append]
      split
      · rfl
      · rw [List.getElem?_eq_none (by simp; omega), List.getElem?_eq_none (by omega)]

theorem exists_put?_of_child? {d : Json} (h : v.child? s = some d) (c : Json) :
    ∃ w, v.put? s c = some w := by
  cases v with
  | object members =>
    cases s with
    | key k => exact ⟨_, rfl⟩
    | index i => cases h
  | array items =>
    cases s with
    | key k => cases h
    | index i =>
      have hi : i < items.length := (List.getElem?_eq_some_iff.1 h).1
      exact ⟨.array (items.set i c), if_pos hi⟩
  | null | bool _ | number _ | string _ => cases h

theorem Distinct.put? (hv : v.Distinct) (hc : c.Distinct) (h : v.put? s c = some w) : w.Distinct := by
  rcases put?_eq_some h with ⟨members, k, rfl, rfl, rfl⟩ | ⟨items, i, rfl, rfl, -, rfl⟩ |
    ⟨items, rfl, rfl, rfl⟩
  · cases hv with | object hkeys hvalues =>
    have hkeys' := Members.nodup_keys_insert k c hkeys
    refine .object hkeys' fun m hm => ?_
    -- a member of the new object is found under its key, where it is the new value or an old one
    have hfound := get?_of_mem hkeys' hm
    rw [Members.get?_insert] at hfound
    split at hfound
    · exact Option.some.inj hfound ▸ hc
    · exact hvalues _ (mem_of_get? hfound)
  · cases hv with | array hvalues =>
    refine .array fun x hx => ?_
    rcases List.mem_or_eq_of_mem_set hx with hold | rfl
    · exact hvalues x hold
    · exact hc
  · cases hv with | array hvalues =>
    refine .array fun x hx => ?_
    rcases List.mem_append.1 hx with hold | hnew
    · exact hvalues x hold
    · exact List.mem_singleton.1 hnew ▸ hc

end Child

/-! ## Along a location -/

section Location

variable {v v' value : Json} {l : Location}

theorem withAt?_cons {s : Step} {found : Option Json} (h : withAt? value (s :: l) found = some v') :
    ∃ v c, found = some v ∧ withAt? value l (v.child? s) = some c ∧ v.put? s c = some v' := by
  obtain ⟨v, hv, hbelow⟩ := Option.bind_eq_some_iff.1 h
  obtain ⟨c, hc, hput⟩ := Option.bind_eq_some_iff.1 hbelow
  exact ⟨v, c, hv, hc, hput⟩

theorem at?_withAt?_below {found : Option Json} (h : withAt? value l found = some v') (r : Location) :
    v'.at? (l ++ r) = value.at? r := by
  induction l generalizing found v' with
  | nil =>
    obtain rfl := Option.some.inj h
    rfl
  | cons s rest ih =>
    obtain ⟨v, c, -, hc, hput⟩ := withAt?_cons h
    rw [List.cons_append, at?, child?_put? hput]
    exact ih hc

/-- A node elsewhere is there still, itself or as a container of its kind. -/
theorem at?_replace?_beside (h : v.replace? l value = some v') {k : Location} {u : Json}
    (hk : ¬ l <+: k) (hu : v.at? k = some u) : ∃ u', v'.at? k = some u' ∧ Alike u u' := by
  induction l generalizing v v' k with
  | nil => exact absurd List.nil_prefix hk
  | cons s rest ih =>
    obtain ⟨w, c, hw, hc, hput⟩ := withAt?_cons h
    obtain rfl := Option.some.inj hw
    cases k with
    | nil =>
      obtain rfl := Option.some.inj hu
      exact ⟨v', rfl, alike_of_put? hput⟩
    | cons t k =>
      by_cases ht : t = s
      · subst ht
        obtain ⟨d, hd, hbelow⟩ := Option.bind_eq_some_iff.1 hu
        rw [hd] at hc
        obtain ⟨u', hu', halike⟩ := ih hc (fun hp => hk (List.cons_prefix_cons.2 ⟨rfl, hp⟩)) hbelow
        exact ⟨u', by rw [at?, child?_put? hput]; exact hu', halike⟩
      · refine ⟨u, ?_, .refl u⟩
        rw [at?, child?_put?_of_ne hput ht]
        exact hu

/-- What can be done at the end of a location that leads somewhere can be done from its start. -/
theorem exists_withAt?_append {u u' : Json} {r : Location} (hl : v.at? l = some u)
    (h : withAt? value r (some u) = some u') : ∃ v', v.replace? (l ++ r) value = some v' := by
  induction l generalizing v with
  | nil =>
    obtain rfl := Option.some.inj hl
    exact ⟨u', h⟩
  | cons s rest ih =>
    obtain ⟨c, hc, hrest⟩ := Option.bind_eq_some_iff.1 hl
    obtain ⟨c', hc'⟩ := ih hrest
    obtain ⟨v', hv'⟩ := exists_put?_of_child? hc c'
    refine ⟨v', ?_⟩
    change (withAt? value (rest ++ r) (v.child? s)).bind (v.put? s) = some v'
    rw [hc, show withAt? value (rest ++ r) (some c) = some c' from hc']
    exact hv'

theorem exists_replace?_of_at? {u : Json} (hl : v.at? l = some u) :
    ∃ v', v.replace? l value = some v' := by
  have happend : ∃ v', v.replace? (l ++ []) value = some v' := exists_withAt?_append hl rfl
  rwa [List.append_nil] at happend

theorem exists_replace?_of_put? {s : Step} {u u' : Json} (hl : v.at? l = some u)
    (h : u.put? s value = some u') : ∃ v', v.replace? (l ++ [s]) value = some v' :=
  exists_withAt?_append hl (show withAt? value [s] (some u) = some u' from h)

theorem Distinct.withAt? (hvalue : value.Distinct) {found : Option Json}
    (hfound : ∀ v, found = some v → v.Distinct) (h : Json.withAt? value l found = some v') :
    v'.Distinct := by
  induction l generalizing found v' with
  | nil => exact Option.some.inj h ▸ hvalue
  | cons s rest ih =>
    obtain ⟨v, c, hv, hc, hput⟩ := withAt?_cons h
    have hdistinct := hfound v hv
    have hchild : ∀ d, v.child? s = some d → d.Distinct :=
      fun d hd => hdistinct.child (mem_children_of_child? hd)
    exact hdistinct.put? (ih hchild hc) hput

theorem Distinct.replace? (hv : v.Distinct) (hvalue : value.Distinct)
    (h : v.replace? l value = some v') : v'.Distinct :=
  hvalue.withAt? (fun _ hw => Option.some.inj hw ▸ hv) h

end Location

end Conformance.Json
