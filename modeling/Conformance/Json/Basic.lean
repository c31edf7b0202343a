import Conformance.Json.Number
set_option autoImplicit false

/-!
# JSON documents

The members of an object keep their order. `ofPairs` builds them from written pairs: a repeated key
keeps its first place and takes the last value, so that no key occurs twice.
-/
namespace Conformance

inductive Json where
  | null
  | bool (b : Bool)
  | number (n : Json.Number)
  | string (s : String)
  | array (items : List Json)
  | object (members : List (String × Json))
deriving Repr

namespace Json

inductive Kind where
  | object | array | string | number | boolean | null
deriving DecidableEq, Repr

def Kind.name : Kind → String
  | .object => "object"
  | .array => "array"
  | .string => "string"
  | .number => "number"
  | .boolean => "boolean"
  | .null => "null"

def kind : Json → Kind
  | null => .null
  | bool _ => .boolean
  | number _ => .number
  | string _ => .string
  | array _ => .array
  | object _ => .object

abbrev Members := List (String × Json)

namespace Members

def get? (members : Members) (key : String) : Option Json := members.lookup key

def insert (key : String) (value : Json) : Members → Members
  | [] => [(key, value)]
  | (k, v) :: rest => if k = key then (k, value) :: rest else (k, v) :: insert key value rest

def ofPairs (pairs : List (String × Json)) : Members :=
  pairs.foldl (fun members p => members.insert p.1 p.2) []

/-! ## Keys -/

def keys (members : Members) : List String := members.map (·.1)

theorem get?_insert (key : String) (value : Json) (members : Members) (k : String) :
    (members.insert key value).get? k = if k = key then some value else members.get? k := by
  induction members with
  | nil => simp [insert, get?, List.lookup_cons]; grind
  | cons m rest ih =>
    unfold get? at *
    simp only [insert]
    split
    · next h => subst h; simp only [List.lookup_cons]; grind
    · next h => simp only [List.lookup_cons]; grind

theorem mem_keys_insert (key : String) (value : Json) (members : Members) (k : String) :
    k ∈ (members.insert key value).keys ↔ k = key ∨ k ∈ members.keys := by
  induction members with
  | nil => simp [insert, keys]
  | cons m rest ih =>
    simp only [insert]
    split
    · next h => simp [keys, h]
    · next h =>
      simp only [keys, List.map_cons, List.mem_cons] at ih ⊢
      rw [ih]
      grind

theorem nodup_keys_insert {members : Members} (key : String) (value : Json)
    (h : members.keys.Nodup) : (members.insert key value).keys.Nodup := by
  induction members with
  | nil => simp [insert, keys]
  | cons m rest ih =>
    simp only [keys, List.map_cons, List.nodup_cons] at h
    simp only [insert]
    split
    · next hk => simpa [keys, hk] using h
    · next hk =>
      have hm : m.1 ∉ (Members.insert key value rest).keys := by
        rw [mem_keys_insert]
        rintro (he | he)
        · exact hk he
        · exact h.1 he
      exact List.nodup_cons.2 ⟨hm, ih h.2⟩

theorem nodup_keys_foldl (pairs : List (String × Json)) {members : Members}
    (h : members.keys.Nodup) :
    (pairs.foldl (fun members p => members.insert p.1 p.2) members).keys.Nodup := by
  induction pairs generalizing members with
  | nil => exact h
  | cons p rest ih => exact ih (nodup_keys_insert p.1 p.2 h)

theorem nodup_keys_ofPairs (pairs : List (String × Json)) : (ofPairs pairs).keys.Nodup :=
  nodup_keys_foldl pairs List.nodup_nil

end Members
end Json
end Conformance
