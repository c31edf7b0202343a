import Conformance.Discovery
import Conformance.Proofs.Outcome
set_option autoImplicit false

/-!
# Expanding paths one by one

The fixtures of a command line are those of its paths behind each other. There are none where a path
cannot be expanded, and the first such path is the one that is reported.
-/
namespace Conformance

def FileSystem.Unlisted (files : FileSystem) (path : String) : Prop :=
  files.isDirectory path = true ∧ ∃ fault, files.names path = .error fault

namespace Discovery

structure FirstUnlisted (files : FileSystem) (paths : List String) (e : DiscoveryError) : Prop where
  leftmost : ∃ before after, paths = before ++ e.directory :: after ∧ ∀ path ∈ before, ¬ files.Unlisted path
  kind : files.isDirectory e.directory = true
  refused : files.names e.directory = .error e.fault

theorem FirstUnlisted.mem {files : FileSystem} {paths : List String} {e : DiscoveryError}
    (h : FirstUnlisted files paths e) : e.directory ∈ paths := by
  obtain ⟨before, after, rfl, -⟩ := h.leftmost
  simp

variable {files : FileSystem} {path : String} {e : DiscoveryError}

theorem expand_of_not_directory (h : files.isDirectory path = false) : expand files path = .ok [path] := by
  rw [expand, h]
  rfl

theorem expand_of_listed {names : List String} (h : files.isDirectory path = true)
    (hnames : files.names path = .ok names) : expand files path = .ok (inDirectory files path names) := by
  rw [expand, if_pos h, hnames]

theorem expand_eq_error_iff :
    expand files path = .error e ↔
      files.isDirectory path = true ∧ files.names path = .error e.fault ∧ e.directory = path := by
  obtain ⟨directory, fault⟩ := e
  cases hkind : files.isDirectory path with
  | false =>
    rw [expand_of_not_directory hkind]
    simp
  | true =>
    rw [expand, if_pos hkind]
    cases files.names path with
    | ok names => simp
    | error other => simp [and_comm, eq_comm]

/-- What a path that can be expanded stands for. -/
theorem expand_cases {block : List String} (h : expand files path = .ok block) :
    (files.isDirectory path = false ∧ block = [path]) ∨
    ∃ names, files.isDirectory path = true ∧ files.names path = .ok names ∧
      block = inDirectory files path names := by
  cases hkind : files.isDirectory path with
  | false =>
    rw [expand_of_not_directory hkind] at h
    exact Or.inl ⟨rfl, (Except.ok.inj h).symm⟩
  | true =>
    cases hnames : files.names path with
    | error fault =>
      have herror : expand files path = .error ⟨path, fault⟩ := expand_eq_error_iff.2 ⟨hkind, hnames, rfl⟩
      rw [herror] at h
      cases h
    | ok names =>
      rw [expand_of_listed hkind hnames] at h
      exact Or.inr ⟨names, rfl, rfl, (Except.ok.inj h).symm⟩

theorem exists_expand_iff : (∃ found, expand files path = .ok found) ↔ ¬ files.Unlisted path := by
  constructor
  · rintro ⟨found, hfound⟩ ⟨hkind, fault, hnames⟩
    have herror : expand files path = .error ⟨path, fault⟩ := expand_eq_error_iff.2 ⟨hkind, hnames, rfl⟩
    rw [herror] at hfound
    cases hfound
  · intro h
    cases hexpand : expand files path with
    | ok found => exact ⟨found, rfl⟩
    | error e =>
      obtain ⟨hkind, hnames, -⟩ := expand_eq_error_iff.1 hexpand
      exact absurd ⟨hkind, e.fault, hnames⟩ h

/-! ## Lists of paths -/

variable {paths : List String}

theorem discover_cons (files : FileSystem) (path : String) (rest : List String) :
    discover files (path :: rest) =
      expand files path >>= fun found => discover files rest >>= fun others => .ok (found ++ others) := by
  rw [discover]
  cases expand files path with
  | error e => rfl
  | ok found =>
    change _ = (discover files rest >>= _)
    cases discover files rest <;> rfl

theorem discover_append (files : FileSystem) (xs ys : List String) :
    discover files (xs ++ ys) =
      discover files xs >>= fun found => discover files ys >>= fun others => .ok (found ++ others) := by
  induction xs with
  | nil =>
    change discover files ys = (discover files ys >>= _)
    cases discover files ys <;> rfl
  | cons path rest ih =>
    rw [List.cons_append, discover_cons, discover_cons, ih]
    cases expand files path with
    | error e => rfl
    | ok found =>
      cases discover files rest with
      | error e => rfl
      | ok others =>
        cases discover files ys with
        | error e => rfl
        | ok more => exact congrArg Except.ok (List.append_assoc found others more).symm

theorem discover_eq_ok_iff {found : List String} :
    discover files paths = .ok found ↔
      ∃ blocks, List.Forall₂ (fun path block => expand files path = .ok block) paths blocks ∧
        found = blocks.flatten := by
  induction paths generalizing found with
  | nil =>
    constructor
    · intro h
      exact ⟨[], .nil, (Except.ok.inj h).symm⟩
    · rintro ⟨blocks, hblocks, rfl⟩
      cases hblocks
      rfl
  | cons path rest ih =>
    rw [discover_cons]
    constructor
    · intro h
      obtain ⟨block, hblock, h⟩ := ok_of_bind_eq_ok h
      obtain ⟨others, hothers, h⟩ := ok_of_bind_eq_ok h
      obtain ⟨blocks, hblocks, rfl⟩ := ih.1 hothers
      exact ⟨block :: blocks, .cons hblock hblocks, (Except.ok.inj h).symm⟩
    · rintro ⟨blocks, hblocks, rfl⟩
      cases hblocks with
      | cons hblock hrest =>
        rw [hblock, ih.2 ⟨_, hrest, rfl⟩]
        rfl

theorem discover_eq_error_iff : discover files paths = .error e ↔ FirstUnlisted files paths e := by
  constructor
  · intro h
    induction paths with
    | nil => cases h
    | cons path rest ih =>
      rw [discover_cons] at h
      cases hexpand : expand files path with
      | error e' =>
        rw [hexpand] at h
        obtain rfl := Except.error.inj h
        obtain ⟨hkind, hnames, rfl⟩ := expand_eq_error_iff.1 hexpand
        exact ⟨⟨[], rest, rfl, nofun⟩, hkind, hnames⟩
      | ok found =>
        rw [hexpand] at h
        have hrest : discover files rest = .error e := by
          cases hrest : discover files rest with
          | error e' =>
            rw [hrest] at h
            exact h
          | ok others =>
            rw [hrest] at h
            cases h
        obtain ⟨⟨before, after, rfl, hbefore⟩, hkind, hnames⟩ := ih hrest
        have hpath : ¬ files.Unlisted path := exists_expand_iff.1 ⟨found, hexpand⟩
        exact ⟨⟨path :: before, after, rfl, List.forall_mem_cons.2 ⟨hpath, hbefore⟩⟩, hkind, hnames⟩
  · rintro ⟨⟨before, after, rfl, hbefore⟩, hkind, hnames⟩
    induction before with
    | nil =>
      rw [List.nil_append, discover_cons, expand_eq_error_iff.2 ⟨hkind, hnames, rfl⟩]
      rfl
    | cons path before ih =>
      rw [List.forall_mem_cons] at hbefore
      obtain ⟨found, hfound⟩ := exists_expand_iff.2 hbefore.1
      rw [List.cons_append, discover_cons, hfound]
      change (discover files (before ++ e.directory :: after) >>= _) = _
      rw [ih hbefore.2]
      rfl

theorem exists_discover_iff :
    (∃ found, discover files paths = .ok found) ↔ ∀ path ∈ paths, ¬ files.Unlisted path := by
  induction paths with
  | nil => exact ⟨fun _ => nofun, fun _ => ⟨[], rfl⟩⟩
  | cons path rest ih =>
    rw [List.forall_mem_cons, ← ih, ← exists_expand_iff, discover_cons]
    constructor
    · rintro ⟨found, h⟩
      obtain ⟨block, hblock, h⟩ := ok_of_bind_eq_ok h
      obtain ⟨others, hothers, -⟩ := ok_of_bind_eq_ok h
      exact ⟨⟨block, hblock⟩, others, hothers⟩
    · rintro ⟨⟨block, hblock⟩, others, hothers⟩
      rw [hblock, hothers]
      exact ⟨_, rfl⟩

end Discovery
end Conformance
