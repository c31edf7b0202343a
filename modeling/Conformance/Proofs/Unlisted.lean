import Conformance.Program
import Conformance.Proofs.Expansion
set_option autoImplicit false

/-!
# A directory that cannot be listed

What is found for two lists of paths is what is found for the one and for the other; a directory that
cannot be listed spoils the whole. What is found is no directory, so that finding it once more finds the
same and lists nothing. A command that names a directory that cannot be listed says so and does nothing
else, whatever else it names.
-/
namespace Conformance

namespace Discovery

variable {files : FileSystem}

theorem isDirectory_of_isFile {path : String} (h : files.isFile path = true) : files.isDirectory path = false := by
  rw [FileSystem.isFile, beq_iff_eq] at h
  rw [FileSystem.isDirectory, h]
  rfl

/-- An entry is taken only as a file, so it is none of the paths that are listed. -/
theorem isDirectory_of_expand {path : String} {block : List String} (h : expand files path = .ok block) :
    ∀ found ∈ block, files.isDirectory found = false := by
  intro found hfound
  rcases expand_cases h with ⟨hkind, rfl⟩ | ⟨names, -, -, rfl⟩
  · rwa [List.mem_singleton.1 hfound]
  · obtain ⟨name, hname, rfl⟩ := List.mem_map.1 hfound
    rw [List.mem_mergeSort, List.mem_filter, isFixture, Bool.and_eq_true] at hname
    exact isDirectory_of_isFile hname.2.2

theorem isDirectory_of_discover {paths found : List String} (h : discover files paths = .ok found) :
    ∀ path ∈ found, files.isDirectory path = false := by
  induction paths generalizing found with
  | nil =>
    obtain rfl := Except.ok.inj h
    exact nofun
  | cons path rest ih =>
    rw [discover_cons] at h
    obtain ⟨block, hblock, h⟩ := ok_of_bind_eq_ok h
    obtain ⟨others, hothers, h⟩ := ok_of_bind_eq_ok h
    obtain rfl := Except.ok.inj h
    intro p hp
    rcases List.mem_append.1 hp with hp | hp
    · exact isDirectory_of_expand hblock p hp
    · exact ih hothers p hp

/-- Whatever a listing would say, none is asked for. -/
theorem discover_of_not_directory {paths : List String} (h : ∀ path ∈ paths, files.isDirectory path = false) :
    discover files paths = .ok paths := by
  induction paths with
  | nil => rfl
  | cons path rest ih =>
    rw [List.forall_mem_cons] at h
    rw [discover_cons, expand_of_not_directory h.1, ih h.2]
    rfl

theorem discover_append_of_ok {xs ys found others : List String} (hxs : discover files xs = .ok found)
    (hys : discover files ys = .ok others) : discover files (xs ++ ys) = .ok (found ++ others) := by
  rw [discover_append, hxs, hys]
  rfl

theorem firstUnlisted_of_append {xs ys : List String}
    (h : ¬ ∃ found others, discover files xs = .ok found ∧ discover files ys = .ok others) :
    ∃ e, discover files (xs ++ ys) = .error e ∧ FirstUnlisted files (xs ++ ys) e := by
  cases hboth : discover files (xs ++ ys) with
  | error e => exact ⟨e, rfl, discover_eq_error_iff.1 hboth⟩
  | ok all =>
    rw [discover_append] at hboth
    obtain ⟨found, hxs, hboth⟩ := ok_of_bind_eq_ok hboth
    obtain ⟨others, hys, -⟩ := ok_of_bind_eq_ok hboth
    exact absurd ⟨found, others, hxs, hys⟩ h

theorem exists_firstUnlisted {paths : List String} (h : ∃ path ∈ paths, files.Unlisted path) :
    ∃ e, FirstUnlisted files paths e := by
  cases hdiscover : discover files paths with
  | error e => exact ⟨e, discover_eq_error_iff.1 hdiscover⟩
  | ok found =>
    obtain ⟨path, hpath, hunlisted⟩ := h
    exact absurd hunlisted (exists_discover_iff.1 ⟨found, hdiscover⟩ path hpath)

end Discovery

namespace Program

open Discovery

/-- Two lists of paths are found one behind the other or the leftmost directory that cannot be listed is reported;
what is found is found again without a listing; and a command with such a directory prints its line and exits with 1,
loading nothing and starting nothing. -/
theorem run_unlisted (files : FileSystem) :
    (∀ xs ys,
      (∀ found others, discover files xs = .ok found → discover files ys = .ok others →
        discover files (xs ++ ys) = .ok (found ++ others)) ∧
      ((¬ ∃ found others, discover files xs = .ok found ∧ discover files ys = .ok others) →
        ∃ e, discover files (xs ++ ys) = .error e ∧ FirstUnlisted files (xs ++ ys) e)) ∧
    (∀ paths found, discover files paths = .ok found →
      (∀ path ∈ found, files.isDirectory path = false) ∧
      ∀ names, discover { files with names := names } found = .ok found) ∧
    ∀ words environment options, Arguments.parse words environment = .ok options →
      (∃ path ∈ options.fixtures, files.Unlisted path) →
      ∃ e, FirstUnlisted files options.fixtures e ∧
        ∀ (contents : String → Except FileFault Bytes) {σ : Type} (launch : Launcher σ) (world : σ),
          run { files with contents := contents } launch words environment world =
            ⟨1, Utf8.ofString ("Error: " ++ e.message ++ "\n"), [], world⟩ := by
  refine ⟨fun xs ys => ⟨fun found others => discover_append_of_ok, firstUnlisted_of_append⟩,
    fun paths found hfound => ?_, fun words environment options hparse hunlisted => ?_⟩
  · have hkinds := isDirectory_of_discover hfound
    exact ⟨hkinds, fun names => discover_of_not_directory hkinds⟩
  · obtain ⟨e, he⟩ := exists_firstUnlisted hunlisted
    refine ⟨e, he, fun contents σ launch world => ?_⟩
    have hfirst : FirstUnlisted { files with contents := contents } options.fixtures e :=
      ⟨he.leftmost, he.kind, he.refused⟩
    have hdiscover := discover_eq_error_iff.2 hfirst
    rw [run, hparse]
    dsimp only
    rw [execute, hdiscover]

/-- Two of the directories cannot be listed, behind a fixture and in front of a directory that can. -/
theorem run_unlisted_between :
    let files : FileSystem := {
      kind := fun path => if path = "a.json" then some .file else some .directory
      contents := fun _ => .ok (Utf8.ofString "\x7b\"data\":\"\",\"expected\":0\x7d")
      names := fun path => if path = "d" then .ok ["b.json"] else .error (.system .accessDenied) }
    let launch : Launcher ℕ := fun _ _ runs => (.ended (Utf8.ofString "0") [] (.exited 0), runs + 1)
    run files launch ["-v", "a.json", "closed", "--keep-going", "d", "other"] none 0 =
      ⟨1, Utf8.ofString "Error: cannot list fixture directory closed: Permission denied (os error 13)\n", [], 0⟩ := by
  intro files launch
  let words := ["-v", "a.json", "closed", "--keep-going", "d", "other"]
  have hparse : Arguments.parse words none = .ok ⟨["a.json", "closed", "d", "other"], "holmes", true, false, true⟩ := by
    decide +kernel
  have hunlisted : files.Unlisted "closed" := ⟨rfl, _, rfl⟩
  obtain ⟨e, he, hrun⟩ := (run_unlisted files).2.2 words none _ hparse ⟨"closed", by simp, hunlisted⟩
  have hfirst : FirstUnlisted files ["a.json", "closed", "d", "other"] ⟨"closed", .system .accessDenied⟩ := by
    refine ⟨⟨["a.json"], ["d", "other"], rfl, fun path hpath => ?_⟩, rfl, rfl⟩
    obtain rfl := List.mem_singleton.1 hpath
    exact fun h => nomatch h.1
  have hsame := (discover_eq_error_iff.2 he).symm.trans (discover_eq_error_iff.2 hfirst)
  obtain rfl := Except.error.inj hsame
  exact hrun files.contents launch 0

end Program
end Conformance
