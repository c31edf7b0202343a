import Conformance.FileSystem.Snapshot
import Conformance.Proofs.Expansion
import Mathlib.Data.List.Nodup
set_option autoImplicit false

/-!
# The files that a directory stands for

A path that is no directory stands for itself. A directory stands for its entries that are files with the
extension `json`, and their names in increasing order determine that block of paths, so that the order in
which a directory is listed makes no difference.
-/
namespace Conformance

/-! ## Directories and their listings -/

namespace FileSystem

def ListsOnce (files : FileSystem) : Prop := ∀ path names, files.names path = .ok names → names.Nodup

structure ListsAlike (files files' : FileSystem) : Prop where
  kind : files'.kind = files.kind
  refused : ∀ path fault, files.names path = .error fault → files'.names path = .error fault
  listed : ∀ path names, files.names path = .ok names →
    ∃ names', files'.names path = .ok names' ∧ names'.Perm names

theorem entryPath_injective {directory a b : String} (h : entryPath directory a = entryPath directory b) :
    a = b := by
  unfold entryPath at h
  split at h
  · simpa [← String.toList_inj] using h
  · simpa [← String.toList_inj] using h

end FileSystem

namespace Snapshot

def Distinct (s : Snapshot) : Prop := (s.nodes.map (·.1)).Nodup

def nameInside? (directory place : Place) : Option String :=
  if place.dropLast = directory then place.getLast? else none

theorem eq_append_of_nameInside? {directory place : Place} {name : String}
    (h : nameInside? directory place = some name) : place = directory ++ [name] := by
  unfold nameInside? at h
  split at h
  · next hdirectory =>
    rw [← hdirectory]
    exact (List.dropLast_append_getLast? name h).symm
  · cases h

theorem entries_eq (s : Snapshot) (directory : Place) :
    s.entries directory = (s.nodes.map (·.1)).filterMap (nameInside? directory) := by
  rw [List.filterMap_map]
  rfl

theorem Distinct.nodup_entries {s : Snapshot} (h : s.Distinct) (directory : Place) :
    (s.entries directory).Nodup := by
  rw [entries_eq]
  refine List.Nodup.filterMap (fun place place' name hname hname' => ?_) h
  rw [eq_append_of_nameInside? hname, eq_append_of_nameInside? hname']

theorem names_eq_ok {s : Snapshot} {path : String} {names : List String} (h : s.names path = .ok names) :
    ∃ directory, s.isDirectoryAt directory = true ∧ s.entries directory = names := by
  unfold Snapshot.names at h
  split at h
  · cases h
  · next directory _ =>
    split at h
    · next hdirectory => exact ⟨directory, hdirectory, Except.ok.inj h⟩
    · cases h

theorem Distinct.listsOnce {s : Snapshot} (h : s.Distinct) : s.toFileSystem.ListsOnce := by
  intro path names hnames
  obtain ⟨directory, -, rfl⟩ := names_eq_ok hnames
  exact h.nodup_entries directory

theorem Distinct.put {s : Snapshot} (h : s.Distinct) (place : Place) (node : Node) :
    (s.put place node).Distinct := by
  let others := s.nodes.filter (fun p => p.1 ≠ place)
  have hothers : (others.map (·.1)).Nodup := h.sublist (List.filter_sublist.map _)
  have hfresh : place ∉ others.map (·.1) := by simp [others]
  change ((others ++ [(place, node)]).map (·.1)).Nodup
  rw [List.map_append, List.nodup_append]
  refine ⟨hothers, List.nodup_singleton _, ?_⟩
  rintro p hp q hq rfl
  obtain rfl : p = place := List.mem_singleton.1 hq
  exact hfresh hp

theorem Distinct.addDirectories {s : Snapshot} (h : s.Distinct) (place : Place) (names : List String) :
    (s.addDirectories place names).Distinct := by
  induction names generalizing s place with
  | nil => exact h
  | cons name rest ih =>
    rw [Snapshot.addDirectories]
    apply ih
    split
    · exact h
    · exact h.put _ _

theorem Distinct.addNode {s : Snapshot} (h : s.Distinct) (path : String) (node : Node) :
    (s.addNode path node).Distinct :=
  (h.addDirectories _ _).put _ _

end Snapshot

/-! ## Names -/

theorem Utf8.ofString_injective {a b : String} (h : ofString a = ofString b) : a = b := by
  have hbytes : ∀ s : String, s.toByteArray = (ofString s).toByteArray := fun s => by
    conv_lhs => rw [← String.ofList_toList (s := s), String.toByteArray_ofList]
    rfl
  rw [← String.toByteArray_inj, hbytes, hbytes, h]

namespace Discovery

def HasExtension (name extension : String) : Prop :=
  ∃ stem, stem ≠ "" ∧ name = stem ++ "." ++ extension ∧ '.' ∉ extension.toList

theorem extension?_of_hasExtension {name extension : String} (h : HasExtension name extension) :
    extension? name = some extension := by
  obtain ⟨stem, hstem, rfl, hdot⟩ := h
  have hchars : (stem ++ "." ++ extension).toList.reverse =
      extension.toList.reverse ++ '.' :: stem.toList.reverse := by
    simp
  have hplain : ∀ c ∈ extension.toList.reverse, decide (c ≠ '.') = true := by
    intro c hc
    rw [List.mem_reverse] at hc
    simpa using fun heq : c = '.' => hdot (heq ▸ hc)
  have hbefore : stem.toList.reverse ≠ [] := by simpa using hstem
  unfold extension?
  dsimp only
  rw [hchars, List.dropWhile_append_of_pos hplain, List.takeWhile_append_of_pos hplain]
  cases hreverse : stem.toList.reverse with
  | nil => exact absurd hreverse hbefore
  | cons c rest => simp

theorem hasExtension_of_extension? {name extension : String} (h : extension? name = some extension) :
    HasExtension name extension := by
  unfold extension? at h
  dsimp only at h
  split at h
  · cases h
  · cases h
  · next hnil hone =>
    cases hbehind : name.toList.reverse.dropWhile (· ≠ '.') with
    | nil => exact absurd hbehind hnil
    | cons dot before =>
      have hdot : dot = '.' := by
        have hhead := List.head?_dropWhile_not (fun c => decide (c ≠ '.')) name.toList.reverse
        rw [hbehind] at hhead
        simpa using hhead
      have hstem : before ≠ [] := by
        rintro rfl
        exact hone dot hbehind
      have hchars := List.takeWhile_append_dropWhile (p := fun c => decide (c ≠ '.')) (l := name.toList.reverse)
      rw [hbehind, hdot] at hchars
      have hname := congrArg List.reverse hchars
      rw [List.reverse_append, List.reverse_cons, List.reverse_reverse] at hname
      obtain rfl := Option.some.inj h
      refine ⟨String.ofList before.reverse, by simpa using hstem, ?_, fun hmem => ?_⟩
      · rw [← String.toList_inj]
        refine hname.symm.trans ?_
        simp
      · rw [String.toList_ofList, List.mem_reverse] at hmem
        simpa using List.all_eq_true.1 List.all_takeWhile _ hmem

theorem extension?_eq_some_iff {name extension : String} :
    extension? name = some extension ↔ HasExtension name extension :=
  ⟨hasExtension_of_extension?, extension?_of_hasExtension⟩

theorem nameLE_trans (a b c : String) (hab : nameLE a b = true) (hbc : nameLE b c = true) :
    nameLE a c = true :=
  decide_eq_true (List.le_trans (of_decide_eq_true hab) (of_decide_eq_true hbc))

theorem nameLE_total (a b : String) : (nameLE a b || nameLE b a) = true := by
  rw [Bool.or_eq_true]
  exact (List.le_total (Utf8.ofString a) (Utf8.ofString b)).imp decide_eq_true decide_eq_true

theorem nameLE_antisymm {a b : String} (hab : nameLE a b = true) (hba : nameLE b a = true) : a = b :=
  Utf8.ofString_injective (List.le_antisymm (of_decide_eq_true hab) (of_decide_eq_true hba))

theorem lt_of_nameLE {a b : String} (hle : nameLE a b = true) (hne : a ≠ b) :
    Utf8.ofString a < Utf8.ofString b := by
  apply List.not_le.1
  intro hge
  exact hne (nameLE_antisymm hle (decide_eq_true hge))

/-! ## Blocks -/

/-- What a path stands for: itself, or its entries that are files with the extension `json`, in the order of
the bytes of their names. -/
inductive Block (files : FileSystem) (path : String) : List String → Prop where
  | itself (kind : files.isDirectory path = false) : Block files path [path]
  | entries {names found : List String} (kind : files.isDirectory path = true)
      (listed : files.names path = .ok names)
      (members : ∀ name, name ∈ found ↔
        name ∈ names ∧ files.isFile (FileSystem.entryPath path name) = true ∧ HasExtension name "json")
      (increasing : found.Pairwise fun a b => Utf8.ofString a < Utf8.ofString b) :
      Block files path (found.map (FileSystem.entryPath path))

variable {files files' : FileSystem} {path : String}

theorem isFixture_iff {name : String} :
    isFixture files path name = true ↔
      files.isFile (FileSystem.entryPath path name) = true ∧ HasExtension name "json" := by
  rw [isFixture, Bool.and_eq_true, beq_iff_eq, extension?_eq_some_iff, and_comm]

theorem increasing_of_nodup {names : List String} (h : names.Nodup) :
    (names.mergeSort nameLE).Pairwise fun a b => Utf8.ofString a < Utf8.ofString b := by
  have hordered := List.pairwise_mergeSort nameLE_trans nameLE_total names
  have hdistinct : (names.mergeSort nameLE).Nodup := (List.mergeSort_perm names nameLE).nodup_iff.2 h
  exact (hordered.and hdistinct).imp fun hab => lt_of_nameLE hab.1 hab.2

theorem block_of_expand (honce : files.ListsOnce) {block : List String} (h : expand files path = .ok block) :
    Block files path block := by
  rcases expand_cases h with ⟨hkind, rfl⟩ | ⟨names, hkind, hnames, rfl⟩
  · exact .itself hkind
  · refine .entries hkind hnames (fun name => ?_) (increasing_of_nodup ((honce path names hnames).filter _))
    rw [List.mem_mergeSort, List.mem_filter, isFixture_iff]

theorem nodup_of_increasing {names : List String}
    (h : names.Pairwise fun a b => Utf8.ofString a < Utf8.ofString b) : names.Nodup := by
  refine h.imp ?_
  rintro a b hlt rfl
  exact List.lt_irrefl _ hlt

theorem Block.nodup {block : List String} (h : Block files path block) : block.Nodup := by
  cases h with
  | itself _ => exact List.nodup_singleton path
  | entries _ _ _ increasing =>
    exact (nodup_of_increasing increasing).map fun a b => FileSystem.entryPath_injective

theorem Block.unique {block block' : List String} (h : Block files path block) (h' : Block files path block') :
    block = block' := by
  cases h with
  | itself kind =>
    cases h' with
    | itself _ => rfl
    | entries kind' _ _ _ =>
      rw [kind] at kind'
      cases kind'
  | @entries names found kind listed members increasing =>
    cases h' with
    | itself kind' =>
      rw [kind] at kind'
      cases kind'
    | @entries names' found' _ listed' members' increasing' =>
      obtain rfl := Except.ok.inj (listed.symm.trans listed')
      have hsame : ∀ name, name ∈ found ↔ name ∈ found' := fun name => (members name).trans (members' name).symm
      have hperm : found.Perm found' :=
        (List.perm_ext_iff_of_nodup (nodup_of_increasing increasing) (nodup_of_increasing increasing')).2 hsame
      have hfound : found = found' := by
        refine hperm.eq_of_pairwise (fun a b _ _ hab hba => ?_) increasing increasing'
        exact absurd (List.lt_trans hab hba) (List.lt_irrefl _)
      rw [hfound]

/-! ## The order of a listing -/

theorem mergeSort_eq_of_perm {names names' : List String} (h : names'.Perm names) :
    names'.mergeSort nameLE = names.mergeSort nameLE := by
  refine List.Perm.eq_of_pairwise (fun a b _ _ => nameLE_antisymm) ?_ ?_ ?_
  · exact List.pairwise_mergeSort nameLE_trans nameLE_total names'
  · exact List.pairwise_mergeSort nameLE_trans nameLE_total names
  · exact (List.mergeSort_perm names' nameLE).trans (h.trans (List.mergeSort_perm names nameLE).symm)

theorem inDirectory_eq_of_perm (hkind : files'.kind = files.kind) {names names' : List String}
    (h : names'.Perm names) : inDirectory files' path names' = inDirectory files path names := by
  have hfixture : isFixture files' path = isFixture files path := by
    funext name
    rw [isFixture, isFixture, FileSystem.isFile, FileSystem.isFile, hkind]
  rw [inDirectory, inDirectory, hfixture, mergeSort_eq_of_perm (h.filter _)]

theorem expand_eq_of_listsAlike (h : files.ListsAlike files') (path : String) :
    expand files' path = expand files path := by
  have hdirectory : files'.isDirectory path = files.isDirectory path := by
    rw [FileSystem.isDirectory, FileSystem.isDirectory, h.kind]
  rw [expand, expand, hdirectory]
  cases hnames : files.names path with
  | error fault => rw [h.refused path fault hnames]
  | ok names =>
    obtain ⟨names', hnames', hperm⟩ := h.listed path names hnames
    rw [hnames']
    simp only [inDirectory_eq_of_perm h.kind hperm]

theorem discover_eq_of_listsAlike (h : files.ListsAlike files') (paths : List String) :
    discover files' paths = discover files paths := by
  induction paths with
  | nil => rfl
  | cons path rest ih => rw [discover_cons, discover_cons, expand_eq_of_listsAlike h, ih]

/-- Where every directory can be listed, the fixtures found are the blocks of the paths one behind the other, and no
order of a listing changes them. -/
theorem discover_eq_blocks (honce : files.ListsOnce) {paths : List String}
    (hlisted : ∀ path ∈ paths, ¬ files.Unlisted path) :
    ∃ blocks, discover files paths = .ok blocks.flatten ∧
      List.Forall₂ (fun path block => Block files path block ∧ block.Nodup) paths blocks ∧
      (∀ blocks', List.Forall₂ (Block files) paths blocks' → blocks' = blocks) ∧
      ∀ files', files.ListsAlike files' → discover files' paths = .ok blocks.flatten := by
  obtain ⟨found, hfound⟩ := exists_discover_iff.2 hlisted
  obtain ⟨blocks, hexpanded, rfl⟩ := discover_eq_ok_iff.1 hfound
  have hblocks : List.Forall₂ (Block files) paths blocks := hexpanded.imp fun _ _ => block_of_expand honce
  have hunique : Relator.RightUnique (Block files) := fun _ _ _ h h' => h.unique h'
  refine ⟨blocks, hfound, hblocks.imp fun _ _ h => ⟨h, h.nodup⟩, fun blocks' h => ?_, fun files' h => ?_⟩
  · exact hunique.forall₂ h hblocks
  · rw [discover_eq_of_listsAlike h, hfound]

/-- A link to a file is found; a hidden name, a directory with the extension and a missing path are what they are. -/
theorem discover_eq_blocks_snapshot :
    let empty : Snapshot := ⟨[], ["work"], true⟩
    let s := ((((empty.addNode "d/b.json" (.file [] false)).addNode "d/a.json" (.link "../notes.txt")).addNode
      "notes.txt" (.file [] false)).addNode "d/.json" (.file [] false)).addNode "d/c.json/x" (.file [] false)
    let paths := ["missing", "d", "notes.txt"]
    s.toFileSystem.ListsOnce ∧ (∀ path ∈ paths, ¬ s.toFileSystem.Unlisted path) ∧
      discover s.toFileSystem paths = .ok ["missing", "d/a.json", "d/b.json", "notes.txt"] := by
  intro empty s paths
  have hempty : empty.Distinct := List.nodup_nil
  have honce : s.toFileSystem.ListsOnce :=
    (((((hempty.addNode _ _).addNode _ _).addNode _ _).addNode _ _).addNode _ _).listsOnce
  have hmissing : s.toFileSystem.isDirectory "missing" = false := by decide +kernel
  have hdirectory : s.toFileSystem.isDirectory "d" = true := by decide +kernel
  have hfile : s.toFileSystem.isDirectory "notes.txt" = false := by decide +kernel
  have hnames : s.toFileSystem.names "d" = .ok ["b.json", "a.json", ".json", "c.json"] := by decide +kernel
  have hfilter : ["b.json", "a.json", ".json", "c.json"].filter (isFixture s.toFileSystem "d") =
      ["b.json", "a.json"] := by decide +kernel
  have hlisted : ∀ path ∈ paths, ¬ s.toFileSystem.Unlisted path := by
    simp [paths, FileSystem.Unlisted, hmissing, hfile, hnames]
  have hpaths : ["a.json", "b.json"].map (FileSystem.entryPath "d") = ["d/a.json", "d/b.json"] := by decide
  have hblock : Block s.toFileSystem "d" ["d/a.json", "d/b.json"] := by
    rw [← hpaths]
    refine .entries hdirectory hnames (fun name => ?_) (by decide)
    rw [← isFixture_iff, ← List.mem_filter, hfilter]
    exact List.Perm.mem_iff (by decide)
  obtain ⟨blocks, hfound, -, hunique, -⟩ := discover_eq_blocks honce hlisted
  have hblocks := hunique _ (.cons (.itself hmissing) (.cons hblock (.cons (.itself hfile) .nil)))
  rw [← hblocks] at hfound
  exact ⟨honce, hlisted, hfound⟩

end Discovery
end Conformance
