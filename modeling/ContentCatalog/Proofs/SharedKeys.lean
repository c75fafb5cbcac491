import ContentCatalog.Proofs.ManifestFiles
import Mathlib.Data.List.Find

/-!
# Files that share a key

A name may hold a backslash, which in a key is a slash.  So different files can have one
key, and a manifest has one entry for all of them, with the fingerprint of the last one.

* `exists_key_slashes` : a key is the path below the root with slashes for backslashes;
* `fingerprints_eq_ofEntries` : the fingerprints are those of the listed files, merged by
  their keys;
* `shared_keys` : the statement about whole scans.
-/

namespace ContentCatalog.Path

open Text

/-- A path that was normalized stays as it is. -/
theorem normalize_normalize (path : List Char) : normalize (normalize path) = normalize path :=
  normalize_of_no_backslash (backslash_not_mem_normalize path)

/-- For being under a source folder, backslashes count as slashes. -/
theorem isUnderSource_normalize (path : List Char) :
    isUnderSource (normalize path) = isUnderSource path := by
  rw [isUnderSource, isUnderSource, anchored, normalize_normalize]
  rfl

/-- A second slash in front does not make a source folder. -/
theorem occurs_slash (path : List Char) :
    occurs sourceRegion ('/' :: '/' :: path) = occurs sourceRegion ('/' :: path) := by
  rw [occurs, cut?, show afterStart? sourceRegion ('/' :: '/' :: path) = none from rfl]
  exact Option.isSome_map

/-- A slash in front makes no difference. -/
theorem isUnderSource_slash (path : List Char) :
    isUnderSource ('/' :: path) = isUnderSource path := by
  have hslash : anchored ('/' :: path) = '/' :: normalize path := rfl
  rw [isUnderSource, isUnderSource, hslash, anchored]
  split
  · next rest hpath => rw [hpath, occurs_slash]
  · rfl

theorem isUnderSource_slashes (count : Nat) (path : List Char) :
    isUnderSource (List.replicate count '/' ++ path) = isUnderSource path := by
  induction count with
  | zero => rfl
  | succ count ih => rw [List.replicate_succ, List.cons_append, isUnderSource_slash, ih]

/-- What was cut from the end of a path are slashes. -/
theorem exists_end_slashes (path : List Char) :
    ∃ count, path = withoutEndSlashes path ++ List.replicate count '/' := by
  induction path with
  | nil => exact ⟨0, rfl⟩
  | cons c path ih =>
      obtain ⟨count, hpath⟩ := ih
      rw [withoutEndSlashes] at hpath ⊢
      rw [trimRight]
      split
      · next hnil =>
          rw [hnil, List.nil_append] at hpath
          split_ifs with hc
          · refine ⟨count + 1, ?_⟩
            rw [List.nil_append, List.replicate_succ, ← hpath, eq_of_beq hc]
          · exact ⟨count, by rw [List.singleton_append, ← hpath]⟩
      · next kept hkept => exact ⟨count, by rw [List.cons_append, ← hpath]⟩

end ContentCatalog.Path

namespace ContentCatalog.Scan

/-! ### Keys of any files -/

/-- The key of the file that the names lead to from the root. -/
def keyOf (root : Place) (names : List String) : String :=
  (itemAt root ⟨pathOf names, .empty⟩).name

/-- The paths differ in nothing but slashes and backslashes. -/
def SamePath (names others : List String) : Prop :=
  Path.normalize (pathOf names) = Path.normalize (pathOf others)

instance (names others : List String) : Decidable (SamePath names others) :=
  inferInstanceAs (Decidable (_ = _))

section Keys

variable {root out : Place} {settings : Settings} {folder : Tree} {names others : List String}

/-- The names of the root, up to slashes at the end. -/
theorem exists_root_slashes (hroot : root.Canonical) :
    ∃ count, Path.normalize (stem root.parts) =
      Path.withoutEndSlashes (Path.normalize root.text.toList) ++ List.replicate count '/' := by
  by_cases hparts : root.parts = []
  · obtain ⟨anchor, parts⟩ := root
    obtain ⟨hanchor, -⟩ := hroot
    simp only at hanchor hparts
    subst hanchor hparts
    exact ⟨0, rfl⟩
  · rw [text_eq_stem hroot hparts]
    exact Path.exists_end_slashes _

/-- **A key is the path below the root** with slashes for backslashes.  Backslashes at the end
of the root are slashes in front of it. -/
theorem exists_key_slashes (hroot : root.Canonical) :
    ∃ count, ∀ names, names ≠ [] → (∀ name ∈ names, IsName name) → ∀ content,
      (itemAt root ⟨pathOf names, content⟩).key =
        List.replicate count '/' ++ Path.normalize (pathOf names) := by
  obtain ⟨count, hcount⟩ := exists_root_slashes hroot
  refine ⟨count, fun names hne hn content => ?_⟩
  rw [itemAt_key]
  apply Path.relativeTo_of_under
  have hslashes : List.replicate count '/' ++ ['/'] = '/' :: List.replicate count '/' := by
    rw [← List.replicate_succ', List.replicate_succ]
  rw [text_below hroot hn hne, Path.normalize_append, Path.normalize_slash, hcount,
    List.append_assoc, ← List.singleton_append (x := '/'), ← List.append_assoc _ ['/'], hslashes]
  rfl

/-- Files have one key exactly if they have the same path. -/
theorem keyOf_eq_iff (hroot : root.Canonical) (hne : names ≠ [])
    (hn : ∀ name ∈ names, IsName name) (hone : others ≠ [])
    (ho : ∀ name ∈ others, IsName name) :
    keyOf root names = keyOf root others ↔ SamePath names others := by
  obtain ⟨count, hkey⟩ := exists_key_slashes hroot
  rw [keyOf, keyOf, Item.name, Item.name, hkey names hne hn, hkey others hone ho, SamePath,
    String.ofList_inj, List.append_cancel_left_eq]

/-- The fingerprints of items are those of the files, merged by their keys. -/
theorem fingerprints_itemsOf (root : Place) (found : List Disk.Found) :
    fingerprints (itemsOf root found) =
      Dictionary.ofEntries ((found.filter fun file =>
        Path.isUnderSource (itemAt root file).key).map fun file =>
          ((itemAt root file).name, Sha256.digest file.content)) := by
  let keyed := found.map fun file => ((itemAt root file).key, itemAt root file)
  have hkeyed : ∀ entry ∈ Dictionary.ofEntries keyed, entry.2.key = entry.1 := by
    intro entry hentry
    obtain ⟨file, -, rfl⟩ := List.mem_map.mp (Dictionary.mem_ofEntries hentry)
    rfl
  have hfilter : (Dictionary.ofEntries keyed).filter
        ((fun item => Path.isUnderSource item.key) ∘ Prod.snd) =
      Dictionary.ofEntries (keyed.filter fun entry => Path.isUnderSource entry.1) := by
    rw [← Dictionary.filter_ofEntries]
    refine List.filter_congr fun entry hentry => ?_
    rw [Function.comp_apply, hkeyed entry hentry]
  have hfinger : (Dictionary.ofEntries (keyed.filter fun entry =>
        Path.isUnderSource entry.1)).map (fun entry =>
          (entry.2.name, Sha256.digest entry.2.content)) =
      (Dictionary.ofEntries (keyed.filter fun entry => Path.isUnderSource entry.1)).map
        fun entry => (String.ofList entry.1, Sha256.digest entry.2.content) := by
    refine List.map_congr_left fun entry hentry => ?_
    rw [← hfilter] at hentry
    have hkey := hkeyed entry (List.mem_filter.mp hentry).1
    exact Prod.ext (congrArg String.ofList hkey) rfl
  rw [fingerprints, itemsOf, List.filter_map, List.map_map]
  refine (congrArg (List.map _) hfilter).trans (hfinger.trans ?_)
  rw [Dictionary.map_ofEntries (fun _ _ => String.ofList_injective) fun item : Item =>
    Sha256.digest item.content, List.filter_map, List.map_map]
  simp only [Function.comp_def, Item.name]
  rfl

/-- **The fingerprints of a scan** are those of the files that it lists, merged by their
keys. -/
theorem fingerprints_eq_ofEntries (hroot : root.Canonical) (hnamed : folder.Named IsName) :
    fingerprints (scannedItems root out settings folder) =
      Dictionary.ofEntries ((listing root out settings folder).map fun file =>
        (keyOf root file.1, Sha256.digest file.2)) := by
  obtain ⟨count, hkey⟩ := exists_key_slashes hroot
  have hfound : ∀ found ∈ Disk.walk (filter root out settings) folder,
      Path.isUnderSource (itemAt root found).key = Path.isUnderSource found.path ∧
        (itemAt root found).name = keyOf root (namesOf found.path) := by
    intro found hf
    obtain ⟨names, hne, hn, -, -, hpath⟩ := Disk.exists_names_of_mem_walk hnamed hf
    obtain ⟨path, content⟩ := found
    simp only at hpath
    subst hpath
    rw [keyOf, Item.name, Item.name, namesOf_pathOf hn hne, hkey names hne hn,
      hkey names hne hn, Path.isUnderSource_slashes, Path.isUnderSource_normalize]
    exact ⟨rfl, rfl⟩
  have hnames : ∀ found ∈ (Disk.walk (filter root out settings) folder).filter fun found =>
        Path.isUnderSource found.path,
      ((itemAt root found).name, Sha256.digest found.content) =
        (keyOf root (namesOf found.path), Sha256.digest found.content) := by
    intro found hf
    rw [(hfound found (List.mem_filter.mp hf).1).2]
  rw [scannedItems, fingerprints_itemsOf, List.filter_congr fun found hf => (hfound found hf).1,
    List.map_congr_left hnames, listing, List.map_map]
  rfl

end Keys

/-! ### Whole scans -/

/-- What a manifest has of files that may share keys. -/
structure Merged (root : Place) (files : List (List String × ByteArray))
    (entries : List (String × String)) : Prop where
  keys : Dictionary.keys entries = (files.map fun file => keyOf root file.1).eraseDups
  same : ∀ file ∈ files, ∀ other ∈ files,
    keyOf root file.1 = keyOf root other.1 ↔ SamePath file.1 other.1
  last : ∀ file ∈ files, Dictionary.lookup? (keyOf root file.1) entries =
    (files.reverse.find? fun other => SamePath other.1 file.1).map fun other =>
      Sha256.digest other.2
  faithful : (entries.length = files.length ∧ ∀ file ∈ files,
    Dictionary.lookup? (keyOf root file.1) entries = some (Sha256.digest file.2)) ↔
      files.Pairwise fun file other => ¬ SamePath file.1 other.1

section Merged

variable {root : Place} {files : List (List String × ByteArray)}

/-- The keys differ exactly if the paths do. -/
theorem nodup_keyOf_iff (hsame : ∀ file ∈ files, ∀ other ∈ files,
      keyOf root file.1 = keyOf root other.1 ↔ SamePath file.1 other.1) :
    (files.map fun file => keyOf root file.1).Nodup ↔
      files.Pairwise fun file other => ¬ SamePath file.1 other.1 := by
  rw [List.Nodup, List.pairwise_map]
  refine List.Pairwise.iff_of_mem fun {file other} hfile hother => ?_
  exact not_congr (hsame file hfile other hother)

/-- **Files with the same path have one entry**, that of the last one. -/
theorem merged_ofEntries (hsame : ∀ file ∈ files, ∀ other ∈ files,
      keyOf root file.1 = keyOf root other.1 ↔ SamePath file.1 other.1) :
    Merged root files (Dictionary.ofEntries (files.map fun file =>
      (keyOf root file.1, Sha256.digest file.2))) := by
  let entries := files.map fun file => (keyOf root file.1, Sha256.digest file.2)
  have hkeys : Dictionary.keys entries = files.map fun file => keyOf root file.1 := by
    rw [Dictionary.keys, List.map_map]
    rfl
  refine ⟨by rw [Dictionary.keys_ofEntries, hkeys], hsame, fun file hfile => ?_, ?_⟩
  · rw [Dictionary.lookup?_ofEntries, ← List.map_reverse, Dictionary.lookup?, List.find?_map,
      Option.map_map]
    refine congrArg (Option.map _) (List.find?_congr fun other hother => ?_)
    rw [Function.comp_apply, beq_eq_decide]
    exact decide_eq_decide.mpr (hsame other (List.mem_reverse.mp hother) file hfile)
  · rw [← nodup_keyOf_iff hsame, ← hkeys]
    constructor
    · intro h
      rw [← Dictionary.length_ofEntries_eq_iff, h.1, List.length_map]
    · intro h
      rw [Dictionary.ofEntries_of_nodup h]
      refine ⟨List.length_map _, fun file hfile => Dictionary.lookup?_of_mem h ?_⟩
      exact List.mem_map_of_mem hfile

end Merged

/-- **Files share an entry** where their paths differ in nothing but slashes and backslashes.
The keys of a manifest are those of the files that the walk takes under source folders, each
once, and under a key stands the fingerprint of the last file that has it.  So each file has an
entry of its own exactly if no two of them have the same path in this sense. -/
theorem shared_keys {around : Surroundings} {disk : Tree} {request : Request}
    {root out : Place} {folder : Tree} {settings : Settings} {result : Result}
    (opened : Opened around disk request root out folder settings) (hdisk : disk.Named IsName)
    (h : (run around disk request).result = .ok result) :
    ∃ files : List (List String × ByteArray),
      (∀ names content, (names, content) ∈ files ↔
        folder.Holds names content ∧ (filter root out settings).reaches [] names = true ∧
          Path.isUnderSource (pathOf names) = true) ∧
      files.Pairwise (fun file other => Disk.WalkBefore file.1 other.1) ∧
      Merged root files result.manifest.files := by
  obtain ⟨hcanonical, hnamed⟩ := canonical_root opened hdisk
  rw [run_of_opened opened] at h
  obtain ⟨readings, pages, datasets, defects, missing, -, -, -, hresult⟩ := stages_of_scanFolder h
  have hfiles : result.manifest.files = Dictionary.ofEntries
      ((listing root out settings folder).map fun file =>
        (keyOf root file.1, Sha256.digest file.2)) := by
    rw [hresult]
    exact fingerprints_eq_ofEntries hcanonical hnamed
  have hnames : ∀ file ∈ listing root out settings folder,
      file.1 ≠ [] ∧ ∀ name ∈ file.1, IsName name := by
    intro file hfile
    obtain ⟨hh, hr, -⟩ := (mem_listing hnamed).mp hfile
    exact ⟨(Disk.reaches_iff.mp hr).1, hnamed.of_holds hh⟩
  refine ⟨listing root out settings folder, fun names content => mem_listing hnamed,
    pairwise_listing hnamed, ?_⟩
  rw [hfiles]
  refine merged_ofEntries fun file hfile other hother => ?_
  obtain ⟨hne, hn⟩ := hnames file hfile
  obtain ⟨hone, ho⟩ := hnames other hother
  exact keyOf_eq_iff hcanonical hne hn hone ho

end ContentCatalog.Scan

/-! ### Two files with one key -/

namespace ContentCatalog.Sample

open ContentCatalog.Scan

/-- A page whose name holds a backslash, and another one in a folder. -/
def slashFolder : Tree :=
  .folder [("src", .folder [("x", .folder [("a.md", .file ⟨#[50]⟩)]), ("x\\a.md", .file ⟨#[49]⟩)])]

def slashDisk : Tree :=
  .folder [("site", slashFolder)]

theorem slashOpened : Opened around slashDisk (request .abort) root out slashFolder
    (settings .abort) where
  located := (opened .abort).located
  found := by
    simp only [Disk.findFolder, Disk.find, Disk.guarded, Place.holdsNull_eq]
    rfl
  settled := rfl
  placed := (opened .abort).placed

theorem named_slashDisk : slashDisk.Named IsName := by
  refine .folder (by simp) (by decide) (List.forall_mem_singleton.mpr ?_)
  refine .folder (by simp) (by decide) (List.forall_mem_singleton.mpr ?_)
  refine .folder (by decide) (by decide) ?_
  rw [List.forall_mem_cons, List.forall_mem_singleton]
  exact ⟨.folder (by simp) (by decide) (List.forall_mem_singleton.mpr (.file _)), .file _⟩

/-- The two files of the sample have one fingerprint between them. -/
theorem exists_slashResult :
    ∃ result, (run around slashDisk (request .abort)).result = .ok result ∧
      result.manifest.files.length = 1 := by
  refine exists_ended ?_
  rw [run_of_opened slashOpened, result_scanFolder, Disk.walk, slashFolder,
    Disk.walkFrom_subfolder (by decide +kernel),
    Disk.walkFrom_folder, Disk.sorted_of_pairwise (by decide)]
  simp only [List.flatMap_cons, List.flatMap_nil, Disk.shareOf]
  rw [if_pos (by decide +kernel), Disk.walkFrom_folder, Disk.sorted_of_pairwise (by simp)]
  decide +kernel

end ContentCatalog.Sample

namespace ContentCatalog.Scan

/-- The two files of the sample have one entry. -/
theorem shared_keys_sample :
    ∃ result, (run Sample.around Sample.slashDisk (Sample.request .abort)).result = .ok result ∧
      result.manifest.files.length = 1 ∧
      ∃ files, (["src", "x\\a.md"], ⟨#[49]⟩) ∈ files ∧ (["src", "x", "a.md"], ⟨#[50]⟩) ∈ files ∧
        Merged Sample.root files result.manifest.files := by
  obtain ⟨result, h, hlength⟩ := Sample.exists_slashResult
  obtain ⟨files, hmem, -, hmerged⟩ := shared_keys Sample.slashOpened Sample.named_slashDisk h
  refine ⟨result, h, hlength, files, (hmem _ _).mpr ⟨?_, ?_⟩, (hmem _ _).mpr ⟨?_, ?_⟩, hmerged⟩
  · exact .inside (.head _) (.inside (.tail _ (.head _)) (.here _))
  · decide +kernel
  · exact .inside (.head _) (.inside (.head _) (.inside (.head _) (.here _)))
  · decide +kernel

end ContentCatalog.Scan
