import ContentCatalog.Proofs.WrittenResults
import ContentCatalog.Proofs.WrittenValues

/-!
# Results written one after the other

A folder of results can be written many times, by scans that found something wrong and by
scans that did not.  Each writing that comes to its end leaves there what its own result
says and nothing of the results before it, and it leaves all other files of the disk alone.

* `Replaced` : between two trees nothing but the files of a list was written or removed;
* `replaced_of_removeFile`, `replaced_of_writeErrors` : removing a file, and writing reports;
* `stored_of_writeOn` : what one writing leaves in the folder;
* `Writings.others` : what a run of writings leaves elsewhere;
* `last_result_stored` : the statement about whole runs.
-/

namespace ContentCatalog.Disk

open ContentCatalog.Tree

/-! ### Files that are written or removed -/

/-- Between two trees nothing was changed but the files of the list, which have these bytes now
or are not there, and no folder was lost. -/
structure Replaced (before after : Tree) (files : List (List String × Option ByteArray)) :
    Prop where
  new : ∀ file ∈ files, after.fileAt? file.1 = file.2
  others : ∀ names, names ∉ files.map Prod.fst → after.fileAt? names = before.fileAt? names
  folders : ∀ names, before.FolderAt names → after.FolderAt names

/-- What was written was replaced by it. -/
theorem Overwritten.replaced {before after : Tree} {written : List (List String × ByteArray)}
    (h : Overwritten before after written) :
    Replaced before after (written.map fun file => (file.1, some file.2)) where
  new := List.forall_mem_map.mpr h.new
  others := by
    intro names hnames
    rw [List.map_map] at hnames
    exact h.others names hnames
  folders := h.folders

/-- **One after the other**: what was done first is seen still where nothing was done again. -/
theorem Replaced.append {before between after : Tree}
    {first second : List (List String × Option ByteArray)} (hfirst : Replaced before between first)
    (hsecond : Replaced between after second)
    (hfresh : ∀ file ∈ first, file.1 ∉ second.map Prod.fst) :
    Replaced before after (first ++ second) where
  new := by
    intro file hfile
    rcases List.mem_append.mp hfile with hfile | hfile
    · rw [hsecond.others _ (hfresh file hfile), hfirst.new file hfile]
    · exact hsecond.new file hfile
  others := by
    intro names hnames
    rw [List.map_append, List.mem_append, not_or] at hnames
    rw [hsecond.others names hnames.2, hfirst.others names hnames.1]
  folders := fun names h => hsecond.folders names (hfirst.folders names h)

/-- What stands under a name of the folder at a place. -/
theorem target_child {root : Tree} {out : Place} {name : String} {way : List String}
    {entries : List (String × Tree)} (hname : name ≠ "..")
    (hway : follow [] root out.parts = .ok (way, .folder entries)) :
    target root (out.child name) =
      match entry? name entries with
      | .ok tree => .ok (.occupied way name tree)
      | .error .notFound => .ok (.vacant way name)
      | .error cause => .error cause := by
  rw [target, Place.child, List.getLast?_concat, List.dropLast_concat]
  cases hentry : entry? name entries with
  | ok tree => simp only [hway, if_neg hname, hentry]
  | error cause => cases cause <;> simp only [hway, if_neg hname, hentry]

/-- **Removing a file** that comes to an end took it out of its folder, or there was nothing. -/
theorem removed_or_absent {ε : Type} {medium : Medium ε} {out : Place} {name : String}
    {way : List String} {entries : List (String × Tree)} {state after : State}
    (hname : name ≠ "..") (hway : follow [] state.tree out.parts = .ok (way, .folder entries))
    (h : (removeFile medium (out.child name)).run.run state = (.ok (), after)) :
    (Dictionary.lookup? name entries = none ∧ after = state) ∨
      ∃ content, Dictionary.lookup? name entries = some (.file content) ∧
        after.tree = dropAt way name state.tree := by
  rw [removeFile, run_get_bind, target_child hname hway] at h
  cases hentry : entry? name entries with
  | ok tree =>
      rw [hentry] at h
      split at h
      · next hguarded =>
          rw [guarded] at hguarded
          split_ifs at hguarded <;> cases hguarded
      · cases h
      · next hguarded => cases (guarded_eq_ok_iff.mp hguarded).2.2
      · next hguarded =>
          cases (guarded_eq_ok_iff.mp hguarded).2.2
          split at h
          · cases h
          · obtain rfl := (Prod.mk.inj h).2
            exact .inr ⟨_, lookup?_of_entry hentry, rfl⟩
      · cases h
  | error cause =>
      rw [hentry] at h
      cases cause with
      | notFound =>
          have hlookup := lookup?_of_notFound hentry
          split at h
          · exact .inl ⟨hlookup, (Prod.mk.inj h).2.symm⟩
          · cases h
          · exact .inl ⟨hlookup, (Prod.mk.inj h).2.symm⟩
          · next hguarded => cases (guarded_eq_ok_iff.mp hguarded).2.2
          · cases h
      | _ =>
          split at h
          · next hguarded =>
              rw [guarded] at hguarded
              split_ifs at hguarded <;> cases hguarded
          · cases h
          · next hguarded => cases (guarded_eq_ok_iff.mp hguarded).2.2
          · next hguarded => cases (guarded_eq_ok_iff.mp hguarded).2.2
          · cases h

/-- **A removed file** is not there, and all others are as they were. -/
theorem replaced_of_removeFile {ε : Type} {medium : Medium ε} {out : Place} {name : String}
    {way : List String} {entries : List (String × Tree)} {state after : State}
    (hname : name ≠ "..") (hway : follow [] state.tree out.parts = .ok (way, .folder entries))
    (h : (removeFile medium (out.child name)).run.run state = (.ok (), after)) :
    after.tree.at? (way ++ [name]) = none ∧
      Replaced state.tree after.tree [(way ++ [name], none)] := by
  have hat : ∀ rest, state.tree.at? (way ++ name :: rest) =
      (Dictionary.lookup? name entries).bind fun tree => tree.at? rest := by
    intro rest
    rw [at?_append, at?_of_follow (standsIn_root _) hway, Option.bind_some, at?_folder]
  rcases removed_or_absent hname hway h with ⟨hlookup, rfl⟩ | ⟨content, hlookup, hafter⟩
  · have hnone : after.tree.at? (way ++ [name]) = none := by
      rw [hat [], hlookup]
      rfl
    refine ⟨hnone, ?_, fun _ _ => rfl, fun _ => id⟩
    rw [List.forall_mem_singleton, fileAt?, hnone]
    rfl
  · have hnone : after.tree.at? (way ++ [name]) = none := by
      rw [hafter, at?_dropAt_self]
    refine ⟨hnone, ?_, fun names hnames => ?_, fun names hfolder => ?_⟩
    · rw [List.forall_mem_singleton, fileAt?, hnone]
      rfl
    · by_cases hprefix : way ++ [name] <+: names
      · obtain ⟨rest, rfl⟩ := hprefix
        rw [List.append_assoc, List.singleton_append] at hnames ⊢
        rw [fileAt?, fileAt?, hafter, at?_dropAt_self, hat, hlookup, Option.bind_some]
        cases rest with
        | nil => exact absurd (List.mem_singleton_self _) hnames
        | cons key rest => rfl
      · rw [fileAt?_eq_join, fileAt?_eq_join, hafter, label_dropAt_other hprefix]
    · by_cases hprefix : way ++ [name] <+: names
      · obtain ⟨rest, rfl⟩ := hprefix
        obtain ⟨others, hothers⟩ := hfolder
        rw [List.append_assoc, List.singleton_append, hat, hlookup, Option.bind_some] at hothers
        cases rest <;> cases hothers
      · rwa [folderAt_iff, hafter, label_dropAt_other hprefix, ← folderAt_iff]

end ContentCatalog.Disk

namespace ContentCatalog.Output

open Disk

/-! ### One writing -/

/-- What a writing that comes to its end says of its files. -/
def writtenTo (out : Place) (result : Scan.Result) : Written where
  manifest := out.child manifestFile
  build := out.child buildFile
  errors := if result.errors.isEmpty then none else some (out.child errorsFile)

section Steps

variable {ε : Type} {medium : Medium ε} {unwritten : Json.WriteFault → ε}

/-- **A writing comes to its end** if its three steps do. -/
theorem steps_of_writeOn {result : Scan.Result} {out : Place} {disk : State} {written : Written}
    (h : (writeOn medium unwritten result out disk).2.2 = .ok written) :
    written = writtenTo out result ∧ ∃ first second,
      (writeValue medium unwritten (out.child manifestFile) result.manifest.toValue).run.run disk =
        (.ok (), first) ∧
      (writeValue medium unwritten (out.child buildFile) result.build.toValue).run.run first =
        (.ok (), second) ∧
      (writeErrors medium unwritten result out).run.run second =
        (.ok (), (writeOn medium unwritten result out disk).1) := by
  unfold writeOn at h ⊢
  rcases hcatalog : (writeCatalog medium unwritten result out).run.run disk with ⟨catalog, second⟩
  cases catalog with
  | error fault =>
      simp only [hcatalog] at h
      cases h
  | ok _ =>
      obtain ⟨_, first, hmanifest, hbuild⟩ := run_bind_eq_ok hcatalog
      simp only [hcatalog] at h ⊢
      rcases herrors : (writeErrors medium unwritten result out).run.run second with
        ⟨errors, after⟩
      simp only [herrors] at h ⊢
      cases errors with
      | error fault => cases h
      | ok _ =>
          rw [writtenTo]
          split_ifs at h ⊢ with hempty
          · cases h
            exact ⟨rfl, first, second, hmanifest, hbuild, herrors⟩
          · cases h
            exact ⟨rfl, first, second, hmanifest, hbuild, herrors⟩

end Steps

/-- The messages that a record of reports holds. -/
def reportsIn (record : Value) : List String :=
  textsAmong ((itemsOf (memberOrNull "errors" (entriesOf record))).map fun report =>
    memberOrNull "message" (entriesOf report))

/-- The record of one report. -/
def reportRecord (message : String) : Value :=
  .record [("message", .text message)]

/-- **Reports are read back** in their order. -/
theorem reportsIn_of_readsAs {errors : List String} {other : Value}
    (h : ReadsAs (errorsRecord errors) other) : reportsIn other = errors := by
  obtain ⟨others, rfl, hsame⟩ := sameMembers_record (by simp [Dictionary.keys]) h
  have hlist : ReadsAs (.list (errors.map reportRecord)) (memberOrNull "errors" others) :=
    hsame.member "errors"
  obtain ⟨reports, hreports, hall⟩ := readsAs_list hlist
  have hmessages : reports.map (fun report => memberOrNull "message" (entriesOf report)) =
      errors.map Value.text := by
    rw [List.forall₂_map_left_iff] at hall
    clear hlist hreports hsame h
    induction hall with
    | nil => rfl
    | @cons message report errors reports hfirst _ ih =>
        obtain ⟨members, rfl, hmembers⟩ := sameMembers_record (by simp [Dictionary.keys]) hfirst
        rw [List.map_cons, List.map_cons, ih]
        exact congrArg (· :: _) (hmembers.word "message" trivial)
  rw [reportsIn, entriesOf, hreports, itemsOf, hmessages, textsAmong, List.filterMap_map]
  exact List.filterMap_some

/-- The text of reports is that of a document with their messages. -/
theorem read_of_writeErrors {errors : List String} {text : String}
    (h : Json.write (errorsRecord errors) = .ok text) :
    ∃ document, Json.read text.toList = .ok document ∧ reportsIn document.toValue = errors := by
  obtain ⟨document, hread, hreads⟩ := read_of_write (by simp [errorsRecord]) h
  exact ⟨document, hread, reportsIn_of_readsAs hreads⟩

/-! ### One writing -/

/-- The files of the results in the folder at the end of a way. -/
def resultFiles (way : List String) : List (List String) :=
  [manifestFile, buildFile, errorsFile].map fun name => way ++ [name]

/-- The file at the end of the way holds the text of the value. -/
def HoldsValue (tree : Tree) (names : List String) (value : Value) (text : String) : Prop :=
  Json.write value = .ok text ∧ tree.fileAt? names = some text.toUTF8

/-- The folder of the results, which is at the end of a way, holds what one result says. -/
structure Stored (result : Scan.Result) (out : Place) (way : List String) (tree : Tree) :
    Prop where
  folder : ∃ entries, follow [] tree out.parts = .ok (way, .folder entries)
  manifest : ∃ text, HoldsValue tree (way ++ [manifestFile]) result.manifest.toValue text
  build : ∃ text, HoldsValue tree (way ++ [buildFile]) result.build.toValue text
  noErrors : result.errors = [] → tree.at? (way ++ [errorsFile]) = none
  errors : result.errors ≠ [] → ∃ text document,
    HoldsValue tree (way ++ [errorsFile]) (errorsRecord result.errors) text ∧
      Json.read text.toList = .ok document ∧ reportsIn document.toValue = result.errors

section Steps

variable {ε : Type} {medium : Medium ε} {unwritten : Json.WriteFault → ε}

/-- **Reports are written** if there are any, and else those left over are removed. -/
theorem replaced_of_writeErrors {result : Scan.Result} {out : Place} {way : List String}
    {entries : List (String × Tree)} {disk after : State}
    (hway : follow [] disk.tree out.parts = .ok (way, .folder entries))
    (h : (writeErrors medium unwritten result out).run.run disk = (.ok (), after)) :
    ∃ bytes, Replaced disk.tree after.tree [(way ++ [errorsFile], bytes)] ∧
      (result.errors = [] → after.tree.at? (way ++ [errorsFile]) = none) ∧
      (result.errors ≠ [] → ∃ text, Json.write (errorsRecord result.errors) = .ok text ∧
        bytes = some text.toUTF8) := by
  rw [writeErrors] at h
  split at h
  · next hempty =>
      obtain ⟨hnone, hreplaced⟩ := replaced_of_removeFile (by decide) hway h
      exact ⟨none, hreplaced, fun _ => hnone, fun hne => absurd (List.isEmpty_iff.mp hempty) hne⟩
  · next hsome =>
      obtain ⟨text, way', others, htext, hway', hwritten⟩ := written_of_writeValue h
      obtain rfl := way_of_kept hwritten.folders hway hway'
      refine ⟨some text.toUTF8, hwritten.replaced, fun hnil => ?_, fun _ => ⟨text, htext, rfl⟩⟩
      exact absurd (List.isEmpty_iff.mpr hnil) hsome

/-- **One writing** leaves in the folder what its result says, and nothing else is changed. -/
theorem stored_of_writeOn {result : Scan.Result} {out : Place} {disk : State} {written : Written}
    (h : (writeOn medium unwritten result out disk).2.2 = .ok written) :
    written = writtenTo out result ∧ ∃ way files,
      Stored result out way (writeOn medium unwritten result out disk).1.tree ∧
      Replaced disk.tree (writeOn medium unwritten result out disk).1.tree files ∧
      files.map Prod.fst = resultFiles way := by
  obtain ⟨hwritten, first, second, hmanifest, hbuild, herrors⟩ := steps_of_writeOn h
  obtain ⟨manifest, way, entries, hmanifestText, hway, hfirst⟩ :=
    written_of_writeValue hmanifest
  obtain ⟨build, way', others, hbuildText, hway', hsecond⟩ := written_of_writeValue hbuild
  obtain rfl := way_of_kept hsecond.folders hway hway'
  obtain ⟨bytes, hthird, hnone, hsome⟩ := replaced_of_writeErrors hway' herrors
  have hall : Replaced disk.tree (writeOn medium unwritten result out disk).1.tree
      [(way ++ [manifestFile], some manifest.toUTF8), (way ++ [buildFile], some build.toUTF8),
        (way ++ [errorsFile], bytes)] :=
    (hfirst.replaced.append hsecond.replaced (by simp [manifestFile, buildFile])).append hthird
      (by simp [manifestFile, buildFile, errorsFile])
  refine ⟨hwritten, way, _, ?_, hall, rfl⟩
  exact
    { folder := follow_of_kept hthird.folders hway'
      manifest := ⟨manifest, hmanifestText, hall.new _ (.head _)⟩
      build := ⟨build, hbuildText, hall.new _ (.tail _ (.head _))⟩
      noErrors := hnone
      errors := by
        intro hne
        obtain ⟨text, htext, rfl⟩ := hsome hne
        obtain ⟨document, hread, hreports⟩ := read_of_writeErrors htext
        exact ⟨text, document, ⟨htext, hall.new _ (.tail _ (.tail _ (.head _)))⟩, hread, hreports⟩ }

end Steps

/-- So does one to a disk that stops nothing. -/
theorem stored_of_write {result : Scan.Result} {out : Place} {disk : State} {written : Written}
    (h : (write result out disk).2.result = .ok written) :
    written = writtenTo out result ∧ ∃ way files,
      Stored result out way (write result out disk).1.tree ∧
      Replaced disk.tree (write result out disk).1.tree files ∧
      files.map Prod.fst = resultFiles way :=
  stored_of_writeOn h

/-! ### Many writings -/

/-- Writings into one folder that all come to their end, with the results and what was said of
their files. -/
inductive Writings (out : Place) : State → List (Scan.Result × Written) → State → Prop
  | nil (disk : State) : Writings out disk [] disk
  | cons {disk last : State} {result : Scan.Result} {written : Written}
    {rest : List (Scan.Result × Written)}
    (h : (write result out disk).2.result = .ok written)
    (hrest : Writings out (write result out disk).1 rest last) :
    Writings out disk ((result, written) :: rest) last

/-- The writings before the last one, and the last one. -/
theorem Writings.split {out : Place} {disk last : State} {first rest : List (Scan.Result × Written)}
    (h : Writings out disk (first ++ rest) last) :
    ∃ between, Writings out disk first between ∧ Writings out between rest last := by
  induction first generalizing disk with
  | nil => exact ⟨disk, .nil disk, h⟩
  | cons run first ih =>
      cases h with
      | cons hfirst hrest =>
          obtain ⟨between, hbetween, hlast⟩ := ih hrest
          exact ⟨between, .cons hfirst hbetween, hlast⟩

/-- **No writing changes anything** but the files of the results: of every run of writings the
folder is the one that it is in the end. -/
theorem Writings.others {out : Place} {disk last : State} {runs : List (Scan.Result × Written)}
    (h : Writings out disk runs last) {way : List String} {entries : List (String × Tree)}
    (hway : follow [] last.tree out.parts = .ok (way, .folder entries)) :
    (∀ names, names ∉ resultFiles way → last.tree.fileAt? names = disk.tree.fileAt? names) ∧
      ∀ names, disk.tree.FolderAt names → last.tree.FolderAt names := by
  induction h with
  | nil disk => exact ⟨fun _ _ => rfl, fun _ => id⟩
  | @cons disk last result written rest hwrite hrest ih =>
      obtain ⟨hothers, hfolders⟩ := ih hway
      obtain ⟨-, way', files, hstored, hreplaced, hfiles⟩ := stored_of_write hwrite
      obtain ⟨others, hway'⟩ := hstored.folder
      obtain rfl := way_of_kept hfolders hway' hway
      refine ⟨fun names hnames => ?_, fun names hfolder =>
        hfolders names (hreplaced.folders names hfolder)⟩
      rw [hothers names hnames, hreplaced.others names (by rwa [hfiles])]

end ContentCatalog.Output

/-! ### Reports that are cleared -/

namespace ContentCatalog.Sample

open Disk Output

/-- The results of a project in which something is wrong. -/
def reportedResult : Scan.Result :=
  { bareResult with errors := ["Duplicate page id", "Missing component"] }

/-- A folder of results with an old manifest and old reports, beside another file. -/
def usedDisk : State :=
  { tree := .folder [("out", .folder [("manifest.json", .file "old".toUTF8),
      ("errors.json", .file "old".toUTF8), ("notes.txt", .file "kept".toUTF8)])] }

/-- The disk after the reports were written. -/
def reportedDisk : State :=
  (write reportedResult bareOut usedDisk).1

/-- Both writings come to their end. -/
theorem exists_clearing :
    ∃ first second, (write reportedResult bareOut usedDisk).2.result = .ok first ∧
      (write bareResult bareOut reportedDisk).2.result = .ok second := by
  have hruns : (write reportedResult bareOut usedDisk).2.result.toOption.isSome = true ∧
      (write bareResult bareOut reportedDisk).2.result.toOption.isSome = true := by
    simp only [reportedDisk, write, writeOn, writeCatalog, writeErrors, writeValue, bareOut,
      Place.parent_child, ensureFolder, List.length_cons, List.length_nil, makeFolders, tryFolder,
      acceptFolder, writeFile, openFile, fillFile, removeFile, Medium.slot, isFolder, ask, find,
      guarded, Place.holdsNull_eq]
    decide +kernel
  obtain ⟨first, hfirst⟩ := exists_eq_ok hruns.1
  obtain ⟨second, hsecond⟩ := exists_eq_ok hruns.2
  exact ⟨first, second, hfirst, hsecond⟩

end ContentCatalog.Sample

namespace ContentCatalog.Output

open Disk

/-- **After a run of writings** into one folder the folder holds what the last result says,
whatever was there before: its manifest and its build, and its reports if it has any and else no
file of reports.  What the last writing says of its files tells the same.  All other files of the
disk are as they were before the first writing, present or absent, and no folder was lost. -/
theorem last_result_stored {out : Place} {disk last : State}
    {runs : List (Scan.Result × Written)} {result : Scan.Result} {written : Written}
    (h : Writings out disk (runs ++ [(result, written)]) last) :
    written = writtenTo out result ∧ ∃ way,
      Stored result out way last.tree ∧
      (∀ names, names ∉ resultFiles way →
        last.tree.fileAt? names = disk.tree.fileAt? names) ∧
      ∀ names, disk.tree.FolderAt names → last.tree.FolderAt names := by
  obtain ⟨between, -, hlast⟩ := h.split
  cases hlast with
  | cons hwrite hnil =>
      cases hnil
      obtain ⟨hwritten, way, files, hstored, -, -⟩ := stored_of_write hwrite
      obtain ⟨entries, hway⟩ := hstored.folder
      obtain ⟨hothers, hfolders⟩ := h.others hway
      exact ⟨hwritten, way, hstored, hothers, hfolders⟩

/-- Reports are written into a folder with old files and removed again by the next results. -/
theorem last_result_stored_sample :
    ∃ first second last, Writings Sample.bareOut Sample.usedDisk
        [(Sample.reportedResult, first), (Sample.bareResult, second)] last ∧
      second = writtenTo Sample.bareOut Sample.bareResult ∧ ∃ way,
        Stored Sample.bareResult Sample.bareOut way last.tree ∧
        (∀ names, names ∉ resultFiles way →
          last.tree.fileAt? names = Sample.usedDisk.tree.fileAt? names) ∧
        ∀ names, Sample.usedDisk.tree.FolderAt names → last.tree.FolderAt names := by
  obtain ⟨first, second, hfirst, hsecond⟩ := Sample.exists_clearing
  have hruns : Writings Sample.bareOut Sample.usedDisk
      ([(Sample.reportedResult, first)] ++ [(Sample.bareResult, second)]) _ :=
    .cons hfirst (.cons hsecond (.nil _))
  exact ⟨first, second, _, hruns, last_result_stored hruns⟩

end ContentCatalog.Output
