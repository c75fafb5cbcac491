import ContentCatalog.Output
import ContentCatalog.Proofs.KeptFiles
import ContentCatalog.Proofs.PathSegments

/-!
# Results that are not written

The results of a scan are written file by file, to a medium that may stop any step and may take
only a part of a file.  Where the writing fails, the files written before stay.  Of the file that
was being written, what it held is lost if the medium stopped in it: then the first bytes of its
new text are there, or none.  Everything else is as it was.

* `kept_or_begun_of_writeValue`, `written_of_writeValue` : one file;
* `write_failed` : where the writing of results may stop, and what it leaves;
* `not_all_or_nothing` : what was written before a failure is not undone.
-/

namespace ContentCatalog.Output

open Disk

variable {ε : Type} {medium : Medium ε} {unwritten : Json.WriteFault → ε}

/-! ### One file -/

/-- What a value that was not written has left of its file: nothing was done to it, or the medium
stopped behind the first bytes of the text. -/
inductive Begun (medium : Medium ε) (place : Place) (value : Value) (failure : ε) :
    Option ByteArray → Prop
  | untouched : Begun medium place value failure none
  | stopped {text : String} {opened : State} {count : Nat} (htext : Json.write value = .ok text)
    (hstops : medium.stops opened place text.toUTF8 = some (count, failure)) :
    Begun medium place value failure (some (text.toUTF8.extract 0 count))

/-- The file of a name in the folder at the end of a way, if bytes of it were written. -/
def begunFile (way : List String) (name : String) (begun : Option ByteArray) :
    List (List String × ByteArray) :=
  begun.toList.map fun bytes => (way ++ [name], bytes)

/-- **A file in a folder** is written at the end of the way that the folder still has. -/
theorem overwritten_of_writtenAt {out : Place} {name last : String} {before after : Tree}
    {bytes : ByteArray} {way : List String}
    (h : WrittenAt (out.child name) before after bytes way last) :
    (∃ entries, follow [] after out.parts = .ok (way, .folder entries)) ∧
      Overwritten before after [(way ++ [name], bytes)] := by
  obtain ⟨hlast, ⟨entries, hway⟩, hwritten⟩ := h
  rw [Place.child, List.getLast?_concat] at hlast
  obtain rfl := Option.some.inj hlast
  rw [Place.child, List.dropLast_concat] at hway
  exact ⟨follow_of_kept hwritten.folders hway, hwritten⟩

/-- **A value that is not written** leaves all other files as they were; folders may have been
made. -/
theorem kept_or_begun_of_writeValue {out : Place} {name : String} {value : Value}
    {disk after : State} {failure : ε}
    (h : (writeValue medium unwritten (out.child name) value).run.run disk =
      (.error failure, after)) :
    ∃ way begun, Begun medium (out.child name) value failure begun ∧
      (begun.isSome → ∃ entries, follow [] after.tree out.parts = .ok (way, .folder entries)) ∧
      Overwritten disk.tree after.tree (begunFile way name begun) := by
  rcases run_bind_eq_error h with h | ⟨_, made, hmade, h⟩
  · exact ⟨[], none, .untouched, by simp, (keeps_ensureFolder _ _).overwritten h⟩
  · have hkept := (keeps_ensureFolder _ _).overwritten hmade
    cases htext : Json.write value with
    | error fault =>
        simp only [htext] at h
        obtain rfl := (Prod.mk.inj h).2
        exact ⟨[], none, .untouched, by simp, hkept⟩
    | ok text =>
        simp only [htext] at h
        rcases kept_or_begun_of_writeFile h with
          rfl | ⟨way, last, opened, count, hstops, hwritten⟩
        · exact ⟨[], none, .untouched, by simp, hkept⟩
        · obtain ⟨hfolder, hbegun⟩ := overwritten_of_writtenAt hwritten
          exact ⟨way, _, .stopped htext hstops, fun _ => hfolder,
            hkept.append hbegun (List.forall_mem_nil _)⟩

/-- **A value that is written** stands as a text at the end of the way that its folder has
now. -/
theorem written_of_writeValue {out : Place} {name : String} {value : Value}
    {disk after : State}
    (h : (writeValue medium unwritten (out.child name) value).run.run disk = (.ok (), after)) :
    ∃ text way entries, Json.write value = .ok text ∧
      follow [] after.tree out.parts = .ok (way, .folder entries) ∧
      Overwritten disk.tree after.tree [(way ++ [name], text.toUTF8)] := by
  obtain ⟨_, made, hmade, h⟩ := run_bind_eq_ok h
  have hkept := (keeps_ensureFolder _ _).overwritten hmade
  cases htext : Json.write value with
  | error fault =>
      simp only [htext] at h
      cases (Prod.mk.inj h).1
  | ok text =>
      simp only [htext] at h
      obtain ⟨way, last, hwritten⟩ := writtenAt_of_writeFile h
      obtain ⟨⟨entries, hfolder⟩, hnew⟩ := overwritten_of_writtenAt hwritten
      exact ⟨text, way, entries, rfl, hfolder, hkept.append hnew (List.forall_mem_nil _)⟩

/-! ### The files of a scan -/

section Stopped

variable (medium unwritten)

/-- Where the writing of results stopped, the names and bytes of the files that were written
before, and the name of the file at which it stopped with what was written of it. -/
inductive StoppedAt (result : Scan.Result) (out : Place) (disk : State) (failure : ε)
    (after : State) : List (String × ByteArray) → String → Option ByteArray → Prop
  | manifest {begun : Option ByteArray}
    (h : (writeValue medium unwritten (out.child manifestFile)
      result.manifest.toValue).run.run disk = (.error failure, after))
    (hbegun : Begun medium (out.child manifestFile) result.manifest.toValue failure begun) :
    StoppedAt result out disk failure after [] manifestFile begun
  | build {first : State} {manifest : String} {begun : Option ByteArray}
    (hmanifest : (writeValue medium unwritten (out.child manifestFile)
      result.manifest.toValue).run.run disk = (.ok (), first))
    (hmanifestText : Json.write result.manifest.toValue = .ok manifest)
    (h : (writeValue medium unwritten (out.child buildFile) result.build.toValue).run.run first =
      (.error failure, after))
    (hbegun : Begun medium (out.child buildFile) result.build.toValue failure begun) :
    StoppedAt result out disk failure after [(manifestFile, manifest.toUTF8)] buildFile begun
  | errors {first second : State} {manifest build : String} {begun : Option ByteArray}
    (hmanifest : (writeValue medium unwritten (out.child manifestFile)
      result.manifest.toValue).run.run disk = (.ok (), first))
    (hmanifestText : Json.write result.manifest.toValue = .ok manifest)
    (hbuild : (writeValue medium unwritten (out.child buildFile)
      result.build.toValue).run.run first = (.ok (), second))
    (hbuildText : Json.write result.build.toValue = .ok build)
    (h : (writeErrors medium unwritten result out).run.run second = (.error failure, after))
    (hbegun : Begun medium (out.child errorsFile) (errorsRecord result.errors) failure begun)
    (hclean : result.errors = [] → begun = none) :
    StoppedAt result out disk failure after
      [(manifestFile, manifest.toUTF8), (buildFile, build.toUTF8)] errorsFile begun

end Stopped

/-- Reports that are not written or removed leave all other files as they were. -/
theorem kept_or_begun_of_writeErrors {result : Scan.Result} {out : Place} {disk after : State}
    {failure : ε}
    (h : (writeErrors medium unwritten result out).run.run disk = (.error failure, after)) :
    ∃ way begun, Begun medium (out.child errorsFile) (errorsRecord result.errors) failure begun ∧
      (result.errors = [] → begun = none) ∧
      (begun.isSome → ∃ entries, follow [] after.tree out.parts = .ok (way, .folder entries)) ∧
      Overwritten disk.tree after.tree (begunFile way errorsFile begun) := by
  rw [writeErrors] at h
  split at h
  · rw [kept_of_removeFile h]
    exact ⟨[], none, .untouched, fun _ => rfl, by simp, .refl disk.tree⟩
  · next hsome =>
      obtain ⟨way, begun, hbegun, hfolder, hwritten⟩ := kept_or_begun_of_writeValue h
      refine ⟨way, begun, hbegun, fun hnil => ?_, hfolder, hwritten⟩
      exact absurd (List.isEmpty_iff.mpr hnil) hsome

/-- **The file at which the writing stopped** is in the folder of those that were written
before. -/
theorem append_begun {out : Place} {before between after : Tree}
    (files : List (String × ByteArray)) {way way' : List String} {name : String}
    {begun : Option ByteArray} {entries : List (String × Tree)}
    (hfirst : Overwritten before between (files.map fun file => (way ++ [file.1], file.2)))
    (hway : follow [] between out.parts = .ok (way, .folder entries))
    (hfolder : begun.isSome → ∃ entries, follow [] after out.parts = .ok (way', .folder entries))
    (hsecond : Overwritten between after (begunFile way' name begun))
    (hfresh : name ∉ files.map Prod.fst) :
    (∃ entries, follow [] after out.parts = .ok (way, .folder entries)) ∧
      Overwritten before after
        (files.map (fun file => (way ++ [file.1], file.2)) ++ begunFile way name begun) := by
  have hsame : begunFile way' name begun = begunFile way name begun := by
    cases begun with
    | none => rfl
    | some bytes =>
        obtain ⟨others, hothers⟩ := hfolder rfl
        rw [way_of_kept hsecond.folders hway hothers]
  refine ⟨follow_of_kept hsecond.folders hway, hsame ▸ hfirst.append hsecond ?_⟩
  refine List.forall_mem_map.mpr fun file hfile hmem => hfresh ?_
  rw [hsame, begunFile, List.map_map] at hmem
  obtain ⟨bytes, -, heq⟩ := List.mem_map.mp hmem
  have hname : name = file.1 := by simpa using heq
  exact hname ▸ List.mem_map_of_mem hfile

/-- A failure comes from the catalog or, when that is written, from the reports. -/
theorem steps_of_write_error {result : Scan.Result} {out : Place} {disk : State}
    {failure : ε} (h : (writeOn medium unwritten result out disk).2.2 = .error failure) :
    (writeCatalog medium unwritten result out).run.run disk =
        (.error failure, (writeOn medium unwritten result out disk).1) ∨
      ∃ second, (writeCatalog medium unwritten result out).run.run disk = (.ok (), second) ∧
        (writeErrors medium unwritten result out).run.run second =
          (.error failure, (writeOn medium unwritten result out disk).1) := by
  unfold writeOn at h ⊢
  rcases hcatalog : (writeCatalog medium unwritten result out).run.run disk with
    ⟨catalog, second⟩
  cases catalog with
  | error fault =>
      simp only [hcatalog] at h ⊢
      cases h
      exact .inl rfl
  | ok _ =>
      refine .inr ⟨second, rfl, ?_⟩
      simp only [hcatalog] at h ⊢
      rcases herrors : (writeErrors medium unwritten result out).run.run second with
        ⟨errors, after⟩
      simp only [herrors] at h ⊢
      cases errors with
      | error fault =>
          cases h
          rfl
      | ok _ =>
          simp only at h
          split at h <;> cases h

end ContentCatalog.Output

/-! ### A folder in the way of the build, and a medium that is full -/

namespace ContentCatalog.Sample

open Disk Output

/-- The results of a project without any file. -/
def bareResult : Scan.Result :=
  ⟨⟨0, ⟨"/site", "site"⟩, [], 2⟩, ⟨0, ⟨"/site", "site"⟩, [], [], [], 2⟩, []⟩

def bareOut : Place := ⟨.root, ["out"]⟩

/-- A folder of results with an old manifest and a folder in place of the build. -/
def blockedDisk : State :=
  { tree := .folder [("out", .folder [("manifest.json", .file "old".toUTF8),
      ("build.json", .folder [])])] }

/-- What gives no result has failed. -/
theorem exists_failure {ε α : Type} {outcome : Except ε α}
    (h : outcome.toOption.isNone = true) : ∃ failure, outcome = .error failure := by
  cases outcome with
  | ok a => cases h
  | error failure => exact ⟨failure, rfl⟩

/-- A folder in place of the build is noticed when the old manifest is lost. -/
theorem exists_blockedFailure :
    ∃ failure, (write bareResult bareOut blockedDisk).2.result = .error failure ∧
      (write bareResult bareOut blockedDisk).1.tree.fileAt? ["out", "manifest.json"] ≠
        some "old".toUTF8 := by
  have hrun : (write bareResult bareOut blockedDisk).2.result.toOption.isNone = true ∧
      (write bareResult bareOut blockedDisk).1.tree.fileAt? ["out", "manifest.json"] ≠
        some "old".toUTF8 := by
    simp only [write, writeOn, writeCatalog, writeValue, bareOut, Place.parent_child,
      ensureFolder, List.length_cons, List.length_nil, makeFolders, tryFolder, acceptFolder,
      writeFile, openFile, Medium.slot, isFolder, ask, find, guarded, Place.holdsNull_eq]
    decide +kernel
  obtain ⟨failure, hfailure⟩ := exists_failure hrun.1
  exact ⟨failure, hfailure, hrun.2⟩

/-- A medium that takes files of no more than a number of bytes. -/
def cramped (size : Nat) : Medium String where
  failure := Fault.message
  bars := fun _ _ => none
  stops := fun _ _ content => if size < content.size then some (size, "File too large") else none

/-- A folder of old results. -/
def oldDisk : State :=
  { tree := .folder [("out", .folder [("manifest.json", .file "old".toUTF8),
      ("build.json", .file "old".toUTF8)])] }

/-- The manifest fits, and of the build there are as many bytes as are taken. -/
theorem exists_crampedFailure :
    ∃ failure, (writeOn (cramped 120) Json.WriteFault.message bareResult bareOut oldDisk).2.2 =
        .error failure ∧
      ((writeOn (cramped 120) Json.WriteFault.message bareResult bareOut oldDisk).1.tree.fileAt?
        ["out", "build.json"]).map ByteArray.size = some 120 := by
  have hrun : (writeOn (cramped 120) Json.WriteFault.message bareResult bareOut
        oldDisk).2.2.toOption.isNone = true ∧
      ((writeOn (cramped 120) Json.WriteFault.message bareResult bareOut oldDisk).1.tree.fileAt?
        ["out", "build.json"]).map ByteArray.size = some 120 := by
    simp only [writeOn, writeCatalog, writeValue, bareOut, Place.parent_child, ensureFolder,
      List.length_cons, List.length_nil, makeFolders, tryFolder, acceptFolder, writeFile, openFile,
      fillFile, Medium.slot, isFolder, ask, find, guarded, Place.holdsNull_eq]
    decide +kernel
  obtain ⟨failure, hfailure⟩ := exists_failure hrun.1
  exact ⟨failure, hfailure, hrun.2⟩

end ContentCatalog.Sample

namespace ContentCatalog.Output

open Disk

variable {ε : Type} {medium : Medium ε} {unwritten : Json.WriteFault → ε}

/-- **Where the writing of results fails**, whatever the medium stops, it has stopped at the
manifest, at the build or at the reports.  The files of the steps before have their new texts, in
the folder of the results.  The file at which it stopped is as it was, present or absent, unless
the medium gave up while it was written: then it has the first bytes of its new text.  All other
files are as they were, present or absent, those of the later steps among them. -/
theorem write_failed {result : Scan.Result} {out : Place} {disk : State} {failure : ε}
    (h : (writeOn medium unwritten result out disk).2.2 = .error failure) :
    ∃ way files name begun,
      StoppedAt medium unwritten result out disk failure
        (writeOn medium unwritten result out disk).1 files name begun ∧
      (files ≠ [] ∨ begun.isSome → ∃ entries,
        follow [] (writeOn medium unwritten result out disk).1.tree out.parts =
          .ok (way, .folder entries)) ∧
      Overwritten disk.tree (writeOn medium unwritten result out disk).1.tree
        (files.map (fun file => (way ++ [file.1], file.2)) ++ begunFile way name begun) := by
  rcases steps_of_write_error h with hcatalog | ⟨second, hcatalog, herrors⟩
  · rcases run_bind_eq_error hcatalog with hmanifest | ⟨_, first, hmanifest, hbuild⟩
    · obtain ⟨way, begun, hbegun, hfolder, hwritten⟩ := kept_or_begun_of_writeValue hmanifest
      exact ⟨way, [], _, begun, .manifest hmanifest hbegun, by simpa using hfolder, hwritten⟩
    · obtain ⟨manifest, way, entries, htext, hway, hfirst⟩ := written_of_writeValue hmanifest
      obtain ⟨_, begun, hbegun, hfolder, hwritten⟩ := kept_or_begun_of_writeValue hbuild
      have hall := append_begun [(manifestFile, manifest.toUTF8)] hfirst hway hfolder hwritten
        (by simp [manifestFile, buildFile])
      exact ⟨way, _, _, begun, .build hmanifest htext hbuild hbegun, fun _ => hall.1, hall.2⟩
  · obtain ⟨_, first, hmanifest, hbuild⟩ := run_bind_eq_ok hcatalog
    obtain ⟨manifest, way, entries, htext, hway, hfirst⟩ := written_of_writeValue hmanifest
    obtain ⟨build, way', entries', htext', hway', hsecond⟩ := written_of_writeValue hbuild
    obtain ⟨_, begun, hbegun, hclean, hfolder, hwritten⟩ := kept_or_begun_of_writeErrors herrors
    -- Both files were written into the same folder.
    obtain rfl := way_of_kept hsecond.folders hway hway'
    have hboth := hfirst.append hsecond (by simp [manifestFile, buildFile])
    have hall := append_begun [(manifestFile, manifest.toUTF8), (buildFile, build.toUTF8)] hboth
      hway' hfolder hwritten (by simp [manifestFile, buildFile, errorsFile])
    exact ⟨way, _, _, begun, .errors hmanifest htext hbuild htext' herrors hbegun hclean,
      fun _ => hall.1, hall.2⟩

/-- On a medium that takes no more than the manifest, the build is cut. -/
theorem write_failed_sample :
    ∃ failure, (writeOn (Sample.cramped 120) Json.WriteFault.message Sample.bareResult
        Sample.bareOut Sample.oldDisk).2.2 = .error failure ∧
      ∃ way files name begun,
        StoppedAt (Sample.cramped 120) Json.WriteFault.message Sample.bareResult Sample.bareOut
          Sample.oldDisk failure (writeOn (Sample.cramped 120) Json.WriteFault.message
            Sample.bareResult Sample.bareOut Sample.oldDisk).1 files name begun ∧
        (files ≠ [] ∨ begun.isSome → ∃ entries,
          follow [] (writeOn (Sample.cramped 120) Json.WriteFault.message Sample.bareResult
            Sample.bareOut Sample.oldDisk).1.tree Sample.bareOut.parts =
              .ok (way, .folder entries)) ∧
        Overwritten Sample.oldDisk.tree (writeOn (Sample.cramped 120) Json.WriteFault.message
            Sample.bareResult Sample.bareOut Sample.oldDisk).1.tree
          (files.map (fun file => (way ++ [file.1], file.2)) ++ begunFile way name begun) := by
  obtain ⟨failure, hfailed, -⟩ := Sample.exists_crampedFailure
  exact ⟨failure, hfailed, write_failed hfailed⟩

/-- **Failing does not undo** what was written: the old manifest is lost there. -/
theorem not_all_or_nothing :
    ¬ ∀ (result : Scan.Result) (out : Place) (disk : State) (failure : Failure)
      (way : List String) (entries : List (String × Tree)),
      (write result out disk).2.result = .error failure →
      follow [] disk.tree out.parts = .ok (way, .folder entries) →
      ∀ name ∈ [manifestFile, buildFile, errorsFile],
        (write result out disk).1.tree.fileAt? (way ++ [name]) =
          disk.tree.fileAt? (way ++ [name]) := by
  intro hall
  obtain ⟨failure, hfailed, hmanifest⟩ := Sample.exists_blockedFailure
  have hkept := hall _ _ _ failure ["out"] _ hfailed rfl manifestFile (.head _)
  exact hmanifest (hkept.trans (by rfl))

end ContentCatalog.Output
