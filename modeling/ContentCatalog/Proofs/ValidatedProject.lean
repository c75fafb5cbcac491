import ContentCatalog.CommandLine.Run
import ContentCatalog.Proofs.ScannedItems

/-!
# The project that is validated

Without a folder for results among the arguments, the settings say where the persisted build
is looked for.  They are read for the root that was asked for.  If that is no folder, it is
taken for a file of settings, there or not, and the project is the folder around it.

* `projectOf_of_load` : the project of a root, and the folder for results that its settings
  name;
* `exit_runValidate_iff` : when a validation finds nothing wrong;
* `validated_project` : the statement about whole runs.
-/

namespace ContentCatalog

namespace Settings

/-- The file is there and holds settings with these entries. -/
structure HoldsEntries (disk : Tree) (file : Place) (entries : List (Value × Value)) : Prop where
  present : Disk.present disk file = .ok true
  read : ∃ chars, Disk.readText disk file = .ok chars ∧
    decode file.name chars = .ok (.map entries)

/-- The folder for results that a file of settings names: without the file or a text in it,
that is the usual one. -/
inductive NamesFolder (disk : Tree) (file : Place) : String → Prop
  | absent (h : Disk.present disk file = .ok false) : NamesFolder disk file ".frontmatter"
  | unnamed {entries : List (Value × Value)} (h : HoldsEntries disk file entries)
    (hnone : textOf (memberOrNull "out_dir" entries) = .ok none ∨
      textOf (memberOrNull "out_dir" entries) = .ok (some "")) :
    NamesFolder disk file ".frontmatter"
  | named {entries : List (Value × Value)} {text : String} (h : HoldsEntries disk file entries)
    (hsome : textOf (memberOrNull "out_dir" entries) = .ok (some text)) (hne : text ≠ "") :
    NamesFolder disk file text

/-- The folder of a text, as seen from a project.  An absolute one stays as it is given. -/
inductive PlacedAt (around : Surroundings) (project : Place) (text : String) : Place → Prop
  | absolute {place : Place} (h : around.expand (Place.ofText text) = .ok place)
    (habsolute : place.isAbsolute = true) : PlacedAt around project text place
  | relative {place : Place} (h : around.expand (Place.ofText text) = .ok place)
    (hrelative : place.isAbsolute = false) (hnull : (project.join place).holdsNull = false) :
    PlacedAt around project text ⟨.root, Place.withoutDots (project.parts ++ place.parts)⟩

/-- The project of a root, and the file with its settings.  A root that is no folder is taken
for that file. -/
inductive ProjectOf (disk : Tree) (root : Place) : (project file : Place) → Prop
  | folder (h : Disk.isFolder disk root = .ok true) :
    ProjectOf disk root root (root.child settingsFile)
  | file (h : Disk.isFolder disk root = .ok false) : ProjectOf disk root root.parent root

section Load

variable {around : Surroundings} {disk : Tree} {place root file : Place} {settings : Settings}
  {entries : List (Value × Value)}

/-- The entries of settings name the root and the folder for results. -/
theorem namesFolder_of_entries (h : HoldsEntries disk file entries)
    (hsettings : ofEntries root entries = .ok settings) :
    settings.root = root ∧ NamesFolder disk file settings.outFolder := by
  obtain ⟨outFolder, hout, hsettings⟩ := bind_eq_ok_iff.mp hsettings
  obtain ⟨excluded, -, hsettings⟩ := bind_eq_ok_iff.mp hsettings
  obtain ⟨policy, -, hsettings⟩ := bind_eq_ok_iff.mp hsettings
  cases hsettings
  refine ⟨rfl, ?_⟩
  cases outFolder with
  | none => exact .unnamed h (.inl hout)
  | some text =>
      by_cases hne : text = ""
      · subst hne
        exact .unnamed h (.inr hout)
      · rw [Option.filter_some_pos (by simpa using hne)]
        exact .named h hout hne

/-- **Loaded settings** are those of a file, and the project is the folder around it. -/
theorem namesFolder_of_load (h : load around disk place = .ok settings) :
    ∃ file, fileFor around disk place = .ok file ∧ settings.root = file.parent ∧
      NamesFolder disk file settings.outFolder := by
  obtain ⟨file, hfile, h⟩ := bind_eq_ok_iff.mp h
  refine ⟨file, hfile, ?_⟩
  obtain ⟨present, hpresent, h⟩ := bind_eq_ok_iff.mp h
  have hpresent := mapError_eq_ok_iff.mp hpresent
  cases present with
  | false =>
      cases h
      exact ⟨rfl, .absent hpresent⟩
  | true =>
      obtain ⟨chars, hchars, h⟩ := bind_eq_ok_iff.mp h
      obtain ⟨value, hvalue, h⟩ := bind_eq_ok_iff.mp h
      cases value with
      | map entries => exact namesFolder_of_entries ⟨hpresent, chars, hchars, hvalue⟩ h
      | _ => cases h

/-- The file with the settings of a resolved root. -/
theorem projectOf_of_fileFor (hroot : root.Resolved) (h : fileFor around disk root = .ok file) :
    ProjectOf disk root file.parent file := by
  have hexpand : around.expand root = .ok root := by
    rw [Surroundings.expand]
    split
    · next hanchor _ =>
        rw [hroot.anchor] at hanchor
        cases hanchor
    · rfl
  rw [fileFor, hexpand, bind_ok] at h
  obtain ⟨isRoot, hfolder, hfile⟩ := bind_eq_ok_iff.mp h
  rw [Place.join_of_isAbsolute hroot.isAbsolute] at hfolder hfile
  have hfolder := mapError_eq_ok_iff.mp hfolder
  obtain ⟨-, rfl⟩ := resolve_eq_ok_iff.mp hfile
  cases isRoot with
  | true =>
      have hchild : (root.child settingsFile).Resolved := by
        refine ⟨hroot.anchor, ?_⟩
        rw [Place.child, List.mem_append, not_or]
        exact ⟨hroot.noDots, by decide⟩
      rw [if_pos rfl, hchild.resolve_eq, Place.parent_child]
      exact .folder hfolder
  | false =>
      rw [if_neg (by decide), hroot.resolve_eq]
      exact .file hfolder

/-- **The settings of a resolved root** are those of its file, and belong to its project. -/
theorem projectOf_of_load (hroot : root.Resolved) (h : load around disk root = .ok settings) :
    ∃ file, ProjectOf disk root settings.root file ∧ NamesFolder disk file settings.outFolder := by
  obtain ⟨file, hfile, hparent, hnames⟩ := namesFolder_of_load h
  rw [hparent]
  exact ⟨file, projectOf_of_fileFor hroot hfile, hnames⟩

/-- Results are placed by the project and the text of the settings. -/
theorem outPlace_eq_ok_iff (hroot : settings.root.Resolved) {out : Place} :
    settings.outPlace around = .ok out ↔
      PlacedAt around settings.root settings.outFolder out := by
  have hresolve : ∀ {place : Place}, place.isAbsolute = false →
      (around.resolve (settings.root.join place) = .ok out ↔
        (settings.root.join place).holdsNull = false ∧
          ⟨.root, Place.withoutDots (settings.root.parts ++ place.parts)⟩ = out) := by
    intro place hplace
    rw [resolve_eq_ok_iff, Place.resolve,
      Place.join_of_isAbsolute (Place.isAbsolute_join hroot.isAbsolute place), Place.join,
      if_neg (by rw [hplace]; decide)]
  rw [outPlace, bind_eq_ok_iff]
  constructor
  · rintro ⟨place, hplace, hout⟩
    split at hout
    · next habsolute =>
        cases hout
        exact .absolute hplace habsolute
    · next hnot =>
        have hrelative := Bool.eq_false_iff.mpr hnot
        obtain ⟨hnull, rfl⟩ := (hresolve hrelative).mp hout
        exact .relative hplace hrelative hnull
  · intro h
    cases h with
    | absolute hplace habsolute => exact ⟨out, hplace, by rw [if_pos habsolute]; rfl⟩
    | @relative place hplace hrelative hnull =>
        refine ⟨place, hplace, ?_⟩
        rw [if_neg (by rw [hrelative]; decide)]
        exact (hresolve hrelative).mpr ⟨hnull, rfl⟩

end Load

end Settings

namespace CommandLine

/-! ### Validations -/

section Validate

variable {around : Surroundings} {disk : Disk.State} {out : Place}

/-- **A validation finds nothing wrong** if the persisted build is there and has no defects. -/
theorem exit_runValidate_iff :
    (runValidate around disk out).ending = .exit 0 ↔
      ∃ record, Output.readBuild disk.tree out = .ok record ∧ defectReports record = .ok [] := by
  rw [runValidate]
  cases hbuild : Output.readBuild disk.tree out with
  | error failure =>
      cases hwords : validateWords? around.here out failure <;> simp [hwords, invalidCode]
  | ok record =>
      cases hreports : defectReports record with
      | error fault => simp [hreports]
      | ok reports => cases reports <;> simp [hreports, invalidCode]

/-- The persisted build is a file. -/
theorem exists_file_of_readBuild {disk : Tree} {record : Value}
    (h : Output.readBuild disk out = .ok record) :
    ∃ content, Disk.find disk (out.child Output.buildFile) = .ok (.file content) := by
  obtain ⟨chars, hchars, -⟩ := bind_eq_ok_iff.mp h
  obtain ⟨content, hcontent, -⟩ := bind_eq_ok_iff.mp hchars
  obtain ⟨tree, htree, hfile⟩ := bind_eq_ok_iff.mp (mapError_eq_ok_iff.mp hcontent)
  cases tree with
  | file content => exact ⟨content, htree⟩
  | folder entries => cases hfile

/-- What a validation that finds nothing wrong has gone by: the settings of the root, the
folder for results, and the build in it. -/
structure Validated (around : Surroundings) (disk : Tree) (root : Place) (settings : Settings)
    (out : Place) (record : Value) : Prop where
  loaded : Settings.load around disk root = .ok settings
  project : ∃ file, Settings.ProjectOf disk root settings.root file ∧
    Settings.NamesFolder disk file settings.outFolder
  placed : Settings.PlacedAt around settings.root settings.outFolder out
  file : ∃ content, Disk.find disk (out.child Output.buildFile) = .ok (.file content)
  build : Output.readBuild disk out = .ok record
  sound : defectReports record = .ok []

/-- The project of a resolved root is resolved. -/
theorem resolved_of_projectOf {disk : Tree} {root project file : Place} (hroot : root.Resolved)
    (h : Settings.ProjectOf disk root project file) : project.Resolved := by
  cases h with
  | folder _ => exact hroot
  | file _ => exact ⟨hroot.anchor, fun hm => hroot.noDots (List.dropLast_subset _ hm)⟩

/-- Without a folder for results among the arguments, the settings decide on it. -/
theorem prepare_eq_ok_iff {disk : Tree} {given : Given} {root : Place} {settings : Settings}
    (hout : pathGiven given.out = none) :
    prepare around disk given = .ok (root, settings, out) ↔
      rootPlace around given = .ok root ∧ Settings.load around disk root = .ok settings ∧
        settings.outPlace around = .ok out := by
  rw [prepare, hout]
  simp only [bind_eq_ok_iff]
  constructor
  · rintro ⟨place, hplace, given, hgiven, folder, hfolder, heq⟩
    cases heq
    exact ⟨hplace, hgiven, hfolder⟩
  · rintro ⟨hroot, hsettings, hfolder⟩
    exact ⟨root, hroot, settings, hsettings, out, hfolder, rfl⟩

end Validate

/-- **A validation without a folder for results** finds nothing wrong exactly if the root can
be located, its settings can be loaded, and in the folder that these name there is a build
without defects.  Where the root is a folder, the settings are those in it, and a folder for
results is relative to it.  Else the root is taken for a file of settings, which may be missing,
and the folder around it for the project; so it is whenever settings are loaded. -/
theorem validated_project {around : Surroundings} {disk : Disk.State} {micros : Int}
    {line : List String} {arguments : Arguments} (hread : read line = .ok arguments)
    (hcommand : arguments.command = .validate) (hout : pathGiven arguments.given.out = none) :
    ((run around disk micros line).ending = .exit 0 ↔
      ∃ root settings out record, rootPlace around arguments.given = .ok root ∧
        Validated around disk.tree root settings out record) ∧
      ∀ root settings, rootPlace around arguments.given = .ok root →
        Settings.load around disk.tree root = .ok settings →
        ∃ file, Settings.ProjectOf disk.tree root settings.root file := by
  have hrun : (run around disk micros line).ending = .exit 0 ↔
      ∃ root settings out,
        prepare around disk.tree arguments.given = .ok (root, settings, out) ∧
          (runValidate around disk out).ending = .exit 0 := by
    rw [run, hread]
    simp only [hcommand]
    cases hprepare : prepare around disk.tree arguments.given with
    | error failure => cases failure <;> simp [failureCode]
    | ok prepared =>
        obtain ⟨root, settings, out⟩ := prepared
        simp
  rw [hrun]
  refine ⟨⟨?_, ?_⟩, fun root settings hroot hload => ?_⟩
  · rintro ⟨root, settings, out, hprepare, hexit⟩
    obtain ⟨hroot, hload, hplace⟩ := (prepare_eq_ok_iff hout).mp hprepare
    obtain ⟨record, hbuild, hsound⟩ := exit_runValidate_iff.mp hexit
    have hresolved := resolved_of_locate hroot
    obtain ⟨file, hproject, hnames⟩ := Settings.projectOf_of_load hresolved hload
    refine ⟨root, settings, out, record, hroot, ?_⟩
    exact
      { loaded := hload
        project := ⟨file, hproject, hnames⟩
        placed := (Settings.outPlace_eq_ok_iff (resolved_of_projectOf hresolved hproject)).mp hplace
        file := exists_file_of_readBuild hbuild
        build := hbuild
        sound := hsound }
  · rintro ⟨root, settings, out, record, hroot, hvalid⟩
    obtain ⟨file, hproject, -⟩ := hvalid.project
    have hresolved := resolved_of_projectOf (resolved_of_locate hroot) hproject
    refine ⟨root, settings, out, (prepare_eq_ok_iff hout).mpr ⟨hroot, hvalid.loaded, ?_⟩,
      exit_runValidate_iff.mpr ⟨record, hvalid.build, hvalid.sound⟩⟩
    exact (Settings.outPlace_eq_ok_iff hresolved).mpr hvalid.placed
  · obtain ⟨file, hproject, -⟩ := Settings.projectOf_of_load (resolved_of_locate hroot) hload
    exact ⟨file, hproject⟩

end CommandLine

/-! ### A root that is not there -/

namespace Sample

/-- A disk with a build in the usual folder at its top. -/
def builtDisk : Disk.State :=
  { tree := .folder [(".frontmatter", .folder [("build.json", .file (String.toUTF8
      ("\x7b\"schemaVersion\": 2, \"project\": \x7b\"root\": \"/x\", \"name\": \"x\"\x7d, "
        ++ "\"pages\": [], \"componentsIndex\": \x7b\x7d, \"datasets\": []\x7d")))])] }

/-- A validation for a folder that is not on the disk. -/
def missingLine : List String := ["validate", "--root", "missing"]

def missingArguments : CommandLine.Arguments := ⟨.validate, { root := some "missing" }⟩

theorem read_missingLine : CommandLine.read missingLine = .ok missingArguments := rfl

/-- The settings for the root, which is taken for a file that is missing. -/
theorem prepare_missing :
    CommandLine.prepare around builtDisk.tree missingArguments.given =
      .ok (⟨.root, ["missing"]⟩, { root := ⟨.root, []⟩ }, ⟨.root, [".frontmatter"]⟩) := by
  simp only [CommandLine.prepare, CommandLine.rootPlace, Surroundings.locate,
    Surroundings.resolve, Settings.load, Settings.fileFor, Settings.outPlace, Disk.isFolder,
    Disk.present, Disk.ask, Disk.find, Disk.guarded, Place.holdsNull_eq]
  rfl

/-- Above the missing root there is a build without a defect. -/
theorem exists_builtRecord :
    ∃ record, Output.readBuild builtDisk.tree ⟨.root, [".frontmatter"]⟩ = .ok record ∧
      (defectReports record).toOption = some [] := by
  refine exists_ended ?_
  simp only [Output.readBuild, Disk.readText, Disk.readBytes, Disk.find, Disk.guarded,
    Place.holdsNull_eq]
  decide +kernel

/-- So the run ends well. -/
theorem exit_missingLine :
    (CommandLine.run around builtDisk 0 missingLine).ending = .exit 0 := by
  obtain ⟨record, hbuild, hreports⟩ := exists_builtRecord
  have hsound : defectReports record = .ok [] := by
    cases hdefects : defectReports record with
    | error fault =>
        rw [hdefects] at hreports
        cases hreports
    | ok reports =>
        rw [hdefects] at hreports
        rw [Option.some.inj hreports]
  rw [CommandLine.run, read_missingLine]
  simp only [prepare_missing]
  exact CommandLine.exit_runValidate_iff.mpr ⟨record, hbuild, hsound⟩

end Sample

namespace CommandLine

/-- For a root that is not there, the build beside it is validated. -/
theorem validated_project_sample :
    ∃ root settings out record,
      rootPlace Sample.around Sample.missingArguments.given = .ok root ∧
        Validated Sample.around Sample.builtDisk.tree root settings out record ∧
        settings.root = root.parent := by
  obtain ⟨root, settings, out, record, hroot, hvalid⟩ :=
    (validated_project Sample.read_missingLine rfl rfl).1.mp Sample.exit_missingLine
  obtain ⟨hplace, hload, -⟩ := (prepare_eq_ok_iff rfl).mp Sample.prepare_missing
  obtain rfl := Except.ok.inj (hplace.symm.trans hroot)
  obtain rfl := Except.ok.inj (hload.symm.trans hvalid.loaded)
  exact ⟨_, _, out, record, hroot, hvalid, rfl⟩

end CommandLine

end ContentCatalog
