import ContentCatalog.Proofs.MergedKeys
import ContentCatalog.Proofs.PathSegments
import ContentCatalog.Proofs.ScanStages
import ContentCatalog.Proofs.WalkedFiles

/-!
# Items of a scan

Every item of a scan is a file that the walk found below the root, under a key
that is worked out from its absolute path.

* `mem_itemsOf` : an item is a file of the walk, and lies under a source folder;
* `lastSegment_key` : the last segment of a key is a segment of the file's path, so
  it is neither empty nor hidden;
* `datasetName_ne_nil` : a dataset always has an identifier.
-/

namespace ContentCatalog

namespace Path

open Text

/-- Cutting a suffix leaves something of a text that does not begin with a dot. -/
theorem cutSuffix_ne_nil (words : List (List Char)) {text : List Char} (hne : text ≠ [])
    (hdot : text.head? ≠ some '.') : cutSuffix words text ≠ [] := by
  have hbefore : beforeSuffix? words text ≠ some [] := by
    intro h
    unfold beforeSuffix? at h
    simp only at h
    split at h
    · cases h
    · next c before heq =>
        split at h
        · rw [Option.some.injEq, List.reverse_eq_nil_iff] at h
          subst h
          have hc : (c != '.') = false := by
            have := List.head?_dropWhile_not (fun c => c != '.') text.reverse
            rw [heq] at this
            simpa using this
          have hlast : text.reverse.getLast? = some c := by
            rw [← List.takeWhile_append_dropWhile (p := fun c => c != '.') (l := text.reverse), heq,
              List.getLast?_append]
            rfl
          rw [List.getLast?_reverse] at hlast
          exact hdot (by rw [hlast]; simpa using hc)
        · cases h
  unfold cutSuffix
  split
  · cases h : beforeSuffix? words _ with
    | none => simpa using hne
    | some before => simp
  · cases h : beforeSuffix? words text with
    | none => simpa using hne
    | some before =>
        intro heq
        subst heq
        exact hbefore h

end Path

/-! ### Located places -/

/-- A place without null characters can be resolved. -/
theorem resolve_eq_ok_iff {around : Surroundings} {place other : Place} :
    around.resolve place = .ok other ↔
      (around.here.join place).holdsNull = false ∧ Place.resolve around.here place = other := by
  rw [Surroundings.resolve]
  cases (around.here.join place).holdsNull <;> simp

/-- A place that the surroundings resolve is resolved. -/
theorem resolved_of_resolve {around : Surroundings} {place other : Place}
    (h : around.resolve place = .ok other) : other.Resolved := by
  rw [← (resolve_eq_ok_iff.mp h).2]
  exact Place.resolved_resolve around.here place

/-- So is one that they locate. -/
theorem resolved_of_locate {around : Surroundings} {path : String} {place : Place}
    (h : around.locate path = .ok place) : place.Resolved := by
  obtain ⟨expanded, -, hresolve⟩ := bind_eq_ok_iff.mp h
  exact resolved_of_resolve hresolve

namespace Scan

open Text

/-! ### Collected files -/

/-- The key of an item is its path below the root. -/
theorem itemAt_key (root : Place) (file : Disk.Found) :
    (itemAt root file).key =
      Path.relativeTo root.text.toList (root.below (String.ofList file.path)).text.toList := by
  simp only [itemAt]

theorem itemAt_place (root : Place) (file : Disk.Found) :
    (itemAt root file).place = root.below (String.ofList file.path) := by
  simp only [itemAt]

/-- An item of a scan is a file of the walk, under its key. -/
theorem mem_itemsOf {root : Place} {found : List Disk.Found} {item : Item}
    (h : item ∈ itemsOf root found) :
    Path.isUnderSource item.key = true ∧ ∃ file ∈ found, item = itemAt root file := by
  obtain ⟨hm, hu⟩ := List.mem_filter.mp h
  obtain ⟨entry, he, heq⟩ := List.mem_map.mp hm
  obtain ⟨file, hf, hfile⟩ := List.mem_map.mp (Dictionary.mem_ofEntries he)
  subst hfile
  exact ⟨hu, file, hf, heq.symm⟩

/-- Items under different keys are all kept. -/
theorem itemsOf_of_pairwise {root : Place} {found : List Disk.Found}
    (h : found.Pairwise fun a b => (itemAt root a).key ≠ (itemAt root b).key) :
    itemsOf root found =
      (found.map (itemAt root)).filter fun item => Path.isUnderSource item.key := by
  have step : ∀ item : Disk.Found → Item, found.Pairwise (fun a b => (item a).key ≠ (item b).key) →
      (Dictionary.ofEntries (found.map fun file => ((item file).key, item file))).map Prod.snd =
        found.map item := by
    intro item hp
    have hkeys : (Dictionary.keys (found.map fun file => ((item file).key, item file))).Nodup := by
      rw [Dictionary.keys, List.map_map]
      exact List.pairwise_map.mpr hp
    rw [Dictionary.ofEntries_of_nodup hkeys, List.map_map]
    rfl
  rw [itemsOf, step (itemAt root) h]

/-- What the walk takes is tracked and has no hidden segment. -/
theorem accept_of_mem_walk {root out : Place} {settings : Settings} {folder : Tree}
    {file : Disk.Found} (h : file ∈ Disk.walk (filter root out settings) folder) :
    Path.isHidden file.path = false ∧ Path.isTracked file.path = true := by
  have ht := Disk.takes_of_mem_walk h
  rw [Disk.Filter.takes, Bool.and_eq_true] at ht
  have ha := ht.2
  rw [filter, Bool.and_eq_true, Bool.not_eq_true'] at ha
  exact ha

/-- No path under a source folder is empty. -/
theorem ne_nil_of_isUnderSource {path : List Char} (h : Path.isUnderSource path = true) :
    path ≠ [] := by
  intro hnil
  subst hnil
  exact absurd h (by decide)

/-- **The last segment of a key** is neither empty nor hidden, if the walk takes the
file: it is a segment of the file's path. -/
theorem lastSegment_key {root : Place} {file : Disk.Found}
    (hh : Path.isHidden file.path = false) (ht : Path.isTracked file.path = true)
    (hk : (itemAt root file).key ≠ []) :
    ∃ last, Path.lastSegment (itemAt root file).key = last ∧ last ≠ [] ∧
      Path.isHiddenSegment last = false := by
  obtain ⟨path, content⟩ := file
  obtain ⟨last, hlast⟩ := exists_getLast?_segments '/' (Path.normalize path)
  have hne : last ≠ [] := Path.last_ne_nil_of_isTracked ht hlast
  have hvis : Path.isHiddenSegment last = false := by
    rw [Path.isHidden, List.any_eq_false] at hh
    simpa using hh last (List.mem_of_getLast? hlast)
  have hplace := Place.getLast?_below root hlast hne hvis
  have hkey : (segments '/' (Path.normalize (itemAt root ⟨path, content⟩).key)).getLast? =
      some last := by
    rw [itemAt_key] at hk
    rw [itemAt_key, Path.normalize_relativeTo]
    rcases Path.relativeTo_cases root.text.toList
      (root.below (String.ofList path)).text.toList with h | h | ⟨before, h⟩
    · exact absurd h hk
    · rw [h, hplace]
    · rw [h, getLast?_segments_append] at hplace
      exact hplace
  exact ⟨last, Path.lastSegment_eq hkey hne, hne, hvis⟩

/-- The identifier of a dataset is never empty. -/
theorem datasetName_ne_nil {root : Place} {file : Disk.Found}
    (hh : Path.isHidden file.path = false) (ht : Path.isTracked file.path = true)
    (hk : (itemAt root file).key ≠ []) : Path.datasetName (itemAt root file).key ≠ [] := by
  obtain ⟨last, hlast, hne, hvis⟩ := lastSegment_key hh ht hk
  have hdot : last.head? ≠ some '.' := by
    intro h
    obtain ⟨rest, hr⟩ := List.head?_eq_some_iff.mp h
    rw [hr] at hvis
    exact absurd hvis (by simp [Path.isHiddenSegment])
  rw [Path.datasetName, hlast]
  cases last with
  | nil => exact absurd rfl hne
  | cons c rest => exact Path.cutSuffix_ne_nil Path.datasetWords hne hdot

end Scan

/-! ### A small project -/

namespace Sample

/-- A page, and a data file that is no document. -/
def folder : Tree :=
  .folder [("src", .folder [("data", .folder [("a.yml", .file ⟨#[91]⟩)]),
    ("pages", .folder [("b.md", .file ⟨#[35, 98]⟩)])])]

/-- The disk with the project. -/
def disk : Tree :=
  .folder [("site", folder)]

/-- The project's root. -/
def root : Place := ⟨.root, ["site"]⟩

/-- The folder for results. -/
def out : Place := ⟨.root, ["site", ".frontmatter"]⟩

/-- Someone who stands at the top. -/
def around : Surroundings := { here := ⟨.root, []⟩, home := ⟨.root, []⟩ }

/-- The settings under a policy. -/
def settings (policy : Policy) : Settings := { root := root, policy := policy }

/-- A scan of the project under a policy. -/
def request (policy : Policy) : Scan.Request :=
  { root := "/site", settings := some (settings policy), micros := 0 }

/-- The names of the sample's files and folders. -/
def names : List String := ["site", "src", "data", "a.yml", "pages", "b.md"]

/-- The names of the sample have every property that its five names have. -/
theorem named_folder {p : String → Prop} (h : ∀ name ∈ names, p name) : folder.Named p := by
  have hentry : ∀ {name : String} {tree : Tree}, name ∈ names → tree.Named p →
      (Tree.folder [(name, tree)]).Named p := by
    intro name tree hname htree
    exact .folder (by simp) (by simpa using h name hname) (by simpa using htree)
  refine hentry (by decide) (.folder (by decide) ?_ ?_)
  · intro entry hm
    rcases List.mem_cons.mp hm with heq | hm
    · rw [heq]
      exact h "data" (by decide)
    · rw [List.mem_singleton.mp hm]
      exact h "pages" (by decide)
  · intro entry hm
    rcases List.mem_cons.mp hm with heq | hm
    · rw [heq]
      exact hentry (by decide) (.file _)
    · rw [List.mem_singleton.mp hm]
      exact hentry (by decide) (.file _)

theorem named_disk {p : String → Prop} (h : ∀ name ∈ names, p name) : disk.Named p :=
  .folder (by simp) (by simpa using h "site" (by decide)) (by simpa using named_folder h)

theorem opened (policy : Policy) :
    Scan.Opened around disk (request policy) root out folder (settings policy) where
  located := by
    simp only [request, Surroundings.locate, Surroundings.resolve, Place.holdsNull_eq]
    rfl
  found := by
    simp only [Disk.findFolder, Disk.find, Disk.guarded, Place.holdsNull_eq]
    rfl
  settled := rfl
  placed := by
    simp only [request, Scan.Request.outAt, Settings.outPlace, Surroundings.resolve,
      Place.holdsNull_eq]
    cases policy <;> rfl

/-- The scan that reports comes to an end, with a report of the data file. -/
theorem exists_result :
    ∃ result, (Scan.run around disk (request .report)).result = .ok result ∧
      ∃ report, result.errors = [report] ∧ "Failed to decode ".toList <+: report.toList := by
  have hreports : (Scan.run around disk (request .report)).result.toOption.map (fun result =>
      result.errors.map fun report => "Failed to decode ".toList.isPrefixOf report.toList) =
        some [true] := by
    rw [Scan.run_of_opened (opened .report), Scan.result_scanFolder, Disk.walk, folder,
      Disk.walkFrom_subfolder (by decide +kernel),
      Disk.walkFrom_folder, Disk.sorted_of_pairwise (by decide)]
    decide +kernel
  cases h : (Scan.run around disk (request .report)).result with
  | error failure =>
      rw [h] at hreports
      cases hreports
  | ok result =>
      rw [h] at hreports
      obtain ⟨report, herrors, hreport⟩ := List.map_eq_singleton_iff.mp (Option.some.inj hreports)
      exact ⟨result, rfl, report, herrors, List.isPrefixOf_iff_prefix.mp hreport⟩

end Sample

end ContentCatalog
