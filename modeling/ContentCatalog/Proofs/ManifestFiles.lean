import ContentCatalog.Proofs.ScannedItems
import ContentCatalog.Proofs.WalkOrder

/-!
# Files of a manifest

Which files a manifest lists, under which keys and in which order, said by the names
that lead from the root to a file.  The folder for results is left out where its path
is the path of a folder, character by character: for a place in canonical form that
is the folder itself, but an absolute place with double dots is not recognised.

* `key_itemAt` : the key of an item is its path below the root;
* `leftOut_iff` : when a folder counts as the one for results;
* `reaches_iff_listed` : the walk reaches the listed files;
* `manifest_files` : the statement about whole scans.
-/

namespace ContentCatalog.Scan

open Text

/-! ### Keys -/

/-- What is found at a place is what its names lead to, and none of them has a null
character. -/
theorem follow_of_find {disk found : Tree} {place : Place} (h : Disk.find disk place = .ok found) :
    place.holdsNull = false ∧ ∃ way, Disk.follow [] disk place.parts = .ok (way, found) := by
  obtain ⟨hnull, -, hfound⟩ := Disk.guarded_eq_ok_iff.mp h
  obtain ⟨⟨way, tree⟩, hway, heq⟩ := map_eq_ok_iff.mp hfound
  exact ⟨hnull, way, by rw [hway, ← heq]⟩

/-- The root that a scan has opened is canonical. -/
theorem canonical_root {around : Surroundings} {disk : Tree} {request : Request}
    {root out : Place} {folder : Tree} {settings : Settings}
    (opened : Opened around disk request root out folder settings) (hdisk : disk.Named IsName) :
    root.Canonical ∧ folder.Named IsName := by
  have hresolved := resolved_of_locate opened.located
  obtain ⟨hfind, -⟩ := find_of_findFolder opened.found
  obtain ⟨-, way, hway⟩ := follow_of_find hfind
  obtain ⟨hnames, hnamed⟩ := names_of_follow hdisk hresolved.noDots hway
  exact ⟨⟨hresolved.anchor, hnames⟩, hnamed⟩

section Keys

variable {root out : Place} {names : List String}

/-- The root by its names, without backslashes. -/
theorem normalize_root (hroot : root.Canonical) (hback : '\\' ∉ root.text.toList) :
    Path.withoutEndSlashes (Path.normalize root.text.toList) = stem root.parts ∧
      Path.normalize (stem root.parts) = stem root.parts := by
  rw [Path.normalize_of_no_backslash hback, withoutEndSlashes_text hroot]
  refine ⟨rfl, ?_⟩
  by_cases hne : root.parts = []
  · rw [hne]
    rfl
  · rw [← text_eq_stem hroot hne, Path.normalize_of_no_backslash hback]

/-- The text of the place of a file below the root. -/
theorem text_below (hroot : root.Canonical) (hn : ∀ name ∈ names, IsName name)
    (hne : names ≠ []) :
    (root.below (String.ofList (pathOf names))).text.toList =
      stem root.parts ++ '/' :: pathOf names := by
  rw [below_pathOf hroot hn hne, text_eq_stem (canonical_append hroot hn) (by simp [hne]),
    stem_append, stem_eq_pathOf hne]

/-- **The key of an item** is its path below the root. -/
theorem key_itemAt (hroot : root.Canonical) (hback : '\\' ∉ root.text.toList)
    (hn : ∀ name ∈ names, IsName name) (hb : ∀ name ∈ names, '\\' ∉ name.toList)
    (hne : names ≠ []) (content : ByteArray) :
    (itemAt root ⟨pathOf names, content⟩).key = pathOf names := by
  obtain ⟨hbase, hstem⟩ := normalize_root hroot hback
  rw [itemAt_key]
  apply Path.relativeTo_of_under
  rw [text_below hroot hn hne, hbase, Path.normalize_append, Path.normalize_slash, hstem,
    normalize_pathOf hb]

/-- The path of the folder for results is the path of this folder. -/
def LeftOut (root out : Place) (above : List String) : Prop :=
  Path.normalize out.text.toList = (Place.text ⟨.root, root.parts ++ above⟩).toList

/-- The folder is the one for results. -/
def IsOutFolder (here root out : Place) (above : List String) : Prop :=
  root.parts ++ above = (Place.resolve here out).parts

/-- For a canonical place that is the folder itself. -/
theorem leftOut_iff_isOutFolder (hroot : root.Canonical) (hout : out.Canonical)
    (hback : '\\' ∉ out.text.toList) (hn : ∀ name ∈ names, IsName name) (hne : names ≠ [])
    (here : Place) : LeftOut root out names ↔ IsOutFolder here root out names := by
  rw [IsOutFolder, hout.resolved.resolve_eq]
  have hcanonical := canonical_append hroot hn
  have hfull : root.parts ++ names ≠ [] := by simp [hne]
  rw [LeftOut, Path.normalize_of_no_backslash hback, text_eq_stem hcanonical hfull]
  constructor
  · intro h
    by_cases hparts : out.parts = []
    · have hslash : out.text.toList = ['/'] := by
        obtain ⟨anchor, parts⟩ := out
        obtain ⟨hanchor, -⟩ := hout
        simp only at hanchor hparts
        rw [hanchor, hparts]
        rfl
      rw [hslash, stem_eq_pathOf hfull] at h
      exact absurd (List.cons.inj h).2.symm (pathOf_ne_nil hcanonical.names hfull)
    · rw [text_eq_stem hout hparts] at h
      exact (stem_injective hout.names hcanonical.names h).symm
  · intro h
    rw [text_eq_stem hout (by rw [← h]; exact hfull), h]

/-- The folder for results is not known by a path with double dots. -/
example : IsOutFolder ⟨.root, []⟩ ⟨.root, ["home"]⟩ ⟨.root, ["home", "src", "..", "gen"]⟩ ["gen"] ∧
    ¬ LeftOut ⟨.root, ["home"]⟩ ⟨.root, ["home", "src", "..", "gen"]⟩ ["gen"] := by
  unfold IsOutFolder LeftOut
  decide

/-- The text of an absolute place begins with a slash. -/
theorem text_of_isAbsolute {place : Place} (h : place.isAbsolute = true) :
    ∃ rest, place.text.toList = '/' :: rest := by
  obtain ⟨anchor, parts⟩ := place
  cases anchor with
  | relative => cases h
  | root => exact ⟨("/".intercalate parts).toList, by simp [Place.text]⟩
  | doubleRoot => exact ⟨'/' :: ("/".intercalate parts).toList, by simp [Place.text]⟩

/-- **A folder is left out** where its path below the root is that of the folder for
results as seen from there. -/
theorem leftOut_iff (hroot : root.Canonical) (hback : '\\' ∉ root.text.toList)
    (hout : out.isAbsolute = true) (hn : ∀ name ∈ names, IsName name) (hne : names ≠ []) :
    pathOf names = Path.relativeTo root.text.toList out.text.toList ↔ LeftOut root out names := by
  obtain ⟨hbase, -⟩ := normalize_root hroot hback
  have hfolder : (Place.text ⟨.root, root.parts ++ names⟩).toList =
      stem root.parts ++ '/' :: pathOf names := by
    rw [text_eq_stem (canonical_append hroot hn) (by simp [hne]), stem_append,
      stem_eq_pathOf hne]
  rw [LeftOut, hfolder]
  constructor
  · intro h
    rw [Path.relativeTo, hbase] at h
    split at h
    · exact absurd h (pathOf_ne_nil hn hne)
    · cases hrest : afterStart? (stem root.parts ++ ['/']) (Path.normalize out.text.toList) with
      | some rest =>
          rw [hrest] at h
          have hpath : pathOf names = rest := h
          rw [afterStart?_eq_some_iff.mp hrest, hpath, List.append_assoc]
          rfl
      | none =>
          rw [hrest] at h
          have hpath : pathOf names = Path.normalize out.text.toList := h
          obtain ⟨rest, htext⟩ := text_of_isAbsolute hout
          refine absurd ?_ (head_pathOf hn)
          rw [hpath, htext]
          rfl
  · intro h
    refine (Path.relativeTo_of_under ?_).symm
    rw [h, hbase]

end Keys

/-! ### Listed files -/

/-- What is asked of the names that lead to a file for a scan to list it.  The folders
on the way are given by the names that lead to them, the root not counted. -/
structure Listed (settings : Settings) (isOut : List String → Prop) (names : List String) :
    Prop where
  visible : ∀ name ∈ names, Path.isHiddenSegment name.toList = false
  notModules : "node_modules" ∉ names.dropLast
  notOut : ∀ above, above ≠ [] → above <+: names.dropLast → ¬ isOut above
  fileKept : Exclusion.excludes (Exclusion.ofPatterns (settings.excluded.map String.toList))
    (pathOf names) false = false
  foldersKept : ∀ above, above ≠ [] → above <+: names.dropLast →
    Exclusion.excludes (Exclusion.ofPatterns (settings.excluded.map String.toList))
      (pathOf above) true = false
  tracked : ∃ suffix ∈ Path.trackedSuffixes, ∃ start, lower (pathOf names) = start ++ suffix
  source : "src" ∈ names.dropLast

section Listed

variable {root out : Place} {settings : Settings} {names : List String}

/-- When the walk takes a file. -/
theorem takes_iff (hn : ∀ name ∈ names, IsName name) (hb : ∀ name ∈ names, '\\' ∉ name.toList)
    (hne : names ≠ []) :
    (filter root out settings).takes (pathOf names) = true ↔
      Exclusion.excludes (Exclusion.ofPatterns (settings.excluded.map String.toList))
          (pathOf names) false = false ∧
        (∀ name ∈ names, Path.isHiddenSegment name.toList = false) ∧
        ∃ suffix ∈ Path.trackedSuffixes, ∃ start, lower (pathOf names) = start ++ suffix := by
  rw [Disk.Filter.takes, Bool.and_eq_true, Bool.not_eq_true', filter]
  simp only [Bool.and_eq_true, Bool.not_eq_true', isHidden_pathOf hn hb hne, Path.isTracked_iff,
    normalize_pathOf hb]

variable (settings) in
/-- When the walk enters a folder. -/
theorem enters_iff (hroot : root.Canonical) (hback : '\\' ∉ root.text.toList)
    (hout : out.isAbsolute = true) {upper : List String} {name : String}
    (hn : ∀ other ∈ upper ++ [name], IsName other)
    (hb : ∀ other ∈ upper ++ [name], '\\' ∉ other.toList) :
    (filter root out settings).enters name (pathOf (upper ++ [name])) = true ↔
      name ∉ Disk.closedFolders ∧
        (∀ other ∈ upper ++ [name], Path.isHiddenSegment other.toList = false) ∧
        ¬ LeftOut root out (upper ++ [name]) ∧
        Exclusion.excludes (Exclusion.ofPatterns (settings.excluded.map String.toList))
          (pathOf (upper ++ [name])) true = false := by
  have hne : upper ++ [name] ≠ [] := by simp
  rw [Disk.Filter.enters, filter]
  simp only [Bool.and_eq_true, Bool.not_eq_true', Bool.or_eq_false_iff, beq_eq_false_iff_ne,
    isHidden_pathOf hn hb hne, ne_eq, leftOut_iff hroot hback hout hn hne,
    List.contains_eq_mem, decide_eq_false_iff_not, and_assoc]

/-- When the walk enters all folders on the way to a file. -/
theorem entersAll_iff (hroot : root.Canonical) (hback : '\\' ∉ root.text.toList)
    (hout : out.isAbsolute = true) (hn : ∀ name ∈ names, IsName name)
    (hb : ∀ name ∈ names, '\\' ∉ name.toList) :
    (∀ upper name, upper ++ [name] <+: names.dropLast →
        (filter root out settings).enters name (Disk.pathBelow [] (upper ++ [name])) = true) ↔
      (∀ name ∈ names.dropLast, name ∉ Disk.closedFolders) ∧
        (∀ name ∈ names.dropLast, Path.isHiddenSegment name.toList = false) ∧
        ∀ above, above ≠ [] → above <+: names.dropLast →
          ¬ LeftOut root out above ∧
            Exclusion.excludes (Exclusion.ofPatterns (settings.excluded.map String.toList))
              (pathOf above) true = false := by
  have henters : ∀ upper name, upper ++ [name] <+: names.dropLast →
      ((filter root out settings).enters name (Disk.pathBelow [] (upper ++ [name])) = true ↔
        name ∉ Disk.closedFolders ∧
          (∀ other ∈ upper ++ [name], Path.isHiddenSegment other.toList = false) ∧
          ¬ LeftOut root out (upper ++ [name]) ∧
          Exclusion.excludes (Exclusion.ofPatterns (settings.excluded.map String.toList))
            (pathOf (upper ++ [name])) true = false) := by
    intro upper name hway
    have hsub : upper ++ [name] ⊆ names :=
      fun other ho => List.dropLast_subset names (hway.subset ho)
    rw [pathBelow_eq_pathOf fun other ho => hn other (hsub ho)]
    exact enters_iff settings hroot hback hout (fun other ho => hn other (hsub ho))
      (fun other ho => hb other (hsub ho))
  have hend : ∀ {name}, name ∈ names.dropLast → ∃ upper, upper ++ [name] <+: names.dropLast := by
    intro name hm
    obtain ⟨upper, rest, heq⟩ := List.append_of_mem hm
    exact ⟨upper, rest, by rw [heq]; simp⟩
  constructor
  · intro h
    refine ⟨?_, ?_, ?_⟩
    · intro name hm
      obtain ⟨upper, hway⟩ := hend hm
      exact ((henters upper name hway).mp (h upper name hway)).1
    · intro name hm
      obtain ⟨upper, hway⟩ := hend hm
      exact ((henters upper name hway).mp (h upper name hway)).2.1 name (by simp)
    · intro above hne hway
      obtain ⟨upper, name, heq⟩ := List.eq_nil_or_concat above |>.resolve_left hne
      rw [List.concat_eq_append] at heq
      rw [heq] at hway ⊢
      exact ((henters upper name hway).mp (h upper name hway)).2.2
  · intro h
    obtain ⟨hclosed, hvisible, hfolders⟩ := h
    intro upper name hway
    refine (henters upper name hway).mpr ⟨hclosed name (hway.subset (by simp)), ?_,
      hfolders _ (by simp) hway⟩
    intro other ho
    exact hvisible other (hway.subset ho)

/-- **The walk reaches the listed files**, as far as they are under a source folder. -/
theorem reaches_iff_listed (hroot : root.Canonical) (hback : '\\' ∉ root.text.toList)
    (hout : out.isAbsolute = true) (hn : ∀ name ∈ names, IsName name)
    (hb : ∀ name ∈ names, '\\' ∉ name.toList) :
    ((filter root out settings).reaches [] names = true ∧
        Path.isUnderSource (pathOf names) = true) ↔
      Listed settings (LeftOut root out) names := by
  rw [Disk.reaches_iff, entersAll_iff hroot hback hout hn hb, pathBelow_eq_pathOf hn]
  constructor
  · intro h
    obtain ⟨⟨hne, ht, hclosed, -, hfolders⟩, hs⟩ := h
    obtain ⟨hfile, hvisible, htracked⟩ := (takes_iff hn hb hne).mp ht
    refine ⟨hvisible, ?_, fun above hnil hway => (hfolders above hnil hway).1, hfile,
      fun above hnil hway => (hfolders above hnil hway).2, htracked,
      (isUnderSource_pathOf hn hb hne).mp hs⟩
    intro hm
    exact hclosed "node_modules" hm (by decide)
  · intro h
    have hne : names ≠ [] := by
      intro hnil
      have hsource := h.source
      rw [hnil] at hsource
      cases hsource
    have hvisible : ∀ name ∈ names.dropLast, Path.isHiddenSegment name.toList = false :=
      fun name hm => h.visible name (List.dropLast_subset names hm)
    refine ⟨⟨hne, (takes_iff hn hb hne).mpr ⟨h.fileKept, h.visible, h.tracked⟩, ?_, hvisible,
      fun above hnil hway => ⟨h.notOut above hnil hway, h.foldersKept above hnil hway⟩⟩,
      (isUnderSource_pathOf hn hb hne).mpr h.source⟩
    intro name hm hclosed
    rcases List.mem_cons.mp hclosed with heq | hclosed
    · exact h.notModules (heq ▸ hm)
    · have hgit : name = ".git" := List.mem_singleton.mp hclosed
      have hshown := hvisible name hm
      rw [hgit] at hshown
      exact absurd hshown (by decide)

end Listed

/-! ### Whole scans -/

/-- The place for results is absolute. -/
theorem isAbsolute_of_outAt {around : Surroundings} {request : Request} {settings : Settings}
    {out : Place} (h : request.outAt around settings = .ok out) : out.isAbsolute = true := by
  rw [Request.outAt] at h
  split at h
  · obtain ⟨place, -, hr⟩ := bind_eq_ok_iff.mp h
    exact (resolved_of_resolve hr).isAbsolute
  · obtain ⟨place, -, hr⟩ := bind_eq_ok_iff.mp h
    split at hr
    · next habsolute =>
        rw [← Except.ok.inj hr]
        exact habsolute
    · exact (resolved_of_resolve hr).isAbsolute

section Manifest

variable {root out : Place} {settings : Settings} {folder : Tree}

/-- **The items of a scan** are the files of the walk under source folders, each under
its path. -/
theorem scannedItems_eq (hroot : root.Canonical) (hback : '\\' ∉ root.text.toList)
    (hnamed : folder.Named IsName) (hb : folder.Named fun name => '\\' ∉ name.toList) :
    scannedItems root out settings folder =
      ((Disk.walk (filter root out settings) folder).filter fun found =>
        Path.isUnderSource found.path).map (itemAt root) := by
  have hkey : ∀ found ∈ Disk.walk (filter root out settings) folder,
      (itemAt root found).key = found.path := by
    intro found hf
    obtain ⟨names, hne, hn, hh, -, hpath⟩ := Disk.exists_names_of_mem_walk hnamed hf
    obtain ⟨path, content⟩ := found
    simp only at hpath
    rw [hpath, key_itemAt hroot hback hn (hb.of_holds hh) hne]
  have hkeys : (Disk.walk (filter root out settings) folder).Pairwise fun a b =>
      (itemAt root a).key ≠ (itemAt root b).key := by
    refine (Disk.pairwise_walk_names hnamed _).imp_of_mem ?_
    intro a b ha hm hab
    rw [hkey a ha, hkey b hm]
    intro heq
    rw [heq] at hab
    exact hab.ne rfl
  rw [scannedItems, itemsOf_of_pairwise hkeys, List.filter_map]
  refine congrArg (List.map (itemAt root)) (List.filter_congr ?_)
  intro found hf
  rw [Function.comp_apply, hkey found hf]

end Manifest

/-- Two conditions on folders that agree on the way to a file list it alike. -/
theorem Listed.congr {settings : Settings} {isOut other : List String → Prop}
    {names : List String}
    (h : ∀ above, above ≠ [] → above <+: names.dropLast → (isOut above ↔ other above)) :
    Listed settings isOut names ↔ Listed settings other names := by
  constructor
  · intro hl
    refine { hl with notOut := ?_ }
    intro above hne hway hout
    exact hl.notOut above hne hway ((h above hne hway).mpr hout)
  · intro hl
    refine { hl with notOut := ?_ }
    intro above hne hway hout
    exact hl.notOut above hne hway ((h above hne hway).mp hout)

/-- The files that a scan lists, by their names and with their bytes. -/
def listing (root out : Place) (settings : Settings) (folder : Tree) :
    List (List String × ByteArray) :=
  ((Disk.walk (filter root out settings) folder).filter fun found =>
    Path.isUnderSource found.path).map fun found => (namesOf found.path, found.content)

section Listing

variable {root out : Place} {settings : Settings} {folder : Tree}

/-- The fingerprints of a scan are those of the files that it lists. -/
theorem fingerprints_scannedItems (hroot : root.Canonical) (hback : '\\' ∉ root.text.toList)
    (hnamed : folder.Named IsName) (hb : folder.Named fun name => '\\' ∉ name.toList) :
    fingerprints (scannedItems root out settings folder) =
      (listing root out settings folder).map fun file =>
        ("/".intercalate file.1, Sha256.digest file.2) := by
  rw [scannedItems_eq hroot hback hnamed hb, fingerprints, listing, List.map_map, List.map_map]
  refine List.map_congr_left ?_
  intro found hf
  obtain ⟨names, hne, hn, hh, -, hpath⟩ :=
    Disk.exists_names_of_mem_walk hnamed (List.mem_filter.mp hf).1
  obtain ⟨path, content⟩ := found
  simp only at hpath hh
  have hname : (itemAt root ⟨pathOf names, content⟩).name = "/".intercalate names := by
    rw [Item.name, key_itemAt hroot hback hn (hb.of_holds hh) hne]
    rw [← toList_intercalate, String.ofList_toList]
  rw [Function.comp_apply, Function.comp_apply, hpath, hname, namesOf_pathOf hn hne]
  rfl

/-- A scan lists what the walk reaches under source folders. -/
theorem mem_listing (hnamed : folder.Named IsName) {names : List String} {content : ByteArray} :
    (names, content) ∈ listing root out settings folder ↔
      folder.Holds names content ∧ (filter root out settings).reaches [] names = true ∧
        Path.isUnderSource (pathOf names) = true := by
  constructor
  · intro h
    obtain ⟨found, hf, heq⟩ := List.mem_map.mp h
    obtain ⟨hwalk, hsource⟩ := List.mem_filter.mp hf
    obtain ⟨others, hne, hn, hh, hr, hpath⟩ := Disk.exists_names_of_mem_walk hnamed hwalk
    obtain ⟨hnames, hcontent⟩ := Prod.mk.inj heq
    rw [hpath, namesOf_pathOf hn hne] at hnames
    rw [hpath] at hsource
    rw [← hnames, ← hcontent]
    exact ⟨hh, hr, hsource⟩
  · intro h
    obtain ⟨hh, hr, hsource⟩ := h
    have hn := hnamed.of_holds hh
    refine List.mem_map.mpr ⟨⟨pathOf names, content⟩, List.mem_filter.mpr ⟨?_, hsource⟩, ?_⟩
    · exact Disk.mem_walkFrom.mpr ⟨names, hh, hr, (pathBelow_eq_pathOf hn).symm⟩
    · rw [namesOf_pathOf hn (Disk.reaches_iff.mp hr).1]

/-- Which files a scan lists. -/
theorem mem_listing_iff (hroot : root.Canonical) (hback : '\\' ∉ root.text.toList)
    (hout : out.isAbsolute = true) (hnamed : folder.Named IsName)
    (hb : folder.Named fun name => '\\' ∉ name.toList) {names : List String}
    {content : ByteArray} :
    (names, content) ∈ listing root out settings folder ↔
      folder.Holds names content ∧ Listed settings (LeftOut root out) names := by
  rw [mem_listing hnamed]
  refine and_congr_right fun hh => ?_
  exact reaches_iff_listed hroot hback hout (hnamed.of_holds hh) (hb.of_holds hh)

/-- Files are listed in walk order. -/
theorem pairwise_listing (hnamed : folder.Named IsName) :
    (listing root out settings folder).Pairwise fun a b => Disk.WalkBefore a.1 b.1 := by
  rw [listing, List.pairwise_map]
  exact (Disk.pairwise_walk_names hnamed _).filter _

/-- No two files are listed under one key. -/
theorem nodup_keys_listing (hnamed : folder.Named IsName) :
    ((listing root out settings folder).map fun file => "/".intercalate file.1).Nodup := by
  have hnames : ∀ file ∈ listing root out settings folder,
      namesOf ("/".intercalate file.1).toList = file.1 := by
    intro file hm
    obtain ⟨found, hf, heq⟩ := List.mem_map.mp hm
    obtain ⟨names, hne, hn, -, -, hpath⟩ :=
      Disk.exists_names_of_mem_walk hnamed (List.mem_filter.mp hf).1
    rw [← heq, hpath, namesOf_pathOf hn hne, toList_intercalate, namesOf_pathOf hn hne]
  refine List.pairwise_map.mpr ((pairwise_listing hnamed).imp_of_mem ?_)
  intro a b ha hb hab heq
  have hsame : a.1 = b.1 := by
    rw [← hnames a ha, heq, hnames b hb]
  exact hab.ne hsame

end Listing

/-- **A manifest lists** one entry for each file that is wanted, under its path below
the root and with the fingerprint of its bytes, in walk order.  A folder is left out
where its path is that of the place for results.  If that place is canonical, this is
the folder for results. -/
theorem manifest_files {around : Surroundings} {disk : Tree} {request : Request}
    {root out : Place} {folder : Tree} {settings : Settings} {result : Result}
    (opened : Opened around disk request root out folder settings) (hdisk : disk.Named IsName)
    (hfolder : folder.Named fun name => '\\' ∉ name.toList)
    (hroot : '\\' ∉ root.text.toList) (h : (run around disk request).result = .ok result) :
    ∃ files : List (List String × ByteArray),
      result.manifest.files =
        files.map (fun file => ("/".intercalate file.1, Sha256.digest file.2)) ∧
      (result.manifest.files.map Prod.fst).Nodup ∧
      files.Pairwise (fun a b => Disk.WalkBefore a.1 b.1) ∧
      (∀ names content, (names, content) ∈ files ↔
        folder.Holds names content ∧ Listed settings (LeftOut root out) names) ∧
      (out.Canonical → '\\' ∉ out.text.toList → ∀ names content, (names, content) ∈ files ↔
        folder.Holds names content ∧
          Listed settings (IsOutFolder around.here root out) names) := by
  obtain ⟨hcanonical, hnamed⟩ := canonical_root opened hdisk
  have hout := isAbsolute_of_outAt opened.placed
  rw [run_of_opened opened] at h
  obtain ⟨readings, pages, datasets, defects, missing, -, -, -, hresult⟩ := stages_of_scanFolder h
  have hfiles : result.manifest.files = (listing root out settings folder).map fun file =>
      ("/".intercalate file.1, Sha256.digest file.2) := by
    rw [hresult]
    exact fingerprints_scannedItems hcanonical hroot hnamed hfolder
  have hmem : ∀ names content, (names, content) ∈ listing root out settings folder ↔
      folder.Holds names content ∧ Listed settings (LeftOut root out) names :=
    fun names content => mem_listing_iff hcanonical hroot hout hnamed hfolder
  refine ⟨listing root out settings folder, hfiles, ?_, pairwise_listing hnamed, hmem, ?_⟩
  · rw [hfiles, List.map_map]
    exact nodup_keys_listing hnamed
  · intro houtCanonical hback names content
    rw [hmem]
    refine and_congr_right ?_
    intro hh
    refine Listed.congr ?_
    intro above hne hway
    refine leftOut_iff_isOutFolder hcanonical houtCanonical hback ?_ hne around.here
    intro name hm
    exact hnamed.of_holds hh name (List.dropLast_subset names (hway.subset hm))

/-- The manifest of the sample. -/
theorem manifest_files_sample :
    ∃ result, (run Sample.around Sample.disk (Sample.request .report)).result = .ok result ∧
      ∃ files : List (List String × ByteArray),
        result.manifest.files =
          files.map (fun file => ("/".intercalate file.1, Sha256.digest file.2)) ∧
        ∀ names content, (names, content) ∈ files ↔
          Sample.folder.Holds names content ∧ Listed (Sample.settings .report)
            (IsOutFolder Sample.around.here Sample.root Sample.out) names := by
  obtain ⟨result, h, -⟩ := Sample.exists_result
  obtain ⟨files, hfiles, -, -, -, hcanonical⟩ := manifest_files (Sample.opened .report)
    (Sample.named_disk (by decide)) (Sample.named_folder (by decide)) (by decide) h
  exact ⟨result, h, files, hfiles, hcanonical ⟨rfl, by decide⟩ (by decide)⟩

end ContentCatalog.Scan
