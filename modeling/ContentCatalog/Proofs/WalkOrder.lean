import ContentCatalog.Proofs.FileNames
import ContentCatalog.Proofs.WalkedFiles
import Mathlib.Data.List.Nodup

/-!
# The walk of a tree by names

What a walk finds, said by the names that lead from the folder to a file.  The names
decide alone whether the file is found and where it comes; how the folders list their
entries plays no part.

* `reaches_iff_admits` : the filter reaches the files that it admits by their names;
* `pairwise_walk_names` : files come in walk order;
* `walk_eq_of_holds` : a walk is told by the files that its filter reaches;
* `walk_admitted` : the statement about whole walks.
-/

namespace ContentCatalog

/-- The trees differ at most in the order in which folders list their entries. -/
inductive Tree.Relisted : Tree → Tree → Prop where
  | refl (tree : Tree) : Relisted tree tree
  | perm {entries others : List (String × Tree)} :
      entries.Perm others → Relisted (.folder entries) (.folder others)
  | inside {above below : List (String × Tree)} {name : String} {tree other : Tree} :
      Relisted tree other →
      Relisted (.folder (above ++ (name, tree) :: below)) (.folder (above ++ (name, other) :: below))
  | trans {tree between other : Tree} :
      Relisted tree between → Relisted between other → Relisted tree other

namespace Tree

/-- A tree in another order holds the same files. -/
theorem Relisted.holds_iff {tree other : Tree} (h : tree.Relisted other) {names : List String}
    {content : ByteArray} : tree.Holds names content ↔ other.Holds names content := by
  induction h generalizing names with
  | refl tree => exact Iff.rfl
  | perm hperm =>
      rw [holds_folder_iff, holds_folder_iff]
      simp only [hperm.mem_iff]
  | inside h ih =>
      rw [holds_folder_iff, holds_folder_iff]
      simp only [List.mem_append, List.mem_cons, or_and_right, exists_or, exists_eq_left, ih]
  | trans _ _ ihfirst ihsecond => exact ihfirst.trans ihsecond

/-- A tree in another order has the same names. -/
theorem Relisted.named {p : String → Prop} {tree other : Tree} (h : tree.Relisted other)
    (hnamed : tree.Named p) : other.Named p := by
  induction h with
  | refl tree => exact hnamed
  | perm hperm =>
      obtain ⟨hnodup, hp, hentries⟩ := named_folder_iff.mp hnamed
      exact .folder ((hperm.map Prod.fst).nodup_iff.mp hnodup)
        (fun entry hm => hp entry (hperm.mem_iff.mpr hm))
        (fun entry hm => hentries entry (hperm.mem_iff.mpr hm))
  | inside h ih =>
      obtain ⟨hnodup, hp, hentries⟩ := named_folder_iff.mp hnamed
      refine .folder (by simpa using hnodup) ?_ ?_
      · simpa [or_imp, forall_and] using hp
      · simp only [List.mem_append, List.mem_cons, or_imp, forall_and, forall_eq] at hentries ⊢
        exact ⟨hentries.1, ih hentries.2.1, hentries.2.2⟩
  | trans _ _ ihfirst ihsecond => exact ihsecond (ihfirst hnamed)

end Tree

namespace Disk

/-- What is asked of the names that lead to a file for a walk to yield it.  The folders
on the way are given by the names that lead to them, the root not counted. -/
structure Filter.Admits (filter : Filter) (names : List String) : Prop where
  accepted : filter.accept (pathOf names) = true
  fileKept : ∀ rule ∈ filter.rules, rule.hits (pathOf names) false = false
  notLeftOut : ∀ name ∈ names.dropLast, name ∉ filter.leftOut
  notSkipped : ∀ above, above ≠ [] → above <+: names.dropLast →
    filter.skip (pathOf above) = false
  foldersKept : ∀ above, above ≠ [] → above <+: names.dropLast →
    ∀ rule ∈ filter.rules, rule.hits (pathOf above) true = false

section Names

variable {filter : Filter} {names : List String} {tree : Tree}

/-- A path is kept if no rule hits it. -/
theorem excludes_eq_false_iff {rules : List Exclusion.Rule} {path : List Char} {isFolder : Bool} :
    Exclusion.excludes rules path isFolder = false ↔
      ∀ rule ∈ rules, rule.hits path isFolder = false := by
  simp [Exclusion.excludes]

/-- A file is taken if it is accepted and no rule hits it. -/
theorem takes_eq_true_iff {path : List Char} :
    filter.takes path = true ↔
      filter.accept path = true ∧ ∀ rule ∈ filter.rules, rule.hits path false = false := by
  rw [Filter.takes, Bool.and_eq_true, Bool.not_eq_true', excludes_eq_false_iff, and_comm]

/-- A folder is entered if it is not left out by name, by path or by rule. -/
theorem enters_eq_true_iff {name : String} {path : List Char} :
    filter.enters name path = true ↔
      name ∉ filter.leftOut ∧ filter.skip path = false ∧
        ∀ rule ∈ filter.rules, rule.hits path true = false := by
  simp [Filter.enters, excludes_eq_false_iff, and_assoc]

/-- The folders on the way to a file are entered exactly if each of them is neither left
out nor skipped nor hit. -/
theorem entersAll_iff_admitted (hn : ∀ name ∈ names, IsName name) :
    (∀ upper name, upper ++ [name] <+: names.dropLast →
        filter.enters name (pathBelow [] (upper ++ [name])) = true) ↔
      (∀ name ∈ names.dropLast, name ∉ filter.leftOut) ∧
        ∀ above, above ≠ [] → above <+: names.dropLast →
          filter.skip (pathOf above) = false ∧
            ∀ rule ∈ filter.rules, rule.hits (pathOf above) true = false := by
  have hpath : ∀ above, above <+: names.dropLast → pathBelow [] above = pathOf above := by
    intro above hway
    apply pathBelow_eq_pathOf
    intro name hm
    exact hn name (List.dropLast_subset names (hway.subset hm))
  constructor
  · intro h
    refine ⟨?_, ?_⟩
    · intro name hm
      obtain ⟨upper, rest, heq⟩ := List.append_of_mem hm
      have hway : upper ++ [name] <+: names.dropLast := ⟨rest, by simp [heq]⟩
      exact (enters_eq_true_iff.mp (h upper name hway)).1
    · intro above hne hway
      obtain ⟨upper, name, heq⟩ := List.eq_nil_or_concat above |>.resolve_left hne
      rw [List.concat_eq_append] at heq
      subst heq
      have henters := (enters_eq_true_iff.mp (h upper name hway)).2
      rwa [hpath _ hway] at henters
  · intro h upper name hway
    obtain ⟨hopen, hfolders⟩ := h
    rw [enters_eq_true_iff, hpath _ hway]
    exact ⟨hopen name (hway.subset (by simp)), hfolders _ (by simp) hway⟩

/-- **The filter reaches** the files that it admits by their names. -/
theorem reaches_iff_admits (hn : ∀ name ∈ names, IsName name) (hne : names ≠ []) :
    filter.reaches [] names = true ↔ filter.Admits names := by
  rw [reaches_iff, entersAll_iff_admitted hn, pathBelow_eq_pathOf hn, takes_eq_true_iff]
  constructor
  · intro h
    obtain ⟨-, ⟨haccept, hfile⟩, hopen, hfolders⟩ := h
    exact ⟨haccept, hfile, hopen, fun above hnil hway => (hfolders above hnil hway).1,
      fun above hnil hway => (hfolders above hnil hway).2⟩
  · intro h
    exact ⟨hne, ⟨h.accepted, h.fileKept⟩, h.notLeftOut,
      fun above hnil hway => ⟨h.notSkipped above hnil hway, h.foldersKept above hnil hway⟩⟩

/-- What the walk of a folder finds has the path of its names. -/
theorem exists_names_of_mem_walk {found : Found} (hnamed : tree.Named IsName)
    (h : found ∈ walk filter tree) :
    ∃ names, names ≠ [] ∧ (∀ name ∈ names, IsName name) ∧ tree.Holds names found.content ∧
      filter.reaches [] names = true ∧ found.path = pathOf names := by
  obtain ⟨names, hh, hr, hpath⟩ := mem_walkFrom.mp h
  have hn := hnamed.of_holds hh
  exact ⟨names, (reaches_iff.mp hr).1, hn, hh, hr, hpath.trans (pathBelow_eq_pathOf hn)⟩

/-- The walk of a folder finds files in walk order, by the names that their paths are
made of. -/
theorem pairwise_walk_names (hnamed : tree.Named IsName) (filter : Filter) :
    (walk filter tree).Pairwise fun a b => WalkBefore (namesOf a.path) (namesOf b.path) := by
  refine (pairwise_walkFrom hnamed filter []).imp ?_
  intro a b h
  obtain ⟨as, bs, has, hbs, ha, hb, hab⟩ := h
  rw [ha, hb, pathBelow_eq_pathOf has, pathBelow_eq_pathOf hbs,
    namesOf_pathOf has hab.ne_nil.1, namesOf_pathOf hbs hab.ne_nil.2]
  exact hab

/-- No two files are found under one path. -/
theorem nodup_paths_walk (hnamed : tree.Named IsName) (filter : Filter) :
    ((walk filter tree).map Found.path).Nodup := by
  refine List.pairwise_map.mpr ((pairwise_walk_names hnamed filter).imp ?_)
  intro a b hab heq
  apply hab.ne
  rw [heq]

/-- **A walk is told by the files** that its filter reaches. -/
theorem walk_eq_of_holds {other : Tree} (htree : tree.Named IsName) (hother : other.Named IsName)
    (h : ∀ names, (∀ name ∈ names, IsName name) → filter.reaches [] names = true →
      ∀ content, tree.Holds names content ↔ other.Holds names content) :
    walk filter tree = walk filter other := by
  have hnodup : ∀ {tree : Tree}, tree.Named IsName → (walk filter tree).Nodup :=
    fun htree => List.Nodup.of_map _ (nodup_paths_walk htree filter)
  have hmem : ∀ found, found ∈ walk filter tree ↔ found ∈ walk filter other := by
    intro found
    rw [walk, walk, mem_walkFrom, mem_walkFrom]
    refine exists_congr fun names => ?_
    constructor
    · rintro ⟨hholds, hreaches, hpath⟩
      exact ⟨(h names (htree.of_holds hholds) hreaches _).mp hholds, hreaches, hpath⟩
    · rintro ⟨hholds, hreaches, hpath⟩
      exact ⟨(h names (hother.of_holds hholds) hreaches _).mpr hholds, hreaches, hpath⟩
  have hperm : (walk filter tree).Perm (walk filter other) :=
    (List.perm_ext_iff_of_nodup (hnodup htree) (hnodup hother)).mpr hmem
  -- Both walks are in walk order, which leaves no choice where a file stands.
  exact hperm.eq_of_pairwise (fun _ _ _ _ hab hba => (hab.asymm hba).elim)
    (pairwise_walk_names htree filter) (pairwise_walk_names hother filter)

end Names

/-- **A walk yields the admitted files** of a folder, each once and in walk order: a
folder's own files by name, then its subfolders by name.  In which order the folders list
their entries makes no difference. -/
theorem walk_admitted (filter : Filter) {entries : List (String × Tree)}
    (hnamed : (Tree.folder entries).Named IsName) :
    (∀ found, found ∈ walk filter (.folder entries) ↔
      ∃ names, (Tree.folder entries).Holds names found.content ∧ found.path = pathOf names ∧
        filter.Admits names) ∧
      ((walk filter (.folder entries)).map Found.path).Nodup ∧
      ((walk filter (.folder entries)).Pairwise fun a b =>
        WalkBefore (namesOf a.path) (namesOf b.path)) ∧
      ∀ other, (Tree.folder entries).Relisted other →
        walk filter other = walk filter (.folder entries) := by
  refine ⟨?_, nodup_paths_walk hnamed filter, pairwise_walk_names hnamed filter, ?_⟩
  · intro found
    constructor
    · intro h
      obtain ⟨names, hne, hn, hh, hr, hpath⟩ := exists_names_of_mem_walk hnamed h
      exact ⟨names, hh, hpath, (reaches_iff_admits hn hne).mp hr⟩
    · intro h
      obtain ⟨names, hh, hpath, hadmits⟩ := h
      have hn := hnamed.of_holds hh
      have hne : names ≠ [] := by
        obtain ⟨entry, -, rest, rfl, -⟩ := Tree.holds_folder_iff.mp hh
        exact List.cons_ne_nil _ _
      rw [walk, mem_walkFrom]
      exact ⟨names, hh, (reaches_iff_admits hn hne).mpr hadmits,
        hpath.trans (pathBelow_eq_pathOf hn).symm⟩
  · intro other hother
    apply walk_eq_of_holds (hother.named hnamed) hnamed
    intro names _ _ content
    exact hother.holds_iff.symm

/-- A folder whose entries stand in no order. -/
def mixedEntries : List (String × Tree) :=
  [("b.md", .file .empty), ("lib", .folder [("a.md", .file .empty)]),
    ("node_modules", .folder [("c.md", .file .empty)]), ("a.md", .file .empty)]

/-- Markdown files without those that begin with the letter `b`. -/
def markdownFilter : Filter :=
  { accept := Text.endsWith ".md".toList, rules := Exclusion.ofPatterns ["b*".toList] }

/-- The walk of the sample, and of its entries in reverse. -/
theorem walk_admitted_sample :
    (Tree.folder mixedEntries).Named IsName ∧
      (Tree.folder mixedEntries).Relisted (.folder mixedEntries.reverse) ∧
      (⟨"lib/a.md".toList, .empty⟩ : Found) ∈ walk markdownFilter (.folder mixedEntries) ∧
      walk markdownFilter (.folder mixedEntries.reverse) =
        walk markdownFilter (.folder mixedEntries) := by
  have hfolder : ∀ name, IsName name →
      (Tree.folder [(name, .file ByteArray.empty)]).Named IsName := by
    intro name hname
    exact .folder (by simp) (by simpa using hname) (by simpa using Tree.Named.file _)
  have hnamed : (Tree.folder mixedEntries).Named IsName := by
    refine .folder (by decide) (by decide) ?_
    simp only [mixedEntries, List.forall_mem_cons]
    exact ⟨.file _, hfolder _ (by decide), hfolder _ (by decide), .file _, List.forall_mem_nil _⟩
  have hrelisted : (Tree.folder mixedEntries).Relisted (.folder mixedEntries.reverse) :=
    .perm (List.reverse_perm _).symm
  obtain ⟨hmem, -, -, horder⟩ := walk_admitted markdownFilter hnamed
  refine ⟨hnamed, hrelisted, ?_, horder _ hrelisted⟩
  refine (hmem _).mpr ⟨["lib", "a.md"], ?_, by decide, ?_⟩
  · exact .inside (by simp [mixedEntries]) (.inside (List.mem_singleton_self _) (.here _))
  · have hway : ∀ above, above ≠ [] → above <+: ["lib"] → above = ["lib"] := by
      intro above hne h
      simpa [List.prefix_cons_iff, hne] using h
    refine ⟨by decide, by decide +kernel, by decide, fun _ _ _ => rfl, ?_⟩
    intro above hne h
    rw [hway above hne h]
    decide +kernel

end Disk

end ContentCatalog
