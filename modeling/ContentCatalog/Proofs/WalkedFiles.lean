import ContentCatalog.Disk.Walk
import Mathlib.Data.List.Basic

/-!
# Walked files

Which files a walk finds and in which order, in terms of the names that lead from
the folder to the file.

* `mem_walkFrom` : the walk finds a file exactly if its filter reaches it by its
  names;
* `pairwise_walkFrom` : files come in walk order, the files of a folder before
  those below its subfolders;
* `reaches_iff` : the folders on the way are entered and the file is taken.
-/

namespace ContentCatalog

/-- What holds of files, and of folders if it holds of all entries, holds of trees. -/
theorem Tree.induction {motive : Tree → Prop} (file : ∀ content, motive (.file content))
    (folder : ∀ entries, (∀ entry ∈ entries, motive entry.2) → motive (.folder entries)) :
    ∀ tree, motive tree
  | .file content => file content
  | .folder entries => folder entries fun entry h =>
      have : sizeOf entry.2 < 1 + sizeOf entries := by
        have hlt := List.sizeOf_lt_of_mem h
        obtain ⟨name, tree⟩ := entry
        simp only [Prod.mk.sizeOf_spec] at hlt ⊢
        omega
      Tree.induction file folder entry.2

/-- A file with this content is reached from the tree by these names. -/
inductive Tree.Holds : Tree → List String → ByteArray → Prop where
  | here (content : ByteArray) : Holds (.file content) [] content
  | inside {entries : List (String × Tree)} {name : String} {tree : Tree} {names : List String}
      {content : ByteArray} :
      (name, tree) ∈ entries → Holds tree names content →
      Holds (.folder entries) (name :: names) content

namespace Tree

/-- A file holds its own bytes and nothing else. -/
theorem holds_file_iff {content other : ByteArray} {names : List String} :
    (Tree.file content).Holds names other ↔ names = [] ∧ other = content := by
  constructor
  · intro h
    cases h
    exact ⟨rfl, rfl⟩
  · intro hand
    obtain ⟨rfl, rfl⟩ := hand
    exact .here other

/-- A folder holds what its entries hold, behind their names. -/
theorem holds_folder_iff {entries : List (String × Tree)} {names : List String}
    {content : ByteArray} :
    (Tree.folder entries).Holds names content ↔
      ∃ entry ∈ entries, ∃ rest, names = entry.1 :: rest ∧ entry.2.Holds rest content := by
  constructor
  · intro h
    cases h with
    | inside hm hb => exact ⟨_, hm, _, rfl, hb⟩
  · intro hand
    obtain ⟨⟨name, tree⟩, hm, rest, rfl, hb⟩ := hand
    exact .inside hm hb

/-- The names of a tree's folders have a property, and no folder has a name twice. -/
inductive Named (p : String → Prop) : Tree → Prop where
  | file (content : ByteArray) : Named p (.file content)
  | folder {entries : List (String × Tree)} : (entries.map Prod.fst).Nodup →
      (∀ entry ∈ entries, p entry.1) → (∀ entry ∈ entries, Named p entry.2) →
      Named p (.folder entries)

/-- A folder has its names in order if no two are the same and all are allowed, in it and below. -/
theorem named_folder_iff {p : String → Prop} {entries : List (String × Tree)} :
    (Tree.folder entries).Named p ↔ (entries.map Prod.fst).Nodup ∧ (∀ entry ∈ entries, p entry.1) ∧
      ∀ entry ∈ entries, entry.2.Named p := by
  constructor
  · intro h
    cases h with
    | folder hnodup hp hnamed => exact ⟨hnodup, hp, hnamed⟩
  · exact fun h => .folder h.1 h.2.1 h.2.2

/-- The names that lead to a file have the property. -/
theorem Named.of_holds {p : String → Prop} {tree : Tree} {names : List String}
    {content : ByteArray} (h : tree.Named p) (hh : tree.Holds names content) :
    ∀ name ∈ names, p name := by
  induction hh with
  | here content => simp
  | inside hm hb ih =>
      cases h with
      | folder _ hp hn =>
          rw [List.forall_mem_cons]
          exact ⟨hp _ hm, ih (hn _ hm)⟩

end Tree

namespace Disk

/-! ### Shares -/

/-- What one entry of a folder contributes. -/
def shareOf (filter : Filter) (folder : List Char) : String × Tree → Share
  | (name, .file content) =>
    ⟨name, if filter.takes (joinName folder name) then [⟨joinName folder name, content⟩] else [],
      []⟩
  | (name, .folder entries) =>
    ⟨name, [],
      if filter.enters name (joinName folder name) then
        walkFrom filter (joinName folder name) (.folder entries)
      else []⟩

/-- Each entry has a share of its own. -/
theorem sharesOf_eq_map (filter : Filter) (folder : List Char) (entries : List (String × Tree)) :
    sharesOf filter folder entries = entries.map (shareOf filter folder) := by
  induction entries with
  | nil => simp [sharesOf]
  | cons entry entries ih =>
      obtain ⟨name, tree⟩ := entry
      cases tree <;> simp [sharesOf, shareOf, ih]

@[simp] theorem shareOf_name (filter : Filter) (folder : List Char) (entry : String × Tree) :
    (shareOf filter folder entry).name = entry.1 := by
  obtain ⟨name, tree⟩ := entry
  cases tree <;> rfl

/-- The entries of a folder in the order of their names. -/
def sorted (entries : List (String × Tree)) : List (String × Tree) :=
  entries.mergeSort fun a b => decide (a.1 ≤ b.1)

/-- Sorting loses no entry. -/
theorem mem_sorted {entries : List (String × Tree)} {entry : String × Tree} :
    entry ∈ sorted entries ↔ entry ∈ entries :=
  (List.mergeSort_perm _ _).mem_iff

/-- Entries with different names come in the strict order of the names. -/
theorem pairwise_sorted {entries : List (String × Tree)} (h : (entries.map Prod.fst).Nodup) :
    (sorted entries).Pairwise fun a b => a.1 < b.1 := by
  have hperm : (sorted entries).Perm entries := List.mergeSort_perm _ _
  have hle : (sorted entries).Pairwise fun a b => decide (a.1 ≤ b.1) = true :=
    List.pairwise_mergeSort
      (fun a b c hab hbc => by
        rw [decide_eq_true_eq] at hab hbc ⊢
        exact String.le_trans hab hbc)
      (fun a b => by simpa using String.le_total a.1 b.1) entries
  have hne : (sorted entries).Pairwise fun a b => a.1 ≠ b.1 :=
    List.pairwise_map.mp ((hperm.map Prod.fst).nodup_iff.mpr h)
  refine hle.imp₂ (fun a b hab hn => ?_) hne
  rw [decide_eq_true_eq] at hab
  exact String.not_le.mp fun hba => hn (String.le_antisymm hab hba)

/-- Entries in order are sorted. -/
theorem sorted_of_pairwise {entries : List (String × Tree)}
    (h : entries.Pairwise fun a b => a.1 ≤ b.1) : sorted entries = entries :=
  List.mergeSort_of_pairwise (h.imp fun hab => decide_eq_true hab)

/-- **The walk of a folder** takes the shares of its entries by name: the files
first, then what is below the subfolders. -/
theorem walkFrom_folder (filter : Filter) (folder : List Char) (entries : List (String × Tree)) :
    walkFrom filter folder (.folder entries) =
      (sorted entries).flatMap (fun entry => (shareOf filter folder entry).own) ++
        (sorted entries).flatMap (fun entry => (shareOf filter folder entry).below) := by
  have hshares : inOrder (sharesOf filter folder entries) =
      (sorted entries).map (shareOf filter folder) := by
    rw [sharesOf_eq_map, inOrder, sorted]
    refine (List.map_mergeSort fun a _ b _ => ?_).symm
    rw [shareOf_name, shareOf_name]
  rw [walkFrom, hshares, List.flatMap_map, List.flatMap_map]

/-- The walk of a folder with one subfolder that is entered is the walk of that. -/
theorem walkFrom_subfolder {filter : Filter} {folder : List Char} {name : String}
    (h : filter.enters name (joinName folder name) = true) (entries : List (String × Tree)) :
    walkFrom filter folder (.folder [(name, .folder entries)]) =
      walkFrom filter (joinName folder name) (.folder entries) := by
  rw [walkFrom_folder, sorted_of_pairwise (List.pairwise_singleton _ _)]
  simp [shareOf, h]

/-! ### What is found -/

/-- The path that the names make below a folder. -/
def pathBelow (folder : List Char) (names : List String) : List Char :=
  names.foldl joinName folder

/-- The filter lets the walk come to a file by these names: every folder on the
way is entered, and the file is taken. -/
def Filter.reaches (filter : Filter) : (folder : List Char) → List String → Bool
  | _, [] => false
  | folder, [name] => filter.takes (joinName folder name)
  | folder, name :: names =>
    filter.enters name (joinName folder name) && filter.reaches (joinName folder name) names

/-- A file of the folder itself is reached if it is taken. -/
theorem reaches_single (filter : Filter) (folder : List Char) (name : String) :
    filter.reaches folder [name] = filter.takes (joinName folder name) := rfl

/-- A file below is reached if its folder is entered. -/
theorem reaches_cons (filter : Filter) (folder : List Char) (name : String) {names : List String}
    (h : names ≠ []) :
    filter.reaches folder (name :: names) =
      (filter.enters name (joinName folder name) &&
        filter.reaches (joinName folder name) names) := by
  rw [Filter.reaches]
  exact h

/-- A file is found in its folder under its own name, if the filter takes it. -/
theorem mem_share_file {filter : Filter} {folder : List Char} {name : String}
    {content : ByteArray} {found : Found} :
    found ∈ (shareOf filter folder (name, .file content)).own ↔
      found.content = content ∧ filter.reaches folder [name] = true ∧
        found.path = pathBelow folder [name] := by
  simp only [shareOf]
  rw [reaches_single]
  constructor
  · intro h
    split at h
    · next ht =>
        rw [List.mem_singleton] at h
        subst h
        exact ⟨rfl, ht, rfl⟩
    · cases h
  · intro h
    obtain ⟨hc, ht, hp⟩ := h
    rw [if_pos ht, List.mem_singleton]
    obtain ⟨path, other⟩ := found
    exact Found.mk.injEq .. ▸ ⟨hp, hc⟩

/-- What a folder shares is what the walk finds in it, if the filter enters it. -/
theorem mem_share_folder {filter : Filter} {folder : List Char} {name : String}
    {entries : List (String × Tree)} {found : Found} :
    found ∈ (shareOf filter folder (name, .folder entries)).below ↔
      filter.enters name (joinName folder name) = true ∧
        found ∈ walkFrom filter (joinName folder name) (.folder entries) := by
  simp only [shareOf]
  split
  · next he => simp [he]
  · next he => simp [he]

/-- What an entry shares is found by names that begin with its own. -/
theorem mem_share {filter : Filter} {folder : List Char} {entry : String × Tree} {found : Found}
    (ih : ∀ folder, found ∈ walkFrom filter folder entry.2 ↔
      ∃ names, entry.2.Holds names found.content ∧ filter.reaches folder names = true ∧
        found.path = pathBelow folder names) :
    (found ∈ (shareOf filter folder entry).own ∨ found ∈ (shareOf filter folder entry).below) ↔
      ∃ rest, entry.2.Holds rest found.content ∧ filter.reaches folder (entry.1 :: rest) = true ∧
        found.path = pathBelow folder (entry.1 :: rest) := by
  obtain ⟨name, tree⟩ := entry
  cases tree with
  | file content =>
      rw [mem_share_file]
      simp only [shareOf, Tree.holds_file_iff, List.not_mem_nil, or_false]
      constructor
      · intro h
        exact ⟨[], ⟨rfl, h.1⟩, h.2⟩
      · intro hand
        obtain ⟨rest, ⟨rfl, hc⟩, hr⟩ := hand
        exact ⟨hc, hr⟩
  | folder entries =>
      rw [mem_share_folder, ih]
      simp only [shareOf, List.not_mem_nil, false_or]
      -- a folder is no file, so the names below it are never empty
      constructor
      · intro h
        obtain ⟨he, names, hh, hr, hp⟩ := h
        obtain ⟨entry, -, others, rfl, -⟩ := Tree.holds_folder_iff.mp hh
        refine ⟨_, hh, ?_, hp⟩
        rw [reaches_cons filter folder name (by simp), he, hr]
        rfl
      · intro hand
        obtain ⟨rest, hh, hr, hp⟩ := hand
        obtain ⟨entry, -, others, rfl, -⟩ := Tree.holds_folder_iff.mp hh
        rw [reaches_cons filter folder name (by simp), Bool.and_eq_true] at hr
        exact ⟨hr.1, _, hh, hr.2, hp⟩

/-- **A walk finds a file** exactly if the filter reaches it by its names. -/
theorem mem_walkFrom {filter : Filter} {tree : Tree} {folder : List Char} {found : Found} :
    found ∈ walkFrom filter folder tree ↔
      ∃ names, tree.Holds names found.content ∧ filter.reaches folder names = true ∧
        found.path = pathBelow folder names := by
  induction tree using Tree.induction generalizing folder with
  | file content =>
      rw [walkFrom]
      constructor
      · intro h
        cases h
      · intro hand
        obtain ⟨names, hh, hr, -⟩ := hand
        obtain ⟨rfl, -⟩ := Tree.holds_file_iff.mp hh
        cases hr
  | folder entries ih =>
      rw [walkFrom_folder, List.mem_append, List.mem_flatMap, List.mem_flatMap]
      constructor
      · intro hor
        rcases hor with ⟨entry, hm, h⟩ | ⟨entry, hm, h⟩
        · obtain ⟨rest, hh, hr⟩ := (mem_share fun _ => ih entry (mem_sorted.mp hm)).mp (.inl h)
          exact ⟨_, Tree.holds_folder_iff.mpr ⟨entry, mem_sorted.mp hm, rest, rfl, hh⟩, hr⟩
        · obtain ⟨rest, hh, hr⟩ := (mem_share fun _ => ih entry (mem_sorted.mp hm)).mp (.inr h)
          exact ⟨_, Tree.holds_folder_iff.mpr ⟨entry, mem_sorted.mp hm, rest, rfl, hh⟩, hr⟩
      · intro hand
        obtain ⟨names, hh, hr⟩ := hand
        obtain ⟨entry, hm, rest, rfl, hb⟩ := Tree.holds_folder_iff.mp hh
        rcases (mem_share fun _ => ih entry hm).mpr ⟨rest, hb, hr⟩ with h | h
        · exact .inl ⟨entry, mem_sorted.mpr hm, h⟩
        · exact .inr ⟨entry, mem_sorted.mpr hm, h⟩

/-- The filter reaches a file if it enters every folder on the way and takes the
file itself. -/
theorem reaches_iff {filter : Filter} {folder : List Char} {names : List String} :
    filter.reaches folder names = true ↔
      names ≠ [] ∧ filter.takes (pathBelow folder names) = true ∧
        ∀ upper name, upper ++ [name] <+: names.dropLast →
          filter.enters name (pathBelow folder (upper ++ [name])) = true := by
  induction names generalizing folder with
  | nil => simp [Filter.reaches]
  | cons first names ih =>
      by_cases hnil : names = []
      · subst hnil
        simp [reaches_single, pathBelow]
      · rw [reaches_cons filter folder first hnil, Bool.and_eq_true, ih,
          List.dropLast_cons_of_ne_nil hnil]
        constructor
        · intro h
          obtain ⟨he, -, ht, hall⟩ := h
          refine ⟨by simp, ht, ?_⟩
          intro upper name hway
          cases upper with
          | nil =>
              obtain ⟨heq, -⟩ := List.cons_prefix_cons.mp hway
              rw [heq]
              exact he
          | cons other upper =>
              obtain ⟨heq, hway⟩ := List.cons_prefix_cons.mp hway
              rw [heq]
              exact hall upper name hway
        · intro h
          obtain ⟨-, ht, hall⟩ := h
          refine ⟨hall [] first ?_, hnil, ht, ?_⟩
          · exact List.cons_prefix_cons.mpr ⟨rfl, List.nil_prefix⟩
          · intro upper name hway
            exact hall (first :: upper) name (List.cons_prefix_cons.mpr ⟨rfl, hway⟩)

/-- Every file that is found is taken. -/
theorem takes_of_mem_walk {filter : Filter} {tree : Tree} {found : Found}
    (h : found ∈ walk filter tree) : filter.takes found.path = true := by
  obtain ⟨names, -, hr, hp⟩ := mem_walkFrom.mp h
  rw [hp]
  exact (reaches_iff.mp hr).2.1

/-! ### The order -/

/-- One file comes before another in the order of a walk, by the names that lead
to them: a folder's own files by name, then its subfolders by name. -/
inductive WalkBefore : List String → List String → Prop where
  | files {a b : String} : a < b → WalkBefore [a] [b]
  | own {a b : String} {bs : List String} : bs ≠ [] → WalkBefore [a] (b :: bs)
  | folders {a b : String} {as bs : List String} :
      as ≠ [] → bs ≠ [] → a < b → WalkBefore (a :: as) (b :: bs)
  | within {a : String} {as bs : List String} : WalkBefore as bs → WalkBefore (a :: as) (a :: bs)

/-- The order of a walk is strict. -/
theorem WalkBefore.ne {as bs : List String} (h : WalkBefore as bs) : as ≠ bs := by
  induction h with
  | files hab =>
      intro heq
      obtain ⟨hsame, -⟩ := List.cons.inj heq
      exact absurd hab (by rw [hsame]; exact String.lt_irrefl _)
  | own hb =>
      intro heq
      exact hb (List.cons.inj heq).2.symm
  | folders _ _ hab =>
      intro heq
      obtain ⟨hsame, -⟩ := List.cons.inj heq
      exact absurd hab (by rw [hsame]; exact String.lt_irrefl _)
  | within _ ih =>
      intro heq
      exact ih (List.cons.inj heq).2

/-- The walk knows an order of files only. -/
theorem WalkBefore.ne_nil {as bs : List String} (h : WalkBefore as bs) : as ≠ [] ∧ bs ≠ [] := by
  cases h <;> simp

/-- No two files come before each other. -/
theorem WalkBefore.asymm {as bs : List String} (h : WalkBefore as bs) : ¬ WalkBefore bs as := by
  have hlt : ∀ {a b : String}, a < b → ¬ b < a := fun hab hba =>
    String.lt_irrefl _ (String.lt_trans hab hba)
  induction h with
  | files hab =>
      intro hback
      cases hback with
      | files hba => exact hlt hab hba
      | own hne => exact hne rfl
      | folders hne _ _ => exact hne rfl
      | within hback => exact hback.ne_nil.1 rfl
  | own hb =>
      intro hback
      cases hback with
      | files _ => exact hb rfl
      | own hne => exact hne rfl
      | folders _ hne _ => exact hne rfl
      | within hback => exact hback.ne_nil.2 rfl
  | folders ha hb hab =>
      intro hback
      cases hback with
      | files _ => exact ha rfl
      | own _ => exact hb rfl
      | folders _ _ hba => exact hlt hab hba
      | within _ => exact String.lt_irrefl _ hab
  | within hinner ih =>
      intro hback
      cases hback with
      | files hba => exact String.lt_irrefl _ hba
      | own _ => exact hinner.ne_nil.2 rfl
      | folders _ _ hba => exact String.lt_irrefl _ hba
      | within hback => exact ih hback

/-- The first file comes before the second by names with a property that lead to
them from a folder. -/
def Found.Before (p : String → Prop) (folder : List Char) (a b : Found) : Prop :=
  ∃ as bs, (∀ name ∈ as, p name) ∧ (∀ name ∈ bs, p name) ∧
    a.path = pathBelow folder as ∧ b.path = pathBelow folder bs ∧ WalkBefore as bs

section Order

variable {p : String → Prop} {filter : Filter} {folder : List Char} {entry : String × Tree}
  {found : Found}

/-- A share's own file is the entry. -/
theorem path_of_mem_own (h : found ∈ (shareOf filter folder entry).own) :
    found.path = pathBelow folder [entry.1] := by
  obtain ⟨name, tree⟩ := entry
  cases tree with
  | file content =>
      rw [shareOf] at h
      split at h
      · rw [List.mem_singleton.mp h]
        rfl
      · cases h
  | folder entries => cases h

/-- Its other files are below the entry. -/
theorem path_of_mem_below (hn : entry.2.Named p)
    (h : found ∈ (shareOf filter folder entry).below) :
    ∃ rest, rest ≠ [] ∧ (∀ name ∈ rest, p name) ∧
      found.path = pathBelow folder (entry.1 :: rest) := by
  obtain ⟨name, tree⟩ := entry
  cases tree with
  | file content => cases h
  | folder entries =>
      rw [shareOf] at h
      split at h
      · obtain ⟨rest, hh, hr, hpath⟩ := mem_walkFrom.mp h
        exact ⟨rest, (reaches_iff.mp hr).1, hn.of_holds hh, hpath⟩
      · cases h

/-- An entry is no more than one file of its folder. -/
theorem pairwise_own :
    (shareOf filter folder entry).own.Pairwise (Found.Before p folder) := by
  obtain ⟨name, tree⟩ := entry
  cases tree with
  | file content =>
      rw [shareOf]
      split
      · exact List.pairwise_singleton _ _
      · exact .nil
  | folder entries => exact .nil

/-- And what is below it is in the order of the walk. -/
theorem pairwise_below (hp : p entry.1)
    (h : (walkFrom filter (joinName folder entry.1) entry.2).Pairwise
      (Found.Before p (joinName folder entry.1))) :
    (shareOf filter folder entry).below.Pairwise (Found.Before p folder) := by
  obtain ⟨name, tree⟩ := entry
  cases tree with
  | file content => exact .nil
  | folder entries =>
      rw [shareOf]
      split
      · refine h.imp ?_
        intro a b hab
        obtain ⟨as, bs, has, hbs, ha, hb, hab⟩ := hab
        exact ⟨name :: as, name :: bs, List.forall_mem_cons.mpr ⟨hp, has⟩,
          List.forall_mem_cons.mpr ⟨hp, hbs⟩, ha, hb, .within hab⟩
      · exact .nil

end Order

/-- **Files come in walk order.** -/
theorem pairwise_walkFrom {p : String → Prop} {tree : Tree} (h : tree.Named p)
    (filter : Filter) (folder : List Char) :
    (walkFrom filter folder tree).Pairwise (Found.Before p folder) := by
  induction tree using Tree.induction generalizing folder with
  | file content =>
      rw [walkFrom]
      exact .nil
  | folder entries ih =>
      cases h with
      | folder hd hp hn =>
          have hs := pairwise_sorted hd
          have hown : ∀ entry ∈ sorted entries, ∀ name ∈ [entry.1], p name := by
            intro entry hm
            exact List.forall_mem_singleton.mpr (hp entry (mem_sorted.mp hm))
          have hbelow : ∀ entry ∈ sorted entries,
              ∀ found ∈ (shareOf filter folder entry).below, ∃ rest, rest ≠ [] ∧
                (∀ name ∈ entry.1 :: rest, p name) ∧
                found.path = pathBelow folder (entry.1 :: rest) := by
            intro entry hm found hf
            obtain ⟨rest, hne, hrest, hpath⟩ := path_of_mem_below (hn entry (mem_sorted.mp hm)) hf
            exact ⟨rest, hne, List.forall_mem_cons.mpr ⟨hp entry (mem_sorted.mp hm), hrest⟩, hpath⟩
          rw [walkFrom_folder, List.pairwise_append, List.pairwise_flatMap, List.pairwise_flatMap]
          refine ⟨⟨fun entry _ => pairwise_own, ?_⟩, ⟨?_, ?_⟩, ?_⟩
          · refine hs.imp_of_mem ?_
            intro a b ha hb hab x hx y hy
            exact ⟨_, _, hown a ha, hown b hb, path_of_mem_own hx, path_of_mem_own hy,
              .files hab⟩
          · intro entry hm
            have hentry := mem_sorted.mp hm
            exact pairwise_below (hp entry hentry) (ih entry hentry (hn entry hentry) _)
          · refine hs.imp_of_mem ?_
            intro a b ha hb hab x hx y hy
            obtain ⟨as, has, hpas, hx⟩ := hbelow a ha x hx
            obtain ⟨bs, hbs, hpbs, hy⟩ := hbelow b hb y hy
            exact ⟨_, _, hpas, hpbs, hx, hy, .folders has hbs hab⟩
          · intro x hx y hy
            obtain ⟨a, ha, hx⟩ := List.mem_flatMap.mp hx
            obtain ⟨b, hb, hy⟩ := List.mem_flatMap.mp hy
            obtain ⟨bs, hbs, hpbs, hy⟩ := hbelow b hb y hy
            exact ⟨_, _, hown a ha, hpbs, path_of_mem_own hx, hy, .own hbs⟩

end Disk

end ContentCatalog
