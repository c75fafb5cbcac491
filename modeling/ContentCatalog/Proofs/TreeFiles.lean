import ContentCatalog.Disk.Change
import ContentCatalog.Proofs.WalkedFiles

/-!
# Files of a tree

What stands in a tree at the end of a way, which is a list of names without double dots.
The disk follows a path along such a way, and a change of the tree at the end of one way
is seen by what stands at the end of all others.

* `fileAt?_eq_some_iff` : a file at the end of a way is one that the tree holds;
* `at?_of_follow` : the way that is followed ends where it is said to;
* `follow_of_no_dots` : without double dots, the way is the path itself;
* `follow_eq_tooLong_iff` : where a name that is too long is noticed;
* `at?_putAt_self`, `label_putAt_other` : what stands where after something new was put in;
* `putAt_putAt` : and after something else was put in its place;
* `at?_dropAt_self`, `label_dropAt_other` : and after something was taken out;
* `follow_of_folders` : a path can still be followed as long as folders stay folders.
-/

namespace ContentCatalog

open Disk

namespace Tree

/-- What stands at the end of a way. -/
def at? : Tree → List String → Option Tree
  | tree, [] => some tree
  | .file _, _ :: _ => none
  | .folder entries, name :: names =>
    (Dictionary.lookup? name entries).bind fun tree => at? tree names

/-- The bytes of a file. -/
def content? : Tree → Option ByteArray
  | .file content => some content
  | .folder _ => none

/-- The bytes of the file at the end of a way. -/
def fileAt? (tree : Tree) (names : List String) : Option ByteArray :=
  (tree.at? names).bind content?

/-- A folder stands at the end of the way. -/
def FolderAt (tree : Tree) (names : List String) : Prop :=
  ∃ entries, tree.at? names = some (.folder entries)

@[simp] theorem at?_nil (tree : Tree) : tree.at? [] = some tree := by
  cases tree <;> rfl

/-- Nothing stands below a file. -/
@[simp] theorem at?_file (content : ByteArray) (name : String) (names : List String) :
    (Tree.file content).at? (name :: names) = none := rfl

/-- A name leads to the entry of the folder. -/
theorem at?_folder (entries : List (String × Tree)) (name : String) (names : List String) :
    (Tree.folder entries).at? (name :: names) =
      (Dictionary.lookup? name entries).bind fun tree => tree.at? names := rfl

/-- A way in two parts. -/
theorem at?_append (tree : Tree) (names rest : List String) :
    tree.at? (names ++ rest) = (tree.at? names).bind fun found => found.at? rest := by
  induction names generalizing tree with
  | nil => simp
  | cons name names ih =>
      cases tree with
      | file content => rfl
      | folder entries =>
          rw [List.cons_append, at?_folder, at?_folder]
          cases Dictionary.lookup? name entries with
          | none => rfl
          | some next => exact ih next

/-- **The file at the end of a way** is the one that the tree holds there. -/
theorem fileAt?_eq_some_iff {p : String → Prop} {tree : Tree} (htree : tree.Named p)
    {names : List String} {content : ByteArray} :
    tree.fileAt? names = some content ↔ tree.Holds names content := by
  induction names generalizing tree with
  | nil =>
      cases tree with
      | file other => simp [fileAt?, content?, holds_file_iff, eq_comm]
      | folder entries => simp [fileAt?, content?, holds_folder_iff]
  | cons name names ih =>
      cases tree with
      | file other => simp [fileAt?, holds_file_iff]
      | folder entries =>
          cases htree with
          | folder hnodup _ hnamed =>
              rw [holds_folder_iff, fileAt?, at?_folder]
              constructor
              · intro h
                cases hlookup : Dictionary.lookup? name entries with
                | none =>
                    rw [hlookup] at h
                    cases h
                | some next =>
                    rw [hlookup] at h
                    have hmem := Dictionary.mem_of_lookup? hlookup
                    exact ⟨(name, next), hmem, names, rfl, (ih (hnamed _ hmem)).mp h⟩
              · rintro ⟨⟨other, next⟩, hmem, rest, heq, hholds⟩
                obtain ⟨rfl, rfl⟩ := List.cons.inj heq
                rw [Dictionary.lookup?_of_mem hnodup hmem]
                exact (ih (hnamed _ hmem)).mpr hholds

end Tree

namespace Disk

open ContentCatalog.Tree

/-! ### Following a path -/

/-- An operation on a place comes to an end if a disk takes its path. -/
theorem guarded_eq_ok_iff {α : Type} {place : Place} {result : Except Cause α} {a : α} :
    guarded place result = .ok a ↔
      place.holdsNull = false ∧ ¬ pathLimit < place.text.utf8ByteSize ∧ result = .ok a := by
  rw [guarded]
  cases hnull : place.holdsNull with
  | true => simp
  | false =>
      by_cases hlong : pathLimit < place.text.utf8ByteSize
      · simp [hlong]
      · cases result <;> simp [hlong, Except.mapError]

/-- An entry that is found is there. -/
theorem lookup?_of_entry {name : String} {entries : List (String × Tree)} {tree : Tree}
    (h : entry? name entries = .ok tree) : Dictionary.lookup? name entries = some tree := by
  unfold entry? at h
  split at h
  · cases h
  · split at h
    · next hlookup => rw [hlookup, Except.ok.inj h]
    · cases h

/-- A double dot leads to the folder above; at the top it leads nowhere. -/
theorem follow_dots (above : List (String × Tree)) (entries : List (String × Tree))
    (names : List String) :
    follow above (.folder entries) (".." :: names) =
      match above with
      | [] => follow [] (.folder entries) names
      | (_, upper) :: above => follow above upper names := by
  cases above <;> simp [follow]

/-- A name that is no double dot leads to its entry. -/
theorem follow_name {name : String} (h : name ≠ "..") (above : List (String × Tree))
    (entries : List (String × Tree)) (names : List String) :
    follow above (.folder entries) (name :: names) =
      match entry? name entries with
      | .ok next => follow ((name, .folder entries) :: above) next names
      | .error cause => .error cause := by
  cases hentry : entry? name entries <;> simp [follow, h, hentry]

/-- The names of the folders above are a way to where one stands. -/
def wayOf (above : List (String × Tree)) : List String :=
  (above.map (·.1)).reverse

/-- One name further the way has this name at its end. -/
theorem wayOf_cons (name : String) (tree : Tree) (above : List (String × Tree)) :
    wayOf ((name, tree) :: above) = wayOf above ++ [name] := by
  simp [wayOf]

/-- The folders above are those on the way. -/
def AboveIn (root : Tree) : List (String × Tree) → Prop
  | [] => True
  | (_, upper) :: above => root.at? (wayOf above) = some upper ∧ AboveIn root above

/-- Where one stands in a tree while a path is followed. -/
structure StandsIn (root : Tree) (above : List (String × Tree)) (tree : Tree) : Prop where
  here : root.at? (wayOf above) = some tree
  above : AboveIn root above

theorem standsIn_root (root : Tree) : StandsIn root [] root :=
  ⟨root.at?_nil, trivial⟩

/-- One name up. -/
theorem StandsIn.up {root tree upper : Tree} {name : String} {above : List (String × Tree)}
    (h : StandsIn root ((name, upper) :: above) tree) : StandsIn root above upper :=
  ⟨h.above.1, h.above.2⟩

/-- One name down. -/
theorem StandsIn.down {root next : Tree} {above entries : List (String × Tree)} {name : String}
    (h : StandsIn root above (.folder entries)) (hnext : entry? name entries = .ok next) :
    StandsIn root ((name, .folder entries) :: above) next := by
  refine ⟨?_, h.here, h.above⟩
  rw [wayOf_cons, at?_append, h.here, Option.bind_some, at?_folder, lookup?_of_entry hnext,
    Option.bind_some, at?_nil]

/-- **The way that was followed** ends where it is said to. -/
theorem at?_of_follow {root tree found : Tree} {above : List (String × Tree)}
    {names way : List String} (hstands : StandsIn root above tree)
    (h : follow above tree names = .ok (way, found)) : root.at? way = some found := by
  induction names generalizing above tree with
  | nil =>
      obtain ⟨rfl, rfl⟩ := Prod.mk.inj (Except.ok.inj h)
      exact hstands.here
  | cons name names ih =>
      cases tree with
      | file content => cases h
      | folder entries =>
          by_cases hdots : name = ".."
          · rw [hdots, follow_dots] at h
            cases above with
            | nil => exact ih hstands h
            | cons upper above => exact ih hstands.up h
          · rw [follow_name hdots] at h
            cases hentry : entry? name entries with
            | error cause =>
                rw [hentry] at h
                cases h
            | ok next =>
                rw [hentry] at h
                exact ih (hstands.down hentry) h

/-- **Without double dots** a path is followed name by name, and only a name that is too
long stands in the way of what is there. -/
theorem follow_of_no_dots {names : List String} (hdots : ".." ∉ names)
    (above : List (String × Tree)) (tree : Tree) :
    (∃ found, tree.at? names = some found ∧
        follow above tree names = .ok (wayOf above ++ names, found)) ∨
      follow above tree names = .error .nameTooLong ∨
      tree.at? names = none ∧ ∃ cause, follow above tree names = .error cause := by
  induction names generalizing above tree with
  | nil => exact .inl ⟨tree, at?_nil tree, by rw [List.append_nil]; cases tree <;> rfl⟩
  | cons name names ih =>
      rw [List.mem_cons, not_or] at hdots
      cases tree with
      | file content => exact .inr (.inr ⟨rfl, _, rfl⟩)
      | folder entries =>
          rw [follow_name (Ne.symm hdots.1), at?_folder, entry?]
          split_ifs
          · exact .inr (.inl rfl)
          · cases hlookup : Dictionary.lookup? name entries with
            | none => exact .inr (.inr ⟨rfl, _, rfl⟩)
            | some next =>
                have hnext := ih hdots.2 ((name, .folder entries) :: above) next
                rwa [wayOf_cons, List.append_assoc] at hnext

/-- A path that was followed has no name that is too long. -/
theorem short_of_follow {above : List (String × Tree)} {tree found : Tree}
    {names way : List String} (hdots : ".." ∉ names)
    (h : follow above tree names = .ok (way, found)) :
    ∀ name ∈ names, name.utf8ByteSize ≤ nameLimit := by
  induction names generalizing above tree with
  | nil => simp
  | cons name names ih =>
      rw [List.mem_cons, not_or] at hdots
      cases tree with
      | file content => cases h
      | folder entries =>
          rw [follow_name (Ne.symm hdots.1)] at h
          cases hentry : entry? name entries with
          | error cause =>
              rw [hentry] at h
              cases h
          | ok next =>
              rw [hentry] at h
              refine List.forall_mem_cons.mpr ⟨?_, ih hdots.2 h⟩
              unfold entry? at hentry
              split at hentry
              · cases hentry
              · next hshort => exact Nat.not_lt.mp hshort

/-- **A name that is too long** is noticed only where there is a folder to look into. -/
theorem follow_eq_tooLong_iff {names : List String} {name : String}
    (hdots : ".." ∉ names ++ [name]) (hshort : ∀ other ∈ names, other.utf8ByteSize ≤ nameLimit)
    (above : List (String × Tree)) (tree : Tree) :
    follow above tree (names ++ [name]) = .error .nameTooLong ↔
      tree.FolderAt names ∧ nameLimit < name.utf8ByteSize := by
  induction names generalizing above tree with
  | nil =>
      cases tree with
      | file content => simp [follow, FolderAt]
      | folder entries =>
          have hname : name ≠ ".." := by
            rintro rfl
            exact hdots (List.mem_singleton_self _)
          have hfolder : (Tree.folder entries).FolderAt [] := ⟨entries, at?_nil _⟩
          rw [List.nil_append, follow_name hname, entry?]
          split_ifs with hlong
          · simp [hfolder, hlong]
          · cases Dictionary.lookup? name entries <;> simp [hlong, follow]
  | cons first names ih =>
      rw [List.cons_append, List.mem_cons, not_or] at hdots
      obtain ⟨hfirst, hothers⟩ := List.forall_mem_cons.mp hshort
      cases tree with
      | file content => simp [follow, FolderAt]
      | folder entries =>
          rw [List.cons_append, follow_name (Ne.symm hdots.1), entry?, FolderAt, at?_folder,
            if_neg (Nat.not_lt.mpr hfirst)]
          cases Dictionary.lookup? first entries with
          | none => simp
          | some next => exact ih hdots.2 hothers ((first, .folder entries) :: above) next

/-- Only from a folder does a path lead to a folder. -/
theorem exists_entries_of_follow {above : List (String × Tree)} {tree : Tree}
    {names way : List String} {entries : List (String × Tree)}
    (h : follow above tree names = .ok (way, .folder entries)) :
    ∃ others, tree = .folder others := by
  cases tree with
  | folder others => exact ⟨others, rfl⟩
  | file content =>
      cases names with
      | nil => cases (Prod.mk.inj (Except.ok.inj h)).2
      | cons name names => cases h

/-- **A path can still be followed** in a tree in which all folders of the first one are
folders. -/
theorem follow_of_folders {root other : Tree}
    (hfolders : ∀ way, root.FolderAt way → other.FolderAt way) {names way : List String}
    {entries : List (String × Tree)} {above above' : List (String × Tree)} {tree tree' : Tree}
    (hstands : StandsIn root above tree) (hstands' : StandsIn other above' tree')
    (hway : wayOf above' = wayOf above)
    (h : follow above tree names = .ok (way, .folder entries)) :
    ∃ others, follow above' tree' names = .ok (way, .folder others) := by
  induction names generalizing above above' tree tree' with
  | nil =>
      obtain ⟨rfl, rfl⟩ := Prod.mk.inj (Except.ok.inj h)
      obtain ⟨others, hothers⟩ := hfolders _ ⟨entries, hstands.here⟩
      have hhere := hstands'.here
      rw [hway] at hhere
      have htree' : tree' = .folder others := Option.some.inj (hhere.symm.trans hothers)
      exact ⟨others, by rw [htree']; exact congrArg (fun way => Except.ok (way, _)) hway⟩
  | cons name names ih =>
      obtain ⟨upper, rfl⟩ := exists_entries_of_follow h
      obtain ⟨upper', hupper'⟩ := hfolders _ ⟨upper, hstands.here⟩
      have hhere := hstands'.here
      rw [hway] at hhere
      obtain rfl : tree' = .folder upper' := Option.some.inj (hhere.symm.trans hupper')
      by_cases hdots : name = ".."
      · subst hdots
        rw [follow_dots] at h ⊢
        cases above with
        | nil =>
            cases above' with
            | nil => exact ih hstands hstands' rfl h
            | cons first above' => simp [wayOf] at hway
        | cons first above =>
            cases above' with
            | nil => simp [wayOf] at hway
            | cons first' above' =>
                rw [wayOf_cons, wayOf_cons] at hway
                exact ih hstands.up hstands'.up (List.append_inj_left' hway rfl) h
      · rw [follow_name hdots] at h ⊢
        cases hentry : entry? name upper with
        | error cause =>
            rw [hentry] at h
            cases h
        | ok next =>
            rw [hentry] at h
            have hnext := hstands.down hentry
            obtain ⟨inner, rfl⟩ := exists_entries_of_follow h
            obtain ⟨inner', hinner'⟩ := hfolders _ ⟨inner, hnext.here⟩
            have hentry' : entry? name upper' = .ok (.folder inner') := by
              rw [wayOf_cons, at?_append, hupper', Option.bind_some, at?_folder] at hinner'
              unfold entry? at hentry ⊢
              split_ifs at hentry ⊢
              cases hlookup : Dictionary.lookup? name upper' with
              | none =>
                  rw [hlookup] at hinner'
                  cases hinner'
              | some found =>
                  rw [hlookup, Option.bind_some, at?_nil] at hinner'
                  rw [Option.some.inj hinner']
            rw [hentry']
            exact ih hnext (hstands'.down hentry') (by rw [wayOf_cons, wayOf_cons, hway]) h

/-! ### Something new in a tree -/

/-- A folder is what is there and no file. -/
theorem folderAt_iff {tree : Tree} {names : List String} :
    tree.FolderAt names ↔ (tree.at? names).map content? = some none := by
  rw [FolderAt]
  cases tree.at? names with
  | none => simp
  | some found => cases found <;> simp [content?]

/-- Which bytes a file has is seen by what is there. -/
theorem fileAt?_eq_join (tree : Tree) (names : List String) :
    tree.fileAt? names = ((tree.at? names).map content?).join := by
  rw [fileAt?]
  cases tree.at? names <;> rfl

/-- What is found under a name after the entries of one name were changed. -/
theorem lookup?_changed (change : Tree → Tree) (next name : String)
    (entries : List (String × Tree)) :
    Dictionary.lookup? name (entries.map fun entry =>
        if entry.1 = next then (entry.1, change entry.2) else entry) =
      if name = next then (Dictionary.lookup? name entries).map change
      else Dictionary.lookup? name entries := by
  induction entries with
  | nil => simp [Dictionary.lookup?]
  | cons entry entries ih =>
      obtain ⟨key, tree⟩ := entry
      rw [List.map_cons, Dictionary.lookup?_cons name key tree]
      by_cases hkey : key = name
      · subst hkey
        by_cases hnext : key = next <;> simp [Dictionary.lookup?_cons, hnext]
      · rw [if_neg hkey, ← ih]
        by_cases hnext : key = next
        · subst hnext
          simp [Dictionary.lookup?_cons, hkey]
        · simp [Dictionary.lookup?_cons, hkey, hnext]

/-- **Something new stands where it was put.** -/
theorem at?_putAt_self {tree : Tree} {names : List String} (h : tree.FolderAt names)
    (name : String) (new : Tree) (rest : List String) :
    (putAt names name new tree).at? (names ++ name :: rest) = new.at? rest := by
  induction names generalizing tree with
  | nil =>
      obtain ⟨entries, hentries⟩ := h
      obtain rfl : tree = .folder entries := Option.some.inj ((at?_nil tree).symm.trans hentries)
      rw [List.nil_append, putAt, at?_folder, Dictionary.lookup?_put_self, Option.bind_some]
  | cons next names ih =>
      obtain ⟨entries, hentries⟩ := h
      cases tree with
      | file content => cases hentries
      | folder others =>
          rw [at?_folder] at hentries
          obtain ⟨inner, hinner, hfound⟩ := Option.bind_eq_some_iff.mp hentries
          rw [List.cons_append, putAt, at?_folder, lookup?_changed, if_pos rfl, hinner,
            Option.map_some, Option.bind_some]
          exact ih ⟨entries, hfound⟩

/-- What is put where something was put before takes its place. -/
theorem putAt_putAt (names : List String) (name : String) (new old tree : Tree) :
    putAt names name new (putAt names name old tree) = putAt names name new tree := by
  induction names generalizing tree with
  | nil =>
      cases tree with
      | file content => rfl
      | folder entries => rw [putAt, putAt, putAt, Dictionary.put_put]
  | cons next names ih =>
      cases tree with
      | file content => rfl
      | folder entries =>
          rw [putAt, putAt, putAt, List.map_map]
          refine congrArg Tree.folder (List.map_congr_left fun entry _ => ?_)
          by_cases hnext : entry.1 = next
          · simp [hnext, ih]
          · simp [hnext]

/-- What does not show in the changed entries does not show in the folder. -/
theorem label_changed {change : Tree → Tree} {next first : String} {other : List String}
    (h : first = next → ∀ inner : Tree,
      ((change inner).at? other).map content? = (inner.at? other).map content?)
    (entries : List (String × Tree)) :
    ((Tree.folder (entries.map fun entry =>
        if entry.1 = next then (entry.1, change entry.2) else entry)).at? (first :: other)).map
          content? = ((Tree.folder entries).at? (first :: other)).map content? := by
  rw [at?_folder, at?_folder, lookup?_changed]
  split_ifs with hfirst
  · cases Dictionary.lookup? first entries with
    | none => rfl
    | some inner => exact h hfirst inner
  · rfl

/-- **Nothing else is changed** by it: elsewhere folders are folders still, and files have
the same bytes. -/
theorem label_putAt_other {names other : List String} {name : String}
    (h : ¬ names ++ [name] <+: other) (new tree : Tree) :
    ((putAt names name new tree).at? other).map content? = (tree.at? other).map content? := by
  induction names generalizing tree other with
  | nil =>
      cases tree with
      | file content => cases other <;> rfl
      | folder entries =>
          cases other with
          | nil => rfl
          | cons first other =>
              have hne : first ≠ name := by
                rintro rfl
                exact h ⟨other, rfl⟩
              rw [putAt, at?_folder, at?_folder, Dictionary.lookup?_put_other hne]
  | cons next names ih =>
      cases tree with
      | file content => cases other <;> rfl
      | folder entries =>
          cases other with
          | nil => rfl
          | cons first other =>
              refine label_changed (fun hfirst inner => ih ?_ inner) entries
              intro hprefix
              exact h (List.cons_prefix_cons.mpr ⟨hfirst.symm, hprefix⟩)

/-! ### Something taken out of a tree -/

/-- What is found under a name after the entries of one name were taken out. -/
theorem lookup?_removed (gone name : String) (entries : List (String × Tree)) :
    Dictionary.lookup? name (entries.filter fun entry => entry.1 != gone) =
      if name = gone then none else Dictionary.lookup? name entries := by
  induction entries with
  | nil => simp [Dictionary.lookup?]
  | cons entry entries ih =>
      obtain ⟨key, tree⟩ := entry
      rw [List.filter_cons]
      by_cases hgone : key = gone
      · subst hgone
        rw [if_neg (by simp), ih, Dictionary.lookup?_cons]
        by_cases hname : key = name
        · simp [hname]
        · rw [if_neg hname]
      · rw [if_pos (by simpa using hgone), Dictionary.lookup?_cons, Dictionary.lookup?_cons, ih]
        by_cases hkey : key = name
        · subst hkey
          rw [if_pos rfl, if_neg hgone, if_pos rfl]
        · rw [if_neg hkey, if_neg hkey]

/-- **What was taken out** is not there. -/
theorem at?_dropAt_self (names : List String) (name : String) (rest : List String) (tree : Tree) :
    (dropAt names name tree).at? (names ++ name :: rest) = none := by
  induction names generalizing tree with
  | nil =>
      cases tree with
      | file content => rfl
      | folder entries =>
          rw [List.nil_append, dropAt, at?_folder, lookup?_removed, if_pos rfl, Option.bind_none]
  | cons next names ih =>
      cases tree with
      | file content => rfl
      | folder entries =>
          rw [List.cons_append, dropAt, at?_folder, lookup?_changed, if_pos rfl]
          cases Dictionary.lookup? next entries with
          | none => rfl
          | some inner => exact ih inner

/-- Nothing else is changed by it. -/
theorem label_dropAt_other {names other : List String} {name : String}
    (h : ¬ names ++ [name] <+: other) (tree : Tree) :
    ((dropAt names name tree).at? other).map content? = (tree.at? other).map content? := by
  induction names generalizing tree other with
  | nil =>
      cases tree with
      | file content => cases other <;> rfl
      | folder entries =>
          cases other with
          | nil => rfl
          | cons first other =>
              have hne : first ≠ name := by
                rintro rfl
                exact h ⟨other, rfl⟩
              rw [dropAt, at?_folder, at?_folder, lookup?_removed, if_neg hne]
  | cons next names ih =>
      cases tree with
      | file content => cases other <;> rfl
      | folder entries =>
          cases other with
          | nil => rfl
          | cons first other =>
              refine label_changed (fun hfirst inner => ih ?_ inner) entries
              intro hprefix
              exact h (List.cons_prefix_cons.mpr ⟨hfirst.symm, hprefix⟩)

end Disk

end ContentCatalog
