import ContentCatalog.Proofs.ScanStages
import ContentCatalog.Proofs.TreeFiles

/-!
# What operations on a disk keep

An operation writes some files and makes some folders.  All other files have the same bytes
after it, and what was a folder is one still, whether the operation comes to its end or not,
and whatever the medium stops.

* `Overwritten` : nothing but the files of a list was written between two trees;
* `keeps_ensureFolder` : making folders leaves all files as they were;
* `writeFile_cases` : a writing is refused, or comes to its end, or is stopped on the way;
* `writtenAt_of_writeFile`, `kept_or_begun_of_writeFile` : it leaves all other files as they
  were;
* `kept_of_removeFile` : a file that is not removed is as it was.
-/

namespace ContentCatalog.Disk

open ContentCatalog.Tree

/-- Between two trees nothing but the files of the list was written, and no folder was
lost. -/
structure Overwritten (before after : Tree) (written : List (List String × ByteArray)) : Prop where
  new : ∀ file ∈ written, after.fileAt? file.1 = some file.2
  others : ∀ names, names ∉ written.map Prod.fst → after.fileAt? names = before.fileAt? names
  folders : ∀ names, before.FolderAt names → after.FolderAt names

theorem Overwritten.refl (tree : Tree) : Overwritten tree tree [] where
  new := List.forall_mem_nil _
  others := fun _ _ => rfl
  folders := fun _ => id

/-- **One after the other**: what was written first is there still if it was not written
again. -/
theorem Overwritten.append {before between after : Tree}
    {first second : List (List String × ByteArray)} (hfirst : Overwritten before between first)
    (hsecond : Overwritten between after second)
    (hfresh : ∀ file ∈ first, file.1 ∉ second.map Prod.fst) :
    Overwritten before after (first ++ second) where
  new := by
    intro file hfile
    rcases List.mem_append.mp hfile with hfile | hfile
    · rw [hsecond.others _ (hfresh file hfile), hfirst.new file hfile]
    · exact hsecond.new file hfile
  others := by
    intro names hnames
    rw [List.map_append, List.mem_append, not_or] at hnames
    rw [hsecond.others names hnames.2, hfirst.others names hnames.1]
  folders := fun names h => hsecond.folders names (hfirst.folders names h)

/-- A folder is found on the same way as before, as long as no folder is lost. -/
theorem follow_of_kept {before after : Tree}
    (hfolders : ∀ names, before.FolderAt names → after.FolderAt names) {names way : List String}
    {entries : List (String × Tree)} (h : follow [] before names = .ok (way, .folder entries)) :
    ∃ others, follow [] after names = .ok (way, .folder others) :=
  follow_of_folders hfolders (standsIn_root _) (standsIn_root _) rfl h

/-- And on no other way. -/
theorem way_of_kept {before after : Tree}
    (hfolders : ∀ names, before.FolderAt names → after.FolderAt names)
    {names way way' : List String} {entries entries' : List (String × Tree)}
    (h : follow [] before names = .ok (way, .folder entries))
    (h' : follow [] after names = .ok (way', .folder entries')) : way = way' := by
  obtain ⟨others, hothers⟩ := follow_of_kept hfolders h
  rw [hothers] at h'
  exact (Prod.mk.inj (Except.ok.inj h')).1

/-! ### Running operations -/

variable {ε α β : Type}

/-- The second of two operations runs from where the first one came to. -/
theorem run_bind (action : Action ε α) (next : α → Action ε β) (state : State) :
    (action >>= next).run.run state =
      match action.run.run state with
      | (.ok a, state) => (next a).run.run state
      | (.error failure, state) => (.error failure, state) := by
  rw [ExceptT.run_bind, StateT.run_bind]
  show (match (action.run.run state).1 with
    | .ok a => (next a).run
    | .error failure => pure (.error failure)).run (action.run.run state).2 = _
  rcases action.run.run state with ⟨result, after⟩
  cases result <;> rfl

/-- An operation that begins with a look at the state. -/
theorem run_get_bind (next : State → Action ε α) (state : State) :
    (get >>= next : Action ε α).run.run state = (next state).run.run state := rfl

/-- Two operations in a row come to an end if both do. -/
theorem run_bind_eq_ok {action : Action ε α} {next : α → Action ε β} {state after : State} {b : β}
    (h : (action >>= next).run.run state = (.ok b, after)) :
    ∃ a between, action.run.run state = (.ok a, between) ∧
      (next a).run.run between = (.ok b, after) := by
  rw [run_bind] at h
  split at h
  · next a between haction => exact ⟨a, between, haction, h⟩
  · cases h

/-- They fail where the first one fails, or the second one after it. -/
theorem run_bind_eq_error {action : Action ε α} {next : α → Action ε β} {state after : State}
    {failure : ε} (h : (action >>= next).run.run state = (.error failure, after)) :
    action.run.run state = (.error failure, after) ∨
      ∃ a between, action.run.run state = (.ok a, between) ∧
        (next a).run.run between = (.error failure, after) := by
  rw [run_bind] at h
  split at h
  · next a between haction => exact .inr ⟨a, between, haction, h⟩
  · next other between haction =>
      cases h
      exact .inl haction

/-- Whatever comes of the operation, the tree after it is related to the one before. -/
def Leads (R : Tree → Tree → Prop) (action : Action ε α) : Prop :=
  ∀ state, R state.tree (action.run.run state).2.tree

/-- A relation of trees that holds where nothing is done, and of two steps in a row. -/
structure Composable (R : Tree → Tree → Prop) : Prop where
  refl : ∀ tree, R tree tree
  trans : ∀ {before between after}, R before between → R between after → R before after

/-- A run of the operation leads from its first tree to its last one. -/
theorem Leads.of_run {R : Tree → Tree → Prop} {action : Action ε α} (h : Leads R action)
    {state after : State} {result : Except ε α} (hrun : action.run.run state = (result, after)) :
    R state.tree after.tree := by
  simpa only [hrun] using h state

theorem leads_pure {R : Tree → Tree → Prop} (hR : Composable R) (a : α) :
    Leads R (pure a : Action ε α) :=
  fun state => hR.refl state.tree

/-- Two operations in a row lead to a related tree if both do. -/
theorem leads_bind {R : Tree → Tree → Prop} (hR : Composable R) {action : Action ε α}
    {next : α → Action ε β} (h : Leads R action) (hnext : ∀ a, Leads R (next a)) :
    Leads R (action >>= next) := by
  intro state
  rw [run_bind]
  split
  · next a between hrun => exact hR.trans (h.of_run hrun) (hnext a between)
  · next failure after hrun => exact h.of_run hrun

/-- The operation leaves every file as it was, whatever comes of it. -/
def Keeps (action : Action ε α) : Prop :=
  ∀ state, Overwritten state.tree (action.run.run state).2.tree []

/-- A run of an operation that keeps all files writes none. -/
theorem Keeps.overwritten {action : Action ε α} (h : Keeps action) {state after : State}
    {result : Except ε α} (hrun : action.run.run state = (result, after)) :
    Overwritten state.tree after.tree [] := by
  simpa only [hrun] using h state

theorem composable_kept : Composable fun before after => Overwritten before after [] where
  refl := .refl
  trans := fun hfirst hsecond => hfirst.append hsecond (List.forall_mem_nil _)

/-! ### What stands at the end of a place -/

/-- The folder at the end of a way has this under a name. -/
structure EndsAt (root : Tree) (place : Place) (way : List String) (name : String)
    (found : Option Tree) : Prop where
  last : place.parts.getLast? = some name
  notDots : name ≠ ".."
  folder : ∃ entries, follow [] root place.parts.dropLast = .ok (way, .folder entries) ∧
    Dictionary.lookup? name entries = found

/-- What is not found is not there. -/
theorem lookup?_of_notFound {name : String} {entries : List (String × Tree)}
    (h : entry? name entries = .error .notFound) : Dictionary.lookup? name entries = none := by
  unfold entry? at h
  split at h
  · cases h
  · split at h
    · cases h
    · next hlookup => exact hlookup

/-- What a target says of the tree. -/
theorem endsAt_of_target {root : Tree} {place : Place} {found : Target}
    (h : target root place = .ok found) :
    match found with
    | .vacant way name => EndsAt root place way name none
    | .occupied way name tree => EndsAt root place way name (some tree)
    | .unnamed => True := by
  rw [target] at h
  split at h
  · cases h
    trivial
  · next name hname =>
      split at h
      · cases h
      · cases h
      · next way entries hway =>
          split at h
          · cases h
            trivial
          · next hdots =>
              cases hentry : entry? name entries with
              | ok tree =>
                  rw [hentry] at h
                  cases h
                  exact ⟨hname, hdots, entries, hway, lookup?_of_entry hentry⟩
              | error cause =>
                  rw [hentry] at h
                  cases cause with
                  | notFound =>
                      cases h
                      exact ⟨hname, hdots, entries, hway, lookup?_of_notFound hentry⟩
                  | _ => cases h

section EndsAt

variable {root : Tree} {place : Place} {way : List String} {name : String} {found : Option Tree}

/-- The way leads to a folder. -/
theorem EndsAt.folderAt (h : EndsAt root place way name found) : root.FolderAt way := by
  obtain ⟨entries, hway, -⟩ := h.folder
  exact ⟨entries, at?_of_follow (standsIn_root root) hway⟩

/-- Below the name stands what is below the tree that was found there. -/
theorem EndsAt.at?_eq (h : EndsAt root place way name found) (rest : List String) :
    root.at? (way ++ name :: rest) = found.bind fun tree => tree.at? rest := by
  obtain ⟨entries, hway, hlookup⟩ := h.folder
  rw [at?_append, at?_of_follow (standsIn_root root) hway, Option.bind_some, at?_folder, hlookup]

/-- **Something new** where there was no folder, with nothing in it, leaves all other files
as they were. -/
theorem EndsAt.fileAt?_putAt (h : EndsAt root place way name found) {new : Tree}
    (hfound : ∀ tree ∈ found, ∃ content, tree = .file content)
    (hnew : ∀ key rest, new.at? (key :: rest) = none) {names : List String}
    (hnames : names ≠ way ++ [name]) :
    (putAt way name new root).fileAt? names = root.fileAt? names := by
  by_cases hprefix : way ++ [name] <+: names
  · obtain ⟨rest, rfl⟩ := hprefix
    rw [List.append_assoc, List.singleton_append, Tree.fileAt?, Tree.fileAt?,
      at?_putAt_self h.folderAt, h.at?_eq]
    cases rest with
    | nil => exact absurd (List.append_nil _) hnames
    | cons key rest =>
        rw [hnew]
        cases found with
        | none => rfl
        | some tree =>
            obtain ⟨content, rfl⟩ := hfound tree rfl
            rfl
  · rw [fileAt?_eq_join, fileAt?_eq_join, label_putAt_other hprefix]

/-- And every folder is one still. -/
theorem EndsAt.folderAt_putAt (h : EndsAt root place way name found) {new : Tree}
    (hfound : ∀ tree ∈ found, ∃ content, tree = .file content) {names : List String}
    (hfolder : root.FolderAt names) : (putAt way name new root).FolderAt names := by
  by_cases hprefix : way ++ [name] <+: names
  · obtain ⟨rest, rfl⟩ := hprefix
    obtain ⟨entries, hentries⟩ := hfolder
    rw [List.append_assoc, List.singleton_append, h.at?_eq] at hentries
    obtain ⟨tree, htree, hrest⟩ := Option.bind_eq_some_iff.mp hentries
    obtain ⟨content, rfl⟩ := hfound tree htree
    cases rest <;> cases hrest
  · rwa [folderAt_iff, label_putAt_other hprefix, ← folderAt_iff]

end EndsAt

/-! ### What is given a name -/

section Slot

variable {medium : Medium ε} {place : Place} {state : State} {slot : Slot}

/-- A name is given where the tree allows it. -/
theorem allowed_of_slot {allowed : Target → Except Cause Slot}
    (h : medium.slot place allowed state = .ok slot) :
    ∃ found, target state.tree place = .ok found ∧ allowed found = .ok slot := by
  unfold Medium.slot at h
  split at h
  · cases h
  · cases h
  · next hguarded hbars =>
      cases h
      exact bind_eq_ok_iff.mp (guarded_eq_ok_iff.mp hguarded).2.2

/-- **A folder** gets its name where nothing is. -/
theorem endsAt_of_forFolder (h : medium.slot place Target.forFolder state = .ok slot) :
    EndsAt state.tree place slot.1 slot.2 none := by
  obtain ⟨found, hfound, hallowed⟩ := allowed_of_slot h
  cases found with
  | vacant way name =>
      cases hallowed
      exact endsAt_of_target hfound
  | occupied way name tree => cases hallowed
  | unnamed => cases hallowed

/-- **A file** gets its name where nothing is or a file. -/
theorem endsAt_of_forFile (h : medium.slot place Target.forFile state = .ok slot) :
    ∃ found, EndsAt state.tree place slot.1 slot.2 found ∧
      ∀ tree ∈ found, ∃ content, tree = .file content := by
  obtain ⟨found, hfound, hallowed⟩ := allowed_of_slot h
  cases found with
  | vacant way name =>
      cases hallowed
      exact ⟨none, endsAt_of_target hfound, by simp⟩
  | occupied way name tree =>
      cases tree with
      | folder entries => cases hallowed
      | file old =>
          cases hallowed
          exact ⟨some (.file old), endsAt_of_target hfound, by simp⟩
  | unnamed => cases hallowed

end Slot

/-! ### Making folders -/

/-- Making a single folder leaves all files as they were. -/
theorem keeps_tryFolder (medium : Medium ε) (place : Place) :
    Keeps (tryFolder medium place) := by
  intro state
  rw [run_tryFolder]
  split
  · exact .refl state.tree
  · next slot hslot =>
      have hends := endsAt_of_forFolder hslot
      have hnone : ∀ tree ∈ (none : Option Tree), ∃ content, tree = .file content := by simp
      refine ⟨List.forall_mem_nil _, fun names _ => ?_, fun _ => hends.folderAt_putAt hnone⟩
      show (putAt slot.1 slot.2 (.folder []) state.tree).fileAt? names = _
      by_cases hnames : names = slot.1 ++ [slot.2]
      · rw [hnames, Tree.fileAt?, Tree.fileAt?, hends.at?_eq, at?_putAt_self hends.folderAt]
        rfl
      · exact hends.fileAt?_putAt hnone (fun _ _ => rfl) hnames

section Leads

variable {R : Tree → Tree → Prop} {medium : Medium ε}

/-- Looking at what stood in the way changes nothing. -/
theorem leads_acceptFolder (hR : Composable R) (place : Place) (obstacle : Obstacle ε) :
    Leads R (acceptFolder medium place obstacle) := by
  intro state
  rw [acceptFolder, run_get_bind]
  split <;> exact hR.refl state.tree

/-- **Making folders** does what making one does, folder by folder on the way up. -/
theorem leads_makeFolders (hR : Composable R) (good : Place → Prop)
    (hparent : ∀ place, good place → good place.parent)
    (htry : ∀ {place}, good place → Leads R (tryFolder medium place)) (fuel : Nat)
    {place : Place} (hplace : good place) : Leads R (makeFolders medium fuel place) := by
  induction fuel generalizing place with
  | zero =>
      rw [makeFolders]
      refine leads_bind hR (htry hplace) fun outcome => ?_
      split
      · exact leads_pure hR ()
      · exact leads_acceptFolder hR place _
  | succ fuel ih =>
      rw [makeFolders]
      refine leads_bind hR (htry hplace) fun outcome => ?_
      split
      · exact leads_pure hR ()
      · refine leads_bind hR (ih (hparent place hplace)) fun _ => leads_bind hR (htry hplace) ?_
        intro outcome
        split
        · exact leads_pure hR ()
        · exact leads_acceptFolder hR place _
      · exact leads_acceptFolder hR place _

end Leads

/-- **Making a folder** and those above it leaves all files as they were, also where it
fails. -/
theorem keeps_ensureFolder (medium : Medium ε) (place : Place) :
    Keeps (ensureFolder medium place) := by
  have h : Leads (fun before after => Overwritten before after []) (ensureFolder medium place) :=
    leads_makeFolders composable_kept (fun _ => True) (fun _ _ => trivial)
      (fun _ => keeps_tryFolder medium _) _ trivial
  exact h

/-! ### Writing and removing a file -/

section Writing

variable {medium : Medium ε} {place : Place} {content : ByteArray} {state after : State}

/-- **Writing a file** does one of three things.  It is refused, and nothing is changed; or it
puts all bytes where the file is; or the medium stops it, and the first ones are there. -/
theorem writeFile_cases {result : Except ε Unit}
    (h : (writeFile medium place content).run.run state = (result, after)) :
    (∃ failure, result = .error failure ∧ after = state) ∨
      ∃ slot, medium.slot place Target.forFile state = .ok slot ∧
        (result = .ok () ∧ after.tree = putAt slot.1 slot.2 (.file content) state.tree ∨
          ∃ opened count failure, medium.stops opened place content = some (count, failure) ∧
            result = .error failure ∧
            after.tree = putAt slot.1 slot.2 (.file (content.extract 0 count)) state.tree) := by
  rw [writeFile, run_bind, run_openFile] at h
  cases hslot : medium.slot place Target.forFile state with
  | error obstacle =>
      simp only [hslot] at h
      exact .inl ⟨_, (Prod.mk.inj h).1.symm, (Prod.mk.inj h).2.symm⟩
  | ok slot =>
      simp only [hslot, run_fillFile] at h
      refine .inr ⟨slot, rfl, ?_⟩
      -- The bytes are put where the file was emptied.
      split at h
      · obtain ⟨rfl, rfl⟩ := Prod.mk.inj h
        exact .inl ⟨rfl, putAt_putAt _ _ _ _ _⟩
      · next count failure hstops =>
          obtain ⟨rfl, rfl⟩ := Prod.mk.inj h
          exact .inr ⟨_, count, failure, hstops, rfl, putAt_putAt _ _ _ _ _⟩

/-- A file that gets its bytes under a name is the only one that is written. -/
theorem overwritten_of_slot {slot : Slot} (h : medium.slot place Target.forFile state = .ok slot)
    (bytes : ByteArray) :
    Overwritten state.tree (putAt slot.1 slot.2 (.file bytes) state.tree)
      [(slot.1 ++ [slot.2], bytes)] := by
  obtain ⟨found, hends, hfound⟩ := endsAt_of_forFile h
  refine ⟨?_, fun names hnames => ?_, fun names => hends.folderAt_putAt hfound⟩
  · rw [List.forall_mem_singleton, Tree.fileAt?, at?_putAt_self hends.folderAt]
    rfl
  · refine hends.fileAt?_putAt hfound (fun _ _ => rfl) ?_
    simpa using hnames

/-- The file that these bytes were written to is the one at the end of the place. -/
structure WrittenAt (place : Place) (before after : Tree) (bytes : ByteArray)
    (way : List String) (name : String) : Prop where
  last : place.parts.getLast? = some name
  folder : ∃ entries, follow [] before place.parts.dropLast = .ok (way, .folder entries)
  overwritten : Overwritten before after [(way ++ [name], bytes)]

/-- A file that gets its bytes under a name is the one at the end of the place. -/
theorem writtenAt_of_slot {slot : Slot} (h : medium.slot place Target.forFile state = .ok slot)
    {bytes : ByteArray} (hafter : after.tree = putAt slot.1 slot.2 (.file bytes) state.tree) :
    WrittenAt place state.tree after.tree bytes slot.1 slot.2 := by
  obtain ⟨found, hends, -⟩ := endsAt_of_forFile h
  obtain ⟨entries, hway, -⟩ := hends.folder
  exact ⟨hends.last, ⟨entries, hway⟩, hafter ▸ overwritten_of_slot h bytes⟩

/-- **A file that is written** has all its bytes, and all others are as they were. -/
theorem writtenAt_of_writeFile
    (h : (writeFile medium place content).run.run state = (.ok (), after)) :
    ∃ way name, WrittenAt place state.tree after.tree content way name := by
  rcases writeFile_cases h with
    ⟨_, hfailed, -⟩ | ⟨slot, hslot, ⟨-, hafter⟩ | ⟨_, _, _, _, hfailed, -⟩⟩
  · cases hfailed
  · exact ⟨_, _, writtenAt_of_slot hslot hafter⟩
  · cases hfailed

/-- **A file that is not written** is as it was, or the medium took the first of its bytes.  In
both cases all others are as they were. -/
theorem kept_or_begun_of_writeFile {failure : ε}
    (h : (writeFile medium place content).run.run state = (.error failure, after)) :
    after = state ∨ ∃ way name opened count,
      medium.stops opened place content = some (count, failure) ∧
      WrittenAt place state.tree after.tree (content.extract 0 count) way name := by
  rcases writeFile_cases h with
    ⟨_, -, hkept⟩ | ⟨slot, hslot, ⟨hdone, -⟩ | ⟨opened, count, _, hstops, hfailed, hafter⟩⟩
  · exact .inl hkept
  · cases hdone
  · cases hfailed
    exact .inr ⟨_, _, opened, count, hstops, writtenAt_of_slot hslot hafter⟩

/-- A file that is not removed is as it was, and so is everything else. -/
theorem kept_of_removeFile {failure : ε}
    (h : (removeFile medium place).run.run state = (.error failure, after)) : after = state := by
  rw [removeFile, run_get_bind] at h
  split at h
  · cases h
  · exact (Prod.mk.inj h).2.symm
  · cases h
  · split at h
    · exact (Prod.mk.inj h).2.symm
    · cases h
  · exact (Prod.mk.inj h).2.symm

end Writing

end ContentCatalog.Disk
