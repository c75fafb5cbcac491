import ContentCatalog.Proofs.FileNames
import ContentCatalog.Proofs.SuccessiveResults

/-!
# Names on a disk

On a disk no folder has a name twice, and every name is one that a file can have.  The
operations on a disk keep it so, as long as the places that they are given are made of such
names and double dots.

* `isPath_ofText` : the place that a text names is such a place;
* `named_putAt`, `named_dropAt` : what is put into a tree or taken out of it;
* `named_write` : a writing of results.
-/

namespace ContentCatalog

/-! ### Places of texts -/

/-- The place is made of names of files and double dots. -/
def Place.IsPath (place : Place) : Prop :=
  ∀ name ∈ place.parts, IsName name ∨ name = ".."

/-- **A text names a place** that is made of names and double dots. -/
theorem isPath_ofText (path : String) : (Place.ofText path).IsPath := by
  intro name hname
  obtain ⟨segment, hsegment, rfl⟩ := List.mem_map.mp hname
  obtain ⟨hmem, hkept⟩ := List.mem_filter.mp hsegment
  rw [Bool.and_eq_true, bne_iff_ne, bne_iff_ne] at hkept
  have hne : ∀ word : List Char, segment ≠ word → String.ofList segment ≠ String.ofList word :=
    fun word h heq => h (String.ofList_injective heq)
  by_cases hdots : String.ofList segment = ".."
  · exact .inr hdots
  · refine .inl ⟨hne [] hkept.1, hne ['.'] hkept.2, hdots, ?_⟩
    rw [String.toList_ofList]
    exact Text.not_mem_of_mem_segments hmem

/-- A name below such a place gives another one. -/
theorem Place.IsPath.child {place : Place} (h : place.IsPath) {name : String}
    (hname : IsName name) : (place.child name).IsPath := by
  intro other hother
  rcases List.mem_append.mp hother with hother | hother
  · exact h other hother
  · exact .inl (List.mem_singleton.mp hother ▸ hname)

theorem Place.IsPath.parent {place : Place} (h : place.IsPath) : place.parent.IsPath :=
  fun name hname => h name (List.dropLast_subset _ hname)

namespace Tree

open Disk

variable {p : String → Prop}

/-! ### Changes of a tree -/

/-- A change below a name keeps the names. -/
theorem named_changed {change : Tree → Tree}
    (hchange : ∀ tree : Tree, tree.Named p → (change tree).Named p)
    {entries : List (String × Tree)} (h : (Tree.folder entries).Named p) (next : String) :
    (Tree.folder (entries.map fun entry =>
      if entry.1 = next then (entry.1, change entry.2) else entry)).Named p := by
  obtain ⟨hnodup, hnames, hparts⟩ := named_folder_iff.mp h
  have hfirst : ∀ entry : String × Tree,
      (if entry.1 = next then (entry.1, change entry.2) else entry).1 = entry.1 := by
    intro entry
    split_ifs <;> rfl
  refine .folder ?_ (List.forall_mem_map.mpr fun entry hentry => ?_)
    (List.forall_mem_map.mpr fun entry hentry => ?_)
  · rwa [List.map_map, show Prod.fst ∘ _ = Prod.fst from funext hfirst]
  · rw [hfirst]
    exact hnames entry hentry
  · split_ifs
    · exact hchange _ (hparts entry hentry)
    · exact hparts entry hentry

/-- **Something new** under a name that is allowed keeps the names. -/
theorem named_putAt {new : Tree} (hnew : new.Named p) {name : String} (hname : p name)
    (names : List String) {tree : Tree} (h : tree.Named p) :
    (putAt names name new tree).Named p := by
  induction names generalizing tree with
  | nil =>
      cases tree with
      | file content => exact h
      | folder entries =>
          obtain ⟨hnodup, hnames, hparts⟩ := named_folder_iff.mp h
          refine .folder (Dictionary.nodup_keys_put hnodup) ?_ ?_
          · intro entry hentry
            rcases Dictionary.mem_put hentry with rfl | hentry
            · exact hname
            · exact hnames entry hentry
          · intro entry hentry
            rcases Dictionary.mem_put hentry with rfl | hentry
            · exact hnew
            · exact hparts entry hentry
  | cons next names ih =>
      cases tree with
      | file content => exact h
      | folder entries => exact named_changed (fun _ => ih) h next

/-- So does taking something out. -/
theorem named_dropAt (names : List String) (name : String) {tree : Tree} (h : tree.Named p) :
    (dropAt names name tree).Named p := by
  induction names generalizing tree with
  | nil =>
      cases tree with
      | file content => exact h
      | folder entries =>
          obtain ⟨hnodup, hnames, hparts⟩ := named_folder_iff.mp h
          refine .folder (hnodup.sublist (List.filter_sublist.map Prod.fst)) ?_ ?_
          · exact fun entry hentry => hnames entry (List.mem_filter.mp hentry).1
          · exact fun entry hentry => hparts entry (List.mem_filter.mp hentry).1
  | cons next names ih =>
      cases tree with
      | file content => exact h
      | folder entries => exact named_changed (fun _ => ih) h next

end Tree

namespace Disk

open ContentCatalog.Tree

/-! ### Operations -/

/-- Names that are all allowed are so afterwards. -/
def NamesKept (before after : Tree) : Prop :=
  before.Named IsName → after.Named IsName

theorem composable_namesKept : Composable NamesKept where
  refl := fun _ => id
  trans := fun hfirst hsecond h => hsecond (hfirst h)

/-- Something new gets a name that a file can have. -/
theorem EndsAt.isName {root : Tree} {place : Place} {way : List String} {name : String}
    {found : Option Tree} (h : EndsAt root place way name found) (hplace : place.IsPath) :
    IsName name :=
  (hplace name (List.mem_of_getLast? h.last)).resolve_right h.notDots

section Operations

variable {ε : Type} {medium : Medium ε} {place : Place}

/-- Making a folder keeps the names. -/
theorem leads_tryFolder (hplace : place.IsPath) :
    Leads NamesKept (tryFolder medium place) := by
  intro state
  rw [run_tryFolder]
  split
  · exact id
  · next slot hslot =>
      have hempty : (Tree.folder []).Named IsName := .folder (by simp) (by simp) (by simp)
      exact named_putAt hempty ((endsAt_of_forFolder hslot).isName hplace) slot.1

theorem leads_ensureFolder (hplace : place.IsPath) :
    Leads NamesKept (ensureFolder medium place) :=
  leads_makeFolders composable_namesKept Place.IsPath (fun _ => Place.IsPath.parent)
    leads_tryFolder _ hplace

/-- So does writing a file, as far as the medium takes it. -/
theorem leads_writeFile (hplace : place.IsPath) (content : ByteArray) :
    Leads NamesKept (writeFile medium place content) := by
  intro state
  have hput : ∀ slot bytes, medium.slot place Target.forFile state = .ok slot →
      NamesKept state.tree (putAt slot.1 slot.2 (.file bytes) state.tree) := by
    intro slot bytes hslot
    obtain ⟨_, hends, -⟩ := endsAt_of_forFile hslot
    exact named_putAt (.file bytes) (hends.isName hplace) slot.1
  rcases hrun : (writeFile medium place content).run.run state with ⟨result, after⟩
  rcases writeFile_cases hrun with
    ⟨_, -, rfl⟩ | ⟨slot, hslot, ⟨-, hafter⟩ | ⟨_, _, _, -, -, hafter⟩⟩
  · exact id
  · exact hafter ▸ hput slot _ hslot
  · exact hafter ▸ hput slot _ hslot

theorem leads_removeFile : Leads NamesKept (removeFile medium place) := by
  intro state
  rw [removeFile, run_get_bind]
  split
  · exact id
  · exact id
  · exact id
  · split
    · exact id
    · exact named_dropAt _ _
  · exact id

end Operations

end Disk

namespace Output

open Disk

variable {ε : Type} {medium : Medium ε} {unwritten : Json.WriteFault → ε}

/-- Writing a value keeps the names of the disk. -/
theorem leads_writeValue {out : Place} (hout : out.IsPath) {name : String} (hname : IsName name)
    (value : Value) : Leads NamesKept (writeValue medium unwritten (out.child name) value) := by
  refine leads_bind composable_namesKept ?_ fun _ => ?_
  · rw [Place.parent_child]
    exact leads_ensureFolder hout
  · split
    · exact leads_writeFile (hout.child hname) _
    · exact fun _ => id

/-- **A writing of results** that comes to its end keeps the names of the disk. -/
theorem named_write {result : Scan.Result} {out : Place} {disk : State} {written : Written}
    (hout : out.IsPath) (hdisk : disk.tree.Named IsName)
    (h : (write result out disk).2.result = .ok written) :
    (write result out disk).1.tree.Named IsName := by
  have hok : (writeOn Medium.disk .output result out disk).2.2 = .ok written := h
  obtain ⟨-, first, second, hmanifest, hbuild, herrors⟩ := steps_of_writeOn hok
  have hfirst := (leads_writeValue hout (by decide) _).of_run hmanifest hdisk
  have hsecond := (leads_writeValue hout (by decide) _).of_run hbuild hfirst
  have hthird : Leads NamesKept (writeErrors Medium.disk .output result out) := by
    rw [writeErrors]
    split
    · exact leads_removeFile
    · exact leads_writeValue hout (by decide) _
  exact hthird.of_run herrors hsecond

end Output

end ContentCatalog
