import ContentCatalog.Disk.Tree

/-!
# Changes of a disk

Making folders, writing and removing files.  A change that fails leaves what was
changed before it, so the tree is carried along also where an operation fails.
The changes made are listed in their order.

Not all that may stop a change shows in the tree: the medium can be full, worn out
or closed to writing.  A file is written in two steps.  Opening it takes away what
it held, and only then are its new bytes written, of which a medium that gives up
has taken the first ones.

* `run_openFile`, `run_fillFile` : the two steps of writing a file;
* `run_tryFolder` : making a single folder.
-/

namespace ContentCatalog.Disk

/-- A change that was made. -/
inductive Change where
  | made (folder : Place)
  | written (file : Place) (content : ByteArray)
  | removed (file : Place)

/-- A tree and the changes that led to it. -/
structure State where
  tree : Tree
  changes : List Change := []

/-- An operation that may change the tree. -/
abbrev Action (ε : Type) := ExceptT ε (StateM State)

/-- The tree with something new at a name of the folder that the names lead to. -/
def putAt : (names : List String) → (name : String) → (new : Tree) → Tree → Tree
  | _, _, _, .file content => .file content
  | [], name, new, .folder entries => .folder (Dictionary.put name new entries)
  | next :: names, name, new, .folder entries =>
    .folder (entries.map fun entry =>
      if entry.1 = next then (entry.1, putAt names name new entry.2) else entry)

/-- The tree without a name of the folder that the names lead to. -/
def dropAt : (names : List String) → (name : String) → Tree → Tree
  | _, _, .file content => .file content
  | [], name, .folder entries => .folder (entries.filter fun entry => entry.1 != name)
  | next :: names, name, .folder entries =>
    .folder (entries.map fun entry =>
      if entry.1 = next then (entry.1, dropAt names name entry.2) else entry)

/-- What stands at the end of a place: the way to its folder in names, its last
name, and what is there.  A place without a name, or one that ends in a double
dot, is a folder that exists. -/
inductive Target where
  | vacant (names : List String) (name : String)
  | occupied (names : List String) (name : String) (tree : Tree)
  | unnamed

/-- What stands at the end of a place. -/
def target (root : Tree) (place : Place) : Except Cause Target :=
  match place.parts.getLast? with
  | none => .ok .unnamed
  | some name =>
    match follow [] root place.parts.dropLast with
    | .error cause => .error cause
    | .ok (_, .file _) => .error .notFolder
    | .ok (names, .folder entries) =>
      if name = ".." then .ok .unnamed
      else
        match entry? name entries with
        | .ok tree => .ok (.occupied names name tree)
        | .error .notFound => .ok (.vacant names name)
        | .error cause => .error cause

/-- A name of a folder: the way to the folder in names, and the name. -/
abbrev Slot := List String × String

/-- A folder is made only where nothing is. -/
def Target.forFolder : Target → Except Cause Slot
  | .vacant names name => .ok (names, name)
  | _ => .error .exists

/-- A file is opened for writing where there is one or nothing. -/
def Target.forFile : Target → Except Cause Slot
  | .vacant names name => .ok (names, name)
  | .occupied names name (.file _) => .ok (names, name)
  | _ => .error .isFolder

/-- What a tree stands on.  It may stop changes that the tree allows. -/
structure Medium (ε : Type) where
  /-- The failure that comes of a fault in the tree. -/
  failure : Fault → ε
  /-- Why nothing is made, opened or removed at a place. -/
  bars : State → Place → Option ε
  /-- After how many bytes the writing of an open file ends early, and why. -/
  stops : State → Place → ByteArray → Option (Nat × ε)

/-- A medium that stops nothing. -/
def Medium.sound {ε : Type} (failure : Fault → ε) : Medium ε where
  failure := failure
  bars := fun _ _ => none
  stops := fun _ _ _ => none

/-- What stood in the way of a change: something in the tree, or the medium. -/
abbrev Obstacle (ε : Type) := Fault ⊕ ε

/-- The failure that comes of an obstacle. -/
def Medium.failureOf {ε : Type} (medium : Medium ε) : Obstacle ε → ε
  | .inl fault => medium.failure fault
  | .inr failure => failure

/-- The state with something new at a name of a folder. -/
def State.put (state : State) (slot : Slot) (new : Tree) (change : Change) : State where
  tree := putAt slot.1 slot.2 new state.tree
  changes := state.changes ++ [change]

section Operations

variable {ε : Type} (medium : Medium ε)

/-- The name that something new can have at the end of a place. -/
def Medium.slot (place : Place) (allowed : Target → Except Cause Slot) (state : State) :
    Except (Obstacle ε) Slot :=
  match guarded place ((target state.tree place).bind allowed), medium.bars state place with
  | .error fault, _ => .error (.inl fault)
  | .ok _, some failure => .error (.inr failure)
  | .ok slot, none => .ok slot

/-- Open a file for writing.  It is empty then, whether it was there or not. -/
def openFile (place : Place) : Action ε Slot := do
  let state ← get
  match medium.slot place Target.forFile state with
  | .error obstacle => throw (medium.failureOf obstacle)
  | .ok slot =>
    set (state.put slot (.file .empty) (.written place .empty))
    return slot

/-- Write into an open file, as far as the medium takes it. -/
def fillFile (place : Place) (slot : Slot) (content : ByteArray) : Action ε Unit := do
  let state ← get
  match medium.stops state place content with
  | none => set (state.put slot (.file content) (.written place content))
  | some (count, failure) =>
    let begun := content.extract 0 count
    set (state.put slot (.file begun) (.written place begun))
    throw failure

/-- Write a file, over one that is there. -/
def writeFile (place : Place) (content : ByteArray) : Action ε Unit := do
  let slot ← openFile medium place
  fillFile medium place slot content

/-- Remove a file, if it is there. -/
def removeFile (place : Place) : Action ε Unit := do
  let state ← get
  match guarded place (target state.tree place) with
  | .error (.refused .notFound _) => return
  | .error fault => throw (medium.failure fault)
  | .ok (.vacant _ _) => return
  | .ok (.occupied names name (.file _)) =>
    match medium.bars state place with
    | some failure => throw failure
    | none =>
      set { tree := dropAt names name state.tree
            changes := state.changes ++ [.removed place] : State }
  | .ok _ => throw (medium.failure (.refused .isFolder place))

/-- Try to make a folder, and tell what stood in the way. -/
def tryFolder (place : Place) : Action ε (Option (Obstacle ε)) := do
  let state ← get
  match medium.slot place Target.forFolder state with
  | .error obstacle => return some obstacle
  | .ok slot =>
    set (state.put slot (.folder []) (.made place))
    return none

/-- What stood in the way of making a folder may be that folder itself. -/
def acceptFolder (place : Place) (obstacle : Obstacle ε) : Action ε Unit := do
  match obstacle, isFolder (← get).tree place with
  | .inl (.refused .notFound _), _ => throw (medium.failureOf obstacle)
  | .inl .nullByte, _ => throw (medium.failureOf obstacle)
  | _, .ok true => return
  | _, .ok false => throw (medium.failureOf obstacle)
  | _, .error other => throw (medium.failure other)

/-- Make a folder and those above it that are missing.  The names of the place
bound the way up; there is nothing above an anchor. -/
def makeFolders : (fuel : Nat) → Place → Action ε Unit
  | 0, place => do
    match ← tryFolder medium place with
    | none => return
    | some obstacle => acceptFolder medium place obstacle
  | fuel + 1, place => do
    match ← tryFolder medium place with
    | none => return
    | some (.inl (.refused .notFound _)) =>
      makeFolders fuel place.parent
      match ← tryFolder medium place with
      | none => return
      | some obstacle => acceptFolder medium place obstacle
    | some obstacle => acceptFolder medium place obstacle

/-- Make a folder and those above it that are missing. -/
def ensureFolder (place : Place) : Action ε Unit :=
  makeFolders medium place.parts.length place

/-- A file is opened at a name that it can have, or nothing is changed. -/
theorem run_openFile (place : Place) (state : State) :
    (openFile medium place).run.run state =
      match medium.slot place Target.forFile state with
      | .error obstacle => (.error (medium.failureOf obstacle), state)
      | .ok slot => (.ok slot, state.put slot (.file .empty) (.written place .empty)) := by
  show (match medium.slot place Target.forFile state with
    | .error obstacle => (throw (medium.failureOf obstacle) : Action ε Slot)
    | .ok slot => do
      set (state.put slot (.file .empty) (.written place .empty))
      return slot).run.run state = _
  cases medium.slot place Target.forFile state <;> rfl

/-- An open file has all its bytes at the end, or the first ones. -/
theorem run_fillFile (place : Place) (slot : Slot) (content : ByteArray) (state : State) :
    (fillFile medium place slot content).run.run state =
      match medium.stops state place content with
      | none => (.ok (), state.put slot (.file content) (.written place content))
      | some (count, failure) =>
        (.error failure, state.put slot (.file (content.extract 0 count))
          (.written place (content.extract 0 count))) := by
  show (match medium.stops state place content with
    | none => (set (state.put slot (.file content) (.written place content)) : Action ε Unit)
    | some (count, failure) => do
      set (state.put slot (.file (content.extract 0 count))
        (.written place (content.extract 0 count)))
      throw failure).run.run state = _
  cases medium.stops state place content <;> rfl

/-- A folder is made at a name that it can have, or nothing is changed. -/
theorem run_tryFolder (place : Place) (state : State) :
    (tryFolder medium place).run.run state =
      match medium.slot place Target.forFolder state with
      | .error obstacle => (.ok (some obstacle), state)
      | .ok slot => (.ok none, state.put slot (.folder []) (.made place)) := by
  show (match medium.slot place Target.forFolder state with
    | .error obstacle => (pure (some obstacle) : Action ε (Option (Obstacle ε)))
    | .ok slot => do
      set (state.put slot (.folder []) (.made place))
      return none).run.run state = _
  cases medium.slot place Target.forFolder state <;> rfl

end Operations

end ContentCatalog.Disk
