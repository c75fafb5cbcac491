import ContentCatalog.Proofs.ProperDoubles
import ContentCatalog.Proofs.ScanStages
import ContentCatalog.Proofs.StringKeys

/-!
# Values of documents

What the values of documents consist of.  A key of a mapping and an element of a set is a scalar,
and no two of a collection are the same key; everything else is built from scalars by lists,
pairs, sets and mappings, and by references back to what encloses them.

The objects of a document are of this form while it is built, so every value that is taken from
them is.  The depth to which a value is taken is enough: no object stands inside itself.

* `Value.Loaded` : what the values of documents are;
* `Value.Within` : the parts of a value;
* `Building.Yields`, `yields_bind`, `yields_foldlM` : what a step gives and keeps;
* `yields_make`, `yields_fill`, `yields_fillWaiting` : the objects stay in form;
* `loaded_unfold` : the value of a cell;
* `loaded_of_load` : the value of a text.
-/

namespace ContentCatalog

/-- The value of a scalar.  A double is in the form that rounding gives. -/
inductive Value.IsLeaf : Value → Prop
  | null : IsLeaf .null
  | bool (b : Bool) : IsLeaf (.bool b)
  | int (i : Int) : IsLeaf (.int i)
  | float (x : Double) (proper : x.IsProper) : IsLeaf (.float x)
  | text (s : String) : IsLeaf (.text s)
  | bytes (octets : List UInt8) : IsLeaf (.bytes octets)
  | date (d : Calendar.Date) : IsLeaf (.date d)
  | moment (m : Calendar.Moment) : IsLeaf (.moment m)

/-- A value as documents have it. -/
inductive Value.Loaded : Value → Prop
  | leaf (value : Value) (h : value.IsLeaf) : Loaded value
  | list (items : List Value) (parts : ∀ item ∈ items, Loaded item) : Loaded (.list items)
  | tuple (items : List Value) (parts : ∀ item ∈ items, Loaded item) : Loaded (.tuple items)
  | set (items : List Value) (parts : ∀ item ∈ items, item.IsLeaf)
      (distinct : items.Pairwise fun a b => a.sameKey b = false) : Loaded (.set items)
  | map (entries : List (Value × Value)) (keys : ∀ entry ∈ entries, entry.1.IsLeaf)
      (values : ∀ entry ∈ entries, Loaded entry.2)
      (distinct : entries.Pairwise fun a b => a.1.sameKey b.1 = false) : Loaded (.map entries)
  | cycle (levels : Nat) : Loaded (.cycle levels)

/-- The first value is a part of the second one, at any depth.  What stands in keys and in sets
are scalars, which are passed over. -/
inductive Value.Within : Value → Value → Prop
  | self (value : Value) : Within value value
  | list {part item : Value} {items : List Value} (mem : item ∈ items) (inside : Within part item) :
      Within part (.list items)
  | tuple {part item : Value} {items : List Value} (mem : item ∈ items)
      (inside : Within part item) : Within part (.tuple items)
  | map {part : Value} {entry : Value × Value} {entries : List (Value × Value)}
      (mem : entry ∈ entries) (inside : Within part entry.2) : Within part (.map entries)

/-- The parts of a value are as documents have it, if the value is. -/
theorem Value.Loaded.within {value part : Value} (h : value.Loaded) (hpart : Within part value) :
    part.Loaded := by
  induction hpart with
  | self => exact h
  | list hmem _ ih =>
      cases h with
      | leaf _ hleaf => cases hleaf
      | list _ hparts => exact ih (hparts _ hmem)
  | tuple hmem _ ih =>
      cases h with
      | leaf _ hleaf => cases hleaf
      | tuple _ hparts => exact ih (hparts _ hmem)
  | map hmem _ ih =>
      cases h with
      | leaf _ hleaf => cases hleaf
      | map _ _ hvalues => exact ih (hvalues _ hmem)

namespace Yaml

/-! ### Scalars -/

namespace Scalar

/-- A truth value is a scalar. -/
theorem isLeaf_of_bool {text : List Char} {value : Value} (h : bool text = .ok value) :
    value.IsLeaf := by
  rw [bool] at h
  split at h
  · obtain rfl := Except.ok.inj h
    exact .bool true
  · split at h
    · obtain rfl := Except.ok.inj h
      exact .bool false
    · cases h

theorem isLeaf_of_int {text : List Char} {value : Value} (h : int text = .ok value) :
    value.IsLeaf := by
  rw [int] at h
  obtain ⟨parts, -, h⟩ := bind_eq_ok_iff.mp h
  obtain ⟨size, -, h⟩ := bind_eq_ok_iff.mp h
  obtain rfl := Except.ok.inj h
  exact .int _

theorem isLeaf_of_binary {text : List Char} {value : Value} (h : binary text = .ok value) :
    value.IsLeaf := by
  rw [binary] at h
  split at h
  · cases h
  · split at h
    · obtain rfl := Except.ok.inj h
      exact .bytes _
    · cases h

theorem isLeaf_of_moment {text : List Char} {value : Value} (h : moment text = .ok value) :
    value.IsLeaf := by
  rw [moment] at h
  split at h
  · cases h
  · split at h
    · obtain rfl := Except.ok.inj h
      exact .date _
    · cases h
  · split at h
    · obtain rfl := Except.ok.inj h
      exact .moment _
    · cases h

end Scalar

namespace Building

variable {α β ι : Type}

/-! ### Objects in form -/

/-- The cell of a scalar. -/
def Cell.IsScalar : Cell → Prop
  | .leaf value _ => value.IsLeaf
  | _ => False

/-- The cell of a node. -/
def Cell.IsPart : Cell → Prop
  | .leaf value _ => value.IsLeaf
  | .object _ => True
  | .pair _ _ => False

/-- The cell of a node, or a pair of such. -/
def Cell.IsItem : Cell → Prop
  | .pair first second => first.IsPart ∧ second.IsPart
  | cell => cell.IsPart

theorem Cell.IsPart.isItem {cell : Cell} (h : cell.IsPart) : cell.IsItem := by
  cases cell with
  | pair => exact h.elim
  | _ => exact h

/-- What a collection holds: keys and elements of sets are scalars, no two of them the same. -/
def Object.Formed : Object → Prop
  | .list items => ∀ item ∈ items, item.IsItem
  | .set items => (∀ item ∈ items, item.IsScalar) ∧
      items.Pairwise fun a b => sameCell a b = false
  | .map entries => (∀ entry ∈ entries, entry.1.IsScalar ∧ entry.2.IsPart) ∧
      (Dictionary.keys entries).Pairwise fun a b => sameCell a b = false

/-- An empty object is in form. -/
theorem formed_empty (kind : Collection) : kind.empty.Formed := by
  cases kind with
  | map => exact ⟨List.forall_mem_nil _, List.Pairwise.nil⟩
  | set => exact ⟨List.forall_mem_nil _, List.Pairwise.nil⟩
  | _ => exact List.forall_mem_nil _

/-- Everything that is built so far is in form. -/
structure State.Formed (s : State) : Prop where
  made : ∀ known ∈ s.made, known.2.IsPart
  objects : ∀ object ∈ s.objects, object.Formed

/-- A new object leaves the state in form. -/
theorem State.Formed.push {s : State} (h : s.Formed) (kind : Collection) (busy : List NodeId)
    (waiting : List (NodeId × ObjectId)) :
    State.Formed ⟨s.nodes, s.made, busy, s.objects.push kind.empty, waiting⟩ := by
  refine ⟨h.made, fun object hobject => ?_⟩
  rcases Array.mem_push.mp hobject with hold | rfl
  · exact h.objects object hold
  · exact formed_empty kind

/-- So does a node that gets its cell. -/
theorem State.Formed.finished {s : State} (h : s.Formed) (id : NodeId) {cell : Cell}
    (hcell : cell.IsPart) : (s.finished id cell).Formed :=
  ⟨List.forall_mem_cons.mpr ⟨hcell, h.made⟩, h.objects⟩

/-- The cell of a node can be a part. -/
theorem State.Formed.cellOf? {s : State} (h : s.Formed) {id : NodeId} {cell : Cell}
    (hcell : s.cellOf? id = some cell) : cell.IsPart := by
  obtain ⟨known, hfound, rfl⟩ := Option.map_eq_some_iff.mp hcell
  exact h.made known (List.mem_of_find?_eq_some hfound)

/-! ### What a step gives -/

/-- From a state in form the step comes to a state in form, and what it gives is as it says. -/
def Yields (P : α → Prop) (step : Step α) : Prop :=
  ∀ ⦃s a s'⦄, s.Formed → step.run s = .ok (a, s') → s'.Formed ∧ P a

section

variable {P : α → Prop} {Q : β → Prop}

theorem yields_pure {a : α} (h : P a) : Yields P (pure a : Step α) := by
  intro s b s' hs hrun
  obtain ⟨rfl, rfl⟩ := run_pure_eq_ok.mp hrun
  exact ⟨hs, h⟩

theorem yields_throw (failure : Failure) : Yields P (throw failure : Step α) :=
  fun _ _ _ _ hrun => absurd hrun run_throw_ne_ok

/-- A step that changes nothing keeps the form. -/
theorem yields_of_reads {step : Step α} (h : Reads step) : Yields (fun _ => True) step := by
  intro s a s' hs hrun
  rw [← h hrun]
  exact ⟨hs, trivial⟩

/-- Of two steps in a row the second one gives what it says. -/
theorem yields_bind {step : Step α} {next : α → Step β} (h : Yields P step)
    (hnext : ∀ a, P a → Yields Q (next a)) : Yields Q (step >>= next) := by
  intro s b s' hs hrun
  obtain ⟨a, between, hfirst, hsecond⟩ := run_bind_eq_ok.mp hrun
  obtain ⟨hbetween, ha⟩ := h hs hfirst
  exact hnext a ha hbetween hsecond

/-- A run over items gives what all of its steps give. -/
theorem yields_mapM {step : ι → Step α} {items : List ι}
    (h : ∀ item ∈ items, Yields P (step item)) :
    Yields (fun parts => ∀ part ∈ parts, P part) (items.mapM step) := by
  induction items with
  | nil => exact yields_pure (List.forall_mem_nil _)
  | cons item items ih =>
      obtain ⟨hitem, hitems⟩ := List.forall_mem_cons.mp h
      rw [List.mapM_cons]
      exact yields_bind hitem fun part hpart => yields_bind (ih hitems) fun parts hparts =>
        yields_pure (List.forall_mem_cons.mpr ⟨hpart, hparts⟩)

/-- A run that carries something along gives it as each step does. -/
theorem yields_foldlM {step : α → ι → Step α} {items : List ι} {start : α} (hstart : P start)
    (h : ∀ a, P a → ∀ item ∈ items, Yields P (step a item)) :
    Yields P (items.foldlM step start) := by
  induction items generalizing start with
  | nil => exact yields_pure hstart
  | cons item items ih =>
      rw [List.foldlM_cons]
      exact yields_bind (h start hstart item List.mem_cons_self) fun next hnext =>
        ih hnext fun a ha other hother => h a ha other (List.mem_cons_of_mem _ hother)

end

/-- An object in form leaves the state so where it is set. -/
theorem yields_setObject (id : ObjectId) {object : Object} (h : object.Formed) :
    Yields (fun _ => True) (setObject id object) := by
  intro s a s' hs hrun
  obtain rfl := run_modify_eq_ok.mp hrun
  refine ⟨⟨hs.made, fun other hother => ?_⟩, trivial⟩
  rcases Array.mem_or_eq_of_mem_setIfInBounds hother with hold | rfl
  · exact hs.objects other hold
  · exact h

/-- Flattening changes nothing that is built. -/
theorem yields_flattenNode (id : NodeId) : Yields (fun _ => True) (flattenNode id) := by
  intro s a s' hs hrun
  rw [(flattens_flattenNode id hrun).rest]
  exact ⟨⟨hs.made, hs.objects⟩, trivial⟩

/-- A reading gives what its result is. -/
theorem yields_reading {P : α → Prop} {result : Except Defect α}
    (h : ∀ value, result = .ok value → P value) : Yields P (reading result) := by
  cases result with
  | ok value => exact yields_pure (h value rfl)
  | error defect => exact yields_throw _

/-- The value of a scalar node is a scalar. -/
theorem yields_scalarValue (kind : ScalarKind) (node : Node) :
    Yields Value.IsLeaf (scalarValue kind node) := by
  rw [scalarValue]
  refine yields_bind (yields_of_reads (leads_get composable_eq)) fun s _ => ?_
  refine yields_bind (yields_of_reads (reads_scalarText _ _)) fun text _ => ?_
  cases kind with
  | text => exact yields_pure (.text text)
  | null => exact yields_pure .null
  | bool => exact yields_reading fun _ => Scalar.isLeaf_of_bool
  | int => exact yields_reading fun _ => Scalar.isLeaf_of_int
  | float =>
      refine yields_reading fun value hvalue => ?_
      obtain ⟨x, rfl, hproper⟩ := Scalar.isProper_of_float hvalue
      exact .float x hproper
  | binary =>
      simp only
      split
      · next hvalue => exact yields_pure (Scalar.isLeaf_of_binary hvalue)
      · exact yields_throw _
  | moment =>
      simp only
      split
      · exact yields_reading fun _ => Scalar.isLeaf_of_moment
      · exact yields_throw _

/-! ### Filling an object -/

section

variable {make : NodeId → Step Cell} (hmake : ∀ id, Yields Cell.IsPart (make id))

include hmake

/-- The entries of a mapping are written one after the other. -/
theorem yields_decodedEntries (id : NodeId) :
    Yields (fun entries => Object.Formed (.map entries)) (decodedEntries make id) := by
  rw [decodedEntries]
  refine yields_bind (yields_of_reads (reads_nodeAt id)) fun node _ => ?_
  split
  · refine yields_bind (yields_flattenNode id) fun _ _ => ?_
    refine yields_bind (yields_of_reads (reads_entriesAt id)) fun entries _ => ?_
    refine yields_foldlM ⟨List.forall_mem_nil _, List.Pairwise.nil⟩ fun built hbuilt entry _ => ?_
    refine yields_bind (hmake entry.1) fun key hkey => ?_
    split
    · refine yields_bind (hmake entry.2) fun value hvalue => yields_pure ⟨?_, ?_⟩
      · intro other hother
        obtain ⟨hfirst, hsecond⟩ := Dictionary.mem_putBy hother
        constructor
        · rcases hfirst with hnew | hold
          · rw [hnew]
            exact hkey
          · obtain ⟨held, hheld, heq⟩ := List.mem_map.mp hold
            exact heq ▸ (hbuilt.1 held hheld).1
        · rcases hsecond with hnew | hold
          · rw [hnew]
            exact hvalue
          · obtain ⟨held, hheld, heq⟩ := List.mem_map.mp hold
            exact heq ▸ (hbuilt.1 held hheld).2
      · exact Dictionary.pairwise_putBy _ value hbuilt.2
    · exact yields_bind (yields_of_reads (reads_nodeAt entry.1)) fun _ _ => yields_throw _
  · exact yields_throw _

/-- Filling a list of pairs leaves the state in form. -/
theorem yields_fillPairs (activity : Activity) (node : Node) (object : ObjectId) :
    Yields (fun _ => True) (fillPairs activity make node object) := by
  rw [fillPairs]
  split
  · refine yields_bind (P := fun built => Object.Formed (.list built)) ?_ fun _ _ =>
      yields_pure trivial
    refine yields_foldlM (List.forall_mem_nil _) fun built hbuilt item _ => ?_
    refine yields_bind (yields_of_reads (reads_nodeAt item)) fun part _ => ?_
    split
    · next key value _ =>
        refine yields_bind (hmake key) fun first hfirst => ?_
        refine yields_bind (hmake value) fun second hsecond => ?_
        have hformed : Object.Formed (.list (built ++ [.pair first second])) :=
          List.forall_mem_append.mpr ⟨hbuilt, List.forall_mem_singleton.mpr ⟨hfirst, hsecond⟩⟩
        exact yields_bind (yields_setObject object hformed) fun _ _ => yields_pure hformed
    · exact yields_throw _
    · exact yields_throw _
  · exact yields_throw _

/-- **Filling an object** leaves everything in form. -/
theorem yields_fill (makeKey : NodeId → Step Cell) (kind : Collection) (id : NodeId)
    (object : ObjectId) :
    Yields (fun _ => True) (fill .decoded makeKey make kind id object) := by
  rw [fill]
  refine yields_bind (yields_of_reads (reads_nodeAt id)) fun node _ => ?_
  cases kind with
  | list =>
      simp only
      split
      · refine yields_bind (yields_mapM fun item _ => hmake item) fun cells hcells => ?_
        exact yields_setObject object fun cell hcell => (hcells cell hcell).isItem
      · exact yields_throw _
  | map => exact yields_bind (yields_decodedEntries hmake id) fun _ => yields_setObject object
  | set =>
      refine yields_bind (yields_decodedEntries hmake id) fun entries hentries => ?_
      refine yields_setObject object ⟨fun item hitem => ?_, hentries.2⟩
      obtain ⟨entry, hentry, rfl⟩ := List.mem_map.mp hitem
      exact (hentries.1 entry hentry).1
  | orderedMap => exact yields_fillPairs hmake _ node object
  | pairs => exact yields_fillPairs hmake _ node object

end

/-! ### Building a document -/

/-- **Building a node** leaves everything in form. -/
theorem yields_make (fuel : Nat) (complete : Bool) (id : NodeId) :
    Yields Cell.IsPart (make .decoded fuel complete id) := by
  induction fuel generalizing complete id with
  | zero => exact yields_throw _
  | succ fuel ih =>
      intro s cell s' hs hrun
      cases run_make_eq_ok.mp hrun with
      | known hnode hcell => exact ⟨hs, hs.cellOf? hcell⟩
      | filled hnode hcell hbusy hkind hcomplete hfill =>
          obtain ⟨hafter, -⟩ := yields_fill (ih true) _ _ _ _ (hs.push _ _ _) hfill
          exact ⟨hafter.finished id trivial, trivial⟩
      | queued hnode hcell hbusy hkind hcomplete =>
          exact ⟨(hs.push _ _ _).finished id trivial, trivial⟩
      | scalar hnode hcell hbusy hnone hkind hvalue =>
          have hbegun : (s.begun id).Formed := ⟨hs.made, hs.objects⟩
          obtain ⟨-, hleaf⟩ := yields_scalarValue _ _ hbegun hvalue
          exact ⟨hbegun.finished id hleaf, hleaf⟩

/-- So does filling all objects that wait. -/
theorem yields_fillWaiting (fuel : Nat) : Yields (fun _ => True) (fillWaiting .decoded fuel) := by
  induction fuel with
  | zero => exact yields_pure trivial
  | succ fuel ih =>
      intro s _ s' hs hrun
      cases filling_of_run hrun with
      | done hwaiting hsame => exact ⟨hsame ▸ hs, trivial⟩
      | skipped hwaiting hnode hkind hrest =>
          rename_i id object rest node
          have hnext : State.Formed { s with waiting := rest } := ⟨hs.made, hs.objects⟩
          exact ih hnext hrest
      | filled hwaiting hnode hkind hfill hrest =>
          rename_i id object rest node kind between
          have hnext : State.Formed { s with waiting := rest } := ⟨hs.made, hs.objects⟩
          obtain ⟨hbetween, -⟩ := yields_fill (yields_make _ false) _ _ _ _ hnext hfill
          exact ih hbetween hrest

/-! ### The values of cells -/

/-- The objects around a place: they exist, and none is met twice. -/
structure Encloses (objects : Array Object) (around : List (Option ObjectId)) : Prop where
  bounded : ∀ id, some id ∈ around → id < objects.size
  nodup : (around.filterMap id).Nodup

/-- The objects that are not yet around a place. -/
def freeObjects (objects : Array Object) (around : List (Option ObjectId)) : Nat :=
  objects.size - (around.filterMap id).length

section

variable {objects : Array Object} {around : List (Option ObjectId)}

/-- There are no more objects around a place than there are objects. -/
theorem Encloses.length_le (h : Encloses objects around) :
    (around.filterMap id).length ≤ objects.size := by
  have hsub : (around.filterMap id) ⊆ List.range objects.size := by
    intro object hobject
    obtain ⟨found, hfound, heq⟩ := List.mem_filterMap.mp hobject
    obtain rfl : found = some object := heq
    exact List.mem_range.mpr (h.bounded object hfound)
  simpa using (List.subperm_of_subset h.nodup hsub).length_le

/-- A pair is no object, so it encloses nothing. -/
theorem Encloses.pair (h : Encloses objects around) : Encloses objects (none :: around) := by
  refine ⟨fun object hobject => h.bounded object ?_, ?_⟩
  · simpa using hobject
  · simpa using h.nodup

/-- Another object around leaves one less. -/
theorem Encloses.object (h : Encloses objects around) {object : ObjectId}
    (hobject : object < objects.size) (hnew : some object ∉ around) :
    Encloses objects (some object :: around) ∧
      freeObjects objects (some object :: around) + 1 = freeObjects objects around := by
  have hmore : Encloses objects (some object :: around) := by
    refine ⟨fun other hother => ?_, ?_⟩
    · rcases List.mem_cons.mp hother with heq | hold
      · obtain rfl := Option.some.inj heq
        exact hobject
      · exact h.bounded other hold
    · rw [List.filterMap_cons, id_eq]
      apply List.nodup_cons.mpr
      refine ⟨fun hmem => hnew ?_, h.nodup⟩
      obtain ⟨found, hfound, heq⟩ := List.mem_filterMap.mp hmem
      obtain rfl : found = some object := heq
      exact hfound
  refine ⟨hmore, ?_⟩
  have hlength := hmore.length_le
  have hcount : ((some object :: around).filterMap id).length = (around.filterMap id).length + 1 :=
    rfl
  rw [hcount] at hlength
  rw [freeObjects, freeObjects, hcount]
  omega

variable (objects around) in
/-- The value of a scalar is at hand. -/
theorem unfold_scalar {cell : Cell} (h : cell.IsScalar) {fuel : Nat} (hfuel : 0 < fuel) :
    ∃ value origin, cell = .leaf value origin ∧ value.IsLeaf ∧
      unfold objects fuel around cell = value := by
  cases cell with
  | leaf value origin =>
      obtain ⟨fuel, rfl⟩ := Nat.exists_eq_succ_of_ne_zero hfuel.ne'
      exact ⟨value, origin, rfl, h, rfl⟩
  | _ => exact h.elim

/-- The value of a scalar cell is a scalar. -/
theorem isLeaf_unfold {cell : Cell} (h : cell.IsScalar) {fuel : Nat} (hfuel : 0 < fuel) :
    (unfold objects fuel around cell).IsLeaf := by
  obtain ⟨value, origin, -, hleaf, heq⟩ := unfold_scalar objects around h hfuel
  rw [heq]
  exact hleaf

/-- Scalars that are different cells are different keys. -/
theorem sameKey_unfold {a b : Cell} (ha : a.IsScalar) (hb : b.IsScalar) {fuel : Nat}
    (hfuel : 0 < fuel) (h : sameCell a b = false) :
    (unfold objects fuel around a).sameKey (unfold objects fuel around b) = false := by
  obtain ⟨first, p, rfl, -, hfirst⟩ := unfold_scalar objects around ha hfuel
  obtain ⟨second, q, rfl, -, hsecond⟩ := unfold_scalar objects around hb hfuel
  rw [sameCell, Bool.or_eq_false_iff] at h
  rw [hfirst, hsecond]
  exact h.1

/-- **The value of a cell.**  Each object around leaves one less that can be met, and between two
objects stands one pair at most. -/
theorem loaded_unfold (hobjects : ∀ object ∈ objects, object.Formed) {fuel : Nat} {cell : Cell}
    (h : Encloses objects around) :
    (cell.IsPart → 2 * freeObjects objects around + 1 ≤ fuel →
      (unfold objects fuel around cell).Loaded) ∧
    (cell.IsItem → 2 * freeObjects objects around + 2 ≤ fuel →
      (unfold objects fuel around cell).Loaded) := by
  induction fuel generalizing around cell with
  | zero => exact ⟨fun _ hfuel => absurd hfuel (by omega), fun _ hfuel => absurd hfuel (by omega)⟩
  | succ fuel ih =>
      have hpart : cell.IsPart → 2 * freeObjects objects around + 1 ≤ fuel + 1 →
          (unfold objects (fuel + 1) around cell).Loaded := by
        intro hcell hfuel
        cases cell with
        | leaf value origin => exact .leaf value hcell
        | pair first second => exact hcell.elim
        | object object =>
            rw [unfold]
            split
            · exact .cycle _
            · next hnew =>
                simp only
                have hnotin : some object ∉ around := by
                  intro hmem
                  exact absurd (List.findIdx?_eq_none_iff.mp hnew _ hmem) (by simp)
                have hfound : ∀ content, objects[object]? = some content →
                    content.Formed ∧ Encloses objects (some object :: around) ∧
                      2 * freeObjects objects (some object :: around) + 2 ≤ fuel := by
                  intro content hcontent
                  obtain ⟨hbound, rfl⟩ := Array.getElem?_eq_some_iff.mp hcontent
                  obtain ⟨hinside, hfree⟩ := h.object hbound hnotin
                  exact ⟨hobjects _ (Array.getElem_mem hbound), hinside, by omega⟩
                split
                · next items hcontent =>
                    obtain ⟨hformed, hinside, hroom⟩ := hfound _ hcontent
                    refine .list _ (List.forall_mem_map.mpr fun item hitem => ?_)
                    exact (ih hinside).2 (hformed item hitem) hroom
                · next items hcontent =>
                    obtain ⟨hformed, hinside, hroom⟩ := hfound _ hcontent
                    refine .set _ (List.forall_mem_map.mpr fun item hitem => ?_)
                      (List.pairwise_map.mpr ?_)
                    · exact isLeaf_unfold (hformed.1 item hitem) (by omega)
                    · apply hformed.2.imp_of_mem
                      intro a b ha hb hdiffer
                      exact sameKey_unfold (hformed.1 a ha) (hformed.1 b hb) (by omega) hdiffer
                · next entries hcontent =>
                    obtain ⟨hformed, hinside, hroom⟩ := hfound _ hcontent
                    refine .map _ (List.forall_mem_map.mpr fun entry hentry => ?_)
                      (List.forall_mem_map.mpr fun entry hentry => ?_) (List.pairwise_map.mpr ?_)
                    · exact isLeaf_unfold (hformed.1 entry hentry).1 (by omega)
                    · exact (ih hinside).1 (hformed.1 entry hentry).2 (by omega)
                    · apply (List.pairwise_map.mp hformed.2).imp_of_mem
                      intro a b ha hb hdiffer
                      exact sameKey_unfold (hformed.1 a ha).1 (hformed.1 b hb).1 (by omega) hdiffer
                · exact .leaf _ .null
      refine ⟨hpart, fun hcell hfuel => ?_⟩
      cases cell with
      | pair first second =>
          have hfree : freeObjects objects (none :: around) = freeObjects objects around := rfl
          rw [unfold]
          refine .tuple _ (List.forall_mem_cons.mpr ⟨?_, List.forall_mem_singleton.mpr ?_⟩)
          · exact (ih h.pair).1 hcell.1 (by omega)
          · exact (ih h.pair).1 hcell.2 (by omega)
      | leaf => exact hpart hcell (by omega)
      | object => exact hpart hcell (by omega)

end

end Building

open Building in
/-- **The value of a text** is as documents have it. -/
theorem loaded_of_load {text : List Char} {value : Value} (h : load .decoded text = .ok value) :
    value.Loaded := by
  cases hgraph : Yaml.graph text with
  | error failure =>
      rw [load, hgraph] at h
      cases h
  | ok found =>
      cases found with
      | none =>
          rw [load_of_no_graph _ hgraph] at h
          obtain rfl := Except.ok.inj h
          exact .leaf _ .null
      | some graph =>
          rw [load_of_graph _ hgraph] at h
          obtain ⟨s, hrun⟩ := value_eq_ok.mp h
          rw [document] at hrun
          obtain ⟨cell, made, hmake, hrun⟩ := run_bind_eq_ok.mp hrun
          obtain ⟨_, filled, hfill, hrun⟩ := run_bind_eq_ok.mp hrun
          obtain ⟨_, _, hget, hrun⟩ := run_bind_eq_ok.mp hrun
          obtain ⟨rfl, rfl⟩ := run_get_eq_ok.mp hget
          obtain ⟨rfl, -⟩ := run_pure_eq_ok.mp hrun
          have hstart : (State.unbuilt graph).Formed :=
            ⟨List.forall_mem_nil _, fun object hobject => absurd hobject (Array.not_mem_empty _)⟩
          obtain ⟨hmade, hcell⟩ := yields_make _ _ _ hstart hmake
          obtain ⟨hfilled, -⟩ := yields_fillWaiting _ hmade hfill
          have houtside : Encloses filled.objects [] :=
            ⟨fun _ hmem => absurd hmem List.not_mem_nil, List.nodup_nil⟩
          refine (loaded_unfold hfilled.objects houtside).1 hcell ?_
          rw [freeObjects]
          omega

end Yaml

end ContentCatalog
