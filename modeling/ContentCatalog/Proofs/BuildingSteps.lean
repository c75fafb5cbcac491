import ContentCatalog.Yaml.Document

/-!
# Steps of the building

Documents are built by steps that read and change one state and that may fail.  What a
step keeps is shown once for each primitive and carried through sequences and runs over
lists; so is what two steps have in common that run on related states.

* `run_bind_eq_ok` : two steps in a row come to an end if both do;
* `Leads`, `leads_bind`, `leads_mapM`, `leads_foldlM` : what the states before and after a
  step have in common;
* `Simulates`, `simulates_bind`, `simulates_mapM`, `simulates_foldlM` : where one step comes
  to an end, so does another one;
* `run_make_eq_ok` : everything that the building of a node can do.
-/

namespace ContentCatalog.Yaml.Building

variable {α β γ δ ι : Type}

/-! ### Runs -/

/-- Two steps in a row come to an end if both do. -/
theorem run_bind_eq_ok {step : Step α} {next : α → Step β} {s s' : State} {b : β} :
    (step >>= next).run s = .ok (b, s') ↔
      ∃ a between, step.run s = .ok (a, between) ∧ (next a).run between = .ok (b, s') := by
  rw [StateT.run_bind]
  cases step.run s with
  | error failure => simp [bind, Except.bind]
  | ok out =>
      constructor
      · exact fun h => ⟨out.1, out.2, rfl, h⟩
      · rintro ⟨a, between, hout, h⟩
        cases hout
        exact h

/-- Two steps in a row go on with what the first one gives. -/
theorem run_bind_of_ok {step : Step α} {s s' : State} {a : α} (h : step.run s = .ok (a, s'))
    (next : α → Step β) : (step >>= next).run s = (next a).run s' := by
  rw [StateT.run_bind, h]
  rfl

theorem run_pure_eq_ok {a b : α} {s s' : State} :
    (pure a : Step α).run s = .ok (b, s') ↔ a = b ∧ s = s' := by
  show Except.ok (a, s) = _ ↔ _
  simp

theorem run_get_eq_ok {a s s' : State} :
    (get : Step State).run s = .ok (a, s') ↔ s = a ∧ s = s' := by
  show Except.ok (s, s) = _ ↔ _
  simp

theorem run_set_eq_ok {new s s' : State} {u : PUnit} :
    (set new : Step PUnit).run s = .ok (u, s') ↔ new = s' := by
  show Except.ok (_, new) = _ ↔ _
  simp

theorem run_modify_eq_ok {change : State → State} {s s' : State} {u : PUnit} :
    (modify change : Step PUnit).run s = .ok (u, s') ↔ change s = s' := by
  show Except.ok (_, change s) = _ ↔ _
  simp

theorem run_throw_ne_ok {failure : Failure} {s : State} {out : α × State} :
    (throw failure : Step α).run s ≠ .ok out := by
  intro h
  cases h

/-- A node is looked up in the graph. -/
theorem run_nodeAt_eq_ok {id : NodeId} {s s' : State} {node : Node} :
    (nodeAt id).run s = .ok (node, s') ↔ s.nodes[id]? = some node ∧ s = s' := by
  rw [nodeAt]
  constructor
  · intro h
    obtain ⟨_, _, hget, h⟩ := run_bind_eq_ok.mp h
    obtain ⟨rfl, rfl⟩ := run_get_eq_ok.mp hget
    split at h
    · next found hfound =>
        obtain ⟨rfl, rfl⟩ := run_pure_eq_ok.mp h
        exact ⟨hfound, rfl⟩
    · exact absurd h run_throw_ne_ok
  · rintro ⟨hnode, rfl⟩
    refine run_bind_eq_ok.mpr ⟨s, s, rfl, ?_⟩
    rw [hnode]
    rfl

/-- The entries that a node holds. -/
def entriesOf (node : Node) : List (NodeId × NodeId) :=
  match node.content with
  | .mapping entries => entries
  | _ => []

/-- The text of a scalar node. -/
def scalarAt? (nodes : Array Node) (id : NodeId) : Option String :=
  (nodes[id]?).bind fun node =>
    match node.content with
    | .scalar text => some text
    | _ => none

/-- The text of a scalar is that of its node. -/
theorem scalarAt?_eq_some {nodes : Array Node} {id : NodeId} {text : String} :
    scalarAt? nodes id = some text ↔
      ∃ node, nodes[id]? = some node ∧ node.content = .scalar text := by
  rw [scalarAt?, Option.bind_eq_some_iff]
  refine exists_congr fun node => and_congr_right fun _ => ?_
  cases node.content <;> simp

/-- The entries of a mapping node. -/
def mappingAt? (nodes : Array Node) (id : NodeId) : Option (List (NodeId × NodeId)) :=
  (nodes[id]?).bind fun node =>
    match node.content with
    | .mapping entries => some entries
    | _ => none

/-- The entries of a mapping are those of its node. -/
theorem mappingAt?_eq_some {nodes : Array Node} {id : NodeId} {entries : List (NodeId × NodeId)} :
    mappingAt? nodes id = some entries ↔
      ∃ node, nodes[id]? = some node ∧ node.content = .mapping entries := by
  rw [mappingAt?, Option.bind_eq_some_iff]
  refine exists_congr fun node => and_congr_right fun _ => ?_
  cases node.content <;> simp

/-- Entries are looked up in the graph, and a node that is no mapping has none. -/
theorem run_entriesAt_eq_ok {id : NodeId} {s s' : State} {entries : List (NodeId × NodeId)} :
    (entriesAt id).run s = .ok (entries, s') ↔
      (∃ node, s.nodes[id]? = some node ∧ entries = entriesOf node) ∧ s = s' := by
  have hread : entriesAt id = nodeAt id >>= fun node => pure (entriesOf node) := by
    rw [entriesAt]
    congr 1
    funext node
    rw [entriesOf]
    cases node.content <;> rfl
  simp only [hread, run_bind_eq_ok, run_nodeAt_eq_ok, run_pure_eq_ok]
  constructor
  · rintro ⟨node, between, ⟨hnode, rfl⟩, rfl, rfl⟩
    exact ⟨⟨node, hnode, rfl⟩, rfl⟩
  · rintro ⟨⟨node, hnode, rfl⟩, rfl⟩
    exact ⟨node, s, ⟨hnode, rfl⟩, rfl, rfl⟩

/-! ### What a step keeps -/

/-- Where the step comes to an end, the state after it is related to the one before. -/
def Leads (R : State → State → Prop) (step : Step α) : Prop :=
  ∀ ⦃s a s'⦄, step.run s = .ok (a, s') → R s s'

/-- A relation of states that holds where nothing is done, and of two steps in a row. -/
structure Composable (R : State → State → Prop) : Prop where
  refl : ∀ s, R s s
  trans : ∀ {before between after}, R before between → R between after → R before after

theorem composable_eq : Composable Eq := ⟨fun _ => rfl, Eq.trans⟩

/-- The step changes nothing. -/
abbrev Reads (step : Step α) : Prop :=
  Leads Eq step

/-- A step that only reads keeps to every such relation. -/
theorem Reads.leads {R : State → State → Prop} (hR : Composable R) {step : Step α}
    (h : Reads step) : Leads R step := by
  intro s a s' hrun
  rw [← h hrun]
  exact hR.refl s

theorem leads_throw {R : State → State → Prop} (failure : Failure) :
    Leads R (throw failure : Step α) := by
  intro s a s' h
  cases h

/-- A change of the state keeps to the relation if it leads along it. -/
theorem leads_modify {R : State → State → Prop} {change : State → State}
    (h : ∀ s, R s (change s)) : Leads R (modify change : Step Unit) := by
  intro s a s' hrun
  cases hrun
  exact h s

section

variable {R : State → State → Prop} (hR : Composable R)

include hR

theorem leads_pure (a : α) : Leads R (pure a : Step α) := by
  intro s b s' h
  rw [← (run_pure_eq_ok.mp h).2]
  exact hR.refl s

theorem leads_get : Leads R (get : Step State) := by
  intro s b s' h
  cases h
  exact hR.refl s

/-- Two steps in a row keep to the relation if both do. -/
theorem leads_bind {step : Step α} {next : α → Step β} (h : Leads R step)
    (hnext : ∀ a, Leads R (next a)) : Leads R (step >>= next) := by
  intro s b s' hrun
  obtain ⟨a, between, hfirst, hsecond⟩ := run_bind_eq_ok.mp hrun
  exact hR.trans (h hfirst) (hnext a hsecond)

/-- A run over items keeps to the relation if each of its steps does. -/
theorem leads_mapM {step : ι → Step α} {items : List ι} (h : ∀ item ∈ items, Leads R (step item)) :
    Leads R (items.mapM step) := by
  induction items with
  | nil => exact leads_pure hR []
  | cons item items ih =>
      obtain ⟨hitem, hitems⟩ := List.forall_mem_cons.mp h
      rw [List.mapM_cons]
      exact leads_bind hR hitem fun a => leads_bind hR (ih hitems) fun others => leads_pure hR _

/-- So does a run that carries something along. -/
theorem leads_foldlM {step : β → ι → Step β} {items : List ι}
    (h : ∀ b, ∀ item ∈ items, Leads R (step b item)) (b : β) : Leads R (items.foldlM step b) := by
  induction items generalizing b with
  | nil => exact leads_pure hR b
  | cons item items ih =>
      rw [List.foldlM_cons]
      exact leads_bind hR (h b item List.mem_cons_self) fun next =>
        ih (fun other otherItem hm => h other otherItem (List.mem_cons_of_mem _ hm)) next

end

/-- Looking up a node only reads. -/
theorem reads_nodeAt (id : NodeId) : Reads (nodeAt id) := fun _ _ _ h => (run_nodeAt_eq_ok.mp h).2

theorem reads_entriesAt (id : NodeId) : Reads (entriesAt id) := fun _ _ _ h =>
  (run_entriesAt_eq_ok.mp h).2

/-- So does finding the text of a scalar, which may follow a value mark. -/
theorem reads_scalarText (fuel : Nat) (node : Node) : Reads (scalarText fuel node) := by
  induction fuel generalizing node with
  | zero => exact leads_throw _
  | succ fuel ih =>
      rw [scalarText]
      split
      · exact leads_pure composable_eq _
      · refine leads_bind composable_eq (leads_get composable_eq) fun s => ?_
        simp only
        split
        · exact leads_bind composable_eq (reads_nodeAt _) ih
        · exact leads_throw _
      · exact leads_throw _

/-- The reading of a text does not look at the state at all. -/
theorem reads_reading (result : Except Defect α) : Reads (reading result) := by
  cases result with
  | ok value => exact leads_pure composable_eq value
  | error defect => exact leads_throw _

/-- So the value of a scalar is found by reading only. -/
theorem reads_scalarValue (kind : ScalarKind) (node : Node) : Reads (scalarValue kind node) := by
  rw [scalarValue]
  refine leads_bind composable_eq (leads_get composable_eq) fun s => ?_
  refine leads_bind composable_eq (reads_scalarText _ _) fun text => ?_
  cases kind with
  | text => exact leads_pure composable_eq _
  | null => exact leads_pure composable_eq _
  | bool => exact reads_reading _
  | int => exact reads_reading _
  | float => exact reads_reading _
  | binary =>
      simp only
      split
      · exact leads_pure composable_eq _
      · exact leads_throw _
  | moment =>
      simp only
      split
      · exact reads_reading _
      · exact leads_throw _

/-! ### Two steps side by side -/

/-- Where the first step comes to an end, so does the second one on a related state, and the
results and the states after them are related. -/
def Simulates (R : State → State → Prop) (Q : α → β → Prop) (step : Step α) (other : Step β) :
    Prop :=
  ∀ ⦃s t a s'⦄, R s t → step.run s = .ok (a, s') →
    ∃ b t', other.run t = .ok (b, t') ∧ Q a b ∧ R s' t'

section

variable {R : State → State → Prop}

theorem simulates_pure {Q : α → β → Prop} {a : α} {b : β} (h : Q a b) :
    Simulates R Q (pure a : Step α) (pure b) := by
  intro s t out s' hR hrun
  obtain ⟨rfl, rfl⟩ := run_pure_eq_ok.mp hrun
  exact ⟨b, t, rfl, h, hR⟩

/-- A refusal is followed by anything. -/
theorem simulates_throw {Q : α → β → Prop} (failure : Failure) (other : Step β) :
    Simulates R Q (throw failure : Step α) other :=
  fun _ _ _ _ _ hrun => absurd hrun run_throw_ne_ok

/-- Two steps in a row are followed step by step. -/
theorem simulates_bind {P : α → β → Prop} {Q : γ → δ → Prop} {step : Step α} {other : Step β}
    {next : α → Step γ} {otherNext : β → Step δ} (h : Simulates R P step other)
    (hnext : ∀ a b, P a b → Simulates R Q (next a) (otherNext b)) :
    Simulates R Q (step >>= next) (other >>= otherNext) := by
  intro s t c s' hR hrun
  obtain ⟨a, between, hfirst, hsecond⟩ := run_bind_eq_ok.mp hrun
  obtain ⟨b, otherBetween, hother, hP, hR⟩ := h hR hfirst
  obtain ⟨d, t', hlast, hQ, hR⟩ := hnext a b hP hR hsecond
  exact ⟨d, t', run_bind_eq_ok.mpr ⟨b, otherBetween, hother, hlast⟩, hQ, hR⟩

theorem simulates_get : Simulates R R (get : Step State) get := by
  intro s t a s' hR hrun
  obtain ⟨rfl, rfl⟩ := run_get_eq_ok.mp hrun
  exact ⟨t, t, rfl, hR, hR⟩

/-- Changes of related states are related if they keep the relation. -/
theorem simulates_modify {change otherChange : State → State}
    (h : ∀ {s t}, R s t → R (change s) (otherChange t)) :
    Simulates R Eq (modify change : Step Unit) (modify otherChange) := by
  intro s t a s' hR hrun
  obtain rfl := run_modify_eq_ok.mp hrun
  exact ⟨(), otherChange t, rfl, rfl, h hR⟩

theorem simulates_set {new other : State} (h : R new other) :
    Simulates R Eq (set new : Step PUnit) (set other) := by
  intro s t a s' _ hrun
  obtain rfl := run_set_eq_ok.mp hrun
  exact ⟨_, other, rfl, rfl, h⟩

/-- Steps that give the same one after the other give the same in a list. -/
theorem simulates_mapM {step other : ι → Step α} {items : List ι}
    (h : ∀ item ∈ items, Simulates R Eq (step item) (other item)) :
    Simulates R Eq (items.mapM step) (items.mapM other) := by
  induction items with
  | nil => exact simulates_pure rfl
  | cons item items ih =>
      obtain ⟨hitem, hitems⟩ := List.forall_mem_cons.mp h
      rw [List.mapM_cons, List.mapM_cons]
      refine simulates_bind hitem fun a _ heq => ?_
      subst heq
      refine simulates_bind (ih hitems) fun others _ heq => ?_
      subst heq
      exact simulates_pure rfl

/-- A run over items is followed item by item. -/
theorem simulates_foldlM {Q : α → β → Prop} {step : α → ι → Step α} {other : β → ι → Step β}
    {items : List ι}
    (h : ∀ a b, ∀ item ∈ items, Q a b → Simulates R Q (step a item) (other b item)) {a : α} {b : β}
    (hQ : Q a b) : Simulates R Q (items.foldlM step a) (items.foldlM other b) := by
  induction items generalizing a b with
  | nil => exact simulates_pure hQ
  | cons item items ih =>
      rw [List.foldlM_cons, List.foldlM_cons]
      exact simulates_bind (h a b item List.mem_cons_self hQ) fun _ _ hnext =>
        ih (fun c d other hmem => h c d other (List.mem_cons_of_mem _ hmem)) hnext

end

/-! ### The building of a node -/

namespace State

/-- The finished cell of a node. -/
def cellOf? (s : State) (id : NodeId) : Option Cell :=
  (s.made.find? fun known => known.1 == id).map Prod.snd

/-- The node is being built. -/
def begun (s : State) (id : NodeId) : State :=
  { s with busy := id :: s.busy }

/-- There is a new object. -/
def allocated (s : State) (kind : Collection) : State :=
  { s with objects := s.objects.push kind.empty }

/-- The collection waits to be filled. -/
def queued (s : State) (id : NodeId) (object : ObjectId) : State :=
  { s with waiting := s.waiting ++ [(id, object)] }

/-- The node is built. -/
def finished (s : State) (id : NodeId) (cell : Cell) : State :=
  { s with made := (id, cell) :: s.made, busy := s.busy.erase id }

/-- A node that is finished has its cell, and all others have theirs. -/
theorem cellOf?_finished (s : State) (id other : NodeId) (cell : Cell) :
    (s.finished id cell).cellOf? other = if id = other then some cell else s.cellOf? other := by
  by_cases h : id = other <;> simp [cellOf?, finished, h]

end State

/-- Everything that the building of a node can do: it is known already, a collection is filled
at once or waits, or it is a scalar. -/
inductive Making (keys : Keys) (fuel : Nat) (complete : Bool) (id : NodeId) (s : State) :
    Cell → State → Prop
  | known {node : Node} {cell : Cell} (hnode : s.nodes[id]? = some node)
      (hcell : s.cellOf? id = some cell) : Making keys fuel complete id s cell s
  | filled {node : Node} {kind : Collection} {after : State} (hnode : s.nodes[id]? = some node)
      (hcell : s.cellOf? id = none) (hbusy : id ∉ s.busy)
      (hkind : collection? node.tag = some kind) (hcomplete : complete = true)
      (hfill : (fill keys (make keys fuel true) (make keys fuel true) kind id s.objects.size).run
        ((s.begun id).allocated kind) = .ok ((), after)) :
      Making keys fuel complete id s (.object s.objects.size)
        (after.finished id (.object s.objects.size))
  | queued {node : Node} {kind : Collection} (hnode : s.nodes[id]? = some node)
      (hcell : s.cellOf? id = none) (hbusy : id ∉ s.busy)
      (hkind : collection? node.tag = some kind) (hcomplete : complete = false) :
      Making keys fuel complete id s (.object s.objects.size)
        ((((s.begun id).allocated kind).queued id s.objects.size).finished id
          (.object s.objects.size))
  | scalar {node : Node} {kind : ScalarKind} {value : Value} (hnode : s.nodes[id]? = some node)
      (hcell : s.cellOf? id = none) (hbusy : id ∉ s.busy) (hnone : collection? node.tag = none)
      (hkind : scalarKind? node.tag = some kind)
      (hvalue : (scalarValue kind node).run (s.begun id) = .ok (value, s.begun id)) :
      Making keys fuel complete id s (.leaf value (originOf id node value))
        ((s.begun id).finished id (.leaf value (originOf id node value)))

/-- What a run of the making did is one of its cases. -/
theorem making_of_run {keys : Keys} {fuel : Nat} {complete : Bool} {id : NodeId} {s s' : State}
    {cell : Cell} (h : (make keys (fuel + 1) complete id).run s = .ok (cell, s')) :
    Making keys fuel complete id s cell s' := by
  rw [make] at h
  obtain ⟨_, _, hget, h⟩ := run_bind_eq_ok.mp h
  obtain ⟨rfl, rfl⟩ := run_get_eq_ok.mp hget
  obtain ⟨node, _, hat, h⟩ := run_bind_eq_ok.mp h
  obtain ⟨hnode, rfl⟩ := run_nodeAt_eq_ok.mp hat
  split at h
  · next found hfound =>
      obtain ⟨rfl, rfl⟩ := run_pure_eq_ok.mp h
      exact .known hnode (by rw [State.cellOf?, hfound]; rfl)
  · next hfound =>
      have hcell : s.cellOf? id = none := by rw [State.cellOf?, hfound]; rfl
      split at h
      · exact absurd h run_throw_ne_ok
      · next hbusy =>
          have hbusy : id ∉ s.busy := by simpa using hbusy
          obtain ⟨_, _, hset, h⟩ := run_bind_eq_ok.mp h
          obtain rfl := run_set_eq_ok.mp hset
          simp only at h
          split at h
          · next kind _ hkind =>
              obtain ⟨object, _, hallocate, h⟩ := run_bind_eq_ok.mp h
              cases hallocate
              split at h
              · next hcomplete =>
                  obtain ⟨_, after, hfill, h⟩ := run_bind_eq_ok.mp h
                  cases h
                  exact .filled hnode hcell hbusy hkind hcomplete hfill
              · next hcomplete =>
                  cases h
                  exact .queued hnode hcell hbusy hkind (Bool.not_eq_true _ ▸ hcomplete)
          · next kind hnone hkind =>
              obtain ⟨value, between, hvalue, h⟩ := run_bind_eq_ok.mp h
              obtain rfl := reads_scalarValue kind node hvalue
              cases h
              exact .scalar hnode hcell hbusy hnone hkind hvalue
          · obtain ⟨_, _, hrefuse, -⟩ := run_bind_eq_ok.mp h
            exact absurd hrefuse run_throw_ne_ok

/-- And each of its cases is a run. -/
theorem run_of_making {keys : Keys} {fuel : Nat} {complete : Bool} {id : NodeId} {s s' : State}
    {cell : Cell} (h : Making keys fuel complete id s cell s') :
    (make keys (fuel + 1) complete id).run s = .ok (cell, s') := by
  have hopen : ∀ {node : Node} {next : State → Node → Step Cell}, s.nodes[id]? = some node →
      (next s node).run s = .ok (cell, s') →
      (get >>= fun s => nodeAt id >>= next s : Step Cell).run s = .ok (cell, s') := by
    intro node next hnode hnext
    exact run_bind_eq_ok.mpr ⟨s, s, rfl, run_bind_eq_ok.mpr
      ⟨node, s, run_nodeAt_eq_ok.mpr ⟨hnode, rfl⟩, hnext⟩⟩
  rw [make]
  cases h with
  | known hnode hcell =>
      obtain ⟨known, hfound, rfl⟩ := Option.map_eq_some_iff.mp hcell
      apply hopen hnode
      rw [hfound]
      rfl
  | filled hnode hcell hbusy hkind hcomplete hfill =>
      apply hopen hnode
      rw [Option.map_eq_none_iff.mp hcell]
      simp only
      rw [if_neg (by simpa using hbusy)]
      refine run_bind_eq_ok.mpr ⟨_, _, rfl, ?_⟩
      simp only [hkind, hcomplete, if_true]
      exact run_bind_eq_ok.mpr ⟨_, _, rfl, run_bind_eq_ok.mpr ⟨_, _, hfill, rfl⟩⟩
  | queued hnode hcell hbusy hkind hcomplete =>
      apply hopen hnode
      rw [Option.map_eq_none_iff.mp hcell]
      simp only
      rw [if_neg (by simpa using hbusy)]
      refine run_bind_eq_ok.mpr ⟨_, _, rfl, ?_⟩
      simp only [hkind, hcomplete, if_neg Bool.false_ne_true]
      exact run_bind_eq_ok.mpr ⟨_, _, rfl, rfl⟩
  | scalar hnode hcell hbusy hnone hkind hvalue =>
      apply hopen hnode
      rw [Option.map_eq_none_iff.mp hcell]
      simp only
      rw [if_neg (by simpa using hbusy)]
      refine run_bind_eq_ok.mpr ⟨_, _, rfl, ?_⟩
      simp only [hnone, hkind]
      exact run_bind_eq_ok.mpr ⟨_, _, hvalue, rfl⟩

/-- **What the building of a node does.** -/
theorem run_make_eq_ok {keys : Keys} {fuel : Nat} {complete : Bool} {id : NodeId} {s s' : State}
    {cell : Cell} :
    (make keys (fuel + 1) complete id).run s = .ok (cell, s') ↔
      Making keys fuel complete id s cell s' :=
  ⟨making_of_run, run_of_making⟩

end ContentCatalog.Yaml.Building
