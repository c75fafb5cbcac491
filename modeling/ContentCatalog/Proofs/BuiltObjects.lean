import ContentCatalog.Proofs.MergedMappings

/-!
# Built objects

Building a node makes new objects and fills them; what was there before stays as it is, and
the texts of scalars do.  A collection that waits is filled once, so the object of a
document has its content for good as soon as it is filled.

* `leads_fill` : a relation that each part of the filling keeps is kept by the filling;
* `Keeps`, `keeps_make`, `keeps_fill` : what stays when a node is built, or an object filled;
* `Filling`, `filling_of_run` : everything that can be done about what waits;
* `run_fillWaiting_getElem?` : an object that does not wait keeps its content;
* `run_document_eq_ok` : the value of a document that is a mapping.
-/

namespace ContentCatalog.Yaml.Building

section

variable {R : State → State → Prop} {makeKey make : NodeId → Step Cell}

/-- The text of a key keeps to what the making of keys keeps to. -/
theorem leads_keyText (hR : Composable R) (hkey : ∀ id, Leads R (makeKey id)) (id : NodeId) :
    Leads R (keyText makeKey id) := by
  rw [keyText]
  refine leads_bind hR (Reads.leads hR (reads_nodeAt id)) fun node => ?_
  split
  · exact leads_pure hR _
  · refine leads_bind hR (hkey id) fun cell => leads_bind hR (leads_get hR) fun s => ?_
    split
    · exact leads_pure hR _
    · exact leads_throw _

/-- A relation that the building of parts and the flattening keep. -/
structure KeptByParts (R : State → State → Prop) (makeKey make : NodeId → Step Cell) : Prop where
  composable : Composable R
  key : ∀ id, Leads R (makeKey id)
  part : ∀ id, Leads R (make id)
  flatten : ∀ id, Leads R (flattenNode id)

variable (h : KeptByParts R makeKey make)

include h

/-- So do entries with keys that are decoded. -/
theorem leads_decodedEntries (id : NodeId) : Leads R (decodedEntries make id) := by
  rw [decodedEntries]
  refine leads_bind h.composable (Reads.leads h.composable (reads_nodeAt id)) fun node => ?_
  split
  · refine leads_bind h.composable (h.flatten id) fun _ =>
      leads_bind h.composable (Reads.leads h.composable (reads_entriesAt id)) fun entries => ?_
    refine leads_foldlM h.composable (fun built entry _ => ?_) []
    refine leads_bind h.composable (h.part entry.1) fun key => ?_
    split
    · exact leads_bind h.composable (h.part entry.2) fun value => leads_pure h.composable _
    · exact leads_bind h.composable (Reads.leads h.composable (reads_nodeAt entry.1)) fun _ =>
        leads_throw _
  · exact leads_throw _

theorem leads_sourceEntries (id : NodeId) : Leads R (sourceEntries makeKey make id) := by
  rw [sourceEntries]
  refine leads_bind h.composable (Reads.leads h.composable (reads_nodeAt id)) fun node => ?_
  split
  · refine leads_bind h.composable (h.flatten id) fun _ =>
      leads_bind h.composable (Reads.leads h.composable (reads_entriesAt id)) fun entries => ?_
    refine leads_foldlM h.composable (fun built entry _ => ?_) []
    exact leads_bind h.composable (leads_keyText h.composable h.key entry.1) fun key =>
      leads_bind h.composable (h.part entry.2) fun value => leads_pure h.composable _
  · split
    · exact leads_pure h.composable _
    · exact leads_throw _
  · exact leads_pure h.composable _
  · exact leads_bind h.composable (Reads.leads h.composable (reads_nodeAt _)) fun _ => leads_throw _

/-- The entries of a mapping keep to it, however its keys are understood. -/
theorem leads_mappingEntries (keys : Keys) (id : NodeId) :
    Leads R (mappingEntries keys makeKey make id) := by
  cases keys with
  | decoded => exact leads_decodedEntries h id
  | sourceText =>
      exact leads_bind h.composable (leads_sourceEntries h id) fun _ => leads_pure h.composable _

/-- Filling a list of pairs keeps to it if setting an object does. -/
theorem leads_fillPairs {object : ObjectId}
    (hset : ∀ content, Leads R (setObject object content)) (activity : Activity) (node : Node) :
    Leads R (fillPairs activity make node object) := by
  rw [fillPairs]
  split
  · refine leads_bind h.composable (leads_foldlM h.composable (fun built item _ => ?_) []) fun _ =>
      leads_pure h.composable _
    refine leads_bind h.composable (Reads.leads h.composable (reads_nodeAt item)) fun part => ?_
    split
    · exact leads_bind h.composable (h.part _) fun first =>
        leads_bind h.composable (h.part _) fun second =>
          leads_bind h.composable (hset _) fun _ => leads_pure h.composable _
    · exact leads_throw _
    · exact leads_throw _
  · exact leads_throw _

/-- What the parts of a filling keep, the filling keeps. -/
theorem leads_fill {object : ObjectId} (hset : ∀ content, Leads R (setObject object content))
    (keys : Keys) (kind : Collection) (id : NodeId) :
    Leads R (fill keys makeKey make kind id object) := by
  rw [fill]
  refine leads_bind h.composable (Reads.leads h.composable (reads_nodeAt id)) fun node => ?_
  cases kind with
  | list =>
      simp only
      split
      · exact leads_bind h.composable (leads_mapM h.composable fun item _ => h.part item)
          fun cells => hset _
      · exact leads_throw _
  | map => exact leads_bind h.composable (leads_mappingEntries h keys id) fun _ => hset _
  | set => exact leads_bind h.composable (leads_mappingEntries h keys id) fun _ => hset _
  | orderedMap => exact leads_fillPairs h hset _ node
  | pairs => exact leads_fillPairs h hset _ node

end

/-! ### What stays -/

/-- What stays: the texts of scalars, and the objects that there were, but for the one that is
filled.  Only new objects wait. -/
structure Keeps (filled : Option ObjectId) (s s' : State) : Prop where
  scalar : ∀ {id : NodeId} {text : String}, scalarAt? s.nodes id = some text →
    scalarAt? s'.nodes id = some text
  size : s.objects.size ≤ s'.objects.size
  object : ∀ {object : ObjectId}, object < s.objects.size → some object ≠ filled →
    s'.objects[object]? = s.objects[object]?
  waiting : ∀ entry ∈ s'.waiting, entry ∈ s.waiting ∨ s.objects.size ≤ entry.2

theorem composable_keeps (filled : Option ObjectId) : Composable (Keeps filled) where
  refl := fun s => ⟨id, Nat.le_refl _, fun _ _ => rfl, fun _ h => .inl h⟩
  trans := by
    intro before between after hfirst hsecond
    refine ⟨fun h => hsecond.scalar (hfirst.scalar h), Nat.le_trans hfirst.size hsecond.size,
      ?_, ?_⟩
    · intro object hobject hne
      exact (hsecond.object (Nat.lt_of_lt_of_le hobject hfirst.size) hne).trans
        (hfirst.object hobject hne)
    · intro entry hentry
      rcases hsecond.waiting entry hentry with hold | hnew
      · exact hfirst.waiting entry hold
      · exact .inr (Nat.le_trans hfirst.size hnew)

/-- What keeps all objects keeps all but one. -/
theorem Keeps.filling {s s' : State} (h : Keeps none s s') (filled : Option ObjectId) :
    Keeps filled s s' :=
  ⟨h.scalar, h.size, fun hobject _ => h.object hobject (by simp), h.waiting⟩

/-- Flattening a mapping keeps all objects. -/
theorem keeps_of_flattens {s s' : State} (h : Flattens s s') (filled : Option ObjectId) :
    Keeps filled s s' := by
  refine ⟨h.scalar, ?_, ?_, ?_⟩
  · exact Nat.le_of_eq (congrArg (fun s : State => s.objects.size) h.rest).symm
  · intro object _ _
    rw [h.rest]
  · intro entry hentry
    rw [h.rest] at hentry
    exact .inl hentry

/-- Setting an object keeps all others. -/
theorem keeps_setObject (object : ObjectId) (content : Object) :
    Leads (Keeps (some object)) (setObject object content) := by
  refine leads_modify fun s => ⟨id, ?_, ?_, fun _ h => .inl h⟩
  · exact Nat.le_of_eq (Array.size_setIfInBounds).symm
  · intro other _ hne
    exact Array.getElem?_setIfInBounds_ne fun heq => hne (congrArg some heq.symm)

/-- The parts of the making keep all objects but the one that is filled. -/
theorem keptByParts_keeps {makeKey make : NodeId → Step Cell} (filled : Option ObjectId)
    (hkey : ∀ id, Leads (Keeps none) (makeKey id)) (hpart : ∀ id, Leads (Keeps none) (make id)) :
    KeptByParts (Keeps filled) makeKey make where
  composable := composable_keeps filled
  key := fun id _ _ _ h => (hkey id h).filling filled
  part := fun id _ _ _ h => (hpart id h).filling filled
  flatten := fun id _ _ _ h => keeps_of_flattens (flattens_flattenNode id h) filled

/-- **Building a node** changes no object that there was. -/
theorem keeps_make (keys : Keys) (fuel : Nat) (complete : Bool) (id : NodeId) :
    Leads (Keeps none) (make keys fuel complete id) := by
  induction fuel generalizing complete id with
  | zero => exact leads_throw _
  | succ fuel ih =>
      intro s cell s' hrun
      have hallocated : ∀ kind, Keeps none s ((s.begun id).allocated kind) := by
        intro kind
        refine ⟨fun h => h, ?_, ?_, fun _ h => .inl h⟩
        · rw [State.allocated, Array.size_push]
          exact Nat.le_succ _
        · intro object hobject _
          exact Array.getElem?_push_lt hobject |>.trans (Array.getElem?_eq_getElem hobject).symm
      cases run_make_eq_ok.mp hrun with
      | known hnode hcell => exact (composable_keeps none).refl s
      | filled hnode hcell hbusy hkind hcomplete hfill =>
          rename_i node kind after
          have hkeeps := leads_fill (keptByParts_keeps (some s.objects.size) (ih true) (ih true))
            (keeps_setObject _) keys kind id hfill
          have hsize : ((s.begun id).allocated kind).objects.size = s.objects.size + 1 :=
            Array.size_push _
          refine ⟨hkeeps.scalar, ?_, ?_, ?_⟩
          · exact Nat.le_trans (hallocated kind).size hkeeps.size
          · intro object hobject hne
            have hother : some object ≠ some s.objects.size := by
              rintro heq
              cases heq
              exact Nat.lt_irrefl _ hobject
            exact (hkeeps.object (Nat.lt_of_lt_of_le hobject (hallocated kind).size) hother).trans
              ((hallocated kind).object hobject hne)
          · intro entry hentry
            refine (hkeeps.waiting entry hentry).imp_right fun hnew => ?_
            exact Nat.le_trans (hallocated kind).size hnew
      | queued hnode hcell hbusy hkind hcomplete =>
          rename_i node kind
          refine ⟨fun h => h, (hallocated kind).size, (hallocated kind).object, ?_⟩
          intro entry hentry
          rcases List.mem_append.mp hentry with hold | hnew
          · exact .inl hold
          · rw [List.mem_singleton.mp hnew]
            exact .inr (Nat.le_refl _)
      | scalar hnode hcell hbusy hnone hkind hvalue =>
          exact ⟨fun h => h, Nat.le_refl _, fun _ _ => rfl, fun _ h => .inl h⟩

/-- Filling an object changes no other one. -/
theorem keeps_fill (keys : Keys) (fuel : Nat) (complete : Bool) (kind : Collection) (id : NodeId)
    (object : ObjectId) :
    Leads (Keeps (some object))
      (fill keys (make keys fuel true) (make keys fuel complete) kind id object) :=
  leads_fill (keptByParts_keeps _ (keeps_make keys fuel true) (keeps_make keys fuel complete))
    (keeps_setObject object) keys kind id

/-! ### Documents -/

/-- Everything that can be done about what waits: nothing if nothing does, else the first of what
waits is filled, if it is a collection, and then the others. -/
inductive Filling (keys : Keys) (fuel : Nat) (s s' : State) : Prop
  | done (hwaiting : s.waiting = []) (hsame : s' = s) : Filling keys fuel s s'
  | skipped {id : NodeId} {object : ObjectId} {rest : List (NodeId × ObjectId)} {node : Node}
      (hwaiting : s.waiting = (id, object) :: rest) (hnode : s.nodes[id]? = some node)
      (hkind : collection? node.tag = none)
      (hrest : (fillWaiting keys fuel).run { s with waiting := rest } = .ok ((), s')) :
      Filling keys fuel s s'
  | filled {id : NodeId} {object : ObjectId} {rest : List (NodeId × ObjectId)} {node : Node}
      {kind : Collection} {between : State} (hwaiting : s.waiting = (id, object) :: rest)
      (hnode : s.nodes[id]? = some node) (hkind : collection? node.tag = some kind)
      (hfill : (fill keys (make keys (s.nodes.size + 1) true) (make keys (s.nodes.size + 1) false)
        kind id object).run { s with waiting := rest } = .ok ((), between))
      (hrest : (fillWaiting keys fuel).run between = .ok ((), s')) : Filling keys fuel s s'

/-- What a run of the filling did is one of its cases. -/
theorem filling_of_run {keys : Keys} {fuel : Nat} {s s' : State}
    (h : (fillWaiting keys (fuel + 1)).run s = .ok ((), s')) : Filling keys fuel s s' := by
  rw [fillWaiting] at h
  obtain ⟨_, _, hget, h⟩ := run_bind_eq_ok.mp h
  obtain ⟨rfl, rfl⟩ := run_get_eq_ok.mp hget
  split at h
  · next hwaiting =>
      cases h
      exact .done hwaiting rfl
  · next id object rest hwaiting =>
      obtain ⟨_, _, hset, h⟩ := run_bind_eq_ok.mp h
      obtain rfl := run_set_eq_ok.mp hset
      obtain ⟨node, _, hat, h⟩ := run_bind_eq_ok.mp h
      obtain ⟨hnode, rfl⟩ := run_nodeAt_eq_ok.mp hat
      split at h
      · next kind hkind =>
          obtain ⟨_, between, hfill, hrest⟩ := run_bind_eq_ok.mp h
          exact .filled hwaiting hnode hkind hfill hrest
      · next hkind => exact .skipped hwaiting hnode hkind h

/-- **An object that does not wait** has its content for good. -/
theorem run_fillWaiting_getElem? {keys : Keys} {fuel : Nat} {object : ObjectId} {s s' : State}
    (hobject : object < s.objects.size) (hwaiting : ∀ entry ∈ s.waiting, entry.2 ≠ object)
    (h : (fillWaiting keys fuel).run s = .ok ((), s')) :
    s'.objects[object]? = s.objects[object]? := by
  induction fuel generalizing s with
  | zero =>
      cases h
      rfl
  | succ fuel ih =>
      cases filling_of_run h with
      | done _ hsame => rw [hsame]
      | skipped heq hnode hkind hrest =>
          rename_i id next rest node
          rw [heq] at hwaiting
          exact ih (s := { s with waiting := rest }) hobject
            (List.forall_mem_cons.mp hwaiting).2 hrest
      | filled heq hnode hkind hfill hrest =>
          rename_i id next rest node kind between
          rw [heq] at hwaiting
          obtain ⟨hnext, hothers⟩ := List.forall_mem_cons.mp hwaiting
          have hkeeps := keeps_fill keys _ false _ _ _ hfill
          have hlater : ∀ entry ∈ between.waiting, entry.2 ≠ object := fun entry hentry =>
            (hkeeps.waiting entry hentry).elim (hothers entry)
              fun hnew heq => absurd (heq ▸ hnew) (Nat.not_le_of_lt hobject)
          rw [ih (Nat.lt_of_lt_of_le hobject hkeeps.size) hlater hrest]
          exact hkeeps.object hobject fun heq => hnext (Option.some.inj heq).symm

/-- The state in which nothing is built. -/
def State.unbuilt (graph : Graph) : State :=
  ⟨graph.nodes, [], [], #[], []⟩

/-- The state in which the mapping that is a document is filled. -/
def State.opened (graph : Graph) : State :=
  ⟨graph.nodes, [(graph.root, .object 0)], [], #[.map []], []⟩

/-- The value of a part of the mapping that is a document. -/
def State.part (s : State) (cell : Cell) : Value :=
  unfold s.objects (2 * s.objects.size + 1) [some 0] cell

/-- A document that is a mapping waits as object zero. -/
theorem making_root {keys : Keys} {fuel : Nat} {graph : Graph} {root : Node} {cell : Cell}
    {s : State} (hroot : graph.nodes[graph.root]? = some root)
    (hkind : collection? root.tag = some .map)
    (h : Making keys fuel false graph.root (.unbuilt graph) cell s) :
    cell = .object 0 ∧ s = { State.opened graph with waiting := [(graph.root, 0)] } := by
  cases h with
  | known hnode hcell => cases hcell
  | filled hnode hcell hbusy hcollection hcomplete hfill => cases hcomplete
  | queued hnode hcell hbusy hcollection hcomplete =>
      obtain rfl := Option.some.inj (hroot.symm.trans hnode)
      obtain rfl := Option.some.inj (hkind.symm.trans hcollection)
      refine ⟨rfl, ?_⟩
      simp [State.finished, State.queued, State.allocated, State.begun, State.unbuilt,
        State.opened, Collection.empty]
  | scalar hnode hcell hbusy hnone hscalar hvalue =>
      obtain rfl := Option.some.inj (hroot.symm.trans hnode)
      rw [hkind] at hnone
      cases hnone

/-- The mapping that is a document is filled first. -/
theorem run_fillWaiting_root {keys : Keys} {fuel : Nat} {graph : Graph} {root : Node} {s : State}
    (hroot : graph.nodes[graph.root]? = some root) (hkind : collection? root.tag = some .map)
    (h : (fillWaiting keys (fuel + 1)).run
      { State.opened graph with waiting := [(graph.root, 0)] } = .ok ((), s)) :
    ∃ after, (fill keys (make keys (graph.nodes.size + 1) true)
        (make keys (graph.nodes.size + 1) false) .map graph.root 0).run (.opened graph) =
          .ok ((), after) ∧
      (fillWaiting keys fuel).run after = .ok ((), s) := by
  cases filling_of_run h with
  | done hwaiting _ => cases hwaiting
  | skipped hwaiting hnode hnone hrest =>
      cases hwaiting
      obtain rfl := Option.some.inj (hroot.symm.trans hnode)
      rw [hkind] at hnone
      cases hnone
  | filled hwaiting hnode hsome hfill hrest =>
      cases hwaiting
      obtain rfl := Option.some.inj (hroot.symm.trans hnode)
      obtain rfl := Option.some.inj (hkind.symm.trans hsome)
      exact ⟨_, hfill, hrest⟩

/-- **The value of a document that is a mapping** has the entries with which it is filled. -/
theorem run_document_eq_ok {keys : Keys} {graph : Graph} {root : Node} {value : Value} {s : State}
    (hroot : graph.nodes[graph.root]? = some root) (htag : root.tag = Tag.standard "map")
    (h : (document keys graph).run (.unbuilt graph) = .ok (value, s)) :
    ∃ entries filled,
      (mappingEntries keys (make keys (graph.nodes.size + 1) true)
        (make keys (graph.nodes.size + 1) false) graph.root).run (.opened graph) =
          .ok (entries, filled) ∧
      value = .map (entries.map fun entry => (s.part entry.1, s.part entry.2)) := by
  have hkind : collection? root.tag = some .map := by
    rw [htag]
    decide
  rw [document] at h
  obtain ⟨cell, made, hmake, h⟩ := run_bind_eq_ok.mp h
  obtain ⟨_, s₁, hwaiting, h⟩ := run_bind_eq_ok.mp h
  obtain ⟨_, _, hget, h⟩ := run_bind_eq_ok.mp h
  obtain ⟨rfl, rfl⟩ := run_get_eq_ok.mp hget
  obtain ⟨rfl, rfl⟩ := run_pure_eq_ok.mp h
  obtain ⟨rfl, rfl⟩ := making_root hroot hkind (run_make_eq_ok.mp hmake)
  obtain ⟨after, hfill, hrest⟩ := run_fillWaiting_root hroot hkind hwaiting
  rw [fill] at hfill
  obtain ⟨_, _, hat, hfill⟩ := run_bind_eq_ok.mp hfill
  obtain ⟨-, rfl⟩ := run_nodeAt_eq_ok.mp hat
  obtain ⟨entries, filled, hentries, hobject⟩ := run_bind_eq_ok.mp hfill
  obtain rfl := run_modify_eq_ok.mp hobject
  refine ⟨entries, filled, hentries, ?_⟩
  have hkeeps : Keeps none (.opened graph) filled :=
    leads_mappingEntries
      (keptByParts_keeps none (keeps_make keys _ true) (keeps_make keys _ false)) keys _ hentries
  have hsize : 0 < filled.objects.size := Nat.lt_of_lt_of_le Nat.one_pos hkeeps.size
  have hzero : s₁.objects[0]? = some (.map entries) := by
    rw [run_fillWaiting_getElem? (s := { filled with
      objects := filled.objects.setIfInBounds 0 (.map entries) }) ?_ ?_ hrest]
    · simp [hsize]
    · simpa using hsize
    · intro entry hentry
      rcases hkeeps.waiting entry hentry with hold | hnew
      · cases hold
      · exact Nat.ne_of_gt hnew
  rw [valueOf, unfold]
  simp [hzero, State.part]

end ContentCatalog.Yaml.Building
