import ContentCatalog.Proofs.SourceKeys

/-!
# Keys that are texts anyway

Where every key of a document is a scalar that is a text, it makes no difference whether keys
are decoded or taken as they are written.  Both ways visit the same collections in the same
order; the only difference is that decoded keys are built as nodes, and a node that is a text
gives the same cell whenever it is built.

* `TextKeys` : every key of the nodes is a text;
* `run_flattenNode_of_textKeys` : there is nothing to flatten;
* `Matches` : what the states of both ways have in common;
* `simulates_make`, `simulates_fill`, `simulates_fillWaiting` : both ways do the same;
* `load_of_textKeys` : both ways give the same value.
-/

namespace ContentCatalog.Yaml.Building

/-- The text of a scalar that is a text. -/
def textAt? (nodes : Array Node) (id : NodeId) : Option String :=
  (nodes[id]?).bind fun node =>
    match node.content with
    | .scalar text => if node.tag = Tag.standard "str" then some text else none
    | _ => none

/-- A node has a text if it is a scalar with the tag of texts. -/
theorem textAt?_eq_some {nodes : Array Node} {id : NodeId} {text : String} :
    textAt? nodes id = some text ↔
      ∃ node, nodes[id]? = some node ∧ node.content = .scalar text ∧
        node.tag = Tag.standard "str" := by
  rw [textAt?, Option.bind_eq_some_iff]
  refine exists_congr fun node => and_congr_right fun _ => ?_
  cases node.content <;> simp [and_comm]

/-- Every key of the mappings is a text. -/
def TextKeys (nodes : Array Node) : Prop :=
  ∀ ⦃id : NodeId⦄ ⦃entries : List (NodeId × NodeId)⦄, mappingAt? nodes id = some entries →
    ∀ entry ∈ entries, ∃ text, textAt? nodes entry.1 = some text

/-- Of the keys it can be computed whether they are texts. -/
theorem textKeys_iff {nodes : Array Node} :
    TextKeys nodes ↔ ∀ node ∈ nodes.toList, ∀ entry ∈ entriesOf node,
      (textAt? nodes entry.1).isSome := by
  simp only [Option.isSome_iff_exists]
  constructor
  · intro h node hnode entry hentry
    obtain ⟨id, hid⟩ := List.mem_iff_getElem?.mp hnode
    rw [Array.getElem?_toList] at hid
    cases hcontent : node.content with
    | mapping entries =>
        rw [entriesOf_of_mapping hcontent] at hentry
        exact h (mappingAt?_eq_some.mpr ⟨node, hid, hcontent⟩) entry hentry
    | scalar text => simp [entriesOf, hcontent] at hentry
    | sequence items => simp [entriesOf, hcontent] at hentry
  · intro h id entries hentries
    obtain ⟨node, hnode, hcontent⟩ := mappingAt?_eq_some.mp hentries
    have hmem : node ∈ nodes.toList :=
      List.mem_iff_getElem?.mpr ⟨id, by rw [Array.getElem?_toList, hnode]⟩
    exact entriesOf_of_mapping hcontent ▸ h node hmem

instance (nodes : Array Node) : Decidable (TextKeys nodes) :=
  decidable_of_iff _ textKeys_iff.symm

/-! ### Nothing to flatten -/

/-- Entries without marks are not split. -/
theorem splitMerge?_of_unmarked {nodes : Array Node} {entries : List (NodeId × NodeId)}
    (h : Unmarked nodes entries) : splitMerge? nodes entries = none := by
  induction entries with
  | nil => rfl
  | cons entry entries ih =>
      obtain ⟨hentry, hentries⟩ := List.forall_mem_cons.mp h
      rw [splitMerge?, if_neg (by simp [hentry]), ih hentries]
      rfl

/-- Keys that are texts are settled already. -/
theorem settled_of_texts {s : State} {entries : List (NodeId × NodeId)}
    (h : ∀ entry ∈ entries, ∃ text, textAt? s.nodes entry.1 = some text) :
    s.settled entries = s := by
  have hnodes : entries.foldl (fun nodes entry => nodes.modify entry.1 State.settledKey) s.nodes =
      s.nodes := by
    induction entries with
    | nil => rfl
    | cons entry entries ih =>
        obtain ⟨⟨text, htext⟩, hentries⟩ := List.forall_mem_cons.mp h
        obtain ⟨node, hnode, -, htag⟩ := textAt?_eq_some.mp htext
        have hsame : s.nodes.modify entry.1 State.settledKey = s.nodes := by
          refine Array.ext_getElem? fun id => ?_
          rw [Array.getElem?_modify]
          split
          · next heq =>
              have hvalue : (Tag.standard "str" == Tag.standard "value") = false := by decide
              rw [← heq, hnode, Option.map_some, State.settledKey, htag, hvalue]
              rfl
          · rfl
        rw [List.foldl_cons, hsame, ih hentries]
  rw [State.settled, hnodes]

/-- **Where every key is a text** there is nothing to flatten. -/
theorem run_flattenNode_of_textKeys {id : NodeId} {node : Node} {s : State}
    (h : TextKeys s.nodes) (hnode : s.nodes[id]? = some node) :
    (flattenNode id).run s = .ok ((), s) := by
  have htexts : ∀ entry ∈ entriesOf node, ∃ text, textAt? s.nodes entry.1 = some text := by
    rw [entriesOf_eq_getD hnode]
    cases hentries : mappingAt? s.nodes id with
    | none => exact List.forall_mem_nil _
    | some entries => exact h hentries
  have hunmarked : Unmarked s.nodes (entriesOf node) := by
    intro entry hentry
    obtain ⟨text, htext⟩ := htexts entry hentry
    obtain ⟨key, hkey, -, htag⟩ := textAt?_eq_some.mp htext
    rw [isMergeKey, hkey, Option.any_some, htag]
    decide
  have hentries : (entriesAt id).run s = .ok (entriesOf node, s) :=
    run_entriesAt_eq_ok.mpr ⟨⟨node, hnode, rfl⟩, rfl⟩
  refine run_bind_eq_ok.mpr ⟨s, s, rfl, ?_⟩
  rw [flatten]
  refine run_bind_eq_ok.mpr ⟨node, s, run_nodeAt_eq_ok.mpr ⟨hnode, rfl⟩, ?_⟩
  refine run_bind_eq_ok.mpr ⟨_, s, hentries, run_bind_eq_ok.mpr ⟨s, s, rfl, ?_⟩⟩
  rw [splitMerge?_of_unmarked hunmarked]
  refine run_bind_eq_ok.mpr ⟨(), s, ?_, rfl⟩
  exact run_modify_eq_ok.mpr (settled_of_texts htexts)

/-! ### States of both ways -/

/-- What the states of both ways have in common: everything, except that a node which is a text
may be built in one of them only. -/
structure Matches (nodes : Array Node) (s t : State) : Prop where
  nodes_left : s.nodes = nodes
  nodes_right : t.nodes = nodes
  busy : t.busy = s.busy
  free : ∀ {id : NodeId} {text : String}, textAt? nodes id = some text → id ∉ s.busy
  objects : t.objects = s.objects
  waiting : t.waiting = s.waiting
  text_left : ∀ {id : NodeId} {text : String} {cell : Cell}, textAt? nodes id = some text →
    s.cellOf? id = some cell → cell = .leaf (.text text) none
  text_right : ∀ {id : NodeId} {text : String} {cell : Cell}, textAt? nodes id = some text →
    t.cellOf? id = some cell → cell = .leaf (.text text) none
  cell : ∀ {id : NodeId}, textAt? nodes id = none → t.cellOf? id = s.cellOf? id

variable {nodes : Array Node}

/-- Before the building both states match. -/
theorem matches_unbuilt (graph : Graph) :
    Matches graph.nodes (.unbuilt graph) (.unbuilt graph) where
  nodes_left := rfl
  nodes_right := rfl
  busy := rfl
  free := fun _ => List.not_mem_nil
  objects := rfl
  waiting := rfl
  text_left := fun _ h => by cases h
  text_right := fun _ h => by cases h
  cell := fun _ => rfl

namespace Matches

variable {s t : State}

theorem nodes_eq (h : Matches nodes s t) : t.nodes = s.nodes :=
  h.nodes_right.trans h.nodes_left.symm

/-- A text is built in the first state. -/
theorem left {id : NodeId} {text : String} (h : Matches nodes s t)
    (htext : textAt? nodes id = some text) :
    Matches nodes ((s.begun id).finished id (.leaf (.text text) none)) t where
  nodes_left := h.nodes_left
  nodes_right := h.nodes_right
  busy := by simp [State.finished, State.begun, h.busy]
  free := fun hother => by simpa [State.finished, State.begun] using h.free hother
  objects := h.objects
  waiting := h.waiting
  text_left := by
    intro other word cell hword hcell
    rw [State.cellOf?_finished] at hcell
    split at hcell
    · next heq =>
        subst heq
        cases htext.symm.trans hword
        exact (Option.some.inj hcell).symm
    · exact h.text_left hword hcell
  text_right := h.text_right
  cell := by
    intro other hother
    rw [State.cellOf?_finished, if_neg]
    · exact h.cell hother
    · rintro rfl
      cases htext.symm.trans hother

/-- States match either way. -/
theorem symm (h : Matches nodes s t) : Matches nodes t s where
  nodes_left := h.nodes_right
  nodes_right := h.nodes_left
  busy := h.busy.symm
  free := fun htext => h.busy ▸ h.free htext
  objects := h.objects.symm
  waiting := h.waiting.symm
  text_left := h.text_right
  text_right := h.text_left
  cell := fun hid => (h.cell hid).symm

/-- Another node is begun in both states. -/
theorem begun {id : NodeId} (h : Matches nodes s t) (hid : textAt? nodes id = none) :
    Matches nodes (s.begun id) (t.begun id) where
  nodes_left := h.nodes_left
  nodes_right := h.nodes_right
  busy := congrArg (id :: ·) h.busy
  free := by
    intro other text htext hmem
    rcases List.mem_cons.mp hmem with rfl | hmem
    · cases htext.symm.trans hid
    · exact h.free htext hmem
  objects := h.objects
  waiting := h.waiting
  text_left := h.text_left
  text_right := h.text_right
  cell := h.cell

/-- Another node is finished in both states. -/
theorem finished {id : NodeId} (h : Matches nodes s t) (hid : textAt? nodes id = none)
    (cell : Cell) : Matches nodes (s.finished id cell) (t.finished id cell) where
  nodes_left := h.nodes_left
  nodes_right := h.nodes_right
  busy := congrArg (List.erase · id) h.busy
  free := fun htext hmem => h.free htext (List.mem_of_mem_erase hmem)
  objects := h.objects
  waiting := h.waiting
  text_left := by
    intro other word found hword hfound
    rw [State.cellOf?_finished, if_neg] at hfound
    · exact h.text_left hword hfound
    · rintro rfl
      cases hword.symm.trans hid
  text_right := by
    intro other word found hword hfound
    rw [State.cellOf?_finished, if_neg] at hfound
    · exact h.text_right hword hfound
    · rintro rfl
      cases hword.symm.trans hid
  cell := by
    intro other hother
    rw [State.cellOf?_finished, State.cellOf?_finished, h.cell hother]

theorem allocated (h : Matches nodes s t) (kind : Collection) :
    Matches nodes (s.allocated kind) (t.allocated kind) :=
  { h with objects := congrArg (·.push kind.empty) h.objects }

theorem queued (h : Matches nodes s t) (id : NodeId) (object : ObjectId) :
    Matches nodes (s.queued id object) (t.queued id object) :=
  { h with waiting := congrArg (· ++ [(id, object)]) h.waiting }

end Matches

/-! ### Both ways do the same -/

theorem simulates_nodeAt (id : NodeId) :
    Simulates (Matches nodes) (fun node other => node = other ∧ nodes[id]? = some node) (nodeAt id)
      (nodeAt id) := by
  intro s t node s' hR hrun
  obtain ⟨hnode, rfl⟩ := run_nodeAt_eq_ok.mp hrun
  refine ⟨node, t, run_nodeAt_eq_ok.mpr ⟨?_, rfl⟩, ⟨rfl, ?_⟩, hR⟩
  · rw [hR.nodes_eq, hnode]
  · rw [← hR.nodes_left, hnode]

/-- Both find the same entries, with keys that are texts. -/
theorem simulates_entriesAt (hkeys : TextKeys nodes) (id : NodeId) :
    Simulates (Matches nodes)
      (fun entries others => entries = others ∧
        ∀ entry ∈ entries, ∃ text, textAt? nodes entry.1 = some text)
      (entriesAt id) (entriesAt id) := by
  intro s t entries s' hR hrun
  obtain ⟨⟨node, hnode, rfl⟩, rfl⟩ := run_entriesAt_eq_ok.mp hrun
  refine ⟨_, t, run_entriesAt_eq_ok.mpr ⟨⟨node, ?_, rfl⟩, rfl⟩, ⟨rfl, ?_⟩, hR⟩
  · rw [hR.nodes_eq, hnode]
  · rw [hR.nodes_left] at hnode
    rw [entriesOf_eq_getD hnode]
    cases hentries : mappingAt? nodes id with
    | none => exact List.forall_mem_nil _
    | some entries => exact hkeys hentries

/-- Flattening a node leaves both matching. -/
theorem simulates_flattenNode (hkeys : TextKeys nodes) {id : NodeId} {node : Node}
    (hnode : nodes[id]? = some node) :
    Simulates (Matches nodes) Eq (flattenNode id) (flattenNode id) := by
  intro s t out s' hR hrun
  have hleft := run_flattenNode_of_textKeys (hR.nodes_left ▸ hkeys) (hR.nodes_left ▸ hnode)
  have hright := run_flattenNode_of_textKeys (hR.nodes_right ▸ hkeys) (hR.nodes_right ▸ hnode)
  rw [hleft] at hrun
  cases hrun
  exact ⟨(), t, hright, rfl, hR⟩

theorem simulates_setObject (object : ObjectId) (content : Object) :
    Simulates (Matches nodes) Eq (setObject object content) (setObject object content) := by
  refine simulates_modify fun hR => ?_
  exact { hR with objects := congrArg (·.setIfInBounds object content) hR.objects }

/-- The entries of a mapping with text keys, as entries with decoded keys. -/
def decodedTexts (built : List (String × Cell)) : List (Cell × Cell) :=
  built.map fun entry => (.leaf (.text entry.1) none, entry.2)

/-- Writing under a decoded text is writing under the text. -/
theorem putBy_decodedTexts (text : String) (cell : Cell) (built : List (String × Cell)) :
    Dictionary.putBy sameCell (.leaf (.text text) none) cell (decodedTexts built) =
      decodedTexts (Dictionary.put text cell built) := by
  induction built with
  | nil => rfl
  | cons entry built ih =>
      obtain ⟨key, value⟩ := entry
      have hsame : sameCell (.leaf (.text key) none) (.leaf (.text text) none) = (key == text) := by
        simp [sameCell, Value.sameKey, isNotNumber]
      rw [Dictionary.put_cons, decodedTexts, List.map_cons, Dictionary.putBy, hsame]
      by_cases heq : key = text
      · simp [heq, decodedTexts]
      · have hrest := ih
        rw [decodedTexts] at hrest
        simp [heq, decodedTexts, hrest]

/-- The building of parts does the same both ways, and of a text it gives this text. -/
structure PartsMatch (nodes : Array Node) (make other : NodeId → Step Cell) : Prop where
  part : ∀ id, Simulates (Matches nodes) Eq (make id) (other id)
  text : ∀ {id : NodeId} {text : String}, textAt? nodes id = some text →
    ∀ {s t s' : State} {cell : Cell}, Matches nodes s t → (make id).run s = .ok (cell, s') →
      cell = .leaf (.text text) none ∧ Matches nodes s' t

section

variable {make other makeKey otherKey : NodeId → Step Cell}

/-- A text is a scalar. -/
theorem scalarAt?_of_textAt? {id : NodeId} {text : String} (h : textAt? nodes id = some text) :
    scalarAt? nodes id = some text := by
  obtain ⟨node, hnode, hcontent, -⟩ := textAt?_eq_some.mp h
  exact scalarAt?_eq_some.mpr ⟨node, hnode, hcontent⟩

/-- Entries with decoded keys are those with the texts of the keys. -/
theorem simulates_decodedEntries (hkeys : TextKeys nodes) (h : PartsMatch nodes make other)
    (id : NodeId) :
    Simulates (Matches nodes) (fun built texts => built = decodedTexts texts)
      (decodedEntries make id) (sourceEntries otherKey other id) := by
  rw [decodedEntries, sourceEntries]
  refine simulates_bind (simulates_nodeAt id) fun node _ hboth => ?_
  obtain ⟨rfl, hnode⟩ := hboth
  cases node.content with
  | scalar text => exact simulates_throw _ _
  | sequence items => exact simulates_throw _ _
  | mapping original =>
      simp only
      refine simulates_bind (simulates_flattenNode hkeys hnode) fun _ _ _ => ?_
      refine simulates_bind (simulates_entriesAt hkeys id) fun entries _ hboth => ?_
      obtain ⟨rfl, htexts⟩ := hboth
      refine simulates_foldlM (fun built texts entry hentry hbuilt => ?_) rfl
      obtain ⟨text, htext⟩ := htexts entry hentry
      intro s t out s' hR hrun
      obtain ⟨key, between, hkey, hrun⟩ := run_bind_eq_ok.mp hrun
      obtain ⟨rfl, hR⟩ := h.text htext hR hkey
      obtain ⟨value, after, hvalue, hrun⟩ := run_bind_eq_ok.mp hrun
      obtain ⟨rfl, rfl⟩ := run_pure_eq_ok.mp hrun
      obtain ⟨_, t', hother, rfl, hafter⟩ := h.part entry.2 hR hvalue
      have hscalar : scalarAt? t.nodes entry.1 = some text := by
        rw [hR.nodes_right]
        exact scalarAt?_of_textAt? htext
      refine ⟨Dictionary.put text value texts, t', ?_, ?_, hafter⟩
      · exact run_bind_eq_ok.mpr ⟨text, t, run_keyText hscalar,
          run_bind_eq_ok.mpr ⟨value, t', hother, rfl⟩⟩
      · rw [hbuilt, putBy_decodedTexts]

/-- So both come to the same entries. -/
theorem simulates_mappingEntries (hkeys : TextKeys nodes) (h : PartsMatch nodes make other)
    (id : NodeId) :
    Simulates (Matches nodes) Eq (mappingEntries .decoded makeKey make id)
      (mappingEntries .sourceText otherKey other id) := by
  show Simulates _ _ (decodedEntries make id) (sourceEntries otherKey other id >>= _)
  rw [← bind_pure (decodedEntries make id)]
  exact simulates_bind (simulates_decodedEntries hkeys h id) fun built texts hbuilt =>
    simulates_pure hbuilt

theorem simulates_fillPairs (h : PartsMatch nodes make other) (activity : Activity) (node : Node)
    (object : ObjectId) :
    Simulates (Matches nodes) Eq (fillPairs activity make node object)
      (fillPairs activity other node object) := by
  rw [fillPairs, fillPairs]
  cases node.content with
  | scalar text => exact simulates_throw _ _
  | mapping entries => exact simulates_throw _ _
  | sequence items =>
      refine simulates_bind (simulates_foldlM (Q := Eq) (fun built _ item _ heq => ?_) rfl)
        fun _ _ _ => simulates_pure rfl
      subst heq
      refine simulates_bind (simulates_nodeAt item) fun part _ hboth => ?_
      obtain ⟨rfl, -⟩ := hboth
      split
      · refine simulates_bind (h.part _) fun first _ heq => ?_
        subst heq
        refine simulates_bind (h.part _) fun second _ heq => ?_
        subst heq
        exact simulates_bind (simulates_setObject object _) fun _ _ _ => simulates_pure rfl
      · exact simulates_throw _ _
      · exact simulates_throw _ _

/-- **An object is filled with the same both ways.** -/
theorem simulates_fill (hkeys : TextKeys nodes) (h : PartsMatch nodes make other)
    (kind : Collection) (id : NodeId) (object : ObjectId) :
    Simulates (Matches nodes) Eq (fill .decoded makeKey make kind id object)
      (fill .sourceText otherKey other kind id object) := by
  rw [fill, fill]
  refine simulates_bind (simulates_nodeAt id) fun node _ hboth => ?_
  obtain ⟨rfl, -⟩ := hboth
  cases kind with
  | list =>
      cases node.content with
      | scalar text => exact simulates_throw _ _
      | mapping entries => exact simulates_throw _ _
      | sequence items =>
          refine simulates_bind (simulates_mapM fun item _ => h.part item) fun cells _ heq => ?_
          subst heq
          exact simulates_setObject object _
  | map =>
      refine simulates_bind (simulates_mappingEntries hkeys h id) fun entries _ heq => ?_
      subst heq
      exact simulates_setObject object _
  | set =>
      refine simulates_bind (simulates_mappingEntries hkeys h id) fun entries _ heq => ?_
      subst heq
      exact simulates_setObject object _
  | orderedMap => exact simulates_fillPairs h _ node object
  | pairs => exact simulates_fillPairs h _ node object

end

/-! ### Scalars -/

/-- The value of a text is the text. -/
theorem run_scalarValue_text {node : Node} {text : String} (h : node.content = .scalar text)
    (s : State) : (scalarValue .text node).run s = .ok (.text text, s) := by
  rw [scalarValue]
  refine run_bind_eq_ok.mpr ⟨s, s, rfl, run_bind_eq_ok.mpr ⟨text, s, ?_, rfl⟩⟩
  rw [scalarText, h]
  rfl

theorem collection?_str : collection? (Tag.standard "str") = none := by decide

theorem scalarKind?_str : scalarKind? (Tag.standard "str") = some .text := by decide

/-- A text gives the same cell whenever it is built. -/
theorem making_text {keys : Keys} {fuel : Nat} {complete : Bool} {id : NodeId} {text : String}
    {s s' : State} {cell : Cell} (htext : textAt? s.nodes id = some text)
    (hknown : ∀ {cell : Cell}, s.cellOf? id = some cell → cell = .leaf (.text text) none)
    (h : Making keys fuel complete id s cell s') :
    cell = .leaf (.text text) none ∧
      (s' = s ∨ s' = (s.begun id).finished id (.leaf (.text text) none)) := by
  obtain ⟨node, hnode, hcontent, htag⟩ := textAt?_eq_some.mp htext
  have hcollection : ∀ {other : Node} {kind : Collection}, s.nodes[id]? = some other →
      collection? other.tag ≠ some kind := by
    intro other kind hother hkind
    obtain rfl := Option.some.inj (hnode.symm.trans hother)
    rw [htag, collection?_str] at hkind
    cases hkind
  cases h with
  | known hother hcell => exact ⟨hknown hcell, .inl rfl⟩
  | filled hother hcell hbusy hkind hcomplete hfill => exact absurd hkind (hcollection hother)
  | queued hother hcell hbusy hkind hcomplete => exact absurd hkind (hcollection hother)
  | scalar hother hcell hbusy hnone hkind hvalue =>
      obtain rfl := Option.some.inj (hnode.symm.trans hother)
      rw [htag, scalarKind?_str] at hkind
      obtain rfl := Option.some.inj hkind
      rw [run_scalarValue_text hcontent] at hvalue
      cases hvalue
      exact ⟨rfl, .inr rfl⟩

/-- A text can be built unless it is being built. -/
theorem making_of_text (keys : Keys) (fuel : Nat) (complete : Bool) {id : NodeId} {text : String}
    {s : State} (htext : textAt? s.nodes id = some text) (hbusy : id ∉ s.busy)
    (hknown : ∀ {cell : Cell}, s.cellOf? id = some cell → cell = .leaf (.text text) none) :
    ∃ s', Making keys fuel complete id s (.leaf (.text text) none) s' := by
  obtain ⟨node, hnode, hcontent, htag⟩ := textAt?_eq_some.mp htext
  cases hcell : s.cellOf? id with
  | some cell =>
      obtain rfl := hknown hcell
      exact ⟨s, .known hnode hcell⟩
  | none =>
      exact ⟨_, .scalar hnode hcell hbusy (by rw [htag, collection?_str])
        (by rw [htag, scalarKind?_str]) (run_scalarValue_text hcontent _)⟩

/-- The nodes decide what a scalar is. -/
theorem simulates_scalarText (fuel : Nat) (node : Node) :
    Simulates (fun s t => t.nodes = s.nodes) Eq (scalarText fuel node) (scalarText fuel node) := by
  induction fuel generalizing node with
  | zero => exact simulates_throw _ _
  | succ fuel ih =>
      rw [scalarText]
      cases node.content with
      | scalar text => exact simulates_pure rfl
      | sequence items => exact simulates_throw _ _
      | mapping entries =>
          refine simulates_bind simulates_get fun s t heq => ?_
          simp only [heq]
          split
          · refine simulates_bind (P := Eq) ?_ fun value _ heq => ?_
            · intro s t value s' hR hrun
              obtain ⟨hvalue, rfl⟩ := run_nodeAt_eq_ok.mp hrun
              exact ⟨value, t, run_nodeAt_eq_ok.mpr ⟨hR ▸ hvalue, rfl⟩, rfl, hR⟩
            · subst heq
              exact ih value
          · exact simulates_throw _ _

/-- A reading is the same in both. -/
theorem simulates_reading {α : Type} {R : State → State → Prop} (result : Except Defect α) :
    Simulates R Eq (reading result) (reading result) := by
  cases result with
  | ok value => exact simulates_pure rfl
  | error defect => exact simulates_throw _ _

/-- The value of a scalar depends on the nodes only. -/
theorem simulates_scalarValue (kind : ScalarKind) (node : Node) :
    Simulates (fun s t => t.nodes = s.nodes) Eq (scalarValue kind node)
      (scalarValue kind node) := by
  rw [scalarValue]
  refine simulates_bind simulates_get fun s t heq => ?_
  rw [heq]
  refine simulates_bind (simulates_scalarText _ node) fun text _ heq => ?_
  subst heq
  cases kind with
  | text => exact simulates_pure rfl
  | null => exact simulates_pure rfl
  | bool => exact simulates_reading _
  | int => exact simulates_reading _
  | float => exact simulates_reading _
  | binary =>
      simp only
      split
      · exact simulates_pure rfl
      · exact simulates_throw _ _
  | moment =>
      simp only
      split
      · exact simulates_reading _
      · exact simulates_throw _ _

/-- It is found in every state with these nodes. -/
theorem run_scalarValue_congr {kind : ScalarKind} {node : Node} {value : Value} {s t : State}
    (hnodes : t.nodes = s.nodes) (h : (scalarValue kind node).run s = .ok (value, s)) :
    (scalarValue kind node).run t = .ok (value, t) := by
  obtain ⟨_, t', hrun, rfl, -⟩ := simulates_scalarValue kind node hnodes h
  obtain rfl := reads_scalarValue kind node hrun
  exact hrun

/-! ### Whole documents -/

/-- Making a text in one state leaves it matching the other. -/
theorem matches_of_making {keys : Keys} {fuel : Nat} {complete : Bool} {id : NodeId}
    {s t s' : State} {cell : Cell} {text : String} (hR : Matches nodes s t)
    (htext : textAt? nodes id = some text) (h : Making keys fuel complete id s cell s') :
    cell = .leaf (.text text) none ∧ Matches nodes s' t := by
  obtain ⟨rfl, rfl | rfl⟩ := making_text (hR.nodes_left ▸ htext) (hR.text_left htext) h
  · exact ⟨rfl, hR⟩
  · exact ⟨rfl, hR.left htext⟩

/-- Parts match if the making of nodes does. -/
theorem partsMatch_make {fuel : Nat} {complete : Bool}
    (h : ∀ id, Simulates (Matches nodes) Eq (make .decoded fuel complete id)
      (make .sourceText fuel complete id)) :
    PartsMatch nodes (make .decoded fuel complete) (make .sourceText fuel complete) where
  part := h
  text := by
    intro id text htext s t s' cell hR hrun
    cases fuel with
    | zero => exact absurd hrun run_throw_ne_ok
    | succ fuel => exact matches_of_making hR htext (run_make_eq_ok.mp hrun)

/-- **A node is built the same both ways.** -/
theorem simulates_make (hkeys : TextKeys nodes) (fuel : Nat) (complete : Bool) (id : NodeId) :
    Simulates (Matches nodes) Eq (make .decoded fuel complete id)
      (make .sourceText fuel complete id) := by
  induction fuel generalizing complete id with
  | zero => exact simulates_throw _ _
  | succ fuel ih =>
      intro s t cell s' hR hrun
      have hmaking := run_make_eq_ok.mp hrun
      suffices hother : ∃ t', Making .sourceText fuel complete id t cell t' ∧ Matches nodes s' t' by
        obtain ⟨t', hother, hR'⟩ := hother
        exact ⟨cell, t', run_make_eq_ok.mpr hother, rfl, hR'⟩
      cases htext : textAt? nodes id with
      | some text =>
          obtain ⟨rfl, hR'⟩ := matches_of_making hR htext hmaking
          obtain ⟨t', hother⟩ := making_of_text .sourceText fuel complete
            (hR.nodes_right ▸ htext) (hR.busy ▸ hR.free htext) (hR.text_right htext)
          exact ⟨t', hother, (matches_of_making hR'.symm htext hother).2.symm⟩
      | none =>
          have hsize : t.objects.size = s.objects.size := congrArg Array.size hR.objects
          cases hmaking with
          | known hnode hcell =>
              exact ⟨t, .known (hR.nodes_eq ▸ hnode) ((hR.cell htext).trans hcell), hR⟩
          | filled hnode hcell hbusy hkind hcomplete hfill =>
              rename_i node kind after
              obtain ⟨_, after', hother, -, hafter⟩ := simulates_fill hkeys
                (partsMatch_make (ih true)) kind id s.objects.size
                ((hR.begun htext).allocated kind) hfill
              refine ⟨_, ?_, hafter.finished htext _⟩
              rw [← hsize] at hother ⊢
              exact .filled (hR.nodes_eq ▸ hnode) ((hR.cell htext).trans hcell) (hR.busy ▸ hbusy)
                hkind hcomplete hother
          | queued hnode hcell hbusy hkind hcomplete =>
              rename_i node kind
              refine ⟨_, ?_, (((hR.begun htext).allocated kind).queued id _).finished htext _⟩
              rw [← hsize]
              exact .queued (hR.nodes_eq ▸ hnode) ((hR.cell htext).trans hcell) (hR.busy ▸ hbusy)
                hkind hcomplete
          | scalar hnode hcell hbusy hnone hkind hvalue =>
              exact ⟨_, .scalar (hR.nodes_eq ▸ hnode) ((hR.cell htext).trans hcell)
                (hR.busy ▸ hbusy) hnone hkind
                (run_scalarValue_congr (s := s.begun id) (t := t.begun id) hR.nodes_eq hvalue),
                (hR.begun htext).finished htext _⟩

/-- **The collections that wait are filled the same both ways.** -/
theorem simulates_fillWaiting (hkeys : TextKeys nodes) (fuel : Nat) :
    Simulates (Matches nodes) Eq (fillWaiting .decoded fuel) (fillWaiting .sourceText fuel) := by
  induction fuel with
  | zero => exact simulates_pure rfl
  | succ fuel ih =>
      rw [fillWaiting, fillWaiting]
      refine simulates_bind simulates_get fun s t hR => ?_
      rw [hR.waiting]
      split
      · exact simulates_pure rfl
      · next id object rest heq =>
          refine simulates_bind (simulates_set { hR with waiting := rfl }) fun _ _ _ => ?_
          refine simulates_bind (simulates_nodeAt id) fun node _ hboth => ?_
          obtain ⟨rfl, -⟩ := hboth
          split
          · next kind hkind =>
              rw [hR.nodes_eq]
              exact simulates_bind (simulates_fill hkeys
                (partsMatch_make (simulates_make hkeys _ false)) kind id object) fun _ _ _ => ih
          · exact ih

/-- **Where every key is a text**, a document has the same value both ways. -/
theorem document_of_textKeys {graph : Graph} (hkeys : TextKeys graph.nodes) {value : Value}
    (h : graph.value .decoded = .ok value) : graph.value .sourceText = .ok value := by
  have hsame : Simulates (Matches graph.nodes) Eq (document .decoded graph)
      (document .sourceText graph) := by
    refine simulates_bind (simulates_make hkeys _ false graph.root) fun cell _ heq => ?_
    subst heq
    refine simulates_bind (simulates_fillWaiting hkeys _) fun _ _ _ => ?_
    refine simulates_bind simulates_get fun s t hR => simulates_pure ?_
    rw [hR.objects]
  obtain ⟨s, hdecoded⟩ := value_eq_ok.mp h
  obtain ⟨_, t, hsource, rfl, -⟩ := hsame (matches_unbuilt graph) hdecoded
  exact value_eq_ok.mpr ⟨t, hsource⟩

end ContentCatalog.Yaml.Building

namespace ContentCatalog.Yaml

open Building

/-- A document without a graph is null. -/
theorem load_of_no_graph (keys : Keys) {text : List Char} (h : Yaml.graph text = .ok none) :
    load keys text = .ok .null := by
  rw [load, h]
  rfl

/-- **A text whose keys are texts** has the same value both ways. -/
theorem load_of_textKeys {text : List Char} {value : Value}
    (hkeys : ∀ graph, Yaml.graph text = .ok (some graph) → TextKeys graph.nodes)
    (h : load .decoded text = .ok value) : load .sourceText text = .ok value := by
  cases hgraph : Yaml.graph text with
  | error failure =>
      rw [load, hgraph] at h
      cases h
  | ok found =>
      cases found with
      | none => rwa [load_of_no_graph _ hgraph] at h ⊢
      | some graph =>
          rw [load_of_graph _ hgraph] at h ⊢
          exact document_of_textKeys (hkeys graph hgraph) h

end ContentCatalog.Yaml
