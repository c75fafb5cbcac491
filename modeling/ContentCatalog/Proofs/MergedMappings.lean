import ContentCatalog.Proofs.BuildingSteps
import Mathlib.Algebra.BigOperators.Group.List.Basic
import Mathlib.Algebra.GroupWithZero.Nat

/-!
# Merged mappings

A merge mark among the keys of a mapping stands for the entries of other mappings, which
are put in front of the mapping's own.  The mark is taken out before its value is looked
at, so mappings that merge one another, or themselves, come to an end.

* `flattening_of_run` : everything that flattening can do;
* `Flattens` : what flattening leaves of the nodes, above all a mapping's own entries, as
  its last ones;
* `flattens_flatten`, `flattens_flattenNode` : flattening does no more than that;
* `unmarks_flatten` : no merge mark is left;
* `run_flattenNode` : the entries of a flattened mapping.
-/

namespace ContentCatalog.Yaml.Building

/-! ### What flattening does -/

/-- The entries of one of several merged mappings. -/
def flattenItem (fuel : Nat) (around : Node) (item : NodeId) : Step (List (NodeId × NodeId)) := do
  let part ← nodeAt item
  match part.content with
  | .mapping _ =>
    flatten fuel [] item
    entriesAt item
  | _ => refuseFilling .mapping around (.mergeItem part.kind) part

namespace State

/-- A mapping node has other entries. -/
def withEntries (s : State) (id : NodeId) (entries : List (NodeId × NodeId)) : State :=
  { s with nodes := Composing.setContent s.nodes id (.mapping entries) }

/-- A value mark becomes a text. -/
def settledKey (key : Node) : Node :=
  if key.tag == Tag.standard "value" then { key with tag := Tag.standard "str" } else key

/-- Value marks among the keys become texts. -/
def settled (s : State) (entries : List (NodeId × NodeId)) : State :=
  { s with nodes := entries.foldl (fun nodes entry => nodes.modify entry.1 settledKey) s.nodes }

end State

/-- Everything that flattening can do: without a merge mark the entries collected so far are
put in front, else the first mark is taken out and one or several mappings are merged. -/
inductive Flattening (fuel : Nat) (merged : List (NodeId × NodeId)) (id : NodeId) (s : State) :
    State → Prop
  | plain {node : Node} (hnode : s.nodes[id]? = some node)
      (hsplit : splitMerge? s.nodes (entriesOf node) = none) (hmerged : merged = []) :
      Flattening fuel merged id s (s.settled (entriesOf node))
  | put {node : Node} (hnode : s.nodes[id]? = some node)
      (hsplit : splitMerge? s.nodes (entriesOf node) = none) (hmerged : merged ≠ []) :
      Flattening fuel merged id s
        ((s.settled (entriesOf node)).withEntries id (merged ++ entriesOf node))
  | single {node source flat : Node} {before after entries : List (NodeId × NodeId)}
      {value : NodeId} {between s' : State} (hnode : s.nodes[id]? = some node)
      (hsplit : splitMerge? s.nodes (entriesOf node) = some (before, value, after))
      (hsource : (s.withEntries id (before ++ after)).nodes[value]? = some source)
      (hcontent : source.content = .mapping entries)
      (hflatten : (flatten fuel [] value).run (s.withEntries id (before ++ after)) =
        .ok ((), between))
      (hflat : between.nodes[value]? = some flat)
      (hrest : (flatten fuel (merged ++ entriesOf flat) id).run between = .ok ((), s')) :
      Flattening fuel merged id s s'
  | several {node source : Node} {before after : List (NodeId × NodeId)} {value : NodeId}
      {items : List NodeId} {parts : List (List (NodeId × NodeId))} {between s' : State}
      (hnode : s.nodes[id]? = some node)
      (hsplit : splitMerge? s.nodes (entriesOf node) = some (before, value, after))
      (hsource : (s.withEntries id (before ++ after)).nodes[value]? = some source)
      (hcontent : source.content = .sequence items)
      (hparts : (items.mapM (flattenItem fuel node)).run (s.withEntries id (before ++ after)) =
        .ok (parts, between))
      (hrest : (flatten fuel (merged ++ parts.reverse.flatten) id).run between = .ok ((), s')) :
      Flattening fuel merged id s s'

/-- **What flattening does.** -/
theorem flattening_of_run {fuel : Nat} {merged : List (NodeId × NodeId)} {id : NodeId}
    {s s' : State} (h : (flatten (fuel + 1) merged id).run s = .ok ((), s')) :
    Flattening fuel merged id s s' := by
  rw [flatten] at h
  obtain ⟨node, _, hat, h⟩ := run_bind_eq_ok.mp h
  obtain ⟨hnode, rfl⟩ := run_nodeAt_eq_ok.mp hat
  obtain ⟨entries, _, hentries, h⟩ := run_bind_eq_ok.mp h
  obtain ⟨⟨again, hagain, rfl⟩, rfl⟩ := run_entriesAt_eq_ok.mp hentries
  obtain rfl : node = again := Option.some.inj (hnode.symm.trans hagain)
  obtain ⟨_, _, hget, h⟩ := run_bind_eq_ok.mp h
  obtain ⟨rfl, rfl⟩ := run_get_eq_ok.mp hget
  split at h
  · next hsplit =>
      obtain ⟨_, _, hsettle, h⟩ := run_bind_eq_ok.mp h
      cases hsettle
      split at h
      · next hmerged =>
          cases h
          exact .put hnode hsplit (by simpa using hmerged)
      · next hmerged =>
          cases h
          exact .plain hnode hsplit (by simpa using hmerged)
  · next before value after hsplit =>
      obtain ⟨_, _, hset, h⟩ := run_bind_eq_ok.mp h
      cases hset
      obtain ⟨source, _, hsourceAt, h⟩ := run_bind_eq_ok.mp h
      obtain ⟨hsource, rfl⟩ := run_nodeAt_eq_ok.mp hsourceAt
      split at h
      · next hcontent =>
          obtain ⟨_, between, hflatten, h⟩ := run_bind_eq_ok.mp h
          obtain ⟨more, _, hmore, hrest⟩ := run_bind_eq_ok.mp h
          obtain ⟨⟨flat, hflat, rfl⟩, rfl⟩ := run_entriesAt_eq_ok.mp hmore
          exact .single hnode hsplit hsource hcontent hflatten hflat hrest
      · next items hcontent =>
          obtain ⟨parts, between, hparts, hrest⟩ := run_bind_eq_ok.mp h
          exact .several hnode hsplit hsource hcontent hparts hrest
      · exact absurd h run_throw_ne_ok

/-! ### Marks -/

/-- Where nothing is split off there is no merge mark. -/
theorem splitMerge?_eq_none {nodes : Array Node} {entries : List (NodeId × NodeId)}
    (h : splitMerge? nodes entries = none) : ∀ entry ∈ entries, isMergeKey nodes entry = false := by
  induction entries with
  | nil => exact List.forall_mem_nil _
  | cons entry entries ih =>
      rw [splitMerge?] at h
      split at h
      · cases h
      · next hentry =>
          rw [Option.map_eq_none_iff] at h
          exact List.forall_mem_cons.mpr ⟨Bool.eq_false_iff.mpr hentry, ih h⟩

/-- Entries are split at a merge mark. -/
theorem splitMerge?_eq_some {nodes : Array Node}
    {entries before after : List (NodeId × NodeId)} {value : NodeId}
    (h : splitMerge? nodes entries = some (before, value, after)) :
    ∃ key, entries = before ++ (key, value) :: after ∧ isMergeKey nodes (key, value) = true := by
  induction entries generalizing before with
  | nil => cases h
  | cons entry entries ih =>
      rw [splitMerge?] at h
      split at h
      · next hentry =>
          cases h
          exact ⟨entry.1, rfl, hentry⟩
      · obtain ⟨⟨front, found, rest⟩, hfound, heq⟩ := Option.map_eq_some_iff.mp h
        cases heq
        obtain ⟨key, rfl, hkey⟩ := ih hfound
        exact ⟨key, rfl, hkey⟩

/-- The entries of a mapping that are no merge marks. -/
def ownEntries (nodes : Array Node) (entries : List (NodeId × NodeId)) :
    List (NodeId × NodeId) :=
  entries.filter fun entry => !isMergeKey nodes entry

/-- The entries of two lists that are no marks are those of both. -/
theorem ownEntries_append (nodes : Array Node) (entries others : List (NodeId × NodeId)) :
    ownEntries nodes (entries ++ others) = ownEntries nodes entries ++ ownEntries nodes others :=
  List.filter_append _ _

/-- Entries without marks are all their own. -/
theorem ownEntries_eq_self {nodes : Array Node} {entries : List (NodeId × NodeId)}
    (h : ∀ entry ∈ entries, isMergeKey nodes entry = false) : ownEntries nodes entries = entries :=
  List.filter_eq_self.mpr fun entry hentry => by rw [h entry hentry]; rfl

/-- Without a mark a mapping has the same entries of its own. -/
theorem ownEntries_split {nodes : Array Node} {entries before after : List (NodeId × NodeId)}
    {value : NodeId} (h : splitMerge? nodes entries = some (before, value, after)) :
    ownEntries nodes entries = ownEntries nodes (before ++ after) := by
  obtain ⟨key, rfl, hkey⟩ := splitMerge?_eq_some h
  simp [ownEntries, hkey]

/-- The entries of a mapping node are those it holds. -/
theorem entriesOf_of_mapping {node : Node} {entries : List (NodeId × NodeId)}
    (h : node.content = .mapping entries) : entriesOf node = entries := by
  rw [entriesOf, h]

/-- A node of the graph has the entries of its mapping, or none. -/
theorem entriesOf_eq_getD {nodes : Array Node} {id : NodeId} {node : Node}
    (h : nodes[id]? = some node) : entriesOf node = (mappingAt? nodes id).getD [] := by
  rw [entriesOf, mappingAt?, h, Option.bind_some]
  cases node.content <;> rfl

/-- A node with entries is a mapping. -/
theorem mapping_of_split {nodes : Array Node} {node : Node}
    {before after : List (NodeId × NodeId)} {value : NodeId}
    (h : splitMerge? nodes (entriesOf node) = some (before, value, after)) :
    node.content = .mapping (entriesOf node) := by
  cases hcontent : node.content with
  | mapping entries => rw [entriesOf_of_mapping hcontent]
  | scalar text => simp [entriesOf, hcontent, splitMerge?] at h
  | sequence items => simp [entriesOf, hcontent, splitMerge?] at h

/-! ### What flattening leaves -/

/-- What flattening leaves: everything but the nodes, which keys are merge marks, the texts of
scalars, and the entries of a mapping, as its last ones. -/
structure Flattens (s s' : State) : Prop where
  rest : s' = { s with nodes := s'.nodes }
  merge : ∀ entry, isMergeKey s'.nodes entry = isMergeKey s.nodes entry
  scalar : ∀ {id : NodeId} {text : String}, scalarAt? s.nodes id = some text →
    scalarAt? s'.nodes id = some text
  mapping : ∀ {id : NodeId} {entries : List (NodeId × NodeId)},
    mappingAt? s.nodes id = some entries →
    ∃ entries', mappingAt? s'.nodes id = some entries' ∧
      ownEntries s.nodes entries <:+ ownEntries s.nodes entries'

/-- Flattening does not change which entries are marks. -/
theorem Flattens.ownEntries_eq {s s' : State} (h : Flattens s s')
    (entries : List (NodeId × NodeId)) :
    ownEntries s'.nodes entries = ownEntries s.nodes entries := by
  simp only [ownEntries, h.merge]

theorem composable_flattens : Composable Flattens where
  refl := fun s => ⟨rfl, fun _ => rfl, id, fun h => ⟨_, h, List.suffix_refl _⟩⟩
  trans := by
    intro before between after hfirst hsecond
    refine ⟨?_, ?_, fun h => hsecond.scalar (hfirst.scalar h), ?_⟩
    · have hrest := hsecond.rest
      rw [hfirst.rest] at hrest
      exact hrest
    · exact fun entry => (hsecond.merge entry).trans (hfirst.merge entry)
    · intro id entries hentries
      obtain ⟨entries₁, hentries₁, hsuffix₁⟩ := hfirst.mapping hentries
      obtain ⟨entries₂, hentries₂, hsuffix₂⟩ := hsecond.mapping hentries₁
      rw [hfirst.ownEntries_eq, hfirst.ownEntries_eq] at hsuffix₂
      exact ⟨entries₂, hentries₂, hsuffix₁.trans hsuffix₂⟩

/-- What is looked at of a node but its tag. -/
def seen (node : Node) : Node.Content × Bool :=
  (node.content, node.tag == Tag.standard "merge")

/-- Settling a key changes no more than its tag. -/
theorem seen_settledKey (node : Node) : seen (State.settledKey node) = seen node := by
  rw [State.settledKey]
  split
  · next hvalue =>
      have htag : node.tag = Tag.standard "value" := by simpa using hvalue
      have hfirst : (Tag.standard "str" == Tag.standard "merge") = false := by decide
      have hsecond : (Tag.standard "value" == Tag.standard "merge") = false := by decide
      rw [seen, seen, htag, hfirst, hsecond]
  · rfl

/-- Settling the keys of entries changes no more than tags. -/
theorem seen_settled (s : State) (entries : List (NodeId × NodeId)) (id : NodeId) :
    ((s.settled entries).nodes[id]?).map seen = (s.nodes[id]?).map seen := by
  rw [State.settled]
  simp only
  generalize s.nodes = nodes
  induction entries generalizing nodes with
  | nil => rfl
  | cons entry entries ih =>
      rw [List.foldl_cons, ih, Array.getElem?_modify]
      split
      · rw [Option.map_map]
        congr 1
        funext node
        exact seen_settledKey node
      · rfl

/-- Whether a key is a merge mark is seen at its node. -/
theorem isMergeKey_eq (nodes : Array Node) (entry : NodeId × NodeId) :
    isMergeKey nodes entry = ((nodes[entry.1]?).map seen).any Prod.snd := by
  rw [isMergeKey, Option.any_map]
  rfl

/-- Where the same is seen of the nodes, nothing was merged. -/
theorem flattens_of_seen {s s' : State} (hrest : s' = { s with nodes := s'.nodes })
    (hseen : ∀ id : NodeId, (s'.nodes[id]?).map seen = (s.nodes[id]?).map seen) :
    Flattens s s' := by
  have hcontent : ∀ {id : NodeId} {node : Node}, s.nodes[id]? = some node →
      ∃ node', s'.nodes[id]? = some node' ∧ node'.content = node.content := by
    intro id node hnode
    have hid := hseen id
    rw [hnode, Option.map_some, Option.map_eq_some_iff] at hid
    obtain ⟨node', hnode', heq⟩ := hid
    exact ⟨node', hnode', congrArg Prod.fst heq⟩
  refine ⟨hrest, ?_, ?_, ?_⟩
  · intro entry
    rw [isMergeKey_eq, isMergeKey_eq, hseen]
  · intro id text h
    obtain ⟨node, hnode, htext⟩ := scalarAt?_eq_some.mp h
    obtain ⟨node', hnode', heq⟩ := hcontent hnode
    exact scalarAt?_eq_some.mpr ⟨node', hnode', heq.trans htext⟩
  · intro id entries h
    obtain ⟨node, hnode, hentries⟩ := mappingAt?_eq_some.mp h
    obtain ⟨node', hnode', heq⟩ := hcontent hnode
    exact ⟨entries, mappingAt?_eq_some.mpr ⟨node', hnode', heq.trans hentries⟩,
      List.suffix_refl _⟩

/-- Settling keys leaves what flattening leaves. -/
theorem flattens_settled (s : State) (entries : List (NodeId × NodeId)) :
    Flattens s (s.settled entries) :=
  flattens_of_seen rfl (seen_settled s entries)

/-- A mapping that gets other entries is the only node that changes. -/
theorem getElem?_withEntries (s : State) (id other : NodeId) (entries : List (NodeId × NodeId)) :
    (s.withEntries id entries).nodes[other]? =
      if id = other then (s.nodes[other]?).map fun node => { node with content := .mapping entries }
      else s.nodes[other]? :=
  Array.getElem?_modify

/-- And no mark comes of it. -/
theorem isMergeKey_withEntries (s : State) (id : NodeId) (entries : List (NodeId × NodeId))
    (entry : NodeId × NodeId) :
    isMergeKey (s.withEntries id entries).nodes entry = isMergeKey s.nodes entry := by
  rw [isMergeKey, isMergeKey, getElem?_withEntries]
  split
  · rw [Option.any_map]
  · rfl

/-- The entries of a mapping are seen at its node. -/
theorem mappingAt?_eq (nodes : Array Node) (id : NodeId) :
    mappingAt? nodes id = ((nodes[id]?).map seen).bind fun found =>
      match found.1 with
      | .mapping entries => some entries
      | _ => none := by
  rw [mappingAt?, Option.bind_map]
  rfl

theorem mappingAt?_settled (s : State) (entries : List (NodeId × NodeId)) (id : NodeId) :
    mappingAt? (s.settled entries).nodes id = mappingAt? s.nodes id := by
  rw [mappingAt?_eq, seen_settled, ← mappingAt?_eq]

/-- Other entries are found at the mapping that got them, and nowhere else. -/
theorem mappingAt?_withEntries {s : State} {id : NodeId} {entries : List (NodeId × NodeId)}
    (hentries : mappingAt? s.nodes id = some entries) (others : List (NodeId × NodeId))
    (other : NodeId) :
    mappingAt? (s.withEntries id others).nodes other =
      if id = other then some others else mappingAt? s.nodes other := by
  rw [mappingAt?, getElem?_withEntries]
  split
  · next heq =>
      obtain ⟨node, hnode, -⟩ := mappingAt?_eq_some.mp hentries
      rw [← heq, hnode, Option.map_some, Option.bind_some]
  · rfl

/-- A mapping may have other entries in front of its own. -/
theorem flattens_withEntries {s : State} {id : NodeId} {entries others : List (NodeId × NodeId)}
    (hentries : mappingAt? s.nodes id = some entries)
    (hown : ownEntries s.nodes entries <:+ ownEntries s.nodes others) :
    Flattens s (s.withEntries id others) := by
  refine ⟨rfl, isMergeKey_withEntries s id others, ?_, ?_⟩
  · intro other text htext
    obtain ⟨found, hfound, htext⟩ := scalarAt?_eq_some.mp htext
    refine scalarAt?_eq_some.mpr ⟨found, ?_, htext⟩
    rw [getElem?_withEntries, if_neg, hfound]
    rintro rfl
    obtain ⟨node, hnode, hcontent⟩ := mappingAt?_eq_some.mp hentries
    obtain rfl : node = found := Option.some.inj (hnode.symm.trans hfound)
    rw [hcontent] at htext
    cases htext
  · intro other kept hkept
    rw [mappingAt?_withEntries hentries]
    by_cases heq : id = other
    · subst heq
      obtain rfl : entries = kept := Option.some.inj (hentries.symm.trans hkept)
      exact ⟨others, if_pos rfl, hown⟩
    · exact ⟨kept, (if_neg heq).trans hkept, List.suffix_refl _⟩

/-- The first mark of a mapping is taken out. -/
theorem flattens_unmarking {s : State} {id : NodeId} {node : Node}
    {before after : List (NodeId × NodeId)} {value : NodeId} (hnode : s.nodes[id]? = some node)
    (hsplit : splitMerge? s.nodes (entriesOf node) = some (before, value, after)) :
    Flattens s (s.withEntries id (before ++ after)) := by
  refine flattens_withEntries (mappingAt?_eq_some.mpr ⟨node, hnode, mapping_of_split hsplit⟩) ?_
  exact ownEntries_split hsplit ▸ List.suffix_refl _

/-- Flattening an item of a list leaves what flattening leaves. -/
theorem leads_flattenItem {fuel : Nat} (h : ∀ item, Leads Flattens (flatten fuel [] item))
    (around : Node) (item : NodeId) : Leads Flattens (flattenItem fuel around item) := by
  refine leads_bind composable_flattens (Reads.leads composable_flattens (reads_nodeAt item))
    fun part => ?_
  split
  · exact leads_bind composable_flattens (h item) fun _ =>
      Reads.leads composable_flattens (reads_entriesAt item)
  · exact leads_throw _

/-- **Flattening leaves the texts of scalars, and the own entries of a mapping as its last
ones.** -/
theorem flattens_flatten {fuel : Nat} {merged : List (NodeId × NodeId)} {id : NodeId}
    {s s' : State} (hmerged : merged = [] ∨ (mappingAt? s.nodes id).isSome)
    (h : (flatten fuel merged id).run s = .ok ((), s')) : Flattens s s' := by
  induction fuel generalizing merged id s s' with
  | zero =>
      cases h
      exact composable_flattens.refl s
  | succ fuel ih =>
      have hempty : ∀ item, Leads Flattens (flatten fuel [] item) := fun item _ _ _ hrun =>
        ih (.inl rfl) hrun
      have hmapping : ∀ {node : Node} {before after : List (NodeId × NodeId)} {value : NodeId}
          {between : State}, s.nodes[id]? = some node →
          splitMerge? s.nodes (entriesOf node) = some (before, value, after) →
          Flattens (s.withEntries id (before ++ after)) between →
          (mappingAt? between.nodes id).isSome := by
        intro node before after value between hnode hsplit hbetween
        obtain ⟨_, hentries, -⟩ := hbetween.mapping
          ((mappingAt?_withEntries (mappingAt?_eq_some.mpr ⟨node, hnode, mapping_of_split hsplit⟩)
            (before ++ after) id).trans (if_pos rfl))
        rw [hentries]
        rfl
      cases flattening_of_run h with
      | plain hnode hsplit _ => exact flattens_settled s _
      | put hnode hsplit hne =>
          rename_i node
          obtain ⟨entries, hentries⟩ := Option.isSome_iff_exists.mp (hmerged.resolve_left hne)
          obtain ⟨found, hfound, hcontent⟩ := mappingAt?_eq_some.mp hentries
          obtain rfl : node = found := Option.some.inj (hnode.symm.trans hfound)
          rw [entriesOf_of_mapping hcontent]
          refine composable_flattens.trans (flattens_settled s entries)
            (flattens_withEntries ((mappingAt?_settled s entries id).trans hentries) ?_)
          rw [ownEntries_append]
          exact List.suffix_append _ _
      | single hnode hsplit hsource hcontent hflatten hflat hrest =>
          have hbetween := hempty _ hflatten
          exact composable_flattens.trans (flattens_unmarking hnode hsplit)
            (composable_flattens.trans hbetween
              (ih (.inr (hmapping hnode hsplit hbetween)) hrest))
      | several hnode hsplit hsource hcontent hparts hrest =>
          have hbetween := leads_mapM composable_flattens
            (fun item _ => leads_flattenItem hempty _ item) hparts
          exact composable_flattens.trans (flattens_unmarking hnode hsplit)
            (composable_flattens.trans hbetween
              (ih (.inr (hmapping hnode hsplit hbetween)) hrest))

/-- So does flattening a node. -/
theorem flattens_flattenNode (id : NodeId) : Leads Flattens (flattenNode id) :=
  leads_bind composable_flattens (leads_get composable_flattens) fun _ _ _ _ h =>
    flattens_flatten (.inl rfl) h

/-! ### No mark is left -/

/-- The entries hold no merge mark. -/
def Unmarked (nodes : Array Node) (entries : List (NodeId × NodeId)) : Prop :=
  ∀ entry ∈ entries, isMergeKey nodes entry = false

/-- Entries without marks have none after a flattening. -/
theorem Flattens.unmarked {s s' : State} (h : Flattens s s') {entries : List (NodeId × NodeId)}
    (hentries : Unmarked s.nodes entries) : Unmarked s'.nodes entries :=
  fun entry hentry => (h.merge entry).trans (hentries entry hentry)

/-- Two lists without marks have none together. -/
theorem Unmarked.append {nodes : Array Node} {entries others : List (NodeId × NodeId)}
    (h : Unmarked nodes entries) (hothers : Unmarked nodes others) :
    Unmarked nodes (entries ++ others) :=
  List.forall_mem_append.mpr ⟨h, hothers⟩

/-- The number of merge marks in a node. -/
def marks (nodes : Array Node) (content : Node.Content) : Nat :=
  match content with
  | .mapping entries => entries.countP (isMergeKey nodes)
  | _ => 0

/-- The marks of a document are those of its nodes. -/
theorem mergeCount_eq_sum (nodes : Array Node) :
    mergeCount nodes = (nodes.toList.map fun node => marks nodes node.content).sum := by
  have hfold : ∀ (step : Nat → Node → Nat),
      (∀ count node, step count node = count + marks nodes node.content) →
      ∀ (items : List Node) (count : Nat),
        items.foldl step count = count + (items.map fun node => marks nodes node.content).sum := by
    intro step hstep items
    induction items with
    | nil => exact fun _ => rfl
    | cons node items ih =>
        intro count
        rw [List.foldl_cons, ih, hstep, List.map_cons, List.sum_cons, Nat.add_assoc]
  rw [mergeCount, ← Array.foldl_toList, hfold, Nat.zero_add]
  intro count node
  cases node.content <;> simp [marks, List.countP_eq_length_filter]

/-- One summand is exchanged for another one. -/
theorem sum_map_modify {α : Type} (f : α → Nat) (change : α → α) {items : List α} {i : Nat}
    {item : α} (h : items[i]? = some item) :
    ((items.modify i change).map f).sum + f item = (items.map f).sum + f (change item) := by
  induction items generalizing i with
  | nil => cases h
  | cons first items ih =>
      cases i with
      | zero =>
          cases h
          simp only [List.modify_zero_cons, List.map_cons, List.sum_cons]
          omega
      | succ i =>
          have hrest := ih h
          simp only [List.modify_succ_cons, List.map_cons, List.sum_cons]
          omega

/-- Settling keys leaves as many marks as there were. -/
theorem mergeCount_settled (s : State) (entries : List (NodeId × NodeId)) :
    mergeCount (s.settled entries).nodes = mergeCount s.nodes := by
  have hmarks : isMergeKey (s.settled entries).nodes = isMergeKey s.nodes :=
    funext (flattens_settled s entries).merge
  have hseen : (s.settled entries).nodes.toList.map seen = s.nodes.toList.map seen := by
    refine List.ext_getElem? fun id => ?_
    rw [List.getElem?_map, List.getElem?_map, Array.getElem?_toList, Array.getElem?_toList,
      seen_settled]
  have hcount : ∀ nodes : Array Node, isMergeKey nodes = isMergeKey s.nodes →
      (nodes.toList.map fun node => marks nodes node.content) =
        (nodes.toList.map seen).map fun found => marks s.nodes found.1 := by
    intro nodes hnodes
    rw [List.map_map]
    refine List.map_congr_left fun node _ => ?_
    simp only [marks, hnodes]
    rfl
  rw [mergeCount_eq_sum, mergeCount_eq_sum, hcount _ hmarks, hseen, hcount _ rfl]

/-- Other entries bring their marks and take away those of the entries before. -/
theorem mergeCount_withEntries {s : State} {id : NodeId} {entries : List (NodeId × NodeId)}
    (hentries : mappingAt? s.nodes id = some entries) (others : List (NodeId × NodeId)) :
    mergeCount (s.withEntries id others).nodes + entries.countP (isMergeKey s.nodes) =
      mergeCount s.nodes + others.countP (isMergeKey s.nodes) := by
  obtain ⟨node, hnode, hcontent⟩ := mappingAt?_eq_some.mp hentries
  have hmarks : isMergeKey (s.withEntries id others).nodes = isMergeKey s.nodes :=
    funext (isMergeKey_withEntries s id others)
  have hlist : (s.withEntries id others).nodes.toList =
      s.nodes.toList.modify id fun node => { node with content := .mapping others } :=
    Array.toList_modify
  have hsum := sum_map_modify (fun node => marks s.nodes node.content)
    (fun node => { node with content := .mapping others })
    ((Array.getElem?_toList).trans hnode)
  simp only [marks, hcontent] at hsum
  rw [mergeCount_eq_sum, mergeCount_eq_sum, hlist]
  simpa only [marks, hmarks] using hsum

/-- One mark less. -/
theorem mergeCount_unmarking {s : State} {id : NodeId} {node : Node}
    {before after : List (NodeId × NodeId)} {value : NodeId} (hnode : s.nodes[id]? = some node)
    (hsplit : splitMerge? s.nodes (entriesOf node) = some (before, value, after)) :
    mergeCount (s.withEntries id (before ++ after)).nodes + 1 = mergeCount s.nodes := by
  have hcount := mergeCount_withEntries
    (mappingAt?_eq_some.mpr ⟨node, hnode, mapping_of_split hsplit⟩) (before ++ after)
  obtain ⟨key, hentries, hkey⟩ := splitMerge?_eq_some hsplit
  rw [hentries, List.countP_append, List.countP_cons_of_pos hkey, List.countP_append] at hcount
  omega

/-- Entries without marks count none. -/
theorem Unmarked.countP_eq_zero {nodes : Array Node} {entries : List (NodeId × NodeId)}
    (h : Unmarked nodes entries) : entries.countP (isMergeKey nodes) = 0 :=
  List.countP_eq_zero.mpr fun entry hentry => by simp [h entry hentry]

/-- Marks are only taken out, and there are none among the entries found. -/
structure Unmarks (s s' : State) (found : List (NodeId × NodeId)) : Prop where
  flattens : Flattens s s'
  count : mergeCount s'.nodes ≤ mergeCount s.nodes
  unmarked : Unmarked s'.nodes found

/-- The merged mappings of a list hold no marks if flattening leaves none. -/
theorem unmarks_mapM {fuel : Nat} {around : Node}
    (h : ∀ {item : NodeId} {s s' : State}, mergeCount s.nodes < fuel →
      (flatten fuel [] item).run s = .ok ((), s') →
      Unmarks s s' ((mappingAt? s'.nodes item).getD []))
    {items : List NodeId} {parts : List (List (NodeId × NodeId))} {s s' : State}
    (hfuel : mergeCount s.nodes < fuel)
    (hrun : (items.mapM (flattenItem fuel around)).run s = .ok (parts, s')) :
    Unmarks s s' parts.reverse.flatten := by
  induction items generalizing parts s with
  | nil =>
      cases hrun
      exact ⟨composable_flattens.refl _, Nat.le_refl _, List.forall_mem_nil _⟩
  | cons item items ih =>
      rw [List.mapM_cons] at hrun
      obtain ⟨part, between, hitem, hrun⟩ := run_bind_eq_ok.mp hrun
      obtain ⟨others, _, hitems, hrun⟩ := run_bind_eq_ok.mp hrun
      obtain ⟨rfl, rfl⟩ := run_pure_eq_ok.mp hrun
      have hpart : Unmarks s between part := by
        obtain ⟨node, _, hat, hitem⟩ := run_bind_eq_ok.mp hitem
        obtain ⟨-, rfl⟩ := run_nodeAt_eq_ok.mp hat
        split at hitem
        · obtain ⟨_, _, hflatten, hitem⟩ := run_bind_eq_ok.mp hitem
          obtain ⟨⟨flat, hflat, rfl⟩, rfl⟩ := run_entriesAt_eq_ok.mp hitem
          rw [entriesOf_eq_getD hflat]
          exact h hfuel hflatten
        · exact absurd hitem run_throw_ne_ok
      have hothers := ih (Nat.lt_of_le_of_lt hpart.count hfuel) hitems
      refine ⟨composable_flattens.trans hpart.flattens hothers.flattens,
        Nat.le_trans hothers.count hpart.count, ?_⟩
      rw [List.reverse_cons, List.flatten_append, List.flatten_singleton]
      exact hothers.unmarked.append (hothers.flattens.unmarked hpart.unmarked)

/-- Marks that are taken out in two steps are taken out by both together. -/
theorem Unmarks.trans {before between after : State} {found others : List (NodeId × NodeId)}
    (hfirst : Unmarks before between found) (hsecond : Unmarks between after others) :
    Unmarks before after others :=
  ⟨composable_flattens.trans hfirst.flattens hsecond.flattens,
    Nat.le_trans hsecond.count hfirst.count, hsecond.unmarked⟩

/-- Settling keys brings no marks to entries without any. -/
theorem unmarks_settled (s : State) {entries : List (NodeId × NodeId)}
    (h : Unmarked s.nodes entries) : Unmarks s (s.settled entries) entries :=
  ⟨flattens_settled s entries, Nat.le_of_eq (mergeCount_settled s entries),
    (flattens_settled s entries).unmarked h⟩

/-- Nor does a mapping that gets entries without marks. -/
theorem unmarks_withEntries {s : State} {id : NodeId} {entries merged : List (NodeId × NodeId)}
    (hentries : mappingAt? s.nodes id = some entries) (h : Unmarked s.nodes entries)
    (hmerged : Unmarked s.nodes merged) :
    Unmarks s (s.withEntries id (merged ++ entries)) (merged ++ entries) := by
  have hflattens : Flattens s (s.withEntries id (merged ++ entries)) :=
    flattens_withEntries hentries (ownEntries_append _ _ _ ▸ List.suffix_append _ _)
  have hcount := mergeCount_withEntries hentries (merged ++ entries)
  rw [h.countP_eq_zero, (hmerged.append h).countP_eq_zero] at hcount
  exact ⟨hflattens, Nat.le_of_eq hcount, hflattens.unmarked (hmerged.append h)⟩

/-- **Flattening leaves no mark**, as long as there is work for each mark. -/
theorem unmarks_flatten {fuel : Nat} {merged : List (NodeId × NodeId)} {id : NodeId}
    {s s' : State} (hfuel : mergeCount s.nodes < fuel)
    (hmerged : merged = [] ∨ (mappingAt? s.nodes id).isSome) (hunmarked : Unmarked s.nodes merged)
    (h : (flatten fuel merged id).run s = .ok ((), s')) :
    Unmarks s s' ((mappingAt? s'.nodes id).getD []) := by
  induction fuel generalizing merged id s s' with
  | zero => exact absurd hfuel (Nat.not_lt_zero _)
  | succ fuel ih =>
      have hempty : ∀ {item : NodeId} {s s' : State}, mergeCount s.nodes < fuel →
          (flatten fuel [] item).run s = .ok ((), s') →
          Unmarks s s' ((mappingAt? s'.nodes item).getD []) := fun hfuel hrun =>
        ih hfuel (.inl rfl) (List.forall_mem_nil _) hrun
      -- What was merged is put in front of what is left without the mark.
      have hrest : ∀ {node : Node} {before after more : List (NodeId × NodeId)} {value : NodeId}
          {between : State}, s.nodes[id]? = some node →
          splitMerge? s.nodes (entriesOf node) = some (before, value, after) →
          Unmarks (s.withEntries id (before ++ after)) between more →
          (flatten fuel (merged ++ more) id).run between = .ok ((), s') →
          Unmarks s s' ((mappingAt? s'.nodes id).getD []) := by
        intro node before after more value between hnode hsplit hbetween hrun
        have hcount := mergeCount_unmarking hnode hsplit
        have hless := hbetween.count
        have hfirst := flattens_unmarking hnode hsplit
        have hentries := mappingAt?_withEntries
          (mappingAt?_eq_some.mpr ⟨node, hnode, mapping_of_split hsplit⟩) (before ++ after) id
        obtain ⟨_, hagain, -⟩ := hbetween.flattens.mapping (hentries.trans (if_pos rfl))
        have hlast := ih (by omega) (.inr (by rw [hagain]; rfl))
          ((hbetween.flattens.unmarked (hfirst.unmarked hunmarked)).append hbetween.unmarked) hrun
        exact ⟨composable_flattens.trans hfirst
          (composable_flattens.trans hbetween.flattens hlast.flattens),
          by have := hlast.count; omega, hlast.unmarked⟩
      have hbound : ∀ {node : Node} {before after : List (NodeId × NodeId)} {value : NodeId},
          s.nodes[id]? = some node →
          splitMerge? s.nodes (entriesOf node) = some (before, value, after) →
          mergeCount (s.withEntries id (before ++ after)).nodes < fuel := by
        intro node before after value hnode hsplit
        have := mergeCount_unmarking hnode hsplit
        omega
      cases flattening_of_run h with
      | plain hnode hsplit _ =>
          rw [mappingAt?_settled, ← entriesOf_eq_getD hnode]
          exact unmarks_settled s (splitMerge?_eq_none hsplit)
      | put hnode hsplit hne =>
          obtain ⟨entries, hentries⟩ := Option.isSome_iff_exists.mp (hmerged.resolve_left hne)
          have heq := entriesOf_eq_getD hnode
          rw [hentries, Option.getD_some] at heq
          rw [heq] at hsplit ⊢
          have hsettled := unmarks_settled s (splitMerge?_eq_none hsplit)
          have hagain := (mappingAt?_settled s entries id).trans hentries
          rw [mappingAt?_withEntries hagain, if_pos rfl]
          exact hsettled.trans (unmarks_withEntries hagain hsettled.unmarked
            (hsettled.flattens.unmarked hunmarked))
      | single hnode hsplit hsource hcontent hflatten hflat hrun =>
          have hbetween := hempty (hbound hnode hsplit) hflatten
          rw [← entriesOf_eq_getD hflat] at hbetween
          exact hrest hnode hsplit hbetween hrun
      | several hnode hsplit hsource hcontent hparts hrun =>
          exact hrest hnode hsplit (unmarks_mapM hempty (hbound hnode hsplit) hparts) hrun

/-- **A flattened mapping** holds no marks, and has its own entries as its last ones. -/
theorem run_flattenNode {id : NodeId} {s s' : State} {entries : List (NodeId × NodeId)}
    (hentries : mappingAt? s.nodes id = some entries)
    (h : (flattenNode id).run s = .ok ((), s')) :
    ∃ found, mappingAt? s'.nodes id = some found ∧ Unmarked s'.nodes found ∧
      ownEntries s.nodes entries <:+ found := by
  obtain ⟨_, _, hget, hrun⟩ := run_bind_eq_ok.mp h
  obtain ⟨rfl, rfl⟩ := run_get_eq_ok.mp hget
  have hunmarks := unmarks_flatten (Nat.lt_succ_self _) (.inl rfl) (List.forall_mem_nil _) hrun
  obtain ⟨found, hfound, hown⟩ := hunmarks.flattens.mapping hentries
  have hunmarked := hunmarks.unmarked
  rw [hfound, Option.getD_some] at hunmarked
  refine ⟨found, hfound, hunmarked, ?_⟩
  rwa [← hunmarks.flattens.ownEntries_eq found, ownEntries_eq_self hunmarked] at hown

end ContentCatalog.Yaml.Building
