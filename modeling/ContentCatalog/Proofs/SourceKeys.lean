import ContentCatalog.Proofs.BuiltObjects
import ContentCatalog.Proofs.MergedKeys

/-!
# Keys as they are written

A mapping whose keys are scalars is built from the texts of its keys and the cells of its
values, one entry after the other: each text is a key once, where it came first, and has the
value that came last.

* `run_sourceEntries` : a mapping as the dictionary of its key texts;
* `textDictionary_ofEntries` : the keys of the dictionary, and what is found under them;
* `TextDictionary.lookup?_drop` : what comes last wins.
-/

namespace ContentCatalog.Yaml.Building

/-- The keys of the entries are scalars with the given texts. -/
def ScalarKeys (nodes : Array Node) (entries : List (NodeId × NodeId)) (texts : List String) :
    Prop :=
  List.Forall₂ (fun entry text => scalarAt? nodes entry.1 = some text) entries texts

/-- Keys that are scalars keep their texts. -/
theorem Keeps.scalarKeys {filled : Option ObjectId} {s s' : State} (h : Keeps filled s s')
    {entries : List (NodeId × NodeId)} {texts : List String}
    (hkeys : ScalarKeys s.nodes entries texts) : ScalarKeys s'.nodes entries texts :=
  hkeys.imp fun _ _ hkey => h.scalar hkey

/-- The text of a scalar key is its own. -/
theorem run_keyText {makeKey : NodeId → Step Cell} {id : NodeId} {text : String} {s : State}
    (h : scalarAt? s.nodes id = some text) : (keyText makeKey id).run s = .ok (text, s) := by
  obtain ⟨node, hnode, hcontent⟩ := scalarAt?_eq_some.mp h
  rw [keyText]
  refine run_bind_eq_ok.mpr ⟨node, s, run_nodeAt_eq_ok.mpr ⟨hnode, rfl⟩, ?_⟩
  rw [hcontent]
  rfl

/-- Entries are written one after the other. -/
theorem run_foldlM_put {makeKey make : NodeId → Step Cell}
    (hmake : ∀ id, Leads (Keeps none) (make id)) {entries : List (NodeId × NodeId)}
    {texts : List String} {s : State} (hkeys : ScalarKeys s.nodes entries texts) (built : List (String × Cell)) :
    (entries.foldlM (fun (built : List (String × Cell)) (entry : NodeId × NodeId) => do
        let key ← keyText makeKey entry.1
        let value ← make entry.2
        return Dictionary.put key value built) built).run s =
      (((entries.map Prod.snd).mapM make).run s).map fun out =>
        ((texts.zip out.1).foldl (fun built entry => Dictionary.put entry.1 entry.2 built) built,
          out.2) := by
  induction entries generalizing texts s built with
  | nil =>
      cases hkeys
      rfl
  | cons entry entries ih =>
      cases hkeys with
      | @cons _ text _ texts hkey hkeys =>
          rw [List.foldlM_cons, List.map_cons, List.mapM_cons]
          simp only [bind_assoc, pure_bind, StateT.run_bind, run_keyText hkey]
          show (make entry.2).run s >>= _ = Except.map _ ((make entry.2).run s >>= _)
          cases hcell : (make entry.2).run s with
          | error failure => rfl
          | ok out =>
              obtain ⟨cell, between⟩ := out
              have hrest := ih ((hmake _ hcell).scalarKeys hkeys) (Dictionary.put text cell built)
              refine hrest.trans ?_
              show _ = Except.map _ (((entries.map Prod.snd).mapM make).run between >>= _)
              cases ((entries.map Prod.snd).mapM make).run between <;> rfl

/-- **A mapping whose keys are scalars** is the dictionary of the texts of its keys and the
cells of its values. -/
theorem run_sourceEntries {makeKey make : NodeId → Step Cell}
    (hmake : ∀ id, Leads (Keeps none) (make id)) {id : NodeId} {s flat : State}
    {original entries : List (NodeId × NodeId)} {texts : List String}
    (horiginal : mappingAt? s.nodes id = some original)
    (hflatten : (flattenNode id).run s = .ok ((), flat))
    (hentries : mappingAt? flat.nodes id = some entries)
    (hkeys : ScalarKeys flat.nodes entries texts) :
    (sourceEntries makeKey make id).run s =
      (((entries.map Prod.snd).mapM make).run flat).map fun out =>
        (Dictionary.ofEntries (texts.zip out.1), out.2) := by
  obtain ⟨node, hnode, hcontent⟩ := mappingAt?_eq_some.mp horiginal
  obtain ⟨found, hfound, hfoundContent⟩ := mappingAt?_eq_some.mp hentries
  have hat : (nodeAt id).run s = .ok (node, s) := run_nodeAt_eq_ok.mpr ⟨hnode, rfl⟩
  have hread : (entriesAt id).run flat = .ok (entries, flat) :=
    run_entriesAt_eq_ok.mpr ⟨⟨found, hfound, (entriesOf_of_mapping hfoundContent).symm⟩, rfl⟩
  rw [sourceEntries, run_bind_of_ok hat]
  simp only [hcontent]
  rw [run_bind_of_ok hflatten, run_bind_of_ok hread]
  exact run_foldlM_put hmake hkeys []

/-! ### Dictionaries of texts -/

/-- A run over items gives as many results as there are items. -/
theorem length_of_run_mapM {α ι : Type} {step : ι → Step α} {items : List ι} {found : List α}
    {s s' : State} (h : (items.mapM step).run s = .ok (found, s')) :
    found.length = items.length := by
  induction items generalizing found s with
  | nil =>
      cases h
      rfl
  | cons item items ih =>
      rw [List.mapM_cons] at h
      obtain ⟨first, between, -, h⟩ := run_bind_eq_ok.mp h
      obtain ⟨others, _, hothers, h⟩ := run_bind_eq_ok.mp h
      obtain ⟨rfl, rfl⟩ := run_pure_eq_ok.mp h
      rw [List.length_cons, List.length_cons, ih hothers]

/-- The value of a graph is that of its root, built from nothing. -/
theorem value_eq_ok {keys : Keys} {graph : Graph} {value : Value} :
    graph.value keys = .ok value ↔
      ∃ s, (document keys graph).run (.unbuilt graph) = .ok (value, s) := by
  have hstart : (⟨graph.nodes, [], [], #[], []⟩ : State) = .unbuilt graph := rfl
  rw [Graph.value, hstart]
  cases (document keys graph).run (.unbuilt graph) with
  | error failure => simp
  | ok out => simp [Prod.ext_iff]

/-- A document with a graph has the value of that graph. -/
theorem load_of_graph (keys : Keys) {text : List Char} {graph : Graph}
    (h : Yaml.graph text = .ok (some graph)) : load keys text = graph.value keys := by
  rw [load, h]
  rfl

/-- The cells under the texts of the keys. -/
structure TextDictionary (texts : List String) (cells : List Cell)
    (built : List (String × Cell)) : Prop where
  keys : Dictionary.keys built = texts.eraseDups
  lookup? : ∀ text, Dictionary.lookup? text built =
    Dictionary.lookup? text (texts.zip cells).reverse

/-- **Each text is a key once**, where it came first, and has the cell that came last. -/
theorem textDictionary_ofEntries {texts : List String} {cells : List Cell}
    (h : cells.length = texts.length) :
    TextDictionary texts cells (Dictionary.ofEntries (texts.zip cells)) where
  keys := by
    rw [Dictionary.keys_ofEntries, Dictionary.keys, List.map_fst_zip (Nat.le_of_eq h.symm)]
  lookup? := fun text => Dictionary.lookup?_ofEntries text _

/-- **What comes last wins**: under a text that comes behind a place, only the entries behind
this place count. -/
theorem TextDictionary.lookup?_drop {texts : List String} {cells : List Cell}
    {built : List (String × Cell)} (h : TextDictionary texts cells built)
    (hlength : cells.length = texts.length) (place : Nat) {text : String}
    (htext : text ∈ texts.drop place) :
    Dictionary.lookup? text built =
      Dictionary.lookup? text ((texts.drop place).zip (cells.drop place)).reverse := by
  have hsplit : texts.zip cells =
      (texts.take place).zip (cells.take place) ++ (texts.drop place).zip (cells.drop place) := by
    rw [← List.zip_append (by rw [List.length_take, List.length_take, hlength]),
      List.take_append_drop, List.take_append_drop]
  have hfound : text ∈ Dictionary.keys ((texts.drop place).zip (cells.drop place)).reverse := by
    rw [Dictionary.keys, List.map_reverse, List.mem_reverse, List.map_fst_zip]
    · exact htext
    · exact Nat.le_of_eq (by rw [List.length_drop, List.length_drop, hlength])
  rw [h.lookup?, hsplit, List.reverse_append, Dictionary.lookup?_append_of_mem hfound]

end ContentCatalog.Yaml.Building
