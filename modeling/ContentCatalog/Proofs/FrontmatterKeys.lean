import ContentCatalog.Proofs.ScanStages
import ContentCatalog.Proofs.StringKeys
import ContentCatalog.Source.Markdown

/-!
# Front matter and its keys

Front matter is a mapping whose keys are taken as they are written, and a page has one field
for each of them that is not empty.

* `keys_frontmatterEntries`, `fields_of_keys` : front matter of a mapping with text keys, and
  its fields;
* `load_of_scalarKeys` : a document that is a mapping with scalar keys;
* `sourceText_keys` : what is built of the keys of a mapping, of a page and of a document.
-/

namespace ContentCatalog

/-! ### Fields of front matter -/

/-- The field of a front-matter entry. -/
def Field.ofEntry (entry : String × Value) : Field :=
  { key := entry.1
    type := (Field.typeOf entry.2).name
    required := false
    source := some FieldSource.markdown.name }

/-- Of entries with different keys all but the one with the empty key give a field. -/
theorem Field.inferred_of_nodup {entries : List (String × Value)}
    (h : (Dictionary.keys entries).Nodup) :
    Field.inferred entries = (entries.filter fun entry => entry.1 != "").map Field.ofEntry := by
  refine firstBy_of_nodup ?_
  rw [List.map_map]
  exact (List.filter_sublist.map Prod.fst).nodup h

namespace Source

/-- Of a mapping with text keys, front matter is what has a key. -/
theorem frontmatterEntries_texts {ν : Type} (image : ν → Value) (entries : List (String × ν)) :
    frontmatterEntries (.map (entries.map fun entry => (.text entry.1, image entry.2))) =
      (entries.filter fun entry => entry.1 != "").map fun entry => (entry.1, image entry.2) := by
  rw [frontmatterEntries]
  induction entries with
  | nil => rfl
  | cons entry entries ih =>
      rw [List.map_cons, List.filterMap_cons, List.filter_cons]
      by_cases hkey : entry.1 = "" <;> simp [hkey, ih]

/-- The keys of front matter are all but the empty one. -/
theorem keys_frontmatterEntries {ν : Type} (image : ν → Value) (entries : List (String × ν)) :
    Dictionary.keys (frontmatterEntries
      (.map (entries.map fun entry => (.text entry.1, image entry.2)))) =
      (Dictionary.keys entries).filter (· != "") := by
  rw [frontmatterEntries_texts, Dictionary.keys, List.map_map, Dictionary.keys, List.filter_map]
  rfl

/-- **Front matter with text keys** has a field for each of its entries. -/
theorem fields_of_keys {page : MarkdownSource} (h : (Dictionary.keys page.frontmatter).Nodup)
    (hne : "" ∉ Dictionary.keys page.frontmatter) :
    page.fields = page.frontmatter.map Field.ofEntry := by
  rw [MarkdownSource.fields, Field.inferred_of_nodup h, List.filter_eq_self.mpr]
  intro entry hentry
  rw [bne_iff_ne]
  exact fun heq => hne (List.mem_map.mpr ⟨entry, hentry, heq⟩)

open Yaml Yaml.Building

/-- An empty text has no graph. -/
theorem graph_nil : Yaml.graph [] = .ok none := rfl

/-- A page whose front matter is a document fails exactly if the document cannot be loaded. -/
theorem markdownPage_of_block {text block : List Char} {graph : Graph}
    (hblock : (split text).frontmatter = some block)
    (hgraph : Yaml.graph block = .ok (some graph)) :
    markdownPage text = (Yaml.load .sourceText block).map fun decoded =>
      ⟨frontmatterEntries decoded, (split text).body⟩ := by
  rw [markdownPage, hblock]
  cases block with
  | nil => cases graph_nil.symm.trans hgraph
  | cons c block =>
      show (Yaml.load .sourceText (c :: block) >>= _) = _
      cases Yaml.load .sourceText (c :: block) <;> rfl

/-- **A document that is a mapping with scalar keys** has the value of each key's last entry
under the text of the key. -/
theorem load_of_scalarKeys {block : List Char} {graph : Graph} {root : Node} {value : Value}
    (hgraph : Yaml.graph block = .ok (some graph))
    (hroot : graph.nodes[graph.root]? = some root) (htag : root.tag = Tag.standard "map")
    {flat : State} {original entries : List (NodeId × NodeId)} {texts : List String}
    (horiginal : mappingAt? graph.nodes graph.root = some original)
    (hflatten : (flattenNode graph.root).run (.opened graph) = .ok ((), flat))
    (hentries : mappingAt? flat.nodes graph.root = some entries)
    (hkeys : ScalarKeys flat.nodes entries texts)
    (hload : load .sourceText block = .ok value) :
    ∃ cells filled s,
      ((entries.map Prod.snd).mapM (make .sourceText (graph.nodes.size + 1) false)).run flat =
        .ok (cells, filled) ∧
      (document .sourceText graph).run (.unbuilt graph) = .ok (value, s) ∧
      value = .map ((Dictionary.ofEntries (texts.zip cells)).map fun entry =>
        (.text entry.1, s.part entry.2)) := by
  rw [load_of_graph .sourceText hgraph] at hload
  obtain ⟨s, hdocument⟩ := value_eq_ok.mp hload
  obtain ⟨items, filled, hitems, hvalue⟩ := run_document_eq_ok hroot htag hdocument
  obtain ⟨built, _, hbuilt, hitems⟩ := run_bind_eq_ok.mp hitems
  obtain ⟨rfl, rfl⟩ := run_pure_eq_ok.mp hitems
  rw [run_sourceEntries (keeps_make .sourceText _ false) horiginal hflatten hentries hkeys]
    at hbuilt
  obtain ⟨⟨cells, _⟩, hcells, heq⟩ := map_eq_ok_iff.mp hbuilt
  cases heq
  refine ⟨cells, _, s, hcells, hdocument, ?_⟩
  rw [hvalue, List.map_map]
  rfl

/-- **Keys are source texts.**  A mapping whose keys are scalars once it is flattened has the
texts of its keys as keys, each where it came first and with the cell that came last, so its own
entries win over merged ones; a page with such front matter has one field for each text that is
not empty; and where all keys are texts anyway, decoding them would give the same value. -/
theorem sourceText_keys :
    (∀ {s flat : State} {id : NodeId} {original entries : List (NodeId × NodeId)}
      {texts : List String} (fuel : Nat) (complete : Bool),
      mappingAt? s.nodes id = some original → (flattenNode id).run s = .ok ((), flat) →
      mappingAt? flat.nodes id = some entries → ScalarKeys flat.nodes entries texts →
      ∃ merged, entries = merged ++ ownEntries s.nodes original ∧
        Unmarked flat.nodes entries ∧
        (∀ failure, ((entries.map Prod.snd).mapM (make .sourceText fuel complete)).run flat =
            .error failure →
          (sourceEntries (make .sourceText fuel true) (make .sourceText fuel complete) id).run s =
            .error failure) ∧
        ∀ cells s', ((entries.map Prod.snd).mapM (make .sourceText fuel complete)).run flat =
            .ok (cells, s') →
          ∃ built,
            (sourceEntries (make .sourceText fuel true) (make .sourceText fuel complete) id).run s =
              .ok (built, s') ∧
            TextDictionary texts cells built ∧
            ∀ text ∈ texts.drop merged.length, Dictionary.lookup? text built =
              Dictionary.lookup? text
                ((texts.drop merged.length).zip (cells.drop merged.length)).reverse) ∧
    (∀ {text block : List Char} {graph : Graph} {root : Node} {flat : State}
      {original entries : List (NodeId × NodeId)} {texts : List String},
      (split text).frontmatter = some block → Yaml.graph block = .ok (some graph) →
      graph.nodes[graph.root]? = some root → root.tag = Tag.standard "map" →
      mappingAt? graph.nodes graph.root = some original →
      (flattenNode graph.root).run (.opened graph) = .ok ((), flat) →
      mappingAt? flat.nodes graph.root = some entries → ScalarKeys flat.nodes entries texts →
      (∀ failure, load .sourceText block = .error failure →
        markdownPage text = .error failure) ∧
      ∀ value, load .sourceText block = .ok value →
        ∃ page cells filled s, markdownPage text = .ok page ∧
          ((entries.map Prod.snd).mapM (make .sourceText (graph.nodes.size + 1) false)).run flat =
            .ok (cells, filled) ∧
          (document .sourceText graph).run (.unbuilt graph) = .ok (value, s) ∧
          Dictionary.keys page.frontmatter = texts.eraseDups.filter (· != "") ∧
          (∀ entry ∈ page.frontmatter, ∃ cell,
            Dictionary.lookup? entry.1 (texts.zip cells).reverse = some cell ∧
            entry.2 = s.part cell) ∧
          page.fields = page.frontmatter.map Field.ofEntry) ∧
    (∀ {text : List Char} {value : Value},
      (∀ graph, Yaml.graph text = .ok (some graph) → TextKeys graph.nodes) →
      load .decoded text = .ok value → load .sourceText text = .ok value) := by
  refine ⟨?_, ?_, load_of_textKeys⟩
  · intro s flat id original entries texts fuel complete horiginal hflatten hentries hkeys
    obtain ⟨found, hfound, hunmarked, merged, happend⟩ := run_flattenNode horiginal hflatten
    obtain rfl := Option.some.inj (hentries.symm.trans hfound)
    have hrun : (sourceEntries (make .sourceText fuel true) (make .sourceText fuel complete)
        id).run s = _ :=
      run_sourceEntries (keeps_make .sourceText fuel complete) horiginal hflatten hentries hkeys
    refine ⟨merged, happend.symm, hunmarked, ?_, ?_⟩
    · intro failure hfailure
      rw [hrun, hfailure]
      rfl
    · intro cells s' hcells
      have hlength : cells.length = texts.length := by
        rw [length_of_run_mapM hcells, List.length_map, hkeys.length_eq]
      have hbuilt := textDictionary_ofEntries hlength
      refine ⟨_, ?_, hbuilt, fun text htext => hbuilt.lookup?_drop hlength _ htext⟩
      rw [hrun, hcells]
      rfl
  · intro text block graph root flat original entries texts hblock hgraph hroot htag horiginal
      hflatten hentries hkeys
    refine ⟨?_, ?_⟩
    · intro failure hfailure
      rw [markdownPage_of_block hblock hgraph, hfailure]
      rfl
    · intro value hload
      obtain ⟨cells, filled, s, hcells, hdocument, rfl⟩ :=
        load_of_scalarKeys hgraph hroot htag horiginal hflatten hentries hkeys hload
      have hpage := markdownPage_of_block hblock hgraph
      rw [hload] at hpage
      have hlength : cells.length = texts.length := by
        rw [length_of_run_mapM hcells, List.length_map, hkeys.length_eq]
      have hbuilt := textDictionary_ofEntries hlength
      have hnodup := Dictionary.nodup_keys_ofEntries (texts.zip cells)
      have hnames := keys_frontmatterEntries s.part (Dictionary.ofEntries (texts.zip cells))
      refine ⟨_, cells, filled, s, hpage, hcells, hdocument, ?_, ?_, fields_of_keys ?_ ?_⟩
      · rw [hnames, hbuilt.keys]
      · intro entry hentry
        simp only [frontmatterEntries_texts] at hentry
        obtain ⟨first, hfirst, rfl⟩ := List.mem_map.mp hentry
        refine ⟨first.2, ?_, rfl⟩
        rw [← hbuilt.lookup?]
        exact Dictionary.lookup?_of_mem hnodup (List.mem_filter.mp hfirst).1
      · rw [hnames]
        exact hnodup.filter _
      · rw [hnames]
        simp

/-- A page whose front matter merges a mapping and has keys that are no texts. -/
def mergedPage : List Char :=
  "---\nb: &b \x7b1: x, true: 5\x7d\n<<: *b\n1: z\n---\n".toList

/-- What the front matter of the page holds. -/
def mergedBlock : List Char :=
  "b: &b \x7b1: x, true: 5\x7d\n<<: *b\n1: z".toList

/-- A document whose keys are texts. -/
def textBlock : List Char :=
  "a: &a \x7bb: [yes, 1]\x7d\n'c': *a".toList

/-- A result that passes a test is one. -/
theorem ok_of_any {ε α : Type} {result : Except ε α} {p : α → Bool}
    (h : result.toOption.any p = true) : ∃ a, result = .ok a ∧ p a = true := by
  cases result with
  | error failure => cases h
  | ok a => exact ⟨a, rfl, h⟩

/-- A mapping with a merge and keys that look like numbers, and one with keys that are words. -/
theorem sourceText_keys_sample :
    (∃ graph page built s, Yaml.graph mergedBlock = .ok (some graph) ∧
      (sourceEntries (make .sourceText (graph.nodes.size + 1) true)
        (make .sourceText (graph.nodes.size + 1) false) graph.root).run (.opened graph) =
          .ok (built, s) ∧
      Dictionary.keys built = ["1", "true", "b"] ∧
      markdownPage mergedPage = .ok page ∧
      Dictionary.keys page.frontmatter = ["1", "true", "b"] ∧
      page.fields = page.frontmatter.map Field.ofEntry) ∧
    ∃ value, load .decoded textBlock = .ok value ∧ load .sourceText textBlock = .ok value := by
  have hblock : (split mergedPage).frontmatter = some mergedBlock := by decide +kernel
  obtain ⟨found, hfound, hfacts⟩ : ∃ found, Yaml.graph mergedBlock = .ok found ∧
      (found.any fun graph =>
        (graph.nodes[graph.root]?).map Node.tag = some (Tag.standard "map") ∧
        mappingAt? graph.nodes graph.root = some [(1, 2), (7, 2), (8, 9)] ∧
        (((flattenNode graph.root).run (.opened graph)).toOption.any fun out =>
          mappingAt? out.2.nodes graph.root = some [(3, 4), (5, 6), (1, 2), (8, 9)] ∧
          scalarAt? out.2.nodes 3 = some "1" ∧ scalarAt? out.2.nodes 5 = some "true" ∧
          scalarAt? out.2.nodes 1 = some "b" ∧ scalarAt? out.2.nodes 8 = some "1") = true) = true :=
    ok_of_any (by decide +kernel)
  cases found with
  | none => cases hfacts
  | some graph =>
      obtain ⟨hroot, horiginal, hrun⟩ := of_decide_eq_true hfacts
      obtain ⟨root, hroot, htag⟩ := Option.map_eq_some_iff.mp hroot
      obtain ⟨⟨_, flat⟩, hflatten, hflat⟩ := ok_of_any hrun
      obtain ⟨hentries, hfirst, hsecond, hthird, hfourth⟩ := of_decide_eq_true hflat
      have hkeys : ScalarKeys flat.nodes [(3, 4), (5, 6), (1, 2), (8, 9)]
          ["1", "true", "b", "1"] :=
        .cons hfirst (.cons hsecond (.cons hthird (.cons hfourth .nil)))
      obtain ⟨value, hvalue, -⟩ : ∃ value, load .sourceText mergedBlock = .ok value ∧ true = true :=
        ok_of_any (by decide +kernel)
      obtain ⟨page, cells, filled, s, hpage, hcells, -, hnames, -, hfields⟩ :=
        (sourceText_keys.2.1 hblock hfound hroot htag horiginal hflatten hentries hkeys).2 value
          hvalue
      obtain ⟨_, _, _, _, hbuilt⟩ := sourceText_keys.1 (graph.nodes.size + 1) false
        (s := .opened graph) horiginal hflatten hentries hkeys
      obtain ⟨built, hrun, hdictionary, -⟩ := hbuilt cells filled hcells
      obtain ⟨other, hother, -⟩ : ∃ value, load .decoded textBlock = .ok value ∧ true = true :=
        ok_of_any (by decide +kernel)
      have htexts : ∀ graph, Yaml.graph textBlock = .ok (some graph) → TextKeys graph.nodes := by
        intro graph hgraph
        have hall : ((Yaml.graph textBlock).toOption.all fun found =>
            found.all fun graph => TextKeys graph.nodes) = true := by decide +kernel
        rw [hgraph] at hall
        exact of_decide_eq_true hall
      refine ⟨⟨graph, page, built, filled, hfound, hrun, ?_, hpage, ?_, hfields⟩, other, hother,
        sourceText_keys.2.2 htexts hother⟩
      · rw [hdictionary.keys]
        decide
      · rw [hnames]
        decide

end Source

end ContentCatalog
