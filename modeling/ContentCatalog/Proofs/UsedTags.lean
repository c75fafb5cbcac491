import ContentCatalog.Proofs.DeclaredNames
import ContentCatalog.Source.Component
import Mathlib.Data.List.Nodup
import Mathlib.Data.List.TakeWhile

/-!
# Tags in markup

Markup uses a component where its opening tag stands: a bracket, a capitalised name of ASCII,
and behind the name the end of the markup or a character that no word goes on with.  The reader
takes the longest run of ASCII behind a bracket, so a name that runs on in another script is
none, and no shorter part of it is one either.

* `openingTag?_eq_some_iff` : what is read behind a bracket;
* `OpensTag.split` : the tags in front of a tag open earlier;
* `componentFile_of_dotless` : the file in which a component is looked for;
* `usedTags_exact` : which tags markup uses, their order, and their files.
-/

namespace ContentCatalog

open Text

/-! ### One tag -/

namespace Source

variable {markup before text name : List Char}

/-- A capital of ASCII, and word characters of ASCII behind it. -/
def IsTagName (name : List Char) : Prop :=
  ∃ first rest, name = first :: rest ∧ isAsciiCapital first = true ∧
    ∀ c ∈ rest, isAsciiWord c = true

/-- No word goes on with the text. -/
def EndsWord (text : List Char) : Prop :=
  ∀ c, text.head? = some c → isWord c = false

/-- The name of a tag ends where a word ends. -/
theorem tagName?_append {after : List Char} (h : IsTagName name) (hafter : EndsWord after) :
    tagName? (name ++ after) = some (name, after) := by
  obtain ⟨first, rest, rfl, hfirst, hrest⟩ := h
  have hend : after.takeWhile isAsciiWord = [] ∧ after.dropWhile isAsciiWord = after := by
    cases after with
    | nil => exact ⟨rfl, rfl⟩
    | cons c after =>
        have hc : ¬ isAsciiWord c = true := by
          intro hword
          have hnone := hafter c rfl
          rw [isWord_of_isAsciiWord hword] at hnone
          cases hnone
        rw [List.takeWhile_cons_of_neg hc, List.dropWhile_cons_of_neg hc]
        exact ⟨rfl, rfl⟩
  rw [List.cons_append, tagName?, if_pos hfirst, List.takeWhile_append_of_pos hrest,
    List.dropWhile_append_of_pos hrest, hend.1, hend.2, List.append_nil]

/-- What is read as the name of a tag is one. -/
theorem isTagName_of_tagName? {rest : List Char} (h : tagName? text = some (name, rest)) :
    IsTagName name ∧ text = name ++ rest := by
  cases text with
  | nil => cases h
  | cons c text =>
      rw [tagName?] at h
      split at h
      · next hcapital =>
          obtain ⟨rfl, rfl⟩ := Prod.mk.inj (Option.some.inj h)
          refine ⟨⟨c, _, rfl, hcapital, fun d hd => List.mem_takeWhile_imp hd⟩, ?_⟩
          rw [List.cons_append, List.takeWhile_append_dropWhile]
      · cases h

/-- **Behind a bracket** a tag is read exactly if a name stands there that ends as a word. -/
theorem openingTag?_eq_some_iff :
    openingTag? text = some name ↔
      IsTagName name ∧ ∃ after, text = name ++ after ∧ EndsWord after := by
  constructor
  · intro h
    rw [openingTag?] at h
    split at h
    · next hname =>
        obtain rfl := Option.some.inj h
        obtain ⟨htag, htext⟩ := isTagName_of_tagName? hname
        exact ⟨htag, [], htext, fun c hc => absurd hc (by simp)⟩
    · next c after hname =>
        split at h
        · cases h
        · next hword =>
            obtain rfl := Option.some.inj h
            obtain ⟨htag, htext⟩ := isTagName_of_tagName? hname
            refine ⟨htag, c :: after, htext, fun d hd => ?_⟩
            rwa [← Option.some.inj hd, ← Bool.not_eq_true]
    · cases h
  · rintro ⟨htag, after, rfl, hafter⟩
    rw [openingTag?, tagName?_append htag hafter]
    cases after with
    | nil => rfl
    | cons c after => simp [hafter c rfl]

/-! ### All tags -/

/-- Behind `before` the markup opens a tag of that name. -/
def OpensTag (markup before name : List Char) : Prop :=
  IsTagName name ∧ ∃ after, markup = before ++ '<' :: (name ++ after) ∧ EndsWord after

/-- A tag opens here at its bracket. -/
theorem opensTag_nil_iff {c : Char} :
    OpensTag (c :: text) [] name ↔ c = '<' ∧ openingTag? text = some name := by
  rw [openingTag?_eq_some_iff, OpensTag]
  simp only [List.nil_append, List.cons.injEq]
  tauto

/-- Or it opens behind this character. -/
theorem opensTag_cons_iff {c d : Char} :
    OpensTag (c :: text) (d :: before) name ↔ c = d ∧ OpensTag text before name := by
  simp only [OpensTag, List.cons_append, List.cons.injEq]
  tauto

/-- The tags are those that open in front and those of the rest. -/
theorem openingTags_cons (c : Char) (rest : List Char) :
    openingTags (c :: rest) =
      (if c = '<' then openingTag? rest else none).toList ++ openingTags rest := by
  rw [openingTags]
  split
  · split
    · next h => rw [h, Option.toList_some, List.singleton_append]
    · next h => rw [h, Option.toList_none, List.nil_append]
  · rw [Option.toList_none, List.nil_append]

/-- **The tags in front of a tag** open earlier. -/
theorem OpensTag.split (h : OpensTag markup before name) :
    ∃ front back, openingTags markup = front ++ name :: back ∧
      ∀ other ∈ front, ∃ earlier, OpensTag markup earlier other ∧
        earlier.length < before.length := by
  induction before generalizing markup with
  | nil =>
      obtain ⟨-, after, rfl, -⟩ := id h
      obtain ⟨-, htag⟩ := opensTag_nil_iff.mp h
      refine ⟨[], openingTags (name ++ after), ?_, List.forall_mem_nil _⟩
      rw [List.nil_append, openingTags_cons, if_pos rfl, htag, Option.toList_some]
      rfl
  | cons d before ih =>
      obtain ⟨rest, rfl⟩ : ∃ rest, markup = d :: rest := by
        obtain ⟨-, after, hmarkup, -⟩ := h
        exact ⟨_, hmarkup⟩
      obtain ⟨front, back, hsplit, hfront⟩ := ih (opensTag_cons_iff.mp h).2
      refine ⟨(if d = '<' then openingTag? rest else none).toList ++ front, back, ?_, ?_⟩
      · rw [openingTags_cons, hsplit, List.append_assoc]
      · intro other hother
        rcases List.mem_append.mp hother with hhere | hother
        · rw [Option.mem_toList, Option.ite_none_right_eq_some] at hhere
          exact ⟨[], opensTag_nil_iff.mpr hhere, Nat.succ_pos _⟩
        · obtain ⟨earlier, hearlier, hlength⟩ := hfront other hother
          exact ⟨d :: earlier, opensTag_cons_iff.mpr ⟨rfl, hearlier⟩, Nat.succ_lt_succ hlength⟩

/-- A tag is listed exactly if it opens somewhere. -/
theorem mem_openingTags_iff :
    name ∈ openingTags markup ↔ ∃ before, OpensTag markup before name := by
  constructor
  · intro h
    induction markup with
    | nil => cases h
    | cons c markup ih =>
        rw [openingTags_cons, List.mem_append, Option.mem_toList,
          Option.ite_none_right_eq_some] at h
        rcases h with h | h
        · exact ⟨[], opensTag_nil_iff.mpr h⟩
        · obtain ⟨before, hbefore⟩ := ih h
          exact ⟨c :: before, opensTag_cons_iff.mpr ⟨rfl, hbefore⟩⟩
  · rintro ⟨before, h⟩
    obtain ⟨front, back, hsplit, -⟩ := h.split
    simp [hsplit]

/-- The name of a tag is made of word characters of ASCII. -/
theorem IsTagName.isAsciiWord (h : IsTagName name) : ∀ c ∈ name, isAsciiWord c = true := by
  obtain ⟨first, rest, rfl, hfirst, hrest⟩ := h
  refine List.forall_mem_cons.mpr ⟨?_, hrest⟩
  rw [isAsciiCapital] at hfirst
  simp [Text.isAsciiWord, isAsciiLetter, hfirst]

end Source

/-! ### Files of tags -/

namespace Path

/-- The file of a component is named by its whole tag, if no dot cuts it short. -/
theorem componentFile_of_dotless {tag : List Char} (h : '.' ∉ tag) :
    componentFile tag = "src/components/".toList ++ tag ++ componentSuffix := by
  have hwhole : tag.takeWhile (· != '.') = tag := by
    refine List.takeWhile_eq_self_iff.mpr fun c hc => ?_
    rw [bne_iff_ne]
    rintro rfl
    exact h hc
  unfold componentFile
  rw [hwhole]

end Path

namespace Source

/-- The file of such a tag has its name and nothing more. -/
theorem IsTagName.componentFile_eq {name : List Char} (h : IsTagName name) :
    Path.componentFile name = "src/components/".toList ++ name ++ ".astro".toList := by
  refine Path.componentFile_of_dotless fun hdot => ?_
  exact absurd (h.isAsciiWord _ hdot) (by decide)

/-- **The tags that markup uses** are the names of its opening tags, each once, in the order in
which they open first.  Each of them has a file of its own. -/
theorem usedTags_exact (markup : List Char) :
    (usedTags markup).Nodup ∧
    (∀ name, name ∈ usedTags markup ↔ ∃ before, OpensTag markup before name) ∧
    (usedTags markup).Pairwise (fun name later =>
      ∀ before, OpensTag markup before later →
        ∃ earlier, OpensTag markup earlier name ∧ earlier.length < before.length) ∧
    Path.componentFiles (usedTags markup) =
      (usedTags markup).map (fun name => "src/components/".toList ++ name ++ ".astro".toList) ∧
    (Path.componentFiles (usedTags markup)).Nodup := by
  have hmem : ∀ name, name ∈ usedTags markup ↔ ∃ before, OpensTag markup before name := fun _ =>
    mem_distinct.trans mem_openingTags_iff
  have hfile : ∀ name ∈ usedTags markup,
      Path.componentFile name = "src/components/".toList ++ name ++ ".astro".toList := by
    intro name hname
    obtain ⟨before, htag, -⟩ := (hmem name).mp hname
    exact htag.componentFile_eq
  have hfiles : ((usedTags markup).map Path.componentFile).Nodup := by
    refine List.Nodup.map_on (fun name hname other hother heq => ?_) (usedTags_nodup markup)
    rw [hfile name hname, hfile other hother] at heq
    exact List.append_cancel_left (List.append_cancel_right heq)
  refine ⟨usedTags_nodup markup, hmem, ?_, ?_, nodup_distinct _⟩
  · refine (pairwise_distinct (openingTags markup)).imp fun {name later} horder before hopens => ?_
    obtain ⟨front, back, hsplit, hfront⟩ := hopens.split
    exact hfront name (horder front back hsplit)
  · rw [Path.componentFiles, distinct_of_nodup hfiles]
    exact List.map_congr_left hfile

end Source

end ContentCatalog
