import ContentCatalog.Proofs.DeclaredNames
import ContentCatalog.Proofs.WalkOrder

/-!
# Pruning and flat filtering

Rules are asked twice in a walk: of each folder before it is entered, and of each file.  A
rule whose pattern is plain text, or describes single segments, hits everything below a
folder that it hits.  With such rules alone the first question saves work and decides
nothing: the walk yields what a walk without rules yields, less the files that are hit.

A whole path with a star in it is another matter: it may hit a folder and nothing below.

* `Rule.Inherited` : what is hit as a folder is hit with everything below it;
* `hits_whole_iff`, `hits_segments_iff` : what the two kinds of rules hit;
* `inherited_of_ofPattern?` : which patterns give such rules;
* `walkFrom_eq_filter` : pruning by such rules is filtering;
* `walk_pruned` : the statement about patterns and whole walks.
-/

namespace ContentCatalog

open Text

namespace Exclusion

/-- What the rule hits as a folder, it hits with everything below it. -/
def Rule.Inherited (rule : Rule) : Prop :=
  ∀ folder below isFolder, rule.hits folder true = true →
    rule.hits (folder ++ '/' :: below) isFolder = true

section Hits

variable {rule : Rule} {path : List Char} {isFolder : Bool}

/-- **A plain text for whole paths** hits its own path and all paths below it. -/
theorem hits_whole_iff (hwhole : (rule.anchored || rule.hasSlash) = true)
    (hne : rule.pattern ≠ []) (hplain : ∀ c ∈ rule.pattern, Glob.isWildcard c = false) :
    rule.hits path isFolder = true ↔
      (path = rule.pattern ∧ (rule.foldersOnly = true → isFolder = true)) ∨
        ∃ below, path = rule.pattern ++ '/' :: below := by
  have hbelow : startsWith (rule.pattern ++ ['/']) path = true ↔
      ∃ below, path = rule.pattern ++ '/' :: below := by
    rw [startsWith, Option.isSome_iff_exists]
    simp only [afterStart?_eq_some_iff, List.append_assoc, List.singleton_append]
  unfold Rule.hits
  rw [if_neg (by simpa using hne), if_pos hwhole, Glob.accepts_literal _ _ hplain]
  split
  · next hsame =>
      have hsame : rule.pattern = path := by simpa using hsame
      have hnone : ¬ ∃ below, path = rule.pattern ++ '/' :: below := by
        rintro ⟨below, heq⟩
        rw [hsame] at heq
        simp at heq
      rw [or_iff_left hnone]
      cases rule.foldersOnly <;> simp [hsame]
  · next hother =>
      have hother : rule.pattern ≠ path := by simpa using hother
      rw [hbelow, or_iff_right fun h => hother h.1.symm]

/-- **A pattern for single segments** hits a path through one of its segments; the last
segment of a file does not count if only folders do. -/
theorem hits_segments_iff (hsegments : (rule.anchored || rule.hasSlash) = false)
    (hne : rule.pattern ≠ []) :
    rule.hits path isFolder = true ↔
      ∃ name ∈ if isFolder || !rule.foldersOnly then segments '/' path
        else (segments '/' path).dropLast, Glob.isMatch rule.pattern name = true := by
  unfold Rule.hits
  rw [if_neg (by simpa using hne), if_neg (by simp [hsegments]), List.any_eq_true]

end Hits

/-- **Which rules are inherited**: plain texts and patterns for single segments. -/
theorem Rule.inherited {rule : Rule} (hne : rule.pattern ≠ [])
    (h : (∀ c ∈ rule.pattern, Glob.isWildcard c = false) ∨
      (rule.anchored = false ∧ rule.hasSlash = false)) : rule.Inherited := by
  intro folder below isFolder hhits
  by_cases hwhole : (rule.anchored || rule.hasSlash) = true
  · have hplain : ∀ c ∈ rule.pattern, Glob.isWildcard c = false := by
      refine h.resolve_right fun hsegments => ?_
      simp [hsegments] at hwhole
    rw [hits_whole_iff hwhole hne hplain] at hhits ⊢
    right
    rcases hhits with ⟨heq, -⟩ | ⟨between, heq⟩
    · exact ⟨below, by rw [heq]⟩
    · exact ⟨between ++ '/' :: below, by rw [heq, List.append_assoc, List.cons_append]⟩
  · rw [Bool.not_eq_true] at hwhole
    rw [hits_segments_iff hwhole hne] at hhits ⊢
    obtain ⟨name, hname, hmatch⟩ := hhits
    rw [Bool.true_or, if_pos rfl] at hname
    refine ⟨name, ?_, hmatch⟩
    -- The segments of the folder are none of them the last one of the path.
    rw [segments_append]
    split
    · exact List.mem_append_left _ hname
    · rw [List.dropLast_append_of_ne_nil (segments_ne_nil _ _)]
      exact List.mem_append_left _ hname

/-- The pattern of a rule is what stands in the pattern that was written. -/
theorem pattern_subset {written : List Char} {rule : Rule} (h : ofPattern? written = some rule) :
    rule.pattern ⊆ written := by
  obtain ⟨before, after, -, -, hwritten, -⟩ := exists_strip written
  unfold ofPattern? at h
  simp only at h
  split at h
  · cases h
  · split at h
    · cases h
    · cases h
      intro c hc
      have hstem := (List.dropWhile_suffix _).subset hc
      rw [trimRight_eq_rdropWhile] at hstem
      have hstrip := (List.rdropWhile_prefix _ _).subset hstem
      rw [hwritten]
      simp [hstrip]

/-- **Which patterns give rules that are inherited.** -/
theorem inherited_of_ofPattern? {written : List Char} {rule : Rule}
    (hrule : ofPattern? written = some rule)
    (h : (∀ c ∈ written, Glob.isWildcard c = false) ∨
      (rule.anchored = false ∧ rule.hasSlash = false)) : rule.Inherited :=
  Rule.inherited (pattern_ne_nil hrule) (h.imp_left fun hplain c hc =>
    hplain c (pattern_subset hrule hc))

/-- A star in a whole path may hit a folder and not what is below it. -/
example :
    (Rule.hits ⟨"lib/*.old".toList, false, false, true⟩ "lib/a.old".toList true,
      Rule.hits ⟨"lib/*.old".toList, false, false, true⟩ "lib/a.old/b.md".toList false) =
        (true, false) := by
  decide +kernel

/-- What lies below a folder that is excluded is excluded. -/
theorem excludes_below {rules : List Rule} (hrules : ∀ rule ∈ rules, rule.Inherited)
    {folder : List Char} (h : excludes rules folder true = true) (below : List Char)
    (isFolder : Bool) : excludes rules (folder ++ '/' :: below) isFolder = true := by
  obtain ⟨rule, hrule, hhits⟩ := List.any_eq_true.mp h
  exact List.any_eq_true.mpr ⟨rule, hrule, hrules rule hrule folder below isFolder hhits⟩

end Exclusion

namespace Disk

variable {filter : Filter} {folder : List Char} {entry : String × Tree}

/-- The same walk without rules. -/
def Filter.withoutRules (filter : Filter) : Filter :=
  { filter with rules := [] }

/-- No rule hits the file. -/
def Filter.spares (filter : Filter) (found : Found) : Bool :=
  !Exclusion.excludes filter.rules found.path false

/-- A filter takes what its rules leave of what it takes without them. -/
theorem takes_eq_withoutRules (filter : Filter) (path : List Char) :
    filter.takes path =
      (!Exclusion.excludes filter.rules path false && filter.withoutRules.takes path) := by
  simp [Filter.takes, Filter.withoutRules, Exclusion.excludes]

/-- And it enters what they leave of the folders. -/
theorem enters_eq_withoutRules (filter : Filter) (name : String) (path : List Char) :
    filter.enters name path =
      (filter.withoutRules.enters name path && !Exclusion.excludes filter.rules path true) := by
  simp [Filter.enters, Filter.withoutRules, Exclusion.excludes]

/-- A path with a name at its end is not empty. -/
theorem joinName_ne_nil (folder : List Char) {name : String} (h : IsName name) :
    joinName folder name ≠ [] := by
  rw [joinName]
  split
  · exact toList_ne_nil h
  · simp

/-- The path of what is found below a folder begins with that of the folder. -/
theorem exists_pathBelow (hfolder : folder ≠ []) {names : List String} (hne : names ≠ []) :
    ∃ below, pathBelow folder names = folder ++ '/' :: below := by
  induction names using List.reverseRecOn with
  | nil => exact absurd rfl hne
  | append_singleton names name ih =>
      have hjoin : ∀ path : List Char, path ≠ [] →
          joinName path name = path ++ '/' :: name.toList := by
        intro path hpath
        rw [joinName, if_neg (by simpa using hpath)]
      rw [pathBelow, List.foldl_append]
      show ∃ below, joinName (pathBelow folder names) name = folder ++ '/' :: below
      by_cases hnil : names = []
      · subst hnil
        exact ⟨name.toList, hjoin folder hfolder⟩
      · obtain ⟨below, hbelow⟩ := ih hnil
        refine ⟨below ++ '/' :: name.toList, ?_⟩
        rw [hbelow, hjoin _ (by simp), List.append_assoc, List.cons_append]

/-- A file that is hit is left out of its folder. -/
theorem own_eq_filter :
    (shareOf filter folder entry).own =
      (shareOf filter.withoutRules folder entry).own.filter filter.spares := by
  obtain ⟨name, tree⟩ := entry
  cases tree with
  | file content =>
      simp only [shareOf, takes_eq_withoutRules filter]
      cases hhit : Exclusion.excludes filter.rules (joinName folder name) false <;>
        cases filter.withoutRules.takes (joinName folder name) <;> simp [Filter.spares, hhit]
  | folder entries => rfl

/-- What is below a folder that is hit would be left out file by file. -/
theorem below_eq_filter (hrules : ∀ rule ∈ filter.rules, rule.Inherited) (hname : IsName entry.1)
    (ih : walkFrom filter (joinName folder entry.1) entry.2 =
      (walkFrom filter.withoutRules (joinName folder entry.1) entry.2).filter filter.spares) :
    (shareOf filter folder entry).below =
      (shareOf filter.withoutRules folder entry).below.filter filter.spares := by
  obtain ⟨name, tree⟩ := entry
  cases tree with
  | file content => rfl
  | folder entries =>
      have hbelow : ∀ found ∈ walkFrom filter.withoutRules (joinName folder name) (.folder entries),
          ∃ below, found.path = joinName folder name ++ '/' :: below := by
        intro found hfound
        obtain ⟨names, -, hreaches, hpath⟩ := mem_walkFrom.mp hfound
        rw [hpath]
        exact exists_pathBelow (joinName_ne_nil folder hname) (reaches_iff.mp hreaches).1
      simp only [shareOf, enters_eq_withoutRules filter]
      cases hhit : Exclusion.excludes filter.rules (joinName folder name) true with
      | false =>
          rw [Bool.not_false, Bool.and_true]
          split
          · exact ih
          · rfl
      | true =>
          rw [Bool.not_true, Bool.and_false, if_neg Bool.false_ne_true]
          symm
          rw [List.filter_eq_nil_iff]
          intro found hfound
          split at hfound
          · obtain ⟨below, hpath⟩ := hbelow found hfound
            rw [Filter.spares, hpath, Exclusion.excludes_below hrules hhit]
            simp
          · cases hfound

/-- **Pruning by rules that are inherited is filtering.** -/
theorem walkFrom_eq_filter {filter : Filter} (hrules : ∀ rule ∈ filter.rules, rule.Inherited)
    {tree : Tree} (hnamed : tree.Named IsName) (folder : List Char) :
    walkFrom filter folder tree =
      (walkFrom filter.withoutRules folder tree).filter filter.spares := by
  induction tree using Tree.induction generalizing folder with
  | file content => simp [walkFrom]
  | folder entries ih =>
      obtain ⟨-, hnames, htrees⟩ := Tree.named_folder_iff.mp hnamed
      have hbelow : ∀ entry ∈ sorted entries, (shareOf filter folder entry).below =
          (shareOf filter.withoutRules folder entry).below.filter filter.spares := by
        intro entry hentry
        have hentry := mem_sorted.mp hentry
        exact below_eq_filter hrules (hnames entry hentry) (ih entry hentry (htrees entry hentry) _)
      rw [walkFrom_folder, walkFrom_folder, List.filter_append, List.filter_flatMap,
        List.filter_flatMap]
      congr 1
      · exact List.flatMap_congr fun entry _ => own_eq_filter
      · exact List.flatMap_congr hbelow

/-- **Pruning agrees with flat filtering.**  Of patterns that are plain texts, or describe
single segments, the rules leave the files of the whole walk that no rule hits, in their
order; and each rule that hits a folder hits every path below it. -/
theorem walk_pruned {patterns : List (List Char)}
    (hpatterns : ∀ written ∈ patterns, ∀ rule, Exclusion.ofPattern? written = some rule →
      (∀ c ∈ written, Glob.isWildcard c = false) ∨
        (rule.anchored = false ∧ rule.hasSlash = false))
    (accept : List Char → Bool) {entries : List (String × Tree)}
    (hnamed : (Tree.folder entries).Named IsName) :
    (walk { accept, leftOut := [], rules := Exclusion.ofPatterns patterns } (.folder entries) =
      (walk { accept, leftOut := [] } (.folder entries)).filter fun found =>
        (Exclusion.ofPatterns patterns).all fun rule => !rule.hits found.path false) ∧
    ∀ rule ∈ Exclusion.ofPatterns patterns, ∀ folder below isFolder,
      rule.hits folder true = true → rule.hits (folder ++ '/' :: below) isFolder = true := by
  have hrules : ∀ rule ∈ Exclusion.ofPatterns patterns, rule.Inherited := by
    intro rule hrule
    obtain ⟨written, hwritten, hof⟩ := List.mem_filterMap.mp hrule
    exact Exclusion.inherited_of_ofPattern? hof (hpatterns written hwritten rule hof)
  refine ⟨?_, hrules⟩
  have hspares : Filter.spares ⟨accept, fun _ => false, [], Exclusion.ofPatterns patterns⟩ =
      fun found => (Exclusion.ofPatterns patterns).all fun rule => !rule.hits found.path false := by
    funext found
    rw [Filter.spares, Exclusion.excludes, List.not_any_eq_all_not]
  rw [← hspares]
  exact walkFrom_eq_filter hrules hnamed []

/-- A folder with drafts, temporary files and an old subfolder. -/
def siteEntries : List (String × Tree) :=
  [("src", .folder [("drafts", .folder [("a.md", .file .empty)]), ("b.md", .file .empty),
    ("c.tmp.md", .file .empty), ("old", .folder [("d.md", .file .empty)])])]

/-- A name of folders, a pattern for file names and a whole path. -/
def sitePatterns : List (List Char) :=
  ["drafts/".toList, "*.tmp.md".toList, "/src/old".toList]

/-- Patterns of all three kinds, in a folder where each of them hits something. -/
theorem walk_pruned_sample :
    (∀ written ∈ sitePatterns, ∀ rule, Exclusion.ofPattern? written = some rule →
      (∀ c ∈ written, Glob.isWildcard c = false) ∨
        (rule.anchored = false ∧ rule.hasSlash = false)) ∧
    (Tree.folder siteEntries).Named IsName ∧
    walk { accept := fun _ => true, leftOut := [], rules := Exclusion.ofPatterns sitePatterns }
        (.folder siteEntries) =
      (walk { accept := fun _ => true, leftOut := [] } (.folder siteEntries)).filter fun found =>
        (Exclusion.ofPatterns sitePatterns).all fun rule => !rule.hits found.path false := by
  have hpatterns : ∀ written ∈ sitePatterns, ∀ rule, Exclusion.ofPattern? written = some rule →
      (∀ c ∈ written, Glob.isWildcard c = false) ∨
        (rule.anchored = false ∧ rule.hasSlash = false) := by
    have hplain : ∀ {written : List Char}, (written.all fun c => !Glob.isWildcard c) = true →
        ∀ c ∈ written, Glob.isWildcard c = false := by
      intro written h c hc
      have hnot := List.all_eq_true.mp h c hc
      rwa [Bool.not_eq_true'] at hnot
    simp only [sitePatterns, List.forall_mem_cons]
    refine ⟨fun _ _ => .inl (hplain (by decide)), fun rule hrule => .inr ?_,
      fun _ _ => .inl (hplain (by decide)), List.forall_mem_nil _⟩
    have hstar : Exclusion.ofPattern? "*.tmp.md".toList =
        some ⟨"*.tmp.md".toList, false, false, false⟩ := by decide
    rw [hstar] at hrule
    cases hrule
    exact ⟨rfl, rfl⟩
  have hfolder : ∀ name, IsName name →
      (Tree.folder [(name, .file ByteArray.empty)]).Named IsName := by
    intro name hname
    exact .folder (by simp) (by simpa using hname) (by simpa using Tree.Named.file _)
  have hnamed : (Tree.folder siteEntries).Named IsName := by
    refine .folder (by decide) (by decide) (List.forall_mem_singleton.mpr ?_)
    refine .folder (by decide) (by decide) ?_
    simp only [List.forall_mem_cons]
    exact ⟨hfolder _ (by decide), .file _, .file _, hfolder _ (by decide), List.forall_mem_nil _⟩
  exact ⟨hpatterns, hnamed, (walk_pruned hpatterns (fun _ => true) hnamed).1⟩

end Disk

end ContentCatalog
