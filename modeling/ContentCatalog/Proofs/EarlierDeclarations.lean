import ContentCatalog.Proofs.DestructuredEntries

/-!
# Declarations behind other declarations

The reader of the props looks for the first brace behind `const`, whatever object is taken apart
there, and goes on up to the assignment of the props.  So a script in front of the declaration
makes no difference as long as it takes nothing apart.  If it does, then everything from its
first such brace is read as entries: the first prop of the declaration is never found as it
stands, and what looks like an entry in front of it is found as a prop.

* `destructuringHeader?_eq_some_iff` : what counts as the header of such a declaration;
* `afterFirst?_destructuring` : the first header of a script with a declaration behind it;
* `exists_known` : which entries do not depend on what stands behind the last comma;
* `destructuredFields_behind` : the props of a declaration behind a script.
-/

namespace ContentCatalog.Source

open Text

variable {script text opened : List Char}

/-! ### Headers -/

/-- Behind `before` the script takes an object apart, and `opened` follows the brace. -/
def OpensAt (script before opened : List Char) : Prop :=
  ∃ blanks, (∀ c ∈ blanks, isSpace c = true) ∧
    script = before ++ ("const".toList ++ (blanks ++ '\x7b' :: opened))

/-- The script takes an object apart behind `before` and nowhere earlier. -/
def OpensFirst (script before opened : List Char) : Prop :=
  OpensAt script before opened ∧
    ∀ earlier other, OpensAt script earlier other → before.length ≤ earlier.length

/-- The reader notices a declaration that begins the text. -/
theorem destructuringHeader?_eq_some_iff :
    destructuringHeader? text = some opened ↔ OpensAt text [] opened := by
  rw [destructuringHeader?]
  constructor
  · intro h
    obtain ⟨rest, hconst, hbrace⟩ := Option.bind_eq_some_iff.mp h
    obtain ⟨blanks, hblanks, hrest⟩ := exists_blanks rest
    refine ⟨blanks, hblanks, ?_⟩
    rw [afterStart?_eq_some_iff.mp hconst, List.nil_append, hrest,
      afterStart?_eq_some_iff.mp hbrace]
    rfl
  · rintro ⟨blanks, hblanks, rfl⟩
    have hdark : BeginsDark ('\x7b' :: opened) := by
      intro c hc
      obtain rfl := Option.some.inj hc
      decide
    rw [List.nil_append, afterStart?_append]
    simp only [Option.bind_eq_bind, Option.bind_some, trimLeft_blanks hblanks hdark]
    exact afterStart?_append ['\x7b'] opened

/-- Behind more text the same declaration begins. -/
theorem OpensAt.append {before rest : List Char} (skipped : List Char)
    (h : OpensAt rest before opened) : OpensAt (skipped ++ rest) (skipped ++ before) opened := by
  obtain ⟨blanks, hblanks, rfl⟩ := h
  exact ⟨blanks, hblanks, by rw [List.append_assoc]⟩

/-- The first header is one, and none begins earlier. -/
theorem afterFirst?_eq_some {before : List Char} (h : OpensFirst script before opened) :
    afterFirst? destructuringHeader? script = some opened := by
  obtain ⟨⟨blanks, hblanks, rfl⟩, hfirst⟩ := h
  rw [afterFirst?_append]
  · exact afterFirst?_of_header
      (destructuringHeader?_eq_some_iff.mpr ⟨blanks, hblanks, (List.nil_append _).symm⟩)
  · rintro skipped rest rfl hne
    rw [Option.eq_none_iff_forall_ne_some]
    intro other hother
    have hopens := (destructuringHeader?_eq_some_iff.mp hother).append skipped
    rw [← List.append_assoc, List.append_nil] at hopens
    have hlength := hfirst _ _ hopens
    rw [List.length_append] at hlength
    have hpos := List.length_pos_iff.mpr hne
    omega

/-- Where no declaration begins none is found. -/
theorem afterFirst?_eq_none (h : ∀ before opened, ¬ OpensAt script before opened) :
    afterFirst? destructuringHeader? script = none := by
  rw [← List.append_nil script, afterFirst?_append]
  · rfl
  rintro skipped rest rfl hne
  rw [Option.eq_none_iff_forall_ne_some]
  intro other hother
  rw [List.append_nil] at hother
  exact h _ _ ((destructuringHeader?_eq_some_iff.mp hother).append skipped)

/-- A header that has begun is not completed by another one. -/
theorem destructuringHeader?_append (hne : text ≠ []) (more : List Char) :
    destructuringHeader? (text ++ 'c' :: more) =
      (destructuringHeader? text).map (· ++ 'c' :: more) := by
  obtain ⟨d, text, rfl⟩ := List.exists_cons_of_ne_nil hne
  have hword : "const".toList = 'c' :: "onst".toList := rfl
  have hdark : isSpace 'c' = false := by decide
  by_cases hd : 'c' = d
  · rw [destructuringHeader?, destructuringHeader?, hword, ← hd, List.cons_append, afterStart?,
      afterStart?, if_pos rfl, if_pos rfl, afterStart?_append_cons more (by decide)]
    cases afterStart? "onst".toList text with
    | none => rfl
    | some rest =>
        simp only [Option.map_some, Option.bind_eq_bind, Option.bind_some,
          trimLeft_append_cons rest more hdark]
        exact afterStart?_append_cons more (by decide)
  · simp [destructuringHeader?, hword, afterStart?, hd]

/-- **The first header** of a script with a declaration behind it is that of the script, if it has
one. -/
theorem afterFirst?_destructuring (script more : List Char) :
    afterFirst? destructuringHeader? (script ++ 'c' :: more) =
      ((afterFirst? destructuringHeader? script).map (· ++ 'c' :: more)).or
        (afterFirst? destructuringHeader? ('c' :: more)) := by
  induction script with
  | nil => rfl
  | cons d script ih =>
      have hhead := destructuringHeader?_append (List.cons_ne_nil d script) more
      rw [List.cons_append] at hhead ⊢
      rw [afterFirst?, afterFirst?, hhead, ih]
      cases destructuringHeader? (d :: script) with
      | none => simp
      | some rest => simp

/-! ### Declarations -/

/-- A declaration that takes the props apart, with that text between its braces. -/
def propsText (inner : List Char) : List Char :=
  "const \x7b".toList ++ (inner ++ "\x7d = Astro.props;".toList)

/-- The fields of the entries in a text between braces. -/
def fieldsBetween (body : List Char) : Except Number.Fault (List Field) :=
  (readEntries body).mapM fun entry => destructuringField entry.1 entry.2

/-- The statement begins with the first letter of its keyword. -/
theorem propsText_eq_cons (inner : List Char) :
    propsText inner = 'c' :: ("onst \x7b".toList ++ (inner ++ "\x7d = Astro.props;".toList)) :=
  rfl

/-- The inside of the braces is what is read up to the assignment. -/
theorem untilProps?_inner {inner : List Char} (h : '\x7d' ∉ inner) :
    untilProps? (inner ++ "\x7d = Astro.props;".toList) = some inner := by
  have hend : untilProps? "\x7d = Astro.props;".toList = some [] := by decide
  rw [passes_of_not_mem h, hend, Option.map_some, List.append_nil]

/-- The statement alone is found as it stands. -/
theorem afterFirst?_propsText (inner : List Char) :
    afterFirst? destructuringHeader? (propsText inner) =
      some (inner ++ "\x7d = Astro.props;".toList) :=
  afterFirst?_of_header (destructuringHeader?_eq_some_iff.mpr ⟨[' '], isSpace_blank, rfl⟩)

/-- A declaration on its own has the fields of what stands between its braces. -/
theorem destructuredFields_propsText {inner : List Char} (h : '\x7d' ∉ inner) :
    destructuredFields (propsText inner) = fieldsBetween inner := by
  rw [destructuredFields, afterFirst?_propsText, Option.bind_some, untilProps?_inner h]
  rfl

/-- Where the props are not named, nothing closes their declaration. -/
theorem not_closes_of_occurs (h : occurs "Astro.props".toList script = false) {before : List Char}
    (hopens : OpensAt script before opened) : ¬ Closes opened := by
  rintro ⟨front, after, rfl, blanks, others, rest, -, -, rfl⟩
  obtain ⟨spaces, -, rfl⟩ := hopens
  rw [← Bool.not_eq_true, occurs_iff] at h
  apply h
  exact ⟨before ++ ("const".toList ++ (spaces ++ '\x7b' :: (front ++ '\x7d' ::
    (blanks ++ '=' :: others)))), rest, by simp⟩

/-- **Behind a header of the script** all is read as entries, up to the brace that closes the
declaration. -/
theorem destructuredFields_of_opensFirst (h : occurs "Astro.props".toList script = false)
    {before : List Char} (hopens : OpensFirst script before opened) {inner : List Char}
    (hinner : '\x7d' ∉ inner) :
    destructuredFields (script ++ propsText inner) =
      fieldsBetween (opened ++ ("const \x7b".toList ++ inner)) := by
  have hbarrier : IsBarrier 'c' := ⟨by decide, by decide, by decide⟩
  have hword : '\x7d' ∉ "const \x7b".toList ++ inner := by
    rw [List.mem_append, not_or]
    exact ⟨by decide, hinner⟩
  have hwhole : propsText inner =
      ("const \x7b".toList ++ inner) ++ "\x7d = Astro.props;".toList :=
    (List.append_assoc _ _ _).symm
  have huntil : untilProps? (opened ++ propsText inner) =
      some (opened ++ ("const \x7b".toList ++ inner)) := by
    have hskip := untilProps?_barrier ("onst \x7b".toList ++ (inner ++ "\x7d = Astro.props;".toList))
      (not_closes_of_occurs h hopens.1) hbarrier
    rw [← propsText_eq_cons] at hskip
    rw [hskip, hwhole, untilProps?_inner hword, Option.map_some]
  have hheader := afterFirst?_destructuring script
    ("onst \x7b".toList ++ (inner ++ "\x7d = Astro.props;".toList))
  rw [← propsText_eq_cons, afterFirst?_eq_some hopens, Option.map_some, Option.some_or] at hheader
  rw [destructuredFields, hheader, Option.bind_some, huntil]
  rfl

/-- Without a header in the script only the declaration is read. -/
theorem destructuredFields_of_not_opens (h : ∀ before opened, ¬ OpensAt script before opened)
    (inner : List Char) :
    destructuredFields (script ++ propsText inner) = destructuredFields (propsText inner) := by
  rw [destructuredFields, destructuredFields, propsText_eq_cons, afterFirst?_destructuring,
    afterFirst?_eq_none h, Option.map_none, Option.none_or]

/-! ### What is lost -/

/-- **Entries up to the last comma** do not depend on what follows. -/
theorem exists_known (opened : List Char) :
    ∃ known last, ',' ∉ last ∧ ∀ text, readEntries (opened ++ text) =
      known ++ readEntries (last ++ text) := by
  rcases not_mem_or_last ',' opened with hcomma | ⟨before, last, rfl, hlast⟩
  · exact ⟨[], opened, hcomma, fun text => rfl⟩
  · refine ⟨readEntries before, last, hlast, fun text => ?_⟩
    rw [List.append_assoc, List.cons_append, readEntries_append]

/-- An entry with a brace in front of it is no name on its own. -/
theorem default_ne_none_of_brace (hcomma : ',' ∉ text) (hbrace : '\x7b' ∈ text)
    {entry : List Char × Option (List Char)} (h : entry ∈ readEntries text) :
    entry.2 ≠ none := by
  rw [readEntries, segments_of_not_mem hcomma, List.map_singleton] at h
  obtain ⟨piece, hpiece, hentry⟩ := List.mem_filterMap.mp h
  obtain rfl := List.mem_singleton.mp hpiece
  obtain ⟨⟨name, rest⟩, hname, hentry⟩ := Option.bind_eq_some_iff.mp hentry
  simp only at hentry
  split at hentry
  · next hblank =>
      -- A name and white space would be the whole piece, and neither holds a brace.
      have hmem : '\x7b' ∈ name ++ rest := by
        rw [identifier?_append hname]
        exact mem_strip hbrace (by decide)
      rcases List.mem_append.mp hmem with hmem | hmem
      · exact absurd hmem ((isIdentifier_of_identifier? hname).not_mem (by decide))
      · have hspace := (trimLeft_eq_nil_iff isSpace rest).mp hblank _ hmem
        exact absurd hspace (by decide)
  · split at hentry
    · cases hentry
    · rw [← Option.some.inj hentry]
      exact Option.some_ne_none _
  · cases hentry

/-- There is always one more identifier. -/
theorem exists_new_identifier (names : List (List Char)) :
    ∃ name, IsIdentifier name ∧ name ∉ names := by
  have hbound : ∃ n, ∀ name ∈ names, name.length ≤ n := by
    induction names with
    | nil => exact ⟨0, List.forall_mem_nil _⟩
    | cons name names ih =>
        obtain ⟨n, hn⟩ := ih
        refine ⟨max name.length n, List.forall_mem_cons.mpr ⟨Nat.le_max_left _ _, ?_⟩⟩
        exact fun other hother => Nat.le_trans (hn other hother) (Nat.le_max_right _ _)
  obtain ⟨n, hn⟩ := hbound
  refine ⟨'a' :: List.replicate n 'a', ⟨'a', _, rfl, by decide, fun c hc => ?_⟩, fun hm => ?_⟩
  · rw [(List.mem_replicate.mp hc).2]
    decide
  · have hlength := hn _ hm
    rw [List.length_cons, List.length_replicate] at hlength
    omega

/-- The field of a single name. -/
def plainField (name : List Char) : Field :=
  { key := String.ofList name, type := "unknown", required := false, source := some "astro" }

/-- Only a name without a default has the field of a single name. -/
theorem eq_of_destructuringField {key name : List Char} {default : Option (List Char)}
    (h : destructuringField key default = .ok (plainField name)) : key = name ∧ default = none := by
  cases default with
  | none =>
      have hkey := congrArg Field.key (Except.ok.inj h)
      exact ⟨String.ofList_injective hkey, rfl⟩
  | some text =>
      obtain ⟨⟨value, type⟩, -, hfield⟩ := bind_eq_ok_iff.mp h
      have hnone := congrArg Field.default (Except.ok.inj hfield)
      cases hnone

/-- A single name in braces. -/
theorem fieldsBetween_name {name : List Char} (h : IsIdentifier name) :
    fieldsBetween (' ' :: (name ++ [' '])) = .ok [plainField name] := by
  have hcomma : ',' ∉ ' ' :: (name ++ [' ']) := by
    have hname : ',' ∉ name := h.not_mem (by decide)
    simp [hname]
  have hstrip : strip (' ' :: (name ++ [' '])) = name :=
    strip_between isSpace_blank h.isStripped isSpace_blank
  have hplain : destructuringEntry? (entryText name none) = some (name, none) :=
    destructuringEntry?_entryText h (by simp)
  have hentry : destructuringEntry? (strip (' ' :: (name ++ [' ']))) = some (name, none) :=
    (congrArg destructuringEntry? hstrip).trans hplain
  rw [fieldsBetween, readEntries_single hcomma hentry]
  rfl

/-- **A header in the script hides props**: some single name behind it is not found. -/
theorem exists_hidden (opened : List Char) :
    ∃ name, IsIdentifier name ∧
      fieldsBetween (opened ++ ("const \x7b".toList ++ ' ' :: (name ++ [' ']))) ≠
        fieldsBetween (' ' :: (name ++ [' '])) := by
  obtain ⟨known, last, hlast, hknown⟩ := exists_known opened
  obtain ⟨name, hname, hnew⟩ := exists_new_identifier (known.map Prod.fst)
  refine ⟨name, hname, fun heq => ?_⟩
  rw [fieldsBetween_name hname, fieldsBetween, hknown, mapM_eq_ok_iff] at heq
  obtain ⟨⟨key, default⟩, others, hfield, -, hentries⟩ := List.forall₂_cons_right_iff.mp heq
  obtain ⟨rfl, rfl⟩ := eq_of_destructuringField hfield
  have hmem : (key, none) ∈ known ++ readEntries (last ++ ("const \x7b".toList ++
      ' ' :: (key ++ [' ']))) := by
    rw [hentries]
    exact List.mem_cons_self
  rcases List.mem_append.mp hmem with hmem | hmem
  · exact hnew (List.mem_map_of_mem hmem)
  · have hcomma : ',' ∉ last ++ ("const \x7b".toList ++ ' ' :: (key ++ [' '])) := by
      have hnot : ',' ∉ key := hname.not_mem (by decide)
      simp [hlast, hnot]
    exact default_ne_none_of_brace hcomma (by simp) hmem rfl

/-- If anything is taken apart, something is taken apart first. -/
theorem exists_opensFirst {before : List Char} (h : OpensAt script before opened) :
    ∃ first rest, OpensFirst script first rest := by
  classical
  have hsome : ∃ n, ∃ first rest, OpensAt script first rest ∧ first.length = n :=
    ⟨_, before, opened, h, rfl⟩
  obtain ⟨first, rest, hopens, hlength⟩ := Nat.find_spec hsome
  refine ⟨first, rest, hopens, fun earlier other hother => ?_⟩
  rw [hlength]
  exact Nat.find_min' hsome ⟨earlier, other, hother, rfl⟩

/-- **Props behind a script** that does not name them.  The script makes no difference to any
declaration behind it exactly if it takes nothing apart itself.  Otherwise all from its first
opening brace on is read as entries, up to the end of the declaration, and there is a declaration
of a single name that is not found. -/
theorem destructuredFields_behind (h : occurs "Astro.props".toList script = false) :
    ((∀ inner, '\x7b' ∉ inner → '\x7d' ∉ inner →
        destructuredFields (script ++ propsText inner) = destructuredFields (propsText inner)) ↔
      ∀ before opened, ¬ OpensAt script before opened) ∧
    ∀ before opened, OpensFirst script before opened →
      (∀ inner, '\x7b' ∉ inner → '\x7d' ∉ inner →
        destructuredFields (script ++ propsText inner) =
          fieldsBetween (opened ++ ("const \x7b".toList ++ inner))) ∧
      ∃ name, IsIdentifier name ∧
        destructuredFields (script ++ propsText (' ' :: (name ++ [' ']))) ≠
          destructuredFields (propsText (' ' :: (name ++ [' ']))) := by
  have hhidden : ∀ before opened, OpensFirst script before opened →
      ∃ name, IsIdentifier name ∧
        destructuredFields (script ++ propsText (' ' :: (name ++ [' ']))) ≠
          destructuredFields (propsText (' ' :: (name ++ [' ']))) := by
    intro before opened hopens
    obtain ⟨name, hname, hne⟩ := exists_hidden opened
    have hbrace : '\x7d' ∉ ' ' :: (name ++ [' ']) := by
      have hnot : '\x7d' ∉ name := hname.not_mem (by decide)
      simp [hnot]
    refine ⟨name, hname, ?_⟩
    rwa [destructuredFields_of_opensFirst h hopens hbrace, destructuredFields_propsText hbrace]
  refine ⟨⟨?_, ?_⟩, ?_⟩
  · intro hsame before opened hopens
    obtain ⟨first, rest, hfirst⟩ := exists_opensFirst hopens
    obtain ⟨name, hname, hne⟩ := hhidden first rest hfirst
    refine hne (hsame _ ?_ ?_)
    · simp [hname.not_mem (c := '\x7b') (by decide)]
    · simp [hname.not_mem (c := '\x7d') (by decide)]
  · exact fun hnone inner _ _ => destructuredFields_of_not_opens hnone inner
  · intro before opened hopens
    exact ⟨fun inner _ hinner => destructuredFields_of_opensFirst h hopens hinner,
      hhidden before opened hopens⟩

/-- A script that takes another object apart. -/
def otherScript : List Char := "const \x7b x, y \x7d = Other.value;\n".toList

/-- Behind another declaration the names of that one are taken for the props. -/
theorem destructuredFields_behind_sample :
    occurs "Astro.props".toList otherScript = false ∧
    OpensFirst otherScript [] " x, y \x7d = Other.value;\n".toList ∧
    destructuredFields (otherScript ++ propsText " title ".toList) =
      .ok [{ key := "x", type := "unknown", required := false, source := some "astro" }] ∧
    destructuredFields (propsText " title ".toList) =
      .ok [{ key := "title", type := "unknown", required := false, source := some "astro" }] := by
  have hprops : occurs "Astro.props".toList otherScript = false := by decide
  have hopens : OpensFirst otherScript [] " x, y \x7d = Other.value;\n".toList :=
    ⟨⟨[' '], isSpace_blank, rfl⟩, fun earlier _ _ => Nat.zero_le earlier.length⟩
  obtain ⟨hread, -⟩ := (destructuredFields_behind hprops).2 _ _ hopens
  refine ⟨hprops, hopens, ?_, ?_⟩
  · exact (hread " title ".toList (by decide) (by decide)).trans rfl
  · exact (destructuredFields_propsText (by decide)).trans rfl

end ContentCatalog.Source
