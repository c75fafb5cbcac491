import ContentCatalog.Proofs.PrintedScalars

/-!
# Printed documents are read back

A printed document is read as itself, except that members of one name are merged: the
reader keeps one of them, in the place of the first and with the value of the last.

Each part of a document ends where a comma or a line feed follows, and the first
character of a part tells its kind.  The fuel of the readers is twice the length of the
text, and each of them hands on enough of it.

* `merged` : the document that is read;
* `arrayItems_lines`, `objectMembers_lines` : the lines of a container;
* `readsBack_renderAt` : every part of a document, at every level;
* `read_render` : whole documents;
* `ReadsBack.cancel`, `enclosed_cancel` : parts from the text of what they stand in;
* `render_injective` : different documents have different texts.
-/

namespace ContentCatalog.Json

open Number

/-! ### The document that is read -/

mutual

/-- The document with the members of one name merged in all of its objects. -/
def merged : Json → Json
  | .array items => .array (mergedItems items)
  | .object members => objectOf (mergedMembers members)
  | part => part

/-- The items with the members of one name merged in all of their objects. -/
def mergedItems : List Json → List Json
  | [] => []
  | item :: items => merged item :: mergedItems items

/-- The members with the members of one name merged in all of their values. -/
def mergedMembers : List (String × Json) → List (String × Json)
  | [] => []
  | (name, value) :: members => (name, merged value) :: mergedMembers members

end

/-- Items are merged one by one. -/
theorem mergedItems_eq_map (items : List Json) : mergedItems items = items.map merged := by
  induction items with
  | nil => rfl
  | cons item items ih => rw [mergedItems, ih, List.map_cons]

theorem mergedMembers_eq_map (members : List (String × Json)) :
    mergedMembers members = members.map fun member => (member.1, merged member.2) := by
  induction members with
  | nil => rfl
  | cons member members ih => rw [mergedMembers, ih, List.map_cons]

theorem renderItems_eq_map (level : Nat) (items : List Json) :
    renderItems level items = items.map (renderAt level) := by
  induction items with
  | nil => rfl
  | cons item items ih => rw [renderItems, ih, List.map_cons]

/-- So are members, the name and a colon in front of each value. -/
theorem renderMembers_eq_map (level : Nat) (members : List (String × Json)) :
    renderMembers level members =
      members.map fun member => quoted member.1 ++ ": " ++ renderAt level member.2 := by
  induction members with
  | nil => rfl
  | cons member members ih => rw [renderMembers, ih, List.map_cons]

/-- The document has numbers that can be read: whole ones of not too many digits, and
doubles in the form that rounding gives. -/
inductive Writable : Json → Prop
  | null : Writable .null
  | bool (b : Bool) : Writable (.bool b)
  | int (i : Int) (short : i.natAbs < tenTo digitLimit) : Writable (.int i)
  | float (x : Double) (proper : x.IsProper) : Writable (.float x)
  | text (s : String) : Writable (.text s)
  | array (items : List Json) (parts : ∀ item ∈ items, Writable item) : Writable (.array items)
  | object (members : List (String × Json)) (parts : ∀ member ∈ members, Writable member.2) :
      Writable (.object members)

/-! ### Line breaks -/

/-- A new line begins with two spaces for each level. -/
theorem toList_newLine (level : Nat) :
    (newLine level).toList = '\n' :: List.replicate (2 * level) ' ' := by
  rw [newLine, String.toList_append]
  exact congrArg ('\n' :: ·) String.toList_ofList

/-- The reader passes over a new line. -/
theorem skipBlank_newLine (level : Nat) (rest : List Char) :
    skipBlank ((newLine level).toList ++ rest) = skipBlank rest := by
  refine List.dropWhile_append_of_pos ?_
  intro c hc
  rw [toList_newLine] at hc
  rcases List.mem_cons.mp hc with rfl | hspace
  · rfl
  · rw [(List.mem_replicate.mp hspace).2]
    rfl

/-- A new line can follow a scalar. -/
theorem follows_newLine (level : Nat) (rest : List Char) :
    Follows ((newLine level).toList ++ rest) := by
  rw [toList_newLine]
  exact ⟨'\n', _, rfl, .inr rfl⟩

theorem follows_comma (rest : List Char) : Follows (',' :: rest) :=
  ⟨',', rest, rfl, .inl rfl⟩

/-! ### Parts of a document -/

/-- A line of which the first character is not blank. -/
def IsLine (line : List Char) : Prop :=
  ∃ c tail, line = c :: tail ∧ isBlank c = false

/-- The text is read as the value, whatever of a document follows it. -/
structure ReadsBack (text : List Char) (value : Json) : Prop where
  /-- The text can be told from what closes a container. -/
  opens : ∃ c tail, text = c :: tail ∧ isBlank c = false ∧ c ≠ ']' ∧ c ≠ '\uFEFF'
  reads : ∀ {fuel : Nat} {rest : List Char}, 2 * text.length ≤ fuel → Follows rest →
    document fuel (text ++ rest) = .ok (value, rest)

/-- A text that is read back begins with no blank. -/
theorem ReadsBack.isLine {text : List Char} {value : Json} (h : ReadsBack text value) :
    IsLine text := by
  obtain ⟨c, tail, heq, hblank, -⟩ := h.opens
  exact ⟨c, tail, heq, hblank⟩

/-- A text that begins with a character that is no blank and closes no container is read
in one step. -/
theorem ReadsBack.of_step {c : Char} {tail : List Char} {value : Json}
    (hopens : isBlank c = false ∧ c ≠ ']' ∧ c ≠ '\uFEFF')
    (hreads : ∀ {fuel : Nat} {rest : List Char}, 2 * tail.length + 1 ≤ fuel → Follows rest →
      document (fuel + 1) (c :: (tail ++ rest)) = .ok (value, rest)) :
    ReadsBack (c :: tail) value := by
  refine ⟨⟨c, tail, rfl, hopens⟩, ?_⟩
  intro fuel rest hfuel hrest
  rw [List.length_cons] at hfuel
  obtain ⟨fuel, rfl⟩ := Nat.exists_eq_succ_of_ne_zero (by omega : fuel ≠ 0)
  exact hreads (by omega) hrest

/-- Words and numbers. -/
theorem readsBack_scalar {text : List Char} {value : Json} (h : ScalarText text value) :
    ReadsBack text value := by
  obtain ⟨⟨c, tail, rfl, hmarks, hblank⟩, hscalar⟩ := h
  simp only [List.mem_cons, List.not_mem_nil, or_false, not_or] at hmarks
  obtain ⟨hquote, hbrace, hbracket, hclosing, hmark⟩ := hmarks
  refine .of_step ⟨hblank, hclosing, hmark⟩ ?_
  intro fuel rest _ hrest
  rw [document, if_neg (by simpa using hquote), if_neg (by simpa using hbrace),
    if_neg (by simpa using hbracket), ← List.cons_append, hscalar rest hrest]

/-- A quoted text is read back. -/
theorem readsBack_text (s : String) : ReadsBack (quoted s).toList (.text s) := by
  rw [toList_quoted]
  refine .of_step (by decide) ?_
  intro fuel rest _ _
  rw [document, if_pos (by decide), List.append_assoc, List.singleton_append, quotedText_quoted]
  rfl

/-! ### Containers -/

/-- The lines of a container, with a comma and a line break between each two. -/
def lined (level : Nat) (lines : List (List Char)) : List Char :=
  List.intercalate (',' :: (newLine level).toList) lines

theorem lined_single (level : Nat) (line : List Char) : lined level [line] = line :=
  List.intercalate_singleton

/-- Behind each line but the last one there is a comma and a new line. -/
theorem lined_cons (level : Nat) (line next : List Char) (lines : List (List Char)) :
    lined level (line :: next :: lines) =
      line ++ ',' :: ((newLine level).toList ++ lined level (next :: lines)) := by
  rw [lined, List.intercalate_cons_cons, List.append_assoc, List.cons_append]
  rfl

/-- The reader goes on with the first line. -/
theorem skipBlank_lined (level inner : Nat) {line : List Char} (h : IsLine line)
    (lines : List (List Char)) (rest : List Char) :
    skipBlank ((newLine level).toList ++ (lined inner (line :: lines) ++ rest)) =
      lined inner (line :: lines) ++ rest := by
  obtain ⟨c, tail, rfl, hblank⟩ := h
  rw [skipBlank_newLine]
  cases lines with
  | nil => rw [lined_single, List.cons_append, skipBlank_cons _ hblank]
  | cons next lines => rw [lined_cons, List.cons_append, List.cons_append, skipBlank_cons _ hblank]

/-- **The items of an array** are read up to the closing bracket. -/
theorem arrayItems_lines {texts : List (List Char)} {values : List Json}
    (h : List.Forall₂ ReadsBack texts values) (hne : texts ≠ []) {fuel inner level : Nat}
    {rest : List Char} (hfuel : 2 * (lined inner texts).length + 1 ≤ fuel) :
    arrayItems fuel (lined inner texts ++ ((newLine level).toList ++ ']' :: rest)) =
      .ok (values, rest) := by
  induction h generalizing fuel with
  | nil => exact absurd rfl hne
  | @cons text value texts values hfirst hothers ih =>
      obtain ⟨fuel, rfl⟩ := Nat.exists_eq_succ_of_ne_zero (by omega : fuel ≠ 0)
      rw [arrayItems]
      -- The last item is followed by a line break, every other one by a comma.
      cases hothers with
      | nil =>
          rw [lined_single] at hfuel ⊢
          rw [hfirst.reads (by omega) (follows_newLine _ _)]
          simp only [bind, Except.bind]
          rw [skipBlank_newLine, skipBlank_cons _ (by decide)]
          rfl
      | @cons next nextValue others otherValues hnext htail =>
          rw [lined_cons] at hfuel ⊢
          simp only [List.length_append, List.length_cons] at hfuel
          have hrest : arrayItems fuel (lined inner (next :: others) ++
              ((newLine level).toList ++ ']' :: rest)) = .ok (nextValue :: otherValues, rest) :=
            ih (List.cons_ne_nil _ _) (by omega)
          rw [List.append_assoc, List.cons_append, List.append_assoc,
            hfirst.reads (by omega) (follows_comma _)]
          simp only [bind, Except.bind]
          rw [skipBlank_cons _ (by decide)]
          simp only [skipBlank_lined _ _ hnext.isLine, hrest]
          rfl

/-- The text of a member of an object. -/
def memberText (name : String) (value : List Char) : List Char :=
  (quoted name).toList ++ ':' :: ' ' :: value

/-- The text is a member's, and its value is read back. -/
def MemberReadsBack (text : List Char) (member : String × Json) : Prop :=
  ∃ value, text = memberText member.1 value ∧ ReadsBack value member.2

/-- The text of a member is its name between quotes, a colon, a space and its value. -/
theorem memberText_eq (name : String) (value rest : List Char) :
    memberText name value ++ rest =
      '\x22' :: (name.toList.flatMap escaped ++ '\x22' :: ':' :: ' ' :: (value ++ rest)) := by
  rw [memberText, toList_quoted]
  simp only [List.cons_append, List.append_assoc, List.nil_append]

theorem isLine_memberText (name : String) (value : List Char) : IsLine (memberText name value) := by
  have h := memberText_eq name value []
  rw [List.append_nil] at h
  exact ⟨_, _, h, rfl⟩

/-- And it is no shorter than its value. -/
theorem length_le_memberText (name : String) (value : List Char) :
    value.length ≤ (memberText name value).length := by
  rw [memberText, List.length_append, List.length_cons, List.length_cons]
  omega

/-- **The members of an object** are read up to the closing brace. -/
theorem objectMembers_lines {texts : List (List Char)} {members : List (String × Json)}
    (h : List.Forall₂ MemberReadsBack texts members) (hne : texts ≠ []) {fuel inner level : Nat}
    {rest : List Char} (hfuel : 2 * (lined inner texts).length + 1 ≤ fuel) :
    objectMembers fuel (lined inner texts ++ ((newLine level).toList ++ '\x7d' :: rest)) =
      .ok (members, rest) := by
  induction h generalizing fuel with
  | nil => exact absurd rfl hne
  | @cons text member texts members hfirst hothers ih =>
      obtain ⟨fuel, rfl⟩ := Nat.exists_eq_succ_of_ne_zero (by omega : fuel ≠ 0)
      obtain ⟨value, rfl, hvalue⟩ := hfirst
      obtain ⟨c, tail, hopens, hblank, -⟩ := hvalue.opens
      have hlength := length_le_memberText member.1 value
      have hskip : ∀ more, skipBlank (' ' :: (value ++ more)) = value ++ more := by
        intro more
        rw [hopens]
        exact skipBlank_cons (tail ++ more) hblank
      cases hothers with
      | nil =>
          rw [lined_single] at hfuel ⊢
          rw [memberText_eq, objectMembers, quotedText_quoted]
          simp only [bind, Except.bind]
          rw [skipBlank_cons _ (by decide)]
          simp only [hskip]
          rw [hvalue.reads (by omega) (follows_newLine _ _)]
          simp only [skipBlank_newLine, skipBlank_cons _ (show isBlank '\x7d' = false by decide)]
          rfl
      | @cons next nextMember others otherMembers hnext htail =>
          obtain ⟨nextValue, rfl, -⟩ := hnext
          rw [lined_cons] at hfuel ⊢
          simp only [List.length_append, List.length_cons] at hfuel
          have hrest : objectMembers fuel (lined inner (memberText nextMember.1 nextValue :: others) ++
              ((newLine level).toList ++ '\x7d' :: rest)) =
                .ok (nextMember :: otherMembers, rest) :=
            ih (List.cons_ne_nil _ _) (by omega)
          rw [List.append_assoc, List.cons_append, List.append_assoc, memberText_eq, objectMembers,
            quotedText_quoted]
          simp only [bind, Except.bind]
          rw [skipBlank_cons _ (by decide)]
          simp only [hskip]
          rw [hvalue.reads (by omega) (follows_comma _)]
          simp only [skipBlank_cons _ (show isBlank ',' = false by decide),
            skipBlank_lined _ _ (isLine_memberText _ _), hrest]
          rfl

/-- The first line begins as its text does. -/
theorem exists_lined (inner : Nat) (line : List Char) (lines : List (List Char)) :
    ∃ more, lined inner (line :: lines) = line ++ more := by
  cases lines with
  | nil => exact ⟨[], by rw [lined_single, List.append_nil]⟩
  | cons next lines => exact ⟨_, lined_cons inner line next lines⟩

/-- The lines of a container between line breaks, with the closing bracket. -/
def closed (level : Nat) (lines : List (List Char)) (closing : Char) : List Char :=
  (newLine (level + 1)).toList ++ (lined (level + 1) lines ++ ((newLine level).toList ++ [closing]))

/-- What follows a container stands behind its closing bracket. -/
theorem closed_append (level : Nat) (lines : List (List Char)) (closing : Char)
    (rest : List Char) :
    closed level lines closing ++ rest =
      (newLine (level + 1)).toList ++
        (lined (level + 1) lines ++ ((newLine level).toList ++ closing :: rest)) := by
  simp only [closed, List.append_assoc, List.singleton_append]

/-- A container is longer than its lines. -/
theorem length_lined_lt_closed (level : Nat) (lines : List (List Char)) (closing : Char) :
    (lined (level + 1) lines).length < (closed level lines closing).length := by
  simp only [closed, List.length_append, List.length_singleton]
  omega

/-- The text of a container. -/
theorem toList_enclosed (level : Nat) (lines : List String) {opening closing : String}
    {o c : Char} (ho : opening.toList = [o]) (hc : closing.toList = [c]) :
    (enclosed level opening closing lines).toList =
      if lines = [] then [o, c] else o :: closed level (lines.map String.toList) c := by
  cases lines with
  | nil =>
      show (opening ++ closing).toList = [o, c]
      rw [String.toList_append, ho, hc]
      rfl
  | cons line lines =>
      rw [enclosed, if_neg (by simp), if_neg (List.cons_ne_nil _ _)]
      simp only [String.toList_append, String.toList_intercalate, ho, hc, List.append_assoc]
      rfl

/-- An array is read back if its items are. -/
theorem readsBack_array (level : Nat) {texts : List (List Char)} {values : List Json}
    (h : List.Forall₂ ReadsBack texts values) (hne : texts ≠ []) :
    ReadsBack ('[' :: closed level texts ']') (.array values) := by
  refine .of_step (by decide) ?_
  intro fuel rest hfuel _
  have hlength := length_lined_lt_closed level texts ']'
  have hitems : arrayItems fuel (lined (level + 1) texts ++
      ((newLine level).toList ++ ']' :: rest)) = .ok (values, rest) :=
    arrayItems_lines h hne (by omega)
  cases h with
  | nil => exact absurd rfl hne
  | @cons text value texts values hfirst hothers =>
      rw [document, if_neg (by decide), if_neg (by decide), if_pos (by decide), closed_append,
        skipBlank_lined _ _ hfirst.isLine]
      obtain ⟨c, tail, hopens, -, hclosing, -⟩ := hfirst.opens
      obtain ⟨more, hmore⟩ := exists_lined (level + 1) text texts
      -- The first item does not begin like the end of an empty array.
      split
      · next heq =>
          rw [hmore, hopens] at heq
          exact absurd (List.cons.inj heq).1 hclosing
      · rw [hitems]
        rfl

/-- An object is read back, its members merged, if the values of its members are. -/
theorem readsBack_object (level : Nat) {texts : List (List Char)} {members : List (String × Json)}
    (h : List.Forall₂ MemberReadsBack texts members) (hne : texts ≠ []) :
    ReadsBack ('\x7b' :: closed level texts '\x7d') (objectOf members) := by
  refine .of_step (by decide) ?_
  intro fuel rest hfuel _
  have hlength := length_lined_lt_closed level texts '\x7d'
  have hmembers : objectMembers fuel (lined (level + 1) texts ++
      ((newLine level).toList ++ '\x7d' :: rest)) = .ok (members, rest) :=
    objectMembers_lines h hne (by omega)
  cases h with
  | nil => exact absurd rfl hne
  | @cons text member texts members hfirst hothers =>
      obtain ⟨value, rfl, -⟩ := hfirst
      rw [document, if_neg (by decide), if_pos (by decide), closed_append,
        skipBlank_lined _ _ (isLine_memberText _ _)]
      obtain ⟨more, hmore⟩ := exists_lined (level + 1) (memberText member.1 value) texts
      split
      · next heq =>
          rw [hmore, List.append_assoc, memberText_eq] at heq
          exact absurd (List.cons.inj heq).1 (by decide)
      · rw [hmembers]
        rfl

/-! ### Documents -/

/-- **Every part of a document is read back**, at every level. -/
theorem readsBack_renderAt {j : Json} (h : Writable j) (level : Nat) :
    ReadsBack (renderAt level j).toList (merged j) := by
  induction h generalizing level with
  | null => exact readsBack_scalar (scalar_word "null".toList .null (by simp [words]))
  | bool b =>
      cases b with
      | true => exact readsBack_scalar (scalar_word "true".toList (.bool true) (by simp [words]))
      | false => exact readsBack_scalar (scalar_word "false".toList (.bool false) (by simp [words]))
  | int i hshort => exact readsBack_scalar (scalar_int hshort)
  | float x hproper => exact readsBack_scalar (scalar_float hproper)
  | text s => exact readsBack_text s
  | array items _ ih =>
      rw [renderAt, merged, renderItems_eq_map, mergedItems_eq_map,
        toList_enclosed level _ (o := '[') (c := ']') rfl rfl]
      by_cases hempty : items = []
      · rw [hempty]
        exact .of_step (by decide) fun _ _ => rfl
      · rw [if_neg (by simpa using hempty)]
        refine readsBack_array level ?_ (by simpa using hempty)
        rw [List.map_map, List.forall₂_map_left_iff, List.forall₂_map_right_iff, List.forall₂_same]
        exact fun item hitem => ih item hitem _
  | object members _ ih =>
      rw [renderAt, merged, renderMembers_eq_map, mergedMembers_eq_map,
        toList_enclosed level _ (o := '\x7b') (c := '\x7d') rfl rfl]
      by_cases hempty : members = []
      · rw [hempty]
        exact .of_step (by decide) fun _ _ => rfl
      · rw [if_neg (by simpa using hempty)]
        refine readsBack_object level ?_ (by simpa using hempty)
        rw [List.map_map, List.forall₂_map_left_iff, List.forall₂_map_right_iff, List.forall₂_same]
        intro member hmember
        refine ⟨_, ?_, ih member hmember (level + 1)⟩
        simp only [Function.comp, String.toList_append, memberText, List.append_assoc]
        rfl

/-- **A printed document is read back**, the members of one name merged. -/
theorem read_render {j : Json} (h : Writable j) : read (render j).toList = .ok (merged j) := by
  have hparts := readsBack_renderAt h 0
  obtain ⟨c, tail, hopens, hblank, -, hmark⟩ := hparts.opens
  have htext : (render j).toList = (renderAt 0 j).toList ++ ['\n'] := String.toList_append
  have hdocument : wholeDocument (c :: (tail ++ ['\n'])) = .ok (merged j) := by
    rw [wholeDocument]
    · rw [skipBlank_cons _ hblank, ← List.cons_append, ← hopens,
        hparts.reads (by rw [List.length_append]; omega) ⟨'\n', [], rfl, .inr rfl⟩]
      rfl
    · intro rest heq
      exact hmark (List.cons.inj heq).1
  rw [read, htext, hopens, List.cons_append, hdocument]

/-! ### One text, one document -/

/-- **Texts of documents in front** are told from what follows them. -/
theorem ReadsBack.cancel {text other r s : List Char} {value otherValue : Json}
    (h : ReadsBack text value) (hother : ReadsBack other otherValue) (hr : Follows r)
    (hs : Follows s) (heq : text ++ r = other ++ s) :
    text = other ∧ value = otherValue ∧ r = s := by
  have hread : document (2 * text.length + 2 * other.length) (text ++ r) = .ok (value, r) :=
    h.reads (by omega) hr
  rw [heq, hother.reads (by omega) hs] at hread
  obtain ⟨hvalue, hrest⟩ := Prod.mk.inj (Except.ok.inj hread)
  rw [hrest] at heq
  exact ⟨List.append_cancel_right heq, hvalue.symm, hrest.symm⟩

section

variable {α : Type} {text : α → List Char}

/-- **Lines** from the text of a container, if each is told from what follows it. -/
theorem lined_cancel {as bs : List α} {inner level : Nat} {rest : List Char}
    (hcancel : ∀ a ∈ as, ∀ b ∈ bs, ∀ r s, Follows r → Follows s → text a ++ r = text b ++ s →
      a = b ∧ r = s)
    (ha : as ≠ []) (hb : bs ≠ [])
    (h : lined inner (as.map text) ++ ((newLine level).toList ++ rest) =
      lined inner (bs.map text) ++ ((newLine level).toList ++ rest)) : as = bs := by
  have hbreak : ∀ more, (newLine level).toList ++ rest ≠ ',' :: more := by
    intro more heq
    rw [toList_newLine] at heq
    exact absurd (List.cons.inj heq).1 (by decide)
  have hend := follows_newLine level rest
  induction as generalizing bs with
  | nil => exact absurd rfl ha
  | cons a as ih =>
      cases bs with
      | nil => exact absurd rfl hb
      | cons b bs =>
          have hfirst := hcancel a List.mem_cons_self b List.mem_cons_self
          cases as with
          | nil =>
              cases bs with
              | nil =>
                  simp only [List.map_cons, List.map_nil, lined_single] at h
                  rw [(hfirst _ _ hend hend h).1]
              | cons next bs =>
                  simp only [List.map_cons, List.map_nil, lined_single, lined_cons,
                    List.append_assoc, List.cons_append] at h
                  exact absurd (hfirst _ _ hend (follows_comma _) h).2 (hbreak _)
          | cons next as =>
              cases bs with
              | nil =>
                  simp only [List.map_cons, List.map_nil, lined_single, lined_cons,
                    List.append_assoc, List.cons_append] at h
                  exact absurd (hfirst _ _ (follows_comma _) hend h).2.symm (hbreak _)
              | cons other bs =>
                  simp only [List.map_cons, lined_cons, List.append_assoc, List.cons_append] at h
                  obtain ⟨rfl, hrest⟩ := hfirst _ _ (follows_comma _) (follows_comma _) h
                  have hlines := List.append_cancel_left (List.cons.inj hrest).2
                  have hothers : next :: as = other :: bs :=
                    ih (fun c hc d hd => hcancel c (List.mem_cons_of_mem _ hc) d
                      (List.mem_cons_of_mem _ hd)) (List.cons_ne_nil _ _) (List.cons_ne_nil _ _)
                      hlines
                  rw [hothers]

end

/-- **The parts of a container** from its text. -/
theorem enclosed_cancel {α : Type} {text : α → String} {as bs : List α} {level : Nat}
    {opening closing : String} {o c : Char} (ho : opening.toList = [o]) (hc : closing.toList = [c])
    (hclosing : c ≠ '\n')
    (hcancel : ∀ a ∈ as, ∀ b ∈ bs, ∀ r s, Follows r → Follows s →
      (text a).toList ++ r = (text b).toList ++ s → a = b ∧ r = s)
    (h : enclosed level opening closing (as.map text) =
      enclosed level opening closing (bs.map text)) : as = bs := by
  have hbreak : ∀ lines, closed level lines c ≠ [c] := by
    intro lines heq
    rw [closed, toList_newLine] at heq
    exact hclosing (List.cons.inj heq).1.symm
  have hlists := congrArg String.toList h
  rw [toList_enclosed level _ ho hc, toList_enclosed level _ ho hc] at hlists
  simp only [List.map_eq_nil_iff, List.map_map] at hlists
  by_cases ha : as = [] <;> by_cases hb : bs = []
  · rw [ha, hb]
  · rw [if_pos ha, if_neg hb] at hlists
    exact absurd (List.cons.inj hlists).2.symm (hbreak _)
  · rw [if_neg ha, if_pos hb] at hlists
    exact absurd (List.cons.inj hlists).2 (hbreak _)
  · rw [if_neg ha, if_neg hb] at hlists
    exact lined_cancel hcancel ha hb (List.append_cancel_left (List.cons.inj hlists).2)

/-- Members are told by their names and by their values. -/
theorem member_cancel {a b : String × Json} {level : Nat} {r s : List Char} (ha : Writable a.2)
    (hb : Writable b.2) (hr : Follows r) (hs : Follows s)
    (hvalue : renderAt level a.2 = renderAt level b.2 → a.2 = b.2)
    (h : (quoted a.1 ++ ": " ++ renderAt level a.2).toList ++ r =
      (quoted b.1 ++ ": " ++ renderAt level b.2).toList ++ s) : a = b ∧ r = s := by
  have htext : ∀ (member : String × Json) (rest : List Char),
      (quoted member.1 ++ ": " ++ renderAt level member.2).toList ++ rest =
        '\x22' :: (member.1.toList.flatMap escaped ++
          '\x22' :: ':' :: ' ' :: ((renderAt level member.2).toList ++ rest)) := by
    intro member rest
    rw [← memberText_eq, memberText]
    simp only [String.toList_append, List.append_assoc]
    rfl
  rw [htext, htext] at h
  have hquoted := quotedText_quoted a.1 (':' :: ' ' :: ((renderAt level a.2).toList ++ r))
  rw [(List.cons.inj h).2, quotedText_quoted] at hquoted
  obtain ⟨hname, hrest⟩ := Prod.mk.inj (Except.ok.inj hquoted)
  simp only [List.cons.injEq, true_and] at hrest
  obtain ⟨htexts, -, hends⟩ :=
    (readsBack_renderAt ha level).cancel (readsBack_renderAt hb level) hr hs hrest.symm
  exact ⟨Prod.ext hname.symm (hvalue (String.toList_injective htexts)), hends⟩

/-- What is read as neither an array nor an object is nothing else. -/
theorem eq_of_merged_eq {a b : Json} (harray : ∀ items, a ≠ .array items)
    (hobject : ∀ members, a ≠ .object members) (h : a = merged b) : a = b := by
  cases b with
  | array items => exact absurd h (harray _)
  | object members => exact absurd h (hobject _)
  | _ => exact h

/-- Parts with one text are one part. -/
theorem renderAt_injective {a b : Json} (ha : Writable a) (hb : Writable b) {level : Nat}
    (h : renderAt level a = renderAt level b) : a = b := by
  have hbreak : Follows ['\n'] := ⟨'\n', [], rfl, .inr rfl⟩
  have hmerged : ∀ {a b : Json} {level : Nat}, Writable a → Writable b →
      renderAt level a = renderAt level b → merged a = merged b := by
    intro a b level ha hb h
    exact ((readsBack_renderAt ha level).cancel (readsBack_renderAt hb level) hbreak hbreak
      (by rw [h])).2.1
  induction ha generalizing b level with
  | array items hitems ih =>
      have heq := hmerged (.array items hitems) hb h
      cases hb with
      | array others hothers =>
          rw [renderAt, renderAt, renderItems_eq_map, renderItems_eq_map] at h
          refine congrArg Json.array
            (enclosed_cancel (o := '[') (c := ']') rfl rfl (by decide) ?_ h)
          intro item hitem other hother r s hr hs htexts
          obtain ⟨htext, -, hrest⟩ := (readsBack_renderAt (hitems item hitem) (level + 1)).cancel
            (readsBack_renderAt (hothers other hother) (level + 1)) hr hs htexts
          exact ⟨ih item hitem (hothers other hother) (String.toList_injective htext), hrest⟩
      | _ => simp [merged, objectOf] at heq
  | object members hmembers ih =>
      have heq := hmerged (.object members hmembers) hb h
      cases hb with
      | object others hothers =>
          rw [renderAt, renderAt, renderMembers_eq_map, renderMembers_eq_map] at h
          refine congrArg Json.object
            (enclosed_cancel (o := '\x7b') (c := '\x7d') rfl rfl (by decide) ?_ h)
          intro member hmember other hother r s hr hs htexts
          exact member_cancel (hmembers member hmember) (hothers other hother) hr hs
            (ih member hmember (hothers other hother)) htexts
      | _ => simp [merged, objectOf] at heq
  | null => exact eq_of_merged_eq nofun nofun (hmerged .null hb h)
  | bool v => exact eq_of_merged_eq nofun nofun (hmerged (.bool v) hb h)
  | int i hshort => exact eq_of_merged_eq nofun nofun (hmerged (.int i hshort) hb h)
  | float x hproper => exact eq_of_merged_eq nofun nofun (hmerged (.float x hproper) hb h)
  | text t => exact eq_of_merged_eq nofun nofun (hmerged (.text t) hb h)

/-- **One text, one document.** -/
theorem render_injective {a b : Json} (ha : Writable a) (hb : Writable b)
    (h : render a = render b) : a = b := by
  have hlists := congrArg String.toList h
  rw [render, render, String.toList_append, String.toList_append] at hlists
  exact renderAt_injective ha hb (String.toList_injective (List.append_cancel_right hlists))

end ContentCatalog.Json
