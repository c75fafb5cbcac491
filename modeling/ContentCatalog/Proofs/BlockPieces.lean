import ContentCatalog.Proofs.FenceLines

/-!
# Pieces of a source text

A text with a block falls into five pieces: the opening fence, the block, the line break behind
the block, the closing fence, and the body.  Here the fences are spelled out character by
character, and it is said when a block is found and that its pieces are the whole text.

The break belongs to neither the block nor the closing fence.  It is missing only where the block
is empty and its two fences are neighbours.

* `isFence_iff` : what counts as a fence;
* `closeBlock?_eq_some`, `closeBlock?_eq_none_iff` : which lines close a block;
* `exists_joint` : a block ends in the line break of its last line;
* `split_pieces` : a block is found exactly if two fences stand there for it, and nothing of the
  text is lost.
-/

namespace ContentCatalog.Source

open Text

/-! ### Fences, spelled out -/

/-- Three dashes, blanks at most behind them, and that ending. -/
def IsFenceWith (line ending : List Char) : Prop :=
  ∃ blanks, (∀ c ∈ blanks, c = ' ' ∨ c = '\t') ∧ line = "---".toList ++ blanks ++ ending

/-- A line feed behind a carriage return, or alone. -/
def IsBreak (ending : List Char) : Prop :=
  ending = ['\r', '\n'] ∨ ending = ['\n']

/-- A fence with the line break that ends it. -/
def OpensBlock (line : List Char) : Prop :=
  ∃ ending, IsBreak ending ∧ IsFenceWith line ending

/-- A fence with the line break that ends it, or a fence that nothing ends. -/
def ClosesBlock (line : List Char) : Prop :=
  OpensBlock line ∨ IsFenceWith line []

/-- The blanks of a fence are the space and the tab. -/
theorem isFenceBlank_iff {c : Char} : isFenceBlank c = true ↔ c = ' ' ∨ c = '\t' := by
  simp [isFenceBlank]

/-- A line is a fence if it is one with an ending that is allowed. -/
theorem isFence_iff {endings : List (List Char)} {line : List Char} :
    isFence endings line = true ↔ ∃ ending ∈ endings, IsFenceWith line ending := by
  simp only [isFence, List.any_eq_true, Option.any_eq_true, beforeEnd?_eq_some_iff, isDashes_iff,
    isFenceBlank_iff]
  refine exists_congr fun ending => and_congr_right fun _ => ?_
  constructor
  · rintro ⟨_, rfl, blanks, rfl, hblanks⟩
    exact ⟨blanks, hblanks, rfl⟩
  · rintro ⟨blanks, hblanks, rfl⟩
    exact ⟨_, rfl, blanks, rfl, hblanks⟩

/-- The reader of opening fences takes those that open a block. -/
theorem isOpeningFence_iff {line : List Char} : isOpeningFence line = true ↔ OpensBlock line := by
  have hcrlf : "\r\n".toList = ['\r', '\n'] := rfl
  have hlf : "\n".toList = ['\n'] := rfl
  rw [isOpeningFence, isFence_iff, hcrlf, hlf]
  simp only [OpensBlock, IsBreak, List.mem_cons, List.not_mem_nil, or_false]

/-- The reader of closing fences takes those that close one. -/
theorem isClosingFence_iff {line : List Char} : isClosingFence line = true ↔ ClosesBlock line := by
  rw [ClosesBlock, ← isOpeningFence_iff, isClosingFence, isOpeningFence, isFence_iff, isFence_iff]
  simp only [List.mem_cons, List.not_mem_nil, or_false, exists_eq_or_imp, exists_eq_left, or_assoc]

/-! ### The lines of a block -/

/-- Where a block is closed, a fence stands between the block and what is behind it. -/
theorem closeBlock?_eq_some {later front after : List (List Char)}
    (h : closeBlock? later = some (front, after)) :
    ∃ fence, ClosesBlock fence ∧ later = front ++ fence :: after := by
  cases later with
  | nil => cases h
  | cons first others =>
      rw [closeBlock?] at h
      cases hcut : cutAtFence? others with
      | some parts =>
          rw [hcut] at h
          obtain ⟨before, behind⟩ := parts
          obtain ⟨rfl, rfl⟩ := Prod.mk.inj (Option.some.inj h)
          obtain ⟨fence, hfence, rfl⟩ := cutAtFence?_eq_some hcut
          exact ⟨fence, isClosingFence_iff.mp hfence, rfl⟩
      | none =>
          rw [hcut] at h
          simp only [Option.ite_none_right_eq_some, Option.some.injEq, Prod.mk.injEq] at h
          obtain ⟨hfence, rfl, rfl⟩ := h
          exact ⟨first, isClosingFence_iff.mp hfence, rfl⟩

/-- Any fence below the opening one closes a block. -/
theorem closeBlock?_eq_none_iff {later : List (List Char)} :
    closeBlock? later = none ↔ ∀ line ∈ later, ¬ ClosesBlock line := by
  have hany : (∀ line ∈ later, ¬ ClosesBlock line) ↔ later.any isClosingFence = false := by
    simp [← isClosingFence_iff]
  rw [hany]
  cases later with
  | nil => simp [closeBlock?]
  | cons first others =>
      rw [closeBlock?, List.any_cons, Bool.or_eq_false_iff, ← cutAtFence?_eq_none_iff]
      cases cutAtFence? others with
      | some parts => simp
      | none => simp

/-- A line feed behind a fence belongs to its ending. -/
theorem not_isFenceWith_feed (body : List Char) : ¬ IsFenceWith (body ++ ['\n']) [] := by
  rintro ⟨blanks, hblanks, hline⟩
  have hdashes : isDashes (body ++ ['\n']) = true := by
    rw [isDashes_iff, hline, List.append_nil]
    exact ⟨blanks, rfl, fun c hc => isFenceBlank_iff.mpr (hblanks c hc)⟩
  rw [isDashes_append_feed] at hdashes
  cases hdashes

/-- A fence that a line feed does not end is the last line of its text. -/
theorem last_of_bare_fence {text fence : List Char} {above after : List (List Char)}
    (hlines : linesOf text = above ++ fence :: after) (hfence : IsFenceWith fence []) :
    after = [] := by
  cases after with
  | nil => rfl
  | cons next others =>
      have hall : linesOf text = (above ++ [fence]) ++ next :: others := by
        rw [hlines, List.append_assoc, List.singleton_append]
      obtain ⟨body, rfl⟩ := (linesOf_prefix_ends hall).1 fence (by simp)
      exact absurd hfence (not_isFenceWith_feed body)

/-- The last line break of a text that has one. -/
theorem exists_break (body : List Char) :
    ∃ ending, IsBreak ending ∧
      body ++ ['\n'] = withoutLastBreak (body ++ ['\n']) ++ ending := by
  rw [← withoutReturn_withoutFeed]
  have hfeed : withoutFeed (body ++ ['\n']) = body := by
    rw [withoutFeed, beforeEnd?_eq_some_iff.mpr rfl, Option.getD_some]
  rw [hfeed, withoutReturn]
  cases hreturn : beforeEnd? ['\r'] body with
  | none => exact ⟨['\n'], .inr rfl, rfl⟩
  | some front =>
      refine ⟨['\r', '\n'], .inl rfl, ?_⟩
      rw [beforeEnd?_eq_some_iff.mp hreturn, Option.getD_some, List.append_assoc]
      rfl

/-- Above another line, a block ends in a line break unless it is empty. -/
theorem exists_joint {text : List Char} {above front below : List (List Char)}
    (hlines : linesOf text = above ++ front ++ below) (hbelow : below ≠ []) :
    ∃ joint, front.flatten = withoutLastBreak front.flatten ++ joint ∧
      (IsBreak joint ∨ joint = [] ∧ withoutLastBreak front.flatten = []) := by
  rcases List.eq_nil_or_concat front with rfl | ⟨firsts, last, rfl⟩
  · exact ⟨[], rfl, .inr ⟨rfl, rfl⟩⟩
  · obtain ⟨next, others, rfl⟩ := List.exists_cons_of_ne_nil hbelow
    obtain ⟨body, rfl⟩ := (linesOf_prefix_ends hlines).1 last (by simp)
    obtain ⟨joint, hjoint, htext⟩ := exists_break (firsts.flatten ++ body)
    have hflat : (firsts.concat (body ++ ['\n'])).flatten = firsts.flatten ++ body ++ ['\n'] := by
      simp
    rw [hflat]
    exact ⟨joint, htext, .inl hjoint⟩

/-! ### The pieces -/

/-- The first line of the text is a fence that opens a block, and a later one closes it. -/
def HasBlock (text : List Char) : Prop :=
  ∃ opening later, linesOf text = opening :: later ∧ OpensBlock opening ∧
    ∃ line ∈ later, ClosesBlock line

/-- The pieces of a text with a block, from front to back. -/
structure Pieces (text opening front joint closing body : List Char) : Prop where
  text_eq : text = opening ++ front ++ joint ++ closing ++ body
  opens : OpensBlock opening
  joint_break : IsBreak joint ∨ joint = [] ∧ front = []
  closes : OpensBlock closing ∨ IsFenceWith closing [] ∧ body = []

/-- A text without a block is all body. -/
theorem split_of_not_hasBlock {text : List Char} (h : ¬ HasBlock text) :
    split text = ⟨none, text⟩ := by
  rw [split_eq_lines]
  cases hlines : linesOf text with
  | nil => rfl
  | cons opening later =>
      simp only
      split
      · next hopening =>
          have hnone : closeBlock? later = none :=
            closeBlock?_eq_none_iff.mpr fun line hline hcloses =>
              h ⟨opening, later, hlines, isOpeningFence_iff.mp hopening, line, hline, hcloses⟩
          rw [hnone]
      · rfl

/-- A block that has its two fences is found, and the text is its pieces. -/
theorem exists_pieces {text : List Char} (h : HasBlock text) :
    ∃ front opening joint closing, (split text).frontmatter = some front ∧
      Pieces text opening front joint closing (split text).body := by
  obtain ⟨opening, later, hlines, hopens, line, hline, hcloses⟩ := h
  cases hblock : closeBlock? later with
  | none => exact absurd hcloses (closeBlock?_eq_none_iff.mp hblock line hline)
  | some parts =>
      obtain ⟨front, after⟩ := parts
      obtain ⟨fence, hfence, rfl⟩ := closeBlock?_eq_some hblock
      have hall : linesOf text = [opening] ++ front ++ fence :: after := by
        rw [hlines, List.append_assoc, List.singleton_append]
      obtain ⟨joint, hfront, hjoint⟩ := exists_joint hall (List.cons_ne_nil _ _)
      have hsplit : split text = ⟨some (withoutLastBreak front.flatten), after.flatten⟩ := by
        rw [split_eq_lines, hlines]
        simp only [isOpeningFence_iff.mpr hopens, if_true, hblock]
      rw [hsplit]
      refine ⟨_, opening, joint, fence, rfl, ?_, hopens, hjoint, ?_⟩
      · calc text
            _ = (linesOf text).flatten := (flatten_linesOf text).symm
            _ = opening ++ front.flatten ++ fence ++ after.flatten := by simp [hall]
            _ = opening ++ (withoutLastBreak front.flatten ++ joint) ++ fence ++
                after.flatten := by rw [← hfront]
            _ = opening ++ withoutLastBreak front.flatten ++ joint ++ fence ++
                after.flatten := by rw [← List.append_assoc opening]
      · refine hfence.imp_right fun hbare => ⟨hbare, ?_⟩
        rw [last_of_bare_fence hall hbare, List.flatten_nil]

/-- **A block is found exactly if its two fences are there**, and then the text is the opening
fence, the block, its line break, the closing fence and the body.  Otherwise all of the text is
body. -/
theorem split_pieces (text : List Char) :
    ((split text).frontmatter.isSome = true ↔ HasBlock text) ∧
      (∀ front, (split text).frontmatter = some front →
        ∃ opening joint closing, Pieces text opening front joint closing (split text).body) ∧
      ((split text).frontmatter = none → (split text).body = text) := by
  by_cases h : HasBlock text
  · obtain ⟨front, opening, joint, closing, hfront, hpieces⟩ := exists_pieces h
    rw [hfront]
    refine ⟨by simp [h], ?_, by simp⟩
    intro other hother
    obtain rfl := Option.some.inj hother
    exact ⟨opening, joint, closing, hpieces⟩
  · rw [split_of_not_hasBlock h]
    simp [h]

end ContentCatalog.Source
