import ContentCatalog.Proofs.BlockPieces

/-!
# Two styles of line breaks

The lines of a text may end in line feeds alone, or in a carriage return and a line feed.  The
block and the body of a source text are the same in both styles, each in the style of the text.

Every step of `split` on lines is followed from one style to the other: lines become lines, fences
remain fences and nothing else becomes one, so the same fence closes, and the break that is taken
off the block is a break of the same style.

* `linesOf_longBreaks` : the lines of a text in the longer style;
* `isFence_longBreaks` : its fences;
* `closeBlock?_map` : which lines are a block depends on nothing but which lines are fences;
* `withoutLastBreak_longBreaks` : the last break of a block;
* `split_longBreaks` : the split of a text in the longer style.
-/

namespace ContentCatalog.Source

open Text

/-- The text with a carriage return in front of every line feed. -/
def longBreaks (text : List Char) : List Char :=
  text.flatMap fun c => if c = '\n' then ['\r', '\n'] else [c]

variable {text line : List Char}

/-! ### Lines -/

theorem longBreaks_append (text other : List Char) :
    longBreaks (text ++ other) = longBreaks text ++ longBreaks other :=
  List.flatMap_append

/-- A text without a line feed stays as it is. -/
theorem longBreaks_eq_self (h : '\n' ∉ text) : longBreaks text = text := by
  induction text with
  | nil => rfl
  | cons c text ih =>
      rw [List.mem_cons, not_or] at h
      have hc : ¬ c = '\n' := fun heq => h.1 heq.symm
      have htext := ih h.2
      rw [longBreaks] at htext ⊢
      rw [List.flatMap_cons, if_neg hc, htext, List.singleton_append]

theorem longBreaks_feed : longBreaks ['\n'] = ['\r', '\n'] := rfl

/-- Breaks are made longer line by line. -/
theorem longBreaks_flatten (lines : List (List Char)) :
    longBreaks lines.flatten = (lines.map longBreaks).flatten := by
  induction lines with
  | nil => rfl
  | cons line lines ih => rw [List.flatten_cons, longBreaks_append, ih, List.map_cons,
      List.flatten_cons]

/-- **Lines become lines.** -/
theorem linesOf_longBreaks (text : List Char) :
    linesOf (longBreaks text) = (linesOf text).map longBreaks := by
  induction text using line_induction with
  | last text h =>
      rw [longBreaks_eq_self h, linesOf_last h]
      split
      · rfl
      · rw [List.map_singleton, longBreaks_eq_self h]
  | more line rest h ih =>
      have hline : '\n' ∉ line ++ ['\r'] := by simp [h]
      have hfirst : longBreaks (line ++ ['\n']) = line ++ ['\r'] ++ ['\n'] := by
        rw [longBreaks_append, longBreaks_eq_self h, longBreaks_feed, List.append_assoc]
        rfl
      have htext : longBreaks (line ++ '\n' :: rest) =
          (line ++ ['\r']) ++ '\n' :: longBreaks rest := by
        rw [List.append_cons, longBreaks_append, hfirst, List.append_assoc]
        rfl
      rw [htext, linesOf_more _ hline, linesOf_more rest h, List.map_cons, ih, hfirst]

/-- A line feed stands nowhere in a line but at its end. -/
theorem feed_of_mem_linesOf (h : line ∈ linesOf text) :
    '\n' ∉ line ∨ ∃ body, '\n' ∉ body ∧ line = body ++ ['\n'] := by
  induction text using line_induction with
  | last text hfeed =>
      rw [linesOf_last hfeed] at h
      split at h
      · cases h
      · exact .inl (List.mem_singleton.mp h ▸ hfeed)
  | more first rest hfeed ih =>
      rw [linesOf_more rest hfeed] at h
      rcases List.mem_cons.mp h with rfl | h
      · exact .inr ⟨first, hfeed, rfl⟩
      · exact ih h

/-! ### Fences -/

/-- A carriage return at the end of a line without one does not matter to a fence. -/
theorem isFenceBody_append_return (h : '\r' ∉ line) :
    isFenceBody (line ++ ['\r']) = isFenceBody line := by
  have hdashes : isDashes (line ++ ['\r']) = false :=
    isDashes_append_single line (by decide) (by decide)
  have hreturn : beforeEnd? ['\r'] (line ++ ['\r']) = some line := beforeEnd?_eq_some_iff.mpr rfl
  have hnone : beforeEnd? ['\r'] line = none := beforeEnd?_eq_none (by simp) h
  rw [isFenceBody, isFenceBody, hreturn, hnone, hdashes, Option.any_some, Option.any_none,
    Bool.or_false, Bool.false_or]

/-- **Fences remain fences**, and nothing else becomes one. -/
theorem isFence_longBreaks (hline : line ∈ linesOf text) (h : '\r' ∉ line) :
    isOpeningFence (longBreaks line) = isOpeningFence line ∧
      isClosingFence (longBreaks line) = isClosingFence line := by
  rcases feed_of_mem_linesOf hline with hfeed | ⟨body, hfeed, rfl⟩
  · rw [longBreaks_eq_self hfeed]
    exact ⟨rfl, rfl⟩
  · have hreturn : '\r' ∉ body := fun hm => h (List.mem_append_left _ hm)
    have hlong : longBreaks (body ++ ['\n']) = body ++ ['\r'] ++ ['\n'] := by
      rw [longBreaks_append, longBreaks_eq_self hfeed, longBreaks_feed, List.append_assoc]
      rfl
    obtain ⟨hopens, hcloses⟩ := isFence_append_feed body
    obtain ⟨hopensLong, hclosesLong⟩ := isFence_append_feed (body ++ ['\r'])
    rw [hlong, hopens, hcloses, hopensLong, hclosesLong, isFenceBody_append_return hreturn]
    exact ⟨rfl, rfl⟩

/-! ### The block -/

/-- Two lists of lines, each changed line by line. -/
def bothMap (change : List Char → List Char) (parts : List (List Char) × List (List Char)) :
    List (List Char) × List (List Char) :=
  (parts.1.map change, parts.2.map change)

variable {change : List Char → List Char} {lines : List (List Char)}

/-- Lines are cut at the same fence after a change that fences do not notice. -/
theorem cutAtFence?_map
    (h : ∀ line ∈ lines, isClosingFence (change line) = isClosingFence line) :
    cutAtFence? (lines.map change) = (cutAtFence? lines).map (bothMap change) := by
  induction lines with
  | nil => rfl
  | cons line lines ih =>
      obtain ⟨hline, hlines⟩ := List.forall_mem_cons.mp h
      rw [List.map_cons, cutAtFence?, cutAtFence?, hline, ih hlines]
      split
      · rfl
      · rw [Option.map_map, Option.map_map]
        rfl

/-- **Which lines are a block** depends on nothing but which lines are fences. -/
theorem closeBlock?_map
    (h : ∀ line ∈ lines, isClosingFence (change line) = isClosingFence line) :
    closeBlock? (lines.map change) = (closeBlock? lines).map (bothMap change) := by
  cases lines with
  | nil => rfl
  | cons first others =>
      obtain ⟨hfirst, hothers⟩ := List.forall_mem_cons.mp h
      rw [List.map_cons, closeBlock?, closeBlock?, cutAtFence?_map hothers, hfirst]
      cases cutAtFence? others with
      | some parts => rfl
      | none =>
          by_cases hfence : isClosingFence first = true
          · simp [hfence, bothMap]
          · simp [hfence]

/-- A text that does not end in a line feed has no last break. -/
theorem withoutLastBreak_append_single (text : List Char) {c : Char} (h : c ≠ '\n') :
    withoutLastBreak (text ++ [c]) = text ++ [c] := by
  have hnone : ∀ front : List Char, beforeEnd? (front ++ ['\n']) (text ++ [c]) = none := by
    intro front
    rw [Option.eq_none_iff_forall_ne_some]
    intro rest hrest
    have hlast := congrArg List.getLast? (beforeEnd?_eq_some_iff.mp hrest)
    rw [← List.append_assoc, List.getLast?_concat, List.getLast?_concat] at hlast
    exact h (Option.some.inj hlast)
  have hlong := hnone ['\r']
  have hshort := hnone []
  rw [List.singleton_append] at hlong
  rw [List.nil_append] at hshort
  rw [withoutLastBreak, hlong, hshort]
  rfl

/-- **The break behind a block** is of the style of the text. -/
theorem withoutLastBreak_longBreaks (h : '\r' ∉ text) :
    withoutLastBreak (longBreaks text) = longBreaks (withoutLastBreak text) := by
  rcases List.eq_nil_or_concat text with rfl | ⟨body, c, heq⟩
  · rfl
  rw [List.concat_eq_append] at heq
  by_cases hc : c = '\n'
  · have hlong : beforeEnd? ['\r', '\n'] (longBreaks text) = some (longBreaks body) := by
      rw [beforeEnd?_eq_some_iff, heq, hc, longBreaks_append, longBreaks_feed]
    have hnone : beforeEnd? ['\r', '\n'] text = none := beforeEnd?_eq_none (by simp) h
    have hshort : beforeEnd? ['\n'] text = some body := by
      rw [beforeEnd?_eq_some_iff, heq, hc]
    rw [withoutLastBreak, withoutLastBreak, hlong, hnone, hshort]
    rfl
  · have hsingle : longBreaks [c] = [c] := longBreaks_eq_self (by simp [Ne.symm hc])
    rw [heq, longBreaks_append, hsingle, withoutLastBreak_append_single _ hc,
      withoutLastBreak_append_single _ hc, longBreaks_append, hsingle]

/-! ### The split -/

/-- A line holds no character that the text does not hold. -/
theorem not_mem_of_mem_linesOf {c : Char} (h : c ∉ text) (hline : line ∈ linesOf text) :
    c ∉ line := by
  intro hm
  apply h
  rw [← flatten_linesOf text]
  exact List.mem_flatten.mpr ⟨line, hline, hm⟩

/-- **The style of the line breaks makes no difference.**  A text without carriage returns is
split where it is split with one in front of every line feed. -/
theorem split_longBreaks (h : '\r' ∉ text) :
    split (longBreaks text) =
      ⟨(split text).frontmatter.map longBreaks, longBreaks (split text).body⟩ := by
  have hreturn : ∀ line ∈ linesOf text, '\r' ∉ line := fun _ => not_mem_of_mem_linesOf h
  rw [split_eq_lines, split_eq_lines, linesOf_longBreaks]
  cases hlines : linesOf text with
  | nil => rfl
  | cons opening later =>
      rw [hlines] at hreturn
      have hfence : ∀ line ∈ opening :: later,
          isOpeningFence (longBreaks line) = isOpeningFence line ∧
            isClosingFence (longBreaks line) = isClosingFence line := fun line hline =>
        isFence_longBreaks (hlines ▸ hline) (hreturn line hline)
      obtain ⟨hopening, hlater⟩ := List.forall_mem_cons.mp hfence
      have hblock := closeBlock?_map fun line hline => (hlater line hline).2
      simp only [List.map_cons, hopening.1, hblock]
      split
      · cases hclose : closeBlock? later with
        | none => rfl
        | some parts =>
            obtain ⟨front, after⟩ := parts
            obtain ⟨fence, -, hsplit⟩ := closeBlock?_eq_some hclose
            have hfront : '\r' ∉ front.flatten := by
              intro hm
              obtain ⟨line, hline, hc⟩ := List.mem_flatten.mp hm
              exact hreturn line (by simp [hsplit, hline]) hc
            simp only [Option.map_some, bothMap, ← longBreaks_flatten,
              withoutLastBreak_longBreaks hfront]
      · rfl

/-- A block with an empty line at its end, and a body. -/
theorem split_longBreaks_sample :
    '\r' ∉ "--- \na: 1\n\n---\nb\n".toList ∧
      split (longBreaks "--- \na: 1\n\n---\nb\n".toList) =
        ⟨some "a: 1\r\n".toList, "b\r\n".toList⟩ :=
  have hreturn : '\r' ∉ "--- \na: 1\n\n---\nb\n".toList := by decide
  ⟨hreturn, (split_longBreaks hreturn).trans (by decide)⟩

end ContentCatalog.Source
