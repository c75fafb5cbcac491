import ContentCatalog.Source.Frontmatter
import ContentCatalog.Text.Lines
import ContentCatalog.Text.Space

/-!
# Front matter by lines

`split` works on characters.  Here its result is described by whole lines: a
block opens with a fence on the first line, and some later fence closes it.

The closing fence is the first one below the opening fence, with one exception.
A fence directly below the opening one is passed over, and becomes the first line
of the block, if another fence follows.

* `afterOpening?_eq_lines`, `afterClosing?_eq_lines`, `untilClosing?_eq_lines` :
  what the readers on characters do, in terms of lines;
* `split_by_lines` : the split of every text, and the texts for which the first
  fence is not the one that closes.
-/

namespace ContentCatalog.Source

open Text

/-! ### Lines -/

/-- The lines of a text, each with the line feed that ends it.  The last line may
have none. -/
def linesOf : List Char → List (List Char)
  | [] => []
  | c :: rest => if c = '\n' then [c] :: linesOf rest else consLine c (linesOf rest)

/-- A text without a line feed is one line, unless it is empty. -/
theorem linesOf_last {text : List Char} (h : '\n' ∉ text) :
    linesOf text = if text = [] then [] else [text] := by
  induction text with
  | nil => rfl
  | cons c rest ih =>
    have hc : c ≠ '\n' := fun heq => h (heq ▸ List.mem_cons_self)
    have hr := ih fun hm => h (List.mem_cons_of_mem _ hm)
    rw [linesOf, if_neg hc, hr]
    by_cases hn : rest = [] <;> simp [hn, consLine]

/-- A line feed ends the first line. -/
theorem linesOf_more {line : List Char} (rest : List Char) (h : '\n' ∉ line) :
    linesOf (line ++ '\n' :: rest) = (line ++ ['\n']) :: linesOf rest := by
  induction line with
  | nil => simp [linesOf]
  | cons c line ih =>
    have hc : c ≠ '\n' := fun heq => h (heq ▸ List.mem_cons_self)
    have hl := ih fun hm => h (List.mem_cons_of_mem _ hm)
    rw [List.cons_append, linesOf, if_neg hc, hl]
    rfl

/-- Every text ends with its first line or goes on behind it. -/
theorem line_cases (text : List Char) :
    '\n' ∉ text ∨ ∃ line rest, '\n' ∉ line ∧ text = line ++ '\n' :: rest := by
  induction text with
  | nil => exact Or.inl (by simp)
  | cons c rest ih =>
    by_cases hc : c = '\n'
    · exact Or.inr ⟨[], rest, by simp, by simp [hc]⟩
    · rcases ih with hn | ⟨line, after, hl, rfl⟩
      · exact Or.inl (by simp [Ne.symm hc, hn])
      · exact Or.inr ⟨c :: line, after, by simp [Ne.symm hc, hl], by simp⟩

/-- Induction along the lines of a text. -/
theorem line_induction {motive : List Char → Prop}
    (last : ∀ text, '\n' ∉ text → motive text)
    (more : ∀ line rest, '\n' ∉ line → motive rest → motive (line ++ '\n' :: rest))
    (text : List Char) : motive text := by
  induction hn : text.length using Nat.strongRecOn generalizing text with
  | ind n ih =>
    rcases line_cases text with h | ⟨line, rest, h, rfl⟩
    · exact last text h
    · exact more line rest h (ih rest.length (by subst hn; simp; omega) rest rfl)

/-- The lines of a text make up the text. -/
theorem flatten_linesOf (text : List Char) : (linesOf text).flatten = text := by
  induction text using line_induction with
  | last text h =>
    rw [linesOf_last h]
    by_cases hn : text = [] <;> simp [hn]
  | more line rest h ih => simp [linesOf_more rest h, ih]

/-- Every line but the last ends in a line feed, and the last one is not empty. -/
theorem linesOf_prefix_ends {text line : List Char} {before after : List (List Char)}
    (h : linesOf text = before ++ line :: after) :
    (∀ l ∈ before, ∃ body, l = body ++ ['\n']) ∧ line ≠ [] := by
  induction text using line_induction generalizing before with
  | last text hn =>
    rw [linesOf_last hn] at h
    by_cases ht : text = []
    · simp [ht] at h
    · rw [if_neg ht] at h
      cases before with
      | nil =>
        simp only [List.nil_append, List.cons.injEq] at h
        exact ⟨by simp, h.1 ▸ ht⟩
      | cons _ before => simp at h
  | more first rest hn ih =>
    rw [linesOf_more rest hn] at h
    cases before with
    | nil =>
      simp only [List.nil_append, List.cons.injEq] at h
      exact ⟨by simp, by simp [← h.1]⟩
    | cons l before =>
      simp only [List.cons_append, List.cons.injEq] at h
      obtain ⟨rfl, h⟩ := h
      obtain ⟨hb, hl⟩ := ih h
      exact ⟨List.forall_mem_cons.mpr ⟨⟨first, rfl⟩, hb⟩, hl⟩

/-! ### Fences -/

/-- The text is three dashes with blanks at most behind them. -/
def isDashes (text : List Char) : Bool :=
  (afterStart? "---".toList text).any fun blanks => blanks.all isFenceBlank

/-- The line is a fence that ends in one of the given ways. -/
def isFence (endings : List (List Char)) (line : List Char) : Bool :=
  endings.any fun ending => (beforeEnd? ending line).any isDashes

/-- The line is a fence and ends in a line break. -/
def isOpeningFence (line : List Char) : Bool :=
  isFence ["\r\n".toList, "\n".toList] line

/-- The line is a fence and ends in a line break or with the text. -/
def isClosingFence (line : List Char) : Bool :=
  isFence ["\r\n".toList, "\n".toList, []] line

/-- A line without its line feed is a fence that a line feed may end. -/
def isFenceBody (line : List Char) : Bool :=
  (beforeEnd? ['\r'] line).any isDashes || isDashes line

/-- A fence is three dashes and blanks. -/
theorem isDashes_iff {text : List Char} :
    isDashes text = true ↔
      ∃ blanks, text = "---".toList ++ blanks ∧ ∀ c ∈ blanks, isFenceBlank c = true := by
  simp [isDashes, Option.any_eq_true, afterStart?_eq_some_iff]

theorem beforeEnd?_nil (text : List Char) : beforeEnd? [] text = some text := by
  simp [beforeEnd?_eq_some_iff]

/-- One character more at both ends makes no difference. -/
theorem beforeEnd?_append_single (finish text : List Char) (c : Char) :
    beforeEnd? (finish ++ [c]) (text ++ [c]) = beforeEnd? finish text := by
  simp [beforeEnd?, afterStart?]

/-- A text does not end in what holds a character that is not in the text. -/
theorem beforeEnd?_eq_none {finish text : List Char} {c : Char} (hc : c ∈ finish)
    (h : c ∉ text) : beforeEnd? finish text = none := by
  rw [Option.eq_none_iff_forall_ne_some]
  intro rest heq
  exact h (by simp [beforeEnd?_eq_some_iff.mp heq, hc])

/-- What is neither a dash nor a blank stands in no fence. -/
theorem isDashes_append_single (line : List Char) {c : Char} (hdash : c ≠ '-')
    (hblank : isFenceBlank c = false) : isDashes (line ++ [c]) = false := by
  rw [Bool.eq_false_iff]
  intro h
  obtain ⟨blanks, heq, hb⟩ := isDashes_iff.mp h
  have hm : c ∈ "---".toList ++ blanks := heq ▸ List.mem_append_right line (by simp)
  rcases List.mem_append.mp hm with hd | hd
  · simp [hdash] at hd
  · rw [hb _ hd] at hblank
    cases hblank

/-- A line feed is neither a dash nor a blank. -/
theorem isDashes_append_feed (line : List Char) : isDashes (line ++ ['\n']) = false :=
  isDashes_append_single line (by decide) (by decide)

/-- Whether a line that a line feed ends is a fence does not depend on what the
fence is for. -/
theorem isFence_append_feed (line : List Char) :
    isOpeningFence (line ++ ['\n']) = isFenceBody line ∧
      isClosingFence (line ++ ['\n']) = isFenceBody line := by
  have hr : beforeEnd? ['\r', '\n'] (line ++ ['\n']) = beforeEnd? ['\r'] line :=
    beforeEnd?_append_single ['\r'] line '\n'
  have hn : beforeEnd? ['\n'] (line ++ ['\n']) = some line :=
    beforeEnd?_eq_some_iff.mpr rfl
  simp [isOpeningFence, isClosingFence, isFence, isFenceBody, hr, hn, beforeEnd?_nil,
    isDashes_append_feed]

/-- A last line without a line feed opens no block, but it may close one. -/
theorem isFence_last {line : List Char} (h : '\n' ∉ line) :
    isOpeningFence line = false ∧ isClosingFence line = isDashes line := by
  have hr : beforeEnd? ['\r', '\n'] line = none := beforeEnd?_eq_none (by simp) h
  have hn : beforeEnd? ['\n'] line = none := beforeEnd?_eq_none (by simp) h
  simp [isOpeningFence, isClosingFence, isFence, hr, hn, beforeEnd?_nil]

/-! ### The readers on characters -/

/-- A line feed stops the reading of a fence. -/
theorem afterDashes?_more (line rest : List Char) :
    afterDashes? (line ++ '\n' :: rest) =
      (afterDashes? line).map fun tail => tail ++ '\n' :: rest := by
  have hb : isFenceBlank '\n' = false := by decide
  rw [afterDashes?, afterDashes?, afterStart?_append_cons rest (by decide), Option.map_map,
    Option.map_map]
  congr 1
  funext tail
  simp only [Function.comp_apply, List.dropWhile_append, List.dropWhile_cons, hb]
  by_cases hn : (tail.dropWhile isFenceBlank).isEmpty = true
  · simp [List.isEmpty_iff.mp hn]
  · simp [hn]

/-- Without a line feed there is no break. -/
theorem afterBreak?_no_feed {tail : List Char} (h : '\n' ∉ tail) : afterBreak? tail = none := by
  unfold afterBreak?
  split <;> simp_all

/-- A break is a line feed, with a carriage return in front or not. -/
theorem afterBreak?_more {tail : List Char} (rest : List Char) (h : '\n' ∉ tail) :
    afterBreak? (tail ++ '\n' :: rest) =
      if tail = [] ∨ tail = ['\r'] then some rest else none := by
  cases tail with
  | nil => rfl
  | cons c tail =>
      have hc : c ≠ '\n' := fun heq => h (heq ▸ List.mem_cons_self)
      cases tail with
      | nil => by_cases hr : c = '\r' <;> simp [afterBreak?, hr, hc]
      | cons d tail =>
          have hd : d ≠ '\n' := fun heq => h (by simp [heq])
          simp [afterBreak?, hc, hd]

/-- Being a fence, said of what is left behind the dashes and blanks. -/
theorem isDashes_eq_any (line : List Char) :
    isDashes line = (afterDashes? line).any List.isEmpty := by
  simp only [isDashes, afterDashes?, Option.any_map]
  congr 1
  funext blanks
  rw [Bool.eq_iff_iff, List.all_eq_true, List.isEmpty_iff]
  exact (trimLeft_eq_nil_iff isFenceBlank blanks).symm

/-- A carriage return is left over exactly if it stands behind a fence. -/
theorem afterDashes?_eq_return_iff {line : List Char} :
    afterDashes? line = some ['\r'] ↔ (beforeEnd? ['\r'] line).any isDashes = true := by
  have hr : isFenceBlank '\r' = false := by decide
  simp only [Option.any_eq_true, beforeEnd?_eq_some_iff, isDashes_iff, afterDashes?,
    Option.map_eq_some_iff, afterStart?_eq_some_iff]
  constructor
  · intro hand
    obtain ⟨tail, rfl, ht⟩ := hand
    refine ⟨_, ?_, tail.takeWhile isFenceBlank, rfl, List.all_eq_true.mp List.all_takeWhile⟩
    rw [List.append_assoc, ← ht, List.takeWhile_append_dropWhile]
  · intro hand
    obtain ⟨_, rfl, blanks, rfl, hb⟩ := hand
    refine ⟨blanks ++ ['\r'], by simp, ?_⟩
    rw [List.dropWhile_append_of_pos hb]
    simp [hr]

/-- A line is a fence if nothing but a carriage return stands behind its dashes. -/
theorem isFenceBody_eq_any (line : List Char) :
    isFenceBody line =
      (afterDashes? line).any fun tail => decide (tail = [] ∨ tail = ['\r']) := by
  rw [Bool.eq_iff_iff, isFenceBody, Bool.or_eq_true, ← afterDashes?_eq_return_iff,
    isDashes_eq_any]
  cases afterDashes? line with
  | none => simp
  | some tail => simp [or_comm]

/-- Behind the dashes of a line there is no line feed. -/
theorem afterDashes?_no_feed {line tail : List Char} (h : '\n' ∉ line)
    (ht : afterDashes? line = some tail) : '\n' ∉ tail := by
  simp only [afterDashes?, Option.map_eq_some_iff, afterStart?_eq_some_iff] at ht
  obtain ⟨rest, rfl, rfl⟩ := ht
  exact fun hm => h (List.mem_append_right _ ((List.dropWhile_sublist _).subset hm))

/-- A fence that a line feed ends is read to the end of its line. -/
theorem fence_more {line : List Char} (rest : List Char) (h : '\n' ∉ line) :
    (afterDashes? (line ++ '\n' :: rest)).bind afterBreak? =
      if isFenceBody line then some rest else none := by
  rw [afterDashes?_more, isFenceBody_eq_any]
  cases ht : afterDashes? line with
  | none => rfl
  | some tail => simp [afterBreak?_more rest (afterDashes?_no_feed h ht)]

/-- A block is opened by its first line, if that is a fence. -/
theorem afterOpening?_eq_lines (text : List Char) :
    afterOpening? text =
      match linesOf text with
      | [] => none
      | line :: later => if isOpeningFence line then some later.flatten else none := by
  rcases line_cases text with h | ⟨line, rest, h, rfl⟩
  · have hb : afterOpening? text = none := by
      rw [Option.eq_none_iff_forall_ne_some]
      intro inside ho
      obtain ⟨tail, ht, hb⟩ := Option.bind_eq_some_iff.mp ho
      rw [afterBreak?_no_feed (afterDashes?_no_feed h ht)] at hb
      exact absurd hb (by simp)
    rw [hb, linesOf_last h]
    by_cases hn : text = [] <;> simp [hn, (isFence_last h).1]
  · rw [afterOpening?, fence_more rest h, linesOf_more rest h]
    simp [isFence_append_feed, flatten_linesOf]

/-- A fence at the front of a text closes a block if it is the whole first line. -/
theorem afterClosing?_eq_lines (text : List Char) :
    afterClosing? text =
      match linesOf text with
      | [] => none
      | line :: later => if isClosingFence line then some later.flatten else none := by
  rcases line_cases text with h | ⟨line, rest, h, rfl⟩
  · have hb : afterClosing? text = if isDashes text then some [] else none := by
      rw [afterClosing?, isDashes_eq_any]
      cases ht : afterDashes? text with
      | none => rfl
      | some tail => simp [afterBreak?_no_feed (afterDashes?_no_feed h ht)]
    rw [hb, linesOf_last h]
    by_cases hn : text = []
    · simp [hn, isDashes, afterStart?]
    · simp [hn, (isFence_last h).2]
  · have hb : afterClosing? (line ++ '\n' :: rest) =
        (afterDashes? (line ++ '\n' :: rest)).bind afterBreak? := by
      rw [afterClosing?, afterDashes?_more]
      cases afterDashes? line with
      | none => rfl
      | some tail => simp
    rw [hb, fence_more rest h, linesOf_more rest h]
    simp [isFence_append_feed, flatten_linesOf]

/-! ### The closing fence -/

/-- The lines before the first closing fence, and the lines behind it. -/
def cutAtFence? : List (List Char) → Option (List (List Char) × List (List Char))
  | [] => none
  | line :: lines =>
    if isClosingFence line then some ([], lines)
    else (cutAtFence? lines).map fun (before, after) => (line :: before, after)

/-- The text without one line feed at its end. -/
def withoutFeed (text : List Char) : List Char :=
  (beforeEnd? ['\n'] text).getD text

/-- Only the last part of a text can lose a line feed. -/
theorem withoutFeed_append (front : List Char) {text : List Char} (h : text ≠ []) :
    withoutFeed (front ++ text) = front ++ withoutFeed text := by
  by_cases hl : text.getLast h = '\n'
  · have ht : text = text.dropLast ++ ['\n'] := by
      rw [← hl, List.dropLast_concat_getLast h]
    have hb : beforeEnd? ['\n'] text = some text.dropLast := beforeEnd?_eq_some_iff.mpr ht
    have hf : beforeEnd? ['\n'] (front ++ text) = some (front ++ text.dropLast) :=
      beforeEnd?_eq_some_iff.mpr (by rw [List.append_assoc, ← ht])
    simp [withoutFeed, hb, hf]
  · have none_of_last : ∀ front : List Char, beforeEnd? ['\n'] (front ++ text) = none := by
      intro front
      rw [Option.eq_none_iff_forall_ne_some]
      intro rest heq
      have := congrArg List.getLast? (beforeEnd?_eq_some_iff.mp heq)
      simp [List.getLast?_append, List.getLast?_eq_some_getLast h, hl] at this
    have hb : beforeEnd? ['\n'] text = none := none_of_last []
    simp [withoutFeed, hb, none_of_last front]

theorem untilClosing?_no_feed {text : List Char} (h : '\n' ∉ text) :
    untilClosing? text = none := by
  induction text with
  | nil => rfl
  | cons c rest ih =>
      have hc : c ≠ '\n' := fun heq => h (heq ▸ List.mem_cons_self)
      have hr := ih fun hm => h (List.mem_cons_of_mem _ hm)
      simp [untilClosing?, hc, hr]

/-- A block is closed behind its first line, or later. -/
theorem untilClosing?_more {line : List Char} (rest : List Char) (h : '\n' ∉ line) :
    untilClosing? (line ++ '\n' :: rest) =
      match afterClosing? rest with
      | some body => some (line, body)
      | none =>
        (untilClosing? rest).map fun (before, after) => (line ++ '\n' :: before, after) := by
  induction line with
  | nil => rfl
  | cons c line ih =>
      have hc : c ≠ '\n' := fun heq => h (heq ▸ List.mem_cons_self)
      rw [List.cons_append, untilClosing?, if_neg hc, ih fun hm => h (List.mem_cons_of_mem _ hm)]
      cases afterClosing? rest with
      | some body => rfl
      | none => simp only [Option.map_map]; rfl

/-- The first line feed that a closing fence follows ends the line above the first
closing fence that is not the first line. -/
theorem untilClosing?_eq_lines (text : List Char) :
    untilClosing? text =
      match linesOf text with
      | [] => none
      | line :: later =>
        (cutAtFence? later).map fun (before, after) =>
          (withoutFeed (line :: before).flatten, after.flatten) := by
  induction text using line_induction with
  | last text h =>
      rw [untilClosing?_no_feed h, linesOf_last h]
      by_cases hn : text = [] <;> simp [hn, cutAtFence?]
  | more line rest h ih =>
      rw [untilClosing?_more rest h, linesOf_more rest h, afterClosing?_eq_lines, ih]
      cases hr : linesOf rest with
      | nil => simp [cutAtFence?]
      | cons first later =>
          have hf : first ≠ [] :=
            (linesOf_prefix_ends (show linesOf rest = [] ++ first :: later from hr)).2
          by_cases hc : isClosingFence first = true
          · have hl : withoutFeed (line ++ ['\n']) = line := by
              simp [withoutFeed, beforeEnd?_eq_some_iff.mpr (rfl : line ++ ['\n'] = _)]
            simp [cutAtFence?, hc, hl]
          · have hl : ∀ before : List (List Char),
                withoutFeed (line ++ '\n' :: (first ++ before.flatten)) =
                  line ++ '\n' :: withoutFeed (first ++ before.flatten) := by
              intro before
              have hb : first ++ before.flatten ≠ [] := by simp [hf]
              simpa using withoutFeed_append (line ++ ['\n']) hb
            simp [cutAtFence?, hc, hl, Option.map_map, Function.comp_def]

/-- Lines are cut where a closing fence stands. -/
theorem cutAtFence?_eq_some {lines before after : List (List Char)}
    (h : cutAtFence? lines = some (before, after)) :
    ∃ fence, isClosingFence fence = true ∧ lines = before ++ fence :: after := by
  induction lines generalizing before with
  | nil => simp [cutAtFence?] at h
  | cons line lines ih =>
      by_cases hc : isClosingFence line = true
      · simp only [cutAtFence?, hc, if_true, Option.some.injEq, Prod.mk.injEq] at h
        obtain ⟨rfl, rfl⟩ := h
        exact ⟨line, hc, rfl⟩
      · rw [cutAtFence?, if_neg hc] at h
        simp only [Option.map_eq_some_iff, Prod.mk.injEq] at h
        obtain ⟨⟨b, a⟩, hcut, rfl, rfl⟩ := h
        obtain ⟨fence, hf, rfl⟩ := ih hcut
        exact ⟨fence, hf, rfl⟩

/-- Lines without a closing fence are not cut. -/
theorem cutAtFence?_eq_none_iff {lines : List (List Char)} :
    cutAtFence? lines = none ↔ lines.any isClosingFence = false := by
  induction lines with
  | nil => simp [cutAtFence?]
  | cons line lines ih =>
      by_cases hc : isClosingFence line = true
      · simp [cutAtFence?, hc]
      · simp [cutAtFence?, hc, ih]

/-- The lines of a block and the lines behind its closing fence, given the lines
below the opening fence. -/
def closeBlock? : List (List Char) → Option (List (List Char) × List (List Char))
  | [] => none
  | first :: others =>
    match cutAtFence? others with
    | some (before, after) => some (first :: before, after)
    | none => if isClosingFence first then some ([], others) else none

/-- The text without the line break at its end. -/
def withoutLastBreak (text : List Char) : List Char :=
  ((beforeEnd? ['\r', '\n'] text).or (beforeEnd? ['\n'] text)).getD text

/-- Taking the line feed and then the carriage return away takes the line break
away, if there is one. -/
theorem withoutReturn_withoutFeed (body : List Char) :
    withoutReturn (withoutFeed (body ++ ['\n'])) = withoutLastBreak (body ++ ['\n']) := by
  have hr : beforeEnd? ['\r', '\n'] (body ++ ['\n']) = beforeEnd? ['\r'] body :=
    beforeEnd?_append_single ['\r'] body '\n'
  have hn : beforeEnd? ['\n'] (body ++ ['\n']) = some body :=
    beforeEnd?_eq_some_iff.mpr rfl
  simp only [withoutReturn, withoutFeed, withoutLastBreak, hn, hr, Option.getD_some]
  cases beforeEnd? ['\r'] body <;> rfl

/-- Lines above a line of the same text are ended by a line break. -/
theorem withoutLastBreak_lines {text first line : List Char}
    {before above after : List (List Char)}
    (h : linesOf text = above ++ (first :: before) ++ line :: after) :
    withoutReturn (withoutFeed (first :: before).flatten) =
      withoutLastBreak (first :: before).flatten := by
  have hends := (linesOf_prefix_ends h).1
  obtain ⟨front, last, hl⟩ :=
    (List.eq_nil_or_concat (first :: before)).resolve_left (List.cons_ne_nil first before)
  obtain ⟨body, hb⟩ := hends last (by simp [hl])
  rw [hl, List.concat_eq_append, List.flatten_append, List.flatten_singleton, hb,
    ← List.append_assoc]
  exact withoutReturn_withoutFeed _

/-- The lines behind the first one are those of the text behind it. -/
theorem linesOf_flatten_tail {text line : List Char} {later : List (List Char)}
    (h : linesOf text = line :: later) : linesOf later.flatten = later := by
  rcases line_cases text with hn | ⟨first, rest, hn, rfl⟩
  · rw [linesOf_last hn] at h
    by_cases ht : text = []
    · simp [ht] at h
    · rw [if_neg ht, List.cons.injEq] at h
      simp [← h.2, linesOf]
  · rw [linesOf_more rest hn, List.cons.injEq] at h
    rw [← h.2, flatten_linesOf]

/-- **The split of a text, by lines.**  An opening fence on the first line, and a
fence that closes the lines below it. -/
theorem split_eq_lines (text : List Char) :
    split text =
      match linesOf text with
      | [] => ⟨none, text⟩
      | opening :: later =>
        if isOpeningFence opening then
          match closeBlock? later with
          | some (front, after) => ⟨some (withoutLastBreak front.flatten), after.flatten⟩
          | none => ⟨none, text⟩
        else ⟨none, text⟩ := by
  cases hl : linesOf text with
  | nil => simp [split, afterOpening?_eq_lines, hl]
  | cons opening later =>
      by_cases ho : isOpeningFence opening = true
      · simp only [split, afterOpening?_eq_lines, hl, ho, if_true, untilClosing?_eq_lines,
          afterClosing?_eq_lines, linesOf_flatten_tail hl]
        cases later with
        | nil => rfl
        | cons first others =>
            cases hc : cutAtFence? others with
            | some parts =>
                obtain ⟨before, after⟩ := parts
                obtain ⟨fence, _, rfl⟩ := cutAtFence?_eq_some hc
                have hb := withoutLastBreak_lines (show linesOf text =
                  [opening] ++ (first :: before) ++ fence :: after from hl)
                simp only [closeBlock?, hc, Option.map_some, hb]
            | none =>
                by_cases hf : isClosingFence first = true
                · simp [closeBlock?, hc, hf, withoutLastBreak, beforeEnd?, afterStart?]
                · simp [closeBlock?, hc, hf]
      · simp [split, afterOpening?_eq_lines, hl, ho]

/-! ### The first fence -/

/-- The split whose block is closed by the first closing fence that is not among
the first `passed` lines below the opening fence. -/
def splitBelow (passed : Nat) (text : List Char) : Split :=
  match linesOf text with
  | [] => ⟨none, text⟩
  | opening :: later =>
    if isOpeningFence opening then
      match cutAtFence? (later.drop passed) with
      | some (before, after) =>
        ⟨some (withoutLastBreak (later.take passed ++ before).flatten), after.flatten⟩
      | none => ⟨none, text⟩
    else ⟨none, text⟩

/-- A closing fence stands directly below the opening fence, and another one
further down. -/
def repeatsFence (text : List Char) : Bool :=
  match linesOf text with
  | opening :: first :: others =>
    isOpeningFence opening && isClosingFence first && others.any isClosingFence
  | _ => false

/-- Where a fence follows later, the first line belongs to the block. -/
theorem closeBlock?_of_repeats {first : List Char} {others : List (List Char)}
    (h : others.any isClosingFence = true) :
    closeBlock? (first :: others) =
      (cutAtFence? others).map fun (before, after) => (first :: before, after) := by
  cases hc : cutAtFence? others with
  | none => simp [cutAtFence?_eq_none_iff.mp hc] at h
  | some parts => simp [closeBlock?, hc]

/-- Without a second fence the block is closed by the first one. -/
theorem closeBlock?_of_single {first : List Char} {others : List (List Char)}
    (h : isClosingFence first = true → others.any isClosingFence = false) :
    closeBlock? (first :: others) = cutAtFence? (first :: others) := by
  by_cases hf : isClosingFence first = true
  · simp [closeBlock?, cutAtFence?, hf, cutAtFence?_eq_none_iff.mpr (h hf)]
  · cases hc : cutAtFence? others <;> simp [closeBlock?, cutAtFence?, hf, hc]

/-- The line below the opening fence is passed over exactly where a fence stands behind it. -/
theorem split_eq_splitBelow (text : List Char) :
    split text = splitBelow (if repeatsFence text then 1 else 0) text := by
  cases hl : linesOf text with
  | nil => simp [split_eq_lines, splitBelow, hl]
  | cons opening later =>
      cases later with
      | nil => simp [split_eq_lines, splitBelow, repeatsFence, hl, closeBlock?, cutAtFence?]
      | cons first others =>
          by_cases hr : isClosingFence first = true ∧ others.any isClosingFence = true
          · simp only [split_eq_lines, splitBelow, repeatsFence, hl, hr.1, hr.2,
              closeBlock?_of_repeats hr.2]
            by_cases ho : isOpeningFence opening = true
            · cases hc : cutAtFence? others <;> simp [ho, hc]
            · simp [ho]
          · have hs : isClosingFence first = true → others.any isClosingFence = false := by
              intro hf
              simpa [hf] using hr
            have hz : repeatsFence text = false := by
              simpa [repeatsFence, hl] using fun _ => by simpa using hs
            simp [split_eq_lines, splitBelow, hz, hl, closeBlock?_of_single hs]

/-- Closing at the fence that is passed over would leave a longer body. -/
theorem splitBelow_ne {text : List Char} (h : repeatsFence text = true) :
    splitBelow 1 text ≠ splitBelow 0 text := by
  unfold repeatsFence at h
  cases hl : linesOf text with
  | nil => simp [hl] at h
  | cons opening later =>
      cases later with
      | nil => simp [hl] at h
      | cons first others =>
          simp only [hl, Bool.and_eq_true] at h
          obtain ⟨⟨ho, hf⟩, ha⟩ := h
          cases hc : cutAtFence? others with
          | none => simp [cutAtFence?_eq_none_iff.mp hc] at ha
          | some parts =>
              obtain ⟨before, after⟩ := parts
              obtain ⟨fence, hfence, rfl⟩ := cutAtFence?_eq_some hc
              have hne : fence ≠ [] := by
                intro heq
                subst heq
                exact absurd hfence (by decide)
              intro heq
              have hbody := congrArg (fun s : Split => s.body.length) heq
              have hpos := List.length_pos_iff.mpr hne
              simp [splitBelow, hl, ho, hf, hc, cutAtFence?] at hbody
              omega

/-- **The first fence below the opening one closes, unless it comes at once and
another one follows.**  Then it is passed over, and the split is another one than
that at the first fence. -/
theorem split_by_lines (text : List Char) :
    split text = splitBelow (if repeatsFence text then 1 else 0) text ∧
      (split text = splitBelow 0 text ↔ repeatsFence text = false) := by
  refine ⟨split_eq_splitBelow text, ?_⟩
  rw [split_eq_splitBelow text]
  by_cases hr : repeatsFence text = true
  · simpa [hr] using splitBelow_ne hr
  · simp [hr]

/-- Two fences directly below each other, and a third one. -/
example : split "---\n---\na\n---\nb".toList = ⟨some "---\na".toList, "b".toList⟩ ∧
    splitBelow 0 "---\n---\na\n---\nb".toList = ⟨some [], "a\n---\nb".toList⟩ := by
  decide

end ContentCatalog.Source
