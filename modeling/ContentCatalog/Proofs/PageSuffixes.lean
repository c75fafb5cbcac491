import ContentCatalog.Proofs.PathSegments
import Mathlib.Data.List.Basic

/-!
# Suffixes in any case of letters

What a file holds is told by the lower case of its whole path, while its suffix is cut off
letter by letter behind the last dot.  Lower case may lengthen a text and looks at the letters
around a capital sigma, so that the two need not agree; they do, because none of this happens
at the end of a path with a suffix of ASCII letters.

* `lowerChar_eq_dot` : nothing but a dot has a dot as its small letter;
* `exists_end_of_lowerAfter` : an end of ASCII in the lower case is the lower case of an end,
  letter by letter;
* `cutSuffix_append` : a suffix in any case of letters is cut off, and no more;
* `HasStem.stem_iff` : a page has one stem;
* `suffixes_agree` : what is told by its suffix loses exactly its suffix.
-/

namespace ContentCatalog

namespace Text

/-! ### Small letters in ASCII -/

/-- A valid code point is that of its character. -/
theorem toNat_ofNat_of_isValidChar {n : Nat} (h : n.isValidChar) : (Char.ofNat n).toNat = n :=
  congrArg Char.toNat (dif_pos h)

/-- The runs of capitals above ASCII lead to letters above ASCII.  The sign of the kelvin is the
one exception. -/
theorem capitalRuns_wide : ∀ run ∈ capitalRuns,
    run = (0x212A, 0x212A, 1, -8383) ∨
      (128 ≤ (run.1 : Int) + run.2.2.2 ∧ (run.2.1 : Int) + run.2.2.2 < 0xD800) ∨
      (0xE000 ≤ (run.1 : Int) + run.2.2.2 ∧ (run.2.1 : Int) + run.2.2.2 < 0x110000) := by
  decide +kernel

/-- Above ASCII only the sign of the kelvin has a small letter in ASCII. -/
theorem eq_kelvin_of_lowerChar {c : Char} (hc : 128 ≤ c.toNat)
    (h : (lowerChar c).toNat < 128) : c = '\u212A' := by
  unfold lowerChar at h
  rw [if_neg (by omega)] at h
  split at h
  · next first last step shift hfind =>
      have hrun := capitalRuns_wide _ (List.mem_of_find?_eq_some hfind)
      have hinside := List.find?_some hfind
      simp only [Bool.and_eq_true, decide_eq_true_eq] at hinside
      obtain ⟨⟨hfirst, hlast⟩, -⟩ := hinside
      rcases hrun with hkelvin | hrun
      · simp only [Prod.mk.injEq] at hkelvin
        apply Char.toNat_inj.mp
        show c.toNat = 0x212A
        omega
      · have hvalid : (Int.toNat (c.toNat + shift)).isValidChar := by
          unfold Nat.isValidChar
          simp only at hrun
          omega
        rw [toNat_ofNat_of_isValidChar hvalid] at h
        simp only at hrun
        omega
  · omega

/-- **Nothing but a dot** has a dot as its small letter. -/
theorem lowerChar_eq_dot {c : Char} (h : lowerChar c = '.') : c = '.' := by
  by_cases hc : c.toNat < 128
  · rw [lowerChar_ascii hc] at h
    split at h
    · next hcapital =>
        simp only [Bool.and_eq_true, decide_eq_true_eq] at hcapital
        have hvalid : (c.toNat + 32).isValidChar := by
          unfold Nat.isValidChar
          omega
        have hdot := congrArg Char.toNat h
        rw [toNat_ofNat_of_isValidChar hvalid] at hdot
        have hnat : ('.' : Char).toNat = 46 := rfl
        omega
    · exact h
  · obtain rfl : c = '\u212A' := by
      apply eq_kelvin_of_lowerChar (by omega)
      rw [h]
      decide
    exact absurd h (by decide +kernel)

/-! ### The end of a lower case -/

/-- The text is of ASCII. -/
def IsAscii (text : List Char) : Prop :=
  ∀ c ∈ text, c.toNat < 128

/-- The characters whose lower case is more than a small letter. -/
def IsSpecialCapital (c : Char) : Prop :=
  c = '\u0130' ∨ c = '\u03A3'

/-- Most characters have a lower case of their own, whatever is around them. -/
theorem lowerAfter_cons_of_not_special {c : Char} (h : ¬ IsSpecialCapital c)
    (before rest : List Char) :
    lowerAfter before (c :: rest) = lowerChar c :: lowerAfter (c :: before) rest := by
  unfold IsSpecialCapital at h
  rw [not_or] at h
  simp [lowerAfter, h.1, h.2]

/-- What a special capital becomes ends above ASCII. -/
theorem lowerAfter_cons_of_special {c : Char} (h : IsSpecialCapital c) (before rest : List Char) :
    ∃ front wide, ¬ wide.toNat < 128 ∧
      lowerAfter before (c :: rest) = front ++ wide :: lowerAfter (c :: before) rest := by
  rcases h with rfl | rfl
  · exact ⟨['i'], '\u0307', by decide, rfl⟩
  · rw [lowerAfter, if_neg (by decide), if_pos (by decide)]
    split
    · exact ⟨[], '\u03C2', by decide, rfl⟩
    · exact ⟨[], '\u03C3', by decide, rfl⟩

/-- A special capital leaves a trace above ASCII. -/
theorem not_special_of_isAscii {before text : List Char} (h : IsAscii (lowerAfter before text)) :
    ∀ c ∈ text, ¬ IsSpecialCapital c := by
  induction text generalizing before with
  | nil => exact List.forall_mem_nil _
  | cons c text ih =>
      have hplain : ¬ IsSpecialCapital c := by
        intro hspecial
        obtain ⟨front, wide, hwide, heq⟩ := lowerAfter_cons_of_special hspecial before text
        rw [heq] at h
        exact hwide (h wide (by simp))
      rw [lowerAfter_cons_of_not_special hplain] at h
      exact List.forall_mem_cons.mpr ⟨hplain, ih (List.forall_mem_cons.mp h).2⟩

/-- Without special capitals the letters around do not matter. -/
theorem lowerAfter_eq_map {text : List Char} (h : ∀ c ∈ text, ¬ IsSpecialCapital c)
    (before : List Char) : lowerAfter before text = text.map lowerChar := by
  induction text generalizing before with
  | nil => rfl
  | cons c text ih =>
      obtain ⟨hc, hrest⟩ := List.forall_mem_cons.mp h
      rw [lowerAfter_cons_of_not_special hc, ih hrest, List.map_cons]

/-- A text with ASCII as its lower case is made small letter by letter. -/
theorem lowerAfter_of_isAscii {before text : List Char} (h : IsAscii (lowerAfter before text))
    (other : List Char) : lowerAfter other text = text.map lowerChar :=
  lowerAfter_eq_map (not_special_of_isAscii h) other

/-- **An end of ASCII in the lower case** of a text is the lower case of an end of the text. -/
theorem exists_end_of_lowerAfter {before text start word : List Char} (hword : IsAscii word)
    (h : lowerAfter before text = start ++ word) :
    ∃ front finish, text = front ++ finish ∧ lower finish = word := by
  induction text generalizing before start with
  | nil =>
      obtain ⟨-, rfl⟩ := List.append_eq_nil_iff.mp h.symm
      exact ⟨[], [], rfl, rfl⟩
  | cons c text ih =>
      -- The end begins with this character, or it lies in what follows.
      cases start with
      | nil =>
          rw [List.nil_append] at h
          have hmap := lowerAfter_of_isAscii (h ▸ hword)
          exact ⟨[], c :: text, rfl, (hmap []).trans ((hmap before).symm.trans h)⟩
      | cons d start =>
          have hrest : ∃ others, lowerAfter (c :: before) text = others ++ word := by
            by_cases hc : IsSpecialCapital c
            · obtain ⟨front, wide, hwide, heq⟩ := lowerAfter_cons_of_special hc before text
              rw [heq, List.append_eq_append_iff] at h
              rcases h with ⟨middle, -, htail⟩ | ⟨middle, -, htail⟩
              · cases middle with
                | nil =>
                    rw [List.nil_append] at htail
                    exact absurd (hword wide (by simp [← htail])) hwide
                | cons e middle => exact ⟨middle, (List.cons.inj htail).2⟩
              · exact absurd (hword wide (by simp [htail])) hwide
            · rw [lowerAfter_cons_of_not_special hc] at h
              exact ⟨start, (List.cons.inj h).2⟩
          obtain ⟨others, hothers⟩ := hrest
          obtain ⟨front, finish, rfl, hfinish⟩ := ih hothers
          exact ⟨c :: front, finish, rfl, hfinish⟩

/-! ### First places -/

/-- `needle` stands behind `before` and nowhere earlier, and `after` follows it. -/
def StandsFirst (needle text before after : List Char) : Prop :=
  text = before ++ needle ++ after ∧
    ∀ earlier later, text = earlier ++ needle ++ later → before.length ≤ earlier.length

/-- A text is cut where the needle stands first. -/
theorem length_le_of_cut? {needle text before after : List Char}
    (h : cut? needle text = some (before, after)) {earlier later : List Char}
    (heq : text = earlier ++ needle ++ later) : before.length ≤ earlier.length := by
  induction text generalizing before after earlier with
  | nil =>
      have hempty := append_of_cut? h
      simp only [List.nil_eq, List.append_eq_nil_iff] at hempty
      rw [hempty.1.1]
      exact Nat.zero_le _
  | cons c text ih =>
      rw [cut?] at h
      split at h
      · rw [← (Prod.mk.inj (Option.some.inj h)).1]
        exact Nat.zero_le _
      · next hnone =>
          obtain ⟨⟨behind, rest⟩, hcut, hpair⟩ := Option.map_eq_some_iff.mp h
          rw [← (Prod.mk.inj hpair).1]
          cases earlier with
          | nil =>
              rw [List.nil_append] at heq
              rw [afterStart?_eq_some_iff.mpr heq] at hnone
              cases hnone
          | cons d earlier => exact Nat.succ_le_succ (ih hcut (List.cons.inj heq).2)

/-- **A text is cut** at the first place of what is searched. -/
theorem cut?_eq_some_iff {needle text before after : List Char} :
    cut? needle text = some (before, after) ↔ StandsFirst needle text before after := by
  constructor
  · intro h
    exact ⟨append_of_cut? h, fun earlier later => length_le_of_cut? h⟩
  · rintro ⟨heq, hfirst⟩
    obtain ⟨⟨other, rest⟩, hcut⟩ := Option.isSome_iff_exists.mp
      (show occurs needle text = true from occurs_iff.mpr ⟨before, after, heq⟩)
    have hother := append_of_cut? hcut
    have hlength : other.length = before.length :=
      Nat.le_antisymm (length_le_of_cut? hcut heq) (hfirst other rest hother)
    rw [heq, List.append_assoc, List.append_assoc] at hother
    obtain ⟨rfl, hrest⟩ := List.append_inj hother hlength.symm
    rw [hcut, List.append_cancel_left hrest]

end Text

namespace Path

open Text

/-! ### Cutting a suffix -/

/-- The word is made of small letters of ASCII. -/
def IsSmallWord (word : List Char) : Prop :=
  word ≠ [] ∧ ∀ c ∈ word, 97 ≤ c.toNat ∧ c.toNat ≤ 122

instance (word : List Char) : Decidable (IsSmallWord word) :=
  have : Decidable (∀ c ∈ word, 97 ≤ c.toNat ∧ c.toNat ≤ 122) := List.decidableBAll _ word
  inferInstanceAs (Decidable (_ ∧ _))

/-- A suffix of small letters is of ASCII. -/
theorem IsSmallWord.isAscii {word : List Char} (h : IsSmallWord word) : IsAscii ('.' :: word) := by
  intro c hc
  rcases List.mem_cons.mp hc with rfl | hc
  · decide
  · have hrange := h.2 c hc
    omega

/-- Letters with a small word as their lower case are letters only. -/
theorem not_mem_of_map_lowerChar {letters : List Char} (h : IsSmallWord (letters.map lowerChar))
    {c : Char} (hself : lowerChar c = c) (hc : ¬ (97 ≤ c.toNat ∧ c.toNat ≤ 122)) :
    c ∉ letters := by
  intro hm
  apply hc
  have hrange := h.2 _ (List.mem_map_of_mem hm)
  rwa [hself] at hrange

/-- A suffix in any case of letters is a dot and letters. -/
theorem exists_letters {ext word : List Char} (hword : IsSmallWord word)
    (h : lower ext = '.' :: word) : ∃ letters, ext = '.' :: letters ∧ letters.map lowerChar = word := by
  have hascii : IsAscii (lowerAfter [] ext) := by
    rw [← lower, h]
    exact hword.isAscii
  have hmap := lowerAfter_of_isAscii hascii []
  rw [← lower, h] at hmap
  cases ext with
  | nil => cases hmap
  | cons c letters =>
      obtain ⟨hdot, hletters⟩ := List.cons.inj hmap
      rw [lowerChar_eq_dot hdot.symm]
      exact ⟨letters, rfl, hletters.symm⟩

/-- A word is a form of its lower case. -/
theorem isWordForm_map (letters : List Char) :
    isWordForm (letters.map lowerChar) letters = true := by
  induction letters with
  | nil => rfl
  | cons c letters ih => simp [isWordForm, isLetterForm, ih]

/-- The letters behind the last dot are an extension. -/
theorem beforeSuffix?_append {words : List (List Char)} {letters : List Char} (hdot : '.' ∉ letters)
    (hform : words.any (fun word => isWordForm word letters) = true) (stem : List Char) :
    beforeSuffix? words (stem ++ '.' :: letters) = some stem := by
  have hall : ∀ c ∈ letters.reverse, (c != '.') = true := by
    intro c hc
    rw [bne_iff_ne]
    rintro rfl
    exact hdot (List.mem_reverse.mp hc)
  have hreverse : (stem ++ '.' :: letters).reverse = letters.reverse ++ '.' :: stem.reverse := by
    simp
  simp only [beforeSuffix?, hreverse, List.takeWhile_append_of_pos hall,
    List.dropWhile_append_of_pos hall]
  simp [hform]

/-- Only a line feed at the very end is left out when a suffix is searched. -/
theorem cutSuffix_of_getLast? {text : List Char} (h : text.getLast? ≠ some '\n')
    (words : List (List Char)) :
    cutSuffix words text = (beforeSuffix? words text).getD text := by
  have hline : beforeEnd? ['\n'] text = none := by
    rw [Option.eq_none_iff_forall_ne_some]
    intro line hline
    apply h
    rw [beforeEnd?_eq_some_iff.mp hline, List.getLast?_concat]
  rw [cutSuffix, hline]

/-- **A suffix in any case of letters** is cut off, and no more. -/
theorem cutSuffix_append {words : List (List Char)} {word ext : List Char} (hmem : word ∈ words)
    (hword : IsSmallWord word) (hext : lower ext = '.' :: word) (stem : List Char) :
    cutSuffix words (stem ++ ext) = stem := by
  obtain ⟨letters, rfl, rfl⟩ := exists_letters hword hext
  have hdot : '.' ∉ letters := not_mem_of_map_lowerChar hword (by decide) (by decide)
  have hfeed : '\n' ∉ letters := not_mem_of_map_lowerChar hword (by decide) (by decide)
  have hform : words.any (fun word => isWordForm word letters) = true :=
    List.any_eq_true.mpr ⟨_, hmem, isWordForm_map letters⟩
  have hlast : (stem ++ '.' :: letters).getLast? ≠ some '\n' := by
    rw [List.getLast?_append_of_ne_nil _ (List.cons_ne_nil _ _)]
    intro h
    rcases List.mem_cons.mp (List.mem_of_getLast? h) with h | h
    · exact absurd h (by decide)
    · exact hfeed h
  rw [cutSuffix_of_getLast? hlast, beforeSuffix?_append hdot hform, Option.getD_some]

/-! ### Suffixes of paths -/

/-- Each of the suffixes is a dot and one of the words. -/
def AreSuffixes (suffixes words : List (List Char)) : Prop :=
  ∀ suffix ∈ suffixes, ∃ word ∈ words, IsSmallWord word ∧ suffix = '.' :: word

/-- The suffixes of pages. -/
def pageSuffixes : List (List Char) :=
  componentSuffix :: markdownSuffixes

/-- The suffixes of pages are dots with small words. -/
theorem areSuffixes_pages : AreSuffixes pageSuffixes pageWords := by
  unfold AreSuffixes
  decide

theorem areSuffixes_datasets : AreSuffixes datasetSuffixes datasetWords := by
  unfold AreSuffixes
  decide

section Suffixes

variable {suffixes words : List (List Char)} {path ext : List Char}

/-- A path that is told by its suffix ends with the suffix in some case of letters. -/
theorem exists_suffix (h : AreSuffixes suffixes words) (hpath : hasSuffix suffixes path = true) :
    ∃ front ext, normalize path = front ++ ext ∧ lower ext ∈ suffixes := by
  obtain ⟨suffix, hmem, start, hlower⟩ := hasSuffix_iff.mp hpath
  obtain ⟨word, -, hword, rfl⟩ := h suffix hmem
  obtain ⟨front, ext, hsplit, hext⟩ := exists_end_of_lowerAfter hword.isAscii hlower
  exact ⟨front, ext, hsplit, hext ▸ hmem⟩

/-- A suffix has no slash, in whatever case. -/
theorem slash_not_mem (h : AreSuffixes suffixes words) (hext : lower ext ∈ suffixes) :
    '/' ∉ ext := by
  obtain ⟨word, -, hword, heq⟩ := h _ hext
  obtain ⟨letters, rfl, rfl⟩ := exists_letters hword heq
  have hletters : '/' ∉ letters := not_mem_of_map_lowerChar hword (by decide) (by decide)
  simp [hletters]

/-- A suffix is cut off in whatever case. -/
theorem cutSuffix_of_mem (h : AreSuffixes suffixes words) (hext : lower ext ∈ suffixes)
    (stem : List Char) : cutSuffix words (stem ++ ext) = stem := by
  obtain ⟨word, hmem, hword, heq⟩ := h _ hext
  exact cutSuffix_append hmem hword heq stem

end Suffixes

/-- An end without a slash lies behind every slash. -/
theorem exists_behind_slash {before after front finish : List Char}
    (h : before ++ '/' :: after = front ++ finish) (hslash : '/' ∉ finish) :
    ∃ middle, after = middle ++ finish := by
  rcases List.append_eq_append_iff.mp h with ⟨middle, -, htail⟩ | ⟨middle, -, hfinish⟩
  · cases middle with
    | nil =>
        rw [List.nil_append] at htail
        exact absurd (htail ▸ List.mem_cons_self) hslash
    | cons c middle => exact ⟨middle, (List.cons.inj htail).2⟩
  · exact absurd (hfinish ▸ List.mem_append_right middle List.mem_cons_self) hslash

/-! ### Pages -/

/-- Below the first page directory of the path stands the stem, and then a suffix of pages in
any case of letters. -/
def HasStem (path stem ext : List Char) : Prop :=
  ∃ before, StandsFirst pageRegion (anchored path) before (stem ++ ext) ∧
    lower ext ∈ pageSuffixes

/-- A page is a file with one of the suffixes below the pages. -/
theorem isPage_iff {path : List Char} :
    isPage path = true ↔ isUnderPages path = true ∧ hasSuffix pageSuffixes path = true := by
  simp only [isPage, isComponent, isMarkdown, hasSuffix, pageSuffixes, Bool.and_eq_true,
    List.any_cons, List.any_nil, Bool.or_false]

/-- A path that is anchored gets at most one character in front. -/
theorem exists_anchored (path : List Char) :
    ∃ lead, anchored path = lead ++ normalize path ∧ lead.length ≤ 1 := by
  unfold anchored
  split
  · next heq => exact ⟨[], heq.symm, Nat.zero_le _⟩
  · exact ⟨['/'], rfl, Nat.le_refl _⟩

/-- A page has a stem. -/
theorem exists_stem {path : List Char} (h : isPage path = true) :
    ∃ stem ext, HasStem path stem ext := by
  obtain ⟨hunder, hsuffix⟩ := isPage_iff.mp h
  obtain ⟨⟨before, below⟩, hcut⟩ := Option.isSome_iff_exists.mp hunder
  obtain ⟨front, ext, hpath, hext⟩ := exists_suffix areSuffixes_pages hsuffix
  obtain ⟨lead, hlead, -⟩ := exists_anchored path
  have hregion : pageRegion = "/src/pages".toList ++ ['/'] := by decide
  have hwhole : (before ++ "/src/pages".toList) ++ '/' :: below = (lead ++ front) ++ ext :=
    calc (before ++ "/src/pages".toList) ++ '/' :: below
        = before ++ pageRegion ++ below := by
          rw [hregion, List.append_assoc, List.append_assoc, List.append_assoc,
            List.singleton_append]
      _ = lead ++ normalize path := (append_of_cut? hcut).symm.trans hlead
      _ = (lead ++ front) ++ ext := by rw [hpath, List.append_assoc]
  obtain ⟨stem, rfl⟩ := exists_behind_slash hwhole (slash_not_mem areSuffixes_pages hext)
  exact ⟨stem, ext, before, cut?_eq_some_iff.mp hcut, hext⟩

section Stem

variable {path stem ext : List Char}

/-- What stands below the pages is the stem with its suffix. -/
theorem HasStem.underPages?_eq (h : HasStem path stem ext) :
    underPages? path = some (stem ++ ext) := by
  obtain ⟨before, hfirst, -⟩ := h
  rw [underPages?, cut?_eq_some_iff.mpr hfirst]
  rfl

/-- And the stem is what is left without it. -/
theorem HasStem.cutSuffix_eq (h : HasStem path stem ext) :
    cutSuffix pageWords (stem ++ ext) = stem := by
  obtain ⟨-, -, hext⟩ := h
  exact cutSuffix_of_mem areSuffixes_pages hext stem

/-- The route of a page is that of its stem. -/
theorem HasStem.route_eq (h : HasStem path stem ext) : route path = routeOfStem stem := by
  simp only [route, h.underPages?_eq, h.cutSuffix_eq]

/-- **A page has one stem.** -/
theorem HasStem.stem_iff (h : HasStem path stem ext) (other : List Char) :
    (∃ otherExt, HasStem path other otherExt) ↔ other = stem := by
  constructor
  · rintro ⟨otherExt, ho⟩
    have hbelow := ho.underPages?_eq.symm.trans h.underPages?_eq
    rw [← ho.cutSuffix_eq, Option.some.inj hbelow, h.cutSuffix_eq]
  · rintro rfl
    exact ⟨ext, h⟩

end Stem

/-! ### Datasets -/

/-- The last segment of a dataset's path is its name with a suffix in some case of letters. -/
theorem exists_suffix_of_isDataset {path : List Char} (h : isDataset path = true) :
    ∃ ext, (segments '/' (normalize path)).getLast? = some (datasetName path ++ ext) ∧
      lower ext ∈ datasetSuffixes := by
  obtain ⟨front, ext, hpath, hext⟩ := exists_suffix areSuffixes_datasets h
  have hslash := slash_not_mem areSuffixes_datasets hext
  obtain ⟨last, hlast⟩ := exists_getLast?_segments '/' (normalize path)
  have hend : ∃ name, last = name ++ ext := by
    rcases eq_or_append_of_getLast? hlast with heq | ⟨before, heq⟩
    · exact ⟨front, by rw [← heq, hpath]⟩
    · rw [hpath] at heq
      exact exists_behind_slash heq.symm hslash
  obtain ⟨name, rfl⟩ := hend
  have hne : name ++ ext ≠ [] := by
    obtain ⟨word, -, hword, heq⟩ := areSuffixes_datasets _ hext
    obtain ⟨letters, rfl, -⟩ := exists_letters hword heq
    simp
  have hname : datasetName path = name := by
    rw [datasetName, lastSegment_eq hlast hne]
    split
    · next heq => exact absurd heq hne
    · exact cutSuffix_of_mem areSuffixes_datasets hext name
  exact ⟨ext, by rw [hname, hlast], hext⟩

/-- **What is told by its suffix loses exactly its suffix.**  A page is its stem with a suffix,
and its route is made of the stem; a dataset is its name with a suffix. -/
theorem suffixes_agree (path : List Char) :
    (isPage path = true → ∃ stem ext, HasStem path stem ext ∧
      cutSuffix pageWords (stem ++ ext) = stem ∧ route path = routeOfStem stem) ∧
    (isDataset path = true → ∃ ext,
      (segments '/' (normalize path)).getLast? = some (datasetName path ++ ext) ∧
      lower ext ∈ datasetSuffixes) := by
  constructor
  · intro hpage
    obtain ⟨stem, ext, hstem⟩ := exists_stem hpage
    exact ⟨stem, ext, hstem, hstem.cutSuffix_eq, hstem.route_eq⟩
  · exact exists_suffix_of_isDataset

/-- A page below a page directory named like one, with the sign of the kelvin in its suffix. -/
def kelvinPage : List Char := "src/pages/src/pages/Post.v2.MAR\u212ADOWN".toList

/-- A dataset with backslashes in its path. -/
def backslashDataset : List Char := "src\\data\\team.v1.YmL".toList

/-- A page with the sign of the kelvin in its suffix, and a dataset with backslashes. -/
theorem suffixes_agree_sample :
    isPage kelvinPage = true ∧
    (∃ ext, HasStem kelvinPage "src/pages/Post.v2".toList ext ∧
      cutSuffix pageWords ("src/pages/Post.v2".toList ++ ext) = "src/pages/Post.v2".toList ∧
      route kelvinPage = routeOfStem "src/pages/Post.v2".toList) ∧
    isDataset backslashDataset = true ∧
    ∃ ext, (segments '/' (normalize backslashDataset)).getLast? = some ("team.v1".toList ++ ext) ∧
      lower ext ∈ datasetSuffixes := by
  have hpage : isPage kelvinPage = true := by decide +kernel
  have hdataset : isDataset backslashDataset = true := by decide
  obtain ⟨stem, ext, hstem, hcut, hroute⟩ := (suffixes_agree kelvinPage).1 hpage
  obtain rfl : stem = "src/pages/Post.v2".toList := by
    have hbelow : underPages? kelvinPage =
        some "src/pages/Post.v2.MAR\u212ADOWN".toList := by decide +kernel
    rw [← hcut, ← Option.some.inj (hbelow.symm.trans hstem.underPages?_eq)]
    decide +kernel
  have hname : datasetName backslashDataset = "team.v1".toList := by decide
  exact ⟨hpage, ⟨ext, hstem, hcut, hroute⟩, hdataset,
    hname ▸ (suffixes_agree backslashDataset).2 hdataset⟩

end Path

end ContentCatalog
