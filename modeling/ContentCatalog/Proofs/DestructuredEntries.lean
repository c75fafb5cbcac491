import ContentCatalog.Proofs.Literals
import ContentCatalog.Proofs.PathSegments
import ContentCatalog.Proofs.PrintedNumbers

/-!
# Entries of a destructured object

A declaration that takes the props apart is written down entry by entry, and read back.
The reader looks for the closing brace and for the commas without regard to quotes, so a
quoted text that holds one of them tears its entry.

* `literal_text` : a written literal is read as it was meant;
* `untilProps?_append`, `untilProps?_eq_some_iff` : text is passed over up to a brace behind
  which the props are assigned;
* `destructuringEntry?_eq_default_iff` : what counts as an entry with a default;
* `readEntries_append` : a comma parts entries that are read on their own;
* `destructuredFields_written` : the declarations that are read back, and no others.
-/

namespace ContentCatalog.Source

open Text Number

/-! ### Literals -/

/-- A default as it is meant. -/
inductive PropLiteral where
  | quoted (quote : Char) (content : List Char)
  | integer (negative : Bool) (digits : List Char)
  | decimal (negative : Bool) (whole fraction : List Char)
  | truth (value : Bool)
  | null

namespace PropLiteral

/-- The literal as it stands in a script. -/
def text : PropLiteral → List Char
  | .quoted quote content => quote :: (content ++ [quote])
  | .integer negative digits => minus negative ++ digits
  | .decimal negative whole fraction => minus negative ++ (whole ++ '.' :: fraction)
  | .truth true => "true".toList
  | .truth false => "false".toList
  | .null => "null".toList

/-- The value that the literal stands for: of a number with a point, the nearest double. -/
def value : PropLiteral → Value
  | .quoted _ content => .text (String.ofList content)
  | .integer negative digits => .int (signedValue negative (wholeOfDigits 10 (digitValues digits)))
  | .decimal negative whole fraction =>
    .float (Double.ofRatio negative (wholeOfDigits 10 (digitValues (whole ++ fraction)))
      (tenTo fraction.length))
  | .truth value => .bool value
  | .null => .null

/-- The type that the literal shows. -/
def type : PropLiteral → FieldType
  | .quoted _ _ => .string
  | .integer _ _ => .number
  | .decimal _ _ _ => .number
  | .truth _ => .boolean
  | .null => .unknown

/-- A quoted text does not hold its quote, numbers have digits, and whole ones not too
many. -/
def Proper : PropLiteral → Prop
  | .quoted quote content => (quote = '\x27' ∨ quote = '\x22') ∧ quote ∉ content
  | .integer _ digits => isDigits digits = true ∧ digits.length ≤ digitLimit
  | .decimal _ whole fraction => isDigits whole = true ∧ isDigits fraction = true
  | .truth _ => True
  | .null => True

end PropLiteral

/-- The values of digits are digits. -/
theorem areDigits_digitValues (text : List Char) : AreDigits (digitValues text) := by
  intro d hd
  obtain ⟨c, -, hc⟩ := List.mem_filterMap.mp hd
  exact digitValue?_lt hc

namespace PropLiteral

variable {meant : PropLiteral}

/-- Every literal has a text. -/
theorem text_ne_nil (h : meant.Proper) : meant.text ≠ [] := by
  have hnumber : ∀ text, isPlainNumber text = true → text ≠ [] := by
    intro text hplain
    obtain ⟨c, rest, rfl, -⟩ := exists_head_of_isPlainNumber hplain
    exact List.cons_ne_nil _ _
  cases meant with
  | quoted quote content => exact List.cons_ne_nil _ _
  | integer negative digits => exact hnumber _ (isPlainNumber_integer negative h.1)
  | decimal negative whole fraction => exact hnumber _ (isPlainNumber_decimal negative h.1 h.2)
  | truth value => cases value <;> decide
  | null => decide

/-- Only a quoted text holds what the reader of the declaration looks for. -/
theorem separator_not_mem (h : meant.Proper)
    (hquoted : ∀ quote content, meant ≠ .quoted quote content) {c : Char}
    (hc : c = ',' ∨ c = '\x7d') : c ∉ meant.text := by
  have hdigit : isDigit c = false := by rcases hc with rfl | rfl <;> decide
  have hsign : ∀ negative, c ∉ minus negative := by
    rintro (- | -) <;> rcases hc with rfl | rfl <;> decide
  have hpoint : c ≠ '.' := by rcases hc with rfl | rfl <;> decide
  cases meant with
  | quoted quote content => exact absurd rfl (hquoted quote content)
  | integer negative digits => simp [text, hsign, not_mem_of_isDigits h.1 hdigit]
  | decimal negative whole fraction =>
      simp [text, hsign, hpoint, not_mem_of_isDigits h.1 hdigit, not_mem_of_isDigits h.2 hdigit]
  | truth value => cases value <;> rcases hc with rfl | rfl <;> decide
  | null => rcases hc with rfl | rfl <;> decide

/-- The text of a literal is looked at as it is. -/
theorem literalText_text (h : meant.Proper) :
    IsStripped meant.text ∧ literalText meant.text = meant.text := by
  cases meant with
  | quoted quote content => exact literalText_quoted content h.1
  | integer negative digits => exact literalText_number (isPlainNumber_integer negative h.1)
  | decimal negative whole fraction =>
      exact literalText_number (isPlainNumber_decimal negative h.1 h.2)
  | truth value =>
      cases value <;> exact literalText_between rfl rfl (by decide) (by decide) (by decide)
  | null => exact literalText_between rfl rfl (by decide) (by decide) (by decide)

/-- **A written literal** is read as it was meant. -/
theorem literal_text (h : meant.Proper) : literal meant.text = .ok (meant.value, meant.type) := by
  obtain ⟨-, hself⟩ := literalText_text h
  cases meant with
  | quoted quote content => exact literal_quoted content h.1
  | integer negative digits =>
      obtain ⟨hdigits, hshort⟩ := h
      rw [text, literal_whole negative hdigits, readInteger_of_isDigits negative hdigits hshort]
      rfl
  | decimal negative whole fraction =>
      obtain ⟨hwhole, hfraction⟩ := h
      have hpoint : (minus negative ++ (whole ++ '.' :: fraction)).contains '.' = true := by simp
      have hbehind : 0 < fraction.length :=
        List.length_pos_iff.mpr (isDigits_iff.mp hfraction).1
      rw [literal_number hself (isPlainNumber_decimal negative hwhole hfraction), text, hpoint,
        if_pos rfl, readDecimal_of_isDigits negative hwhole hfraction, ← digitValues_append,
        decimalOf_eq_ofRatio negative (areDigits_digitValues _) hbehind]
      rfl
  | truth value => cases value <;> rfl
  | null => rfl

end PropLiteral

/-! ### The closing brace -/

/-- The text goes on with the assignment of the props. -/
def AssignsProps (text : List Char) : Prop :=
  ∃ blanks others rest, (∀ c ∈ blanks, isSpace c = true) ∧ (∀ c ∈ others, isSpace c = true) ∧
    text = blanks ++ '=' :: (others ++ ("Astro.props".toList ++ rest))

/-- Behind a closing brace of the text the props are assigned. -/
def Closes (text : List Char) : Prop :=
  ∃ before after, text = before ++ '\x7d' :: after ∧ AssignsProps after

/-- Text closes the declaration at its first brace, or behind its first character. -/
theorem closes_cons {c : Char} {text : List Char} :
    Closes (c :: text) ↔ c = '\x7d' ∧ AssignsProps text ∨ Closes text := by
  constructor
  · rintro ⟨before, after, heq, hassigns⟩
    cases before with
    | nil =>
        obtain ⟨hc, htext⟩ := List.cons.inj heq
        exact .inl ⟨hc, htext ▸ hassigns⟩
    | cons d before => exact .inr ⟨before, after, (List.cons.inj heq).2, hassigns⟩
  · rintro (⟨rfl, hassigns⟩ | ⟨before, after, rfl, hassigns⟩)
    · exact ⟨[], text, rfl, hassigns⟩
    · exact ⟨c :: before, after, rfl, hassigns⟩

/-- The reader notices the assignment of the props. -/
theorem assignsProps_iff {text : List Char} : assignsProps text = true ↔ AssignsProps text := by
  constructor
  · intro h
    obtain ⟨blanks, hblanks, htext⟩ := exists_blanks text
    rw [assignsProps] at h
    split at h
    · next rest heq =>
        obtain ⟨others, hothers, hrest⟩ := exists_blanks rest
        obtain ⟨after, hafter⟩ := Option.isSome_iff_exists.mp h
        refine ⟨blanks, others, after, hblanks, hothers, ?_⟩
        rw [htext, heq, hrest, afterStart?_eq_some_iff.mp hafter]
    · cases h
  · rintro ⟨blanks, others, rest, hblanks, hothers, rfl⟩
    have hequals : BeginsDark ('=' :: (others ++ ("Astro.props".toList ++ rest))) := by
      intro c hc
      cases hc
      decide
    have hprops : BeginsDark ("Astro.props".toList ++ rest) :=
      beginsDark_append rest (by decide) (by simp [BeginsDark]; decide)
    rw [assignsProps, trimLeft_blanks hblanks hequals]
    simp only [trimLeft_blanks hothers hprops, startsWith, afterStart?_append, Option.isSome_some]

/-- The character stands nowhere in an assignment of the props. -/
structure IsBarrier (c : Char) : Prop where
  dark : isSpace c = false
  ne_equals : c ≠ '='
  not_mem : c ∉ "Astro.props".toList

/-- The comma stands in no assignment of the props. -/
theorem isBarrier_comma : IsBarrier ',' := ⟨by decide, by decide, by decide⟩

theorem isBarrier_brace : IsBarrier '\x7d' := ⟨by decide, by decide, by decide⟩

theorem isBarrier_quote {quote : Char} (h : quote = '\x27' ∨ quote = '\x22') :
    IsBarrier quote := by
  rcases h with rfl | rfl <;> exact ⟨by decide, by decide, by decide⟩

/-- The trimming of a text goes no further than a character that stays. -/
theorem trimLeft_append_cons {p : Char → Bool} (text : List Char) {c : Char} (rest : List Char)
    (h : p c = false) : trimLeft p (text ++ c :: rest) = trimLeft p text ++ c :: rest := by
  induction text with
  | nil => simp [trimLeft, h]
  | cons d text ih =>
      by_cases hd : p d = true
      · rw [List.cons_append, trimLeft, List.dropWhile_cons_of_pos hd, ← trimLeft, ih, trimLeft,
          trimLeft, List.dropWhile_cons_of_pos hd]
      · rw [List.cons_append, trimLeft, List.dropWhile_cons_of_neg hd, trimLeft,
          List.dropWhile_cons_of_neg hd, List.cons_append]

/-- What stands behind such a character is not looked at. -/
theorem assignsProps_append {c : Char} (text rest : List Char) (h : IsBarrier c) :
    assignsProps (text ++ c :: rest) = assignsProps text := by
  rw [assignsProps, assignsProps, trimLeft_append_cons text rest h.dark]
  cases htext : trimLeft isSpace text with
  | nil =>
      rw [List.nil_append]
      split
      · next heq => exact absurd (List.cons.inj heq).1 h.ne_equals
      · rfl
  | cons d others =>
      by_cases hd : d = '='
      · rw [hd]
        simp only [List.cons_append, trimLeft_append_cons others rest h.dark, startsWith,
          afterStart?_append_cons rest h.not_mem, Option.isSome_map]
      · simp [hd]

/-- **Text is passed over** up to a brace behind which the props are assigned. -/
theorem untilProps?_append {text rest : List Char}
    (h : ∀ before after, text = before ++ '\x7d' :: after →
      assignsProps (after ++ rest) = false) :
    untilProps? (text ++ rest) = (untilProps? rest).map (text ++ ·) := by
  induction text with
  | nil => simp
  | cons c text ih =>
      have hhere : ¬ (c = '\x7d' ∧ assignsProps (text ++ rest) = true) := by
        rintro ⟨rfl, hassigns⟩
        rw [h [] text rfl] at hassigns
        cases hassigns
      rw [List.cons_append, untilProps?, if_neg hhere, ih, Option.map_map]
      · rfl
      · intro before after heq
        exact h (c :: before) after (by rw [heq, List.cons_append])

/-- The text is passed over whatever follows it. -/
def Passes (text : List Char) : Prop :=
  ∀ rest, untilProps? (text ++ rest) = (untilProps? rest).map (text ++ ·)

theorem Passes.append {text other : List Char} (h : Passes text) (ho : Passes other) :
    Passes (text ++ other) := by
  intro rest
  rw [List.append_assoc, h, ho, Option.map_map]
  congr 1
  funext behind
  simp

/-- Text without a closing brace is passed over. -/
theorem passes_of_not_mem {text : List Char} (h : '\x7d' ∉ text) : Passes text := by
  intro rest
  apply untilProps?_append
  rintro before after rfl
  simp at h

/-- Text that closes nothing is passed over up to such a character. -/
theorem untilProps?_barrier {text : List Char} {c : Char} (rest : List Char)
    (h : ¬ Closes text) (hc : IsBarrier c) :
    untilProps? (text ++ c :: rest) = (untilProps? (c :: rest)).map (text ++ ·) := by
  apply untilProps?_append
  intro before after heq
  rw [assignsProps_append after rest hc, ← Bool.not_eq_true, assignsProps_iff]
  exact fun hassigns => h ⟨before, after, heq, hassigns⟩

/-- **The text up to the closing brace** is the one behind which the props are assigned, and no
brace in it is such a brace. -/
theorem untilProps?_eq_some_iff {text body : List Char} :
    untilProps? text = some body ↔
      ∃ rest, text = body ++ '\x7d' :: rest ∧ AssignsProps rest ∧ ¬ Closes body := by
  constructor
  · intro h
    induction text generalizing body with
    | nil => cases h
    | cons c text ih =>
        rw [untilProps?] at h
        split at h
        · next hbrace =>
            obtain ⟨rfl, hassigns⟩ := hbrace
            cases h
            refine ⟨text, rfl, assignsProps_iff.mp hassigns, ?_⟩
            rintro ⟨before, after, hnil, -⟩
            simp at hnil
        · next hbrace =>
            obtain ⟨others, hothers, rfl⟩ := Option.map_eq_some_iff.mp h
            obtain ⟨rest, rfl, hassigns, hopen⟩ := ih hothers
            refine ⟨rest, rfl, hassigns, ?_⟩
            rw [closes_cons, not_or]
            refine ⟨?_, hopen⟩
            rintro ⟨rfl, hclosed⟩
            apply hbrace
            rw [assignsProps_append others rest isBarrier_brace, assignsProps_iff]
            exact ⟨rfl, hclosed⟩
  · rintro ⟨rest, rfl, hassigns, hopen⟩
    rw [untilProps?_barrier rest hopen isBarrier_brace, untilProps?,
      if_pos ⟨rfl, assignsProps_iff.mpr hassigns⟩, Option.map_some, List.append_nil]

/-- Text that closes nothing is passed over with such a character behind it. -/
theorem passes_up_to {text : List Char} {c : Char} (h : ¬ Closes text) (hc : IsBarrier c)
    (hend : Passes [c]) : Passes (text ++ [c]) := by
  intro rest
  have hrest := hend rest
  rw [List.singleton_append] at hrest
  rw [List.append_assoc, List.singleton_append, untilProps?_barrier rest h hc, hrest,
    Option.map_map]
  congr 1
  funext behind
  simp

/-! ### Entries -/

/-- An entry as it is meant: a name, and its default if it has one. -/
structure PropEntry where
  name : List Char
  default : Option PropLiteral
  name_isIdentifier : IsIdentifier name
  default_proper : ∀ meant, default = some meant → meant.Proper

/-- The text of an entry of that name with the text of its default. -/
def entryText (name : List Char) : Option (List Char) → List Char
  | none => name
  | some default => name ++ (' ' :: '=' :: ' ' :: default)

/-- A default stands behind a sign of equality between blanks. -/
theorem entryText_some (name default : List Char) :
    entryText name (some default) = name ++ " = ".toList ++ default := by
  simp [entryText]

/-- **An entry with a default** is a name, the sign of equality and the default, with white space
between them. -/
theorem destructuringEntry?_eq_default_iff {text name default : List Char} :
    destructuringEntry? text = some (name, some default) ↔
      IsIdentifier name ∧ default ≠ [] ∧ BeginsDark default ∧
        ∃ behind inner, (∀ c ∈ behind, isSpace c = true) ∧ (∀ c ∈ inner, isSpace c = true) ∧
          text = name ++ (behind ++ '=' :: (inner ++ default)) := by
  constructor
  · intro h
    rw [ destructuringEntry?] at h
    obtain ⟨⟨key, rest⟩, hname, h⟩ := Option.bind_eq_some_iff.mp h
    simp only at h
    split at h
    · cases h
    · next others hequals =>
        split at h
        · cases h
        · next hne =>
            obtain ⟨rfl, hdefault⟩ := Prod.mk.inj (Option.some.inj h)
            obtain rfl := Option.some.inj hdefault
            obtain ⟨behind, hbehind, hrest⟩ := exists_blanks rest
            obtain ⟨inner, hinner, hothers⟩ := exists_blanks others
            refine ⟨isIdentifier_of_identifier? hname, hne, beginsDark_trimLeft others, behind,
              inner, hbehind, hinner, ?_⟩
            rw [← hothers, ← hequals, ← hrest, identifier?_append hname]
    · cases h
  · rintro ⟨hname, hne, hdark, behind, inner, hbehind, hinner, rfl⟩
    have hequals : BeginsDark ('=' :: (inner ++ default)) := by
      intro c hc
      cases hc
      decide
    have hkey : identifier? (name ++ (behind ++ '=' :: (inner ++ default))) =
        some (name, behind ++ '=' :: (inner ++ default)) := by
      apply identifier?_of_isIdentifier hname
      intro c hc
      rw [← Bool.not_eq_true]
      intro hword
      cases behind with
      | nil =>
          cases hc
          revert hword
          decide
      | cons d behind =>
          cases hc
          have hspace := hbehind c List.mem_cons_self
          rw [isSpace_of_isWord hword] at hspace
          cases hspace
    rw [ destructuringEntry?, hkey]
    simp only [Option.bind_eq_bind, Option.bind_some, trimLeft_blanks hbehind hequals,
      trimLeft_blanks hinner hdark]

/-- An entry is read as its name and the text of its default. -/
theorem destructuringEntry?_entryText {name : List Char} (h : IsIdentifier name)
    {default : Option (List Char)}
    (hdefault : ∀ text, default = some text → text ≠ [] ∧ BeginsDark text) :
    destructuringEntry? (entryText name default) = some (name, default) := by
  cases default with
  | none =>
      have hname : identifier? (name ++ []) = some (name, []) :=
        identifier?_of_isIdentifier h (by simp)
      rw [List.append_nil] at hname
      rw [entryText, destructuringEntry?, hname]
      rfl
  | some text =>
      obtain ⟨hne, hdark⟩ := hdefault text rfl
      exact destructuringEntry?_eq_default_iff.mpr
        ⟨h, hne, hdark, [' '], [' '], isSpace_blank, isSpace_blank, rfl⟩

/-- The text of an entry has no blank at its ends. -/
theorem isStripped_entryText {name : List Char} (h : IsIdentifier name)
    {default : Option (List Char)}
    (hdefault : ∀ text, default = some text → text ≠ [] ∧ IsStripped text) :
    IsStripped (entryText name default) := by
  cases default with
  | none => exact h.isStripped
  | some text =>
      obtain ⟨hne, hstripped⟩ := hdefault text rfl
      obtain ⟨first, rest, hname, hfirst, -⟩ := id h
      rw [entryText_some]
      constructor
      · intro c hc
        rw [hname] at hc
        obtain rfl : first = c := Option.some.inj hc
        exact isSpace_of_isWord (isWord_of_isAsciiLetter hfirst)
      · intro c hc
        rw [List.getLast?_append_of_ne_nil _ hne] at hc
        exact hstripped.last c hc

namespace PropEntry

/-- The entry as it stands between the braces. -/
def text (entry : PropEntry) : List Char :=
  entryText entry.name (entry.default.map PropLiteral.text)

/-- The field that the entry stands for. -/
def field (entry : PropEntry) : Field where
  key := String.ofList entry.name
  type := match entry.default with
    | some meant => meant.type.name
    | none => "unknown"
  required := false
  default := entry.default.map PropLiteral.value
  source := some "astro"

/-- The default is a quoted text that holds a comma or closes the declaration. -/
def Torn (entry : PropEntry) : Prop :=
  ∃ quote content, entry.default = some (.quoted quote content) ∧
    (',' ∈ content ∨ Closes content)

variable (entry : PropEntry)

/-- The text of a default is not empty and has no blank at its ends. -/
theorem default_text {text : List Char}
    (h : entry.default.map PropLiteral.text = some text) : text ≠ [] ∧ IsStripped text := by
  obtain ⟨meant, hmeant, rfl⟩ := Option.map_eq_some_iff.mp h
  have hproper := entry.default_proper meant hmeant
  exact ⟨PropLiteral.text_ne_nil hproper, (PropLiteral.literalText_text hproper).1⟩

theorem isStripped_text : IsStripped entry.text :=
  isStripped_entryText entry.name_isIdentifier fun _ => entry.default_text

/-- And it is read as the name and the text of the default. -/
theorem destructuringEntry?_text :
    destructuringEntry? entry.text =
      some (entry.name, entry.default.map PropLiteral.text) :=
  destructuringEntry?_entryText entry.name_isIdentifier fun _ htext =>
    ⟨(entry.default_text htext).1, (entry.default_text htext).2.head⟩

/-- **A written entry** is the field that it stands for. -/
theorem destructuringField_text :
    destructuringField entry.name (entry.default.map PropLiteral.text) = .ok entry.field := by
  cases hdefault : entry.default with
  | none => simp [destructuringField, field, hdefault]; rfl
  | some meant =>
      rw [Option.map_some, destructuringField,
        PropLiteral.literal_text (entry.default_proper meant hdefault)]
      simp [field, hdefault]
      rfl

variable {entry}

/-- The name and the sign of equality hold nothing that the reader of the declaration looks
for. -/
theorem front_not_mem {c : Char} (hc : c = ',' ∨ c = '\x7d') :
    c ∉ entry.name ++ " = ".toList := by
  have hname : c ∉ entry.name := by
    rcases hc with rfl | rfl <;> exact entry.name_isIdentifier.not_mem (by decide)
  have hequals : c ∉ " = ".toList := by rcases hc with rfl | rfl <;> decide
  simp only [List.mem_append, hname, hequals, or_self, not_false_eq_true]

/-- **An entry that is not torn** holds no comma and is passed over. -/
theorem text_of_not_torn (h : ¬ entry.Torn) : ',' ∉ entry.text ∧ Passes entry.text := by
  have hfront : ∀ c, c = ',' ∨ c = '\x7d' → c ∉ entry.name ++ " = ".toList := fun _ =>
    front_not_mem
  cases hdefault : entry.default with
  | none =>
      have hname : ∀ c, c = ',' ∨ c = '\x7d' → c ∉ entry.name := fun c hc hm =>
        hfront c hc (List.mem_append_left _ hm)
      rw [text, hdefault]
      exact ⟨hname _ (.inl rfl), passes_of_not_mem (hname _ (.inr rfl))⟩
  | some meant =>
      have hproper := entry.default_proper meant hdefault
      rw [text, hdefault, Option.map_some, entryText_some]
      rw [List.mem_append, not_or]
      have hpasses := passes_of_not_mem (hfront _ (.inr rfl))
      by_cases hquoted : ∃ quote content, meant = .quoted quote content
      · obtain ⟨quote, content, rfl⟩ := hquoted
        obtain ⟨hquote, -⟩ := hproper
        have hwhole : ',' ∉ content ∧ ¬ Closes content := by
          rw [← not_or]
          exact fun htorn => h ⟨quote, content, hdefault, htorn⟩
        have hbarrier := isBarrier_quote hquote
        have hcomma : ',' ≠ quote ∧ '\x7d' ≠ quote := by rcases hquote with rfl | rfl <;> decide
        have hend : Passes [quote] := passes_of_not_mem (by simpa using hcomma.2)
        refine ⟨⟨hfront _ (.inl rfl), ?_⟩, hpasses.append ?_⟩
        · simp [PropLiteral.text, hcomma.1, hwhole.1]
        · exact hend.append (passes_up_to hwhole.2 hbarrier hend)
      · have hplain : ∀ quote content, meant ≠ .quoted quote content := fun quote content heq =>
          hquoted ⟨quote, content, heq⟩
        exact ⟨⟨hfront _ (.inl rfl), PropLiteral.separator_not_mem hproper hplain (.inl rfl)⟩,
          hpasses.append
            (passes_of_not_mem (PropLiteral.separator_not_mem hproper hplain (.inr rfl)))⟩

end PropEntry

/-! ### Lists of entries -/

/-- The entries between the braces of a declaration. -/
def readEntries (body : List Char) : List (List Char × Option (List Char)) :=
  ((segments ',' body).map strip).filterMap destructuringEntry?

/-- **A comma parts entries** that are read on their own. -/
theorem readEntries_append (before after : List Char) :
    readEntries (before ++ ',' :: after) = readEntries before ++ readEntries after := by
  rw [readEntries, segments_append, List.map_append, List.filterMap_append, readEntries,
    readEntries]

/-- Text without a comma is one entry. -/
theorem readEntries_single {text : List Char} (h : ',' ∉ text)
    {entry : List Char × Option (List Char)}
    (hentry : destructuringEntry? (strip text) = some entry) :
    readEntries text = [entry] := by
  rw [readEntries, segments_of_not_mem h, List.map_singleton, List.filterMap_cons_some hentry,
    List.filterMap_nil]

/-- Entries with a blank in front of each and a comma behind it. -/
def entriesBefore (entries : List PropEntry) : List Char :=
  entries.flatMap fun entry => ' ' :: (entry.text ++ [','])

/-- Entries with a comma and a blank in front of each. -/
def entriesBehind (entries : List PropEntry) : List Char :=
  entries.flatMap fun entry => ',' :: ' ' :: entry.text

/-- What stands around one of the entries of a list. -/
theorem joined_entries (before : List PropEntry) (entry : PropEntry) (behind : List PropEntry) :
    ' ' :: joined [',', ' '] ((before ++ entry :: behind).map PropEntry.text) =
      entriesBefore before ++ (' ' :: entry.text ++ entriesBehind behind) := by
  induction before with
  | nil =>
      induction behind generalizing entry with
      | nil => simp [joined, entriesBefore, entriesBehind]
      | cons next behind ih =>
          have hnext := ih next
          simp only [List.nil_append, List.map_cons, entriesBefore, entriesBehind,
            List.flatMap_nil, List.flatMap_cons] at hnext ⊢
          rw [joined_cons _ _ (List.cons_ne_nil _ _)]
          simp only [List.cons_append, List.cons.injEq, true_and] at hnext
          simp [hnext]
  | cons first before ih =>
      have hrest : (before ++ entry :: behind).map PropEntry.text ≠ [] := by simp
      have hmore : entriesBefore (first :: before) =
          [' '] ++ first.text ++ [','] ++ entriesBefore before := by
        simp [entriesBefore]
      rw [List.cons_append, List.map_cons, joined_cons _ _ hrest, hmore,
        List.append_assoc _ _ (_ ++ _),
        ← ih]
      simp

/-- Entries that are not torn are passed over. -/
theorem passes_entriesBefore {entries : List PropEntry} (h : ∀ entry ∈ entries, ¬ entry.Torn) :
    Passes (entriesBefore entries) := by
  induction entries with
  | nil => exact passes_of_not_mem List.not_mem_nil
  | cons entry entries ih =>
      obtain ⟨hentry, hentries⟩ := List.forall_mem_cons.mp h
      have hblank : Passes [' '] := passes_of_not_mem (by decide)
      have hcomma : Passes [','] := passes_of_not_mem (by decide)
      exact ((hblank.append (PropEntry.text_of_not_torn hentry).2).append hcomma).append
        (ih hentries)

/-- The text of an entry is what is left without the blanks around it. -/
theorem strip_text (entry : PropEntry) {blanks others : List Char}
    (hblanks : ∀ c ∈ blanks, isSpace c = true) (hothers : ∀ c ∈ others, isSpace c = true) :
    strip (blanks ++ entry.text ++ others) = entry.text :=
  strip_between hblanks entry.isStripped_text hothers

/-- The entry as the reader finds it. -/
def PropEntry.found (entry : PropEntry) : List Char × Option (List Char) :=
  (entry.name, entry.default.map PropLiteral.text)

/-- Entries that are not torn are read one after the other. -/
theorem readEntries_entriesBefore {entries : List PropEntry} (rest : List Char)
    (h : ∀ entry ∈ entries, ¬ entry.Torn) :
    readEntries (entriesBefore entries ++ rest) =
      entries.map PropEntry.found ++ readEntries rest := by
  induction entries with
  | nil => rfl
  | cons entry entries ih =>
      obtain ⟨hentry, hentries⟩ := List.forall_mem_cons.mp h
      have htext : entriesBefore (entry :: entries) ++ rest =
          ([' '] ++ entry.text) ++ ',' :: (entriesBefore entries ++ rest) := by
        simp [entriesBefore]
      have hstrip := strip_text entry isSpace_blank (List.forall_mem_nil _)
      rw [List.append_nil] at hstrip
      have hcomma : ',' ∉ [' '] ++ entry.text := by
        simp [(PropEntry.text_of_not_torn hentry).1]
      rw [htext, readEntries_append, readEntries_single hcomma
        (hstrip ▸ entry.destructuringEntry?_text), ih hentries]
      rfl

/-- The declaration as it stands in a script. -/
def destructuringText (entries : List PropEntry) : List Char :=
  "const \x7b ".toList ++ joined [',', ' '] (entries.map PropEntry.text) ++
    " \x7d = Astro.props;".toList

/-- What stands behind the opening brace. -/
def braced (entries : List PropEntry) : List Char :=
  ' ' :: (joined [',', ' '] (entries.map PropEntry.text) ++ " \x7d = Astro.props;".toList)

/-- The declaration is noticed by its first word and its brace. -/
theorem destructuringHeader?_const (rest : List Char) :
    destructuringHeader? ("const \x7b ".toList ++ rest) = some (' ' :: rest) := by
  have hword : "const \x7b ".toList = "const".toList ++ ([' '] ++ ['\x7b', ' ']) := rfl
  have hblank : trimLeft isSpace ([' '] ++ ('\x7b' :: ' ' :: rest)) = '\x7b' :: ' ' :: rest :=
    trimLeft_blank (by intro c hc; cases hc; decide)
  rw [hword, destructuringHeader?, List.append_assoc, afterStart?_append]
  simp only [Option.bind_eq_bind, Option.bind_some, List.cons_append, List.nil_append] at hblank ⊢
  rw [hblank]
  rfl

/-- The reader goes on behind the opening brace. -/
theorem afterFirst?_destructuringText (entries : List PropEntry) :
    afterFirst? destructuringHeader? (destructuringText entries) = some (braced entries) := by
  unfold destructuringText braced
  rw [List.append_assoc]
  exact afterFirst?_of_header (destructuringHeader?_const _)

/-- **Entries that are not torn** are found as they were written. -/
theorem exists_body {entries : List PropEntry} (h : ∀ entry ∈ entries, ¬ entry.Torn) :
    ∃ body, untilProps? (braced entries) = some body ∧
      readEntries body = entries.map PropEntry.found := by
  have hend : untilProps? " \x7d = Astro.props;".toList = some [' '] := by decide
  rcases List.eq_nil_or_concat entries with rfl | ⟨before, last, rfl⟩
  · exact ⟨[' ', ' '], by decide, by decide⟩
  · obtain ⟨hbefore, hlast⟩ := List.forall_mem_append.mp (List.concat_eq_append ▸ h)
    obtain ⟨hcomma, hpasses⟩ := PropEntry.text_of_not_torn (hlast last (by simp))
    have hblank : Passes [' '] := passes_of_not_mem (by decide)
    have hbraced : braced (before.concat last) = entriesBefore before ++ ([' '] ++ last.text) ++
        " \x7d = Astro.props;".toList := by
      have hjoined := joined_entries before last []
      rw [braced, List.concat_eq_append, ← List.cons_append, hjoined]
      simp [entriesBehind]
    have hfront := (passes_entriesBefore hbefore).append (hblank.append hpasses)
    refine ⟨entriesBefore before ++ ([' '] ++ last.text) ++ [' '], ?_, ?_⟩
    · rw [hbraced, hfront, hend]
      rfl
    · have hstrip := strip_text last isSpace_blank isSpace_blank
      rw [List.append_assoc, readEntries_entriesBefore _ hbefore,
        readEntries_single (by simp [hcomma]) (hstrip ▸ last.destructuringEntry?_text)]
      simp [PropEntry.found]

/-- **Where a text is torn first**: at its first comma, or at its first brace behind which the
props are assigned. -/
theorem exists_tear {content : List Char} (h : ',' ∈ content ∨ Closes content) :
    ∃ before c after, content = before ++ c :: after ∧ ',' ∉ before ∧ ¬ Closes before ∧
      (c = ',' ∨ c = '\x7d' ∧ AssignsProps after) := by
  have hclosed : ¬ Closes [] := by
    rintro ⟨before, after, h, -⟩
    simp at h
  induction content with
  | nil => exact absurd h (not_or.mpr ⟨List.not_mem_nil, hclosed⟩)
  | cons d content ih =>
      by_cases hd : d = ',' ∨ d = '\x7d' ∧ AssignsProps content
      · exact ⟨[], d, content, rfl, List.not_mem_nil, hclosed, hd⟩
      · rw [not_or] at hd
        have hrest : ',' ∈ content ∨ Closes content := by
          rw [List.mem_cons, closes_cons] at h
          tauto
        obtain ⟨before, c, after, rfl, hcomma, hbefore, hc⟩ := ih hrest
        have hbarrier : IsBarrier c := by
          rcases hc with rfl | ⟨rfl, -⟩
          · exact isBarrier_comma
          · exact isBarrier_brace
        refine ⟨d :: before, c, after, rfl, ?_, ?_, hc⟩
        · rw [List.mem_cons, not_or]
          exact ⟨Ne.symm hd.1, hcomma⟩
        · rw [closes_cons, not_or]
          refine ⟨?_, hbefore⟩
          rintro ⟨rfl, hassigns⟩
          apply hd.2
          rw [← assignsProps_iff, assignsProps_append before after hbarrier, assignsProps_iff]
          exact ⟨rfl, hassigns⟩

/-- The first entry of a text ends where the text does or at a comma. -/
theorem exists_readEntries {text rest : List Char} (h : ',' ∉ text)
    {entry : List Char × Option (List Char)}
    (hentry : destructuringEntry? (strip text) = some entry)
    (hrest : rest = [] ∨ ∃ after, rest = ',' :: after) :
    ∃ others, readEntries (text ++ rest) = entry :: others := by
  rcases hrest with rfl | ⟨after, rfl⟩
  · exact ⟨[], by rw [List.append_nil, readEntries_single h hentry]⟩
  · exact ⟨readEntries after, by rw [readEntries_append, readEntries_single h hentry]; rfl⟩

/-- At a tear the reader stops, or goes on with a comma. -/
theorem untilProps?_tear {c : Char} {lost rest body : List Char}
    (hc : c = ',' ∨ c = '\x7d' ∧ AssignsProps lost) {quote : Char} (hquote : IsBarrier quote)
    (h : untilProps? (c :: (lost ++ quote :: rest)) = some body) :
    body = [] ∨ ∃ after, body = ',' :: after := by
  rw [untilProps?] at h
  rcases hc with rfl | ⟨rfl, hassigns⟩
  · rw [if_neg fun hbrace => absurd hbrace.1 (by decide), Option.map_eq_some_iff] at h
    obtain ⟨after, -, rfl⟩ := h
    exact .inr ⟨after, rfl⟩
  · rw [if_pos ⟨rfl, by rwa [assignsProps_append lost rest hquote, assignsProps_iff]⟩] at h
    exact .inl (Option.some.inj h).symm

/-- A quoted text without a blank at its end has none at its front. -/
theorem IsStripped.quoted {quote : Char} {text : List Char} (hquote : isSpace quote = false)
    (hlast : ∀ d, text.getLast? = some d → isSpace d = false) : IsStripped (quote :: text) := by
  constructor
  · intro d hd
    exact Option.some.inj hd ▸ hquote
  · intro d hd
    rw [List.getLast?_cons] at hd
    cases htext : text.getLast? with
    | none =>
        rw [htext] at hd
        exact Option.some.inj hd ▸ hquote
    | some last =>
        rw [htext] at hd
        exact Option.some.inj hd ▸ hlast last htext

/-- The braced text around an entry with a text as its default. -/
theorem braced_text {before behind : List PropEntry} {entry : PropEntry} {quote : Char}
    {content : List Char} (hdefault : entry.default = some (.quoted quote content)) :
    braced (before ++ entry :: behind) = entriesBefore before ++
      ([' '] ++ (entry.name ++ " = ".toList) ++ [quote]) ++
        (content ++ quote :: (entriesBehind behind ++ " \x7d = Astro.props;".toList)) := by
  have hjoined := joined_entries before entry behind
  rw [braced, ← List.cons_append, hjoined]
  simp [PropEntry.text, hdefault, entryText, PropLiteral.text]

/-- An entry whose default has an opening quote only. -/
theorem destructuringEntry?_unclosed (entry : PropEntry) {quote : Char} {text blanks : List Char}
    (h : IsStripped (quote :: text)) (hblanks : ∀ c ∈ blanks, isSpace c = true) :
    destructuringEntry? (strip ([' '] ++ (entry.name ++ " = ".toList) ++ [quote] ++
      (text ++ blanks))) = some (entry.name, some (quote :: text)) := by
  have hpiece : [' '] ++ (entry.name ++ " = ".toList) ++ [quote] ++ (text ++ blanks) =
      [' '] ++ entryText entry.name (some (quote :: text)) ++ blanks := by
    simp [entryText]
  have hwhole : ∀ default, some (quote :: text) = some default →
      default ≠ [] ∧ IsStripped default := by
    rintro _ ⟨rfl⟩
    exact ⟨List.cons_ne_nil _ _, h⟩
  rw [hpiece, strip_between isSpace_blank (isStripped_entryText entry.name_isIdentifier hwhole)
    hblanks]
  exact destructuringEntry?_entryText entry.name_isIdentifier fun default hd =>
    ⟨(hwhole default hd).1, (hwhole default hd).2.head⟩

/-- What the reader makes of a torn entry: the text in front of the tear, with its opening
quote. -/
theorem exists_torn_body {before : List PropEntry} {entry : PropEntry} (behind : List PropEntry)
    (hbefore : ∀ other ∈ before, ¬ other.Torn) (h : entry.Torn) :
    ∃ quote text, (quote = '\x27' ∨ quote = '\x22') ∧ quote ∉ text ∧ ',' ∉ text ∧
      IsStripped (quote :: text) ∧
      ∀ body, untilProps? (braced (before ++ entry :: behind)) = some body →
        ∃ others, readEntries body =
          before.map PropEntry.found ++ (entry.name, some (quote :: text)) :: others := by
  obtain ⟨quote, content, hdefault, htear⟩ := h
  obtain ⟨kept, c, lost, rfl, hcomma, hkept, hc⟩ := exists_tear htear
  obtain ⟨hquote, hcontent⟩ := entry.default_proper _ hdefault
  obtain ⟨text, blanks, hblanks, rfl, hlast⟩ := exists_blanks_behind kept
  have hdark : isSpace quote = false := by
    rcases hquote with rfl | rfl <;> decide
  have hstripped := IsStripped.quoted hdark hlast
  refine ⟨quote, text, hquote, ?_, ?_, hstripped, ?_⟩
  · exact fun hm => hcontent (by simp [hm])
  · exact fun hm => hcomma (List.mem_append_left _ hm)
  · intro body hbody
    have hfront : ∀ d, d = ',' ∨ d = '\x7d' →
        d ∉ [' '] ++ (entry.name ++ " = ".toList) ++ [quote] := by
      intro d hd
      have hname := entry.front_not_mem hd
      have hquoted : d ≠ quote ∧ d ≠ ' ' := by
        rcases hd with rfl | rfl <;> rcases hquote with rfl | rfl <;> decide
      simp only [List.mem_append, List.mem_singleton, hname, hquoted, or_self, not_false_eq_true]
    have hbarrier : IsBarrier c := by
      rcases hc with rfl | ⟨rfl, -⟩
      · exact isBarrier_comma
      · exact isBarrier_brace
    have hpasses := (passes_entriesBefore hbefore).append (passes_of_not_mem (hfront _ (.inr rfl)))
    rw [braced_text hdefault, List.append_assoc (text ++ blanks), hpasses,
      @List.cons_append _ c lost,
      untilProps?_barrier _ hkept hbarrier, Option.map_map, Option.map_eq_some_iff] at hbody
    obtain ⟨tail, htail, rfl⟩ := hbody
    have htail := untilProps?_tear hc (isBarrier_quote hquote) htail
    have hcomma := not_or.mpr ⟨hfront _ (.inl rfl), hcomma⟩
    rw [← List.mem_append] at hcomma
    obtain ⟨others, hothers⟩ := exists_readEntries hcomma
      (destructuringEntry?_unclosed entry hstripped hblanks) htail
    refine ⟨others, ?_⟩
    rw [← hothers, ← readEntries_entriesBefore _ hbefore]
    simp

/-- Of the items that have a property one comes first. -/
theorem exists_first {α : Type} {p : α → Prop} {items : List α} (h : ∃ item ∈ items, p item) :
    ∃ before item behind, items = before ++ item :: behind ∧ p item ∧
      ∀ other ∈ before, ¬ p other := by
  induction items with
  | nil => simp at h
  | cons first items ih =>
      by_cases hfirst : p first
      · exact ⟨[], first, items, rfl, hfirst, List.forall_mem_nil _⟩
      · obtain ⟨item, hm, hp⟩ := h
        obtain rfl | hm := List.mem_cons.mp hm
        · exact absurd hp hfirst
        · obtain ⟨before, found, behind, rfl, hfound, hbefore⟩ := ih ⟨item, hm, hp⟩
          exact ⟨first :: before, found, behind, rfl, hfound,
            List.forall_mem_cons.mpr ⟨hfirst, hbefore⟩⟩

/-- A quote with a text without commas does not end in a comma. -/
theorem getLast?_ne_comma {quote : Char} {text : List Char}
    (hquote : quote = '\x27' ∨ quote = '\x22') (h : ',' ∉ text) :
    (quote :: text).getLast? ≠ some ',' := by
  intro hlast
  rcases List.mem_cons.mp (List.mem_of_getLast? hlast) with rfl | hm
  · rcases hquote with heq | heq <;> exact absurd heq (by decide)
  · exact h hm

/-- What the reader makes of the text behind the braces. -/
theorem destructuredFields_eq {entries : List PropEntry} {body : List Char}
    (h : untilProps? (braced entries) = some body) :
    destructuredFields (destructuringText entries) =
      (readEntries body).mapM fun entry => destructuringField entry.1 entry.2 := by
  rw [destructuredFields, afterFirst?_destructuringText, Option.bind_some, h]
  rfl

/-- **A declaration that is written down** is read back exactly if none of its entries is
torn: then every entry gives the field it stands for, in order. -/
theorem destructuredFields_written (entries : List PropEntry) :
    destructuredFields (destructuringText entries) = .ok (entries.map PropEntry.field) ↔
      ∀ entry ∈ entries, ¬ entry.Torn := by
  constructor
  · intro hfields
    by_contra htorn
    push Not at htorn
    obtain ⟨before, entry, behind, rfl, htorn, hbefore⟩ := exists_first htorn
    obtain ⟨quote, text, hquote, hnot, hcomma, hstripped, hread⟩ :=
      exists_torn_body behind hbefore htorn
    cases hbody : untilProps? (braced (before ++ entry :: behind)) with
    | none =>
        rw [destructuredFields, afterFirst?_destructuringText, Option.bind_some, hbody] at hfields
        simp at hfields
    | some body =>
        obtain ⟨others, hentries⟩ := hread body hbody
        rw [destructuredFields_eq hbody, hentries, mapM_eq_ok_iff] at hfields
        have hfield := hfields.get (i := before.length) (by simp) (by simp)
        rw [List.get_eq_getElem, List.get_eq_getElem,
          List.getElem_append_right (by simp)] at hfield
        simp only [List.length_map, List.map_append, List.map_cons, Nat.sub_self,
          List.getElem_cons_zero, List.getElem_append_right (Nat.le_of_eq (List.length_map _))]
          at hfield
        have hself := literalText_eq_self hstripped (getLast?_ne_comma hquote hcomma)
        rw [destructuringField, literal_unclosed hquote hself hnot] at hfield
        obtain ⟨_, _, hdefault, -⟩ := htorn
        have htype := congrArg Field.type (Except.ok.inj hfield)
        simp [PropEntry.field, hdefault, PropLiteral.type, FieldType.name] at htype
  · intro h
    obtain ⟨body, hbody, hentries⟩ := exists_body h
    rw [destructuredFields_eq hbody, hentries, mapM_eq_ok_iff, List.forall₂_map_left_iff,
      List.forall₂_map_right_iff, List.forall₂_same]
    exact fun entry _ => entry.destructuringField_text

end ContentCatalog.Source

/-! ### A torn declaration and a whole one -/

namespace ContentCatalog.Sample

open Source

theorem isIdentifier_title : IsIdentifier "title".toList :=
  ⟨'t', "itle".toList, rfl, by decide, List.all_iff_forall_prop.mp (by decide +kernel)⟩

theorem isIdentifier_count : IsIdentifier "count".toList :=
  ⟨'c', "ount".toList, rfl, by decide, List.all_iff_forall_prop.mp (by decide +kernel)⟩

/-- An entry with a comma in its default, `title = "Hello, world"`. -/
def tornEntry : PropEntry where
  name := "title".toList
  default := some (.quoted '\x22' "Hello, world".toList)
  name_isIdentifier := isIdentifier_title
  default_proper := by
    rintro meant ⟨⟩
    exact ⟨.inr rfl, by decide⟩

/-- An entry with a number, `count = -3`. -/
def wholeEntry : PropEntry where
  name := "count".toList
  default := some (.integer true ['3'])
  name_isIdentifier := isIdentifier_count
  default_proper := by
    rintro meant ⟨⟩
    exact ⟨by decide, by decide⟩

/-- The comma tears the first one. -/
theorem torn_tornEntry : tornEntry.Torn :=
  ⟨_, _, rfl, .inl (by decide)⟩

/-- No number is torn. -/
theorem not_torn_wholeEntry : ¬ wholeEntry.Torn := by
  rintro ⟨quote, content, hdefault, -⟩
  cases hdefault

end ContentCatalog.Sample

namespace ContentCatalog.Source

/-- The text is not read back where it stands with the number, and the number alone is. -/
theorem destructuredFields_written_sample :
    destructuredFields (destructuringText [Sample.tornEntry, Sample.wholeEntry]) ≠
        .ok [Sample.tornEntry.field, Sample.wholeEntry.field] ∧
      destructuredFields (destructuringText [Sample.wholeEntry]) =
        .ok [Sample.wholeEntry.field] := by
  constructor
  · intro hfields
    exact (destructuredFields_written [Sample.tornEntry, Sample.wholeEntry]).mp hfields
      Sample.tornEntry (.head _) Sample.torn_tornEntry
  · refine (destructuredFields_written [Sample.wholeEntry]).mpr fun entry hentry => ?_
    rw [List.mem_singleton.mp hentry]
    exact Sample.not_torn_wholeEntry

end ContentCatalog.Source
