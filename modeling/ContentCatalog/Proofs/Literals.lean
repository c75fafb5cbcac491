import ContentCatalog.Proofs.DeclaredNames
import ContentCatalog.Proofs.DecimalDigits
import ContentCatalog.Proofs.PropDefaults

/-!
# Literals

The right-hand side of a default is looked at without the white space and the commas around it.
What is left is quoted, a word, a plain number, or no literal at all; these exclude each other by
their first characters.

* `literalText_around` : what is taken off a literal;
* `literal_quoted` : the text between two equal quotes, whatever it holds;
* `literal_whole`, `literal_toString` : whole numbers, if they are not too long;
* `shows_of_literal` : what is read off a literal without type is null or its own text, and any
  other value shows its type by itself;
* `literal_exact` : all of this together.
-/

namespace ContentCatalog.Source

open Text Number

/-! ### What is looked at -/

/-- A text without white space and commas at its ends is looked at as it is. -/
theorem literalText_eq_self {text : List Char} (h : IsStripped text)
    (hcomma : text.getLast? ≠ some ',') : literalText text = text := by
  have hlast : trimRight (· == ',') text = text := by
    apply trimRight_eq_self
    intro c hc
    rw [beq_eq_false_iff_ne]
    rintro rfl
    exact hcomma hc
  rw [literalText, strip_eq_self h, hlast, strip_eq_self h]

/-- The text is not empty, and neither white space nor a comma is taken off its ends. -/
structure IsBare (text : List Char) : Prop where
  ne_nil : text ≠ []
  stripped : IsStripped text
  last : text.getLast? ≠ some ','

/-- A bare text is looked at as it is. -/
theorem IsBare.literalText_eq {text : List Char} (h : IsBare text) : literalText text = text :=
  literalText_eq_self h.stripped h.last

/-- A text between characters that are neither white space nor, at the end, a comma. -/
theorem literalText_between {text : List Char} {first last : Char}
    (hfirst : text.head? = some first) (hlast : text.getLast? = some last)
    (hdark : isSpace first = false) (hend : isSpace last = false) (hcomma : last ≠ ',') :
    IsStripped text ∧ literalText text = text := by
  have hstripped : IsStripped text := by
    constructor
    · intro c hc
      rw [hfirst] at hc
      exact Option.some.inj hc ▸ hdark
    · intro c hc
      rw [hlast] at hc
      exact Option.some.inj hc ▸ hend
  refine ⟨hstripped, literalText_eq_self hstripped ?_⟩
  rw [hlast]
  intro heq
  exact hcomma (Option.some.inj heq)

/-- What may stand around a literal: white space in front of it, and behind it white space, a run
of commas, and white space again. -/
structure Margin where
  before : List Char
  between : List Char
  commas : Nat
  after : List Char
  before_blank : ∀ c ∈ before, isSpace c = true
  between_blank : ∀ c ∈ between, isSpace c = true
  after_blank : ∀ c ∈ after, isSpace c = true

/-- A text with that margin around it. -/
def Margin.around (margin : Margin) (text : List Char) : List Char :=
  margin.before ++ text ++ margin.between ++ List.replicate margin.commas ',' ++ margin.after

/-- **A margin is taken off**, and no more. -/
theorem literalText_around (margin : Margin) {text : List Char} (h : IsBare text) :
    literalText (margin.around text) = text := by
  have hback : strip (text ++ margin.between) = text := by
    simpa using strip_between (List.forall_mem_nil _) h.stripped margin.between_blank
  -- The last character in front of the commas is white space or the last one of the text.
  have hlast : trimRight (· == ',') (text ++ margin.between) = text ++ margin.between := by
    apply trimRight_eq_self
    intro c hc
    rw [beq_eq_false_iff_ne]
    rintro rfl
    by_cases hne : margin.between = []
    · rw [hne, List.append_nil] at hc
      exact h.last hc
    · rw [List.getLast?_append_of_ne_nil _ hne] at hc
      exact absurd (margin.between_blank _ (List.mem_of_getLast? hc)) (by decide)
  by_cases hcommas : margin.commas = 0
  · have haround : margin.around text =
        margin.before ++ text ++ (margin.between ++ margin.after) := by
      simp [Margin.around, hcommas]
    have hblank : ∀ c ∈ margin.between ++ margin.after, isSpace c = true :=
      List.forall_mem_append.mpr ⟨margin.between_blank, margin.after_blank⟩
    have hkept := h.literalText_eq
    rw [literalText, strip_eq_self h.stripped] at hkept
    rw [literalText, haround, strip_between margin.before_blank h.stripped hblank, hkept]
  · have haround : margin.around text = margin.before ++
        (text ++ margin.between ++ List.replicate margin.commas ',') ++ margin.after := by
      simp [Margin.around]
    have hstripped : IsStripped (text ++ margin.between ++ List.replicate margin.commas ',') := by
      constructor
      · intro c hc
        rw [List.append_assoc, List.head?_append_of_ne_nil _ h.ne_nil] at hc
        exact h.stripped.head c hc
      · intro c hc
        have hne : List.replicate margin.commas ',' ≠ [] := by simpa using hcommas
        rw [List.getLast?_append_of_ne_nil _ hne] at hc
        rw [List.eq_of_mem_replicate (List.mem_of_getLast? hc)]
        decide
    have hcomma : ∀ c ∈ List.replicate margin.commas ',', (c == ',') = true := by
      intro c hc
      rw [List.eq_of_mem_replicate hc]
      rfl
    rw [literalText, haround, strip_between margin.before_blank hstripped margin.after_blank,
      trimRight_append_of_pos _ hcomma, hlast, hback]

/-- Nothing but what is looked at matters. -/
theorem literal_congr {text other : List Char} (h : literalText text = literalText other) :
    literal text = literal other := by
  rw [literal, literal, h]

/-! ### Quotes -/

/-- Between its quotes stands the content. -/
theorem insideQuotes?_quoted {quote : Char} (content : List Char)
    (h : quote = '\x27' ∨ quote = '\x22') :
    insideQuotes? (quote :: (content ++ [quote])) = some content := by
  rw [insideQuotes?, if_pos h]
  exact beforeEnd?_eq_some_iff.mpr rfl

/-- A text that does not end with the quote it begins with is not quoted. -/
theorem insideQuotes?_eq_none {c : Char} {rest : List Char}
    (h : c = '\x27' ∨ c = '\x22' → c ∉ rest) : insideQuotes? (c :: rest) = none := by
  rw [insideQuotes?]
  split
  · next hquote =>
      rw [Option.eq_none_iff_forall_ne_some]
      intro inside hinside
      apply h hquote
      rw [beforeEnd?_eq_some_iff.mp hinside]
      simp
  · rfl

/-- Quotes are neither white space nor commas. -/
theorem literalText_quoted {quote : Char} (content : List Char)
    (h : quote = '\x27' ∨ quote = '\x22') :
    IsStripped (quote :: (content ++ [quote])) ∧
      literalText (quote :: (content ++ [quote])) = quote :: (content ++ [quote]) := by
  have hdark : isSpace quote = false ∧ quote ≠ ',' := by
    rcases h with rfl | rfl <;> decide
  exact literalText_between rfl (List.getLast?_concat (l := quote :: content)) hdark.1 hdark.1
    hdark.2

/-- **A text between equal quotes** is the text, whatever it holds. -/
theorem literal_quoted {quote : Char} (content : List Char)
    (h : quote = '\x27' ∨ quote = '\x22') :
    literal (quote :: (content ++ [quote])) =
      .ok (.text (String.ofList content), .string) := by
  rw [literal]
  simp only [(literalText_quoted content h).2, insideQuotes?_quoted content h]

/-! ### Numbers -/

/-- A digit of any script is no white space. -/
theorem dark_of_isDigit {c : Char} (h : isDigit c = true) : isSpace c = false := by
  by_cases hc : c.toNat < 128
  · rw [isDigit, digitValue?_ascii hc] at h
    have hrange : 48 ≤ c.toNat ∧ c.toNat ≤ 57 := by
      by_contra hout
      rw [if_neg (by simpa using hout)] at h
      cases h
    simp only [isSpace, Bool.or_eq_false_iff, Bool.and_eq_false_iff, decide_eq_false_iff_not,
      beq_eq_false_iff_ne]
    omega
  · exact isSpace_of_isDigit h (by omega)

/-- Digits hold no character of another kind. -/
theorem not_mem_of_isDigits {text : List Char} (h : isDigits text = true) {c : Char}
    (hc : isDigit c = false) : c ∉ text := fun hm =>
  ne_of_class ((isDigits_iff.mp h).2 c hm) hc rfl

/-- A plain number begins with its sign or a digit. -/
theorem exists_head_of_isPlainNumber {text : List Char} (h : isPlainNumber text = true) :
    ∃ c rest, text = c :: rest ∧ (c = '-' ∨ isDigit c = true) := by
  obtain ⟨negative, ⟨body, rfl, hbody⟩ | ⟨whole, fraction, rfl, hwhole, -⟩⟩ :=
    parts_of_isPlainNumber h
  all_goals cases negative
  all_goals first | exact ⟨_, _, rfl, .inl rfl⟩ | skip
  · obtain ⟨hne, hall⟩ := isDigits_iff.mp hbody
    obtain ⟨c, rest, rfl⟩ := List.exists_cons_of_ne_nil hne
    exact ⟨c, rest, rfl, .inr (hall c List.mem_cons_self)⟩
  · obtain ⟨hne, hall⟩ := isDigits_iff.mp hwhole
    obtain ⟨c, rest, rfl⟩ := List.exists_cons_of_ne_nil hne
    exact ⟨c, _, rfl, .inr (hall c List.mem_cons_self)⟩

/-- The last character of digits is a digit. -/
theorem exists_last_of_isDigits {text : List Char} (h : isDigits text = true) :
    ∃ last, text.getLast? = some last ∧ isDigit last = true := by
  obtain ⟨hne, hall⟩ := isDigits_iff.mp h
  exact ⟨_, List.getLast?_eq_some_getLast hne, hall _ (List.getLast_mem hne)⟩

/-- A plain number stands between characters that are looked at. -/
theorem literalText_number {text : List Char} (h : isPlainNumber text = true) :
    IsStripped text ∧ literalText text = text := by
  obtain ⟨c, rest, htext, hc⟩ := exists_head_of_isPlainNumber h
  have hfirst : isSpace c = false := by
    rcases hc with rfl | hc
    · decide
    · exact dark_of_isDigit hc
  have hlast : ∃ last, text.getLast? = some last ∧ isDigit last = true := by
    obtain ⟨negative, ⟨body, rfl, hbody⟩ | ⟨whole, fraction, rfl, -, hfraction⟩⟩ :=
      parts_of_isPlainNumber h
    · obtain ⟨last, hlast, hdigit⟩ := exists_last_of_isDigits hbody
      exact ⟨last, by rw [List.getLast?_append, hlast, Option.some_or], hdigit⟩
    · obtain ⟨last, hlast, hdigit⟩ := exists_last_of_isDigits hfraction
      refine ⟨last, ?_, hdigit⟩
      rw [← List.append_assoc, List.getLast?_append, List.getLast?_cons, hlast]
      rfl
  obtain ⟨last, hlast, hdigit⟩ := hlast
  exact literalText_between (by rw [htext]; rfl) hlast hfirst (dark_of_isDigit hdigit)
    (ne_of_class hdigit (by decide))

/-- A plain number is neither quoted nor a word. -/
theorem literal_number {text : List Char} (hself : literalText text = text)
    (h : isPlainNumber text = true) :
    literal text =
      if text.contains '.' then (readDecimal text).map (.float ·, .number)
      else (readInteger 10 text).map (.int ·, .number) := by
  obtain ⟨c, rest, htext, hc⟩ := exists_head_of_isPlainNumber h
  have hne : ∀ d : Char, isDigit d = false → d ≠ '-' → c ≠ d := by
    intro d hd hminus
    rcases hc with rfl | hc
    · exact hminus.symm
    · exact ne_of_class hc hd
  have hword : ∀ (d : Char) (others : List Char), isDigit d = false → d ≠ '-' →
      text ≠ d :: others := by
    intro d others hd hminus heq
    rw [htext] at heq
    exact hne d hd hminus (List.cons.inj heq).1
  have hquotes : insideQuotes? text = none := by
    rw [htext]
    apply insideQuotes?_eq_none
    rintro (rfl | rfl)
    · exact absurd rfl (hne '\x27' (by decide) (by decide))
    · exact absurd rfl (hne '\x22' (by decide) (by decide))
  have htrue : text ≠ "true".toList := hword 't' "rue".toList (by decide) (by decide)
  have hfalse : text ≠ "false".toList := hword 'f' "alse".toList (by decide) (by decide)
  rw [literal]
  simp only [hself, hquotes, h, if_true, if_neg htrue, if_neg hfalse]

/-- A sign in front of digits is taken off. -/
theorem unsigned_minus (negative : Bool) {body : List Char} {c : Char} {rest : List Char}
    (hbody : body = c :: rest) (hc : isDigit c = true) :
    (afterStart? ['-'] (minus negative ++ body)).getD (minus negative ++ body) = body := by
  have hminus : '-' ≠ c := (ne_of_class hc (by decide)).symm
  cases negative with
  | true => rfl
  | false => simp [hbody, afterStart?, hminus]

/-- Digits with a sign or without are a plain number. -/
theorem isPlainNumber_integer (negative : Bool) {digits : List Char}
    (h : isDigits digits = true) : isPlainNumber (minus negative ++ digits) = true := by
  obtain ⟨hne, hall⟩ := isDigits_iff.mp h
  obtain ⟨c, rest, hdigits⟩ := List.exists_cons_of_ne_nil hne
  have hc := hall c (by simp [hdigits])
  rw [isPlainNumber]
  simp only [unsigned_minus negative hdigits hc,
    cut?_eq_none (not_mem_of_isDigits h (c := '.') (by decide)), h]

theorem isPlainNumber_decimal (negative : Bool) {whole fraction : List Char}
    (hwhole : isDigits whole = true) (hfraction : isDigits fraction = true) :
    isPlainNumber (minus negative ++ (whole ++ '.' :: fraction)) = true := by
  obtain ⟨hne, hall⟩ := isDigits_iff.mp hwhole
  obtain ⟨c, rest, hdigits⟩ := List.exists_cons_of_ne_nil hne
  have hc := hall c (by simp [hdigits])
  have hbody : whole ++ '.' :: fraction = c :: (rest ++ '.' :: fraction) := by
    rw [hdigits, List.cons_append]
  rw [isPlainNumber]
  simp only [unsigned_minus negative hbody hc,
    cut?_of_not_mem fraction (not_mem_of_isDigits hwhole (c := '.') (by decide)), hwhole,
    hfraction, Bool.and_self]

/-- A sign and digits are read as a whole number. -/
theorem literal_whole (negative : Bool) {digits : List Char} (h : isDigits digits = true) :
    literal (minus negative ++ digits) =
      (readInteger 10 (minus negative ++ digits)).map (.int ·, .number) := by
  have hplain := isPlainNumber_integer negative h
  have hpoint : (minus negative ++ digits).contains '.' = false := by
    have hsign : '.' ∉ minus negative := by cases negative <;> decide
    simp [hsign, not_mem_of_isDigits h (c := '.') (by decide)]
  rw [literal_number (literalText_number hplain).2 hplain, hpoint, if_neg Bool.false_ne_true]

/-- **The digits of whole numbers** are digits. -/
theorem isDigits_toDigits (n : Nat) : isDigits (Nat.toDigits 10 n) = true := by
  obtain ⟨values, hvalues, -⟩ := allDigits?_toDigits n
  refine isDigits_iff.mpr ⟨Nat.toDigits_ne_nil, fun c hc => ?_⟩
  obtain ⟨d, hd⟩ := allDigits?_mem hvalues hc
  obtain ⟨hcode, hlt⟩ := digitIn?_ten.mp hd
  rw [isDigit, digitValue?_ascii (by omega), if_pos (by simp; omega)]
  rfl

/-- **A whole number** that is not too long is read from its decimal text. -/
theorem literal_toString {i : Int} (h : (toString i.natAbs).length ≤ digitLimit) :
    literal (toString i).toList = .ok (.int i, .number) := by
  have hsize : i.natAbs < tenTo digitLimit := by
    rw [← String.length_toList, toList_toString_nat] at h
    exact (length_toDigits_le_iff (by decide)).mp h
  rw [toList_toString_int, literal_whole _ (isDigits_toDigits _), readInteger_toString hsize]
  rfl

/-! ### What is no literal -/

/-- Without its closing quote a text is not quoted, and no literal at all. -/
theorem literal_unclosed {quote : Char} {text : List Char} (h : quote = '\x27' ∨ quote = '\x22')
    (hself : literalText (quote :: text) = quote :: text) (hquote : quote ∉ text) :
    literal (quote :: text) = .ok (.text (String.ofList (quote :: text)), .unknown) := by
  have hnumber : isPlainNumber (quote :: text) = false := by
    rw [Bool.eq_false_iff]
    intro hplain
    obtain ⟨c, rest, heq, hc⟩ := exists_head_of_isPlainNumber hplain
    obtain rfl := (List.cons.inj heq).1
    rcases h with rfl | rfl <;> revert hc <;> decide
  have hne : ∀ (d : Char) (others : List Char), d ≠ '\x27' → d ≠ '\x22' →
      quote :: text ≠ d :: others := by
    intro d others hsingle hdouble heq
    obtain rfl := (List.cons.inj heq).1
    rcases h with rfl | rfl
    · exact hsingle rfl
    · exact hdouble rfl
  have htrue : quote :: text ≠ "true".toList := hne 't' "rue".toList (by decide) (by decide)
  have hfalse : quote :: text ≠ "false".toList := hne 'f' "alse".toList (by decide) (by decide)
  have hnull : quote :: text ≠ "null".toList := hne 'n' "ull".toList (by decide) (by decide)
  rw [literal]
  simp only [hself, insideQuotes?_eq_none fun _ => hquote, hnumber, if_neg htrue, if_neg hfalse,
    if_neg hnull, if_neg Bool.false_ne_true]

/-! ### Types -/

/-- How a value and a type come from what is looked at. -/
inductive Shows (left : List Char) : Value → FieldType → Prop
  | quoted (inside : List Char) (h : insideQuotes? left = some inside) :
      Shows left (.text (String.ofList inside)) .string
  | truth (b : Bool) (h : left = (toString b).toList) : Shows left (.bool b) .boolean
  | whole (i : Int) (h : isPlainNumber left = true) : Shows left (.int i) .number
  | decimal (x : Double) (h : isPlainNumber left = true) : Shows left (.float x) .number
  | null (h : left = "null".toList) : Shows left .null .unknown
  | other (h : left ≠ "null".toList) : Shows left (.text (String.ofList left)) .unknown

/-- A literal shows the value and the type that it is read as. -/
theorem shows_of_literal {text : List Char} {value : Value} {type : FieldType}
    (h : literal text = .ok (value, type)) : Shows (literalText text) value type := by
  unfold literal at h
  simp only at h
  split at h
  · next inside hinside =>
      cases h
      exact .quoted inside hinside
  · split at h
    · next htrue =>
        cases h
        exact .truth true htrue
    · split at h
      · next hfalse =>
          cases h
          exact .truth false hfalse
      · split at h
        · next hplain =>
            split at h
            · obtain ⟨x, -, heq⟩ := map_eq_ok_iff.mp h
              cases heq
              exact .decimal x hplain
            · obtain ⟨i, -, heq⟩ := map_eq_ok_iff.mp h
              cases heq
              exact .whole i hplain
        · split at h
          · next hnull =>
              cases h
              exact .null hnull
          · next hnull =>
              cases h
              exact .other hnull

/-- **The type that a literal shows** is the type of its value. -/
theorem Shows.typeOf_eq {left : List Char} {value : Value} {type : FieldType}
    (h : Shows left value type) (htype : type ≠ .unknown) : Field.typeOf value = type := by
  cases h with
  | quoted inside _ => rfl
  | truth b _ => rfl
  | whole i _ => rfl
  | decimal x _ => rfl
  | null _ => exact absurd rfl htype
  | other _ => exact absurd rfl htype

/-- **What shows no type** is null, or kept as its text. -/
theorem Shows.value_eq {left : List Char} {value : Value} (h : Shows left value .unknown) :
    value = if left = "null".toList then .null else .text (String.ofList left) := by
  cases h with
  | null h => rw [if_pos h]
  | other h => rw [if_neg h]

/-- **Literals are read back**: texts in quotes, whole numbers, and what has a margin around it.
A type agrees with the type of the value, and without a type there is null or the text as it
stands. -/
theorem literal_exact :
    (∀ quote content, quote = '\x27' ∨ quote = '\x22' →
        literal (quote :: (content ++ [quote])) = .ok (.text (String.ofList content), .string)) ∧
      (∀ i : Int, (toString i.natAbs).length ≤ digitLimit →
        literal (toString i).toList = .ok (.int i, .number)) ∧
      (∀ (margin : Margin) text, IsBare text →
        literal (margin.around text) = literal text) ∧
      ∀ text value type, literal text = .ok (value, type) →
        (type ≠ .unknown → Field.typeOf value = type) ∧
        (type = .unknown →
          value = if literalText text = "null".toList then .null
            else .text (String.ofList (literalText text))) := by
  refine ⟨fun _ content h => literal_quoted content h, fun _ h => literal_toString h, ?_, ?_⟩
  · intro margin text h
    exact literal_congr ((literalText_around margin h).trans h.literalText_eq.symm)
  · intro text value type h
    have hshows := shows_of_literal h
    refine ⟨hshows.typeOf_eq, ?_⟩
    rintro rfl
    exact hshows.value_eq

/-- A quoted text with quotes and a line break in it, a negative number, and an expression with a
margin around it. -/
theorem literal_exact_sample :
    literal "\"say \"hi\"\n\"".toList = .ok (.text "say \"hi\"\n", .string) ∧
      literal "-120".toList = .ok (.int (-120), .number) ∧
      Field.typeOf (.int (-120)) = .number ∧
      literal "\n[1, 2] ,,\t".toList = literal "[1, 2]".toList := by
  obtain ⟨hquoted, hwhole, haround, htype⟩ := literal_exact
  have htext : toString (-120 : Int) = "-120" := by rfl
  have hnumber : literal "-120".toList = .ok (.int (-120), .number) :=
    htext ▸ hwhole (-120) (by decide)
  have hbare : IsBare "[1, 2]".toList :=
    ⟨by decide, ⟨by simp; decide, by simp; decide⟩, by decide⟩
  refine ⟨hquoted '\x22' "say \"hi\"\n".toList (.inr rfl), hnumber,
    (htype _ _ _ hnumber).1 (by decide), ?_⟩
  exact haround ⟨['\n'], [' '], 2, ['\t'], List.all_iff_forall_prop.mp (by decide),
    isSpace_blank, List.all_iff_forall_prop.mp (by decide)⟩ _ hbare

end ContentCatalog.Source
