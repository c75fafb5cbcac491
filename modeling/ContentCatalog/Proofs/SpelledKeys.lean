import ContentCatalog.Proofs.KeyNames
import ContentCatalog.Proofs.LoadedValues

/-!
# Spelled scalars

A scalar has two texts: its name as a key, and its display.  They differ in their words and in
what stands between a date and a time of day, and in nothing else.  Either text tells which scalar
it is of, unless that is a text itself, which may be spelled like any other scalar: the shape of
the text tells the kind, and within a kind the text is read back.

* `date_cancel`, `time_cancel`, `offsetIso_injective` : calendar values from their ISO texts;
* `quotedBytes_injective` : bytes from their quoted form;
* `shapeOf_spelled` : the kind from the characters;
* `spelled_injective` : the scalar from either text;
* `keyName_eq_spelled`, `display_eq_spelled` : both texts are spelled.
-/

namespace ContentCatalog

open Number

/-! ### Digits in front -/

/-- Digits that something else ends are told apart from it. -/
theorem digitChars_cancel {digits others : List Nat} {r s : List Char} (hd : AreDigits digits)
    (ho : AreDigits others) (hr : EndsDigits r) (hs : EndsDigits s)
    (h : digitChars digits ++ r = digitChars others ++ s) : digits = others ∧ r = s := by
  obtain ⟨htake, hdrop⟩ := span_digits (allDigits?_digitChars hd) hr
  obtain ⟨hotherTake, hotherDrop⟩ := span_digits (allDigits?_digitChars ho) hs
  rw [h] at htake hdrop
  have htext : digitChars digits = digitChars others := htake.symm.trans hotherTake
  have hall := allDigits?_digitChars hd
  rw [htext, allDigits?_digitChars ho] at hall
  exact ⟨(Option.some.inj hall).symm, hdrop.symm.trans hotherDrop⟩

/-- **A number in front** is told from what follows it. -/
theorem paddedNat_cancel {width n m : Nat} {r s : List Char} (hr : EndsDigits r)
    (hs : EndsDigits s)
    (h : (Double.paddedNat width n).toList ++ r = (Double.paddedNat width m).toList ++ s) :
    n = m ∧ r = s := by
  obtain ⟨digits, htext, hdigits, -, hvalue⟩ := exists_paddedNat width n
  obtain ⟨others, hotherText, hothers, -, hotherValue⟩ := exists_paddedNat width m
  rw [htext, hotherText] at h
  obtain ⟨rfl, hrest⟩ := digitChars_cancel hdigits hothers hr hs h
  exact ⟨hvalue.symm.trans hotherValue, hrest⟩

/-! ### Calendar values -/

namespace Calendar

/-- **A date in front** is told from what follows it. -/
theorem date_cancel {d e : Date} {r s : List Char} (hr : EndsDigits r) (hs : EndsDigits s)
    (h : d.iso.toList ++ r = e.iso.toList ++ s) : d = e ∧ r = s := by
  have hminus : ∀ rest, EndsDigits ('-' :: rest) := fun rest => endsDigits_cons (by decide)
  simp only [toList_dateIso, List.append_assoc, List.cons_append] at h
  obtain ⟨hyear, h⟩ := paddedNat_cancel (hminus _) (hminus _) h
  obtain ⟨hmonth, h⟩ := paddedNat_cancel (hminus _) (hminus _) (List.cons.inj h).2
  obtain ⟨hday, hrest⟩ := paddedNat_cancel hr hs (List.cons.inj h).2
  cases d
  cases e
  cases hyear
  cases hmonth
  cases hday
  exact ⟨rfl, hrest⟩

/-- No time of day goes on with the text, which is empty or an offset. -/
def EndsTime (rest : List Char) : Prop :=
  ∀ c others, rest = c :: others → c = '+' ∨ c = '-'

/-- What ends a time ends its digits. -/
theorem EndsTime.endsDigits {rest : List Char} (h : EndsTime rest) : EndsDigits rest := by
  intro c others heq
  rcases h c others heq with rfl | rfl <;> decide

/-- The fraction of a second as it is written. -/
def fractionText (t : TimeOfDay) : List Char :=
  if t.microsecond = 0 then [] else '.' :: (Double.paddedNat 6 t.microsecond).toList

/-- The text of a time is its hour, its minute and its second with the fraction. -/
theorem toList_timeIso (t : TimeOfDay) :
    t.iso.toList = (two t.hour).toList ++
      ':' :: ((two t.minute).toList ++ ':' :: ((two t.second).toList ++ fractionText t)) := by
  have hfraction : (if t.microsecond = 0 then "" else
      "." ++ Double.paddedNat 6 t.microsecond).toList = fractionText t := by
    rw [fractionText]
    split
    · rfl
    · rw [String.toList_append]
      rfl
  have hcolon : ":".toList = [':'] := rfl
  simp only [TimeOfDay.iso, String.toList_append, hcolon, hfraction, List.append_assoc,
    List.cons_append, List.nil_append]

/-- A fraction ends the digits in front of it. -/
theorem endsDigits_fractionText {t : TimeOfDay} {r : List Char} (hr : EndsTime r) :
    EndsDigits (fractionText t ++ r) := by
  rw [fractionText]
  split
  · exact hr.endsDigits
  · exact endsDigits_cons (by decide)

/-- A fraction that something else ends is told apart from it. -/
theorem fractionText_cancel {t u : TimeOfDay} {r s : List Char} (hr : EndsTime r)
    (hs : EndsTime s) (h : fractionText t ++ r = fractionText u ++ s) :
    t.microsecond = u.microsecond ∧ r = s := by
  have hpoint : ∀ {rest others}, EndsTime rest → rest ≠ '.' :: others := by
    intro rest others hrest heq
    rcases hrest '.' others heq with hbad | hbad <;> exact absurd hbad (by decide)
  rw [fractionText, fractionText] at h
  split at h <;> split at h
  · next ht hu => exact ⟨ht.trans hu.symm, h⟩
  · exact absurd h (hpoint hr)
  · exact absurd h.symm (hpoint hs)
  · exact paddedNat_cancel hr.endsDigits hs.endsDigits (List.cons.inj h).2

/-- **A time of day in front** is told from the offset that follows it. -/
theorem time_cancel {t u : TimeOfDay} {r s : List Char} (hr : EndsTime r) (hs : EndsTime s)
    (h : t.iso.toList ++ r = u.iso.toList ++ s) : t = u ∧ r = s := by
  have hcolon : ∀ rest, EndsDigits (':' :: rest) := fun rest => endsDigits_cons (by decide)
  simp only [toList_timeIso, List.append_assoc, List.cons_append] at h
  obtain ⟨hhour, h⟩ := paddedNat_cancel (hcolon _) (hcolon _) h
  obtain ⟨hminute, h⟩ := paddedNat_cancel (hcolon _) (hcolon _) (List.cons.inj h).2
  obtain ⟨hsecond, h⟩ := paddedNat_cancel (endsDigits_fractionText hr)
    (endsDigits_fractionText hs) (List.cons.inj h).2
  obtain ⟨hmicrosecond, hrest⟩ := fractionText_cancel hr hs h
  cases t
  cases u
  cases hhour
  cases hminute
  cases hsecond
  cases hmicrosecond
  exact ⟨rfl, hrest⟩

/-- The seconds of an offset as they are written. -/
def secondsText (seconds : Int) : List Char :=
  if seconds.natAbs % 60 = 0 then [] else ':' :: (two (seconds.natAbs % 60)).toList

/-- The text of an offset is its sign, its hours and minutes, and seconds if there are any. -/
theorem toList_offsetIso (seconds : Int) :
    (offsetIso seconds).toList = (if seconds < 0 then '-' else '+') ::
      ((two (seconds.natAbs / 3600)).toList ++
        ':' :: ((two (seconds.natAbs / 60 % 60)).toList ++ secondsText seconds)) := by
  have hsign : (if seconds < 0 then "-" else "+").toList = [if seconds < 0 then '-' else '+'] := by
    split <;> rfl
  have hseconds : (if seconds.natAbs % 60 = 0 then "" else
      ":" ++ two (seconds.natAbs % 60)).toList = secondsText seconds := by
    rw [secondsText]
    split
    · rfl
    · rw [String.toList_append]
      rfl
  have hcolon : ":".toList = [':'] := rfl
  simp only [offsetIso, String.toList_append, hsign, hcolon, hseconds, List.append_assoc,
    List.cons_append, List.nil_append]

theorem endsDigits_secondsText (seconds : Int) : EndsDigits (secondsText seconds) := by
  rw [secondsText]
  split
  · exact endsDigits_nil
  · exact endsDigits_cons (by decide)

/-- Their text tells them. -/
theorem secondsText_cancel {a b : Int} (h : secondsText a = secondsText b) :
    a.natAbs % 60 = b.natAbs % 60 := by
  rw [secondsText, secondsText] at h
  split at h <;> split at h
  · next ha hb => exact ha.trans hb.symm
  · cases h
  · cases h
  · have hdigits : (two (a.natAbs % 60)).toList ++ [] = (two (b.natAbs % 60)).toList ++ [] :=
      congrArg (· ++ []) (List.cons.inj h).2
    exact (paddedNat_cancel endsDigits_nil endsDigits_nil hdigits).1

/-- **An offset** from its ISO text. -/
theorem offsetIso_injective {a b : Int} (h : offsetIso a = offsetIso b) : a = b := by
  have hcolon : ∀ rest, EndsDigits (':' :: rest) := fun rest => endsDigits_cons (by decide)
  have htext := congrArg String.toList h
  rw [toList_offsetIso, toList_offsetIso] at htext
  obtain ⟨hsign, htext⟩ := List.cons.inj htext
  obtain ⟨hhours, htext⟩ := paddedNat_cancel (hcolon _) (hcolon _) htext
  obtain ⟨hminutes, htext⟩ := paddedNat_cancel (endsDigits_secondsText a)
    (endsDigits_secondsText b) (List.cons.inj htext).2
  have hseconds := secondsText_cancel htext
  have hnegative : a < 0 ↔ b < 0 := by
    by_cases ha : a < 0 <;> by_cases hb : b < 0 <;> simp [ha, hb] at hsign ⊢
  omega

/-- An offset, or none, ends a time. -/
theorem endsTime_offset (offset : Option Int) :
    EndsTime ((offset.map offsetIso).getD "").toList := by
  intro c others heq
  cases offset with
  | none => cases heq
  | some seconds =>
      have htext := toList_offsetIso seconds
      rw [Option.map_some, Option.getD_some, htext] at heq
      rw [← (List.cons.inj heq).1]
      split
      · exact .inr rfl
      · exact .inl rfl

/-- The text of a moment is its date, the joint, its time and its offset. -/
theorem toList_momentIso {joint : String} {c : Char} (hjoint : joint.toList = [c]) (m : Moment) :
    (m.isoWith joint).toList = m.date.iso.toList ++
      c :: (m.time.iso.toList ++ ((m.offset.map offsetIso).getD "").toList) := by
  simp only [Moment.isoWith, String.toList_append, hjoint, List.append_assoc,
    List.cons_append, List.nil_append]

/-- **A moment** from its ISO text, whatever stands between its date and its time of day. -/
theorem momentIso_injective {joint : String} {c : Char} (hjoint : joint.toList = [c])
    (hc : digitIn? 10 c = none) {m n : Moment} (h : m.isoWith joint = n.isoWith joint) : m = n := by
  have htext := congrArg String.toList h
  rw [toList_momentIso hjoint, toList_momentIso hjoint] at htext
  obtain ⟨hdate, htext⟩ := date_cancel (endsDigits_cons hc) (endsDigits_cons hc) htext
  obtain ⟨htime, htext⟩ :=
    time_cancel (endsTime_offset _) (endsTime_offset _) (List.cons.inj htext).2
  have hoffset : m.offset = n.offset := by
    have hempty : ∀ seconds, (offsetIso seconds).toList ≠ [] := by
      intro seconds hnil
      rw [toList_offsetIso] at hnil
      cases hnil
    cases hm : m.offset with
    | none =>
        cases hn : n.offset with
        | none => rfl
        | some other =>
            rw [hm, hn] at htext
            exact absurd htext.symm (hempty other)
    | some seconds =>
        cases hn : n.offset with
        | none =>
            rw [hm, hn] at htext
            exact absurd htext (hempty seconds)
        | some other =>
            rw [hm, hn] at htext
            exact congrArg some (offsetIso_injective (String.toList_injective htext))
  cases m
  cases n
  cases hdate
  cases htime
  cases hoffset
  rfl

end Calendar

/-! ### Bytes -/

namespace Text

/-- The value of a hexadecimal digit. -/
def hexValue (c : Char) : Nat :=
  (Number.digitIn? 16 c).getD 0

/-- The byte that an escape stands for, from behind its backslash. -/
def escapedByteAt : List Char → Nat
  | [] => 0
  | c :: rest =>
    if c = 'x' then Number.wholeOfDigits 16 ((rest.take 2).map hexValue)
    else if c = 't' then 9
    else if c = 'n' then 10
    else if c = 'r' then 13
    else c.toNat

/-- The byte that is written at the front of a quoted form. -/
def byteAt : List Char → Nat
  | [] => 0
  | c :: rest => if c = '\\' then escapedByteAt rest else c.toNat

/-- The escaped code of a byte tells the byte. -/
theorem byteAt_code {n : Nat} (h : n < 256) (rest : List Char) :
    byteAt (escapedCode n ++ rest) = n := by
  have hdigit : ∀ d < 16, hexValue (hexDigit d) = d := by decide
  rw [escapedCode, if_pos h]
  show (0 * 16 + hexValue (hexDigit (n / 16 % 16))) * 16 + hexValue (hexDigit (n % 16)) = n
  rw [hdigit _ (Nat.mod_lt _ (by decide)), hdigit _ (Nat.mod_lt _ (by decide))]
  omega

/-- **A byte** from its quoted form, whatever follows. -/
theorem byteAt_quotedByte {quote : Char} (hquote : quote = '\x27' ∨ quote = '\x22') (b : UInt8)
    (rest : List Char) : byteAt (quotedByte quote b ++ rest) = b.toNat := by
  have hsmall : b.toNat < 256 := b.toNat_lt
  have hchar : (Char.ofNat b.toNat).toNat = b.toNat :=
    congrArg Char.toNat (dif_pos (Or.inl (by omega)))
  have hof : ∀ {c : Char}, (Char.ofNat b.toNat == c) = true → c.toNat = b.toNat := by
    intro c heq
    rw [← beq_iff_eq.mp heq, hchar]
  rw [quotedByte]
  split
  · next hmark =>
      -- The quote and the backslash are none of the letters that stand for other bytes.
      have hplain : ∀ c, c = quote ∨ c = '\\' → byteAt (['\\', c] ++ rest) = c.toNat := by
        intro c hc
        rcases hquote with rfl | rfl <;> rcases hc with rfl | rfl <;> rfl
      rw [hplain, hchar]
      simpa using hmark
  · next hmark =>
      simp only [Bool.or_eq_true, beq_iff_eq, not_or] at hmark
      split
      · next heq => exact hof heq
      · split
        · next heq => exact hof heq
        · split
          · next heq => exact hof heq
          · split
            · show (if Char.ofNat b.toNat = '\\' then _ else (Char.ofNat b.toNat).toNat) = b.toNat
              rw [if_neg hmark.2, hchar]
            · exact byteAt_code hsmall rest

/-- Bytes one after the other. -/
theorem flatMap_quotedByte_injective {quote : Char} (hquote : quote = '\x27' ∨ quote = '\x22')
    {octets others : List UInt8}
    (h : octets.flatMap (quotedByte quote) = others.flatMap (quotedByte quote)) :
    octets = others := by
  have hnonempty : ∀ b rest, quotedByte quote b ++ rest ≠ [] := by
    intro b rest hnil
    have hcode : quotedByte quote b = [] := (List.append_eq_nil_iff.mp hnil).1
    revert hcode
    rw [quotedByte, escapedCode]
    repeat' split
    all_goals simp
  induction octets generalizing others with
  | nil =>
      cases others with
      | nil => rfl
      | cons b others => exact absurd h.symm (hnonempty b _)
  | cons a octets ih =>
      cases others with
      | nil => exact absurd h (hnonempty a _)
      | cons b others =>
          rw [List.flatMap_cons, List.flatMap_cons] at h
          have hbyte : a.toNat = b.toNat := by
            rw [← byteAt_quotedByte hquote a, h, byteAt_quotedByte hquote b]
          obtain rfl := UInt8.toNat_inj.mp hbyte
          rw [ih (List.append_cancel_left h)]

/-- **Bytes** from their quoted form. -/
theorem quotedBytes_injective {octets others : List UInt8}
    (h : quotedBytes octets = quotedBytes others) : octets = others := by
  rw [quotedBytes, quotedBytes] at h
  simp only [List.cons_append, List.cons.injEq, true_and] at h
  obtain ⟨hquote, h⟩ := h
  rw [hquote] at h
  refine flatMap_quotedByte_injective ?_ (List.append_cancel_right h)
  exact (quoteFor_not_mem _).imp_right And.left

end Text

/-! ### Both texts of a scalar -/

/-- Names of keys, and displays. -/
inductive Spelling where
  | name
  | display

namespace Spelling

/-- The words for null, true and false. -/
def null : Spelling → String
  | .name => "null"
  | .display => "None"

def yes : Spelling → String
  | .name => "true"
  | .display => "True"

def no : Spelling → String
  | .name => "false"
  | .display => "False"

/-- How doubles are laid out. -/
def layout : Spelling → Double.DecimalLayout
  | .name => Double.jsonLayout
  | .display => Double.plainLayout

/-- What stands between the date and the time of day of a moment. -/
def joint : Spelling → String
  | .name => "T"
  | .display => " "

end Spelling

/-- The text of a scalar. -/
def spelled (spelling : Spelling) : Value → String
  | .null => spelling.null
  | .bool b => if b then spelling.yes else spelling.no
  | .int i => toString i
  | .float x => x.render spelling.layout
  | .text s => s
  | .bytes octets => String.ofList (Text.quotedBytes octets)
  | .date d => d.iso
  | .moment m => m.isoWith spelling.joint
  | _ => ""

/-- The scalars that are words. -/
def wordValues : List Value :=
  [.null, .bool true, .bool false, .float .notNumber, .float (.infinite false),
    .float (.infinite true)]

/-- What a text looks like. -/
inductive Shape where
  | octets
  | moment
  | word
  | decimal
  | date
  | whole
  deriving DecidableEq

/-- The scalars that look so, other than texts. -/
inductive HasShape : Shape → Value → Prop
  | octets (octets : List UInt8) : HasShape .octets (.bytes octets)
  | moment (m : Calendar.Moment) : HasShape .moment (.moment m)
  | word (value : Value) (h : value ∈ wordValues) : HasShape .word value
  | decimal (negative : Bool) (significand : Nat) (exponent : Int)
      (proper : Double.Proper significand exponent) :
      HasShape .decimal (.float (.finite negative significand exponent))
  | date (d : Calendar.Date) : HasShape .date (.date d)
  | whole (i : Int) : HasShape .whole (.int i)

/-- Every scalar but a text has a shape. -/
theorem exists_hasShape {value : Value} (h : value.IsLeaf) (htext : ∀ s, value ≠ .text s) :
    ∃ shape, HasShape shape value := by
  cases h with
  | null => exact ⟨.word, .word _ (by simp [wordValues])⟩
  | bool b => exact ⟨.word, .word _ (by cases b <;> simp [wordValues])⟩
  | int i => exact ⟨.whole, .whole i⟩
  | float x hproper =>
      cases x with
      | notNumber => exact ⟨.word, .word _ (by simp [wordValues])⟩
      | infinite negative => exact ⟨.word, .word _ (by cases negative <;> simp [wordValues])⟩
      | finite negative significand exponent => exact ⟨.decimal, .decimal _ _ _ hproper⟩
  | text s => exact absurd rfl (htext s)
  | bytes octets => exact ⟨.octets, .octets octets⟩
  | date d => exact ⟨.date, .date d⟩
  | moment m => exact ⟨.moment, .moment m⟩

/-- The letters of which every word holds one, and no number does. -/
def wordLetters : List Char :=
  ['n', 't', 'f', 'i', 'N', 'T', 'F', 'I']

/-- What the characters tell. -/
def shapeOf (text : List Char) : Shape :=
  if text.head? = some 'b' then .octets
  else if ':' ∈ text then .moment
  else if text.any (wordLetters.contains ·) then .word
  else if '.' ∈ text ∨ 'e' ∈ text then .decimal
  else if '-' ∈ text.tail then .date
  else .whole

/-- Digits and the marks of numbers. -/
def IsNumberChar (c : Char) : Prop :=
  (∃ d < 10, c = d.digitChar) ∨ c ∈ ['.', 'e', '-', '+']

/-- The characters of a number stand in no word, time or bytes. -/
theorem IsNumberChar.other {c : Char} (h : IsNumberChar c) :
    c ≠ 'b' ∧ c ≠ ':' ∧ c ∉ wordLetters := by
  have hdigit : ∀ d < 10, d.digitChar ≠ 'b' ∧ d.digitChar ≠ ':' ∧ d.digitChar ∉ wordLetters := by
    decide
  rcases h with ⟨d, hd, rfl⟩ | hmark
  · exact hdigit d hd
  · simp only [List.mem_cons, List.not_mem_nil, or_false] at hmark
    rcases hmark with rfl | rfl | rfl | rfl <;> decide

/-- Without other characters a text is a number or a date. -/
theorem shapeOf_numeric {text : List Char} (h : ∀ c ∈ text, IsNumberChar c) :
    shapeOf text = if '.' ∈ text ∨ 'e' ∈ text then .decimal
      else if '-' ∈ text.tail then .date else .whole := by
  have hhead : text.head? ≠ some 'b' := fun heq =>
    (h 'b' (List.mem_of_mem_head? heq)).other.1 rfl
  have hcolon : ':' ∉ text := fun hmem => (h ':' hmem).other.2.1 rfl
  have hletters : ¬ text.any (wordLetters.contains ·) = true := by
    rw [List.any_eq_true]
    rintro ⟨c, hc, hmem⟩
    exact (h c hc).other.2.2 (by simpa using hmem)
  rw [shapeOf, if_neg hhead, if_neg hcolon, if_neg hletters]

theorem isNumberChar_digitChars {digits : List Nat} (h : AreDigits digits) :
    ∀ c ∈ digitChars digits, IsNumberChar c := by
  intro c hc
  obtain ⟨d, hd, rfl⟩ := List.mem_map.mp hc
  exact .inl ⟨d, h d hd, rfl⟩

/-- A printed number is made of the characters of numbers. -/
theorem isNumberChar_parts (negative : Bool) {parts : NumberParts} (h : parts.Sound) :
    ∀ c ∈ minus negative ++ parts.chars, IsNumberChar c := by
  intro c hc
  rcases List.mem_append.mp hc with hc | hc
  · cases negative with
    | true =>
        rw [List.mem_singleton.mp hc]
        exact .inr (by decide)
    | false => cases hc
  · rcases NumberParts.mem_chars h c hc with hdigit | rfl | ⟨-, hmark⟩
    · exact .inl hdigit
    · exact .inr (by decide)
    · simp only [List.mem_cons, List.not_mem_nil, or_false] at hmark
      rcases hmark with rfl | rfl | rfl <;> exact .inr (by decide)

/-- A whole number is printed as a sign or none, and its digits. -/
theorem exists_digits_int (i : Int) :
    ∃ digits, AreDigits digits ∧ wholeOfDigits 10 digits = i.natAbs ∧
      (toString i).toList = minus (decide (i < 0)) ++ digitChars digits := by
  obtain ⟨digits, htext, hdigits, -, hvalue, -⟩ := exists_digits i.natAbs
  exact ⟨digits, hdigits, hvalue, by rw [toList_toString_int, htext]⟩

/-- Its shape is that of a whole number. -/
theorem shapeOf_int (i : Int) : shapeOf (toString i).toList = .whole := by
  obtain ⟨digits, hdigits, -, htext⟩ := exists_digits_int i
  have hmark : ∀ c, digitIn? 10 c = none → c ∉ digitChars digits := fun c =>
    not_mem_digitChars hdigits
  rw [htext, shapeOf_numeric]
  · cases decide (i < 0) with
    | true => simp [hmark '.' (by decide), hmark 'e' (by decide), hmark '-' (by decide)]
    | false =>
        have htail : '-' ∉ (digitChars digits).tail := fun hmem =>
          hmark '-' (by decide) (List.mem_of_mem_tail hmem)
        simp [hmark '.' (by decide), hmark 'e' (by decide), htail]
  · intro c hc
    rcases List.mem_append.mp hc with hc | hc
    · cases hsign : decide (i < 0) with
      | true =>
          rw [hsign] at hc
          rw [List.mem_singleton.mp hc]
          exact .inr (by decide)
      | false =>
          rw [hsign] at hc
          cases hc
    · exact isNumberChar_digitChars hdigits c hc

theorem shapeOf_date (d : Calendar.Date) : shapeOf d.iso.toList = .date := by
  obtain ⟨first, year, month, day, hyear, hmonth, hday, htext⟩ := exists_date_digits d
  have hmark : ∀ c, digitIn? 10 c = none → c ≠ '-' → c ∉ d.iso.toList := by
    intro c hc hminus
    simp only [htext, List.mem_append, List.mem_cons, not_or]
    exact ⟨not_mem_digitChars hyear hc, hminus, not_mem_digitChars hmonth hc, hminus,
      not_mem_digitChars hday hc⟩
  have htail : '-' ∈ d.iso.toList.tail := by
    simp [htext, digitChars]
  rw [shapeOf_numeric, if_neg, if_pos htail]
  · exact not_or.mpr ⟨hmark '.' (by decide) (by decide), hmark 'e' (by decide) (by decide)⟩
  · intro c hc
    rw [htext] at hc
    simp only [List.mem_append, List.mem_cons] at hc
    rcases hc with hc | rfl | hc | rfl | hc
    · exact isNumberChar_digitChars hyear c hc
    · exact .inr (by decide)
    · exact isNumberChar_digitChars hmonth c hc
    · exact .inr (by decide)
    · exact isNumberChar_digitChars hday c hc

/-- A double is laid out the same for names and for displays. -/
theorem render_layout (spelling : Spelling) (negative : Bool) (significand : Nat)
    (exponent : Int) :
    Double.render spelling.layout (.finite negative significand exponent) =
      Double.render Double.jsonLayout (.finite negative significand exponent) := by
  cases spelling <;> rfl

/-- The joint of a moment is one character, and no digit. -/
theorem joint_toList (spelling : Spelling) :
    ∃ c, spelling.joint.toList = [c] ∧ digitIn? 10 c = none := by
  cases spelling
  · exact ⟨'T', rfl, by decide⟩
  · exact ⟨' ', rfl, by decide⟩

/-- **The characters tell the kind.** -/
theorem shapeOf_spelled (spelling : Spelling) {shape : Shape} {value : Value}
    (h : HasShape shape value) : shapeOf (spelled spelling value).toList = shape := by
  cases h with
  | octets octets =>
      rw [spelled, String.toList_ofList, Text.quotedBytes]
      rfl
  | moment m =>
      obtain ⟨c, hjoint, -⟩ := joint_toList spelling
      obtain ⟨first, year, month, day, hyear, -, -, hdate⟩ := exists_date_digits m.date
      have hfirst : first < 10 := hyear first List.mem_cons_self
      have htext := Calendar.toList_momentIso hjoint m
      have hhead : (m.isoWith spelling.joint).toList.head? = some first.digitChar := by
        rw [htext, hdate]
        rfl
      have hdigit : ∀ d < 10, d.digitChar ≠ 'b' := by decide
      have hcolon : ':' ∈ (m.isoWith spelling.joint).toList := by
        rw [htext, Calendar.toList_timeIso]
        simp
      rw [spelled, shapeOf, if_neg, if_pos hcolon]
      rw [hhead]
      exact fun heq => hdigit first hfirst (Option.some.inj heq)
  | word value hword =>
      simp only [wordValues, List.mem_cons, List.not_mem_nil, or_false] at hword
      cases spelling <;> rcases hword with rfl | rfl | rfl | rfl | rfl | rfl <;> decide
  | decimal negative significand exponent hproper =>
      obtain ⟨parts, hsound, hmark, htext, -⟩ := exists_render negative hproper
      rw [spelled, render_layout, htext, shapeOf_numeric (isNumberChar_parts negative hsound),
        if_pos]
      rcases hmark with hfraction | hexponent
      · refine .inl (List.mem_append_right _ ?_)
        simp [NumberParts.chars, NumberParts.fractionChars, hfraction]
      · refine .inr (List.mem_append_right _ ?_)
        obtain ⟨written, hwritten⟩ := Option.ne_none_iff_exists'.mp hexponent
        simp [NumberParts.chars, NumberParts.exponentChars, hwritten]
  | date d => exact shapeOf_date d
  | whole i => exact shapeOf_int i

/-- Whole numbers are told apart by their texts. -/
theorem toString_int_injective {i k : Int} (h : toString i = toString k) : i = k := by
  obtain ⟨digits, hdigits, hvalue, htext⟩ := exists_digits_int i
  obtain ⟨others, hothers, hotherValue, hotherText⟩ := exists_digits_int k
  have heq : minus (decide (i < 0)) ++ digitChars digits =
      minus (decide (k < 0)) ++ digitChars others := by rw [← htext, ← hotherText, h]
  have hminus : ∀ {digits : List Nat}, AreDigits digits → '-' ∉ digitChars digits := fun hd =>
    not_mem_digitChars hd (by decide)
  have hsign : (i < 0 ↔ k < 0) ∧ digitChars digits = digitChars others := by
    by_cases hi : i < 0 <;> by_cases hk : k < 0 <;> simp [hi, hk] at heq ⊢
    · exact heq
    · exact hminus hothers (heq ▸ List.mem_cons_self)
    · exact hminus hdigits (heq ▸ List.mem_cons_self)
    · exact heq
  have hall := allDigits?_digitChars hdigits
  rw [hsign.2, allDigits?_digitChars hothers] at hall
  obtain rfl := Option.some.inj hall
  have hsize : i.natAbs = k.natAbs := hvalue.symm.trans hotherValue
  omega

/-- **The words are different.** -/
theorem nodup_spelled_words (spelling : Spelling) :
    (wordValues.map (spelled spelling)).Nodup := by
  cases spelling <;> decide

/-- Within a kind the text is read back. -/
theorem spelled_injective_of_hasShape {spelling : Spelling} {shape : Shape} {a b : Value}
    (ha : HasShape shape a) (hb : HasShape shape b)
    (h : spelled spelling a = spelled spelling b) : a = b := by
  cases ha with
  | octets octets =>
      cases hb with
      | octets others =>
          exact congrArg Value.bytes (Text.quotedBytes_injective (String.ofList_injective h))
  | moment m =>
      cases hb with
      | moment n =>
          obtain ⟨c, hjoint, hc⟩ := joint_toList spelling
          exact congrArg Value.moment (Calendar.momentIso_injective hjoint hc h)
  | word value hvalue =>
      cases hb with
      | word other hother =>
          exact List.inj_on_of_nodup_map (nodup_spelled_words spelling) hvalue hother h
  | decimal negative significand exponent hproper =>
      cases hb with
      | decimal otherNegative otherSignificand otherExponent hotherProper =>
          obtain ⟨parts, -, -, htext, hread⟩ := exists_render negative hproper
          obtain ⟨others, -, -, hotherText, hotherRead⟩ := exists_render otherNegative hotherProper
          rw [spelled, spelled, render_layout, render_layout] at h
          rw [← htext, h, hotherText, hotherRead] at hread
          exact congrArg Value.float (Except.ok.inj hread).symm
  | date d =>
      cases hb with
      | date e =>
          have htext : d.iso.toList ++ [] = e.iso.toList ++ [] :=
            congrArg (fun text : String => text.toList ++ []) h
          exact congrArg Value.date (Calendar.date_cancel endsDigits_nil endsDigits_nil htext).1
  | whole i =>
      cases hb with
      | whole k => exact congrArg Value.int (toString_int_injective h)

/-- **A scalar that is no text** is told by its text. -/
theorem spelled_injective {spelling : Spelling} {a b : Value} (ha : a.IsLeaf) (hb : b.IsLeaf)
    (hatext : ∀ s, a ≠ .text s) (hbtext : ∀ s, b ≠ .text s)
    (h : spelled spelling a = spelled spelling b) : a = b := by
  obtain ⟨shape, hshape⟩ := exists_hasShape ha hatext
  obtain ⟨other, hother⟩ := exists_hasShape hb hbtext
  obtain rfl : shape = other := by
    rw [← shapeOf_spelled spelling hshape, h, shapeOf_spelled spelling hother]
  exact spelled_injective_of_hasShape hshape hother h

/-- The name of a key. -/
theorem keyName_eq_spelled {key : Value} (h : key.IsLeaf) :
    Json.keyName key = spelled .name key := by
  cases h <;> rfl

/-- A display, if there is one. -/
theorem display_eq_spelled {value : Value} (h : value.IsLeaf) {text : String}
    (htext : value.display = .ok text) : text = spelled .display value := by
  cases h with
  | int i =>
      have hwrite : writeInteger i = .ok text := htext
      rw [writeInteger] at hwrite
      split at hwrite
      · cases hwrite
      · exact (Except.ok.inj hwrite).symm
  | _ => exact (Except.ok.inj htext).symm

end ContentCatalog
