import ContentCatalog.Proofs.MergedKeys
import ContentCatalog.Proofs.PrintedNumbers

/-!
# The names of mapping keys

The keys of a mapping become the names of an object.  Words and numbers keep a kind of
their own until the object is printed, all others are texts from the first pass on.
What tells the two apart is the name: no date, moment, time, byte sequence or tuple has
the name of a word or of a number.  So the first pass merges nothing that the names
would not.

* `IsKey` : what a mapping or a set can hold as a key;
* `exists_date_digits` : dates as texts;
* `plainKey_eq`, `keyText_plainOf` : every key has a name, which both passes agree on;
* `bareName_keyName`, `not_bareName_keyName` : the names of words and numbers, and of
  the kinds that become texts;
* `unmistaken_of_apart`, `unmistaken_plainOf` : keys that the first pass confuses have a
  name of their own.
-/

namespace ContentCatalog

open Number

/-- The value can be a key: it is no container but a tuple of keys, and its numbers are
those that documents have. -/
inductive Value.IsKey : Value → Prop
  | null : IsKey .null
  | bool (b : Bool) : IsKey (.bool b)
  | int (i : Int) (short : i.natAbs < tenTo digitLimit) : IsKey (.int i)
  | float (x : Double) (proper : x.IsProper) : IsKey (.float x)
  | text (s : String) : IsKey (.text s)
  | bytes (octets : List UInt8) : IsKey (.bytes octets)
  | date (d : Calendar.Date) : IsKey (.date d)
  | moment (m : Calendar.Moment) : IsKey (.moment m)
  | time (t : Calendar.TimeOfDay) : IsKey (.time t)
  | tuple (items : List Value) (parts : ∀ item ∈ items, IsKey item) : IsKey (.tuple items)

/-! ### Dates -/

/-- Digits hold no mark of a number. -/
theorem not_mem_digitChars {digits : List Nat} (h : AreDigits digits) {c : Char}
    (hc : digitIn? 10 c = none) : c ∉ digitChars digits := by
  intro hmem
  obtain ⟨d, hd, rfl⟩ := List.mem_map.mp hmem
  rw [digitIn?_digitChar (h d hd)] at hc
  cases hc

/-- The text of a date is its year in four digits at least, its month and its day. -/
theorem Calendar.toList_dateIso (d : Date) :
    d.iso.toList = (Double.paddedNat 4 d.year).toList ++
      '-' :: ((two d.month).toList ++ '-' :: (two d.day).toList) := by
  have hminus : "-".toList = ['-'] := rfl
  simp only [Date.iso, String.toList_append, hminus, List.append_assoc, List.cons_append,
    List.nil_append]

/-- A date is three numbers, of which the first has a digit at least. -/
theorem exists_date_digits (d : Calendar.Date) :
    ∃ first year month day, AreDigits (first :: year) ∧ AreDigits month ∧ AreDigits day ∧
      d.iso.toList = digitChars (first :: year) ++
        '-' :: (digitChars month ++ '-' :: digitChars day) := by
  obtain ⟨year, hyear, hyearDigits, hne, -⟩ := exists_paddedNat 4 d.year
  obtain ⟨month, hmonth, hmonthDigits, -, -⟩ := exists_paddedNat 2 d.month
  obtain ⟨day, hday, hdayDigits, -, -⟩ := exists_paddedNat 2 d.day
  obtain ⟨first, others, rfl⟩ := List.exists_cons_of_ne_nil hne
  refine ⟨first, others, month, day, hyearDigits, hmonthDigits, hdayDigits, ?_⟩
  rw [Calendar.toList_dateIso, Calendar.two, Calendar.two, hyear, hmonth, hday]

/-! ### Displays -/

namespace Value

/-- The display of a value; a value without one has no text. -/
def displayText (value : Value) : String :=
  (display value).toOption.getD ""

/-- Items that can all be displayed are displayed in order. -/
theorem forms_ok {items : List Value} {around : List Bracket}
    (h : ∀ item ∈ items, ∃ text, form around item = .ok text) :
    ∃ texts, forms around items = .ok texts := by
  induction items with
  | nil => exact ⟨[], rfl⟩
  | cons item items ih =>
      obtain ⟨hitem, hitems⟩ := List.forall_mem_cons.mp h
      obtain ⟨text, htext⟩ := hitem
      obtain ⟨texts, htexts⟩ := ih hitems
      refine ⟨text :: texts, ?_⟩
      rw [forms, htext]
      simp only [bind, Except.bind, htexts]
      rfl

/-- A number of few digits is written. -/
theorem writeInteger_ok {i : Int} (h : i.natAbs < tenTo digitLimit) :
    writeInteger i = .ok (toString i) := by
  rw [writeInteger, if_neg (Nat.not_le.mpr h)]

/-- A key has an inner form. -/
theorem IsKey.form_ok {key : Value} (h : key.IsKey) (around : List Bracket) :
    ∃ text, form around key = .ok text := by
  induction h generalizing around with
  | int i hshort => exact ⟨_, writeInteger_ok hshort⟩
  | tuple items _ ih =>
      obtain ⟨texts, htexts⟩ := forms_ok fun item hitem => ih item hitem (.tuple :: around)
      exact ⟨_, by rw [form, htexts]; rfl⟩
  | _ => exact ⟨_, rfl⟩

/-- A key has a display. -/
theorem IsKey.display_eq {key : Value} (h : key.IsKey) : display key = .ok key.displayText := by
  have hok : ∃ text, display key = .ok text := by
    cases h with
    | text s => exact ⟨s, rfl⟩
    | date d => exact ⟨_, rfl⟩
    | moment m => exact ⟨_, rfl⟩
    | time t => exact ⟨_, rfl⟩
    | int i hshort => exact (IsKey.int i hshort).form_ok []
    | tuple items hparts => exact (IsKey.tuple items hparts).form_ok []
    | _ => exact ⟨_, rfl⟩
  obtain ⟨text, htext⟩ := hok
  rw [displayText, htext]
  rfl

end Value

namespace Json

open Value (IsKey displayText sameKey)

/-! ### Names -/

/-- The name that a key has in an object. -/
def keyName : Value → String
  | .null => "null"
  | .bool b => if b then "true" else "false"
  | .int i => toString i
  | .float x => x.render Double.jsonLayout
  | .text s => s
  | .date d => d.iso
  | .moment m => m.iso
  | .time t => t.iso
  | key => displayText key

/-- The key after the first pass. -/
def plainOf : Value → Value
  | .null => .null
  | .bool b => .bool b
  | .int i => .int i
  | .float x => .float x
  | key => .text (keyName key)

/-- Every key is made plain. -/
theorem plainKey_eq {key : Value} (h : key.IsKey) : plainKey key = .ok (plainOf key) := by
  cases h with
  | bytes octets => rfl
  | tuple items hparts =>
      show ((Value.display (.tuple items)).mapError WriteFault.number).map Value.text = _
      rw [(IsKey.tuple items hparts).display_eq]
      rfl
  | _ => rfl

/-- Its text is its name then. -/
theorem keyText_plainOf {key : Value} (h : key.IsKey) :
    keyText (plainOf key) = .ok (keyName key) := by
  cases h with
  | int i hshort =>
      show (writeInteger i).mapError WriteFault.number = _
      rw [Value.writeInteger_ok hshort]
      rfl
  | _ => rfl

theorem keyName_plainOf (key : Value) : keyName (plainOf key) = keyName key := by
  cases key <;> rfl

/-! ### The names of words and numbers -/

/-- The name can be a word's or a number's: it has no marks of other kinds, and a minus
behind its start belongs to an exponent. -/
structure BareName (name : List Char) : Prop where
  marks : ∀ c ∈ name, c ∉ [':', '(', '\x27', '\x22']
  sign : 'e' ∉ name → '-' ∉ name.tail

/-- The key has no other kind in JSON: it stays what it is in the first pass. -/
def IsBareKey : Value → Prop
  | .null | .bool _ | .int _ | .float _ => True
  | _ => False

/-- A word is looked through. -/
theorem bareName_word {name : List Char}
    (hmarks : (name.all fun c => decide (c ∉ [':', '(', '\x27', '\x22'])) = true)
    (hsign : '-' ∉ name.tail) : BareName name :=
  ⟨fun c hc => of_decide_eq_true (List.all_eq_true.mp hmarks c hc), fun _ => hsign⟩

/-- The characters of a number make a bare name. -/
theorem bareName_number (negative : Bool) {parts : NumberParts} (h : parts.Sound) :
    BareName (minus negative ++ parts.chars) := by
  have hdigits : ∀ d < 10, d.digitChar ∉ [':', '(', '\x27', '\x22'] ∧ d.digitChar ≠ '-' := by
    decide
  constructor
  · intro c hc
    rcases List.mem_append.mp hc with hc | hc
    · cases negative with
      | true =>
          rw [List.mem_singleton.mp hc]
          decide
      | false => cases hc
    · rcases NumberParts.mem_chars h c hc with ⟨d, hd, rfl⟩ | rfl | ⟨-, hmark⟩
      · exact (hdigits d hd).1
      · decide
      · simp only [List.mem_cons, List.not_mem_nil, or_false] at hmark
        rcases hmark with rfl | rfl | rfl <;> decide
  · intro he hminus
    have hmem : '-' ∈ parts.chars := by
      cases negative with
      | true => exact hminus
      | false => exact List.mem_of_mem_tail hminus
    rcases NumberParts.mem_chars h '-' hmem with ⟨d, hd, heq⟩ | heq | ⟨hne, -⟩
    · exact (hdigits d hd).2 heq.symm
    · exact absurd heq (by decide)
    · refine he (List.mem_append_right _ ?_)
      obtain ⟨exponent, hexponent⟩ := Option.ne_none_iff_exists'.mp hne
      simp [NumberParts.chars, NumberParts.exponentChars, hexponent]

/-- The name of a bare key is a bare name. -/
theorem bareName_keyName {key : Value} (h : key.IsKey) (hbare : IsBareKey key) :
    BareName (keyName key).toList := by
  cases h with
  | null => exact bareName_word (by decide) (by decide)
  | bool b => cases b <;> exact bareName_word (by decide) (by decide)
  | int i _ =>
      obtain ⟨parts, hsound, -, -, hchars⟩ := exists_parts_int i
      show BareName (toString i).toList
      rw [toList_toString_int, ← hchars]
      exact bareName_number _ hsound
  | float x hproper =>
      cases x with
      | notNumber => exact bareName_word (by decide) (by decide)
      | infinite negative => cases negative <;> exact bareName_word (by decide) (by decide)
      | finite negative significand exponent =>
          obtain ⟨parts, hsound, -, htext, -⟩ := exists_render negative hproper
          show BareName (Double.render _ _).toList
          rw [htext]
          exact bareName_number negative hsound
  | text => exact hbare.elim
  | bytes => exact hbare.elim
  | date => exact hbare.elim
  | moment => exact hbare.elim
  | time => exact hbare.elim
  | tuple => exact hbare.elim

/-- No bare name has a colon, a bracket or a quote. -/
theorem not_bareName_of_mark {name : List Char} {c : Char} (hmark : c ∈ [':', '(', '\x27', '\x22'])
    (hmem : c ∈ name) : ¬ BareName name :=
  fun h => h.marks c hmem hmark

/-- A time of day has a colon. -/
theorem colon_mem_iso (t : Calendar.TimeOfDay) : ':' ∈ t.iso.toList := by
  simp [Calendar.TimeOfDay.iso]

/-- A date has a minus behind its year, and no exponent. -/
theorem not_bareName_date (d : Calendar.Date) : ¬ BareName d.iso.toList := by
  obtain ⟨first, year, month, day, hyear, hmonth, hday, htext⟩ := exists_date_digits d
  intro h
  rw [htext] at h
  refine h.sign ?_ ?_
  · have hexponent : ∀ {digits : List Nat}, AreDigits digits → 'e' ∉ digitChars digits :=
      fun hdigits => not_mem_digitChars hdigits (by decide)
    simp [hexponent hyear, hexponent hmonth, hexponent hday]
  · simp [digitChars]

/-- **The kinds that become texts** do not have the names of words and numbers. -/
theorem not_bareName_keyName {key : Value} (h : key.IsKey) (hbare : ¬ IsBareKey key)
    (htext : ∀ s, key ≠ .text s) : ¬ BareName (keyName key).toList := by
  cases h with
  | date d => exact not_bareName_date d
  | moment m =>
      refine not_bareName_of_mark (c := ':') (by decide) ?_
      show ':' ∈ (m.isoWith "T").toList
      simp [Calendar.Moment.isoWith, colon_mem_iso]
  | time t => exact not_bareName_of_mark (c := ':') (by decide) (colon_mem_iso t)
  | bytes octets =>
      rcases Text.quoteFor_not_mem (octets.map fun b => Char.ofNat b.toNat) with hquote | ⟨hquote, -⟩
      · refine not_bareName_of_mark (c := '\x27') (by decide) ?_
        show _ ∈ (String.ofList (Text.quotedBytes octets)).toList
        simp [Text.quotedBytes, hquote]
      · refine not_bareName_of_mark (c := '\x22') (by decide) ?_
        show _ ∈ (String.ofList (Text.quotedBytes octets)).toList
        simp [Text.quotedBytes, hquote]
  | tuple items hparts =>
      refine not_bareName_of_mark (c := '(') (by decide) ?_
      obtain ⟨texts, htexts⟩ := Value.forms_ok fun item hitem => (hparts item hitem).form_ok [.tuple]
      have hform : Value.display (.tuple items) = .ok (Value.Bracket.tuple.enclose texts) := by
        show Value.form [] (.tuple items) = _
        rw [Value.form, htexts]
        rfl
      show '(' ∈ (Value.displayText (.tuple items)).toList
      rw [Value.displayText, hform]
      simp [Except.toOption, Value.Bracket.enclose]
  | text s => exact absurd rfl (htext s)
  | _ => exact absurd trivial hbare

/-! ### Keys in the first pass -/

/-- A bare key stays what it is, and all others become texts. -/
theorem plainOf_cases (key : Value) :
    (IsBareKey key ∧ plainOf key = key) ∨
      (¬ IsBareKey key ∧ plainOf key = .text (keyName key)) := by
  cases key <;> simp [IsBareKey, plainOf, keyName]

/-- A word or a number is not the same key as a text. -/
theorem sameKey_text_of_bare {key : Value} (h : IsBareKey key) (s : String) :
    sameKey key (.text s) = false ∧ sameKey (.text s) key = false := by
  cases key <;> first | exact h.elim | exact ⟨by simp [sameKey], by simp [sameKey]⟩

/-- **Different keys that the first pass confuses** become the same text, and one of them
is of a kind that becomes a text. -/
theorem plainOf_of_sameKey {a b : Value} (hdistinct : sameKey a b = false)
    (hsame : sameKey (plainOf a) (plainOf b) = true) :
    plainOf a = .text (keyName a) ∧ plainOf b = .text (keyName a) ∧
      ∃ key, (key = a ∨ key = b) ∧ ¬ IsBareKey key ∧ (∀ s, key ≠ .text s) ∧
        keyName key = keyName a := by
  rcases plainOf_cases a with ⟨ha, heqa⟩ | ⟨ha, heqa⟩ <;>
    rcases plainOf_cases b with ⟨hb, heqb⟩ | ⟨hb, heqb⟩
  · rw [heqa, heqb, hdistinct] at hsame
    cases hsame
  · rw [heqa, heqb, (sameKey_text_of_bare ha _).1] at hsame
    cases hsame
  · rw [heqa, heqb, (sameKey_text_of_bare hb _).2] at hsame
    cases hsame
  · have hname : keyName a = keyName b := by
      rw [heqa, heqb] at hsame
      simpa [sameKey] using hsame
    refine ⟨heqa, by rw [heqb, hname], ?_⟩
    by_cases htext : ∃ s, a = .text s
    · obtain ⟨s, rfl⟩ := htext
      refine ⟨b, .inr rfl, hb, ?_, hname.symm⟩
      rintro t rfl
      rw [show s = t from hname] at hdistinct
      simp [sameKey] at hdistinct
    · exact ⟨a, .inl rfl, ha, fun s hs => htext ⟨s, hs⟩, rfl⟩

/-- The first pass confuses no other keys, if the kinds that become texts do not have the names of
words and numbers. -/
theorem unmistaken_of_apart {keys : List Value}
    (hdistinct : keys.Pairwise fun a b => sameKey a b = false)
    (hapart : ∀ key ∈ keys, ∀ other ∈ keys, ¬ IsBareKey key → (∀ s, key ≠ .text s) →
      IsBareKey other → keyName other ≠ keyName key) :
    Dictionary.Unmistaken sameKey keyName (keys.map plainOf) := by
  rw [Dictionary.Unmistaken, List.pairwise_map]
  refine hdistinct.imp_of_mem ?_
  intro a b hamem hbmem hab hsame
  obtain ⟨ha, hb, key, hkey, hbare, htext, hname⟩ := plainOf_of_sameKey hab hsame
  have hmem : key ∈ keys := by
    rcases hkey with rfl | rfl
    · exact hamem
    · exact hbmem
  refine ⟨ha.trans hb.symm, ?_⟩
  intro c hc hnames
  obtain ⟨other, hother, rfl⟩ := List.mem_map.mp hc
  rw [keyName_plainOf, keyName_plainOf] at hnames
  rcases plainOf_cases other with ⟨hotherBare, -⟩ | ⟨-, heq⟩
  · exact absurd (hnames.trans hname.symm) (hapart key hmem other hother hbare htext hotherBare)
  · rw [heq, hnames, ha]

/-- **The names tell all keys apart** that the first pass confuses with none. -/
theorem unmistaken_plainOf {keys : List Value} (hkeys : ∀ key ∈ keys, key.IsKey)
    (hdistinct : keys.Pairwise fun a b => sameKey a b = false) :
    Dictionary.Unmistaken sameKey keyName (keys.map plainOf) := by
  apply unmistaken_of_apart hdistinct
  intro key hkey other hother hbare htext hotherBare hname
  have hbad := bareName_keyName (hkeys other hother) hotherBare
  rw [hname] at hbad
  exact not_bareName_keyName (hkeys key hkey) hbare htext hbad

end Json

end ContentCatalog
