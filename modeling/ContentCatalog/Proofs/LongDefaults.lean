import ContentCatalog.Proofs.EarlierDeclarations
import ContentCatalog.Proofs.FenceLines
import ContentCatalog.Proofs.InterfaceMembers
import ContentCatalog.Proofs.UsedTags

/-!
# Defaults with too many digits

Only one thing in a component's source keeps it from being read: where the props are taken apart,
a default is a whole number with more digits than a whole number may have.  The reading then fails
at the first such entry and reports how many digits it has.  Everything else is read, and where
nothing is recognised nothing is listed.

The failure is followed from the literal to the entry, from the entry to the declaration, and from
the declaration to the source.  At each level the other readers in between succeed, so that the
first failing part is the failure of the whole.

* `literal_eq_error_iff` : the literals that cannot be read;
* `entryField_eq_error_iff` : the entries, spelled out with their white space;
* `takesApart_iff` : what the reader takes for the declaration of the props;
* `destructuredFields_eq_error_iff` : the declarations;
* `component_eq_error_iff` : the sources;
* `component_numberScript` : a source that cannot be read, for any digits that are too many;
* `component_ends` : which sources are read, and what is listed of them.
-/

namespace ContentCatalog.Source

open Text Number

variable {script body piece : List Char} {fault : Fault}

/-! ### Literals -/

/-- A number of too many digits is refused with their count. -/
theorem literal_long (negative : Bool) {digits : List Char} (h : isDigits digits = true)
    (hlong : digitLimit < digits.length) :
    literal (minus negative ++ digits) = .error (.tooManyDigits digits.length) := by
  obtain ⟨hne, hall⟩ := isDigits_iff.mp h
  rw [literal_whole negative h, readInteger_of_digits negative hne
    (allDigits?_of_mapM (mapM_digitValue? hall)), if_pos hlong]
  rfl

/-- **A literal cannot be read** exactly if it is a whole number with too many digits. -/
theorem literal_eq_error_iff {text : List Char} :
    literal text = .error fault ↔
      ∃ negative digits, literalText text = minus negative ++ digits ∧ isDigits digits = true ∧
        digitLimit < digits.length ∧ fault = .tooManyDigits digits.length := by
  have hfails : ∀ negative digits, literalText text = minus negative ++ digits →
      isDigits digits = true → digitLimit < digits.length →
        literal text = .error (.tooManyDigits digits.length) := by
    intro negative digits hleft hdigits hlong
    have hself := (literalText_number (isPlainNumber_integer negative hdigits)).2
    rw [literal_congr (hleft.trans hself.symm), literal_long negative hdigits hlong]
  constructor
  · intro h
    have hnumeral : LongNumeral text := by
      by_contra hshort
      obtain ⟨read, hread⟩ := literal_of_short hshort
      rw [h] at hread
      cases hread
    obtain ⟨negative, digits, hleft, hall, hlong⟩ := hnumeral
    have hne : digits ≠ [] := by
      rintro rfl
      exact absurd hlong (Nat.not_lt_zero _)
    have hdigits := isDigits_iff.mpr ⟨hne, hall⟩
    rw [hfails negative digits hleft hdigits hlong] at h
    exact ⟨negative, digits, hleft, hdigits, hlong, (Except.error.inj h).symm⟩
  · rintro ⟨negative, digits, hleft, hdigits, hlong, rfl⟩
    exact hfails negative digits hleft hdigits hlong

/-! ### Entries -/

/-- An entry that gives a prop a whole number, with the white space that may stand between its
parts. -/
structure NumberEntry where
  before : List Char
  name : List Char
  behindName : List Char
  behindEquals : List Char
  negative : Bool
  digits : List Char
  after : List Char
  before_blank : ∀ c ∈ before, isSpace c = true
  name_isIdentifier : IsIdentifier name
  behindName_blank : ∀ c ∈ behindName, isSpace c = true
  behindEquals_blank : ∀ c ∈ behindEquals, isSpace c = true
  digits_isDigits : isDigits digits = true
  after_blank : ∀ c ∈ after, isSpace c = true

namespace NumberEntry

/-- The number of the entry as it is written. -/
def number (entry : NumberEntry) : List Char :=
  minus entry.negative ++ entry.digits

/-- The entry without the white space around it. -/
def core (entry : NumberEntry) : List Char :=
  entry.name ++ (entry.behindName ++ '=' :: (entry.behindEquals ++ entry.number))

/-- The entry as it stands between commas. -/
def text (entry : NumberEntry) : List Char :=
  entry.before ++ entry.core ++ entry.after

variable (entry : NumberEntry)

theorem isPlainNumber_number : isPlainNumber entry.number = true :=
  isPlainNumber_integer entry.negative entry.digits_isDigits

theorem number_ne_nil : entry.number ≠ [] := by
  obtain ⟨c, rest, hnumber, -⟩ := exists_head_of_isPlainNumber entry.isPlainNumber_number
  rw [hnumber]
  exact List.cons_ne_nil c rest

/-- The entry without its blanks has none at its ends. -/
theorem isStripped_core : IsStripped entry.core := by
  have hstripped := (literalText_number entry.isPlainNumber_number).1
  constructor
  · intro c hc
    rw [core, List.head?_append_of_ne_nil _ entry.name_isIdentifier.ne_nil] at hc
    exact entry.name_isIdentifier.isStripped.head c hc
  · intro c hc
    have hcore : entry.core =
        entry.name ++ (entry.behindName ++ '=' :: entry.behindEquals) ++ entry.number := by
      simp [core]
    rw [hcore, List.getLast?_append_of_ne_nil _ entry.number_ne_nil] at hc
    exact hstripped.last c hc

/-- **Such an entry** is read as its name and its number. -/
theorem destructuringEntry?_text :
    destructuringEntry? (strip entry.text) = some (entry.name, some entry.number) := by
  rw [text, strip_between entry.before_blank entry.isStripped_core entry.after_blank,
    destructuringEntry?_eq_default_iff]
  exact ⟨entry.name_isIdentifier, entry.number_ne_nil,
    (literalText_number entry.isPlainNumber_number).1.head, entry.behindName, entry.behindEquals,
    entry.behindName_blank, entry.behindEquals_blank, rfl⟩

end NumberEntry

/-- What is read as a name with a whole number is such an entry. -/
theorem exists_numberEntry (hcomma : ',' ∉ piece) {name default : List Char}
    (hentry : destructuringEntry? (strip piece) = some (name, some default)) {negative : Bool}
    {digits : List Char} (hleft : literalText default = minus negative ++ digits)
    (hdigits : isDigits digits = true) :
    ∃ entry : NumberEntry, piece = entry.text ∧ entry.digits = digits := by
  obtain ⟨before, after, hbefore, hafter, hpiece, hstripped⟩ := exists_strip piece
  obtain ⟨hname, hne, hdark, behind, inner, hbehind, hinner, hcore⟩ :=
    destructuringEntry?_eq_default_iff.mp hentry
  -- Between commas nothing is taken off a default, so it is the number itself.
  have hbare : IsBare default := by
    refine ⟨hne, ⟨hdark, fun c hc => hstripped.last c ?_⟩, fun hlast => hcomma ?_⟩
    · have hend : strip piece = name ++ (behind ++ '=' :: inner) ++ default := by simp [hcore]
      rw [hend, List.getLast?_append_of_ne_nil _ hne, hc]
    · have hmem := List.mem_of_getLast? hlast
      rw [hpiece, hcore]
      simp [hmem]
  rw [hbare.literalText_eq] at hleft
  refine ⟨⟨before, name, behind, inner, negative, digits, after, hbefore, hname, hbehind, hinner,
    hdigits, hafter⟩, ?_, rfl⟩
  rw [NumberEntry.text, NumberEntry.core, NumberEntry.number, ← hleft, ← hcore]
  exact hpiece

/-- The piece gives a prop a whole number with so many digits, too many to be read. -/
def GivesLong (piece : List Char) (count : Nat) : Prop :=
  ∃ entry : NumberEntry, piece = entry.text ∧ entry.digits.length = count ∧ digitLimit < count

/-- A field is refused if its default is. -/
theorem destructuringField_eq_error_iff {name : List Char} {default : Option (List Char)} :
    destructuringField name default = .error fault ↔
      ∃ text, default = some text ∧ literal text = .error fault := by
  cases default with
  | none =>
      constructor
      · intro h
        cases h
      · rintro ⟨text, h, -⟩
        cases h
  | some text =>
      rw [destructuringField, bind_eq_error_iff]
      constructor
      · rintro (h | ⟨read, -, h⟩)
        · exact ⟨text, rfl, h⟩
        · cases h
      · rintro ⟨other, hother, h⟩
        exact .inl (Option.some.inj hother ▸ h)

/-- **An entry cannot be read** exactly if it gives a prop such a number. -/
theorem entryField_eq_error_iff (hcomma : ',' ∉ piece) :
    (∃ entry, destructuringEntry? (strip piece) = some entry ∧
        destructuringField entry.1 entry.2 = .error fault) ↔
      ∃ count, GivesLong piece count ∧ fault = .tooManyDigits count := by
  constructor
  · rintro ⟨⟨name, default⟩, hentry, hfield⟩
    obtain ⟨text, rfl, hliteral⟩ := destructuringField_eq_error_iff.mp hfield
    obtain ⟨negative, digits, hleft, hdigits, hlong, rfl⟩ := literal_eq_error_iff.mp hliteral
    obtain ⟨entry, hpiece, rfl⟩ := exists_numberEntry hcomma hentry hleft hdigits
    exact ⟨_, ⟨entry, hpiece, rfl, hlong⟩, rfl⟩
  · rintro ⟨_, ⟨entry, rfl, rfl, hlong⟩, rfl⟩
    exact ⟨_, entry.destructuringEntry?_text, destructuringField_eq_error_iff.mpr
      ⟨_, rfl, literal_long entry.negative entry.digits_isDigits hlong⟩⟩

/-! ### Declarations -/

/-- The script takes the props apart, and `body` stands between the braces: behind the first
brace that takes anything apart, up to the first one behind which the props are assigned. -/
def TakesApart (script body : List Char) : Prop :=
  ∃ before rest, OpensFirst script before (body ++ '\x7d' :: rest) ∧ AssignsProps rest ∧
    ¬ Closes body

/-- The declaration that is found is the first one. -/
theorem afterFirst?_destructuringHeader_iff {opened : List Char} :
    afterFirst? destructuringHeader? script = some opened ↔
      ∃ before, OpensFirst script before opened := by
  constructor
  · intro h
    obtain ⟨before, other, rfl, hheader⟩ := exists_of_afterFirst? h
    have hopens := (destructuringHeader?_eq_some_iff.mp hheader).append before
    obtain ⟨first, rest, hfirst⟩ := exists_opensFirst hopens
    rw [afterFirst?_eq_some hfirst] at h
    exact ⟨first, Option.some.inj h ▸ hfirst⟩
  · rintro ⟨before, hfirst⟩
    exact afterFirst?_eq_some hfirst

/-- **The declaration of the props** is found where the script takes them apart. -/
theorem takesApart_iff :
    (afterFirst? destructuringHeader? script).bind untilProps? = some body ↔
      TakesApart script body := by
  rw [Option.bind_eq_some_iff]
  constructor
  · rintro ⟨opened, hopened, hbody⟩
    obtain ⟨rest, rfl, hassigns, hcloses⟩ := untilProps?_eq_some_iff.mp hbody
    obtain ⟨before, hfirst⟩ := afterFirst?_destructuringHeader_iff.mp hopened
    exact ⟨before, rest, hfirst, hassigns, hcloses⟩
  · rintro ⟨before, rest, hfirst, hassigns, hcloses⟩
    exact ⟨_, afterFirst?_eq_some hfirst,
      untilProps?_eq_some_iff.mpr ⟨rest, rfl, hassigns, hcloses⟩⟩

/-- Entries are read from the pieces between the commas. -/
theorem readEntries_eq (body : List Char) :
    readEntries body =
      (segments ',' body).filterMap fun piece => destructuringEntry? (strip piece) := by
  rw [readEntries, List.filterMap_map]
  rfl

/-- The entries between braces cannot be read exactly if one of them gives a prop a number with
too many digits; the first one does. -/
theorem fieldsBetween_eq_error_iff :
    fieldsBetween body = .error fault ↔
      ∃ before piece behind count, segments ',' body = before ++ piece :: behind ∧
        GivesLong piece count ∧ (∀ other ∈ before, ∀ n, ¬ GivesLong other n) ∧
        fault = .tooManyDigits count := by
  have hcommas : ∀ piece ∈ segments ',' body, ',' ∉ piece := fun _ => not_mem_of_mem_segments
  rw [fieldsBetween, readEntries_eq, mapM_eq_error_iff]
  constructor
  · rintro ⟨read, entry, unread, hentries, hentry, hread⟩
    obtain ⟨front, back, hpieces, rfl, hback⟩ := List.filterMap_eq_append_iff.mp hentries
    obtain ⟨skipped, piece, behind, rfl, hskipped, hpiece, -⟩ :=
      List.filterMap_eq_cons_iff.mp hback
    rw [hpieces] at hcommas
    obtain ⟨count, hlong, hfault⟩ := (entryField_eq_error_iff (hcommas piece (by simp))).mp
      ⟨entry, hpiece, hentry⟩
    refine ⟨front ++ skipped, piece, behind, count, by rw [hpieces, List.append_assoc], hlong,
      ?_, hfault⟩
    intro other hother n hgives
    have hmem : other ∈ front ++ (skipped ++ piece :: behind) := by
      rw [← List.append_assoc]
      exact List.mem_append_left _ hother
    obtain ⟨found, hfound, hfails⟩ := (entryField_eq_error_iff (hcommas other hmem)).mpr
      ⟨n, hgives, rfl⟩
    rcases List.mem_append.mp hother with hother | hother
    · obtain ⟨field, hfield⟩ := hread found (List.mem_filterMap.mpr ⟨other, hother, hfound⟩)
      rw [hfails] at hfield
      cases hfield
    · rw [hskipped other hother] at hfound
      cases hfound
  · rintro ⟨before, piece, behind, count, hpieces, hlong, hbefore, hfault⟩
    rw [hpieces] at hcommas
    obtain ⟨entry, hpiece, hentry⟩ := (entryField_eq_error_iff (hcommas piece (by simp))).mpr
      ⟨count, hlong, hfault⟩
    have hentries := List.filterMap_cons_some (l := behind)
      (f := fun piece => destructuringEntry? (strip piece)) hpiece
    refine ⟨_, entry, _, by rw [hpieces, List.filterMap_append, hentries], hentry, ?_⟩
    intro other hother
    obtain ⟨source, hsource, hfound⟩ := List.mem_filterMap.mp hother
    cases hfield : destructuringField other.1 other.2 with
    | ok field => exact ⟨field, rfl⟩
    | error cause =>
        obtain ⟨n, hgives, -⟩ := (entryField_eq_error_iff
          (hcommas source (List.mem_append_left _ hsource))).mp ⟨other, hfound, hfield⟩
        exact absurd hgives (hbefore source hsource n)

/-- A prop gets a number with so many digits where the script takes the props apart, and no entry
in front of it does. -/
def FirstLong (script : List Char) (count : Nat) : Prop :=
  ∃ body before piece behind, TakesApart script body ∧
    segments ',' body = before ++ piece :: behind ∧ GivesLong piece count ∧
    ∀ other ∈ before, ∀ n, ¬ GivesLong other n

/-- Where some piece gives a number with too many digits there is a first one. -/
theorem exists_firstLong_iff :
    (∃ count, FirstLong script count) ↔
      ∃ body piece count, TakesApart script body ∧ piece ∈ segments ',' body ∧
        GivesLong piece count := by
  constructor
  · rintro ⟨count, body, before, piece, behind, hapart, hpieces, hlong, -⟩
    exact ⟨body, piece, count, hapart, by simp [hpieces], hlong⟩
  · rintro ⟨body, piece, count, hapart, hpiece, hlong⟩
    obtain ⟨before, first, behind, hpieces, ⟨n, hfirst⟩, hbefore⟩ :=
      exists_first (p := fun piece => ∃ n, GivesLong piece n) ⟨piece, hpiece, count, hlong⟩
    exact ⟨n, body, before, first, behind, hapart, hpieces, hfirst, fun other hother m hother' =>
      hbefore other hother ⟨m, hother'⟩⟩

/-- **A declaration cannot be read** exactly if one of its entries cannot. -/
theorem destructuredFields_eq_error_iff :
    destructuredFields script = .error fault ↔
      ∃ count, FirstLong script count ∧ fault = .tooManyDigits count := by
  have hfields : destructuredFields script = .error fault ↔
      ∃ body, TakesApart script body ∧ fieldsBetween body = .error fault := by
    simp only [← takesApart_iff]
    rw [destructuredFields]
    cases hbody : (afterFirst? destructuringHeader? script).bind untilProps? with
    | none => simp
    | some body => simp [fieldsBetween, readEntries]
  rw [hfields]
  constructor
  · rintro ⟨body, hapart, hbetween⟩
    obtain ⟨before, piece, behind, count, hpieces, hlong, hbefore, hfault⟩ :=
      fieldsBetween_eq_error_iff.mp hbetween
    exact ⟨count, ⟨body, before, piece, behind, hapart, hpieces, hlong, hbefore⟩, hfault⟩
  · rintro ⟨count, ⟨body, before, piece, behind, hapart, hpieces, hlong, hbefore⟩, hfault⟩
    exact ⟨body, hapart, fieldsBetween_eq_error_iff.mpr
      ⟨before, piece, behind, count, hpieces, hlong, hbefore, hfault⟩⟩

/-! ### Sources -/

/-- The script of a component's source: its front matter, if it has one. -/
def scriptOf (text : List Char) : List Char :=
  (split text).frontmatter.getD []

/-- The script declares the interface of the props, with `body` up to the first closing brace. -/
def DeclaresProps (script body : List Char) : Prop :=
  ∃ before after, ∃ header : InterfaceHeader,
    script = before ++ (header.text ++ (body ++ '\x7d' :: after))

/-- A script without an interface of props declares none. -/
theorem interfaceFields_eq_nil (h : ∀ body, ¬ DeclaresProps script body) :
    interfaceFields script = [] := by
  rw [interfaceFields]
  cases hbody : (afterFirst? interfaceHeader? script).bind (cut? ['\x7d']) with
  | none => rfl
  | some parts =>
      obtain ⟨opened, hopened, hcut⟩ := Option.bind_eq_some_iff.mp hbody
      obtain ⟨before, other, rfl, hheader⟩ := exists_of_afterFirst? hopened
      obtain ⟨header, rfl⟩ := interfaceHeader?_eq_some_iff.mp hheader
      have hparts := append_of_cut? hcut
      rw [List.append_assoc, List.singleton_append] at hparts
      exact absurd ⟨before, parts.2, header, by rw [← hparts]⟩ (h parts.1)

/-- A script that takes nothing apart gives no prop. -/
theorem destructuredFields_eq_nil (h : ∀ body, ¬ TakesApart script body) :
    destructuredFields script = .ok [] := by
  rw [destructuredFields]
  cases hbody : (afterFirst? destructuringHeader? script).bind untilProps? with
  | none => rfl
  | some body => exact absurd (takesApart_iff.mp hbody) (h body)

/-- A source is refused for its first number with too many digits, and for nothing else. -/
theorem component_eq_error_iff {text : List Char} :
    component text = .error fault ↔
      ∃ count, FirstLong (scriptOf text) count ∧ fault = .tooManyDigits count := by
  rw [← destructuredFields_eq_error_iff, component, bind_eq_error_iff]
  constructor
  · rintro (h | ⟨fields, -, h⟩)
    · exact h
    · cases h
  · exact .inl

/-- So it is read exactly if there is none. -/
theorem exists_component_iff {text : List Char} :
    (∃ source, component text = .ok source) ↔ ¬ ∃ count, FirstLong (scriptOf text) count := by
  cases hsource : component text with
  | ok source =>
      refine iff_of_true ⟨source, rfl⟩ ?_
      rintro ⟨count, hfirst⟩
      have herror := component_eq_error_iff.mpr ⟨count, hfirst, rfl⟩
      rw [hsource] at herror
      cases herror
  | error fault =>
      obtain ⟨count, hfirst, -⟩ := component_eq_error_iff.mp hsource
      exact iff_of_false (by simp) (not_not_intro ⟨count, hfirst⟩)

/-- Without a declaration of props no props are listed. -/
theorem props_eq_nil {text : List Char} {source : ComponentSource} (h : component text = .ok source)
    (hdeclares : ∀ body, ¬ DeclaresProps (scriptOf text) body)
    (hapart : ∀ body, ¬ TakesApart (scriptOf text) body) : source.props = [] := by
  obtain ⟨fields, hfields, hsource⟩ := bind_eq_ok_iff.mp h
  obtain rfl := Except.ok.inj hsource
  have hinterface := interfaceFields_eq_nil hdeclares
  have hdestructured := destructuredFields_eq_nil hapart
  rw [scriptOf] at hinterface hdestructured
  rw [hdestructured] at hfields
  obtain rfl := Except.ok.inj hfields
  simp only [hinterface, List.append_nil]
  rfl

/-- Without an opening tag no tags are listed. -/
theorem tags_eq_nil {text : List Char} {source : ComponentSource} (h : component text = .ok source)
    (htags : ∀ before name, ¬ OpensTag (split text).body before name) : source.tags = [] := by
  obtain ⟨fields, -, hsource⟩ := bind_eq_ok_iff.mp h
  obtain rfl := Except.ok.inj hsource
  refine List.eq_nil_iff_forall_not_mem.mpr fun name hname => ?_
  obtain ⟨before, hopens⟩ := mem_openingTags_iff.mp (mem_distinct.mp hname)
  exact htags before name hopens

/-- A source with that script, and nothing in its body. -/
def fencedText (script : List Char) : List Char :=
  "---\n".toList ++ (script ++ "\n---\n".toList)

/-- The script is what stands between the fences. -/
theorem split_fencedText (hfeed : '\n' ∉ script) (hreturn : '\r' ∉ script) :
    split (fencedText script) = ⟨some script, []⟩ := by
  have htext : fencedText script =
      "---".toList ++ '\n' :: (script ++ '\n' :: ("---".toList ++ ['\n'])) := rfl
  have hlines : linesOf (fencedText script) =
      ["---\n".toList, script ++ ['\n'], "---\n".toList] := by
    rw [htext, linesOf_more _ (by decide), linesOf_more _ hfeed, linesOf_more _ (by decide)]
    rfl
  have hopening : isOpeningFence "---\n".toList = true := by decide
  have hclosing : isClosingFence "---\n".toList = true := by decide
  have hblock : closeBlock? [script ++ ['\n'], "---\n".toList] =
      some ([script ++ ['\n']], []) := by
    rw [closeBlock?, cutAtFence?, if_pos hclosing]
  have hlast : withoutLastBreak (script ++ ['\n']) = script := by
    have hnone : beforeEnd? ['\r', '\n'] (script ++ ['\n']) = none :=
      beforeEnd?_eq_none List.mem_cons_self (List.not_mem_append hreturn (by decide))
    rw [withoutLastBreak, hnone, beforeEnd?_eq_some_iff.mpr rfl]
    rfl
  rw [split_eq_lines, hlines]
  simp only [hopening, if_true, hblock, List.flatten_singleton, List.flatten_nil, hlast]

/-- The script that takes the props apart for a single one, with those digits as its default. -/
def numberScript (digits : List Char) : List Char :=
  propsText (" a = ".toList ++ digits ++ " ".toList)

/-- **Too many digits** are refused. -/
theorem component_numberScript {digits : List Char} (h : isDigits digits = true)
    (hlong : digitLimit < digits.length) :
    component (fencedText (numberScript digits)) = .error (.tooManyDigits digits.length) := by
  -- No digit ends the entry, the declaration or the line.
  have hinner : ∀ c, isDigit c = false → c ∉ " a = ".toList → c ∉ " ".toList →
      c ∉ " a = ".toList ++ digits ++ " ".toList := fun c hc hfront hback =>
    List.not_mem_append (List.not_mem_append hfront (not_mem_of_isDigits h hc)) hback
  have hcomma := hinner ',' (by decide) (by decide) (by decide)
  have hbrace := hinner '\x7d' (by decide) (by decide) (by decide)
  have hfeed : '\n' ∉ numberScript digits := List.not_mem_append (by decide)
    (List.not_mem_append (hinner '\n' (by decide) (by decide) (by decide)) (by decide))
  have hreturn : '\r' ∉ numberScript digits := List.not_mem_append (by decide)
    (List.not_mem_append (hinner '\r' (by decide) (by decide) (by decide)) (by decide))
  have hgives : GivesLong (" a = ".toList ++ digits ++ " ".toList) digits.length :=
    ⟨⟨[' '], ['a'], [' '], [' '], false, digits, [' '], isSpace_blank,
      ⟨'a', [], rfl, by decide, List.forall_mem_nil _⟩, isSpace_blank, isSpace_blank, h,
      isSpace_blank⟩, rfl, rfl, hlong⟩
  have hfields : destructuredFields (numberScript digits) =
      .error (.tooManyDigits digits.length) := by
    rw [numberScript, destructuredFields_propsText hbrace, fieldsBetween_eq_error_iff]
    exact ⟨[], _, [], _, segments_of_not_mem hcomma, hgives, List.forall_mem_nil _, rfl⟩
  have hscript : scriptOf (fencedText (numberScript digits)) = numberScript digits := by
    rw [scriptOf, split_fencedText hfeed hreturn]
    rfl
  rw [component_eq_error_iff, hscript]
  exact destructuredFields_eq_error_iff.mp hfields

/-- **A component's source is read** unless it gives a prop a whole number with too many digits;
then the first such number is reported, and there is a source for any such number.  What is read
lists no props if no declaration of props is recognised, and no tags if the markup opens none. -/
theorem component_ends (text digits : List Char) :
    (∀ fault, component text = .error fault ↔
        ∃ count, FirstLong (scriptOf text) count ∧ fault = .tooManyDigits count) ∧
      ((∃ source, component text = .ok source) ↔
        ∀ body piece count, TakesApart (scriptOf text) body → piece ∈ segments ',' body →
          ¬ GivesLong piece count) ∧
      (∀ source, component text = .ok source →
        ((∀ body, ¬ DeclaresProps (scriptOf text) body) →
          (∀ body, ¬ TakesApart (scriptOf text) body) → source.props = []) ∧
        ((∀ before name, ¬ OpensTag (split text).body before name) → source.tags = [])) ∧
      (isDigits digits = true → digitLimit < digits.length →
        component (fencedText (numberScript digits)) = .error (.tooManyDigits digits.length)) := by
  refine ⟨fun _ => component_eq_error_iff, ?_, fun _ h => ⟨props_eq_nil h, tags_eq_nil h⟩,
    component_numberScript⟩
  rw [exists_component_iff, exists_firstLong_iff]
  push Not
  exact Iff.rfl

/-- A text with nothing to recognise in it, and a default with one digit too many. -/
theorem component_ends_sample :
    (∃ source, component "??? <p>\n".toList = .ok source ∧ source.props = [] ∧
        source.tags = []) ∧
      isDigits (List.replicate 4301 '1') = true ∧
      component (fencedText (numberScript (List.replicate 4301 '1'))) =
        .error (.tooManyDigits 4301) := by
  obtain ⟨-, hread, hlisted, hlong⟩ :=
    component_ends "??? <p>\n".toList (List.replicate 4301 '1')
  have hscript : scriptOf "??? <p>\n".toList = [] := by decide
  have hdeclares : ∀ body, ¬ DeclaresProps (scriptOf "??? <p>\n".toList) body := by
    rintro body ⟨before, after, header, hheader⟩
    rw [hscript] at hheader
    simp at hheader
  have hapart : ∀ body, ¬ TakesApart (scriptOf "??? <p>\n".toList) body := by
    rintro body ⟨before, rest, ⟨⟨blanks, -, hopens⟩, -⟩, -⟩
    rw [hscript] at hopens
    simp at hopens
  have htags : ∀ before name, ¬ OpensTag (split "??? <p>\n".toList).body before name := by
    intro before name hopens
    have hmem := mem_openingTags_iff.mpr ⟨before, hopens⟩
    have hnone : openingTags (split "??? <p>\n".toList).body = [] := by decide
    rw [hnone] at hmem
    cases hmem
  obtain ⟨source, hsource⟩ := hread.mpr fun body _ _ hbody => absurd hbody (hapart body)
  obtain ⟨hprops, hnotags⟩ := hlisted source hsource
  have hdigits : isDigits (List.replicate 4301 '1') = true :=
    isDigits_iff.mpr ⟨List.cons_ne_nil _ _, fun c hc => by
      rw [List.eq_of_mem_replicate hc]
      decide⟩
  have hlength : (List.replicate 4301 '1').length = 4301 := List.length_replicate
  have hrefused := hlong hdigits (by rw [hlength]; decide)
  rw [hlength] at hrefused
  exact ⟨⟨source, hsource, hprops hdeclares hapart, hnotags htags⟩, hdigits, hrefused⟩

end ContentCatalog.Source
