import ContentCatalog.Proofs.DeclaredNames
import Mathlib.Data.List.Chain

/-!
# Members of an interface

A declared interface is written down member by member, and read back.  The reader cuts
lines and semicolons before it looks at colons, so a member comes back as it was meant
whatever else its type says.

* `interfaceHeader?_eq_some_iff` : what counts as the header of the interface;
* `interfaceMembers_append` : one written member is one member that is read, and the rest
  is read on its own;
* `interfaceField?_text` : the field of a member;
* `interfaceFields_declaration` : the fields of a script that declares the interface.
-/

namespace ContentCatalog.Source

open Text

/-! ### The header -/

/-- The header of the props interface, with the white space between its words. -/
structure InterfaceHeader where
  behindExport : List Char
  behindInterface : List Char
  behindProps : List Char
  export_blank : ∀ c ∈ behindExport, isSpace c = true
  export_ne_nil : behindExport ≠ []
  interface_blank : ∀ c ∈ behindInterface, isSpace c = true
  interface_ne_nil : behindInterface ≠ []
  props_blank : ∀ c ∈ behindProps, isSpace c = true

/-- The header as it stands in a script. -/
def InterfaceHeader.text (header : InterfaceHeader) : List Char :=
  "export".toList ++ (header.behindExport ++ ("interface".toList ++ (header.behindInterface ++
    ("Props".toList ++ (header.behindProps ++ ['\x7b'])))))

/-- The header is its three words, each with what stands behind it, and the brace. -/
theorem InterfaceHeader.text_eq (header : InterfaceHeader) :
    header.text = "export".toList ++ (header.behindExport ++ ("interface".toList ++
      (header.behindInterface ++ ("Props".toList ++ (header.behindProps ++ ['\x7b']))))) := by
  -- The words stay as they are; an equation of the definition would evaluate them.
  delta InterfaceHeader.text
  exact rfl

/-- The header with single blanks. -/
def InterfaceHeader.usual : InterfaceHeader where
  behindExport := [' ']
  behindInterface := [' ']
  behindProps := [' ']
  export_blank := isSpace_blank
  export_ne_nil := by decide
  interface_blank := isSpace_blank
  interface_ne_nil := by decide
  props_blank := isSpace_blank

example : InterfaceHeader.usual.text = "export interface Props \x7b".toList := rfl

/-- Behind some blanks a dark text goes on. -/
theorem afterSpace?_blanks {blanks text : List Char} (hblanks : ∀ c ∈ blanks, isSpace c = true)
    (hne : blanks ≠ []) (h : BeginsDark text) : afterSpace? (blanks ++ text) = some text := by
  obtain ⟨c, blanks, rfl⟩ := List.exists_cons_of_ne_nil hne
  obtain ⟨hc, hblanks⟩ := List.forall_mem_cons.mp hblanks
  rw [List.cons_append, afterSpace?, if_pos hc, trimLeft_blanks hblanks h]

/-- Where a text goes on behind blanks there is at least one. -/
theorem exists_of_afterSpace? {text rest : List Char} (h : afterSpace? text = some rest) :
    ∃ blanks, (∀ c ∈ blanks, isSpace c = true) ∧ blanks ≠ [] ∧ text = blanks ++ rest := by
  cases text with
  | nil => cases h
  | cons c text =>
      rw [afterSpace?] at h
      split at h
      · next hc =>
          obtain ⟨blanks, hblanks, htext⟩ := exists_blanks text
          cases h
          refine ⟨c :: blanks, List.forall_mem_cons.mpr ⟨hc, hblanks⟩, List.cons_ne_nil _ _, ?_⟩
          rw [List.cons_append, ← htext]
      · cases h

/-- **A header** stands at the front of a text exactly if the text is one with something
behind it. -/
theorem interfaceHeader?_eq_some_iff {text rest : List Char} :
    interfaceHeader? text = some rest ↔ ∃ header : InterfaceHeader, text = header.text ++ rest := by
  constructor
  · intro h
    simp only [interfaceHeader?, Option.bind_eq_bind, Option.bind_eq_some_iff] at h
    obtain ⟨t₁, h₁, t₂, h₂, t₃, h₃, t₄, h₄, t₅, h₅, h₆⟩ := h
    obtain ⟨blanks₁, hblanks₁, hne₁, rfl⟩ := exists_of_afterSpace? h₂
    obtain ⟨blanks₂, hblanks₂, hne₂, rfl⟩ := exists_of_afterSpace? h₄
    obtain ⟨blanks₃, hblanks₃, htext⟩ := exists_blanks t₅
    rw [afterStart?_eq_some_iff] at h₁ h₃ h₅ h₆
    refine ⟨⟨blanks₁, blanks₂, blanks₃, hblanks₁, hne₁, hblanks₂, hne₂, hblanks₃⟩, ?_⟩
    rw [h₁, h₃, h₅, htext, h₆]
    simp only [InterfaceHeader.text_eq, List.append_assoc]
  · rintro ⟨header, rfl⟩
    have hinterface : ∀ rest, BeginsDark ("interface".toList ++ rest) := fun rest =>
      beginsDark_append rest (by decide) (by simp [BeginsDark]; decide)
    have hprops : ∀ rest, BeginsDark ("Props".toList ++ rest) := fun rest =>
      beginsDark_append rest (by decide) (by simp [BeginsDark]; decide)
    have hbrace : ∀ rest, BeginsDark (['\x7b'] ++ rest) := fun rest =>
      beginsDark_append rest (by decide) (by simp [BeginsDark]; decide)
    simp only [InterfaceHeader.text_eq, List.append_assoc, interfaceHeader?, Option.bind_eq_bind,
      Option.bind_some, afterStart?_append,
      afterSpace?_blanks header.export_blank header.export_ne_nil (hinterface _),
      afterSpace?_blanks header.interface_blank header.interface_ne_nil (hprops _),
      trimLeft_blanks header.props_blank (hbrace _)]

/-- No small e stands directly behind white space. -/
def NoExportBehind (text : List Char) : Prop :=
  text.IsChain fun c d => isSpace c = true → d ≠ 'e'

/-- Blanks in front of a text bring no declaration with them. -/
theorem noExportBehind_blanks {blanks text : List Char}
    (hblanks : ∀ c ∈ blanks, isSpace c = true) (hhead : ∀ c, text.head? = some c → c ≠ 'e')
    (h : NoExportBehind text) : NoExportBehind (blanks ++ text) := by
  induction blanks with
  | nil => exact h
  | cons c blanks ih =>
      obtain ⟨-, hblanks⟩ := List.forall_mem_cons.mp hblanks
      refine (ih hblanks).cons fun d hd _ => ?_
      cases blanks with
      | nil => exact hhead d hd
      | cons b blanks =>
          obtain rfl : b = d := Option.some.inj hd
          exact ne_of_class (hblanks b List.mem_cons_self) (by decide)

/-- Nor does a word without blanks. -/
theorem noExportBehind_word {word text : List Char} (hword : ∀ c ∈ word, isSpace c = false)
    (h : NoExportBehind text) : NoExportBehind (word ++ text) := by
  induction word with
  | nil => exact h
  | cons c word ih =>
      obtain ⟨hc, hword⟩ := List.forall_mem_cons.mp hword
      refine (ih hword).cons fun d _ hspace => ?_
      rw [hc] at hspace
      cases hspace

/-- Inside a header, no word behind white space begins as the header itself does. -/
theorem InterfaceHeader.noExportBehind (header : InterfaceHeader) : NoExportBehind header.text := by
  have hbrace := noExportBehind_blanks header.props_blank (by simp)
    (List.isChain_singleton '\x7b')
  have hprops : NoExportBehind ("Props".toList ++ (header.behindProps ++ ['\x7b'])) :=
    noExportBehind_word (List.all_iff_forall_prop.mp (by decide)) hbrace
  have hinterface : NoExportBehind ("interface".toList ++ (header.behindInterface ++
      ("Props".toList ++ (header.behindProps ++ ['\x7b'])))) :=
    noExportBehind_word (List.all_iff_forall_prop.mp (by decide))
      (noExportBehind_blanks header.interface_blank (by simp) hprops)
  exact noExportBehind_word (List.all_iff_forall_prop.mp (by decide))
    (noExportBehind_blanks header.export_blank (by simp) hinterface)

/-- **The first header** is the one behind a text that ends in white space and holds none. -/
theorem afterFirst?_header {before : List Char} (header : InterfaceHeader) (rest : List Char)
    (hend : ∀ c, before.getLast? = some c → isSpace c = true)
    (hnone : ∀ other : InterfaceHeader, ¬ other.text <:+: before) :
    afterFirst? interfaceHeader? (before ++ (header.text ++ rest)) = some rest := by
  rw [afterFirst?_append]
  · exact afterFirst?_of_header (interfaceHeader?_eq_some_iff.mpr ⟨header, rfl⟩)
  · intro skipped tail heq hne
    rw [Option.eq_none_iff_forall_ne_some]
    intro after hafter
    obtain ⟨other, hother⟩ := interfaceHeader?_eq_some_iff.mp hafter
    have hinside : ¬ other.text <+: tail := by
      rintro ⟨behind, hbehind⟩
      exact hnone other ⟨skipped, behind, by rw [heq, List.append_assoc, hbehind]⟩
    obtain ⟨across, hacross, hfront⟩ | ⟨behind, hbehind, -⟩ :=
      List.append_eq_append_iff.mp hother
    · -- the other header would go on in the text, whose first character follows white space
      cases across with
      | nil => exact hinside ⟨[], by rw [hacross, List.append_nil, List.append_nil]⟩
      | cons e across =>
          obtain rfl : 'e' = e := (List.cons.inj hfront).1
          have hchain := other.noExportBehind
          rw [hacross] at hchain
          obtain ⟨-, -, hbetween⟩ := List.isChain_append.mp hchain
          have hspace := hend (tail.getLast hne) (by
            rw [heq, List.getLast?_append_of_ne_nil _ hne, List.getLast?_eq_some_getLast hne])
          exact hbetween _ (List.getLast?_eq_some_getLast hne) 'e' rfl hspace rfl
    · exact hinside ⟨behind, hbehind.symm⟩

/-! ### Cutting the body -/

/-- The pieces of a body between the ends of its lines and its semicolons. -/
def memberPieces (body : List Char) : List (List Char) :=
  (lineList body).flatMap (segments ';')

/-- The pieces that declare something: those that are neither blank nor a comment. -/
def declaring (pieces : List (List Char)) : List (List Char) :=
  (pieces.map strip).filter fun member => !member.isEmpty && !isComment member

theorem interfaceMembers_eq (body : List Char) :
    interfaceMembers body = declaring (memberPieces body) := rfl

@[simp] theorem declaring_nil_cons (pieces : List (List Char)) :
    declaring ([] :: pieces) = declaring pieces := rfl

/-- A blank in front of a piece makes no difference. -/
theorem declaring_consLine {c : Char} (h : isSpace c = true) (pieces : List (List Char)) :
    declaring (consLine c pieces) = declaring pieces := by
  cases pieces with
  | nil =>
      have hstrip : strip [c] = [] := strip_cons_space [] h
      simp [consLine, declaring, hstrip]
  | cons piece pieces => simp [consLine, declaring, strip_cons_space piece h]

/-- A character that ends no line is in front of the first line. -/
theorem lineList_cons {c : Char} (text : List Char) (h : endsLine c = false) :
    lineList (c :: text) = consLine c (lineList text) := by
  have hreturn : c ≠ '\r' := by
    rintro rfl
    cases h
  rw [lineList, if_neg (by simp [h])]
  intro _ heq
  exact absurd heq hreturn

/-- A character that parts no members belongs to the first piece. -/
theorem memberPieces_cons {c : Char} (text : List Char) (hc : c ≠ ';')
    (hline : endsLine c = false) :
    memberPieces (c :: text) = consLine c (memberPieces text) := by
  rw [memberPieces, memberPieces, lineList_cons text hline]
  cases lineList text with
  | nil => simp [consLine, segments, hc]
  | cons line lines =>
      obtain ⟨piece, pieces, hpieces⟩ := List.exists_cons_of_ne_nil (segments_ne_nil ';' line)
      simp [consLine, segments, hc, hpieces]

/-- So do all such characters in front of a piece that is empty. -/
theorem memberPieces_append {piece text : List Char} {pieces : List (List Char)}
    (hpiece : ∀ c ∈ piece, c ≠ ';' ∧ endsLine c = false)
    (h : memberPieces text = [] :: pieces) :
    memberPieces (piece ++ text) = piece :: pieces := by
  induction piece with
  | nil => exact h
  | cons c piece ih =>
      obtain ⟨⟨hc, hline⟩, hpiece⟩ := List.forall_mem_cons.mp hpiece
      rw [List.cons_append, memberPieces_cons _ hc hline, ih hpiece, consLine]

/-- The character ends a member. -/
def EndsMember (c : Char) : Prop :=
  c = ';' ∨ endsLine c = true

/-- A character that ends a line leaves an empty one, a carriage return with its line feed. -/
theorem lineList_end {c : Char} (text : List Char) (h : endsLine c = true) :
    lineList (c :: text) = [] :: lineList text ∨
      ∃ rest, text = '\n' :: rest ∧ lineList (c :: text) = [] :: lineList rest := by
  by_cases hbreak : ∃ rest, c = '\r' ∧ text = '\n' :: rest
  · obtain ⟨rest, rfl, rfl⟩ := hbreak
    exact .inr ⟨rest, rfl, by rw [lineList]⟩
  · left
    rw [lineList, if_pos h]
    intro rest hc htext
    exact hbreak ⟨rest, hc, htext⟩

/-- Behind the end of a member the pieces are those of the rest, blank ones apart. -/
theorem memberPieces_end {c : Char} (text : List Char) (h : EndsMember c) :
    ∃ pieces, memberPieces (c :: text) = [] :: pieces ∧
      declaring pieces = interfaceMembers text := by
  rcases h with rfl | hline
  · rw [memberPieces, lineList_cons text (by decide), interfaceMembers_eq, memberPieces]
    cases lineList text with
    | nil => exact ⟨[[]], rfl, rfl⟩
    | cons line lines => exact ⟨_, by simp [consLine, segments]; rfl, by simp⟩
  · rcases lineList_end text hline with h | ⟨rest, rfl, h⟩
    · exact ⟨memberPieces text, by rw [memberPieces, h]; rfl, rfl⟩
    · refine ⟨memberPieces rest, by rw [memberPieces, h]; rfl, ?_⟩
      have hfeed : memberPieces ('\n' :: rest) = [] :: memberPieces rest := by
        rw [memberPieces, lineList, if_pos (by decide)]
        · rfl
        · simp
      rw [interfaceMembers_eq, hfeed, declaring_nil_cons]

/-- White space in front of a body makes no difference. -/
theorem interfaceMembers_blanks {blanks : List Char} (text : List Char)
    (h : ∀ c ∈ blanks, isSpace c = true) :
    interfaceMembers (blanks ++ text) = interfaceMembers text := by
  induction blanks with
  | nil => rfl
  | cons c blanks ih =>
      obtain ⟨hc, hblanks⟩ := List.forall_mem_cons.mp h
      rw [← ih hblanks, List.cons_append]
      by_cases hline : endsLine c = true
      · obtain ⟨pieces, hpieces, hrest⟩ := memberPieces_end (blanks ++ text) (.inr hline)
        rw [interfaceMembers_eq, hpieces, declaring_nil_cons, hrest]
      · have hsemicolon : c ≠ ';' := ne_of_class hc (by decide)
        rw [interfaceMembers_eq, memberPieces_cons _ hsemicolon (Bool.eq_false_iff.mpr hline),
          declaring_consLine hc, interfaceMembers_eq]

/-- **A piece up to the end of a member** is read on its own. -/
theorem interfaceMembers_append {piece : List Char} {c : Char} (text : List Char)
    (hpiece : ∀ d ∈ piece, d ≠ ';' ∧ endsLine d = false) (hc : EndsMember c) :
    interfaceMembers (piece ++ c :: text) = declaring [piece] ++ interfaceMembers text := by
  obtain ⟨pieces, hpieces, hrest⟩ := memberPieces_end text hc
  rw [interfaceMembers_eq, memberPieces_append hpiece hpieces, ← hrest]
  simp only [declaring, List.map_cons, List.map_nil, ← List.filter_append, List.singleton_append]

/-! ### Members -/

/-- A member as it is meant.  Its type is any text that fits between a colon and the end
of a member. -/
structure Member where
  name : List Char
  optional : Bool
  typeText : List Char
  name_isIdentifier : IsIdentifier name
  type_ne_nil : typeText ≠ []
  type_isStripped : IsStripped typeText
  type_last : typeText.getLast? ≠ some ','
  type_plain : ∀ c ∈ typeText, c ≠ '\x7d' ∧ c ≠ ';' ∧ endsLine c = false

namespace Member

/-- What stands between the name and the type. -/
def mark (member : Member) : List Char :=
  if member.optional then ['?', ':', ' '] else [':', ' ']

/-- The member as it stands in an interface. -/
def text (member : Member) : List Char :=
  member.name ++ (member.mark ++ member.typeText)

/-- The type that the member shows: that of its text without white space, if it is one of
three words. -/
def typeName (member : Member) : String :=
  let compact := member.typeText.filter fun c => !isSpace c
  if compact ∈ ["string".toList, "number".toList, "boolean".toList] then String.ofList compact
  else "unknown"

/-- The field that the member stands for. -/
def field (member : Member) : Field where
  key := String.ofList member.name
  type := member.typeName
  required := !member.optional
  rawType := some (String.ofList member.typeText)
  source := some "astro"

variable (member : Member)

/-- The mark of a member is made of three characters. -/
theorem mem_mark {c : Char} (h : c ∈ member.mark) : c = '?' ∨ c = ':' ∨ c = ' ' := by
  rw [mark] at h
  split at h <;> simp_all

/-- The characters of a written member end no member and no interface. -/
theorem text_plain : ∀ c ∈ member.text, c ≠ '\x7d' ∧ c ≠ ';' ∧ endsLine c = false := by
  refine List.forall_mem_append.mpr ⟨fun c hc => ?_,
    List.forall_mem_append.mpr ⟨fun c hc => ?_, member.type_plain⟩⟩
  · have hword := member.name_isIdentifier.isWord c hc
    refine ⟨ne_of_class hword (by decide), ne_of_class hword (by decide), ?_⟩
    rw [← Bool.not_eq_true]
    intro hline
    have hspace := isSpace_of_isWord hword
    rw [isSpace_of_endsLine hline] at hspace
    cases hspace
  · obtain rfl | rfl | rfl := member.mem_mark hc <;> decide

/-- The text of a member has no blank at its ends. -/
theorem text_isStripped : IsStripped member.text where
  head := by
    obtain ⟨first, rest, hname, hfirst, -⟩ := member.name_isIdentifier
    intro c hc
    rw [text, hname] at hc
    obtain rfl : first = c := Option.some.inj hc
    exact isSpace_of_isWord (isWord_of_isAsciiLetter hfirst)
  last := by
    intro c hc
    rw [text, List.getLast?_append_of_ne_nil _ (by simp [member.type_ne_nil]),
      List.getLast?_append_of_ne_nil _ member.type_ne_nil] at hc
    exact member.type_isStripped.last c hc

/-- A written member is neither blank nor a comment. -/
theorem declaring_text : declaring [member.text] = [member.text] := by
  obtain ⟨first, rest, hname, hfirst, -⟩ := member.name_isIdentifier
  have hword := isWord_of_isAsciiLetter hfirst
  have hslash : first ≠ '/' := ne_of_class hword (by decide)
  have hstar : first ≠ '*' := ne_of_class hword (by decide)
  have hcomment : isComment member.text = false := by
    simp [isComment, text, hname, startsWith, afterStart?, hslash.symm, hstar.symm]
  have hne : member.text ≠ [] := by simp [text, hname]
  simp [declaring, strip_eq_self member.text_isStripped, hcomment, hne]

/-- The annotation of a member is read as it is written. -/
theorem typeTextOf_eq : typeTextOf member.typeText = member.typeText := by
  have hcomma : beforeEnd? [','] member.typeText = none := by
    rw [Option.eq_none_iff_forall_ne_some]
    intro before hbefore
    apply member.type_last
    rw [beforeEnd?_eq_some_iff.mp hbefore, List.getLast?_concat]
  rw [typeTextOf, hcomma]

/-- And it names the type of the member. -/
theorem name_typeNamed : (typeNamed member.typeText).name = member.typeName := by
  rw [typeNamed, typeName]
  generalize member.typeText.filter (fun c => !isSpace c) = compact
  by_cases hstring : compact = "string".toList
  · rw [hstring]
    rfl
  · by_cases hnumber : compact = "number".toList
    · rw [hnumber]
      rfl
    · by_cases hboolean : compact = "boolean".toList
      · rw [hboolean]
        rfl
      · simp only [hstring, hnumber, hboolean, if_false, List.mem_cons, List.not_mem_nil, or_self]
        rfl

/-- **A member is read as it was meant.** -/
theorem interfaceField?_text : interfaceField? member.text = some member.field := by
  have hmark : identifier? member.text = some (member.name, member.mark ++ member.typeText) := by
    apply identifier?_of_isIdentifier member.name_isIdentifier
    intro c hc
    rw [mark] at hc
    split at hc <;> · cases hc; decide
  have htype : trimLeft isSpace (' ' :: member.typeText) = member.typeText :=
    trimLeft_blank member.type_isStripped.head
  have hcolon : ∀ rest, trimLeft isSpace (':' :: rest) = ':' :: rest := fun rest =>
    trimLeft_eq_self (by simp; decide)
  have hquestion : ∀ rest, trimLeft isSpace ('?' :: rest) = '?' :: rest := fun rest =>
    trimLeft_eq_self (by simp; decide)
  rw [interfaceField?, hmark, mark]
  cases hoptional : member.optional <;>
    simp [hcolon, hquestion, startsWith, afterStart?, htype, member.typeTextOf_eq,
      member.type_ne_nil, member.name_typeNamed, field, hoptional, FieldSource.name]

end Member

/-! ### The declaration -/

/-- A member with the white space in front of it and the character that ends it.  A carriage
return ends a member too; the line feed behind it is white space in front of what follows. -/
structure MemberLine where
  indent : List Char
  member : Member
  finish : Char
  indent_blank : ∀ c ∈ indent, isSpace c = true
  finish_ends : EndsMember finish

/-- The line as it stands in an interface. -/
def MemberLine.text (line : MemberLine) : List Char :=
  line.indent ++ (line.member.text ++ [line.finish])

/-- The interface as it stands in a script. -/
def interfaceText (header : InterfaceHeader) (lines : List MemberLine) (margin : List Char) :
    List Char :=
  header.text ++ (lines.flatMap MemberLine.text ++ margin ++ ['\x7d'])

/-- **Written members** are the members that are read. -/
theorem interfaceMembers_lines (lines : List MemberLine) {margin : List Char}
    (hmargin : ∀ c ∈ margin, isSpace c = true) :
    interfaceMembers (lines.flatMap MemberLine.text ++ margin) =
      lines.map fun line => line.member.text := by
  induction lines with
  | nil =>
      rw [List.flatMap_nil, List.nil_append, ← List.append_nil margin,
        interfaceMembers_blanks [] hmargin]
      rfl
  | cons line lines ih =>
      have hplain : ∀ d ∈ line.member.text, d ≠ ';' ∧ endsLine d = false := fun d hd =>
        (line.member.text_plain d hd).2
      have hmember := interfaceMembers_append (lines.flatMap MemberLine.text ++ margin) hplain
        line.finish_ends
      have htext : (line :: lines).flatMap MemberLine.text ++ margin = line.indent ++
          (line.member.text ++ line.finish :: (lines.flatMap MemberLine.text ++ margin)) := by
        simp [MemberLine.text]
      rw [htext, interfaceMembers_blanks _ line.indent_blank, hmember, ih,
        line.member.declaring_text, List.map_cons, List.singleton_append]

/-- No closing brace stands in a line. -/
theorem MemberLine.brace_not_mem (line : MemberLine) : '\x7d' ∉ line.text := by
  intro h
  obtain h | h | h : '\x7d' ∈ line.indent ∨ '\x7d' ∈ line.member.text ∨ '\x7d' = line.finish := by
    simpa [MemberLine.text] using h
  · exact absurd (line.indent_blank _ h) (by decide)
  · exact (line.member.text_plain _ h).1 rfl
  · have hends := line.finish_ends
    rw [← h] at hends
    revert hends
    simp [EndsMember]
    decide

/-- **An interface that is written down** is read back: every member gives the field it
stands for, in order, whatever stands in front of the header and behind the braces. -/
theorem interfaceFields_declaration {before : List Char} (header : InterfaceHeader)
    (lines : List MemberLine) {margin : List Char} (after : List Char)
    (hend : ∀ c, before.getLast? = some c → isSpace c = true)
    (hnone : ∀ other : InterfaceHeader, ¬ other.text <:+: before)
    (hmargin : ∀ c ∈ margin, isSpace c = true) :
    interfaceFields (before ++ interfaceText header lines margin ++ after) =
      lines.map fun line => line.member.field := by
  have hbody : '\x7d' ∉ lines.flatMap MemberLine.text ++ margin := by
    rw [List.mem_append, List.mem_flatMap]
    rintro (⟨line, -, h⟩ | h)
    · exact line.brace_not_mem h
    · exact absurd (hmargin _ h) (by decide)
  have htext : before ++ interfaceText header lines margin ++ after =
      before ++ (header.text ++ (lines.flatMap MemberLine.text ++ margin ++ '\x7d' :: after)) := by
    simp [interfaceText]
  rw [interfaceFields, htext, afterFirst?_header header _ hend hnone, Option.bind_some,
    cut?_of_not_mem after hbody]
  show (interfaceMembers (lines.flatMap MemberLine.text ++ margin)).filterMap interfaceField? = _
  rw [interfaceMembers_lines lines hmargin, List.filterMap_map]
  simp only [Function.comp_def, Member.interfaceField?_text]
  rw [← List.filterMap_eq_map]
  rfl

/-- A prop with a name and a type that many components have. -/
def titleLine : MemberLine where
  indent := "\r\n  ".toList
  finish := ';'
  indent_blank := List.all_iff_forall_prop.mp (by decide)
  finish_ends := .inl rfl
  member := {
    name := "title".toList
    optional := false
    typeText := "string".toList
    name_isIdentifier := ⟨'t', "itle".toList, rfl, by decide,
      List.all_iff_forall_prop.mp (by decide +kernel)⟩
    type_ne_nil := by decide
    type_isStripped := ⟨by simp; decide, by simp; decide⟩
    type_last := by decide
    type_plain := List.all_iff_forall_prop.mp (by decide) }

/-- An optional prop whose type holds a colon and commas. -/
def rowsLine : MemberLine where
  indent := "\n  ".toList
  finish := '\n'
  indent_blank := List.all_iff_forall_prop.mp (by decide)
  finish_ends := .inr rfl
  member := {
    name := "rows_2".toList
    optional := true
    typeText := "[id: number, string?]".toList
    name_isIdentifier := ⟨'r', "ows_2".toList, rfl, by decide,
      List.all_iff_forall_prop.mp (by decide +kernel)⟩
    type_ne_nil := by decide
    type_isStripped := ⟨by simp; decide, by simp; decide⟩
    type_last := by decide
    type_plain := List.all_iff_forall_prop.mp (by decide) }

/-- Two members are read back from between a comment and a second interface. -/
theorem interfaceFields_declaration_sample :
    interfaceFields ("// props\n".toList ++
        interfaceText InterfaceHeader.usual [titleLine, rowsLine] [] ++
        "\nexport interface Props \x7b id: string; \x7d".toList) =
      [{ key := "title", type := "string", required := true, rawType := some "string",
         source := some "astro" },
       { key := "rows_2", type := "unknown", required := false,
         rawType := some "[id: number, string?]", source := some "astro" }] := by
  refine (interfaceFields_declaration .usual [titleLine, rowsLine] _ ?_ ?_ ?_).trans ?_
  · intro c hlast
    obtain rfl : '\n' = c := Option.some.inj hlast
    decide
  · intro other hinside
    have hlength := hinside.length_le
    have hexport := List.length_pos_iff.mpr other.export_ne_nil
    simp [InterfaceHeader.text_eq] at hlength
    omega
  · exact List.forall_mem_nil _
  · rfl

end ContentCatalog.Source
