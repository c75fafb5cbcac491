import ContentCatalog.Yaml.Mark
import ContentCatalog.Text.Utf8
import ContentCatalog.Number.Reading
import ContentCatalog.Calendar.Moment

/-!
# What can be wrong with a document

A fault names what was being read, what was met instead of the expected, and
both places.  Faults are kept as causes; their words are in `Problem.text` and
`Activity.text`.  A document without faults can still hold scalars that are no
values of the kind they are tagged with, which is the other half of `Failure`.
-/

namespace ContentCatalog.Yaml

open Text (quotedSingle quotedText)

/-- The kinds of nodes. -/
inductive NodeKind where
  | scalar
  | sequence
  | mapping
  deriving DecidableEq, Repr

/-- The name of a kind of node. -/
def NodeKind.name : NodeKind → String
  | .scalar => "scalar"
  | .sequence => "sequence"
  | .mapping => "mapping"

/-- What was being read when a fault was met. -/
inductive Activity where
  | nextToken
  | simpleKey
  | directive
  | directiveUri
  | anchor
  | alias
  | tag
  | tagUri
  | blockScalar
  | quotedScalar
  | doubleQuotedScalar
  | node
  | blockNode
  | flowNode
  | blockSequence
  | blockMapping
  | flowSequence
  | flowMapping
  | firstAnchor (name : String)
  | singleDocument
  | mapping
  | orderedMap
  | pairs
  deriving DecidableEq, Repr

/-- The words for an activity. -/
def Activity.text : Activity → String
  | .nextToken => "while scanning for the next token"
  | .simpleKey => "while scanning a simple key"
  | .directive => "while scanning a directive"
  | .directiveUri => "while parsing a directive"
  | .anchor => "while scanning an anchor"
  | .alias => "while scanning an alias"
  | .tag => "while scanning a tag"
  | .tagUri => "while parsing a tag"
  | .blockScalar => "while scanning a block scalar"
  | .quotedScalar => "while scanning a quoted scalar"
  | .doubleQuotedScalar => "while scanning a double-quoted scalar"
  | .node => "while parsing a node"
  | .blockNode => "while parsing a block node"
  | .flowNode => "while parsing a flow node"
  | .blockSequence => "while parsing a block collection"
  | .blockMapping => "while parsing a block mapping"
  | .flowSequence => "while parsing a flow sequence"
  | .flowMapping => "while parsing a flow mapping"
  | .firstAnchor name => "found duplicate anchor " ++ quotedText name ++ "; first occurrence"
  | .singleDocument => "expected a single document in the stream"
  | .mapping => "while constructing a mapping"
  | .orderedMap => "while constructing an ordered map"
  | .pairs => "while constructing pairs"

/-- What was wrong. -/
inductive Problem where
  | missingColon
  | strayCharacter (c : Char)
  | entryNotAllowed
  | keyNotAllowed
  | valueNotAllowed
  | noName (found : Char)
  | noDigit (found : Char)
  | noDot (found : Char)
  | noVersionEnd (found : Char)
  | noSpace (found : Char)
  | noLineEnd (found : Char)
  | noBang (found : Char)
  | noUri (found : Char)
  | noEscapedByte (found : Char)
  | badEscapedBytes (fault : Text.Utf8.Fault)
  | noAngle (found : Char)
  | zeroIndentation
  | noBlockHeader (found : Char)
  | unknownEscape (found : Char)
  | shortEscape (width : Nat) (found : Char)
  | endInScalar
  | markerInScalar
  | noDocumentStart (found : String)
  | repeatedVersion
  | incompatibleVersion
  | repeatedHandle (handle : String)
  | unknownHandle (handle : String)
  | noNode (found : String)
  | noBlockEnd (found : String)
  | noSequenceEnd (found : String)
  | noMappingEnd (found : String)
  | unknownAlias (name : String)
  | secondAnchor
  | secondDocument
  | wantsScalar (found : NodeKind)
  | wantsSequence (found : NodeKind)
  | wantsMapping (found : NodeKind)
  | listForm (found : NodeKind)
  | singleEntry (found : NodeKind)
  | entryCount (found : Nat)
  | mergeValue (found : NodeKind)
  | mergeItem (found : NodeKind)
  | unhashableKey
  | unknownTag (tag : String)
  | ownIngredient
  | binaryNotAscii (run : List Char) (position : Nat)
  | badBinary (report : String)
  deriving Repr

/-- The report of characters that are not ASCII. -/
def notAsciiText (run : List Char) (position : Nat) : String :=
  let place :=
    match run with
    | [c] => "character \x27" ++ String.ofList (Text.escapedCode c.toNat) ++ "\x27 in position "
        ++ toString position
    | _ => "characters in position " ++ toString position ++ "-"
        ++ toString (position + run.length - 1)
  "\x27ascii\x27 codec can\x27t encode " ++ place ++ ": ordinal not in range(128)"

/-- The words for a problem. -/
def Problem.text : Problem → String
  | .missingColon => "could not find expected \x27:\x27"
  | .strayCharacter c => "found character " ++ quotedSingle c ++ " that cannot start any token"
  | .entryNotAllowed => "sequence entries are not allowed here"
  | .keyNotAllowed => "mapping keys are not allowed here"
  | .valueNotAllowed => "mapping values are not allowed here"
  | .noName found =>
    "expected alphabetic or numeric character, but found " ++ quotedSingle found
  | .noDigit found => "expected a digit, but found " ++ quotedSingle found
  | .noDot found => "expected a digit or \x27.\x27, but found " ++ quotedSingle found
  | .noVersionEnd found => "expected a digit or \x27 \x27, but found " ++ quotedSingle found
  | .noSpace found => "expected \x27 \x27, but found " ++ quotedSingle found
  | .noLineEnd found => "expected a comment or a line break, but found " ++ quotedSingle found
  | .noBang found => "expected \x27!\x27, but found " ++ quotedSingle found
  | .noUri found => "expected URI, but found " ++ quotedSingle found
  | .noEscapedByte found =>
    "expected URI escape sequence of 2 hexadecimal numbers, but found " ++ quotedSingle found
  | .badEscapedBytes fault => fault.message
  | .noAngle found => "expected \x27>\x27, but found " ++ quotedSingle found
  | .zeroIndentation => "expected indentation indicator in the range 1-9, but found 0"
  | .noBlockHeader found =>
    "expected chomping or indentation indicators, but found " ++ quotedSingle found
  | .unknownEscape found => "found unknown escape character " ++ quotedSingle found
  | .shortEscape width found =>
    "expected escape sequence of " ++ toString width ++ " hexadecimal numbers, but found "
      ++ quotedSingle found
  | .endInScalar => "found unexpected end of stream"
  | .markerInScalar => "found unexpected document separator"
  | .noDocumentStart found => "expected \x27<document start>\x27, but found " ++ quotedText found
  | .repeatedVersion => "found duplicate YAML directive"
  | .incompatibleVersion => "found incompatible YAML document (version 1.* is required)"
  | .repeatedHandle handle => "duplicate tag handle " ++ quotedText handle
  | .unknownHandle handle => "found undefined tag handle " ++ quotedText handle
  | .noNode found => "expected the node content, but found " ++ quotedText found
  | .noBlockEnd found => "expected <block end>, but found " ++ quotedText found
  | .noSequenceEnd found => "expected \x27,\x27 or \x27]\x27, but got " ++ quotedText found
  | .noMappingEnd found => "expected \x27,\x27 or \x27\x7d\x27, but got " ++ quotedText found
  | .unknownAlias name => "found undefined alias " ++ quotedText name
  | .secondAnchor => "second occurrence"
  | .secondDocument => "but found another document"
  | .wantsScalar found => "expected a scalar node, but found " ++ found.name
  | .wantsSequence found => "expected a sequence node, but found " ++ found.name
  | .wantsMapping found => "expected a mapping node, but found " ++ found.name
  | .listForm found => "expected a sequence, but found " ++ found.name
  | .singleEntry found => "expected a mapping of length 1, but found " ++ found.name
  | .entryCount found =>
    "expected a single mapping item, but found " ++ toString found ++ " items"
  | .mergeValue found =>
    "expected a mapping or list of mappings for merging, but found " ++ found.name
  | .mergeItem found => "expected a mapping for merging, but found " ++ found.name
  | .unhashableKey => "found unhashable key"
  | .unknownTag tag => "could not determine a constructor for the tag " ++ quotedText tag
  | .ownIngredient => "found unconstructable recursive node"
  | .binaryNotAscii run position =>
    "failed to convert base64 data into ascii: " ++ notAsciiText run position
  | .badBinary report => "failed to decode base64 data: " ++ report

/-- A fault of a document.  The place of the activity may be unknown. -/
inductive Fault where
  | marked (activity : Option (Activity × Option Mark)) (problem : Problem) (mark : Mark)
  /-- A character that no document may hold. -/
  | unacceptable (c : Char) (position : Nat)

/-- The lines that say what was being read at a problem.  Its place is left out
where it is the place of the problem. -/
def contextLines (activity : Option (Activity × Option Mark)) (mark : Mark) : List String :=
  match activity with
  | none => []
  | some (activity, none) => [activity.text]
  | some (activity, some place) =>
    if place.samePlace mark then [activity.text] else [activity.text, place.describe]

/-- The report of a fault. -/
def Fault.message : Fault → String
  | .marked activity problem mark =>
    "\n".intercalate (contextLines activity mark ++ [problem.text, mark.describe])
  | .unacceptable c position =>
    "unacceptable character #x" ++ String.ofList (Text.hexDigits 4 c.toNat)
      ++ ": special characters are not allowed\n  in \"<unicode string>\", position "
      ++ toString position

/-- Why a scalar is no value of the kind it is tagged with, or a document no
value at all. -/
inductive Defect where
  | number (fault : Number.Fault)
  | calendar (fault : Calendar.Fault)
  /-- An escape beyond the last code point. -/
  | codePoint
  /-- An escape beyond what a code point is read as. -/
  | hugeCodePoint
  /-- A base-sixty number whose places outgrow the doubles. -/
  | hugePlace
  /-- A word that is no truth value. -/
  | unknownWord (word : String)
  /-- A number without a digit. -/
  | noCharacter
  /-- A text that is no date or moment. -/
  | noMoment
  /-- A pattern was to be matched against this kind of node. -/
  | notMatchable (kind : NodeKind)
  /-- Characters stand where entries are expected. -/
  | loneCharacter
  /-- A node of this kind stands where an entry is expected. -/
  | notEntry (kind : NodeKind)
  /-- Calls without an end, or too many of them: a scalar that is found by following
  itself, or collections within collections. -/
  | endless
  deriving Repr

/-- Why no value is decoded. -/
inductive Failure where
  | fault (fault : Fault)
  | defect (defect : Defect)

/-- The name of the kind of object that a node is. -/
def NodeKind.objectName : NodeKind → String
  | .scalar => "ScalarNode"
  | .sequence => "SequenceNode"
  | .mapping => "MappingNode"

/-- The report of a defect. -/
def Defect.message : Defect → String
  | .number f => f.message
  | .calendar f => f.message
  | .codePoint => "chr() arg not in range(0x110000)"
  | .hugeCodePoint => "the code point is too large"
  | .hugePlace => "the place is too large"
  | .unknownWord word => quotedText word
  | .noCharacter => "the number has no digit"
  | .noMoment => "the text is no date"
  | .notMatchable _ => "expected string or bytes-like object, got \x27list\x27"
  | .loneCharacter => "not enough values to unpack (expected 2, got 1)"
  | .notEntry kind => "cannot unpack non-iterable " ++ kind.objectName ++ " object"
  | .endless => "maximum recursion depth exceeded"

/-- The report of a failure. -/
def Failure.message : Failure → String
  | .fault f => f.message
  | .defect d => d.message

end ContentCatalog.Yaml
