import ContentCatalog.Yaml.Token
import ContentCatalog.Yaml.Lexeme.Property

/-!
# Events

The document as a sequence of events: scalars, aliases, and the starts and ends
of collections.  A grammar state says what may come next; the states of the
collections around it wait on a stack.  Tags are resolved to their full names
here, and nodes that are left out in the text become empty scalars.
-/

namespace ContentCatalog.Yaml

/-- What a node's text says about it besides its content. -/
structure Properties where
  anchor : Option String
  /-- The full tag, if one is given that names a kind. -/
  tag : Option String

/-- An event of a document. -/
inductive Event where
  | documentStart (mark : Mark)
  | documentEnd
  | streamEnd
  | alias (name : String) (mark : Mark)
  /-- A scalar; if it has no tag, `implicit` says that its text decides its kind. -/
  | scalar (properties : Properties) (text : String) (implicit : Bool) (mark : Mark)
  | sequenceStart (properties : Properties) (mark : Mark)
  | sequenceEnd
  | mappingStart (properties : Properties) (mark : Mark)
  | mappingEnd

namespace Grammar

/-- What may come next. -/
inductive State where
  | implicitDocumentStart
  | documentStart
  | documentContent
  | documentEnd
  | blockNode
  | blockSequenceFirstEntry
  | blockSequenceEntry
  | indentlessSequenceEntry
  | blockMappingFirstKey
  | blockMappingKey
  | blockMappingValue
  | flowSequenceFirstEntry
  | flowSequenceEntry
  | flowPairKey
  | flowPairValue
  | flowPairEnd
  | flowMappingFirstKey
  | flowMappingKey
  | flowMappingValue
  | flowMappingEmptyValue
  deriving DecidableEq, Repr

/-- The tokens that are left, the states that wait, the starts of the open
collections, and the tag handles of the document. -/
structure Parser where
  tokens : Stream Token Failure
  state : Option State
  waiting : List State
  starts : List Mark
  handles : List (String × String)

/-- A step of the grammar. -/
abbrev Step := StateT Parser (Except Failure)

/-- The next token.  Behind the last one comes the failure that stopped the
stream. -/
def peek : Step Token := do
  let p ← get
  match p.tokens.items with
  | token :: _ => return token
  | [] =>
    match p.tokens.failure with
    | some failure => throw failure
    | none => return Token.at .streamEnd (Mark.start [])

/-- Take the next token. -/
def take : Step Token := do
  let token ← peek
  modify fun p => { p with tokens := { p.tokens with items := p.tokens.items.tail } }
  return token

/-- Pass the next token. -/
def pass : Step Unit :=
  discard take

/-- The content of the next token. -/
def next : Step Token.Content := do
  return (← peek).content

/-- Go on with a state. -/
def go (state : State) : Step Unit :=
  modify fun p => { p with state := some state }

/-- Let a state wait for the end of the node that comes now. -/
def wait (state : State) : Step Unit :=
  modify fun p => { p with waiting := state :: p.waiting }

/-- Go on with the state that waits on top. -/
def resume : Step Unit :=
  modify fun p => { p with state := p.waiting.head?, waiting := p.waiting.tail }

/-- A collection starts here. -/
def enter (m : Mark) : Step Unit :=
  modify fun p => { p with starts := m :: p.starts }

/-- The innermost collection ends. -/
def leave : Step Unit := do
  modify fun p => { p with starts := p.starts.tail }
  resume

/-- Report a problem of the innermost collection. -/
def refuseInside {α : Type} (activity : Activity) (problem : Problem) (m : Mark) : Step α := do
  match (← get).starts with
  | start :: _ => throw (.fault (.marked (some (activity, some start)) problem m))
  | [] => throw (.fault (.marked (some (activity, none)) problem m))

/-- A node that is left out. -/
def emptyScalar (m : Mark) : Event :=
  .scalar ⟨none, none⟩ "" true m

/-- The handles that every document knows. -/
def standardHandles : List (String × String) :=
  [("!", "!"), ("!!", "tag:yaml.org,2002:")]

/-- The tag that a handle and a suffix make.  The lone exclamation mark names no
kind of its own. -/
def fullTag (start : Option Mark) (tagMark : Mark) (handle : Option String) (suffix : String) :
    Step String := do
  match handle with
  | none => return suffix
  | some name =>
    match (← get).handles.find? fun known => known.1 == name with
    | some (_, expansion) => return expansion ++ suffix
    | none =>
      throw (.fault (.marked (some (.node, start)) (.unknownHandle name) tagMark))

/-- The properties of a node as written: the anchor, the tag with its place, and
where the first of them starts. -/
structure Written where
  anchor : Option String
  tag : Option (Option String × String × Mark)
  start : Option Mark

/-- Read the properties of a node, in either order. -/
def written : Step Written := do
  let first ← peek
  match first.content with
  | .anchor name =>
    pass
    let second ← peek
    match second.content with
    | .tag handle suffix =>
      pass
      return ⟨some name, some (handle, suffix, second.start), some first.start⟩
    | _ => return ⟨some name, none, some first.start⟩
  | .tag handle suffix =>
    pass
    let second ← peek
    match second.content with
    | .anchor name =>
      pass
      return ⟨some name, some (handle, suffix, first.start), some first.start⟩
    | _ => return ⟨none, some (handle, suffix, first.start), some first.start⟩
  | _ => return ⟨none, none, none⟩

/-- A node.  `block` allows block collections, `indentless` a sequence whose
entries are not indented. -/
def node (block indentless : Bool) : Step Event := do
  match ← next with
  | .alias name =>
    let token ← take
    resume
    return .alias name token.start
  | _ =>
    let properties ← written
    let given ←
      match properties.tag with
      | none => pure none
      | some (handle, suffix, place) =>
        some <$> fullTag properties.start place handle suffix
    let token ← peek
    let start := properties.start.getD token.start
    let tag := if given == some "!" then none else given
    let known : Properties := ⟨properties.anchor, tag⟩
    match token.content with
    | .scalar text plain =>
      pass
      resume
      return .scalar known text ((plain && given.isNone) || given == some "!") start
    | .flowSequenceStart =>
      go .flowSequenceFirstEntry
      return .sequenceStart known start
    | .flowMappingStart =>
      go .flowMappingFirstKey
      return .mappingStart known start
    | content =>
      match content, block, indentless with
      | .blockEntry, _, true =>
        go .indentlessSequenceEntry
        return .sequenceStart known start
      | .blockSequenceStart, true, _ =>
        go .blockSequenceFirstEntry
        return .sequenceStart known start
      | .blockMappingStart, true, _ =>
        go .blockMappingFirstKey
        return .mappingStart known start
      | content, _, _ =>
        if properties.anchor.isSome || given.isSome then
          resume
          return .scalar known "" tag.isNone start
        else
          throw (.fault (.marked (some (if block then .blockNode else .flowNode, some start))
            (.noNode content.name) token.start))

/-- Read a node unless one of the given tokens shows that it is left out.  The
state `after` follows the node; `m` is where an empty node is placed. -/
def nodeOrEmpty (isEnd : Token.Content → Bool) (after : State) (m : Mark) (read : Step Event) :
    Step Event := do
  if isEnd (← next) then
    go after
    return emptyScalar m
  else
    wait after
    read

/-- Read the directives at the head of a document. -/
def directives : (fuel : Nat) → (version : Bool) → (handles : List (String × String)) → Step Unit
  | 0, _, _ => pure ()
  | fuel + 1, version, handles => do
    let token ← peek
    match token.content with
    | .directive (.version major _) =>
      pass
      if version then throw (.fault (.marked none .repeatedVersion token.start))
      else if major != 1 then throw (.fault (.marked none .incompatibleVersion token.start))
      else directives fuel true handles
    | .directive (.handle name expansion) =>
      pass
      if handles.any (·.1 == name) then
        throw (.fault (.marked none (.repeatedHandle name) token.start))
      else directives fuel version (handles ++ [(name, expansion)])
    | .directive (.other _) =>
      pass
      directives fuel version handles
    | _ => modify fun p => { p with handles := handles ++ standardHandles }

/-- Pass the ends of documents. -/
def skipDocumentEnds : (fuel : Nat) → Step Unit
  | 0 => pure ()
  | fuel + 1 => do
    match ← next with
    | .documentEnd =>
      pass
      skipDocumentEnds fuel
    | _ => pure ()

/-- The start of a document that is marked as such, or the end of the stream. -/
def explicitDocument : Step Event := do
  let fuel := (← get).tokens.items.length + 1
  skipDocumentEnds fuel
  let first ← peek
  match first.content with
  | .streamEnd =>
    pass
    modify fun p => { p with state := none }
    return .streamEnd
  | _ =>
    directives fuel false []
    let token ← peek
    match token.content with
    | .documentStart =>
      pass
      wait .documentEnd
      go .documentContent
      return .documentStart first.start
    | content => throw (.fault (.marked none (.noDocumentStart content.name) token.start))

/-- A key or a value of a block mapping is left out before these tokens. -/
def endsBlockPart : Token.Content → Bool
  | .key | .value | .blockEnd => true
  | _ => false

/-- The end of a part of a flow mapping. -/
def endsFlowMapping : Token.Content → Bool
  | .flowEntry | .flowMappingEnd => true
  | _ => false

/-- The end of a part of a flow sequence. -/
def endsFlowSequence : Token.Content → Bool
  | .flowEntry | .flowSequenceEnd => true
  | _ => false

/-- An entry of a block sequence, or its end. -/
def blockSequenceEntry : Step Event := do
  let token ← peek
  match token.content with
  | .blockEntry =>
    pass
    nodeOrEmpty (fun | .blockEntry | .blockEnd => true | _ => false)
      .blockSequenceEntry token.stop (node true false)
  | .blockEnd =>
    pass
    leave
    return .sequenceEnd
  | content => refuseInside .blockSequence (.noBlockEnd content.name) token.start

/-- An entry of a sequence that is not indented, or its end. -/
def indentlessSequenceEntry : Step Event := do
  let token ← peek
  match token.content with
  | .blockEntry =>
    pass
    nodeOrEmpty (fun | .blockEntry | .key | .value | .blockEnd => true | _ => false)
      .indentlessSequenceEntry token.stop (node true false)
  | _ =>
    resume
    return .sequenceEnd

/-- A key of a block mapping, or the mapping's end. -/
def blockMappingKey : Step Event := do
  let token ← peek
  match token.content with
  | .key =>
    pass
    nodeOrEmpty endsBlockPart .blockMappingValue token.stop (node true true)
  | .blockEnd =>
    pass
    leave
    return .mappingEnd
  | content => refuseInside .blockMapping (.noBlockEnd content.name) token.start

/-- A value of a block mapping. -/
def blockMappingValue : Step Event := do
  let token ← peek
  match token.content with
  | .value =>
    pass
    nodeOrEmpty endsBlockPart .blockMappingKey token.stop (node true true)
  | _ =>
    go .blockMappingKey
    return emptyScalar token.start

/-- Pass the comma that has to stand between two parts of a flow collection. -/
def comma (activity : Activity) (problem : String → Problem) : Step Unit := do
  let token ← peek
  match token.content with
  | .flowEntry =>
    pass
  | content => refuseInside activity (problem content.name) token.start

/-- An entry of a flow sequence, which may be a single pair, or its end. -/
def flowSequenceEntry (first : Bool) : Step Event := do
  let finish : Step Event := do
    pass
    leave
    return .sequenceEnd
  match ← next with
  | .flowSequenceEnd => finish
  | _ =>
    if !first then comma .flowSequence .noSequenceEnd
    let token ← peek
    match token.content with
    | .key =>
      go .flowPairKey
      return .mappingStart ⟨none, none⟩ token.start
    | .flowSequenceEnd => finish
    | _ =>
      wait .flowSequenceEntry
      node false false

/-- The key of a single pair. -/
def flowPairKey : Step Event := do
  let token ← take
  nodeOrEmpty (fun content => content matches .value || endsFlowSequence content)
    .flowPairValue token.stop (node false false)

/-- The value of a single pair. -/
def flowPairValue : Step Event := do
  let token ← peek
  match token.content with
  | .value =>
    pass
    nodeOrEmpty endsFlowSequence .flowPairEnd token.stop (node false false)
  | _ =>
    go .flowPairEnd
    return emptyScalar token.start

/-- The end of a single pair. -/
def flowPairEnd : Step Event := do
  go .flowSequenceEntry
  let _ ← peek
  return .mappingEnd

/-- A key of a flow mapping, or the mapping's end. -/
def flowMappingKey (first : Bool) : Step Event := do
  let finish : Step Event := do
    pass
    leave
    return .mappingEnd
  match ← next with
  | .flowMappingEnd => finish
  | _ =>
    if !first then comma .flowMapping .noMappingEnd
    let token ← peek
    match token.content with
    | .key =>
      pass
      nodeOrEmpty (fun content => content matches .value || endsFlowMapping content)
        .flowMappingValue token.stop (node false false)
    | .flowMappingEnd => finish
    | _ =>
      wait .flowMappingEmptyValue
      node false false

/-- A value of a flow mapping. -/
def flowMappingValue : Step Event := do
  let token ← peek
  match token.content with
  | .value =>
    pass
    nodeOrEmpty endsFlowMapping .flowMappingKey token.stop (node false false)
  | _ =>
    go .flowMappingKey
    return emptyScalar token.start

/-- Enter a collection whose first token is next, and read its first part. -/
def entering (read : Step Event) : Step Event := do
  let token ← take
  enter token.start
  read

/-- The event that a state gives. -/
def event : State → Step Event
  | .implicitDocumentStart => do
    let token ← peek
    match token.content with
    | .directive _ | .documentStart | .streamEnd => explicitDocument
    | _ =>
      modify fun p => { p with handles := standardHandles }
      wait .documentEnd
      go .blockNode
      return .documentStart token.start
  | .documentStart => explicitDocument
  | .documentContent => do
    let token ← peek
    match token.content with
    | .directive _ | .documentStart | .documentEnd | .streamEnd =>
      resume
      return emptyScalar token.start
    | _ => node true false
  | .documentEnd => do
    match ← next with
    | .documentEnd =>
      pass
    | _ => pure ()
    go .documentStart
    return .documentEnd
  | .blockNode => node true false
  | .blockSequenceFirstEntry => entering blockSequenceEntry
  | .blockSequenceEntry => blockSequenceEntry
  | .indentlessSequenceEntry => indentlessSequenceEntry
  | .blockMappingFirstKey => entering blockMappingKey
  | .blockMappingKey => blockMappingKey
  | .blockMappingValue => blockMappingValue
  | .flowSequenceFirstEntry => entering (flowSequenceEntry true)
  | .flowSequenceEntry => flowSequenceEntry false
  | .flowPairKey => flowPairKey
  | .flowPairValue => flowPairValue
  | .flowPairEnd => flowPairEnd
  | .flowMappingFirstKey => entering (flowMappingKey true)
  | .flowMappingKey => flowMappingKey false
  | .flowMappingValue => flowMappingValue
  | .flowMappingEmptyValue => do
    go .flowMappingKey
    return emptyScalar (← peek).start

/-- The events from a state of the parser on. -/
def events : (fuel : Nat) → Parser → Stream Event Failure
  | 0, _ => ⟨[], none⟩
  | fuel + 1, p =>
    match p.state with
    | none => ⟨[], none⟩
    | some state =>
      match (event state).run p with
      | .error failure => ⟨[], some failure⟩
      | .ok (found, p) =>
        let stream := events fuel p
        { stream with items := found :: stream.items }

/-- The events of a token stream.  Between two tokens there are only few events,
which bounds the work. -/
def ofTokens (tokens : Stream Token Failure) : Stream Event Failure :=
  let rest := { tokens with items := tokens.items.tail }
  match tokens.items, tokens.failure with
  | [], some failure => ⟨[], some failure⟩
  | _, _ =>
    events (6 * tokens.items.length + 12) ⟨rest, some .implicitDocumentStart, [], [], []⟩

end Grammar

end ContentCatalog.Yaml
