import ContentCatalog.Yaml.Event
import ContentCatalog.Yaml.Tag

/-!
# The node graph

A document as a graph of tagged nodes, kept in one array; collections refer to
their parts by number.  An alias is just a second reference, so a collection may
contain itself.

Composing calls itself for each collection that is open, and the interpreter's stack
ends it where they are too many.  How many the stack takes depends on the calls that
are under way and on what is read next; `levelLimit` is what is left of it for a
file that a scan decodes.
-/

namespace ContentCatalog.Yaml

/-- The number of a node. -/
abbrev NodeId := Nat

/-- What a node holds. -/
inductive Node.Content where
  | scalar (text : String)
  | sequence (items : List NodeId)
  | mapping (entries : List (NodeId × NodeId))

/-- A node. -/
structure Node where
  tag : String
  mark : Mark
  content : Node.Content

/-- The kind of a node. -/
def Node.kind (node : Node) : NodeKind :=
  match node.content with
  | .scalar _ => .scalar
  | .sequence _ => .sequence
  | .mapping _ => .mapping

/-- The nodes of a document, and the one that is the document. -/
structure Graph where
  nodes : Array Node
  root : NodeId

namespace Composing

/-- A collection that is open, with its parts so far in reverse. -/
inductive Frame where
  | sequence (node : NodeId) (items : List NodeId)
  | mapping (node : NodeId) (entries : List (NodeId × NodeId)) (key : Option NodeId)

/-- What is composed so far. -/
structure State where
  nodes : Array Node
  /-- The nodes that have an anchor. -/
  anchors : List (String × NodeId)
  /-- The open collections, innermost first. -/
  frames : List Frame
  root : Option NodeId

/-- Replace the content of a node. -/
def setContent (nodes : Array Node) (id : NodeId) (content : Node.Content) : Array Node :=
  nodes.modify id fun node => { node with content := content }

/-- A finished node becomes a part of the innermost collection, or the root. -/
def attach (s : State) (id : NodeId) : State :=
  match s.frames with
  | [] => { s with root := some id }
  | .sequence node items :: outer => { s with frames := .sequence node (id :: items) :: outer }
  | .mapping node entries none :: outer =>
    { s with frames := .mapping node entries (some id) :: outer }
  | .mapping node entries (some key) :: outer =>
    { s with frames := .mapping node ((key, id) :: entries) none :: outer }

/-- Add a node, under its anchor if it has one. -/
def add (s : State) (properties : Properties) (node : Node) : Except Failure (NodeId × State) :=
  let id := s.nodes.size
  let s' := { s with nodes := s.nodes.push node }
  match properties.anchor with
  | none => .ok (id, s')
  | some name =>
    match s.anchors.find? fun known => known.1 == name with
    | some (_, first) =>
      let place := (s.nodes[first]?).map (·.mark)
      .error (.fault (.marked (some (.firstAnchor name, place)) .secondAnchor node.mark))
    | none => .ok (id, { s' with anchors := (name, id) :: s.anchors })

/-- Close the innermost collection. -/
def close (s : State) : State :=
  match s.frames with
  | [] => s
  | .sequence node items :: outer =>
    attach { s with nodes := setContent s.nodes node (.sequence items.reverse), frames := outer } node
  | .mapping node entries _ :: outer =>
    attach { s with nodes := setContent s.nodes node (.mapping entries.reverse), frames := outer }
      node

/-- The greatest number of collections that are open at once: each takes two of the
thousand calls that the stack holds, and about twenty are made around them. -/
def levelLimit : Nat := 489

/-- Open a collection in the innermost one. -/
def enter (s : State) (frame : Frame) : Except Failure State :=
  if s.frames.length < levelLimit then .ok { s with frames := frame :: s.frames }
  else .error (.defect .endless)

/-- Take one event of a node into account. -/
def step (s : State) : Event → Except Failure State
  | .alias name m =>
    match s.anchors.find? fun known => known.1 == name with
    | some (_, id) => .ok (attach s id)
    | none => .error (.fault (.marked none (.unknownAlias name) m))
  | .scalar properties text implicit m => do
    let tag := properties.tag.getD (if implicit then Tag.implicit text else Tag.standard "str")
    let (id, s) ← add s properties ⟨tag, m, .scalar text⟩
    return attach s id
  | .sequenceStart properties m => do
    let (id, s) ← add s properties ⟨properties.tag.getD (Tag.standard "seq"), m, .sequence []⟩
    enter s (.sequence id [])
  | .mappingStart properties m => do
    let (id, s) ← add s properties ⟨properties.tag.getD (Tag.standard "map"), m, .mapping []⟩
    enter s (.mapping id [] none)
  | .sequenceEnd => .ok (close s)
  | .mappingEnd => .ok (close s)
  | .documentStart _ => .ok s
  | .documentEnd => .ok s
  | .streamEnd => .ok s

/-- The events of one document up to its end, and the events behind it. -/
def document (failure : Option Failure) : List Event → State → Except Failure (State × List Event)
  | [], s =>
    match failure with
    | some failure => .error failure
    | none => .ok (s, [])
  | .documentEnd :: rest, s => .ok (s, rest)
  | event :: rest, s =>
    match step s event with
    | .ok s => document failure rest s
    | .error failure => .error failure

end Composing

/-- The graph of the only document of an event stream; nothing if the stream has
none. -/
def Graph.ofEvents (events : Stream Event Failure) : Except Failure (Option Graph) :=
  match events.items with
  | [] =>
    match events.failure with
    | some failure => .error failure
    | none => .ok none
  | .streamEnd :: _ => .ok none
  | _ :: rest =>
    match Composing.document events.failure rest ⟨#[], [], [], none⟩ with
    | .error failure => .error failure
    | .ok (s, behind) =>
      match behind, events.failure, s.root with
      | [], some failure, _ => .error failure
      | .documentStart m :: _, _, some root =>
        let place := (s.nodes[root]?).map (·.mark)
        .error (.fault (.marked (some (.singleDocument, place)) .secondDocument m))
      | _, _, root => .ok (root.map fun root => ⟨s.nodes, root⟩)

end ContentCatalog.Yaml
