import ContentCatalog.Yaml.Node
import ContentCatalog.Yaml.Scalar
import ContentCatalog.Yaml.Token.Layout
import ContentCatalog.Value.Display

/-!
# From nodes to values

A document is built in two phases.  A collection is first an empty object that
others can already refer to, so that a document may contain itself; it waits in a
queue until it is filled.  Filling looks at the parts of one collection only,
and the objects of its parts wait in turn.  Keys that have to be known at once
are built completely when they are met, and such a key cannot contain itself.

There are two ways to treat mapping keys.  `Keys.decoded` decodes them like any
other node and compares them as values.  `Keys.sourceText` takes the text of a
scalar key as it stands in the document, and the display of any other key.

`load` is the whole way from a text to its value.
-/

namespace ContentCatalog.Yaml

/-- How mapping keys are understood. -/
inductive Keys where
  | decoded
  | sourceText
  deriving DecidableEq, Repr

namespace Building

/-- The number of an object. -/
abbrev ObjectId := Nat

/-- A finished scalar, a reference to a collection, or a pair of both. -/
inductive Cell where
  /-- `origin` tells apart what equals nothing, not even itself. -/
  | leaf (value : Value) (origin : Option NodeId)
  | object (id : ObjectId)
  | pair (first second : Cell)
  deriving Inhabited

/-- The content of a collection. -/
inductive Object where
  | list (items : List Cell)
  | set (items : List Cell)
  | map (entries : List (Cell × Cell))

/-- What is built so far. -/
structure State where
  nodes : Array Node
  /-- The finished cell of each node. -/
  made : List (NodeId × Cell)
  /-- The nodes that are being built. -/
  busy : List NodeId
  objects : Array Object
  /-- The collections that wait to be filled. -/
  waiting : List (NodeId × ObjectId)

/-- A step of the building. -/
abbrev Step := StateT State (Except Failure)

/-- A kind of collection. -/
inductive Collection where
  | list
  | map
  | set
  | orderedMap
  | pairs
  deriving DecidableEq

/-- The kind of collection that a tag names. -/
def collection? (tag : String) : Option Collection :=
  if tag == Tag.standard "seq" then some .list
  else if tag == Tag.standard "map" then some .map
  else if tag == Tag.standard "set" then some .set
  else if tag == Tag.standard "omap" then some .orderedMap
  else if tag == Tag.standard "pairs" then some .pairs
  else none

/-- The kinds of scalars. -/
inductive ScalarKind where
  | null
  | bool
  | int
  | float
  | binary
  | moment
  | text
  deriving DecidableEq

/-- The kind of scalar that a tag names. -/
def scalarKind? (tag : String) : Option ScalarKind :=
  if tag == Tag.standard "str" then some .text
  else if tag == Tag.standard "null" then some .null
  else if tag == Tag.standard "bool" then some .bool
  else if tag == Tag.standard "int" then some .int
  else if tag == Tag.standard "float" then some .float
  else if tag == Tag.standard "binary" then some .binary
  else if tag == Tag.standard "timestamp" then some .moment
  else none

/-- The empty object of a kind of collection. -/
def Collection.empty : Collection → Object
  | .map => .map []
  | .set => .set []
  | _ => .list []

/-- The node with a number. -/
def nodeAt (id : NodeId) : Step Node := do
  match (← get).nodes[id]? with
  | some node => return node
  | none => throw (.defect .endless)

/-- Report a problem of a node. -/
def refuseNode {α : Type} (problem : Problem) (node : Node) : Step α :=
  throw (.fault (.marked none problem node.mark))

/-- Report a problem met while a collection is filled. -/
def refuseFilling {α : Type} (activity : Activity) (around : Node) (problem : Problem)
    (node : Node) : Step α :=
  throw (.fault (.marked (some (activity, some around.mark)) problem node.mark))

/-- The text of a scalar.  A mapping with a value mark among its keys stands for
the scalar under the first of them. -/
def scalarText : (fuel : Nat) → Node → Step String
  | 0, _ => throw (.defect .endless)
  | fuel + 1, node => do
    match node.content with
    | .scalar text => return text
    | .mapping entries =>
      let nodes := (← get).nodes
      let marked := entries.find? fun entry =>
        (nodes[entry.1]?).any fun key => key.tag == Tag.standard "value"
      match marked with
      | some (_, value) => scalarText fuel (← nodeAt value)
      | none => refuseNode (.wantsScalar node.kind) node
    | .sequence _ => refuseNode (.wantsScalar node.kind) node

/-- Lift the reading of a scalar. -/
def reading {α : Type} (result : Except Defect α) : Step α :=
  match result with
  | .ok value => return value
  | .error defect => throw (.defect defect)

/-- The value of a scalar node. -/
def scalarValue (kind : ScalarKind) (node : Node) : Step Value := do
  let text ← scalarText ((← get).nodes.size + 1) node
  let chars := text.toList
  match kind with
  | .text => return .text text
  | .null => return .null
  | .bool => reading (Scalar.bool chars)
  | .int => reading (Scalar.int chars)
  | .float => reading (Scalar.float chars)
  | .binary =>
    match Scalar.binary chars with
    | .ok value => return value
    | .error problem => refuseNode problem node
  | .moment =>
    match node.content with
    | .scalar _ => reading (Scalar.moment chars)
    | _ => throw (.defect (.notMatchable node.kind))

/-- The scalar is the one thing that equals nothing and is written in no way of
its own. -/
def isSharedNotNumber (node : Node) : Bool :=
  match node.content with
  | .scalar text =>
    let word := Text.lower (Scalar.withoutSpacers text.toList)
    [".nan", "-.nan", "+.nan"].contains (String.ofList word)
  | _ => false

/-- Where a scalar comes from, if that matters for comparing it. -/
def originOf (id : NodeId) (node : Node) (value : Value) : Option NodeId :=
  match value with
  | .float .notNumber => if isSharedNotNumber node then none else some id
  | _ => none

/-- The scalar equals nothing but itself. -/
def isNotNumber : Value → Bool
  | .float .notNumber => true
  | _ => false

/-- The cells are the same mapping key. -/
def sameCell : Cell → Cell → Bool
  | .leaf a p, .leaf b q => a.sameKey b || (isNotNumber a && isNotNumber b && p == q)
  | _, _ => false

/-- The value of a cell below the given objects; a pair counts as a container
without a number.  A reference back to one of them says how far up it is. -/
def unfold (objects : Array Object) :
    (fuel : Nat) → (around : List (Option ObjectId)) → Cell → Value
  | 0, _, _ => .null
  | fuel + 1, around, cell =>
    match cell with
    | .leaf value _ => value
    | .pair first second =>
      let inside := unfold objects fuel (none :: around)
      .tuple [inside first, inside second]
    | .object id =>
      match around.findIdx? (· == some id) with
      | some levels => .cycle (levels + 1)
      | none =>
        let inside := unfold objects fuel (some id :: around)
        match objects[id]? with
        | some (.list items) => .list (items.map inside)
        | some (.set items) => .set (items.map inside)
        | some (.map entries) => .map (entries.map fun entry => (inside entry.1, inside entry.2))
        | none => .null

/-- The value of a cell as it stands now. -/
def valueOf (objects : Array Object) (cell : Cell) : Value :=
  unfold objects (2 * objects.size + 2) [] cell

/-- The key that a merge mark is. -/
def isMergeKey (nodes : Array Node) (entry : NodeId × NodeId) : Bool :=
  (nodes[entry.1]?).any fun key => key.tag == Tag.standard "merge"

/-- The entries before the first merge mark, its value, and the entries behind. -/
def splitMerge? (nodes : Array Node) : List (NodeId × NodeId) →
    Option (List (NodeId × NodeId) × NodeId × List (NodeId × NodeId))
  | [] => none
  | entry :: rest =>
    if isMergeKey nodes entry then some ([], entry.2, rest)
    else (splitMerge? nodes rest).map fun (before, value, after) => (entry :: before, value, after)

/-- The number of merge marks in a document. -/
def mergeCount (nodes : Array Node) : Nat :=
  nodes.foldl (fun count node =>
    match node.content with
    | .mapping entries => count + (entries.filter (isMergeKey nodes)).length
    | _ => count) 0

/-- The entries of a mapping node. -/
def entriesAt (id : NodeId) : Step (List (NodeId × NodeId)) := do
  match (← nodeAt id).content with
  | .mapping entries => return entries
  | _ => return []

/-- Replace the entries of a mapping node. -/
def setEntries (id : NodeId) (entries : List (NodeId × NodeId)) : Step Unit :=
  modify fun s => { s with nodes := Composing.setContent s.nodes id (.mapping entries) }

/-- Value marks among the keys become texts. -/
def settleValueMarks (entries : List (NodeId × NodeId)) : Step Unit :=
  modify fun s =>
    { s with
      nodes := entries.foldl (fun nodes entry => nodes.modify entry.1 fun key =>
        if key.tag == Tag.standard "value" then { key with tag := Tag.standard "str" } else key)
        s.nodes }

/-- Put the entries of merged mappings in front of a mapping's own.  Each merge
mark is taken out before its value is looked at, which bounds the work; `merged`
holds the entries of the marks so far. -/
def flatten : (fuel : Nat) → (merged : List (NodeId × NodeId)) → NodeId → Step Unit
  | 0, _, _ => pure ()
  | fuel + 1, merged, id => do
    let node ← nodeAt id
    let entries ← entriesAt id
    match splitMerge? (← get).nodes entries with
    | none =>
      settleValueMarks entries
      if !merged.isEmpty then setEntries id (merged ++ entries)
    | some (before, value, after) =>
      setEntries id (before ++ after)
      let source ← nodeAt value
      match source.content with
      | .mapping _ =>
        flatten fuel [] value
        let more ← entriesAt value
        flatten fuel (merged ++ more) id
      | .sequence items =>
        let parts ← items.mapM fun item => do
          let part ← nodeAt item
          match part.content with
          | .mapping _ =>
            flatten fuel [] item
            entriesAt item
          | _ => refuseFilling .mapping node (.mergeItem part.kind) part
        flatten fuel (merged ++ parts.reverse.flatten) id
      | .scalar _ => refuseFilling .mapping node (.mergeValue source.kind) source

/-- Put the entries of merged mappings in front of a mapping's own. -/
def flattenNode (id : NodeId) : Step Unit := do
  flatten (mergeCount (← get).nodes + 1) [] id

/-- The content of an object is known. -/
def setObject (id : ObjectId) (object : Object) : Step Unit :=
  modify fun s => { s with objects := s.objects.setIfInBounds id object }

/-- The entries of a mapping whose keys are decoded.  `make` builds a node. -/
def decodedEntries (make : NodeId → Step Cell) (id : NodeId) : Step (List (Cell × Cell)) := do
  let node ← nodeAt id
  match node.content with
  | .mapping _ =>
    flattenNode id
    (← entriesAt id).foldlM (fun (built : List (Cell × Cell)) (entry : NodeId × NodeId) => do
      let key ← make entry.1
      match key with
      | .leaf .. =>
        let value ← make entry.2
        return Dictionary.putBy sameCell key value built
      | _ => refuseFilling .mapping node .unhashableKey (← nodeAt entry.1)) []
  | _ => refuseNode (.wantsMapping node.kind) node

/-- The source text of a key.  `make` builds a node completely. -/
def keyText (make : NodeId → Step Cell) (id : NodeId) : Step String := do
  match (← nodeAt id).content with
  | .scalar text => return text
  | _ =>
    let cell ← make id
    match (valueOf (← get).objects cell).display with
    | .ok text => return text
    | .error fault => throw (.defect (.number fault))

/-- The entries of a mapping whose keys are source texts.  A node that is no
mapping passes if there is nothing in it. -/
def sourceEntries (makeKey make : NodeId → Step Cell) (id : NodeId) :
    Step (List (String × Cell)) := do
  let node ← nodeAt id
  match node.content with
  | .mapping _ =>
    flattenNode id
    (← entriesAt id).foldlM (fun (built : List (String × Cell)) (entry : NodeId × NodeId) => do
      let key ← keyText makeKey entry.1
      let value ← make entry.2
      return Dictionary.put key value built) []
  | .scalar text => if text.isEmpty then return [] else throw (.defect .loneCharacter)
  | .sequence [] => return []
  | .sequence (first :: _) => throw (.defect (.notEntry (← nodeAt first).kind))

/-- The entries of a mapping. -/
def mappingEntries (keys : Keys) (makeKey make : NodeId → Step Cell) (id : NodeId) :
    Step (List (Cell × Cell)) := do
  match keys with
  | .decoded => decodedEntries make id
  | .sourceText =>
    return (← sourceEntries makeKey make id).map fun entry =>
      (.leaf (.text entry.1) none, entry.2)

/-- Fill a list of pairs, one pair after the other. -/
def fillPairs (activity : Activity) (make : NodeId → Step Cell) (node : Node) (object : ObjectId) :
    Step Unit := do
  match node.content with
  | .sequence items =>
    let _ ← items.foldlM (fun (built : List Cell) (item : NodeId) => do
      let part ← nodeAt item
      match part.content with
      | .mapping [(key, value)] =>
        let first ← make key
        let second ← make value
        let built := built ++ [.pair first second]
        setObject object (.list built)
        return built
      | .mapping entries => refuseFilling activity node (.entryCount entries.length) part
      | _ => refuseFilling activity node (.singleEntry part.kind) part) []
  | _ => refuseFilling activity node (.listForm node.kind) node

/-- Fill the object of a collection. -/
def fill (keys : Keys) (makeKey make : NodeId → Step Cell) (kind : Collection) (id : NodeId)
    (object : ObjectId) : Step Unit := do
  let node ← nodeAt id
  match kind with
  | .list =>
    match node.content with
    | .sequence items => setObject object (.list (← items.mapM make))
    | _ => refuseNode (.wantsSequence node.kind) node
  | .map => setObject object (.map (← mappingEntries keys makeKey make id))
  | .set =>
    let entries ← mappingEntries keys makeKey make id
    setObject object (.set (entries.map (·.1)))
  | .orderedMap => fillPairs .orderedMap make node object
  | .pairs => fillPairs .pairs make node object

/-- A new object for a collection. -/
def allocate (kind : Collection) : Step ObjectId := do
  let id := (← get).objects.size
  modify fun s => { s with objects := s.objects.push kind.empty }
  return id

/-- Build a node.  If `complete` is set, collections are filled at once, else
they wait.  A node is never begun twice, so the nodes bound the depth. -/
def make (keys : Keys) : (fuel : Nat) → (complete : Bool) → NodeId → Step Cell
  | 0, _, _ => throw (.defect .endless)
  | fuel + 1, complete, id => do
    let s ← get
    let node ← nodeAt id
    match s.made.find? fun known => known.1 == id with
    | some (_, cell) => return cell
    | none =>
      if s.busy.contains id then refuseNode .ownIngredient node
      else
        set { s with busy := id :: s.busy }
        let cell ←
          match collection? node.tag, scalarKind? node.tag with
          | some kind, _ => do
            let object ← allocate kind
            if complete then fill keys (make keys fuel true) (make keys fuel true) kind id object
            else modify fun s => { s with waiting := s.waiting ++ [(id, object)] }
            pure (.object object)
          | none, some kind => do
            let value ← scalarValue kind node
            pure (.leaf value (originOf id node value))
          | none, none => refuseNode (.unknownTag node.tag) node
        modify fun s => { s with made := (id, cell) :: s.made, busy := s.busy.erase id }
        return cell

/-- Fill the collections that wait, first come first served. -/
def fillWaiting (keys : Keys) : (fuel : Nat) → Step Unit
  | 0 => pure ()
  | fuel + 1 => do
    let s ← get
    match s.waiting with
    | [] => pure ()
    | (id, object) :: rest =>
      set { s with waiting := rest }
      let node ← nodeAt id
      match collection? node.tag with
      | some kind =>
        let depth := s.nodes.size + 1
        fill keys (make keys depth true) (make keys depth false) kind id object
      | none => pure ()
      fillWaiting keys fuel

/-- Build the value of a graph. -/
def document (keys : Keys) (graph : Graph) : Step Value := do
  let cell ← make keys (graph.nodes.size + 1) false graph.root
  fillWaiting keys (graph.nodes.size + 1)
  return valueOf (← get).objects cell

end Building

/-- The value of a graph. -/
def Graph.value (keys : Keys) (graph : Graph) : Except Failure Value :=
  match (Building.document keys graph).run ⟨graph.nodes, [], [], #[], []⟩ with
  | .ok (value, _) => .ok value
  | .error failure => .error failure

/-- A character that a document may hold. -/
def isAllowed (c : Char) : Bool :=
  let n := c.toNat
  n == 9 || n == 10 || n == 13 || (0x20 ≤ n && n ≤ 0x7E) || n == 0x85
    || (0xA0 ≤ n && n ≤ 0xD7FF) || (0xE000 ≤ n && n ≤ 0xFFFD) || 0x10000 ≤ n

/-- The first character that a document may not hold, and where it stands. -/
def firstRefused? : (position : Nat) → List Char → Option (Char × Nat)
  | _, [] => none
  | position, c :: rest =>
    if isAllowed c then firstRefused? (position + 1) rest else some (c, position)

/-- The node graph of a text; nothing if the text holds no document. -/
def graph (text : List Char) : Except Failure (Option Graph) :=
  match firstRefused? 0 text with
  | some (c, position) => .error (.fault (.unacceptable c position))
  | none => Graph.ofEvents (Grammar.ofTokens (Layout.tokens text))

/-- The value of a text.  A text without a document is null. -/
def load (keys : Keys) (text : List Char) : Except Failure Value := do
  match ← graph text with
  | some graph => graph.value keys
  | none => return .null

end ContentCatalog.Yaml
