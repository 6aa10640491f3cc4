import Lockstep.Yaml.Tag
import Lockstep.Yaml.Tokens

/-!
The node graph of a YAML document. Nodes refer to each other by number, so that an alias is a second
reference to one node, and a collection may hold itself.
-/

namespace Lockstep.Yaml

abbrev NodeId := Nat

inductive Content where
  | scalar (text : String)
  | sequence (items : List NodeId)
  | mapping (entries : List (NodeId × NodeId))

structure Node where
  tag : Tag
  content : Content

instance : Inhabited Node := ⟨.null, .scalar ""⟩

abbrev Graph := Array Node

def Graph.node (g : Graph) (id : NodeId) : Node := g.getD id default

/-- What remains to be read of a document, with the nodes and anchors found so far. -/
structure GraphState where
  tokens : List Token
  defect? : Option Defect
  handles : List (String × String)
  nodes : Graph
  anchors : List (String × NodeId)

abbrev GraphM := StateT GraphState (Except Defect)

namespace GraphM

def malformed {α : Type} : GraphM α := throw .malformed

/-- The next token; none at the end. What is asked for after the last token that could be read is a
defect. -/
def peek : GraphM (Option Token) := do
  let s ← get
  match s.tokens, s.defect? with
  | t :: _, _ => pure (some t)
  | [], none => pure none
  | [], some d => throw d

def skip : GraphM Unit := modify fun s => { s with tokens := s.tokens.drop 1 }

/-- Whether the next token is one of these; the end is none of them. -/
def next (ts : List Token) : GraphM Bool := do
  match ← peek with
  | some t => pure (ts.contains t)
  | none => pure false

/-- Past the given token if it is next. -/
def accept (t : Token) : GraphM Bool := do
  if ← next [t] then
    skip
    pure true
  else pure false

/-- Past the given token, which must be next. -/
def expect (t : Token) : GraphM Unit := do
  unless ← accept t do malformed

/-- A new node whose content is not known yet; its anchor can be referred to from now on. -/
def reserve (anchor : Option String) : GraphM NodeId := do
  let s ← get
  let id := s.nodes.size
  let anchors ← match anchor with
    | none => pure s.anchors
    | some name => if (s.anchors.lookup name).isSome then malformed else pure ((name, id) :: s.anchors)
  set { s with nodes := s.nodes.push default, anchors := anchors }
  pure id

def define (id : NodeId) (tag : Tag) (content : Content) : GraphM NodeId := do
  modify fun s => { s with nodes := s.nodes.setIfInBounds id ⟨tag, content⟩ }
  pure id

/-- The tag of a node: a written one, or one by the kind of the node. -/
def tagOr (written : Option String) (default : Tag) : Tag :=
  match written with
  | none => default
  | some name => if name = "!" then default else .ofName name

def scalarNode (anchor written : Option String) (text : String) (plain : Bool) : GraphM NodeId := do
  let id ← reserve anchor
  define id (tagOr written (if plain || written.isSome then .ofPlain text else .str)) (.scalar text)

/-- The node for a value that is not written. -/
def emptyNode : GraphM NodeId := scalarNode none none "" true

/-- The name of a tag with its handle resolved. -/
def tagName (handle : Option String) (suffix : String) : GraphM String := do
  match handle with
  | none => pure suffix
  | some handle => match (← get).handles.lookup handle with
    | some start => pure (start ++ suffix)
    | none => malformed

def anchorPart : GraphM (Option String) := do
  match ← peek with
  | some (.anchor name) => skip; pure (some name)
  | _ => pure none

def tagPart : GraphM (Option (Option String × String)) := do
  match ← peek with
  | some (.tag handle suffix) => skip; pure (some (handle, suffix))
  | _ => pure none

/-- An anchor and a tag in either order, each at most once. -/
def properties : GraphM (Option String × Option String) := do
  let first ← anchorPart
  let tag ← tagPart
  let anchor ← match first, tag with
    | none, some _ => anchorPart
    | first, _ => pure first
  match tag with
  | none => pure (anchor, none)
  | some (handle, suffix) => pure (anchor, some (← tagName handle suffix))

/-- Where a node stands, which decides what collections can begin there. -/
inductive Place where
  | flow
  | block
  /-- The key or value of a block mapping, where a sequence need not be indented. -/
  | entry
  deriving DecidableEq

mutual

def node (place : Place) : Nat → GraphM NodeId
  | 0 => malformed
  | fuel + 1 => do
    match ← peek with
    | some (.alias name) =>
      skip
      match (← get).anchors.lookup name with
      | some id => pure id
      | none => malformed
    | _ => do
      let (anchor, tag) ← properties
      let token ← peek
      if place = .entry && token = some .blockEntry then do
        let id ← reserve anchor
        define id (tagOr tag .seq) (.sequence (← looseEntries fuel))
      else match token with
        | some (.scalar text plain) =>
          skip
          scalarNode anchor tag text plain
        | some .flowSequence =>
          skip
          let id ← reserve anchor
          define id (tagOr tag .seq) (.sequence (← flowItems true fuel))
        | some .flowMapping =>
          skip
          let id ← reserve anchor
          define id (tagOr tag .map) (.mapping (← flowEntries true fuel))
        | token =>
          if token = some .blockSequence && place ≠ .flow then do
            skip
            let id ← reserve anchor
            define id (tagOr tag .seq) (.sequence (← blockItems fuel))
          else if token = some .blockMapping && place ≠ .flow then do
            skip
            let id ← reserve anchor
            define id (tagOr tag .map) (.mapping (← blockEntries fuel))
          else if anchor.isSome || tag.isSome then scalarNode anchor tag "" true
          else malformed

/-- A node, unless one of the tokens that may follow it comes at once. -/
def nodeBefore (place : Place) (ends : List Token) : Nat → GraphM NodeId
  | 0 => malformed
  | fuel + 1 => do if ← next ends then emptyNode else node place fuel

/-- The items of an indented sequence, to the end of the block. -/
def blockItems : Nat → GraphM (List NodeId)
  | 0 => malformed
  | fuel + 1 => do
    if ← accept .blockEntry then
      let item ← nodeBefore .block [.blockEntry, .blockEnd] fuel
      pure (item :: (← blockItems fuel))
    else
      expect .blockEnd
      pure []

/-- The items of a sequence that is not indented; nothing ends it but what cannot belong to it. -/
def looseEntries : Nat → GraphM (List NodeId)
  | 0 => malformed
  | fuel + 1 => do
    if ← accept .blockEntry then
      let item ← nodeBefore .block [.blockEntry, .key, .value, .blockEnd] fuel
      pure (item :: (← looseEntries fuel))
    else pure []

def blockEntries : Nat → GraphM (List (NodeId × NodeId))
  | 0 => malformed
  | fuel + 1 => do
    if ← accept .key then
      let key ← nodeBefore .entry [.key, .value, .blockEnd] fuel
      let value ← if ← accept .value then nodeBefore .entry [.key, .value, .blockEnd] fuel else emptyNode
      pure ((key, value) :: (← blockEntries fuel))
    else
      expect .blockEnd
      pure []

/-- The items of a sequence in brackets. A key in it stands for a mapping of one entry. -/
def flowItems (first : Bool) : Nat → GraphM (List NodeId)
  | 0 => malformed
  | fuel + 1 => do
    if ← accept .flowSequenceEnd then pure []
    else
      unless first do expect .flowEntry
      if ← accept .key then
        let id ← reserve none
        let key ← nodeBefore .flow [.value, .flowEntry, .flowSequenceEnd] fuel
        let value ← if ← accept .value then nodeBefore .flow [.flowEntry, .flowSequenceEnd] fuel
          else emptyNode
        let item ← define id .map (.mapping [(key, value)])
        pure (item :: (← flowItems false fuel))
      else if ← accept .flowSequenceEnd then pure []
      else
        let item ← node .flow fuel
        pure (item :: (← flowItems false fuel))

def flowEntries (first : Bool) : Nat → GraphM (List (NodeId × NodeId))
  | 0 => malformed
  | fuel + 1 => do
    if ← accept .flowMappingEnd then pure []
    else
      unless first do expect .flowEntry
      if ← accept .key then
        let key ← nodeBefore .flow [.value, .flowEntry, .flowMappingEnd] fuel
        let value ← if ← accept .value then nodeBefore .flow [.flowEntry, .flowMappingEnd] fuel
          else emptyNode
        pure ((key, value) :: (← flowEntries false fuel))
      else if ← accept .flowMappingEnd then pure []
      else
        let key ← node .flow fuel
        let value ← emptyNode
        pure ((key, value) :: (← flowEntries false fuel))

end

def standardHandles : List (String × String) := [("!", "!"), ("!!", standardPrefix)]

/-- The directives before a document: one version, which must be 1, and handles, each once. -/
def directives : Nat → Bool → List (String × String) → GraphM (List (String × String))
  | 0, _, _ => malformed
  | fuel + 1, versioned, handles => do
    match ← peek with
    | some (.directive d) =>
      skip
      match d with
      | .version major _ => if versioned || major ≠ 1 then malformed else directives fuel true handles
      | .tagHandle handle start =>
        if (handles.lookup handle).isSome then malformed
        else directives fuel versioned ((handle, start) :: handles)
      | .other => directives fuel versioned handles
    | _ => pure handles

/-- The root of the only document of a text, if there is a document. -/
def document (fuel : Nat) : GraphM (Option NodeId) := do
  let root ← match ← peek with
    | none => pure none
    | some (.directive _) => some <$> explicit
    | some .documentStart => some <$> explicit
    | some _ => some <$> node .block fuel
  endings fuel
  pure root
where
  explicit : GraphM NodeId := do
    let handles ← directives fuel false []
    modify fun s => { s with handles := handles ++ standardHandles }
    expect .documentStart
    match ← peek with
    | none => emptyNode
    | some (.directive _) => emptyNode
    | _ => nodeBefore .block [.documentStart, .documentEnd] fuel
  /-- Nothing but marks of the document's end may follow it. -/
  endings : Nat → GraphM Unit
    | 0 => malformed
    | fuel + 1 => do
      if ← accept .documentEnd then endings fuel
      else if (← peek).isSome then malformed

end GraphM

/-- The graph of a text's only document and its root, if the text holds a document. -/
def graphOf (tokens : Tokens) : Except Defect (Graph × Option NodeId) :=
  let start : GraphState := ⟨tokens.read, tokens.defect?, GraphM.standardHandles, #[], []⟩
  ((GraphM.document (4 * tokens.read.length + 8)).run start).map fun (root, s) => (s.nodes, root)

end Lockstep.Yaml
