import Lockstep.Text.Base64
import Lockstep.Text.Digit
import Lockstep.Value.Equality
import Lockstep.Yaml.Graph

/-!
The data of a YAML document. The nodes of a graph are given values level by level, in the order in which
they can be reached from the root; that order decides which of several defects is reported.
-/

namespace Lockstep.Yaml

/-- An integer as digits of a base, with blanks around it, a sign, and the mark of the base allowed. The number of
decimal digits is limited. -/
def looseInt? (base : Nat) (cs : List Char) : Option Int :=
  let (sign, digits) := Numeral.takeSign (trimBlanks (cs.map basicForm))
  let digits := match digits with
    | '0' :: mark :: rest =>
      if (base = 2 ∧ mark.toLower = 'b') ∨ (base = 8 ∧ mark.toLower = 'o') ∨ (base = 16 ∧ mark.toLower = 'x')
      then rest else digits
    | digits => digits
  if base = 10 ∧ digitLimit < digits.length then none
  else (natOfDigits? base digits).map fun n => if sign = some true then -(n : Int) else n

/-- The number with these groups in base sixty. -/
def ofSixties (groups : List Int) : Int := groups.foldl (fun n d => n * 60 + d) 0

def signed (negative : Bool) (n : Int) : Int := if negative then -n else n

def withoutUnderscores (s : String) : List Char := s.toList.filter (· ≠ '_')

def looseFloat? (cs : List Char) : Option Binary64 := Binary64.ofChars? (cs.map basicForm)

def intOf (s : String) : Except Defect Int :=
  let cs := withoutUnderscores s
  let negative := cs.head? = some '-'
  let digits := withoutSign cs
  let read : Option Int :=
    if digits = ['0'] then some 0
    else match digits with
      | '0' :: 'b' :: rest => looseInt? 2 rest
      | '0' :: 'x' :: rest => looseInt? 16 rest
      | '0' :: _ => looseInt? 8 digits
      | _ =>
        if digits.contains ':' then ((colonParts digits).mapM (looseInt? 10)).map ofSixties
        else looseInt? 10 digits
  if digits.isEmpty then .error (.scalar .emptyNumber)
  else match read with
    | some n => .ok (signed negative n)
    | none => .error (.scalar .malformedNumber)

/-- The sum of groups in base sixty, the last one first, each weighed with a power of sixty. -/
def sumSixties (base : Nat) (sum : Binary64) : List Binary64 → Except Defect Binary64
  | [] => .ok sum
  | d :: rest =>
    if Nat.pow 2 1024 ≤ base then .error (.scalar .overflow)
    else sumSixties (base * 60) (sum + d * .ofNat base) rest

def floatOf (s : String) : Except Defect Binary64 := do
  let cs := lowerAscii (withoutUnderscores s)
  if cs.isEmpty then throw (.scalar .emptyNumber)
  let body := withoutSign cs
  let x ←
    if body = ".inf".toList then pure (.infinite false)
    else if body = ".nan".toList then pure .nan
    else if body.contains ':' then
      match (colonParts body).mapM looseFloat? with
      | some groups => sumSixties 1 (.ofNat 0) groups.reverse
      | none => throw (.scalar .malformedNumber)
    else match looseFloat? body with
      | some x => pure x
      | none => throw (.scalar .malformedNumber)
  pure (if cs.head? = some '-' then -x else x)

def timestampOf (s : String) : Except Defect Value :=
  match Timestamp.ofChars? (withoutLastBreak s).toList with
  | none => .error (.scalar .malformedTimestamp)
  | some t => match t.moment? with
    | none => .error (.scalar .impossibleDate)
    | some (.inl d) => .ok (.atom (.date d))
    | some (.inr d) => .ok (.atom (.dateTime d))

def binaryOf (s : String) : Except Defect Value :=
  if s.toList.any fun c => 0x80 ≤ c.toNat then .error .malformed
  else match bytesOfBase64? s.toList with
    | some data => .ok (.bytes false data)
    | none => .error .malformed

/-- The value of a scalar with the text, for the tags that have scalars; `none` for other tags. -/
def scalarOf? (tag : Tag) (s : String) : Option (Except Defect Value) :=
  match tag with
  | .null => some (.ok .null)
  | .bool => some (match booleans.lookup (s.map Char.toLower) with
    | some b => .ok (.bool b)
    | none => .error (.scalar .unknownBoolean))
  | .int => some ((intOf s).map .int)
  | .float => some ((floatOf s).map .float)
  | .binary => some (binaryOf s)
  | .timestamp => some (timestampOf s)
  | .str => some (.ok (.text s))
  | _ => none

def Graph.entries (g : Graph) (id : NodeId) : List (NodeId × NodeId) :=
  match (g.node id).content with
  | .mapping entries => entries
  | _ => []

def Graph.setEntries (g : Graph) (id : NodeId) (entries : List (NodeId × NodeId)) : Graph :=
  g.modify id fun n => { n with content := .mapping entries }

/-- The text of a scalar. For a mapping it is the text of its default value. -/
def Graph.text? (g : Graph) : Nat → NodeId → Option String
  | 0, _ => none
  | fuel + 1, id => match (g.node id).content with
    | .scalar text => some text
    | .mapping entries => match entries.find? fun (k, _) => (g.node k).tag = .value with
      | some (_, v) => g.text? fuel v
      | none => none
    | .sequence _ => none

mutual

/-- Merges into a mapping what its merge keys refer to, from the given entry on. Merged entries come before
the others, so that those win; of several merged mappings the first wins. -/
def mergeFrom : Nat → Graph → NodeId → Nat → List (NodeId × NodeId) → Except Defect Graph
  | 0, _, _, _, _ => .error .malformed
  | fuel + 1, g, id, position, merged => match (g.entries id)[position]? with
    | none => .ok (if merged.isEmpty then g else g.setEntries id (merged ++ g.entries id))
    | some (k, v) => match (g.node k).tag with
      | .merge => do
        let g := g.setEntries id ((g.entries id).eraseIdx position)
        let (g, part) ← match (g.node v).content with
          | .mapping _ => do
            let g ← mergeFrom fuel g v 0 []
            pure (g, g.entries v)
          | .sequence items => mergeItems fuel g items
          | .scalar _ => throw .malformed
        mergeFrom fuel g id position (merged ++ part)
      | .value => mergeFrom fuel (g.modify k fun n => { n with tag := .str }) id (position + 1) merged
      | _ => mergeFrom fuel g id (position + 1) merged

/-- The entries of several mappings to be merged, the last mapping first. -/
def mergeItems : Nat → Graph → List NodeId → Except Defect (Graph × List (NodeId × NodeId))
  | 0, _, _ => .error .malformed
  | _ + 1, g, [] => .ok (g, [])
  | fuel + 1, g, v :: rest => match (g.node v).content with
    | .mapping _ => do
      let g ← mergeFrom fuel g v 0 []
      let part := g.entries v
      let (g, later) ← mergeItems fuel g rest
      pure (g, later ++ part)
    | _ => .error .malformed

end

/-- The data of a node whose parts are known by their nodes. -/
inductive Built where
  | leaf (v : Value)
  | list (items : List NodeId)
  | dict (entries : List (Value × NodeId))
  /-- A list of pairs. -/
  | pairs (entries : List (NodeId × NodeId))
  | set

/-- The graph with the data built so far, and the collections whose parts are still to be built. -/
structure Builder where
  graph : Graph
  built : Array (Option Built)
  pending : List NodeId

abbrev Build := StateT Builder (Except Defect)

namespace Build

def setBuilt (id : NodeId) (b : Built) : Build Unit :=
  modify fun s => { s with built := s.built.setIfInBounds id (some b) }

def isScalarTag (tag : Tag) : Bool := (scalarOf? tag "").isSome

def isCollectionTag (tag : Tag) : Bool :=
  tag = .seq || tag = .map || tag = .set || tag = .omap || tag = .pairs

/-- Gives a node its value, or puts it off if it is a collection. -/
def visit (id : NodeId) : Build Unit := do
  let s ← get
  if (s.built.getD id none).isSome then pure ()
  else
    let tag := (s.graph.node id).tag
    if isCollectionTag tag then
      setBuilt id .set
      modify fun s => { s with pending := id :: s.pending }
    else if isScalarTag tag then
      match s.graph.text? (s.graph.size + 1) id with
      | none => throw .malformed
      | some text => match scalarOf? tag text with
        | some (.ok v) => setBuilt id (.leaf v)
        | some (.error d) => throw d
        | none => throw .malformed
    else throw .malformed

/-- The value of a node that serves as a key; collections cannot. -/
def keyOf (id : NodeId) : Build Value := do
  visit id
  match (← get).built.getD id none with
  | some (.leaf v) => pure v
  | _ => throw .malformed

/-- How many steps merging may take: more than there are entries to go through. -/
def mergeFuel (g : Graph) : Nat :=
  let entries := g.foldl (fun n node => n + match node.content with
    | .mapping entries => entries.length + 1
    | .sequence items => items.length + 1
    | .scalar _ => 1) 1
  entries * entries

/-- The entries of a mapping with merge keys resolved; of equal keys the last value counts. -/
def mappingOf (id : NodeId) : Build (List (Value × NodeId)) := do
  let s ← get
  match (s.graph.node id).content with
  | .mapping _ =>
    let g ← match mergeFrom (mergeFuel s.graph) s.graph id 0 [] with
      | .ok g => pure g
      | .error d => throw d
    modify fun s => { s with graph := g }
    (g.entries id).foldlM (fun entries (k, v) => do
      let key ← keyOf k
      visit v
      pure (Value.insertEntry key v entries)) []
  | _ => throw .malformed

def itemsOf (id : NodeId) : Build (List NodeId) := do
  match ((← get).graph.node id).content with
  | .sequence items => pure items
  | _ => throw .malformed

/-- The only entry of a mapping that stands for a pair. -/
def pairOf (id : NodeId) : Build (NodeId × NodeId) := do
  match ((← get).graph.node id).content with
  | .mapping [(k, v)] =>
    visit k
    visit v
    pure (k, v)
  | _ => throw .malformed

/-- Gives a collection its parts. -/
def expand (id : NodeId) : Build Unit := do
  match ((← get).graph.node id).tag with
  | .seq =>
    let items ← itemsOf id
    items.forM visit
    setBuilt id (.list items)
  | .map => setBuilt id (.dict (← mappingOf id))
  | .set =>
    discard (mappingOf id)
    setBuilt id .set
  | _ => setBuilt id (.pairs (← (← itemsOf id).mapM pairOf))

/-- Expands the collections put off so far in their order, then those they lead to, and so on. -/
def rounds : Nat → Build Unit
  | 0 => throw .malformed
  | fuel + 1 => do
    let s ← get
    if s.pending.isEmpty then pure ()
    else
      set { s with pending := [] }
      s.pending.reverse.forM expand
      rounds fuel

end Build

/-- The greatest number of levels that plain data may have below its root. -/
def levelLimit : Nat := 254

/-- The JSON data that was built at a node, if it is nothing else, is finite and not too deep. -/
def plainAt (built : Array (Option Built)) : Nat → NodeId → Option Value
  | 0, _ => none
  | levels + 1, id => match built.getD id none with
    | some (.leaf v) => match v with
      | .null => some v
      | .bool _ => some v
      | .int _ => some v
      | .float _ => some v
      | .text _ => some v
      | _ => none
    | some (.list items) => (items.mapM fun item => plainAt built levels item).map .list
    | some (.dict entries) =>
      (entries.mapM fun ((k, v) : Value × NodeId) => match k with
        | .text key => (plainAt built levels v).map fun v => (Value.text key, v)
        | _ => none).map .dict
    | some (.pairs []) => some (.list [])
    | _ => none

/-- The data of the document with this root: `none` if it is not plain JSON data. -/
def dataOf (g : Graph) (root : NodeId) : Except Defect (Option Value) := do
  let build : Build Unit := do
    Build.visit root
    Build.rounds (g.size + 2)
  let (_, s) ← build.run ⟨g, Array.replicate g.size none, []⟩
  pure (plainAt s.built (levelLimit + 1) root)

/-- The data of a text that holds at most one document: `none` if it is not plain JSON data. -/
def ofText (s : String) : Except Defect (Option Value) := do
  let cs := normalizeBreaks s.toList
  if !cs.all isPrintable then throw .malformed
  match ← graphOf (tokensOf cs) with
  | (_, none) => pure (some .null)
  | (g, some root) => dataOf g root

end Lockstep.Yaml
