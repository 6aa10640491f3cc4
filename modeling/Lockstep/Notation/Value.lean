import Lockstep.Notation.Classes
import Lockstep.Number.Layout
import Lockstep.Text.Quoted
import Lockstep.Value.Equality

/-!
Host values written as JSON data. Null, booleans, texts, small integers, arrays and objects stand for
themselves; an object with the key `$` is a value of the kind that the key names.
-/

namespace Lockstep.Notation

/-- The integers that are written as they are. -/
def isSmall (n : Int) : Bool := n.natAbs ≤ Nat.pow 2 53

abbrev Fields := List (Value × Value)

namespace Fields

def get? (fields : Fields) (name : String) : Option Value := Value.findEntry? fields (.text name)

def text? (fields : Fields) (name : String) : Option String :=
  match fields.get? name with
  | some (.text s) => some s
  | _ => none

def nat? (fields : Fields) (name : String) : Option Nat :=
  match fields.get? name with
  | some (.int (.ofNat n)) => some n
  | _ => none

def items? (fields : Fields) (name : String) : Option (List Value) :=
  match fields.get? name with
  | some (.sequence .list items) => some items
  | _ => none

def ints? (fields : Fields) (name : String) : Option (List Int) :=
  (fields.items? name).bind fun items => items.mapM fun
    | .int n => some n
    | _ => none

def nats? (fields : Fields) (name : String) : Option (List Nat) :=
  (fields.ints? name).map fun ns => ns.map Int.toNat

def float? (fields : Fields) (name : String) : Option Binary64 :=
  match fields.get? name with
  | some (.float x) => some x
  | some (.int n) => some (.ofRat n)
  | _ => none

end Fields

def intOfText? (s : String) : Option Int :=
  let (sign, digits) := Numeral.takeSign s.toList
  (natOfDigits? 10 digits).map fun n => if sign == some true then -(n : Int) else n

/-- The bytes written with two hexadecimal digits each. -/
def bytesOfHex? : List Char → Option (List UInt8)
  | a :: b :: rest => do
    let n ← natOfDigits? 16 [a, b]
    let bytes ← bytesOfHex? rest
    pure (UInt8.ofNat n :: bytes)
  | [] => some []
  | [_] => none

def hexOfBytes (data : List UInt8) : String := String.ofList (data.flatMap fun b => hexDigits 2 b.toNat)

/-- The usual text of an identifier of 32 hexadecimal digits: five groups joined with hyphens. -/
def uuidText? (s : String) : Option String :=
  let digits := lowerAscii (s.toList.filter fun c => (digitValue? 16 c).isSome)
  let group (start length : Nat) := String.ofList ((digits.drop start).take length)
  if digits.length = 32 then
    some ("-".intercalate [group 0 8, group 8 4, group 12 4, group 16 4, group 20 12])
  else none

def timeOf (parts : List Nat) : TimeOfDay :=
  ⟨parts.getD 0 0, parts.getD 1 0, parts.getD 2 0, parts.getD 3 0⟩

def dateOf? (parts : List Nat) : Option Date :=
  match parts with
  | year :: month :: day :: _ => some ⟨year, month, day⟩
  | _ => none

/-- The list or dictionary that holds a value the given number of levels down. -/
def nest (key : Value) : Nat → Value → Value
  | 0, leaf => leaf
  | depth + 1, leaf => match key with
    | .null => .list [nest key depth leaf]
    | key => .dict [(key, nest key depth leaf)]

/-- The instance of a class with the given fields, in the order of their declaration. -/
def instance? (cls : String) (fields : Fields) : Option Value :=
  match records.find? fun entry => entry.cls.name == cls, namedTuples.lookup cls with
  | some entry, _ => some (.record entry.cls (entry.fields.filterMap fun f => (fields.get? f).map (f, ·)))
  | none, some names => some (.sequence (.named cls names) (names.filterMap fields.get?))
  | none, none => none

/-- The value of a written kind, from fields that have been read already. -/
def ofTag? (fields : Fields) (tag : String) : Option Value :=
  match tag with
  | "int" => ((fields.text? "value").bind intOfText?).map .int
  | "float" => ((fields.text? "value").bind Binary64.ofText?).map .float
  | "dict" => do
    let items ← fields.items? "items"
    let entries ← items.mapM fun
      | .sequence .list [k, v] => some (k, v)
      | _ => none
    pure (Value.dictOf entries)
  | "tuple" => (fields.items? "items").map (.sequence .tuple)
  | "deque" => (fields.items? "items").map (.sequence .deque)
  | "set" => (fields.items? "items").map (.set false)
  | "frozenset" => (fields.items? "items").map (.set true)
  | "bytes" => (fields.text? "hex").bind fun s => (bytesOfHex? s.toList).map (.bytes false)
  | "bytearray" => (fields.text? "hex").bind fun s => (bytesOfHex? s.toList).map (.bytes true)
  | "date" => (fields.nats? "parts").bind fun parts => (dateOf? parts).map fun d => .atom (.date d)
  | "time" => (fields.nats? "parts").map fun parts => .atom (.time (timeOf parts))
  | "datetime" => do
    let parts ← fields.nats? "parts"
    let date ← dateOf? parts
    let offset := match fields.get? "offset_seconds" with
      | some (.int n) => some n
      | _ => none
    pure (.atom (.dateTime ⟨date, timeOf (parts.drop 3), offset⟩))
  | "timedelta" => (fields.ints? "parts").map fun parts =>
    .atom (.duration (.ofParts (parts.getD 0 0) (parts.getD 1 0) (parts.getD 2 0)))
  | "decimal" => ((fields.text? "value").bind BigDecimal.ofText?).map fun d => .atom (.decimal d)
  | "fraction" => (fields.ints? "parts").bind fun parts => match parts with
    | [num, den] => some (.atom (.fraction (num / den : Rat)))
    | _ => none
  | "complex" => do
    let re ← fields.float? "re"
    let im ← fields.float? "im"
    pure (.atom (.complex re im))
  | "uuid" => ((fields.text? "value").bind uuidText?).map fun s => .atom (.uuid s)
  | "pattern" => (fields.text? "value").map fun s => .atom (.pattern s)
  | "enum" => (fields.text? "member").bind fun name =>
    (colors.lookup name).map fun v => .member "Color" name v
  | "obj" => match fields.text? "class", fields.get? "fields" with
    | some cls, some (.dict values) => instance? cls values
    | _, _ => none
  | "opaque" => (fields.text? "kind").bind fun kind =>
    if kind = "range" then some (.sequence .range [.int 0, .int 1, .int 2])
    else (foreigners.find? fun f => f.name == kind).map .foreign
  | "cycle" => (fields.text? "of").bind fun kind =>
    if kind = "list" then some (.knot .list) else if kind = "dict" then some (.knot .dict) else none
  | "nest" => do
    let depth ← fields.nat? "depth"
    let leaf ← fields.get? "leaf"
    pure (nest ((fields.get? "key").getD .null) depth leaf)
  | "fill" => do
    let count ← fields.nat? "count"
    let item ← fields.get? "item"
    pure (.list (List.replicate count item))
  | _ => none

def ofFields? (fields : Fields) : Option Value :=
  match fields.get? "$" with
  | none => some (.dict fields)
  | some (.text tag) => ofTag? fields tag
  | some _ => none

mutual

/-- The value that a document writes down. -/
def value? : Value → Option Value
  | .dict entries => (entryValues? entries).bind ofFields?
  | .sequence _ items => (itemValues? items).map .list
  | v => some v

def itemValues? : List Value → Option (List Value)
  | [] => some []
  | x :: xs => do
    let first ← value? x
    let rest ← itemValues? xs
    pure (first :: rest)

def entryValues? : List (Value × Value) → Option Fields
  | [] => some []
  | (k, v) :: es => do
    let first ← value? v
    let rest ← entryValues? es
    pure ((k, first) :: rest)

end

def tagged (tag : String) (fields : List (String × Value)) : Value := .object (("$", .text tag) :: fields)

def ofInt (n : Int) : Value :=
  if isSmall n then .int n else tagged "int" [("value", .text (toString n))]

def ofFloat (x : Binary64) : Value := tagged "float" [("value", .text (NumberLayout.plain.text x))]

def partsOf (parts : List Int) : String × Value := ("parts", .list (parts.map .int))

def timeParts (t : TimeOfDay) : List Int := [t.hour, t.minute, t.second, t.microsecond]

def dateParts (d : Date) : List Int := [d.year, d.month, d.day]

def ofAtom : Atom → Value
  | .date d => tagged "date" [partsOf (dateParts d)]
  | .time t => tagged "time" [partsOf (timeParts t)]
  | .dateTime d => tagged "datetime" (partsOf (dateParts d.date ++ timeParts d.time) ::
      (match d.offset with | some s => [("offset_seconds", .int s)] | none => []))
  | .duration d =>
    let seconds := d.microseconds.fdiv 1000000
    tagged "timedelta" [partsOf [seconds.fdiv 86400, seconds.fmod 86400, d.microseconds.fmod 1000000]]
  | .decimal d => tagged "decimal" [("value", .text d.text)]
  | .fraction q => tagged "fraction" [partsOf [q.num, q.den]]
  | .complex re im => tagged "complex" [("re", ofFloat re), ("im", ofFloat im)]
  | .uuid text => tagged "uuid" [("value", .text text)]
  | .pattern text => tagged "pattern" [("value", .text text)]

/-- Whether entries can be written as the entries of an object. -/
def isPlain (entries : Fields) : Bool :=
  entries.all fun (k, _) => match k with
    | .text s => s != "$"
    | _ => false

/-- The written form of a dictionary whose entries have been written already. -/
def ofEntries (entries written : Fields) : Value :=
  if isPlain entries then .dict ((entries.map (·.1)).zip (written.map (·.2)))
  else tagged "dict" [("items", .list (written.map fun (k, v) => .list [k, v]))]

mutual

/-- How a value is written down. -/
def ofValue : Value → Value
  | .null => .null
  | .bool b => .bool b
  | .int n => ofInt n
  | .float x => ofFloat x
  | .text s => .text s
  | .bytes writable data =>
    tagged (if writable then "bytearray" else "bytes") [("hex", .text (hexOfBytes data))]
  | .atom a => ofAtom a
  | .sequence kind items => match kind with
    | .list => .list (ofItems items)
    | .tuple => tagged "tuple" [("items", .list (ofItems items))]
    | .deque => tagged "deque" [("items", .list (ofItems items))]
    | .range => tagged "opaque" [("kind", .text "range")]
    | .named cls names =>
      tagged "obj" [("class", .text cls), ("fields", .object (names.zip (ofItems items)))]
  | .set frozen items => tagged (if frozen then "frozenset" else "set") [("items", .list (ofItems items))]
  | .dict entries => ofEntries entries (ofPairs entries)
  | .member _ name _ => tagged "enum" [("member", .text name)]
  | .record cls fields => tagged "obj" [("class", .text cls.name), ("fields", .object (ofNamed fields))]
  | .foreign object => tagged "opaque" [("kind", .text object.name)]
  | .knot .list => tagged "cycle" [("of", .text "list")]
  | .knot .dict => tagged "cycle" [("of", .text "dict")]

def ofItems : List Value → List Value
  | [] => []
  | x :: xs => ofValue x :: ofItems xs

def ofPairs : List (Value × Value) → Fields
  | [] => []
  | (k, v) :: es => (ofValue k, ofValue v) :: ofPairs es

def ofNamed : List (String × Value) → List (String × Value)
  | [] => []
  | (f, v) :: fs => (f, ofValue v) :: ofNamed fs

end

end Lockstep.Notation
