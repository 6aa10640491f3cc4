import Lockstep.Calendar
import Lockstep.Number.BigDecimal

/-!
Host values, and the documents they are encoded into. JSON data is the part of this type made of null,
booleans, numbers, texts, lists and dictionaries with text keys.
-/

namespace Lockstep

/-- Values with no parts that a walk could descend into. -/
inductive Atom where
  | date (d : Date)
  | time (t : TimeOfDay)
  | dateTime (d : DateTime)
  | duration (d : Duration)
  | decimal (d : BigDecimal)
  | fraction (q : Rat)
  | complex (re im : Binary64)
  | uuid (text : String)
  | pattern (text : String)
  deriving DecidableEq

/-- The kinds of sequences whose items are values. A named tuple has a class and names for its items. -/
inductive SequenceKind where
  | list
  | tuple
  | deque
  | range
  | named (cls : String) (fields : List String)
  deriving DecidableEq

/-- A class of records: what it derives from, and how its fields are encoded. -/
structure RecordClass where
  name : String
  ancestors : List String := []
  /-- Fields that are encoded under another name. -/
  renamed : List (String × String) := []
  /-- Fields that are never encoded. -/
  hidden : List String := []
  deriving DecidableEq

/-- The name a field is encoded under, if it is encoded at all. -/
def RecordClass.encodedName? (cls : RecordClass) (field : String) : Option String :=
  if cls.hidden.contains field then none else some ((cls.renamed.lookup field).getD field)

/-- A value that has no encoding. `shared` holds if every mention of it is one and the same object. -/
structure Foreign where
  name : String
  qualifiedName : String
  shared : Bool
  deriving DecidableEq

/-- Containers that hold themselves: the list `[1, itself]` and the dictionary that maps `"a"` to 1 and
`"self"` to itself. -/
inductive Knot where
  | list
  | dict
  deriving DecidableEq

inductive Value where
  | null
  | bool (b : Bool)
  | int (n : Int)
  | float (x : Binary64)
  | text (s : String)
  | bytes (writable : Bool) (data : List UInt8)
  | atom (a : Atom)
  | sequence (kind : SequenceKind) (items : List Value)
  | set (frozen : Bool) (items : List Value)
  | dict (entries : List (Value × Value))
  | member (cls name : String) (value : Value)
  | record (cls : RecordClass) (fields : List (String × Value))
  | foreign (object : Foreign)
  | knot (k : Knot)

instance : Inhabited Value := ⟨.null⟩

namespace Value

@[match_pattern] abbrev list (items : List Value) : Value := .sequence .list items

/-- The dictionary with these text keys. -/
def object (fields : List (String × Value)) : Value := .dict (fields.map fun (k, v) => (.text k, v))

end Value

def Atom.typeName : Atom → String
  | .date _ => "date"
  | .time _ => "time"
  | .dateTime _ => "datetime"
  | .duration _ => "timedelta"
  | .decimal _ => "Decimal"
  | .fraction _ => "Fraction"
  | .complex .. => "complex"
  | .uuid _ => "UUID"
  | .pattern _ => "Pattern"

def SequenceKind.typeName : SequenceKind → String
  | .list => "list"
  | .tuple => "tuple"
  | .deque => "deque"
  | .range => "range"
  | .named cls _ => cls

namespace Value

/-- The name of a value's type, as messages give it. -/
def typeName : Value → String
  | .null => "NoneType"
  | .bool _ => "bool"
  | .int _ => "int"
  | .float _ => "float"
  | .text _ => "str"
  | .bytes writable _ => if writable then "bytearray" else "bytes"
  | .atom a => a.typeName
  | .sequence kind _ => kind.typeName
  | .set frozen _ => if frozen then "frozenset" else "set"
  | .dict _ => "dict"
  | .member cls .. => cls
  | .record cls _ => cls.name
  | .foreign object => object.name
  | .knot .list => "list"
  | .knot .dict => "dict"

/-- The names of the types a value is an instance of, from its own to the most general. -/
def typeNames (v : Value) : List String :=
  let wider := match v with
    | .bool _ => ["int"]
    | .atom (.dateTime _) => ["date"]
    | .sequence (.named ..) _ => ["tuple"]
    | .record cls _ => cls.ancestors
    | _ => []
  v.typeName :: wider ++ ["object"]

def isInstance (v : Value) (type : String) : Bool := v.typeNames.contains type

/-- The items of a value that counts as an array: any sequence, writable bytes as numbers included. -/
def items? : Value → Option (List Value)
  | .sequence _ items => some items
  | .bytes true data => some (data.map fun b => .int b.toNat)
  | .knot .list => some [.int 1, .knot .list]
  | _ => none

/-- The entries of a value that counts as an object. -/
def entries? : Value → Option (List (Value × Value))
  | .dict entries => some entries
  | .knot .dict => some [(.text "a", .int 1), (.text "self", .knot .dict)]
  | _ => none

def isArray (v : Value) : Bool := v.items?.isSome

def isObject (v : Value) : Bool := v.entries?.isSome

end Value

end Lockstep
