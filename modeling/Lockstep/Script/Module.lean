import Lockstep.Notation.Script
import Lockstep.Json.Read

/-!
Modules: files that define attributes, each a value or a program. Executing a module defines them in order. It
may raise on the way, and it may change which names the registry of modules holds, as an import does.
-/

namespace Lockstep

/-- What a name in a module stands for. -/
inductive Attribute where
  | value (v : Value)
  | program (p : Program)

namespace Program

def stepClass : RecordClass := { name := "Step", ancestors := ["Program"] }

/-- A function that a program holds, seen as a value. -/
def function : Value := .foreign ⟨"function", "function", false⟩

def instructionValue (name : String) (fields : List (String × Value)) : Value :=
  .record stepClass [("instruction", .record { name := name } fields)]

mutual

/-- A program seen as a host value: a record of its parts. -/
def toValue : Program → Value
  | .done result => .record { name := "Done", ancestors := ["Program"] } [("result", result)]
  | .descend segment _ shape _ =>
    let (name, place) := match segment with
      | .key name => ("DescendByKey", ("name", Value.text name))
      | .index position => ("DescendByIndex", ("position", Value.int position))
    let shape := match shape with
      | some _ => Value.foreign ⟨"type", "type", true⟩
      | none => .null
    instructionValue name [place, ("project", function), ("continuation", function), ("shape", shape)]
  | .check _ next => instructionValue "Assert" [("predicate", function), ("continuation", toValue next)]
  | .terminate => instructionValue "Terminate" []
  | .all members =>
    .record { name := "All", ancestors := ["Program"] } [("programs", .sequence .tuple (toValues members))]
  | .blank => .foreign ⟨"Program", "json_assertions.program.Program", false⟩
  | .stray instruction => .record stepClass [("instruction", instruction)]
  | .foreign v => v

def toValues : List Program → List Value
  | [] => []
  | p :: ps => toValue p :: toValues ps

end

end Program

namespace Attribute

/-- What stands in the place of a program is only a program if it is one. -/
def ofProgram : Program → Attribute
  | .foreign v => .value v
  | p => .program p

def toValue : Attribute → Value
  | .value v => v
  | .program p => p.toValue

end Attribute

/-- The names under which modules are registered. -/
abbrev Registry := List String

namespace Registry

def add (name : String) (names : Registry) : Registry := names.insert name

def remove (name : String) (names : Registry) : Registry := names.filter (· ≠ name)

end Registry

namespace Script

inductive Definition where
  | value (v : Value)
  | program (p : Spec)
  /-- Whether a name is registered. -/
  | registered (name : String)

/-- One line of a module. -/
inductive Line where
  | define (name : String) (d : Definition)
  /-- Register a name, as importing another module does. -/
  | register (name : String)
  | unregister (name : String)
  | raise (text : String)

/-- A module as it is written. -/
abbrev Source := List Line

def Definition.attribute (names : Registry) : Definition → Except Fault Attribute
  | .value v => .ok (.value v)
  | .program p => (build .empty p).map .ofProgram
  | .registered name => .ok (.value (.bool (names.contains name)))

/-- Executes the lines of a module behind others: its attributes, the last definition first, unless a line
raises, and the names that are registered then. -/
def Source.executeFrom (attributes : List (String × Attribute)) (names : Registry) :
    Source → Except Fault (List (String × Attribute)) × Registry
  | [] => (.ok attributes, names)
  | .define name d :: lines => match d.attribute names with
    | .ok a => executeFrom ((name, a) :: attributes) names lines
    | .error fault => (.error fault, names)
  | .register name :: lines => executeFrom attributes (names.add name) lines
  | .unregister name :: lines => executeFrom attributes (names.remove name) lines
  | .raise text :: _ => (.error (.moduleBody text), names)

def Source.execute (source : Source) (names : Registry) : Except Fault (List (String × Attribute)) × Registry :=
  source.executeFrom [] names

end Script

namespace Notation

open Script

def definition? (doc : Value) : Option Definition :=
  match part? doc "program", textPart? doc "registered" with
  | some p, _ => (spec? p.1).map .program
  | none, some name => some (.registered name)
  | none, none => (valuePart? doc "value").map .value

def line? (doc : Value) : Option Line :=
  match textPart? doc "define", textPart? doc "register", textPart? doc "unregister" with
  | some name, _, _ => (definition? doc).map (.define name)
  | none, some name, _ => some (.register name)
  | none, none, some name => some (.unregister name)
  | none, none, none => (textPart? doc "raise").map .raise

def definitions? (doc : Value) : Option Source :=
  match doc with
  | .dict entries => entries.mapM fun (name, d) => match name with
    | .text name => (definition? d).map (.define name)
    | _ => none
  | _ => none

/-- The module that a document writes down, line by line or by its attributes. -/
def source? (doc : Value) : Option Source :=
  match part? doc "lines", part? doc "attrs" with
  | some lines, _ => (parts? lines.1).bind fun lines => lines.mapM fun line => line? line.1
  | none, some attrs => (definitions? attrs.1).map (· ++ raised)
  | none, none => some raised
where
  raised : Source := ((textPart? doc "raise").map .raise).toList

/-- The module that a file of these bytes holds. -/
def sourceOfBytes? (data : List UInt8) : Option Source := (Json.ofBytes? data).bind source?

end Notation

end Lockstep
