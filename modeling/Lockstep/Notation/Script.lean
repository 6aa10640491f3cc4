import Lockstep.Notation.Value
import Lockstep.Script.Basic

/-!
Scripts written as JSON data. A program is an object whose key `p` names its kind; its other keys hold the
parts of that kind. The parts of a document are smaller than the document, which is why reading ends.
-/

namespace Lockstep.Notation

open Script

/-- A part of a document. -/
abbrev Part (doc : Value) := { v : Value // sizeOf v < sizeOf doc }

theorem sizeOf_lt_of_mem_entries {entries : List (Value × Value)} {e : Value × Value} (h : e ∈ entries) :
    sizeOf e.2 < sizeOf (Value.dict entries) := by
  have := List.sizeOf_lt_of_mem h
  cases e
  simp at this ⊢
  omega

theorem sizeOf_lt_of_mem_items {kind : SequenceKind} {items : List Value} {v : Value} (h : v ∈ items) :
    sizeOf v < sizeOf (Value.sequence kind items) := by
  have := List.sizeOf_lt_of_mem h
  simp
  omega

/-- The part of an object under a key. -/
def part? (doc : Value) (name : String) : Option (Part doc) :=
  match doc with
  | .dict entries =>
    (entries.attach.find? fun e => e.1.1.same (.text name)).map fun e =>
      ⟨e.1.2, sizeOf_lt_of_mem_entries e.2⟩
  | _ => none

/-- The items of an array. -/
def parts? (doc : Value) : Option (List (Part doc)) :=
  match doc with
  | .sequence _ items => some (items.attach.map fun v => ⟨v.1, sizeOf_lt_of_mem_items v.2⟩)
  | _ => none

def textPart? (doc : Value) (name : String) : Option String :=
  match part? doc name with
  | some ⟨.text s, _⟩ => some s
  | _ => none

def valuePart? (doc : Value) (name : String) : Option Value := (part? doc name).bind fun v => value? v.1

def intPart? (doc : Value) (name : String) : Option Int :=
  match valuePart? doc name with
  | some (.int n) => some n
  | some (.bool b) => some (if b then 1 else 0)
  | _ => none

def operation? (doc : Value) : Option Operation := do
  let parts ← parts? doc
  let words : List Value := parts.map fun p => p.1
  match words with
  | [.text "id"] => some .same
  | [.text "const", v] => (value? v).map .const
  | [.text "wrap"] => some .wrap
  | [.text "attr", .text field] => some (.attr field)
  | [.text "item", key] => (value? key).map .item
  | [.text "len"] => some .length
  | [.text "add", n] => match value? n with
    | some (.int n) => some (.add n)
    | _ => none
  | [.text "fail"] => some .fail
  | _ => none

def operations? (doc : Value) : Option (List Operation) :=
  (parts? doc).bind fun parts => parts.mapM fun p => operation? p.1

/-- The operations under a key; none of them if the key is missing. -/
def operationsPart? (doc : Value) (name : String) : Option (List Operation) :=
  match part? doc name with
  | some ops => operations? ops.1
  | none => some []

def encoding? (doc : Value) : Option Encoding :=
  match part? doc "encoder" with
  | none => some .standard
  | some ⟨.null, _⟩ => some .standard
  | some ⟨.text "identity", _⟩ => some .identity
  | some ⟨.text "wrap", _⟩ => some .wrapped
  | some ⟨encoder, _⟩ => (textPart? encoder "drop").map .without

def check? (doc : Value) : Option Check := do
  match ← textPart? doc "check" with
  | "accept" => some .accept
  | "reject" => (textPart? doc "message").map .reject
  | "object" => some .isObject
  | "array" => some .isArray
  | "equals" => (valuePart? doc "value").map .equals
  | "render" => some .render
  | "has_key" => (textPart? doc "name").map .hasKey
  | "has_index" => (intPart? doc "position").map .hasIndex
  | _ => none

def expr? (doc : Value) : Option Expr :=
  match part? doc "lit", part? doc "var", part? doc "of" with
  | some v, _, _ => (value? v.1).map .lit
  | none, some ⟨.text name, _⟩, _ => some (.var name)
  | none, none, some ⟨e, _⟩ => do
    let e ← expr? e
    let ops ← operationsPart? doc "ops"
    pure (.projected e ops)
  | _, _, _ => none
termination_by doc

def exprPart? (doc : Value) (name : String) : Option Expr := (part? doc name).bind fun e => expr? e.1

/-- The shape under a key, if there is one: the name of a class, or of a type in an object of its own. -/
def shapePart? (doc : Value) (name : String) : Option Shape :=
  match part? doc name with
  | some ⟨.text cls, _⟩ => some (.ofClass cls)
  | some ⟨shape, _⟩ => (textPart? shape "untestable").map .ofUntestable
  | none => none

mutual

/-- The program that a document writes down. -/
def spec? (doc : Value) : Option Spec := do
  match ← textPart? doc "p" with
  | "pure" => (exprPart? doc "value").map .done
  | "key" => do
    let name ← textPart? doc "name"
    let ops ← operationsPart? doc "project"
    pure (.key name ops (shapePart? doc "shape"))
  | "nth" => do
    let position ← intPart? doc "position"
    let ops ← operationsPart? doc "project"
    pure (.nth position ops (shapePart? doc "shape"))
  | "assert_equal" => do
    let expected ← exprPart? doc "expected"
    let encoding ← encoding? doc
    pure (.assertEqual expected encoding)
  | "assert_with" => (check? doc).map .assertWith
  | "terminate" => some .terminate
  | "finalize" => (specPart? doc "of").map .finalize
  | "all_of" => (specsPart? doc "of").map .allOf
  | "chain" => (specsPart? doc "of").map .chain
  | "repeat" => do
    let count ← intPart? doc "count"
    let p ← specPart? doc "of"
    let last ← specPart? doc "last"
    pure (.repeated count.toNat p last)
  | "then" => do
    let p ← specPart? doc "first"
    let q ← specPart? doc "next"
    pure (.andThen p q)
  | "bind" => do
    let p ← specPart? doc "of"
    let name ← textPart? doc "as"
    let q ← specPart? doc "do"
    pure (.bind p name q)
  | "map" => do
    let p ← specPart? doc "of"
    let ops ← operationsPart? doc "ops"
    pure (.map p ops)
  | "do" => (statementsPart? doc "steps").map .routine
  | "ref" => (textPart? doc "name").map .stored
  | "value" => (exprPart? doc "value").map .value
  | "base" => some .blank
  | "bad_step" => some (.stray (.text "bogus"))
  | _ => none
termination_by (sizeOf doc, 1)

def specPart? (doc : Value) (name : String) : Option Spec :=
  match part? doc name with
  | some ⟨p, _⟩ => spec? p
  | none => none
termination_by (sizeOf doc, 0)

def specsPart? (doc : Value) (name : String) : Option (List Spec) :=
  match part? doc name with
  | some ⟨ps, _⟩ => (parts? ps).bind fun ps => ps.mapM fun ⟨p, _⟩ => spec? p
  | none => none
termination_by (sizeOf doc, 0)

def statementsPart? (doc : Value) (name : String) : Option (List Statement) :=
  match part? doc name with
  | some ⟨ss, _⟩ => (parts? ss).bind fun ss => ss.mapM fun ⟨s, _⟩ => statement? s
  | none => none
termination_by (sizeOf doc, 0)

def statement? (doc : Value) : Option Statement :=
  match part? doc "run", exprPart? doc "if", exprPart? doc "return" with
  | some ⟨p, _⟩, _, _ => (spec? p).map fun p => .run p (textPart? doc "as")
  | none, some e, _ => do
    let yes ← statementsPart? doc "then"
    let no ← if (part? doc "else").isSome then statementsPart? doc "else" else some []
    pure (.branch e yes no)
  | none, none, some e => some (.ret e)
  | none, none, none => none
termination_by (sizeOf doc, 1)

end

end Lockstep.Notation
