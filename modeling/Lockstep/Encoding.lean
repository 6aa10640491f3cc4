import Lockstep.Number.Integer
import Lockstep.Number.Layout
import Lockstep.Value.Equality

/-!
Encoding host values as JSON documents. Containers become lists and dictionaries with text keys, records
become dictionaries of their encoded fields, and values with a text of their own become that text.
-/

namespace Lockstep

/-- The deepest level at which a value is still encoded; the outermost value is at level zero. -/
def deepestLevel : Nat := 254

/-- The text of a complex number: its real part unless that is zero, and its imaginary part. -/
def complexText (re im : Binary64) : String :=
  let part := NumberLayout.complexPart.text
  let positive := match im.quantity with
    | .undefined => false
    | .infinite negative => !negative
    | .finite q => 0 ≤ q
  if re.isZero then part im ++ "j"
  else part re ++ (if positive then "+" else "") ++ part im ++ "j"

def fractionText (q : Rat) : Except Fault String :=
  if q.den = 1 then writeInt q.num
  else do
    let numerator ← writeInt q.num
    let denominator ← writeInt q.den
    pure (numerator ++ "/" ++ denominator)

def Atom.text : Atom → Except Fault String
  | .date d => .ok d.text
  | .time t => .ok t.text
  | .dateTime d => .ok d.text
  | .duration d => .ok d.text
  | .decimal d => .ok d.text
  | .fraction q => fractionText q
  | .complex re im => .ok (complexText re im)
  | .uuid text => .ok text
  | .pattern text => .ok text

/-- A result for a value at the given level, which is refused if the level is too deep. -/
@[macro_inline] def atLevel {α : Type} (level : Nat) (result : Except Fault α) : Except Fault α :=
  if deepestLevel < level then .error .nestingLimit else result

/-- The text that bytes encode in UTF-8. -/
def textOfBytes (data : List UInt8) : Except Fault String :=
  match String.fromUTF8? ⟨data.toArray⟩ with
  | some s => .ok s
  | none => .error .invalidUtf8

namespace Value

mutual

/-- The text that a dictionary key becomes. The keys inside of a tuple are joined with commas. -/
def keyText (host : String) : Value → Except Fault String
  | .null => .ok "None"
  | .bool b => .ok (if b then "true" else "false")
  | .int n => writeInt n
  | .float x => .ok (NumberLayout.plain.text x)
  | .text s => .ok s
  | .bytes _ data => textOfBytes data
  | .atom a => a.text
  | .sequence kind items => match kind with
    | .tuple => (keyTexts host items).map (",".intercalate ·)
    | .named .. => (keyTexts host items).map (",".intercalate ·)
    | .range => .error (.unencodable host kind.typeName)
    | _ => .error .keyWithoutText
  | .member _ _ value => keyText host value
  | .foreign object => .error (.unencodable host object.qualifiedName)
  | _ => .error .keyWithoutText

def keyTexts (host : String) : List Value → Except Fault (List String)
  | [] => .ok []
  | x :: xs => do
    let first ← keyText host x
    let rest ← keyTexts host xs
    pure (first :: rest)

end

mutual

/-- The document for a value at the given level of a host value whose type has the given name. -/
def encodeAt (host : String) (level : Nat) : Value → Except Fault Value
  | .null => atLevel level (.ok .null)
  | .bool b => atLevel level (.ok (.bool b))
  | .int n => atLevel level (.ok (.int n))
  | .float x => atLevel level (.ok (.float x))
  | .text s => atLevel level (.ok (.text s))
  | .bytes _ data => atLevel level ((textOfBytes data).map .text)
  | .atom a => atLevel level (a.text.map .text)
  | .sequence kind items => match kind with
    | .range => atLevel level (.error (.unencodable host kind.typeName))
    | _ => atLevel level ((encodeItems host (level + 1) items).map .list)
  | .set _ items => atLevel level ((encodeItems host (level + 1) items).map .list)
  | .dict entries => atLevel level ((encodeEntries host (level + 1) entries).map dictOf)
  | .member _ _ value => atLevel level (encodeAt host (level + 1) value)
  | .record cls fields => atLevel level ((encodeFields host (level + 1) cls fields).map dictOf)
  | .foreign object => atLevel level (.error (.unencodable host object.qualifiedName))
  | .knot _ => .error .nestingLimit

def encodeItems (host : String) (level : Nat) : List Value → Except Fault (List Value)
  | [] => .ok []
  | x :: xs => do
    let first ← encodeAt host level x
    let rest ← encodeItems host level xs
    pure (first :: rest)

/-- The encoded entries of a dictionary, each key before its value. -/
def encodeEntries (host : String) (level : Nat) :
    List (Value × Value) → Except Fault (List (Value × Value))
  | [] => .ok []
  | (k, v) :: es => do
    let key ← keyText host k
    let value ← encodeAt host level v
    let rest ← encodeEntries host level es
    pure ((.text key, value) :: rest)

/-- The encoded fields of a record; a hidden field is not even looked at. -/
def encodeFields (host : String) (level : Nat) (cls : RecordClass) :
    List (String × Value) → Except Fault (List (Value × Value))
  | [] => .ok []
  | (f, v) :: fs => match cls.encodedName? f with
    | none => encodeFields host level cls fs
    | some name => do
      let value ← encodeAt host level v
      let rest ← encodeFields host level cls fs
      pure ((.text name, value) :: rest)

end

/-- The JSON document that a host value is encoded into. -/
def encode (v : Value) : Except Fault Value := encodeAt v.typeName 0 v

end Value

end Lockstep
