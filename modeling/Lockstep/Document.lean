import Lockstep.Files.Tree
import Lockstep.Json.Read
import Lockstep.Yaml.Data

/-!
Loading stored documents. The suffix of a path decides how its file is read; what is read must be plain
JSON data.
-/

namespace Lockstep

inductive DocumentFormat where
  | json
  | yaml
  deriving DecidableEq

/-- The format for a suffix in any letter case. -/
def DocumentFormat.ofSuffix? (suffix : String) : Option DocumentFormat :=
  match documentSuffixes.idxOf? (suffix.map Char.toLower) with
  | some 0 => some .json
  | some _ => some .yaml
  | none => none

def readJson (path reason : String) (data : List UInt8) : Except Fault Value :=
  match Json.ofBytes? data with
  | some v => .ok v
  | none => .error (.document path (.malformedJson reason))

/-- Defects of the syntax are reported with the path; a text that is not UTF-8 and a scalar without a value
are not. -/
def readYaml (path reason : String) (data : List UInt8) : Except Fault Value :=
  match String.fromUTF8? ⟨data.toArray⟩ with
  | none => .error .invalidUtf8
  | some s => match Yaml.ofText s with
    | .error .malformed => .error (.document path (.malformedYaml reason))
    | .error (.scalar cause) => .error (.scalar cause)
    | .ok none => .error (.document path (.notPlainData reason))
    | .ok (some v) => .ok v

def readDocument (format : DocumentFormat) (path reason : String) (data : List UInt8) : Except Fault Value :=
  match format with
  | .json => readJson path reason data
  | .yaml => readYaml path reason data

/-- The document stored at a path. -/
def loadDocument (tree : FileTree) (p : Path) : Except Fault Value :=
  match DocumentFormat.ofSuffix? p.suffix with
  | none => .error (.document p.text (.unsupported p.suffix))
  | some format =>
    if !p.isUsable then .error .unusablePath
    else match tree.open? p with
      | some (.file data) => readDocument format p.text (tree.complaint p) data
      | _ => .error (.document p.text (.unreadable (tree.complaint p)))

end Lockstep
