import Lockstep.Text.Quoted

/-!
The causes for which an operation raises instead of answering, and the message of each cause that has one.
Failed lookups and failed assertions are not among them: they are answers of a run.
-/

namespace Lockstep

/-- Why a document could not be loaded. Each cause is reported with the path that was asked for, and all but
the first with the reason that the system or the reader of the format gives. -/
inductive DocumentFault where
  | unsupported (suffix : String)
  | unreadable (reason : String)
  | malformedJson (reason : String)
  | malformedYaml (reason : String)
  | notPlainData (reason : String)
  deriving DecidableEq

/-- Why a YAML scalar has no value although its syntax is right. -/
inductive ScalarFault where
  | impossibleDate
  | malformedNumber
  | emptyNumber
  | unknownBoolean
  | malformedTimestamp
  | codePointRange
  /-- A number does not fit where a machine word or a floating-point number is needed. -/
  | overflow
  deriving DecidableEq

/-- Why a module or one of its attributes could not be had. -/
inductive ModuleFault where
  | badReference (reference : String)
  | notFound (path : String)
  | notImportable (path : String)
  | missingAttribute (path name : String)
  deriving DecidableEq

/-- Where a program was expected and another value found. -/
inductive ProgramPlace where
  | combination
  | generator
  deriving DecidableEq

inductive Fault where
  /-- A value of the given type was to be encoded, and a part of it has no encoding. -/
  | unencodable (host : String) (part : String)
  /-- A value is nested deeper than the encoder goes, or holds itself. -/
  | nestingLimit
  /-- Bytes that are not UTF-8 stand where text is needed. -/
  | invalidUtf8
  /-- A dictionary key has no text. -/
  | keyWithoutText
  /-- A value, or a set of keys, is outside of what can be rendered. -/
  | unrenderable
  /-- A value that holds itself was to be rendered. -/
  | circular
  /-- An integer is too long to be written. -/
  | digitLimit
  | negativePosition (position : Int)
  | notAProgram (place : ProgramPlace) (type : String)
  | unsupportedNode (type : String)
  | unsupportedInstruction (type : String)
  /-- The base program was continued. -/
  | abstractProgram
  /-- A value that is not a program, or an instruction that is none, was continued. -/
  | notContinuable
  | shapeMismatch (path produced expected : String)
  /-- A declared type has no test for its instances. -/
  | untestable
  /-- A projection did not fit the host value. -/
  | projection (operation : String)
  /-- A path holds a null character, which no file name can. -/
  | unusablePath
  | document (path : String) (cause : DocumentFault)
  | scalar (cause : ScalarFault)
  | loading (cause : ModuleFault)
  /-- The body of a module raised this text. -/
  | moduleBody (text : String)
  /-- The program reference of a command line names another value. -/
  | referenceNotProgram (reference type : String)
  /-- A line holds a character that the console does not take. -/
  | unprintable
  deriving DecidableEq

/-- The suffixes of documents that can be loaded. -/
def documentSuffixes : List String := [".json", ".yaml", ".yml"]

def DocumentFault.message (path : String) : DocumentFault → String
  | .unsupported suffix =>
    "Unsupported document type " ++ quotedName suffix ++ " for " ++ path ++ "; expected one of " ++
      ", ".intercalate documentSuffixes
  | .unreadable reason => "Failed to read document " ++ path ++ ": " ++ reason
  | .malformedJson reason => "Failed to parse JSON document " ++ path ++ ": " ++ reason
  | .malformedYaml reason => "Failed to parse YAML document " ++ path ++ ": " ++ reason
  | .notPlainData reason => "Document " ++ path ++ " is not plain JSON data: " ++ reason

def ModuleFault.message : ModuleFault → String
  | .badReference reference => "Expected FILE.py:ATTRIBUTE, got " ++ quotedName reference
  | .notFound path => "Module not found: " ++ path
  | .notImportable path => "Unable to import module from: " ++ path
  | .missingAttribute path name => path ++ " has no attribute " ++ quotedName name

def ProgramPlace.message (type : String) : ProgramPlace → String
  | .combination => "all_of expects programs, got " ++ type
  | .generator => "json_program generators must yield programs, got " ++ type

/-- The message of a fault, if it has one of its own. -/
def Fault.message? : Fault → Option String
  | .unencodable host part =>
    some ("Unable to encode " ++ host ++ " value as JSON: Unable to serialize unknown type: <class '" ++
      part ++ "'>")
  | .negativePosition position => some ("Array position must be non-negative, got " ++ toString position)
  | .notAProgram place type => some (place.message type)
  | .unsupportedNode type => some ("Unsupported program node " ++ type)
  | .unsupportedInstruction type => some ("Unsupported instruction " ++ type)
  | .abstractProgram => some ""
  | .shapeMismatch path produced expected =>
    some (path ++ ": projection produced " ++ produced ++ ", expected " ++ expected)
  | .projection operation => some operation
  | .document path cause => some (cause.message path)
  | .loading cause => some cause.message
  | .moduleBody text => some text
  | .referenceNotProgram reference type => some (reference ++ " is not a program, got " ++ type)
  | _ => none

/-- The fault of a result, if it has one. -/
def faultOf {α : Type} : Except Fault α → Option Fault
  | .ok _ => none
  | .error fault => some fault

theorem faultOf_eq_some_iff {α : Type} {x : Except Fault α} {fault : Fault} :
    faultOf x = some fault ↔ x = .error fault := by
  cases x <;> simp [faultOf]

theorem faultOf_eq_none_iff {α : Type} {x : Except Fault α} : faultOf x = none ↔ ∃ a, x = .ok a := by
  cases x <;> simp [faultOf]

end Lockstep
