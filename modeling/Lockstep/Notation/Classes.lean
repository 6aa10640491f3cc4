import Lockstep.Value.Basic

/-!
The classes whose instances can be written down: records, named tuples, enumerations, and the kinds of
values that have no encoding.
-/

namespace Lockstep.Notation

structure RecordEntry where
  cls : RecordClass
  /-- The fields in the order of their declaration. -/
  fields : List String

def personFields : List String := ["name", "age", "tags", "address"]

def records : List RecordEntry := [
  ⟨{ name := "Point" }, ["x", "y"]⟩,
  ⟨{ name := "Contact" }, personFields⟩,
  ⟨{ name := "Address" }, ["city", "postcode"]⟩,
  ⟨{ name := "Person" }, personFields⟩,
  ⟨{ name := "Employee", ancestors := ["Person"] }, personFields ++ ["role"]⟩,
  ⟨{ name := "Account", renamed := [("balance", "accountBalance")], hidden := ["pin"] },
    ["owner", "balance", "pin"]⟩]

def namedTuples : List (String × List String) := [("Pair", ["first", "second"])]

/-- The members of the only enumeration. -/
def colors : List (String × Value) :=
  [("RED", .text "red"), ("GREEN", .int 2), ("PAIR", .sequence .tuple [.int 1, .int 2])]

/-- Values without an encoding, by their kind. -/
def foreigners : List Foreign := [
  ⟨"object", "object", false⟩,
  ⟨"type", "type", true⟩,
  ⟨"function", "function", true⟩,
  ⟨"ellipsis", "ellipsis", true⟩,
  ⟨"Exception", "Exception", false⟩,
  ⟨"PurePosixPath", "pathlib.PurePosixPath", true⟩]

end Lockstep.Notation
