import Lockstep.Yaml.Timestamp

/-!
The tags that untagged plain scalars resolve to, by the forms of YAML 1.1.
-/

namespace Lockstep.Yaml

/-- The tags of the types that a document can use. -/
inductive Tag where
  | null
  | bool
  | int
  | float
  | binary
  | timestamp
  | omap
  | pairs
  | set
  | str
  | seq
  | map
  /-- Keys that merge a mapping into another. -/
  | merge
  /-- Keys for the default value of a mapping. -/
  | value
  /-- Any tag without a type. -/
  | unknown
  deriving DecidableEq

/-- What the names of the standard types have in common. -/
def standardPrefix : String := "tag:yaml.org,2002:"

def standardTags : List (String × Tag) := [
  ("null", .null), ("bool", .bool), ("int", .int), ("float", .float), ("binary", .binary),
  ("timestamp", .timestamp), ("omap", .omap), ("pairs", .pairs), ("set", .set), ("str", .str), ("seq", .seq),
  ("map", .map), ("merge", .merge), ("value", .value)]

def Tag.ofName (name : String) : Tag :=
  if name.startsWith standardPrefix then
    (standardTags.lookup (name.drop standardPrefix.length).toString).getD .unknown
  else .unknown

def booleans : List (String × Bool) := [
  ("yes", true), ("no", false), ("true", true), ("false", false), ("on", true), ("off", false)]

/-- A word in lower case, in upper case, or with a capital. -/
def spellings (word : String) : List String := [word, word.capitalize, word.map Char.toUpper]

def isBool (s : String) : Bool := booleans.any fun (word, _) => (spellings word).contains s

def isNull (s : String) : Bool := s = "" || s = "~" || (spellings "null").contains s

def withoutSign (cs : List Char) : List Char :=
  match cs with
  | '+' :: rest => rest
  | '-' :: rest => rest
  | rest => rest

def isDigitOrLow (c : Char) : Bool := c.isDigit || c = '_'

/-- A group of a number in base sixty: a digit, or two of which the first is below six. -/
def isSixty (cs : List Char) : Bool :=
  match cs with
  | [c] => c.isDigit
  | [a, b] => '0' ≤ a && a ≤ '5' && b.isDigit
  | _ => false

/-- Splits at every colon. -/
def colonParts : List Char → List (List Char)
  | [] => [[]]
  | c :: rest =>
    if c = ':' then [] :: colonParts rest
    else match colonParts rest with
      | part :: parts => (c :: part) :: parts
      | [] => [[c]]

/-- Integers in base two, eight, ten, sixteen or sixty; underscores may separate digits. -/
def isInt (s : String) : Bool :=
  match withoutSign s.toList with
  | '0' :: 'b' :: digits => !digits.isEmpty && digits.all fun c => c = '0' || c = '1' || c = '_'
  | '0' :: 'x' :: digits => !digits.isEmpty && digits.all fun c => (digitValue? 16 c).isSome || c = '_'
  | ['0'] => true
  | '0' :: digits => digits.all fun c => ('0' ≤ c && c ≤ '7') || c = '_'
  | c :: rest => match colonParts rest with
    | digits :: groups => '1' ≤ c && c ≤ '9' && digits.all isDigitOrLow && groups.all isSixty
    | [] => false
  | [] => false

/-- An exponent has a sign. -/
def isExponent : List Char → Bool
  | [] => true
  | mark :: sign :: digits =>
    (mark = 'e' || mark = 'E') && (sign = '+' || sign = '-') && !digits.isEmpty && digits.all Char.isDigit
  | _ => false

/-- Numbers with a point, an exponent only after it; base sixty with a fraction; and the special values. -/
def isFloat (s : String) : Bool :=
  let cs := withoutSign s.toList
  let afterPoint (cs : List Char) := isExponent (cs.dropWhile isDigitOrLow)
  let special := [".inf", ".Inf", ".INF"].contains (String.ofList cs) || [".nan", ".NaN", ".NAN"].contains s
  special || match cs with
    | '.' :: rest =>
      -- A number that begins with its point has no sign and a digit next.
      s.toList.head? = some '.' && rest.head?.any Char.isDigit && afterPoint rest
    | c :: rest => c.isDigit && match rest.dropWhile isDigitOrLow with
      | '.' :: rest => afterPoint rest
      | ':' :: groups => match (colonParts groups).reverse with
        | last :: before =>
          let whole := last.takeWhile (· ≠ '.')
          before.all isSixty && isSixty whole && match last.drop whole.length with
            | '.' :: fraction => fraction.all isDigitOrLow
            | _ => false
        | [] => false
      | _ => false
    | [] => false

/-- A date must have two digits for month and day unless a time follows. -/
def isTimestamp (s : String) : Bool :=
  match Timestamp.ofChars? s.toList with
  | some t => t.time.isSome || s.length = 10
  | none => false

/-- The text without one line feed at its end. -/
def withoutLastBreak (s : String) : String :=
  match s.toList.reverse with
  | '\n' :: rest => String.ofList rest.reverse
  | _ => s

/-- The tag of an untagged scalar that is not quoted. A line feed at its end does not count. -/
def Tag.ofPlain (text : String) : Tag :=
  let s := withoutLastBreak text
  if isBool s then .bool
  else if isFloat s then .float
  else if isInt s then .int
  else if s = "<<" then .merge
  else if isNull s && !(s = "" && text ≠ "") then .null
  else if isTimestamp s then .timestamp
  else if s = "=" then .value
  else if s = "!" ∨ s = "&" ∨ s = "*" then .unknown
  else .str

end Lockstep.Yaml
