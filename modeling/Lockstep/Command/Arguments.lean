import Lockstep.Text.Quoted

/-!
The arguments of the command line. Options may be shortened to any unambiguous beginning, the last one of
several wins, and a value may begin with a hyphen only behind an equals sign or as a negative number.
-/

namespace Lockstep.Command

inductive Opt where
  | help
  | program
  | host
  | document
  | rootLabel
  | indexInFailures
  | verbose
  deriving DecidableEq

/-- Every spelling of an option, in the order in which they are listed. -/
def spellings : List (String × Opt) := [
  ("-h", .help), ("--help", .help), ("--program", .program), ("--host", .host), ("--document", .document),
  ("--root-label", .rootLabel), ("--index-in-failures", .indexInFailures), ("--verbose", .verbose)]

/-- The name of an option in messages: all of its spellings. -/
def Opt.name (opt : Opt) : String :=
  "/".intercalate ((spellings.filter fun (_, o) => o = opt).map (·.1))

def Opt.takesValue : Opt → Bool
  | .program => true
  | .host => true
  | .document => true
  | .rootLabel => true
  | _ => false

inductive UsageError where
  | ambiguous (arg : String) (matching : List String)
  | missingValue (opt : Opt)
  | ignoredValue (opt : Opt) (v : String)
  | missingOptions (opts : List Opt)
  | unrecognized (args : List String)
  deriving DecidableEq

def UsageError.message : UsageError → String
  | .ambiguous arg matching => "ambiguous option: " ++ arg ++ " could match " ++ ", ".intercalate matching
  | .missingValue opt => "argument " ++ opt.name ++ ": expected one argument"
  | .ignoredValue opt v => "argument " ++ opt.name ++ ": ignored explicit argument " ++ quotedName v
  | .missingOptions opts =>
    "the following arguments are required: " ++ ", ".intercalate (opts.map Opt.name)
  | .unrecognized args => "unrecognized arguments: " ++ " ".intercalate args

/-- What is joined to the spelling of an option. -/
inductive Joined where
  | nothing
  /-- A value behind an equals sign. -/
  | value (v : String)
  /-- Letters behind a letter with a single hyphen. -/
  | letters (cs : List Char)
  deriving DecidableEq

/-- An argument by its form. -/
inductive Word where
  | plain (arg : String)
  | option (opt : Opt) (joined : Joined)
  | unknown (arg : String)
  deriving DecidableEq

/-- Whether an argument is a negative number, which may be a value. -/
def isNegativeNumber (arg : String) : Bool :=
  match arg.toList with
  | '-' :: rest =>
    let whole := rest.takeWhile Char.isDigit
    match rest.drop whole.length with
    | [] => !whole.isEmpty
    | '.' :: fraction => !fraction.isEmpty && fraction.all Char.isDigit
    | _ => false
  | _ => false

/-- An argument up to its first equals sign, and what is joined to it there. -/
def splitValue (arg : String) : String × Joined :=
  let cs := arg.toList
  let before := cs.takeWhile (· ≠ '=')
  if before.length = cs.length then (arg, .nothing)
  else (String.ofList before, .value (String.ofList (cs.drop (before.length + 1))))

/-- The options that an argument may be short for, by their spellings. -/
def candidates (arg : String) : List (String × Opt × Joined) :=
  match arg.toList with
  | '-' :: '-' :: _ =>
    let (beginning, joined) := splitValue arg
    (spellings.filter fun (s, _) => s.startsWith beginning).map fun (s, opt) => (s, opt, joined)
  | '-' :: c :: rest =>
    (spellings.filter fun (s, _) => s.toList = ['-', c]).map fun (s, opt) => (s, opt, .letters rest)
  | _ => []

/-- The form of an argument. -/
def classify (arg : String) : Except UsageError Word :=
  let (beginning, joined) := splitValue arg
  if arg.length ≤ 1 || !arg.startsWith "-" then .ok (.plain arg)
  else match spellings.lookup beginning, candidates arg with
    | some opt, _ => .ok (.option opt joined)
    | none, [(_, opt, joined)] => .ok (.option opt joined)
    | none, [] =>
      if isNegativeNumber arg || arg.toList.contains ' ' then .ok (.plain arg) else .ok (.unknown arg)
    | none, matching => .error (.ambiguous arg (matching.map (·.1)))

/-- The forms of all arguments. Behind two hyphens on their own no argument is an option. -/
def classifyAll : List String → Except UsageError (List Word)
  | [] => .ok []
  | arg :: args =>
    if arg = "--" then .ok (.unknown arg :: args.map .plain)
    else do
      let word ← classify arg
      let words ← classifyAll args
      pure (word :: words)

structure Settings where
  program : Option String
  host : Option String
  document : Option String
  rootLabel : String
  indexInFailures : Bool
  verbose : Bool

def Settings.standard : Settings := ⟨none, none, none, "subject", false, false⟩

/-- Takes in an option that has a value. -/
def Settings.assign (s : Settings) (opt : Opt) (v : String) : Settings :=
  match opt with
  | .program => { s with program := some v }
  | .host => { s with host := some v }
  | .document => { s with document := some v }
  | .rootLabel => { s with rootLabel := v }
  | _ => s

/-- Takes in an option that has no value. -/
def Settings.turnOn (s : Settings) (opt : Opt) : Settings :=
  match opt with
  | .indexInFailures => { s with indexInFailures := true }
  | .verbose => { s with verbose := true }
  | _ => s

/-- What a command line asks for. -/
inductive Request where
  | help
  | run (settings : Settings)

/-- The value that is joined to letters which stand for help, if there is one: what begins with a hyphen or
is behind an equals sign. Help is given as soon as a letter stands for nothing else. -/
def valueOfLetters? : List Char → Option (List Char)
  | '-' :: rest => some ('-' :: rest)
  | 'h' :: '=' :: rest => some rest
  | 'h' :: rest => valueOfLetters? rest
  | _ => none

/-- The request for help, which takes no value. -/
def helpRequest (joined : Joined) : Except UsageError Request :=
  match joined with
  | .nothing => .ok .help
  | .value v => .error (.ignoredValue .help v)
  | .letters cs => match valueOfLetters? cs with
    | some v => .error (.ignoredValue .help (String.ofList v))
    | none => .ok .help

/-- Takes in the words that are left. The arguments without a meaning so far come with the last one first. -/
def interpretWords (s : Settings) (extra : List String) : List Word → Except UsageError Request
  | [] =>
    let missing := (if s.program.isNone then [Opt.program] else []) ++ if s.host.isNone then [.host] else []
    if !missing.isEmpty then .error (.missingOptions missing)
    else if !extra.isEmpty then .error (.unrecognized extra.reverse)
    else .ok (.run s)
  | .plain arg :: words => interpretWords s (arg :: extra) words
  | .unknown arg :: words => interpretWords s (arg :: extra) words
  | .option opt joined :: words =>
    if opt = .help then helpRequest joined
    else if opt.takesValue then
      match joined, words with
      | .value v, words => interpretWords (s.assign opt v) extra words
      | _, .plain v :: words => interpretWords (s.assign opt v) extra words
      | _, _ => .error (.missingValue opt)
    else match joined with
      | .value v => .error (.ignoredValue opt v)
      | _ => interpretWords (s.turnOn opt) extra words

/-- Reads a command line. -/
def readArguments (args : List String) : Except UsageError Request :=
  (classifyAll args).bind (interpretWords .standard [])

end Lockstep.Command
