import Lockstep.Program.Equality
import Lockstep.Program.Routine
import Lockstep.Script.Operation

/-!
Scripts: programs written as data, with variables for results and for stored programs, and how they are
built. Everything in a script is built at once, from left to right, except what waits for a result.
-/

namespace Lockstep.Script

inductive Expr where
  | lit (v : Value)
  | var (name : String)
  | projected (e : Expr) (ops : List Operation)

/-- A way of encoding that a script can name. -/
inductive Encoding where
  | standard
  | identity
  /-- The encoding under the single key `data`. -/
  | wrapped
  /-- The encoding without one of its keys. -/
  | without (key : String)

inductive Check where
  | accept
  | reject (message : String)
  | isObject
  | isArray
  | equals (v : Value)
  /-- Rejects every node with its canonical text. -/
  | render
  | hasKey (name : String)
  | hasIndex (position : Int)

mutual

inductive Spec where
  | done (e : Expr)
  | key (name : String) (ops : List Operation) (shape : Option Shape)
  | nth (position : Int) (ops : List Operation) (shape : Option Shape)
  | assertEqual (expected : Expr) (encoding : Encoding)
  | assertWith (check : Check)
  | terminate
  | finalize (p : Spec)
  | allOf (ps : List Spec)
  | chain (ps : List Spec)
  /-- Several copies of a program, and then another. -/
  | repeated (count : Nat) (p last : Spec)
  | andThen (p q : Spec)
  /-- The second program is built anew for each result of the first, under the given name. -/
  | bind (p : Spec) (name : String) (q : Spec)
  | map (p : Spec) (ops : List Operation)
  | routine (steps : List Statement)
  | stored (name : String)
  | value (e : Expr)
  | blank
  | stray (instruction : Value)

inductive Statement where
  | run (p : Spec) (name : Option String)
  | branch (e : Expr) (yes no : List Statement)
  | ret (e : Expr)

end

/-- What names stand for; a name that is not bound stands for null. -/
structure Scope where
  values : List (String × Value)
  programs : List (String × Program)

namespace Scope

def empty : Scope := ⟨[], []⟩

def set (scope : Scope) (name : String) (v : Value) : Scope :=
  { scope with values := (name, v) :: scope.values }

def store (scope : Scope) (name : String) (p : Program) : Scope :=
  { scope with programs := (name, p) :: scope.programs }

def value (scope : Scope) (name : String) : Value := (scope.values.lookup name).getD .null

def program (scope : Scope) (name : String) : Program := (scope.programs.lookup name).getD (.foreign .null)

end Scope

def Expr.eval (scope : Scope) : Expr → Except Fault Value
  | .lit v => .ok v
  | .var name => .ok (scope.value name)
  | .projected e ops => (e.eval scope).bind (project ops)

def Encoding.encoder : Encoding → Encoder
  | .standard, v => v.encode
  | .identity, v => .ok v
  | .wrapped, v => v.encode.map fun d => .object [("data", d)]
  | .without key, v => v.encode.map fun d => match d with
    | .dict entries => .dict (entries.filter fun e => !e.1.same (.text key))
    | d => d

def Check.predicate : Check → Value → Except Fault (Option String)
  | .accept, _ => .ok none
  | .reject message, _ => .ok (some message)
  | .isObject, node => .ok (if node.isObject then none else some "not an object")
  | .isArray, node => .ok (if node.isArray then none else some "not an array")
  | .equals v, node => .ok (if node.jsonEqual v then none else some "different")
  | .render, node => node.render.map some
  | .hasKey name, node => .ok (if (node.lookupKey name).isSome then none else some "no key")
  | .hasIndex position, node => .ok (if (node.lookupIndex position).isSome then none else some "no index")

/-- Only null and false are false. -/
def isTrue : Value → Bool
  | .null => false
  | .bool b => b
  | _ => true

mutual

/-- The program that a script stands for where names have the given meaning. -/
def build (scope : Scope) : Spec → Except Fault Program
  | .done e => (e.eval scope).map .done
  | .key name ops shape => .ok (.key name (project ops) shape)
  | .nth position ops shape => Program.nth position (project ops) shape
  | .assertEqual expected encoding => do
    let v ← expected.eval scope
    Program.assertEqual v encoding.encoder
  | .assertWith check => .ok (.require check.predicate)
  | .terminate => .ok .terminate
  | .finalize p => do (← build scope p).finalize
  | .allOf ps => do Program.allOf (← buildAll scope ps)
  | .chain ps => do Program.chain (← buildAll scope ps)
  | .repeated count p last => do
    let p ← build scope p
    let last ← build scope last
    Program.chain (List.replicate count p ++ [last])
  | .andThen p q => do
    let p ← build scope p
    let q ← build scope q
    p.andThen q
  | .bind p name q => do (← build scope p).bind fun result => build (scope.set name result) q
  | .map p ops => do (← build scope p).map (project ops)
  | .routine steps => (routineOf steps scope fun _ => .finish .null).program
  | .stored name => .ok (scope.program name)
  | .value e => (e.eval scope).map .foreign
  | .blank => .ok .blank
  | .stray instruction => .ok (.stray instruction)

def buildAll (scope : Scope) : List Spec → Except Fault (List Program)
  | [] => .ok []
  | p :: ps => do
    let first ← build scope p
    let rest ← buildAll scope ps
    pure (first :: rest)

/-- The routine of some statements and of what follows them. -/
def routineOf : List Statement → Scope → (Scope → Routine) → Routine
  | [], scope, rest => rest scope
  | s :: ss, scope, rest => statementRoutine s scope fun scope => routineOf ss scope rest

def statementRoutine : Statement → Scope → (Scope → Routine) → Routine
  | .run p name, scope, rest => match build scope p with
    | .error fault => .fail fault
    | .ok p => .ask p fun result => rest (match name with
      | some name => scope.set name result
      | none => scope)
  | .branch e yes no, scope, rest => match e.eval scope with
    | .error fault => .fail fault
    | .ok v => if isTrue v then routineOf yes scope rest else routineOf no scope rest
  | .ret e, scope, _ => match e.eval scope with
    | .error fault => .fail fault
    | .ok v => .finish v

end

end Lockstep.Script
