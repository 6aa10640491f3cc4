import Lockstep.Program.Equality
import Lockstep.Run.Interpret

/-!
Tests: programs run against the fresh encoding of a host value.
-/

namespace Lockstep

/-- Encodes a host value and runs a program on the two. -/
def runTest (program : Program) (host : Value) (encoder : Encoder := Value.encode) (options : RunOptions := {}) :
    Except Fault Report :=
  (encoder host).map fun document => interpret options program document host

/-- Why a checked program does not pass. -/
inductive CheckError where
  | failed (failures : List String)
  | fault (cause : Fault)

def CheckError.message? : CheckError → Option String
  | .failed failures => some (formatFailures failures)
  | .fault cause => cause.message?

/-- Runs a test that is to pass: any failure is an error. -/
def check (program : Program) (host : Value) (encoder : Encoder := Value.encode) (options : RunOptions := {}) :
    Except CheckError Unit :=
  match (runTest program host encoder options).bind (Report.messages options) with
  | .error fault => .error (.fault fault)
  | .ok [] => .ok ()
  | .ok failures => .error (.failed failures)

end Lockstep
