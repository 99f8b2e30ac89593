import TieredJvm.ClassFile.Loading
import TieredJvm.Machine.Request

/-!
# Launching

From the bytes of a class file to the end of a run. The exit status tells a program that could not
be started from one that started and failed.
-/

namespace TieredJvm

/-- Why a launch fails. -/
inductive LaunchError where
  /-- The class file is not loaded. -/
  | load (cause : LoadError)
  /-- The methods of the class make no program. -/
  | program (cause : ProgramError)
  /-- The run ends in a fault. -/
  | fault (cause : Fault)
  deriving DecidableEq

namespace LaunchError

/-- The text of a failure. -/
def message : LaunchError → String
  | load cause => s!"failed to load class file: {cause.message}"
  | program cause => s!"invalid program: {cause.message}"
  | fault cause => s!"execution fault: {cause.message}"

/-- The exit status of a failure: 1 if there was nothing to run, 2 if the run failed. -/
def exitStatus : LaunchError → Nat
  | load _ | program _ => 1
  | fault (.program .missingMain) => 1
  | fault _ => 2

end LaunchError

namespace Launch

/-- The exit status of a launch. -/
def status : Except LaunchError Unit → Nat
  | .ok _ => 0
  | .error e => e.exitStatus

/-- The program in the bytes of a class file. -/
def load (input : List UInt8) : Except LaunchError Program :=
  match ClassFile.parse input with
  | .error cause => .error (.load cause)
  | .ok c =>
    match c.program with
    | .error cause => .error (.program cause)
    | .ok p => .ok p

/-- The session with what loading tells in its journal. -/
def noted (s : Session) (input : List UInt8) : Session :=
  (ClassFile.notices input).foldl Session.record s

/-- How a launch ends, given how the run ends. -/
def outcome : Except Fault Int32 → Except LaunchError Unit
  | .ok _ => .ok ()
  | .error cause => .error (.fault cause)

end Launch

open Launch in
/-- Loads the bytes of a class file and runs its program in at most `fuel` steps: the session
after it and how it ends. -/
def launch (c : Config) (fuel : Nat) (s : Session) (input : List UInt8) :
    Option (Session × Except LaunchError Unit) :=
  let s := noted s input
  match load input with
  | .error e => some (s, .error e)
  | .ok p => (Request.run.perform p c fuel s).map fun (s, result) => (s, outcome result)

end TieredJvm
