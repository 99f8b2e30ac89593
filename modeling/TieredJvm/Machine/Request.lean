import TieredJvm.Machine.Step

/-!
# Requests

What can be asked of the machine from outside. Requests follow one another in one session; each
starts with no frame, and ends with a value or a fault, or not at all.
-/

namespace TieredJvm

/-- Something asked of the machine. -/
inductive Request where
  /-- Runs the entry point without arguments, and flushes the output. -/
  | run
  /-- Calls a method as an instruction would. -/
  | invoke (key : MethodKey) (args : List Int32)
  /-- Interprets a method, whatever is remembered about it, and without counting the call. -/
  | interpret (key : MethodKey) (args : List Int32)

namespace Request

/-- The state in which a request starts. -/
def start (p : Program) (c : Config) (s : Session) : Request → State
  | run =>
    match p.entryPoint with
    | .ok m => State.call c s m [] []
    | .error cause => .halted s (.error (.program cause))
  | invoke key args =>
    match p.find? key with
    | some m => State.call c s m args []
    | none => .halted s (.error (.methodNotFound key))
  | interpret key args =>
    match p.find? key with
    | some m => State.enter c s m args []
    | none => .halted s (.error (.methodNotFound key))

/-- What a request ends with, given how its call ended. -/
def conclude (s : Session) (outcome : Except Fault Int32) : Request → Except Fault Int32
  | run =>
    match outcome, s.sink.flush with
    | .error fault, _ => .error fault
    | .ok _, .error cause => .error (.output cause)
    | .ok value, .ok _ => .ok value
  | invoke _ _ | interpret _ _ => outcome

/-- The end of a request in a state, if it has come to one. -/
def finished? (r : Request) : State → Option (Session × Except Fault Int32)
  | .running .. => none
  | .halted s outcome => some (s, r.conclude s outcome)

/-- Carries out a request in at most `fuel` steps: the session after it and what it ends with. -/
def perform (p : Program) (c : Config) (fuel : Nat) (s : Session) (r : Request) :
    Option (Session × Except Fault Int32) :=
  r.finished? (State.advance p c fuel (r.start p c s))

end Request

end TieredJvm
