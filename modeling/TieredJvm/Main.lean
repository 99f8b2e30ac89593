import TieredJvm.CommandLine

/-!
# The program

Reads the arguments and the class file, runs the class, and passes on what it prints as it goes.
-/

namespace TieredJvm.Main

open CommandLine

/-- The number of instructions between two times at which output is passed on. -/
def stride : Nat :=
  100000

/-- An error of the operating system from the number and the text with which it is reported; the
number may be negated, and the text may start with a small letter. -/
def osErrorOf (code : UInt32) (details : String) : OsError :=
  ⟨(if code < 0x80000000 then code else 0 - code).toNat, details.capitalize⟩

/-- The error of the operating system in an error of reading a file. -/
def osError : IO.Error → OsError
  | .noFileOrDirectory _ code details => osErrorOf code details
  | .permissionDenied _ code details => osErrorOf code details
  | .inappropriateType _ code details => osErrorOf code details
  | .invalidArgument _ code details => osErrorOf code details
  | .otherError code details => osErrorOf code details
  | e => ⟨0, e.toString⟩

/-- Reads a file. -/
def readFile (name : String) : IO (Except LoadError (List UInt8)) := do
  try
    return .ok (← IO.FS.readBinFile name).toList
  catch e =>
    return .error (.unreadable (osError e))

/-- Passes on what a session has gathered, and gives the session without it. -/
def passOn (s : Session) : IO Session := do
  let stdout ← IO.getStdout
  stdout.write ⟨s.sink.written⟩
  stdout.flush
  for e in s.journal.events do
    IO.eprintln e.line
  return {
    s with
    sink := { s.sink with written := #[] }
    journal := { s.journal with events := #[] } }

/-- Runs to the end. -/
partial def drive (p : Program) (c : Config) (state : State) : IO (Except Fault Int32) := do
  match State.advance p c stride state with
  | .halted s outcome =>
    let s ← passOn s
    return Request.run.conclude s outcome
  | .running s f callers =>
    let s ← passOn s
    drive p c (.running s f callers)

/-- Runs a class file. -/
def runClass (options : Options) : IO (Except LaunchError Unit) := do
  match ← readFile options.classFile with
  | .error cause => return .error (.load cause)
  | .ok input =>
    let s := Launch.noted { journal := { detail := some (detail options.verbosity) } } input
    let s := match ClassFile.parse input with
      | .ok c => s.record (loadedEvent c)
      | .error _ => s
    match Launch.load input with
    | .error e =>
      let _ ← passOn s
      return .error e
    | .ok p =>
      return Launch.outcome (← drive p options.config (Request.run.start p options.config s))

end TieredJvm.Main

open TieredJvm TieredJvm.CommandLine TieredJvm.Main in
/-- Runs the class file that the arguments name. -/
def main (args : List String) : IO UInt32 := do
  match parse args with
  | .error stop =>
    IO.print stop.text
    if stop = .usage then IO.eprint helpText
    return stop.exitStatus.toUInt32
  | .ok options =>
    let outcome ← runClass options
    match outcome with
    | .ok _ => pure ()
    | .error e => IO.eprint (report e)
    return (Launch.status outcome).toUInt32
