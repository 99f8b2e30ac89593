import TieredJvm.Launch

/-!
# The command line

`CLASS_FILE` with the options `--no-jit`, `--jit-threshold N`, `--max-call-depth N`, `-v` (any
number of times), `--help` and `--version`. Arguments are taken from left to right, and the first
thing that ends the reading decides: a request for help, for the version, or a mistake.

The value of an option is the argument after it, unless it is attached by `=`. Both that value and
the name of the class file are looked at only when the next argument that means something comes,
or at the end: until then they are pending.
-/

namespace TieredJvm.CommandLine

/-- What the arguments ask for. -/
structure Options where
  /-- The name of the class file. -/
  classFile : String
  /-- The settings of the run. -/
  config : Config
  /-- How often more detail was asked for. -/
  verbosity : Nat
  deriving DecidableEq

/-- Why there is nothing to launch. -/
inductive Stop where
  /-- Help was asked for. -/
  | help
  /-- The version was asked for. -/
  | version
  /-- The arguments make no sense. -/
  | usage
  deriving DecidableEq

/-- The exit status when nothing is launched. -/
def Stop.exitStatus : Stop → Nat
  | help | version => 0
  | usage => 1

/-- The options that take a value. -/
inductive Valued where
  | jitThreshold | maxCallDepth
  deriving DecidableEq

/-- What was seen but not looked at yet. -/
inductive Pending where
  /-- Nothing. -/
  | nothing
  /-- An option whose value is still to come. -/
  | missingValue (option : Valued)
  /-- An option with its value. -/
  | value (option : Valued) (text : String)
  /-- The name of the class file. -/
  | classFile (name : String)
  deriving DecidableEq

/-- The reading of the arguments so far. -/
structure Progress where
  /-- The name of the class file, once it was looked at. -/
  classFile : Option String := none
  /-- Whether a class file was named, looked at or not. -/
  named : Bool := false
  /-- Whether compiling was turned off. -/
  noJit : Bool := false
  /-- The threshold, once it was set. -/
  threshold : Option Nat := none
  /-- The call depth, once it was set. -/
  maxCallDepth : Option Nat := none
  /-- How often more detail was asked for. -/
  verbosity : Nat := 0
  /-- What was seen but not looked at yet. -/
  pending : Pending := .nothing
  /-- Whether options are over. -/
  trailing : Bool := false

/-! ## Numbers -/

/-- The number that a text of decimal digits spells. -/
def digits? (text : List Char) : Option Nat :=
  if text ≠ [] ∧ text.all Char.isDigit then
    some (text.foldl (fun n c => 10 * n + (c.toNat - '0'.toNat)) 0)
  else none

/-- The number that digits spell, with or without a plus sign. -/
def unsigned? : List Char → Option Nat
  | '+' :: rest => digits? rest
  | text => digits? text

/-- The number of a signed text that is not negative: a minus sign may stand before zero only. -/
def nonnegative? : List Char → Option Nat
  | '-' :: rest => (digits? rest).filter (· = 0)
  | text => unsigned? text

/-- The value of an option: a threshold is a number of 32 bits, which is read as a signed number
first, and a call depth is a number of 64 bits. -/
def Valued.parse? : Valued → String → Option Nat
  | jitThreshold, text => (nonnegative? text.toList).filter (· ≤ 0xffffffff)
  | maxCallDepth, text => (unsigned? text.toList).filter (· ≤ 0xffffffffffffffff)

/-! ## Reading -/

namespace Progress

/-- Sets an option, which must not be set yet. -/
def set (p : Progress) (option : Valued) (text : String) : Except Stop Progress :=
  match option.parse? text with
  | none => .error .usage
  | some n =>
    match option, p.threshold, p.maxCallDepth with
    | .jitThreshold, none, _ => .ok { p with threshold := some n }
    | .maxCallDepth, _, none => .ok { p with maxCallDepth := some n }
    | _, _, _ => .error .usage

/-- Looks at what is pending. -/
def resolve (p : Progress) : Except Stop Progress :=
  match p.pending with
  | .nothing => .ok p
  | .missingValue _ => .error .usage
  | .value option text => { p with pending := .nothing }.set option text
  | .classFile name =>
    if name = "" then .error .usage
    else .ok { p with pending := .nothing, classFile := some name }

/-- A flag without a value: `--name`. -/
def flag (p : Progress) : String → Except Stop Progress
  | "help" => do
    let _ ← p.resolve
    throw .help
  | "version" => do
    let _ ← p.resolve
    throw .version
  | "verbose" => do
    let p ← p.resolve
    return { p with verbosity := p.verbosity + 1 }
  | "no-jit" => do
    let p ← p.resolve
    if p.noJit then throw .usage else return { p with noJit := true }
  | _ => throw .usage

/-- The option that takes a value and has a given name. -/
def valued? : String → Option Valued
  | "jit-threshold" => some .jitThreshold
  | "max-call-depth" => some .maxCallDepth
  | _ => none

/-- An argument after two hyphens, where `=` divides a name from its value. -/
def long (p : Progress) (text : List Char) : Except Stop Progress :=
  let name := String.ofList (text.takeWhile (· != '='))
  match valued? name, text.dropWhile (· != '=') with
  | some option, [] => do
    let p ← p.resolve
    return { p with pending := .missingValue option }
  | some option, _ :: value => do
    let p ← p.resolve
    p.set option (String.ofList value)
  | none, [] => p.flag name
  | none, _ :: _ => throw .usage

/-- One-letter flags after one hyphen. -/
def short (p : Progress) : List Char → Except Stop Progress
  | [] => .ok p
  | c :: rest => do
    let p ← match c with
      | 'v' => p.flag "verbose"
      | 'h' => p.flag "help"
      | 'V' => p.flag "version"
      | _ => throw .usage
    p.short rest

/-- An argument that is no option: a value that is due, or the name of the class file, of which
there is one. -/
def plain (p : Progress) (text : String) : Except Stop Progress :=
  match p.pending, p.trailing with
  | .missingValue option, false => .ok { p with pending := .value option text }
  | _, _ =>
    if p.named then .error .usage
    else do
      let p ← p.resolve
      return { p with pending := .classFile text, named := true }

/-- Takes an argument. -/
def take (p : Progress) (text : String) : Except Stop Progress :=
  if p.trailing then p.plain text
  else
    match text.toList with
    | ['-', '-'] => .ok { p with trailing := true }
    | '-' :: '-' :: rest => p.long rest
    | ['-'] => p.plain text
    | '-' :: rest => p.short rest
    | _ => p.plain text

/-- What was asked for, once all arguments are taken. -/
def finish (p : Progress) : Except Stop Options := do
  let p ← p.resolve
  match p.classFile with
  | none => throw .usage
  | some classFile =>
    let defaults : Config := {}
    return {
      classFile
      config := {
        maxCallDepth := p.maxCallDepth.getD defaults.maxCallDepth
        promotion := {
          enabled := !p.noJit
          threshold := p.threshold.getD defaults.promotion.threshold } }
      verbosity := p.verbosity }

end Progress

/-- Reads the arguments. -/
def parse (args : List String) : Except Stop Options := do
  let p ← args.foldlM Progress.take {}
  p.finish

/-! ## Answering -/

/-- The detail of the journal for a number of requests for more. -/
def detail : (verbosity : Nat) → Level
  | 0 => .warn
  | 1 => .info
  | 2 => .debug
  | _ => .trace

/-- The name under which the program reports. -/
def programName : String :=
  "coldbrew"

/-- What is written when the version is asked for. -/
def versionText : String :=
  s!"{programName} 0.1.0\n"

/-- What is written when help is asked for. -/
def helpText : String :=
  "Run a Java class file\n\n" ++
  s!"Usage: {programName} [OPTIONS] <CLASS_FILE>\n\n" ++
  "Options:\n" ++
  "      --no-jit              Interpret every method, never compile\n" ++
  "      --jit-threshold <N>   Calls before a method is compiled [default: 5]\n" ++
  "      --max-call-depth <N>  Deepest allowed chain of interpreted frames [default: 256]\n" ++
  "  -v, --verbose...          Log more (-v info, -vv debug, -vvv trace every instruction)\n" ++
  "  -h, --help                Print help\n" ++
  "  -V, --version             Print version\n"

/-- What is written when nothing is launched. -/
def Stop.text : Stop → String
  | help => helpText
  | version => versionText
  | usage => ""

/-- The line that reports a failure. -/
def report (e : LaunchError) : String :=
  s!"{programName}: {e.message}\n"

/-- What a command line comes to. -/
structure Reply where
  /-- The exit status. -/
  exitStatus : Nat
  /-- The bytes written. -/
  output : Array UInt8
  /-- The report of a failure. -/
  report : Option String

namespace Reply

/-- The reply when nothing is launched. -/
def ofStop (stop : Stop) : Reply :=
  ⟨stop.exitStatus, stop.text.toUTF8.data, none⟩

/-- The reply of a launch that ends so in this session. -/
def ofLaunch (s : Session) (outcome : Except LaunchError Unit) : Reply :=
  { exitStatus := Launch.status outcome
    output := s.sink.written
    report := match outcome with
      | .ok _ => none
      | .error e => some (CommandLine.report e) }

end Reply

/-- Answers a command line in at most `fuel` steps, where `read` gives the bytes of a file. -/
def reply (read : String → Except LoadError (List UInt8)) (fuel : Nat) (args : List String) :
    Option Reply :=
  match parse args with
  | .error stop => some (.ofStop stop)
  | .ok options =>
    match read options.classFile with
    | .error cause => some (.ofLaunch {} (.error (.load cause)))
    | .ok input =>
      (launch options.config fuel {} input).map fun (s, outcome) => .ofLaunch s outcome

/-- What is told of a class file once it is read. -/
def loadedEvent (c : ClassFile) : Event :=
  .loaded (c.className?.getD "<unnamed>") c.majorVersion c.minorVersion c.codedMethods.length

end TieredJvm.CommandLine
