import TieredJvm.Fault
import TieredJvm.Native

/-!
# The journal

What the machine tells of its work, event by event. Each event has a level; a journal keeps the
events up to the level of detail that it was opened with, in order.
-/

namespace TieredJvm

/-- How much detail an event is. -/
inductive Level where
  | warn | info | debug | trace
  deriving DecidableEq

namespace Level

/-- The levels in order, from the most to the least severe. -/
def rank : Level → Nat
  | warn => 1
  | info => 2
  | debug => 3
  | trace => 4

/-- The name of a level before a message. -/
def name : Level → String
  | warn => "WARN"
  | info => "INFO"
  | debug => "DEBUG"
  | trace => "TRACE"

end Level

/-- Something that the journal tells of. -/
inductive Event where
  /-- A hot method cannot be compiled. -/
  | notCompiled (key : MethodKey) (cause : CompileError)
  /-- A hot method was compiled to that many bytes. -/
  | compiled (key : MethodKey) (size : Nat)
  /-- Compiled code returned. -/
  | nativeReturned (key : MethodKey) (value : Int32)
  /-- A frame was opened; `depth` counts the frames with it. -/
  | entering (key : MethodKey) (depth : Nat)
  /-- A frame was closed with a value. -/
  | leaving (name : String) (value : Int32)
  /-- A frame was closed by a fault. -/
  | unwinding (name : String) (fault : Fault)
  /-- An object was allocated. -/
  | allocated (className : String) (reference : Int32)
  /-- A constructor call was skipped. -/
  | skipped (member : MemberRef)
  /-- An instruction is about to be executed; `x` and `y` are the two bytes after its opcode. -/
  | executing (pc : Nat) (op : Opcode) (x y : UInt8)
  /-- A class file was read. -/
  | parsed (major minor : UInt16) (constants methods : Nat)
  /-- A method without code was left out. -/
  | bodiless (key : MethodKey)
  /-- The class with its methods was loaded from a file. -/
  | loaded (className : String) (major minor : UInt16) (methods : Nat)

namespace Event

/-- The level of an event. -/
def level : Event → Level
  | notCompiled .. => .warn
  | compiled .. | loaded .. => .info
  | executing .. => .trace
  | nativeReturned .. | entering .. | leaving .. | unwinding .. | allocated .. | skipped ..
  | parsed .. | bodiless .. => .debug

/-- A number in a column of four characters, or as many as it needs. -/
def column (n : Nat) : String :=
  let digits := toString n
  String.ofList (List.replicate (4 - digits.length) ' ') ++ digits

/-- The operand bytes of an instruction, as a bracketed list. -/
def operands (op : Opcode) (x y : UInt8) : String :=
  "[" ++ ", ".intercalate (([x, y].take (op.width - 1)).map fun b => toString b.toNat) ++ "]"

/-- The text of an event. -/
def message : Event → String
  | notCompiled key cause =>
    s!"not compiling {key.text}: {cause.message}; falling back to the interpreter"
  | compiled key size => s!"jit compiled {key.text} ({size} bytes)"
  | nativeReturned key value => s!"native {key.text} returned {value.toInt}"
  | entering key depth => s!"--- entering frame {key.text} (depth {depth}) ---"
  | leaving name value => s!"--- leaving frame {name} (result {value.toInt}) ---"
  | unwinding name fault => s!"--- unwinding frame {name}: {fault.message} ---"
  | allocated className reference => s!"allocated {className} at heap reference {reference.toInt}"
  | skipped member => s!"skipped {member.className}.{member.name}{member.descriptor}"
  | executing pc op x y => s!"{column pc}: {op.name} {operands op x y}"
  | parsed major minor constants methods =>
    s!"parsed class file v{major}.{minor}: {constants} constants, {methods} methods"
  | bodiless key => s!"skipping method {key.text}: no Code attribute"
  | loaded className major minor methods =>
    s!"loaded {className} v{major}.{minor} ({methods} methods)"

/-- An event as a line of text: its level and its message. -/
def line (e : Event) : String :=
  s!"{e.level.name} {e.message}"

end Event

/-- A journal. -/
structure Journal where
  /-- The least severe level that is kept; none keeps nothing. -/
  detail : Option Level := none
  /-- The events kept so far, in order. -/
  events : Array Event := #[]

namespace Journal

/-- Whether events of a level are kept. -/
def keeps (j : Journal) (level : Level) : Bool :=
  match j.detail with
  | none => false
  | some detail => level.rank ≤ detail.rank

/-- Tells of an event. -/
def record (j : Journal) (e : Event) : Journal :=
  if j.keeps e.level then { j with events := j.events.push e } else j

end Journal

end TieredJvm
