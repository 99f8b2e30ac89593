import TieredJvm.Fault
import TieredJvm.Instruction
import TieredJvm.Program.Basic

/-!
# Frames

The activation of a method: where it is in its code, its operand stack and its local variables.
The operations here either do what they say or give the fault that they raise. They leave `pc` at
the instruction being executed, which is what an underflow reports.
-/

namespace TieredJvm

/-- The activation of a method. -/
structure Frame where
  /-- The method that is active. -/
  method : Method
  /-- The position in its code. -/
  pc : Nat
  /-- The operand stack, the top first. -/
  stack : List Int32
  /-- The local variables. -/
  locals : Array Int32

namespace Frame

/-- Checks that there is a local variable for every argument. -/
def checkArity (m : Method) (given : Nat) : Except Fault Unit :=
  if given ≤ m.maxLocals then .ok () else .error (.tooManyArguments given m.maxLocals)

/-- The local variables at the start: the arguments, and zeros after them. -/
def initialLocals (maxLocals : Nat) (args : List Int32) : Array Int32 :=
  (args ++ List.replicate (maxLocals - args.length) 0).toArray

/-- There are as many local variables as are asked for, if the arguments fit. -/
theorem size_initialLocals {maxLocals : Nat} {args : List Int32} (h : args.length ≤ maxLocals) :
    (initialLocals maxLocals args).size = maxLocals := by
  rw [initialLocals, List.size_toArray, List.length_append, List.length_replicate]
  omega

/-- The activation of a method at its start. -/
def initial (m : Method) (args : List Int32) : Except Fault Frame :=
  match checkArity m args.length with
  | .ok _ => .ok ⟨m, 0, [], initialLocals m.maxLocals args⟩
  | .error e => .error e

/-- Pushes a word. -/
def push (f : Frame) (value : Int32) : Frame :=
  { f with stack := value :: f.stack }

/-- Pops a word. -/
def pop (f : Frame) : Except Fault (Int32 × Frame) :=
  match f.stack with
  | value :: rest => .ok (value, { f with stack := rest })
  | [] => .error (.stackUnderflow f.pc)

/-- Pops a number of words at once, and gives them in the order in which they were pushed. -/
def popMany (f : Frame) (count : Nat) : Except Fault (List Int32 × Frame) :=
  if count ≤ f.stack.length then
    .ok ((f.stack.take count).reverse, { f with stack := f.stack.drop count })
  else .error (.stackUnderflow f.pc)

/-- Reads a local variable. -/
def load (f : Frame) (slot : Nat) : Except Fault Int32 :=
  match f.locals[slot]? with
  | some value => .ok value
  | none => .error (.localOutOfRange slot f.locals.size)

/-- Writes a local variable. -/
def store (f : Frame) (slot : Nat) (value : Int32) : Except Fault Frame :=
  if slot < f.locals.size then .ok { f with locals := f.locals.setIfInBounds slot value }
  else .error (.localOutOfRange slot f.locals.size)

/-- Where a branch leads, which must be inside the code. -/
def branchTarget (f : Frame) (offset : Int16) : Except Fault Nat :=
  let target : Int := f.pc + offset.toInt
  if 0 ≤ target ∧ target < f.method.code.size then .ok target.toNat
  else .error (.invalidBranch f.pc target)

end Frame

/-- An opcode as it stands in code, with the two bytes after it. Bytes past the end of the code
read as zero; the opcode is too short to have them as operands. -/
structure Fetched where
  /-- The opcode. -/
  op : Opcode
  /-- The first byte after the opcode. -/
  x : UInt8
  /-- The second byte after the opcode. -/
  y : UInt8

/-- Reads the opcode at a position, and checks that its operands lie inside the code. -/
def fetch (code : Array UInt8) (pc : Nat) (h : pc < code.size) : Except Fault Fetched :=
  match Opcode.ofByte? code[pc] with
  | none => .error (.unsupportedOpcode code[pc] pc)
  | some op =>
    if pc + op.width ≤ code.size then .ok ⟨op, code.getD (pc + 1) 0, code.getD (pc + 2) 0⟩
    else .error (.truncatedInstruction code[pc] pc)

end TieredJvm
