import TieredJvm.ConstantPool
import TieredJvm.Heap
import TieredJvm.Hexadecimal
import TieredJvm.Program.Error
import TieredJvm.Sink

/-!
# Faults

What can go wrong while code runs. A fault ends the call from outside in which it arises, however
deep it arose, and undoes nothing.
-/

namespace TieredJvm

/-- Why a call ends without a value. -/
inductive Fault where
  /-- An index does not lead to the constant that the instruction needs. -/
  | resolution (cause : ResolutionError)
  /-- A descriptor is malformed, or there is no entry point. -/
  | program (cause : ProgramError)
  /-- The operand stack holds too few words. -/
  | stackUnderflow (pc : Nat)
  /-- The frame has no such local variable. -/
  | localOutOfRange (slot maxLocals : Nat)
  /-- A word that refers to no object is used as a reference. -/
  | invalidReference (reference : Int32) (heapSize : Nat)
  /-- There is no reference left for a new object. -/
  | heapExhausted (cause : HeapExhausted)
  /-- A byte stands for no operation. -/
  | unsupportedOpcode (opcode : UInt8) (pc : Nat)
  /-- The operands of an instruction lie past the end of the code. -/
  | truncatedInstruction (opcode : UInt8) (pc : Nat)
  /-- A branch that is taken leads out of the code. -/
  | invalidBranch (pc : Nat) (target : Int)
  /-- A word that is no index is used as that of a string constant. -/
  | invalidConstantToken (token : Int32)
  /-- A method is called that the machine cannot call in that way. -/
  | unsupportedInvocation (key : MethodKey)
  /-- The program has no such method. -/
  | methodNotFound (key : MethodKey)
  /-- There are as many frames as there may be. -/
  | callDepthExceeded (limit : Nat)
  /-- There are more arguments than the method has local variables. -/
  | tooManyArguments (given maxLocals : Nat)
  /-- The output sink failed. -/
  | output (cause : SinkError)
  deriving DecidableEq

/-- The text of a fault. -/
def Fault.message : Fault → String
  | resolution cause => cause.message
  | program cause => cause.message
  | stackUnderflow pc => s!"operand stack underflow at pc {pc}"
  | localOutOfRange slot maxLocals =>
    s!"local variable {slot} out of range (max_locals {maxLocals})"
  | invalidReference reference heapSize =>
    s!"invalid heap reference {reference.toInt} (heap holds {heapSize} objects)"
  | heapExhausted cause => cause.message
  | unsupportedOpcode opcode pc => s!"unsupported opcode {hexByte opcode} at pc {pc}"
  | truncatedInstruction opcode pc =>
    s!"instruction {hexByte opcode} at pc {pc} runs past the end of the bytecode"
  | invalidBranch pc target => s!"branch at pc {pc} targets {target}, outside the method"
  | invalidConstantToken token => s!"value {token.toInt} is not a constant pool index"
  | unsupportedInvocation key => s!"unsupported invocation of {key.text}"
  | methodNotFound key => s!"method {key.text} not found"
  | callDepthExceeded limit => s!"call depth limit of {limit} frames exceeded"
  | tooManyArguments given maxLocals =>
    s!"{given} arguments passed to a method with max_locals {maxLocals}"
  | output cause => s!"output error: {cause.message}"

end TieredJvm
