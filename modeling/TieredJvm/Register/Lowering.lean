import TieredJvm.Hexadecimal
import TieredJvm.Opcode
import TieredJvm.Program.Method
import TieredJvm.Register.Program

/-!
# Lowering

Turns a method into a register program, if the method does nothing but add up at most two integer
arguments. The code is scanned once, byte by byte, from the first to the last; in place of the
operand stack the scan keeps which register holds each operand. An addition overwrites a register,
so the scan refuses to load an argument from an overwritten register, and to overwrite a register
while an operand further down still waits in it.
-/

namespace TieredJvm

/-- Why a method is not lowered. -/
inductive LoweringError where
  /-- An opcode other than those that add up arguments, or a byte that is none. -/
  | unsupportedOpcode (opcode : UInt8) (pc : Nat)
  /-- An operation finds too few operands. -/
  | stackUnderflow (pc : Nat)
  /-- The code does nothing. -/
  | emptyMethod
  /-- The last operation is no return. -/
  | missingReturn
  /-- A return of a value that is not in the result register. -/
  | resultNotInReturnRegister
  /-- A register is overwritten while its old contents are needed. -/
  | registerClobbered (index : Nat) (pc : Nat)
  /-- A load of an argument that the method does not take. -/
  | missingArgument (index : Nat) (arity : Nat)
  /-- The method takes or gives something else than integers, or takes more than two. -/
  | unsupportedSignature (descriptor : String)
  deriving DecidableEq

/-- The text of a refusal. -/
def LoweringError.message : LoweringError → String
  | unsupportedOpcode opcode pc => s!"opcode {hexByte opcode} at pc {pc} is not compilable"
  | stackUnderflow pc => s!"operand stack underflow at pc {pc}"
  | emptyMethod => "method has no bytecode"
  | missingReturn => "method does not end in a return"
  | resultNotInReturnRegister => "result is not in the return register"
  | registerClobbered index pc =>
    s!"argument register {index} no longer holds its argument at pc {pc}"
  | missingArgument index arity => s!"method loads argument {index} but takes {arity}"
  | unsupportedSignature descriptor => s!"signature {descriptor} is not compilable"

namespace Lowering

/-- The state of the scan. -/
structure Scan where
  /-- The register that holds each operand, the top of the stack first. -/
  operands : List Register := []
  /-- Whether the first register was overwritten. -/
  clobberedA0 : Bool := false
  /-- Whether the second register was overwritten. -/
  clobberedA1 : Bool := false
  /-- The register program so far. -/
  program : Array RegisterOp := #[]

namespace Scan

/-- Whether a register was overwritten. -/
def clobbered (s : Scan) : Register → Bool
  | .a0 => s.clobberedA0
  | .a1 => s.clobberedA1

/-- Notes that a register is overwritten. -/
def clobber (s : Scan) : Register → Scan
  | .a0 => { s with clobberedA0 := true }
  | .a1 => { s with clobberedA1 := true }

/-- A load of the argument that a register starts with. -/
def load (s : Scan) (arity pc : Nat) (r : Register) : Except LoweringError Scan :=
  if arity ≤ r.index then .error (.missingArgument r.index arity)
  else if s.clobbered r then .error (.registerClobbered r.index pc)
  else .ok { s with operands := r :: s.operands }

/-- An addition: the result goes to the register of the left operand. -/
def add (s : Scan) (pc : Nat) : Except LoweringError Scan :=
  match s.operands with
  | src :: dst :: rest =>
    if dst ∈ rest then .error (.registerClobbered dst.index pc)
    else .ok { s.clobber dst with
      operands := dst :: rest
      program := s.program.push (.add dst src) }
  | _ => .error (.stackUnderflow pc)

/-- A return, which does not end the scan. -/
def ret (s : Scan) (pc : Nat) : Except LoweringError Scan :=
  match s.operands with
  | src :: rest =>
    if src = Register.result then
      .ok { s with operands := rest, program := s.program.push (.ret src) }
    else .error .resultNotInReturnRegister
  | [] => .error (.stackUnderflow pc)

/-- Scans the byte at `pc`. -/
def step (arity pc : Nat) (s : Scan) (byte : UInt8) : Except LoweringError Scan :=
  match Opcode.ofByte? byte with
  | some .iload0 => s.load arity pc .a0
  | some .iload1 => s.load arity pc .a1
  | some .iadd => s.add pc
  | some .ireturn => s.ret pc
  | _ => .error (.unsupportedOpcode byte pc)

/-- Scans the bytes from `pc` on. -/
def run (arity pc : Nat) (s : Scan) : List UInt8 → Except LoweringError Scan
  | [] => .ok s
  | byte :: rest =>
    match s.step arity pc byte with
    | .ok s => run arity (pc + 1) s rest
    | .error e => .error e

end Scan

/-- Whether a signature takes at most two integers and gives one. -/
def eligible (s : Signature) : Bool :=
  s.result = some .int && s.args.length ≤ 2 && s.args.all (· = .int)

end Lowering

open Lowering in
/-- The register program of a method. -/
def Method.lower (m : Method) : Except LoweringError (List RegisterOp) :=
  if eligible m.signature then
    match Scan.run m.signature.args.length 0 {} m.code.toList with
    | .error e => .error e
    | .ok s =>
      match s.program.back? with
      | none => .error .emptyMethod
      | some (.ret _) => .ok s.program.toList
      | some (.add _ _) => .error .missingReturn
  else .error (.unsupportedSignature m.descriptor)

end TieredJvm
