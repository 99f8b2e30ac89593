import TieredJvm.Register.Program

/-!
# x86-64

The part of the x86-64 instruction set that register programs need: 32-bit register-to-register
`add` and `mov`, and `ret`. By the calling convention the two arguments arrive in `edi` and `esi`
and the result leaves in `eax`, all of them registers that a callee may overwrite, so the code of
a register program needs no frame. Every register operand is encoded with an (empty) REX byte.
-/

namespace TieredJvm.X64

/-- The eight legacy 32-bit registers. -/
inductive Reg where
  | eax | ecx | edx | ebx | esp | ebp | esi | edi
  deriving DecidableEq

namespace Reg

/-- The number of a register in an encoding. -/
def number : Reg → UInt8
  | eax => 0
  | ecx => 1
  | edx => 2
  | ebx => 3
  | esp => 4
  | ebp => 5
  | esi => 6
  | edi => 7

/-- The register with a given number, read from the low three bits. -/
def ofNumber (n : UInt8) : Reg :=
  match n &&& 7 with
  | 0 => eax
  | 1 => ecx
  | 2 => edx
  | 3 => ebx
  | 4 => esp
  | 5 => ebp
  | 6 => esi
  | _ => edi

end Reg

/-- An instruction. -/
inductive Instr where
  /-- `dst := dst + src`. -/
  | add (dst src : Reg)
  /-- `dst := src`. -/
  | mov (dst src : Reg)
  /-- Returns to the caller. -/
  | ret
  deriving DecidableEq

/-- The byte that names the two registers of an instruction. -/
def modRm (dst src : Reg) : UInt8 :=
  (0xc0 : UInt8) ||| (src.number <<< 3) ||| dst.number

namespace Instr

/-- The bytes of an instruction. -/
def encode : Instr → List UInt8
  | add dst src => [0x40, 0x01, modRm dst src]
  | mov dst src => [0x40, 0x89, modRm dst src]
  | ret => [0xc3]

/-- Reads one instruction from the start of some bytes. -/
def decode? : List UInt8 → Option (Instr × List UInt8)
  | 0x40 :: 0x01 :: m :: rest =>
    if m &&& 0xc0 = 0xc0 then some (add (.ofNumber m) (.ofNumber (m >>> 3)), rest) else none
  | 0x40 :: 0x89 :: m :: rest =>
    if m &&& 0xc0 = 0xc0 then some (mov (.ofNumber m) (.ofNumber (m >>> 3)), rest) else none
  | 0xc3 :: rest => some (ret, rest)
  | _ => none

/-- Runs instructions until the first return, and gives what `eax` then holds. -/
def run : List Instr → (Reg → Int32) → Option Int32
  | [], _ => none
  | add dst src :: rest, r => run rest fun x => if x = dst then r dst + r src else r x
  | mov dst src :: rest, r => run rest fun x => if x = dst then r src else r x
  | ret :: _, r => some (r .eax)

end Instr

/-- The register that the calling convention assigns to an argument. -/
def argument : Register → Reg
  | .a0 => .edi
  | .a1 => .esi

/-- The instructions of one operation. -/
def select : RegisterOp → List Instr
  | .add dst src => [.add (argument dst) (argument src)]
  | .ret src => [.mov .eax (argument src), .ret]

/-- The machine code of a register program. -/
def assemble (program : List RegisterOp) : List UInt8 :=
  (program.flatMap select).flatMap Instr.encode

end TieredJvm.X64
