import TieredJvm.Register.Program

/-!
# A64

The part of the A64 instruction set that register programs need. Every instruction is one 32-bit
word, stored low byte first, in which register numbers fill five-bit fields of a fixed pattern. By
the calling convention argument `n` arrives in `Wn` and the result leaves in `W0`, so returning
the first register takes no move.
-/

namespace TieredJvm.A64

/-- The mask of `length` bits from bit `start` up. -/
def mask (length start : UInt32) : UInt32 :=
  (((1 : UInt32) <<< length) - 1) <<< start

/-- A register number in the five-bit field at `start`; higher bits of the number are dropped. -/
def field (number : UInt8) (start : UInt32) : UInt32 :=
  (number.toUInt32 <<< start) &&& mask 5 start

/-- An instruction, with its registers by number. -/
inductive Instr where
  /-- `Wd := Wn + Wm`. -/
  | add (rd rn rm : UInt8)
  /-- `Wd := Wm`: a bitwise or with the zero register. -/
  | mov (rd rm : UInt8)
  /-- Returns to the caller. -/
  | ret
  deriving DecidableEq

namespace Instr

/-- The word of an instruction. -/
def encode : Instr → UInt32
  | add rd rn rm => 0x0b000000 ||| field rm 16 ||| field rn 5 ||| field rd 0
  | mov rd rm => 0x2a0003e0 ||| field rm 16 ||| field rd 0
  | ret => 0xd65f03c0

/-- The register number in the five-bit field of a word at `start`. -/
def registerAt (word start : UInt32) : UInt8 :=
  ((word >>> start) &&& 31).toUInt8

/-- Reads the instruction of a word. -/
def decode? (word : UInt32) : Option Instr :=
  if word = 0xd65f03c0 then some ret
  else if word &&& 0xffe0fc00 = 0x0b000000 then
    some (add (registerAt word 0) (registerAt word 5) (registerAt word 16))
  else if word &&& 0xffe0ffe0 = 0x2a0003e0 then
    some (mov (registerAt word 0) (registerAt word 16))
  else none

/-- What a register number stands for: 31 is the zero register, which never holds what was written
to it. -/
def read (w : UInt8 → Int32) (number : UInt8) : Int32 :=
  if number = 31 then 0 else w number

/-- Runs instructions until the first return, and gives what `W0` then holds. -/
def run : List Instr → (UInt8 → Int32) → Option Int32
  | [], _ => none
  | add rd rn rm :: rest, w => run rest fun x => if x = rd then read w rn + read w rm else w x
  | mov rd rm :: rest, w => run rest fun x => if x = rd then read w rm else w x
  | ret :: _, w => some (read w 0)

end Instr

/-- The four bytes of a word, low byte first. -/
def wordBytes (word : UInt32) : List UInt8 :=
  [word.toUInt8, (word >>> 8).toUInt8, (word >>> 16).toUInt8, (word >>> 24).toUInt8]

/-- Reads bytes as words, low byte first; there must be a whole number of words. -/
def words? : List UInt8 → Option (List UInt32)
  | [] => some []
  | b₀ :: b₁ :: b₂ :: b₃ :: rest =>
    let word :=
      b₀.toUInt32 ||| (b₁.toUInt32 <<< 8) ||| (b₂.toUInt32 <<< 16) ||| (b₃.toUInt32 <<< 24)
    (words? rest).map (word :: ·)
  | _ => none

/-- The number of the register that the calling convention assigns to an argument. -/
def argument : Register → UInt8
  | .a0 => 0
  | .a1 => 1

/-- The instructions of one operation. -/
def select : RegisterOp → List Instr
  | .add dst src => [.add (argument dst) (argument dst) (argument src)]
  | .ret src =>
    if src = Register.result then [.ret] else [.mov (argument .result) (argument src), .ret]

/-- The machine code of a register program. -/
def assemble (program : List RegisterOp) : List UInt8 :=
  (program.flatMap select).flatMap fun i => wordBytes i.encode

end TieredJvm.A64
