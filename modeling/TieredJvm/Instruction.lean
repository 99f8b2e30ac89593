import TieredJvm.Opcode

/-!
# Instructions

What an opcode and its operand bytes mean. `Opcode` lists the encodings; `Instruction` lists the
meanings, with the operands read: the four short forms of a load and the long one are all
`load`, and the twelve conditional branches are two, with the comparison as a parameter.
-/

namespace TieredJvm

/-- The tests that conditional branches make. -/
inductive Comparison where
  | eq | ne | lt | ge | gt | le
  deriving DecidableEq

/-- Whether the test holds of two words, as signed numbers. -/
def Comparison.holds : Comparison → Int32 → Int32 → Bool
  | .eq, a, b => a == b
  | .ne, a, b => a != b
  | .lt, a, b => a < b
  | .ge, a, b => b ≤ a
  | .gt, a, b => b < a
  | .le, a, b => a ≤ b

/-- The arithmetic of the machine: each operation wraps around modulo `2 ^ 32`. -/
inductive Arithmetic where
  | add | sub | mul
  deriving DecidableEq

/-- The result of an arithmetic operation. -/
def Arithmetic.apply : Arithmetic → Int32 → Int32 → Int32
  | .add, a, b => a + b
  | .sub, a, b => a - b
  | .mul, a, b => a * b

/-- An instruction with its operands read. Branch offsets count from the branch itself. -/
inductive Instruction where
  /-- Does nothing. -/
  | nop
  /-- Pushes a word. -/
  | push (value : Int32)
  /-- Pushes the constant at an index: a number as itself, a text as its index. -/
  | pushConstant (index : UInt16)
  /-- Pushes a local variable. -/
  | load (slot : Nat)
  /-- Pops a word into a local variable. -/
  | store (slot : Nat)
  /-- Drops the top word. -/
  | pop
  /-- Pushes the top word again. -/
  | dup
  /-- Pops the right and then the left operand, and pushes the result. -/
  | arithmetic (operation : Arithmetic)
  /-- Adds to a local variable. -/
  | increment (slot : Nat) (delta : Int32)
  /-- Pops a word and branches if it compares so with zero. -/
  | branchZero (test : Comparison) (offset : Int16)
  /-- Pops the right and then the left operand, and branches if they compare so. -/
  | branchPair (test : Comparison) (offset : Int16)
  /-- Branches. -/
  | jump (offset : Int16)
  /-- Pops a word and leaves the method with it. -/
  | returnValue
  /-- Leaves the method without a value. -/
  | returnVoid
  /-- Pushes a stand-in for a static field. -/
  | getStatic (index : UInt16)
  /-- Allocates an object of the class at an index and pushes its reference. -/
  | new (index : UInt16)
  /-- Pops a reference and pushes a field of its object. -/
  | getField (index : UInt16)
  /-- Pops a value and then a reference, and writes a field of its object. -/
  | putField (index : UInt16)
  /-- Prints: the only virtual methods known are the printing ones. -/
  | invokeVirtual (index : UInt16)
  /-- Drops the arguments and the receiver of a constructor, which is not run. -/
  | invokeSpecial (index : UInt16)
  /-- Calls a method of the program. -/
  | invokeStatic (index : UInt16)
  deriving DecidableEq

namespace Instruction

/-- The 16-bit word of two bytes, high byte first. -/
def word (high low : UInt8) : UInt16 :=
  high.toUInt16 <<< 8 ||| low.toUInt16

/-- The signed 16-bit number of two bytes, high byte first. -/
def signedWord (high low : UInt8) : Int16 :=
  (word high low).toInt16

/-- A byte as a signed number. -/
def signedByte (b : UInt8) : Int32 :=
  b.toInt8.toInt32

/-- The meaning of an opcode whose operand bytes are `x` and `y`; an opcode of width two ignores
`y`, and one of width one ignores both. -/
def decode (op : Opcode) (x y : UInt8) : Instruction :=
  match op with
  | .nop => nop
  | .iconstM1 => push (-1)
  | .iconst0 => push 0
  | .iconst1 => push 1
  | .iconst2 => push 2
  | .iconst3 => push 3
  | .iconst4 => push 4
  | .iconst5 => push 5
  | .bipush => push (signedByte x)
  | .sipush => push (signedWord x y).toInt32
  | .ldc => pushConstant x.toUInt16
  | .iload => load x.toNat
  | .iload0 | .aload0 => load 0
  | .iload1 | .aload1 => load 1
  | .iload2 | .aload2 => load 2
  | .iload3 | .aload3 => load 3
  | .istore => store x.toNat
  | .istore0 | .astore0 => store 0
  | .istore1 | .astore1 => store 1
  | .istore2 | .astore2 => store 2
  | .istore3 | .astore3 => store 3
  | .pop => pop
  | .dup => dup
  | .iadd => arithmetic .add
  | .isub => arithmetic .sub
  | .imul => arithmetic .mul
  | .iinc => increment x.toNat (signedByte y)
  | .ifEq => branchZero .eq (signedWord x y)
  | .ifNe => branchZero .ne (signedWord x y)
  | .ifLt => branchZero .lt (signedWord x y)
  | .ifGe => branchZero .ge (signedWord x y)
  | .ifGt => branchZero .gt (signedWord x y)
  | .ifLe => branchZero .le (signedWord x y)
  | .ifIcmpEq => branchPair .eq (signedWord x y)
  | .ifIcmpNe => branchPair .ne (signedWord x y)
  | .ifIcmpLt => branchPair .lt (signedWord x y)
  | .ifIcmpGe => branchPair .ge (signedWord x y)
  | .ifIcmpGt => branchPair .gt (signedWord x y)
  | .ifIcmpLe => branchPair .le (signedWord x y)
  | .goto => jump (signedWord x y)
  | .ireturn | .areturn => returnValue
  | .vreturn => returnVoid
  | .getStatic => getStatic (word x y)
  | .getField => getField (word x y)
  | .putField => putField (word x y)
  | .invokeVirtual => invokeVirtual (word x y)
  | .invokeSpecial => invokeSpecial (word x y)
  | .invokeStatic => invokeStatic (word x y)
  | .new => new (word x y)

/-- The meaning of an instruction of width one does not depend on the bytes after it. -/
theorem decode_of_width_one {op : Opcode} (h : op.width = 1) (x y x' y' : UInt8) :
    decode op x y = decode op x' y' := by
  cases op <;> simp [Opcode.width] at h <;> rfl

/-- The meaning of an instruction of width two depends on the byte after it only. -/
theorem decode_of_width_two {op : Opcode} (h : op.width = 2) (x y y' : UInt8) :
    decode op x y = decode op x y' := by
  cases op <;> simp [Opcode.width] at h <;> rfl

end Instruction

end TieredJvm
