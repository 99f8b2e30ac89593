/-!
# Opcodes

The fifty-eight operations that the machine executes. Each has one byte, one width and one name;
every other byte names no operation, so that the machine never has to guess how far to move past
one it does not know.
-/

namespace TieredJvm

/-- An operation of the machine. A digit at the end of a name is an operand fixed by the opcode
itself: `iload2` loads local variable 2. -/
inductive Opcode where
  | nop | iconstM1 | iconst0 | iconst1 | iconst2 | iconst3 | iconst4 | iconst5 | bipush | sipush
  | ldc | iload | iload0 | iload1 | iload2 | iload3 | aload0 | aload1 | aload2 | aload3 | istore
  | istore0 | istore1 | istore2 | istore3 | astore0 | astore1 | astore2 | astore3 | pop | dup
  | iadd | isub | imul | iinc | ifEq | ifNe | ifLt | ifGe | ifGt | ifLe | ifIcmpEq | ifIcmpNe
  | ifIcmpLt | ifIcmpGe | ifIcmpGt | ifIcmpLe | goto | ireturn | areturn | vreturn | getStatic
  | getField | putField | invokeVirtual | invokeSpecial | invokeStatic | new
  deriving DecidableEq

namespace Opcode

/-- The byte that stands for the operation in code. -/
def byte : Opcode → UInt8
  | nop => 0x00
  | iconstM1 => 0x02
  | iconst0 => 0x03
  | iconst1 => 0x04
  | iconst2 => 0x05
  | iconst3 => 0x06
  | iconst4 => 0x07
  | iconst5 => 0x08
  | bipush => 0x10
  | sipush => 0x11
  | ldc => 0x12
  | iload => 0x15
  | iload0 => 0x1a
  | iload1 => 0x1b
  | iload2 => 0x1c
  | iload3 => 0x1d
  | aload0 => 0x2a
  | aload1 => 0x2b
  | aload2 => 0x2c
  | aload3 => 0x2d
  | istore => 0x36
  | istore0 => 0x3b
  | istore1 => 0x3c
  | istore2 => 0x3d
  | istore3 => 0x3e
  | astore0 => 0x4b
  | astore1 => 0x4c
  | astore2 => 0x4d
  | astore3 => 0x4e
  | pop => 0x57
  | dup => 0x59
  | iadd => 0x60
  | isub => 0x64
  | imul => 0x68
  | iinc => 0x84
  | ifEq => 0x99
  | ifNe => 0x9a
  | ifLt => 0x9b
  | ifGe => 0x9c
  | ifGt => 0x9d
  | ifLe => 0x9e
  | ifIcmpEq => 0x9f
  | ifIcmpNe => 0xa0
  | ifIcmpLt => 0xa1
  | ifIcmpGe => 0xa2
  | ifIcmpGt => 0xa3
  | ifIcmpLe => 0xa4
  | goto => 0xa7
  | ireturn => 0xac
  | areturn => 0xb0
  | vreturn => 0xb1
  | getStatic => 0xb2
  | getField => 0xb4
  | putField => 0xb5
  | invokeVirtual => 0xb6
  | invokeSpecial => 0xb7
  | invokeStatic => 0xb8
  | new => 0xbb

/-- The operation that a byte stands for, if there is one. -/
def ofByte? : UInt8 → Option Opcode
  | 0x00 => some nop
  | 0x02 => some iconstM1
  | 0x03 => some iconst0
  | 0x04 => some iconst1
  | 0x05 => some iconst2
  | 0x06 => some iconst3
  | 0x07 => some iconst4
  | 0x08 => some iconst5
  | 0x10 => some bipush
  | 0x11 => some sipush
  | 0x12 => some ldc
  | 0x15 => some iload
  | 0x1a => some iload0
  | 0x1b => some iload1
  | 0x1c => some iload2
  | 0x1d => some iload3
  | 0x2a => some aload0
  | 0x2b => some aload1
  | 0x2c => some aload2
  | 0x2d => some aload3
  | 0x36 => some istore
  | 0x3b => some istore0
  | 0x3c => some istore1
  | 0x3d => some istore2
  | 0x3e => some istore3
  | 0x4b => some astore0
  | 0x4c => some astore1
  | 0x4d => some astore2
  | 0x4e => some astore3
  | 0x57 => some pop
  | 0x59 => some dup
  | 0x60 => some iadd
  | 0x64 => some isub
  | 0x68 => some imul
  | 0x84 => some iinc
  | 0x99 => some ifEq
  | 0x9a => some ifNe
  | 0x9b => some ifLt
  | 0x9c => some ifGe
  | 0x9d => some ifGt
  | 0x9e => some ifLe
  | 0x9f => some ifIcmpEq
  | 0xa0 => some ifIcmpNe
  | 0xa1 => some ifIcmpLt
  | 0xa2 => some ifIcmpGe
  | 0xa3 => some ifIcmpGt
  | 0xa4 => some ifIcmpLe
  | 0xa7 => some goto
  | 0xac => some ireturn
  | 0xb0 => some areturn
  | 0xb1 => some vreturn
  | 0xb2 => some getStatic
  | 0xb4 => some getField
  | 0xb5 => some putField
  | 0xb6 => some invokeVirtual
  | 0xb7 => some invokeSpecial
  | 0xb8 => some invokeStatic
  | 0xbb => some new
  | _ => none

/-- The size of the whole instruction in bytes, its opcode included. -/
def width : Opcode → Nat
  | bipush | ldc | iload | istore => 2
  | sipush | iinc | ifEq | ifNe | ifLt | ifGe | ifGt | ifLe | ifIcmpEq | ifIcmpNe | ifIcmpLt
  | ifIcmpGe | ifIcmpGt | ifIcmpLe | goto | getStatic | getField | putField | invokeVirtual
  | invokeSpecial | invokeStatic | new => 3
  | _ => 1

/-- The name under which the journal shows the operation. -/
def name : Opcode → String
  | nop => "NOP"
  | iconstM1 => "IconstM1"
  | iconst0 => "Iconst0"
  | iconst1 => "Iconst1"
  | iconst2 => "Iconst2"
  | iconst3 => "Iconst3"
  | iconst4 => "Iconst4"
  | iconst5 => "Iconst5"
  | bipush => "BiPush"
  | sipush => "SiPush"
  | ldc => "Ldc"
  | iload => "ILoad"
  | iload0 => "ILoad0"
  | iload1 => "ILoad1"
  | iload2 => "ILoad2"
  | iload3 => "ILoad3"
  | aload0 => "ALoad0"
  | aload1 => "ALoad1"
  | aload2 => "ALoad2"
  | aload3 => "ALoad3"
  | istore => "IStore"
  | istore0 => "IStore0"
  | istore1 => "IStore1"
  | istore2 => "IStore2"
  | istore3 => "IStore3"
  | astore0 => "AStore0"
  | astore1 => "AStore1"
  | astore2 => "AStore2"
  | astore3 => "AStore3"
  | pop => "Pop"
  | dup => "Dup"
  | iadd => "IAdd"
  | isub => "ISub"
  | imul => "IMul"
  | iinc => "IInc"
  | ifEq => "IfEq"
  | ifNe => "IfNe"
  | ifLt => "IfLt"
  | ifGe => "IfGe"
  | ifGt => "IfGt"
  | ifLe => "IfLe"
  | ifIcmpEq => "IfICmpEq"
  | ifIcmpNe => "IfICmpNe"
  | ifIcmpLt => "IfICmpLt"
  | ifIcmpGe => "IfICmpGe"
  | ifIcmpGt => "IfICmpGt"
  | ifIcmpLe => "IfICmpLe"
  | goto => "Goto"
  | ireturn => "IReturn"
  | areturn => "AReturn"
  | vreturn => "Return"
  | getStatic => "GetStatic"
  | getField => "GetField"
  | putField => "PutField"
  | invokeVirtual => "InvokeVirtual"
  | invokeSpecial => "InvokeSpecial"
  | invokeStatic => "InvokeStatic"
  | new => "New"

/-- Every operation is read back from its byte. -/
@[simp] theorem ofByte?_byte (op : Opcode) : ofByte? op.byte = some op := by
  cases op <;> rfl

/-- A byte is read as an operation only if it is the byte of that operation. -/
theorem byte_of_ofByte? {b : UInt8} {op : Opcode} (h : ofByte? b = some op) : op.byte = b := by
  revert h
  unfold ofByte?
  split <;> intro h <;> cases h <;> rfl

/-- An instruction holds at least its opcode. -/
theorem width_pos (op : Opcode) : 0 < op.width := by
  cases op <;> decide

/-- An instruction has at most two operand bytes. -/
theorem width_le_three (op : Opcode) : op.width ≤ 3 := by
  cases op <;> decide

end Opcode

end TieredJvm
