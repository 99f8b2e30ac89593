import TieredJvm.ClassFile.Syntax

/-!
# Writing class files

The bytes of a class file, part by part, in the order of the file. Lists are written with their
length before them.
-/

namespace TieredJvm

namespace Printer

/-- The two bytes of a number, the high byte first. -/
def u2 (w : UInt16) : List UInt8 :=
  [(w >>> 8).toUInt8, w.toUInt8]

/-- The four bytes of a number, the high byte first. -/
def u4 (w : UInt32) : List UInt8 :=
  [(w >>> 24).toUInt8, (w >>> 16).toUInt8, (w >>> 8).toUInt8, w.toUInt8]

/-- A list with its length in two bytes before it. -/
def counted {α : Type} (print : α → List UInt8) (items : List α) : List UInt8 :=
  u2 items.length.toUInt16 ++ items.flatMap print

end Printer

open Printer

/-- The bytes of a constant. -/
def PoolItem.bytes : PoolItem → List UInt8
  | utf8 text =>
    let raw := text.toUTF8.data.toList
    1 :: u2 raw.length.toUInt16 ++ raw
  | integer value => 3 :: u4 value.toUInt32
  | classRef name => 7 :: u2 name
  | string text => 8 :: u2 text
  | fieldRef c n => 9 :: u2 c ++ u2 n
  | methodRef c n => 10 :: u2 c ++ u2 n
  | nameAndType n d => 12 :: u2 n ++ u2 d
  | narrow tag payload => tag :: payload
  | wide tag payload => tag :: payload

/-- The bytes of an attribute. -/
def Attribute.bytes (a : Attribute) : List UInt8 :=
  u2 a.name ++ u4 a.info.length.toUInt32 ++ a.info

/-- The bytes of a field. -/
def FieldInfo.bytes (f : FieldInfo) : List UInt8 :=
  u2 f.accessFlags ++ u2 f.name ++ u2 f.descriptor ++ counted Attribute.bytes f.attributes

/-- The bytes of an exception handler. -/
def ExceptionEntry.bytes (e : ExceptionEntry) : List UInt8 :=
  u2 e.startPc ++ u2 e.endPc ++ u2 e.handlerPc ++ u2 e.catchType

/-- The bytes of the contents of a code attribute. -/
def CodeBody.bytes (c : CodeBody) : List UInt8 :=
  u2 c.maxStack ++ u2 c.maxLocals ++ u4 c.code.length.toUInt32 ++ c.code ++
    counted ExceptionEntry.bytes c.exceptions ++ counted Attribute.bytes c.attributes

/-- The bytes of an attribute of a method. -/
def MethodAttribute.bytes : MethodAttribute → List UInt8
  | code name declaredLength body => u2 name ++ u4 declaredLength ++ body.bytes
  | other a => a.bytes

/-- The bytes of a method. -/
def MethodInfo.bytes (m : MethodInfo) : List UInt8 :=
  u2 m.accessFlags ++ u2 m.name.index ++ u2 m.descriptor.index ++
    counted MethodAttribute.bytes m.attributes

/-- The bytes of a class file. -/
def ClassFile.bytes (c : ClassFile) : List UInt8 :=
  [0xca, 0xfe, 0xba, 0xbe] ++ u2 c.minorVersion ++ u2 c.majorVersion ++ u2 c.poolCount ++
    c.constants.flatMap PoolItem.bytes ++ u2 c.accessFlags ++ u2 c.thisClass ++ u2 c.superClass ++
    counted u2 c.interfaces ++ counted FieldInfo.bytes c.fields ++
    counted MethodInfo.bytes c.methods ++ counted Attribute.bytes c.attributes

end TieredJvm
