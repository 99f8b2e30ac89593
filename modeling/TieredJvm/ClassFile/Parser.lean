import TieredJvm.ClassFile.Reader
import TieredJvm.ClassFile.Syntax

/-!
# Reading class files

One reader for each part of a class file, in the order of the file. Bytes after the class are
left alone. The length that an attribute declares is what says where it ends, except for code,
whose parts say so themselves.
-/

namespace TieredJvm

namespace ConstantPool

/-- Adds entries at the end, one after another. -/
def pushAll (pool : ConstantPool) : List Constant → Except PoolFull ConstantPool
  | [] => .ok pool
  | entry :: rest =>
    match pool.push entry with
    | .ok (_, pool) => pool.pushAll rest
    | .error e => .error e

end ConstantPool

namespace ClassFile

namespace Parser

open Reader

/-- A text constant, for the slot `index`. -/
def textItem (index : Nat) : Reader PoolItem := do
  let length ← u2
  let raw ← block length.toNat
  match String.fromUTF8? ⟨raw.toArray⟩ with
  | some text => return .utf8 text
  | none => throw (.invalidUtf8 index)

/-- A constant, for the slot `index`. -/
def poolItem (index : Nat) : Reader PoolItem := do
  let tag ← u1
  match tag with
  | 1 => textItem index
  | 3 => return .integer (← u4).toInt32
  | 7 => return .classRef (← u2)
  | 8 => return .string (← u2)
  | 9 => return .fieldRef (← u2) (← u2)
  | 10 => return .methodRef (← u2) (← u2)
  | 12 => return .nameAndType (← u2) (← u2)
  | 5 | 6 => return .wide tag (← block PoolItem.wideSize)
  | _ =>
    match PoolItem.narrowSize? tag with
    | some size => return .narrow tag (← block size)
    | none => throw (.unknownTag tag index)

/-- Constants as long as the index of the next entry is below `count`, after those that were `read`
before. The index goes up by one with every entry. It has 16 bits, so after the last of them it is 0
again; then the pool has no room for another entry. A constant fills at least one slot, so `rounds`
as many as there are slots to fill are enough. -/
def poolItems (count : UInt16) : (rounds : Nat) → (index : UInt16) → ConstantPool →
    (read : Array PoolItem) → Reader (ConstantPool × List PoolItem)
  | 0, _, pool, read => return (pool, read.toList)
  | rounds + 1, index, pool, read =>
    if index < count then do
      let item ← poolItem index.toNat
      match pool.pushAll item.entries with
      | .ok pool =>
        poolItems count rounds (index + item.entries.length.toUInt16) pool (read.push item)
      | .error cause => throw (.poolFull cause)
    else return (pool, read.toList)

/-- The constants of a pool that is declared to have `count` slots, and the pool itself. -/
def constantPool (count : UInt16) : Reader (ConstantPool × List PoolItem) :=
  poolItems count count.toNat 1 .empty #[]

/-- An attribute that is not interpreted. -/
def rawAttribute : Reader Attribute := do
  let name ← u2
  let length ← u4
  return ⟨name, ← block length.toNat⟩

/-- A list of attributes that are not interpreted. -/
def attributeList : Reader (List Attribute) := do
  let count ← u2
  times count.toNat rawAttribute

/-- A field. -/
def field : Reader FieldInfo := do
  let accessFlags ← u2
  let name ← u2
  let descriptor ← u2
  return ⟨accessFlags, name, descriptor, ← attributeList⟩

/-- An exception handler. -/
def exceptionEntry : Reader ExceptionEntry := do
  let startPc ← u2
  let endPc ← u2
  let handlerPc ← u2
  return ⟨startPc, endPc, handlerPc, ← u2⟩

/-- The contents of a code attribute. -/
def codeBody : Reader CodeBody := do
  let maxStack ← u2
  let maxLocals ← u2
  let length ← u4
  let code ← block length.toNat
  let handlers ← u2
  let exceptions ← times handlers.toNat exceptionEntry
  return ⟨maxStack, maxLocals, code, exceptions, ← attributeList⟩

/-- The text at an index that is to name something. -/
def nameAt (pool : ConstantPool) (index : UInt16) : Reader NameRef :=
  match pool.utf8 index with
  | .ok text => return ⟨index, text⟩
  | .error _ => throw (.badNameIndex index)

/-- An attribute of a method. -/
def methodAttribute (pool : ConstantPool) : Reader MethodAttribute := do
  let index ← u2
  let length ← u4
  let name ← nameAt pool index
  if name.text = codeName then
    return .code index length (← codeBody)
  else
    return .other ⟨index, ← block length.toNat⟩

/-- A method. -/
def method (pool : ConstantPool) : Reader MethodInfo := do
  let accessFlags ← u2
  let nameIndex ← u2
  let descriptorIndex ← u2
  let name ← nameAt pool nameIndex
  let descriptor ← nameAt pool descriptorIndex
  let count ← u2
  return ⟨accessFlags, name, descriptor, ← times count.toNat (methodAttribute pool)⟩

/-- What stands before the methods, and how many there are. -/
structure Header where
  /-- The minor version. -/
  minorVersion : UInt16
  /-- The major version. -/
  majorVersion : UInt16
  /-- The number of slots that the pool is declared to have. -/
  poolCount : UInt16
  /-- The pool. -/
  pool : ConstantPool
  /-- The constants from which the pool was made. -/
  constants : List PoolItem
  /-- The access flags. -/
  accessFlags : UInt16
  /-- The index of the class itself. -/
  thisClass : UInt16
  /-- The index of the class that it extends. -/
  superClass : UInt16
  /-- The indices of the interfaces that it implements. -/
  interfaces : List UInt16
  /-- The fields. -/
  fields : List FieldInfo
  /-- The number of methods. -/
  methodCount : UInt16

/-- Checks the number with which a class file starts. -/
def checkMagic : Reader Unit := do
  let found ← u4
  unless found = magic do throw (.badMagic found)

/-- What stands before the methods. -/
def header : Reader Header := do
  checkMagic
  let minorVersion ← u2
  let majorVersion ← u2
  let poolCount ← u2
  let (pool, constants) ← constantPool poolCount
  let accessFlags ← u2
  let thisClass ← u2
  let superClass ← u2
  let interfaceCount ← u2
  let interfaces ← times interfaceCount.toNat u2
  let fieldCount ← u2
  let fields ← times fieldCount.toNat field
  let methodCount ← u2
  return {
    minorVersion, majorVersion, poolCount, pool, constants, accessFlags, thisClass, superClass,
    interfaces, fields, methodCount }

/-- A class file. -/
def classFile : Reader ClassFile := do
  let h ← header
  let methods ← times h.methodCount.toNat (method h.pool)
  let attributes ← attributeList
  return {
    minorVersion := h.minorVersion, majorVersion := h.majorVersion, poolCount := h.poolCount,
    constants := h.constants, accessFlags := h.accessFlags, thisClass := h.thisClass,
    superClass := h.superClass, interfaces := h.interfaces, fields := h.fields, methods,
    attributes }

end Parser

/-- Reads a class file from the start of some bytes. -/
def parse (input : List UInt8) : Except LoadError ClassFile :=
  (Parser.classFile input).map (·.1)

/-- The methods that can be read, whether or not what follows them can. -/
def methodsRead (input : List UInt8) : List MethodInfo :=
  match Parser.header input with
  | .error _ => []
  | .ok (h, rest) => Reader.untilFailure h.methodCount.toNat (Parser.method h.pool) rest

end ClassFile

end TieredJvm
