import TieredJvm.ConstantPool

/-!
# The structure of class files

A class file as a tree, with everything that its bytes hold: also what a machine has no use for,
so that the bytes can be had back from the tree. What a run needs of it is in
`TieredJvm.ClassFile.Loading`.
-/

namespace TieredJvm

/-- A constant as the file writes it. -/
inductive PoolItem where
  /-- A text. -/
  | utf8 (text : String)
  /-- A number. -/
  | integer (value : Int32)
  /-- A class. -/
  | classRef (name : UInt16)
  /-- A string literal. -/
  | string (text : UInt16)
  /-- A field. -/
  | fieldRef (classIndex nameAndType : UInt16)
  /-- A method. -/
  | methodRef (classIndex nameAndType : UInt16)
  /-- A name with a descriptor. -/
  | nameAndType (name descriptor : UInt16)
  /-- A constant that is not used, in one slot. -/
  | narrow (tag : UInt8) (payload : List UInt8)
  /-- A long or a double, which takes two slots and is not used. -/
  | wide (tag : UInt8) (payload : List UInt8)
  deriving DecidableEq

namespace PoolItem

/-- The entries that a constant makes in the pool. -/
def entries : PoolItem → List Constant
  | utf8 text => [.utf8 text]
  | integer value => [.integer value]
  | classRef name => [.classRef name]
  | string text => [.string text]
  | fieldRef c n => [.fieldRef c n]
  | methodRef c n => [.methodRef c n]
  | nameAndType n d => [.nameAndType n d]
  | narrow tag _ => [.unsupported tag]
  | wide tag _ => [.unsupported tag, .reserved]

/-- The payload size of the constants that are not used and take one slot, by tag. -/
def narrowSize? : UInt8 → Option Nat
  | 4 | 11 | 17 | 18 => some 4
  | 15 => some 3
  | 16 | 19 | 20 => some 2
  | _ => none

/-- The payload size of a long or a double. -/
def wideSize : Nat :=
  8

end PoolItem

/-- An attribute that is not interpreted. -/
structure Attribute where
  /-- The index of its name. -/
  name : UInt16
  /-- Its contents. -/
  info : List UInt8
  deriving DecidableEq

/-- A field. -/
structure FieldInfo where
  /-- The access flags. -/
  accessFlags : UInt16
  /-- The index of the name. -/
  name : UInt16
  /-- The index of the descriptor. -/
  descriptor : UInt16
  /-- The attributes. -/
  attributes : List Attribute
  deriving DecidableEq

/-- A range of code with its exception handler. -/
structure ExceptionEntry where
  /-- Where the range starts. -/
  startPc : UInt16
  /-- Where the range ends. -/
  endPc : UInt16
  /-- Where the handler starts. -/
  handlerPc : UInt16
  /-- The index of the class that is handled. -/
  catchType : UInt16
  deriving DecidableEq

/-- The code of a method. -/
structure CodeBody where
  /-- The declared bound on the operand stack. -/
  maxStack : UInt16
  /-- The number of local variables. -/
  maxLocals : UInt16
  /-- The bytecode. -/
  code : List UInt8
  /-- The exception handlers. -/
  exceptions : List ExceptionEntry
  /-- The attributes of the code. -/
  attributes : List Attribute
  deriving DecidableEq

/-- An attribute of a method. -/
inductive MethodAttribute where
  /-- Code, with the length that was declared for it. -/
  | code (name : UInt16) (declaredLength : UInt32) (body : CodeBody)
  /-- Anything else. -/
  | other (raw : Attribute)
  deriving DecidableEq

/-- The code in an attribute, if it is code. -/
def MethodAttribute.code? : MethodAttribute → Option CodeBody
  | code _ _ body => some body
  | other _ => none

/-- An index of the pool with the text found there. -/
structure NameRef where
  /-- The index. -/
  index : UInt16
  /-- The text. -/
  text : String
  deriving DecidableEq

/-- A method. -/
structure MethodInfo where
  /-- The access flags. -/
  accessFlags : UInt16
  /-- The name. -/
  name : NameRef
  /-- The descriptor. -/
  descriptor : NameRef
  /-- The attributes. -/
  attributes : List MethodAttribute
  deriving DecidableEq

/-- The code of a method, if it has any; of several, the last. -/
def MethodInfo.code? (m : MethodInfo) : Option CodeBody :=
  (m.attributes.filterMap MethodAttribute.code?).getLast?

/-- A class file. -/
structure ClassFile where
  /-- The minor version. -/
  minorVersion : UInt16
  /-- The major version. -/
  majorVersion : UInt16
  /-- The number of slots that the pool is declared to have. -/
  poolCount : UInt16
  /-- The constants. -/
  constants : List PoolItem
  /-- The access flags. -/
  accessFlags : UInt16
  /-- The index of the class itself. -/
  thisClass : UInt16
  /-- The index of the class that it extends. -/
  superClass : UInt16
  /-- The indices of the interfaces that it implements. -/
  interfaces : List UInt16
  /-- The fields. -/
  fields : List FieldInfo
  /-- The methods. -/
  methods : List MethodInfo
  /-- The attributes. -/
  attributes : List Attribute
  deriving DecidableEq

namespace ClassFile

/-- The number with which every class file starts. -/
def magic : UInt32 :=
  0xcafebabe

/-- The name of the attribute that holds code. -/
def codeName : String :=
  "Code"

/-- The constant pool of a class file. -/
def pool (c : ClassFile) : ConstantPool :=
  .ofList (c.constants.flatMap PoolItem.entries)

end ClassFile

end TieredJvm
