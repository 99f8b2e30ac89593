import TieredJvm.ConstantPool
import TieredJvm.Hexadecimal

/-!
# Errors of loading

Why bytes are not a class file, or cannot be had at all.
-/

namespace TieredJvm

/-- An error of the operating system. -/
structure OsError where
  /-- The number of the error. -/
  code : Nat
  /-- What the number stands for. -/
  reason : String
  deriving DecidableEq

/-- The text of an error of the operating system. -/
def OsError.message (e : OsError) : String :=
  s!"{e.reason} (os error {e.code})"

/-- Why a class file is not loaded. -/
inductive LoadError where
  /-- The file cannot be read. -/
  | unreadable (cause : OsError)
  /-- The first four bytes are not those of a class file. -/
  | badMagic (found : UInt32)
  /-- The bytes end before the class does. -/
  | truncated
  /-- A constant is of no known kind. -/
  | unknownTag (tag : UInt8) (index : Nat)
  /-- A text constant is not UTF-8. -/
  | invalidUtf8 (index : Nat)
  /-- The index of a name leads to no text. -/
  | badNameIndex (index : UInt16)
  /-- There are more constants than indices. -/
  | poolFull (cause : PoolFull)
  deriving DecidableEq

/-- The text of a loading error. -/
def LoadError.message : LoadError → String
  | unreadable cause => s!"I/O error: {cause.message}"
  | badMagic found => s!"invalid magic number {hexWord found}"
  | truncated => "class file ends unexpectedly"
  | unknownTag tag index => s!"unknown constant pool tag {tag} at index {index}"
  | invalidUtf8 index => s!"constant pool entry {index} is not valid UTF-8"
  | badNameIndex index => s!"constant pool index {index} does not name a Utf8 entry"
  | poolFull cause => cause.message

end TieredJvm
