/-!
# The constant pool

The table of constants that instructions refer to by 16-bit index, and its typed look-ups. An
index is followed hop by hop: a method reference names a class and a name-and-type pair, a class
names a text, and so on. A look-up gives what the whole chain holds, or the error of its first
broken hop. Slot 0 is never a constant, nor is the slot after a long or a double.
-/

namespace TieredJvm

/-- An entry of the pool. -/
inductive Constant where
  /-- A text. -/
  | utf8 (text : String)
  /-- A number. -/
  | integer (value : Int32)
  /-- A class, by the index of its name. -/
  | classRef (name : UInt16)
  /-- A string literal, by the index of its text. -/
  | string (text : UInt16)
  /-- A field, by the indices of its class and of its name and type. -/
  | fieldRef (classIndex nameAndType : UInt16)
  /-- A method, by the indices of its class and of its name and type. -/
  | methodRef (classIndex nameAndType : UInt16)
  /-- A name with a descriptor, by the indices of their texts. -/
  | nameAndType (name descriptor : UInt16)
  /-- A slot that holds no constant. -/
  | reserved
  /-- A well-formed constant of a kind that the machine has no use for. -/
  | unsupported (tag : UInt8)
  deriving DecidableEq

/-- The kind of an entry, by which a look-up says what it expected. -/
inductive ConstantKind where
  | utf8 | integer | classRef | string | fieldRef | methodRef | nameAndType | reserved | unsupported
  deriving DecidableEq

/-- The name of a kind in messages. -/
def ConstantKind.name : ConstantKind → String
  | .utf8 => "Utf8"
  | .integer => "Integer"
  | .classRef => "Class"
  | .string => "String"
  | .fieldRef => "Fieldref"
  | .methodRef => "Methodref"
  | .nameAndType => "NameAndType"
  | .reserved => "reserved slot"
  | .unsupported => "unsupported entry"

namespace Constant

/-- The kind of an entry. -/
def kind : Constant → ConstantKind
  | utf8 _ => .utf8
  | integer _ => .integer
  | classRef _ => .classRef
  | string _ => .string
  | fieldRef _ _ => .fieldRef
  | methodRef _ _ => .methodRef
  | nameAndType _ _ => .nameAndType
  | reserved => .reserved
  | unsupported _ => .unsupported

/-- The text of a text entry. -/
def utf8? : Constant → Option String
  | utf8 text => some text
  | _ => none

/-- The number of a number entry. -/
def integer? : Constant → Option Int32
  | integer value => some value
  | _ => none

/-- The name index of a class entry. -/
def classRef? : Constant → Option UInt16
  | classRef name => some name
  | _ => none

/-- The text index of a string entry. -/
def string? : Constant → Option UInt16
  | string text => some text
  | _ => none

/-- The two indices of a field entry. -/
def fieldRef? : Constant → Option (UInt16 × UInt16)
  | fieldRef c n => some (c, n)
  | _ => none

/-- The two indices of a method entry. -/
def methodRef? : Constant → Option (UInt16 × UInt16)
  | methodRef c n => some (c, n)
  | _ => none

/-- The two indices of a name-and-type entry. -/
def nameAndType? : Constant → Option (UInt16 × UInt16)
  | nameAndType n d => some (n, d)
  | _ => none

end Constant

/-- Why an index does not lead to an entry of the expected kind. -/
inductive ResolutionError where
  /-- The index lies past the end of the pool. -/
  | indexOutOfRange (index : UInt16) (size : Nat)
  /-- The entry at the index is of another kind. -/
  | kindMismatch (index : UInt16) (expected found : ConstantKind)
  deriving DecidableEq

/-- The text of a failed look-up. -/
def ResolutionError.message : ResolutionError → String
  | indexOutOfRange index size =>
    s!"constant pool index #{index} out of range (pool length {size})"
  | kindMismatch index expected found =>
    s!"constant pool entry #{index} is {found.name}, expected {expected.name}"

/-- A field or method reference with its whole chain resolved. -/
structure MemberRef where
  /-- The class that the reference names. -/
  className : String
  /-- The name of the member. -/
  name : String
  /-- The descriptor of the member. -/
  descriptor : String
  deriving DecidableEq

/-- The constants of a class. -/
structure ConstantPool where
  /-- The entries, from slot 0 on. -/
  entries : Array Constant

/-- The pool already fills every index that 16 bits can address. -/
structure PoolFull where
  /-- The number of slots. -/
  size : Nat
  deriving DecidableEq

/-- The text of a refused addition. -/
def PoolFull.message (e : PoolFull) : String :=
  s!"constant pool is full ({e.size} slots)"

namespace ConstantPool

/-- The pool that holds nothing but slot 0. -/
def empty : ConstantPool :=
  ⟨#[.reserved]⟩

/-- The pool whose slots from 1 on hold the given entries, however many. -/
def ofList (entries : List Constant) : ConstantPool :=
  ⟨(Constant.reserved :: entries).toArray⟩

/-- The number of slots, slot 0 included. -/
def size (pool : ConstantPool) : Nat :=
  pool.entries.size

/-- Whether there is no slot but slot 0. -/
def isEmpty (pool : ConstantPool) : Bool :=
  pool.size ≤ 1

/-- Adds an entry at the end and gives its index; refused when the index would not fit. -/
def push (pool : ConstantPool) (entry : Constant) : Except PoolFull (UInt16 × ConstantPool) :=
  if pool.size < 65536 then
    .ok (pool.size.toUInt16, ⟨pool.entries.push entry⟩)
  else
    .error ⟨pool.size⟩

/-- An addition succeeds as long as the number of slots fits in 16 bits. -/
theorem push_of_lt {pool : ConstantPool} (h : pool.size < 65536) (entry : Constant) :
    pool.push entry = .ok (pool.size.toUInt16, ⟨pool.entries.push entry⟩) := by
  simp [push, h]

/-- An addition adds one slot. -/
theorem size_of_push {pool pool' : ConstantPool} {entry : Constant} {index : UInt16}
    (h : pool.push entry = .ok (index, pool')) : pool'.size = pool.size + 1 := by
  unfold push at h
  split at h <;> cases h
  simp [size]

/-- What `view` sees in the entry at an index; `expected` is the kind of entry in which it sees
something. -/
def lookup {α : Type} (pool : ConstantPool) (index : UInt16) (expected : ConstantKind)
    (view : Constant → Option α) : Except ResolutionError α :=
  match pool.entries[index.toNat]? with
  | none => .error (.indexOutOfRange index pool.size)
  | some entry =>
    match view entry with
    | none => .error (.kindMismatch index expected entry.kind)
    | some a => .ok a

/-- The entry at an index, which must be of the expected kind. -/
def resolve (pool : ConstantPool) (index : UInt16) (expected : ConstantKind) :
    Except ResolutionError Constant :=
  pool.lookup index expected fun entry => if entry.kind = expected then some entry else none

/-- The text at an index. -/
def utf8 (pool : ConstantPool) (index : UInt16) : Except ResolutionError String :=
  pool.lookup index .utf8 Constant.utf8?

/-- The number at an index. -/
def integer (pool : ConstantPool) (index : UInt16) : Except ResolutionError Int32 :=
  pool.lookup index .integer Constant.integer?

/-- The name of the class at an index. -/
def className (pool : ConstantPool) (index : UInt16) : Except ResolutionError String := do
  pool.utf8 (← pool.lookup index .classRef Constant.classRef?)

/-- The text of the string literal at an index. -/
def string (pool : ConstantPool) (index : UInt16) : Except ResolutionError String := do
  pool.utf8 (← pool.lookup index .string Constant.string?)

/-- The name and the descriptor at an index. -/
def nameAndType (pool : ConstantPool) (index : UInt16) :
    Except ResolutionError (String × String) := do
  let (name, descriptor) ← pool.lookup index .nameAndType Constant.nameAndType?
  return (← pool.utf8 name, ← pool.utf8 descriptor)

/-- The member named by the index of a class and the index of a name and type. -/
def member (pool : ConstantPool) (classIndex nameAndType : UInt16) :
    Except ResolutionError MemberRef := do
  let className ← pool.className classIndex
  let (name, descriptor) ← pool.nameAndType nameAndType
  return ⟨className, name, descriptor⟩

/-- The method reference at an index. -/
def methodRef (pool : ConstantPool) (index : UInt16) : Except ResolutionError MemberRef := do
  let (classIndex, nameAndType) ← pool.lookup index .methodRef Constant.methodRef?
  pool.member classIndex nameAndType

/-- The field reference at an index. -/
def fieldRef (pool : ConstantPool) (index : UInt16) : Except ResolutionError MemberRef := do
  let (classIndex, nameAndType) ← pool.lookup index .fieldRef Constant.fieldRef?
  pool.member classIndex nameAndType

end ConstantPool

end TieredJvm
