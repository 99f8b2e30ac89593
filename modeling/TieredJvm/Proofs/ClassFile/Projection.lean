import TieredJvm.ClassFile.Loading
import TieredJvm.Proofs.ClassFile.Grammar

/-!
# What is loaded of a class file

Of a class file a machine keeps the versions, the constant pool, the class itself, and the methods
that have code (`ClassFile.loaded`). What it is to keep is said by the tree alone
(`ClassFile.Projects`): the pool has the entries that the constants make, and a method has code if
one of its attributes is code, of which the last counts (`MethodInfo.LastCode`); the other methods
are left out, and the order of the file is kept (`LoadedMethod.FromMethods`). That is what is
loaded, and nothing else is (`ClassFile.projects_iff`). With the grammar, it is what reading gives
(`ClassFile.loaded_parse_iff`).
-/

namespace TieredJvm

/-! ## Loaded classes -/

/-- A method as it is loaded. -/
structure LoadedMethod where
  /-- The access flags. -/
  accessFlags : UInt16
  /-- The name. -/
  name : String
  /-- The descriptor. -/
  descriptor : String
  /-- The declared bound on the operand stack. -/
  maxStack : UInt16
  /-- The number of local variables. -/
  maxLocals : UInt16
  /-- The bytecode. -/
  code : List UInt8

/-- A class as it is loaded. -/
structure LoadedClass where
  /-- The minor version. -/
  minorVersion : UInt16
  /-- The major version. -/
  majorVersion : UInt16
  /-- The constant pool. -/
  pool : ConstantPool
  /-- The index of the class itself. -/
  thisClass : UInt16
  /-- The methods. -/
  methods : List LoadedMethod

/-- A method with its code, as it is loaded. -/
def LoadedMethod.ofBody (m : MethodInfo) (body : CodeBody) : LoadedMethod :=
  ⟨m.accessFlags, m.name.text, m.descriptor.text, body.maxStack, body.maxLocals, body.code⟩

/-- What is loaded of a class file: of its methods those that have code. -/
def ClassFile.loaded (c : ClassFile) : LoadedClass where
  minorVersion := c.minorVersion
  majorVersion := c.majorVersion
  pool := c.pool
  thisClass := c.thisClass
  methods := c.codedMethods.map fun (m, body) => .ofBody m body

/-! ## What the tree says -/

/-- The attribute is code. -/
def MethodAttribute.IsCode (a : MethodAttribute) : Prop :=
  ∃ name declaredLength body, a = .code name declaredLength body

/-- The last code among the attributes of a method. -/
def MethodInfo.LastCode (m : MethodInfo) (body : CodeBody) : Prop :=
  ∃ before name declaredLength after,
    m.attributes = before ++ .code name declaredLength body :: after ∧ ∀ a ∈ after, ¬a.IsCode

/-- Methods as they are loaded from those of a class file, in the same order. -/
inductive LoadedMethod.FromMethods : List MethodInfo → List LoadedMethod → Prop where
  /-- No methods. -/
  | nil : FromMethods [] []
  /-- A method without code is left out. -/
  | skip {m : MethodInfo} {methods : List MethodInfo} {loaded : List LoadedMethod}
    (bodiless : ∀ a ∈ m.attributes, ¬a.IsCode) (rest : FromMethods methods loaded) :
    FromMethods (m :: methods) loaded
  /-- A method with code is loaded with the last code that it has. -/
  | load {m : MethodInfo} {body : CodeBody} {methods : List MethodInfo}
    {loaded : List LoadedMethod} (last : m.LastCode body) (rest : FromMethods methods loaded) :
    FromMethods (m :: methods) ({
      accessFlags := m.accessFlags, name := m.name.text, descriptor := m.descriptor.text,
      maxStack := body.maxStack, maxLocals := body.maxLocals, code := body.code } :: loaded)

/-- A class is what a class file says. -/
structure ClassFile.Projects (x : ClassFile) (c : LoadedClass) : Prop where
  /-- The minor version is that of the file. -/
  minorVersion : c.minorVersion = x.minorVersion
  /-- So is the major version. -/
  majorVersion : c.majorVersion = x.majorVersion
  /-- The pool has the entries that the constants make. -/
  pool : c.pool.MadeOf x.constants
  /-- The index of the class itself is that of the file. -/
  thisClass : c.thisClass = x.thisClass
  /-- The methods are those that have code. -/
  methods : LoadedMethod.FromMethods x.methods c.methods

/-! ## What is loaded is what the tree says -/

namespace MethodAttribute

/-- An attribute has code exactly if it is code. -/
theorem code?_eq_none_iff {a : MethodAttribute} : a.code? = none ↔ ¬a.IsCode := by
  cases a with
  | code name declaredLength body => simp [code?, IsCode]
  | other raw => simp [code?, IsCode]

/-- It is the code that the attribute holds. -/
theorem code?_eq_some_iff {a : MethodAttribute} {body : CodeBody} :
    a.code? = some body ↔ ∃ name declaredLength, a = .code name declaredLength body := by
  cases a with
  | code name declaredLength body' => simp [code?]
  | other raw => simp [code?]

end MethodAttribute

namespace MethodInfo

/-- A method has no code if none of its attributes is code. -/
theorem code?_eq_none_iff {m : MethodInfo} : m.code? = none ↔ ∀ a ∈ m.attributes, ¬a.IsCode := by
  simp only [code?, List.getLast?_eq_none_iff, List.filterMap_eq_nil_iff,
    MethodAttribute.code?_eq_none_iff]

/-- The code of a method is the last among its attributes. -/
theorem code?_eq_some_iff {m : MethodInfo} {body : CodeBody} :
    m.code? = some body ↔ m.LastCode body := by
  rw [code?, List.getLast?_eq_some_iff]
  constructor
  · rintro ⟨earlier, hcodes⟩
    -- The attributes before and from the last code on, and then that code and those after it.
    obtain ⟨front, back, hattributes, -, hback⟩ := List.filterMap_eq_append_iff.1 hcodes
    obtain ⟨between, a, after, rfl, -, ha, hafter⟩ := List.filterMap_eq_cons_iff.1 hback
    obtain ⟨name, declaredLength, rfl⟩ := MethodAttribute.code?_eq_some_iff.1 ha
    refine ⟨front ++ between, name, declaredLength, after, by simp [hattributes], fun a ha => ?_⟩
    exact MethodAttribute.code?_eq_none_iff.1 (List.filterMap_eq_nil_iff.1 hafter a ha)
  · rintro ⟨before, name, declaredLength, after, hattributes, hafter⟩
    have hnone : after.filterMap MethodAttribute.code? = [] :=
      List.filterMap_eq_nil_iff.2 fun a ha => MethodAttribute.code?_eq_none_iff.2 (hafter a ha)
    refine ⟨before.filterMap MethodAttribute.code?, ?_⟩
    rw [hattributes, List.filterMap_append, List.filterMap_cons,
      MethodAttribute.code?_eq_some_iff.2 ⟨name, declaredLength, rfl⟩, hnone]

end MethodInfo

/-- The methods that are loaded are those that the tree says, and no others are. -/
theorem LoadedMethod.fromMethods_iff {methods : List MethodInfo} {loaded : List LoadedMethod} :
    FromMethods methods loaded ↔
      loaded = methods.filterMap fun m => m.code?.map (ofBody m) := by
  constructor
  · intro h
    induction h with
    | nil => rfl
    | skip bodiless rest ih =>
      rw [List.filterMap_cons_none (by rw [MethodInfo.code?_eq_none_iff.2 bodiless]; rfl), ih]
    | load last rest ih =>
      rw [List.filterMap_cons_some (by rw [MethodInfo.code?_eq_some_iff.2 last]; rfl), ih]
      rfl
  · rintro rfl
    induction methods with
    | nil => exact .nil
    | cons m methods ih =>
      cases hcode : m.code? with
      | none =>
        rw [List.filterMap_cons_none (by rw [hcode]; rfl)]
        exact .skip (MethodInfo.code?_eq_none_iff.1 hcode) ih
      | some body =>
        rw [List.filterMap_cons_some (by rw [hcode]; rfl)]
        exact .load (MethodInfo.code?_eq_some_iff.1 hcode) ih

/-- A class file says one class, and that is the one that is loaded. -/
theorem ClassFile.projects_iff {x : ClassFile} {c : LoadedClass} :
    x.Projects c ↔ c = x.loaded := by
  have hmethods : x.loaded.methods = x.methods.filterMap fun m => m.code?.map (.ofBody m) := by
    simp only [loaded, codedMethods, List.map_filterMap, Option.map_map]
    rfl
  constructor
  · rintro ⟨hminor, hmajor, hpool, hthis, hfrom⟩
    obtain ⟨minor, major, pool, this, methods⟩ := c
    have hsaid := LoadedMethod.fromMethods_iff.1 hfrom
    rw [← hmethods] at hsaid
    cases hminor
    cases hmajor
    cases hthis
    cases hsaid
    cases ConstantPool.madeOf_iff.1 hpool
    rfl
  · rintro rfl
    exact ⟨rfl, rfl, ConstantPool.madeOf_iff.2 rfl, rfl, LoadedMethod.fromMethods_iff.2 hmethods⟩

/-- Reading accepts the printed forms of well-formed class files, with anything after them, and
nothing else; and it loads the class that the class file says. In particular nothing is read of a
class file whose constants overrun the largest pool. -/
theorem ClassFile.loaded_parse_iff (input : List UInt8) (c : LoadedClass) :
    (parse input).map loaded = .ok c ↔
      ∃ (x : ClassFile) (rest : List UInt8),
        x.WellFormed ∧ input = x.bytes ++ rest ∧ x.Projects c := by
  simp only [projects_iff]
  constructor
  · intro h
    cases hparse : parse input with
    | error e =>
      rw [hparse] at h
      cases h
    | ok x =>
      rw [hparse] at h
      cases h
      obtain ⟨hx, rest, hinput⟩ := (parse_eq_ok_iff input x).1 hparse
      exact ⟨x, rest, hx, hinput, rfl⟩
  · rintro ⟨x, rest, hx, hinput, rfl⟩
    rw [(parse_eq_ok_iff input x).2 ⟨hx, rest, hinput⟩]
    rfl

end TieredJvm
