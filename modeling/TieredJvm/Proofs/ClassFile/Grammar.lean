import TieredJvm.Proofs.ClassFile.Constants
import TieredJvm.Proofs.ConstantPool.Resolution

/-!
# The grammar of class files

Which trees have a printed form (`ClassFile.WellFormed`), and that reading accepts their printed
forms, with anything after them, and nothing else (`ClassFile.parse_eq_ok_iff`).

Every part has its reader, its printer and its condition, and one lemma that the reader is exact
for the two. The parts of methods depend on the constant pool, in which their names are found.
-/

namespace TieredJvm

open Reader (Counted)

/-! ## Well-formed trees -/

/-- The contents of an attribute can be written with their length before them. -/
def Attribute.WellFormed (a : Attribute) : Prop :=
  a.info.length < UInt32.size

/-- The attributes of a field are well-formed. -/
def FieldInfo.WellFormed (f : FieldInfo) : Prop :=
  Counted Attribute.WellFormed f.attributes

/-- The parts of a code attribute can be written with their lengths before them. -/
structure CodeBody.WellFormed (c : CodeBody) : Prop where
  /-- The bytecode is not too long. -/
  code : c.code.length < UInt32.size
  /-- There are not too many exception handlers. -/
  exceptions : Counted (fun _ => True) c.exceptions
  /-- The attributes are well-formed. -/
  attributes : Counted Attribute.WellFormed c.attributes

/-- The name of an attribute is found in the pool. It is the name of code if and only if the
attribute is code; the length that is declared for code can be any. -/
def MethodAttribute.WellFormed (pool : ConstantPool) : MethodAttribute → Prop
  | code name _ body => pool.entries[name.toNat]? = some (.utf8 "Code") ∧ body.WellFormed
  | other raw =>
    (∃ text, pool.entries[raw.name.toNat]? = some (.utf8 text) ∧ text ≠ "Code") ∧ raw.WellFormed

/-- The names of a method are found in the pool, and its attributes are well-formed. -/
structure MethodInfo.WellFormed (pool : ConstantPool) (m : MethodInfo) : Prop where
  /-- The name is the text at its index. -/
  name : pool.entries[m.name.index.toNat]? = some (.utf8 m.name.text)
  /-- The descriptor is the text at its index. -/
  descriptor : pool.entries[m.descriptor.index.toNat]? = some (.utf8 m.descriptor.text)
  /-- The attributes are well-formed. -/
  attributes : Counted (MethodAttribute.WellFormed pool) m.attributes

/-- A class file that can be read: its parts are well-formed, and its constants fill as many slots
as are declared and leave an index. -/
structure ClassFile.WellFormed (c : ClassFile) : Prop where
  /-- The constants are well-formed. -/
  constants : ∀ item ∈ c.constants, item.WellFormed
  /-- The constants fill the pool. Slot 0 needs none. -/
  fill : PoolItem.Fill c.poolCount.toNat 1 c.constants
  /-- They do not overrun it. -/
  within : ¬PoolItem.Overruns c.poolCount c.constants
  /-- There are not too many interfaces. -/
  interfaces : Counted (fun _ => True) c.interfaces
  /-- The fields are well-formed. -/
  fields : Counted FieldInfo.WellFormed c.fields
  /-- The methods are well-formed, with names from the pool that the constants make. -/
  methods : ∀ pool : ConstantPool, pool.MadeOf c.constants →
    Counted (MethodInfo.WellFormed pool) c.methods
  /-- The attributes are well-formed. -/
  attributes : Counted Attribute.WellFormed c.attributes

/-- The methods are well-formed in the pool of the class file. -/
theorem ClassFile.WellFormed.methods_pool {c : ClassFile} (hc : c.WellFormed) :
    Counted (MethodInfo.WellFormed c.pool) c.methods :=
  hc.methods _ (ConstantPool.madeOf_iff.2 rfl)

namespace ClassFile.Parser

open Reader

/-! ## Attributes, fields and code -/

/-- Attributes that are not interpreted are read exactly. -/
theorem rawAttribute_exact : Exact rawAttribute Attribute.bytes Attribute.WellFormed := by
  intro input a rest
  simp only [rawAttribute, sizedBlock_bind]
  constructor
  · intro h
    obtain ⟨name, mid₁, -, rfl, h₁⟩ := u2_exact.of_bind h
    obtain ⟨info, mid₂, hinfo, rfl, h₂⟩ := sizedBlock_exact.of_bind h₁
    obtain ⟨rfl, rfl⟩ := pure_eq_ok.1 h₂
    exact ⟨hinfo, by simp only [Attribute.bytes, List.append_assoc]⟩
  · rintro ⟨hinfo, rfl⟩
    simp only [Attribute.bytes, List.append_assoc]
    rw [u2_exact.bind_print _ trivial, sizedBlock_bind_print _ hinfo]
    rfl

/-- Attribute lists are read exactly. -/
theorem attributeList_exact :
    Exact attributeList (Printer.counted Attribute.bytes) (Counted Attribute.WellFormed) :=
  rawAttribute_exact.counted

/-- Fields are read exactly. -/
theorem field_exact : Exact field FieldInfo.bytes FieldInfo.WellFormed := by
  intro input f rest
  rw [field]
  constructor
  · intro h
    obtain ⟨accessFlags, mid₁, -, rfl, h₁⟩ := u2_exact.of_bind h
    obtain ⟨name, mid₂, -, rfl, h₂⟩ := u2_exact.of_bind h₁
    obtain ⟨descriptor, mid₃, -, rfl, h₃⟩ := u2_exact.of_bind h₂
    obtain ⟨attributes, mid₄, hattributes, rfl, h₄⟩ := attributeList_exact.of_bind h₃
    obtain ⟨rfl, rfl⟩ := pure_eq_ok.1 h₄
    exact ⟨hattributes, by simp only [FieldInfo.bytes, List.append_assoc]⟩
  · rintro ⟨hattributes, rfl⟩
    simp only [FieldInfo.bytes, List.append_assoc, u2_exact.bind_print _ trivial]
    rw [attributeList_exact.bind_print _ hattributes]
    rfl

/-- Exception handlers are read exactly. -/
theorem exceptionEntry_exact : Exact exceptionEntry ExceptionEntry.bytes fun _ => True := by
  intro input e rest
  rw [exceptionEntry]
  constructor
  · intro h
    obtain ⟨startPc, mid₁, -, rfl, h₁⟩ := u2_exact.of_bind h
    obtain ⟨endPc, mid₂, -, rfl, h₂⟩ := u2_exact.of_bind h₁
    obtain ⟨handlerPc, mid₃, -, rfl, h₃⟩ := u2_exact.of_bind h₂
    obtain ⟨catchType, mid₄, -, rfl, h₄⟩ := u2_exact.of_bind h₃
    obtain ⟨rfl, rfl⟩ := pure_eq_ok.1 h₄
    exact ⟨trivial, by simp only [ExceptionEntry.bytes, List.append_assoc]⟩
  · rintro ⟨-, rfl⟩
    simp only [ExceptionEntry.bytes, List.append_assoc, u2_exact.bind_print _ trivial]
    rfl

/-- The contents of code attributes are read exactly. -/
theorem codeBody_exact : Exact codeBody CodeBody.bytes CodeBody.WellFormed := by
  intro input c rest
  simp only [codeBody, sizedBlock_bind, counted_bind]
  constructor
  · intro h
    obtain ⟨maxStack, mid₁, -, rfl, h₁⟩ := u2_exact.of_bind h
    obtain ⟨maxLocals, mid₂, -, rfl, h₂⟩ := u2_exact.of_bind h₁
    obtain ⟨code, mid₃, hcode, rfl, h₃⟩ := sizedBlock_exact.of_bind h₂
    obtain ⟨exceptions, mid₄, hexceptions, rfl, h₄⟩ := exceptionEntry_exact.counted.of_bind h₃
    obtain ⟨attributes, mid₅, hattributes, rfl, h₅⟩ := attributeList_exact.of_bind h₄
    obtain ⟨rfl, rfl⟩ := pure_eq_ok.1 h₅
    exact ⟨⟨hcode, hexceptions, hattributes⟩, by simp only [CodeBody.bytes, List.append_assoc]⟩
  · rintro ⟨⟨hcode, hexceptions, hattributes⟩, rfl⟩
    simp only [CodeBody.bytes, List.append_assoc]
    rw [u2_exact.bind_print _ trivial, u2_exact.bind_print _ trivial,
      sizedBlock_bind_print _ hcode, exceptionEntry_exact.counted.bind_print _ hexceptions,
      attributeList_exact.bind_print _ hattributes]
    rfl

/-! ## Methods -/

variable {pool : ConstantPool}

/-- A name is found if the pool has a text at its index, and nothing is read for it. -/
theorem nameAt_eq_ok {index : UInt16} {input rest : List UInt8} {name : NameRef} :
    nameAt pool index input = .ok (name, rest) ↔
      name.index = index ∧ pool.entries[index.toNat]? = some (.utf8 name.text) ∧ input = rest := by
  rw [← ConstantPool.utf8_eq_ok]
  unfold nameAt
  cases pool.utf8 index with
  | ok text =>
    dsimp only
    rw [pure_eq_ok]
    constructor
    · rintro ⟨rfl, rfl⟩
      exact ⟨rfl, rfl, rfl⟩
    · rintro ⟨rfl, htext, rfl⟩
      cases htext
      exact ⟨rfl, rfl⟩
  | error cause =>
    constructor
    · intro h
      cases h
    · rintro ⟨-, htext, -⟩
      cases htext

/-- A name that is found in the pool is what the next reader gets. -/
theorem nameAt_bind {β : Type} {index : UInt16} {text : String}
    (h : pool.entries[index.toNat]? = some (.utf8 text)) (k : NameRef → Reader β)
    (input : List UInt8) : (nameAt pool index >>= k) input = k ⟨index, text⟩ input := by
  rw [nameAt, ConstantPool.utf8_eq_ok.2 h]
  rfl

/-- Attributes of methods are read exactly. -/
theorem methodAttribute_exact :
    Exact (methodAttribute pool) MethodAttribute.bytes (MethodAttribute.WellFormed pool) := by
  intro input a rest
  rw [methodAttribute]
  constructor
  · intro h
    obtain ⟨index, mid₁, -, rfl, h₁⟩ := u2_exact.of_bind h
    obtain ⟨length, mid₂, -, rfl, h₂⟩ := u4_exact.of_bind h₁
    obtain ⟨name, mid₃, hname, h₃⟩ := bind_eq_ok.1 h₂
    obtain ⟨rfl, htext, rfl⟩ := nameAt_eq_ok.1 hname
    -- Only now does the declared length matter, and for code it does not.
    split at h₃
    · next hcode =>
      obtain ⟨body, mid₄, hbody, rfl, h₄⟩ := codeBody_exact.of_bind h₃
      obtain ⟨rfl, rfl⟩ := pure_eq_ok.1 h₄
      rw [hcode] at htext
      exact ⟨⟨htext, hbody⟩, by simp only [MethodAttribute.bytes, List.append_assoc]⟩
    · next hother =>
      obtain ⟨info, mid₄, hinfo, rfl, h₄⟩ := (block_exact _).of_bind h₃
      obtain ⟨rfl, rfl⟩ := pure_eq_ok.1 h₄
      obtain ⟨hlength, hlt⟩ := length_toUInt32 hinfo
      refine ⟨⟨⟨name.text, htext, hother⟩, hlt⟩, ?_⟩
      simp only [MethodAttribute.bytes, Attribute.bytes, List.append_assoc, hlength, id]
  · rintro ⟨ha, rfl⟩
    cases a with
    | code name declaredLength body =>
      obtain ⟨hname, hbody⟩ := ha
      simp only [MethodAttribute.bytes, List.append_assoc]
      rw [u2_exact.bind_print _ trivial, u4_exact.bind_print _ trivial, nameAt_bind hname,
        codeName, if_pos rfl, codeBody_exact.bind_print _ hbody]
      rfl
    | other raw =>
      obtain ⟨⟨text, hname, hother⟩, hinfo⟩ := ha
      have hblock : raw.info.length = raw.info.length.toUInt32.toNat :=
        (toNat_length_toUInt32 hinfo).symm
      simp only [MethodAttribute.bytes, Attribute.bytes, List.append_assoc]
      rw [u2_exact.bind_print _ trivial, u4_exact.bind_print _ trivial, nameAt_bind hname,
        codeName, if_neg hother]
      exact (block_exact _).bind_print _ hblock rest

/-- Methods are read exactly. -/
theorem method_exact : Exact (method pool) MethodInfo.bytes (MethodInfo.WellFormed pool) := by
  intro input m rest
  simp only [method, counted_bind]
  constructor
  · intro h
    obtain ⟨accessFlags, mid₁, -, rfl, h₁⟩ := u2_exact.of_bind h
    obtain ⟨nameIndex, mid₂, -, rfl, h₂⟩ := u2_exact.of_bind h₁
    obtain ⟨descriptorIndex, mid₃, -, rfl, h₃⟩ := u2_exact.of_bind h₂
    obtain ⟨name, mid₄, hname, h₄⟩ := bind_eq_ok.1 h₃
    obtain ⟨rfl, hnameText, rfl⟩ := nameAt_eq_ok.1 hname
    obtain ⟨descriptor, mid₅, hdescriptor, h₅⟩ := bind_eq_ok.1 h₄
    obtain ⟨rfl, hdescriptorText, rfl⟩ := nameAt_eq_ok.1 hdescriptor
    obtain ⟨attributes, mid₆, hattributes, rfl, h₆⟩ := methodAttribute_exact.counted.of_bind h₅
    obtain ⟨rfl, rfl⟩ := pure_eq_ok.1 h₆
    exact ⟨⟨hnameText, hdescriptorText, hattributes⟩,
      by simp only [MethodInfo.bytes, List.append_assoc]⟩
  · rintro ⟨⟨hname, hdescriptor, hattributes⟩, rfl⟩
    simp only [MethodInfo.bytes, List.append_assoc]
    rw [u2_exact.bind_print _ trivial, u2_exact.bind_print _ trivial,
      u2_exact.bind_print _ trivial, nameAt_bind hname, nameAt_bind hdescriptor,
      methodAttribute_exact.counted.bind_print _ hattributes]
    rfl

/-! ## The whole -/

/-- The number with which a class file starts is checked. -/
theorem checkMagic_exact :
    Exact checkMagic (fun _ => [0xca, 0xfe, 0xba, 0xbe]) fun _ => True := by
  rintro input ⟨⟩ rest
  have hmagic : ([0xca, 0xfe, 0xba, 0xbe] : List UInt8) = Printer.u4 magic := rfl
  rw [checkMagic, hmagic]
  constructor
  · intro h
    obtain ⟨found, mid, -, rfl, hmid⟩ := u4_exact.of_bind h
    split at hmid
    · next hfound =>
      obtain ⟨-, rfl⟩ := pure_eq_ok.1 hmid
      rw [hfound]
      exact ⟨trivial, rfl⟩
    · cases hmid
  · rintro ⟨-, rfl⟩
    rw [u4_exact.bind_print _ trivial, if_pos rfl]
    rfl

/-- The bytes before the methods. -/
def Header.bytes (h : Header) : List UInt8 :=
  [0xca, 0xfe, 0xba, 0xbe] ++ Printer.u2 h.minorVersion ++ Printer.u2 h.majorVersion ++
    Printer.u2 h.poolCount ++ h.constants.flatMap PoolItem.bytes ++ Printer.u2 h.accessFlags ++
    Printer.u2 h.thisClass ++ Printer.u2 h.superClass ++ Printer.counted Printer.u2 h.interfaces ++
    Printer.counted FieldInfo.bytes h.fields ++ Printer.u2 h.methodCount

/-- What stands before the methods can be written, and the pool is made of the constants. -/
structure Header.WellFormed (h : Header) : Prop where
  /-- The pool is the one that the constants make. -/
  pool : h.pool = .ofList (h.constants.flatMap PoolItem.entries)
  /-- The constants are well-formed. -/
  constants : ∀ item ∈ h.constants, item.WellFormed
  /-- The constants fill the pool. -/
  fill : PoolItem.Fill h.poolCount.toNat 1 h.constants
  /-- They do not overrun it. -/
  within : ¬PoolItem.Overruns h.poolCount h.constants
  /-- There are not too many interfaces. -/
  interfaces : Counted (fun _ => True) h.interfaces
  /-- The fields are well-formed. -/
  fields : Counted FieldInfo.WellFormed h.fields

/-- What stands before the methods is read exactly. -/
theorem header_exact : Exact header Header.bytes Header.WellFormed := by
  intro input x rest
  simp only [header, counted_bind]
  constructor
  · intro h
    obtain ⟨-, mid₁, -, rfl, h₁⟩ := checkMagic_exact.of_bind h
    obtain ⟨minorVersion, mid₂, -, rfl, h₂⟩ := u2_exact.of_bind h₁
    obtain ⟨majorVersion, mid₃, -, rfl, h₃⟩ := u2_exact.of_bind h₂
    obtain ⟨poolCount, mid₄, -, rfl, h₄⟩ := u2_exact.of_bind h₃
    obtain ⟨⟨pool, constants⟩, mid₅, ⟨hpool, hconstants, hfill, hwithin⟩, rfl, h₅⟩ :=
      (constantPool_exact poolCount).of_bind h₄
    obtain ⟨accessFlags, mid₆, -, rfl, h₆⟩ := u2_exact.of_bind h₅
    obtain ⟨thisClass, mid₇, -, rfl, h₇⟩ := u2_exact.of_bind h₆
    obtain ⟨superClass, mid₈, -, rfl, h₈⟩ := u2_exact.of_bind h₇
    obtain ⟨interfaces, mid₉, hinterfaces, rfl, h₉⟩ := u2_exact.counted.of_bind h₈
    obtain ⟨fields, mid₁₀, hfields, rfl, h₁₀⟩ := field_exact.counted.of_bind h₉
    obtain ⟨methodCount, -, rfl, rfl⟩ := (u2_exact.bind_pure_eq_ok _).1 h₁₀
    exact ⟨⟨hpool, hconstants, hfill, hwithin, hinterfaces, hfields⟩,
      by simp only [Header.bytes, List.append_assoc]⟩
  · rintro ⟨⟨hpool, hconstants, hfill, hwithin, hinterfaces, hfields⟩, rfl⟩
    simp only [Header.bytes, List.append_assoc]
    rw [checkMagic_exact.bind_print _ (a := ()) trivial, u2_exact.bind_print _ trivial,
      u2_exact.bind_print _ trivial, u2_exact.bind_print _ trivial]
    -- The pool takes no bytes of its own, so it is given beside the constants.
    refine ((constantPool_exact _).bind_print _ (a := (x.pool, x.constants))
      ⟨hpool, hconstants, hfill, hwithin⟩ _).trans ?_
    dsimp only
    rw [u2_exact.bind_print _ trivial, u2_exact.bind_print _ trivial,
      u2_exact.bind_print _ trivial, u2_exact.counted.bind_print _ hinterfaces,
      field_exact.counted.bind_print _ hfields, u2_exact.bind_print _ trivial]
    rfl

/-- What stands before the methods of a class file. -/
def Header.ofClassFile (c : ClassFile) : Header where
  minorVersion := c.minorVersion
  majorVersion := c.majorVersion
  poolCount := c.poolCount
  pool := c.pool
  constants := c.constants
  accessFlags := c.accessFlags
  thisClass := c.thisClass
  superClass := c.superClass
  interfaces := c.interfaces
  fields := c.fields
  methodCount := c.methods.length.toUInt16

/-- What stands before the methods of a class file that can be written can be written. -/
theorem Header.ofClassFile_wellFormed {c : ClassFile} (hc : c.WellFormed) :
    (Header.ofClassFile c).WellFormed :=
  ⟨rfl, hc.constants, hc.fill, hc.within, hc.interfaces, hc.fields⟩

/-- A class file is written as what stands before its methods, its methods, and its attributes. -/
theorem bytes_eq (c : ClassFile) :
    c.bytes = (Header.ofClassFile c).bytes ++
      (c.methods.flatMap MethodInfo.bytes ++ Printer.counted Attribute.bytes c.attributes) := by
  simp only [ClassFile.bytes, Header.bytes, Header.ofClassFile, Printer.counted, List.append_assoc]

/-- Class files are read exactly. -/
theorem classFile_exact : Exact classFile ClassFile.bytes ClassFile.WellFormed := by
  intro input c rest
  rw [classFile]
  constructor
  · intro h
    obtain ⟨x, mid₁, hx, rfl, h₁⟩ := header_exact.of_bind h
    obtain ⟨methods, mid₂, ⟨hlen, hmethods⟩, rfl, h₂⟩ := (method_exact.times _).of_bind h₁
    obtain ⟨attributes, hattributes, rfl, rfl⟩ := (attributeList_exact.bind_pure_eq_ok _).1 h₂
    obtain ⟨hcount, hlt⟩ := length_toUInt16 hlen
    refine ⟨⟨hx.constants, hx.fill, hx.within, hx.interfaces, hx.fields, fun pool hpool => ?_,
      hattributes⟩, ?_⟩
    · -- The names of the methods were looked up in the pool that the reader built.
      rw [hx.pool, ← ConstantPool.madeOf_iff.1 hpool] at hmethods
      exact ⟨hlt, hmethods⟩
    · simp only [Header.bytes, ClassFile.bytes, Printer.counted, hcount, List.append_assoc]
  · rintro ⟨hc, rfl⟩
    have hlen := toNat_length_toUInt16 hc.methods_pool.1
    rw [bytes_eq, List.append_assoc, List.append_assoc,
      header_exact.bind_print _ (Header.ofClassFile_wellFormed hc)]
    refine ((method_exact.times _).bind_print _ ⟨hlen.symm, hc.methods_pool.2⟩ _).trans ?_
    exact (attributeList_exact.bind_pure_eq_ok _).2 ⟨c.attributes, hc.attributes, rfl, rfl⟩

end ClassFile.Parser

/-- Reading gives a class file if and only if it is well-formed and the input starts with it as
printed. -/
theorem ClassFile.parse_eq_ok_iff (input : List UInt8) (c : ClassFile) :
    parse input = .ok c ↔ c.WellFormed ∧ ∃ rest, input = c.bytes ++ rest := by
  unfold parse
  constructor
  · intro h
    cases hread : Parser.classFile input with
    | error e =>
      rw [hread] at h
      cases h
    | ok r =>
      rw [hread] at h
      cases h
      obtain ⟨hc, hinput⟩ := (Parser.classFile_exact input r.1 r.2).1 hread
      exact ⟨hc, r.2, hinput⟩
  · rintro ⟨hc, rest, rfl⟩
    rw [(Parser.classFile_exact _ c rest).2 ⟨hc, rfl⟩]
    rfl

end TieredJvm
