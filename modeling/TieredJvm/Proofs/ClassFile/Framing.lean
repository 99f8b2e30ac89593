import TieredJvm.Proofs.ClassFile.Projection

/-!
# Where attributes end

An attribute declares its length, so that it can be skipped by readers that do not know what is in
it. The attributes of a method are read in two ways: code ends where its parts do, and anything else
where its length says. The two ways agree if code declares the size of its contents, and nothing
makes it do so: a class file is as good with any other length there, and loads the same class
(`ClassFile.attribute_framing`).

Where the reader stands before an attribute is the number of bytes of what was read before
(`Reader.offset`), so the end of one attribute is the start of the next by definition. What is to be
proved is that the reader of attributes, from there, takes the one attribute and leaves the rest.
-/

namespace TieredJvm

namespace Reader

variable {α : Type} {print : α → List UInt8} {items : List α} {a : α}

/-! ## Offsets in a list -/

/-- Where the item `j` of a printed list starts. -/
def offset (print : α → List UInt8) (items : List α) (j : Nat) : Nat :=
  ((items.take j).flatMap print).length

@[simp] theorem offset_zero : offset print items 0 = 0 := rfl

/-- An item ends behind what is printed for it. -/
theorem offset_succ {j : Nat} (hj : items[j]? = some a) :
    offset print items (j + 1) = offset print items j + (print a).length := by
  obtain ⟨hlt, rfl⟩ := List.getElem?_eq_some_iff.1 hj
  rw [offset, List.take_succ_eq_append_getElem hlt, List.flatMap_append, List.length_append,
    List.flatMap_singleton, offset]

/-- The last item ends where the list does. -/
@[simp] theorem offset_length :
    offset print items items.length = (items.flatMap print).length := by
  rw [offset, List.take_length]

/-- A printed list is what stands before the start of an item, and what stands behind. -/
theorem flatMap_take_append_drop (print : α → List UInt8) (items : List α) (j : Nat) :
    (items.take j).flatMap print ++ (items.drop j).flatMap print = items.flatMap print := by
  rw [← List.flatMap_append, List.take_append_drop]

/-- No item starts behind the list. -/
theorem offset_le (print : α → List UInt8) (items : List α) (j : Nat) :
    offset print items j ≤ (items.flatMap print).length := by
  rw [← flatMap_take_append_drop print items j, List.length_append]
  exact Nat.le_add_right ..

/-- From the start of an item on, this and the following items are printed. -/
theorem drop_offset (j : Nat) (rest : List UInt8) :
    (items.flatMap print ++ rest).drop (offset print items j) =
      (items.drop j).flatMap print ++ rest := by
  rw [← flatMap_take_append_drop print items j, List.append_assoc, offset, List.drop_left]

/-- Items that are printed with the same sizes start in the same places. -/
theorem offset_map {f : α → α} (hf : ∀ a, (print (f a)).length = (print a).length) (j : Nat) :
    offset print (items.map f) j = offset print items j := by
  simp only [offset, ← List.map_take, List.flatMap_map, List.length_flatMap, hf]

section Exact

variable {r : Reader α} {Valid : α → Prop} {rest : List UInt8}

/-- From the start of an item on, the item is read and the reader stands at its end. -/
theorem Exact.read_at (hr : Exact r print Valid) (hitems : ∀ a ∈ items, Valid a) {j : Nat}
    (hj : items[j]? = some a) :
    r ((items.flatMap print ++ rest).drop (offset print items j)) =
      .ok (a, (items.flatMap print ++ rest).drop (offset print items (j + 1))) := by
  obtain ⟨hlt, rfl⟩ := List.getElem?_eq_some_iff.1 hj
  rw [drop_offset, drop_offset, List.drop_eq_getElem_cons hlt, List.flatMap_cons,
    List.append_assoc]
  exact (hr ..).2 ⟨hitems _ (List.getElem_mem hlt), rfl⟩

/-- After `j` items were read, the reader stands at the start of the item `j`. -/
theorem Exact.times_at (hr : Exact r print Valid) (hitems : ∀ a ∈ items, Valid a) {j : Nat}
    (hj : j ≤ items.length) :
    Reader.times j r (items.flatMap print ++ rest) =
      .ok (items.take j, (items.flatMap print ++ rest).drop (offset print items j)) := by
  have hvalid : ∀ a ∈ items.take j, Valid a := fun a ha => hitems a (List.mem_of_mem_take ha)
  refine (hr.times j ..).2 ⟨⟨List.length_take_of_le hj, hvalid⟩, ?_⟩
  rw [drop_offset, ← List.append_assoc, flatMap_take_append_drop]

end Exact

end Reader

/-! ## The lengths of attributes -/

namespace MethodAttribute

/-- The length that an attribute declares. -/
def declaredLength : MethodAttribute → UInt32
  | code _ declaredLength _ => declaredLength
  | other raw => raw.info.length.toUInt32

/-- The bytes of what is in an attribute. -/
def contents : MethodAttribute → List UInt8
  | code _ _ body => body.bytes
  | other raw => raw.info

/-- An attribute is written as its name, its length and its contents. -/
theorem exists_bytes_eq (a : MethodAttribute) :
    ∃ name, a.bytes = Printer.u2 name ++ (Printer.u4 a.declaredLength ++ a.contents) := by
  cases a with
  | code name declaredLength body => exact ⟨name, by rw [bytes, List.append_assoc]; rfl⟩
  | other raw => exact ⟨raw.name, by rw [bytes, Attribute.bytes, List.append_assoc]; rfl⟩

/-- An attribute takes six bytes more than its contents. -/
theorem length_bytes (a : MethodAttribute) : a.bytes.length = 6 + a.contents.length := by
  obtain ⟨name, hbytes⟩ := a.exists_bytes_eq
  rw [hbytes]
  simp [Printer.u2, Printer.u4]
  omega

/-- What is not code is as long as it declares. -/
theorem length_contents_of_other {pool : ConstantPool} {a : MethodAttribute}
    (ha : a.WellFormed pool) (hother : a.code? = none) :
    a.contents.length = a.declaredLength.toNat := by
  cases a with
  | code name declaredLength body => cases hother
  | other raw => exact (Reader.toNat_length_toUInt32 ha.2).symm

end MethodAttribute

/-! ## Positions in a class file -/

/-- A method is eight bytes, and then its attributes. -/
theorem MethodInfo.exists_bytes_eq (m : MethodInfo) :
    ∃ head : List UInt8, head.length = 8 ∧
      m.bytes = head ++ m.attributes.flatMap MethodAttribute.bytes :=
  ⟨Printer.u2 m.accessFlags ++ Printer.u2 m.name.index ++ Printer.u2 m.descriptor.index ++
    Printer.u2 m.attributes.length.toUInt16, rfl,
    by simp only [bytes, Printer.counted, List.append_assoc]⟩

namespace ClassFile

open Reader (offset)

/-- Where the method `i` of a class file starts. -/
def methodOffset (c : ClassFile) (i : Nat) : Nat :=
  (Parser.Header.ofClassFile c).bytes.length + offset MethodInfo.bytes c.methods i

/-- Where the attribute `j` of a method starts, if that is the method `i`. -/
def attributeOffset (c : ClassFile) (i : Nat) (m : MethodInfo) (j : Nat) : Nat :=
  c.methodOffset i + 8 + offset MethodAttribute.bytes m.attributes j

variable {c : ClassFile} {i j : Nat} {m : MethodInfo} {a : MethodAttribute}

/-- From where a method starts, it is a matter of the list of methods what is there. -/
theorem drop_methodOffset (c : ClassFile) (i : Nat) (rest : List UInt8) :
    (c.bytes ++ rest).drop (c.methodOffset i) =
      (c.methods.flatMap MethodInfo.bytes ++
        (Printer.counted Attribute.bytes c.attributes ++ rest)).drop
          (offset MethodInfo.bytes c.methods i) := by
  rw [Parser.bytes_eq, List.append_assoc, List.append_assoc, methodOffset,
    List.drop_length_add_append]

/-- What stands before the methods ends where the first starts. -/
theorem header_at (hc : c.WellFormed) (rest : List UInt8) :
    Parser.header (c.bytes ++ rest) =
      .ok (Parser.Header.ofClassFile c, (c.bytes ++ rest).drop (c.methodOffset 0)) := by
  refine (Parser.header_exact _ _ _).2 ⟨Parser.Header.ofClassFile_wellFormed hc, ?_⟩
  rw [drop_methodOffset, Reader.offset_zero, List.drop_zero, Parser.bytes_eq, List.append_assoc,
    List.append_assoc]

/-- The reader of methods stands at the start of each in turn. -/
theorem times_method_at (hc : c.WellFormed) (hi : i ≤ c.methods.length) (rest : List UInt8) :
    Reader.times i (Parser.method c.pool) ((c.bytes ++ rest).drop (c.methodOffset 0)) =
      .ok (c.methods.take i, (c.bytes ++ rest).drop (c.methodOffset i)) := by
  rw [drop_methodOffset, drop_methodOffset]
  exact Parser.method_exact.times_at hc.methods_pool.2 hi

/-- From there it reads the method. -/
theorem method_at (hc : c.WellFormed) (hm : c.methods[i]? = some m) (rest : List UInt8) :
    Parser.method c.pool ((c.bytes ++ rest).drop (c.methodOffset i)) =
      .ok (m, (c.bytes ++ rest).drop (c.methodOffset (i + 1))) := by
  rw [drop_methodOffset, drop_methodOffset]
  exact Parser.method_exact.read_at hc.methods_pool.2 hm

/-- From where an attribute starts, it is a matter of the list of attributes what is there. -/
theorem drop_attributeOffset (hc : c.WellFormed) (hm : c.methods[i]? = some m) (j : Nat)
    (rest : List UInt8) :
    (c.bytes ++ rest).drop (c.attributeOffset i m j) =
      (m.attributes.flatMap MethodAttribute.bytes ++
        (c.bytes ++ rest).drop (c.methodOffset (i + 1))).drop
          (offset MethodAttribute.bytes m.attributes j) := by
  obtain ⟨-, hmethod⟩ := (Parser.method_exact _ _ _).1 (method_at hc hm rest)
  obtain ⟨head, hhead, hbytes⟩ := m.exists_bytes_eq
  rw [attributeOffset, Nat.add_assoc, ← List.drop_drop, hmethod, hbytes, List.append_assoc,
    ← hhead, List.drop_length_add_append]

/-- The reader of attributes stands at the start of each in turn. -/
theorem times_attribute_at (hc : c.WellFormed) (hm : c.methods[i]? = some m)
    (hj : j ≤ m.attributes.length) (rest : List UInt8) :
    Reader.times j (Parser.methodAttribute c.pool)
        ((c.bytes ++ rest).drop (c.attributeOffset i m 0)) =
      .ok (m.attributes.take j, (c.bytes ++ rest).drop (c.attributeOffset i m j)) := by
  have hattributes := (hc.methods_pool.2 m (List.mem_of_getElem? hm)).attributes.2
  rw [drop_attributeOffset hc hm, drop_attributeOffset hc hm]
  exact Parser.methodAttribute_exact.times_at hattributes hj

/-- From there it reads the attribute. -/
theorem attribute_at (hc : c.WellFormed) (hm : c.methods[i]? = some m)
    (ha : m.attributes[j]? = some a) (rest : List UInt8) :
    Parser.methodAttribute c.pool ((c.bytes ++ rest).drop (c.attributeOffset i m j)) =
      .ok (a, (c.bytes ++ rest).drop (c.attributeOffset i m (j + 1))) := by
  have hattributes := (hc.methods_pool.2 m (List.mem_of_getElem? hm)).attributes.2
  rw [drop_attributeOffset hc hm, drop_attributeOffset hc hm]
  exact Parser.methodAttribute_exact.read_at hattributes ha

/-- The attributes start behind the eight bytes. -/
theorem attributeOffset_zero (c : ClassFile) (i : Nat) (m : MethodInfo) :
    c.attributeOffset i m 0 = c.methodOffset i + 8 := by
  rw [attributeOffset, Reader.offset_zero, Nat.add_zero]

/-- An attribute ends six bytes and its contents behind its start. -/
theorem attributeOffset_succ (c : ClassFile) (i : Nat) (ha : m.attributes[j]? = some a) :
    c.attributeOffset i m (j + 1) = c.attributeOffset i m j + (6 + a.contents.length) := by
  have hsucc : offset MethodAttribute.bytes m.attributes (j + 1) = _ := Reader.offset_succ ha
  rw [a.length_bytes] at hsucc
  rw [attributeOffset, attributeOffset]
  omega

/-- The next method starts where the last attribute ends. -/
theorem attributeOffset_length (hm : c.methods[i]? = some m) :
    c.attributeOffset i m m.attributes.length = c.methodOffset (i + 1) := by
  obtain ⟨head, hhead, hbytes⟩ := m.exists_bytes_eq
  rw [attributeOffset, Reader.offset_length, methodOffset, methodOffset, Reader.offset_succ hm,
    hbytes, List.length_append, hhead]
  omega

/-- Behind the attributes of methods there are bytes in the class file. -/
theorem attributeOffset_lt (hm : c.methods[i]? = some m) (j : Nat) :
    c.attributeOffset i m j < c.bytes.length := by
  have hattribute := Reader.offset_le MethodAttribute.bytes m.attributes j
  have hmethod := Reader.offset_le MethodInfo.bytes c.methods (i + 1)
  have hlast := attributeOffset_length hm
  rw [attributeOffset, Reader.offset_length] at hlast
  simp only [methodOffset] at hlast
  simp only [attributeOffset, methodOffset, Parser.bytes_eq, List.length_append, Printer.counted,
    Printer.u2, List.length_cons]
  omega

end ClassFile

/-! ## The length that code declares -/

namespace MethodAttribute

variable {pool : ConstantPool}

/-- The attribute with nothing declared for code. -/
def undeclared : MethodAttribute → MethodAttribute
  | code name _ body => code name 0 body
  | other raw => other raw

@[simp] theorem length_bytes_undeclared (a : MethodAttribute) :
    a.undeclared.bytes.length = a.bytes.length := by
  cases a <;> simp [length_bytes, undeclared, contents]

@[simp] theorem code?_undeclared (a : MethodAttribute) : a.undeclared.code? = a.code? := by
  cases a <;> rfl

@[simp] theorem wellFormed_undeclared {a : MethodAttribute} :
    a.undeclared.WellFormed pool ↔ a.WellFormed pool := by
  cases a <;> rfl

end MethodAttribute

namespace MethodInfo

variable {pool : ConstantPool}

/-- The method with nothing declared for code. -/
def undeclared (m : MethodInfo) : MethodInfo :=
  { m with attributes := m.attributes.map .undeclared }

@[simp] theorem length_bytes_undeclared (m : MethodInfo) :
    m.undeclared.bytes.length = m.bytes.length := by
  simp [bytes, undeclared, Printer.counted, List.flatMap_map, List.length_flatMap]

@[simp] theorem code?_undeclared (m : MethodInfo) : m.undeclared.code? = m.code? := by
  have hcode : MethodAttribute.code? ∘ MethodAttribute.undeclared = MethodAttribute.code? :=
    funext MethodAttribute.code?_undeclared
  rw [code?, undeclared, List.filterMap_map, hcode, code?]

@[simp] theorem wellFormed_undeclared {m : MethodInfo} :
    m.undeclared.WellFormed pool ↔ m.WellFormed pool := by
  constructor
  · rintro ⟨hname, hdescriptor, hattributes⟩
    exact ⟨hname, hdescriptor, by simpa [undeclared, Reader.Counted] using hattributes⟩
  · rintro ⟨hname, hdescriptor, hattributes⟩
    exact ⟨hname, hdescriptor, by simpa [undeclared, Reader.Counted] using hattributes⟩

end MethodInfo

namespace ClassFile

/-- The class file with nothing declared for code. -/
def undeclared (c : ClassFile) : ClassFile :=
  { c with methods := c.methods.map .undeclared }

theorem length_bytes_undeclared (c : ClassFile) : c.undeclared.bytes.length = c.bytes.length := by
  simp [bytes, undeclared, Printer.counted, List.flatMap_map, List.length_flatMap]

/-- It loads the same class. -/
theorem loaded_undeclared (c : ClassFile) : c.undeclared.loaded = c.loaded := by
  simp only [loaded, codedMethods, undeclared, List.filterMap_map, List.map_filterMap,
    Function.comp_def, MethodInfo.code?_undeclared, Option.map_map]
  rfl

/-- It can be written if the other can. -/
theorem wellFormed_undeclared {c : ClassFile} : c.undeclared.WellFormed ↔ c.WellFormed := by
  have hmethods (pool : ConstantPool) :
      Reader.Counted (MethodInfo.WellFormed pool) c.undeclared.methods ↔
        Reader.Counted (MethodInfo.WellFormed pool) c.methods := by
    simp [Reader.Counted, undeclared]
  exact ⟨fun ⟨hconstants, hfill, hwithin, hinterfaces, hfields, h, hattributes⟩ =>
      ⟨hconstants, hfill, hwithin, hinterfaces, hfields,
        fun pool hpool => (hmethods pool).1 (h pool hpool), hattributes⟩,
    fun ⟨hconstants, hfill, hwithin, hinterfaces, hfields, h, hattributes⟩ =>
      ⟨hconstants, hfill, hwithin, hinterfaces, hfields,
        fun pool hpool => (hmethods pool).2 (h pool hpool), hattributes⟩⟩

/-- Its methods start in the same places. -/
theorem methodOffset_undeclared (c : ClassFile) (i : Nat) :
    c.undeclared.methodOffset i = c.methodOffset i := by
  have hheader : Parser.Header.ofClassFile c.undeclared = Parser.Header.ofClassFile c := by
    simp only [Parser.Header.ofClassFile, undeclared, List.length_map]
    rfl
  rw [methodOffset, hheader, undeclared, Reader.offset_map MethodInfo.length_bytes_undeclared,
    methodOffset]

/-- So do the attributes of these. -/
theorem attributeOffset_undeclared (c : ClassFile) (i : Nat) (m : MethodInfo) (j : Nat) :
    c.undeclared.attributeOffset i m.undeclared j = c.attributeOffset i m j := by
  rw [attributeOffset, methodOffset_undeclared, MethodInfo.undeclared,
    Reader.offset_map MethodAttribute.length_bytes_undeclared, attributeOffset]

/-- Class files that differ only in what is declared for code have the attributes of a method in the
same places. -/
theorem attributeOffset_eq_of_undeclared_eq {c c' : ClassFile} {i : Nat} {m m' : MethodInfo}
    (h : c'.undeclared = c.undeclared) (hm : c.methods[i]? = some m)
    (hm' : c'.methods[i]? = some m') (j : Nat) :
    c'.attributeOffset i m' j = c.attributeOffset i m j := by
  have hmethods : (c'.methods.map MethodInfo.undeclared)[i]? =
      (c.methods.map MethodInfo.undeclared)[i]? :=
    congrArg (fun x : ClassFile => x.methods[i]?) h
  rw [List.getElem?_map, List.getElem?_map, hm, hm', Option.map_some, Option.map_some,
    Option.some_inj] at hmethods
  rw [← attributeOffset_undeclared, h, hmethods, attributeOffset_undeclared]

/-- An attribute takes as much as it declares exactly if that is the size of its contents. -/
theorem attribute_at_declared_iff {c : ClassFile} {i j : Nat} {m : MethodInfo} {a : MethodAttribute}
    (hc : c.WellFormed) (hm : c.methods[i]? = some m) (ha : m.attributes[j]? = some a)
    (rest : List UInt8) :
    Parser.methodAttribute c.pool ((c.bytes ++ rest).drop (c.attributeOffset i m j)) =
        .ok (a, (c.bytes ++ rest).drop
          (c.attributeOffset i m j + (6 + a.declaredLength.toNat))) ↔
      a.contents.length = a.declaredLength.toNat := by
  have hread := attribute_at hc hm ha rest
  rw [attributeOffset_succ c i ha] at hread
  rw [hread, Except.ok.injEq, Prod.mk.injEq]
  constructor
  · rintro ⟨-, hdrop⟩
    -- The contents end before the bytes do, so they end where as many bytes are left.
    have hlt := attributeOffset_lt hm (j + 1)
    rw [attributeOffset_succ c i ha] at hlt
    have hlength := congrArg List.length hdrop
    simp only [List.length_drop, List.length_append] at hlength
    omega
  · intro hlength
    rw [hlength]
    exact ⟨rfl, rfl⟩

/-- Where attributes end. Reading a class file goes from each method to the next, and in a method
from each attribute to the next. An attribute takes its six bytes and its contents. What is not code
has as much in it as it declares; for code this is so only if the declared length is right. But a
class file that differs from it in what is declared for code only, is read as well, has its methods
and attributes in the same places, and loads the same class. -/
theorem attribute_framing (input : List UInt8) (c : ClassFile) (hparse : parse input = .ok c) :
    Parser.header input =
        .ok (Parser.Header.ofClassFile c, input.drop (c.methodOffset 0)) ∧
      (∀ i, i ≤ c.methods.length →
        Reader.times i (Parser.method c.pool) (input.drop (c.methodOffset 0)) =
          .ok (c.methods.take i, input.drop (c.methodOffset i))) ∧
      (∀ i m, c.methods[i]? = some m →
        c.attributeOffset i m 0 = c.methodOffset i + 8 ∧
        (∀ j, j ≤ m.attributes.length →
          Reader.times j (Parser.methodAttribute c.pool) (input.drop (c.attributeOffset i m 0)) =
            .ok (m.attributes.take j, input.drop (c.attributeOffset i m j))) ∧
        c.attributeOffset i m m.attributes.length = c.methodOffset (i + 1) ∧
        ∀ j a, m.attributes[j]? = some a →
          Parser.methodAttribute c.pool (input.drop (c.attributeOffset i m j)) =
            .ok (a, input.drop (c.attributeOffset i m (j + 1))) ∧
          c.attributeOffset i m (j + 1) =
            c.attributeOffset i m j + (6 + a.contents.length) ∧
          c.attributeOffset i m (j + 1) < input.length ∧
          (Parser.methodAttribute c.pool (input.drop (c.attributeOffset i m j)) =
              .ok (a, input.drop (c.attributeOffset i m j + (6 + a.declaredLength.toNat))) ↔
            a.contents.length = a.declaredLength.toNat) ∧
          (a.code? = none → a.contents.length = a.declaredLength.toNat)) ∧
      ∀ c' rest, c'.undeclared = c.undeclared →
        parse (c'.bytes ++ rest) = .ok c' ∧ c'.loaded = c.loaded ∧
          c'.bytes.length = c.bytes.length ∧
          (∀ i, c'.methodOffset i = c.methodOffset i) ∧
          ∀ i m m', c.methods[i]? = some m → c'.methods[i]? = some m' → ∀ j,
            c'.attributeOffset i m' j = c.attributeOffset i m j := by
  obtain ⟨hc, rest, rfl⟩ := (parse_eq_ok_iff input c).1 hparse
  refine ⟨header_at hc rest, fun i hi => times_method_at hc hi rest, fun i m hm => ?_,
    fun c' rest' h => ?_⟩
  · refine ⟨attributeOffset_zero c i m, fun j hj => times_attribute_at hc hm hj rest,
      attributeOffset_length hm,
      fun j a ha => ⟨attribute_at hc hm ha rest, attributeOffset_succ c i ha, ?_,
        attribute_at_declared_iff hc hm ha rest, fun hother => ?_⟩⟩
    · rw [List.length_append]
      exact Nat.lt_add_right _ (attributeOffset_lt hm (j + 1))
    · have hmethod := hc.methods_pool.2 m (List.mem_of_getElem? hm)
      exact MethodAttribute.length_contents_of_other
        (hmethod.attributes.2 a (List.mem_of_getElem? ha)) hother
  · have hc' : c'.WellFormed := by rwa [← wellFormed_undeclared, h, wellFormed_undeclared]
    refine ⟨(parse_eq_ok_iff _ c').2 ⟨hc', rest', rfl⟩, ?_, ?_, fun i => ?_,
      fun i m m' hm hm' => attributeOffset_eq_of_undeclared_eq h hm hm'⟩
    · rw [← loaded_undeclared, h, loaded_undeclared]
    · rw [← length_bytes_undeclared, h, length_bytes_undeclared]
    · rw [← methodOffset_undeclared, h, methodOffset_undeclared]

/-- A class with one method that has one attribute of 13 bytes, for which any length is declared. It
is code, if the name says so. -/
def oneAttribute (name : String) (declaredLength : UInt32) : ClassFile where
  minorVersion := 0
  majorVersion := 52
  poolCount := 4
  constants := [.utf8 name, .utf8 "f", .utf8 "()V"]
  accessFlags := 0x21
  thisClass := 0
  superClass := 0
  interfaces := []
  fields := []
  methods := [⟨9, ⟨2, "f"⟩, ⟨3, "()V"⟩, [.code 1 declaredLength ⟨0, 0, [0xb1], [], []⟩]⟩]
  attributes := []

/-- Not all attributes take as much as they declare: where 1000 bytes are declared for the code, it
takes 19 with its name and its length, and not 1006. The same bytes are refused if the attribute is
not code. -/
theorem not_framed_by_declaredLength :
    (¬∀ input c, parse input = .ok c → ∀ i m j a, c.methods[i]? = some m →
      m.attributes[j]? = some a →
        Parser.methodAttribute c.pool (input.drop (c.attributeOffset i m j)) =
          .ok (a, input.drop (c.attributeOffset i m j + (6 + a.declaredLength.toNat)))) ∧
      parse (oneAttribute "Cold" 1000).bytes = .error .truncated := by
  refine ⟨fun h => ?_, rfl⟩
  have hparse : parse (oneAttribute "Code" 1000).bytes = .ok (oneAttribute "Code" 1000) := rfl
  have hframed := h _ _ hparse 0 _ 0 _ rfl rfl
  cases hframed

/-- Whatever is declared for the code, the class is read, and it is the one that is loaded with the
right length. -/
theorem attribute_framing_oneAttribute :
    parse (oneAttribute "Code" 13).bytes = .ok (oneAttribute "Code" 13) ∧
      ∀ n, parse (oneAttribute "Code" n).bytes = .ok (oneAttribute "Code" n) ∧
        (oneAttribute "Code" n).loaded = (oneAttribute "Code" 13).loaded := by
  have hparse : parse (oneAttribute "Code" 13).bytes = .ok (oneAttribute "Code" 13) := rfl
  obtain ⟨-, -, -, hsame⟩ := attribute_framing _ _ hparse
  refine ⟨hparse, fun n => ?_⟩
  obtain ⟨hread, hloaded, -⟩ := hsame (oneAttribute "Code" n) [] rfl
  rw [List.append_nil] at hread
  exact ⟨hread, hloaded⟩

end ClassFile

end TieredJvm
