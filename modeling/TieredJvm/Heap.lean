import TieredJvm.Table

/-!
# The heap

Objects are only ever added, so the index at which one was added is a reference to it for good.
References are words like any other; one that is negative or too large refers to nothing.
-/

namespace TieredJvm

/-- An object: the name of its class, and the fields written so far. -/
structure Object where
  /-- The class of which the object was allocated. -/
  className : String
  /-- The fields that were written, by name. -/
  fields : Table String Int32 := {}

namespace Object

/-- The value of a field; one that was never written is zero. -/
def field (o : Object) (name : String) : Int32 :=
  (o.fields.get? name).getD 0

/-- Writes a field. -/
def setField (o : Object) (name : String) (value : Int32) : Object :=
  { o with fields := o.fields.set name value }

/-- A field reads as what was written last. -/
@[simp] theorem field_setField_self (o : Object) (name : String) (value : Int32) :
    (o.setField name value).field name = value := by
  simp [field, setField]

/-- Writing one field leaves the others. -/
theorem field_setField_of_ne (o : Object) {name other : String} (value : Int32)
    (h : other ≠ name) : (o.setField name value).field other = o.field other := by
  simp [field, setField, Table.get?_set_of_ne _ _ h]

/-- Writing a field leaves the class. -/
@[simp] theorem className_setField (o : Object) (name : String) (value : Int32) :
    (o.setField name value).className = o.className := rfl

end Object

/-- Every reference that a word can hold is taken. -/
structure HeapExhausted where
  /-- The number of objects. -/
  size : Nat
  deriving DecidableEq

/-- The text of a refused allocation. -/
def HeapExhausted.message (e : HeapExhausted) : String :=
  s!"heap exhausted after {e.size} objects"

/-- The objects allocated so far. -/
structure Heap where
  /-- The objects, in the order of allocation. -/
  objects : Array Object := #[]

namespace Heap

/-- The number of objects. -/
def size (h : Heap) : Nat :=
  h.objects.size

/-- Whether nothing was allocated. -/
def isEmpty (h : Heap) : Bool :=
  h.size = 0

/-- The reference of the next object; refused when the words that are not negative run out. -/
def nextReference (h : Heap) : Except HeapExhausted Int32 :=
  if h.size < 0x80000000 then .ok (Int32.ofNat h.size) else .error ⟨h.size⟩

/-- Adds an object of a class, with no field written. -/
def add (h : Heap) (className : String) : Heap :=
  ⟨h.objects.push { className }⟩

/-- Allocates an object and gives its reference. -/
def alloc (h : Heap) (className : String) : Except HeapExhausted (Int32 × Heap) :=
  match h.nextReference with
  | .ok reference => .ok (reference, h.add className)
  | .error e => .error e

/-- The index that a reference stands for, if it is not negative. -/
def index? (reference : Int32) : Option Nat :=
  if 0 ≤ reference then some reference.toInt.toNat else none

/-- The object that a reference refers to. -/
def get? (h : Heap) (reference : Int32) : Option Object :=
  (index? reference).bind (h.objects[·]?)

/-- Writes a field of the object that a reference refers to; nothing changes if there is none. -/
def setField (h : Heap) (reference : Int32) (name : String) (value : Int32) : Heap :=
  match index? reference with
  | some i => ⟨h.objects.modify i (·.setField name value)⟩
  | none => h

/-- Allocating adds one object. -/
@[simp] theorem size_add (h : Heap) (className : String) :
    (h.add className).size = h.size + 1 := by
  simp [size, add]

/-- An allocation that is not refused gives the next reference, and adds the object. -/
theorem alloc_eq_ok {h h' : Heap} {className : String} {reference : Int32} :
    h.alloc className = .ok (reference, h') ↔
      h.nextReference = .ok reference ∧ h' = h.add className := by
  unfold alloc
  cases h.nextReference with
  | ok next => simp [eq_comm]
  | error e => simp

/-- Writing a field adds and removes no object. -/
@[simp] theorem size_setField (h : Heap) (reference : Int32) (name : String) (value : Int32) :
    (h.setField reference name value).size = h.size := by
  unfold setField
  split <;> simp [size]

/-- Two references that stand for the same index are the same. -/
theorem index?_inj {r r' : Int32} {i : Nat} (h : index? r = some i) (h' : index? r' = some i) :
    r = r' := by
  unfold index? at h h'
  split at h <;> split at h' <;> simp only [Option.some.injEq, reduceCtorEq] at h h'
  rename_i hr hr'
  rw [Int32.le_iff_toInt_le, Int32.toInt_zero] at hr hr'
  exact Int32.toInt_inj.1 (by omega)

/-- An index within the heap is that of an object. -/
theorem get?_isSome_iff (h : Heap) (reference : Int32) :
    (h.get? reference).isSome ↔ ∃ i, index? reference = some i ∧ i < h.size := by
  unfold get? size
  cases index? reference with
  | none => simp
  | some i => simp

/-- Writing a field shows in the object written, and in no other. -/
theorem get?_setField (h : Heap) (r r' : Int32) (name : String) (value : Int32) :
    (h.setField r name value).get? r' =
      if r' = r then (h.get? r).map (·.setField name value) else h.get? r' := by
  unfold setField get?
  cases hr : index? r with
  | none => by_cases he : r' = r <;> simp [he, hr]
  | some i =>
    by_cases he : r' = r
    · simp [he, hr, Array.getElem?_modify]
    · cases hr' : index? r' with
      | none => simp [he]
      | some j =>
        have hij : i ≠ j := fun e => he (index?_inj hr' (e ▸ hr))
        simp [he, Array.getElem?_modify, hij]

end Heap

end TieredJvm
