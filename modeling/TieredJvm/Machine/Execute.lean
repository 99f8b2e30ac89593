import TieredJvm.Machine.Frame
import TieredJvm.Machine.Session

/-!
# The effect of an instruction

`execute` says what one instruction does to the frame that executes it and to the session. Calls
and returns concern other frames too, so they are only announced here, as an `Effect`.

Where an instruction can fail in several ways the order of the checks is part of its meaning: a
reference to the pool is resolved before anything is popped.
-/

namespace TieredJvm

/-- What becomes of a frame after an instruction. -/
inductive Effect where
  /-- It goes on with the next instruction. -/
  | proceed (f : Frame)
  /-- It goes on elsewhere in its code. -/
  | jump (f : Frame) (target : Nat)
  /-- It calls a method, and goes on with the next instruction after that. -/
  | call (callee : Method) (args : List Int32) (f : Frame)
  /-- It ends with a value. -/
  | finish (value : Int32)

namespace Execute

/-- The word that stands for every static field. -/
def staticField : Int32 :=
  Int32.minValue

/-- Gives the fault of a failed look-up. -/
def resolved {α : Type} : Except ResolutionError α → Except Fault α
  | .ok a => .ok a
  | .error cause => .error (.resolution cause)

/-- The word of a constant: a number is itself, and a string literal is its index. -/
def constantWord (pool : ConstantPool) (index : UInt16) : Except Fault Int32 :=
  match pool.integer index with
  | .ok value => .ok value
  | .error _ =>
    match pool.string index with
    | .ok _ => .ok index.toUInt32.toInt32
    | .error cause => .error (.resolution cause)

/-- Branches if the test came out so. -/
def branchIf (f : Frame) (taken : Bool) (offset : Int16) : Except Fault Effect :=
  if taken then do return .jump f (← f.branchTarget offset) else .ok (.proceed f)

/-- Allocates an object. -/
def new (pool : ConstantPool) (s : Session) (f : Frame) (index : UInt16) :
    Session × Except Fault Effect :=
  match pool.className index with
  | .error cause => (s, .error (.resolution cause))
  | .ok className =>
    match s.heap.alloc className with
    | .error cause => (s, .error (.heapExhausted cause))
    | .ok (reference, heap) =>
      ({ s with heap }.record (.allocated className reference),
        .ok (.proceed (f.push reference)))

/-- Reads a field. -/
def getField (pool : ConstantPool) (heap : Heap) (f : Frame) (index : UInt16) :
    Except Fault Effect := do
  let member ← resolved (pool.fieldRef index)
  let (reference, f) ← f.pop
  match heap.get? reference with
  | some object => return .proceed (f.push (object.field member.name))
  | none => throw (.invalidReference reference heap.size)

/-- The write of a field, with its operands taken from the stack. -/
structure FieldWrite where
  /-- The object that is written. -/
  reference : Int32
  /-- The name of the field. -/
  name : String
  /-- The new value. -/
  value : Int32

/-- Prepares the write of a field. -/
def fieldWrite (pool : ConstantPool) (heap : Heap) (f : Frame) (index : UInt16) :
    Except Fault (FieldWrite × Frame) := do
  let member ← resolved (pool.fieldRef index)
  let (value, f) ← f.pop
  let (reference, f) ← f.pop
  match heap.get? reference with
  | some _ => return (⟨reference, member.name, value⟩, f)
  | none => throw (.invalidReference reference heap.size)

/-- Writes a field. -/
def putField (pool : ConstantPool) (s : Session) (f : Frame) (index : UInt16) :
    Session × Except Fault Effect :=
  match fieldWrite pool s.heap f index with
  | .error fault => (s, .error fault)
  | .ok (w, f) =>
    ({ s with heap := s.heap.setField w.reference w.name w.value }, .ok (.proceed f))

/-- Announces the call of a method of the program, with its arguments taken from the stack. -/
def invokeStatic (p : Program) (f : Frame) (index : UInt16) : Except Fault Effect := do
  let member ← resolved (p.pool.methodRef index)
  let key : MethodKey := ⟨member.name, member.descriptor⟩
  match p.find? key with
  | none => throw (.methodNotFound key)
  | some callee =>
    if callee.signature.isWordSized then
      let (args, f) ← f.popMany callee.signature.args.length
      return .call callee args f
    else throw (.unsupportedInvocation key)

/-- The constructor that a call names, with its arguments and its receiver taken from the
stack. -/
def constructorCall (pool : ConstantPool) (f : Frame) (index : UInt16) :
    Except Fault (MemberRef × Frame) := do
  let member ← resolved (pool.methodRef index)
  match Signature.ofDescriptor member.descriptor with
  | .error cause => throw (.program cause)
  | .ok signature =>
    let (_, f) ← f.popMany signature.argSlots
    let (_, f) ← f.pop
    return (member, f)

/-- Skips the call of a constructor. -/
def invokeSpecial (pool : ConstantPool) (s : Session) (f : Frame) (index : UInt16) :
    Session × Except Fault Effect :=
  match constructorCall pool f index with
  | .error fault => (s, .error fault)
  | .ok (member, f) => (s.record (.skipped member), .ok (.proceed f))

/-- The index of a string constant that a word stands for. -/
def constantIndex (token : Int32) : Except Fault UInt16 :=
  if 0 ≤ token ∧ token ≤ 65535 then .ok token.toInt.toNat.toUInt16
  else .error (.invalidConstantToken token)

/-- What a printing method writes after the text that it prints; no other method prints. -/
def terminator? : String → Option (List String)
  | "println" => some ["\n"]
  | "print" => some []
  | _ => none

/-- The texts that a virtual method writes one after another, with its arguments and its receiver
taken from the stack. -/
def printed (pool : ConstantPool) (f : Frame) (index : UInt16) :
    Except Fault (List String × Frame) := do
  let member ← resolved (pool.methodRef index)
  let key : MethodKey := ⟨member.name, member.descriptor⟩
  match terminator? member.name with
  | none => throw (.unsupportedInvocation key)
  | some terminator =>
    match member.descriptor with
    | "(Ljava/lang/String;)V" =>
      let (token, f) ← f.pop
      let text ← resolved (pool.string (← constantIndex token))
      let (_, f) ← f.pop
      return (text :: terminator, f)
    | "(I)V" =>
      let (value, f) ← f.pop
      let (_, f) ← f.pop
      return (toString value.toInt :: terminator, f)
    | _ => throw (.unsupportedInvocation key)

/-- Prints. -/
def invokeVirtual (pool : ConstantPool) (s : Session) (f : Frame) (index : UInt16) :
    Session × Except Fault Effect :=
  match printed pool f index with
  | .error fault => (s, .error fault)
  | .ok (texts, f) =>
    let (sink, outcome) := s.sink.writeAll (texts.map fun text => text.toUTF8.data)
    ({ s with sink },
      match outcome with
      | .ok _ => .ok (.proceed f)
      | .error cause => .error (.output cause))

end Execute

open Execute in
/-- What an instruction does. -/
def execute (p : Program) (s : Session) (f : Frame) : Instruction → Session × Except Fault Effect
  | .nop => (s, .ok (.proceed f))
  | .push value => (s, .ok (.proceed (f.push value)))
  | .pushConstant index => (s, do return .proceed (f.push (← constantWord p.pool index)))
  | .load slot => (s, do return .proceed (f.push (← f.load slot)))
  | .store slot => (s, do
      let (value, f) ← f.pop
      return .proceed (← f.store slot value))
  | .pop => (s, do
      let (_, f) ← f.pop
      return .proceed f)
  | .dup => (s, do
      let (value, _) ← f.pop
      return .proceed (f.push value))
  | .arithmetic operation => (s, do
      let (right, f) ← f.pop
      let (left, f) ← f.pop
      return .proceed (f.push (operation.apply left right)))
  | .increment slot delta => (s, do
      let value ← f.load slot
      return .proceed (← f.store slot (value + delta)))
  | .branchZero test offset => (s, do
      let (value, f) ← f.pop
      branchIf f (test.holds value 0) offset)
  | .branchPair test offset => (s, do
      let (right, f) ← f.pop
      let (left, f) ← f.pop
      branchIf f (test.holds left right) offset)
  | .jump offset => (s, branchIf f true offset)
  | .returnValue => (s, do
      let (value, _) ← f.pop
      return .finish value)
  | .returnVoid => (s, .ok (.finish 0))
  | .getStatic _ => (s, .ok (.proceed (f.push staticField)))
  | .new index => new p.pool s f index
  | .getField index => (s, getField p.pool s.heap f index)
  | .putField index => putField p.pool s f index
  | .invokeVirtual index => invokeVirtual p.pool s f index
  | .invokeSpecial index => invokeSpecial p.pool s f index
  | .invokeStatic index => (s, invokeStatic p f index)

end TieredJvm
