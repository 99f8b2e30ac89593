import TieredJvm.Proofs.Machine.Effects

/-!
# Structurally sound programs raise no structural fault

A method is structurally sound if its code can be laid out: instructions read from the start tile
it, branches lead to instructions, the local variables used exist, and to every instruction there
belongs one depth of the operand stack, which is enough for it and from which the depths of the
instructions that can follow are counted (`Method.Sound`). A program of sound methods never raises
one of the faults that say otherwise: an operation or an operand that is not there, a branch out of
the code, a local variable out of range, or an empty operand stack (`structural_soundness`).

The invariant is `State.Sound`: every frame stands at an instruction, or at the end of its code,
with the operand stack as deep as the layout says. A caller that waits for a value is one operand
short of that. `execute_keeps` says what each instruction does to the depth, `step_sound` that a
step keeps the invariant.
-/

namespace TieredJvm

/-! ## Layouts -/

/-- The instruction that starts at a position, with its width in bytes. -/
def instructionAt? (code : Array UInt8) (pc : Nat) : Option (Nat × Instruction) := do
  let op ← Opcode.ofByte? (← code[pc]?)
  return (op.width, Instruction.decode op (code.getD (pc + 1) 0) (code.getD (pc + 2) 0))

/-- The instructions that are read one after another from `pc` on start at `starts`, and the last
of them ends where the code ends. -/
inductive Tiles (code : Array UInt8) : (pc : Nat) → (starts : List Nat) → Prop where
  /-- All is read. -/
  | done : Tiles code code.size []
  /-- An instruction is read, and the others after it. -/
  | next {pc width : Nat} {i : Instruction} {starts : List Nat}
      (first : instructionAt? code pc = some (width, i))
      (others : Tiles code (pc + width) starts) : Tiles code pc (pc :: starts)

/-- What an instruction takes from the operand stack and leaves on it. -/
structure StackEffect where
  /-- The number of operands that it needs. -/
  pops : Nat
  /-- The number of words that it leaves in their place. -/
  pushes : Nat
  deriving DecidableEq

/-- The signature that the descriptor of a method reference spells, if the reference can be
resolved. -/
def ConstantPool.signature? (pool : ConstantPool) (index : UInt16) : Option Signature :=
  match pool.methodRef index with
  | .ok member => (Signature.ofDescriptor member.descriptor).toOption
  | .error _ => none

namespace Instruction

/-- The stack effect of an instruction. There is none if the pool does not hold what the
instruction looks up there, or if the descriptor found is malformed. Reading a static field looks
nothing up. -/
def stackEffect? (pool : ConstantPool) : Instruction → Option StackEffect
  | nop | increment _ _ | jump _ | returnVoid => some ⟨0, 0⟩
  | push _ | load _ | getStatic _ => some ⟨0, 1⟩
  | store _ | pop | branchZero _ _ | returnValue => some ⟨1, 0⟩
  | dup => some ⟨1, 2⟩
  | arithmetic _ => some ⟨2, 1⟩
  | branchPair _ _ => some ⟨2, 0⟩
  | pushConstant index =>
    match pool.integer index with
    | .ok _ => some ⟨0, 1⟩
    | .error _ => (pool.string index).toOption.map fun _ => ⟨0, 1⟩
  | new index => (pool.className index).toOption.map fun _ => ⟨0, 1⟩
  | getField index => (pool.fieldRef index).toOption.map fun _ => ⟨1, 1⟩
  | putField index => (pool.fieldRef index).toOption.map fun _ => ⟨2, 0⟩
  | invokeVirtual index => (pool.methodRef index).toOption.map fun _ => ⟨2, 0⟩
  | invokeSpecial index => (pool.signature? index).map fun s => ⟨s.argSlots + 1, 0⟩
  | invokeStatic index =>
    (pool.signature? index).map fun s => ⟨s.args.length, if s.returnsValue then 1 else 0⟩

/-- The local variable that an instruction uses. -/
def slot? : Instruction → Option Nat
  | load slot | store slot | increment slot _ => some slot
  | _ => none

/-- How far an instruction branches, if it can. -/
def offset? : Instruction → Option Int16
  | branchZero _ offset | branchPair _ offset | jump offset => some offset
  | _ => none

/-- Whether the next instruction can follow. -/
def fallsThrough : Instruction → Bool
  | jump _ | returnValue | returnVoid => false
  | _ => true

/-- Whether what stands at `next` can follow an instruction at `pc`: it comes next, or is branched
to. -/
def Leads (i : Instruction) (pc width next : Nat) : Prop :=
  (i.fallsThrough = true ∧ next = pc + width) ∨
    ∃ offset ∈ i.offset?, (next : Int) = pc + offset.toInt

/-- What a layout asks of the instruction at `pc`. -/
structure Fits (pool : ConstantPool) (maxLocals : Nat) (starts : List Nat) (depth : Nat → Nat)
    (pc width : Nat) (i : Instruction) : Prop where
  /-- A branch leads to an instruction. -/
  branch : ∀ offset ∈ i.offset?, ∃ q ∈ starts, (q : Int) = pc + offset.toInt
  /-- The local variable exists. -/
  slot : ∀ slot ∈ i.slot?, slot < maxLocals
  /-- There are enough operands. -/
  pops : ∀ e ∈ i.stackEffect? pool, e.pops ≤ depth pc
  /-- The instructions that can follow have the depth that this one leaves. -/
  flow : ∀ e ∈ i.stackEffect? pool, ∀ q ∈ starts, i.Leads pc width q →
    depth q = depth pc - e.pops + e.pushes

/-- What can follow is found by comparing positions. -/
instance (i : Instruction) (pc width next : Nat) : Decidable (i.Leads pc width next) :=
  inferInstanceAs (Decidable (_ ∨ _))

/-- A proposed layout can be checked at each instruction. -/
instance (pool : ConstantPool) (maxLocals : Nat) (starts : List Nat) (depth : Nat → Nat)
    (pc width : Nat) (i : Instruction) :
    Decidable (i.Fits pool maxLocals starts depth pc width) :=
  -- The one offset of the branch is looked at, not all that there are.
  have : Decidable (∀ offset ∈ i.offset?, ∃ q ∈ starts, (q : Int) = pc + offset.toInt) :=
    Option.decidableForallMem i.offset?
  decidable_of_iff
    ((∀ offset ∈ i.offset?, ∃ q ∈ starts, (q : Int) = pc + offset.toInt) ∧
      (∀ slot ∈ i.slot?, slot < maxLocals) ∧ (∀ e ∈ i.stackEffect? pool, e.pops ≤ depth pc) ∧
      ∀ e ∈ i.stackEffect? pool, ∀ q ∈ starts, i.Leads pc width q →
        depth q = depth pc - e.pops + e.pushes)
    ⟨fun ⟨hbranch, hslot, hpops, hflow⟩ => ⟨hbranch, hslot, hpops, hflow⟩,
      fun h => ⟨h.branch, h.slot, h.pops, h.flow⟩⟩

end Instruction

namespace Method

/-- A layout of the code of a method: where its instructions start, and how deep the operand stack
is at each of them. -/
structure Layout (pool : ConstantPool) (m : Method) (starts : List Nat) (depth : Nat → Nat) :
    Prop where
  /-- The instructions tile the code. -/
  tiles : Tiles m.code 0 starts
  /-- The operand stack is empty at the start. -/
  entry : depth 0 = 0
  /-- Every instruction fits. -/
  fits : ∀ pc ∈ starts, ∀ r ∈ instructionAt? m.code pc,
    r.2.Fits pool m.maxLocals starts depth pc r.1

/-- A method is sound if its code can be laid out. -/
def Sound (pool : ConstantPool) (m : Method) : Prop :=
  ∃ starts depth, m.Layout pool starts depth

end Method

/-- The faults that say that code is not laid out. -/
def Fault.isStructural : Fault → Bool
  | unsupportedOpcode _ _ | truncatedInstruction _ _ | invalidBranch _ _ | localOutOfRange _ _
  | stackUnderflow _ => true
  | _ => false

/-! ## Tiled code -/

/-- What tiles code starts with an instruction, unless there is none left. -/
theorem Tiles.first_mem {code : Array UInt8} {pc : Nat} {starts : List Nat}
    (h : Tiles code pc starts) : pc = code.size ∨ pc ∈ starts := by
  cases h with
  | done => exact .inl rfl
  | next first others => exact .inr (List.mem_cons_self ..)

/-- Code is tiled from positions within it. -/
theorem Tiles.le_size {code : Array UInt8} {pc : Nat} {starts : List Nat}
    (h : Tiles code pc starts) : pc ≤ code.size := by
  induction h with
  | done => exact Nat.le_refl _
  | next first others ih => omega

/-- At every start there is an instruction, and after it another one or the end. -/
theorem Tiles.at_start {code : Array UInt8} {pc : Nat} {starts : List Nat}
    (h : Tiles code pc starts) {q : Nat} (hq : q ∈ starts) :
    ∃ width i, instructionAt? code q = some (width, i) ∧ q + width ≤ code.size ∧
      (q + width = code.size ∨ q + width ∈ starts) := by
  induction h with
  | done => cases hq
  | @next pc width i starts first others ih =>
    rcases List.mem_cons.1 hq with rfl | hq
    · refine ⟨width, i, first, others.le_size, ?_⟩
      exact others.first_mem.imp_right (List.mem_cons_of_mem _)
    · obtain ⟨w, j, hat, hle, hnext⟩ := ih hq
      exact ⟨w, j, hat, hle, hnext.imp_right (List.mem_cons_of_mem _)⟩

/-- An instruction within the code is read and told of as such. -/
theorem fetch_of_instructionAt? {code : Array UInt8} {pc width : Nat} {i : Instruction}
    (h : instructionAt? code pc = some (width, i)) (hle : pc + width ≤ code.size) :
    ∃ (hpc : pc < code.size) (op : Opcode) (x y : UInt8), fetch code pc hpc = .ok ⟨op, x, y⟩ ∧
      op.width = width ∧ Instruction.decode op x y = i := by
  obtain ⟨byte, hbyte, h⟩ := Option.bind_eq_some_iff.1 h
  obtain ⟨op, hop, h⟩ := Option.bind_eq_some_iff.1 h
  obtain ⟨rfl, rfl⟩ := Prod.mk.inj (Option.some.inj h)
  obtain ⟨hpc, rfl⟩ := Array.getElem?_eq_some_iff.1 hbyte
  exact ⟨hpc, op, _, _, by simp only [fetch, hop, if_pos hle], rfl, rfl⟩

/-! ## What instructions do to the depth -/

/-- The fault is none of the structural ones. -/
def Fault.Other (fault : Fault) : Prop :=
  fault.isStructural = false

/-- The frame `g` is `f` with `count` operands fewer. -/
structure Frame.Drops (count : Nat) (f g : Frame) : Prop where
  /-- The method is the same. -/
  method : g.method = f.method
  /-- The position is the same. -/
  pc : g.pc = f.pc
  /-- The local variables are the same. -/
  locals : g.locals = f.locals
  /-- So many operands fewer. -/
  stack : g.stack.length + count = f.stack.length

/-- Operands are dropped one after another. -/
theorem Frame.Drops.trans {m n : Nat} {f g h : Frame} (hfg : Drops m f g) (hgh : Drops n g h) :
    Drops (m + n) f h := by
  refine ⟨hgh.method.trans hfg.method, hgh.pc.trans hfg.pc, hgh.locals.trans hfg.locals, ?_⟩
  have hf := hfg.stack
  have hg := hgh.stack
  omega

namespace Execute

/-- A word can be popped if there is one. -/
theorem pop_drops {f : Frame} (h : 1 ≤ f.stack.length) :
    Ensures (fun r => f.Drops 1 r.2) Fault.Other f.pop := by
  unfold Frame.pop
  split
  · next value rest hstack => exact ⟨rfl, rfl, rfl, by rw [hstack, List.length_cons]⟩
  · next hstack =>
    rw [hstack] at h
    cases h

/-- Words can be popped at once if there are enough. -/
theorem popMany_drops {f : Frame} {count : Nat} (h : count ≤ f.stack.length) :
    Ensures (fun r => f.Drops count r.2) Fault.Other (f.popMany count) := by
  unfold Frame.popMany
  rw [if_pos h]
  refine ⟨rfl, rfl, rfl, ?_⟩
  show (f.stack.drop count).length + count = f.stack.length
  rw [List.length_drop]
  omega

/-- After one word another can be popped if there are two. -/
theorem pop_drops_again {f g : Frame} (h : 2 ≤ f.stack.length) (hg : f.Drops 1 g) :
    Ensures (fun r => f.Drops 2 r.2) Fault.Other g.pop := by
  have hlen := hg.stack
  have hpop := pop_drops (f := g) (by omega)
  unfold Frame.pop at hpop ⊢
  split at hpop
  · exact hg.trans hpop
  · exact hpop

/-- A local variable within range can be read. -/
theorem load_other {f : Frame} {slot : Nat} (h : slot < f.locals.size) :
    Ensures (fun _ => True) Fault.Other (f.load slot) := by
  unfold Frame.load
  rw [Array.getElem?_eq_getElem h]
  trivial

/-- A local variable within range can be written, and nothing else changes. -/
theorem store_drops {f : Frame} {slot : Nat} (h : slot < f.locals.size) (value : Int32) :
    Ensures (fun g => g.method = f.method ∧ g.locals.size = f.locals.size ∧ g.stack = f.stack)
      Fault.Other (f.store slot value) := by
  unfold Frame.store
  rw [if_pos h]
  exact ⟨rfl, Array.size_setIfInBounds .., rfl⟩

/-- A failed look-up is no structural fault. -/
theorem resolved_other {α : Type} (x : Except ResolutionError α) :
    Ensures (fun a => x = .ok a) Fault.Other (resolved x) := by
  cases x with
  | ok a => rfl
  | error cause => rfl

end Execute

/-- The frame `g` is what an instruction makes of `f`, `pending` words short of its stack
effect. -/
structure Frame.Moves (pool : ConstantPool) (i : Instruction) (pending : Nat) (f g : Frame) :
    Prop where
  /-- The method is the same. -/
  method : g.method = f.method
  /-- There are as many local variables. -/
  locals : g.locals.size = f.locals.size
  /-- The depth changes by the stack effect. -/
  stack : ∃ e ∈ i.stackEffect? pool,
    g.stack.length + pending = f.stack.length - e.pops + e.pushes

/-- The words that a call pushes when it returns. -/
def Method.resultWords (m : Method) : Nat :=
  if m.signature.returnsValue then 1 else 0

/-- An instruction that drops its operands and then pushes has moved the frame. -/
theorem Frame.Drops.moves {pool : ConstantPool} {i : Instruction} {pops pushes pending : Nat}
    {f g g' : Frame} (h : f.Drops pops g) (he : i.stackEffect? pool = some ⟨pops, pushes⟩)
    (hmethod : g'.method = g.method) (hlocals : g'.locals.size = g.locals.size)
    (hstack : g'.stack.length + pending = g.stack.length + pushes) :
    f.Moves pool i pending g' := by
  refine ⟨hmethod.trans h.method, by rw [hlocals, h.locals], ⟨pops, pushes⟩, he, ?_⟩
  have hlen := h.stack
  dsimp only
  omega

/-- What an instruction makes of a frame, by the way in which the frame goes on. -/
def Effect.Keeps (pool : ConstantPool) (f : Frame) (i : Instruction) : Effect → Prop
  | .proceed g => i.fallsThrough = true ∧ f.Moves pool i 0 g
  | .jump g target =>
    (∃ offset ∈ i.offset?, (target : Int) = f.pc + offset.toInt) ∧
      f.Moves pool i 0 g
  | .call callee _ g => i.fallsThrough = true ∧ f.Moves pool i callee.resultWords g
  | .finish _ => True

/-- What a frame must offer to an instruction. -/
structure Frame.Offers (pool : ConstantPool) (f : Frame) (i : Instruction) : Prop where
  /-- A branch leads to a place within the code. -/
  branch : ∀ offset ∈ i.offset?,
    0 ≤ f.pc + offset.toInt ∧ f.pc + offset.toInt < f.method.code.size
  /-- The local variable exists. -/
  slot : ∀ slot ∈ i.slot?, slot < f.locals.size
  /-- There are enough operands. -/
  pops : ∀ e ∈ i.stackEffect? pool, e.pops ≤ f.stack.length

namespace Execute

/-- A branch leads on, or to the place that it names. -/
theorem branchIf_keeps {pool : ConstantPool} {f g : Frame} {i : Instruction} {pops : Nat}
    {offset : Int16} {taken : Bool} (h : f.Offers pool i) (hoffset : i.offset? = some offset)
    (he : i.stackEffect? pool = some ⟨pops, 0⟩) (hg : f.Drops pops g)
    (hfalls : i.fallsThrough = true ∨ taken = true) :
    Ensures (Effect.Keeps pool f i) Fault.Other (branchIf g taken offset) := by
  have hmoves : f.Moves pool i 0 g := hg.moves he rfl rfl rfl
  obtain ⟨hlow, hhigh⟩ := h.branch offset hoffset
  unfold branchIf
  -- The offset counts from the branch itself, also where operands were popped before.
  split
  · have htarget : g.branchTarget offset = .ok (f.pc + offset.toInt).toNat := by
      unfold Frame.branchTarget
      rw [hg.pc, hg.method]
      exact if_pos ⟨hlow, hhigh⟩
    rw [htarget]
    exact ⟨⟨offset, hoffset, Int.toNat_of_nonneg hlow⟩, hmoves⟩
  · next htaken => exact ⟨hfalls.resolve_right htaken, hmoves⟩

/-- A constant that is there gives a word. -/
theorem constantWord_other (pool : ConstantPool) (index : UInt16) :
    Ensures (fun _ => (Instruction.pushConstant index).stackEffect? pool = some ⟨0, 1⟩) Fault.Other
      (constantWord pool index) := by
  simp only [constantWord, Instruction.stackEffect?]
  cases pool.integer index with
  | ok value => rfl
  | error _ =>
    cases pool.string index with
    | ok text => rfl
    | error cause => rfl

/-- Reading a field replaces the reference by the value. -/
theorem getField_keeps {pool : ConstantPool} {f : Frame} {index : UInt16}
    (h : f.Offers pool (.getField index)) (heap : Heap) :
    Ensures (Effect.Keeps pool f (.getField index)) Fault.Other (getField pool heap f index) := by
  refine (resolved_other _).bind fun member hmember => ?_
  have he : (Instruction.getField index).stackEffect? pool = some ⟨1, 1⟩ := by
    rw [Instruction.stackEffect?, hmember]
    rfl
  refine (pop_drops (h.pops _ he)).bind fun r hr => ?_
  dsimp only
  split
  · exact ⟨rfl, hr.moves he rfl rfl rfl⟩
  · rfl

/-- The write of a field takes the value and the reference. -/
theorem fieldWrite_keeps {pool : ConstantPool} {f : Frame} {index : UInt16}
    (h : f.Offers pool (.putField index)) (heap : Heap) :
    Ensures (fun r => f.Moves pool (.putField index) 0 r.2) Fault.Other
      (fieldWrite pool heap f index) := by
  refine (resolved_other _).bind fun member hmember => ?_
  have he : (Instruction.putField index).stackEffect? pool = some ⟨2, 0⟩ := by
    rw [Instruction.stackEffect?, hmember]
    rfl
  have hpops := h.pops _ he
  refine (pop_drops (Nat.le_of_succ_le hpops)).bind fun r hr => ?_
  refine (pop_drops_again hpops hr).bind fun r' hr' => ?_
  dsimp only
  split
  · exact hr'.moves he rfl rfl rfl
  · rfl

/-- A static call takes its arguments, and its result is still to come. -/
theorem invokeStatic_keeps {p : Program} {f : Frame} {index : UInt16}
    (h : f.Offers p.pool (.invokeStatic index)) :
    Ensures (Effect.Keeps p.pool f (.invokeStatic index)) Fault.Other
      (invokeStatic p f index) := by
  refine (resolved_other _).bind fun member hmember => ?_
  dsimp only
  split
  · rfl
  · next callee hfind =>
    have hkey := Program.key_of_find? hfind
    -- The signature of the method found is the one that the descriptor at the call spells.
    have he : (Instruction.invokeStatic index).stackEffect? p.pool =
        some ⟨callee.signature.args.length, callee.resultWords⟩ := by
      have hsignature := callee.ofDescriptor_eq
      rw [hkey] at hsignature
      simp only [Instruction.stackEffect?, ConstantPool.signature?, hmember]
      rw [hsignature]
      rfl
    split
    · refine (popMany_drops (h.pops _ he)).bind fun r hr => ?_
      exact ⟨rfl, hr.moves he rfl rfl rfl⟩
    · rfl

/-- A skipped constructor takes its arguments and its receiver. -/
theorem constructorCall_keeps {pool : ConstantPool} {f : Frame} {index : UInt16}
    (h : f.Offers pool (.invokeSpecial index)) :
    Ensures (fun r => f.Moves pool (.invokeSpecial index) 0 r.2) Fault.Other
      (constructorCall pool f index) := by
  refine (resolved_other _).bind fun member hmember => ?_
  split
  · rfl
  · next signature hsignature =>
    -- The arguments are counted in slots here, unlike at a static call.
    have he : (Instruction.invokeSpecial index).stackEffect? pool =
        some ⟨signature.argSlots + 1, 0⟩ := by
      simp only [Instruction.stackEffect?, ConstantPool.signature?, hmember]
      rw [hsignature]
      rfl
    have hpops := h.pops _ he
    refine (popMany_drops (Nat.le_of_succ_le hpops)).bind fun r hr => ?_
    have hlen := hr.stack
    refine (pop_drops (f := r.2) (by dsimp only at hpops; omega)).bind fun r' hr' => ?_
    exact (hr.trans hr').moves he rfl rfl rfl

/-- Printing takes the argument and the receiver. -/
theorem printed_keeps {pool : ConstantPool} {f : Frame} {index : UInt16}
    (h : f.Offers pool (.invokeVirtual index)) :
    Ensures (fun r => f.Moves pool (.invokeVirtual index) 0 r.2) Fault.Other
      (printed pool f index) := by
  refine (resolved_other _).bind fun member hmember => ?_
  have he : (Instruction.invokeVirtual index).stackEffect? pool = some ⟨2, 0⟩ := by
    rw [Instruction.stackEffect?, hmember]
    rfl
  have hpops := h.pops _ he
  have htoken (token : Int32) : Ensures (fun _ => True) Fault.Other (constantIndex token) := by
    unfold constantIndex
    split
    · trivial
    · rfl
  dsimp only
  split
  · rfl
  · split
    · refine (pop_drops (Nat.le_of_succ_le hpops)).bind fun r hr => ?_
      refine (htoken r.1).bind fun literal _ => (resolved_other _).bind fun text _ => ?_
      refine (pop_drops_again hpops hr).bind fun r' hr' => ?_
      exact hr'.moves he rfl rfl rfl
    · refine (pop_drops (Nat.le_of_succ_le hpops)).bind fun r hr => ?_
      refine (pop_drops_again hpops hr).bind fun r' hr' => ?_
      exact hr'.moves he rfl rfl rfl
    · rfl

end Execute

open Execute

/-- An instruction to which a frame offers what it needs raises no structural fault, and changes
the depth of the operand stack by its stack effect. -/
theorem execute_keeps {p : Program} {f : Frame} {i : Instruction} (h : f.Offers p.pool i)
    (s : Session) : Ensures (Effect.Keeps p.pool f i) Fault.Other (execute p s f i).2 := by
  have hzero : f.Drops 0 f := ⟨rfl, rfl, rfl, rfl⟩
  cases i with
  | nop => exact ⟨rfl, hzero.moves rfl rfl rfl rfl⟩
  | push value => exact ⟨rfl, hzero.moves rfl rfl rfl rfl⟩
  | getStatic index => exact ⟨rfl, hzero.moves rfl rfl rfl rfl⟩
  | returnVoid => trivial
  | pushConstant index =>
    refine (constantWord_other p.pool index).bind fun value he => ?_
    exact ⟨rfl, hzero.moves he rfl rfl rfl⟩
  | load slot =>
    refine (load_other (h.slot slot rfl)).bind fun value _ => ?_
    exact ⟨rfl, hzero.moves rfl rfl rfl rfl⟩
  | store slot =>
    refine (pop_drops (h.pops _ rfl)).bind fun r hr => ?_
    have hslot : slot < r.2.locals.size := by
      rw [hr.locals]
      exact h.slot slot rfl
    refine (store_drops hslot r.1).bind fun g hg => ?_
    exact ⟨rfl, hr.moves rfl hg.1 hg.2.1 (by rw [hg.2.2])⟩
  | pop =>
    refine (pop_drops (h.pops _ rfl)).bind fun r hr => ?_
    exact ⟨rfl, hr.moves rfl rfl rfl rfl⟩
  | dup =>
    -- The word is looked at by popping it, and pushed on the stack as it was before.
    refine (pop_drops (h.pops _ rfl)).bind fun r hr => ?_
    refine ⟨rfl, hr.moves rfl hr.method.symm (by rw [hr.locals]; rfl) ?_⟩
    rw [Frame.push, List.length_cons, ← hr.stack]
  | arithmetic operation =>
    have hpops := h.pops _ rfl
    refine (pop_drops (Nat.le_of_succ_le hpops)).bind fun r hr => ?_
    refine (pop_drops_again hpops hr).bind fun r' hr' => ?_
    exact ⟨rfl, hr'.moves rfl rfl rfl rfl⟩
  | increment slot delta =>
    refine (load_other (h.slot slot rfl)).bind fun value _ => ?_
    refine (store_drops (h.slot slot rfl) (value + delta)).bind fun g hg => ?_
    exact ⟨rfl, hzero.moves rfl hg.1 hg.2.1 (by rw [hg.2.2])⟩
  | branchZero test offset =>
    refine (pop_drops (h.pops _ rfl)).bind fun r hr => ?_
    exact branchIf_keeps h rfl rfl hr (.inl rfl)
  | branchPair test offset =>
    have hpops := h.pops _ rfl
    refine (pop_drops (Nat.le_of_succ_le hpops)).bind fun r hr => ?_
    refine (pop_drops_again hpops hr).bind fun r' hr' => ?_
    exact branchIf_keeps h rfl rfl hr' (.inl rfl)
  | jump offset => exact branchIf_keeps h rfl rfl hzero (.inr rfl)
  | returnValue => exact (pop_drops (h.pops _ rfl)).bind fun r _ => trivial
  | new index =>
    simp only [execute, new]
    split
    · rfl
    · next className hclass =>
      split
      · rfl
      · have he : (Instruction.new index).stackEffect? p.pool = some ⟨0, 1⟩ := by
          rw [Instruction.stackEffect?, hclass]
          rfl
        exact ⟨rfl, hzero.moves he rfl rfl rfl⟩
  | getField index => exact getField_keeps h s.heap
  | putField index =>
    have hwrite := fieldWrite_keeps h s.heap
    simp only [execute, putField]
    split
    · next fault hfault =>
      rw [hfault] at hwrite
      exact hwrite
    · next w g hok =>
      rw [hok] at hwrite
      exact ⟨rfl, hwrite⟩
  | invokeVirtual index =>
    have hprinted := printed_keeps h
    simp only [execute, invokeVirtual]
    split
    · next fault hfault =>
      rw [hfault] at hprinted
      exact hprinted
    · next text g hok =>
      rw [hok] at hprinted
      dsimp only
      split
      · exact ⟨rfl, hprinted⟩
      · rfl
  | invokeSpecial index =>
    have hcall := constructorCall_keeps h
    simp only [execute, invokeSpecial]
    split
    · next fault hfault =>
      rw [hfault] at hcall
      exact hcall
    · next member g hok =>
      rw [hok] at hcall
      exact ⟨rfl, hcall⟩
  | invokeStatic index => exact invokeStatic_keeps h

/-! ## The invariant -/

/-- A frame of a method that can be laid out stands at an instruction, `pending` words short of the
depth there, or at the end of its code. -/
def Frame.Settled (pool : ConstantPool) (pending : Nat) (f : Frame) : Prop :=
  ∃ starts depth, f.method.Layout pool starts depth ∧ f.locals.size = f.method.maxLocals ∧
    (f.pc = f.method.code.size ∨ f.pc ∈ starts ∧ f.stack.length + pending = depth f.pc)

/-- The frames wait for the result of a method, and for one another. -/
def Frame.Awaiting (pool : ConstantPool) : Method → List Frame → Prop
  | _, [] => True
  | m, f :: callers => f.Settled pool m.resultWords ∧ Awaiting pool f.method callers

/-- Every frame stands where its layout says, with the operands that its layout says; and the
outcome, if there is one, is no structural fault. -/
def State.Sound (p : Program) : State → Prop
  | running _ f callers => f.Settled p.pool 0 ∧ Frame.Awaiting p.pool f.method callers
  | halted _ outcome => ∀ fault, outcome = .error fault → fault.isStructural = false

namespace State

variable {p : Program}

/-- Closing frames by a fault that is not structural keeps the invariant. -/
theorem unwind_sound (s : Session) {fault : Fault} (h : fault.Other) (active : List Method) :
    Sound p (unwind s fault active) := by
  intro fault' heq
  cases heq
  exact h

/-- Handing over a value that the caller waits for keeps the invariant. -/
theorem deliver_sound (s : Session) {m : Method} (value : Int32) {callers : List Frame}
    (h : Frame.Awaiting p.pool m callers) : Sound p (deliver s m value callers) := by
  cases callers with
  | nil =>
    intro fault heq
    cases heq
  | cons f callers =>
    obtain ⟨⟨starts, depth, hlayout, hlocals, hpc⟩, hcallers⟩ := h
    -- The caller waits for a word exactly if the method gives one.
    unfold Method.resultWords at hpc
    simp only [deliver]
    split
    · next hvalue =>
      rw [if_pos hvalue] at hpc
      exact ⟨⟨starts, depth, hlayout, hlocals, hpc⟩, hcallers⟩
    · next hvalue =>
      rw [if_neg hvalue] at hpc
      exact ⟨⟨starts, depth, hlayout, hlocals, hpc⟩, hcallers⟩

/-- Opening a frame of a sound method keeps the invariant. -/
theorem enter_sound (c : Config) (s : Session) {m : Method} (hm : m.Sound p.pool)
    (args : List Int32) {callers : List Frame} (h : Frame.Awaiting p.pool m callers) :
    Sound p (enter c s m args callers) := by
  have hinitial := Frame.initial_spec m args
  unfold enter
  split
  · dsimp only
    split
    · next f hok =>
      rw [hok] at hinitial
      obtain ⟨hargs, rfl⟩ := hinitial
      obtain ⟨starts, depth, hlayout⟩ := hm
      refine ⟨⟨starts, depth, hlayout, ?_, ?_⟩, h⟩
      · simp only [Frame.initialLocals, List.size_toArray, List.length_append,
          List.length_replicate]
        omega
      · -- Empty code is at its end from the start.
        exact hlayout.tiles.first_mem.imp_right fun hmem => ⟨hmem, hlayout.entry.symm⟩
    · next fault hfault =>
      rw [hfault] at hinitial
      refine unwind_sound _ ?_ _
      rw [hinitial]
      rfl
  · refine unwind_sound s ?_ _
    rfl

/-- Calling a sound method keeps the invariant, whether or not it runs as native code. -/
theorem call_sound (c : Config) (s : Session) {m : Method} (hm : m.Sound p.pool)
    (args : List Int32) {callers : List Frame} (h : Frame.Awaiting p.pool m callers) :
    Sound p (call c s m args callers) := by
  have hcheck := Frame.checkArity_spec m args.length
  unfold call
  split
  · next fault hfault =>
    rw [hfault] at hcheck
    refine unwind_sound s ?_ _
    rw [hcheck]
    rfl
  · dsimp only
    split
    · exact deliver_sound _ _ h
    · exact enter_sound c _ hm args h
    · exact enter_sound c _ hm args h

end State

section Layout

variable {pool : ConstantPool} {f : Frame} {starts : List Nat} {depth : Nat → Nat} {width : Nat}
  {i : Instruction}

/-- A frame at an instruction, as deep as its layout says, offers what the instruction needs. -/
theorem Method.Layout.offers (hlayout : f.method.Layout pool starts depth)
    (hlocals : f.locals.size = f.method.maxLocals) (hmem : f.pc ∈ starts)
    (hstack : f.stack.length = depth f.pc)
    (hat : instructionAt? f.method.code f.pc = some (width, i)) : f.Offers pool i := by
  have hfits := hlayout.fits f.pc hmem (width, i) hat
  refine ⟨fun offset hoffset => ?_, fun slot hslot => ?_, fun e he => ?_⟩
  · -- A branch leads to an instruction, and instructions stand within the code.
    obtain ⟨q, hq, htarget⟩ := hfits.branch offset hoffset
    obtain ⟨w, j, hj, hle, -⟩ := hlayout.tiles.at_start hq
    obtain ⟨hlt, -⟩ := fetch_of_instructionAt? hj hle
    omega
  · rw [hlocals]
    exact hfits.slot slot hslot
  · rw [hstack]
    exact hfits.pops e he

/-- After an instruction the frame stands again as its layout says, wherever the instruction
leads. -/
theorem Method.Layout.settled {g : Frame} {pending next : Nat}
    (hlayout : f.method.Layout pool starts depth)
    (hlocals : f.locals.size = f.method.maxLocals) (hmem : f.pc ∈ starts)
    (hstack : f.stack.length = depth f.pc)
    (hat : instructionAt? f.method.code f.pc = some (width, i))
    (hmoves : f.Moves pool i pending g) (hleads : i.Leads f.pc width next)
    (hnext : next = f.method.code.size ∨ next ∈ starts) :
    Frame.Settled pool pending { g with pc := next } := by
  obtain ⟨e, he, hdepth⟩ := hmoves.stack
  refine ⟨starts, depth, ?_, ?_, ?_⟩
  · rw [hmoves.method]
    exact hlayout
  · rw [hmoves.method, ← hlocals]
    exact hmoves.locals
  · rw [hmoves.method]
    refine hnext.imp_right fun hq => ⟨hq, ?_⟩
    have hflow := (hlayout.fits f.pc hmem (width, i) hat).flow e he next hq hleads
    rw [hflow, ← hstack]
    exact hdepth

end Layout

namespace State

variable {p : Program}

/-- What follows from an instruction of a frame that stands as its layout says keeps the
invariant. -/
theorem apply_sound (hsound : ∀ m ∈ p.methods, m.Sound p.pool) (c : Config) (s : Session)
    {f : Frame} {callers : List Frame} {starts : List Nat} {depth : Nat → Nat} {width : Nat}
    {i : Instruction} (hlayout : f.method.Layout p.pool starts depth)
    (hlocals : f.locals.size = f.method.maxLocals) (hmem : f.pc ∈ starts)
    (hstack : f.stack.length = depth f.pc)
    (hat : instructionAt? f.method.code f.pc = some (width, i))
    (hnext : f.pc + width = f.method.code.size ∨ f.pc + width ∈ starts)
    (hcallers : Frame.Awaiting p.pool f.method callers) {r : Except Fault Effect}
    (hkeeps : Ensures (Effect.Keeps p.pool f i) Fault.Other r)
    (hcalls : Ensures (Effect.CallsWithin p) (fun _ => True) r) :
    Sound p (apply c f.method (f.pc + width) callers (s, r)) := by
  have hsettled {g : Frame} {pending next : Nat} (hmoves : f.Moves p.pool i pending g)
      (hleads : i.Leads f.pc width next) (hnext : next = f.method.code.size ∨ next ∈ starts) :
      Frame.Settled p.pool pending { g with pc := next } :=
    hlayout.settled hlocals hmem hstack hat hmoves hleads hnext
  match r, hkeeps, hcalls with
  | .error fault, hother, _ => exact unwind_sound s hother _
  | .ok (.finish value), _, _ => exact deliver_sound _ value hcallers
  | .ok (.proceed g), ⟨hfalls, hmoves⟩, _ =>
    refine ⟨hsettled hmoves (.inl ⟨hfalls, rfl⟩) hnext, ?_⟩
    rw [hmoves.method]
    exact hcallers
  | .ok (.jump g target), ⟨⟨offset, hoffset, htarget⟩, hmoves⟩, _ =>
    obtain ⟨q, hq, hqtarget⟩ :=
      (hlayout.fits f.pc hmem (width, i) hat).branch offset hoffset
    have hsame : target = q := by omega
    rw [← hsame] at hq
    refine ⟨hsettled hmoves (.inr ⟨offset, hoffset, htarget⟩) (.inr hq), ?_⟩
    rw [hmoves.method]
    exact hcallers
  | .ok (.call callee args g), ⟨hfalls, hmoves⟩, ⟨hfind, _⟩ =>
    -- The caller stands at the next instruction already, with the result still to come.
    have hcallee := hsound callee (List.mem_of_find?_eq_some hfind)
    refine call_sound c s hcallee args ⟨hsettled hmoves (.inl ⟨hfalls, rfl⟩) hnext, ?_⟩
    rw [hmoves.method]
    exact hcallers

/-- A step keeps the invariant. -/
theorem step_sound (hsound : ∀ m ∈ p.methods, m.Sound p.pool) (c : Config) {state : State}
    (h : Sound p state) : Sound p (step p c state) := by
  cases state with
  | halted s outcome => exact h
  | running s f callers =>
    obtain ⟨⟨starts, depth, hlayout, hlocals, hend | ⟨hmem, hstack⟩⟩, hcallers⟩ := h
    · -- Code that runs out returns zero, for which the caller may wait as for any result.
      rw [step_of_end p c s f callers (by omega)]
      exact deliver_sound _ 0 hcallers
    · obtain ⟨width, i, hat, hle, hnext⟩ := hlayout.tiles.at_start hmem
      obtain ⟨hpc, op, x, y, hfetch, hwidth, hdecode⟩ := fetch_of_instructionAt? hat hle
      rw [step_of_fetch_ok p c s f callers hpc hfetch, hdecode, hwidth]
      have hoffers := hlayout.offers hlocals hmem hstack hat
      exact apply_sound hsound c _ hlayout hlocals hmem hstack hat hnext hcallers
        (execute_keeps hoffers _) (execute_calls p _ f i)

/-- A run keeps the invariant. -/
theorem advance_sound (hsound : ∀ m ∈ p.methods, m.Sound p.pool) (c : Config) (n : Nat)
    {state : State} (h : Sound p state) : Sound p (advance p c n state) := by
  induction n generalizing state with
  | zero => exact h
  | succ n ih =>
    rw [advance_succ]
    exact ih (step_sound hsound c h)

/-- Every request starts in a state that satisfies the invariant. -/
theorem start_sound (hsound : ∀ m ∈ p.methods, m.Sound p.pool) (c : Config) (s : Session)
    (r : Request) : Sound p (r.start p c s) := by
  have hfound {key : MethodKey} {m : Method} (hfind : p.find? key = some m) : m.Sound p.pool :=
    hsound m (List.mem_of_find?_eq_some hfind)
  have hrefused {fault : Fault} (hfault : fault.Other) : Sound p (halted s (.error fault)) :=
    fun _ heq => by cases heq; exact hfault
  cases r with
  | run =>
    simp only [Request.start]
    split
    · next m hentry => exact call_sound c s (hfound (Program.entryPoint_eq_ok hentry).1) [] trivial
    · exact hrefused rfl
  | invoke key args =>
    simp only [Request.start]
    split
    · next m hfind => exact call_sound c s (hfound hfind) args trivial
    · exact hrefused rfl
  | interpret key args =>
    simp only [Request.start]
    split
    · next m hfind => exact enter_sound c s (hfound hfind) args trivial
    · exact hrefused rfl

end State

/-- A request of which the call raises no structural fault ends with none. -/
theorem Request.other_of_finished {p : Program} {r : Request} {state : State}
    (h : state.Sound p) {u : Session} {fault : Fault}
    (hend : r.finished? state = some (u, .error fault)) : fault.isStructural = false := by
  cases state with
  | running s f callers => cases hend
  | halted s outcome =>
    obtain ⟨rfl, hfault⟩ := Prod.mk.inj (Option.some.inj hend)
    cases r with
    | run =>
      -- A run can also fail when the output is flushed, which is no structural fault.
      simp only [conclude] at hfault
      split at hfault
      · cases hfault
        exact h fault rfl
      · cases hfault
        rfl
      · cases hfault
    | invoke key args => exact h fault hfault
    | interpret key args => exact h fault hfault

/-- Programs of structurally sound methods raise no structural fault. Whatever requests are carried
out in whatever session and under whatever settings, in every state that is reached every frame
stands at an instruction or at the end of its code, with the operands that the layout of the code
says; and no request ends with an operation that is not known, an instruction that is cut off, a
branch out of the code, a local variable out of range, or an operand missing. -/
theorem structural_soundness (p : Program) (hsound : ∀ m ∈ p.methods, m.Sound p.pool) (c : Config)
    (s : Session) :
    (∀ state, State.Reachable p c s state → state.Sound p) ∧
      ∀ t, Session.Reachable p c s t → ∀ r fuel u fault,
        Request.perform p c fuel t r = some (u, .error fault) → fault.isStructural = false := by
  constructor
  · rintro state ⟨t, r, n, -, rfl⟩
    exact State.advance_sound hsound c n (State.start_sound hsound c t r)
  · intro t _ r fuel u fault hend
    exact Request.other_of_finished
      (State.advance_sound hsound c fuel (State.start_sound hsound c t r)) hend

/-- A method that counts its argument down to zero, and gives what is then left of it. -/
def Method.countdown : Method where
  key := ⟨"countdown", "(I)I"⟩
  signature := ⟨[.int], some .int⟩
  ofDescriptor_eq := by cbv
  code := #[0x1a, 0x9e, 0x00, 0x09, 0x84, 0x00, 0xff, 0xa7, 0xff, 0xf9, 0x1a, 0xac]
  maxStack := 1
  maxLocals := 1

/-- The operand stack of `countdown` holds one word before the test and before the return. -/
theorem Method.countdown_layout :
    Method.countdown.Layout .empty [0, 1, 4, 7, 10, 11]
      fun pc => if pc = 1 ∨ pc = 11 then 1 else 0 where
  tiles := .next rfl (.next rfl (.next rfl (.next rfl (.next rfl (.next rfl .done)))))
  entry := rfl
  fits := by decide

/-- The program whose one method is `countdown`. -/
def Program.counting : Program :=
  ⟨.empty, [Method.countdown], by decide⟩

/-- `countdown` branches back and forth without a structural fault. -/
theorem structural_soundness_countdown :
    (∀ state, State.Reachable .counting {} {} state → state.Sound .counting) ∧
      ∀ t, Session.Reachable .counting {} {} t → ∀ r fuel u fault,
        Request.perform .counting {} fuel t r = some (u, .error fault) →
          fault.isStructural = false := by
  refine structural_soundness .counting ?_ {} {}
  intro m hm
  rw [List.mem_singleton.1 hm]
  exact ⟨_, _, Method.countdown_layout⟩

end TieredJvm
