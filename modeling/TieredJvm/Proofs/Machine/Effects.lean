import TieredJvm.Proofs.Machine.Run
import TieredJvm.Proofs.Program.Table

/-!
# What an instruction can do

Facts about `execute` that hold of every instruction, for proofs that compare or follow whole
runs. An instruction reads the heap and the output and nothing else of the session
(`execute_congr`), leaves what is remembered about the methods (`profiles_execute`), and calls only
methods of the program, each with as many arguments as its descriptor has (`execute_calls`). It
leaves the same activation within the same code, and the faults that it raises name its own
position (`execute_within`).

Most instructions are computations that may raise a fault at several points. `Ensures Q E x` says
what holds of the value of such a computation and what of its fault, and `Ensures.bind` takes it
through a sequence.
-/

namespace TieredJvm

/-! ## Computations that may fail -/

/-- The value of a computation satisfies `Q`, or its error satisfies `E`. -/
def Ensures {ε α : Type} (Q : α → Prop) (E : ε → Prop) : Except ε α → Prop
  | .ok a => Q a
  | .error e => E e

/-- A sequence ensures what its second part ensures of every value of the first. -/
theorem Ensures.bind {ε α β : Type} {P : α → Prop} {Q : β → Prop} {E : ε → Prop}
    {x : Except ε α} {k : α → Except ε β} (hx : Ensures P E x)
    (hk : ∀ a, P a → Ensures Q E (k a)) : Ensures Q E (x >>= k) := by
  cases x with
  | error e => exact hx
  | ok a => exact hk a hx

/-- A sequence of which errors do not matter ensures what its second part ensures. -/
theorem Ensures.seq {ε α β : Type} {Q : β → Prop} {x : Except ε α} {k : α → Except ε β}
    (hk : ∀ a, Ensures Q (fun _ => True) (k a)) : Ensures Q (fun _ => True) (x >>= k) := by
  cases x with
  | error e => trivial
  | ok a => exact hk a

/-! ## Calls -/

/-- Arguments are accepted if there are local variables for all of them. -/
theorem Frame.checkArity_spec (m : Method) (given : Nat) :
    Ensures (fun _ => given ≤ m.maxLocals) (· = .tooManyArguments given m.maxLocals)
      (checkArity m given) := by
  unfold checkArity
  split
  · assumption
  · rfl

/-- A frame starts at the start of the code, with no operand and its arguments in the locals. -/
theorem Frame.initial_spec (m : Method) (args : List Int32) :
    Ensures (fun f => args.length ≤ m.maxLocals ∧ f = ⟨m, 0, [], initialLocals m.maxLocals args⟩)
      (· = .tooManyArguments args.length m.maxLocals) (initial m args) := by
  have hcheck := checkArity_spec m args.length
  unfold initial
  split
  · next hok =>
    rw [hok] at hcheck
    exact ⟨hcheck, rfl⟩
  · next hfault =>
    rw [hfault] at hcheck
    exact hcheck

/-- If the effect is a call, then of a method of the program, with its number of arguments. -/
def Effect.CallsWithin (p : Program) : Effect → Prop
  | .call callee args _ =>
    p.find? callee.key = some callee ∧ args.length = callee.signature.args.length
  | .proceed _ | .jump _ _ | .finish _ => True

namespace Execute

/-- Words that are popped at once are as many as were asked for. -/
theorem length_popMany (f : Frame) (count : Nat) :
    Ensures (fun r => r.1.length = count) (fun _ => True) (f.popMany count) := by
  unfold Frame.popMany
  split
  · next hcount =>
    show (f.stack.take count).reverse.length = count
    rw [List.length_reverse, List.length_take, Nat.min_eq_left hcount]
  · trivial

/-- A static call is of a method of the program, with its number of arguments. -/
theorem invokeStatic_calls (p : Program) (f : Frame) (index : UInt16) :
    Ensures (Effect.CallsWithin p) (fun _ => True) (invokeStatic p f index) := by
  refine Ensures.seq fun member => ?_
  dsimp only
  split
  · trivial
  · next callee hfind =>
    split
    · -- The arguments are popped by the descriptor of the method that was found.
      refine (length_popMany f _).bind fun r hr => ⟨?_, hr⟩
      rw [Program.key_of_find? hfind, hfind]
    · trivial

/-- A branch is no call. -/
theorem branchIf_calls (p : Program) (f : Frame) (taken : Bool) (offset : Int16) :
    Ensures (Effect.CallsWithin p) (fun _ => True) (branchIf f taken offset) := by
  unfold branchIf
  split
  · exact .seq fun _ => trivial
  · trivial

/-- Reading a field is no call. -/
theorem getField_calls (p : Program) (heap : Heap) (f : Frame) (index : UInt16) :
    Ensures (Effect.CallsWithin p) (fun _ => True) (getField p.pool heap f index) := by
  refine .seq fun member => .seq fun r => ?_
  dsimp only
  split <;> trivial

end Execute

open Execute

/-- An instruction calls a method of the program only, with its number of arguments. -/
theorem execute_calls (p : Program) (s : Session) (f : Frame) (i : Instruction) :
    Ensures (Effect.CallsWithin p) (fun _ => True) (execute p s f i).2 := by
  cases i with
  | nop | push | returnVoid | getStatic => trivial
  | pushConstant | load | pop | dup | returnValue => exact .seq fun _ => trivial
  | store | arithmetic | increment => exact .seq fun _ => .seq fun _ => trivial
  | branchZero test offset => exact .seq fun _ => branchIf_calls p _ _ _
  | branchPair test offset => exact .seq fun _ => .seq fun _ => branchIf_calls p _ _ _
  | jump offset => exact branchIf_calls p f true offset
  | getField index => exact getField_calls p s.heap f index
  | invokeStatic index => exact invokeStatic_calls p f index
  -- The remaining four change the session too, so they are not computations of an effect alone.
  | new index =>
    simp only [execute, new]
    split
    · trivial
    · split <;> trivial
  | putField index =>
    simp only [execute, putField]
    split <;> trivial
  | invokeSpecial index =>
    simp only [execute, invokeSpecial]
    split <;> trivial
  | invokeVirtual index =>
    simp only [execute, invokeVirtual]
    split
    · trivial
    · dsimp only
      split <;> trivial

/-! ## The session -/

/-- What is remembered about the methods is left as it is. -/
theorem profiles_execute (p : Program) (s : Session) (f : Frame) (i : Instruction) :
    (execute p s f i).1.profiles = s.profiles := by
  -- The heap, the output and the journal are all that any instruction writes.
  cases i with
  | new index =>
    simp only [execute, new]
    split
    · rfl
    · split <;> rfl
  | putField index =>
    simp only [execute, putField]
    split <;> rfl
  | invokeSpecial index =>
    simp only [execute, invokeSpecial]
    split <;> rfl
  | invokeVirtual index =>
    simp only [execute, invokeVirtual]
    split <;> rfl
  | _ => rfl

/-- In two sessions with the same heap and the same output an instruction has the same effect, and
leaves the same heap and the same output. -/
theorem execute_congr (p : Program) {s t : Session} (hheap : t.heap = s.heap)
    (hsink : t.sink = s.sink) (f : Frame) (i : Instruction) :
    (execute p t f i).2 = (execute p s f i).2 ∧
      (execute p t f i).1.heap = (execute p s f i).1.heap ∧
      (execute p t f i).1.sink = (execute p s f i).1.sink := by
  cases i with
  -- Where an instruction fails it leaves what it found, and where it succeeds it writes the same.
  | new index =>
    simp only [execute, new, hheap]
    split
    · exact ⟨rfl, hheap, hsink⟩
    · split
      · exact ⟨rfl, hheap, hsink⟩
      · exact ⟨rfl, rfl, hsink⟩
  | getField index =>
    refine ⟨?_, hheap, hsink⟩
    simp only [execute, hheap]
  | putField index =>
    simp only [execute, putField, hheap]
    split
    · exact ⟨rfl, hheap, hsink⟩
    · exact ⟨rfl, rfl, hsink⟩
  | invokeSpecial index =>
    simp only [execute, invokeSpecial]
    split
    · exact ⟨rfl, hheap, hsink⟩
    · exact ⟨rfl, hheap, hsink⟩
  | invokeVirtual index =>
    simp only [execute, invokeVirtual, hsink]
    split
    · exact ⟨rfl, hheap, hsink⟩
    · exact ⟨rfl, hheap, rfl⟩
  | _ => exact ⟨rfl, hheap, hsink⟩

/-! ## Frames and faults -/

/-- The frame `g` is the activation `f` at the same instruction; it may hold other operands, and
other values in its local variables. -/
structure Frame.Same (f g : Frame) : Prop where
  /-- The method is the same. -/
  method : g.method = f.method
  /-- The position is the same. -/
  pc : g.pc = f.pc
  /-- There are as many local variables. -/
  locals : g.locals.size = f.locals.size

/-- Every activation is itself. -/
theorem Frame.Same.refl (f : Frame) : f.Same f := ⟨rfl, rfl, rfl⟩

/-- Whether the activation is the same does not depend on the operands. -/
theorem Frame.Same.push {f g : Frame} (h : f.Same g) (value : Int32) : f.Same (g.push value) :=
  ⟨h.method, h.pc, h.locals⟩

/-- What an instruction of the frame `f` leaves is the same activation, and a branch leads to a
place within its code. -/
def Effect.Within (f : Frame) : Effect → Prop
  | .proceed g | .call _ _ g => f.Same g
  | .jump g target => f.Same g ∧ target < f.method.code.size
  | .finish _ => True

/-- The faults that an instruction at `pc` can raise by itself. Those of reading the instruction,
of calling a method and of starting a program are not among them. -/
def Fault.RaisedAt (pc : Nat) : Fault → Prop
  | stackUnderflow pc' | invalidBranch pc' _ => pc' = pc
  | program (.malformedDescriptor _) => True
  | resolution _ | localOutOfRange _ _ | invalidReference _ _ | heapExhausted _
  | invalidConstantToken _ | unsupportedInvocation _ | methodNotFound _ | output _ => True
  | program _ | unsupportedOpcode _ _ | truncatedInstruction _ _ | callDepthExceeded _
  | tooManyArguments _ _ => False

namespace Execute

/-- A word is popped from the same activation, or an underflow is reported at its position. -/
theorem pop_within {f g : Frame} (h : f.Same g) :
    Ensures (fun r => f.Same r.2) (Fault.RaisedAt f.pc) g.pop := by
  unfold Frame.pop
  split
  · exact ⟨h.method, h.pc, h.locals⟩
  · exact h.pc

/-- So are several words at once. -/
theorem popMany_within (f : Frame) (count : Nat) :
    Ensures (fun r => f.Same r.2) (Fault.RaisedAt f.pc) (f.popMany count) := by
  unfold Frame.popMany
  split
  · exact ⟨rfl, rfl, rfl⟩
  · rfl

/-- Reading a local variable can fail by its number only. -/
theorem load_within (f : Frame) (slot pc : Nat) :
    Ensures (fun _ => True) (Fault.RaisedAt pc) (f.load slot) := by
  unfold Frame.load
  split <;> trivial

/-- Writing a local variable leaves the same activation, or fails by its number. -/
theorem store_within {f g : Frame} (h : f.Same g) (slot : Nat) (value : Int32) :
    Ensures f.Same (Fault.RaisedAt f.pc) (g.store slot value) := by
  unfold Frame.store
  split
  · refine ⟨h.method, h.pc, ?_⟩
    rw [Array.size_setIfInBounds, h.locals]
  · trivial

/-- A branch leads to a place within the code, or its fault names the position of the branch. -/
theorem branchIf_within {f g : Frame} (h : f.Same g) (taken : Bool) (offset : Int16) :
    Ensures (Effect.Within f) (Fault.RaisedAt f.pc) (branchIf g taken offset) := by
  have htarget : Ensures (· < f.method.code.size) (Fault.RaisedAt f.pc)
      (g.branchTarget offset) := by
    unfold Frame.branchTarget
    dsimp only
    rw [h.method]
    split
    · next hrange =>
      show (g.pc + offset.toInt).toNat < f.method.code.size
      omega
    · exact h.pc
  unfold branchIf
  split
  · exact htarget.bind fun _ hlt => ⟨h, hlt⟩
  · exact h

/-- Looking something up can fail by the look-up only. -/
theorem resolved_within {α : Type} (x : Except ResolutionError α) (pc : Nat) :
    Ensures (fun _ => True) (Fault.RaisedAt pc) (resolved x) := by
  cases x <;> trivial

/-- Reading a constant can fail by the look-up only. -/
theorem constantWord_within (pool : ConstantPool) (index : UInt16) (pc : Nat) :
    Ensures (fun _ => True) (Fault.RaisedAt pc) (constantWord pool index) := by
  unfold constantWord
  split
  · trivial
  · split <;> trivial

/-- Reading a field leaves the same activation. -/
theorem getField_within (pool : ConstantPool) (heap : Heap) (f : Frame) (index : UInt16) :
    Ensures (Effect.Within f) (Fault.RaisedAt f.pc) (getField pool heap f index) := by
  refine (resolved_within _ _).bind fun member _ => (pop_within (.refl f)).bind fun r hr => ?_
  dsimp only
  split
  · exact hr.push _
  · trivial

/-- The write of a field leaves the same activation. -/
theorem fieldWrite_within (pool : ConstantPool) (heap : Heap) (f : Frame) (index : UInt16) :
    Ensures (fun r => f.Same r.2) (Fault.RaisedAt f.pc) (fieldWrite pool heap f index) := by
  refine (resolved_within _ _).bind fun member _ => (pop_within (.refl f)).bind fun r hr => ?_
  refine (pop_within hr).bind fun r' hr' => ?_
  dsimp only
  split
  · exact hr'
  · trivial

/-- A static call leaves the same activation behind. -/
theorem invokeStatic_within (p : Program) (f : Frame) (index : UInt16) :
    Ensures (Effect.Within f) (Fault.RaisedAt f.pc) (invokeStatic p f index) := by
  refine (resolved_within _ _).bind fun member _ => ?_
  dsimp only
  split
  · trivial
  · split
    · exact (popMany_within f _).bind fun _ hr => hr
    · trivial

/-- A skipped constructor leaves the same activation. -/
theorem constructorCall_within (pool : ConstantPool) (f : Frame) (index : UInt16) :
    Ensures (fun r => f.Same r.2) (Fault.RaisedAt f.pc) (constructorCall pool f index) := by
  refine (resolved_within _ _).bind fun member _ => ?_
  dsimp only
  split
  · next cause hcause =>
    rw [Signature.ofDescriptor_eq_error hcause]
    trivial
  · refine (popMany_within f _).bind fun r hr => ?_
    exact (pop_within hr).bind fun _ hr' => hr'

/-- Printing leaves the same activation. -/
theorem printed_within (pool : ConstantPool) (f : Frame) (index : UInt16) :
    Ensures (fun r => f.Same r.2) (Fault.RaisedAt f.pc) (printed pool f index) := by
  have hindex (token : Int32) :
      Ensures (fun _ => True) (Fault.RaisedAt f.pc) (constantIndex token) := by
    unfold constantIndex
    split <;> trivial
  refine (resolved_within _ _).bind fun member _ => ?_
  dsimp only
  split
  · trivial
  · split
    · refine (pop_within (.refl f)).bind fun r hr => (hindex r.1).bind fun literal _ => ?_
      refine (resolved_within _ _).bind fun text _ => ?_
      exact (pop_within hr).bind fun _ hr' => hr'
    · refine (pop_within (.refl f)).bind fun r hr => ?_
      exact (pop_within hr).bind fun _ hr' => hr'
    · trivial

end Execute

/-- An instruction leaves the same activation, within its code, or raises a fault at its own
position. -/
theorem execute_within (p : Program) (s : Session) (f : Frame) (i : Instruction) :
    Ensures (Effect.Within f) (Fault.RaisedAt f.pc) (execute p s f i).2 := by
  have hself := Frame.Same.refl f
  cases i with
  | nop => exact hself
  | push value | getStatic index => exact hself.push _
  | returnVoid => trivial
  | pushConstant index =>
    exact (constantWord_within p.pool index f.pc).bind fun value _ => hself.push value
  | load slot => exact (load_within f slot f.pc).bind fun value _ => hself.push value
  | store slot =>
    refine (pop_within hself).bind fun r hr => ?_
    exact (store_within hr slot r.1).bind fun _ hg => hg
  | pop => exact (pop_within hself).bind fun _ hr => hr
  | dup => exact (pop_within hself).bind fun r _ => hself.push r.1
  | returnValue => exact (pop_within hself).bind fun _ _ => trivial
  | arithmetic operation =>
    refine (pop_within hself).bind fun r hr => ?_
    exact (pop_within hr).bind fun r' hr' => hr'.push _
  | increment slot delta =>
    refine (load_within f slot f.pc).bind fun value _ => ?_
    exact (store_within hself slot (value + delta)).bind fun _ hg => hg
  | branchZero test offset =>
    exact (pop_within hself).bind fun r hr => branchIf_within hr _ offset
  | branchPair test offset =>
    refine (pop_within hself).bind fun r hr => ?_
    exact (pop_within hr).bind fun r' hr' => branchIf_within hr' _ offset
  | jump offset => exact branchIf_within hself true offset
  | getField index => exact getField_within p.pool s.heap f index
  | invokeStatic index => exact invokeStatic_within p f index
  | new index =>
    simp only [execute, new]
    split
    · trivial
    · split
      · trivial
      · exact hself.push _
  | putField index =>
    have hwrite := fieldWrite_within p.pool s.heap f index
    simp only [execute, putField]
    split
    · next fault hfault =>
      rw [hfault] at hwrite
      exact hwrite
    · next w g hok =>
      rw [hok] at hwrite
      exact hwrite
  | invokeSpecial index =>
    have hcall := constructorCall_within p.pool f index
    simp only [execute, invokeSpecial]
    split
    · next fault hfault =>
      rw [hfault] at hcall
      exact hcall
    · next member g hok =>
      rw [hok] at hcall
      exact hcall
  | invokeVirtual index =>
    have hprinted := printed_within p.pool f index
    simp only [execute, invokeVirtual]
    split
    · next fault hfault =>
      rw [hfault] at hprinted
      exact hprinted
    · next text g hok =>
      rw [hok] at hprinted
      dsimp only
      split
      · exact hprinted
      · trivial

end TieredJvm
