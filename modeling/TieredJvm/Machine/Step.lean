import TieredJvm.Machine.Execute

/-!
# The machine

The machine as a transition system. A running state is a session with the stack of frames: the
frame on top executes, and every caller below waits at the instruction after its call. A step
executes one instruction, and with it whatever bookkeeping a call or a return needs; a method that
runs as native code takes no frame, so its whole call is part of the step that makes it.

A fault closes all frames at once, the innermost first.
-/

namespace TieredJvm

/-- A state of the machine. -/
inductive State where
  /-- The frame `top` executes, for the `callers`, the innermost first. -/
  | running (s : Session) (top : Frame) (callers : List Frame)
  /-- The call from outside has ended. -/
  | halted (s : Session) (outcome : Except Fault Int32)

namespace State

/-- Closes the frames of the given methods, the innermost first, by a fault. -/
def unwind (s : Session) (fault : Fault) (active : List Method) : State :=
  halted (active.foldl (fun s m => s.record (.unwinding m.name fault)) s) (.error fault)

/-- Hands the value of a finished call to its caller, which pushes it unless the method is void;
the outermost call ends with it. -/
def deliver (s : Session) (m : Method) (value : Int32) : List Frame → State
  | [] => halted s (.ok value)
  | f :: callers => running s (if m.signature.returnsValue then f.push value else f) callers

/-- Closes the frame of a method with a value. -/
def leave (s : Session) (m : Method) (value : Int32) (callers : List Frame) : State :=
  deliver (s.record (.leaving m.name value)) m value callers

/-- Opens a frame for a method, if there may be one more. -/
def enter (c : Config) (s : Session) (m : Method) (args : List Int32) (callers : List Frame) :
    State :=
  if callers.length < c.maxCallDepth then
    let s := s.record (.entering m.key (callers.length + 1))
    match Frame.initial m args with
    | .ok f => running s f callers
    | .error fault => unwind s fault (m :: callers.map Frame.method)
  else unwind s (.callDepthExceeded c.maxCallDepth) (callers.map Frame.method)

/-- Calls a method: the arguments are checked and the call is booked; then the method runs as
native code if there is any, and in a frame of its own otherwise. -/
def call (c : Config) (s : Session) (m : Method) (args : List Int32) (callers : List Frame) :
    State :=
  match Frame.checkArity m args.length with
  | .error fault => unwind s fault (callers.map Frame.method)
  | .ok _ =>
    let s := s.book c.promotion m
    match (s.profile m.key).slot with
    | .native entry =>
      let value := entry.call args
      deliver (s.record (.nativeReturned m.key value)) m value callers
    | .untried | .ineligible => enter c s m args callers

/-- What follows from the effect of an instruction of `m` that ends at `next`. -/
def apply (c : Config) (m : Method) (next : Nat) (callers : List Frame) :
    Session × Except Fault Effect → State
  | (s, .error fault) => unwind s fault (m :: callers.map Frame.method)
  | (s, .ok (.proceed f)) => running s { f with pc := next } callers
  | (s, .ok (.jump f target)) => running s { f with pc := target } callers
  | (s, .ok (.call callee args f)) => call c s callee args ({ f with pc := next } :: callers)
  | (s, .ok (.finish value)) => leave s m value callers

/-- Executes one instruction. A frame at the end of its code ends with zero. -/
def step (p : Program) (c : Config) : State → State
  | halted s outcome => halted s outcome
  | running s f callers =>
    let m := f.method
    let pc := f.pc
    if h : pc < m.code.size then
      match fetch m.code pc h with
      | .error fault => unwind s fault (m :: callers.map Frame.method)
      | .ok ⟨op, x, y⟩ =>
        apply c m (pc + op.width) callers
          (execute p (s.record (.executing pc op x y)) f (Instruction.decode op x y))
    else leave s m 0 callers

/-- Executes at most `fuel` instructions. -/
def advance (p : Program) (c : Config) : (fuel : Nat) → State → State
  | 0, state => state
  | _ + 1, halted s outcome => halted s outcome
  | fuel + 1, running s f callers => advance p c fuel (step p c (running s f callers))

/-- A frame at the end of its code is left with zero. -/
theorem step_of_end (p : Program) (c : Config) (s : Session) (f : Frame) (callers : List Frame)
    (h : ¬f.pc < f.method.code.size) :
    step p c (running s f callers) = leave s f.method 0 callers := by
  simp [step, h]

/-- An instruction that cannot be read closes all frames. -/
theorem step_of_fetch_error (p : Program) (c : Config) (s : Session) (f : Frame)
    (callers : List Frame) (h : f.pc < f.method.code.size) {fault : Fault}
    (hf : fetch f.method.code f.pc h = .error fault) :
    step p c (running s f callers) = unwind s fault (f.method :: callers.map Frame.method) := by
  simp [step, h, hf]

/-- An instruction that can be read is told of and executed. -/
theorem step_of_fetch_ok (p : Program) (c : Config) (s : Session) (f : Frame)
    (callers : List Frame) (h : f.pc < f.method.code.size) {op : Opcode} {x y : UInt8}
    (hf : fetch f.method.code f.pc h = .ok ⟨op, x, y⟩) :
    step p c (running s f callers) =
      apply c f.method (f.pc + op.width) callers
        (execute p (s.record (.executing f.pc op x y)) f (Instruction.decode op x y)) := by
  simp [step, h, hf]

/-- A call that has ended stays as it is. -/
@[simp] theorem advance_halted (p : Program) (c : Config) (fuel : Nat) (s : Session)
    (outcome : Except Fault Int32) :
    advance p c fuel (halted s outcome) = halted s outcome := by
  cases fuel <;> rfl

/-- One more unit of fuel is one step before the rest. -/
theorem advance_succ (p : Program) (c : Config) (fuel : Nat) (state : State) :
    advance p c (fuel + 1) state = advance p c fuel (step p c state) := by
  cases state with
  | running s f callers => rfl
  | halted s outcome => simp [step]

/-- Fuel adds up. -/
theorem advance_add (p : Program) (c : Config) (n m : Nat) (state : State) :
    advance p c (n + m) state = advance p c m (advance p c n state) := by
  induction n generalizing state with
  | zero => simp [advance]
  | succ n ih => rw [Nat.succ_add, advance_succ, advance_succ, ih]

end State

end TieredJvm
