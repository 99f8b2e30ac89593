import TieredJvm.Proofs.Machine.Checked
import TieredJvm.Proofs.Machine.Soundness

/-!
# The bounds of the machine

A call is refused, carried out by native code, or gets a frame (`State.call_cases`), and a step ends
the frame on top, faults at the position of the frame, goes on, or calls (`State.step_cases`). Where
it goes on, the frame stands behind the instruction that was executed or where that branches to, and
never past the end of the code.

`Frame.Within` are the bounds of a frame, which every step keeps, and what a fault says of a
position is read off the same cases. Together with the accesses of `Checked` this is what the
machine promises on any code at all (`bounds_kept`).
-/

namespace TieredJvm

/-- The position that a fault names. -/
def Fault.position? : Fault → Option Nat
  | stackUnderflow pc | unsupportedOpcode _ pc | truncatedInstruction _ pc | invalidBranch pc _ =>
    some pc
  | _ => none

/-! ## What a call can come to -/

namespace State

/-- What a call of a method can come to, or just opening a frame for it. -/
inductive CallsTo (c : Config) (m : Method) (args : List Int32) (callers : List Frame) :
    State → Prop where
  /-- It is refused, by a fault that names no position. -/
  | refuse (t : Session) (active : List Method) {fault : Fault}
      (position : fault.position? = none) : CallsTo c m args callers (unwind t fault active)
  /-- It is carried out by native code. -/
  | native (t : Session) (value : Int32) : CallsTo c m args callers (deliver t m value callers)
  /-- It gets a frame. -/
  | frame (t : Session) (room : callers.length < c.maxCallDepth)
      (fits : args.length ≤ m.maxLocals) :
      CallsTo c m args callers
        (running t ⟨m, 0, [], Frame.initialLocals m.maxLocals args⟩ callers)

/-- What opening a frame comes to. -/
theorem enter_cases (c : Config) (s : Session) (m : Method) (args : List Int32)
    (callers : List Frame) : CallsTo c m args callers (enter c s m args callers) := by
  have hinitial := Frame.initial_spec m args
  unfold enter
  split
  · next hroom =>
    dsimp only
    cases hframe : Frame.initial m args with
    | ok f =>
      rw [hframe] at hinitial
      obtain ⟨hfits, rfl⟩ := hinitial
      exact .frame _ hroom hfits
    | error fault =>
      rw [hframe] at hinitial
      cases hinitial
      exact .refuse _ _ rfl
  · exact .refuse _ _ rfl

/-- What a call comes to. -/
theorem call_cases (c : Config) (s : Session) (m : Method) (args : List Int32)
    (callers : List Frame) : CallsTo c m args callers (call c s m args callers) := by
  have hcheck := Frame.checkArity_spec m args.length
  unfold call
  cases harity : Frame.checkArity m args.length with
  | error fault =>
    rw [harity] at hcheck
    cases hcheck
    exact .refuse _ _ rfl
  | ok _ =>
    dsimp only
    split
    · exact .native _ _
    · exact enter_cases c _ m args callers
    · exact enter_cases c _ m args callers

end State

/-- A request starts with the call of a method of the program, unless it is refused. -/
theorem Request.start_cases (p : Program) (c : Config) (s : Session) (r : Request) :
    (∃ fault, fault.position? = none ∧ r.start p c s = .halted s (.error fault)) ∨
      ∃ m args, p.find? m.key = some m ∧ State.CallsTo c m args [] (r.start p c s) := by
  cases r with
  | run =>
    simp only [start]
    split
    · next m hentry =>
      exact .inr ⟨m, [], (Program.entryPoint_eq_ok hentry).1, State.call_cases c s m [] []⟩
    · exact .inl ⟨_, rfl, rfl⟩
  | invoke key args =>
    simp only [start]
    split
    · next m hfind =>
      refine .inr ⟨m, args, ?_, State.call_cases c s m args []⟩
      rw [Program.key_of_find? hfind, hfind]
    · exact .inl ⟨_, rfl, rfl⟩
  | interpret key args =>
    simp only [start]
    split
    · next m hfind =>
      refine .inr ⟨m, args, ?_, State.enter_cases c s m args []⟩
      rw [Program.key_of_find? hfind, hfind]
    · exact .inl ⟨_, rfl, rfl⟩

/-! ## What a step can come to -/

/-- An effect that is a branch leads as far as the instruction says. -/
def Effect.BranchesAs (f : Frame) (i : Instruction) : Effect → Prop
  | .jump _ target => ∃ offset ∈ i.offset?, (target : Int) = f.pc + offset.toInt
  | .proceed _ | .call _ _ _ | .finish _ => True

namespace Execute

/-- A branch leads as far as it says. -/
theorem branchIf_branches {f g : Frame} {i : Instruction} {offset : Int16} (h : g.pc = f.pc)
    (hoffset : i.offset? = some offset) (taken : Bool) :
    Ensures (Effect.BranchesAs f i) (fun _ => True) (branchIf g taken offset) := by
  have htarget : Ensures (fun target : Nat => (target : Int) = f.pc + offset.toInt)
      (fun _ => True) (g.branchTarget offset) := by
    unfold Frame.branchTarget
    dsimp only
    rw [h]
    split
    · next hrange => exact Int.toNat_of_nonneg hrange.1
    · trivial
  unfold branchIf
  split
  · exact htarget.bind fun target htarget => ⟨offset, hoffset, htarget⟩
  · trivial

/-- Popping a word leaves the position. -/
theorem pop_pc (f : Frame) : Ensures (fun r => r.2.pc = f.pc) (fun _ => True) f.pop := by
  unfold Frame.pop
  split <;> trivial

end Execute

open Execute in
/-- Only branches branch, and as far as they say. -/
theorem execute_branches (p : Program) (s : Session) (f : Frame) (i : Instruction) :
    Ensures (Effect.BranchesAs f i) (fun _ => True) (execute p s f i).2 := by
  cases i with
  | nop | push | returnVoid | getStatic => trivial
  | pushConstant | load | pop | dup | returnValue => exact .seq fun _ => trivial
  | store | arithmetic | increment => exact .seq fun _ => .seq fun _ => trivial
  | branchZero test offset =>
    exact (pop_pc f).bind fun r hr => branchIf_branches hr rfl _
  | branchPair test offset =>
    refine (pop_pc f).bind fun r hr => (pop_pc r.2).bind fun r' hr' => ?_
    exact branchIf_branches (hr'.trans hr) rfl _
  | jump offset => exact branchIf_branches rfl rfl true
  | getField index =>
    refine .seq fun member => .seq fun r => ?_
    dsimp only
    split <;> trivial
  | invokeStatic index =>
    refine .seq fun member => ?_
    dsimp only
    split
    · trivial
    · split
      · exact .seq fun _ => trivial
      · trivial
  | new index =>
    simp only [execute, Execute.new]
    split
    · trivial
    · split <;> trivial
  | putField index =>
    simp only [execute, putField]
    split <;> trivial
  | invokeSpecial index =>
    simp only [execute, invokeSpecial]
    split <;> trivial
  | invokeVirtual index =>
    simp only [execute, invokeVirtual]
    split
    · trivial
    · dsimp only
      split <;> trivial

/-- A frame can go on at `next`: there it is behind the instruction before which it stands, or where
this instruction branches to, and within its code or at the end of it. -/
def Frame.GoesTo (f : Frame) (next : Nat) : Prop :=
  next ≤ f.method.code.size ∧
    ∃ width i, instructionAt? f.method.code f.pc = some (width, i) ∧
      f.pc + width ≤ f.method.code.size ∧
      (next = f.pc + width ∨ ∃ offset ∈ i.offset?, (next : Int) = f.pc + offset.toInt)

/-- What a step of the frame `f` on top can come to. -/
inductive State.StepsTo (p : Program) (c : Config) (f : Frame) (callers : List Frame) :
    State → Prop where
  /-- The frame ends. -/
  | finish (t : Session) (value : Int32) : StepsTo p c f callers (.leave t f.method value callers)
  /-- It raises a fault, which names no other position than its own. -/
  | fault (t : Session) (fault : Fault)
      (position : ∀ pc ∈ fault.position?, pc = f.pc ∧ pc < f.method.code.size) :
      StepsTo p c f callers (.unwind t fault (f.method :: callers.map Frame.method))
  /-- It goes on. -/
  | proceed (t : Session) {g : Frame} {next : Nat} (same : f.Same g) (goes : f.GoesTo next) :
      StepsTo p c f callers (.running t { g with pc := next } callers)
  /-- It calls a method of the program, and goes on after that. -/
  | call (t : Session) {callee : Method} (args : List Int32) {g : Frame} {next : Nat}
      (find : p.find? callee.key = some callee) (same : f.Same g) (goes : f.GoesTo next) :
      StepsTo p c f callers (.call c t callee args ({ g with pc := next } :: callers))

/-- An instruction that can be read stands at its position. -/
theorem instructionAt?_of_fetch {code : Array UInt8} {pc : Nat} {h : pc < code.size} {op : Opcode}
    {x y : UInt8} (hfetch : fetch code pc h = .ok ⟨op, x, y⟩) :
    instructionAt? code pc = some (op.width, .decode op x y) ∧ pc + op.width ≤ code.size := by
  obtain ⟨hop, hle, rfl, rfl⟩ := Checked.of_fetch hfetch
  refine ⟨?_, hle⟩
  rw [instructionAt?, Array.getElem?_eq_getElem h]
  show (Opcode.ofByte? code[pc] >>= fun op => _) = _
  rw [hop]
  rfl

/-- A fault of reading an instruction names the position of the instruction. -/
theorem position?_of_fetch {code : Array UInt8} {pc : Nat} {h : pc < code.size} {fault : Fault}
    (hfetch : fetch code pc h = .error fault) : fault.position? = some pc := by
  unfold fetch at hfetch
  split at hfetch
  · cases hfetch
    rfl
  · split at hfetch
    · cases hfetch
    · cases hfetch
      rfl

/-- A fault that an instruction raises by itself names no position but that of the instruction. -/
theorem Fault.RaisedAt.position?_eq {pc q : Nat} {fault : Fault} (h : fault.RaisedAt pc)
    (hq : q ∈ fault.position?) : q = pc := by
  cases fault with
  | stackUnderflow pc' | invalidBranch pc' target =>
    cases hq
    exact h
  | unsupportedOpcode | truncatedInstruction => cases h
  | _ => cases hq

namespace State

/-- What the step of a running frame comes to. -/
theorem step_cases (p : Program) (c : Config) (s : Session) (f : Frame) (callers : List Frame) :
    StepsTo p c f callers (step p c (running s f callers)) := by
  by_cases hpc : f.pc < f.method.code.size
  · cases hfetch : fetch f.method.code f.pc hpc with
    | error fault =>
      rw [step_of_fetch_error p c s f callers hpc hfetch]
      refine .fault s fault fun pc hmem => ?_
      rw [position?_of_fetch hfetch] at hmem
      cases hmem
      exact ⟨rfl, hpc⟩
    | ok fetched =>
      obtain ⟨op, x, y⟩ := fetched
      obtain ⟨hat, hle⟩ := instructionAt?_of_fetch hfetch
      rw [step_of_fetch_ok p c s f callers hpc hfetch]
      -- All that is said of every instruction is put together here.
      have hwithin := execute_within p (s.record (.executing f.pc op x y)) f (.decode op x y)
      have hcalls := execute_calls p (s.record (.executing f.pc op x y)) f (.decode op x y)
      have hbranches := execute_branches p (s.record (.executing f.pc op x y)) f (.decode op x y)
      generalize execute p (s.record (.executing f.pc op x y)) f (.decode op x y) = result
        at hwithin hcalls hbranches
      have hnext : f.GoesTo (f.pc + op.width) := ⟨hle, _, _, hat, hle, .inl rfl⟩
      match result, hwithin, hcalls, hbranches with
      | (t, .error fault), hwithin, _, _ =>
        refine .fault t fault fun pc hmem => ?_
        rw [hwithin.position?_eq hmem]
        exact ⟨rfl, hpc⟩
      | (t, .ok (.proceed g)), hwithin, _, _ => exact .proceed t hwithin hnext
      | (t, .ok (.jump g target)), hwithin, _, hbranches =>
        refine .proceed t hwithin.1 ⟨Nat.le_of_lt hwithin.2, _, _, hat, hle, .inr hbranches⟩
      | (t, .ok (.call callee args g)), hwithin, hcalls, _ =>
        exact .call t args hcalls.1 hwithin hnext
      | (t, .ok (.finish value)), _, _, _ => exact .finish t value
  · rw [step_of_end p c s f callers hpc]
    exact .finish s 0

end State

/-! ## The bounds of frames -/

/-- The bounds of a frame: its method is one of the program, it stands within its code or at the end
of it, and it has as many local variables as the method declares. -/
structure Frame.Within (p : Program) (f : Frame) : Prop where
  /-- The method is one of the program. -/
  find : p.find? f.method.key = some f.method
  /-- The position is within the code or at its end. -/
  pc : f.pc ≤ f.method.code.size
  /-- There are as many local variables as are declared. -/
  locals : f.locals.size = f.method.maxLocals

/-- A frame that goes on stays within its bounds. -/
theorem Frame.Within.goesTo {p : Program} {f g : Frame} {next : Nat} (h : f.Within p)
    (hsame : f.Same g) (hgoes : f.GoesTo next) : Frame.Within p { g with pc := next } where
  find := by
    show p.find? g.method.key = some g.method
    rw [hsame.method, h.find]
  pc := by
    show next ≤ g.method.code.size
    rw [hsame.method]
    exact hgoes.1
  locals := by
    show g.locals.size = g.method.maxLocals
    rw [hsame.locals, hsame.method, h.locals]

namespace State

variable {p : Program} {c : Config}

/-- All frames of a state are within their bounds. -/
def Within (p : Program) (state : State) : Prop :=
  ∀ f ∈ state.frames, f.Within p

/-- Handing over a value leaves the frames within their bounds. -/
theorem deliver_within (s : Session) (m : Method) (value : Int32) {callers : List Frame}
    (h : ∀ f ∈ callers, f.Within p) : (deliver s m value callers).Within p := by
  cases callers with
  | nil => exact h
  | cons f callers =>
    obtain ⟨hf, hcallers⟩ := List.forall_mem_cons.1 h
    refine List.forall_mem_cons.2 ⟨?_, hcallers⟩
    split
    · exact ⟨hf.find, hf.pc, hf.locals⟩
    · exact hf

/-- A call leaves the frames within their bounds, and the frame that it opens starts within its
own. -/
theorem CallsTo.within {m : Method} {args : List Int32} {callers : List Frame} {state : State}
    (h : CallsTo c m args callers state) (hm : p.find? m.key = some m)
    (hcallers : ∀ f ∈ callers, f.Within p) : state.Within p := by
  cases h with
  | refuse t active position => exact nofun
  | native t value => exact deliver_within t m value hcallers
  | frame t room fits =>
    exact List.forall_mem_cons.2 ⟨⟨hm, Nat.zero_le _, Frame.size_initialLocals fits⟩, hcallers⟩

/-- A step leaves the frames within their bounds. -/
theorem step_within (s : Session) {f : Frame} {callers : List Frame}
    (h : (running s f callers).Within p) : (step p c (running s f callers)).Within p := by
  obtain ⟨hf, hcallers⟩ := List.forall_mem_cons.1 h
  have hstep := step_cases p c s f callers
  generalize step p c (running s f callers) = state at hstep
  cases hstep with
  | finish t value => exact deliver_within _ f.method value hcallers
  | fault t fault position => exact fun _ hf => by cases hf
  | proceed t same goes => exact List.forall_mem_cons.2 ⟨hf.goesTo same goes, hcallers⟩
  | call t args find same goes =>
    have hall := List.forall_mem_cons.2 ⟨hf.goesTo same goes, hcallers⟩
    exact (call_cases c t _ args _).within find hall

/-- A request starts with its frame within bounds. -/
theorem start_within (p : Program) (c : Config) (s : Session) (r : Request) :
    (r.start p c s).Within p := by
  obtain ⟨fault, -, hrefused⟩ | ⟨m, args, hm, hcalls⟩ := Request.start_cases p c s r
  · rw [hrefused]
    exact nofun
  · exact hcalls.within hm nofun

end State

/-- All frames are within their bounds throughout a history. -/
theorem History.within {p : Program} {c : Config} {s : Session} {moves : List Move} {state : State}
    (h : History p c (.idle s) moves state) : state.Within p := by
  induction h with
  | nil => exact fun _ hf => by cases hf
  | snoc earlier last ih =>
    cases last with
    | ask s outcome r => exact State.start_within p c s r
    | step s f callers => exact State.step_within s ih

/-! ## The positions of faults -/

namespace State

/-- If the state has ended with a fault, the fault names no position. -/
def NamesNoPosition (state : State) : Prop :=
  ∀ fault ∈ state.fault?, fault.position? = none

/-- Handing over a value raises no fault. -/
theorem deliver_namesNoPosition (s : Session) (m : Method) (value : Int32)
    (callers : List Frame) : (deliver s m value callers).NamesNoPosition := by
  cases callers <;> exact fun _ hfault => by cases hfault

/-- The fault of refusing a call names no position. -/
theorem CallsTo.namesNoPosition {m : Method} {args : List Int32} {callers : List Frame}
    {state : State} (h : CallsTo c m args callers state) : state.NamesNoPosition := by
  cases h with
  | refuse t active position =>
    rintro _ ⟨⟩
    exact position
  | native t value => exact deliver_namesNoPosition t m value callers
  | frame t room fits => exact nofun

/-- The fault of refusing a request names no position. -/
theorem start_namesNoPosition (p : Program) (c : Config) (s : Session) (r : Request) :
    (r.start p c s).NamesNoPosition := by
  obtain ⟨fault, hposition, hrefused⟩ | ⟨m, args, -, hcalls⟩ := Request.start_cases p c s r
  · rw [hrefused]
    rintro _ ⟨⟩
    exact hposition
  · exact hcalls.namesNoPosition

end State

/-- A fault that names a position names that of the frame on top, within its code. -/
theorem Move.position_of_fault {p : Program} {c : Config} {move : Move} {fault : Fault} {pc : Nat}
    (hfault : (move.next p c).fault? = some fault) (hpc : fault.position? = some pc) :
    ∃ f, move.frames.head? = some f ∧ pc = f.pc ∧ pc < f.method.code.size := by
  cases move with
  | ask s r =>
    have hnone := State.start_namesNoPosition p c s r fault hfault
    rw [hnone] at hpc
    cases hpc
  | step s f callers =>
    have hstep := State.step_cases p c s f callers
    have hnot (state : State) (h : state.NamesNoPosition) (hf : state.fault? = some fault) :
        False := by
      rw [h fault hf] at hpc
      cases hpc
    rw [next] at hfault
    generalize State.step p c (.running s f callers) = state at hstep hfault
    cases hstep with
    | finish t value =>
      exact (hnot _ (State.deliver_namesNoPosition _ f.method value callers) hfault).elim
    | fault t fault' position =>
      cases hfault
      exact ⟨f, rfl, position pc hpc⟩
    | proceed t same goes => cases hfault
    | call t args find same goes =>
      exact (hnot _ (State.call_cases c t _ args _).namesNoPosition hfault).elim

/-- The machine keeps its bounds. Whatever requests are carried out, on whatever code and with
whatever arguments, the machine in which every access is explicit goes through the same history,
from no open frame on: no access is out of bounds, and its counter is the number of open frames.
Every open frame stands within its code or at the end of it, and has as many local variables as its
method declares. And a fault that names a position names the one at which the frame on top stands,
which lies within the code of its method. -/
theorem bounds_kept (p : Program) (c : Config) (s : Session) (moves : List Move) (state : State)
    (h : History p c (.idle s) moves state) :
    Checked.replay? p c (.idle s, 0) moves = some (state, state.frames.length) ∧
      (∀ f ∈ state.frames,
        f.pc ≤ f.method.code.size ∧ f.locals.size = f.method.maxLocals) ∧
      ∀ move : Move, move.From state → ∀ (fault : Fault) (pc : Nat),
        (move.next p c).fault? = some fault → fault.position? = some pc →
          ∃ f, state.frames.head? = some f ∧ pc = f.pc ∧ pc < f.method.code.size := by
  refine ⟨h.replay?_eq, fun f hf => ?_, fun move hfrom fault pc hfault hpc => ?_⟩
  · have hwithin := h.within f hf
    exact ⟨hwithin.pc, hwithin.locals⟩
  · rw [← hfrom.frames_eq]
    exact Move.position_of_fault hfault hpc

/-- A method that branches into the operand of its second instruction. Read from there, the code
ends in the middle of an instruction. -/
def Method.stray : Method where
  key := ⟨"stray", "()V"⟩
  signature := ⟨[], none⟩
  ofDescriptor_eq := by cbv
  code := #[0xa7, 0x00, 0x04, 0x10, 0xa7]
  maxStack := 1
  maxLocals := 2

/-- The program whose one method is `stray`. -/
def Program.straying : Program :=
  ⟨.ofList [], [Method.stray], by decide⟩

/-- After its branch, `stray` stands before its last byte, which is no whole instruction. -/
theorem bounds_kept_stray :
    ∃ moves s f callers,
      History .straying {} (.idle {}) moves (.running s f callers) ∧
        Checked.replay? .straying {} (.idle {}, 0) moves = some (.running s f callers, 1) ∧
        f.locals.size = 2 ∧
        ((Move.step s f callers).next .straying {}).fault? =
          some (.truncatedInstruction 0xa7 4) ∧
        f.pc = 4 ∧ f.pc < f.method.code.size := by
  have hnone : History .straying {} (.idle {}) [] (.idle {}) := .nil
  have hfirst := hnone.snoc (.ask _ _ (.invoke Method.stray.key []))
  have hsecond := hfirst.snoc (.step _ _ _)
  obtain ⟨hreplay, hframes, hpositions⟩ := bounds_kept .straying {} {} _ _ hsecond
  refine ⟨_, _, _, _, hsecond, hreplay, (hframes _ (.head _)).2, rfl, ?_⟩
  obtain ⟨f, hf, hpc, hlt⟩ := hpositions _ (.step _ _ _) (.truncatedInstruction 0xa7 4) 4 rfl rfl
  cases hf
  exact ⟨hpc.symm, hpc ▸ hlt⟩

end TieredJvm
