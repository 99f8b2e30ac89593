import Mathlib.Algebra.Group.Nat.Defs
import TieredJvm.Proofs.Machine.Bounds

/-!
# Programs without backward branches come to an end

If no branch leads backward, wherever in the code it is read, then a frame only ever goes forward,
and every request ends, however the methods call one another (`ends_of_branchesForward`). Neither
the position in the code nor the number of frames is a measure of that: a call starts at the
beginning of some code, and a frame that was closed leaves room for another one.

What decreases is the budget of the open frames (`Frame.budget`). Each of them is granted a call for
every position that is left to it, and a call is granted `Program.allowance` steps, the fewer the
more frames are open. The allowance of a call is larger than the budget of a frame one level deeper
with the longest code before it (`Program.allowance_of_lt`), so a caller that moves on past its call
pays for the frame that the call opens. A method that runs as native code takes no frame and costs
nothing.
-/

namespace TieredJvm

/-! ## Forward branches -/

/-- No branch leads backward or to itself, wherever in the code one could be read with its two bytes
of offset, be it in the middle of another instruction. -/
def Method.BranchesForward (m : Method) : Prop :=
  ∀ pc, pc + 2 < m.code.size → ∀ r ∈ instructionAt? m.code pc, ∀ offset ∈ r.2.offset?,
    1 ≤ offset.toInt

/-- All positions can be looked at. -/
instance (m : Method) : Decidable m.BranchesForward :=
  have (pc : Nat) : Decidable (∀ r ∈ instructionAt? m.code pc, ∀ offset ∈ r.2.offset?,
      1 ≤ offset.toInt) :=
    have (r : Nat × Instruction) : Decidable (∀ offset ∈ r.2.offset?, 1 ≤ offset.toInt) :=
      Option.decidableForallMem r.2.offset?
    Option.decidableForallMem (instructionAt? m.code pc)
  decidable_of_iff
    (∀ pc < m.code.size - 2, ∀ r ∈ instructionAt? m.code pc, ∀ offset ∈ r.2.offset?,
      1 ≤ offset.toInt)
    ⟨fun h pc hpc => h pc (by omega), fun h pc hpc => h pc (by omega)⟩

/-- An instruction has a width, and one that branches is three bytes wide. -/
theorem width_of_instructionAt? {code : Array UInt8} {pc width : Nat} {i : Instruction}
    (h : instructionAt? code pc = some (width, i)) :
    0 < width ∧ ∀ offset ∈ i.offset?, width = 3 := by
  obtain ⟨byte, -, h⟩ := Option.bind_eq_some_iff.1 h
  obtain ⟨op, -, h⟩ := Option.bind_eq_some_iff.1 h
  obtain ⟨rfl, rfl⟩ := Prod.mk.inj (Option.some.inj h)
  refine ⟨op.width_pos, fun offset hoffset => ?_⟩
  cases op with
  | ifEq | ifNe | ifLt | ifGe | ifGt | ifLe | ifIcmpEq | ifIcmpNe | ifIcmpLt | ifIcmpGe | ifIcmpGt
  | ifIcmpLe | goto => rfl
  | _ => cases hoffset

/-- Where no branch leads backward, a frame goes forward. -/
theorem Frame.GoesTo.lt {f : Frame} {next : Nat} (h : f.GoesTo next)
    (hforward : f.method.BranchesForward) : f.pc < next := by
  obtain ⟨-, width, i, hat, hle, hnext⟩ := h
  obtain ⟨hpos, hthree⟩ := width_of_instructionAt? hat
  rcases hnext with rfl | ⟨offset, hoffset, hnext⟩
  · omega
  · -- The whole branch lies within the code, so its offset is one of those looked at.
    have hwidth := hthree offset hoffset
    have hone := hforward f.pc (by omega) _ hat offset hoffset
    omega

/-! ## The budget -/

/-- The size of the longest code of the program. -/
def Program.longest (p : Program) : Nat :=
  (p.methods.map (·.code.size)).max?.getD 0

/-- No code of the program is longer than the longest. -/
theorem Program.size_le_longest {p : Program} {m : Method} (h : p.find? m.key = some m) :
    m.code.size ≤ p.longest :=
  List.le_max?_getD_of_mem (List.mem_map.2 ⟨m, List.mem_of_find?_eq_some h, rfl⟩)

/-- The number of steps that a call is granted while there are `depth` frames. -/
def Program.allowance (p : Program) (c : Config) (depth : Nat) : Nat :=
  (p.longest + 2) ^ (c.maxCallDepth - depth)

/-- A call is granted at least one step. -/
theorem Program.allowance_pos (p : Program) (c : Config) (depth : Nat) :
    0 < p.allowance c depth :=
  Nat.pow_pos (by omega)

/-- Where there may be one more frame, the allowance of a call is more than that of one call deeper
for every position of any code. -/
theorem Program.allowance_of_lt (p : Program) {c : Config} {depth : Nat}
    (h : depth < c.maxCallDepth) :
    (p.longest + 1) * p.allowance c (depth + 1) < p.allowance c depth := by
  have hroom : c.maxCallDepth - depth = c.maxCallDepth - (depth + 1) + 1 := by omega
  have hpos := p.allowance_pos c (depth + 1)
  calc (p.longest + 1) * p.allowance c (depth + 1)
      < (p.longest + 2) * p.allowance c (depth + 1) :=
        Nat.mul_lt_mul_of_pos_right (Nat.lt_succ_self _) hpos
    _ = p.allowance c (depth + 1) * (p.longest + 2) := Nat.mul_comm ..
    _ = p.allowance c depth := by rw [allowance, allowance, hroom, Nat.pow_succ]

namespace Frame

/-- The number of positions that are left to a frame, of which one is the end of its code. -/
def remaining (f : Frame) : Nat :=
  f.method.code.size - f.pc + 1

/-- The number of steps that are granted to frames, the innermost first. -/
def budget (p : Program) (c : Config) : List Frame → Nat
  | [] => 0
  | f :: callers => f.remaining * p.allowance c (callers.length + 1) + budget p c callers

variable {p : Program} {c : Config}

/-- A frame that goes forward has less left. -/
theorem remaining_of_lt {f g : Frame} {next : Nat} (hsame : f.Same g) (hlt : f.pc < next)
    (hle : next ≤ f.method.code.size) :
    remaining { g with pc := next } + 1 ≤ f.remaining := by
  have hmethod := hsame.method
  show g.method.code.size - next + 1 + 1 ≤ f.method.code.size - f.pc + 1
  rw [hmethod]
  omega

/-- Frames are granted less if the innermost one goes forward; what it gives up is enough for a call
at its depth. -/
theorem budget_of_lt {f g : Frame} {next : Nat} (callers : List Frame) (hsame : f.Same g)
    (hlt : f.pc < next) (hle : next ≤ f.method.code.size) :
    p.allowance c (callers.length + 1) + budget p c ({ g with pc := next } :: callers) ≤
      budget p c (f :: callers) := by
  have hmul := Nat.mul_le_mul_right (p.allowance c (callers.length + 1))
    (remaining_of_lt hsame hlt hle)
  rw [Nat.succ_mul] at hmul
  rw [budget, budget]
  omega

/-- Frames are granted less if the innermost one is closed. -/
theorem budget_of_cons (f : Frame) (callers : List Frame) :
    budget p c callers < budget p c (f :: callers) := by
  have hpos : 0 < f.remaining * p.allowance c (callers.length + 1) :=
    Nat.mul_pos (Nat.succ_pos _) (p.allowance_pos c _)
  rw [budget]
  omega

end Frame

/-! ## What a step spends -/

namespace State

variable {p : Program} {c : Config}

/-- The number of steps that are granted to the frames of a state. -/
def budget (p : Program) (c : Config) (state : State) : Nat :=
  Frame.budget p c state.frames

/-- Handing over a value leaves the budget of the callers. -/
theorem budget_deliver (s : Session) (m : Method) (value : Int32) (callers : List Frame) :
    (deliver s m value callers).budget p c = Frame.budget p c callers := by
  cases callers with
  | nil => rfl
  | cons f callers =>
    show Frame.budget p c ((if m.signature.returnsValue then f.push value else f) :: callers) = _
    split <;> rfl

/-- A call is made within its allowance. -/
theorem CallsTo.budget_lt {m : Method} {args : List Int32} {callers : List Frame} {state : State}
    (h : CallsTo c m args callers state) (hm : p.find? m.key = some m) :
    state.budget p c < p.allowance c callers.length + Frame.budget p c callers := by
  have hpos := p.allowance_pos c callers.length
  cases h with
  | refuse t active position => exact Nat.lt_of_lt_of_le hpos (Nat.le_add_right _ _)
  | native t value =>
    rw [budget_deliver]
    omega
  | frame t room fits =>
    -- The frame has all of its code before it, which is no longer than the longest.
    have hsize := Nat.add_le_add_right (Program.size_le_longest hm) 1
    have hmul := Nat.mul_le_mul_right (p.allowance c (callers.length + 1)) hsize
    have hlt := p.allowance_of_lt room
    show (m.code.size - 0 + 1) * p.allowance c (callers.length + 1) + Frame.budget p c callers < _
    rw [Nat.sub_zero]
    omega

/-- A step spends some of the budget. -/
theorem budget_step (hp : ∀ m ∈ p.methods, m.BranchesForward) (s : Session) {f : Frame}
    (callers : List Frame) (h : f.Within p) :
    (step p c (running s f callers)).budget p c < (running s f callers).budget p c := by
  have hforward := hp f.method (List.mem_of_find?_eq_some h.find)
  have hstep := step_cases p c s f callers
  generalize step p c (running s f callers) = state at hstep
  cases hstep with
  | finish t value =>
    rw [leave, budget_deliver]
    exact Frame.budget_of_cons f callers
  | fault t fault position => exact Nat.zero_lt_of_lt (Frame.budget_of_cons f callers)
  | proceed t same goes =>
    have hspent := Frame.budget_of_lt (p := p) (c := c) callers same (goes.lt hforward) goes.1
    have hpos := p.allowance_pos c (callers.length + 1)
    exact Nat.lt_of_lt_of_le (Nat.lt_add_of_pos_left hpos) hspent
  | call t args find same goes =>
    have hspent := Frame.budget_of_lt (p := p) (c := c) callers same (goes.lt hforward) goes.1
    exact Nat.lt_of_lt_of_le ((call_cases c t _ args _).budget_lt find) hspent

/-- A run ends within its budget. -/
theorem halts_within_budget (hp : ∀ m ∈ p.methods, m.BranchesForward) {n : Nat} {state : State}
    (h : state.Within p) (hn : state.budget p c ≤ n) :
    ∃ s outcome, advance p c n state = halted s outcome := by
  induction n generalizing state with
  | zero =>
    cases state with
    | halted s outcome => exact ⟨s, outcome, rfl⟩
    | running s f callers =>
      have hpos := Frame.budget_of_cons (p := p) (c := c) f callers
      rw [budget, frames] at hn
      omega
  | succ n ih =>
    cases state with
    | halted s outcome => exact ⟨s, outcome, rfl⟩
    | running s f callers =>
      have hspent := budget_step (c := c) hp s callers (h f (.head _))
      rw [advance_succ]
      exact ih (step_within s h) (by omega)

/-- A request starts within the allowance of a call. -/
theorem budget_start (p : Program) (c : Config) (s : Session) (r : Request) :
    (r.start p c s).budget p c < p.allowance c 0 := by
  obtain ⟨fault, -, hrefused⟩ | ⟨m, args, hm, hcalls⟩ := Request.start_cases p c s r
  · rw [hrefused]
    exact p.allowance_pos c 0
  · exact hcalls.budget_lt hm

end State

/-- If no branch of a program leads backward, wherever in the code it is read, then every request
ends, with a value or with a fault, in whatever session it is made. The number of steps depends on
the longest code and on the number of frames that there may be, and on nothing else. -/
theorem ends_of_branchesForward (p : Program) (h : ∀ m ∈ p.methods, m.BranchesForward) (c : Config)
    (s : Session) (r : Request) :
    ∃ t result, r.perform p c ((p.longest + 2) ^ c.maxCallDepth) s = some (t, result) := by
  have hstart := Nat.le_of_lt (State.budget_start p c s r)
  obtain ⟨t, outcome, hend⟩ := State.halts_within_budget h (State.start_within p c s r) hstart
  refine ⟨t, r.conclude t outcome, ?_⟩
  rw [Request.perform]
  show r.finished? (State.advance p c (p.allowance c 0) _) = _
  rw [hend]
  rfl

/-- A method that calls itself twice, unless a branch leads past both calls. -/
def Method.fork : Method where
  key := ⟨"fork", "(I)I"⟩
  signature := ⟨[.int], some .int⟩
  ofDescriptor_eq := by cbv
  code := #[0x1a, 0x9e, 0x00, 0x11, 0x1a, 0x04, 0x64, 0xb8, 0x00, 0x06, 0x1a, 0x05, 0x64, 0xb8,
    0x00, 0x06, 0x60, 0xac, 0x04, 0xac]
  maxStack := 3
  maxLocals := 1

/-- The program whose one method is `fork`. -/
def Program.forking : Program :=
  ⟨.ofList [.utf8 "Main", .classRef 1, .utf8 "fork", .utf8 "(I)I", .nameAndType 3 4,
    .methodRef 2 5], [Method.fork], by decide⟩

/-- Whatever its argument and however deep it may go, `fork` comes to an end. -/
theorem ends_of_branchesForward_fork :
    (∀ m ∈ Program.forking.methods, m.BranchesForward) ∧
      ∀ (depth : Nat) (n : Int32), ∃ t result,
        Request.perform .forking ⟨depth, {}⟩ (22 ^ depth) {} (.invoke Method.fork.key [n]) =
          some (t, result) := by
  have hforward : ∀ m ∈ Program.forking.methods, m.BranchesForward := by decide
  exact ⟨hforward, fun depth n => ends_of_branchesForward .forking hforward ⟨depth, {}⟩ {} _⟩

end TieredJvm
