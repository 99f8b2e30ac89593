import TieredJvm.Proofs.Machine.History

/-!
# The machine with its accesses explicit

The machine reads code by position, cuts operands out of it, copies arguments into local variables,
cuts arguments off an operand stack, finds methods by their place in a table, and counts frames down
when it closes them. Each of these is an access that makes sense within bounds only. The machine of
the namespace `Checked` makes every access explicit: it gives nothing as soon as one is out of
bounds, and it keeps the number of open frames in a counter of its own. It does what the machine
does (`Checked.next?_eq`), so that it goes through every history without an access out of bounds
(`History.replay?_eq`).

What the instructions read is said per opcode (`Opcode.operandUse`); that they find it in the slice
that was cut for them rests on the widths of the opcodes alone (`Opcode.width_eq`). No other access
depends on the code either: each is guarded where it is made, and only the counter needs to be
followed through a whole history.
-/

namespace TieredJvm

/-! ## Accesses -/

/-- A computation that can raise a fault, and of which the accesses can be out of bounds; it then
gives nothing, not even a fault. -/
abbrev Checked (α : Type) := ExceptT Fault Option α

namespace Checked

/-- An access, which is to be in bounds. -/
def access {α : Type} (x : Option α) : Checked α :=
  ExceptT.mk (x.map .ok)

/-- A computation that makes no access. -/
def ofExcept {α : Type} (x : Except Fault α) : Checked α :=
  ExceptT.mk (some x)

/-- The difference of two numbers, of which the second must not be the larger. -/
def subtract? (m n : Nat) : Option Nat :=
  if n ≤ m then some (m - n) else none

/-- The bytes from one position up to another, which must lie within the code in that order. -/
def slice? (code : Array UInt8) (start stop : Nat) : Option (List UInt8) :=
  if start ≤ stop ∧ stop ≤ code.size then some (code.extract start stop).toList else none

/-- The two bytes of a word at the start of some bytes, which must be that many. -/
def wordBytes? : List UInt8 → Option (UInt8 × UInt8)
  | high :: low :: _ => some (high, low)
  | _ => none

/-- Words written over the first of some others, which must be as many. -/
def copyOver? (target : Array Int32) (words : List Int32) : Option (Array Int32) :=
  if words.length ≤ target.size then some (words.toArray ++ target.extract words.length) else none

/-- Words up to a position and those from it on; the position must not lie past the end. -/
def splitOff? (words : List Int32) (position : Nat) : Option (List Int32 × List Int32) :=
  if position ≤ words.length then some (words.take position, words.drop position) else none

/-- The method with a given key, by its place, which must be in the table. -/
def find? (p : Program) (key : MethodKey) : Option (Option Method) :=
  match p.methods.findIdx? (·.key = key) with
  | none => some none
  | some place => p.methods[place]?.map some

end Checked

/-- How an opcode uses the bytes after it. -/
inductive OperandUse where
  /-- Not at all. -/
  | none
  /-- The first byte. -/
  | byte
  /-- The first byte and the second, each for itself. -/
  | pair
  /-- The first two bytes, as one word. -/
  | word

/-- The number of bytes that are used. -/
def OperandUse.count : OperandUse → Nat
  | none => 0
  | byte => 1
  | pair | word => 2

/-- How an opcode uses the bytes after it. -/
def Opcode.operandUse : Opcode → OperandUse
  | bipush | ldc | iload | istore => .byte
  | iinc => .pair
  | sipush | ifEq | ifNe | ifLt | ifGe | ifGt | ifLe | ifIcmpEq | ifIcmpNe | ifIcmpLt | ifIcmpGe
  | ifIcmpGt | ifIcmpLe | goto | getStatic | getField | putField | invokeVirtual | invokeSpecial
  | invokeStatic | new => .word
  | _ => .none

/-- An opcode is as wide as what it uses, with itself. -/
theorem Opcode.width_eq (op : Opcode) : op.width = op.operandUse.count + 1 := by
  cases op <;> rfl

namespace Checked

/-! ## Instructions -/

/-- Reads the opcode at a position, and cuts out its operands. -/
def fetch? (code : Array UInt8) (pc : Nat) : Checked (Fetched × List UInt8) := do
  let byte ← access code[pc]?
  match Opcode.ofByte? byte with
  | none => throw (.unsupportedOpcode byte pc)
  | some op =>
    if code.size < pc + op.width then throw (.truncatedInstruction byte pc)
    else
      let operands ← access (slice? code (pc + 1) (pc + op.width))
      return (⟨op, code.getD (pc + 1) 0, code.getD (pc + 2) 0⟩, operands)

/-- The meaning of an opcode with the operands that were cut out for it. -/
def decode? (op : Opcode) (operands : List UInt8) : Option Instruction :=
  match op.operandUse with
  | .none => some (.decode op 0 0)
  | .byte => do return .decode op (← operands[0]?) 0
  | .pair => do return .decode op (← operands[0]?) (← operands[1]?)
  | .word => do
    let (high, low) ← wordBytes? operands
    return .decode op high low

/-- Pops a number of words at once. The operand stack is a vector with the top at its end. -/
def popMany? (f : Frame) (count : Nat) : Checked (List Int32 × Frame) :=
  if f.stack.length < count then throw (.stackUnderflow f.pc)
  else do
    let position ← access (subtract? f.stack.length count)
    let (kept, taken) ← access (splitOff? f.stack.reverse position)
    return (taken, { f with stack := kept.reverse })

/-- Announces the call of a method of the program. -/
def invokeStatic? (p : Program) (f : Frame) (index : UInt16) : Checked Effect := do
  let member ← ofExcept (Execute.resolved (p.pool.methodRef index))
  let key : MethodKey := ⟨member.name, member.descriptor⟩
  match ← access (find? p key) with
  | none => throw (.methodNotFound key)
  | some callee =>
    if callee.signature.isWordSized then
      let (args, f) ← popMany? f callee.signature.args.length
      return .call callee args f
    else throw (.unsupportedInvocation key)

/-- The constructor that a call names. -/
def constructorCall? (pool : ConstantPool) (f : Frame) (index : UInt16) :
    Checked (MemberRef × Frame) := do
  let member ← ofExcept (Execute.resolved (pool.methodRef index))
  match Signature.ofDescriptor member.descriptor with
  | .error cause => throw (.program cause)
  | .ok signature =>
    let (_, f) ← popMany? f signature.argSlots
    let (_, f) ← ofExcept f.pop
    return (member, f)

/-- What an instruction does. Two of them cut the operand stack, and one of these finds a method. -/
def execute? (p : Program) (s : Session) (f : Frame) :
    Instruction → Option (Session × Except Fault Effect)
  | .invokeStatic index => do return (s, ← (invokeStatic? p f index).run)
  | .invokeSpecial index => do
    match ← (constructorCall? p.pool f index).run with
    | .error fault => return (s, .error fault)
    | .ok (member, f) => return (s.record (.skipped member), .ok (.proceed f))
  | i => some (execute p s f i)

/-! ## Frames

`depth` is the counter of open frames. What is given is the next state with the counter after it. -/

/-- The activation of a method at its start. -/
def initial? (m : Method) (args : List Int32) : Checked Frame :=
  match Frame.checkArity m args.length with
  | .error fault => throw fault
  | .ok _ => do return ⟨m, 0, [], ← access (copyOver? (.replicate m.maxLocals 0) args)⟩

/-- Closes frames by a fault, and counts down for each of them. -/
def unwind? (depth : Nat) (s : Session) (fault : Fault) (active : List Method) :
    Option (State × Nat) := do
  let depth ← active.foldlM (fun depth _ => subtract? depth 1) depth
  return (.unwind s fault active, depth)

/-- Closes a frame with a value, and counts down for it. -/
def leave? (depth : Nat) (s : Session) (m : Method) (value : Int32) (callers : List Frame) :
    Option (State × Nat) := do
  let depth ← subtract? depth 1
  return (.leave s m value callers, depth)

/-- Opens a frame for a method, if the counter says that there may be one more. -/
def enter? (c : Config) (depth : Nat) (s : Session) (m : Method) (args : List Int32)
    (callers : List Frame) : Option (State × Nat) :=
  if c.maxCallDepth ≤ depth then
    unwind? depth s (.callDepthExceeded c.maxCallDepth) (callers.map Frame.method)
  else do
    let depth := depth + 1
    let s := s.record (.entering m.key depth)
    match ← (initial? m args).run with
    | .ok f => return (.running s f callers, depth)
    | .error fault => unwind? depth s fault (m :: callers.map Frame.method)

/-- Calls a method. -/
def call? (c : Config) (depth : Nat) (s : Session) (m : Method) (args : List Int32)
    (callers : List Frame) : Option (State × Nat) :=
  match Frame.checkArity m args.length with
  | .error fault => unwind? depth s fault (callers.map Frame.method)
  | .ok _ =>
    let s := s.book c.promotion m
    match (s.profile m.key).slot with
    | .native entry =>
      let value := entry.call args
      some (.deliver (s.record (.nativeReturned m.key value)) m value callers, depth)
    | .untried | .ineligible => enter? c depth s m args callers

/-- What follows from the effect of an instruction. -/
def follow? (c : Config) (depth : Nat) (m : Method) (next : Nat) (callers : List Frame) :
    Session × Except Fault Effect → Option (State × Nat)
  | (s, .error fault) => unwind? depth s fault (m :: callers.map Frame.method)
  | (s, .ok (.proceed f)) => some (.running s { f with pc := next } callers, depth)
  | (s, .ok (.jump f target)) => some (.running s { f with pc := target } callers, depth)
  | (s, .ok (.call callee args f)) => call? c depth s callee args ({ f with pc := next } :: callers)
  | (s, .ok (.finish value)) => leave? depth s m value callers

/-- Executes one instruction of the frame on top. -/
def step? (p : Program) (c : Config) (depth : Nat) (s : Session) (f : Frame)
    (callers : List Frame) : Option (State × Nat) :=
  if f.pc < f.method.code.size then do
    match ← (fetch? f.method.code f.pc).run with
    | .error fault => unwind? depth s fault (f.method :: callers.map Frame.method)
    | .ok (⟨op, x, y⟩, operands) =>
      let i ← decode? op operands
      let result ← execute? p (s.record (.executing f.pc op x y)) f i
      follow? c depth f.method (f.pc + op.width) callers result
  else leave? depth s f.method 0 callers

/-! ## Requests -/

/-- The method with which a run starts. -/
def entryPoint? (p : Program) : Option (Except ProgramError Method) := do
  match ← find? p Program.mainKey with
  | some m => return .ok m
  | none =>
    match ← find? p Program.bareMainKey with
    | some m => return .ok m
    | none => return .error .missingMain

/-- The state in which a request starts. -/
def start? (p : Program) (c : Config) (depth : Nat) (s : Session) :
    Request → Option (State × Nat)
  | .run => do
    match ← entryPoint? p with
    | .ok m => call? c depth s m [] []
    | .error cause => return (.halted s (.error (.program cause)), depth)
  | .invoke key args => do
    match ← find? p key with
    | some m => call? c depth s m args []
    | none => return (.halted s (.error (.methodNotFound key)), depth)
  | .interpret key args => do
    match ← find? p key with
    | some m => enter? c depth s m args []
    | none => return (.halted s (.error (.methodNotFound key)), depth)

/-- The state to which a move leads. -/
def next? (p : Program) (c : Config) (depth : Nat) : Move → Option (State × Nat)
  | .ask s r => start? p c depth s r
  | .step s top callers => step? p c depth s top callers

/-- The state to which moves lead, made one after another with one counter. -/
def replay? (p : Program) (c : Config) (start : State × Nat) (moves : List Move) :
    Option (State × Nat) :=
  moves.foldlM (fun here move => next? p c here.2 move) start

/-! ## No access is out of bounds -/

/-- After an access in bounds, the computation goes on with what was found. -/
theorem access_some_bind {α β : Type} (a : α) (k : α → Checked β) :
    (access (some a) >>= k) = k a := rfl

/-- A sequence makes no access out of bounds if its second part makes none. -/
theorem ofExcept_bind {α β : Type} {x : Except Fault α} {k : α → Checked β}
    {k' : α → Except Fault β} (h : ∀ a, k a = ofExcept (k' a)) :
    (ofExcept x >>= k) = ofExcept (x >>= k') := by
  cases x with
  | error fault => rfl
  | ok a => exact h a

/-- The code from a position within it on starts with the byte at the position. -/
theorem drop_eq_getD_cons {code : Array UInt8} {i : Nat} (h : i < code.size) :
    code.toList.drop i = code.getD i 0 :: code.toList.drop (i + 1) := by
  rw [List.drop_eq_getElem_cons (by simpa using h)]
  simp [Array.getD, h]

/-- The bytes that an opcode uses are in the slice that is cut out for it. -/
theorem decode?_extract {code : Array UInt8} {pc : Nat} {op : Opcode}
    (h : pc + op.width ≤ code.size) :
    decode? op (code.extract (pc + 1) (pc + op.width)).toList =
      some (.decode op (code.getD (pc + 1) 0) (code.getD (pc + 2) 0)) := by
  -- The slice has as many bytes as the opcode uses.
  have hone (h : pc + 1 < code.size) :
      (code.extract (pc + 1) (pc + 2)).toList = [code.getD (pc + 1) 0] := by
    rw [Array.toList_extract, List.extract_eq_take_drop, drop_eq_getD_cons h]
    simp
  have htwo (h : pc + 2 < code.size) :
      (code.extract (pc + 1) (pc + 3)).toList = [code.getD (pc + 1) 0, code.getD (pc + 2) 0] := by
    rw [Array.toList_extract, List.extract_eq_take_drop, drop_eq_getD_cons (by omega),
      drop_eq_getD_cons h]
    simp
  have hwidth := op.width_eq
  unfold decode?
  cases huse : op.operandUse with
  | none =>
    rw [huse] at hwidth
    exact congrArg some (Instruction.decode_of_width_one hwidth _ _ _ _)
  | byte =>
    have hwidth : op.width = 2 := by rw [hwidth, huse]; rfl
    rw [hwidth, hone (by omega)]
    exact congrArg some (Instruction.decode_of_width_two hwidth _ _ _)
  | pair =>
    have hwidth : op.width = 3 := by rw [hwidth, huse]; rfl
    rw [hwidth, htwo (by omega)]
    rfl
  | word =>
    have hwidth : op.width = 3 := by rw [hwidth, huse]; rfl
    rw [hwidth, htwo (by omega)]
    rfl

/-- What is read is an opcode with the bytes after it, and it ends within the code. -/
theorem of_fetch {code : Array UInt8} {pc : Nat} {h : pc < code.size} {op : Opcode} {x y : UInt8}
    (hfetch : fetch code pc h = .ok ⟨op, x, y⟩) :
    Opcode.ofByte? code[pc] = some op ∧ pc + op.width ≤ code.size ∧
      x = code.getD (pc + 1) 0 ∧ y = code.getD (pc + 2) 0 := by
  unfold fetch at hfetch
  split at hfetch
  · cases hfetch
  · next hop =>
    split at hfetch
    · next hle =>
      cases hfetch
      exact ⟨hop, hle, rfl, rfl⟩
    · cases hfetch

/-- An opcode within the code is read, and its operands are cut out if they lie within it too. -/
theorem fetch?_eq {code : Array UInt8} {pc : Nat} (h : pc < code.size) :
    fetch? code pc = ofExcept ((fetch code pc h).map fun r =>
      (r, (code.extract (pc + 1) (pc + r.op.width)).toList)) := by
  unfold fetch? fetch
  rw [Array.getElem?_eq_getElem h, access_some_bind]
  cases Opcode.ofByte? code[pc] with
  | none => rfl
  | some op =>
    dsimp only
    by_cases hle : pc + op.width ≤ code.size
    · have hpos := op.width_pos
      have hslice : pc + 1 ≤ pc + op.width ∧ pc + op.width ≤ code.size := by omega
      rw [if_neg (by omega), if_pos hle, slice?, if_pos hslice]
      rfl
    · rw [if_pos (by omega), if_neg hle]
      rfl

/-- A method has a place in the table if it is found there. -/
theorem find?_eq (p : Program) (key : MethodKey) : find? p key = some (p.find? key) := by
  unfold find? Program.find?
  induction p.methods with
  | nil => rfl
  | cons m methods ih =>
    rw [List.findIdx?_cons, List.find?_cons]
    cases hkey : decide (m.key = key) with
    | true => rfl
    | false =>
      rw [← ih]
      cases methods.findIdx? (·.key = key) with
      | none => rfl
      | some place => simp

/-- The operand stack is cut where there are as many words above. -/
theorem popMany?_eq (f : Frame) (count : Nat) : popMany? f count = ofExcept (f.popMany count) := by
  unfold popMany? Frame.popMany
  by_cases h : count ≤ f.stack.length
  · have hposition : f.stack.length - count ≤ f.stack.reverse.length := by simp
    rw [if_neg (by omega), if_pos h, subtract?, if_pos h, access_some_bind, splitOff?,
      if_pos hposition, access_some_bind, List.reverse_take]
    dsimp only
    rw [← List.reverse_drop, List.reverse_reverse]
    rfl
  · rw [if_pos (by omega), if_neg h]
    rfl

/-- Arguments that fit are copied within the local variables. -/
theorem initial?_eq (m : Method) (args : List Int32) :
    initial? m args = ofExcept (Frame.initial m args) := by
  unfold initial? Frame.initial
  have hcheck := Frame.checkArity_spec m args.length
  cases harity : Frame.checkArity m args.length with
  | error fault => rfl
  | ok _ =>
    rw [harity] at hcheck
    have hlocals : copyOver? (.replicate m.maxLocals 0) args =
        some (Frame.initialLocals m.maxLocals args) := by
      have hargs : args.length ≤ m.maxLocals := hcheck
      rw [copyOver?, if_pos (by simpa using hargs), Frame.initialLocals]
      simp
    simp only [hlocals]
    rfl

/-- A static call makes no access out of bounds. -/
theorem invokeStatic?_eq (p : Program) (f : Frame) (index : UInt16) :
    invokeStatic? p f index = ofExcept (Execute.invokeStatic p f index) := by
  refine ofExcept_bind fun member => ?_
  dsimp only
  rw [find?_eq, access_some_bind]
  cases p.find? ⟨member.name, member.descriptor⟩ with
  | none => rfl
  | some callee =>
    dsimp only
    split
    · rw [popMany?_eq]
      exact ofExcept_bind fun _ => rfl
    · rfl

/-- Skipping a constructor makes no access out of bounds. -/
theorem constructorCall?_eq (pool : ConstantPool) (f : Frame) (index : UInt16) :
    constructorCall? pool f index = ofExcept (Execute.constructorCall pool f index) := by
  refine ofExcept_bind fun member => ?_
  cases Signature.ofDescriptor member.descriptor with
  | error cause => rfl
  | ok signature =>
    dsimp only
    rw [popMany?_eq]
    exact ofExcept_bind fun _ => ofExcept_bind fun _ => rfl

/-- No instruction makes an access out of bounds. -/
theorem execute?_eq (p : Program) (s : Session) (f : Frame) (i : Instruction) :
    execute? p s f i = some (execute p s f i) := by
  cases i with
  | invokeStatic index =>
    rw [execute?, invokeStatic?_eq]
    rfl
  | invokeSpecial index =>
    rw [execute?, constructorCall?_eq, execute, Execute.invokeSpecial]
    cases Execute.constructorCall p.pool f index <;> rfl
  | _ => rfl

end Checked

/-! ## The counter of frames -/

/-- A state with the number of its frames. -/
def State.counted (state : State) : State × Nat :=
  (state, state.frames.length)

/-- Handing over a value opens and closes no frame. -/
theorem State.counted_deliver (s : Session) (m : Method) (value : Int32) (callers : List Frame) :
    (deliver s m value callers).counted = (deliver s m value callers, callers.length) := by
  cases callers <;> rfl

namespace Checked

open State (counted)

/-- A fault counts down to zero, frame by frame. -/
theorem unwind?_eq (s : Session) (fault : Fault) (active : List Method) :
    unwind? active.length s fault active = some (counted (.unwind s fault active)) := by
  have hcount : active.foldlM (fun depth _ => subtract? depth 1) active.length = some 0 := by
    induction active with
    | nil => rfl
    | cons m active ih => exact ih
  rw [unwind?, hcount]
  rfl

/-- A frame that is closed was counted. -/
theorem leave?_eq (s : Session) (m : Method) (value : Int32) (callers : List Frame) :
    leave? (callers.length + 1) s m value callers =
      some (counted (.leave s m value callers)) := by
  rw [State.leave, State.counted_deliver]
  rfl

/-- The counter says whether there may be one more frame. -/
theorem enter?_eq (c : Config) (s : Session) (m : Method) (args : List Int32)
    (callers : List Frame) :
    enter? c callers.length s m args callers = some (counted (.enter c s m args callers)) := by
  have hmethods : (callers.map Frame.method).length = callers.length := List.length_map ..
  unfold enter? State.enter
  by_cases hroom : callers.length < c.maxCallDepth
  · rw [if_neg (by omega), if_pos hroom, initial?_eq]
    dsimp only
    cases Frame.initial m args with
    | ok f => rfl
    | error fault =>
      refine Eq.trans ?_ (unwind?_eq _ fault (m :: callers.map Frame.method))
      rw [List.length_cons, hmethods]
      rfl
  · rw [if_pos (by omega), if_neg hroom]
    refine Eq.trans ?_ (unwind?_eq _ _ (callers.map Frame.method))
    rw [hmethods]

/-- A call goes by the counter. -/
theorem call?_eq (c : Config) (s : Session) (m : Method) (args : List Int32)
    (callers : List Frame) :
    call? c callers.length s m args callers = some (counted (.call c s m args callers)) := by
  unfold call? State.call
  cases Frame.checkArity m args.length with
  | error fault =>
    refine Eq.trans ?_ (unwind?_eq _ fault (callers.map Frame.method))
    rw [List.length_map]
  | ok _ =>
    dsimp only
    cases ((s.book c.promotion m).profile m.key).slot with
    | native entry => rw [State.counted_deliver]
    | untried => exact enter?_eq c _ m args callers
    | ineligible => exact enter?_eq c _ m args callers

/-- What follows from an effect goes by the counter. -/
theorem follow?_eq (c : Config) (m : Method) (next : Nat) (callers : List Frame)
    (result : Session × Except Fault Effect) :
    follow? c (callers.length + 1) m next callers result =
      some (counted (.apply c m next callers result)) := by
  match result with
  | (s, .error fault) =>
    refine Eq.trans ?_ (unwind?_eq s fault (m :: callers.map Frame.method))
    rw [List.length_cons, List.length_map]
    rfl
  | (s, .ok (.proceed f)) => rfl
  | (s, .ok (.jump f target)) => rfl
  | (s, .ok (.call callee args f)) =>
    exact call?_eq c s callee args ({ f with pc := next } :: callers)
  | (s, .ok (.finish value)) => exact leave?_eq s m value callers

/-- A step makes no access out of bounds. -/
theorem step?_eq (p : Program) (c : Config) (s : Session) (f : Frame) (callers : List Frame) :
    step? p c (callers.length + 1) s f callers =
      some (counted (.step p c (.running s f callers))) := by
  unfold step?
  by_cases hpc : f.pc < f.method.code.size
  · rw [if_pos hpc, fetch?_eq hpc]
    cases hfetch : fetch f.method.code f.pc hpc with
    | error fault =>
      rw [State.step_of_fetch_error p c s f callers hpc hfetch]
      refine Eq.trans ?_ (unwind?_eq s fault (f.method :: callers.map Frame.method))
      rw [List.length_cons, List.length_map]
      rfl
    | ok fetched =>
      obtain ⟨op, x, y⟩ := fetched
      obtain ⟨-, hwidth, rfl, rfl⟩ := of_fetch hfetch
      rw [State.step_of_fetch_ok p c s f callers hpc hfetch]
      refine Eq.trans ?_ (follow?_eq c f.method (f.pc + op.width) callers _)
      show (decode? op _ >>= fun i => execute? p _ f i >>= fun result => _) = _
      rw [decode?_extract hwidth]
      show (execute? p _ f _ >>= fun result => _) = _
      rw [execute?_eq]
      rfl
  · rw [if_neg hpc, State.step_of_end p c s f callers hpc]
    exact leave?_eq s f.method 0 callers

/-- A request makes no access out of bounds at its start. -/
theorem start?_eq (p : Program) (c : Config) (s : Session) (r : Request) :
    start? p c 0 s r = some (counted (r.start p c s)) := by
  have hentry : entryPoint? p = some p.entryPoint := by
    unfold entryPoint? Program.entryPoint
    rw [find?_eq, find?_eq]
    cases p.find? Program.mainKey with
    | some m => rfl
    | none => cases p.find? Program.bareMainKey <;> rfl
  cases r with
  | run =>
    rw [start?, hentry, Request.start]
    cases p.entryPoint with
    | ok m => exact call?_eq c s m [] []
    | error cause => rfl
  | invoke key args =>
    rw [start?, find?_eq, Request.start]
    cases p.find? key with
    | some m => exact call?_eq c s m args []
    | none => rfl
  | interpret key args =>
    rw [start?, find?_eq, Request.start]
    cases p.find? key with
    | some m => exact enter?_eq c s m args []
    | none => rfl

/-- No move makes an access out of bounds, if the counter says how many frames are open. -/
theorem next?_eq (p : Program) (c : Config) (move : Move) :
    next? p c move.frames.length move = some (counted (move.next p c)) := by
  cases move with
  | ask s r => exact start?_eq p c s r
  | step s f callers => exact step?_eq p c s f callers

end Checked

/-- The machine with all accesses explicit goes through a whole history, and its counter is the
number of open frames. -/
theorem History.replay?_eq {p : Program} {c : Config} {start state : State} {moves : List Move}
    (h : History p c start moves state) :
    Checked.replay? p c start.counted moves = some state.counted := by
  induction h with
  | nil => rfl
  | @snoc moves state earlier move last ih =>
    have hnext := Checked.next?_eq p c move
    rw [last.frames_eq] at hnext
    rw [Checked.replay?, List.foldlM_append]
    refine Eq.trans (congrArg (· >>= _) ih) ?_
    show (Checked.next? p c state.frames.length move >>= pure) = _
    rw [bind_pure, hnext]

end TieredJvm
