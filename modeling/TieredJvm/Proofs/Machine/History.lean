import TieredJvm.Proofs.Machine.Effects
import TieredJvm.Proofs.Promotion.Booking

/-!
# Histories

What the machine does in one session, move by move: it takes up a request when the last one has
ended, or takes a step while one is carried out. A `History` is the list of the moves made, so what
a session owes to its past can be said by counting or searching the moves. Every request that ends
is part of one (`History.of_perform`).

`Move.Leads` says once what a move can come to: a call with its bookkeeping, a frame asked for
without it, or work inside the frame on top, which ends the frame, goes on in it or closes all
frames. Invariants of histories are proved by its cases. What the parts of a move leave alone is
said by two relations between sessions: `Session.Works` for the work of an instruction, and
`Session.Passes` for opening frames, closing them and handing over values.
-/

namespace TieredJvm

/-! ## The journal by subject -/

namespace Journal

/-- The events of a kind that the journal keeps, in order. -/
def about (j : Journal) (q : Event → Bool) : List Event :=
  j.events.toList.filter q

/-- Telling of an event leaves the level of detail. -/
@[simp] theorem keeps_record (j : Journal) (e : Event) (level : Level) :
    (j.record e).keeps level = j.keeps level := by
  unfold record
  split <;> rfl

/-- An event of the kind is added to the others, if its level is kept. -/
theorem about_record_of_pos (j : Journal) {e : Event} {q : Event → Bool} (h : q e = true) :
    (j.record e).about q = j.about q ++ if j.keeps e.level then [e] else [] := by
  unfold record about
  split
  · rw [Array.toList_push, List.filter_append, List.filter_cons_of_pos h, List.filter_nil]
  · rw [List.append_nil]

/-- An event of another kind is not added. -/
theorem about_record_of_neg (j : Journal) {e : Event} {q : Event → Bool} (h : q e = false) :
    (j.record e).about q = j.about q := by
  unfold record about
  split
  · rw [Array.toList_push, List.filter_append, List.filter_cons_of_neg (by simp [h]),
      List.filter_nil, List.append_nil]
  · rfl

/-- The journal `j'` is `j` with nothing new but events of a kind. -/
structure Adds (kind : Event → Bool) (j j' : Journal) : Prop where
  /-- The level of detail is the same. -/
  keeps : ∀ level, j'.keeps level = j.keeps level
  /-- What is told of other things is the same. -/
  about : ∀ q : Event → Bool, (∀ e, kind e = true → q e = false) → j'.about q = j.about q

/-- Nothing is told of. -/
theorem Adds.refl (kind : Event → Bool) (j : Journal) : j.Adds kind j :=
  ⟨fun _ => rfl, fun _ _ => rfl⟩

/-- One thing is told of after another. -/
theorem Adds.trans {kind : Event → Bool} {j j' j'' : Journal} (h : j.Adds kind j')
    (h' : j'.Adds kind j'') : j.Adds kind j'' where
  keeps level := (h'.keeps level).trans (h.keeps level)
  about q hq := (h'.about q hq).trans (h.about q hq)

/-- Events of a kind are events of a wider kind. -/
theorem Adds.mono {kind kind' : Event → Bool} {j j' : Journal} (h : j.Adds kind j')
    (hkind : ∀ e, kind e = true → kind' e = true) : j.Adds kind' j' where
  keeps := h.keeps
  about q hq := h.about q fun e he => hq e (hkind e he)

/-- An event of the kind is told of. -/
theorem adds_record (j : Journal) {kind : Event → Bool} {e : Event} (h : kind e = true) :
    j.Adds kind (j.record e) where
  keeps := j.keeps_record e
  about _ hq := j.about_record_of_neg (hq e h)

end Journal

namespace Event

/-- Whether an event tells of work inside a frame. -/
def isWork : Event → Bool
  | executing .. | allocated .. | skipped .. => true
  | _ => false

/-- Whether an event tells how control passes from one method to another. -/
def isControl : Event → Bool
  | entering .. | leaving .. | unwinding .. | nativeReturned .. => true
  | _ => false

end Event

namespace Session

/-! ## Work inside a frame -/

/-- The session `t` is `s` after some work inside a frame: what is remembered about the methods is
the same, and the journal tells of nothing new but the work. -/
structure Works (s t : Session) : Prop where
  /-- What is remembered about the methods is the same. -/
  profiles : t.profiles = s.profiles
  /-- Only the work is told of. -/
  journal : s.journal.Adds Event.isWork t.journal

/-- No work is done. -/
theorem Works.refl (s : Session) : Works s s := ⟨rfl, .refl _ _⟩

/-- Work follows on work. -/
theorem Works.trans {s t u : Session} (hst : Works s t) (htu : Works t u) : Works s u :=
  ⟨htu.profiles.trans hst.profiles, hst.journal.trans htu.journal⟩

/-- What is remembered about a method is the same after some work. -/
theorem Works.profile {s t : Session} (h : Works s t) (key : MethodKey) :
    t.profile key = s.profile key := by
  rw [Session.profile, Session.profile, h.profiles]

/-- Work is told of. -/
theorem works_record (s : Session) {e : Event} (h : e.isWork = true) : Works s (s.record e) :=
  ⟨rfl, s.journal.adds_record h⟩

/-- Executing an instruction is work. -/
theorem works_execute (p : Program) (s : Session) (f : Frame) (i : Instruction) :
    Works s (execute p s f i).1 := by
  have hself := Works.refl s
  cases i with
  -- Writing to the heap or to the output is told of afterwards, or not at all.
  | new index =>
    simp only [execute, Execute.new]
    split
    · exact hself
    · next className _ =>
      split
      · exact hself
      · next reference heap _ =>
        have htold := s.works_record (e := .allocated className reference) rfl
        exact ⟨rfl, htold.journal⟩
  | putField index =>
    simp only [execute, Execute.putField]
    split
    · exact hself
    · exact ⟨rfl, .refl _ _⟩
  | invokeVirtual index =>
    simp only [execute, Execute.invokeVirtual]
    split
    · exact hself
    · exact ⟨rfl, .refl _ _⟩
  | invokeSpecial index =>
    simp only [execute, Execute.invokeSpecial]
    split
    · exact hself
    · next member g _ => exact s.works_record (e := .skipped member) rfl
  | _ => exact hself

end Session

/-! ## Passing control -/

/-- The session `t` is `s` after control was passed on, apart from the bookkeeping of a call:
nothing has changed but the journal, which tells of it. -/
structure Session.Passes (s t : Session) : Prop extends s.Untouched t where
  /-- Only the passing of control is told of. -/
  journal : s.journal.Adds Event.isControl t.journal

namespace Session

/-- Control stays. -/
theorem Passes.refl (s : Session) : Passes s s := ⟨.refl s, .refl _ _⟩

/-- Control is passed on again. -/
theorem Passes.trans {s t u : Session} (hst : Passes s t) (htu : Passes t u) : Passes s u :=
  ⟨hst.toUntouched.trans htu.toUntouched, hst.journal.trans htu.journal⟩

/-- The passing of control is told of. -/
theorem passes_record (s : Session) {e : Event} (h : e.isControl = true) :
    Passes s (s.record e) :=
  ⟨s.untouched_record e, s.journal.adds_record h⟩

end Session

namespace State

/-- The session of a state. -/
def session : State → Session
  | running s _ _ => s
  | halted s _ => s

/-- The frames that are open in a state, the innermost first. -/
def frames : State → List Frame
  | running _ top callers => top :: callers
  | halted _ _ => []

/-- The fault with which the call from outside has ended, if it has ended with one. -/
def fault? : State → Option Fault
  | halted _ (.error fault) => some fault
  | _ => none

/-- The machine before the first request, which stands as after one. -/
def idle (s : Session) : State :=
  halted s (.ok 0)

/-- A fault closes all frames. -/
theorem unwind_passes (s : Session) (fault : Fault) (active : List Method) :
    s.Passes (unwind s fault active).session := by
  induction active generalizing s with
  | nil => exact .refl s
  | cons m active ih => exact (s.passes_record rfl).trans (ih _)

/-- The caller that is handed a value is the same activation, with the value on its stack unless
the method called is void. -/
theorem deliver_cons (m : Method) (value : Int32) (f : Frame) :
    ∃ g, f.Same g ∧ ∀ s callers, deliver s m value (f :: callers) = running s g callers := by
  refine ⟨if m.signature.returnsValue then f.push value else f, ?_, fun _ _ => rfl⟩
  split
  · exact (Frame.Same.refl f).push value
  · exact .refl f

/-- A value is handed over. -/
theorem deliver_passes (s : Session) (m : Method) (value : Int32) (callers : List Frame) :
    s.Passes (deliver s m value callers).session := by
  cases callers <;> exact .refl s

/-- A frame is closed. -/
theorem leave_passes (s : Session) (m : Method) (value : Int32) (callers : List Frame) :
    s.Passes (leave s m value callers).session :=
  (s.passes_record rfl).trans (deliver_passes _ m value callers)

/-- A frame is opened, or refused. -/
theorem enter_passes (c : Config) (s : Session) (m : Method) (args : List Int32)
    (callers : List Frame) : s.Passes (enter c s m args callers).session := by
  unfold enter
  split
  · dsimp only
    split
    · exact s.passes_record rfl
    · exact (s.passes_record rfl).trans (unwind_passes _ _ _)
  · exact unwind_passes s _ _

/-- A call is booked if its arguments fit, and then control is passed on. -/
theorem call_passes (c : Config) (s : Session) (m : Method) (args : List Int32)
    (callers : List Frame) :
    (if args.length ≤ m.maxLocals then s.book c.promotion m else s).Passes
      (call c s m args callers).session := by
  unfold call Frame.checkArity
  by_cases hargs : args.length ≤ m.maxLocals
  · rw [if_pos hargs, if_pos hargs]
    dsimp only
    split
    · exact (Session.passes_record _ rfl).trans (deliver_passes _ m _ callers)
    · exact enter_passes c _ m args callers
    · exact enter_passes c _ m args callers
  · rw [if_neg hargs, if_neg hargs]
    exact unwind_passes s _ _

/-- After the work of a frame control is passed on, and a call is booked first if there is one. -/
theorem apply_passes (c : Config) (m : Method) (next : Nat) (callers : List Frame)
    (r : Session × Except Fault Effect) :
    r.1.Passes (apply c m next callers r).session ∨
      ∃ callee, (r.1.book c.promotion callee).Passes (apply c m next callers r).session := by
  match r with
  | (s, .error fault) => exact .inl (unwind_passes s fault _)
  | (s, .ok (.proceed f)) => exact .inl (.refl s)
  | (s, .ok (.jump f target)) => exact .inl (.refl s)
  | (s, .ok (.finish value)) => exact .inl (leave_passes s m value callers)
  | (s, .ok (.call callee args f)) =>
    have hpasses := call_passes c s callee args ({ f with pc := next } :: callers)
    split at hpasses
    · exact .inr ⟨callee, hpasses⟩
    · exact .inl hpasses

end State

/-! ## Moves -/

/-- The instruction before which a frame stands, if there is one that can be read. -/
def Frame.instruction? (f : Frame) : Option Instruction :=
  if h : f.pc < f.method.code.size then
    match fetch f.method.code f.pc h with
    | .ok ⟨op, x, y⟩ => some (.decode op x y)
    | .error _ => none
  else none

/-- Something that the machine does. -/
inductive Move where
  /-- A request is taken up. -/
  | ask (s : Session) (r : Request)
  /-- The frame on top executes an instruction, or ends with its code. -/
  | step (s : Session) (top : Frame) (callers : List Frame)

/-- The call that an effect announces. -/
def Effect.call? : Effect → Option (Method × List Int32)
  | .call callee args _ => some (callee, args)
  | .proceed _ | .jump _ _ | .finish _ => none

namespace Move

/-- The session in which a move is made. -/
def session : Move → Session
  | ask s _ => s
  | step s _ _ => s

/-- The frames that are open when a move is made, the innermost first. -/
def frames : Move → List Frame
  | ask _ _ => []
  | step _ top callers => top :: callers

/-- The state to which a move leads. -/
def next (p : Program) (c : Config) : Move → State
  | ask s r => r.start p c s
  | step s top callers => State.step p c (.running s top callers)

/-- The states in which a move can be made: a request is taken up when the last one has ended. -/
inductive From : Move → State → Prop where
  | ask (s : Session) (outcome : Except Fault Int32) (r : Request) :
    From (.ask s r) (.halted s outcome)
  | step (s : Session) (top : Frame) (callers : List Frame) :
    From (.step s top callers) (.running s top callers)

/-- A move is made in the session of the state. -/
theorem From.session_eq {move : Move} {state : State} (h : move.From state) :
    move.session = state.session := by
  cases h <;> rfl

/-- The frames that are open when a move is made are those of the state. -/
theorem From.frames_eq {move : Move} {state : State} (h : move.From state) :
    move.frames = state.frames := by
  cases h <;> rfl

/-- The method that a move calls, and the arguments. To interpret a method is not to call it. -/
def call? (p : Program) : Move → Option (Method × List Int32)
  | ask _ .run => p.entryPoint.toOption.map fun m => (m, [])
  | ask _ (.invoke key args) => (p.find? key).map fun m => (m, args)
  | ask _ (.interpret _ _) => none
  | step s top _ => do
    let i ← top.instruction?
    let effect ← (execute p s top i).2.toOption
    effect.call?

/-- The method of which a move books a call: a call with more arguments than the method has local
variables is refused before. -/
def booked? (p : Program) (move : Move) : Option Method := do
  let (m, args) ← move.call? p
  if args.length ≤ m.maxLocals then some m else none

/-- The method for which a move asks for a frame: one that is to be interpreted, or one that is
called and has no native code when the call is booked. -/
def frameFor? (p : Program) (c : Config) : Move → Option Method
  | ask _ (.interpret key _) => p.find? key
  | move => do
    let m ← move.booked? p
    match move.session.bookedSlot c.promotion m with
    | .native _ => none
    | .untried | .ineligible => some m

end Move

/-! ## What a move can come to -/

/-- What a move can come to. -/
inductive Move.Leads (p : Program) (c : Config) : Move → State → Prop where
  /-- There is no such method. -/
  | refuse {s : Session} {r : Request} {fault : Fault} (call : (ask s r).call? p = none)
      (entry : (ask s r).frameFor? p c = none) (other : ∀ n, fault ≠ .callDepthExceeded n) :
      Leads p c (ask s r) (.halted s (.error fault))
  /-- A frame is asked for without a call. -/
  | interpret {s : Session} {key : MethodKey} {args : List Int32} {m : Method}
      (find : p.find? key = some m) :
      Leads p c (ask s (.interpret key args)) (.enter c s m args [])
  /-- A method of the program is called. -/
  | call {move : Move} {t : Session} {m : Method} {args : List Int32} {callers : List Frame}
      (call : move.call? p = some (m, args)) (find : p.find? m.key = some m)
      (works : move.session.Works t)
      (callers_eq : callers.map Frame.method = move.frames.map Frame.method) :
      Leads p c move (.call c t m args callers)
  /-- The frame on top raises a fault. -/
  | fault {s t : Session} {f : Frame} {callers : List Frame} {fault : Fault}
      (call : (step s f callers).call? p = none) (works : s.Works t)
      (other : ∀ n, fault ≠ .callDepthExceeded n) :
      Leads p c (step s f callers) (.unwind t fault (f.method :: callers.map Frame.method))
  /-- The frame on top goes on. -/
  | proceed {s t : Session} {f g : Frame} {callers : List Frame}
      (call : (step s f callers).call? p = none) (works : s.Works t)
      (method : g.method = f.method) : Leads p c (step s f callers) (.running t g callers)
  /-- The frame on top ends. -/
  | finish {s t : Session} {f : Frame} {callers : List Frame} {value : Int32}
      (call : (step s f callers).call? p = none) (works : s.Works t) :
      Leads p c (step s f callers) (.leave t f.method value callers)

namespace Move

variable {p : Program} {c : Config}

/-- Where nothing is called, nothing is booked. -/
theorem booked?_of_call?_eq_none {move : Move} (h : move.call? p = none) :
    move.booked? p = none := by
  rw [booked?, h]
  rfl

/-- A call is booked if its arguments fit. -/
theorem booked?_of_call {move : Move} {m : Method} {args : List Int32}
    (h : move.call? p = some (m, args)) :
    move.booked? p = if args.length ≤ m.maxLocals then some m else none := by
  rw [booked?, h]
  rfl

/-- A call asks for a frame by what is in the slot of the method when the call is booked. -/
theorem frameFor?_of_call?_eq_some {move : Move} {m : Method} {args : List Int32}
    (h : move.call? p = some (m, args)) :
    move.frameFor? p c = (move.booked? p).bind fun m =>
      match move.session.bookedSlot c.promotion m with
      | .native _ => none
      | .untried | .ineligible => some m := by
  cases move with
  | step s f callers => rfl
  | ask s r =>
    cases r with
    | interpret key args => cases h
    | run => rfl
    | invoke key args => rfl

/-- A frame with no instruction to read calls nothing. -/
theorem call?_of_instruction?_eq_none {f : Frame} (h : f.instruction? = none) (s : Session)
    (callers : List Frame) : (step s f callers).call? p = none := by
  rw [call?, h]
  rfl

/-- A frame calls what the effect of its instruction announces. -/
theorem call?_of_effect {f : Frame} {i : Instruction} (h : f.instruction? = some i) {s : Session}
    {effect : Effect} (he : (execute p s f i).2 = .ok effect) (callers : List Frame) :
    (step s f callers).call? p = effect.call? := by
  rw [call?, h]
  show ((execute p s f i).2.toOption.bind Effect.call?) = effect.call?
  rw [he]
  rfl

/-- A frame whose instruction fails calls nothing. -/
theorem call?_of_fault {f : Frame} {i : Instruction} (h : f.instruction? = some i) {s : Session}
    {fault : Fault} (he : (execute p s f i).2 = .error fault) (callers : List Frame) :
    (step s f callers).call? p = none := by
  rw [call?, h]
  show ((execute p s f i).2.toOption.bind Effect.call?) = none
  rw [he]
  rfl

/-- A fault of reading an instruction is not about the number of frames. -/
theorem fetch_other {code : Array UInt8} {pc : Nat} {h : pc < code.size} {fault : Fault}
    (he : fetch code pc h = .error fault) (n : Nat) : fault ≠ .callDepthExceeded n := by
  unfold fetch at he
  split at he
  · cases he
    exact fun h => by cases h
  · split at he
    · cases he
    · cases he
      exact fun h => by cases h

/-- What an instruction comes to. -/
theorem leads_execute {s t : Session} {f : Frame} {i : Instruction}
    (hinstr : f.instruction? = some i) (hwork : s.Works t) (hheap : t.heap = s.heap)
    (hsink : t.sink = s.sink) (callers : List Frame) (after : Nat) :
    Leads p c (step s f callers) (.apply c f.method after callers (execute p t f i)) := by
  -- The effect is the same whatever was told of before.
  obtain ⟨heffect, -, -⟩ := execute_congr p hheap hsink f i
  have hworks := hwork.trans (Session.works_execute p t f i)
  have hwithin := execute_within p t f i
  have hcalls := execute_calls p t f i
  generalize execute p t f i = result at heffect hworks hwithin hcalls
  obtain ⟨u, r⟩ := result
  dsimp only at heffect hworks hwithin hcalls
  match r, heffect, hwithin, hcalls with
  | .error fault, heffect, hwithin, _ =>
    refine .fault (call?_of_fault hinstr heffect.symm callers) hworks ?_
    rintro n rfl
    exact hwithin
  | .ok (.proceed g), heffect, hwithin, _ =>
    exact .proceed (call?_of_effect hinstr heffect.symm callers) hworks hwithin.method
  | .ok (.jump g target), heffect, hwithin, _ =>
    exact .proceed (call?_of_effect hinstr heffect.symm callers) hworks hwithin.1.method
  | .ok (.finish value), heffect, _, _ =>
    exact .finish (call?_of_effect hinstr heffect.symm callers) hworks
  | .ok (.call callee args g), heffect, hwithin, hcalls =>
    refine .call (call?_of_effect hinstr heffect.symm callers) hcalls.1 hworks ?_
    exact congrArg (· :: callers.map Frame.method) hwithin.method

/-- A frame that stands before an instruction tells of it and executes it. -/
theorem next_of_instruction? {f : Frame} {i : Instruction} (h : f.instruction? = some i)
    (s : Session) (callers : List Frame) :
    ∃ pc op x y after, (step s f callers).next p c =
      .apply c f.method after callers (execute p (s.record (.executing pc op x y)) f i) := by
  unfold Frame.instruction? at h
  split at h
  · next hpc =>
    split at h
    · next op x y hfetch =>
      cases h
      exact ⟨_, _, _, _, _, State.step_of_fetch_ok p c s f callers hpc hfetch⟩
    · cases h
  · cases h

/-- A frame that stands before no instruction is closed, by a value or by a fault. -/
theorem next_of_instruction?_eq_none {f : Frame} (h : f.instruction? = none) (s : Session)
    (callers : List Frame) :
    (step s f callers).next p c = .leave s f.method 0 callers ∨
      ∃ fault, (∀ n, fault ≠ .callDepthExceeded n) ∧
        (step s f callers).next p c =
          .unwind s fault (f.method :: callers.map Frame.method) := by
  unfold Frame.instruction? at h
  split at h
  · next hpc =>
    split at h
    · cases h
    · next fault hfetch =>
      exact .inr ⟨fault, fetch_other hfetch, State.step_of_fetch_error p c s f callers hpc hfetch⟩
  · next hpc => exact .inl (State.step_of_end p c s f callers hpc)

/-- What a step comes to. -/
theorem leads_step (s : Session) (f : Frame) (callers : List Frame) :
    Leads p c (step s f callers) ((step s f callers).next p c) := by
  cases hinstr : f.instruction? with
  | some i =>
    obtain ⟨pc, op, x, y, after, hnext⟩ :=
      next_of_instruction? (p := p) (c := c) hinstr s callers
    rw [hnext]
    have hworks := s.works_record (e := .executing pc op x y) rfl
    refine leads_execute hinstr hworks ?_ ?_ callers after
    · rfl
    · rfl
  | none =>
    have hcall := call?_of_instruction?_eq_none (p := p) hinstr s callers
    obtain hnext | ⟨fault, hother, hnext⟩ :=
      next_of_instruction?_eq_none (p := p) (c := c) hinstr s callers
    · rw [hnext]
      exact .finish hcall (.refl s)
    · rw [hnext]
      exact .fault hcall (.refl s) hother

/-- What a request comes to at its start. -/
theorem leads_ask (s : Session) (r : Request) : Leads p c (ask s r) ((ask s r).next p c) := by
  cases r with
  | run =>
    simp only [next, Request.start]
    cases hentry : p.entryPoint with
    | ok m =>
      refine .call ?_ (Program.entryPoint_eq_ok hentry).1 (.refl s) rfl
      rw [call?, hentry]
      rfl
    | error cause =>
      have hcall : (ask s .run).call? p = none := by
        rw [call?, hentry]
        rfl
      refine .refuse hcall ?_ (fun n h => by cases h)
      simp [frameFor?, booked?_of_call?_eq_none hcall]
  | invoke key args =>
    simp only [next, Request.start]
    cases hfind : p.find? key with
    | some m =>
      refine .call ?_ ?_ (.refl s) rfl
      · rw [call?, hfind]
        rfl
      · rw [Program.key_of_find? hfind, hfind]
    | none =>
      have hcall : (ask s (.invoke key args)).call? p = none := by
        rw [call?, hfind]
        rfl
      refine .refuse hcall ?_ (fun n h => by cases h)
      simp [frameFor?, booked?_of_call?_eq_none hcall]
  | interpret key args =>
    simp only [next, Request.start]
    cases hfind : p.find? key with
    | some m => exact .interpret hfind
    | none => exact .refuse rfl hfind (fun n h => by cases h)

/-- What a move comes to. -/
theorem leads (p : Program) (c : Config) (move : Move) : Leads p c move (move.next p c) := by
  cases move with
  | ask s r => exact leads_ask s r
  | step s f callers => exact leads_step s f callers

end Move

/-! ## Histories -/

/-- The moves, made one after another from the first state on, lead to the second state. -/
inductive History (p : Program) (c : Config) (start : State) : List Move → State → Prop where
  /-- Nothing is done. -/
  | nil : History p c start [] start
  /-- One more move is made. -/
  | snoc {moves : List Move} {state : State} (earlier : History p c start moves state) {move : Move}
      (last : move.From state) : History p c start (moves ++ [move]) (move.next p c)

namespace History

variable {p : Program} {c : Config} {start state state' : State} {moves moves' : List Move}

/-- One history follows another. -/
theorem append (h : History p c start moves state) (h' : History p c state moves' state') :
    History p c start (moves ++ moves') state' := by
  induction h' with
  | nil => rwa [List.append_nil]
  | snoc earlier last ih =>
    rw [← List.append_assoc]
    exact ih.snoc last

/-- The steps of a run make a history. -/
theorem of_advance (p : Program) (c : Config) (n : Nat) (state : State) :
    ∃ moves, History p c state moves (State.advance p c n state) := by
  induction n generalizing state with
  | zero => exact ⟨[], .nil⟩
  | succ n ih =>
    cases state with
    | halted s outcome => exact ⟨[], by rw [State.advance_halted]; exact .nil⟩
    | running s f callers =>
      obtain ⟨moves, hmoves⟩ := ih (State.step p c (.running s f callers))
      have hfirst : History p c (.running s f callers) ([] ++ [.step s f callers])
          (State.step p c (.running s f callers)) := History.nil.snoc (.step s f callers)
      exact ⟨_, hfirst.append hmoves⟩

/-- A request that ends makes a history, from where it is taken up to its end. -/
theorem of_perform {s t : Session} {r : Request} {fuel : Nat} {result : Except Fault Int32}
    (h : r.perform p c fuel s = some (t, result)) (outcome : Except Fault Int32) :
    ∃ moves outcome', History p c (.halted s outcome) (.ask s r :: moves) (.halted t outcome') := by
  unfold Request.perform at h
  obtain ⟨moves, hmoves⟩ := of_advance p c fuel (r.start p c s)
  have hask : History p c (.halted s outcome) [.ask s r] (r.start p c s) :=
    History.nil.snoc (.ask s outcome r)
  cases hend : State.advance p c fuel (r.start p c s) with
  | running u f callers =>
    rw [hend] at h
    cases h
  | halted u outcome' =>
    rw [hend] at h hmoves
    cases h
    exact ⟨_, outcome', hask.append hmoves⟩

end History

end TieredJvm
