import TieredJvm.Proofs.Machine.Growth

/-!
# A bounded sink truncates

A request whose output fits in the sink does not notice that the sink is bounded. One whose output
does not fit fails for that, when it has written as much as fits (`bounded_output_truncates`).

The two machines are in the same state, but for the bound, until a write does not fit; then the one
with the bounded sink stops, and what the other writes from there on comes after the bytes that fit
(`State.Truncates`). Where in a text the bound falls does not matter. Neither does the number of
writes that an instruction makes: they come to one write of all their bytes (`Sink.writeAll_eq`).
-/

namespace TieredJvm

namespace Sink

/-- The sink with room for `n` bytes in all. -/
def bounded (s : Sink) (n : Nat) : Sink :=
  { s with capacity := some n }

variable {s : Sink} {n : Nat} {bytes : Array UInt8}

/-- A write that fits under the bound does not notice it. -/
theorem write_bounded_of_le (hopen : s.capacity = none)
    (hfits : (s.write bytes).written.size ≤ n) :
    (s.bounded n).write bytes = (s.write bytes).bounded n ∧
      (s.bounded n).outcome bytes = s.outcome bytes := by
  have hall := accepted_of_unbounded hopen bytes
  have hsame : (s.bounded n).accepted bytes = s.accepted bytes := by
    rw [write, hall, Array.size_append] at hfits
    rw [hall]
    show bytes.extract 0 (n - s.written.size) = bytes
    exact Array.extract_eq_self_of_le (by omega)
  constructor
  · rw [write, hsame]
    rfl
  · rw [outcome, hsame]
    rfl

/-- A write that does not fit under the bound fills the sink and fails. -/
theorem write_bounded_of_lt (hopen : s.capacity = none) (hroom : s.written.size ≤ n)
    (hover : n < (s.write bytes).written.size) :
    ((s.bounded n).write bytes).written.toList = (s.write bytes).written.toList.take n ∧
      (s.bounded n).outcome bytes = .error .full := by
  rw [write, accepted_of_unbounded hopen, Array.size_append] at hover
  constructor
  · show (s.written ++ bytes.extract 0 (n - s.written.size)).toList = _
    rw [write, accepted_of_unbounded hopen, Array.toList_append, Array.toList_append,
      List.take_append, List.take_of_length_le (by simpa using hroom)]
    simp
  · have hsize := size_accepted (s := s.bounded n) rfl bytes
    rw [outcome, if_neg]
    rw [hsize]
    show min (n - s.written.size) bytes.size ≠ bytes.size
    omega

end Sink

/-- The session with room for `n` bytes of output in all. -/
def Session.bounded (s : Session) (n : Nat) : Session :=
  { s with sink := s.sink.bounded n }

/-- Booking a call does not look at the sink. -/
theorem Session.book_bounded (s : Session) (policy : PromotionPolicy) (m : Method) (n : Nat) :
    (s.bounded n).book policy m = (s.book policy m).bounded n := by
  rw [book_eq, book_eq]
  show (if s.attempts policy m = true then _ else _) = _
  split
  · unfold compile
    split <;> rfl
  · rfl

/-! ## Turns -/

namespace Execute

/-- What comes of a turn with room for `n` bytes, if `r` comes of it with room for all: the same, or
the output is full. -/
inductive Truncates (n : Nat) (r : Session × Except Fault Effect) :
    Session × Except Fault Effect → Prop where
  /-- All bytes written so far fit. -/
  | fits (room : r.1.sink.written.size ≤ n) : Truncates n r (r.1.bounded n, r.2)
  /-- They do not, and those that do are written. -/
  | full {u : Session} (exceeds : n < r.1.sink.written.size)
      (first : u.sink.written.toList = r.1.sink.written.toList.take n) :
      Truncates n r (u, .error (.output .full))

variable {n : Nat}

/-- Executing an instruction with room for `n` bytes. -/
theorem execute_truncates (p : Program) {s : Session} (hopen : s.sink.capacity = none)
    (hroom : s.sink.written.size ≤ n) (f : Frame) (i : Instruction) :
    Truncates n (execute p s f i) (execute p (s.bounded n) f i) := by
  cases i with
  | new index =>
    have hsame : execute p (s.bounded n) f (.new index) =
        ((execute p s f (.new index)).1.bounded n, (execute p s f (.new index)).2) := by
      simp only [execute, new, Session.bounded]
      split
      · rfl
      · split <;> rfl
    have hsink : (execute p s f (.new index)).1.sink = s.sink := by
      simp only [execute, new]
      split
      · rfl
      · split <;> rfl
    rw [hsame]
    exact .fits (by rwa [hsink])
  | putField index =>
    simp only [execute, putField, Session.bounded]
    split
    · exact .fits hroom
    · exact .fits hroom
  | invokeSpecial index =>
    simp only [execute, invokeSpecial]
    split
    · exact .fits hroom
    · exact .fits hroom
  | invokeVirtual index =>
    simp only [execute, invokeVirtual, Sink.writeAll_eq]
    split
    · exact .fits hroom
    · next texts g _ =>
      -- Without a bound the text and what ends it are written; under the bound if both fit.
      generalize (texts.map fun text => text.toUTF8.data).foldr (· ++ ·) #[] = bytes
      have hok : s.sink.outcome bytes = .ok () := by
        rw [Sink.outcome, Sink.accepted_of_unbounded hopen, if_pos rfl]
      by_cases hfits : (s.sink.write bytes).written.size ≤ n
      · obtain ⟨hwrite, houtcome⟩ := Sink.write_bounded_of_le hopen hfits
        simp only [Session.bounded, hwrite, houtcome]
        exact .fits hfits
      · obtain ⟨hfirst, hfull⟩ := Sink.write_bounded_of_lt hopen hroom (Nat.lt_of_not_le hfits)
        simp only [Session.bounded, hfull]
        exact .full (Nat.lt_of_not_le hfits) hfirst
  | _ => exact .fits hroom

end Execute

/-- A turn with room for `n` bytes. -/
theorem Frame.turn_truncates (p : Program) {s : Session} {n : Nat}
    (hopen : s.sink.capacity = none) (hroom : s.sink.written.size ≤ n) (f : Frame) :
    Execute.Truncates n (f.turn p s) (f.turn p (s.bounded n)) := by
  unfold turn
  split
  · split
    · exact Execute.execute_truncates p (by exact hopen) (by exact hroom) f _
    · exact .fits hroom
  · exact .fits hroom

/-! ## States -/

namespace State

variable {c : Config}

/-- The state with room for `n` bytes of output in all. -/
def bounded (n : Nat) : State → State
  | running s top callers => running (s.bounded n) top callers
  | halted s outcome => halted (s.bounded n) outcome

/-- Closing frames does not look at the sink. -/
theorem unwind_bounded (s : Session) (fault : Fault) (active : List Method) (n : Nat) :
    unwind (s.bounded n) fault active = (unwind s fault active).bounded n := by
  induction active generalizing s with
  | nil => rfl
  | cons m active ih => exact ih (s.record (.unwinding m.name fault))

/-- Neither does handing over a value. -/
theorem deliver_bounded (s : Session) (m : Method) (value : Int32) (callers : List Frame)
    (n : Nat) : deliver (s.bounded n) m value callers = (deliver s m value callers).bounded n := by
  cases callers <;> rfl

/-- Neither does opening a frame. -/
theorem enter_bounded (s : Session) (m : Method) (args : List Int32) (callers : List Frame)
    (n : Nat) : enter c (s.bounded n) m args callers = (enter c s m args callers).bounded n := by
  unfold enter
  split
  · dsimp only
    split
    · rfl
    · exact unwind_bounded (s.record _) _ _ n
  · exact unwind_bounded s _ _ n

/-- Neither does calling a method. -/
theorem call_bounded (s : Session) (m : Method) (args : List Int32) (callers : List Frame)
    (n : Nat) : call c (s.bounded n) m args callers = (call c s m args callers).bounded n := by
  unfold call
  rw [Session.book_bounded]
  have hprofile : ((s.book c.promotion m).bounded n).profile m.key =
      (s.book c.promotion m).profile m.key := rfl
  split
  · exact unwind_bounded s _ _ n
  · dsimp only
    rw [hprofile]
    split
    · exact deliver_bounded ((s.book c.promotion m).record _) m _ callers n
    · exact enter_bounded _ m args callers n
    · exact enter_bounded _ m args callers n

/-- Neither does anything that can follow from a turn. -/
theorem apply_bounded (m : Method) (next : Nat) (callers : List Frame) (s : Session)
    (r : Except Fault Effect) (n : Nat) :
    apply c m next callers (s.bounded n, r) = (apply c m next callers (s, r)).bounded n := by
  match r with
  | .error fault => exact unwind_bounded s fault _ n
  | .ok (.proceed f) => rfl
  | .ok (.jump f target) => rfl
  | .ok (.call callee args f) => exact call_bounded s callee args _ n
  | .ok (.finish value) => exact deliver_bounded (s.record _) m value callers n

/-- Calling a method writes nothing. -/
theorem sink_call (s : Session) (m : Method) (args : List Int32) (callers : List Frame) :
    (call c s m args callers).session.sink = s.sink := by
  have hpasses := (call_passes c s m args callers).sink
  split at hpasses
  · rw [hpasses, Session.sink_book]
  · exact hpasses

/-- What follows from a turn writes nothing. -/
theorem sink_apply (m : Method) (next : Nat) (callers : List Frame)
    (r : Session × Except Fault Effect) :
    (apply c m next callers r).session.sink = r.1.sink := by
  rcases apply_passes c m next callers r with hpasses | ⟨callee, hpasses⟩
  · exact hpasses.sink
  · rw [hpasses.sink, Session.sink_book]

/-- What a machine with room for `n` bytes has come to, when one with room for all is in a state: to
the same, or to a halt with the first `n` bytes. -/
inductive Truncates (n : Nat) (state : State) : State → Prop where
  /-- All bytes written so far fit. -/
  | fits (room : state.session.sink.written.size ≤ n) : Truncates n state (state.bounded n)
  /-- They do not, and those that do are written. -/
  | full {u : Session} (exceeds : n < state.session.sink.written.size)
      (first : u.sink.written.toList = state.session.sink.written.toList.take n) :
      Truncates n state (halted u (.error (.output .full)))

variable {n : Nat}

/-- What follows from a turn on both machines. -/
theorem apply_truncates {r r' : Session × Except Fault Effect} (h : Execute.Truncates n r r')
    (m : Method) (next : Nat) (callers : List Frame) :
    Truncates n (apply c m next callers r) (apply c m next callers r') := by
  have hsink := sink_apply (c := c) m next callers r
  cases h with
  | fits room =>
    rw [apply_bounded]
    exact .fits (by rwa [hsink])
  | @full u exceeds first =>
    have hunwound := (unwind_passes u (.output .full) (m :: callers.map Frame.method)).sink
    refine .full (by rwa [hsink]) ?_
    rw [hsink, ← first]
    exact congrArg (fun sink => sink.written.toList) hunwound

/-- A step on both machines. -/
theorem step_truncates (p : Program) {state state' : State}
    (hopen : state.session.sink.capacity = none) (h : Truncates n state state') :
    Truncates n (step p c state) (step p c state') := by
  cases h with
  | fits room =>
    cases state with
    | halted s outcome => exact .fits room
    | running s f callers =>
      rw [bounded, step_running, step_running]
      exact apply_truncates (f.turn_truncates p hopen room) f.method _ callers
  | full exceeds first =>
    -- What is written after the first bytes comes after them.
    obtain ⟨more, hmore⟩ := (grows_step p c state).written
    rw [← Array.length_toList] at exceeds
    refine .full ?_ ?_
    · rw [← Array.length_toList, ← hmore, List.length_append]
      omega
    · rw [first, ← hmore, List.take_append_of_le_length (by omega)]

/-- A run on both machines. -/
theorem advance_truncates (p : Program) (fuel : Nat) {state state' : State}
    (hopen : state.session.sink.capacity = none) (h : Truncates n state state') :
    Truncates n (advance p c fuel state) (advance p c fuel state') := by
  induction fuel generalizing state state' with
  | zero => exact h
  | succ fuel ih =>
    rw [advance_succ, advance_succ]
    refine ih ?_ (step_truncates p hopen h)
    rw [(grows_step p c state).capacity, hopen]

/-- The start of a request on both machines. -/
theorem start_truncates (p : Program) {s : Session} (hroom : s.sink.written.size ≤ n)
    (r : Request) : Truncates n (r.start p c s) (r.start p c (s.bounded n)) := by
  cases r with
  | run =>
    simp only [Request.start]
    split
    · rw [call_bounded]
      exact .fits (by rwa [sink_call])
    · exact .fits hroom
  | invoke key args =>
    simp only [Request.start]
    split
    · rw [call_bounded]
      exact .fits (by rwa [sink_call])
    · exact .fits hroom
  | interpret key args =>
    simp only [Request.start]
    split
    · rw [enter_bounded]
      exact .fits (by rwa [(enter_passes c s _ _ _).sink])
    · exact .fits hroom

end State

/-- A call that prints goes on, or fails for the sink, or fails and has printed nothing. -/
theorem Execute.invokeVirtual_cases (p : Program) (s : Session) (f : Frame) (index : UInt16) :
    (∃ g, (execute p s f (.invokeVirtual index)).2 = .ok (.proceed g)) ∨
      (∃ cause, (execute p s f (.invokeVirtual index)).2 = .error (.output cause)) ∨
      (∃ fault, (execute p s f (.invokeVirtual index)).2 = .error fault) ∧
        (execute p s f (.invokeVirtual index)).1.sink = s.sink := by
  simp only [execute, invokeVirtual]
  split
  · next fault _ => exact .inr (.inr ⟨⟨fault, rfl⟩, rfl⟩)
  · next text g _ =>
    dsimp only
    split
    · exact .inl ⟨g, rfl⟩
    · next cause _ => exact .inr (.inl ⟨cause, rfl⟩)

/-- A frame that prints, and raises a fault that is not the sink's, writes nothing. -/
theorem State.sink_step_of_fault {p : Program} {c : Config} {s : Session} {f : Frame}
    {callers : List Frame} {index : UInt16} {fault : Fault}
    (hinstr : f.instruction? = some (.invokeVirtual index))
    (hfault : (step p c (running s f callers)).fault? = some fault)
    (hother : ∀ cause, fault ≠ .output cause) :
    (step p c (running s f callers)).session.sink = s.sink := by
  obtain ⟨pc, op, x, y, after, hnext⟩ :=
    Move.next_of_instruction? (p := p) (c := c) hinstr s callers
  rw [show step p c (running s f callers) = _ from hnext] at hfault ⊢
  rw [sink_apply]
  have hcases := Execute.invokeVirtual_cases p (s.record (.executing pc op x y)) f index
  generalize execute p (s.record (.executing pc op x y)) f (.invokeVirtual index) = r
    at hcases hfault
  obtain ⟨t, result⟩ := r
  rcases hcases with ⟨g, hok⟩ | ⟨cause, herror⟩ | ⟨-, hsink⟩
  · cases hok
    cases hfault
  · cases herror
    cases hfault
    exact absurd rfl (hother cause)
  · exact hsink

/-- A bounded sink truncates, and nothing else. Take any request, from any session whose sink has no
bound, that ends, and the bytes that it writes. With room for all of them it ends in the same way if
the sink is bounded: with the same result, and in the same session but for the bound. With less room
it ends with the fault of the full sink, and has written as many of these bytes as there is room
for. And whatever the sink, a frame that prints and raises another fault than the sink's writes
nothing. -/
theorem bounded_output_truncates (p : Program) (c : Config) (s : Session)
    (hopen : s.sink.capacity = none) (r : Request) (fuel : Nat) (t : Session)
    (outcome : Except Fault Int32) (hend : r.perform p c fuel s = some (t, outcome)) :
    (∃ bytes, t.sink.written.toList = s.sink.written.toList ++ bytes ∧
      ∀ room,
        (bytes.length ≤ room →
          r.perform p c fuel (s.bounded (s.sink.written.size + room)) =
            some (t.bounded (s.sink.written.size + room), outcome)) ∧
        (room < bytes.length →
          ∃ u, r.perform p c fuel (s.bounded (s.sink.written.size + room)) =
              some (u, .error (.output .full)) ∧
            u.sink.written.toList = s.sink.written.toList ++ bytes.take room)) ∧
      ∀ (u : Session) (f : Frame) (callers : List Frame) (index : UInt16) (fault : Fault),
        f.instruction? = some (.invokeVirtual index) →
        (State.step p c (.running u f callers)).fault? = some fault →
        (∀ cause, fault ≠ .output cause) →
          (State.step p c (.running u f callers)).session.sink = u.sink := by
  refine ⟨?_, fun u f callers index fault => State.sink_step_of_fault⟩
  obtain ⟨result, hhalted, rfl⟩ := Request.perform_eq_some.1 hend
  obtain ⟨bytes, hbytes⟩ := (Request.grows_perform hend).written
  have hsize : t.sink.written.size = s.sink.written.size + bytes.length := by
    rw [← Array.length_toList, ← hbytes, List.length_append, Array.length_toList]
  refine ⟨bytes, hbytes.symm, fun room => ?_⟩
  have hstart := State.start_truncates (c := c) p (Nat.le_add_right s.sink.written.size room) r
  have hopen' : (r.start p c s).session.sink.capacity = none := by
    rw [(State.grows_start p c s r).capacity, hopen]
  have htruncates := State.advance_truncates (c := c) p fuel hopen' hstart
  rw [hhalted] at htruncates
  generalize hstate : State.advance p c fuel
    (r.start p c (s.bounded (s.sink.written.size + room))) = state at htruncates
  cases htruncates with
  | fits hroom =>
    have hroom : t.sink.written.size ≤ s.sink.written.size + room := hroom
    refine ⟨fun _ => ?_, fun hover => by omega⟩
    -- The flush at the end of a run does not look at the bound.
    refine Request.perform_eq_some.2 ⟨result, hstate, ?_⟩
    cases r <;> rfl
  | full hover hfirst =>
    have hover : s.sink.written.size + room < t.sink.written.size := hover
    refine ⟨fun hroom => by omega, fun _ => ⟨_, Request.perform_eq_some.2 ⟨_, hstate, ?_⟩, ?_⟩⟩
    · cases r <;> rfl
    · rw [hfirst]
      show t.sink.written.toList.take _ = _
      rw [← hbytes, List.take_append, List.take_of_length_le (by simp), Array.length_toList,
        Nat.add_sub_cancel_left]

/-- A method that prints a line, and then the empty text. -/
def Method.greet : Method where
  key := ⟨"greet", "()V"⟩
  signature := ⟨[], none⟩
  ofDescriptor_eq := by cbv
  code := #[0xb2, 0x00, 0x01, 0x12, 0x0b, 0xb6, 0x00, 0x06,
    0xb2, 0x00, 0x01, 0x12, 0x0d, 0xb6, 0x00, 0x09, 0xb1]
  maxStack := 2
  maxLocals := 0

/-- The program whose one method is `greet`. -/
def Program.greeting : Program :=
  ⟨.ofList [.utf8 "Main", .classRef 1, .utf8 "println", .utf8 "(Ljava/lang/String;)V",
    .nameAndType 3 4, .methodRef 2 5, .utf8 "print", .nameAndType 7 4, .methodRef 2 8, .utf8 "hi",
    .string 10, .utf8 "", .string 12], [Method.greet], by decide⟩

/-- The line that `greet` prints takes three bytes, and the empty text none. With room for three
bytes nothing is missing; with room for two the end of the line does not fit. -/
theorem bounded_output_truncates_greet :
    ∃ t, Request.perform .greeting {} 10 {} (.invoke Method.greet.key []) = some (t, .ok 0) ∧
      t.sink.written.toList = [0x68, 0x69, 0x0a] ∧
      Request.perform .greeting {} 10 (Session.bounded {} 3) (.invoke Method.greet.key []) =
        some (t.bounded 3, .ok 0) ∧
      ∃ u, Request.perform .greeting {} 10 (Session.bounded {} 2) (.invoke Method.greet.key []) =
          some (u, .error (.output .full)) ∧
        u.sink.written.toList = [0x68, 0x69] := by
  have hend : (Request.perform .greeting {} 10 {} (.invoke Method.greet.key [])).map
      (fun e => (e.1.sink.written.toList, e.2)) = some ([0x68, 0x69, 0x0a], .ok 0) := by
    decide +kernel
  obtain ⟨⟨t, _⟩, hend, hends⟩ := Option.map_eq_some_iff.1 hend
  obtain ⟨hwritten, rfl⟩ := Prod.mk.inj hends
  have hwritten : t.sink.written.toList = [0x68, 0x69, 0x0a] := hwritten
  obtain ⟨⟨bytes, hbytes, hrooms⟩, -⟩ :=
    bounded_output_truncates .greeting {} {} rfl _ 10 t _ hend
  obtain rfl : bytes = [0x68, 0x69, 0x0a] := by rw [← hwritten, hbytes]; rfl
  obtain ⟨u, hfull, hfirst⟩ := (hrooms 2).2 (by decide)
  exact ⟨t, hend, hwritten, (hrooms 3).1 (by decide), u, hfull, hfirst⟩

end TieredJvm
