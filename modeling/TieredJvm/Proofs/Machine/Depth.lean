import Mathlib.Algebra.Ring.Int.Defs
import TieredJvm.Proofs.Machine.Checked

/-!
# The discipline of frames

Frames are opened and closed like brackets, whatever ends the calls from outside. The journal tells
of each frame that is opened, with its depth, and of each that is closed, by a value or by a fault;
counted up and down, these messages give the number of open frames at every moment, in a whole
session and not only within one call (`Journal.depth`). So does the counter of the machine that
keeps one (`Checked.replay?`). The messages of a call that has ended are a sequence of brackets in
the sense of `FrameLog.Balanced`. All of this is `frame_discipline`.

While a call is carried out some frames are still open: `FrameLog.Open` describes the messages by
the frames whose closing is still to come. `State.Disciplined` says that these are the frames of the
machine. A fault closes all of them at once, so what matters there is that they are closed from the
innermost on (`Session.Logs.unwind`).
-/

namespace TieredJvm

/-! ## Messages about frames -/

namespace Event

/-- Whether an event tells that a frame is opened or closed. -/
def isFrame : Event → Bool
  | entering .. | leaving .. | unwinding .. => true
  | _ => false

/-- What an event does to the count of open frames. -/
def depthChange : Event → Int
  | entering .. => 1
  | leaving .. | unwinding .. => -1
  | _ => 0

/-- The event tells that a frame of the method of that name is closed. -/
inductive Closes (name : String) : Event → Prop where
  /-- It is closed with a value. -/
  | leaving (value : Int32) : Closes name (.leaving name value)
  /-- It is closed by a fault. -/
  | unwinding (fault : Fault) : Closes name (.unwinding name fault)

/-- Events that are not about frames do not count. -/
theorem depthChange_of_not_isFrame {e : Event} (h : e.isFrame = false) : e.depthChange = 0 := by
  cases e with
  | entering | leaving | unwinding => cases h
  | _ => rfl

/-- Closing a frame counts it down. -/
theorem Closes.depthChange {name : String} {e : Event} (h : e.Closes name) :
    e.depthChange = -1 := by
  cases h <;> rfl

/-- Closing a frame is about a frame. -/
theorem Closes.isFrame {name : String} {e : Event} (h : e.Closes name) : e.isFrame = true := by
  cases h <;> rfl

/-- The closing of a frame is told of at the level at which its opening is. -/
theorem Closes.level {name : String} {e : Event} (h : e.Closes name) : e.level = .debug := by
  cases h <;> rfl

end Event

namespace FrameLog

/-- The count of open frames after some events, if there was none before. -/
def depth (events : List Event) : Int :=
  (events.map Event.depthChange).sum

/-- Counting goes on where it stopped. -/
theorem depth_append (xs ys : List Event) : depth (xs ++ ys) = depth xs + depth ys := by
  rw [depth, List.map_append, List.sum_append, depth, depth]

/-- One event more counts what it counts. -/
theorem depth_cons (e : Event) (events : List Event) :
    depth (e :: events) = e.depthChange + depth events := by
  rw [depth, List.map_cons, List.sum_cons, depth]

/-- Only the messages about frames count. -/
theorem depth_filter (events : List Event) :
    depth (events.filter Event.isFrame) = depth events := by
  induction events with
  | nil => rfl
  | cons e rest ih =>
    cases h : e.isFrame with
    | true => rw [List.filter_cons_of_pos h, depth_cons, depth_cons, ih]
    | false =>
      have hzero := Event.depthChange_of_not_isFrame h
      rw [List.filter_cons_of_neg (by simp [h]), depth_cons, ih, hzero, Int.zero_add]

/-- Brackets above `level` open frames: every frame that is opened is told of with the depth at
which it is, at most `limit`, and after the brackets inside it one message tells that it is closed,
with the name of the same method. -/
inductive Balanced (limit : Nat) : (level : Nat) → List Event → Prop where
  /-- No frame is opened. -/
  | nil {level : Nat} : Balanced limit level []
  /-- A frame is opened and closed, and then others. -/
  | frame {level : Nat} {inner rest : List Event} {close : Event} (key : MethodKey)
      (room : level + 1 ≤ limit) (inside : Balanced limit (level + 1) inner)
      (closes : close.Closes key.name) (others : Balanced limit level rest) :
      Balanced limit level (.entering key (level + 1) :: inner ++ close :: rest)

/-- Brackets follow on brackets. -/
theorem Balanced.append {limit level : Nat} {xs ys : List Event} (h : Balanced limit level xs)
    (h' : Balanced limit level ys) : Balanced limit level (xs ++ ys) := by
  induction h with
  | nil => exact h'
  | frame key room inside closes others _ ih =>
    rw [List.append_assoc, List.cons_append]
    exact .frame key room inside closes (ih h')

/-- Brackets leave the count as it was. -/
theorem Balanced.depth_eq {limit level : Nat} {events : List Event}
    (h : Balanced limit level events) : depth events = 0 := by
  induction h with
  | nil => rfl
  | frame key room inside closes others hinner hrest =>
    rw [List.cons_append, depth_cons, depth_append, depth_cons, hinner, hrest, closes.depthChange]
    rfl

/-- The messages while frames of the methods in `live` are open, the innermost first: brackets, and
between them the opening of each of these frames. -/
inductive Open (limit : Nat) : (live : List Method) → List Event → Prop where
  /-- No frame is open. -/
  | none {events : List Event} (before : Balanced limit 0 events) : Open limit [] events
  /-- One more frame is open, and some were opened in it and closed again. -/
  | frame {live : List Method} {events inner : List Event} (m : Method)
      (outside : Open limit live events) (room : live.length + 1 ≤ limit)
      (inside : Balanced limit (live.length + 1) inner) :
      Open limit (m :: live) (events ++ .entering m.key (live.length + 1) :: inner)

/-- There are as many open frames as are counted. -/
theorem Open.depth_eq {limit : Nat} {live : List Method} {events : List Event}
    (h : Open limit live events) : depth events = live.length := by
  induction h with
  | none before => exact before.depth_eq
  | frame m outside room inside ih =>
    rw [depth_append, depth_cons, ih, inside.depth_eq, List.length_cons]
    rfl

/-- There are no more open frames than there may be. -/
theorem Open.length_le {limit : Nat} {live : List Method} {events : List Event}
    (h : Open limit live events) : live.length ≤ limit := by
  cases h with
  | none before => exact Nat.zero_le limit
  | frame m outside room inside => exact room

/-- Brackets at the depth of the open frames leave these frames open. -/
theorem Open.append {limit : Nat} {live : List Method} {events more : List Event}
    (h : Open limit live events) (h' : Balanced limit live.length more) :
    Open limit live (events ++ more) := by
  cases h with
  | none before => exact .none (before.append h')
  | frame m outside room inside =>
    rw [List.append_assoc, List.cons_append]
    exact .frame m outside room (inside.append h')

/-- A frame is opened. -/
theorem Open.enter {limit : Nat} {live : List Method} {events : List Event}
    (h : Open limit live events) (m : Method) (room : live.length + 1 ≤ limit) :
    Open limit (m :: live) (events ++ [.entering m.key (live.length + 1)]) :=
  .frame m h room .nil

/-- The innermost frame is closed. -/
theorem Open.close {limit : Nat} {m : Method} {live : List Method} {events : List Event}
    (h : Open limit (m :: live) events) {e : Event} (he : e.Closes m.name) :
    Open limit live (events ++ [e]) := by
  cases h with
  | frame m outside room inside =>
    rw [List.append_assoc, List.cons_append]
    exact outside.append (.frame m.key room inside he .nil)

end FrameLog

/-- The count of open frames: those that the journal tells of as opened, less those that it tells
of as closed. -/
def Journal.depth (j : Journal) : Int :=
  FrameLog.depth j.events.toList

/-! ## Sessions -/

namespace Session

open FrameLog

/-- Since the messages about frames were `base`, the session has told of frames like brackets, if
such messages are `kept`, and the frames of the methods in `live` are still open. -/
structure Logs (limit : Nat) (kept : Bool) (base : List Event) (live : List Method) (s : Session) :
    Prop where
  /-- Whether the journal keeps such messages. -/
  keeps : s.journal.keeps .debug = kept
  /-- The messages since then. -/
  about : ∃ events, Open limit live events ∧
    s.journal.about Event.isFrame = base ++ if kept then events else []

variable {limit : Nat} {kept : Bool} {base : List Event} {live : List Method} {s t : Session}

/-- A session that tells the same of frames logs the same. -/
theorem Logs.congr (h : s.Logs limit kept base live)
    (hkeeps : t.journal.keeps .debug = s.journal.keeps .debug)
    (habout : t.journal.about Event.isFrame = s.journal.about Event.isFrame) :
    t.Logs limit kept base live := by
  obtain ⟨hkept, events, hopen, hevents⟩ := h
  exact ⟨hkeeps.trans hkept, events, hopen, habout.trans hevents⟩

/-- Work inside a frame opens and closes none. -/
theorem Logs.works (h : s.Logs limit kept base live) (hworks : s.Works t) :
    t.Logs limit kept base live := by
  refine h.congr (hworks.journal.keeps .debug) (hworks.journal.about _ fun e he => ?_)
  cases e with
  | executing | allocated | skipped => rfl
  | _ => cases he

/-- Neither does telling of other things. -/
theorem Logs.record (h : s.Logs limit kept base live) {e : Event} (he : e.isFrame = false) :
    (s.record e).Logs limit kept base live :=
  h.congr (s.journal.keeps_record e .debug) (s.journal.about_record_of_neg he)

/-- Neither does booking a call. -/
theorem Logs.book (h : s.Logs limit kept base live) (policy : PromotionPolicy) (m : Method) :
    (s.book policy m).Logs limit kept base live := by
  have hother : (Event.ofInstall m.key (m.install .host)).isFrame = false := by
    cases m.install .host <;> rfl
  have hjournal := s.journal_book policy m
  split at hjournal
  · have htold := h.record hother
    refine htold.congr ?_ ?_ <;> rw [hjournal] <;> rfl
  · refine h.congr ?_ ?_ <;> rw [hjournal]

/-- Telling of a frame adds the message, at the level of such messages. -/
theorem Logs.tell {live' : List Method} {e : Event} (h : s.Logs limit kept base live)
    (he : e.isFrame = true) (hlevel : e.level = .debug)
    (hopen : ∀ events, Open limit live events → Open limit live' (events ++ [e])) :
    (s.record e).Logs limit kept base live' := by
  obtain ⟨hkept, events, hevents, habout⟩ := h
  have hadd : (s.record e).journal.about Event.isFrame =
      s.journal.about Event.isFrame ++ if s.journal.keeps e.level then [e] else [] :=
    s.journal.about_record_of_pos he
  refine ⟨(s.journal.keeps_record e .debug).trans hkept, events ++ [e], hopen events hevents, ?_⟩
  rw [hadd, habout, hlevel, hkept]
  cases kept with
  | true => exact List.append_assoc base events [e]
  | false => exact List.append_nil _

/-- A frame is opened. -/
theorem Logs.enter (h : s.Logs limit kept base live) (m : Method) (room : live.length + 1 ≤ limit) :
    (s.record (.entering m.key (live.length + 1))).Logs limit kept base (m :: live) := by
  refine h.tell ?_ ?_ fun events hopen => hopen.enter m room
  · rfl
  · rfl

/-- The innermost frame is closed. -/
theorem Logs.close {m : Method} (h : s.Logs limit kept base (m :: live)) {e : Event}
    (he : e.Closes m.name) : (s.record e).Logs limit kept base live :=
  h.tell he.isFrame he.level fun _ hopen => hopen.close he

/-- A fault closes all frames, the innermost first. -/
theorem Logs.unwind (fault : Fault) (h : s.Logs limit kept base live) :
    (live.foldl (fun s m => s.record (.unwinding m.name fault)) s).Logs limit kept base [] := by
  induction live generalizing s with
  | nil => exact h
  | cons m live ih => exact ih (h.close (.unwinding fault))

end Session

/-! ## States -/

namespace State

/-- The frames of a state are those that the journal tells of as open. -/
def Disciplined (limit : Nat) (kept : Bool) (base : List Event) (state : State) : Prop :=
  state.session.Logs limit kept base (state.frames.map Frame.method)

variable {c : Config} {kept : Bool} {base : List Event} {s : Session}

/-- The number of frames is bounded. -/
theorem Disciplined.length_le {limit : Nat} {state : State}
    (h : state.Disciplined limit kept base) : state.frames.length ≤ limit := by
  obtain ⟨-, events, hopen, -⟩ := h
  have hle := hopen.length_le
  rwa [List.length_map] at hle

/-- Closing all frames leaves none. -/
theorem unwind_disciplined {limit : Nat} {live : List Method} (h : s.Logs limit kept base live)
    (fault : Fault) : (unwind s fault live).Disciplined limit kept base :=
  h.unwind fault

/-- Handing over a value leaves the callers. -/
theorem deliver_disciplined {limit : Nat} {callers : List Frame}
    (h : s.Logs limit kept base (callers.map Frame.method)) (m : Method) (value : Int32) :
    (deliver s m value callers).Disciplined limit kept base := by
  cases callers with
  | nil => exact h
  | cons f callers =>
    obtain ⟨g, hsame, hdeliver⟩ := deliver_cons m value f
    rw [hdeliver]
    show s.Logs limit kept base (g.method :: callers.map Frame.method)
    rw [hsame.method]
    exact h

/-- Closing the frame on top leaves its callers. -/
theorem leave_disciplined {limit : Nat} {m : Method} {callers : List Frame}
    (h : s.Logs limit kept base (m :: callers.map Frame.method)) (value : Int32) :
    (leave s m value callers).Disciplined limit kept base :=
  deliver_disciplined (h.close (.leaving value)) m value

/-- Opening a frame keeps the discipline, also where the arguments do not fit and the frame is
closed again at once. -/
theorem enter_disciplined {callers : List Frame}
    (h : s.Logs c.maxCallDepth kept base (callers.map Frame.method)) (m : Method)
    (args : List Int32) : (enter c s m args callers).Disciplined c.maxCallDepth kept base := by
  have hinitial := Frame.initial_spec m args
  unfold enter
  split
  · next hroom =>
    have hentered := h.enter m (by rwa [List.length_map])
    rw [List.length_map] at hentered
    dsimp only
    split
    · next f hok =>
      rw [hok] at hinitial
      obtain ⟨-, rfl⟩ := hinitial
      exact hentered
    · exact unwind_disciplined hentered _
  · exact unwind_disciplined h _

/-- Calling a method keeps the discipline; native code takes no frame. -/
theorem call_disciplined {callers : List Frame}
    (h : s.Logs c.maxCallDepth kept base (callers.map Frame.method)) (m : Method)
    (args : List Int32) : (call c s m args callers).Disciplined c.maxCallDepth kept base := by
  have hbooked := h.book c.promotion m
  unfold call
  split
  · exact unwind_disciplined h _
  · dsimp only
    split
    · exact deliver_disciplined (hbooked.record rfl) m _
    · exact enter_disciplined hbooked m args
    · exact enter_disciplined hbooked m args

end State

/-- A move keeps the discipline of frames. -/
theorem Move.next_disciplined {p : Program} {c : Config} {kept : Bool} {base : List Event}
    {move : Move}
    (h : move.session.Logs c.maxCallDepth kept base (move.frames.map Frame.method)) :
    (move.next p c).Disciplined c.maxCallDepth kept base := by
  have hleads := move.leads p c
  generalize move.next p c = state at hleads
  cases hleads with
  | refuse call entry other => exact h
  | interpret find => exact State.enter_disciplined h _ _
  | call call find works callers_eq =>
    rw [← callers_eq] at h
    exact State.call_disciplined (h.works works) _ _
  | fault call works other => exact State.unwind_disciplined (h.works works) _
  | proceed call works method =>
    have hworked := h.works works
    rw [Move.frames, List.map_cons, ← method] at hworked
    exact hworked
  | finish call works => exact State.leave_disciplined (h.works works) _

/-- Frames are disciplined throughout a history that starts without frames. -/
theorem History.disciplined {p : Program} {c : Config} {s : Session}
    {outcome : Except Fault Int32} {moves : List Move} {state : State}
    (h : History p c (.halted s outcome) moves state) :
    state.Disciplined c.maxCallDepth (s.journal.keeps .debug)
      (s.journal.about Event.isFrame) := by
  induction h with
  | nil =>
    refine ⟨rfl, [], .none .nil, ?_⟩
    rw [ite_self, List.append_nil]
    rfl
  | snoc earlier last ih =>
    refine Move.next_disciplined ?_
    rw [last.session_eq, last.frames_eq]
    exact ih

/-- If the journal keeps messages about frames, and had none at first, its count is the number of
frames. -/
theorem State.Disciplined.depth_eq {limit : Nat} {state : State}
    (h : state.Disciplined limit true []) :
    state.session.journal.depth = state.frames.length := by
  obtain ⟨-, events, hopen, habout⟩ := h
  rw [if_pos rfl, List.nil_append] at habout
  have hcount := hopen.depth_eq
  rw [List.length_map] at hcount
  rw [Journal.depth, ← FrameLog.depth_filter, ← hcount, ← habout]
  rfl

/-! ## The limit of depth -/

namespace State

variable {c : Config} {s : Session} {m : Method} {args : List Int32} {callers : List Frame}

/-- Handing over a value raises no fault. -/
theorem fault?_deliver (s : Session) (m : Method) (value : Int32) (callers : List Frame) :
    (deliver s m value callers).fault? = none := by
  cases callers <;> rfl

/-- Asking for a frame is refused for its depth exactly if there are as many frames as there may
be. -/
theorem fault?_enter (n : Nat) :
    (enter c s m args callers).fault? = some (.callDepthExceeded n) ↔
      n = c.maxCallDepth ∧ c.maxCallDepth ≤ callers.length := by
  have hinitial := Frame.initial_spec m args
  unfold enter
  split
  · constructor
    · -- A frame that is opened can only be refused for its arguments.
      intro h
      dsimp only at h
      split at h
      · cases h
      · next fault hfault =>
        rw [hfault] at hinitial
        rw [show fault = _ from hinitial] at h
        cases h
    · rintro ⟨-, hle⟩
      omega
  · next hfull =>
    constructor
    · intro h
      cases h
      exact ⟨rfl, Nat.le_of_not_lt hfull⟩
    · rintro ⟨rfl, -⟩
      rfl

/-- A call is refused for its depth exactly if its arguments fit, it comes to a frame, and there
are as many frames as there may be. -/
theorem fault?_call (n : Nat) :
    (call c s m args callers).fault? = some (.callDepthExceeded n) ↔
      (args.length ≤ m.maxLocals ∧ ∀ entry, s.bookedSlot c.promotion m ≠ .native entry) ∧
        n = c.maxCallDepth ∧ c.maxCallDepth ≤ callers.length := by
  have hcheck := Frame.checkArity_spec m args.length
  have hslot := s.slot_book_self c.promotion m
  unfold call
  split
  · next fault hfault =>
    rw [hfault] at hcheck
    rw [show fault = _ from hcheck]
    unfold Frame.checkArity at hfault
    constructor
    · intro h
      cases h
    · rintro ⟨⟨hargs, -⟩, -⟩
      rw [if_pos hargs] at hfault
      cases hfault
  · next hok =>
    rw [hok] at hcheck
    dsimp only
    rw [hslot]
    cases s.bookedSlot c.promotion m with
    | native entry =>
      rw [fault?_deliver]
      constructor
      · intro h
        cases h
      · rintro ⟨⟨-, hnative⟩, -⟩
        exact absurd rfl (hnative entry)
    | untried =>
      rw [fault?_enter]
      exact ⟨fun h => ⟨⟨hcheck, fun _ h => by cases h⟩, h⟩, fun h => h.2⟩
    | ineligible =>
      rw [fault?_enter]
      exact ⟨fun h => ⟨⟨hcheck, fun _ h => by cases h⟩, h⟩, fun h => h.2⟩

end State

namespace Move

variable {p : Program} {c : Config} {move : Move} {m : Method} {args : List Int32}

/-- A call asks for a frame exactly if its arguments fit and there is no native code. -/
theorem frameFor?_of_call (h : move.call? p = some (m, args)) :
    (∃ m', move.frameFor? p c = some m') ↔
      args.length ≤ m.maxLocals ∧
        ∀ entry, move.session.bookedSlot c.promotion m ≠ .native entry := by
  rw [frameFor?_of_call?_eq_some h, booked?_of_call h]
  split
  · next hargs =>
    rw [Option.bind_some]
    cases move.session.bookedSlot c.promotion m with
    | native entry => simp
    | untried => simp [hargs]
    | ineligible => simp [hargs]
  · next hargs => simp [hargs]

/-- A frame that does not call asks for no frame. -/
theorem frameFor?_of_not_call {s : Session} {f : Frame} {callers : List Frame}
    (h : (step s f callers).call? p = none) : (step s f callers).frameFor? p c = none := by
  simp [frameFor?, booked?_of_call?_eq_none h]

/-- A move is refused for its depth exactly if it asks for a frame while there are as many frames
as there may be. -/
theorem fault?_next (n : Nat) :
    (move.next p c).fault? = some (.callDepthExceeded n) ↔
      (∃ m, move.frameFor? p c = some m) ∧ n = c.maxCallDepth ∧
        c.maxCallDepth ≤ move.frames.length := by
  have hleads := move.leads p c
  generalize move.next p c = state at hleads
  cases hleads with
  | refuse call entry other =>
    rw [entry]
    simpa [State.fault?] using other n
  | @interpret s key args m find =>
    have hframe : (ask s (.interpret key args)).frameFor? p c = some m := find
    rw [State.fault?_enter, hframe]
    simp [frames]
  | @call move t m args callers call find works callers_eq =>
    have hlength : callers.length = move.frames.length := by
      simpa using congrArg List.length callers_eq
    have hslot : t.bookedSlot c.promotion m = move.session.bookedSlot c.promotion m := by
      rw [Session.bookedSlot, Session.bookedSlot, works.profile]
    rw [State.fault?_call, frameFor?_of_call call, hslot, hlength]
  | fault call works other =>
    rw [frameFor?_of_not_call call]
    simpa [State.fault?, State.unwind] using other n
  | proceed call works method =>
    rw [frameFor?_of_not_call call]
    simp [State.fault?]
  | finish call works =>
    rw [frameFor?_of_not_call call, State.leave, State.fault?_deliver]
    simp

end Move

/-- The discipline of frames. Whatever requests are carried out from the start on, and however they
end, the following holds at every moment. The count of open frames, as the journal keeps it if it
keeps messages about frames at all, is the number of frames of the machine, and there are no more
of them than there may be. The machine that counts its frames up and down makes the same moves, and
its counter is that number too. What is done next is refused for its depth exactly if it asks for a
frame while there are as many as there may be. And between requests, where there is no frame, a
request that ends adds nothing but brackets to the messages about frames, and leaves the count at
zero, and the counter as well. -/
theorem frame_discipline (p : Program) (c : Config) (sink : Sink) (detail : Option Level)
    (moves : List Move) (state : State)
    (h : History p c (.idle { sink, journal := { detail } }) moves state) :
    (Journal.keeps { detail } .debug = true →
        state.session.journal.depth = state.frames.length) ∧
      state.frames.length ≤ c.maxCallDepth ∧
      Checked.replay? p c (.idle { sink, journal := { detail } }, 0) moves =
        some (state, state.frames.length) ∧
      (∀ (move : Move) (n : Nat), move.From state →
        ((move.next p c).fault? = some (.callDepthExceeded n) ↔
          (∃ m, move.frameFor? p c = some m) ∧ n = c.maxCallDepth ∧
            state.frames.length = c.maxCallDepth)) ∧
      ∀ s outcome, state = .halted s outcome → ∀ r fuel t result,
        Request.perform p c fuel s r = some (t, result) →
          (Journal.keeps { detail } .debug = true → s.journal.depth = 0 ∧ t.journal.depth = 0) ∧
            (∃ moves' outcome', Checked.replay? p c (.halted s outcome, 0) (.ask s r :: moves') =
              some (.halted t outcome', 0)) ∧
            ∃ messages,
              t.journal.about Event.isFrame = s.journal.about Event.isFrame ++ messages ∧
                FrameLog.Balanced c.maxCallDepth 0 messages := by
  have hcount {moves : List Move} {state : State}
      (h : History p c (.idle { sink, journal := { detail } }) moves state)
      (hkeeps : Journal.keeps { detail } .debug = true) :
      state.session.journal.depth = state.frames.length := by
    have hdisciplined := h.disciplined
    rw [hkeeps] at hdisciplined
    exact hdisciplined.depth_eq
  have hlength := h.disciplined.length_le
  refine ⟨hcount h, hlength, h.replay?_eq, ?_, ?_⟩
  · intro move n hfrom
    rw [Move.fault?_next, hfrom.frames_eq]
    have hfull : c.maxCallDepth ≤ state.frames.length ↔ state.frames.length = c.maxCallDepth := by
      omega
    rw [hfull]
  · rintro s outcome rfl r fuel t result hend
    obtain ⟨moves', outcome', hcall⟩ := History.of_perform hend outcome
    refine ⟨fun hkeeps => ⟨hcount h hkeeps, hcount (h.append hcall) hkeeps⟩,
      ⟨moves', outcome', hcall.replay?_eq⟩, ?_⟩
    obtain ⟨-, messages, hopen, habout⟩ := hcall.disciplined
    refine ⟨_, habout, ?_⟩
    cases hopen with
    | none before =>
      split
      · exact before
      · exact .nil

/-- A method that calls itself, without end. -/
def Method.spiral : Method where
  key := ⟨"spiral", "()I"⟩
  signature := ⟨[], some .int⟩
  ofDescriptor_eq := by cbv
  code := #[0xb8, 0x00, 0x06, 0xac]
  maxStack := 1
  maxLocals := 0

/-- The program whose one method is `spiral`. -/
def Program.spiralling : Program :=
  ⟨.ofList [.utf8 "Main", .classRef 1, .utf8 "spiral", .utf8 "()I", .nameAndType 3 4,
    .methodRef 2 5], [Method.spiral], by decide⟩

/-- With room for two frames, `spiral` comes to two, and is then refused a third. -/
theorem frame_discipline_spiral :
    ∃ moves s f callers,
      History .spiralling ⟨2, {}⟩ (.idle { journal := { detail := some .debug } }) moves
          (.running s f callers) ∧
        s.journal.depth = 2 ∧
        ((Move.step s f callers).next .spiralling ⟨2, {}⟩).fault? =
          some (.callDepthExceeded 2) := by
  have hnone : History .spiralling ⟨2, {}⟩ (.idle { journal := { detail := some .debug } }) []
      (.idle { journal := { detail := some .debug } }) := .nil
  have hfirst := hnone.snoc (.ask _ _ (.invoke Method.spiral.key []))
  have hsecond := hfirst.snoc (.step _ _ _)
  obtain ⟨hdepth, -, -, hrefused, -⟩ :=
    frame_discipline .spiralling ⟨2, {}⟩ {} (some .debug) _ _ hsecond
  refine ⟨_, _, _, _, hsecond, hdepth rfl, ?_⟩
  exact (hrefused _ 2 (.step _ _ _)).2 ⟨⟨Method.spiral, rfl⟩, rfl, rfl⟩

end TieredJvm
