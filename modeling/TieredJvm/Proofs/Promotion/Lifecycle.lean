import Mathlib.Algebra.Group.Nat.Defs
import TieredJvm.Proofs.Machine.History
import TieredJvm.Proofs.Register.Lowering

/-!
# The lifecycle of a method

What is remembered about a method follows from the history of the session alone
(`promotion_lifecycle`). The counter is the number of calls of the method that were booked, up to
the largest number that it holds. The slot is empty until the count reaches the threshold, or one if
the threshold is zero; it is filled in that very call and never again, with native code exactly if
the method can be lowered.

The invariant is `Session.Lived`, in which the slot and the messages about compiling are functions
of the count. Only the bookkeeping of a call touches them: `Move.next_booked` splits a move into
parts before and after it that do not.
-/

namespace TieredJvm

/-! ## What compiling comes to -/

/-- The code of a register program that does something has some bytes. -/
theorem X64.assemble_ne_nil {program : List RegisterOp} (h : program ≠ []) :
    X64.assemble program ≠ [] := by
  cases program with
  | nil => exact absurd rfl h
  | cons op ops =>
    cases op with
    | add dst src => exact List.cons_ne_nil _ _
    | ret src => exact List.cons_ne_nil _ _

/-- A method that is lowered is compiled for the host. -/
theorem Method.exists_install_of_lower {m : Method} {program : List RegisterOp}
    (h : m.lower = .ok program) : ∃ entry, m.install .host = .ok entry := by
  obtain ⟨-, s, src, -, -, hret⟩ := lower_eq_ok h
  have hcode : Target.host.assemble program ≠ [] :=
    X64.assemble_ne_nil (List.ne_nil_of_mem hret)
  refine ⟨⟨m.signature.args.length, program, ⟨Target.host.assemble program, hcode⟩⟩, ?_⟩
  unfold install
  rw [h]
  simp only [CodeRegion.install, dif_neg hcode, if_true]

namespace Slot

/-- Compiling a method always leaves something in its slot. -/
theorem ofInstall_ne_untried (r : Except CompileError NativeEntry) : ofInstall r ≠ .untried := by
  cases r <;> exact fun h => by cases h

/-- Compiling a method leaves native code exactly if the method is lowered. -/
theorem ofInstall_native_iff (m : Method) :
    (∃ entry, ofInstall (m.install .host) = .native entry) ↔
      ∃ program, m.lower = .ok program := by
  constructor
  · rintro ⟨entry, h⟩
    cases hinstall : m.install .host with
    | error cause =>
      rw [hinstall] at h
      cases h
    | ok entry' => exact ⟨_, (Method.install_eq_ok hinstall).1⟩
  · rintro ⟨program, hlower⟩
    obtain ⟨entry, hinstall⟩ := Method.exists_install_of_lower hlower
    exact ⟨entry, by rw [hinstall]; rfl⟩

end Slot

/-- Whether a method is due for compiling when it was called so often. A method that was never
called is not, whatever the threshold. -/
def PromotionPolicy.Due (policy : PromotionPolicy) (calls : Nat) : Prop :=
  policy.enabled = true ∧ max 1 policy.threshold ≤ calls

/-- Whether a method is due is decided by comparing numbers. -/
instance (policy : PromotionPolicy) (calls : Nat) : Decidable (policy.Due calls) :=
  inferInstanceAs (Decidable (_ ∧ _))

/-- A method that was called is due by the threshold alone. -/
theorem PromotionPolicy.due_iff (policy : PromotionPolicy) {calls : Nat} (h : 1 ≤ calls) :
    policy.Due calls ↔ policy.enabled = true ∧ policy.threshold ≤ calls :=
  and_congr_right fun _ => by omega

/-- A method that is due stays due. -/
theorem PromotionPolicy.Due.mono {policy : PromotionPolicy} {calls calls' : Nat}
    (h : policy.Due calls) (hle : calls ≤ calls') : policy.Due calls' :=
  ⟨h.1, Nat.le_trans h.2 hle⟩

/-- Whether an event tells what became of compiling a method. -/
def Event.isCompilation : Event → Bool
  | compiled .. | notCompiled .. => true
  | _ => false

/-- Whether an event tells what became of compiling the method of that key. -/
def Event.isCompiling (key : MethodKey) : Event → Bool
  | compiled key' _ | notCompiled key' _ => key' = key
  | _ => false

/-- What does not tell of compiling does not tell of compiling a certain method. -/
theorem Event.isCompiling_of_not_isCompilation (key : MethodKey) {e : Event}
    (h : (!e.isCompilation) = true) : e.isCompiling key = false := by
  cases e with
  | compiled | notCompiled => cases h
  | _ => rfl

/-- What is told of the outcome of compiling a method is about that method. -/
theorem Event.isCompiling_ofInstall (key key' : MethodKey) (r : Except CompileError NativeEntry) :
    (ofInstall key' r).isCompiling key = decide (key' = key) := by
  cases r <;> rfl

/-! ## The profile as a function of the past -/

namespace Session

/-- Of the two sessions, the second remembers the same about the methods as the first, and tells
of no more compiling. -/
structure Unbooked (s t : Session) : Prop where
  /-- What is remembered about the methods is the same. -/
  profiles : t.profiles = s.profiles
  /-- What is told of is something else than compiling. -/
  journal : s.journal.Adds (fun e => !e.isCompilation) t.journal

/-- Nothing is done. -/
theorem Unbooked.refl (s : Session) : Unbooked s s := ⟨rfl, .refl _ _⟩

/-- Work inside a frame books nothing. -/
theorem Works.unbooked {s t : Session} (h : s.Works t) : Unbooked s t := by
  refine ⟨h.profiles, h.journal.mono fun e he => ?_⟩
  cases e with
  | executing | allocated | skipped => rfl
  | _ => cases he

/-- Passing control on books nothing. -/
theorem Passes.unbooked {s t : Session} (h : s.Passes t) : Unbooked s t := by
  refine ⟨h.profiles, h.journal.mono fun e he => ?_⟩
  cases e with
  | entering | leaving | unwinding | nativeReturned => rfl
  | _ => cases he

/-- The past of a method, as the session remembers it: it was called so often, and compiling it was
attempted so often. -/
structure Lived (policy : PromotionPolicy) (m : Method) (calls attempts : Nat) (s : Session) :
    Prop where
  /-- The calls were counted, up to the largest number that the counter holds. -/
  calls : (s.profile m.key).calls = min Profile.maxCalls calls
  /-- The slot is filled if the method was due for it. -/
  slot : (s.profile m.key).slot =
    if policy.Due (s.profile m.key).calls then .ofInstall (m.install .host) else .untried
  /-- Compiling was attempted once if the method was due for it, and never otherwise. -/
  attempts : attempts = if policy.Due (s.profile m.key).calls then 1 else 0
  /-- What is told of compiling is told once. -/
  about : s.journal.about (Event.isCompiling m.key) =
    if policy.Due (s.profile m.key).calls ∧
        s.journal.keeps (Event.ofInstall m.key (m.install .host)).level = true then
      [.ofInstall m.key (m.install .host)] else []

variable {policy : PromotionPolicy} {m : Method} {calls attempts : Nat} {s t : Session}

/-- Where nothing is booked, the past stays. -/
theorem Lived.unbooked (h : s.Lived policy m calls attempts) (hst : Unbooked s t) :
    t.Lived policy m calls attempts := by
  have hprofile : t.profile m.key = s.profile m.key := by
    rw [profile, profile, hst.profiles]
  have habout : t.journal.about (Event.isCompiling m.key) =
      s.journal.about (Event.isCompiling m.key) :=
    hst.journal.about _ fun _ he => Event.isCompiling_of_not_isCompilation m.key he
  refine ⟨?_, ?_, ?_, ?_⟩
  · rw [hprofile, h.calls]
  · rw [hprofile, h.slot]
  · rw [hprofile, h.attempts]
  · rw [hprofile, habout, hst.journal.keeps, h.about]

/-- The count was not reached by more calls than it can hold. -/
theorem Lived.calls_le (h : s.Lived policy m calls attempts) :
    (s.profile m.key).calls ≤ Profile.maxCalls := by
  rw [h.calls]
  exact Nat.min_le_left _ _

/-- A call that is booked brings the count to at least one. -/
theorem one_le_count (q : Profile) : 1 ≤ q.count.calls := by
  unfold Profile.count Profile.maxCalls
  dsimp only
  omega

/-- A call that is booked does not bring the count down. -/
theorem Lived.calls_le_count (h : s.Lived policy m calls attempts) :
    (s.profile m.key).calls ≤ (s.profile m.key).count.calls := by
  have hle := h.calls_le
  unfold Profile.count
  dsimp only
  omega

/-- With the call that is booked, compiling is attempted exactly if the method is due now and was
not due before. -/
theorem Lived.attempts_iff (h : s.Lived policy m calls attempts) :
    s.attempts policy m = true ↔
      ¬policy.Due (s.profile m.key).calls ∧ policy.Due (s.profile m.key).count.calls := by
  have hslot := h.slot
  rw [policy.due_iff (one_le_count _)]
  unfold Session.attempts
  by_cases hdue : policy.Due (s.profile m.key).calls
  · -- The slot is filled, so nothing more is attempted.
    rw [if_pos hdue] at hslot
    rw [hslot]
    have hnot : ¬(¬policy.Due (s.profile m.key).calls ∧ policy.enabled = true ∧
        policy.threshold ≤ (s.profile m.key).count.calls) := fun h => h.1 hdue
    cases m.install .host <;> simp [Slot.ofInstall, hnot]
  · rw [if_neg hdue] at hslot
    rw [hslot]
    simp only [Bool.and_eq_true, PromotionPolicy.isHot, decide_eq_true_eq]
    exact ⟨fun hnow => ⟨hdue, hnow⟩, And.right⟩

/-- Booking a call fills the slot if compiling is attempted, and leaves it otherwise. -/
theorem bookedSlot_eq (s : Session) (policy : PromotionPolicy) (m : Method) :
    s.bookedSlot policy m =
      if s.attempts policy m then .ofInstall (m.install .host) else (s.profile m.key).slot := by
  have hcount : (s.profile m.key).count.slot = (s.profile m.key).slot := rfl
  unfold bookedSlot Session.attempts
  dsimp only
  rw [hcount]
  cases (s.profile m.key).slot <;> rfl

/-- Booking a call of the method makes its past longer by one call, and by one attempt at
compiling if this is the call with which it is due. -/
theorem Lived.book (h : s.Lived policy m calls attempts) :
    (s.book policy m).Lived policy m (calls + 1)
      (attempts + if s.attempts policy m then 1 else 0) := by
  have hself := (s.replaces_book policy m).self
  have hjournal := s.journal_book policy m
  have hcount : (s.profile m.key).count.calls = min Profile.maxCalls (calls + 1) := by
    have hcalls := h.calls
    unfold Profile.count
    dsimp only
    omega
  by_cases hattempts : s.attempts policy m = true
  · -- The method is due with this call: the slot is filled, and that is told of.
    obtain ⟨hbefore, hnow⟩ := h.attempts_iff.1 hattempts
    have hnone := h.about
    rw [if_neg fun hold => hbefore hold.1] at hnone
    have htells : (Event.ofInstall m.key (m.install .host)).isCompiling m.key = true := by
      rw [Event.isCompiling_ofInstall, decide_eq_true_eq]
    rw [if_pos hattempts] at hjournal
    refine ⟨?_, ?_, ?_, ?_⟩
    · rw [hself, hcount]
    · rw [hself, bookedSlot_eq, if_pos hattempts, if_pos hnow]
    · rw [hself, h.attempts, if_neg hbefore, if_pos hattempts, if_pos hnow]
    · rw [hself, hjournal, Journal.about_record_of_pos _ htells, Journal.keeps_record, hnone]
      simp only [hnow, true_and, List.nil_append]
  · -- Whether the method is due is as before, and so is all but the count.
    have hsame : policy.Due (s.profile m.key).count.calls ↔
        policy.Due (s.profile m.key).calls := by
      refine ⟨fun hnow => ?_, fun hold => hold.mono h.calls_le_count⟩
      refine Decidable.byContradiction fun hbefore => ?_
      exact hattempts (h.attempts_iff.2 ⟨hbefore, hnow⟩)
    rw [if_neg hattempts] at hjournal
    refine ⟨?_, ?_, ?_, ?_⟩
    · rw [hself, hcount]
    · rw [hself, bookedSlot_eq, if_neg hattempts, h.slot]
      simp only [hsame]
    · rw [hself, if_neg hattempts, Nat.add_zero, h.attempts]
      simp only [hsame]
    · rw [hself, hjournal, h.about]
      simp only [hsame]

/-- Booking a call of another method leaves the past. -/
theorem Lived.book_of_ne (h : s.Lived policy m calls attempts) {m' : Method}
    (hne : m'.key ≠ m.key) : (s.book policy m').Lived policy m calls attempts := by
  have hprofile := s.profile_book_of_ne policy (Ne.symm hne)
  have hother : (Event.ofInstall m'.key (m'.install .host)).isCompiling m.key = false := by
    rw [Event.isCompiling_ofInstall, decide_eq_false_iff_not]
    exact hne
  have habout : (s.book policy m').journal.about (Event.isCompiling m.key) =
      s.journal.about (Event.isCompiling m.key) := by
    rw [journal_book]
    split
    · exact s.journal.about_record_of_neg hother
    · rfl
  have hkeeps (level : Level) :
      (s.book policy m').journal.keeps level = s.journal.keeps level := by
    rw [journal_book]
    split
    · exact s.journal.keeps_record _ level
    · rfl
  refine ⟨?_, ?_, ?_, ?_⟩
  · rw [hprofile, h.calls]
  · rw [hprofile, h.slot]
  · rw [hprofile, h.attempts]
  · rw [hprofile, habout, hkeeps, h.about]

end Session

/-! ## Moves -/

/-- The session after the bookkeeping of a call, if there is one. -/
def Session.bookIf (policy : PromotionPolicy) (s : Session) : Option Method → Session
  | some m => s.book policy m
  | none => s

namespace Move

/-- Whether a move books a call of the method of that key. -/
def books (p : Program) (key : MethodKey) (move : Move) : Bool :=
  (move.booked? p).any (·.key = key)

/-- Whether a move attempts to compile the method of that key. -/
def compiles (p : Program) (c : Config) (key : MethodKey) (move : Move) : Bool :=
  (move.booked? p).any fun m => m.key = key && move.session.attempts c.promotion m

/-- What a move books is booked in between, and nothing else is. -/
theorem next_booked (p : Program) (c : Config) (move : Move) :
    ∃ t, move.session.Unbooked t ∧
      (t.bookIf c.promotion (move.booked? p)).Unbooked (move.next p c).session ∧
      ∀ m, move.booked? p = some m → p.find? m.key = some m := by
  have hleads := move.leads p c
  generalize move.next p c = state at hleads
  cases hleads with
  | @refuse s r fault call entry other =>
    rw [booked?_of_call?_eq_none call]
    exact ⟨s, .refl s, .refl s, fun _ h => by cases h⟩
  | @interpret s key args m find =>
    exact ⟨s, .refl s, (State.enter_passes c s m args []).unbooked, fun _ h => by cases h⟩
  | @call _ t m args callers call find works callers_eq =>
    have hcall := (State.call_passes c t m args callers).unbooked
    refine ⟨t, works.unbooked, ?_, ?_⟩
    · rw [booked?_of_call call]
      split at hcall
      · next hargs =>
        rw [if_pos hargs]
        exact hcall
      · next hargs =>
        rw [if_neg hargs]
        exact hcall
    · intro m' hm'
      rw [booked?_of_call call] at hm'
      split at hm'
      · cases hm'
        exact find
      · cases hm'
  | @fault s t f callers fault call works other =>
    rw [booked?_of_call?_eq_none call]
    exact ⟨t, works.unbooked, (State.unwind_passes t _ _).unbooked, fun _ h => by cases h⟩
  | @proceed s t f g callers call works method =>
    rw [booked?_of_call?_eq_none call]
    exact ⟨t, works.unbooked, .refl t, fun _ h => by cases h⟩
  | @finish s t f callers value call works =>
    rw [booked?_of_call?_eq_none call]
    exact ⟨t, works.unbooked, (State.leave_passes t _ _ _).unbooked, fun _ h => by cases h⟩

/-- A move makes the past of a method of the program longer by the call that it books. -/
theorem next_lived {p : Program} {c : Config} {move : Move} {m : Method}
    (hm : p.find? m.key = some m) {calls attempts : Nat}
    (h : move.session.Lived c.promotion m calls attempts) :
    (move.next p c).session.Lived c.promotion m
      (calls + if move.books p m.key then 1 else 0)
      (attempts + if move.compiles p c m.key then 1 else 0) := by
  obtain ⟨t, hbefore, hafter, hfind⟩ := move.next_booked p c
  have hsame : t.attempts c.promotion m = move.session.attempts c.promotion m := by
    have hprofile : t.profile m.key = move.session.profile m.key := by
      rw [Session.profile, Session.profile, hbefore.profiles]
    rw [Session.attempts, Session.attempts, hprofile]
  have ht := h.unbooked hbefore
  refine Session.Lived.unbooked ?_ hafter
  unfold books compiles
  cases hbooked : move.booked? p with
  | none => exact ht
  | some m' =>
    by_cases hkey : m'.key = m.key
    · -- The method that is booked under the key is the one of the program.
      have heq : m' = m := by
        have hm' := hfind m' hbooked
        rw [hkey, hm] at hm'
        exact (Option.some.inj hm').symm
      subst heq
      simpa [hsame, Session.bookIf] using ht.book
    · simpa [hkey, Session.bookIf] using ht.book_of_ne hkey

end Move

/-- Through a history from the start on, the past of a method is made of the calls booked and the
attempts made in it. -/
theorem History.lived {p : Program} {c : Config} {sink : Sink} {detail : Option Level}
    {moves : List Move} {state : State}
    (h : History p c (.idle { sink, journal := { detail } }) moves state) {m : Method}
    (hm : p.find? m.key = some m) :
    state.session.Lived c.promotion m (moves.countP (Move.books p m.key))
      (moves.countP (Move.compiles p c m.key)) := by
  induction h with
  | nil =>
    have hnever : ¬c.promotion.Due 0 := fun hdue => by
      have hle := hdue.2
      omega
    refine ⟨rfl, ?_, ?_, ?_⟩
    · exact (if_neg hnever).symm
    · exact (if_neg hnever).symm
    · exact (if_neg fun hdue => hnever hdue.1).symm
  | snoc earlier last ih =>
    rw [List.countP_append, List.countP_singleton, List.countP_append, List.countP_singleton]
    refine Move.next_lived hm ?_
    rw [last.session_eq]
    exact ih

/-- The count goes up only if a call is booked. -/
theorem History.books_of_calls_lt {p : Program} {c : Config} {sink : Sink} {detail : Option Level}
    {moves : List Move} {state : State}
    (h : History p c (.idle { sink, journal := { detail } }) moves state) {m : Method}
    (hm : p.find? m.key = some m) {move : Move} (hfrom : move.From state)
    (hlt : (state.session.profile m.key).calls <
      ((move.next p c).session.profile m.key).calls) : move.books p m.key = true := by
  have hbefore := (h.lived hm).calls
  have hafter := ((h.snoc hfrom).lived hm).calls
  rw [List.countP_append, List.countP_singleton] at hafter
  cases hbooks : move.books p m.key with
  | true => rfl
  | false =>
    rw [hbooks, if_neg Bool.false_ne_true] at hafter
    omega

/-- Compiling is attempted exactly when the method turns due. -/
theorem History.compiles_iff {p : Program} {c : Config} {sink : Sink} {detail : Option Level}
    {moves : List Move} {state : State}
    (h : History p c (.idle { sink, journal := { detail } }) moves state) {m : Method}
    (hm : p.find? m.key = some m) {move : Move} (hfrom : move.From state) :
    move.compiles p c m.key = true ↔
      ¬c.promotion.Due (state.session.profile m.key).calls ∧
        c.promotion.Due ((move.next p c).session.profile m.key).calls := by
  have hbefore := h.lived hm
  have hafter := (h.snoc hfrom).lived hm
  -- Both numbers of attempts are known, and their difference is this move's.
  have hattempts := hafter.attempts
  rw [List.countP_append, List.countP_singleton, hbefore.attempts] at hattempts
  have hmono : (state.session.profile m.key).calls ≤
      ((move.next p c).session.profile m.key).calls := by
    have hcalls := hafter.calls
    rw [List.countP_append, List.countP_singleton] at hcalls
    rw [hbefore.calls, hcalls]
    omega
  have hstays : c.promotion.Due (state.session.profile m.key).calls →
      c.promotion.Due ((move.next p c).session.profile m.key).calls := fun hdue => hdue.mono hmono
  grind

/-- A filled slot stays as it is. -/
theorem History.slot_eq {p : Program} {c : Config} {m : Method} {start state : State}
    {moves : List Move} (h : History p c start moves state)
    (hfilled : (start.session.profile m.key).slot ≠ .untried) :
    (state.session.profile m.key).slot = (start.session.profile m.key).slot := by
  induction h with
  | nil => rfl
  | @snoc moves state earlier move last ih =>
    obtain ⟨t, hbefore, hafter, -⟩ := move.next_booked p c
    have hslot : (t.profile m.key).slot = (start.session.profile m.key).slot := by
      rw [← ih, Session.profile, hbefore.profiles, last.session_eq]
      rfl
    rw [Session.profile, hafter.profiles, ← hslot]
    cases move.booked? p with
    | none => rfl
    | some m' =>
      show ((t.book c.promotion m').profile m.key).slot = (t.profile m.key).slot
      by_cases hkey : m.key = m'.key
      · rw [hkey, Session.slot_book_self, Session.bookedSlot_eq, if_neg]
        rw [hkey] at hslot hfilled
        rw [Session.attempts, hslot]
        cases hstart : (start.session.profile m'.key).slot with
        | untried => exact absurd hstart hfilled
        | ineligible => simp
        | native entry => simp
      · rw [Session.profile_book_of_ne t c.promotion hkey]

/-- The lifecycle of a method. Whatever requests are carried out from the start on, and however they
end, the following holds of every method at every moment. It was counted how often a call of it was
booked, up to the largest number of 32 bits. Its slot is filled exactly if methods are compiled and
the count has reached the threshold, or one; it then holds native code exactly if the method can be
lowered, and stays as it is from then on. Compiling it was attempted once at most, and is attempted
next exactly if the next call brings the count to the threshold, or to one, for the first time; it
is told of once at most. -/
theorem promotion_lifecycle (p : Program) (c : Config) (sink : Sink) (detail : Option Level)
    (moves : List Move) (state : State)
    (h : History p c (.idle { sink, journal := { detail } }) moves state) (m : Method)
    (hm : m ∈ p.methods) :
    (state.session.profile m.key).calls = min (2 ^ 32 - 1) (moves.countP (Move.books p m.key)) ∧
      ((state.session.profile m.key).slot ≠ .untried ↔
        c.promotion.enabled = true ∧
          max 1 c.promotion.threshold ≤ (state.session.profile m.key).calls) ∧
      ((state.session.profile m.key).slot ≠ .untried →
        ((∃ entry, (state.session.profile m.key).slot = .native entry) ↔
          ∃ program, m.lower = .ok program) ∧
        ∀ moves' state', History p c state moves' state' →
          (state'.session.profile m.key).slot = (state.session.profile m.key).slot) ∧
      moves.countP (Move.compiles p c m.key) ≤ 1 ∧
      (∀ move : Move, move.From state →
        (move.compiles p c m.key = true ↔
          c.promotion.enabled = true ∧ move.books p m.key = true ∧
            (state.session.profile m.key).calls < max 1 c.promotion.threshold ∧
            max 1 c.promotion.threshold ≤ ((move.next p c).session.profile m.key).calls)) ∧
      (state.session.journal.about (Event.isCompiling m.key)).length ≤ 1 := by
  have hfind := Program.find?_key hm
  have hlived := h.lived hfind
  have hslot := hlived.slot
  have hfilled : (state.session.profile m.key).slot ≠ .untried ↔
      c.promotion.Due (state.session.profile m.key).calls := by
    rw [hslot]
    split
    · next hdue => exact iff_of_true (Slot.ofInstall_ne_untried _) hdue
    · next hdue => exact iff_of_false (fun h => h rfl) hdue
  refine ⟨hlived.calls, hfilled, fun hne => ⟨?_, ?_⟩, ?_, ?_, ?_⟩
  · rw [hslot, if_pos (hfilled.1 hne)]
    exact Slot.ofInstall_native_iff m
  · exact fun moves' state' hlater => hlater.slot_eq hne
  · rw [hlived.attempts]
    split <;> omega
  · intro move hfrom
    rw [h.compiles_iff hfind hfrom]
    unfold PromotionPolicy.Due
    constructor
    · rintro ⟨hbefore, henabled, hnow⟩
      have hlt : (state.session.profile m.key).calls < max 1 c.promotion.threshold :=
        Nat.lt_of_not_le fun hle => hbefore ⟨henabled, hle⟩
      exact ⟨henabled, h.books_of_calls_lt hfind hfrom (Nat.lt_of_lt_of_le hlt hnow), hlt, hnow⟩
    · rintro ⟨henabled, -, hlt, hnow⟩
      exact ⟨fun hbefore => absurd hbefore.2 (Nat.not_le_of_lt hlt), henabled, hnow⟩
  · rw [hlived.about]
    split <;> simp

/-- Two calls of `doubledSum`, of which the first compiles it. -/
theorem promotion_lifecycle_doubledSum :
    ∃ moves state, History ⟨.empty, [Method.doubledSum], by decide⟩ ⟨1, true, 1⟩ (.idle {}) moves
        state ∧
      (state.session.profile Method.doubledSum.key).calls = 2 ∧
      (∃ entry, (state.session.profile Method.doubledSum.key).slot = .native entry) ∧
      moves.countP (Move.compiles ⟨.empty, [Method.doubledSum], by decide⟩ ⟨1, true, 1⟩
        Method.doubledSum.key) ≤ 1 := by
  have hnone : History ⟨.empty, [Method.doubledSum], by decide⟩ ⟨1, true, 1⟩ (.idle {}) []
      (.idle {}) := .nil
  have hfirst := hnone.snoc (.ask _ _ (.invoke Method.doubledSum.key [3, 4]))
  have hsecond := hfirst.snoc (.ask _ _ (.invoke Method.doubledSum.key [5, 6]))
  obtain ⟨hcalls, hfilled, hslot, honce, -⟩ := promotion_lifecycle _ ⟨1, true, 1⟩ {} none _ _
    hsecond Method.doubledSum (List.mem_singleton_self _)
  have hnative := (hslot (hfilled.2 ⟨rfl, by rw [hcalls]; decide⟩)).1.2 ⟨_, rfl⟩
  exact ⟨_, _, hsecond, hcalls, hnative, honce⟩

end TieredJvm
