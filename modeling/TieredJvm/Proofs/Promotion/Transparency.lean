import TieredJvm.Proofs.Machine.Effects
import TieredJvm.Proofs.Promotion.Booking
import TieredJvm.Proofs.Register.Lowering

/-!
# Promotion is transparent

A session in which methods are compiled cannot be told from one in which none is: requests that
all end without compiling, and none of them at the limit of depth, end with the same results, the
same output, the same heap and the same numbers of calls when hot methods are compiled
(`performs_promoted`).

The two machines run the same frames. `Session.Shadows` relates their sessions and `State.Shadows`
their states. They differ in one place only: where the second machine calls native code, the first
opens a frame, and some steps later hands over the same value (`call_shadows`, by the soundness of
lowering). That frame is one that the limit of depth may refuse, which is why runs that reach the
limit are left out. A step keeps the relation up to such steps of the first machine
(`step_shadows`), and hence so does a run (`advance_shadows`), a request (`perform_shadows`) and a
list of requests.
-/

namespace TieredJvm

namespace Session

/-- The session `t` of a machine that compiles shadows the session `s` of one that does not. -/
structure Shadows (p : Program) (s t : Session) : Prop where
  /-- The objects are the same. -/
  heap : t.heap = s.heap
  /-- The output is the same. -/
  sink : t.sink = s.sink
  /-- The numbers of calls are the same. -/
  calls : ∀ key, (t.profile key).calls = (s.profile key).calls
  /-- The first machine compiled nothing. -/
  untried : ∀ key, (s.profile key).slot = .untried
  /-- What the second machine compiled is what the methods compile to. -/
  compiled : ∀ key m entry, p.find? key = some m → (t.profile key).slot = .native entry →
    m.install .host = .ok entry

/-- Shadowing does not look at the journals. -/
theorem Shadows.untouched {p : Program} {s s' t t' : Session} (h : Shadows p s t)
    (hs : Untouched s s') (ht : Untouched t t') : Shadows p s' t' := by
  have hprofile (key : MethodKey) : s'.profile key = s.profile key := by
    rw [profile, profile, hs.profiles]
  have hprofile' (key : MethodKey) : t'.profile key = t.profile key := by
    rw [profile, profile, ht.profiles]
  refine ⟨?_, ?_, fun key => ?_, fun key => ?_, fun key m entry hfind hslot => ?_⟩
  · rw [hs.heap, ht.heap, h.heap]
  · rw [hs.sink, ht.sink, h.sink]
  · rw [hprofile, hprofile', h.calls]
  · rw [hprofile, h.untried]
  · rw [hprofile'] at hslot
    exact h.compiled key m entry hfind hslot

/-- Shadowing lasts through the execution of an instruction. -/
theorem Shadows.execute {p : Program} {s t : Session} (h : Shadows p s t) (f : Frame)
    (i : Instruction) :
    Shadows p (TieredJvm.execute p s f i).1 (TieredJvm.execute p t f i).1 := by
  obtain ⟨-, hheap, hsink⟩ := execute_congr p h.heap h.sink f i
  have hprofile (u : Session) (key : MethodKey) :
      (TieredJvm.execute p u f i).1.profile key = u.profile key := by
    rw [profile, profile, profiles_execute]
  refine ⟨hheap, hsink, fun key => ?_, fun key => ?_, fun key m entry hfind hslot => ?_⟩
  · rw [hprofile, hprofile, h.calls]
  · rw [hprofile, h.untried]
  · rw [hprofile] at hslot
    exact h.compiled key m entry hfind hslot

/-- Without compiling, no slot is filled. -/
theorem bookedSlot_of_disabled {s : Session} {policy : PromotionPolicy} {m : Method}
    (hoff : policy.enabled = false) (h : (s.profile m.key).slot = .untried) :
    s.bookedSlot policy m = .untried := by
  have hcount : (s.profile m.key).count.slot = .untried := h
  simp only [bookedSlot, hcount, hoff, Bool.false_and, Bool.false_eq_true, if_false]

/-- A slot that holds native code after a call is booked held it before, or the method compiles to
that code. -/
theorem native_of_bookedSlot {s : Session} {policy : PromotionPolicy} {m : Method}
    {entry : NativeEntry} (h : s.bookedSlot policy m = .native entry) :
    (s.profile m.key).slot = .native entry ∨ m.install .host = .ok entry := by
  unfold bookedSlot at h
  dsimp only at h
  split at h
  · split at h
    · right
      unfold Slot.ofInstall at h
      split at h
      · next hinstall =>
        cases h
        exact hinstall
      · cases h
    · cases h
  · exact .inl h

/-- Shadowing lasts through the booking of a call of a method of the program. -/
theorem Shadows.book {p : Program} {s t : Session} {m : Method} {policy : PromotionPolicy}
    (h : Shadows p s t) (hoff : policy.enabled = false) (hfind : p.find? m.key = some m)
    (policy' : PromotionPolicy) : Shadows p (s.book policy m) (t.book policy' m) := by
  refine ⟨?_, ?_, fun key => ?_, fun key => ?_, fun key m' entry hfind' hslot => ?_⟩
  · rw [heap_book, heap_book, h.heap]
  · rw [sink_book, sink_book, h.sink]
  · simp only [calls_book, Profile.count, h.calls]
  · by_cases hkey : key = m.key
    · rw [hkey, slot_book_self, bookedSlot_of_disabled hoff (h.untried m.key)]
    · rw [profile_book_of_ne s policy hkey, h.untried]
  · -- Only the slot of the method called can be filled, and it is filled with what that method
    -- compiles to.
    by_cases hkey : key = m.key
    · subst hkey
      rw [hfind] at hfind'
      cases hfind'
      rw [slot_book_self] at hslot
      rcases native_of_bookedSlot hslot with hold | hnew
      · exact h.compiled _ _ entry hfind hold
      · exact hnew
    · rw [profile_book_of_ne t policy' hkey] at hslot
      exact h.compiled key m' entry hfind' hslot

end Session

namespace State

/-- The state of a machine that compiles shadows that of one that does not: the same frames, or the
same outcome. -/
inductive Shadows (p : Program) : State → State → Prop where
  /-- Both machines execute the same frame for the same callers. -/
  | running {s t : Session} (f : Frame) (callers : List Frame) (h : Session.Shadows p s t) :
      Shadows p (running s f callers) (running t f callers)
  /-- Both machines have halted with the same outcome. -/
  | halted {s t : Session} (outcome : Except Fault Int32) (h : Session.Shadows p s t) :
      Shadows p (halted s outcome) (halted t outcome)

variable {p : Program} {s t : Session}

/-- Both machines close the same frames by the same fault. -/
theorem unwind_shadows (h : Session.Shadows p s t) (fault : Fault) (active : List Method) :
    Shadows p (unwind s fault active) (unwind t fault active) :=
  .halted _ (h.untouched (Session.untouched_foldl_record _ active s)
    (Session.untouched_foldl_record _ active t))

/-- Both machines hand over the same value. -/
theorem deliver_shadows (h : Session.Shadows p s t) (m : Method) (value : Int32)
    (callers : List Frame) : Shadows p (deliver s m value callers) (deliver t m value callers) := by
  cases callers with
  | nil => exact .halted _ h
  | cons f callers => exact .running _ _ h

/-- Both machines close a frame with the same value. -/
theorem leave_shadows (h : Session.Shadows p s t) (m : Method) (value : Int32)
    (callers : List Frame) : Shadows p (leave s m value callers) (leave t m value callers) :=
  deliver_shadows (h.untouched (Session.untouched_record _ _) (Session.untouched_record _ _))
    m value callers

variable {c c' : Config}

/-- Both machines open the same frame. -/
theorem enter_shadows (hlimit : c'.maxCallDepth = c.maxCallDepth) (h : Session.Shadows p s t)
    (m : Method) (args : List Int32) (callers : List Frame) :
    Shadows p (enter c s m args callers) (enter c' t m args callers) := by
  have hentering := h.untouched (Session.untouched_record s (.entering m.key (callers.length + 1)))
    (Session.untouched_record t (.entering m.key (callers.length + 1)))
  unfold enter
  rw [hlimit]
  split
  · dsimp only
    split
    · exact .running _ _ hentering
    · exact unwind_shadows hentering _ _
  · exact unwind_shadows h _ _

/-- The same call on both machines. The first refuses it at the limit of depth, or some steps
after it has opened a frame the states agree again. -/
theorem call_shadows (hlimit : c'.maxCallDepth = c.maxCallDepth)
    (hoff : c.promotion.enabled = false) (h : Session.Shadows p s t) {m : Method}
    {args : List Int32} (hfind : p.find? m.key = some m)
    (hargs : ∀ program, m.lower = .ok program → m.signature.args.length ≤ args.length)
    (callers : List Frame) :
    (∃ u, call c s m args callers = halted u (.error (.callDepthExceeded c.maxCallDepth))) ∨
      ∃ k, Shadows p (advance p c k (call c s m args callers)) (call c' t m args callers) := by
  unfold call
  cases harity : Frame.checkArity m args.length with
  | error fault => exact .inr ⟨0, unwind_shadows h fault _⟩
  | ok _ =>
    have hbooked := h.book hoff hfind c'.promotion
    have hlen := Frame.checkArity_spec m args.length
    rw [harity] at hlen
    -- The first machine never has native code, so only the slot of the second one matters.
    simp only [hbooked.untried m.key]
    cases hslot : ((t.book c'.promotion m).profile m.key).slot with
    | untried => exact .inr ⟨0, enter_shadows hlimit hbooked m args callers⟩
    | ineligible => exact .inr ⟨0, enter_shadows hlimit hbooked m args callers⟩
    | native entry =>
      by_cases hdepth : callers.length < c.maxCallDepth
      · -- The frame of the first machine comes to the value of the native code.
        obtain ⟨hlower, hentry⟩ := Method.install_eq_ok (hbooked.compiled _ _ entry hfind hslot)
        have hle := hargs entry.program hlower
        obtain ⟨v, n, u, hv, hn, huntouched⟩ := Method.advance_enter_of_lower p c
          (s.book c.promotion m) hlower (Nat.le_trans hle hlen) hlen hdepth
        have hcall : entry.call args = v := by
          rw [NativeEntry.call_eq, hentry, hv, Option.getD_some]
        refine .inr ⟨n, ?_⟩
        dsimp only
        rw [hn, hcall]
        refine deliver_shadows (hbooked.untouched ?_ (Session.untouched_record _ _)) m v callers
        exact huntouched.trans (Session.untouched_record _ _)
      · -- Native code takes no frame, so here the first machine stops and the second does not.
        left
        unfold enter
        rw [if_neg hdepth]
        exact ⟨_, rfl⟩

/-- What follows from the same effect on both machines. -/
theorem apply_shadows (hlimit : c'.maxCallDepth = c.maxCallDepth)
    (hoff : c.promotion.enabled = false) (h : Session.Shadows p s t) {r : Except Fault Effect}
    (hcalls : Ensures (Effect.CallsWithin p) (fun _ => True) r) (m : Method) (next : Nat)
    (callers : List Frame) :
    (∃ u, apply c m next callers (s, r) =
        halted u (.error (.callDepthExceeded c.maxCallDepth))) ∨
      ∃ k, Shadows p (advance p c k (apply c m next callers (s, r)))
        (apply c' m next callers (t, r)) := by
  match r, hcalls with
  | .error fault, _ => exact .inr ⟨0, unwind_shadows h fault _⟩
  | .ok (.proceed f), _ => exact .inr ⟨0, .running _ _ h⟩
  | .ok (.jump f target), _ => exact .inr ⟨0, .running _ _ h⟩
  | .ok (.finish value), _ => exact .inr ⟨0, leave_shadows h m value callers⟩
  | .ok (.call callee args f), ⟨hfind, hlen⟩ =>
    -- A call from code always has all its arguments.
    exact call_shadows hlimit hoff h hfind (fun _ _ => Nat.le_of_eq hlen.symm) _

/-- A step on both machines. The first refuses a call at the limit of depth, or some steps later
the states agree again. -/
theorem step_shadows (hlimit : c'.maxCallDepth = c.maxCallDepth)
    (hoff : c.promotion.enabled = false) {state state' : State} (h : Shadows p state state') :
    (∃ u, step p c state = halted u (.error (.callDepthExceeded c.maxCallDepth))) ∨
      ∃ k, Shadows p (advance p c k (step p c state)) (step p c' state') := by
  cases h with
  | halted outcome h => exact .inr ⟨0, .halted outcome h⟩
  | @running s t f callers h =>
    by_cases hpc : f.pc < f.method.code.size
    · cases hfetch : fetch f.method.code f.pc hpc with
      | error fault =>
        rw [step_of_fetch_error p c s f callers hpc hfetch,
          step_of_fetch_error p c' t f callers hpc hfetch]
        exact .inr ⟨0, unwind_shadows h fault _⟩
      | ok fetched =>
        obtain ⟨op, x, y⟩ := fetched
        rw [step_of_fetch_ok p c s f callers hpc hfetch,
          step_of_fetch_ok p c' t f callers hpc hfetch]
        -- Both machines tell of the instruction and execute it, with the same effect.
        have hrecord := h.untouched (Session.untouched_record s (.executing f.pc op x y))
          (Session.untouched_record t (.executing f.pc op x y))
        generalize s.record (.executing f.pc op x y) = s₁ at hrecord ⊢
        generalize t.record (.executing f.pc op x y) = t₁ at hrecord ⊢
        generalize Instruction.decode op x y = i
        have hafter := hrecord.execute f i
        obtain ⟨heffect, -, -⟩ := execute_congr p hrecord.heap hrecord.sink f i
        have hpair : execute p t₁ f i = ((execute p t₁ f i).1, (execute p s₁ f i).2) :=
          Prod.ext rfl heffect
        rw [hpair]
        exact apply_shadows hlimit hoff hafter (execute_calls p s₁ f i) f.method _ callers
    · rw [step_of_end p c s f callers hpc, step_of_end p c' t f callers hpc]
      exact .inr ⟨0, leave_shadows h f.method 0 callers⟩

/-- A run that ends, and not at the limit of depth, ends in the same way on the other machine, in
no more steps. -/
theorem advance_shadows (hlimit : c'.maxCallDepth = c.maxCallDepth)
    (hoff : c.promotion.enabled = false) {state state' : State} (h : Shadows p state state')
    {n : Nat} {u : Session} {outcome : Except Fault Int32}
    (hn : advance p c n state = halted u outcome)
    (hdepth : outcome ≠ .error (.callDepthExceeded c.maxCallDepth)) :
    ∃ v, advance p c' n state' = halted v outcome ∧ Session.Shadows p u v := by
  induction n generalizing state state' with
  | zero =>
    cases h with
    | running f callers h => cases hn
    | @halted s t outcome h =>
      cases hn
      exact ⟨t, rfl, h⟩
  | succ n ih =>
    rw [advance_succ] at hn
    rcases step_shadows hlimit hoff h with ⟨w, hw⟩ | ⟨k, hk⟩
    · rw [hw, advance_halted] at hn
      cases hn
      exact absurd rfl hdepth
    · -- The first machine is `k` steps ahead, but it has ended within `n` steps all the same.
      obtain ⟨v, hv, hshadows⟩ := ih hk (advance_advance_of_halted hn k)
      exact ⟨v, by rw [advance_succ, hv], hshadows⟩

end State

/-! ## Requests -/

/-- A method that gives no value is not lowered. -/
theorem Method.result_of_lower {m : Method} {program : List RegisterOp}
    (h : m.lower = .ok program) : m.signature.result = some .int := by
  obtain ⟨heligible, -⟩ := lower_eq_ok h
  simp only [Lowering.eligible, Bool.and_eq_true, decide_eq_true_eq] at heligible
  exact heligible.1.1

/-- The entry point gives no value, so it is not lowered. -/
theorem Program.lower_entryPoint {p : Program} {m : Method} (h : p.entryPoint = .ok m)
    (program : List RegisterOp) : m.lower ≠ .ok program := by
  have hresult : m.signature.result = none := by
    have hsignature := m.ofDescriptor_eq
    rcases (entryPoint_eq_ok h).2 with hkey | hkey
    · have hmain : Signature.ofDescriptor mainKey.descriptor = .ok ⟨[.reference], none⟩ := by cbv
      rw [hkey, hmain] at hsignature
      rw [← Except.ok.inj hsignature]
    · have hmain : Signature.ofDescriptor bareMainKey.descriptor = .ok ⟨[], none⟩ := by cbv
      rw [hkey, hmain] at hsignature
      rw [← Except.ok.inj hsignature]
  intro hlower
  rw [Method.result_of_lower hlower] at hresult
  cases hresult

namespace Request

/-- A run, or a call that passes at least as many arguments as the descriptor has. -/
def Supplied (p : Program) : Request → Prop
  | run => True
  | invoke key args => ∀ m, p.find? key = some m → m.signature.args.length ≤ args.length
  | interpret _ _ => False

variable {p : Program} {c c' : Config} {s t : Session}

/-- The start of a request on both machines. -/
theorem start_shadows (hlimit : c'.maxCallDepth = c.maxCallDepth)
    (hoff : c.promotion.enabled = false) (h : Session.Shadows p s t) {r : Request}
    (hr : r.Supplied p) :
    (∃ u, r.start p c s = .halted u (.error (.callDepthExceeded c.maxCallDepth))) ∨
      ∃ k, State.Shadows p (State.advance p c k (r.start p c s)) (r.start p c' t) := by
  cases r with
  | run =>
    simp only [start]
    cases hentry : p.entryPoint with
    | error cause => exact .inr ⟨0, .halted _ h⟩
    | ok m =>
      obtain ⟨hfind, -⟩ := Program.entryPoint_eq_ok hentry
      -- The entry point is called without arguments, also where its descriptor has one.
      have hlower := Program.lower_entryPoint hentry
      exact State.call_shadows hlimit hoff h hfind (fun program hp => absurd hp (hlower program)) []
  | invoke key args =>
    simp only [start]
    cases hfind : p.find? key with
    | none => exact .inr ⟨0, .halted _ h⟩
    | some m =>
      have hkey : p.find? m.key = some m := by rw [Program.key_of_find? hfind, hfind]
      exact State.call_shadows hlimit hoff h hkey (fun _ _ => hr m hfind) []
  | interpret key args => cases hr

/-- A request that ends, and not at the limit of depth, ends in the same way on the other
machine. -/
theorem perform_shadows (hlimit : c'.maxCallDepth = c.maxCallDepth)
    (hoff : c.promotion.enabled = false) (h : Session.Shadows p s t) {r : Request}
    (hr : r.Supplied p) {fuel : Nat} {u : Session} {outcome : Except Fault Int32}
    (hend : r.perform p c fuel s = some (u, outcome))
    (hdepth : outcome ≠ .error (.callDepthExceeded c.maxCallDepth)) :
    ∃ v, r.perform p c' fuel t = some (v, outcome) ∧ Session.Shadows p u v := by
  unfold perform at hend
  cases hn : State.advance p c fuel (r.start p c s) with
  | running w f callers =>
    rw [hn] at hend
    cases hend
  | halted w o =>
    rw [hn] at hend
    cases hend
    -- The fault of a call is also that of the request.
    have ho : o ≠ .error (.callDepthExceeded c.maxCallDepth) := by
      rintro rfl
      cases r <;> exact hdepth rfl
    rcases start_shadows hlimit hoff h hr with ⟨w', hw'⟩ | ⟨k, hk⟩
    · rw [hw', State.advance_halted] at hn
      cases hn
      exact absurd rfl ho
    · obtain ⟨v, hv, hshadows⟩ :=
        State.advance_shadows hlimit hoff hk (State.advance_advance_of_halted hn k) ho
      refine ⟨v, ?_, hshadows⟩
      -- A run flushes the output at its end, which is the same on both machines.
      have hconclude : r.conclude v o = r.conclude u o := by
        cases r with
        | run => simp only [conclude, hshadows.sink]
        | invoke => rfl
        | interpret => rfl
      rw [perform, hv, finished?, hconclude]

end Request

/-- What can be seen from outside when a request has ended. -/
structure Observation where
  /-- The result of the request. -/
  outcome : Except Fault Int32
  /-- The output. -/
  sink : Sink
  /-- The objects. -/
  heap : Heap
  /-- The number of calls of each method. -/
  calls : MethodKey → Nat

/-- What can be seen of the end of a request. -/
def Observation.ofEnd (e : Session × Except Fault Int32) : Observation :=
  ⟨e.2, e.1.sink, e.1.heap, fun key => (e.1.profile key).calls⟩

/-- Requests that all end, and none at the limit of depth, look the same on the other machine. -/
theorem performs_shadows {p : Program} {c c' : Config} {s t : Session}
    (hlimit : c'.maxCallDepth = c.maxCallDepth) (hoff : c.promotion.enabled = false)
    (h : Session.Shadows p s t) {requests : List Request}
    {ends : List (Session × Except Fault Int32)} (hends : Performs p c s requests ends)
    (hsupplied : ∀ r ∈ requests, r.Supplied p)
    (hdepth : ∀ e ∈ ends, e.2 ≠ .error (.callDepthExceeded c.maxCallDepth)) :
    ∃ ends', Performs p c' t requests ends' ∧
      ends'.map Observation.ofEnd = ends.map Observation.ofEnd := by
  induction hends generalizing t with
  | nil s => exact ⟨[], .nil t, rfl⟩
  | @cons s u r rs outcome ends fuel first others ih =>
    rw [List.forall_mem_cons] at hsupplied hdepth
    obtain ⟨v, hv, hshadows⟩ :=
      Request.perform_shadows hlimit hoff h hsupplied.1 first hdepth.1
    obtain ⟨ends', hperforms, hmap⟩ := ih hshadows hsupplied.2 hdepth.2
    refine ⟨(v, outcome) :: ends', .cons fuel hv hperforms, ?_⟩
    have hhead : Observation.ofEnd (v, outcome) = Observation.ofEnd (u, outcome) := by
      simp only [Observation.ofEnd, hshadows.sink, hshadows.heap, hshadows.calls]
    rw [List.map_cons, List.map_cons, hhead, hmap]

/-- Promotion is transparent. Take requests, each a run or a call with at least as many arguments
as the descriptor has, and carry them out from the start with nothing compiled. If they all end,
and none of them at the limit of depth, then with hot methods compiled they all end too: with the
same results, the same output, the same heap, and the same number of calls of each method. -/
theorem performs_promoted (p : Program) (limit threshold : Nat) (sink : Sink)
    (journal journal' : Journal) (requests : List Request)
    (ends : List (Session × Except Fault Int32))
    (hsupplied : ∀ r ∈ requests, r.Supplied p)
    (hends : Performs p ⟨limit, false, threshold⟩ { sink, journal } requests ends)
    (hdepth : ∀ e ∈ ends, e.2 ≠ .error (.callDepthExceeded limit)) :
    ∃ ends', Performs p ⟨limit, true, threshold⟩ { sink, journal := journal' } requests ends' ∧
      ends'.map Observation.ofEnd = ends.map Observation.ofEnd := by
  have hstart : Session.Shadows p { sink, journal } { sink, journal := journal' } := by
    refine ⟨rfl, rfl, fun _ => rfl, fun _ => rfl, fun _ _ _ _ hslot => ?_⟩
    cases hslot
  refine performs_shadows ?_ ?_ hstart hends hsupplied hdepth
  · rfl
  · rfl

/-- The program whose one method is `doubledSum`. -/
def Program.doubling : Program :=
  ⟨.empty, [Method.doubledSum], by decide⟩

/-- A session in which `doubledSum` was called some times, and nothing else was done. -/
def Session.doubledSumCalled (calls : Nat) : Session :=
  { profiles := ⟨[(Method.doubledSum.key, { calls })]⟩ }

/-- Three calls of `doubledSum`, which is compiled at the second one if anything is. -/
theorem performs_promoted_doubledSum :
    Performs .doubling ⟨1, false, 2⟩ {} (.replicate 3 (.invoke Method.doubledSum.key [3, 4]))
        [(.doubledSumCalled 1, .ok 10), (.doubledSumCalled 2, .ok 10),
          (.doubledSumCalled 3, .ok 10)] ∧
      ∃ ends', Performs .doubling ⟨1, true, 2⟩ {}
          (.replicate 3 (.invoke Method.doubledSum.key [3, 4])) ends' ∧
        ends'.map Observation.ofEnd =
          [(.doubledSumCalled 1, .ok 10), (.doubledSumCalled 2, .ok 10),
            (.doubledSumCalled 3, .ok 10)].map Observation.ofEnd := by
  have hends : Performs .doubling ⟨1, false, 2⟩ {}
      (.replicate 3 (.invoke Method.doubledSum.key [3, 4]))
      [(.doubledSumCalled 1, .ok 10), (.doubledSumCalled 2, .ok 10),
        (.doubledSumCalled 3, .ok 10)] :=
    .cons 8 rfl (.cons 8 rfl (.cons 8 rfl (.nil _)))
  refine ⟨hends, performs_promoted .doubling 1 2 {} {} {} _ _ ?_ hends ?_⟩
  · intro r hr
    rw [List.eq_of_mem_replicate hr]
    intro m hm
    cases hm
    decide
  · simp

end TieredJvm
