import TieredJvm.Proofs.Machine.History
import TieredJvm.Proofs.Machine.Turn
import TieredJvm.Proofs.Promotion.Transparency

/-!
# A frame beneath

What a call does when one more frame waits for its value, and one more frame is allowed: the same.
The frame beneath is not looked at before it is handed the value, and the number of frames matters
only where a frame is opened, by the room that is left. So the two runs go step by step through the
same frames, and differ in what the faults of the limit of depth tell the limit to be
(`State.advance_beneath`, `State.halted_of_beneath`).

The frame beneath belongs to a method whose call was booked once more on its side. Such a method is
followed here if it cannot be compiled, so that it is all the same how often it was called.
-/

namespace TieredJvm

/-- A fault as it is told with a limit of depth that is higher by one. -/
def Fault.deepened : Fault → Fault
  | callDepthExceeded limit => callDepthExceeded (limit + 1)
  | fault => fault

/-- The faults that a frame raises by itself tell of no limit. -/
theorem Fault.IsOwn.deepened_eq {fault : Fault} (h : fault.IsOwn) : fault.deepened = fault := by
  cases fault with
  | callDepthExceeded limit => exact h.elim
  | _ => rfl

/-- The settings with one more frame allowed. -/
def Config.deeper (c : Config) : Config :=
  { c with maxCallDepth := c.maxCallDepth + 1 }

/-- There is no native code of the method. -/
def Profile.Uncompiled (q : Profile) : Prop :=
  ∀ entry, q.slot ≠ .native entry

namespace Session

/-! ## Sessions with one call more -/

/-- The session `t` is `s` with one call more of the method of the key, which was compiled in
neither. -/
structure Beside (key : MethodKey) (s t : Session) : Prop where
  /-- The objects are the same. -/
  heap : t.heap = s.heap
  /-- The output is the same. -/
  sink : t.sink = s.sink
  /-- What is remembered about the other methods is the same. -/
  others : ∀ other ≠ key, t.profile other = s.profile other
  /-- The method was called once more, up to the largest number that the counter holds. -/
  calls : (t.profile key).calls = min Profile.maxCalls ((s.profile key).calls + 1)
  /-- The first session holds no native code of the method. -/
  uncompiled : (s.profile key).Uncompiled
  /-- Neither does the second. -/
  uncompiled' : (t.profile key).Uncompiled

variable {s t : Session}

/-- The profiles alone say how often a method was called. -/
theorem Beside.congr {key : MethodKey} (h : s.Beside key t) {u v : Session}
    (hs : u.profiles = s.profiles) (ht : v.profiles = t.profiles) (hheap : v.heap = u.heap)
    (hsink : v.sink = u.sink) : u.Beside key v := by
  have hprofile (other : MethodKey) : u.profile other = s.profile other := by
    rw [profile, profile, hs]
  have hprofile' (other : MethodKey) : v.profile other = t.profile other := by
    rw [profile, profile, ht]
  refine ⟨hheap, hsink, fun other hne => ?_, ?_, ?_, ?_⟩
  · rw [hprofile, hprofile', h.others other hne]
  · rw [hprofile, hprofile', h.calls]
  · rw [hprofile]
    exact h.uncompiled
  · rw [hprofile']
    exact h.uncompiled'

/-- What is told in the journals makes no difference. -/
theorem Beside.untouched {key : MethodKey} (h : s.Beside key t) {u v : Session}
    (hs : s.Untouched u) (ht : t.Untouched v) : u.Beside key v :=
  h.congr hs.profiles ht.profiles (by rw [ht.heap, hs.heap, h.heap])
    (by rw [ht.sink, hs.sink, h.sink])

/-- The turn of a frame is the same, and makes no difference. -/
theorem Beside.turn {key : MethodKey} (h : s.Beside key t) (p : Program) (f : Frame) :
    (f.turn p t).2 = (f.turn p s).2 ∧ (f.turn p s).1.Beside key (f.turn p t).1 := by
  obtain ⟨heffect, hheap, hsink⟩ := f.turn_congr p h.heap h.sink
  exact ⟨heffect, h.congr (f.profiles_turn p s) (f.profiles_turn p t) hheap hsink⟩

/-- A method that cannot be compiled is not compiled by a call of it. -/
theorem uncompiled_book {w : Method} (hw : ∀ entry, w.install .host ≠ .ok entry)
    (policy : PromotionPolicy) (h : (s.profile w.key).Uncompiled) :
    ((s.book policy w).profile w.key).Uncompiled := by
  intro entry hslot
  rw [slot_book_self] at hslot
  rcases native_of_bookedSlot hslot with hold | hnew
  · exact h entry hold
  · exact hw entry hnew

/-- A call that is booked on both sides makes no difference. -/
theorem Beside.book {w m : Method} (h : s.Beside w.key t)
    (hw : ∀ entry, w.install .host ≠ .ok entry) (hm : m.key = w.key → m = w)
    (policy : PromotionPolicy) : (s.book policy m).Beside w.key (t.book policy m) := by
  have hheap : (t.book policy m).heap = (s.book policy m).heap := by
    rw [heap_book, heap_book, h.heap]
  have hsink : (t.book policy m).sink = (s.book policy m).sink := by
    rw [sink_book, sink_book, h.sink]
  by_cases hkey : m.key = w.key
  · obtain rfl := hm hkey
    refine ⟨hheap, hsink, fun other hne => ?_, ?_, ?_, ?_⟩
    · rw [profile_book_of_ne s policy hne, profile_book_of_ne t policy hne, h.others other hne]
    · simp only [calls_book, if_true, Profile.count, h.calls]
    · exact uncompiled_book hw policy h.uncompiled
    · exact uncompiled_book hw policy h.uncompiled'
  · have hself : (s.book policy m).profile w.key = s.profile w.key :=
      profile_book_of_ne s policy (Ne.symm hkey)
    have hself' : (t.book policy m).profile w.key = t.profile w.key :=
      profile_book_of_ne t policy (Ne.symm hkey)
    refine ⟨hheap, hsink, fun other hne => ?_, ?_, ?_, ?_⟩
    · by_cases hother : other = m.key
      · -- The booking decides by the profile of the method called, which is the same.
        subst hother
        have hprofile := h.others _ hne
        rw [(replaces_book s policy m).self, (replaces_book t policy m).self]
        simp only [bookedSlot, hprofile]
      · rw [profile_book_of_ne s policy hother, profile_book_of_ne t policy hother,
          h.others other hne]
    · rw [hself, hself', h.calls]
    · rw [hself]
      exact h.uncompiled
    · rw [hself']
      exact h.uncompiled'

end Session

namespace State

/-! ## States with one frame more -/

/-- The method whose value is handed to the caller from outside, if `m` is the method on top. -/
def outermost (m : Method) : List Frame → Method
  | [] => m
  | f :: callers => outermost f.method callers

/-- The second state is the first with the frame `base` beneath all others. It is handed the value
if there is one, while a fault closes it with the others. -/
inductive Beneath (key : MethodKey) (base : Frame) : State → State → Prop where
  /-- Both machines execute the same frame. -/
  | running {s t : Session} {f : Frame} {callers : List Frame} (beside : s.Beside key t)
      (answers : (outermost f.method callers).signature.returnsValue = true) :
      Beneath key base (running s f callers) (running t f (callers ++ [base]))
  /-- The frame beneath has the value. -/
  | returned {s t : Session} (value : Int32) (beside : s.Beside key t) :
      Beneath key base (halted s (.ok value)) (running t (base.push value) [])
  /-- Both machines have ended with the fault. -/
  | faulted {s t : Session} (fault : Fault) (beside : s.Beside key t) :
      Beneath key base (halted s (.error fault)) (halted t (.error fault.deepened))

variable {p : Program} {c : Config} {w m : Method} {base : Frame} {s t : Session}

/-- A fault closes the frames on both sides. -/
theorem unwind_beneath (h : s.Beside w.key t) (fault : Fault) (active active' : List Method) :
    Beneath w.key base (unwind s fault active) (unwind t fault.deepened active') :=
  .faulted fault (h.untouched (unwind_passes s fault active).toUntouched
    (unwind_passes t fault.deepened active').toUntouched)

/-- A value is handed to the same frame on both sides, or to the frame beneath. -/
theorem deliver_beneath (h : s.Beside w.key t) (value : Int32) {callers : List Frame}
    (hanswers : (outermost m callers).signature.returnsValue = true) :
    Beneath w.key base (deliver s m value callers) (deliver t m value (callers ++ [base])) := by
  cases callers with
  | nil =>
    have hvalue : m.signature.returnsValue = true := hanswers
    simp only [deliver, List.nil_append, hvalue, if_true]
    exact .returned value h
  | cons f callers =>
    obtain ⟨g, hsame, hdeliver⟩ := deliver_cons m value f
    rw [List.cons_append, hdeliver, hdeliver]
    refine .running h ?_
    rw [hsame.method]
    exact hanswers

/-- A frame is opened on both sides, or refused on both. -/
theorem enter_beneath (h : s.Beside w.key t) (c : Config) (args : List Int32)
    {callers : List Frame} (hanswers : (outermost m callers).signature.returnsValue = true) :
    Beneath w.key base (enter c s m args callers)
      (enter c.deeper t m args (callers ++ [base])) := by
  have hinitial := Frame.initial_spec m args
  have hroom : (callers ++ [base]).length < c.deeper.maxCallDepth ↔
      callers.length < c.maxCallDepth := by
    rw [List.length_append, List.length_singleton]
    exact Nat.add_lt_add_iff_right
  unfold enter
  by_cases hdepth : callers.length < c.maxCallDepth
  · rw [if_pos hdepth, if_pos (hroom.2 hdepth)]
    have hentered := h.untouched (s.untouched_record (.entering m.key (callers.length + 1)))
      (t.untouched_record (.entering m.key ((callers ++ [base]).length + 1)))
    dsimp only
    split
    · next f hok =>
      rw [hok] at hinitial
      refine .running hentered ?_
      rw [hinitial.2]
      exact hanswers
    · next fault hfault =>
      rw [hfault] at hinitial
      obtain rfl : fault = _ := hinitial
      exact unwind_beneath hentered _ _ _
  · rw [if_neg hdepth, if_neg (mt hroom.1 hdepth)]
    exact unwind_beneath h (.callDepthExceeded c.maxCallDepth) _ _

/-- A call with arguments that fit, of a method that has no native code, comes to a frame. -/
theorem call_of_uncompiled {args : List Int32} (hargs : args.length ≤ m.maxLocals)
    (h : ((s.book c.promotion m).profile m.key).Uncompiled) (callers : List Frame) :
    call c s m args callers = enter c (s.book c.promotion m) m args callers := by
  unfold call Frame.checkArity
  rw [if_pos hargs]
  dsimp only
  split
  · next entry hslot => exact absurd hslot (h entry)
  · rfl
  · rfl

/-- A call is carried out in the same way on both sides. -/
theorem call_beneath (h : s.Beside w.key t) (hw : ∀ entry, w.install .host ≠ .ok entry)
    (hm : m.key = w.key → m = w) (c : Config) (args : List Int32) (callers : List Frame)
    (hanswers : (outermost m callers).signature.returnsValue = true) :
    Beneath w.key base (call c s m args callers)
      (call c.deeper t m args (callers ++ [base])) := by
  have hbooked := h.book hw hm c.promotion
  by_cases hargs : args.length ≤ m.maxLocals
  · by_cases hkey : m.key = w.key
    · -- The method of the frame beneath is interpreted on both sides.
      obtain rfl := hm hkey
      rw [call_of_uncompiled hargs hbooked.uncompiled,
        call_of_uncompiled (c := c.deeper) hargs hbooked.uncompiled']
      exact enter_beneath hbooked c args hanswers
    · have hprofile := hbooked.others _ hkey
      have hpromotion : c.deeper.promotion = c.promotion := rfl
      unfold call Frame.checkArity
      rw [if_pos hargs]
      dsimp only
      rw [hpromotion, hprofile]
      split
      · exact deliver_beneath (hbooked.untouched (Session.untouched_record _ _)
          (Session.untouched_record _ _)) _ hanswers
      · exact enter_beneath hbooked c args hanswers
      · exact enter_beneath hbooked c args hanswers
  · unfold call Frame.checkArity
    rw [if_neg hargs]
    exact unwind_beneath h (.tooManyArguments args.length m.maxLocals) _ _

/-- A step is taken in the same way on both sides. -/
theorem step_beneath (hfind : p.find? w.key = some w) (hw : ∀ entry, w.install .host ≠ .ok entry)
    {f : Frame} {callers : List Frame} (h : s.Beside w.key t)
    (hanswers : (outermost f.method callers).signature.returnsValue = true) :
    Beneath w.key base (step p c (running s f callers))
      (step p c.deeper (running t f (callers ++ [base]))) := by
  obtain ⟨heffect, hturn⟩ := h.turn p f
  have hwithin := f.turn_within p s
  have hcalls := f.turn_calls p s
  rw [step_running, step_running]
  generalize f.turn p s = r, f.turn p t = r' at heffect hturn hwithin hcalls
  obtain ⟨u, effect⟩ := r
  obtain ⟨u', effect'⟩ := r'
  obtain rfl : effect' = effect := heffect
  match effect', hwithin, hcalls with
  | .error fault, hown, _ =>
    have hunwound : Beneath w.key base _ _ := unwind_beneath hturn fault
      (f.method :: callers.map Frame.method) (f.method :: (callers ++ [base]).map Frame.method)
    rw [hown.deepened_eq] at hunwound
    exact hunwound
  | .ok (.proceed g), hsame, _ =>
    refine .running hturn ?_
    rw [show g.method = f.method from hsame.method]
    exact hanswers
  | .ok (.jump g target), hsame, _ =>
    refine .running hturn ?_
    rw [show g.method = f.method from hsame.1.method]
    exact hanswers
  | .ok (.finish value), _, _ =>
    exact deliver_beneath (hturn.untouched (Session.untouched_record _ _)
      (Session.untouched_record _ _)) value hanswers
  | .ok (.call callee args g), hsame, hcall =>
    refine call_beneath hturn hw (Program.eq_of_find? hcall.1 hfind) c args (_ :: callers) ?_
    show (outermost g.method callers).signature.returnsValue = true
    rw [show g.method = f.method from hsame.method]
    exact hanswers

/-! ## Runs -/

/-- When the first machine has ended, the second comes to where the frame beneath is handed the
value, or to the end. -/
theorem advance_beneath (hfind : p.find? w.key = some w)
    (hw : ∀ entry, w.install .host ≠ .ok entry) {n : Nat} {state state' : State}
    (h : Beneath w.key base state state') {outcome : Except Fault Int32}
    (hend : advance p c n state = halted t outcome) :
    ∃ k, Beneath w.key base (halted t outcome) (advance p c.deeper k state') := by
  induction n generalizing state state' with
  | zero =>
    obtain rfl : state = _ := hend
    exact ⟨0, h⟩
  | succ n ih =>
    cases h with
    | running beside answers =>
      rw [advance_succ] at hend
      obtain ⟨k, hk⟩ := ih (step_beneath hfind hw beside answers) hend
      exact ⟨k + 1, by rwa [advance_succ]⟩
    | returned value beside =>
      rw [advance_halted] at hend
      cases hend
      exact ⟨0, .returned value beside⟩
    | faulted fault beside =>
      rw [advance_halted] at hend
      cases hend
      exact ⟨0, .faulted fault beside⟩

/-- When the second machine has ended, so has the first. -/
theorem halted_of_beneath (hfind : p.find? w.key = some w)
    (hw : ∀ entry, w.install .host ≠ .ok entry) {n : Nat} {state state' : State}
    (h : Beneath w.key base state state') {outcome' : Except Fault Int32}
    (hend : advance p c.deeper n state' = halted t outcome') :
    ∃ u outcome, advance p c n state = halted u outcome := by
  induction n generalizing state state' with
  | zero =>
    obtain rfl : state' = _ := hend
    cases h with
    | faulted fault beside => exact ⟨_, _, rfl⟩
  | succ n ih =>
    cases h with
    | running beside answers =>
      rw [advance_succ] at hend ⊢
      exact ih (step_beneath hfind hw beside answers) hend
    | returned value beside => exact ⟨_, _, advance_halted ..⟩
    | faulted fault beside => exact ⟨_, _, advance_halted ..⟩

end State

end TieredJvm
