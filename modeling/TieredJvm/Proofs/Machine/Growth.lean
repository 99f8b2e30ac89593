import TieredJvm.Proofs.Machine.HeapHistory
import TieredJvm.Proofs.Machine.Turn

/-!
# Nothing is taken back

Whatever a run does, the bytes that were written stay written, the objects stay in their places with
their classes, and no count of calls goes down (`Session.Grows`). That holds of the turn of a frame
(`Frame.grows_turn`), of everything that can follow from one (`State.grows_apply`), hence from any
state of a run to any later one (`State.grows_advance`) and of requests. A count is kept in 32 bits,
and stops at the largest number that they hold; one that fits in them goes on fitting.
-/

namespace TieredJvm

/-- The names of the classes of the objects, in order: the place of a name is the reference of its
object. -/
def Heap.classNames (h : Heap) : List String :=
  h.objects.toList.map Object.className

namespace Session

/-- The session `t` has all that `s` has, and perhaps more. -/
structure Grows (s t : Session) : Prop where
  /-- The bytes that were written are still there, at the front. -/
  written : s.sink.written.toList <+: t.sink.written.toList
  /-- No more and no fewer bytes fit in all. -/
  capacity : t.sink.capacity = s.sink.capacity
  /-- The objects are still there, each in its place and of its class. -/
  classes : s.heap.classNames <+: t.heap.classNames
  /-- No count of calls is less, and a count that fits in its word still does. -/
  calls : ∀ key, (s.profile key).calls ≤ Profile.maxCalls →
    (s.profile key).calls ≤ (t.profile key).calls ∧ (t.profile key).calls ≤ Profile.maxCalls

/-- A session has what it has. -/
theorem Grows.refl (s : Session) : s.Grows s :=
  ⟨List.prefix_rfl, rfl, List.prefix_rfl, fun _ hle => ⟨Nat.le_refl _, hle⟩⟩

/-- More is added to more. -/
theorem Grows.trans {s t u : Session} (hst : s.Grows t) (htu : t.Grows u) : s.Grows u where
  written := hst.written.trans htu.written
  capacity := htu.capacity.trans hst.capacity
  classes := hst.classes.trans htu.classes
  calls key hle := by
    obtain ⟨hfirst, hle'⟩ := hst.calls key hle
    obtain ⟨hsecond, hle''⟩ := htu.calls key hle'
    exact ⟨Nat.le_trans hfirst hsecond, hle''⟩

/-- What is remembered about the methods being the same, so are the counts. -/
theorem calls_of_profiles_eq {s t : Session} (h : t.profiles = s.profiles) (key : MethodKey)
    (hle : (s.profile key).calls ≤ Profile.maxCalls) :
    (s.profile key).calls ≤ (t.profile key).calls ∧ (t.profile key).calls ≤ Profile.maxCalls := by
  have hprofile : t.profile key = s.profile key := by rw [profile, profile, h]
  rw [hprofile]
  exact ⟨Nat.le_refl _, hle⟩

/-- A session of which only the journal may have changed has what it had. -/
theorem Untouched.grows {s t : Session} (h : Untouched s t) : s.Grows t where
  written := by simp only [h.sink, List.prefix_rfl]
  capacity := by rw [h.sink]
  classes := by simp only [h.heap, List.prefix_rfl]
  calls := calls_of_profiles_eq h.profiles

/-- Booking a call takes nothing back: a count that is full stays so. -/
theorem grows_book (s : Session) (policy : PromotionPolicy) (m : Method) :
    s.Grows (s.book policy m) where
  written := by simp only [sink_book, List.prefix_rfl]
  capacity := by rw [sink_book]
  classes := by simp only [heap_book, List.prefix_rfl]
  calls key hle := by
    rw [calls_book]
    split
    · simp only [Profile.count]
      omega
    · exact ⟨Nat.le_refl _, hle⟩

/-- Executing an instruction takes nothing back. -/
theorem grows_execute (p : Program) (s : Session) (f : Frame) (i : Instruction) :
    s.Grows (execute p s f i).1 := by
  have hself := Grows.refl s
  cases i with
  -- Only four instructions write anything.
  | new index =>
    simp only [execute, Execute.new]
    split
    · exact hself
    · split
      · exact hself
      · next halloc =>
        refine ⟨hself.written, rfl, ?_, hself.calls⟩
        obtain ⟨-, rfl⟩ := Heap.alloc_eq_ok.1 halloc
        show s.heap.classNames <+: (s.heap.add _).classNames
        rw [Heap.classNames, Heap.classNames, Heap.add, Array.toList_push, List.map_append]
        exact List.prefix_append _ _
  | putField index =>
    simp only [execute, Execute.putField]
    split
    · exact hself
    · refine ⟨hself.written, rfl, ?_, hself.calls⟩
      show s.heap.classNames <+: List.map _ (s.heap.setField _ _ _).objects.toList
      rw [Heap.classes_setField]
      exact List.prefix_rfl
  | invokeVirtual index =>
    simp only [execute, Execute.invokeVirtual, Sink.writeAll_eq]
    split
    · exact hself
    · refine ⟨?_, rfl, hself.classes, hself.calls⟩
      show s.sink.written.toList <+: (s.sink.write _).written.toList
      rw [Sink.write, Array.toList_append]
      exact List.prefix_append _ _
  | invokeSpecial index =>
    simp only [execute, Execute.invokeSpecial]
    split
    · exact hself
    · exact (s.untouched_record _).grows
  | _ => exact hself

end Session

/-- A turn takes nothing back. -/
theorem Frame.grows_turn (p : Program) (s : Session) (f : Frame) : s.Grows (f.turn p s).1 :=
  turn_induction (P := fun r => s.Grows r.1) (.refl s) (fun _ _ => .refl s)
    fun _ _ _ _ => (s.untouched_record _).grows.trans (Session.grows_execute p _ f _)

namespace State

variable {c : Config}

/-- Neither does a call. -/
theorem grows_call (c : Config) (s : Session) (m : Method) (args : List Int32)
    (callers : List Frame) : s.Grows (call c s m args callers).session := by
  have hpasses := (call_passes c s m args callers).grows
  split at hpasses
  · exact (s.grows_book c.promotion m).trans hpasses
  · exact hpasses

/-- Neither does what follows from a turn. -/
theorem grows_apply (c : Config) (m : Method) (next : Nat) (callers : List Frame)
    (r : Session × Except Fault Effect) : r.1.Grows (apply c m next callers r).session := by
  rcases apply_passes c m next callers r with hpasses | ⟨callee, hpasses⟩
  · exact hpasses.grows
  · exact (r.1.grows_book c.promotion callee).trans hpasses.grows

/-- Neither does a step. -/
theorem grows_step (p : Program) (c : Config) (state : State) :
    state.session.Grows (step p c state).session := by
  cases state with
  | halted s outcome => exact .refl s
  | running s f callers =>
    rw [step_running]
    exact (f.grows_turn p s).trans (grows_apply c f.method _ callers _)

/-- Nothing is taken back from one state of a run to a later one. -/
theorem grows_advance (p : Program) (c : Config) (fuel : Nat) (state : State) :
    state.session.Grows (advance p c fuel state).session := by
  induction fuel generalizing state with
  | zero => exact .refl _
  | succ fuel ih =>
    rw [advance_succ]
    exact (grows_step p c state).trans (ih _)

/-- Nothing is taken back when a request is taken up. -/
theorem grows_start (p : Program) (c : Config) (s : Session) (r : Request) :
    s.Grows (r.start p c s).session := by
  cases r with
  | run =>
    simp only [Request.start]
    split
    · exact grows_call c s _ _ _
    · exact .refl s
  | invoke key args =>
    simp only [Request.start]
    split
    · exact grows_call c s _ _ _
    · exact .refl s
  | interpret key args =>
    simp only [Request.start]
    split
    · exact (enter_passes c s _ _ _).grows
    · exact .refl s

end State

/-- Nothing is taken back by a request. -/
theorem Request.grows_perform {p : Program} {c : Config} {fuel : Nat} {s t : Session} {r : Request}
    {outcome : Except Fault Int32} (h : r.perform p c fuel s = some (t, outcome)) : s.Grows t := by
  obtain ⟨result, hhalted, -⟩ := perform_eq_some.1 h
  have hrun := State.grows_advance p c fuel (r.start p c s)
  rw [hhalted] at hrun
  exact (State.grows_start p c s r).trans hrun

end TieredJvm
