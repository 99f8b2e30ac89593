import TieredJvm.Proofs.Machine.Effects

/-!
# The turn of a frame

A step has two parts. What the frame on top does by itself, its turn, depends on the program, on the
heap and on the output; the callers and the settings do not come into it. What follows for the other
frames is the business of `State.apply`. So two machines that run the same frames can be compared
turn by turn (`State.step_running`, `Frame.turn_congr`), and differ only where they treat the effect
of a turn differently.

A turn leaves the activation that it is the turn of, and none of the faults that it raises are about
the number of frames, the arguments of a call or the lack of an entry point (`Frame.turn_within`).
-/

namespace TieredJvm

/-- The faults that a frame raises by itself. To refuse a call, for its arguments or for the number
of frames, is not up to a frame, and neither is it to find an entry point. -/
def Fault.IsOwn : Fault → Prop
  | program (.malformedDescriptor _) => True
  | program _ | callDepthExceeded _ | tooManyArguments _ _ => False
  | _ => True

/-- The faults of instructions are such. -/
theorem Fault.RaisedAt.isOwn {pc : Nat} {fault : Fault} (h : fault.RaisedAt pc) : fault.IsOwn := by
  cases fault with
  | program cause =>
    cases cause with
    | malformedDescriptor text => trivial
    | duplicateMethod key => exact h
    | missingMain => exact h
  | callDepthExceeded limit => exact h
  | tooManyArguments given maxLocals => exact h
  | _ => trivial

/-- The faults of reading an instruction are such. -/
theorem fetch_isOwn {code : Array UInt8} {pc : Nat} {h : pc < code.size} {fault : Fault}
    (hfetch : fetch code pc h = .error fault) : fault.IsOwn := by
  unfold fetch at hfetch
  split at hfetch
  · cases hfetch
    trivial
  · split at hfetch
    · cases hfetch
    · cases hfetch
      trivial

namespace Frame

/-- The position behind the instruction before which a frame stands. -/
def following (f : Frame) : Nat :=
  if h : f.pc < f.method.code.size then
    match fetch f.method.code f.pc h with
    | .ok ⟨op, _, _⟩ => f.pc + op.width
    | .error _ => f.pc
  else f.pc

/-- What the frame on top does by itself: it executes the instruction before which it stands, raises
the fault of one that cannot be read, or ends with zero where its code ends. -/
def turn (p : Program) (s : Session) (f : Frame) : Session × Except Fault Effect :=
  if h : f.pc < f.method.code.size then
    match fetch f.method.code f.pc h with
    | .ok ⟨op, x, y⟩ =>
      execute p (s.record (.executing f.pc op x y)) f (Instruction.decode op x y)
    | .error fault => (s, .error fault)
  else (s, .ok (.finish 0))

/-- What holds of the end of the code, of an instruction that cannot be read, and of every
instruction that can be, holds of every turn. -/
theorem turn_induction {p : Program} {s : Session} {f : Frame}
    {P : Session × Except Fault Effect → Prop} (atEnd : P (s, .ok (.finish 0)))
    (unread : ∀ fault : Fault, fault.IsOwn → P (s, .error fault))
    (read : ∀ pc op x y,
      P (execute p (s.record (.executing pc op x y)) f (Instruction.decode op x y))) :
    P (f.turn p s) := by
  unfold turn
  split
  · split
    · exact read _ _ _ _
    · next hfetch => exact unread _ (fetch_isOwn hfetch)
  · exact atEnd

end Frame

/-- A step is the turn of the frame on top and what follows from it. -/
theorem State.step_running (p : Program) (c : Config) (s : Session) (f : Frame)
    (callers : List Frame) :
    step p c (running s f callers) = apply c f.method f.following callers (f.turn p s) := by
  by_cases hpc : f.pc < f.method.code.size
  · cases hfetch : fetch f.method.code f.pc hpc with
    | error fault =>
      rw [step_of_fetch_error p c s f callers hpc hfetch]
      simp only [Frame.turn, dif_pos hpc, hfetch, apply]
    | ok fetched =>
      obtain ⟨op, x, y⟩ := fetched
      rw [step_of_fetch_ok p c s f callers hpc hfetch]
      simp only [Frame.turn, Frame.following, dif_pos hpc, hfetch]
  · rw [step_of_end p c s f callers hpc]
    simp only [Frame.turn, dif_neg hpc, apply]

namespace Frame

variable (p : Program) (s : Session) (f : Frame)

/-- A turn calls methods of the program only, each with its number of arguments. -/
theorem turn_calls : Ensures (Effect.CallsWithin p) (fun _ => True) (f.turn p s).2 :=
  turn_induction (P := fun r => Ensures _ _ r.2) trivial (fun _ _ => trivial)
    fun _ _ _ _ => execute_calls p _ f _

/-- What a turn leaves is the same activation, and the faults of a turn are the frame's own. -/
theorem turn_within : Ensures (Effect.Within f) Fault.IsOwn (f.turn p s).2 := by
  refine turn_induction (P := fun r => Ensures _ _ r.2) trivial (fun _ hfault => hfault) ?_
  intro pc op x y
  have hwithin := execute_within p (s.record (.executing pc op x y)) f (.decode op x y)
  revert hwithin
  cases (execute p (s.record (.executing pc op x y)) f (.decode op x y)).2 with
  | ok effect => exact id
  | error fault => exact fun hfault => Fault.RaisedAt.isOwn hfault

/-- A turn leaves what is remembered about the methods. -/
theorem profiles_turn : (f.turn p s).1.profiles = s.profiles :=
  turn_induction (P := fun r => r.1.profiles = _) rfl (fun _ _ => rfl)
    fun _ _ _ _ => profiles_execute p _ f _

/-- In two sessions with the same heap and the same output a turn has the same effect, and leaves
the same heap and the same output. -/
theorem turn_congr {s t : Session} (hheap : t.heap = s.heap) (hsink : t.sink = s.sink) :
    (f.turn p t).2 = (f.turn p s).2 ∧ (f.turn p t).1.heap = (f.turn p s).1.heap ∧
      (f.turn p t).1.sink = (f.turn p s).1.sink := by
  unfold turn
  split
  · split
    · exact execute_congr p (by exact hheap) (by exact hsink) f _
    · exact ⟨rfl, hheap, hsink⟩
  · exact ⟨rfl, hheap, hsink⟩

end Frame

end TieredJvm
