import TieredJvm.Proofs.Machine.Forwarding
import TieredJvm.Proofs.Machine.Numbering
import TieredJvm.Proofs.Machine.Turn
import TieredJvm.Proofs.Promotion.Lifecycle

/-!
# The method table as a map

A run knows the methods of its program by what their keys find, and by nothing else. So the order of
the table makes no difference, and neither do further methods, as long as the run asks for no key
that only the larger table has (`method_table_is_map`).

A program embeds in another if it has the same constants and its keys find the same methods there.
Over the two programs a frame does the same in its turn, unless it asks for a key that only the
larger program has; over the smaller one that is the fault of a missing method, with which the run
ends. So the two runs go through the same states to the end, or that of the smaller program comes to
that fault (`Program.Embeds.advance`). The other methods of the larger program are not called
meanwhile, since the smaller one does not find them (`History.profile_of_missing`).

The number of a method is not the same in the two tables. What is remembered under it is, since it
is what is remembered under the key (`Request.BooksByNumber`).
-/

namespace TieredJvm

namespace Program

variable {p p' : Program}

/-! ## Embedding -/

/-- The program `p` embeds in `p'`: they have the same constants, and what a key finds in `p` it
finds in `p'`. -/
structure Embeds (p p' : Program) : Prop where
  /-- The constants are the same. -/
  pool : p'.pool = p.pool
  /-- The methods are found under their keys. -/
  find? : ∀ key m, p.find? key = some m → p'.find? key = some m

/-- Where the methods of one table are among those of another, in whatever order, the one program
embeds in the other. -/
theorem embeds_of_subset (hpool : p'.pool = p.pool) (hmethods : p.methods ⊆ p'.methods) :
    p.Embeds p' := by
  refine ⟨hpool, fun key m hfind => ?_⟩
  rw [find?_eq_some_iff] at hfind ⊢
  exact ⟨hmethods hfind.1, hfind.2⟩

/-- The programs find different things under the key. -/
def Differ (p p' : Program) (key : MethodKey) : Prop :=
  p'.find? key ≠ p.find? key

/-- Under a key both programs find the same, or the smaller one finds nothing and the other does. -/
theorem Embeds.find?_cases (h : p.Embeds p') (key : MethodKey) :
    p'.find? key = p.find? key ∨ p.find? key = none ∧ p.Differ p' key := by
  cases hfind : p.find? key with
  | some m => exact .inl (h.find? key m hfind)
  | none =>
    cases hfind' : p'.find? key with
    | none => exact .inl rfl
    | some m => exact .inr ⟨rfl, by rw [Differ, hfind, hfind']; nofun⟩

/-- Programs of which each embeds in the other find the same. -/
theorem Embeds.find?_eq (h : p.Embeds p') (h' : p'.Embeds p) (key : MethodKey) :
    p'.find? key = p.find? key := by
  obtain hsame | ⟨hnone, -⟩ := h.find?_cases key
  · exact hsame
  · obtain hsame' | ⟨hnone', -⟩ := h'.find?_cases key
    · exact hsame'.symm
    · rw [hnone, hnone']

/-- Programs that find the same start with the same method. -/
theorem entryPoint_congr (h : ∀ key, p'.find? key = p.find? key) :
    p'.entryPoint = p.entryPoint := by
  simp only [entryPoint, h]

/-! ## Runs over two tables -/

/-- The computation over the smaller program has failed to find a method that the other has. -/
def Misses (p p' : Program) {α : Type} (r : Except Fault α) : Prop :=
  ∃ key, p.Differ p' key ∧ r = .error (.methodNotFound key)

/-- The run over the smaller program has come to such a fault. -/
def Strands (p p' : Program) (state : State) : Prop :=
  ∃ s r, state = .halted s r ∧ p.Misses p' r

/-- Such a run is the end of a request, with that fault. -/
theorem Strands.finished? {state : State} (h : p.Strands p' state) (r : Request) :
    ∃ t outcome, r.finished? state = some (t, outcome) ∧ p.Misses p' outcome := by
  obtain ⟨s, outcome, rfl, key, hdiffer, rfl⟩ := h
  refine ⟨s, .error (.methodNotFound key), ?_, key, hdiffer, rfl⟩
  cases r <;> rfl

end Program

namespace Program.Embeds

variable {p p' : Program}

/-- A static call is the same over both programs, unless only the larger one has the method. -/
theorem invokeStatic (h : p.Embeds p') (f : Frame) (index : UInt16) :
    Execute.invokeStatic p' f index = Execute.invokeStatic p f index ∨
      p.Misses p' (Execute.invokeStatic p f index) := by
  unfold Execute.invokeStatic
  rw [h.pool]
  cases p.pool.methodRef index with
  | error cause => exact .inl rfl
  | ok member =>
    simp only [Execute.resolved, bind, Except.bind]
    obtain hsame | ⟨hnone, hdiffer⟩ := h.find?_cases ⟨member.name, member.descriptor⟩
    · left
      rw [hsame]
    · right
      refine ⟨_, hdiffer, ?_⟩
      rw [hnone]
      rfl

/-- An instruction does the same over both programs, unless it asks for a method that only the
larger one has. -/
theorem execute (h : p.Embeds p') (s : Session) (f : Frame) (i : Instruction) :
    TieredJvm.execute p' s f i = TieredJvm.execute p s f i ∨
      p.Misses p' (TieredJvm.execute p s f i).2 := by
  cases i with
  | invokeStatic index => exact (h.invokeStatic f index).imp_left (congrArg (Prod.mk s))
  -- No other instruction looks at the methods.
  | _ => exact .inl (by simp only [TieredJvm.execute, h.pool])

/-- So does a turn. -/
theorem turn (h : p.Embeds p') (s : Session) (f : Frame) :
    f.turn p' s = f.turn p s ∨ p.Misses p' (f.turn p s).2 := by
  unfold Frame.turn
  split
  · split
    · exact h.execute _ f _
    · exact .inl rfl
  · exact .inl rfl

/-- A step leads to the same state over both programs, or the smaller one's run has stranded. -/
theorem step (h : p.Embeds p') (c : Config) (state : State) :
    State.step p' c state = State.step p c state ∨ p.Strands p' (State.step p c state) := by
  cases state with
  | halted s outcome => exact .inl rfl
  | running s f callers =>
    rw [State.step_running, State.step_running]
    obtain hsame | ⟨key, hdiffer, hfault⟩ := h.turn s f
    · left
      rw [hsame]
    · -- The fault closes all frames, and is what the run ends with.
      right
      generalize f.turn p s = r at hfault
      obtain ⟨t, r⟩ := r
      cases hfault
      exact ⟨_, _, rfl, key, hdiffer, rfl⟩

/-- So does a run, after any number of steps. -/
theorem advance (h : p.Embeds p') (c : Config) (fuel : Nat) (state : State) :
    State.advance p' c fuel state = State.advance p c fuel state ∨
      p.Strands p' (State.advance p c fuel state) := by
  induction fuel generalizing state with
  | zero => exact .inl rfl
  | succ fuel ih =>
    rw [State.advance_succ, State.advance_succ]
    obtain hsame | hstrands := h.step c state
    · rw [hsame]
      exact ih _
    · right
      obtain ⟨t, r, hhalted, hmisses⟩ := hstrands
      rw [hhalted, State.advance_halted]
      exact ⟨t, r, rfl, hmisses⟩

/-- A request that names its method starts in the same way, or the smaller program's is refused. -/
theorem start (h : p.Embeds p') (c : Config) (s : Session) {r : Request}
    (hentry : r = .run → p'.entryPoint = p.entryPoint) :
    r.start p' c s = r.start p c s ∨ p.Strands p' (r.start p c s) := by
  cases r with
  | run =>
    left
    simp only [Request.start, hentry rfl]
  | invoke key args | interpret key args =>
    simp only [Request.start]
    obtain hsame | ⟨hnone, hdiffer⟩ := h.find?_cases key
    · left
      rw [hsame]
    · right
      rw [hnone]
      exact ⟨s, _, rfl, key, hdiffer, rfl⟩

/-- A request comes to the same over both programs, in the same number of steps, unless that over
the smaller one ends for want of a method that the other has. -/
theorem perform (h : p.Embeds p') (c : Config) (fuel : Nat) (s : Session) (r : Request)
    (hentry : r = .run → p'.entryPoint = p.entryPoint) :
    r.perform p' c fuel s = r.perform p c fuel s ∨
      ∃ t outcome, r.perform p c fuel s = some (t, outcome) ∧ p.Misses p' outcome := by
  unfold Request.perform
  obtain hstart | ⟨t, outcome, hhalted, hmisses⟩ := h.start c s hentry
  · rw [hstart]
    obtain hsame | hstrands := h.advance c fuel (r.start p c s)
    · left
      rw [hsame]
    · exact .inr (hstrands.finished? r)
  · right
    rw [hhalted, State.advance_halted]
    exact Program.Strands.finished? ⟨t, outcome, rfl, hmisses⟩ r

end Program.Embeds

/-! ## Methods of which a program knows nothing -/

/-- What is remembered about a method that the program does not have stays as it is. -/
theorem History.profile_of_missing {p : Program} {c : Config} {start state : State}
    {moves : List Move} (h : History p c start moves state) {key : MethodKey}
    (hkey : p.find? key = none) : state.session.profile key = start.session.profile key := by
  induction h with
  | nil => rfl
  | @snoc moves state earlier move last ih =>
    -- The move books a method of the program, if any, and that is another one.
    obtain ⟨t, hbefore, hafter, hfind⟩ := move.next_booked p c
    have hbooked : (t.bookIf c.promotion (move.booked? p)).profile key = t.profile key := by
      cases hbooks : move.booked? p with
      | none => rfl
      | some m =>
        refine t.profile_book_of_ne c.promotion fun heq => ?_
        rw [heq, hfind m hbooks] at hkey
        cases hkey
    calc (move.next p c).session.profile key
        = (t.bookIf c.promotion (move.booked? p)).profile key := by
          rw [Session.profile, Session.profile, hafter.profiles]
      _ = t.profile key := hbooked
      _ = move.session.profile key := by rw [Session.profile, Session.profile, hbefore.profiles]
      _ = start.session.profile key := by rw [last.session_eq, ih]

/-- So it does when a request has ended. -/
theorem Request.profile_of_missing {p : Program} {c : Config} {fuel : Nat} {s t : Session}
    {r : Request} {outcome : Except Fault Int32} (h : r.perform p c fuel s = some (t, outcome))
    {key : MethodKey} (hkey : p.find? key = none) : t.profile key = s.profile key := by
  obtain ⟨moves, outcome', hmoves⟩ := History.of_perform h (.ok 0)
  exact hmoves.profile_of_missing hkey

/-- Execution depends on the method table only as a map. Take the methods of a program, in any order
and perhaps with others, as another program over the same constants, and a call from outside in a
new session. If over the first program it ends, and not for want of a method, then over the second
it ends in the same session with the same result: the output, the objects, and the counts and the
compiled code of all methods are the same, and the other methods were never called. In each of the
two tables what is remembered about a method is also what comes of booking the calls of its run
under the number of the method there. If there are no other methods, then the two programs come to
the same with every request, and however it ends. -/
theorem method_table_is_map (pool : ConstantPool) (methods methods' : List Method) (p p' : Program)
    (hp : Program.ofMethods pool methods = .ok p) (hp' : Program.ofMethods pool methods' = .ok p')
    (hmethods : methods ⊆ methods') (c : Config) (sink : Sink) (detail : Option Level) :
    (∀ key args fuel t outcome,
        Request.perform p c fuel { sink, journal := { detail } } (.invoke key args) =
            some (t, outcome) →
        (∀ key', outcome ≠ .error (.methodNotFound key')) →
        Request.perform p' c fuel { sink, journal := { detail } } (.invoke key args) =
            some (t, outcome) ∧
          (∀ m ∈ methods', m ∉ methods →
            (t.profile m.key).calls = 0 ∧ (t.profile m.key).slot = .untried) ∧
          Request.BooksByNumber (.invoke key args) p c { sink, journal := { detail } } t ∧
          Request.BooksByNumber (.invoke key args) p' c { sink, journal := { detail } } t) ∧
      (methods.Perm methods' → ∀ r fuel,
        Request.perform p' c fuel { sink, journal := { detail } } r =
          Request.perform p c fuel { sink, journal := { detail } } r) := by
  obtain ⟨hpool, rfl⟩ := Program.ofMethods_eq_ok hp
  obtain ⟨hpool', rfl⟩ := Program.ofMethods_eq_ok hp'
  have hsame : p'.pool = p.pool := hpool'.trans hpool.symm
  have hembeds : p.Embeds p' := Program.embeds_of_subset hsame hmethods
  refine ⟨fun key args fuel t outcome hend hfound => ?_, fun hperm r fuel => ?_⟩
  · have hend' : Request.perform p' c fuel { sink, journal := { detail } } (.invoke key args) =
        some (t, outcome) := by
      obtain heq | ⟨t', outcome', hstranded, key', -, hfault⟩ :=
        hembeds.perform c fuel { sink, journal := { detail } } (.invoke key args) nofun
      · rw [heq, hend]
      · rw [hend] at hstranded
        cases hstranded
        exact absurd hfault (hfound key')
    refine ⟨hend', fun m hm hnew => ?_, Request.booksByNumber_of_perform hend,
      Request.booksByNumber_of_perform hend'⟩
    -- The key of another method finds nothing in the smaller program.
    have hmissing : p.find? m.key = none := by
      cases hfind : p.find? m.key with
      | none => rfl
      | some m' =>
        have hfind' := hembeds.find? _ _ hfind
        rw [Program.find?_key hm] at hfind'
        cases hfind'
        exact absurd (Program.find?_eq_some_iff.1 hfind).1 hnew
    rw [Request.profile_of_missing hend hmissing]
    exact ⟨rfl, rfl⟩
  · have hembeds' : p'.Embeds p := Program.embeds_of_subset hsame.symm hperm.symm.subset
    have hfind := hembeds.find?_eq hembeds'
    obtain heq | ⟨t, outcome, -, key, hdiffer, -⟩ :=
      hembeds.perform c fuel { sink, journal := { detail } } r fun _ =>
        Program.entryPoint_congr hfind
    · exact heq
    · exact absurd (hfind key) hdiffer

/-- The program of `relay` and `minus` in the other order, after a method that they do not call. -/
def Program.relayingBehind : Program :=
  ⟨Program.relaying.pool, [Method.doubledSum, Method.relay, Method.minus], by decide⟩

/-- The program of `relay` and `minus` in the other order. -/
def Program.relayingBack : Program :=
  ⟨Program.relaying.pool, [Method.relay, Method.minus], by decide⟩

/-- A call of `relay`, which calls `minus` and has it compiled, over three tables. -/
theorem method_table_is_map_relay :
    Program.ofMethods Program.relaying.pool [.minus, .relay] = .ok .relaying ∧
      Program.ofMethods Program.relaying.pool [.doubledSum, .relay, .minus] =
        .ok .relayingBehind ∧
      Program.ofMethods Program.relaying.pool [.relay, .minus] = .ok .relayingBack ∧
      (∃ t, Request.perform .relaying ⟨2, true, 1⟩ 10 {} (.invoke Method.relay.key [7, 2]) =
            some (t, .ok 5) ∧
          Request.perform .relayingBehind ⟨2, true, 1⟩ 10 {} (.invoke Method.relay.key [7, 2]) =
            some (t, .ok 5) ∧
          (t.profile Method.doubledSum.key).calls = 0 ∧
          (t.profile Method.doubledSum.key).slot = .untried ∧
          Request.BooksByNumber (.invoke Method.relay.key [7, 2]) .relaying ⟨2, true, 1⟩ {} t ∧
          Request.BooksByNumber (.invoke Method.relay.key [7, 2]) .relayingBehind ⟨2, true, 1⟩
            {} t) ∧
      Request.perform .relayingBack ⟨2, true, 1⟩ 10 {} .run =
        Request.perform .relaying ⟨2, true, 1⟩ 10 {} .run := by
  have hrelaying : Program.ofMethods Program.relaying.pool [.minus, .relay] = .ok .relaying := rfl
  have hbehind : Program.ofMethods Program.relaying.pool [.doubledSum, .relay, .minus] =
      .ok .relayingBehind := rfl
  have hback : Program.ofMethods Program.relaying.pool [.relay, .minus] = .ok .relayingBack := rfl
  have hends : (Request.perform .relaying ⟨2, true, 1⟩ 10 {} (.invoke Method.relay.key [7, 2])).map
      Prod.snd = some (.ok 5) := by decide +kernel
  obtain ⟨⟨t, _⟩, hend, rfl⟩ := Option.map_eq_some_iff.1 hends
  obtain ⟨hsame, hothers, hbooks, hbooks'⟩ := (method_table_is_map _ _ _ _ _ hrelaying hbehind
    (by simp) ⟨2, true, 1⟩ {} none).1 _ _ _ _ _ hend nofun
  have hrun := (method_table_is_map _ _ _ _ _ hrelaying hback (by simp) ⟨2, true, 1⟩ {} none).2
    (.swap _ _ _) .run 10
  have hnew : Method.doubledSum ∉ [Method.minus, .relay] := by
    simp [Method.doubledSum, Method.minus, Method.relay]
  obtain ⟨hcalls, hslot⟩ := hothers _ (by simp) hnew
  exact ⟨hrelaying, hbehind, hback, ⟨t, hend, hsame, hcalls, hslot, hbooks, hbooks'⟩, hrun⟩

end TieredJvm
