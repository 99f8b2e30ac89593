import TieredJvm.Machine.Request

/-!
# Runs of the machine

What holds of runs whatever the program. `State.advance` counts steps, so a run that has ended
within some number of steps ends in the same way within any larger number
(`advance_advance_of_halted`), and a request has at most one end (`Request.perform_unique`).

`Performs` lists the ends of requests that are carried out one after another in one session, and
`State.Reachable` are the states that the machine passes through meanwhile.
-/

namespace TieredJvm

/-- Whether two results are the same is decided by their values, or by their errors. -/
instance decidableEqExcept {ε α : Type} [DecidableEq ε] [DecidableEq α] : DecidableEq (Except ε α)
  | .ok a, .ok b => decidable_of_iff (a = b) ⟨congrArg Except.ok, Except.ok.inj⟩
  | .error a, .error b => decidable_of_iff (a = b) ⟨congrArg Except.error, Except.error.inj⟩
  | .ok _, .error _ => isFalse nofun
  | .error _, .ok _ => isFalse nofun

namespace Session

/-- The second session differs from the first in its journal at most. -/
structure Untouched (s t : Session) : Prop where
  /-- The objects are the same. -/
  heap : t.heap = s.heap
  /-- The output is the same. -/
  sink : t.sink = s.sink
  /-- What is remembered about the methods is the same. -/
  profiles : t.profiles = s.profiles

/-- A session differs from itself in nothing. -/
theorem Untouched.refl (s : Session) : Untouched s s := ⟨rfl, rfl, rfl⟩

/-- Differing in the journal at most is transitive. -/
theorem Untouched.trans {s t u : Session} (hst : Untouched s t) (htu : Untouched t u) :
    Untouched s u :=
  ⟨htu.heap.trans hst.heap, htu.sink.trans hst.sink, htu.profiles.trans hst.profiles⟩

/-- Differing in the journal at most is symmetric. -/
theorem Untouched.symm {s t : Session} (h : Untouched s t) : Untouched t s :=
  ⟨h.heap.symm, h.sink.symm, h.profiles.symm⟩

/-- Telling of an event touches the journal only. -/
theorem untouched_record (s : Session) (e : Event) : Untouched s (s.record e) := ⟨rfl, rfl, rfl⟩

/-- Telling of a list of events touches the journal only. -/
theorem untouched_foldl_record {α : Type} (event : α → Event) (items : List α) (s : Session) :
    Untouched s (items.foldl (fun s a => s.record (event a)) s) := by
  induction items generalizing s with
  | nil => exact .refl s
  | cons a items ih => exact (untouched_record s (event a)).trans (ih _)

end Session

namespace State

/-- A run that has ended has also ended if it is looked at after more steps. -/
theorem advance_advance_of_halted {p : Program} {c : Config} {n : Nat} {state : State}
    {s : Session} {outcome : Except Fault Int32} (h : advance p c n state = halted s outcome)
    (k : Nat) : advance p c n (advance p c k state) = halted s outcome := by
  -- The two numbers of steps can be taken in either order, and the end is not left.
  rw [← advance_add, Nat.add_comm, advance_add, h, advance_halted]

end State

namespace Request

/-- A request has ended if its call has come to a halt, and ends as its kind concludes from that. -/
theorem perform_eq_some {p : Program} {c : Config} {fuel : Nat} {s t : Session} {r : Request}
    {outcome : Except Fault Int32} :
    r.perform p c fuel s = some (t, outcome) ↔
      ∃ result, State.advance p c fuel (r.start p c s) = .halted t result ∧
        outcome = r.conclude t result := by
  unfold perform
  constructor
  · intro h
    cases hend : State.advance p c fuel (r.start p c s) with
    | running u f callers =>
      rw [hend] at h
      cases h
    | halted u result =>
      rw [hend] at h
      cases h
      exact ⟨result, rfl, rfl⟩
  · rintro ⟨result, hend, rfl⟩
    rw [hend]
    rfl

/-- A request ends in one way at most, however many steps it is given. -/
theorem perform_unique {p : Program} {c : Config} {s : Session} {r : Request} {n m : Nat}
    {e e' : Session × Except Fault Int32} (h : r.perform p c n s = some e)
    (h' : r.perform p c m s = some e') : e = e' := by
  obtain ⟨t, outcome⟩ := e
  obtain ⟨t', outcome'⟩ := e'
  obtain ⟨result, hhalted, rfl⟩ := perform_eq_some.1 h
  obtain ⟨result', hhalted', rfl⟩ := perform_eq_some.1 h'
  -- After both numbers of steps together the run is in both of its ends.
  have hsame := State.advance_advance_of_halted hhalted m
  rw [hhalted', State.advance_halted] at hsame
  cases hsame
  rfl

end Request

/-- The requests, carried out one after another from a session on, all end, and `ends` are the
sessions after them with their results. -/
inductive Performs (p : Program) (c : Config) :
    Session → List Request → (ends : List (Session × Except Fault Int32)) → Prop where
  /-- Nothing is asked. -/
  | nil (s : Session) : Performs p c s [] []
  /-- The first request ends, and the others follow in the session after it. -/
  | cons {s t : Session} {r : Request} {rs : List Request} {outcome : Except Fault Int32}
      {ends : List (Session × Except Fault Int32)} (fuel : Nat)
      (first : r.perform p c fuel s = some (t, outcome)) (others : Performs p c t rs ends) :
      Performs p c s (r :: rs) ((t, outcome) :: ends)

/-- The sessions that requests lead to, from a session on. -/
inductive Session.Reachable (p : Program) (c : Config) (s : Session) : Session → Prop where
  /-- Nothing was asked yet. -/
  | refl : Reachable p c s s
  /-- One more request has ended. -/
  | request {t u : Session} {r : Request} {outcome : Except Fault Int32} (fuel : Nat)
      (earlier : Reachable p c s t) (last : r.perform p c fuel t = some (u, outcome)) :
      Reachable p c s u

/-- The states that the machine passes through while requests are carried out, from a session
on; the last request need not end. -/
def State.Reachable (p : Program) (c : Config) (s : Session) (state : State) : Prop :=
  ∃ t r n, Session.Reachable p c s t ∧ state = State.advance p c n (Request.start p c t r)

end TieredJvm
