import TieredJvm.Proofs.Machine.Growth

/-!
# Raising the limit of depth is conservative

A request that ends below the limit of depth ends in the same session and with the same result under
any higher limit. One that ends at the limit has done a first part of what it does under a higher
one: the output is continued, the objects stay, and no method is called less often
(`raised_limit_conservative`).

The limit matters in one place only, where a frame is opened. So the two machines go through the
same states until the lower limit refuses a frame; then the first stops, and the second goes on from
the same session, in which nothing is taken back (`State.Cut`).
-/

namespace TieredJvm

/-- The settings `c'` are `c` with the limit of depth perhaps raised. -/
structure Config.Raised (c c' : Config) : Prop where
  /-- The limit is not lower. -/
  limit : c.maxCallDepth ≤ c'.maxCallDepth
  /-- Methods are compiled in the same calls. -/
  promotion : c'.promotion = c.promotion

namespace State

/-- The state of the machine with the lower limit is that of the other, or it was cut off at its
limit, and the other has done no less since. -/
inductive Cut (limit : Nat) : State → State → Prop where
  /-- Both machines are in the same state. -/
  | same (state : State) : Cut limit state state
  /-- The first machine has refused a frame. -/
  | refused {u : Session} {state : State} (grows : u.Grows state.session) :
      Cut limit (halted u (.error (.callDepthExceeded limit))) state

/-- The machine with the higher limit has done no less. -/
theorem Cut.grows {limit : Nat} {state state' : State} (h : Cut limit state state') :
    state.session.Grows state'.session := by
  cases h with
  | same => exact .refl _
  | refused grows => exact grows

variable {p : Program} {c c' : Config}

/-- Opening a frame under both limits. -/
theorem enter_cut (h : c.Raised c') (s : Session) (m : Method) (args : List Int32)
    (callers : List Frame) :
    Cut c.maxCallDepth (enter c s m args callers) (enter c' s m args callers) := by
  have hlimit := h.limit
  by_cases hroom : callers.length < c.maxCallDepth
  · have hroom' : callers.length < c'.maxCallDepth := by omega
    have hsame : enter c' s m args callers = enter c s m args callers := by
      unfold enter
      rw [if_pos hroom, if_pos hroom']
    rw [hsame]
    exact .same _
  · -- The refusal closes the frames, which only the journal shows.
    have hrefused : enter c s m args callers =
        unwind s (.callDepthExceeded c.maxCallDepth) (callers.map Frame.method) := if_neg hroom
    have hunwound := (unwind_passes s (.callDepthExceeded c.maxCallDepth)
      (callers.map Frame.method)).toUntouched
    rw [hrefused]
    exact .refused (hunwound.symm.grows.trans (enter_passes c' s m args callers).grows)

/-- A call under both limits. It is booked in the same way, and native code takes no frame. -/
theorem call_cut (h : c.Raised c') (s : Session) (m : Method) (args : List Int32)
    (callers : List Frame) :
    Cut c.maxCallDepth (call c s m args callers) (call c' s m args callers) := by
  unfold call
  rw [h.promotion]
  split
  · exact .same _
  · dsimp only
    split
    · exact .same _
    · exact enter_cut h _ m args callers
    · exact enter_cut h _ m args callers

/-- A step under both limits, from the same state. -/
theorem step_cut (h : c.Raised c') (state : State) :
    Cut c.maxCallDepth (step p c state) (step p c' state) := by
  cases state with
  | halted s outcome => exact .same _
  | running s f callers =>
    rw [step_running, step_running]
    -- The turn of the frame is the same; of what can follow, only a call looks at the limit.
    match f.turn p s with
    | (t, .error fault) => exact .same _
    | (t, .ok (.proceed g)) => exact .same _
    | (t, .ok (.jump g target)) => exact .same _
    | (t, .ok (.finish value)) => exact .same _
    | (t, .ok (.call callee args g)) => exact call_cut h t callee args _

/-- A run under both limits. -/
theorem advance_cut (h : c.Raised c') (fuel : Nat) {state state' : State}
    (hstate : Cut c.maxCallDepth state state') :
    Cut c.maxCallDepth (advance p c fuel state) (advance p c' fuel state') := by
  induction fuel generalizing state state' with
  | zero => exact hstate
  | succ fuel ih =>
    rw [advance_succ, advance_succ]
    apply ih
    cases hstate with
    | same state => exact step_cut h state
    | refused grows => exact .refused (grows.trans (grows_step p c' _))

end State

/-- The start of a request under both limits. -/
theorem Request.start_cut {p : Program} {c c' : Config} (h : c.Raised c') (s : Session)
    (r : Request) : State.Cut c.maxCallDepth (r.start p c s) (r.start p c' s) := by
  cases r with
  | run =>
    simp only [start]
    split
    · exact State.call_cut h s _ [] []
    · exact .same _
  | invoke key args =>
    simp only [start]
    split
    · exact State.call_cut h s _ args []
    · exact .same _
  | interpret key args =>
    simp only [start]
    split
    · exact State.enter_cut h s _ args []
    · exact .same _

/-- Raising the limit of depth is conservative. Take any request, from any session, that ends under
some limit. If it does not end at the limit, then under any higher limit it ends in the same session
with the same result. In any case, where it ends under a higher limit, the output under the lower
limit is the beginning of the output, the objects are the first of the objects, each of its class,
and no method was called less often than under the lower limit, if its count fits in 32 bits to
begin with. -/
theorem raised_limit_conservative (p : Program) (policy : PromotionPolicy) (low high : Nat)
    (hle : low ≤ high) (s : Session) (r : Request) (fuel : Nat) (t : Session)
    (outcome : Except Fault Int32)
    (hend : r.perform p ⟨low, policy⟩ fuel s = some (t, outcome)) :
    (outcome ≠ .error (.callDepthExceeded low) →
        r.perform p ⟨high, policy⟩ fuel s = some (t, outcome)) ∧
      ∀ fuel' t' outcome', r.perform p ⟨high, policy⟩ fuel' s = some (t', outcome') →
        t.sink.written.toList <+: t'.sink.written.toList ∧
          t.heap.classNames <+: t'.heap.classNames ∧
          ∀ key, (s.profile key).calls ≤ Profile.maxCalls →
            (t.profile key).calls ≤ (t'.profile key).calls := by
  have hraised : Config.Raised ⟨low, policy⟩ ⟨high, policy⟩ := ⟨hle, rfl⟩
  obtain ⟨result, hhalted, rfl⟩ := Request.perform_eq_some.1 hend
  have hstart := Request.start_cut (p := p) hraised s r
  have hcut := State.advance_cut (p := p) hraised fuel hstart
  rw [hhalted] at hcut
  refine ⟨fun hdepth => ?_, fun fuel' t' outcome' hend' => ?_⟩
  · generalize hstate : State.advance p ⟨high, policy⟩ fuel (r.start p ⟨high, policy⟩ s) = state
      at hcut
    cases hcut with
    | same => exact Request.perform_eq_some.2 ⟨result, hstate, rfl⟩
    | refused grows =>
      -- A fault of the call is the fault of the request.
      cases r <;> exact absurd rfl hdepth
  · obtain ⟨result', hhalted', -⟩ := Request.perform_eq_some.1 hend'
    -- The machine with the higher limit comes to its end from where the other one has ended.
    have hlater := State.grows_advance p ⟨high, policy⟩ fuel'
      (State.advance p ⟨high, policy⟩ fuel (r.start p ⟨high, policy⟩ s))
    rw [State.advance_advance_of_halted hhalted'] at hlater
    have hgrows : t.Grows t' := hcut.grows.trans hlater
    have hbefore : s.Grows t := Request.grows_perform hend
    exact ⟨hgrows.written, hgrows.classes,
      fun key hfits => (hgrows.calls key (hbefore.calls key hfits).2).1⟩

/-- A method that prints a number, does the same with the number below it, and prints the number
again; with zero it does nothing. -/
def Method.descend : Method where
  key := ⟨"descend", "(I)V"⟩
  signature := ⟨[.int], none⟩
  ofDescriptor_eq := by cbv
  code := #[0x1a, 0x9e, 0x00, 0x17, 0xb2, 0x00, 0x01, 0x1a, 0xb6, 0x00, 0x09, 0x1a, 0x02, 0x60,
    0xb8, 0x00, 0x06, 0xb2, 0x00, 0x01, 0x1a, 0xb6, 0x00, 0x09, 0xb1]
  maxStack := 2
  maxLocals := 1

/-- The program whose one method is `descend`. -/
def Program.descending : Program :=
  ⟨.ofList [.utf8 "Main", .classRef 1, .utf8 "descend", .utf8 "(I)V", .nameAndType 3 4,
    .methodRef 2 5, .utf8 "print", .nameAndType 7 4, .methodRef 2 8], [Method.descend], by decide⟩

/-- From two downwards, `descend` needs three frames. With room for two it is cut off when it has
printed two numbers, and with room for three it prints them again; with room for four it does the
same. -/
theorem raised_limit_conservative_descend :
    ∃ t t', Request.perform .descending ⟨2, {}⟩ 40 {} (.invoke Method.descend.key [2]) =
          some (t, .error (.callDepthExceeded 2)) ∧
        Request.perform .descending ⟨3, {}⟩ 40 {} (.invoke Method.descend.key [2]) =
          some (t', .ok 0) ∧
        Request.perform .descending ⟨4, {}⟩ 40 {} (.invoke Method.descend.key [2]) =
          some (t', .ok 0) ∧
        t.sink.written = "21".toUTF8.data ∧ t'.sink.written = "2112".toUTF8.data ∧
        t.sink.written.toList <+: t'.sink.written.toList ∧
        (t.profile Method.descend.key).calls ≤ (t'.profile Method.descend.key).calls := by
  have hlow : (Request.perform .descending ⟨2, {}⟩ 40 {} (.invoke Method.descend.key [2])).map
      (fun e => (e.1.sink.written, e.2)) =
        some ("21".toUTF8.data, .error (.callDepthExceeded 2)) := by decide +kernel
  have hhigh : (Request.perform .descending ⟨3, {}⟩ 40 {} (.invoke Method.descend.key [2])).map
      (fun e => (e.1.sink.written, e.2)) = some ("2112".toUTF8.data, .ok 0) := by decide +kernel
  obtain ⟨⟨t, _⟩, hlow, hends⟩ := Option.map_eq_some_iff.1 hlow
  obtain ⟨hwritten, rfl⟩ := Prod.mk.inj hends
  obtain ⟨⟨t', _⟩, hhigh, hends'⟩ := Option.map_eq_some_iff.1 hhigh
  obtain ⟨hwritten', rfl⟩ := Prod.mk.inj hends'
  have hhigher := raised_limit_conservative .descending {} 3 4 (by decide) {} _ 40 t' _ hhigh
  have hcut := raised_limit_conservative .descending {} 2 3 (by decide) {} _ 40 t _ hlow
  obtain ⟨hbegins, -, hcalls⟩ := hcut.2 40 t' _ hhigh
  exact ⟨t, t', hlow, hhigh, hhigher.1 (by simp), hwritten, hwritten', hbegins,
    hcalls _ (by decide)⟩

end TieredJvm
