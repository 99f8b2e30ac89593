import Mathlib.Data.List.Forall2
import TieredJvm.Proofs.Machine.Beneath
import TieredJvm.Proofs.Machine.Soundness
import TieredJvm.Proofs.Promotion.Lifecycle

/-!
# Forwarding is transparent

A method that loads its arguments in order, calls another method with them and returns what that
returns does what a call of the other method from outside does, if one more frame is allowed for it
(`forwarding_transparent`).

The call of the wrapper is followed from its start to the call within, which finds the same
arguments (`Method.Forwards.advance_call`). From there the two runs go on as one does with a frame
beneath, and where the frame of the wrapper is handed the value it returns it.
-/

namespace TieredJvm

/-! ## Code as a list of instructions -/

/-- The instructions that are read one after another from `pc` on, the last of which ends where the
code ends. -/
inductive Spells (code : Array UInt8) : (pc : Nat) → List Instruction → Prop where
  /-- All is read. -/
  | done : Spells code code.size []
  /-- An instruction is read, and the others after it. -/
  | next {pc width : Nat} {i : Instruction} {is : List Instruction}
      (first : instructionAt? code pc = some (width, i)) (others : Spells code (pc + width) is) :
      Spells code pc (i :: is)

/-- What is read is read within the code. -/
theorem Spells.le_size {code : Array UInt8} {pc : Nat} {is : List Instruction}
    (h : Spells code pc is) : pc ≤ code.size := by
  induction h with
  | done => exact Nat.le_refl _
  | next first others ih => exact Nat.le_of_add_right_le ih

/-- The first instruction is read at `pc`, and the others after it. -/
theorem Spells.first {code : Array UInt8} {pc : Nat} {i : Instruction} {is : List Instruction}
    (h : Spells code pc (i :: is)) :
    ∃ width, instructionAt? code pc = some (width, i) ∧ Spells code (pc + width) is := by
  cases h with
  | next first others => exact ⟨_, first, others⟩

/-- An instruction that is read has its opcode in the code. -/
theorem Spells.exists_opcode {code : Array UInt8} {pc : Nat} {is : List Instruction}
    (h : Spells code pc is) {i : Instruction} (hi : i ∈ is) :
    ∃ byte ∈ code.toList, ∃ op x y,
      Opcode.ofByte? byte = some op ∧ Instruction.decode op x y = i := by
  induction h with
  | done => cases hi
  | next first others ih =>
    rcases List.mem_cons.1 hi with rfl | hi
    · obtain ⟨byte, hbyte, hop⟩ := Option.bind_eq_some_iff.1 first
      obtain ⟨op, hop, hdecode⟩ := Option.bind_eq_some_iff.1 hop
      obtain ⟨-, hdecode⟩ := Prod.mk.inj (Option.some.inj hdecode)
      exact ⟨byte, Array.mem_toList_iff.2 (Array.mem_of_getElem? hbyte), op, _, _, hop, hdecode⟩
    · exact ih hi

/-- Lowered code calls nothing. -/
theorem Lowering.Scan.not_invokeStatic_of_run {arity pc : Nat} {s s' : Scan} {bytes : List UInt8}
    (h : run arity pc s bytes = .ok s') {byte : UInt8} (hbyte : byte ∈ bytes) {op : Opcode}
    (hop : Opcode.ofByte? byte = some op) (x y : UInt8) (index : UInt16) :
    Instruction.decode op x y ≠ .invokeStatic index := by
  induction bytes generalizing pc s with
  | nil => cases hbyte
  | cons first bytes ih =>
    unfold run at h
    split at h
    · next s₁ hstep =>
      rcases List.mem_cons.1 hbyte with rfl | hbyte
      · -- The scan goes on past the opcodes of two loads, of the addition and of the return.
        rcases step_cases hstep with ⟨r, hop', -⟩ | ⟨hop', -⟩ | ⟨hop', -⟩
        · obtain rfl := Option.some.inj (hop.symm.trans hop')
          rw [Register.decode_loadOpcode]
          exact nofun
        · obtain rfl := Option.some.inj (hop.symm.trans hop')
          exact nofun
        · obtain rfl := Option.some.inj (hop.symm.trans hop')
          exact nofun
      · exact ih h hbyte
    · cases h

/-- A method that calls another is not compiled. -/
theorem Method.not_install_of_spells {m : Method} {is : List Instruction} (h : Spells m.code 0 is)
    {index : UInt16} (hi : .invokeStatic index ∈ is) (entry : NativeEntry) :
    m.install .host ≠ .ok entry := by
  intro hinstall
  obtain ⟨hlower, -⟩ := install_eq_ok hinstall
  obtain ⟨-, s, src, hrun, -, -⟩ := lower_eq_ok hlower
  obtain ⟨byte, hbyte, op, x, y, hop, hdecode⟩ := h.exists_opcode hi
  exact Lowering.Scan.not_invokeStatic_of_run hrun hbyte hop x y index hdecode

namespace State

variable {p : Program} {c : Config}

/-- A frame executes the first of the instructions that are read, and stands before the others. -/
theorem step_of_spells {f : Frame} {i : Instruction} {is : List Instruction}
    (h : Spells f.method.code f.pc (i :: is)) (s : Session) (callers : List Frame) :
    ∃ after t, Spells f.method.code after is ∧ s.Untouched t ∧
      step p c (running s f callers) = apply c f.method after callers (execute p t f i) := by
  obtain ⟨width, hfirst, hothers⟩ := h.first
  obtain ⟨hpc, op, x, y, hfetch, rfl, rfl⟩ := fetch_of_instructionAt? hfirst hothers.le_size
  exact ⟨_, _, hothers, s.untouched_record _, step_of_fetch_ok p c s f callers hpc hfetch⟩

/-- Loads push the values of the local variables, the last on top. -/
theorem advance_loads {m : Method} {locals : Array Int32} {is : List Instruction}
    {slots : List Nat} {values : List Int32}
    (hvalues : List.Forall₂ (fun slot value => locals[slot]? = some value) slots values)
    {pc : Nat} (h : Spells m.code pc (slots.map .load ++ is)) (s : Session) (stack : List Int32)
    (callers : List Frame) :
    ∃ after t, Spells m.code after is ∧ s.Untouched t ∧
      advance p c slots.length (running s ⟨m, pc, stack, locals⟩ callers) =
        running t ⟨m, after, values.reverse ++ stack, locals⟩ callers := by
  induction hvalues generalizing pc s stack with
  | nil => exact ⟨pc, s, h, .refl s, rfl⟩
  | @cons slot value slots values hvalue _ ih =>
    obtain ⟨next, u, hnext, huntouched, hstep⟩ :=
      step_of_spells (p := p) (c := c) (f := ⟨m, pc, stack, locals⟩) h s callers
    have hload : execute p u ⟨m, pc, stack, locals⟩ (.load slot) =
        (u, .ok (.proceed ⟨m, pc, value :: stack, locals⟩)) := by
      simp only [execute, Frame.load, hvalue]
      rfl
    rw [hload] at hstep
    obtain ⟨after, t, hafter, huntouched', hrest⟩ := ih hnext u (value :: stack)
    refine ⟨after, t, hafter, huntouched.trans huntouched', ?_⟩
    rw [List.length_cons, advance_succ, hstep, List.reverse_cons, List.append_assoc]
    exact hrest

end State

/-! ## The wrapper -/

/-- The method `w` forwards to `f`: it loads as many arguments as `f` takes, in their order, calls
`f` and returns the value. What `w` itself declares to take and give plays no part. -/
structure Method.Forwards (p : Program) (w f : Method) : Prop where
  /-- The wrapper is a method of the program. -/
  find : p.find? w.key = some w
  /-- So is the method called. -/
  find_callee : p.find? f.key = some f
  /-- The arguments of the method called are integers and references. -/
  args : ∀ kind ∈ f.signature.args, kind = .int ∨ kind = .reference
  /-- So is its result. -/
  result : f.signature.result = some .int ∨ f.signature.result = some .reference
  /-- The wrapper has local variables for the arguments. -/
  room : f.signature.args.length ≤ w.maxLocals
  /-- The code loads the arguments, calls the method and returns. -/
  code : ∃ index member, p.pool.methodRef index = .ok member ∧
    ⟨member.name, member.descriptor⟩ = f.key ∧
    Spells w.code 0
      ((List.range f.signature.args.length).map .load ++ [.invokeStatic index, .returnValue])

/-- Integers and references are what crosses a call. -/
theorem ValueKind.isWord_iff {kind : ValueKind} :
    kind.isWord = true ↔ kind = .int ∨ kind = .reference := by
  cases kind <;> decide

/-- The arguments stand in the first local variables. -/
theorem Frame.forall₂_initialLocals {maxLocals : Nat} {args : List Int32}
    (h : args.length ≤ maxLocals) :
    List.Forall₂ (fun slot value => (initialLocals maxLocals args)[slot]? = some value)
      (List.range args.length) args := by
  refine List.forall₂_iff_get.2 ⟨List.length_range, fun i hi hi' => ?_⟩
  rw [List.get_eq_getElem, List.get_eq_getElem, List.getElem_range,
    getElem?_initialLocals h (Nat.lt_of_lt_of_le hi' h), List.getD_eq_getElem?_getD,
    List.getElem?_eq_getElem hi', Option.getD_some]

namespace Method.Forwards

variable {p : Program} {c : Config} {w f : Method} {s t : Session} {args : List Int32}

/-- The machine lets the arguments and the result of the method cross the call. -/
theorem isWordSized (h : w.Forwards p f) : f.signature.isWordSized = true := by
  have hargs : ∀ kind ∈ f.signature.args, kind.isWord = true :=
    fun kind hkind => ValueKind.isWord_iff.2 (h.args kind hkind)
  have hresult : f.signature.result.all ValueKind.isWord = true := by
    obtain hint | hreference := h.result
    · rw [hint]
      rfl
    · rw [hreference]
      rfl
  rw [Signature.isWordSized, List.all_eq_true.2 hargs, hresult]
  rfl

/-- The method called hands a value over to the wrapper. -/
theorem returnsValue (h : w.Forwards p f) : f.signature.returnsValue = true := by
  obtain hint | hreference := h.result
  · rw [Signature.returnsValue, hint]
    rfl
  · rw [Signature.returnsValue, hreference]
    rfl

/-- A wrapper is never compiled. -/
theorem not_install (h : w.Forwards p f) (entry : NativeEntry) : w.install .host ≠ .ok entry := by
  obtain ⟨index, member, -, -, hspells⟩ := h.code
  exact not_install_of_spells hspells (List.mem_append_right _ List.mem_cons_self) entry

/-- A call of the wrapper that is booked is one call more of it. -/
theorem beside_book (h : w.Forwards p f) (hs : (s.profile w.key).Uncompiled)
    (policy : PromotionPolicy) : s.Beside w.key (s.book policy w) where
  heap := Session.heap_book s policy w
  sink := Session.sink_book s policy w
  others _ hne := s.profile_book_of_ne policy hne
  calls := by rw [Session.calls_book, if_pos rfl, Profile.count]
  uncompiled := hs
  uncompiled' := Session.uncompiled_book h.not_install policy hs

/-- With its arguments on the stack, the wrapper calls the method. -/
theorem execute_invokeStatic (h : w.Forwards p f) {index : UInt16} {member : MemberRef}
    (hmember : p.pool.methodRef index = .ok member)
    (hkey : ⟨member.name, member.descriptor⟩ = f.key)
    (hargs : args.length = f.signature.args.length) (s : Session) (pc : Nat)
    (locals : Array Int32) :
    execute p s ⟨w, pc, args.reverse, locals⟩ (.invokeStatic index) =
      (s, .ok (.call f args ⟨w, pc, [], locals⟩)) := by
  have hpop : Frame.popMany ⟨w, pc, args.reverse, locals⟩ f.signature.args.length =
      .ok (args, ⟨w, pc, [], locals⟩) := by
    have hlength : args.reverse.length = f.signature.args.length := by
      rw [List.length_reverse, hargs]
    simp only [Frame.popMany]
    rw [if_pos (Nat.le_of_eq hlength.symm), List.take_of_length_le (Nat.le_of_eq hlength),
      List.drop_of_length_le (Nat.le_of_eq hlength), List.reverse_reverse]
  simp only [execute, Execute.invokeStatic, hmember, Execute.resolved, bind, Except.bind, hkey,
    h.find_callee, h.isWordSized, if_true, hpop]
  rfl

/-- The call of the wrapper comes to the call of the method, with the same arguments and with the
frame of the wrapper waiting for the value. -/
theorem advance_call (h : w.Forwards p f) (hs : (s.profile w.key).Uncompiled)
    (hargs : args.length = f.signature.args.length) (c : Config) :
    ∃ k after, Spells w.code after [.returnValue] ∧
      State.Beneath w.key ⟨w, after, [], Frame.initialLocals w.maxLocals args⟩
        (State.call c s f args [])
        (State.advance p c.deeper k (State.call c.deeper s w args [])) := by
  obtain ⟨index, member, hmember, hkey, hspells⟩ := h.code
  have hroom : args.length ≤ w.maxLocals := hargs ▸ h.room
  have hbooked := h.beside_book hs c.promotion
  -- The frame of the wrapper is opened, whatever the limit was before it was raised.
  have hdepth : ([] : List Frame).length < c.deeper.maxCallDepth := Nat.succ_pos c.maxCallDepth
  have hentered : State.call c.deeper s w args [] =
      .running ((s.book c.promotion w).record (.entering w.key 1))
        ⟨w, 0, [], Frame.initialLocals w.maxLocals args⟩ [] :=
    (State.call_of_uncompiled (c := c.deeper) hroom hbooked.uncompiled' []).trans
      (State.enter_of_lt hdepth hroom _)
  -- The loads put the arguments on the stack, the last on top.
  rw [← hargs] at hspells
  obtain ⟨pc, t, hpc, hloaded, hloads⟩ := State.advance_loads (p := p) (c := c.deeper)
    (Frame.forall₂_initialLocals hroom) hspells
    ((s.book c.promotion w).record (.entering w.key 1)) [] []
  rw [List.append_nil] at hloads
  obtain ⟨after, u, hafter, htold, hcall⟩ := State.step_of_spells (p := p) (c := c.deeper)
    (f := ⟨w, pc, args.reverse, Frame.initialLocals w.maxLocals args⟩) hpc t []
  rw [h.execute_invokeStatic hmember hkey hargs] at hcall
  have hbeside : s.Beside w.key u := hbooked.untouched (.refl s)
    (((Session.untouched_record _ _).trans hloaded).trans htold)
  have hunique : f.key = w.key → f = w := Program.eq_of_find? h.find_callee h.find
  refine ⟨(List.range args.length).length + 1, after, hafter, ?_⟩
  rw [State.advance_add, hentered, hloads, State.advance_succ, hcall]
  exact State.call_beneath hbeside h.not_install hunique c args [] h.returnsValue

/-- As the call of the method ends, so does that of the wrapper. -/
theorem advance_of_halted (h : w.Forwards p f) (hs : (s.profile w.key).Uncompiled)
    (hargs : args.length = f.signature.args.length) {n : Nat} {outcome : Except Fault Int32}
    (hend : State.advance p c n (State.call c s f args []) = .halted t outcome) :
    ∃ k t', State.advance p c.deeper k (State.call c.deeper s w args []) =
      .halted t' (outcome.mapError Fault.deepened) ∧ t.Beside w.key t' := by
  obtain ⟨k, after, hafter, hbeneath⟩ := h.advance_call hs hargs c
  obtain ⟨k', hk'⟩ := State.advance_beneath h.find h.not_install hbeneath hend
  rw [← State.advance_add] at hk'
  generalize hstate : State.advance p c.deeper (k + k') (State.call c.deeper s w args []) = state
    at hk'
  cases hk' with
  | faulted fault beside => exact ⟨k + k', _, hstate, beside⟩
  | @returned _ t' value beside =>
    -- The wrapper has the value on its stack, and returns it.
    obtain ⟨next, v, -, htold, hstep⟩ := State.step_of_spells (p := p) (c := c.deeper)
      (f := Frame.push ⟨w, after, [], Frame.initialLocals w.maxLocals args⟩ value) hafter t' []
    refine ⟨k + k' + 1, v.record (.leaving w.name value), ?_,
      beside.untouched (.refl t) (htold.trans (v.untouched_record _))⟩
    rw [State.advance_add, hstate, State.advance_succ, hstep]
    rfl

/-- If the call of the wrapper ends, so does that of the method. -/
theorem halted_of_advance (h : w.Forwards p f) (hs : (s.profile w.key).Uncompiled)
    (hargs : args.length = f.signature.args.length) {n : Nat} {outcome' : Except Fault Int32}
    (hend : State.advance p c.deeper n (State.call c.deeper s w args []) = .halted t outcome') :
    ∃ u outcome, State.advance p c n (State.call c s f args []) = .halted u outcome := by
  obtain ⟨k, after, -, hbeneath⟩ := h.advance_call hs hargs c
  exact State.halted_of_beneath h.find h.not_install hbeneath
    (State.advance_advance_of_halted hend k)

end Method.Forwards

/-- After any history there is no native code of the wrapper. -/
theorem Method.Forwards.uncompiled_of_history {p : Program} {c : Config} {w f : Method}
    (h : w.Forwards p f) {sink : Sink} {detail : Option Level} {moves : List Move} {state : State}
    (hs : History p c (.idle { sink, journal := { detail } }) moves state) :
    (state.session.profile w.key).Uncompiled := by
  intro entry hslot
  rw [(hs.lived h.find).slot] at hslot
  split at hslot
  · obtain ⟨program, hlower⟩ := (Slot.ofInstall_native_iff w).1 ⟨entry, hslot⟩
    obtain ⟨entry', hinstall⟩ := exists_install_of_lower hlower
    exact h.not_install entry' hinstall
  · cases hslot

/-- Forwarding is transparent. Take a session that has come about by any requests, and a method that
forwards to another. The request to call it, with one more frame allowed, ends if and only if that
to call the other method with the same arguments ends. The two end with the same value or with the
same fault, but for the limit of which the fault of the limit tells, and leave the same objects, the
same output and the same profiles of all methods, but that the wrapper was called once more. -/
theorem forwarding_transparent (p : Program) (c₀ : Config) (sink : Sink) (detail : Option Level)
    (moves : List Move) (s : Session) (before : Except Fault Int32)
    (hs : History p c₀ (.idle { sink, journal := { detail } }) moves (.halted s before))
    (w f : Method) (hw : w.Forwards p f) (args : List Int32)
    (hargs : args.length = f.signature.args.length) (policy : PromotionPolicy) (limit : Nat) :
    ((∃ fuel e, Request.perform p ⟨limit + 1, policy⟩ fuel s (.invoke w.key args) = some e) ↔
        ∃ fuel e, Request.perform p ⟨limit, policy⟩ fuel s (.invoke f.key args) = some e) ∧
      ∀ fuel fuel' t t' outcome outcome',
        Request.perform p ⟨limit, policy⟩ fuel s (.invoke f.key args) = some (t, outcome) →
        Request.perform p ⟨limit + 1, policy⟩ fuel' s (.invoke w.key args) = some (t', outcome') →
          outcome' = outcome.mapError Fault.deepened ∧ t.Beside w.key t' := by
  have huncompiled := hw.uncompiled_of_history hs
  have hstart : (Request.invoke f.key args).start p ⟨limit, policy⟩ s =
      State.call ⟨limit, policy⟩ s f args [] := by simp only [Request.start, hw.find_callee]
  have hstart' : (Request.invoke w.key args).start p ⟨limit + 1, policy⟩ s =
      State.call ⟨limit + 1, policy⟩ s w args [] := by simp only [Request.start, hw.find]
  -- From the end of the method to that of the wrapper.
  have hwrapper {fuel : Nat} {t : Session} {outcome : Except Fault Int32}
      (hend : Request.perform p ⟨limit, policy⟩ fuel s (.invoke f.key args) = some (t, outcome)) :
      ∃ k t', Request.perform p ⟨limit + 1, policy⟩ k s (.invoke w.key args) =
        some (t', outcome.mapError Fault.deepened) ∧ t.Beside w.key t' := by
    obtain ⟨result, hhalted, rfl⟩ := Request.perform_eq_some.1 hend
    rw [hstart] at hhalted
    obtain ⟨k, t', hhalted', hbeside⟩ := hw.advance_of_halted huncompiled hargs hhalted
    exact ⟨k, t', Request.perform_eq_some.2 ⟨_, hstart' ▸ hhalted', rfl⟩, hbeside⟩
  refine ⟨⟨?_, ?_⟩, fun fuel fuel' t t' outcome outcome' hend hend' => ?_⟩
  · rintro ⟨fuel, ⟨t', outcome'⟩, hend'⟩
    obtain ⟨result, hhalted, -⟩ := Request.perform_eq_some.1 hend'
    rw [hstart'] at hhalted
    obtain ⟨u, outcome, hhalted'⟩ :=
      hw.halted_of_advance (c := ⟨limit, policy⟩) huncompiled hargs hhalted
    exact ⟨fuel, (u, outcome), Request.perform_eq_some.2 ⟨_, hstart ▸ hhalted', rfl⟩⟩
  · rintro ⟨fuel, ⟨t, outcome⟩, hend⟩
    obtain ⟨k, t', hend', -⟩ := hwrapper hend
    exact ⟨k, _, hend'⟩
  · obtain ⟨k, u, hend'', hbeside⟩ := hwrapper hend
    obtain ⟨rfl, rfl⟩ := Prod.mk.inj (Request.perform_unique hend' hend'')
    exact ⟨rfl, hbeside⟩

/-- A method that takes the second of its arguments from the first. -/
def Method.minus : Method where
  key := ⟨"minus", "(II)I"⟩
  signature := ⟨[.int, .int], some .int⟩
  ofDescriptor_eq := by cbv
  code := #[0x1a, 0x1b, 0x64, 0xac]
  maxStack := 2
  maxLocals := 2

/-- A method that forwards to `minus`, with one of its loads in the long form. -/
def Method.relay : Method where
  key := ⟨"relay", "(II)I"⟩
  signature := ⟨[.int, .int], some .int⟩
  ofDescriptor_eq := by cbv
  code := #[0x1a, 0x15, 0x01, 0xb8, 0x00, 0x06, 0xac]
  maxStack := 2
  maxLocals := 2

/-- The program of `minus` and `relay`. -/
def Program.relaying : Program :=
  ⟨.ofList [.utf8 "Main", .classRef 1, .utf8 "minus", .utf8 "(II)I", .nameAndType 3 4,
    .methodRef 2 5], [Method.minus, Method.relay], by decide⟩

/-- The one forwards to the other. -/
theorem Method.relay_forwards : Method.relay.Forwards .relaying .minus where
  find := rfl
  find_callee := rfl
  args := by decide
  result := .inl rfl
  room := by decide
  code := ⟨6, ⟨"Main", "minus", "(II)I"⟩, rfl, rfl,
    .next rfl (.next rfl (.next rfl (.next rfl .done)))⟩

/-- With one frame `minus` gives the difference, and so does `relay` with two; without a frame
`minus` is refused at a limit of none, and `relay` at a limit of one. -/
theorem forwarding_transparent_relay :
    (∃ t t', Request.perform .relaying ⟨1, {}⟩ 10 {} (.invoke Method.minus.key [7, 2]) =
          some (t, .ok 5) ∧
        Request.perform .relaying ⟨2, {}⟩ 10 {} (.invoke Method.relay.key [7, 2]) =
          some (t', .ok 5) ∧ t.Beside Method.relay.key t') ∧
      ∃ t t', Request.perform .relaying ⟨0, {}⟩ 10 {} (.invoke Method.minus.key [7, 2]) =
          some (t, .error (.callDepthExceeded 0)) ∧
        Request.perform .relaying ⟨1, {}⟩ 10 {} (.invoke Method.relay.key [7, 2]) =
          some (t', .error (.callDepthExceeded 1)) ∧ t.Beside Method.relay.key t' := by
  have hends : (Request.perform .relaying ⟨1, {}⟩ 10 {} (.invoke Method.minus.key [7, 2])).map
        Prod.snd = some (.ok 5) ∧
      (Request.perform .relaying ⟨2, {}⟩ 10 {} (.invoke Method.relay.key [7, 2])).isSome ∧
      (Request.perform .relaying ⟨0, {}⟩ 10 {} (.invoke Method.minus.key [7, 2])).map
        Prod.snd = some (.error (.callDepthExceeded 0)) ∧
      (Request.perform .relaying ⟨1, {}⟩ 10 {} (.invoke Method.relay.key [7, 2])).isSome := by
    decide +kernel
  obtain ⟨hminus, hrelay, hminus₀, hrelay₀⟩ := hends
  obtain ⟨⟨t, _⟩, hminus, rfl⟩ := Option.map_eq_some_iff.1 hminus
  obtain ⟨⟨t', _⟩, hrelay⟩ := Option.isSome_iff_exists.1 hrelay
  obtain ⟨⟨t₀, _⟩, hminus₀, rfl⟩ := Option.map_eq_some_iff.1 hminus₀
  obtain ⟨⟨t₀', _⟩, hrelay₀⟩ := Option.isSome_iff_exists.1 hrelay₀
  obtain ⟨rfl, hbeside⟩ := (forwarding_transparent .relaying {} {} none [] {} (.ok 0) .nil
    .relay .minus Method.relay_forwards [7, 2] rfl {} 1).2 _ _ _ _ _ _ hminus hrelay
  obtain ⟨rfl, hbeside₀⟩ := (forwarding_transparent .relaying {} {} none [] {} (.ok 0) .nil
    .relay .minus Method.relay_forwards [7, 2] rfl {} 0).2 _ _ _ _ _ _ hminus₀ hrelay₀
  exact ⟨⟨t, t', hminus, hrelay, hbeside⟩, t₀, t₀', hminus₀, hrelay₀, hbeside₀⟩

end TieredJvm
