import TieredJvm.Launch
import TieredJvm.Proofs.ClassFile.PoolShape
import TieredJvm.Proofs.ClassFile.Truncation
import TieredJvm.Proofs.Machine.History
import TieredJvm.Proofs.Machine.Turn

/-!
# The exit status of a launch

The exit status tells why a launch failed: 1 if there was nothing to run, and then nothing was run
either; 2 if the entry point was called and the run ended in a fault; 0 otherwise
(`exit_status_separates`).

The status is read off the error alone, and one error serves both sides: a lookup of the entry point
fails with a fault of the program, and so does a call of a constructor with a malformed descriptor.
What keeps them apart is that no run raises the fault of a missing entry point
(`State.not_missingMain_advance`): it is raised where a request starts, before there is a frame. A
pool that runs past the last index is a failure to load too (`Launch.unstartable_of_wideIn`).
-/

namespace TieredJvm

/-! ## Building a program -/

/-- A list of computations fails as one of them fails. -/
theorem Ensures.mapM {ε α β : Type} {E : ε → Prop} {f : α → Except ε β}
    (h : ∀ a, Ensures (fun _ => True) E (f a)) (items : List α) :
    Ensures (fun _ => True) E (items.mapM f) := by
  induction items with
  | nil => trivial
  | cons a items ih =>
    rw [List.mapM_cons]
    exact (h a).bind fun _ _ => ih.bind fun _ _ => trivial

/-- The methods of a class file are refused for a malformed descriptor or for a repeated key. -/
theorem ClassFile.program_refused (file : ClassFile) :
    Ensures (fun _ => True)
      (fun cause => (∃ text, cause = .malformedDescriptor text) ∨
        ∃ key, cause = .duplicateMethod key) file.program := by
  have hmethod (m : MethodInfo) (body : CodeBody) :
      Ensures (fun _ => True) (fun cause => (∃ text, cause = .malformedDescriptor text) ∨
        ∃ key, cause = .duplicateMethod key) (methodOf m body) := by
    unfold methodOf Method.ofParts
    split
    · trivial
    · next hcause => exact .inl ⟨_, Signature.ofDescriptor_eq_error hcause⟩
  refine (Ensures.mapM (fun (m, body) => hmethod m body) _).bind fun methods _ => ?_
  unfold Program.ofMethods
  split
  · next key _ => exact .inr ⟨key, rfl⟩
  · trivial

/-! ## Faults of runs -/

namespace State

variable {c : Config}

/-- The state is not one that has ended for want of an entry point. -/
def NotMissingMain (state : State) : Prop :=
  state.fault? ≠ some (.program .missingMain)

/-- Handing over a value raises no fault. -/
theorem not_missingMain_deliver (s : Session) (m : Method) (value : Int32)
    (callers : List Frame) : (deliver s m value callers).NotMissingMain := by
  cases callers <;> exact nofun

/-- A frame is refused for other reasons. -/
theorem not_missingMain_enter (s : Session) (m : Method) (args : List Int32)
    (callers : List Frame) : (enter c s m args callers).NotMissingMain := by
  have hinitial := Frame.initial_spec m args
  unfold enter
  split
  · dsimp only
    split
    · exact nofun
    · next hfault =>
      rw [hfault] at hinitial
      cases hinitial
      exact nofun
  · exact nofun

/-- So is a call. -/
theorem not_missingMain_call (s : Session) (m : Method) (args : List Int32)
    (callers : List Frame) : (call c s m args callers).NotMissingMain := by
  have hcheck := Frame.checkArity_spec m args.length
  unfold call
  split
  · next hfault =>
    rw [hfault] at hcheck
    cases hcheck
    exact nofun
  · dsimp only
    split
    · exact not_missingMain_deliver _ m _ callers
    · exact not_missingMain_enter _ m args callers
    · exact not_missingMain_enter _ m args callers

/-- No step of a run ends for want of an entry point. -/
theorem not_missingMain_step (p : Program) {state : State} (h : state.NotMissingMain) :
    (step p c state).NotMissingMain := by
  cases state with
  | halted s outcome => exact h
  | running s f callers =>
    rw [step_running]
    have hwithin := f.turn_within p s
    generalize f.turn p s = r at hwithin
    match r, hwithin with
    | (t, .error fault), hown =>
      intro hfault
      cases hfault
      exact hown
    | (t, .ok (.proceed g)), _ => exact nofun
    | (t, .ok (.jump g target)), _ => exact nofun
    | (t, .ok (.call callee args g)), _ => exact not_missingMain_call t callee args _
    | (t, .ok (.finish value)), _ => exact not_missingMain_deliver _ f.method value callers

/-- No run ends for want of an entry point. -/
theorem not_missingMain_advance (p : Program) (fuel : Nat) {state : State}
    (h : state.NotMissingMain) : (advance p c fuel state).NotMissingMain := by
  induction fuel generalizing state with
  | zero => exact h
  | succ fuel ih =>
    rw [advance_succ]
    exact ih (not_missingMain_step p h)

end State

/-- A constructor whose descriptor is malformed raises the fault of the program for it. -/
theorem Execute.execute_invokeSpecial_of_malformed {p : Program} {index : UInt16}
    {member : MemberRef} {cause : ProgramError} (hmember : p.pool.methodRef index = .ok member)
    (hmalformed : Signature.ofDescriptor member.descriptor = .error cause) (s : Session)
    (f : Frame) :
    execute p s f (.invokeSpecial index) =
      (s, .error (.program (.malformedDescriptor member.descriptor))) := by
  obtain rfl := Signature.ofDescriptor_eq_error hmalformed
  have hcall : constructorCall p.pool f index =
      .error (.program (.malformedDescriptor member.descriptor)) := by
    simp only [constructorCall, hmember, resolved, bind, Except.bind, hmalformed]
    rfl
  simp only [execute, invokeSpecial, hcall]

/-- So a run ends with it at such an instruction. -/
theorem State.fault?_step_of_malformed {p : Program} {c : Config} {f : Frame} {index : UInt16}
    {member : MemberRef} {cause : ProgramError}
    (hinstr : f.instruction? = some (.invokeSpecial index))
    (hmember : p.pool.methodRef index = .ok member)
    (hmalformed : Signature.ofDescriptor member.descriptor = .error cause) (s : Session)
    (callers : List Frame) :
    (step p c (running s f callers)).fault? =
      some (.program (.malformedDescriptor member.descriptor)) := by
  obtain ⟨pc, op, x, y, after, hnext⟩ :=
    Move.next_of_instruction? (p := p) (c := c) hinstr s callers
  rw [show step p c (running s f callers) = _ from hnext,
    Execute.execute_invokeSpecial_of_malformed hmember hmalformed]
  rfl

/-! ## Launches -/

namespace Launch

/-- The bytes give nothing to run. -/
inductive Unstartable (input : List UInt8) : Prop where
  /-- They are no class file. -/
  | unreadable {cause : LoadError} (parse : ClassFile.parse input = .error cause)
  /-- A method of the class has a malformed descriptor. -/
  | malformed {file : ClassFile} {text : String} (parse : ClassFile.parse input = .ok file)
      (program : file.program = .error (.malformedDescriptor text))
  /-- Two methods of the class have the same key. -/
  | repeated {file : ClassFile} {key : MethodKey} (parse : ClassFile.parse input = .ok file)
      (program : file.program = .error (.duplicateMethod key))
  /-- The program has a method under neither of the keys of entry points. -/
  | entryless {file : ClassFile} {p : Program} (parse : ClassFile.parse input = .ok file)
      (program : file.program = .ok p) (usual : p.find? Program.mainKey = none)
      (bare : p.find? Program.bareMainKey = none)

/-- Bytes that declare the largest pool, and put a long or a double into the last slot of it, give
nothing to run. -/
theorem unstartable_of_wideIn {minorVersion majorVersion : UInt16} {input body : List UInt8}
    (hinput : input = [0xca, 0xfe, 0xba, 0xbe] ++ (Printer.u2 minorVersion ++
      (Printer.u2 majorVersion ++ (Printer.u2 65535 ++ body))))
    (h : PoolLoop.WideIn 65534 body) : Unstartable input := by
  cases hparse : ClassFile.parse input with
  | error cause => exact .unreadable hparse
  | ok file =>
    obtain ⟨rest, hfile⟩ := ClassFile.parse_eq_ok.1 hparse
    obtain ⟨x, mid, hheader, -⟩ := Reader.bind_eq_ok.1 hfile
    rw [ClassFile.Parser.header, hinput,
      ClassFile.Parser.checkMagic_exact.bind_print _ (a := ()) trivial,
      Reader.u2_exact.bind_print _ trivial, Reader.u2_exact.bind_print _ trivial,
      Reader.u2_exact.bind_print _ trivial] at hheader
    obtain ⟨pool, mid, hpool, -⟩ := Reader.bind_eq_ok.1 hheader
    exact absurd hpool (PoolLoop.not_read_of_wideIn h _)

/-- The bytes are those of a class file of the program `p` with the entry point `m`. -/
structure Starts (input : List UInt8) (p : Program) (m : Method) : Prop where
  /-- They are a class file, and its methods make the program. -/
  program : ∃ file, ClassFile.parse input = .ok file ∧ file.program = .ok p
  /-- The program has the entry point. -/
  entry : p.entryPoint = .ok m

/-- The entry point was called, and the call has ended in the session `t` with a fault, or with a
value after which the output could not be flushed. -/
def Faulted (c : Config) (fuel : Nat) (s : Session) (input : List UInt8) (t : Session) : Prop :=
  ∃ p m result, Starts input p m ∧
    State.advance p c fuel (State.call c (noted s input) m [] []) = .halted t result ∧
    ((∃ fault, result = .error fault) ∨
      ∃ value cause, result = .ok value ∧ t.sink.flush = .error cause)

/-- There is nothing to run, or something. -/
theorem unstartable_or_starts (input : List UInt8) :
    Unstartable input ∨ ∃ p m, Starts input p m := by
  cases hparse : ClassFile.parse input with
  | error cause => exact .inl (.unreadable hparse)
  | ok file =>
    have hrefused := file.program_refused
    cases hprogram : file.program with
    | error cause =>
      rw [hprogram] at hrefused
      rcases hrefused with ⟨text, rfl⟩ | ⟨key, rfl⟩
      · exact .inl (.malformed hparse hprogram)
      · exact .inl (.repeated hparse hprogram)
    | ok p =>
      cases hentry : p.entryPoint with
      | error cause =>
        obtain ⟨-, husual, hbare⟩ := Program.entryPoint_eq_error_iff.1 hentry
        exact .inl (.entryless hparse hprogram husual hbare)
      | ok m => exact .inr ⟨p, m, ⟨file, hparse, hprogram⟩, hentry⟩

variable {c : Config} {input : List UInt8}

/-- The two exclude each other. -/
theorem Unstartable.not_starts (h : Unstartable input) (p : Program) (m : Method) :
    ¬ Starts input p m := by
  rintro ⟨⟨file, hparse, hprogram⟩, hentry⟩
  cases h with
  | unreadable hparse' => cases hparse.symm.trans hparse'
  | malformed hparse' hprogram' =>
    cases hparse.symm.trans hparse'
    cases hprogram.symm.trans hprogram'
  | repeated hparse' hprogram' =>
    cases hparse.symm.trans hparse'
    cases hprogram.symm.trans hprogram'
  | entryless hparse' hprogram' husual hbare =>
    cases hparse.symm.trans hparse'
    cases hprogram.symm.trans hprogram'
    cases hentry.symm.trans (Program.entryPoint_eq_error_iff.2 ⟨rfl, husual, hbare⟩)

/-- The bytes give one program, with one entry point. -/
theorem Starts.unique {p p' : Program} {m m' : Method} (h : Starts input p m)
    (h' : Starts input p' m') : p = p' ∧ m = m' := by
  obtain ⟨⟨file, hparse, hprogram⟩, hentry⟩ := h
  obtain ⟨⟨file', hparse', hprogram'⟩, hentry'⟩ := h'
  cases hparse.symm.trans hparse'
  cases hprogram.symm.trans hprogram'
  cases hentry.symm.trans hentry'
  exact ⟨rfl, rfl⟩

/-- A launch of bytes that give nothing to run ends at once, in the session with what loading tells
in its journal. -/
theorem Unstartable.launch_eq (h : Unstartable input) (c : Config) (s : Session) :
    ∃ e : LaunchError, e.exitStatus = 1 ∧
      ∀ fuel, launch c fuel s input = some (noted s input, .error e) := by
  cases h with
  | @unreadable cause hparse =>
    exact ⟨.load cause, rfl, fun fuel => by simp only [launch, load, hparse]⟩
  | @malformed file text hparse hprogram =>
    exact ⟨.program (.malformedDescriptor text), rfl,
      fun fuel => by simp only [launch, load, hparse, hprogram]⟩
  | @repeated file key hparse hprogram =>
    exact ⟨.program (.duplicateMethod key), rfl,
      fun fuel => by simp only [launch, load, hparse, hprogram]⟩
  | entryless hparse hprogram husual hbare =>
    refine ⟨.fault (.program .missingMain), rfl, fun fuel => ?_⟩
    have hentry := Program.entryPoint_eq_error_iff.2 ⟨rfl, husual, hbare⟩
    simp only [launch, load, hparse, hprogram, Request.perform, Request.start, hentry,
      State.advance_halted]
    rfl

/-- A launch that starts and ends has called the entry point, and ends as the run does. -/
theorem Starts.launch_eq_some {p : Program} {m : Method} (h : Starts input p m) {fuel : Nat}
    {s t : Session} {result : Except LaunchError Unit}
    (hend : launch c fuel s input = some (t, result)) :
    ∃ ended, State.advance p c fuel (State.call c (noted s input) m [] []) = .halted t ended ∧
      result = outcome (Request.run.conclude t ended) := by
  obtain ⟨⟨file, hparse, hprogram⟩, hentry⟩ := h
  simp only [launch, load, hparse, hprogram] at hend
  obtain ⟨⟨u, concluded⟩, hperform, hresult⟩ := Option.map_eq_some_iff.1 hend
  cases hresult
  obtain ⟨ended, hhalted, rfl⟩ := Request.perform_eq_some.1 hperform
  simp only [Request.start, hentry] at hhalted
  exact ⟨ended, hhalted, rfl⟩

/-- A fault of a run has the status 2: the one fault that has another is the one that no run
raises. -/
theorem exitStatus_fault {fault : Fault} (h : fault ≠ .program .missingMain) :
    (LaunchError.fault fault).exitStatus = 2 := by
  unfold LaunchError.exitStatus
  split
  · contradiction
  · contradiction
  · next hfault => exact absurd (LaunchError.fault.inj hfault) h
  · rfl

/-- A launch that starts and ends has the status 2 if its run or the flush has faulted, and the
status 0 otherwise. -/
theorem Starts.status_eq {p : Program} {m : Method} (h : Starts input p m) {fuel : Nat}
    {s t : Session} {result : Except LaunchError Unit}
    (hend : launch c fuel s input = some (t, result)) :
    (status result = 2 ∧ Faulted c fuel s input t) ∨
      (status result = 0 ∧ ¬ Faulted c fuel s input t) := by
  obtain ⟨ended, hhalted, rfl⟩ := h.launch_eq_some hend
  have hrun := State.not_missingMain_advance (c := c) p fuel
    (State.not_missingMain_call (c := c) (noted s input) m [] [])
  rw [hhalted] at hrun
  cases ended with
  | error fault =>
    have hfault : fault ≠ .program .missingMain := fun hmissing => hrun (congrArg some hmissing)
    exact .inl ⟨exitStatus_fault hfault, p, m, _, h, hhalted, .inl ⟨fault, rfl⟩⟩
  | ok value =>
    cases hflush : t.sink.flush with
    | error cause =>
      refine .inl ⟨?_, p, m, _, h, hhalted, .inr ⟨value, cause, rfl, hflush⟩⟩
      simp only [Request.conclude, hflush]
      rfl
    | ok _ =>
      refine .inr ⟨?_, ?_⟩
      · simp only [Request.conclude, hflush]
        rfl
      · rintro ⟨p', m', ended, hstarts, hhalted', hfaulted⟩
        obtain ⟨rfl, rfl⟩ := hstarts.unique h
        cases hhalted.symm.trans hhalted'
        rcases hfaulted with ⟨fault, hfault⟩ | ⟨value', cause, -, hcause⟩
        · cases hfault
        · cases hflush.symm.trans hcause

/-- The exit status separates failures to load from faults of the run. Of a launch that ends, the
status is 1 if the bytes give nothing to run, and then the launch ends without a step, and nothing
but the journal is touched; it is 2 if the entry point was called and its run, or the flush after
it, has ended in a fault, whatever the fault; and it is 0 otherwise. No call and no frame of any
program ends for want of an entry point, though a constructor with a malformed descriptor raises a
fault of the same kind. -/
theorem exit_status_separates (c : Config) (fuel : Nat) (s : Session) (input : List UInt8)
    (t : Session) (result : Except LaunchError Unit)
    (hend : launch c fuel s input = some (t, result)) :
    (status result = 1 ↔ Unstartable input) ∧
      (status result = 1 → launch c 0 s input = some (t, result) ∧ s.Untouched t) ∧
      (status result = 2 ↔ Faulted c fuel s input t) ∧
      (status result = 0 ↔ ¬ Unstartable input ∧ ¬ Faulted c fuel s input t) ∧
      (∀ p u m args callers n,
        (State.advance p c n (State.call c u m args callers)).NotMissingMain) ∧
      (∀ p u f callers n, (State.advance p c n (.running u f callers)).NotMissingMain) ∧
      ∀ (p : Program) (u : Session) (f : Frame) (callers : List Frame) (index : UInt16)
        (member : MemberRef) (cause : ProgramError),
        f.instruction? = some (.invokeSpecial index) →
        p.pool.methodRef index = .ok member →
        Signature.ofDescriptor member.descriptor = .error cause →
          (State.step p c (.running u f callers)).fault? =
            some (.program (.malformedDescriptor member.descriptor)) := by
  have hruns : (∀ p u m args callers n,
        (State.advance p c n (State.call c u m args callers)).NotMissingMain) ∧
      (∀ p u f callers n, (State.advance p c n (.running u f callers)).NotMissingMain) :=
    ⟨fun p u m args callers n =>
        State.not_missingMain_advance p n (State.not_missingMain_call u m args callers),
      fun p u f callers n => State.not_missingMain_advance p n nofun⟩
  have hmalformed := fun (p : Program) (u : Session) (f : Frame) (callers : List Frame)
      (index : UInt16) (member : MemberRef) (cause : ProgramError)
      (hinstr : f.instruction? = some (.invokeSpecial index))
      (hmember : p.pool.methodRef index = .ok member)
      (hcause : Signature.ofDescriptor member.descriptor = .error cause) =>
    State.fault?_step_of_malformed (c := c) hinstr hmember hcause u callers
  rcases unstartable_or_starts input with hnone | ⟨p, m, hstarts⟩
  · obtain ⟨e, hstatus, hlaunch⟩ := hnone.launch_eq c s
    cases (hlaunch fuel).symm.trans hend
    have hone : status (.error e) = 1 := hstatus
    have hnot : ¬ Faulted c fuel s input (noted s input) := by
      rintro ⟨p, m, -, hstarts, -⟩
      exact hnone.not_starts p m hstarts
    have hnoted : s.Untouched (noted s input) :=
      Session.untouched_foldl_record id (ClassFile.notices input) s
    exact ⟨by simp [hone, hnone], fun _ => ⟨hlaunch 0, hnoted⟩, by simp [hone, hnot],
      by simp [hone, hnone], hruns.1, hruns.2, hmalformed⟩
  · have hnot : ¬ Unstartable input := fun hnone => hnone.not_starts p m hstarts
    rcases hstarts.status_eq hend with ⟨htwo, hfaulted⟩ | ⟨hzero, hfine⟩
    · exact ⟨by simp [htwo, hnot], fun hone => by simp [htwo] at hone, by simp [htwo, hfaulted],
        by simp [htwo, hfaulted], hruns.1, hruns.2, hmalformed⟩
    · exact ⟨by simp [hzero, hnot], fun hone => by simp [hzero] at hone, by simp [hzero, hfine],
        by simp [hzero, hnot, hfine], hruns.1, hruns.2, hmalformed⟩

/-- A class whose entry point calls a constructor with a malformed descriptor. -/
def constructing : ClassFile where
  minorVersion := 0
  majorVersion := 52
  poolCount := 10
  constants := [.utf8 "Code", .utf8 "main", .utf8 "()V", .utf8 "A", .classRef 4, .utf8 "<init>",
    .utf8 "()", .nameAndType 6 7, .methodRef 5 8]
  accessFlags := 0x21
  thisClass := 5
  superClass := 0
  interfaces := []
  fields := []
  methods := [⟨9, ⟨2, "main"⟩, ⟨3, "()V"⟩, [.code 1 16 ⟨1, 0, [0xb7, 0x00, 0x09, 0xb1], [], []⟩]⟩]
  attributes := []

/-- Its launch starts, and the fault has the status 2. Cut short, the bytes give nothing to run, and
the status is 1 with no step taken. -/
theorem exit_status_separates_constructing :
    (∃ t, launch {} 5 {} constructing.bytes =
        some (t, .error (.fault (.program (.malformedDescriptor "()")))) ∧
      Faulted {} 5 {} constructing.bytes t ∧ ¬ Unstartable constructing.bytes) ∧
    ∃ t, launch {} 5 {} (constructing.bytes.take 20) =
        some (t, .error (.load .truncated)) ∧
      Unstartable (constructing.bytes.take 20) ∧ Session.Untouched {} t := by
  have hfault : (launch {} 5 {} constructing.bytes).map Prod.snd =
      some (.error (.fault (.program (.malformedDescriptor "()")))) := by decide +kernel
  have hload : (launch {} 5 {} (constructing.bytes.take 20)).map Prod.snd =
      some (.error (.load .truncated)) := by decide +kernel
  obtain ⟨⟨t, result⟩, hlaunch, hresult⟩ := Option.map_eq_some_iff.1 hfault
  cases hresult
  obtain ⟨⟨t', result'⟩, hlaunch', hresult'⟩ := Option.map_eq_some_iff.1 hload
  cases hresult'
  have hseparates := exit_status_separates _ _ _ _ _ _ hlaunch
  have hseparates' := exit_status_separates _ _ _ _ _ _ hlaunch'
  refine ⟨⟨t, hlaunch, hseparates.2.2.1.1 rfl, fun h => ?_⟩, t', hlaunch', hseparates'.1.1 rfl,
    (hseparates'.2.1 rfl).2⟩
  have hone := hseparates.1.2 h
  exact absurd hone (by decide)

end Launch

end TieredJvm
