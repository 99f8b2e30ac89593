import Mathlib.Algebra.Group.Nat.Defs
import TieredJvm.Proofs.Machine.History

/-!
# The heap follows from the history

Whatever frames and requests they come from, and whatever else fails, the accesses to the heap that
a history has made determine the heap: its objects are those that were allocated, in that order, and
a field of an object holds what was last written to it (`Heap.Records`). So they determine what the
next access comes to (`HeapAccess.Comes`), and no later access takes anything back
(`Heap.Extends`). All of this is `heap_history`.

`Move.heap_next` is where the machine comes in: a move does to the heap what its access does, if it
makes one and the access succeeds, and nothing else.
-/

namespace TieredJvm

/-! ## Accesses -/

/-- An access to the heap. -/
inductive HeapAccess where
  /-- An object of a class is allocated. -/
  | new (className : String)
  /-- A field of the object at a reference is read. -/
  | get (reference : Int32) (name : String)
  /-- A field of the object at a reference is written. -/
  | put (reference : Int32) (name : String) (value : Int32)
  deriving DecidableEq

namespace HeapAccess

/-- The class of which an access allocates an object. -/
def allocated? : HeapAccess → Option String
  | new className => some className
  | get _ _ | put _ _ _ => none

/-- What an access writes to a field of the object at a reference. -/
def written? (reference : Int32) (name : String) : HeapAccess → Option Int32
  | put reference' name' value =>
    if reference' = reference ∧ name' = name then some value else none
  | new _ | get _ _ => none

/-- The classes of the objects allocated, in order. -/
def classes (past : List HeapAccess) : List String :=
  past.filterMap allocated?

/-- What was last written to a field of the object at a reference. -/
def latest (reference : Int32) (name : String) (past : List HeapAccess) : Option Int32 :=
  (past.filterMap (written? reference name)).getLast?

/-- After one access more. -/
theorem classes_append (past : List HeapAccess) (a : HeapAccess) :
    classes (past ++ [a]) = classes past ++ a.allocated?.toList := by
  unfold classes
  rw [List.filterMap_append]
  cases h : a.allocated? <;> simp [h]

/-- What was written last is in the later part, if anything is. -/
theorem latest_append (reference : Int32) (name : String) (past later : List HeapAccess) :
    latest reference name (past ++ later) =
      (latest reference name later).or (latest reference name past) := by
  unfold latest
  rw [List.filterMap_append, List.getLast?_append]

/-- What one access writes is the last that it writes. -/
theorem latest_singleton (reference : Int32) (name : String) (a : HeapAccess) :
    latest reference name [a] = a.written? reference name := by
  unfold latest
  cases h : a.written? reference name <;> simp [h]

end HeapAccess

namespace Heap

/-- The heap after an access that succeeds. -/
def after (h : Heap) : Option HeapAccess → Heap
  | some (.new className) => h.add className
  | some (.put reference name value) => h.setField reference name value
  | some (.get _ _) | none => h

/-- There is an object at a reference exactly if its number is that of one. -/
theorem get?_isSome_iff_toInt (h : Heap) (reference : Int32) :
    (h.get? reference).isSome ↔ 0 ≤ reference.toInt ∧ reference.toInt < h.size := by
  rw [get?_isSome_iff]
  unfold index?
  by_cases hnonneg : 0 ≤ reference
  · rw [if_pos hnonneg]
    rw [Int32.le_iff_toInt_le, Int32.toInt_zero] at hnonneg
    simp only [Option.some.injEq, exists_eq_left']
    omega
  · rw [if_neg hnonneg]
    rw [Int32.le_iff_toInt_le, Int32.toInt_zero] at hnonneg
    simp [hnonneg]

/-- The object that is allocated is at the end. -/
theorem get?_add (h : Heap) (className : String) (reference : Int32) :
    (h.add className).get? reference =
      if index? reference = some h.size then some { className } else h.get? reference := by
  unfold get? add size
  cases hindex : index? reference with
  | none => simp
  | some i => simp [Array.getElem?_push]

/-- The heap is what the accesses of the past make of the empty one. -/
structure Records (h : Heap) (past : List HeapAccess) : Prop where
  /-- The objects are those that were allocated, in order. -/
  classes : h.objects.toList.map Object.className = HeapAccess.classes past
  /-- The fields written are those that were written, with what was last written to them. -/
  fields : ∀ reference name, ((h.get? reference).bind fun o => o.fields.get? name) =
    HeapAccess.latest reference name past

variable {h : Heap} {past : List HeapAccess}

/-- There are as many objects as were allocated. -/
theorem Records.size_eq (hr : h.Records past) : h.size = (HeapAccess.classes past).length := by
  rw [← hr.classes, List.length_map, Array.length_toList, size]

/-- A field reads as what was last written to it, or as zero. -/
theorem Records.field_eq (hr : h.Records past) {reference : Int32} {o : Object}
    (ho : h.get? reference = some o) (name : String) :
    o.field name = (HeapAccess.latest reference name past).getD 0 := by
  rw [← hr.fields reference name, ho]
  rfl

/-- Nothing was accessed in the empty heap. -/
theorem records_nil : Records {} [] := by
  refine ⟨rfl, fun reference name => ?_⟩
  have hnone : get? {} reference = none := by
    unfold get?
    cases index? reference <;> rfl
  rw [hnone]
  rfl

/-- Classes are not changed by writing a field. -/
theorem classes_setField (h : Heap) (reference : Int32) (name : String) (value : Int32) :
    (h.setField reference name value).objects.toList.map Object.className =
      h.objects.toList.map Object.className := by
  unfold setField
  split
  · next i _ =>
    apply List.ext_getElem?
    intro j
    simp only [List.getElem?_map, Array.getElem?_toList, Array.getElem?_modify]
    split
    · cases h.objects[j]? <;> rfl
    · rfl
  · rfl

/-- An access that is made in the heap that the past records, to an object that is there, is
recorded too. -/
theorem Records.after (hr : h.Records past) {a : HeapAccess}
    (hthere : ∀ reference name value, a = .put reference name value →
      (h.get? reference).isSome = true) : (h.after (some a)).Records (past ++ [a]) := by
  cases a with
  | get reference name =>
    refine ⟨?_, fun reference' name' => ?_⟩
    · rw [HeapAccess.classes_append, Heap.after, hr.classes]
      exact (List.append_nil _).symm
    · rw [HeapAccess.latest_append, HeapAccess.latest_singleton]
      exact hr.fields reference' name'
  | new className =>
    refine ⟨?_, fun reference name => ?_⟩
    · rw [HeapAccess.classes_append, ← hr.classes, Heap.after, add, Array.toList_push,
        List.map_append]
      rfl
    · rw [HeapAccess.latest_append, HeapAccess.latest_singleton, Heap.after, get?_add]
      have hold := hr.fields reference name
      split
      · -- A reference to the new object referred to nothing before, so nothing was written there.
        next hindex =>
        have hnone : h.get? reference = none := by
          unfold get? size at *
          rw [hindex, Option.bind_some, Array.getElem?_size]
        rw [hnone] at hold
        exact hold
      · exact hold
  | put reference name value =>
    obtain ⟨o, ho⟩ := Option.isSome_iff_exists.1 (hthere reference name value rfl)
    refine ⟨?_, fun reference' name' => ?_⟩
    · rw [HeapAccess.classes_append, Heap.after, classes_setField, hr.classes]
      exact (List.append_nil _).symm
    · have hold := hr.fields reference' name'
      rw [HeapAccess.latest_append, HeapAccess.latest_singleton, Heap.after, get?_setField]
      by_cases hreference : reference' = reference
      · subst hreference
        rw [if_pos rfl, ho]
        rw [ho] at hold
        by_cases hname : name' = name
        · subst hname
          simp [Object.setField, HeapAccess.written?]
        · simpa [Object.setField, HeapAccess.written?, Table.get?_set_of_ne _ _ hname,
            Ne.symm hname] using hold
      · rw [if_neg hreference]
        simpa [HeapAccess.written?, Ne.symm hreference] using hold

/-- After the accesses, every object of the first heap is there in the second, of the same class,
and its fields are the same but for what the accesses wrote. -/
def Extends (h h' : Heap) (accesses : List HeapAccess) : Prop :=
  ∀ reference o, h.get? reference = some o →
    ∃ o', h'.get? reference = some o' ∧ o'.className = o.className ∧
      ∀ name, o'.fields.get? name =
        (HeapAccess.latest reference name accesses).or (o.fields.get? name)

/-- Without an access nothing changes. -/
theorem Extends.refl (h : Heap) : h.Extends h [] :=
  fun _ o ho => ⟨o, ho, rfl, fun _ => rfl⟩

/-- Accesses follow on accesses. -/
theorem Extends.trans {h' h'' : Heap} {xs ys : List HeapAccess} (hxs : h.Extends h' xs)
    (hys : h'.Extends h'' ys) : h.Extends h'' (xs ++ ys) := by
  intro reference o ho
  obtain ⟨o', ho', hclass', hfields'⟩ := hxs reference o ho
  obtain ⟨o'', ho'', hclass'', hfields''⟩ := hys reference o' ho'
  refine ⟨o'', ho'', hclass''.trans hclass', fun name => ?_⟩
  rw [hfields'', hfields', HeapAccess.latest_append, Option.or_assoc]

/-- One access writes what it writes. -/
theorem extends_after (h : Heap) (a : HeapAccess) : h.Extends (h.after (some a)) [a] := by
  intro reference o ho
  cases a with
  | get reference' name' => exact ⟨o, ho, rfl, fun _ => rfl⟩
  | new className =>
    refine ⟨o, ?_, rfl, fun _ => rfl⟩
    have hsome : (h.get? reference).isSome = true := by rw [ho]; rfl
    obtain ⟨i, hindex, hlt⟩ := (h.get?_isSome_iff reference).1 hsome
    rw [Heap.after, get?_add, hindex, if_neg, ho]
    intro heq
    cases heq
    exact Nat.lt_irrefl _ hlt
  | put reference' name' value =>
    rw [Heap.after]
    by_cases hreference : reference = reference'
    · subst hreference
      refine ⟨o.setField name' value, ?_, rfl, fun name => ?_⟩
      · rw [get?_setField, if_pos rfl, ho]
        rfl
      · rw [HeapAccess.latest_singleton]
        by_cases hname : name = name'
        · subst hname
          simp [Object.setField, HeapAccess.written?]
        · simp [Object.setField, HeapAccess.written?, Table.get?_set_of_ne _ _ hname,
            Ne.symm hname]
    · refine ⟨o, ?_, rfl, fun name => ?_⟩
      · rw [get?_setField, if_neg hreference, ho]
      · rw [HeapAccess.latest_singleton]
        simp [HeapAccess.written?, Ne.symm hreference]

end Heap

/-! ## Accesses of instructions -/

/-- The access that an instruction makes, if the pool holds what it looks up there and the stack
holds its operands. -/
def Instruction.access? (pool : ConstantPool) (stack : List Int32) :
    Instruction → Option HeapAccess
  | new index =>
    match pool.className index with
    | .ok className => some (.new className)
    | .error _ => none
  | getField index =>
    match pool.fieldRef index, stack with
    | .ok member, reference :: _ => some (.get reference member.name)
    | _, _ => none
  | putField index =>
    match pool.fieldRef index, stack with
    | .ok member, value :: reference :: _ => some (.put reference member.name value)
    | _, _ => none
  | _ => none

namespace Execute

variable {p : Program} {f : Frame} {index : UInt16}

/-- An allocation of a class that is found. -/
theorem execute_new {className : String} (h : p.pool.className index = .ok className)
    (s : Session) :
    execute p s f (.new index) =
      if s.heap.size < 2 ^ 31 then
        ({ s with heap := s.heap.add className }.record
          (.allocated className (Int32.ofNat s.heap.size)),
          .ok (.proceed (f.push (Int32.ofNat s.heap.size))))
      else (s, .error (.heapExhausted ⟨s.heap.size⟩)) := by
  by_cases hsize : s.heap.size < 2 ^ 31
  · have hnext : s.heap.nextReference = .ok (Int32.ofNat s.heap.size) := if_pos hsize
    rw [if_pos hsize]
    simp only [execute, new, h, Heap.alloc, hnext]
  · have hnext : s.heap.nextReference = .error ⟨s.heap.size⟩ := if_neg hsize
    rw [if_neg hsize]
    simp only [execute, new, h, Heap.alloc, hnext]

/-- A read of a field that is found, with its operand. -/
theorem execute_getField {member : MemberRef} (h : p.pool.fieldRef index = .ok member)
    {reference : Int32} {rest : List Int32} (hstack : f.stack = reference :: rest) (s : Session) :
    execute p s f (.getField index) =
      (s, match s.heap.get? reference with
        | some o => .ok (.proceed { f with stack := o.field member.name :: rest })
        | none => .error (.invalidReference reference s.heap.size)) := by
  simp only [execute, getField, h, resolved, Frame.pop, hstack]
  show (s, (match s.heap.get? reference with | some o => _ | none => _)) = _
  cases s.heap.get? reference <;> rfl

/-- A write of a field that is found, with its operands. -/
theorem execute_putField {member : MemberRef} (h : p.pool.fieldRef index = .ok member)
    {value reference : Int32} {rest : List Int32}
    (hstack : f.stack = value :: reference :: rest) (s : Session) :
    execute p s f (.putField index) =
      match s.heap.get? reference with
      | some _ => ({ s with heap := s.heap.setField reference member.name value },
          .ok (.proceed { f with stack := rest }))
      | none => (s, .error (.invalidReference reference s.heap.size)) := by
  have hwrite : fieldWrite p.pool s.heap f index =
      match s.heap.get? reference with
      | some _ => .ok (⟨reference, member.name, value⟩, { f with stack := rest })
      | none => .error (.invalidReference reference s.heap.size) := by
    simp only [fieldWrite, h, resolved, Frame.pop, hstack]
    show (match s.heap.get? reference with | some o => _ | none => _) = _
    cases s.heap.get? reference <;> rfl
  simp only [execute, putField, hwrite]
  cases s.heap.get? reference <;> rfl

/-- A write of a field that lacks something leaves the session. -/
theorem putField_of_access?_eq_none {s : Session}
    (h : (Instruction.putField index).access? p.pool f.stack = none) :
    (execute p s f (.putField index)).1 = s := by
  have hwrite : ∃ fault, fieldWrite p.pool s.heap f index = .error fault := by
    simp only [Instruction.access?] at h
    unfold fieldWrite
    cases hfield : p.pool.fieldRef index with
    | error cause => exact ⟨_, rfl⟩
    | ok member =>
      rw [hfield] at h
      match hstack : f.stack with
      | [] =>
        refine ⟨.stackUnderflow f.pc, ?_⟩
        simp only [resolved, Frame.pop, hstack]
        rfl
      | [value] =>
        refine ⟨.stackUnderflow f.pc, ?_⟩
        simp only [resolved, Frame.pop, hstack]
        rfl
      | value :: reference :: rest =>
        rw [hstack] at h
        cases h
  obtain ⟨fault, hfault⟩ := hwrite
  simp only [execute, putField, hfault]

end Execute

/-- The three kinds of access, with what they look up and their operands. -/
theorem Instruction.access?_cases {pool : ConstantPool} {stack : List Int32} {i : Instruction}
    {a : HeapAccess} (h : i.access? pool stack = some a) :
    (∃ index className, i = .new index ∧ pool.className index = .ok className ∧
        a = .new className) ∨
      (∃ index member reference rest, i = .getField index ∧ pool.fieldRef index = .ok member ∧
        stack = reference :: rest ∧ a = .get reference member.name) ∨
      ∃ index member value reference rest, i = .putField index ∧
        pool.fieldRef index = .ok member ∧ stack = value :: reference :: rest ∧
        a = .put reference member.name value := by
  unfold access? at h
  split at h
  · next index =>
    split at h
    · next className hclass =>
      cases h
      exact .inl ⟨index, className, rfl, hclass, rfl⟩
    · cases h
  · next index =>
    split at h
    · next member reference rest hfield =>
      cases h
      exact .inr (.inl ⟨index, member, reference, rest, rfl, hfield, rfl, rfl⟩)
    · cases h
  · next index =>
    split at h
    · next member value reference rest hfield =>
      cases h
      exact .inr (.inr ⟨index, member, value, reference, rest, rfl, hfield, rfl, rfl⟩)
    · cases h
  · cases h

open Execute

/-- An instruction that does not access the heap leaves it. -/
theorem heap_execute_of_access?_eq_none {p : Program} {f : Frame} {i : Instruction}
    (h : i.access? p.pool f.stack = none) (s : Session) : (execute p s f i).1.heap = s.heap := by
  cases i with
  | new index =>
    simp only [Instruction.access?] at h
    simp only [execute, new]
    split
    · rfl
    · next className hclass =>
      rw [hclass] at h
      cases h
  | putField index => rw [putField_of_access?_eq_none h]
  | invokeVirtual index =>
    simp only [execute, invokeVirtual]
    split <;> rfl
  | invokeSpecial index =>
    simp only [execute, invokeSpecial]
    split <;> rfl
  | _ => rfl

/-! ## Accesses of moves -/

namespace State

variable {c : Config}

/-- Calling a method leaves the heap; native code does not know of it. -/
theorem heap_call (s : Session) (m : Method) (args : List Int32) (callers : List Frame) :
    (call c s m args callers).session.heap = s.heap := by
  have hpasses := (call_passes c s m args callers).heap
  split at hpasses
  · rw [hpasses, Session.heap_book]
  · exact hpasses

/-- What follows from an instruction leaves the heap as the instruction left it. -/
theorem heap_apply (m : Method) (next : Nat) (callers : List Frame) (s : Session)
    (r : Except Fault Effect) : (apply c m next callers (s, r)).session.heap = s.heap := by
  rcases apply_passes c m next callers (s, r) with hpasses | ⟨callee, hpasses⟩
  · exact hpasses.heap
  · rw [hpasses.heap, Session.heap_book]

/-- A request leaves the heap at its start. -/
theorem heap_start (p : Program) (s : Session) (r : Request) :
    (r.start p c s).session.heap = s.heap := by
  cases r with
  | run =>
    simp only [Request.start]
    split
    · exact heap_call s _ _ _
    · rfl
  | invoke key args =>
    simp only [Request.start]
    split
    · exact heap_call s _ _ _
    · rfl
  | interpret key args =>
    simp only [Request.start]
    split
    · exact (enter_passes c s _ _ _).heap
    · rfl

end State

/-- What an access of the frame `f` comes to: it finds what it needs in the heap and the frame goes
on, or it ends the call in a fault and the heap is as it was. -/
def HeapAccess.Finds (heap : Heap) (f : Frame) (callers : List Frame) (state : State) :
    HeapAccess → Prop
  | .new className =>
    if heap.size < 2 ^ 31 then
      ∃ t g, state = .running t g callers ∧ g.stack = Int32.ofNat heap.size :: f.stack ∧
        t.heap = heap.add className
    else state.fault? = some (.heapExhausted ⟨heap.size⟩) ∧ state.session.heap = heap
  | .get reference name =>
    match heap.get? reference with
    | some o =>
      ∃ t g, state = .running t g callers ∧ g.stack = o.field name :: f.stack.tail ∧ t.heap = heap
    | none =>
      state.fault? = some (.invalidReference reference heap.size) ∧ state.session.heap = heap
  | .put reference name value =>
    match heap.get? reference with
    | some _ =>
      ∃ t g, state = .running t g callers ∧ g.stack = f.stack.drop 2 ∧
        t.heap = heap.setField reference name value
    | none =>
      state.fault? = some (.invalidReference reference heap.size) ∧ state.session.heap = heap

/-- Either way, the access has been made to an object that is there, or it has not been made. -/
theorem HeapAccess.Finds.cases {heap : Heap} {f : Frame} {callers : List Frame} {state : State}
    {a : HeapAccess} (h : a.Finds heap f callers state) :
    (∃ t g, state = .running t g callers ∧ t.heap = heap.after (some a) ∧
        ∀ reference name value, a = .put reference name value →
          (heap.get? reference).isSome = true) ∨
      ∃ fault, state.fault? = some fault ∧ state.session.heap = heap := by
  cases a with
  | new className =>
    rw [Finds] at h
    split at h
    · obtain ⟨t, g, hstate, -, hheap⟩ := h
      exact .inl ⟨t, g, hstate, hheap, fun _ _ _ h => by cases h⟩
    · exact .inr ⟨_, h⟩
  | get reference name =>
    rw [Finds] at h
    split at h
    · obtain ⟨t, g, hstate, -, hheap⟩ := h
      exact .inl ⟨t, g, hstate, hheap, fun _ _ _ h => by cases h⟩
    · exact .inr ⟨_, h⟩
  | put reference name value =>
    rw [Finds] at h
    split at h
    · next o hobject =>
      obtain ⟨t, g, hstate, -, hheap⟩ := h
      refine .inl ⟨t, g, hstate, hheap, fun _ _ _ h => ?_⟩
      cases h
      exact Option.isSome_of_eq_some hobject
    · exact .inr ⟨_, h⟩

namespace Move

variable {p : Program} {c : Config}

/-- The access that a move attempts. -/
def access? (p : Program) : Move → Option HeapAccess
  | ask _ _ => none
  | step _ top _ => do
    let i ← top.instruction?
    i.access? p.pool top.stack

/-- The access that a move makes: the one that it attempts, unless it ends in a fault. -/
def accessed? (p : Program) (c : Config) (move : Move) : Option HeapAccess :=
  match move.next p c with
  | .running _ _ _ => move.access? p
  | .halted _ _ => none

/-- A move that attempts no access makes none. -/
theorem accessed?_of_access?_eq_none {move : Move} (h : move.access? p = none) :
    move.accessed? p c = none := by
  unfold accessed?
  split
  · exact h
  · rfl

/-- A move that ends in a fault makes no access. -/
theorem accessed?_of_fault? {move : Move} {fault : Fault}
    (h : (move.next p c).fault? = some fault) : move.accessed? p c = none := by
  unfold accessed?
  split
  · next hrunning =>
    rw [hrunning] at h
    cases h
  · rfl

/-- A move that goes on has made the access that it attempted. -/
theorem accessed?_of_running {move : Move} {t : Session} {g : Frame} {callers : List Frame}
    (h : move.next p c = .running t g callers) : move.accessed? p c = move.access? p := by
  rw [accessed?, h]

/-- A move that attempts no access leaves the heap. -/
theorem heap_next_of_access?_eq_none {move : Move} (h : move.access? p = none) :
    (move.next p c).session.heap = move.session.heap := by
  cases move with
  | ask s r => exact State.heap_start p s r
  | step s f callers =>
    cases hinstr : f.instruction? with
    | none =>
      obtain hnext | ⟨fault, -, hnext⟩ :=
        next_of_instruction?_eq_none (p := p) (c := c) hinstr s callers
      · rw [hnext]
        exact (State.leave_passes s f.method 0 callers).heap
      · rw [hnext]
        exact (State.unwind_passes s fault _).heap
    | some i =>
      obtain ⟨pc, op, x, y, after, hnext⟩ :=
        next_of_instruction? (p := p) (c := c) hinstr s callers
      have haccess : i.access? p.pool f.stack = none := by
        rw [access?, hinstr] at h
        exact h
      rw [hnext, State.heap_apply, heap_execute_of_access?_eq_none haccess]
      rfl

/-- An access that is attempted comes to what it finds in the heap. -/
theorem finds_of_access? {s : Session} {f : Frame} {callers : List Frame} {a : HeapAccess}
    (h : (step s f callers).access? p = some a) :
    a.Finds s.heap f callers ((step s f callers).next p c) := by
  obtain ⟨i, hinstr, haccess⟩ := Option.bind_eq_some_iff.1 h
  obtain ⟨pc, op, x, y, after, hnext⟩ := next_of_instruction? (p := p) (c := c) hinstr s callers
  have hheap : (s.record (.executing pc op x y)).heap = s.heap := rfl
  generalize s.record (.executing pc op x y) = t at hnext hheap
  rw [hnext]
  obtain ⟨index, className, rfl, hclass, rfl⟩ |
      ⟨index, member, reference, rest, rfl, hfield, hstack, rfl⟩ |
      ⟨index, member, value, reference, rest, rfl, hfield, hstack, rfl⟩ :=
    Instruction.access?_cases haccess
  · rw [execute_new hclass, HeapAccess.Finds, hheap]
    split
    · exact ⟨_, _, rfl, rfl, rfl⟩
    · exact ⟨rfl, (State.unwind_passes t _ _).heap.trans hheap⟩
  · rw [execute_getField hfield hstack, HeapAccess.Finds, hheap, hstack]
    cases s.heap.get? reference with
    | some o => exact ⟨_, _, rfl, rfl, hheap⟩
    | none => exact ⟨rfl, (State.unwind_passes t _ _).heap.trans hheap⟩
  · rw [execute_putField hfield hstack, HeapAccess.Finds, hheap, hstack]
    cases s.heap.get? reference with
    | some o => exact ⟨_, _, rfl, rfl, rfl⟩
    | none => exact ⟨rfl, (State.unwind_passes t _ _).heap.trans hheap⟩

/-- A move does to the heap what the access does that it makes, and nothing else; and what it
writes to is an object that is there. -/
theorem heap_next (p : Program) (c : Config) (move : Move) :
    (move.next p c).session.heap = move.session.heap.after (move.accessed? p c) ∧
      ∀ reference name value, move.accessed? p c = some (.put reference name value) →
        (move.session.heap.get? reference).isSome = true := by
  cases haccess : move.access? p with
  | none =>
    rw [accessed?_of_access?_eq_none haccess]
    exact ⟨heap_next_of_access?_eq_none haccess, fun _ _ _ h => by cases h⟩
  | some a =>
    cases move with
    | ask s r => cases haccess
    | step s f callers =>
      obtain ⟨t, g, hnext, hheap, hthere⟩ | ⟨fault, hfault, hheap⟩ :=
        (finds_of_access? (c := c) haccess).cases
      · rw [accessed?_of_running hnext, haccess, hnext]
        exact ⟨hheap, fun reference name value h =>
          hthere reference name value (Option.some.inj h)⟩
      · rw [accessed?_of_fault? hfault]
        exact ⟨hheap, fun _ _ _ h => by cases h⟩

end Move

/-! ## The law -/

/-- The accesses that moves have made. -/
def History.accesses (p : Program) (c : Config) (moves : List Move) : List HeapAccess :=
  moves.filterMap (Move.accessed? p c)

/-- After one move more. -/
theorem History.accesses_append (p : Program) (c : Config) (moves : List Move) (move : Move) :
    accesses p c (moves ++ [move]) = accesses p c moves ++ (move.accessed? p c).toList := by
  unfold accesses
  rw [List.filterMap_append]
  cases h : move.accessed? p c <;> simp [h]

/-- The heap records the accesses of a history that starts with the empty heap. -/
theorem History.records {p : Program} {c : Config} {s : Session} {outcome : Except Fault Int32}
    (hempty : s.heap = {}) {moves : List Move} {state : State}
    (h : History p c (.halted s outcome) moves state) :
    state.session.heap.Records (accesses p c moves) := by
  induction h with
  | nil =>
    show s.heap.Records []
    rw [hempty]
    exact Heap.records_nil
  | @snoc moves state earlier move last ih =>
    obtain ⟨hheap, hthere⟩ := move.heap_next p c
    rw [last.session_eq] at hheap hthere
    rw [hheap, accesses_append]
    cases haccessed : move.accessed? p c with
    | none =>
      rw [Option.toList_none, List.append_nil]
      exact ih
    | some a =>
      rw [haccessed] at hthere
      exact ih.after fun reference name value ha => hthere reference name value (congrArg some ha)

/-- The heap after a history extends the one before by the accesses of the history. -/
theorem History.extends {p : Program} {c : Config} {start state : State} {moves : List Move}
    (h : History p c start moves state) :
    start.session.heap.Extends state.session.heap (accesses p c moves) := by
  induction h with
  | nil => exact .refl _
  | @snoc moves state earlier move last ih =>
    obtain ⟨hheap, -⟩ := move.heap_next p c
    rw [last.session_eq] at hheap
    rw [hheap, accesses_append]
    cases move.accessed? p c with
    | none =>
      rw [Option.toList_none, List.append_nil]
      exact ih
    | some a => exact ih.trans (Heap.extends_after _ a)

/-- What an access of the frame `f` comes to after the accesses of the past. -/
def HeapAccess.Comes (past : List HeapAccess) (heap : Heap) (f : Frame) (callers : List Frame)
    (state : State) : HeapAccess → Prop
  | .new className =>
    if (classes past).length < 2 ^ 31 then
      ∃ t g reference, state = .running t g callers ∧ g.stack = reference :: f.stack ∧
        reference.toInt = (classes past).length ∧ t.heap.get? reference = some { className }
    else
      state.fault? = some (.heapExhausted ⟨(classes past).length⟩) ∧ state.session.heap = heap
  | .get reference name =>
    if 0 ≤ reference.toInt ∧ reference.toInt < (classes past).length then
      ∃ t g, state = .running t g callers ∧
        g.stack = (latest reference name past).getD 0 :: f.stack.tail
    else
      state.fault? = some (.invalidReference reference (classes past).length) ∧
        state.session.heap = heap
  | .put reference _ _ =>
    if 0 ≤ reference.toInt ∧ reference.toInt < (classes past).length then
      ∃ t g, state = .running t g callers ∧ g.stack = f.stack.drop 2
    else
      state.fault? = some (.invalidReference reference (classes past).length) ∧
        state.session.heap = heap

/-- The index that the number of an object stands for, as long as it fits. -/
theorem Heap.index?_ofNat {n : Nat} (h : n < 2 ^ 31) :
    (Int32.ofNat n).toInt = n ∧ index? (Int32.ofNat n) = some n := by
  have htoInt : (Int32.ofNat n).toInt = n := Int32.toInt_ofNat_of_lt h
  have hnonneg : 0 ≤ Int32.ofNat n := by
    rw [Int32.le_iff_toInt_le, Int32.toInt_zero, htoInt]
    omega
  refine ⟨htoInt, ?_⟩
  rw [index?, if_pos hnonneg, htoInt, Int.toNat_natCast]

/-- What an access finds in a heap follows from the accesses of the past. -/
theorem HeapAccess.Finds.comes {past : List HeapAccess} {heap : Heap} {f : Frame}
    {callers : List Frame} {state : State} {a : HeapAccess} (h : a.Finds heap f callers state)
    (hrecords : heap.Records past) : a.Comes past heap f callers state := by
  have hsize := hrecords.size_eq
  have hthere (reference : Int32) :
      (heap.get? reference).isSome ↔
        0 ≤ reference.toInt ∧ reference.toInt < (classes past).length := by
    rw [heap.get?_isSome_iff_toInt, hsize]
  cases a with
  | new className =>
    rw [Finds, hsize] at h
    rw [Comes]
    split
    · next hroom =>
      rw [if_pos hroom] at h
      obtain ⟨t, g, hstate, hstack, hheap⟩ := h
      obtain ⟨htoInt, hindex⟩ := Heap.index?_ofNat hroom
      refine ⟨t, g, _, hstate, hstack, htoInt, ?_⟩
      rw [hheap, Heap.get?_add, hindex, hsize, if_pos rfl]
    · next hroom =>
      rw [if_neg hroom] at h
      exact h
  | get reference name =>
    have hrange := hthere reference
    rw [Finds, hsize] at h
    rw [Comes]
    cases hobject : heap.get? reference with
    | some o =>
      rw [hobject] at h hrange
      obtain ⟨t, g, hstate, hstack, -⟩ := h
      rw [if_pos (hrange.1 rfl)]
      exact ⟨t, g, hstate, by rw [hstack, hrecords.field_eq hobject]⟩
    | none =>
      rw [hobject] at h hrange
      rw [if_neg fun hin => Bool.false_ne_true (hrange.2 hin)]
      exact h
  | put reference name value =>
    have hrange := hthere reference
    rw [Finds, hsize] at h
    rw [Comes]
    cases hobject : heap.get? reference with
    | some o =>
      rw [hobject] at h hrange
      obtain ⟨t, g, hstate, hstack, -⟩ := h
      rw [if_pos (hrange.1 rfl)]
      exact ⟨t, g, hstate, hstack⟩
    | none =>
      rw [hobject] at h hrange
      rw [if_neg fun hin => Bool.false_ne_true (hrange.2 hin)]
      exact h

/-- The history of the heap. Whatever requests are carried out from the start on, and however they
end, the following holds at every moment. The objects are those that were allocated, in order and of
the classes named, and every field holds what was last written to it. The next access comes to what
the accesses of the past say: an allocation gives the number of objects allocated before it, a field
reads as what was last written to it or as zero, and a reference to no object is refused with the
number of objects there are, and nothing changes. Whatever is done later, faults included, every
object stays, with its class, and so do its fields but for what is written to them. -/
theorem heap_history (p : Program) (c : Config) (sink : Sink) (journal : Journal)
    (moves : List Move) (state : State) (h : History p c (.idle { sink, journal }) moves state) :
    state.session.heap.Records (History.accesses p c moves) ∧
      (∀ s f callers a, state = .running s f callers →
        (Move.step s f callers).access? p = some a →
          a.Comes (History.accesses p c moves) s.heap f callers
            ((Move.step s f callers).next p c)) ∧
      ∀ moves' state', History p c state moves' state' →
        state.session.heap.Extends state'.session.heap (History.accesses p c moves') := by
  have hrecords := h.records rfl
  refine ⟨hrecords, ?_, fun moves' state' hlater => hlater.extends⟩
  rintro s f callers a rfl haccess
  exact (Move.finds_of_access? haccess).comes hrecords

/-- A method that allocates an object, writes a field of it, and reads the field. -/
def Method.boxed : Method where
  key := ⟨"boxed", "()I"⟩
  signature := ⟨[], some .int⟩
  ofDescriptor_eq := by cbv
  code := #[0xbb, 0x00, 0x02, 0x59, 0x10, 0x07, 0xb5, 0x00, 0x06, 0xb4, 0x00, 0x06, 0xac]
  maxStack := 3
  maxLocals := 0

/-- The program whose one method is `boxed`. -/
def Program.boxing : Program :=
  ⟨.ofList [.utf8 "Box", .classRef 1, .utf8 "value", .utf8 "I", .nameAndType 3 4,
    .fieldRef 2 5], [Method.boxed], by decide⟩

/-- When `boxed` comes to read the field, it reads what it wrote. -/
theorem heap_history_boxed :
    ∃ moves s f t g, History .boxing {} (.idle {}) moves (.running s f []) ∧
      History.accesses .boxing {} moves = [.new "Box", .put 0 "value" 7] ∧
      (Move.step s f []).next .boxing {} = .running t g [] ∧ g.stack = [7] := by
  have hnone : History .boxing {} (.idle {}) [] (.idle {}) := .nil
  have hasked := hnone.snoc (.ask _ _ (.invoke Method.boxed.key []))
  have hnew := hasked.snoc (.step _ _ _)
  have hdup := hnew.snoc (.step _ _ _)
  have hpush := hdup.snoc (.step _ _ _)
  have hput := hpush.snoc (.step _ _ _)
  have hcomes := (heap_history .boxing {} {} {} _ _ hput).2.1 _ _ _ (.get 0 "value") rfl rfl
  rw [HeapAccess.Comes, if_pos ⟨by decide, by decide⟩] at hcomes
  obtain ⟨t, g, hnext, hstack⟩ := hcomes
  exact ⟨_, _, _, t, g, hput, rfl, hnext, hstack⟩

end TieredJvm
