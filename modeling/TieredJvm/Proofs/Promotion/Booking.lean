import TieredJvm.Machine.Session

/-!
# Booking a call

What the bookkeeping of a call does to what is remembered about the methods. It leaves the heap
and the output, and every profile but that of the method called. Of that one it counts the call,
whatever the policy (`calls_book`), and fills the slot if the policy asks for it and the slot was
not filled before (`slot_book_self`).
-/

namespace TieredJvm

/-- What the outcome of compiling a method leaves in its slot. -/
def Slot.ofInstall : Except CompileError NativeEntry → Slot
  | .ok entry => .native entry
  | .error _ => .ineligible

/-- What is told of the outcome of compiling a method. -/
def Event.ofInstall (key : MethodKey) : Except CompileError NativeEntry → Event
  | .ok entry => .compiled key entry.region.size
  | .error cause => .notCompiled key cause

/-- A compiled method carries the register program of the method, for its number of arguments. -/
theorem Method.install_eq_ok {m : Method} {target : Target} {entry : NativeEntry}
    (h : m.install target = .ok entry) :
    m.lower = .ok entry.program ∧ entry.arity = m.signature.args.length := by
  unfold install at h
  split at h
  · cases h
  · next program hlower =>
    split at h
    · split at h
      · cases h
        exact ⟨hlower, rfl⟩
      · cases h
    · cases h

namespace Session

/-- The session `t` is `s` with the profile of one method replaced by `q`; the journals may
differ. -/
structure Replaces (s : Session) (key : MethodKey) (q : Profile) (t : Session) : Prop where
  /-- The objects are the same. -/
  heap : t.heap = s.heap
  /-- The output is the same. -/
  sink : t.sink = s.sink
  /-- The profile of the method is the new one. -/
  self : t.profile key = q
  /-- The other profiles are the same. -/
  others : ∀ other, other ≠ key → t.profile other = s.profile other

/-- Writing a profile replaces it. -/
theorem replaces_setProfile (s : Session) (key : MethodKey) (q : Profile) :
    Replaces s key q (s.setProfile key q) :=
  ⟨rfl, rfl, profile_setProfile_self s key q, fun _ h => profile_setProfile_of_ne s q h⟩

/-- Telling of an event before a profile is written makes no difference to the replacement. -/
theorem Replaces.of_record {s t : Session} {key : MethodKey} {q : Profile} {e : Event}
    (h : Replaces (s.record e) key q t) : Replaces s key q t :=
  ⟨h.heap, h.sink, h.self, h.others⟩

/-- Compiling a method replaces its profile by the given one with the slot filled. -/
theorem replaces_compile (s : Session) (m : Method) (q : Profile) :
    Replaces s m.key { q with slot := .ofInstall (m.install .host) } (s.compile m q) := by
  unfold compile
  split
  · next entry hinstall =>
    rw [hinstall]
    exact (replaces_setProfile _ _ _).of_record
  · next cause hinstall =>
    rw [hinstall]
    exact (replaces_setProfile _ _ _).of_record

/-- The slot of a method after a call is booked: if it was not filled, and the policy compiles and
finds the method hot with this call, then it is filled now. -/
def bookedSlot (s : Session) (policy : PromotionPolicy) (m : Method) : Slot :=
  let q := (s.profile m.key).count
  match q.slot with
  | .untried =>
    if policy.enabled && policy.isHot q then .ofInstall (m.install .host) else .untried
  | slot => slot

/-- Whether booking a call looks at whether the method can be compiled: the slot is not filled, and
the policy compiles and finds the method hot with this call. -/
def attempts (s : Session) (policy : PromotionPolicy) (m : Method) : Bool :=
  match (s.profile m.key).slot with
  | .untried => policy.enabled && policy.isHot (s.profile m.key).count
  | .ineligible | .native _ => false

/-- A call is booked by compiling the method, or by counting alone. -/
theorem book_eq (s : Session) (policy : PromotionPolicy) (m : Method) :
    s.book policy m =
      if s.attempts policy m then s.compile m (s.profile m.key).count
      else s.setProfile m.key (s.profile m.key).count := by
  have hslot : (s.profile m.key).count.slot = (s.profile m.key).slot := rfl
  unfold book attempts
  dsimp only
  rw [hslot]
  cases (s.profile m.key).slot <;> rfl

/-- Compiling a method is told of once. -/
theorem journal_compile (s : Session) (m : Method) (q : Profile) :
    (s.compile m q).journal = s.journal.record (.ofInstall m.key (m.install .host)) := by
  unfold compile
  split
  · next hinstall =>
    rw [hinstall]
    rfl
  · next hinstall =>
    rw [hinstall]
    rfl

/-- Booking a call tells of compiling the method, if that is done, and of nothing else. -/
theorem journal_book (s : Session) (policy : PromotionPolicy) (m : Method) :
    (s.book policy m).journal =
      if s.attempts policy m then s.journal.record (.ofInstall m.key (m.install .host))
      else s.journal := by
  rw [book_eq]
  split
  · exact journal_compile s m _
  · rfl

/-- Booking a call replaces the profile of the method called: the call is counted, and the slot
may be filled. -/
theorem replaces_book (s : Session) (policy : PromotionPolicy) (m : Method) :
    Replaces s m.key { (s.profile m.key).count with slot := s.bookedSlot policy m }
      (s.book policy m) := by
  unfold book bookedSlot
  -- What the policy decides by is the profile with the call counted, not the one before.
  generalize (s.profile m.key).count = q
  obtain ⟨calls, slot⟩ := q
  cases slot with
  | untried =>
    dsimp only
    split
    · exact replaces_compile s m ⟨calls, .untried⟩
    · exact replaces_setProfile s m.key _
  | ineligible => exact replaces_setProfile s m.key _
  | native entry => exact replaces_setProfile s m.key _

@[simp] theorem heap_book (s : Session) (policy : PromotionPolicy) (m : Method) :
    (s.book policy m).heap = s.heap := (replaces_book s policy m).heap

@[simp] theorem sink_book (s : Session) (policy : PromotionPolicy) (m : Method) :
    (s.book policy m).sink = s.sink := (replaces_book s policy m).sink

/-- What is remembered about other methods stays. -/
theorem profile_book_of_ne (s : Session) (policy : PromotionPolicy) {m : Method} {key : MethodKey}
    (h : key ≠ m.key) : (s.book policy m).profile key = s.profile key :=
  (replaces_book s policy m).others key h

/-- The slot of the method called. -/
theorem slot_book_self (s : Session) (policy : PromotionPolicy) (m : Method) :
    ((s.book policy m).profile m.key).slot = s.bookedSlot policy m := by
  rw [(replaces_book s policy m).self]

/-- The number of calls does not depend on the policy. -/
theorem calls_book (s : Session) (policy : PromotionPolicy) (m : Method) (key : MethodKey) :
    ((s.book policy m).profile key).calls =
      if key = m.key then ((s.profile key).count).calls else (s.profile key).calls := by
  split
  · next h =>
    subst h
    rw [(replaces_book s policy m).self]
  · next h => rw [profile_book_of_ne s policy h]

end Session

end TieredJvm
