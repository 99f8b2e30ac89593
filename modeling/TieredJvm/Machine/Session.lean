import TieredJvm.Journal
import TieredJvm.Promotion

/-!
# Sessions

What outlives a call: the heap, the output, the profiles of the methods, and the journal. Nothing
of it is undone by a fault.
-/

namespace TieredJvm

/-- What outlives a call. -/
structure Session where
  /-- The objects. -/
  heap : Heap := {}
  /-- The output. -/
  sink : Sink := {}
  /-- What is remembered about the methods. -/
  profiles : Profiles := {}
  /-- What is told of the work. -/
  journal : Journal := {}

namespace Session

/-- Tells of an event. -/
def record (s : Session) (e : Event) : Session :=
  { s with journal := s.journal.record e }

/-- What is remembered about a method. -/
def profile (s : Session) (key : MethodKey) : Profile :=
  s.profiles.of key

/-- Replaces what is remembered about a method. -/
def setProfile (s : Session) (key : MethodKey) (p : Profile) : Session :=
  { s with profiles := s.profiles.set key p }

/-- Compiles a method and remembers the outcome in its profile. -/
def compile (s : Session) (m : Method) (p : Profile) : Session :=
  match m.install .host with
  | .ok entry =>
    (s.record (.compiled m.key entry.region.size)).setProfile m.key { p with slot := .native entry }
  | .error cause =>
    (s.record (.notCompiled m.key cause)).setProfile m.key { p with slot := .ineligible }

/-- The bookkeeping of a call: the call is counted, and the method is compiled if it is now hot
and was never looked at. -/
def book (s : Session) (policy : PromotionPolicy) (m : Method) : Session :=
  let p := (s.profile m.key).count
  match p.slot with
  | .untried =>
    if policy.enabled && policy.isHot p then s.compile m p else s.setProfile m.key p
  | .ineligible | .native _ => s.setProfile m.key p

@[simp] theorem heap_record (s : Session) (e : Event) : (s.record e).heap = s.heap := rfl

@[simp] theorem sink_record (s : Session) (e : Event) : (s.record e).sink = s.sink := rfl

@[simp] theorem profiles_record (s : Session) (e : Event) :
    (s.record e).profiles = s.profiles := rfl

@[simp] theorem heap_setProfile (s : Session) (key : MethodKey) (p : Profile) :
    (s.setProfile key p).heap = s.heap := rfl

@[simp] theorem sink_setProfile (s : Session) (key : MethodKey) (p : Profile) :
    (s.setProfile key p).sink = s.sink := rfl

/-- What was remembered last about a method is what is remembered. -/
@[simp] theorem profile_setProfile_self (s : Session) (key : MethodKey) (p : Profile) :
    (s.setProfile key p).profile key = p := by
  simp [profile, setProfile, Profiles.of]

/-- Remembering something about one method changes nothing about another. -/
theorem profile_setProfile_of_ne (s : Session) {key other : MethodKey} (p : Profile)
    (h : other ≠ key) : (s.setProfile key p).profile other = s.profile other := by
  simp [profile, setProfile, Profiles.of, Table.get?_set_of_ne _ _ h]

end Session

end TieredJvm
