import TieredJvm.Proofs.Program.Construction
import TieredJvm.Proofs.Promotion.Lifecycle

/-!
# Profiles by number

A program numbers its methods, and what is remembered about a method can be kept under its number
as well as under its key: a list with one profile for each method, in the order of the table, in
which a call is booked at the number that the index has for the key (`Program.bookMove`). After any
moves such a list is what the session remembers, in the order of the table
(`History.foldl_bookMove`). A call changes one profile of the list, since no other method has the
key (`Program.numbered_book`).
-/

namespace TieredJvm

/-- The profile of a method with one more call: the call is counted, and if the slot was not filled,
and the policy compiles and finds the method hot with this call, then it is filled. -/
def Profile.booked (q : Profile) (policy : PromotionPolicy) (m : Method) : Profile :=
  match q.slot with
  | .untried =>
    if policy.enabled && policy.isHot q.count then
      { q.count with slot := .ofInstall (m.install .host) }
    else q.count
  | .ineligible | .native _ => q.count

/-- Booking a call of a method leaves its profile with one more call. -/
theorem Session.profile_book_self (s : Session) (policy : PromotionPolicy) (m : Method) :
    (s.book policy m).profile m.key = (s.profile m.key).booked policy m := by
  rw [(s.replaces_book policy m).self]
  unfold bookedSlot Profile.booked
  generalize s.profile m.key = q
  -- To count a call leaves the slot as it is.
  have hslot : q.count.slot = q.slot := rfl
  have hkeep : ⟨q.count.calls, q.slot⟩ = q.count := rfl
  dsimp only
  rw [hslot]
  cases hq : q.slot with
  | untried =>
    rw [hq] at hkeep
    dsimp only
    split
    · rfl
    · exact hkeep
  | ineligible | native entry =>
    rw [hq] at hkeep
    exact hkeep

namespace Program

/-- What is remembered about the methods of a program, by number. -/
def numbered (p : Program) (s : Session) : List Profile :=
  p.methods.map fun m => s.profile m.key

/-- Books a call of the method with a number. -/
def bookAt (p : Program) (policy : PromotionPolicy) (profiles : List Profile) (i : Nat) :
    List Profile :=
  match p.methods[i]? with
  | some m => profiles.modify i (·.booked policy m)
  | none => profiles

/-- Books the call that a move books, if there is one, under the number of the method. -/
def bookMove (p : Program) (c : Config) (index : Table MethodKey Nat) (profiles : List Profile)
    (move : Move) : List Profile :=
  match (move.booked? p).bind fun m => index.get? m.key with
  | some i => p.bookAt c.promotion profiles i
  | none => profiles

/-- What is remembered by number after moves from a new session. -/
def bookMoves (p : Program) (c : Config) (index : Table MethodKey Nat) (moves : List Move) :
    List Profile :=
  moves.foldl (p.bookMove c index) (List.replicate p.methods.length {})

variable {p : Program} {index : Table MethodKey Nat}

/-- Before the first call there are as many new profiles as methods. -/
theorem numbered_new (p : Program) (sink : Sink) (journal : Journal) :
    p.numbered { sink, journal } = List.replicate p.methods.length {} := by
  exact List.map_const' ..

/-- Under the number of a method stands what is remembered under its key. -/
theorem numbered_getElem? (hindex : Numbers index p.methods) (s : Session) {key : MethodKey}
    {i : Nat} (hi : index.get? key = some i) : (p.numbered s)[i]? = some (s.profile key) := by
  obtain ⟨m, hm, rfl⟩ := (hindex key i).1 hi
  rw [numbered, List.getElem?_map, hm, Option.map_some]

/-- To book a call of a method with its key is to book it with its number. -/
theorem numbered_book (hindex : Numbers index p.methods) (s : Session) (policy : PromotionPolicy)
    {m : Method} {i : Nat} (hm : p.methods[i]? = some m) :
    p.numbered (s.book policy m) = p.bookAt policy (p.numbered s) i := by
  rw [bookAt, hm]
  dsimp only
  refine List.ext_getElem? fun j => ?_
  rw [List.getElem?_modify, numbered, numbered, List.getElem?_map, List.getElem?_map]
  cases hm' : p.methods[j]? with
  | none => simp
  | some m' =>
    by_cases hij : i = j
    · subst hij
      rw [hm] at hm'
      cases hm'
      simp [Session.profile_book_self]
    · -- A method with another number has another key.
      have hkey : m'.key ≠ m.key := by
        intro heq
        have hi := (hindex m.key i).2 ⟨m, hm, rfl⟩
        rw [(hindex m.key j).2 ⟨m', hm', heq⟩] at hi
        exact hij (Option.some.inj hi).symm
      simp [hij, s.profile_book_of_ne policy hkey]

/-- Sessions that remember the same about methods do so by number. -/
theorem numbered_congr {s t : Session} (h : t.profiles = s.profiles) :
    p.numbered t = p.numbered s := by
  simp only [numbered, Session.profile, h]

/-- A move books by number what it books by key. -/
theorem numbered_next (hindex : Numbers index p.methods) (c : Config) (move : Move) :
    p.numbered (move.next p c).session = p.bookMove c index (p.numbered move.session) move := by
  obtain ⟨t, hbefore, hafter, hfind⟩ := move.next_booked p c
  rw [numbered_congr hafter.profiles, ← numbered_congr hbefore.profiles, bookMove]
  cases hbooks : move.booked? p with
  | none => rfl
  | some m =>
    have hfound := hfind m hbooks
    rw [find?_eq_of_numbers hindex] at hfound
    obtain ⟨i, hi, hm⟩ := Option.bind_eq_some_iff.1 hfound
    rw [Option.bind_some, hi]
    exact numbered_book hindex t c.promotion hm

end Program

/-- Booking the calls of moves by number is what comes of booking them by key. -/
theorem History.foldl_bookMove {p : Program} {c : Config} {start state : State} {moves : List Move}
    (h : History p c start moves state) {index : Table MethodKey Nat}
    (hindex : Numbers index p.methods) :
    moves.foldl (p.bookMove c index) (p.numbered start.session) = p.numbered state.session := by
  induction h with
  | nil => rfl
  | @snoc moves state earlier move last ih =>
    rw [List.foldl_append, ih, Program.numbered_next hindex, last.session_eq]
    rfl

/-- A request leads from the session `s` to `t`, and what comes of booking its calls by number, with
new profiles before the first, is what `t` remembers about the methods. -/
def Request.BooksByNumber (r : Request) (p : Program) (c : Config) (s t : Session) : Prop :=
  ∃ index moves outcome,
    indexFrom 0 ⟨[]⟩ p.methods = .ok index ∧
    History p c (.halted s (.ok 0)) (.ask s r :: moves) (.halted t outcome) ∧
    ∀ m ∈ p.methods, ∃ i, index.get? m.key = some i ∧ p.methods[i]? = some m ∧
      (p.bookMoves c index (.ask s r :: moves))[i]? = some (t.profile m.key)

/-- The calls of a request in a new session can be booked by number. -/
theorem Request.booksByNumber_of_perform {p : Program} {c : Config} {fuel : Nat} {sink : Sink}
    {journal : Journal} {t : Session} {r : Request} {result : Except Fault Int32}
    (h : r.perform p c fuel { sink, journal } = some (t, result)) :
    r.BooksByNumber p c { sink, journal } t := by
  obtain ⟨index, hindex, hnumbers⟩ := p.exists_index
  obtain ⟨moves, outcome, hmoves⟩ := History.of_perform h (.ok 0)
  have hbooked := hmoves.foldl_bookMove hnumbers
  rw [State.session, p.numbered_new] at hbooked
  refine ⟨index, moves, outcome, hindex, hmoves, fun m hm => ?_⟩
  obtain ⟨i, hi⟩ := List.getElem?_of_mem hm
  have hget := (hnumbers m.key i).2 ⟨m, hi, rfl⟩
  refine ⟨i, hget, hi, ?_⟩
  rw [Program.bookMoves, hbooked]
  exact Program.numbered_getElem? hnumbers t hget

end TieredJvm
