import TieredJvm.Proofs.ConstantPool.Resolution

/-!
# A growing pool

Entries are added at the end of a pool, so an index that leads to an entry leads to it for good.
What was looked up once is looked up again with the same answer, and an entry of the wrong kind
stays one. A look-up can change only if some hop of it led past the end, where an entry may come to
be (`Resolver.run_settled`). Additions end when the next index would not fit in 16 bits, whether or
not the pool was made with more entries than that (`growth_disturbs_nothing`).
-/

namespace TieredJvm.ConstantPool

/-! ## Additions -/

/-- The pool after an addition was tried: one that is refused leaves it as it is. -/
def afterPush (pool : ConstantPool) (entry : Constant) : ConstantPool :=
  match pool.push entry with
  | .ok (_, pool') => pool'
  | .error _ => pool

/-- The pool after additions were tried one after another. -/
def afterPushes (pool : ConstantPool) (entries : List Constant) : ConstantPool :=
  entries.foldl afterPush pool

/-- The pools that come about by making one and adding to it. -/
inductive Built : ConstantPool → Prop where
  /-- The empty pool. -/
  | empty : Built .empty
  /-- A pool made of entries, however many. -/
  | ofList (entries : List Constant) : Built (.ofList entries)
  /-- A pool to which an entry was added, or refused. -/
  | push {pool : ConstantPool} (earlier : Built pool) (entry : Constant) :
    Built (pool.afterPush entry)

variable {pool pool' : ConstantPool} {entry : Constant}

/-- An addition that succeeds puts the entry at the end, and gives its index. -/
theorem push_eq_ok {index : UInt16} (h : pool.push entry = .ok (index, pool')) :
    index.toNat = pool.size ∧ pool'.entries = pool.entries.push entry := by
  unfold push at h
  split at h
  · next hroom =>
    cases h
    exact ⟨Nat.mod_eq_of_lt hroom, rfl⟩
  · cases h

/-- An addition that is refused reports the size. -/
theorem push_eq_error {e : PoolFull} (h : pool.push entry = .error e) : e = ⟨pool.size⟩ := by
  unfold push at h
  split at h <;> cases h
  rfl

/-- An addition succeeds exactly if the next index fits in 16 bits. -/
theorem exists_push_eq_ok_iff :
    (∃ index pool', pool.push entry = .ok (index, pool')) ↔ pool.size ≤ 65535 := by
  constructor
  · rintro ⟨index, pool', h⟩
    have hindex := (push_eq_ok h).1
    have hlt := index.toNat_lt
    omega
  · intro hle
    exact ⟨_, _, push_of_lt (by omega) entry⟩

/-- What was added is found at its index. -/
theorem resolve_push {index : UInt16} (h : pool.push entry = .ok (index, pool')) :
    pool'.resolve index entry.kind = .ok entry := by
  obtain ⟨hindex, hentries⟩ := push_eq_ok h
  have hentry : pool'.entries[index.toNat]? = some entry := by
    rw [hindex, hentries]
    exact Array.getElem?_push_size
  simp [resolve, lookup, hentry]

/-! ## Growth -/

/-- The pool `pool'` has the entries of `pool` in their places, and perhaps more. -/
def Grows (pool pool' : ConstantPool) : Prop :=
  ∀ (i : Nat) entry, pool.entries[i]? = some entry → pool'.entries[i]? = some entry

theorem Grows.refl (pool : ConstantPool) : pool.Grows pool := fun _ _ h => h

theorem Grows.trans {pool'' : ConstantPool} (h : pool.Grows pool') (h' : pool'.Grows pool'') :
    pool.Grows pool'' := fun i entry hentry => h' i entry (h i entry hentry)

/-- An addition disturbs no entry, whether it succeeds or not. -/
theorem grows_afterPush (pool : ConstantPool) (entry : Constant) :
    pool.Grows (pool.afterPush entry) := by
  unfold afterPush
  split
  · next index pool' h =>
    intro i entry' hentry
    have hlt : i < pool.entries.size := (Array.getElem?_eq_some_iff.1 hentry).1
    rw [(push_eq_ok h).2, Array.getElem?_push, if_neg (Nat.ne_of_lt hlt), hentry]
  · exact .refl pool

/-- Neither do any number of them. -/
theorem grows_afterPushes (pool : ConstantPool) (entries : List Constant) :
    pool.Grows (pool.afterPushes entries) := by
  induction entries generalizing pool with
  | nil => exact .refl pool
  | cons entry entries ih => exact (pool.grows_afterPush entry).trans (ih _)

/-- Slot 0 holds no constant. -/
theorem Built.reserved (h : Built pool) : pool.entries[0]? = some .reserved := by
  induction h with
  | empty => rfl
  | ofList entries => rfl
  | push earlier entry ih => exact grows_afterPush _ entry _ _ ih

/-! ## Look-ups -/

/-- The second result is the same, unless the first was that an index lay past the end. -/
def Settled {α : Type} (x y : Except ResolutionError α) : Prop :=
  y = x ∨ ∃ index size, x = .error (.indexOutOfRange index size)

variable {α β : Type}

theorem Settled.refl (x : Except ResolutionError α) : Settled x x := .inl rfl

/-- A sequence is settled where its parts are. -/
theorem Settled.bind {x y : Except ResolutionError α} {k k' : α → Except ResolutionError β}
    (hx : Settled x y) (hk : ∀ a, Settled (k a) (k' a)) : Settled (x >>= k) (y >>= k') := by
  obtain rfl | ⟨index, size, rfl⟩ := hx
  · cases y with
    | error e => exact .refl _
    | ok a => exact hk a
  · exact .inr ⟨index, size, rfl⟩

/-- A single look-up is settled by an entry at its index. -/
theorem lookup_settled (h : pool.Grows pool') (index : UInt16) (expected : ConstantKind)
    (view : Constant → Option α) :
    Settled (pool.lookup index expected view) (pool'.lookup index expected view) := by
  unfold lookup
  cases hentry : pool.entries[index.toNat]? with
  | none => exact .inr ⟨index, pool.size, rfl⟩
  | some entry =>
    rw [h _ _ hentry]
    exact .refl _

theorem utf8_settled (h : pool.Grows pool') (index : UInt16) :
    Settled (pool.utf8 index) (pool'.utf8 index) :=
  lookup_settled h index _ _

theorem className_settled (h : pool.Grows pool') (index : UInt16) :
    Settled (pool.className index) (pool'.className index) :=
  (lookup_settled h index _ _).bind fun name => utf8_settled h name

theorem nameAndType_settled (h : pool.Grows pool') (index : UInt16) :
    Settled (pool.nameAndType index) (pool'.nameAndType index) :=
  (lookup_settled h index _ _).bind fun (name, descriptor) =>
    (utf8_settled h name).bind fun _ => (utf8_settled h descriptor).bind fun _ => .refl _

theorem member_settled (h : pool.Grows pool') (owner member : UInt16) :
    Settled (pool.member owner member) (pool'.member owner member) :=
  (className_settled h owner).bind fun _ => (nameAndType_settled h member).bind fun _ => .refl _

/-- Every look-up is settled, but for hops past the end. -/
theorem Resolver.run_settled (h : pool.Grows pool') (index : UInt16) (r : Resolver) :
    Settled (r.run pool index) (r.run pool' index) := by
  cases r with
  | entry | utf8 | integer => exact lookup_settled h index _ _
  | className => exact className_settled h index
  | string => exact (lookup_settled h index _ _).bind fun text => utf8_settled h text
  | nameAndType => exact nameAndType_settled h index
  | methodRef | fieldRef =>
    exact (lookup_settled h index _ _).bind fun (owner, member) => member_settled h owner member

/-- Growing a pool never disturbs it. In a pool that was made and added to in any way, slot 0 holds
no constant. An addition succeeds exactly if the size is at most 65535; its index is then the size,
and leads to the entry added. A refused addition reports the size and leaves the pool as it is.
Whatever additions are tried later, a look-up that succeeded gives the same answer, one that met an
entry of another kind fails in the same way, and one whose outcome changes had led past the end. -/
theorem growth_disturbs_nothing (pool : ConstantPool) (h : Built pool) :
    pool.entries[0]? = some .reserved ∧
      (∀ entry,
        ((∃ index pool', pool.push entry = .ok (index, pool')) ↔ pool.size ≤ 65535) ∧
          (∀ index pool', pool.push entry = .ok (index, pool') →
            index.toNat = pool.size ∧ pool'.resolve index entry.kind = .ok entry) ∧
          ∀ e, pool.push entry = .error e → e = ⟨pool.size⟩ ∧ pool.afterPush entry = pool) ∧
      ∀ later (r : Resolver) index,
        (∀ a, r.run pool index = .ok a → r.run (pool.afterPushes later) index = .ok a) ∧
          (∀ i expected found, r.run pool index = .error (.kindMismatch i expected found) →
            r.run (pool.afterPushes later) index = .error (.kindMismatch i expected found)) ∧
          (r.run (pool.afterPushes later) index ≠ r.run pool index →
            ∃ i size, r.run pool index = .error (.indexOutOfRange i size)) := by
  refine ⟨h.reserved, fun entry => ⟨exists_push_eq_ok_iff, fun index pool' hpush => ?_,
    fun e hpush => ⟨push_eq_error hpush, by simp only [afterPush, hpush]⟩⟩,
    fun later r index => ?_⟩
  · exact ⟨(push_eq_ok hpush).1, resolve_push hpush⟩
  · obtain hsame | ⟨i, size, hpast⟩ := r.run_settled (pool.grows_afterPushes later) index
    · rw [hsame]
      exact ⟨fun _ hok => hok, fun _ _ _ hmismatch => hmismatch, fun hne => absurd rfl hne⟩
    · rw [hpast]
      exact ⟨nofun, nofun, fun _ => ⟨i, size, rfl⟩⟩

/-- The first class of this pool has a name, that of the second is no text, and that of the third is
yet to be added. -/
def forwardNamed : ConstantPool :=
  .ofList [.utf8 "Point", .classRef 1, .classRef 2, .classRef 5]

/-- The name is added: the first two classes are looked up as before, the third is found at last. -/
theorem growth_disturbs_nothing_forwardNamed :
    Built forwardNamed ∧
      (forwardNamed.afterPushes [.utf8 "Line"]).className 2 = .ok "Point" ∧
      (forwardNamed.afterPushes [.utf8 "Line"]).className 3 =
        .error (.kindMismatch 2 .utf8 .classRef) ∧
      forwardNamed.className 4 = .error (.indexOutOfRange 5 5) ∧
      (forwardNamed.afterPushes [.utf8 "Line"]).className 4 = .ok "Line" := by
  have hbuilt : Built forwardNamed := .ofList _
  have hlater := (growth_disturbs_nothing forwardNamed hbuilt).2.2 [.utf8 "Line"] .className
  exact ⟨hbuilt, (hlater 2).1 "Point" rfl, (hlater 3).2.1 2 .utf8 .classRef rfl, rfl, rfl⟩

end TieredJvm.ConstantPool
