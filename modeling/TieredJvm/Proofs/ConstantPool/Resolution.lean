import TieredJvm.ConstantPool

/-!
# Resolution hop by hop

A look-up in the pool is a chain of hops: at an index there must be an entry of a certain kind,
which tells the index of the next hop. `Resolver.hops` lists the hops of every look-up in the order
in which they are made, from the entries alone. A look-up fails with what its first failing hop
fails with, and succeeds if none fails (`Resolver.run_follows`), and then it gives what the entries
of its chain hold (`reference_eq_ok`). The failure of a hop says what is at its index
(`Hop.of_indexOutOfRange`, `Hop.of_kindMismatch`).

`Follows` says of a computation that it makes a list of hops. A single look-up makes one hop, as its
view sees something in the entries of its kind only (`Constant.Views`), and a sequence makes those
of its parts.
-/

namespace TieredJvm

/-! ## Views of entries -/

/-- The view sees in an entry what it was made of, if it was made by `make`, and nothing else; the
entries made so are those of the kind. -/
structure Constant.Views {α : Type} (kind : ConstantKind) (make : α → Constant)
    (view : Constant → Option α) : Prop where
  /-- What is seen is what the entry was made of. -/
  eq_some_iff : ∀ entry a, view entry = some a ↔ entry = make a
  /-- Nothing is seen in an entry of another kind, and only there. -/
  eq_none_iff : ∀ entry, view entry = none ↔ entry.kind ≠ kind

namespace Constant

/-! Each view sees what its constructor was given, and what it sees something in has one kind. -/

theorem utf8?_views : Views .utf8 utf8 utf8? where
  eq_some_iff entry text := by cases entry <;> simp [utf8?]
  eq_none_iff entry := by cases entry <;> simp [utf8?, kind]

theorem integer?_views : Views .integer integer integer? where
  eq_some_iff entry value := by cases entry <;> simp [integer?]
  eq_none_iff entry := by cases entry <;> simp [integer?, kind]

theorem classRef?_views : Views .classRef classRef classRef? where
  eq_some_iff entry name := by cases entry <;> simp [classRef?]
  eq_none_iff entry := by cases entry <;> simp [classRef?, kind]

theorem string?_views : Views .string string string? where
  eq_some_iff entry text := by cases entry <;> simp [string?]
  eq_none_iff entry := by cases entry <;> simp [string?, kind]

theorem fieldRef?_views :
    Views .fieldRef (fun indices => fieldRef indices.1 indices.2) fieldRef? where
  eq_some_iff entry indices := by cases entry <;> simp [fieldRef?, Prod.ext_iff]
  eq_none_iff entry := by cases entry <;> simp [fieldRef?, kind]

theorem methodRef?_views :
    Views .methodRef (fun indices => methodRef indices.1 indices.2) methodRef? where
  eq_some_iff entry indices := by cases entry <;> simp [methodRef?, Prod.ext_iff]
  eq_none_iff entry := by cases entry <;> simp [methodRef?, kind]

theorem nameAndType?_views :
    Views .nameAndType (fun indices => nameAndType indices.1 indices.2) nameAndType? where
  eq_some_iff entry indices := by cases entry <;> simp [nameAndType?, Prod.ext_iff]
  eq_none_iff entry := by cases entry <;> simp [nameAndType?, kind]

end Constant

namespace ConstantPool

/-! ## Hops -/

/-- A hop of a look-up. -/
structure Hop where
  /-- The index that it leads to. -/
  index : UInt16
  /-- The kind of entry that it needs there. -/
  expected : ConstantKind
  deriving DecidableEq

/-- What a hop fails with, if it fails. -/
def Hop.failure? (pool : ConstantPool) (hop : Hop) : Option ResolutionError :=
  match pool.entries[hop.index.toNat]? with
  | none => some (.indexOutOfRange hop.index pool.size)
  | some entry =>
    if entry.kind = hop.expected then none
    else some (.kindMismatch hop.index hop.expected entry.kind)

/-- The failure of the first hop that fails. -/
def firstFailure? (pool : ConstantPool) (hops : List Hop) : Option ResolutionError :=
  hops.findSome? (Hop.failure? pool)

/-- A hop and those to which the entry at its index leads. -/
def hopsFrom (pool : ConstantPool) (index : UInt16) (expected : ConstantKind)
    (onward : Constant → List Hop) : List Hop :=
  ⟨index, expected⟩ :: (pool.entries[index.toNat]?).elim [] onward

/-- To the text at an index. -/
def textHops (index : UInt16) : List Hop :=
  [⟨index, .utf8⟩]

/-- To a class and its name. -/
def classHops (pool : ConstantPool) (index : UInt16) : List Hop :=
  pool.hopsFrom index .classRef fun
    | .classRef name => textHops name
    | _ => []

/-- To a name and type, then the name, then the descriptor. -/
def nameAndTypeHops (pool : ConstantPool) (index : UInt16) : List Hop :=
  pool.hopsFrom index .nameAndType fun
    | .nameAndType name descriptor => textHops name ++ textHops descriptor
    | _ => []

/-- To the class of a member and then to its name and type. -/
def memberHops (pool : ConstantPool) (classIndex nameAndType : UInt16) : List Hop :=
  pool.classHops classIndex ++ pool.nameAndTypeHops nameAndType

/-- The look-ups of the pool. -/
inductive Resolver where
  | entry (expected : ConstantKind)
  | utf8 | integer | className | string | nameAndType | methodRef | fieldRef

namespace Resolver

/-- What a look-up gives. -/
def Answer : Resolver → Type
  | entry _ => Constant
  | utf8 | className | string => String
  | integer => Int32
  | nameAndType => String × String
  | methodRef | fieldRef => MemberRef

/-- Looks something up. -/
def run (pool : ConstantPool) (index : UInt16) : (r : Resolver) → Except ResolutionError r.Answer
  | entry expected => pool.resolve index expected
  | utf8 => pool.utf8 index
  | integer => pool.integer index
  | className => pool.className index
  | string => pool.string index
  | nameAndType => pool.nameAndType index
  | methodRef => pool.methodRef index
  | fieldRef => pool.fieldRef index

/-- The hops of a look-up, in the order in which they are made. -/
def hops (pool : ConstantPool) (index : UInt16) : Resolver → List Hop
  | entry expected => [⟨index, expected⟩]
  | utf8 => textHops index
  | integer => [⟨index, .integer⟩]
  | className => pool.classHops index
  | string => pool.hopsFrom index .string fun
    | .string text => textHops text
    | _ => []
  | nameAndType => pool.nameAndTypeHops index
  | methodRef => pool.hopsFrom index .methodRef fun
    | .methodRef owner member => pool.memberHops owner member
    | _ => []
  | fieldRef => pool.hopsFrom index .fieldRef fun
    | .fieldRef owner member => pool.memberHops owner member
    | _ => []

end Resolver

/-! ## Following hops -/

/-- The computation makes the hops in order: it fails with the first failure among them, if there is
one. -/
def Follows {α : Type} (pool : ConstantPool) (hops : List Hop) (x : Except ResolutionError α) :
    Prop :=
  ∀ e, x = .error e ↔ pool.firstFailure? hops = some e

variable {pool : ConstantPool} {α β : Type}

/-- A sequence succeeds if its parts do. -/
theorem bind_eq_ok {x : Except ResolutionError α} {k : α → Except ResolutionError β} {b : β} :
    (x >>= k) = .ok b ↔ ∃ a, x = .ok a ∧ k a = .ok b := by
  cases x with
  | error e => exact ⟨nofun, nofun⟩
  | ok a => exact ⟨fun h => ⟨a, rfl, h⟩, fun ⟨_, ha, h⟩ => Except.ok.inj ha ▸ h⟩

/-- What always succeeds makes no hop. -/
theorem follows_pure (a : α) : pool.Follows [] (pure a) := fun _ => ⟨nofun, nofun⟩

/-- A sequence makes the hops of its first part and then those of the second. -/
theorem Follows.bind {hops hops' : List Hop} {x : Except ResolutionError α}
    {k : α → Except ResolutionError β} (hx : pool.Follows hops x)
    (hk : ∀ a, x = .ok a → pool.Follows hops' (k a)) : pool.Follows (hops ++ hops') (x >>= k) := by
  intro e
  rw [firstFailure?, List.findSome?_append]
  cases x with
  | error cause =>
    rw [← firstFailure?, (hx cause).1 rfl]
    exact ⟨fun h => by cases h; rfl, fun h => by cases h; rfl⟩
  | ok a =>
    have hnone : pool.firstFailure? hops = none := by
      cases hfirst : pool.firstFailure? hops with
      | none => rfl
      | some cause => cases (hx cause).2 hfirst
    rw [← firstFailure?, hnone, Option.none_or]
    exact hk a rfl e

/-- A single look-up makes one hop. -/
theorem lookup_follows {view : Constant → Option α} {index : UInt16} {kind : ConstantKind}
    (hview : ∀ entry, view entry = none ↔ entry.kind ≠ kind) :
    pool.Follows [⟨index, kind⟩] (pool.lookup index kind view) := by
  intro e
  simp only [lookup, firstFailure?, List.findSome?_singleton, Hop.failure?]
  cases pool.entries[index.toNat]? with
  | none => simp
  | some entry =>
    by_cases hkind : entry.kind = kind
    · cases hsee : view entry with
      | none => exact absurd hkind ((hview entry).1 hsee)
      | some a => simp [hkind, hsee]
    · simp [hkind, (hview entry).2 hkind]

section Views

variable {kind : ConstantKind} {make : α → Constant} {view : Constant → Option α} {index : UInt16}

/-- What a single look-up gives is what the entry was made of. -/
theorem lookup_eq_ok (h : Constant.Views kind make view) {a : α} :
    pool.lookup index kind view = .ok a ↔ pool.entries[index.toNat]? = some (make a) := by
  simp only [lookup]
  cases pool.entries[index.toNat]? with
  | none => simp
  | some entry =>
    rw [Option.some.injEq, ← h.eq_some_iff entry a]
    cases hsee : view entry <;> simp [hsee]

/-- A look-up that goes on makes the hop to the entry and then those to which the entry leads. -/
theorem lookup_bind_follows (h : Constant.Views kind make view) {onward : Constant → List Hop}
    {k : α → Except ResolutionError β} (hk : ∀ a, pool.Follows (onward (make a)) (k a)) :
    pool.Follows (pool.hopsFrom index kind onward) (pool.lookup index kind view >>= k) := by
  refine Follows.bind (lookup_follows h.eq_none_iff) fun a ha => ?_
  rw [(lookup_eq_ok h).1 ha]
  exact hk a

/-- It succeeds if the entry is of the kind, with what comes of that on which it was made. -/
theorem lookup_bind_eq_ok (h : Constant.Views kind make view)
    {k : α → Except ResolutionError β} {b : β} :
    (pool.lookup index kind view >>= k) = .ok b ↔
      ∃ a, pool.entries[index.toNat]? = some (make a) ∧ k a = .ok b := by
  simp only [bind_eq_ok, lookup_eq_ok h]

end Views

/-! ## The look-ups -/

section LookUps

variable (pool)

theorem resolve_follows (index : UInt16) (expected : ConstantKind) :
    pool.Follows [⟨index, expected⟩] (pool.resolve index expected) :=
  lookup_follows fun entry => by by_cases h : entry.kind = expected <;> simp [h]

theorem utf8_follows (index : UInt16) : pool.Follows (textHops index) (pool.utf8 index) :=
  lookup_follows Constant.utf8?_views.eq_none_iff

theorem className_follows (index : UInt16) :
    pool.Follows (pool.classHops index) (pool.className index) :=
  lookup_bind_follows Constant.classRef?_views fun name => pool.utf8_follows name

theorem nameAndType_follows (index : UInt16) :
    pool.Follows (pool.nameAndTypeHops index) (pool.nameAndType index) := by
  refine lookup_bind_follows Constant.nameAndType?_views fun (name, descriptor) => ?_
  refine (pool.utf8_follows name).bind fun text _ => ?_
  have hdescriptor := (pool.utf8_follows descriptor).bind fun text' _ =>
    follows_pure (text, text')
  rwa [List.append_nil] at hdescriptor

theorem member_follows (classIndex nameAndType : UInt16) :
    pool.Follows (pool.memberHops classIndex nameAndType) (pool.member classIndex nameAndType) := by
  refine (pool.className_follows classIndex).bind fun className _ => ?_
  have hpair := (pool.nameAndType_follows nameAndType).bind fun pair _ =>
    follows_pure (⟨className, pair.1, pair.2⟩ : MemberRef)
  rwa [List.append_nil] at hpair

/-- Every look-up makes its hops. -/
theorem Resolver.run_follows (index : UInt16) (r : Resolver) :
    pool.Follows (r.hops pool index) (r.run pool index) := by
  cases r with
  | entry expected => exact pool.resolve_follows index expected
  | utf8 => exact pool.utf8_follows index
  | integer => exact lookup_follows Constant.integer?_views.eq_none_iff
  | className => exact pool.className_follows index
  | string => exact lookup_bind_follows Constant.string?_views fun text => pool.utf8_follows text
  | nameAndType => exact pool.nameAndType_follows index
  | methodRef =>
    exact lookup_bind_follows Constant.methodRef?_views fun (owner, member) =>
      pool.member_follows owner member
  | fieldRef =>
    exact lookup_bind_follows Constant.fieldRef?_views fun (owner, member) =>
      pool.member_follows owner member

end LookUps

/-! ## What is found -/

theorem utf8_eq_ok {index : UInt16} {text : String} :
    pool.utf8 index = .ok text ↔ pool.entries[index.toNat]? = some (.utf8 text) :=
  lookup_eq_ok Constant.utf8?_views

theorem className_eq_ok {index : UInt16} {text : String} :
    pool.className index = .ok text ↔
      ∃ name, pool.entries[index.toNat]? = some (.classRef name) ∧
        pool.entries[name.toNat]? = some (.utf8 text) := by
  simp only [className, lookup_bind_eq_ok Constant.classRef?_views, utf8_eq_ok]

theorem nameAndType_eq_ok {index : UInt16} {pair : String × String} :
    pool.nameAndType index = .ok pair ↔
      ∃ name descriptor, pool.entries[index.toNat]? = some (.nameAndType name descriptor) ∧
        pool.entries[name.toNat]? = some (.utf8 pair.1) ∧
        pool.entries[descriptor.toNat]? = some (.utf8 pair.2) := by
  obtain ⟨text, text'⟩ := pair
  simp only [nameAndType, lookup_bind_eq_ok Constant.nameAndType?_views, bind_eq_ok, utf8_eq_ok,
    Prod.exists]
  constructor
  · rintro ⟨name, descriptor, hentry, t, hname, t', hdescriptor, heq⟩
    cases heq
    exact ⟨name, descriptor, hentry, hname, hdescriptor⟩
  · rintro ⟨name, descriptor, hentry, hname, hdescriptor⟩
    exact ⟨name, descriptor, hentry, text, hname, text', hdescriptor, rfl⟩

/-- The reference at an index leads to a member: to the name of its class, and to its own name and
descriptor. -/
def RefersTo (pool : ConstantPool) (reference : UInt16 → UInt16 → Constant) (index : UInt16)
    (m : MemberRef) : Prop :=
  ∃ owner member className name descriptor,
    pool.entries[index.toNat]? = some (reference owner member) ∧
      pool.entries[owner.toNat]? = some (.classRef className) ∧
      pool.entries[className.toNat]? = some (.utf8 m.className) ∧
      pool.entries[member.toNat]? = some (.nameAndType name descriptor) ∧
      pool.entries[name.toNat]? = some (.utf8 m.name) ∧
      pool.entries[descriptor.toNat]? = some (.utf8 m.descriptor)

theorem member_eq_ok {owner member : UInt16} {m : MemberRef} :
    pool.member owner member = .ok m ↔
      pool.className owner = .ok m.className ∧
        pool.nameAndType member = .ok (m.name, m.descriptor) := by
  simp only [ConstantPool.member, bind_eq_ok, Prod.exists]
  constructor
  · rintro ⟨className, hclass, name, descriptor, hpair, heq⟩
    cases heq
    exact ⟨hclass, hpair⟩
  · rintro ⟨hclass, hpair⟩
    exact ⟨_, hclass, _, _, hpair, rfl⟩

/-- A look-up of members gives the member to which the reference leads. -/
theorem reference_eq_ok {kind : ConstantKind} {reference : UInt16 → UInt16 → Constant}
    {view : Constant → Option (UInt16 × UInt16)}
    (h : Constant.Views kind (fun indices => reference indices.1 indices.2) view)
    {index : UInt16} {m : MemberRef} :
    (pool.lookup index kind view >>= fun (owner, member) => pool.member owner member) = .ok m ↔
      pool.RefersTo reference index m := by
  simp only [lookup_bind_eq_ok h, member_eq_ok, className_eq_ok, nameAndType_eq_ok, RefersTo,
    Prod.exists]
  constructor
  · rintro ⟨owner, member, hentry, ⟨className, hclass, hclassName⟩, name, descriptor, hrest⟩
    exact ⟨owner, member, className, name, descriptor, hentry, hclass, hclassName, hrest⟩
  · rintro ⟨owner, member, className, name, descriptor, hentry, hclass, hclassName, hrest⟩
    exact ⟨owner, member, hentry, ⟨className, hclass, hclassName⟩, name, descriptor, hrest⟩

/-! ## What failures say -/

/-- An index that is reported as out of range is so, with the size of the pool. -/
theorem Hop.of_indexOutOfRange {hop : Hop} {index : UInt16} {size : Nat}
    (h : hop.failure? pool = some (.indexOutOfRange index size)) :
    hop.index = index ∧ size = pool.size ∧ pool.size ≤ index.toNat := by
  unfold failure? at h
  split at h
  · next hnone =>
    cases h
    exact ⟨rfl, rfl, Array.getElem?_eq_none_iff.1 hnone⟩
  · split at h <;> cases h

/-- An entry that is reported as of another kind than was expected is there, and it is of the kind
that was found. -/
theorem Hop.of_kindMismatch {hop : Hop} {index : UInt16} {expected found : ConstantKind}
    (h : hop.failure? pool = some (.kindMismatch index expected found)) :
    hop = ⟨index, expected⟩ ∧ found ≠ expected ∧
      ∃ entry, pool.entries[index.toNat]? = some entry ∧ entry.kind = found := by
  unfold failure? at h
  split at h
  · cases h
  · next entry hentry =>
    split at h
    · cases h
    · next hkind =>
      cases h
      exact ⟨rfl, hkind, entry, hentry, rfl⟩

/-- A look-up that fails does so with the failure of one of its hops. -/
theorem Resolver.exists_hop_of_run {index : UInt16} {r : Resolver} {e : ResolutionError}
    (h : r.run pool index = .error e) : ∃ hop ∈ r.hops pool index, hop.failure? pool = some e :=
  List.exists_of_findSome?_eq_some ((r.run_follows pool index e).1 h)

/-- Typed resolution follows the whole chain or reports its first broken hop, in any pool and from
any index. A method or field reference resolves to a member exactly if all entries of the chain are
there and of their kinds. Otherwise, as in every look-up, the error is that of the first hop that
fails, in the order of `Resolver.hops`: for a member the reference, its class, the name of the
class, the name and type, the name, and the descriptor. An error is true: it names an index of that
chain which is past the end of the pool, or an entry of that chain which is there and of another
kind than it has to be. -/
theorem typed_resolution (pool : ConstantPool) (index : UInt16) :
    (∀ m, pool.methodRef index = .ok m ↔ pool.RefersTo .methodRef index m) ∧
      (∀ m, pool.fieldRef index = .ok m ↔ pool.RefersTo .fieldRef index m) ∧
      (∀ (r : Resolver) e, r.run pool index = .error e ↔
        pool.firstFailure? (r.hops pool index) = some e) ∧
      (∀ (r : Resolver) i size, r.run pool index = .error (.indexOutOfRange i size) →
        size = pool.size ∧ pool.size ≤ i.toNat ∧ ∃ expected, ⟨i, expected⟩ ∈ r.hops pool index) ∧
      ∀ (r : Resolver) i expected found,
        r.run pool index = .error (.kindMismatch i expected found) →
          (∃ entry, pool.entries[i.toNat]? = some entry ∧ entry.kind = found) ∧
            found ≠ expected ∧ ⟨i, expected⟩ ∈ r.hops pool index := by
  refine ⟨fun m => reference_eq_ok Constant.methodRef?_views,
    fun m => reference_eq_ok Constant.fieldRef?_views, fun r => r.run_follows pool index,
    fun r i size h => ?_, fun r i expected found h => ?_⟩
  · obtain ⟨⟨i', expected⟩, hhop, hfailure⟩ := Resolver.exists_hop_of_run h
    obtain ⟨rfl, hsize, hle⟩ := Hop.of_indexOutOfRange hfailure
    exact ⟨hsize, hle, expected, hhop⟩
  · obtain ⟨hop, hhop, hfailure⟩ := Resolver.exists_hop_of_run h
    obtain ⟨rfl, hne, hentry⟩ := Hop.of_kindMismatch hfailure
    exact ⟨hentry, hne, hhop⟩

/-- A name and type with a class in place of its name, in a method reference whose descriptor is
missing too: the name is reported, since it is looked up first. -/
example : (ofList [.utf8 "Point", .classRef 1, .nameAndType 2 9, .methodRef 2 3]).methodRef 4 =
    .error (.kindMismatch 2 .utf8 .classRef) := rfl

end ConstantPool

end TieredJvm
