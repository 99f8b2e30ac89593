import TieredJvm.ConstantPool
import TieredJvm.Program.Method

/-!
# Programs

A constant pool with a table of methods in which no key occurs twice. Methods are found by key
alone, so the order of the table does not matter to a run.
-/

namespace TieredJvm

/-- The first item of a list that equals an earlier one, or one already `seen`. -/
def firstRepeat? {α : Type} [DecidableEq α] (seen : List α) : List α → Option α
  | [] => none
  | a :: rest => if a ∈ seen then some a else firstRepeat? (a :: seen) rest

/-- A list without a repeat has no item twice, and none that was seen before. -/
theorem nodup_of_firstRepeat?_eq_none {α : Type} [DecidableEq α] {seen items : List α}
    (h : firstRepeat? seen items = none) : items.Nodup ∧ ∀ a ∈ items, a ∉ seen := by
  induction items generalizing seen with
  | nil => simp
  | cons a rest ih =>
    unfold firstRepeat? at h
    split at h
    · cases h
    next hseen =>
      obtain ⟨hrest, hnew⟩ := ih h
      refine ⟨List.nodup_cons.2 ⟨fun ha => hnew a ha (List.mem_cons_self ..), hrest⟩, ?_⟩
      intro b hb
      rcases List.mem_cons.1 hb with rfl | hb
      · exact hseen
      · exact fun hs => hnew b hb (List.mem_cons_of_mem _ hs)

/-- A program. -/
structure Program where
  /-- The constants that the code refers to. -/
  pool : ConstantPool
  /-- The methods, in the order in which they were declared. -/
  methods : List Method
  /-- No two methods have the same key. -/
  nodup_keys : (methods.map Method.key).Nodup

namespace Program

/-- The program of a pool and a list of methods; refused with the first method whose key an
earlier one has. -/
def ofMethods (pool : ConstantPool) (methods : List Method) : Except ProgramError Program :=
  match h : firstRepeat? [] (methods.map Method.key) with
  | some key => .error (.duplicateMethod key)
  | none => .ok ⟨pool, methods, (nodup_of_firstRepeat?_eq_none h).1⟩

/-- The method with a given key. -/
def find? (p : Program) (key : MethodKey) : Option Method :=
  p.methods.find? (·.key = key)

/-- The usual entry point, which takes the command line arguments. -/
def mainKey : MethodKey :=
  ⟨"main", "([Ljava/lang/String;)V"⟩

/-- The entry point that takes nothing. -/
def bareMainKey : MethodKey :=
  ⟨"main", "()V"⟩

/-- The method with which a run starts: `main` with arguments if there is one, else `main`
without. -/
def entryPoint (p : Program) : Except ProgramError Method :=
  match p.find? mainKey with
  | some m => .ok m
  | none =>
    match p.find? bareMainKey with
    | some m => .ok m
    | none => .error .missingMain

end Program

end TieredJvm
