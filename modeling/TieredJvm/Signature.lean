import TieredJvm.Program.Error

/-!
# Signatures

A method descriptor such as `(ILjava/lang/String;[D)V` lists the types of the arguments between
parentheses and then the type of the result. `Signature.ofDescriptor` reads it into the kinds of
words that the machine tells apart: classes and arrays are references, and the small integer types
are integers.

The parentheses are found first: the arguments end at the first `)`, so that no argument type
holds one, while the class name of a result may. The result holds no line break.
-/

namespace TieredJvm

/-- The kinds of values. -/
inductive ValueKind where
  | int | long | float | double | reference
  deriving DecidableEq

/-- The number of words that a value takes on the operand stack. -/
def ValueKind.slots : ValueKind → Nat
  | long | double => 2
  | int | float | reference => 1

/-- Whether a value is one integer word, which is all that crosses a call. -/
def ValueKind.isWord : ValueKind → Bool
  | int | reference => true
  | long | float | double => false

/-- The kinds of the arguments of a method and of its result, if it has one. -/
structure Signature where
  /-- The kinds of the arguments, in order. -/
  args : List ValueKind
  /-- The kind of the result; there is none for a void method. -/
  result : Option ValueKind
  deriving DecidableEq

namespace Signature

/-- The number of words that the arguments take on the operand stack. -/
def argSlots (s : Signature) : Nat :=
  s.args.foldr (fun kind slots => kind.slots + slots) 0

/-- Whether the method leaves a value. -/
def returnsValue (s : Signature) : Bool :=
  s.result.isSome

/-- Whether all arguments and the result are single integer words. -/
def isWordSized (s : Signature) : Bool :=
  s.args.all ValueKind.isWord && s.result.all ValueKind.isWord

/-- Reads one field type from the start of a text, and gives the rest of the text. A class name
ends at the first `;` and is not empty. -/
def fieldType? : List Char → Option (ValueKind × List Char)
  | [] => none
  | c :: rest =>
    match c with
    | 'B' | 'C' | 'I' | 'S' | 'Z' => some (.int, rest)
    | 'J' => some (.long, rest)
    | 'F' => some (.float, rest)
    | 'D' => some (.double, rest)
    | 'L' =>
      match rest.takeWhile (· != ';'), rest.dropWhile (· != ';') with
      | _ :: _, _ :: after => some (.reference, after)
      | _, _ => none
    | '[' => (fieldType? rest).map fun (_, after) => (.reference, after)
    | _ => none

/-- A field type takes at least one character. -/
theorem length_lt_of_fieldType? {text after : List Char} {kind : ValueKind}
    (h : fieldType? text = some (kind, after)) : after.length < text.length := by
  induction text generalizing kind with
  | nil => cases h
  | cons c rest ih =>
    unfold fieldType? at h
    split at h
    case h_9 =>
      split at h
      case h_1 =>
        cases h
        rename_i hdrop
        have := (List.dropWhile_suffix (l := rest) (· != ';')).length_le
        simp only [hdrop, List.length_cons] at this ⊢
        omega
      case h_2 => cases h
    case h_10 =>
      obtain ⟨⟨k, r⟩, hr, he⟩ := Option.map_eq_some_iff.1 h
      cases he
      exact Nat.lt_succ_of_lt (ih hr)
    case h_11 => cases h
    all_goals
      cases h
      exact Nat.lt_succ_self _

/-- Reads a text that is nothing but field types, one after another. -/
def fieldTypes? (text : List Char) : Option (List ValueKind) :=
  match text with
  | [] => some []
  | c :: rest =>
    match h : fieldType? (c :: rest) with
    | none => none
    | some (kind, after) =>
      have : after.length < (c :: rest).length := length_lt_of_fieldType? h
      (fieldTypes? after).map (kind :: ·)
  termination_by text.length
  decreasing_by assumption

/-- Reads the type of a result: `V` for none, or exactly one field type. -/
def resultType? (text : List Char) : Option (Option ValueKind) :=
  if text = ['V'] then some none
  else
    match fieldType? text with
    | some (kind, []) => some (some kind)
    | _ => none

/-- Reads a descriptor from its characters. -/
def ofChars? : List Char → Option Signature
  | '(' :: text =>
    match text.dropWhile (· != ')') with
    | _ :: result =>
      if '\n' ∈ result then none
      else do
        let args ← fieldTypes? (text.takeWhile (· != ')'))
        let result ← resultType? result
        return ⟨args, result⟩
    | [] => none
  | _ => none

/-- Reads a descriptor. -/
def ofDescriptor (text : String) : Except ProgramError Signature :=
  match ofChars? text.toList with
  | some signature => .ok signature
  | none => .error (.malformedDescriptor text)

end Signature

end TieredJvm
