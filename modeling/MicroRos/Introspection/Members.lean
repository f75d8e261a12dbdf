import MicroRos.Memory.Contents

/-! Message type trees as the introspection records describe them.

A `MessageMembers` record with its array of `MessageMember`s is a tree, since each
message member refers to the record of its own type. The array is a list whose cells
carry the record of a nested type in place, so that a nested type is part of the tree
that refers to it and every tree is finite.
-/

set_option autoImplicit false

namespace MicroRos

open Memory (Byte)

/-- What the model depends on in the ABI: `sizeof(size_t)`, which is also the size of a
data pointer, and `sizeof(long double)`. -/
structure Target where
  word : Nat
  longDouble : Nat
  word_pos : 0 < word

namespace Target

/-- Number of values of `size_t`. -/
def modulus (target : Target) : Nat := 256 ^ target.word

/-- `sizeof(generic_sequence_t)`, which is the size of every string and sequence header. -/
def headerSize (target : Target) : Nat := 3 * target.word

theorem modulus_ge (target : Target) : 256 ≤ target.modulus :=
  Nat.le_self_pow target.word_pos.ne' 256

theorem modulus_pos (target : Target) : 0 < target.modulus := by
  have := target.modulus_ge
  omega

theorem eight_dvd_modulus (target : Target) : 8 ∣ target.modulus :=
  Dvd.dvd.trans (by decide : 8 ∣ 256) (dvd_pow_self 256 target.word_pos.ne')

theorem four_dvd_modulus (target : Target) : 4 ∣ target.modulus :=
  Dvd.dvd.trans (by decide : 4 ∣ 8) target.eight_dvd_modulus

def add (target : Target) (a b : Nat) : Nat := (a + b) % target.modulus

def mul (target : Target) (a b : Nat) : Nat := (a * b) % target.modulus

/-- Difference of two `size_t` values. -/
def sub (target : Target) (a b : Nat) : Nat := (a + (target.modulus - b % target.modulus)) % target.modulus

theorem mul_of_lt {target : Target} {a b : Nat} (fits : a * b < target.modulus) :
    target.mul a b = a * b := Nat.mod_eq_of_lt fits

theorem add_of_lt {target : Target} {a b : Nat} (fits : a + b < target.modulus) :
    target.add a b = a + b := Nat.mod_eq_of_lt fits

theorem mul_lt (target : Target) (a b : Nat) : target.mul a b < target.modulus :=
  Nat.mod_lt _ target.modulus_pos

/-- Counts that are kept modulo the number of values of `size_t` differ by what the exact ones differ by. -/
theorem sub_mod {target : Target} {a b : Nat} (le : b ≤ a) :
    target.sub (a % target.modulus) (b % target.modulus) = (a - b) % target.modulus := by
  have below : b % target.modulus < target.modulus := Nat.mod_lt _ target.modulus_pos
  have cancelled : target.sub (a % target.modulus) (b % target.modulus) + b ≡ (a - b) + b
      [MOD target.modulus] := calc
    _ ≡ (a % target.modulus + (target.modulus - b % target.modulus)) + b % target.modulus
        [MOD target.modulus] := by
      unfold sub
      rw [Nat.mod_mod]
      exact (Nat.mod_modEq _ _).add (Nat.mod_modEq _ _).symm
    _ = a % target.modulus + target.modulus := by omega
    _ ≡ (a - b) + b [MOD target.modulus] := by
      rw [Nat.sub_add_cancel le]
      exact (Nat.add_modEq_right).trans (Nat.mod_modEq _ _)
  exact (Nat.mod_mod _ _).symm.trans (Nat.ModEq.add_right_cancel' b cancelled)

/-- A value of type `size_t`. -/
abbrev SizeT (target : Target) := Fin target.modulus

end Target

/-- The characters of a C string before its terminator. -/
structure CString where
  text : List Byte
  noNul : 0 ∉ text

namespace CString

def empty : CString := ⟨[], by simp⟩

/-- The name separator of rule texts. -/
def dot : CString := ⟨[46], by decide⟩

def tab : CString := ⟨[9], by decide⟩

def append (a b : CString) : CString :=
  ⟨a.text ++ b.text, by simp [a.noNul, b.noNul]⟩

@[simp] theorem append_text (a b : CString) : (a.append b).text = a.text ++ b.text := rfl

@[ext] theorem ext {a b : CString} (same : a.text = b.text) : a = b := by
  cases a; cases b; cases same; rfl

instance : DecidableEq CString := fun a b =>
  decidable_of_iff (a.text = b.text) ⟨CString.ext, congrArg CString.text⟩

end CString

/-- The type ids of `field_types.h` other than `ROS_TYPE_MESSAGE`. -/
inductive BasicType where
  | float | double | longDouble | char | wchar | boolean | octet
  | uint8 | int8 | uint16 | int16 | uint32 | int32 | uint64 | int64
  | string | wstring
  deriving DecidableEq, Repr

namespace BasicType

def typeId : BasicType → Nat
  | float => 1 | double => 2 | longDouble => 3 | char => 4 | wchar => 5 | boolean => 6 | octet => 7
  | uint8 => 8 | int8 => 9 | uint16 => 10 | int16 => 11 | uint32 => 12 | int32 => 13
  | uint64 => 14 | int64 => 15 | string => 16 | wstring => 17

/-- `basic_types_size`, indexed by type id. -/
def basicTypesSize : List Nat :=
  [0, 4, 8, 8, 1, 1, 1, 1, 1, 1, 2, 2, 4, 4, 8, 8, 1, 1, 0]

/-- The entry that the memory planner uses for one element of this type. -/
def plannedSize (type : BasicType) : Nat := basicTypesSize[type.typeId]?.getD 0

/-- Size in C of one value: the element type of the matching `rosidl_runtime_c` sequence. -/
def cSize (target : Target) : BasicType → Nat
  | float => 4 | double => 8 | longDouble => target.longDouble | char => 1 | wchar => 2
  | boolean => 1 | octet => 1 | uint8 => 1 | int8 => 1 | uint16 => 2 | int16 => 2
  | uint32 => 4 | int32 => 4 | uint64 => 8 | int64 => 8
  | string => target.headerSize | wstring => target.headerSize

theorem plannedSize_pos (type : BasicType) : 0 < type.plannedSize := by
  cases type <;> decide

end BasicType

/-- The fields of `MessageMember` that do not depend on the member's type. -/
structure Field where
  name : CString
  isArray : Bool
  arraySize : Nat
  isUpperBound : Bool
  offset : Nat

namespace Field

/-- The planner's `is_sequence`. -/
def isSequence (field : Field) : Bool := field.isArray && field.arraySize == 0

/-- A sequence as the generator emits it: unbounded, or with an upper bound. -/
def declaredSequence (field : Field) : Bool :=
  field.isArray && (field.arraySize == 0 || field.isUpperBound)

/-- Bounded sequences, which the planner does not take for sequences. -/
def isBounded (field : Field) : Bool := field.isArray && field.arraySize != 0 && field.isUpperBound

/-- Number of values that stand in place of a member that is not a sequence. -/
def count (field : Field) : Nat := if field.isArray then field.arraySize else 1

theorem declaredSequence_of_isSequence {field : Field} (sequence : field.isSequence = true) :
    field.declaredSequence = true := by
  simp only [isSequence, declaredSequence, Bool.and_eq_true, Bool.or_eq_true] at *
  exact ⟨sequence.1, Or.inl sequence.2⟩

theorem declaredSequence_iff (field : Field) :
    field.declaredSequence = true ↔ field.isSequence = true ∨ field.isBounded = true := by
  cases h : field.isArray <;> by_cases z : field.arraySize = 0 <;>
    simp [declaredSequence, isSequence, isBounded, h, z]

end Field

/-- The fields of `MessageMembers` other than its members. -/
structure MessageInfo where
  messageNamespace : CString
  messageName : CString
  sizeOf : Nat

/-- The array `members_`; a message member carries the record of its own type. -/
inductive MemberList where
  | nil
  | basic (type : BasicType) (field : Field) (rest : MemberList)
  | message (info : MessageInfo) (members : MemberList) (field : Field) (rest : MemberList)

structure MessageMembers where
  info : MessageInfo
  members : MemberList

/-- One entry of the array. -/
inductive Member where
  | basic (type : BasicType) (field : Field)
  | message (type : MessageMembers) (field : Field)

def Member.field : Member → Field
  | .basic _ field => field
  | .message _ field => field

namespace MemberList

def get? : MemberList → Nat → Option Member
  | .nil, _ => none
  | .basic type field _, 0 => some (.basic type field)
  | .message info members field _, 0 => some (.message ⟨info, members⟩ field)
  | .basic _ _ rest, i + 1 => rest.get? i
  | .message _ _ _ rest, i + 1 => rest.get? i

def drop : Nat → MemberList → MemberList
  | 0, list => list
  | _ + 1, .nil => .nil
  | n + 1, .basic _ _ rest => drop n rest
  | n + 1, .message _ _ _ rest => drop n rest

def tail : MemberList → MemberList
  | .nil => .nil
  | .basic _ _ rest => rest
  | .message _ _ _ rest => rest

/-- `member_count_`. -/
def length : MemberList → Nat
  | .nil => 0
  | .basic _ _ rest => rest.length + 1
  | .message _ _ _ rest => rest.length + 1

/-- The names of the message members with these indices, each in the type of the one before, and
the members of the last one's type. -/
def follow : MemberList → List Nat → Option (List CString × MemberList)
  | list, [] => some ([], list)
  | list, index :: calls =>
    match list.get? index with
    | some (.message type field) =>
      (type.members.follow calls).map fun reached => (field.name :: reached.1, reached.2)
    | _ => none

/-- A member in a nested type, with the names from the root down to its own. -/
def memberAt (list : MemberList) (calls : List Nat) (index : Nat) : Option (List CString × Member) :=
  (list.follow calls).bind fun reached =>
    (reached.2.get? index).map fun member => (reached.1 ++ [member.field.name], member)

theorem follow_push {list reached : MemberList} {names : List CString} {calls : List Nat}
    {index : Nat} {type : MessageMembers} {field : Field}
    (start : list.follow calls = some (names, reached))
    (here : reached.get? index = some (.message type field)) :
    list.follow (calls ++ [index]) = some (names ++ [field.name], type.members) := by
  induction calls generalizing list names with
  | nil =>
    simp only [follow, Option.some.injEq, Prod.mk.injEq] at start
    obtain ⟨rfl, rfl⟩ := start
    simp [follow, here]
  | cons first calls ih =>
    simp only [follow] at start
    cases found : list.get? first with
    | none => simp [found] at start
    | some member =>
      cases member with
      | basic _ _ => simp [found] at start
      | message inner outer =>
        simp only [found, Option.map_eq_some_iff, Prod.exists, Prod.mk.injEq] at start
        obtain ⟨tail, last, deeper, rfl, rfl⟩ := start
        simp [follow, found, ih deeper]

@[simp] theorem drop_zero (list : MemberList) : list.drop 0 = list := by cases list <;> rfl

theorem get?_of_drop_basic {list rest : MemberList} {i : Nat} {type : BasicType} {field : Field}
    (here : list.drop i = .basic type field rest) :
    list.get? i = some (.basic type field) ∧ list.drop (i + 1) = rest := by
  induction i generalizing list with
  | zero => simp only [drop] at here; subst here; exact ⟨rfl, rfl⟩
  | succ i ih => cases list <;> simp only [drop, reduceCtorEq] at here <;> exact ih here

theorem get?_of_drop_message {list members rest : MemberList} {i : Nat} {info : MessageInfo}
    {field : Field} (here : list.drop i = .message info members field rest) :
    list.get? i = some (.message ⟨info, members⟩ field) ∧ list.drop (i + 1) = rest := by
  induction i generalizing list with
  | zero => simp only [drop] at here; subst here; exact ⟨rfl, rfl⟩
  | succ i ih => cases list <;> simp only [drop, reduceCtorEq] at here <;> exact ih here

theorem drop_succ_of_nil {list : MemberList} {i : Nat} (here : list.drop i = .nil) :
    list.drop (i + 1) = .nil := by
  induction i generalizing list with
  | zero => simp only [drop] at here; subst here; rfl
  | succ i ih => cases list <;> simp only [drop] at here ⊢ <;> exact ih here

end MemberList
end MicroRos
