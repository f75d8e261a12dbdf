import MicroRos.Introspection.Members

/-! Where the members of a message stand, and which of them have headers.

`Layout` is what a C compiler promises for the generated struct of a type: every
member lies inside the struct and members do not overlap. `HasHeader` and `HeaderAt`
describe the planner's view, which enters an array of messages at its first element
only and takes a bounded sequence for an array.
-/

set_option autoImplicit false

namespace MicroRos

/-- The planner keeps a header for this member. -/
def isHeader (type : BasicType) (field : Field) : Bool :=
  decide (type = .string) || field.isSequence

/-- Bytes a member of basic type takes inside its struct. -/
def Field.basicExtent (target : Target) (type : BasicType) (field : Field) : Nat :=
  if field.declaredSequence then target.headerSize else field.count * type.cSize target

/-- Bytes a message member takes inside its struct. -/
def Field.messageExtent (target : Target) (info : MessageInfo) (field : Field) : Nat :=
  if field.declaredSequence then target.headerSize else field.count * info.sizeOf

namespace MemberList

variable {target : Target}

/-- The offset belongs to one of the members. -/
def Covers (target : Target) : MemberList → Nat → Prop
  | .nil, _ => False
  | .basic type field rest, o =>
      field.offset ≤ o ∧ o < field.offset + field.basicExtent target type ∨ rest.Covers target o
  | .message info _ field rest, o =>
      field.offset ≤ o ∧ o < field.offset + field.messageExtent target info ∨ rest.Covers target o

/-- Members lie inside `size` bytes and apart from each other, here and in every nested type. -/
def Layout (target : Target) : MemberList → Nat → Prop
  | .nil, _ => True
  | .basic type field rest, size =>
      field.offset + field.basicExtent target type ≤ size ∧
      (∀ o, field.offset ≤ o → o < field.offset + field.basicExtent target type →
        ¬ rest.Covers target o) ∧
      rest.Layout target size
  | .message info members field rest, size =>
      field.offset + field.messageExtent target info ≤ size ∧
      (∀ o, field.offset ≤ o → o < field.offset + field.messageExtent target info →
        ¬ rest.Covers target o) ∧
      info.sizeOf < target.modulus ∧ members.Layout target info.sizeOf ∧ rest.Layout target size

/-- No bounded sequence anywhere in the tree. -/
def NoBounded : MemberList → Prop
  | .nil => True
  | .basic _ field rest => field.isBounded = false ∧ rest.NoBounded
  | .message _ members field rest => field.isBounded = false ∧ members.NoBounded ∧ rest.NoBounded

/-- No bounded sequence of messages anywhere in the tree. -/
def NoBoundedMessage : MemberList → Prop
  | .nil => True
  | .basic _ _ rest => rest.NoBoundedMessage
  | .message _ members field rest =>
    field.isBounded = false ∧ members.NoBoundedMessage ∧ rest.NoBoundedMessage

/-- No nested type has size zero, as in C. -/
def Sized : MemberList → Prop
  | .nil => True
  | .basic _ _ rest => rest.Sized
  | .message info members _ rest => 0 < info.sizeOf ∧ members.Sized ∧ rest.Sized

/-- Strings of `char16_t` do not occur anywhere in the tree. -/
def NoWstring : MemberList → Prop
  | .nil => True
  | .basic type _ rest => type ≠ .wstring ∧ rest.NoWstring
  | .message _ members _ rest => members.NoWstring ∧ rest.NoWstring

/-- Member names are not empty. -/
def Named : MemberList → Prop
  | .nil => True
  | .basic _ field rest => field.name.text ≠ [] ∧ rest.Named
  | .message _ members field rest => field.name.text ≠ [] ∧ members.Named ∧ rest.Named

/-- The planner meets at least one header when it is given an instance of this type. -/
def HasHeader : MemberList → Prop
  | .nil => False
  | .basic type field rest => isHeader type field = true ∨ rest.HasHeader
  | .message _ members field rest => field.isSequence = true ∨ members.HasHeader ∨ rest.HasHeader

instance decidableHasHeader : (list : MemberList) → Decidable list.HasHeader
  | .nil => isFalse id
  | .basic type field rest =>
      have := decidableHasHeader rest
      inferInstanceAs (Decidable (isHeader type field = true ∨ rest.HasHeader))
  | .message _ members field rest =>
      have := decidableHasHeader members
      have := decidableHasHeader rest
      inferInstanceAs (Decidable (field.isSequence = true ∨ members.HasHeader ∨ rest.HasHeader))

/-- The offset belongs to a header that the planner sets in the instance itself. -/
def HeaderAt (target : Target) : MemberList → Nat → Prop
  | .nil, _ => False
  | .basic type field rest, o =>
      isHeader type field = true ∧ field.offset ≤ o ∧ o < field.offset + target.headerSize ∨
        rest.HeaderAt target o
  | .message _ members field rest, o =>
      (if field.isSequence then field.offset ≤ o ∧ o < field.offset + target.headerSize
        else field.offset ≤ o ∧ members.HeaderAt target (o - field.offset)) ∨
      rest.HeaderAt target o

theorem hasHeader_of_headerAt {list : MemberList} {o : Nat} (header : list.HeaderAt target o) :
    list.HasHeader := by
  induction list generalizing o with
  | nil => cases header
  | basic type field rest ih => exact header.imp (fun here => here.1) ih
  | message info members field rest ihMembers ih =>
    rcases header with here | later
    · split at here
      next sequence => exact Or.inl sequence
      next single => exact Or.inr (Or.inl (ihMembers here.2))
    · exact Or.inr (Or.inr (ih later))

theorem Layout.covers_lt {list : MemberList} {size o : Nat} (layout : list.Layout target size)
    (covered : list.Covers target o) : o < size := by
  induction list with
  | nil => cases covered
  | basic type field rest ih =>
    obtain ⟨inside, _, restLayout⟩ := layout
    rcases covered with ⟨_, upper⟩ | later
    · omega
    · exact ih restLayout later
  | message info members field rest _ ih =>
    obtain ⟨inside, _, _, _, restLayout⟩ := layout
    rcases covered with ⟨_, upper⟩ | later
    · omega
    · exact ih restLayout later

theorem header_le_basicExtent (target : Target) {type : BasicType} {field : Field}
    (header : isHeader type field = true) : target.headerSize ≤ field.basicExtent target type := by
  simp only [isHeader, Bool.or_eq_true, decide_eq_true_eq] at header
  unfold Field.basicExtent
  rcases header with rfl | sequence
  · cases declared : field.declaredSequence with
    | true => simp
    | false =>
      have positive : 0 < field.count := by
        cases isArray : field.isArray <;> simp_all [Field.count, Field.declaredSequence]
        omega
      simpa [BasicType.cSize] using Nat.le_mul_of_pos_left target.headerSize positive
  · simp [Field.declaredSequence_of_isSequence sequence]

theorem sequence_extent {info : MessageInfo} {field : Field} (sequence : field.isSequence = true) :
    field.messageExtent target info = target.headerSize := by
  simp [Field.messageExtent, Field.declaredSequence_of_isSequence sequence]

/-- A member that is no sequence has room for at least one value. -/
theorem inline_extent (target : Target) (info : MessageInfo) {field : Field} (notSequence : field.isSequence = false)
    (notBounded : field.isBounded = false) :
    field.messageExtent target info = field.count * info.sizeOf ∧ 0 < field.count := by
  have declared : field.declaredSequence = false := by
    rw [Bool.eq_false_iff, ne_eq, Field.declaredSequence_iff]
    simp [notSequence, notBounded]
  refine ⟨by simp [Field.messageExtent, declared], ?_⟩
  cases isArray : field.isArray <;> simp_all [Field.count, Field.isSequence]
  omega

theorem size_le_inlineExtent (target : Target) (info : MessageInfo) {field : Field}
    (notSequence : field.isSequence = false) (notBounded : field.isBounded = false) :
    info.sizeOf ≤ field.messageExtent target info := by
  obtain ⟨extent, positive⟩ := inline_extent target info notSequence notBounded
  rw [extent]
  exact Nat.le_mul_of_pos_left _ positive

theorem NoBounded.messages {list : MemberList} (unbounded : list.NoBounded) : list.NoBoundedMessage := by
  induction list with
  | nil => trivial
  | basic type field rest ih => exact ih unbounded.2
  | message info members field rest ihMembers ih =>
    exact ⟨unbounded.1, ihMembers unbounded.2.1, ih unbounded.2.2⟩

/-- Without bounded sequences of messages the headers that the planner sets lie inside the members. -/
theorem covers_of_headerAt {list : MemberList} {size o : Nat} (layout : list.Layout target size)
    (unbounded : list.NoBoundedMessage) (header : list.HeaderAt target o) : list.Covers target o := by
  induction list generalizing size o with
  | nil => cases header
  | basic type field rest ih =>
    rcases header with ⟨isHeader, lower, upper⟩ | later
    · have := header_le_basicExtent target isHeader
      exact Or.inl ⟨lower, by omega⟩
    · exact Or.inr (ih layout.2.2 unbounded later)
  | message info members field rest ihMembers ih =>
    obtain ⟨_, _, _, membersLayout, restLayout⟩ := layout
    obtain ⟨notBounded, membersUnbounded, restUnbounded⟩ := unbounded
    rcases header with here | later
    · left
      cases sequence : field.isSequence with
      | true =>
        simp only [sequence, if_true] at here
        rw [sequence_extent sequence]
        exact here
      | false =>
        simp only [sequence, Bool.false_eq_true, if_false] at here
        have := membersLayout.covers_lt (ihMembers membersLayout membersUnbounded here.2)
        have := size_le_inlineExtent target info sequence notBounded
        exact ⟨here.1, by omega⟩
    · exact Or.inr (ih restLayout restUnbounded later)

end MemberList

/-- Layout of a whole type. -/
def MessageMembers.Layout (target : Target) (type : MessageMembers) : Prop :=
  type.members.Layout target type.info.sizeOf ∧ type.info.sizeOf < target.modulus

end MicroRos
