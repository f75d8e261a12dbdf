import MicroRos.Utilities.Configuration
import MicroRos.Introspection.Layout

/-! Message types of the repository, laid out as a C compiler lays out their structs. -/

set_option autoImplicit false

namespace MicroRos

/-- Data model of the Cortex-M boards. -/
def cortexM : Target := ⟨4, 8, by decide⟩

/-- The default configuration on such a board. -/
abbrev boardDefault : MemoryConf cortexM := .default

/-- Characters of an ASCII literal. -/
def CString.ofString (s : String) : CString :=
  ⟨(s.toList.map fun c => Fin.ofNat 256 c.toNat).filter (· ≠ 0), by simp⟩

namespace Field

/-- A member that is neither an array nor a sequence. -/
def single (name : String) (offset : Nat) : Field := ⟨.ofString name, false, 0, false, offset⟩

def array (name : String) (size offset : Nat) : Field := ⟨.ofString name, true, size, false, offset⟩

def sequence (name : String) (offset : Nat) : Field := ⟨.ofString name, true, 0, false, offset⟩

def boundedSequence (name : String) (bound offset : Nat) : Field :=
  ⟨.ofString name, true, bound, true, offset⟩

end Field

variable (target : Target)

/-- `std_msgs/MultiArrayDimension`. -/
def multiArrayDimension : MessageMembers where
  info := ⟨.ofString "std_msgs__msg", .ofString "MultiArrayDimension", target.headerSize + 8⟩
  members :=
    .basic .string (.single "label" 0) <|
    .basic .uint32 (.single "size" target.headerSize) <|
    .basic .uint32 (.single "stride" (target.headerSize + 4)) .nil

/-- `std_msgs/MultiArrayLayout`. -/
def multiArrayLayout : MessageMembers where
  info := ⟨.ofString "std_msgs__msg", .ofString "MultiArrayLayout", target.headerSize + target.word⟩
  members :=
    .message (multiArrayDimension target).info (multiArrayDimension target).members
      (.sequence "dim" 0) <|
    .basic .uint32 (.single "data_offset" target.headerSize) .nil

/-- `std_msgs/Float64MultiArray`. -/
def float64MultiArray : MessageMembers where
  info := ⟨.ofString "std_msgs__msg", .ofString "Float64MultiArray", 2 * target.headerSize + target.word⟩
  members :=
    .message (multiArrayLayout target).info (multiArrayLayout target).members (.single "layout" 0) <|
    .basic .double (.sequence "data" (target.headerSize + target.word)) .nil

/-- `MultiArrayLayout` with the bound of two on its sequence, as in `test_msgs/MultiNested`. -/
def boundedLayout : MessageMembers where
  info := ⟨.ofString "std_msgs__msg", .ofString "BoundedLayout", target.headerSize + target.word⟩
  members :=
    .message (multiArrayDimension target).info (multiArrayDimension target).members
      (.boundedSequence "dim" 2 0) <|
    .basic .uint32 (.single "data_offset" target.headerSize) .nil

/-- `rcl_interfaces/ListParametersResult`. -/
def listParametersResult : MessageMembers where
  info := ⟨.ofString "rcl_interfaces__msg", .ofString "ListParametersResult", 2 * target.headerSize⟩
  members :=
    .basic .string (.sequence "names" 0) <|
    .basic .string (.sequence "prefixes" target.headerSize) .nil

theorem multiArrayDimension_layout : (multiArrayDimension cortexM).Layout cortexM := by
  simp [multiArrayDimension, MessageMembers.Layout, MemberList.Layout, MemberList.Covers,
    Field.single, Field.basicExtent, Field.declaredSequence, Field.count, BasicType.cSize,
    Target.headerSize, cortexM, Target.modulus]
  refine ⟨?_, ?_⟩ <;> intros <;> omega

theorem multiArrayLayout_layout : (multiArrayLayout cortexM).Layout cortexM := by
  simp [multiArrayLayout, multiArrayDimension, MessageMembers.Layout, MemberList.Layout, MemberList.Covers,
    Field.single, Field.sequence, Field.basicExtent, Field.messageExtent, Field.declaredSequence,
    Field.count, BasicType.cSize, Target.headerSize, cortexM, Target.modulus]
  refine ⟨?_, ?_, ?_⟩ <;> intros <;> omega

theorem multiArrayLayout_unbounded : (multiArrayLayout cortexM).members.NoBounded := by
  simp [multiArrayLayout, multiArrayDimension, MemberList.NoBounded, Field.single, Field.sequence,
    Field.isBounded]

theorem listParametersResult_layout : (listParametersResult cortexM).Layout cortexM := by
  simp [listParametersResult, MessageMembers.Layout, MemberList.Layout, MemberList.Covers,
    Field.sequence, Field.basicExtent, Field.declaredSequence, Target.headerSize, cortexM, Target.modulus]
  omega

theorem listParametersResult_unbounded : (listParametersResult cortexM).members.NoBounded := by
  simp [listParametersResult, MemberList.NoBounded, Field.sequence, Field.isBounded]

end MicroRos
