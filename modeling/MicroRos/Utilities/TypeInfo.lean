import MicroRos.Introspection.Messages
import MicroRos.Utilities.NameTree

/-! `micro_ros_utilities_type_info` and the recursion that prints a type.

The indentation is passed down by value, the text is appended to through a pointer. The
two strings have states of their own: the allocator's answers are parameters, and no
pointer to one of the strings is used for the other.
-/

set_option autoImplicit false

namespace MicroRos

open Memory (Byte)

/-- `basic_type_names`. -/
def basicTypeNames : List String :=
  ["none", "float", "double", "long double", "char", "wchar", "bool", "octec", "uint8", "int8", "uint16", "int16",
    "uint32", "int32", "uint64", "int64", "string", "wstring", "ROS2 type"]

/-- `%d` and `%ld` of a number that is stored in this many bits. -/
def CString.decimal (bits n : Nat) : CString := .ofString (toString (BitVec.ofNat bits n).toInt)

/-- What `snprintf` leaves in a buffer of 500 bytes, as `strlen` finds it. -/
def formatted (indent : List Byte) (pieces : List CString) : CString :=
  ⟨((indent ++ pieces.flatMap CString.text).take 499).takeWhile (· ≠ 0), fun member => by
    have nonzero := List.all_eq_true.mp List.all_takeWhile _ member
    simp at nonzero⟩

def MemberList.count : MemberList → Nat
  | .nil => 0
  | .basic _ _ rest | .message _ _ _ rest => rest.count + 1

/-- The states of the two strings, and the struct that `out` points to. -/
structure Printing (σ S : Type) where
  indent : σ
  out : S
  outBuffer : σ

section

variable (target : Target) {σ S : Type} (ops : StringOps target σ S)

/-- A line with the indentation in front, appended to `*out`. -/
def printLine (tree : S) (pieces : List CString) (p : Printing σ S) : Printing σ S :=
  let indent := ops.chars tree p.indent
  let out := ops.append p.out (formatted indent.1 pieces) p.outBuffer
  ⟨indent.2, out.1, out.2⟩

/-- The line of a member; `nested` is the type of a message member. -/
def memberPieces (field : Field) (typeId : Nat) (nested : Option MessageInfo) : List CString :=
  [.ofString " - ", field.name, .ofString " [",
    .ofString (if field.isArray then if field.arraySize = 0 then "Sequence of " else "Array of " else ""),
    .ofString (basicTypeNames.getD typeId "")] ++
  (match nested with
    | none => []
    | some info => [.ofString " ", info.messageNamespace, .ofString "/", info.messageName]) ++
  [.ofString "]",
    .ofString (if typeId = 16 ∨ field.isArray ∧ field.arraySize = 0 then " <- This should be inited" else ""),
    .ofString "\n"]

/-- What `print_type_info` does before its loop: one more tab, and at level zero the line of the type. -/
def enterType (info : MessageInfo) (count : Nat) (tree : S) (level : UInt32) (p : Printing σ S) :
    S × Printing σ S :=
  -- `tree` is the copy of this call; its caller goes on with its own.
  let indented := ops.append tree .tab p.indent
  let entered : Printing σ S := { p with indent := indented.2 }
  (indented.1,
    if level = 0 then
      printLine target ops indented.1
        [.ofString "Introspection for ", info.messageNamespace, .ofString "/", info.messageName, .ofString " - ",
          .decimal 32 count, .ofString " members, ", .decimal (8 * target.word) info.sizeOf, .ofString " B\n"] entered
    else entered)

/-- What it does behind its loop. -/
def leaveType (tree : S) (p : Printing σ S) : Printing σ S :=
  { p with indent := (ops.removeTailChars tree 1 p.indent).2 }

/-- The loop of `print_type_info`, with the recursive call of a message member written out. -/
def printMembers : MemberList → S → UInt32 → Printing σ S → Printing σ S
  | .nil, _, _, p => p
  | .basic type field rest, tree, level, p =>
    printMembers rest tree level (printLine target ops tree (memberPieces field type.typeId none) p)
  | .message info members field rest, tree, level, p =>
    let printed := printLine target ops tree (memberPieces field 18 (some info)) p
    let entered := enterType target ops info members.count tree (level + 1) printed
    printMembers rest tree level (leaveType target ops entered.1 (printMembers members entered.1 (level + 1) entered.2))

def printTypeInfo (type : MessageMembers) (tree : S) (level : UInt32) (p : Printing σ S) : Printing σ S :=
  let entered := enterType target ops type.info type.members.count tree level p
  leaveType target ops entered.1 (printMembers target ops type.members entered.1 level entered.2)

/-- The text, and what is left of the two states. -/
def typeInfo (type : MessageMembers) (indent outBuffer : σ) : Printing σ S :=
  let ret := ops.init .empty outBuffer
  let tree := ops.init .empty indent
  let printed := printTypeInfo target ops type tree.1 0 ⟨tree.2, ret.1, ret.2⟩
  { printed with indent := ops.destroy tree.1 printed.indent }

theorem printMembers_message (info : MessageInfo) (members : MemberList) (field : Field) (rest : MemberList)
    (tree : S) (level : UInt32) (p : Printing σ S) :
    printMembers target ops (.message info members field rest) tree level p =
      printMembers target ops rest tree level
        (printTypeInfo target ops ⟨info, members⟩ tree (level + 1)
          (printLine target ops tree (memberPieces field 18 (some info)) p)) := rfl

end

/-- `std_msgs/MultiArrayDimension` on a 32-bit board. -/
example : (typeInfo cortexM (valueStrings cortexM) (multiArrayDimension cortexM) (fun _ _ => 0) fun _ _ => 0).out =
    .ofString ("\tIntrospection for std_msgs__msg/MultiArrayDimension - 3 members, 20 B\n" ++
      "\t - label [string] <- This should be inited\n\t - size [uint32]\n\t - stride [uint32]\n") := by decide +kernel

end MicroRos
