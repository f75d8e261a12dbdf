import Mathlib.Data.List.TakeWhile
import MicroRos.Utilities.Numerals

/-! The text of `micro_ros_utilities_type_info`, line by line.

Names have no tabs and no newlines, and no formatted line is too long for its buffer. The
recursion then prints a line for each member where it meets it, behind one tab for each call
that is open.
-/

set_option autoImplicit false

namespace MicroRos

open Memory (Byte)

/-- A member where the type has it: the message members that lead to it, and its own index. -/
structure Occurrence where
  calls : List Nat
  index : Nat
  member : Member

namespace MemberList

/-- The members in pre-order: a message member is followed by the members of its type. -/
def occurrences : MemberList → List Nat → Nat → List Occurrence
  | .nil, _, _ => []
  | .basic type field rest, calls, index =>
    ⟨calls, index, .basic type field⟩ :: rest.occurrences calls (index + 1)
  | .message info members field rest, calls, index =>
    ⟨calls, index, .message ⟨info, members⟩ field⟩ ::
      (members.occurrences (calls ++ [index]) 0 ++ rest.occurrences calls (index + 1))

theorem occurrence_found {list reached root : MemberList} {names : List CString} {calls : List Nat}
    {index : Nat} (start : root.follow calls = some (names, reached)) (dropped : reached.drop index = list)
    {occurrence : Occurrence} (listed : occurrence ∈ list.occurrences calls index) :
    ∃ path, root.memberAt occurrence.calls occurrence.index = some (path, occurrence.member) := by
  induction list generalizing reached names calls index with
  | nil => cases listed
  | basic type field rest ih =>
    obtain ⟨here, tail⟩ := get?_of_drop_basic dropped
    rcases List.mem_cons.mp listed with rfl | later
    · exact ⟨names ++ [field.name], by simp [memberAt, start, here, Member.field]⟩
    · exact ih start tail later
  | message info members field rest ihMembers ih =>
    obtain ⟨here, tail⟩ := get?_of_drop_message dropped
    rcases List.mem_cons.mp listed with rfl | later
    · exact ⟨names ++ [field.name], by simp [memberAt, start, here, Member.field]⟩
    · rcases List.mem_append.mp later with inner | later
      · exact ihMembers (follow_push start here) members.drop_zero inner
      · exact ih start tail later

end MemberList

/-- The bytes that `%s` prints one after the other. -/
def spelled (pieces : List CString) : List Byte := pieces.flatMap CString.text

/-- The pieces of a member's line, with the newline behind them. -/
def Member.pieces : Member → List CString
  | .basic type field => memberPieces field type.typeId none
  | .message type field => memberPieces field 18 (some type.info)

/-- What stands in a member's line behind the tabs. -/
def Member.body (member : Member) : List Byte := spelled member.pieces.dropLast

namespace Occurrence

def depth (occurrence : Occurrence) : Nat := occurrence.calls.length

def line (occurrence : Occurrence) : List Byte :=
  List.replicate (occurrence.depth + 1) 9 ++ occurrence.member.body

end Occurrence

/-- What the line of the type says, up to the unit of its size. -/
def MessageMembers.headerPieces (target : Target) (type : MessageMembers) : List CString :=
  [.ofString "Introspection for ", type.info.messageNamespace, .ofString "/", type.info.messageName, .ofString " - ",
    .decimal 32 type.members.count, .ofString " members, ", .decimal (8 * target.word) type.info.sizeOf]

def MessageMembers.headerLine (target : Target) (type : MessageMembers) : List Byte :=
  9 :: spelled (type.headerPieces target ++ [.ofString " B"])

/-- The mark of the members that should be inited. -/
def initMark : List Byte := (CString.ofString "<- This should be inited").text

def CString.Clean (s : CString) : Prop := 9 ∉ s.text ∧ 10 ∉ s.text

instance (s : CString) : Decidable s.Clean := by
  unfold CString.Clean
  infer_instance

def MessageInfo.NamesClean (info : MessageInfo) : Prop := info.messageNamespace.Clean ∧ info.messageName.Clean

instance (info : MessageInfo) : Decidable info.NamesClean := by
  unfold MessageInfo.NamesClean
  infer_instance

def Member.NamesClean : Member → Prop
  | .basic _ field => field.name.Clean
  | .message type field => field.name.Clean ∧ type.info.NamesClean

instance : (member : Member) → Decidable member.NamesClean
  | .basic _ field => inferInstanceAs (Decidable field.name.Clean)
  | .message type field => inferInstanceAs (Decidable (field.name.Clean ∧ type.info.NamesClean))

namespace MessageMembers

/-- No name in the tree has a tab or a newline. -/
def NamesClean (type : MessageMembers) : Prop :=
  type.info.NamesClean ∧ ∀ occurrence ∈ type.members.occurrences [] 0, occurrence.member.NamesClean

/-- Every line, with its newline, goes into the buffer of 500 bytes. -/
def LinesFit (target : Target) (type : MessageMembers) : Prop :=
  (type.headerLine target).length + 1 ≤ 499 ∧
    ∀ occurrence ∈ type.members.occurrences [] 0, occurrence.line.length + 1 ≤ 499

instance (type : MessageMembers) : Decidable type.NamesClean := by
  unfold NamesClean
  infer_instance

instance (target : Target) (type : MessageMembers) : Decidable (type.LinesFit target) := by
  unfold LinesFit
  infer_instance

end MessageMembers

@[simp] theorem spelled_append (pieces more : List CString) :
    spelled (pieces ++ more) = spelled pieces ++ spelled more := List.flatMap_append

theorem memberPieces_newline (field : Field) (typeId : Nat) (nested : Option MessageInfo) :
    memberPieces field typeId nested = (memberPieces field typeId nested).dropLast ++ [.ofString "\n"] := by
  have last (front : List CString) (x y z : CString) : front ++ [x, y, z] = (front ++ [x, y, z]).dropLast ++ [z] := by
    rw [List.dropLast_append_of_ne_nil (by simp), List.append_assoc]
    rfl
  unfold memberPieces
  exact last _ _ _ _

theorem Member.spelled_pieces (member : Member) : spelled member.pieces = member.body ++ [10] := by
  have last : member.pieces = member.pieces.dropLast ++ [.ofString "\n"] := by
    cases member with
    | basic type field => exact memberPieces_newline field type.typeId none
    | message type field => exact memberPieces_newline field 18 (some type.info)
  rw [last, spelled_append, ← Member.body]
  rfl

theorem formatted_text {indent : List Byte} {pieces : List CString} (tabs : 0 ∉ indent)
    (fits : (indent ++ spelled pieces).length ≤ 499) :
    (formatted indent pieces).text = indent ++ spelled pieces := by
  have nonzero : ∀ byte ∈ indent ++ spelled pieces, byte ≠ 0 := by
    intro byte member isZero
    subst isZero
    rcases List.mem_append.mp member with inIndent | inPieces
    · exact tabs inIndent
    · obtain ⟨piece, _, inPiece⟩ := List.mem_flatMap.mp inPieces
      exact piece.noNul inPiece
  show ((indent ++ spelled pieces).take 499).takeWhile (· ≠ 0) = indent ++ spelled pieces
  rw [List.take_of_length_le fits, List.takeWhile_eq_self_iff]
  simpa using nonzero

section

variable (target : Target) {tree : CString} {p : Printing (Nat → Nat → Byte) CString}

theorem printLine_text {pieces : List CString} (fits : (tree.text ++ spelled pieces).length ≤ 499) :
    (printLine target (valueStrings target) tree pieces p).out.text =
      p.out.text ++ (tree.text ++ spelled pieces) := by
  have line := formatted_text tree.noNul fits
  simp [printLine, valueStrings, line]

theorem printLine_member {occurrence : Occurrence}
    (tabs : tree.text = List.replicate (occurrence.depth + 1) 9) (fits : occurrence.line.length + 1 ≤ 499) :
    (printLine target (valueStrings target) tree occurrence.member.pieces p).out.text =
      p.out.text ++ (occurrence.line ++ [10]) := by
  have whole : tree.text ++ spelled occurrence.member.pieces = occurrence.line ++ [10] := by
    rw [tabs, Member.spelled_pieces, Occurrence.line, List.append_assoc]
  rw [printLine_text target (by rwa [whole, List.length_append]), whole]

theorem enterType_nested {level : UInt32} (nested : level ≠ 0) {info : MessageInfo} {count : Nat} :
    enterType target (valueStrings target) info count tree level p = (tree.append .tab, p) := by
  simp only [enterType, if_neg nested]
  rfl

/-- The loop and its recursive calls print the members of the type, each at its own depth. -/
theorem printMembers_text {list : MemberList} {calls : List Nat} {index : Nat} {level : UInt32}
    (tabs : tree.text = List.replicate (calls.length + 1) 9) (atLevel : level.toNat = calls.length)
    (fit : ∀ occurrence ∈ list.occurrences calls index, occurrence.line.length + 1 ≤ 499) :
    (printMembers target (valueStrings target) list tree level p).out.text =
      p.out.text ++ (list.occurrences calls index).flatMap fun occurrence => occurrence.line ++ [10] := by
  induction list generalizing tree calls index level p with
  | nil => simp [printMembers, MemberList.occurrences]
  | basic type field rest ih =>
    simp only [MemberList.occurrences, List.forall_mem_cons] at fit
    have here := @printLine_member target tree p ⟨calls, index, .basic type field⟩ tabs fit.1
    simp only [Member.pieces] at here
    rw [printMembers, ih tabs atLevel fit.2, here, MemberList.occurrences, List.flatMap_cons, List.append_assoc]
  | message info members field rest ihMembers ih =>
    simp only [MemberList.occurrences, List.forall_mem_cons, List.forall_mem_append] at fit
    obtain ⟨own, inner, later⟩ := fit
    have here := @printLine_member target tree p ⟨calls, index, .message ⟨info, members⟩ field⟩ tabs own
    simp only [Member.pieces] at here
    -- The line holds its tabs, so the level is nowhere near the end of its type.
    have shallow : calls.length + 1 ≤ 499 := by
      simp only [Occurrence.line, Occurrence.depth, List.length_append, List.length_replicate] at own
      omega
    have deeper : (level + 1).toNat = (calls ++ [index]).length := by
      rw [UInt32.toNat_add, atLevel, List.length_append]
      exact Nat.mod_eq_of_lt (by simp; omega)
    have nested : level + 1 ≠ 0 := by
      intro isZero
      simp [isZero] at deeper
    have indented : (tree.append .tab).text = List.replicate ((calls ++ [index]).length + 1) 9 := by
      rw [CString.append_text, tabs, List.length_append, List.length_singleton, List.replicate_succ' (n := calls.length + 1)]
      rfl
    simp only [printMembers, enterType_nested target nested, MemberList.occurrences, List.flatMap_cons, List.flatMap_append]
    rw [ih tabs atLevel later]
    simp only [leaveType]
    rw [ihMembers indented deeper inner, here]
    simp only [List.append_assoc]

/-- At level zero the line of the type comes first. -/
theorem enterType_root {type : MessageMembers} (root : tree.text = [])
    (fits : (type.headerLine target).length + 1 ≤ 499) :
    (enterType target (valueStrings target) type.info type.members.count tree 0 p).2.out.text =
      p.out.text ++ (type.headerLine target ++ [10]) := by
  have whole : (tree.append .tab).text ++ spelled (type.headerPieces target ++ [.ofString " B\n"]) =
      type.headerLine target ++ [10] := by
    simp only [CString.append_text, root, MessageMembers.headerLine, spelled_append, List.cons_append, List.append_assoc]
    rfl
  have fits' := (congrArg List.length whole).trans_le (List.length_append.trans_le fits)
  rw [← whole]
  exact printLine_text target fits'

/-- The text is the line of the type and then the line of every member in pre-order. -/
theorem typeInfo_text {type : MessageMembers} (fit : type.LinesFit target) (indent outBuffer : Nat → Nat → Byte) :
    (typeInfo target (valueStrings target) type indent outBuffer).out.text =
      (type.headerLine target :: (type.members.occurrences [] 0).map Occurrence.line).flatMap (· ++ [10]) := by
  obtain ⟨headerFits, fits⟩ := fit
  let start : Printing (Nat → Nat → Byte) CString := ⟨indent, .empty, outBuffer⟩
  let entered := (enterType target (valueStrings target) type.info type.members.count .empty 0 start).2
  have header : entered.out.text = start.out.text ++ (type.headerLine target ++ [10]) :=
    enterType_root target rfl headerFits
  have members := @printMembers_text target (CString.empty.append .tab) entered type.members [] 0 0 rfl rfl fits
  calc (printMembers target (valueStrings target) type.members (CString.empty.append .tab) 0 entered).out.text
    _ = entered.out.text ++ _ := members
    _ = _ := by
      rw [header, List.flatMap_cons, List.flatMap_map]
      rfl

end

theorem ofString_clean {s : String} (clean : ∀ c ∈ s.toList, c.toNat % 256 ≠ 9 ∧ c.toNat % 256 ≠ 10) :
    (CString.ofString s).Clean := by
  have each : ∀ byte ∈ (CString.ofString s).text, byte ≠ 9 ∧ byte ≠ 10 := by
    intro byte member
    obtain ⟨c, inside, rfl⟩ := List.mem_map.mp (List.mem_filter.mp member).1
    obtain ⟨noTab, noNewline⟩ := clean c inside
    exact ⟨fun same => noTab (congrArg Fin.val same), fun same => noNewline (congrArg Fin.val same)⟩
  exact ⟨fun tab => (each 9 tab).1 rfl, fun newline => (each 10 newline).2 rfl⟩

theorem decimal_clean (bits n : Nat) : (CString.decimal bits n).Clean := by
  apply ofString_clean
  rw [Int.toString_eq_repr]
  intro c member
  have characters := repr_characters _ c member
  omega

theorem basicTypeNames_clean (typeId : Nat) : (CString.ofString (basicTypeNames.getD typeId "")).Clean := by
  by_cases known : typeId < basicTypeNames.length
  · have every : ∀ i : Fin basicTypeNames.length, (CString.ofString (basicTypeNames.getD i "")).Clean := by decide
    exact every ⟨typeId, known⟩
  · rw [List.getD_eq_getElem?_getD, List.getElem?_eq_none (Nat.le_of_not_lt known)]
    decide

theorem spelled_clean {pieces : List CString} (clean : ∀ piece ∈ pieces, piece.Clean) :
    9 ∉ spelled pieces ∧ 10 ∉ spelled pieces := by
  constructor
  · intro tab
    obtain ⟨piece, member, inside⟩ := List.mem_flatMap.mp tab
    exact (clean piece member).1 inside
  · intro newline
    obtain ⟨piece, member, inside⟩ := List.mem_flatMap.mp newline
    exact (clean piece member).2 inside

theorem memberPieces_clean {field : Field} (typeId : Nat) {nested : Option MessageInfo} (name : field.name.Clean)
    (names : ∀ info ∈ nested, info.NamesClean) :
    ∀ piece ∈ (memberPieces field typeId nested).dropLast, piece.Clean := by
  have kind : (CString.ofString (if field.isArray then if field.arraySize = 0 then "Sequence of " else "Array of "
      else "")).Clean := by
    repeat' split
    all_goals decide
  have mark : (CString.ofString (if typeId = 16 ∨ field.isArray ∧ field.arraySize = 0 then
      " <- This should be inited" else "")).Clean := by
    split <;> decide
  have typeName := basicTypeNames_clean typeId
  have literals : ∀ s ∈ [" - ", " [", " ", "/", "]"], (CString.ofString s).Clean := by decide
  simp only [List.forall_mem_cons] at literals
  cases nested with
  | none => simp_all [memberPieces]
  | some info => simp_all [memberPieces, MessageInfo.NamesClean]

theorem Member.body_clean {member : Member} (clean : member.NamesClean) : 9 ∉ member.body ∧ 10 ∉ member.body := by
  apply spelled_clean
  cases member with
  | basic type field =>
    show ∀ piece ∈ (memberPieces field type.typeId none).dropLast, piece.Clean
    exact memberPieces_clean type.typeId clean fun _ impossible => by cases impossible
  | message type field =>
    show ∀ piece ∈ (memberPieces field 18 (some type.info)).dropLast, piece.Clean
    exact memberPieces_clean 18 clean.1 fun info same => by cases same; exact clean.2

theorem Occurrence.line_clean {occurrence : Occurrence} (clean : occurrence.member.NamesClean) :
    10 ∉ occurrence.line := by
  intro newline
  rcases List.mem_append.mp newline with inTabs | inBody
  · exact absurd (List.eq_of_mem_replicate inTabs) (by decide)
  · exact (Member.body_clean clean).2 inBody

namespace MessageMembers

theorem headerLine_clean (target : Target) {type : MessageMembers} (clean : type.info.NamesClean) :
    10 ∉ type.headerLine target := by
  have literals : ∀ s ∈ ["Introspection for ", "/", " - ", " members, ", " B"], (CString.ofString s).Clean := by decide
  have numbers := decimal_clean
  simp only [List.forall_mem_cons] at literals
  have pieces : ∀ piece ∈ type.headerPieces target ++ [.ofString " B"], piece.Clean := by
    simp_all [headerPieces, MessageInfo.NamesClean]
  exact List.not_mem_cons_of_ne_of_not_mem (by decide) (spelled_clean pieces).2

end MessageMembers

theorem splitOn_lines {lines : List (List Byte)} (whole : ∀ line ∈ lines, 10 ∉ line) :
    (lines.flatMap (· ++ [10])).splitOn 10 = lines ++ [[]] := by
  induction lines with
  | nil => rfl
  | cons line lines ih =>
    simp only [List.forall_mem_cons] at whole
    rw [List.flatMap_cons, List.append_assoc, List.singleton_append,
      List.splitOn_append_cons_self_of_not_mem whole.1, ih whole.2, List.cons_append]

/-- Cut at its newlines the text is the header line, one line for each member, and nothing behind the last newline. -/
theorem typeInfo_splitOn {target : Target} {type : MessageMembers} (clean : type.NamesClean)
    (fit : type.LinesFit target)
    (indent outBuffer : Nat → Nat → Byte) :
    (typeInfo target (valueStrings target) type indent outBuffer).out.text.splitOn 10 =
      type.headerLine target :: (type.members.occurrences [] 0).map Occurrence.line ++ [[]] := by
  rw [typeInfo_text target fit]
  apply splitOn_lines
  rw [List.forall_mem_cons]
  constructor
  · exact type.headerLine_clean target clean.1
  · intro line listed
    obtain ⟨occurrence, member, rfl⟩ := List.mem_map.mp listed
    exact Occurrence.line_clean (clean.2 occurrence member)

theorem not_marked {front : List Byte} {byte : Byte} (other : byte ≠ 100) : ¬ initMark <:+ front ++ [byte] := by
  rintro ⟨before, same⟩
  have ends : before ++ initMark.dropLast ++ [100] = front ++ [byte] := by
    rw [← same, List.append_assoc]
    rfl
  exact other (List.singleton_inj.mp (List.append_inj' ends rfl).2).symm

/-- A line ends in the mark when the member is a string or a sequence without a bound. -/
theorem memberPieces_mark (indent : List Byte) (field : Field) (typeId : Nat) (nested : Option MessageInfo) :
    initMark <:+ indent ++ spelled (memberPieces field typeId nested).dropLast ↔
      typeId = 16 ∨ field.isArray ∧ field.arraySize = 0 := by
  have last : ∃ front, (memberPieces field typeId nested).dropLast = front ++ [.ofString "]",
      .ofString (if typeId = 16 ∨ field.isArray ∧ field.arraySize = 0 then " <- This should be inited" else "")] := by
    cases nested with
    | none => exact ⟨_ :: _ :: _ :: _ :: [_], rfl⟩
    | some info => exact ⟨_ :: _ :: _ :: _ :: _ :: _ :: _ :: _ :: [_], rfl⟩
  obtain ⟨front, last⟩ := last
  rw [last, spelled_append, ← List.append_assoc]
  split
  next inited =>
    have ends : spelled [.ofString "]", .ofString " <- This should be inited"] = [93, 32] ++ initMark := rfl
    rw [ends, ← List.append_assoc]
    exact iff_of_true (List.suffix_append _ _) inited
  next plain =>
    -- An unmarked line ends in the bracket.
    exact iff_of_false (not_marked (by decide)) plain

theorem MessageMembers.headerLine_unmarked (target : Target) (type : MessageMembers) :
    ¬ initMark <:+ type.headerLine target := by
  have last : type.headerLine target = (9 :: spelled (type.headerPieces target)) ++ [32] ++ [66] := by
    rw [headerLine, spelled_append, List.cons_append, List.cons_append, List.append_assoc]
    rfl
  rw [last]
  exact not_marked (by decide)

end MicroRos
