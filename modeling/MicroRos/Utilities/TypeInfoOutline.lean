import Mathlib.Data.List.Basic
import MicroRos.Utilities.TypeInfoLines

/-! What can be read back from the text of `micro_ros_utilities_type_info`.

Names are words: they have none of the characters that the lines are made of. Two types then
have the same text exactly when they agree in everything but the offsets, the bounds of
arrays and the sizes of nested types, which are not printed.
-/

set_option autoImplicit false

namespace MicroRos

open Memory (Byte)

/-- What is printed of a field. -/
def Field.printed (field : Field) : Field :=
  ⟨field.name, field.isArray, if field.isArray && field.arraySize != 0 then 1 else 0, false, 0⟩

/-- What is printed of a nested type. -/
def MessageInfo.printed (info : MessageInfo) : MessageInfo := ⟨info.messageNamespace, info.messageName, 0⟩

namespace MemberList

def printed : MemberList → MemberList
  | .nil => .nil
  | .basic type field rest => .basic type field.printed rest.printed
  | .message info members field rest => .message info.printed members.printed field.printed rest.printed

end MemberList

/-- What is printed of a type: its size up to the width of a `size_t`. -/
def MessageMembers.printed (target : Target) (type : MessageMembers) : MessageMembers :=
  ⟨⟨type.info.messageNamespace, type.info.messageName, type.info.sizeOf % 2 ^ (8 * target.word)⟩, type.members.printed⟩

/-- No tab, newline, space, slash or closing bracket. -/
def CString.Word (s : CString) : Prop := ∀ byte ∈ s.text, byte ∉ ([9, 10, 32, 47, 93] : List Byte)

theorem byte_lawful : LawfulBEq Byte := inferInstance

instance (s : CString) : Decidable s.Word :=
  haveI := byte_lawful
  List.decidableBAll (fun byte => byte ∉ ([9, 10, 32, 47, 93] : List Byte)) s.text

def MessageInfo.NamesWords (info : MessageInfo) : Prop := info.messageNamespace.Word ∧ info.messageName.Word

instance (info : MessageInfo) : Decidable info.NamesWords := by
  unfold MessageInfo.NamesWords
  infer_instance

def Member.NamesWords : Member → Prop
  | .basic _ field => field.name.Word
  | .message type field => field.name.Word ∧ type.info.NamesWords

instance : (member : Member) → Decidable member.NamesWords
  | .basic _ field => inferInstanceAs (Decidable field.name.Word)
  | .message type field => inferInstanceAs (Decidable (field.name.Word ∧ type.info.NamesWords))

/-- Every name in the tree is a word. -/
def MessageMembers.NamesWords (type : MessageMembers) : Prop :=
  type.info.NamesWords ∧ ∀ occurrence ∈ type.members.occurrences [] 0, occurrence.member.NamesWords

instance (type : MessageMembers) : Decidable type.NamesWords := by
  unfold MessageMembers.NamesWords
  infer_instance

section Words

variable {s : CString}

theorem CString.Word.not_mem (word : s.Word) {byte : Byte} (special : byte ∈ ([9, 10, 32, 47, 93] : List Byte)) :
    byte ∉ s.text := fun inside => word byte inside special

theorem CString.Word.clean (word : s.Word) : s.Clean := ⟨word.not_mem (by decide), word.not_mem (by decide)⟩

theorem MessageInfo.NamesWords.clean {info : MessageInfo} (words : info.NamesWords) : info.NamesClean :=
  ⟨words.1.clean, words.2.clean⟩

theorem Member.NamesWords.clean {member : Member} (words : member.NamesWords) : member.NamesClean := by
  cases member with
  | basic type field => exact CString.Word.clean words
  | message type field => exact ⟨words.1.clean, words.2.clean⟩

theorem MessageMembers.NamesWords.clean {type : MessageMembers} (words : type.NamesWords) : type.NamesClean :=
  ⟨words.1.clean, fun occurrence listed => (words.2 occurrence listed).clean⟩

end Words

/-- What is read of a line: the number of tabs and what stands behind them. -/
def readLine (line : List Byte) : Nat × List Byte := ((line.takeWhile (· = 9)).length, line.dropWhile (· = 9))

theorem readLine_line {n : Nat} {body : List Byte} (clean : 9 ∉ body) :
    readLine (List.replicate n 9 ++ body) = (n, body) := by
  have tabs : ∀ byte ∈ List.replicate n (9 : Byte), decide (byte = 9) = true := by simp
  have none : body.takeWhile (· = 9) = [] := by
    cases body with
    | nil => rfl
    | cons byte body =>
      have other : byte ≠ 9 := fun same => clean (same ▸ List.mem_cons_self)
      simp [other]
  have all : body.dropWhile (· = 9) = body := by
    cases body with
    | nil => rfl
    | cons byte body =>
      have other : byte ≠ 9 := fun same => clean (same ▸ List.mem_cons_self)
      simp [other]
  rw [readLine, List.takeWhile_append_of_pos tabs, List.dropWhile_append_of_pos tabs, none, all]
  simp

/-- What stands in front of the name of a type. -/
def Field.kind (field : Field) : String :=
  if field.isArray then if field.arraySize = 0 then "Sequence of " else "Array of " else ""

def kinds : List String := ["", "Sequence of ", "Array of "]

/-- The words for the type with this id. -/
def kindText (kind : String) (typeId : Nat) : List Byte :=
  (CString.ofString kind).text ++ (CString.ofString (basicTypeNames.getD typeId "")).text

/-- What stands between the brackets. -/
def Member.typeText : Member → List Byte
  | .basic type field => kindText field.kind type.typeId
  | .message type field =>
    kindText field.kind 18 ++ 32 :: (type.info.messageNamespace.text ++ 47 :: type.info.messageName.text)

theorem Field.kind_mem (field : Field) : field.kind ∈ kinds := by
  unfold kind
  repeat' split
  all_goals decide

/-- The words for a type say what is printed of its field. -/
theorem Field.printed_of_kind {field other : Field} (name : field.name = other.name) (same : field.kind = other.kind) :
    field.printed = other.printed := by
  obtain ⟨_, isArray, arraySize, _, _⟩ := field
  obtain ⟨_, isArray', arraySize', _, _⟩ := other
  obtain rfl := name
  simp only [kind] at same
  cases isArray with
  | false =>
    cases isArray' with
    | false => rfl
    | true => simp at same; split at same <;> exact absurd same (by decide)
  | true =>
    cases isArray' with
    | false => simp at same; split at same <;> exact absurd same (by decide)
    | true =>
      by_cases zero : arraySize = 0
      · by_cases zero' : arraySize' = 0
        · simp [printed, zero, zero']
        · simp [zero, zero'] at same
      · by_cases zero' : arraySize' = 0
        · simp [zero, zero'] at same
        · simp [printed, zero, zero']

section Tables

theorem kindText_bracket : ∀ kind ∈ kinds, ∀ typeId < 19, 93 ∉ kindText kind typeId := by decide +kernel

/-- The words for basic types differ. -/
theorem kindText_inj : ∀ kind ∈ kinds, ∀ kind' ∈ kinds, ∀ typeId < 18, ∀ typeId' < 18,
    kindText kind typeId = kindText kind' typeId' → kind = kind' ∧ typeId = typeId' := by decide +kernel

/-- No words for a basic type begin with the words for a message and a space. -/
theorem kindText_message : ∀ kind ∈ kinds, ∀ kind' ∈ kinds, ∀ typeId < 18,
    ¬ kindText kind 18 ++ [32] <+: kindText kind' typeId := by decide +kernel

theorem kindText_head : ∀ kind ∈ kinds, ∀ kind' ∈ kinds,
    (kindText kind 18).head? = (kindText kind' 18).head? → kind = kind' := by decide +kernel

theorem kindText_ne_nil : ∀ kind ∈ kinds, kindText kind 18 ≠ [] := by decide +kernel

theorem BasicType.typeId_lt (type : BasicType) : type.typeId < 18 := by cases type <;> decide

theorem BasicType.typeId_inj {type other : BasicType} (same : type.typeId = other.typeId) : type = other := by
  cases type <;> cases other <;> first | rfl | cases same

end Tables

/-- What is printed of a member, its own members apart. -/
def Member.printed : Member → Member
  | .basic type field => .basic type field.printed
  | .message type field => .message ⟨type.info.printed, .nil⟩ field.printed

theorem Member.typeText_bracket {member : Member} (words : member.NamesWords) : 93 ∉ member.typeText := by
  cases member with
  | basic type field =>
    exact kindText_bracket _ field.kind_mem _ (Nat.lt_succ_of_lt type.typeId_lt)
  | message type field =>
    intro bracket
    rcases List.mem_append.mp bracket with inKind | inNames
    · exact kindText_bracket _ field.kind_mem _ (by decide) inKind
    · rcases List.mem_cons.mp inNames with space | inNames
      · exact absurd space (by decide)
      · rcases List.mem_append.mp inNames with inside | inside
        · exact words.2.1.not_mem (by decide) inside
        · rcases List.mem_cons.mp inside with slash | inside
          · exact absurd slash (by decide)
          · exact words.2.2.not_mem (by decide) inside

/-- The words of a basic type are not those of a message. -/
theorem typeText_basic_ne (type : BasicType) (field : Field) (nested : MessageMembers) (other : Field) :
    (Member.basic type field).typeText ≠ (Member.message nested other).typeText := by
  intro same
  apply kindText_message _ other.kind_mem _ field.kind_mem _ type.typeId_lt
  refine ⟨nested.info.messageNamespace.text ++ 47 :: nested.info.messageName.text, ?_⟩
  rw [List.append_assoc]
  exact same.symm

theorem Member.printed_of_typeText {member other : Member} (words : member.NamesWords) (words' : other.NamesWords)
    (name : member.field.name = other.field.name) (same : member.typeText = other.typeText) :
    member.printed = other.printed := by
  cases member with
  | basic type field =>
    cases other with
    | basic type' field' =>
      obtain ⟨kind, typeId⟩ := kindText_inj _ field.kind_mem _ field'.kind_mem _ type.typeId_lt _ type'.typeId_lt same
      have fields : field.printed = field'.printed := Field.printed_of_kind name kind
      simp only [Member.printed, BasicType.typeId_inj typeId, fields]
    | message type' field' => exact absurd same (typeText_basic_ne type field type' field')
  | message type field =>
    cases other with
    | basic type' field' => exact absurd same.symm (typeText_basic_ne type' field' type field)
    | message type' field' =>
      have heads := congrArg List.head? same
      simp only [typeText, List.head?_append_of_ne_nil _ (kindText_ne_nil _ field.kind_mem),
        List.head?_append_of_ne_nil _ (kindText_ne_nil _ field'.kind_mem)] at heads
      have kind := kindText_head _ field.kind_mem _ field'.kind_mem heads
      simp only [typeText, kind, List.append_cancel_left_eq, List.cons.injEq, true_and] at same
      obtain ⟨namespaces, names⟩ := cut_unique (words.2.1.not_mem (by decide)) (words'.2.1.not_mem (by decide)) same
      have fields : field.printed = field'.printed := Field.printed_of_kind name kind
      simp only [Member.printed, MessageInfo.printed, CString.ext namespaces, CString.ext names, fields]

/-- A member's line, cut into its parts. -/
theorem Member.body_parts (member : Member) : ∃ mark, member.body =
    (CString.ofString " - ").text ++ (member.field.name.text ++ 32 :: (91 :: (member.typeText ++ 93 :: mark))) := by
  have opening : (CString.ofString " [").text = [32, 91] := by decide
  have closing : (CString.ofString "]").text = [93] := by decide
  have space : (CString.ofString " ").text = [32] := by decide
  have slash : (CString.ofString "/").text = [47] := by decide
  cases member with
  | basic type field =>
    refine ⟨(CString.ofString (if type.typeId = 16 ∨ field.isArray ∧ field.arraySize = 0 then
      " <- This should be inited" else "")).text, ?_⟩
    simp [body, pieces, memberPieces, spelled, typeText, kindText, Member.field, Field.kind, opening, closing]
  | message type field =>
    refine ⟨(CString.ofString (if (18 : Nat) = 16 ∨ field.isArray ∧ field.arraySize = 0 then
      " <- This should be inited" else "")).text, ?_⟩
    simp [body, pieces, memberPieces, spelled, typeText, kindText, Member.field, Field.kind, opening, closing, space,
      slash]

/-- What is printed of a member can be read back from its line. -/
theorem Member.printed_of_body {member other : Member} (words : member.NamesWords) (words' : other.NamesWords)
    (same : member.body = other.body) : member.printed = other.printed := by
  have name {member : Member} (words : member.NamesWords) : member.field.name.Word := by
    cases member with
    | basic type field => exact words
    | message type field => exact words.1
  obtain ⟨mark, body⟩ := member.body_parts
  obtain ⟨mark', body'⟩ := other.body_parts
  rw [body, body', List.append_cancel_left_eq] at same
  obtain ⟨names, behind⟩ := cut_unique ((name words).not_mem (by decide)) ((name words').not_mem (by decide)) same
  obtain ⟨types, -⟩ := cut_unique (Member.typeText_bracket words) (Member.typeText_bracket words')
    (List.cons.inj behind).2
  exact Member.printed_of_typeText words words' (CString.ext names) types

/-- A line as it is read: its depth, counted in tabs, and the words behind them. -/
def Occurrence.entry (occurrence : Occurrence) : Nat × List Byte := (occurrence.depth + 1, occurrence.member.body)

theorem Occurrence.readLine_line {occurrence : Occurrence} (words : occurrence.member.NamesWords) :
    readLine occurrence.line = occurrence.entry := MicroRos.readLine_line (Member.body_clean words.clean).1

/-- The members of a type, read back from their lines and from anything that stands less deep behind them. -/
theorem MemberList.printed_of_entries {list other : MemberList} {calls calls' : List Nat} {index index' : Nat}
    {behind behind' : List (Nat × List Byte)} (depth : calls.length = calls'.length)
    (words : ∀ occurrence ∈ list.occurrences calls index, occurrence.member.NamesWords)
    (words' : ∀ occurrence ∈ other.occurrences calls' index', occurrence.member.NamesWords)
    (less : ∀ entry ∈ behind.head?, entry.1 ≤ calls.length) (less' : ∀ entry ∈ behind'.head?, entry.1 ≤ calls.length)
    (same : (list.occurrences calls index).map Occurrence.entry ++ behind =
      (other.occurrences calls' index').map Occurrence.entry ++ behind') :
    list.printed = other.printed ∧ behind = behind' := by
  induction list generalizing other calls calls' index index' behind behind' with
  | nil =>
    cases other with
    | nil => exact ⟨rfl, same⟩
    | basic | message =>
      -- A line at this depth cannot be what stands less deep behind an empty list.
      simp only [occurrences, List.map_cons, List.map_nil, List.nil_append, List.cons_append] at same
      have deep := less (Occurrence.entry _) (by rw [same]; rfl)
      simp only [Occurrence.entry, Occurrence.depth] at deep
      omega
  | basic type field rest ih =>
    cases other with
    | nil =>
      simp only [occurrences, List.map_cons, List.map_nil, List.nil_append, List.cons_append] at same
      have deep := less' (Occurrence.entry _) (by rw [← same]; rfl)
      simp only [Occurrence.entry, Occurrence.depth] at deep
      omega
    | basic type' field' rest' =>
      simp only [occurrences, List.forall_mem_cons, List.map_cons, List.cons_append] at words words' same
      obtain ⟨here, later⟩ := List.cons.inj same
      have member := Member.printed_of_body words.1 words'.1 (congrArg Prod.snd here)
      obtain ⟨rests, behinds⟩ := ih depth words.2 words'.2 less less' later
      simp only [Member.printed, Member.basic.injEq] at member
      exact ⟨by simp only [printed, member, rests], behinds⟩
    | message =>
      simp only [occurrences, List.forall_mem_cons, List.map_cons, List.cons_append] at words words' same
      have member := Member.printed_of_body words.1 words'.1 (congrArg Prod.snd (List.cons.inj same).1)
      cases member
  | message info members field rest ihMembers ih =>
    cases other with
    | nil =>
      simp only [occurrences, List.map_cons, List.map_nil, List.nil_append, List.cons_append] at same
      have deep := less' (Occurrence.entry _) (by rw [← same]; rfl)
      simp only [Occurrence.entry, Occurrence.depth] at deep
      omega
    | basic =>
      simp only [occurrences, List.forall_mem_cons, List.map_cons, List.cons_append] at words words' same
      have member := Member.printed_of_body words.1 words'.1 (congrArg Prod.snd (List.cons.inj same).1)
      cases member
    | message info' members' field' rest' =>
      simp only [occurrences, List.forall_mem_cons, List.forall_mem_append, List.map_cons, List.map_append,
        List.cons_append, List.append_assoc] at words words' same
      obtain ⟨here, later⟩ := List.cons.inj same
      have member := Member.printed_of_body words.1 words'.1 (congrArg Prod.snd here)
      -- What follows the members of the nested type is at most as deep as the member itself.
      have shallow {rest : MemberList} {calls : List Nat} {index : Nat} {behind : List (Nat × List Byte)} {n : Nat}
          (depth : calls.length = n) (less : ∀ entry ∈ behind.head?, entry.1 ≤ n) :
          ∀ entry ∈ ((rest.occurrences calls index).map Occurrence.entry ++ behind).head?, entry.1 ≤ n + 1 := by
        intro entry first
        cases rest with
        | nil => exact Nat.le_succ_of_le (less entry first)
        | basic | message =>
          simp only [occurrences, List.map_cons, List.cons_append, List.head?_cons, Option.mem_def,
            Option.some.injEq] at first
          simp [← first, Occurrence.entry, Occurrence.depth, depth]
      have deeper : (calls ++ [index]).length = calls.length + 1 := List.length_append
      have nested : (calls ++ [index]).length = (calls' ++ [index']).length := by simp [depth]
      obtain ⟨inner, rests⟩ := ihMembers nested words.2.1 words'.2.1 (by rw [deeper]; exact shallow rfl less)
        (by rw [deeper]; exact shallow depth.symm less') later
      obtain ⟨rests, behinds⟩ := ih depth words.2.2 words'.2.2 less less' rests
      simp only [Member.printed, Member.message.injEq, MessageMembers.mk.injEq] at member
      exact ⟨by simp only [printed, member, inner, rests], behinds⟩

section Header

variable (target : Target)

theorem MemberList.count_printed (list : MemberList) : list.printed.count = list.count := by
  induction list with
  | nil => rfl
  | basic type field rest ih => exact congrArg (· + 1) ih
  | message info members field rest _ ih => exact congrArg (· + 1) ih

/-- The line of a type, cut into its parts. -/
theorem MessageMembers.headerLine_parts (type : MessageMembers) :
    type.headerLine target = (9 :: (CString.ofString "Introspection for ").text) ++
      (type.info.messageNamespace.text ++ 47 :: (type.info.messageName.text ++ 32 :: ([45, 32] ++
        ((CString.decimal 32 type.members.count).text ++ ((CString.ofString " members, ").text ++
          ((CString.decimal (8 * target.word) type.info.sizeOf).text ++ (CString.ofString " B").text)))))) := by
  have dash : (CString.ofString " - ").text = [32, 45, 32] := by decide
  have slash : (CString.ofString "/").text = [47] := by decide
  simp [headerLine, headerPieces, spelled, dash, slash]

theorem MessageMembers.headerLine_eq_iff {type other : MessageMembers} (words : type.info.NamesWords)
    (words' : other.info.NamesWords) (counts : type.members.count = other.members.count) :
    type.headerLine target = other.headerLine target ↔ (type.printed target).info = (other.printed target).info := by
  simp only [headerLine_parts, counts, List.append_cancel_left_eq, printed, MessageInfo.mk.injEq]
  constructor
  · intro same
    obtain ⟨namespaces, behind⟩ := cut_unique (words.1.not_mem (by decide)) (words'.1.not_mem (by decide)) same
    obtain ⟨names, behind⟩ := cut_unique (words.2.not_mem (by decide)) (words'.2.not_mem (by decide)) behind
    simp only [List.append_cancel_left_eq, List.append_cancel_right_eq] at behind
    exact ⟨CString.ext namespaces, CString.ext names, (decimal_eq_iff _ _ _).mp (CString.ext behind)⟩
  · rintro ⟨namespaces, names, sizes⟩
    rw [namespaces, names, (decimal_eq_iff _ _ _).mpr sizes]

end Header

/-- The lines depend on what is printed alone. -/
theorem MemberList.entries_printed (list : MemberList) (calls : List Nat) (index : Nat) :
    (list.printed.occurrences calls index).map Occurrence.entry =
      (list.occurrences calls index).map Occurrence.entry := by
  have field (field : Field) (typeId : Nat) (nested : Option MessageInfo) :
      memberPieces field.printed typeId (nested.map MessageInfo.printed) = memberPieces field typeId nested := by
    obtain ⟨name, isArray, arraySize, _, _⟩ := field
    cases isArray <;> cases nested <;> by_cases zero : arraySize = 0 <;>
      simp [memberPieces, Field.printed, MessageInfo.printed, zero]
  induction list generalizing calls index with
  | nil => rfl
  | basic type f rest ih =>
    have pieces := field f type.typeId none
    simp only [printed, occurrences, List.map_cons, ih, Occurrence.entry, Occurrence.depth, Member.body, Member.pieces]
    rw [← pieces]
    rfl
  | message info members f rest ihMembers ih =>
    have pieces := field f 18 (some info)
    simp only [printed, occurrences, List.map_cons, List.map_append, ih, ihMembers, Occurrence.entry, Occurrence.depth,
      Member.body, Member.pieces]
    rw [← pieces]
    rfl

/-- Two types have the same text if and only if they agree in all that is printed: the names and types of the
members and of their members, which of them are arrays or sequences, and the name and size of the type. -/
theorem typeInfo_eq_iff (target : Target) {type other : MessageMembers} (words : type.NamesWords)
    (words' : other.NamesWords) (fit : type.LinesFit target) (fit' : other.LinesFit target)
    (indent outBuffer indent' outBuffer' : Nat → Nat → Byte) :
    (typeInfo target (valueStrings target) type indent outBuffer).out =
        (typeInfo target (valueStrings target) other indent' outBuffer').out ↔
      type.printed target = other.printed target := by
  constructor
  · intro same
    have split := congrArg (fun s : CString => s.text.splitOn 10) same
    simp only [typeInfo_splitOn words.clean fit, typeInfo_splitOn words'.clean fit',
      List.append_cancel_right_eq] at split
    obtain ⟨header, lines⟩ := List.cons.inj split
    have entries := congrArg (List.map readLine) lines
    simp only [List.map_map] at entries
    have read {type : MessageMembers} (words : type.NamesWords) :
        (type.members.occurrences [] 0).map (readLine ∘ Occurrence.line) =
          (type.members.occurrences [] 0).map Occurrence.entry :=
      List.map_congr_left fun occurrence listed => occurrence.readLine_line (words.2 occurrence listed)
    rw [read words, read words'] at entries
    have members := (MemberList.printed_of_entries rfl words.2 words'.2 (by simp) (by simp)
      (congrArg (· ++ []) entries)).1
    have counts : type.members.count = other.members.count := by
      rw [← type.members.count_printed, members, other.members.count_printed]
    have infos := (MessageMembers.headerLine_eq_iff target words.1 words'.1 counts).mp header
    simp only [MessageMembers.printed] at infos ⊢
    rw [infos, members]
  · intro same
    have members : type.members.printed = other.members.printed := congrArg MessageMembers.members same
    have counts : type.members.count = other.members.count := by
      rw [← type.members.count_printed, members, other.members.count_printed]
    have header := (MessageMembers.headerLine_eq_iff target words.1 words'.1 counts).mpr
      (congrArg MessageMembers.info same)
    have entries : (type.members.occurrences [] 0).map Occurrence.entry =
        (other.members.occurrences [] 0).map Occurrence.entry := by
      rw [← type.members.entries_printed, members, other.members.entries_printed]
    have lines (type : MessageMembers) : (type.members.occurrences [] 0).map Occurrence.line =
        ((type.members.occurrences [] 0).map Occurrence.entry).map
          fun entry => List.replicate entry.1 9 ++ entry.2 := by
      rw [List.map_map]
      rfl
    ext1
    rw [typeInfo_text target fit, typeInfo_text target fit', header, lines, lines, entries]

theorem typeInfo_eq_iff_listParametersResult :
    (typeInfo cortexM (valueStrings cortexM) (listParametersResult cortexM) (fun _ _ => 0) fun _ _ => 0).out =
        (typeInfo cortexM (valueStrings cortexM) (multiArrayDimension cortexM) (fun _ _ => 0) fun _ _ => 0).out ↔
      (listParametersResult cortexM).printed cortexM = (multiArrayDimension cortexM).printed cortexM :=
  typeInfo_eq_iff cortexM (by decide +kernel) (by decide +kernel) (by decide +kernel) (by decide +kernel) _ _ _ _

end MicroRos
