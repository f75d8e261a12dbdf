import MicroRos.Introspection.Members

/-! Memory configurations and the rules in them.

A rule is a C string in a buffer of its own. The comparison that selects a rule
reads both strings through `memcmp`, which does not stop at a terminator, so the
bytes behind the terminators are part of what is compared.
-/

set_option autoImplicit false

namespace MicroRos

open Memory (Byte)

/-- The bytes of a buffer that holds a C string: its characters, the terminator, and
whatever stands behind it. -/
def CString.bytes (s : CString) (after : Nat → Byte) (i : Nat) : Byte :=
  if i = s.text.length then 0 else s.text[i]?.getD (after i)

/-- `memcmp(a, b, n) == 0`. -/
def memcmpEq (a b : Nat → Byte) (n : Nat) : Bool := decide (∀ i < n, a i = b i)

structure Rule (target : Target) where
  rule : CString
  after : Nat → Byte
  size : target.SizeT

/-- The pair of comparisons in the rule loop: the first reads `strlen(rule)` bytes and
the second `name_tree.size - 1` bytes. -/
def Rule.matchesBuffer {target : Target} (r : Rule target) (data : Nat → Byte) (size : Nat) : Bool :=
  memcmpEq (r.rule.bytes r.after) data r.rule.text.length &&
    memcmpEq (r.rule.bytes r.after) data (size - 1)

structure MemoryConf (target : Target) where
  maxStringCapacity : target.SizeT
  maxRos2TypeSequenceCapacity : target.SizeT
  maxBasicTypeSequenceCapacity : target.SizeT
  rules : List (Rule target)
  /-- The allocator's identity; `none` stands for a null pointer. -/
  allocator : Option Nat

namespace MemoryConf

variable {target : Target}

private def literal (target : Target) (n : Nat) (small : n < 256) : target.SizeT :=
  ⟨n, by have := target.modulus_ge; omega⟩

/-- `micro_ros_utilities_memory_conf_default`. -/
def default : MemoryConf target :=
  ⟨literal target 20 (by decide), literal target 5 (by decide), literal target 5 (by decide), [], none⟩

/-- Zero capacities take their default values. -/
def getConfiguration (conf : MemoryConf target) : MemoryConf target where
  maxBasicTypeSequenceCapacity :=
    if conf.maxBasicTypeSequenceCapacity.val = 0 then default.maxBasicTypeSequenceCapacity
    else conf.maxBasicTypeSequenceCapacity
  maxRos2TypeSequenceCapacity :=
    if conf.maxRos2TypeSequenceCapacity.val = 0 then default.maxRos2TypeSequenceCapacity
    else conf.maxRos2TypeSequenceCapacity
  maxStringCapacity :=
    if conf.maxStringCapacity.val = 0 then default.maxStringCapacity else conf.maxStringCapacity
  rules := conf.rules
  allocator := conf.allocator

def nRules (conf : MemoryConf target) : Nat := conf.rules.length

/-- The allocator in use: number zero is `rcutils_get_default_allocator()`. -/
def owner (conf : MemoryConf target) : Nat := conf.allocator.getD 0

/-- Capacity of a string or sequence of basic type when no rule applies. -/
def basicDefault (conf : MemoryConf target) : BasicType → target.SizeT
  | .string => conf.maxStringCapacity
  | _ => conf.maxBasicTypeSequenceCapacity

@[simp] theorem getConfiguration_rules (conf : MemoryConf target) :
    conf.getConfiguration.rules = conf.rules := rfl

@[simp] theorem getConfiguration_owner (conf : MemoryConf target) :
    conf.getConfiguration.owner = conf.owner := rfl

@[simp] theorem getConfiguration_nRules (conf : MemoryConf target) :
    conf.getConfiguration.nRules = conf.nRules := rfl

end MemoryConf

/-- The rule is the path, written with or without its trailing dot; `path` has the dot. -/
def Rule.selects {target : Target} (r : Rule target) (path : CString) : Bool :=
  decide (r.rule.append .dot = path ∨ r.rule = path)

namespace MemoryConf

variable {target : Target}

/-- What the configuration gives to the member at `path` (written with a trailing dot): the
size of the first rule for the path, or `otherwise`. -/
def capacityAt (conf : MemoryConf target) (path : CString) (otherwise : target.SizeT) :
    target.SizeT :=
  ((conf.rules.find? (·.selects path)).map (·.size)).getD otherwise

end MemoryConf

theorem CString.bytes_lt {s : CString} (after : Nat → Byte) {i : Nat} (inside : i < s.text.length) :
    s.bytes after i = s.text[i] := by
  simp [bytes, Nat.ne_of_lt inside, List.getElem?_eq_getElem inside]

theorem CString.bytes_ne_zero {s : CString} (after : Nat → Byte) {i : Nat}
    (inside : i < s.text.length) : s.bytes after i ≠ 0 := by
  rw [bytes_lt after inside]
  intro zero
  exact s.noNul (zero ▸ List.getElem_mem inside)

theorem CString.bytes_terminator (s : CString) (after : Nat → Byte) :
    s.bytes after s.text.length = 0 := by simp [bytes]

/-- A string and what begins with it agree as far as the string goes, and nothing else does: a shorter one
has its terminator where the string still has a character. -/
theorem CString.bytes_agree_iff (s t : CString) (after after' : Nat → Byte) :
    (∀ i < s.text.length, s.bytes after i = t.bytes after' i) ↔ s.text <+: t.text := by
  constructor
  · intro same
    have notLonger : s.text.length ≤ t.text.length := by
      by_contra longer
      have differ := same t.text.length (by omega)
      rw [t.bytes_terminator] at differ
      exact s.bytes_ne_zero after (by omega) differ
    apply List.prefix_iff_eq_take.mpr
    apply List.ext_getElem
    · simpa using notLonger
    · intro i inside _
      have here := same i inside
      rw [bytes_lt _ inside, bytes_lt _ (by omega)] at here
      simpa using here
  · intro begins i inside
    have notLonger := begins.length_le
    rw [bytes_lt _ inside, bytes_lt _ (by omega)]
    exact begins.getElem inside

/-- The two comparisons accept exactly the path itself and the path without its last
character, whatever stands behind the two terminators. -/
theorem Rule.matchesBuffer_iff {target : Target} (r : Rule target) (path : CString)
    (after : Nat → Byte) :
    r.matchesBuffer (path.bytes after) path.text.length = true ↔
      r.rule.text = path.text ∨ r.rule.text = path.text.dropLast := by
  simp only [matchesBuffer, memcmpEq, Bool.and_eq_true, decide_eq_true_eq, CString.bytes_agree_iff]
  constructor
  · rintro ⟨begins, pathChars⟩
    -- A shorter rule would have its terminator where the path still has a character.
    have notShorter : path.text.length - 1 ≤ r.rule.text.length := by
      by_contra shorter
      have differ := pathChars r.rule.text.length (by omega)
      rw [r.rule.bytes_terminator] at differ
      exact path.bytes_ne_zero after (by omega) differ.symm
    have initial : r.rule.text = path.text.take r.rule.text.length := List.prefix_iff_eq_take.mp begins
    rcases Nat.lt_or_ge r.rule.text.length path.text.length with less | equal
    · right
      rw [initial, List.dropLast_eq_take]
      congr 1
      omega
    · left
      rw [initial, List.take_of_length_le equal]
  · intro accepted
    have begins : r.rule.text <+: path.text := by
      rcases accepted with same | same
      · exact same ▸ List.prefix_rfl
      · rw [same]
        exact List.dropLast_prefix path.text
    have long : path.text.length - 1 ≤ r.rule.text.length := by
      rcases accepted with same | same <;> simp [same]
    have agree := (CString.bytes_agree_iff r.rule path r.after after).mpr begins
    exact ⟨begins, fun i bound => agree i (by omega)⟩

/-- On a path that ends in a dot the comparisons decide `selects`. -/
theorem Rule.matchesBuffer_eq_selects {target : Target} (r : Rule target) (start : CString)
    (after : Nat → Byte) :
    r.matchesBuffer ((start.append .dot).bytes after) (start.append .dot).text.length =
      r.selects (start.append .dot) := by
  rw [Bool.eq_iff_iff, matchesBuffer_iff]
  simp only [selects, decide_eq_true_eq, CString.ext_iff, CString.append_text, CString.dot,
    List.dropLast_concat, List.append_cancel_right_eq]
  exact or_comm

end MicroRos
