import MicroRos.Utilities.Configuration

/-! The operations that the planner and the type printer use on their scratch strings.

The recursion over a type passes the string struct by value while the buffer behind it
is shared, so what a copy of the struct means after a call depends on the buffer. The
operations are a parameter: `valueStrings` takes each struct for a value of its own.
-/

set_option autoImplicit false

namespace MicroRos

open Memory (Byte)

/-- String utilities over struct values `S` and the state `σ` of the buffers. -/
structure StringOps (target : Target) (σ S : Type) where
  /-- The struct `{0}`. -/
  zero : S
  init : CString → σ → S × σ
  append : S → CString → σ → S × σ
  removeTailChars : S → Nat → σ → S × σ
  /-- The two comparisons of a rule with the buffer. -/
  matchesRule : Rule target → S → σ → Bool × σ
  /-- The characters that `%s` reads from the buffer. -/
  chars : S → σ → List Byte × σ
  destroy : S → σ → σ

/-- The operations keep to a relation between the states before and after. -/
structure StringOps.Keeps {target : Target} {σ S : Type} (ops : StringOps target σ S) (R : σ → σ → Prop) : Prop where
  refl : ∀ s, R s s
  trans : ∀ {s s' s''}, R s s' → R s' s'' → R s s''
  append : ∀ str data s, R s (ops.append str data s).2
  removeTailChars : ∀ str n s, R s (ops.removeTailChars str n s).2
  matchesRule : ∀ rule str s, R s (ops.matchesRule rule str s).2
  chars : ∀ str s, R s (ops.chars str s).2

def CString.dropTail (s : CString) (n : Nat) : CString :=
  ⟨s.text.take (s.text.length - n), fun member => s.noNul (List.mem_of_mem_take member)⟩

/-- Strings as values. The state supplies, one comparison after the other, the bytes that
happen to stand behind the terminator of the buffer. -/
def valueStrings (target : Target) : StringOps target (Nat → Nat → Byte) CString where
  zero := .empty
  init s behind := (s, behind)
  append s t behind := (s.append t, behind)
  removeTailChars s n behind := (s.dropTail n, behind)
  matchesRule r s behind :=
    (r.matchesBuffer (s.bytes (behind 0)) s.text.length, fun n => behind (n + 1))
  chars s behind := (s.text, behind)
  destroy _ behind := behind

theorem CString.dropTail_append (s t : CString) : (s.append t).dropTail t.text.length = s := by
  ext1
  simp [dropTail]

end MicroRos
