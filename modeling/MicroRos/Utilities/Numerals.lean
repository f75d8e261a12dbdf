import MicroRos.Utilities.TypeInfo

/-! Numbers in texts: what is printed of an integer can be read back. -/

set_option autoImplicit false

namespace MicroRos

open Memory (Byte)

/-- Two texts that are cut at the first of some character. -/
theorem cut_unique {α : Type} {front front' back back' : List α} {mark : α} (clean : mark ∉ front)
    (clean' : mark ∉ front') (same : front ++ mark :: back = front' ++ mark :: back') :
    front = front' ∧ back = back' := by
  induction front generalizing front' with
  | nil =>
    cases front' with
    | nil => exact ⟨rfl, (List.cons.inj same).2⟩
    | cons x front' => exact absurd ((List.cons.inj same).1 ▸ List.mem_cons_self) clean'
  | cons x front ih =>
    cases front' with
    | nil => exact absurd ((List.cons.inj same).1 ▸ List.mem_cons_self) clean
    | cons y front' =>
      obtain ⟨rfl, later⟩ := List.cons.inj same
      obtain ⟨rfl, behind⟩ := ih (List.not_mem_of_not_mem_cons clean) (List.not_mem_of_not_mem_cons clean') later
      exact ⟨rfl, behind⟩

section Characters

variable {s : String}

/-- Characters of one byte each, none of them the terminator. -/
theorem ofString_text (bytes : ∀ c ∈ s.toList, 0 < c.toNat ∧ c.toNat < 256) :
    (CString.ofString s).text = s.toList.map fun c => Fin.ofNat 256 c.toNat := by
  refine List.filter_eq_self.mpr fun byte member => ?_
  obtain ⟨c, inside, rfl⟩ := List.mem_map.mp member
  obtain ⟨positive, small⟩ := bytes c inside
  have value : (Fin.ofNat 256 c.toNat).val = c.toNat := Nat.mod_eq_of_lt small
  rw [← value] at positive
  simpa [Fin.ext_iff] using positive.ne'

/-- They can be read back. -/
theorem read_ofString (bytes : ∀ c ∈ s.toList, 0 < c.toNat ∧ c.toNat < 256) :
    (CString.ofString s).text.map (fun byte => Char.ofNat byte.val) = s.toList := by
  rw [ofString_text bytes, List.map_map]
  refine (List.map_congr_left fun c inside => ?_).trans (List.map_id _)
  have value : (Fin.ofNat 256 c.toNat).val = c.toNat := Nat.mod_eq_of_lt (bytes c inside).2
  simp only [Function.comp_apply, value, Char.ofNat_toNat, id]

end Characters

section Decimals

/-- A sign or a digit. -/
theorem repr_characters (z : Int) : ∀ c ∈ z.repr.toList, c.toNat = 45 ∨ 48 ≤ c.toNat ∧ c.toNat ≤ 57 := by
  have digits (n : Nat) : ∀ c ∈ n.repr.toList, 48 ≤ c.toNat ∧ c.toNat ≤ 57 := by
    intro c member
    rw [Nat.toList_repr] at member
    have digit := Char.isDigit_iff_toNat.mp (Nat.isDigit_of_mem_toDigits (by decide) (by decide) member)
    simpa using digit
  rw [Int.repr_eq_if]
  split
  · exact fun c member => Or.inr (digits _ c member)
  · intro c member
    rw [String.toList_append] at member
    rcases List.mem_append.mp member with sign | digit
    · rw [List.mem_singleton.mp sign]
      exact Or.inl rfl
    · exact Or.inr (digits _ c digit)

theorem repr_bytes (z : Int) : ∀ c ∈ z.repr.toList, 0 < c.toNat ∧ c.toNat < 256 := by
  intro c member
  have characters := repr_characters z c member
  omega

/-- The number that is written with these digits, or with a sign in front of them. -/
def numeral : List Char → Int
  | [] => 0
  | first :: rest =>
    if first = '-' then -(Nat.ofDigitChars 10 rest 0 : Int) else Nat.ofDigitChars 10 (first :: rest) 0

theorem numeral_repr (z : Int) : numeral z.repr.toList = z := by
  rw [Int.repr_eq_if]
  split
  next positive =>
    have digits := Nat.ofDigitChars_ten_toDigits (n := z.toNat)
    have first (c : Char) (member : c ∈ Nat.toDigits 10 z.toNat) : c ≠ '-' := by
      rintro rfl
      exact absurd (Nat.isDigit_of_mem_toDigits (by decide) (by decide) member) (by decide)
    rw [Nat.toList_repr]
    cases texts : Nat.toDigits 10 z.toNat with
    | nil =>
      rw [texts] at digits
      simp only [Nat.ofDigitChars_nil] at digits
      simp only [numeral]
      omega
    | cons c rest =>
      rw [texts] at digits
      simp only [numeral, first c (by simp [texts]), if_false, digits]
      omega
  next negative =>
    rw [String.toList_append, Nat.toList_repr]
    simp only [String.reduceToList, List.cons_append, List.nil_append, numeral, if_true,
      Nat.ofDigitChars_ten_toDigits]
    omega

/-- A printed number is known up to the width that it is printed with. -/
theorem decimal_eq_iff (bits n m : Nat) :
    CString.decimal bits n = CString.decimal bits m ↔ n % 2 ^ bits = m % 2 ^ bits := by
  constructor
  · intro same
    have texts := congrArg (fun s : CString => s.text.map fun byte => Char.ofNat byte.val) same
    simp only [CString.decimal, Int.toString_eq_repr, read_ofString (repr_bytes _)] at texts
    have values := congrArg numeral texts
    rw [numeral_repr, numeral_repr] at values
    replace values := BitVec.eq_of_toInt_eq values
    simpa using congrArg BitVec.toNat values
  · intro same
    have values : BitVec.ofNat bits n = BitVec.ofNat bits m := BitVec.eq_of_toNat_eq (by simpa using same)
    rw [CString.decimal, CString.decimal, values]

end Decimals

end MicroRos
