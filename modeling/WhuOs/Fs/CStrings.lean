import Mathlib.Data.List.GetD
import WhuOs.Fs.Entries

/-!
# Strings of directory entries

The functions of `string.c` that `dir.c` uses.  They agree with the description
of entries by the bytes of a name before its terminating zero.
-/

namespace WhuOs
namespace Fs

open Library
open Library.Bytes

/-- A string in memory from an address on. -/
def CString.byte (name : CString) (index : Nat) : UInt8 :=
  name.bytes.getD index 0

/-- `strlen`, for strings that end within the fuel. -/
def strlen : (fuel : Nat) → (s : Nat → UInt8) → Nat
  | 0, _ => 0
  | fuel + 1, s => if s 0 ≠ 0 then strlen fuel (fun i => s (i + 1)) + 1 else 0

/-- `strncmp`. -/
def strncmp (p q : Nat → UInt8) : (n : Nat) → Int
  | 0 => 0
  | n + 1 =>
      if p 0 ≠ 0 ∧ p 0 = q 0 then
        strncmp (fun i => p (i + 1)) (fun i => q (i + 1)) n
      else
        (p 0).toNat - (q 0).toNat

/-- The bytes that `strncpy` stores. -/
def strncpy (t : Nat → UInt8) : (n : Nat) → List UInt8
  | 0 => []
  | n + 1 =>
      if t 0 ≠ 0 then t 0 :: strncpy (fun i => t (i + 1)) n
      else 0 :: List.replicate n 0

/-- The bytes of a string before the first zero, at most `n`. -/
def spelling (s : Nat → UInt8) (n : Nat) : List UInt8 :=
  ((List.range n).map s).takeWhile (· ≠ 0)

theorem spelling_succ (s : Nat → UInt8) (n : Nat) :
    spelling s (n + 1) =
      if s 0 ≠ 0 then s 0 :: spelling (fun i => s (i + 1)) n else [] := by
  unfold spelling
  rw [List.range_succ_eq_map, List.map_cons, List.takeWhile_cons, List.map_map]
  simp only [ne_eq, decide_eq_true_eq]
  rfl

/-- Two strings compare equal if they have the same bytes before their first
zero or the limit. -/
theorem strncmp_eq_zero_iff (p q : Nat → UInt8) (n : Nat) :
    strncmp p q n = 0 ↔ spelling p n = spelling q n := by
  induction n generalizing p q with
  | zero => exact iff_of_true rfl rfl
  | succ n inductionHypothesis =>
      have sameByte : ((p 0).toNat : Int) - (q 0).toNat = 0 ↔ p 0 = q 0 := by
        rw [← UInt8.toNat_inj]
        omega
      rw [spelling_succ, spelling_succ]
      unfold strncmp
      by_cases ends : p 0 = 0 <;> by_cases ends' : q 0 = 0
      · simp [ends, ends']
      · rw [if_neg fun both => both.1 ends, if_neg fun some => some ends,
          if_pos ends', sameByte, ends]
        exact iff_of_false (fun same => ends' same.symm) nofun
      · rw [if_neg fun both => ends (both.2.trans ends'), if_pos ends,
          if_neg fun some => some ends', sameByte, ends']
        exact iff_of_false ends nofun
      · rw [if_pos ends, if_pos ends']
        by_cases same : p 0 = q 0
        · rw [if_pos ⟨ends, same⟩, inductionHypothesis, same]
          exact ⟨congrArg _, fun equal => (List.cons.inj equal).2⟩
        · rw [if_neg fun both => same both.2, sameByte]
          exact iff_of_false same fun equal => same (List.cons.inj equal).1

/-- A copy has the bytes of the string, and zeros up to the limit. -/
theorem strncpy_eq (t : Nat → UInt8) (n : Nat) :
    strncpy t n = spelling t n ++
      List.replicate (n - (spelling t n).length) 0 := by
  induction n generalizing t with
  | zero => rfl
  | succ n inductionHypothesis =>
      rw [spelling_succ]
      unfold strncpy
      by_cases ends : t 0 = 0
      · rw [if_neg fun some => some ends, if_neg fun some => some ends]
        rfl
      · rw [if_pos ends, if_pos ends, inductionHypothesis, List.cons_append,
          List.length_cons, Nat.add_sub_add_right]

theorem spelling_getD {bytes : List UInt8} (noNul : 0 ∉ bytes) (n : Nat) :
    spelling (fun index => bytes.getD index 0) n = bytes.take n := by
  induction n generalizing bytes with
  | zero => rfl
  | succ n inductionHypothesis =>
      rw [spelling_succ]
      cases bytes with
      | nil => rfl
      | cons byte rest =>
          have notNul : byte ≠ 0 := fun isNul =>
            noNul (isNul ▸ List.mem_cons_self)
          rw [List.take_succ_cons, List.getD_cons_zero, if_pos notNul,
            ← inductionHypothesis fun member =>
              noNul (List.mem_cons_of_mem byte member)]
          rfl

theorem CString.spelling_byte (name : CString) (n : Nat) :
    spelling name.byte n = name.bytes.take n :=
  spelling_getD name.noNul n

theorem strlen_getD {bytes : List UInt8} (noNul : 0 ∉ bytes) :
    strlen (bytes.length + 1) (fun index => bytes.getD index 0) =
      bytes.length := by
  induction bytes with
  | nil => rfl
  | cons byte rest inductionHypothesis =>
      have notNul : byte ≠ 0 := fun isNul => noNul (isNul ▸ List.mem_cons_self)
      rw [List.length_cons]
      unfold strlen
      exact (if_pos notNul).trans (congrArg (· + 1) (inductionHypothesis
        fun member => noNul (List.mem_cons_of_mem byte member)))

theorem CString.strlen_byte (name : CString) :
    strlen (name.bytes.length + 1) name.byte = name.bytes.length :=
  strlen_getD name.noNul

/-! ## Entries -/

theorem entryName_eq_spelling (data : Block) (entry : EntryIndex) :
    entryName data entry =
      spelling (fun index => data (direntSize * entry + 2 + index))
        dirNameLen := rfl

/-- An entry matches a name as `strncmp` tells. -/
theorem matchesName_iff_strncmp
    (data : Block) (name : CString) (entry : EntryIndex) :
    matchesName data name entry = true ↔
      data (direntSize * entry + 2) ≠ 0 ∧
        strncmp (fun index => data (direntSize * entry + 2 + index)) name.byte
          dirNameLen = 0 := by
  have first : entryName data entry ≠ [] ↔
      data (direntSize * entry + 2) ≠ 0 := by
    rw [entryName_eq_spelling, spelling_succ, Nat.add_zero]
    split
    · next some => exact iff_of_true (List.cons_ne_nil _ _) some
    · next none => exact iff_of_false (fun some => some rfl) none
  rw [strncmp_eq_zero_iff, name.spelling_byte, ← entryName_eq_spelling, ← first]
  unfold matchesName
  exact decide_eq_true_iff

/-- The name of an entry is stored by `strncpy`, and ends with a zero. -/
theorem storeEntry_eq_strncpy
    (data : Block) (entry : EntryIndex) (inodeNum : UInt16) (name : CString)
    {index : Nat} (bound : index < dirNameLen) :
    storeEntry data entry inodeNum name (direntSize * entry + 2 + index) =
      if index = dirNameLen - 1 then 0
      else (strncpy name.byte dirNameLen).getD index 0 := by
  unfold storeEntry
  rw [memmove_of_mem _ _ ⟨Nat.le_add_right _ _, Nat.add_lt_add_left bound _⟩,
    Nat.add_sub_cancel_left]
  split
  · rfl
  · rw [strncpy_eq, name.spelling_byte]
    by_cases inside : index < name.bytes.length
    · have copied : index < (name.bytes.take dirNameLen).length := by
        rw [List.length_take]
        omega
      rw [List.getD_append _ _ _ _ copied, List.getD_eq_getElem _ _ inside,
        List.getD_eq_getElem _ _ copied, List.getElem_take]
    · have ends : name.bytes.length ≤ index := Nat.le_of_not_lt inside
      have copied : (name.bytes.take dirNameLen).length ≤ index := by
        rw [List.length_take]
        omega
      rw [List.getD_append_right _ _ _ _ copied, List.getD_eq_default _ _ ends,
        List.getD_eq_getElem?_getD]
      exact (List.getElem?_getD_replicate_default_eq _ _ _).symm

end Fs
end WhuOs
