import Mathlib.Data.Nat.Bitwise
import Mathlib.Tactic.IntervalCases
import WhuOs.Fs.Defs

/-!
# Bits of a bitmap block

Reading a bit after setting or clearing another, and the first clear bit.
-/

namespace WhuOs
namespace Fs

theorem mask_toNat {bit : Nat} (bound : bit < 8) :
    ((1 : UInt8) <<< UInt8.ofNat bit).toNat = 2 ^ bit := by
  interval_cases bit <;> rfl

theorem not_mask_testBit {bit other : Nat} (bound : bit < 8)
    (otherBound : other < 8) :
    (~~~((1 : UInt8) <<< UInt8.ofNat bit)).toNat.testBit other =
      decide (other ≠ bit) := by
  interval_cases bit <;> interval_cases other <;> rfl

theorem bitAt_eq_testBit (data : Block) (number : Nat) :
    bitAt data number = (data (number / 8)).toNat.testBit (number % 8) := by
  have bound := Nat.mod_lt number (show 8 > 0 by decide)
  have zero : data (number / 8) &&& (1 <<< UInt8.ofNat (number % 8)) = 0 ↔
      (data (number / 8)).toNat &&& 2 ^ (number % 8) = 0 := by
    rw [← mask_toNat bound, ← UInt8.toNat_and, ← UInt8.toNat_inj]
    rfl
  have positive := Nat.two_pow_pos (number % 8)
  unfold bitAt
  simp only [ne_eq, zero, Nat.and_two_pow]
  cases (data (number / 8)).toNat.testBit (number % 8) with
  | false => simp
  | true => simp

/-- Setting a bit sets this bit and no other. -/
theorem bitAt_setBit (data : Block) (number other : Nat) :
    bitAt (setBit data number) other =
      (decide (other = number) || bitAt data other) := by
  have bound := Nat.mod_lt number (show 8 > 0 by decide)
  simp only [bitAt_eq_testBit, setBit]
  by_cases sameByte : other / 8 = number / 8
  · rw [sameByte, Function.update_self, UInt8.toNat_or, Nat.testBit_or,
      mask_toNat bound, Nat.testBit_two_pow, Bool.or_comm]
    congr 1
    rw [decide_eq_decide]
    omega
  · have different : other ≠ number := by
      rintro rfl
      exact sameByte rfl
    rw [Function.update_of_ne sameByte]
    simp [different]

/-- Clearing a bit clears this bit and no other. -/
theorem bitAt_clearBit (data : Block) (number other : Nat) :
    bitAt (clearBit data number) other =
      (decide (other ≠ number) && bitAt data other) := by
  have bound := Nat.mod_lt number (show 8 > 0 by decide)
  have otherBound := Nat.mod_lt other (show 8 > 0 by decide)
  simp only [bitAt_eq_testBit, clearBit]
  by_cases sameByte : other / 8 = number / 8
  · rw [sameByte, Function.update_self, UInt8.toNat_and, Nat.testBit_and,
      not_mask_testBit bound otherBound, Bool.and_comm]
    congr 1
    rw [decide_eq_decide]
    omega
  · have different : other ≠ number := by
      rintro rfl
      exact sameByte rfl
    rw [Function.update_of_ne sameByte]
    simp [different]

/-- All bits of a byte of ones are set. -/
theorem bitAt_of_ones
    {data : Block} {number : Nat}
    (ones : data (number / 8) = 0xFF) :
    bitAt data number = true := by
  have bound := Nat.mod_lt number (show 8 > 0 by decide)
  rw [bitAt_eq_testBit, ones]
  generalize number % 8 = bit at bound
  interval_cases bit <;> rfl

/-- A byte whose bits are all set is a byte of ones. -/
theorem ones_of_bitAt
    {data : Block} {byte : Nat}
    (set : ∀ bit < 8, bitAt data (byte * 8 + bit) = true) :
    data byte = 0xFF := by
  apply UInt8.toNat_inj.mp
  apply Nat.eq_of_testBit_eq
  intro bit
  by_cases small : bit < 8
  · have isSet := set bit small
    rw [bitAt_eq_testBit, show (byte * 8 + bit) / 8 = byte by omega,
      show (byte * 8 + bit) % 8 = bit by omega] at isSet
    rw [isSet]
    interval_cases bit <;> rfl
  · have large : 2 ^ 8 ≤ 2 ^ bit := Nat.pow_le_pow_right (by decide) (by omega)
    rw [Nat.testBit_lt_two_pow
      (Nat.lt_of_lt_of_le (data byte).toNat_lt large),
      Nat.testBit_lt_two_pow (Nat.lt_of_lt_of_le (by decide) large)]

/-- The first clear bit is clear, and all bits before it are set. -/
theorem firstClear_eq_some
    {data : Block} {number : Nat}
    (found : firstClear data = some number) :
    number < dataBlocks ∧ bitAt data number = false ∧
      ∀ other < number, bitAt data other = true := by
  unfold firstClear at found
  split at found
  · next byte firstByte =>
    rw [List.find?_range_eq_some] at firstByte
    obtain ⟨notOnes, inside, before⟩ := firstByte
    obtain ⟨bit, firstBit, rfl⟩ := Option.map_eq_some_iff.mp found
    rw [List.find?_range_eq_some] at firstBit
    obtain ⟨isClear, small, bitsBefore⟩ := firstBit
    have sizes : blockSize = 1024 ∧ dataBlocks = 8192 := ⟨rfl, rfl⟩
    rw [List.mem_range] at inside small
    refine ⟨by omega, by simpa using isClear, fun other smaller => ?_⟩
    by_cases sameByte : other / 8 = byte
    · have isSet := bitsBefore (other % 8) (by omega)
      rw [show byte * 8 + other % 8 = other by omega] at isSet
      simpa using isSet
    · apply bitAt_of_ones
      have ones := before (other / 8) (by omega)
      simpa using ones
  · cases found

/-- Without a clear bit all bits are set. -/
theorem firstClear_eq_none
    {data : Block}
    (full : firstClear data = none)
    {number : Nat} (bound : number < dataBlocks) :
    bitAt data number = true := by
  have sizes : blockSize = 1024 ∧ dataBlocks = 8192 := ⟨rfl, rfl⟩
  unfold firstClear at full
  split at full
  · next byte firstByte =>
    rw [List.find?_range_eq_some] at firstByte
    rw [Option.map_eq_none_iff, List.find?_eq_none] at full
    have notOnes := firstByte.1
    have ones : data byte = 0xFF := by
      apply ones_of_bitAt
      intro bit small
      have isSet := full bit (List.mem_range.mpr small)
      simpa using isSet
    simp [ones] at notOnes
  · next allOnes =>
    rw [List.find?_eq_none] at allOnes
    apply bitAt_of_ones
    have ones := allOnes (number / 8) (List.mem_range.mpr (by omega))
    simpa using ones

end Fs
end WhuOs
