import Mathlib.Data.UInt
import Mathlib.Data.Nat.Basic
import Mathlib.Tactic.IntervalCases

/-!
# Byte-addressed memory

Little-endian fields and copies in a memory given by its bytes.
-/

namespace Library

/-- A memory, by address. -/
abbrev Bytes := Nat → UInt8

namespace Bytes

/-- The little-endian byte of a number. -/
def byteOf (number index : Nat) : UInt8 :=
  UInt8.ofNat (number / 256 ^ index)

/-- Read a 16-bit field. -/
def read16 (bytes : Bytes) (address : Nat) : UInt16 :=
  UInt16.ofNat ((bytes address).toNat + 256 * (bytes (address + 1)).toNat)

/-- Read a 32-bit field. -/
def read32 (bytes : Bytes) (address : Nat) : UInt32 :=
  UInt32.ofNat ((bytes address).toNat + 256 * (bytes (address + 1)).toNat +
    65536 * (bytes (address + 2)).toNat +
    16777216 * (bytes (address + 3)).toNat)

/-- Read a 64-bit field. -/
def read64 (bytes : Bytes) (address : Nat) : UInt64 :=
  UInt64.ofNat ((read32 bytes address).toNat +
    4294967296 * (read32 bytes (address + 4)).toNat)

/-- Copy a number of bytes from a source. -/
def memmove (bytes : Bytes) (address : Nat) (source : Bytes) (length : Nat) :
    Bytes :=
  fun index => if address ≤ index ∧ index < address + length then
    source (index - address) else bytes index

/-- Write a 16-bit field. -/
def write16 (bytes : Bytes) (address : Nat) (value : UInt16) : Bytes :=
  memmove bytes address (byteOf value.toNat) 2

/-- Write a 32-bit field. -/
def write32 (bytes : Bytes) (address : Nat) (value : UInt32) : Bytes :=
  memmove bytes address (byteOf value.toNat) 4

/-- Write a 64-bit field. -/
def write64 (bytes : Bytes) (address : Nat) (value : UInt64) : Bytes :=
  memmove bytes address (byteOf value.toNat) 8

theorem memmove_of_mem
    (bytes source : Bytes) {address length index : Nat}
    (inside : address ≤ index ∧ index < address + length) :
    memmove bytes address source length index = source (index - address) :=
  if_pos inside

theorem memmove_of_not_mem
    (bytes source : Bytes) {address length index : Nat}
    (outside : ¬(address ≤ index ∧ index < address + length)) :
    memmove bytes address source length index = bytes index :=
  if_neg outside

/-- Reading depends only on the bytes of the field. -/
theorem read16_congr
    {bytes bytes' : Bytes} {address address' : Nat}
    (same : ∀ index < 2, bytes (address + index) =
      bytes' (address' + index)) :
    read16 bytes address = read16 bytes' address' := by
  have first := same 0 (by decide)
  have second := same 1 (by decide)
  simp only [Nat.add_zero] at first
  unfold read16
  rw [first, second]

/-- Reading depends only on the bytes of the field. -/
theorem read32_congr
    {bytes bytes' : Bytes} {address address' : Nat}
    (same : ∀ index < 4, bytes (address + index) =
      bytes' (address' + index)) :
    read32 bytes address = read32 bytes' address' := by
  have first := same 0 (by decide)
  have second := same 1 (by decide)
  have third := same 2 (by decide)
  have fourth := same 3 (by decide)
  simp only [Nat.add_zero] at first
  unfold read32
  rw [first, second, third, fourth]

/-- Reading depends only on the bytes of the field. -/
theorem read64_congr
    {bytes bytes' : Bytes} {address address' : Nat}
    (same : ∀ index < 8, bytes (address + index) =
      bytes' (address' + index)) :
    read64 bytes address = read64 bytes' address' := by
  have low : read32 bytes address = read32 bytes' address' :=
    read32_congr fun index bound => same index (by omega)
  have high : read32 bytes (address + 4) = read32 bytes' (address' + 4) := by
    apply read32_congr
    intro index bound
    rw [Nat.add_assoc, Nat.add_assoc]
    exact same (4 + index) (by omega)
  unfold read64
  rw [low, high]

theorem byteOf_toNat (number index : Nat) :
    (byteOf number index).toNat = number / 256 ^ index % 256 :=
  UInt8.toNat_ofNat'

/-- The bytes of a 16-bit number spell the number. -/
theorem read16_of_byteOf
    {bytes : Bytes} {address : Nat} {value : UInt16}
    (spelled : ∀ index < 2, bytes (address + index) =
      byteOf value.toNat index) :
    read16 bytes address = value := by
  have first := spelled 0 (by decide)
  have second := spelled 1 (by decide)
  have bound := value.toNat_lt
  simp only [Nat.add_zero] at first
  apply UInt16.toNat_inj.mp
  unfold read16
  rw [first, second, UInt16.toNat_ofNat', byteOf_toNat, byteOf_toNat]
  omega

/-- The bytes of a 32-bit number spell the number. -/
theorem read32_of_byteOf
    {bytes : Bytes} {address : Nat} {value : UInt32}
    (spelled : ∀ index < 4, bytes (address + index) =
      byteOf value.toNat index) :
    read32 bytes address = value := by
  have first := spelled 0 (by decide)
  have second := spelled 1 (by decide)
  have third := spelled 2 (by decide)
  have fourth := spelled 3 (by decide)
  have bound := value.toNat_lt
  simp only [Nat.add_zero] at first
  apply UInt32.toNat_inj.mp
  unfold read32
  rw [first, second, third, fourth, UInt32.toNat_ofNat', byteOf_toNat,
    byteOf_toNat, byteOf_toNat, byteOf_toNat]
  omega

/-- The bytes of a 64-bit number spell the number. -/
theorem read64_of_byteOf
    {bytes : Bytes} {address : Nat} {value : UInt64}
    (spelled : ∀ index < 8, bytes (address + index) =
      byteOf value.toNat index) :
    read64 bytes address = value := by
  have low : read32 bytes address = UInt32.ofNat value.toNat := by
    apply read32_of_byteOf
    intro index bound
    rw [spelled index (by omega)]
    apply UInt8.toNat_inj.mp
    rw [byteOf_toNat, byteOf_toNat, UInt32.toNat_ofNat']
    interval_cases index <;> omega
  have high : read32 bytes (address + 4) =
      UInt32.ofNat (value.toNat / 4294967296) := by
    apply read32_of_byteOf
    intro index bound
    rw [Nat.add_assoc, spelled (4 + index) (by omega)]
    apply UInt8.toNat_inj.mp
    rw [byteOf_toNat, byteOf_toNat, UInt32.toNat_ofNat']
    interval_cases index <;> omega
  have bound := value.toNat_lt
  apply UInt64.toNat_inj.mp
  unfold read64
  rw [low, high, UInt64.toNat_ofNat', UInt32.toNat_ofNat',
    UInt32.toNat_ofNat']
  omega

/-- A field that was written reads back. -/
theorem read64_write64
    (bytes : Bytes) (address : Nat) (value : UInt64) :
    read64 (write64 bytes address value) address = value := by
  apply read64_of_byteOf
  intro index bound
  unfold write64
  rw [memmove_of_mem _ _ (by omega), Nat.add_sub_cancel_left]

/-- A field that was written reads back. -/
theorem read32_write32
    (bytes : Bytes) (address : Nat) (value : UInt32) :
    read32 (write32 bytes address value) address = value := by
  apply read32_of_byteOf
  intro index bound
  unfold write32
  rw [memmove_of_mem _ _ (by omega), Nat.add_sub_cancel_left]

/-- Writing back what was read changes nothing. -/
theorem write32_read32 (bytes : Bytes) (address : Nat) :
    write32 bytes address (read32 bytes address) = bytes := by
  have first := (bytes address).toNat_lt
  have second := (bytes (address + 1)).toNat_lt
  have third := (bytes (address + 2)).toNat_lt
  have fourth := (bytes (address + 3)).toNat_lt
  funext index
  unfold write32
  by_cases inside : address ≤ index ∧ index < address + 4
  · obtain ⟨offset, rfl⟩ := Nat.exists_eq_add_of_le inside.1
    have small : offset < 4 := by omega
    rw [memmove_of_mem _ _ inside, Nat.add_sub_cancel_left]
    apply UInt8.toNat_inj.mp
    rw [byteOf_toNat]
    unfold read32
    rw [UInt32.toNat_ofNat']
    interval_cases offset
    · show _ = (bytes address).toNat
      omega
    · omega
    · omega
    · omega
  · rw [memmove_of_not_mem _ _ inside]

/-- A field in a range that was cleared. -/
theorem read64_cleared
    (bytes : Bytes) {address length field : Nat}
    (inside : address ≤ field ∧ field + 8 ≤ address + length) :
    read64 (memmove bytes address (fun _ => 0) length) field = 0 := by
  apply read64_of_byteOf
  intro index bound
  rw [memmove_of_mem _ _ (by omega)]
  unfold byteOf
  rw [UInt64.toNat_zero, Nat.zero_div]
  rfl

/-- A field outside a copied range is unchanged. -/
theorem read64_memmove_of_disjoint
    (bytes source : Bytes) {address length field : Nat}
    (disjoint : field + 8 ≤ address ∨ address + length ≤ field) :
    read64 (memmove bytes address source length) field =
      read64 bytes field := by
  apply read64_congr
  intro index bound
  exact memmove_of_not_mem _ _ (by omega)

/-- A field outside a copied range is unchanged. -/
theorem read32_memmove_of_disjoint
    (bytes source : Bytes) {address length field : Nat}
    (disjoint : field + 4 ≤ address ∨ address + length ≤ field) :
    read32 (memmove bytes address source length) field =
      read32 bytes field := by
  apply read32_congr
  intro index bound
  exact memmove_of_not_mem _ _ (by omega)

/-- A field outside a copied range is unchanged. -/
theorem read16_memmove_of_disjoint
    (bytes source : Bytes) {address length field : Nat}
    (disjoint : field + 2 ≤ address ∨ address + length ≤ field) :
    read16 (memmove bytes address source length) field =
      read16 bytes field := by
  apply read16_congr
  intro index bound
  exact memmove_of_not_mem _ _ (by omega)

end Bytes
end Library
