import Mathlib.Data.UInt
import WhuOs.Library.Copies

/-!
# `memmove`

The ranges may overlap.  If the target lies behind the start of the source and
before its end, the bytes are copied from the last to the first, and otherwise
from the first to the last.
-/

namespace WhuOs
namespace Lib

open Library

/-- The bytes of the address space. -/
abbrev Memory := UInt64 → UInt8

/-- `while(n-- > 0) *d++ = *s++;` -/
def moveUp (memory : Memory) (d s : UInt64) : (n : Nat) → Memory
  | 0 => memory
  | n + 1 =>
      moveUp (Function.update memory d (memory s)) (d + 1) (s + 1) n

/-- `while(n-- > 0) *--d = *--s;` -/
def moveDown (memory : Memory) (d s : UInt64) : (n : Nat) → Memory
  | 0 => memory
  | n + 1 =>
      moveDown (Function.update memory (d - 1) (memory (s - 1))) (d - 1) (s - 1)
        n

/-- `memmove`.  The result is the memory and the returned pointer. -/
def memmove (memory : Memory) (dst src : UInt64) (n : UInt32) :
    Memory × UInt64 :=
  if n = 0 then
    (memory, dst)
  else if src < dst ∧ src + n.toUInt64 > dst then
    (moveDown memory (dst + n.toUInt64) (src + n.toUInt64) n.toNat, dst)
  else
    (moveUp memory dst src n.toNat, dst)

variable {memory : Memory} {d s : UInt64}

/-! ## The loops -/

/-- The copies of the bytes with given offsets. -/
def offsets (d s : UInt64) (indices : List Nat) : List (UInt64 × UInt64) :=
  indices.map fun i => (d + UInt64.ofNat i, s + UInt64.ofNat i)

theorem add_ofNat_zero (address : UInt64) : address + UInt64.ofNat 0 = address :=
  UInt64.add_zero address

theorem add_ofNat_succ (address : UInt64) (i : Nat) :
    address + UInt64.ofNat (i + 1) = address + 1 + UInt64.ofNat i := by
  rw [UInt64.ofNat_add, UInt64.add_comm (UInt64.ofNat i), UInt64.add_assoc]
  rfl

/-- Copying forward starts with the first byte. -/
theorem moveUp_eq (n : Nat) :
    moveUp memory d s n = copyAll memory (offsets d s (List.range n)) := by
  induction n generalizing memory d s with
  | zero => rfl
  | succ n inductionHypothesis =>
      have later : (List.range n).map (fun i =>
          (d + UInt64.ofNat (i + 1), s + UInt64.ofNat (i + 1))) =
            offsets (d + 1) (s + 1) (List.range n) :=
        List.map_congr_left fun i _ => by
          rw [add_ofNat_succ, add_ofNat_succ]
      unfold offsets
      rw [List.range_succ_eq_map, List.map_cons, List.map_map, moveUp,
        inductionHypothesis, ← later]
      simp only [copyAll, add_ofNat_zero, Function.comp_def, Nat.succ_eq_add_one]

/-- Copying backward starts with the last byte. -/
theorem moveDown_eq (n : Nat) :
    moveDown memory (d + UInt64.ofNat n) (s + UInt64.ofNat n) n =
      copyAll memory (offsets d s (List.range n).reverse) := by
  induction n generalizing memory with
  | zero => rfl
  | succ n inductionHypothesis =>
      have before : ∀ address : UInt64,
          address + UInt64.ofNat (n + 1) - 1 = address + UInt64.ofNat n := by
        intro address
        rw [UInt64.ofNat_add, ← UInt64.add_assoc]
        exact UInt64.add_sub_cancel _ _
      unfold offsets
      rw [List.range_succ, List.reverse_append, List.reverse_singleton,
        List.singleton_append, List.map_cons, moveDown, before, before,
        inductionHypothesis]
      rfl

/-! ## Overlaps -/

section Ranges

variable {n : Nat}

theorem toNat_add_ofNat
    {address : UInt64} {i : Nat} (fits : address.toNat + n ≤ 2 ^ 64)
    (bound : i < n) :
    (address + UInt64.ofNat i).toNat = address.toNat + i := by
  rw [UInt64.toNat_add, UInt64.toNat_ofNat']
  omega

variable (dstFits : d.toNat + n ≤ 2 ^ 64) (srcFits : s.toNat + n ≤ 2 ^ 64)

include dstFits srcFits

/-- Two bytes do not conflict if the first target is neither the other target
nor the other source. -/
theorem offsets_apart
    {i j : Nat} (bound : i < n) (bound' : j < n) (differ : i ≠ j)
    (apart : d.toNat + i ≠ s.toNat + j) :
    d + UInt64.ofNat i ≠ d + UInt64.ofNat j ∧
      d + UInt64.ofNat i ≠ s + UInt64.ofNat j := by
  constructor
  · intro same
    have equal := congrArg UInt64.toNat same
    rw [toNat_add_ofNat dstFits bound, toNat_add_ofNat dstFits bound'] at equal
    omega
  · intro same
    have equal := congrArg UInt64.toNat same
    rw [toNat_add_ofNat dstFits bound, toNat_add_ofNat srcFits bound'] at equal
    exact apart equal

/-- Copying forward is in order unless the target starts inside the source. -/
theorem ordered_up
    (outside : ¬(s.toNat < d.toNat ∧ d.toNat < s.toNat + n)) :
    Ordered (offsets d s (List.range n)) := by
  unfold Ordered offsets
  rw [List.pairwise_map]
  refine List.pairwise_lt_range.imp_of_mem fun member member' before => ?_
  have bound := List.mem_range.mp member
  have bound' := List.mem_range.mp member'
  exact offsets_apart dstFits srcFits bound bound' (by omega) (by omega)

/-- Copying backward is in order if the target starts inside the source. -/
theorem ordered_down (inside : s.toNat < d.toNat) :
    Ordered (offsets d s (List.range n).reverse) := by
  unfold Ordered offsets
  rw [List.pairwise_map, List.pairwise_reverse]
  refine List.pairwise_lt_range.imp_of_mem fun member member' before => ?_
  have bound := List.mem_range.mp member
  have bound' := List.mem_range.mp member'
  exact offsets_apart dstFits srcFits bound' bound (by omega) (by omega)

end Ranges

/-! ## The call -/

/-- The bytes of the source are at the target, and no other byte changed. -/
structure Moves (memory after : Memory) (dst src : UInt64) (n : Nat) :
    Prop where
  moved : ∀ i < n, after (dst + UInt64.ofNat i) = memory (src + UInt64.ofNat i)
  others : ∀ address : UInt64,
    ¬(dst.toNat ≤ address.toNat ∧ address.toNat < dst.toNat + n) →
    after address = memory address

/-- Copies of all offsets in an order without conflicts. -/
theorem moves_of_ordered
    {n : Nat} {indices : List Nat} (fits : d.toNat + n ≤ 2 ^ 64)
    (all : ∀ i, i ∈ indices ↔ i < n) (ordered : Ordered (offsets d s indices)) :
    Moves memory (copyAll memory (offsets d s indices)) d s n := by
  refine ⟨fun i bound => ?_, fun address outside => ?_⟩
  · have member : (d + UInt64.ofNat i, s + UInt64.ofNat i) ∈
        offsets d s indices := List.mem_map.mpr ⟨i, (all i).mpr bound, rfl⟩
    exact copyAll_of_mem ordered member
  · refine copyAll_of_not_mem fun copy member same => outside ?_
    obtain ⟨i, listed, rfl⟩ := List.mem_map.mp member
    have bound := (all i).mp listed
    rw [← same, toNat_add_ofNat fits bound]
    omega

/-- `memmove` copies whether or not the ranges overlap. -/
theorem memmove_moves
    (memory : Memory) {dst src : UInt64} {n : UInt32}
    (dstFits : dst.toNat + n.toNat ≤ 2 ^ 64)
    (srcFits : src.toNat + n.toNat ≤ 2 ^ 64) :
    Moves memory (memmove memory dst src n).1 dst src n.toNat ∧
      (memmove memory dst src n).2 = dst := by
  have length : n.toUInt64 = UInt64.ofNat n.toNat := by
    apply UInt64.toNat_inj.mp
    have bound := n.toNat_lt
    rw [UInt32.toNat_toUInt64, UInt64.toNat_ofNat']
    omega
  unfold memmove
  by_cases none : n = 0
  · rw [if_pos none, none]
    exact ⟨⟨fun i bound => absurd bound (Nat.not_lt_zero i), fun _ _ => rfl⟩,
      rfl⟩
  · rw [if_neg none]
    by_cases behind : src < dst ∧ src + n.toUInt64 > dst
    · rw [if_pos behind, length, moveDown_eq]
      refine ⟨moves_of_ordered dstFits (fun i => ?_) (ordered_down dstFits
        srcFits (UInt64.lt_iff_toNat_lt.mp behind.1)), rfl⟩
      rw [List.mem_reverse, List.mem_range]
    · rw [if_neg behind, moveUp_eq]
      refine ⟨moves_of_ordered dstFits (fun i => List.mem_range) (ordered_up
        dstFits srcFits fun inside => behind ⟨?_, ?_⟩), rfl⟩
      · exact UInt64.lt_iff_toNat_lt.mpr inside.1
      · -- The source ends before the target, which does not wrap.
        refine UInt64.lt_iff_toNat_lt.mpr ?_
        rw [UInt64.toNat_add, UInt32.toNat_toUInt64]
        omega

/-- The target overlaps the end of the source. -/
theorem memmove_moves_overlap :
    Moves (fun address => address.toUInt8)
      (memmove (fun address => address.toUInt8) 0x80000002 0x80000000 3).1
      0x80000002 0x80000000 3 ∧
      (memmove (fun address => address.toUInt8) 0x80000002 0x80000000 3).1
        0x80000003 = 1 := by
  have moves : Moves _ (memmove _ 0x80000002 0x80000000 3).1 _ _ _ :=
    (memmove_moves (fun address => address.toUInt8) (by decide) (by decide)).1
  exact ⟨moves, moves.moved 1 (by decide)⟩

end Lib
end WhuOs
