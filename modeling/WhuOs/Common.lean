import Mathlib.Data.UInt
import Mathlib.Data.Fintype.Basic

/-!
# Shared constants and data types

The numeric constants of `common.h` and the byte-level representation of a
disk block.
-/

namespace WhuOs

/-- Bytes in a disk block. -/
abbrev blockSize : Nat := 1024

/-- Slots of the process table. -/
abbrev nProc : Nat := 64

instance : NeZero nProc := ⟨by decide⟩

/-- `NCPU`. -/
abbrev nCpu : Nat := 2

instance : NeZero nCpu := ⟨by decide⟩

/-- A slot of the process table. -/
abbrev Pid := Fin nProc

/-- The bytes of a block, by offset.  Only offsets below `blockSize` are ever
read or written. -/
abbrev Block := Nat → UInt8

/-- The all-zero block. -/
def zeroBlock : Block := fun _ => 0

end WhuOs
