import WhuOs.Fs.DirDefs
import WhuOs.Mem.Permissions

/-!
# Transfers between files and memory

`inode_read_data`, `inode_write_data` and `dir_get_entries` with the pointers
they copy to and from.  The kernel runs on its own page table and never sets
`SUM`, so its pointers are translated by that table and do not reach the pages
of user programs.  The buffers of the file system are kept apart from the other
bytes of memory, so `memmove` copies forward.
-/

namespace WhuOs
namespace Io

open Library
open Fs (FsM Slot EntryIndex direntPerBlock direntSize)
open Mem (MemM HasFlags pteR pteW pteU)
open Program (get modify)

/-- The file system and physical memory. -/
structure Machine where
  fs : Fs.State
  mem : Mem.State

namespace Machine

@[simps -fullyApplied] def setFs (fs : Fs.State) (machine : Machine) :
    Machine :=
  { machine with fs := fs }

@[simps -fullyApplied] def setMem (mem : Mem.State) (machine : Machine) :
    Machine :=
  { machine with mem := mem }

end Machine

/-- A program that uses files and memory. -/
abbrev IoM := Program Machine

/-- Run a file-system program. -/
def onFs {α : Type} (program : FsM α) : IoM α :=
  program.zoom Machine.fs Machine.setFs

/-- Run a program of the memory manager. -/
def onMem {α : Type} (program : MemM α) : IoM α :=
  program.zoom Machine.mem Machine.setMem

/-! ## Accesses of the kernel -/

/-- The physical address that the kernel reaches at an address, if the page has
some flags. -/
def kernelByte (mem : Mem.State) (flags va : UInt64) : Option UInt64 :=
  match Mem.translate mem.bytes mem.kernelPgtbl va with
  | some (pa, found) =>
      if HasFlags flags found ∧ ¬HasFlags pteU found then some pa else none
  | none => none

/-- Store a byte.  A page fault ends in the assertion of
`trap_kernel_handler`. -/
def storeByte (va : UInt64) (value : UInt8) : MemM Unit := do
  let mem ← get
  match kernelByte mem pteW va with
  | some pa => modify fun mem => mem.setBytes (Mem.setByte mem.bytes pa value)
  | none => Program.panic "Unhandled exception"

/-- Load a byte. -/
def loadByte (va : UInt64) : MemM UInt8 := do
  let mem ← get
  match kernelByte mem pteR va with
  | some pa => return mem.bytes pa.toNat
  | none => Program.panic "Unhandled exception"

/-- `memmove` from a buffer to a pointer. -/
def storeBytes : (dst : UInt64) → List UInt8 → MemM Unit
  | _, [] => return
  | dst, value :: rest => do
      storeByte dst value
      storeBytes (dst + 1) rest

/-- `memmove` from a pointer to a buffer. -/
def loadBytes : (src : UInt64) → (count : Nat) → MemM (List UInt8)
  | _, 0 => return []
  | src, count + 1 => do
      let value ← loadByte src
      let rest ← loadBytes (src + 1) count
      return value :: rest

/-- Copy to the caller.  Both branches are the same call of `memmove`. -/
def copyTo (user : Bool) (dst : UInt64) (piece : List UInt8) : IoM Unit :=
  if user then
    onMem (storeBytes dst piece)
  else
    onMem (storeBytes dst piece)

/-- Copy from the caller.  Both branches are the same call of `memmove`. -/
def copyFrom (user : Bool) (src : UInt64) (count : Nat) : IoM (List UInt8) :=
  if user then
    onMem (loadBytes src count)
  else
    onMem (loadBytes src count)

/-! ## Files -/

/-- The loop of `inode_read_data`.  It ends before `fuel` when `fuel` is at
least `len - total`. -/
def readLoop (ip : Slot) (offset len total : UInt32) (dst : UInt64)
    (user : Bool) : (fuel : Nat) → IoM UInt32
  | 0 => return total
  | fuel + 1 =>
      if total < len then do
        let blockOffset := (offset % 1024).toNat
        let blockNum ← onFs (Fs.inodeLocateBlock ip (offset / 1024))
        let toRead := Fs.pieceLength offset len total
        let data ← onFs (Fs.bufRead blockNum)
        copyTo user (dst + total.toUInt64) <|
          (List.range toRead.toNat).map fun index => data (blockOffset + index)
        onFs (Fs.bufRelease blockNum)
        readLoop ip (offset + toRead) len (total + toRead) dst user fuel
      else
        return total

/-- Read from an inode to a pointer. -/
def inodeReadData (ip : Slot) (offset len : UInt32) (dst : UInt64)
    (user : Bool) : IoM UInt32 := do
  let inode ← onFs (Fs.getInode ip)
  Program.assert inode.slk "inode_read_data: no lock"
  if offset ≥ inode.data.size then
    return 0
  else
    let len :=
      if offset + len > inode.data.size then inode.data.size - offset else len
    readLoop ip offset len 0 dst user len.toNat

/-- The loop of `inode_write_data`, with the offset it ends at. -/
def writeLoop (ip : Slot) (offset len total : UInt32) (src : UInt64)
    (user : Bool) : (fuel : Nat) → IoM (UInt32 × UInt32)
  | 0 => return (offset, total)
  | fuel + 1 =>
      if total < len then do
        let blockOffset := (offset % 1024).toNat
        let blockNum ← onFs (Fs.inodeLocateBlock ip (offset / 1024))
        let toWrite := Fs.pieceLength offset len total
        let data ← onFs (Fs.bufRead blockNum)
        let piece ← copyFrom user (src + total.toUInt64) toWrite.toNat
        onFs <| Fs.bufWrite blockNum <| Bytes.memmove data blockOffset
          (fun index => piece.getD index 0) toWrite.toNat
        onFs (Fs.bufRelease blockNum)
        writeLoop ip (offset + toWrite) len (total + toWrite) src user fuel
      else
        return (offset, total)

/-- Write to an inode from a pointer. -/
def inodeWriteData (ip : Slot) (offset len : UInt32) (src : UInt64)
    (user : Bool) : IoM UInt32 := do
  let inode ← onFs (Fs.getInode ip)
  Program.assert inode.slk "inode_write_data: no lock"
  if (offset + len).toNat > Fs.inodeMaxSize then
    return 0
  else
    let (offset, total) ← writeLoop ip offset len 0 src user len.toNat
    let inode ← onFs (Fs.getInode ip)
    if offset > inode.data.size then
      onFs (Fs.modifyData ip fun dinode => dinode.setSize offset)
      onFs (Fs.inodeRw ip true)
      return total
    else
      return total

/-! ## Directories -/

/-- The bytes of a directory entry. -/
def entryBytes (data : Block) (entry : EntryIndex) : List UInt8 :=
  (List.range direntSize).map fun index => data (direntSize * entry + index)

/-- The loop of `dir_get_entries`. -/
def entriesLoop (data : Block) (len : UInt32) (dst : UInt64) (user : Bool) :
    List EntryIndex → (copied : UInt32) → IoM UInt32
  | [], copied => return copied
  | entry :: rest, copied =>
      if copied.toNat + direntSize ≤ len.toNat then
        if Fs.entryName data entry ≠ [] then do
          copyTo user (dst + copied.toUInt64) (entryBytes data entry)
          entriesLoop data len dst user rest (copied + 32)
        else
          entriesLoop data len dst user rest copied
      else
        return copied

/-- Copy the entries in use, as many as fit into `len` bytes. -/
def dirGetEntries (pip : Slot) (len : UInt32) (dst : UInt64) (user : Bool) :
    IoM UInt32 := do
  let (blockNum, data) ← onFs (Fs.dirBlock pip "dir_get_entries")
  let copied ← entriesLoop data len dst user (List.finRange direntPerBlock) 0
  onFs (Fs.bufRelease blockNum)
  return copied

end Io
end WhuOs
