import Mathlib.Tactic.Simps.Basic
import WhuOs.Buf.Defs
import WhuOs.Library.Bytes
import WhuOs.Library.Program

/-!
# Blocks, bitmaps and inodes

The functions of `bitmap.c` and `inode.c` over the contents of the disk.  A
buffer is unbound when its last reference is released and `buf_write` writes
through, so between calls the cache holds no data of its own: the state keeps
the disk and the numbers of the blocks whose buffers are locked.  Each disk
transfer is a point where the process waits.
-/

namespace WhuOs
namespace Fs

open Library
open Library.Bytes

/-! ## Layout -/

/-- `sb.inode_bitmap_start`. -/
def inodeBitmapStart : UInt32 := 1

/-- `sb.inode_start`. -/
def inodeStart : UInt32 := 2

/-- `sb.data_bitmap_start`. -/
def dataBitmapStart : UInt32 := 130

/-- `sb.data_start`. -/
def dataStart : UInt32 := 131

/-- `sb.data_blocks`. -/
abbrev dataBlocks : Nat := 8192

/-- `sb.total_blocks`. -/
abbrev totalBlocks : Nat := 8323

/-- Bytes of an inode on disk. -/
abbrev inodeDiskSize : Nat := 64

/-- Inodes in a block. -/
abbrev inodePerBlock : Nat := 16

/-- Direct block numbers of an inode. -/
abbrev nAddrs1 : Nat := 10

/-- Single-indirect block numbers of an inode. -/
abbrev nAddrs2 : Nat := 2

/-- Block numbers of an inode. -/
abbrev nAddrs : Nat := 13

instance : NeZero nAddrs := ⟨by decide⟩

/-- Block numbers in an index block. -/
abbrev entryPerBlock : Nat := 256

/-- `INODE_MAXSIZE`. -/
abbrev inodeMaxSize : Nat := 67643392

/-- Slots of the inode cache. -/
abbrev nInode : Nat := 32

instance : NeZero nInode := ⟨by decide⟩

/-- A slot of the inode cache. -/
abbrev Slot := Fin nInode

def ftUnused : UInt16 := 0
def ftDir : UInt16 := 1
def ftFile : UInt16 := 2
def ftDevice : UInt16 := 3

/-- `INODE_ROOT`. -/
def inodeRoot : UInt16 := 0

/-- `INODE_NUM_UNUSED`. -/
def inodeNumUnused : UInt16 := 0xFFFF

/-! ## State -/

/-- The fields of an inode that are stored on disk. -/
@[ext]
structure Dinode where
  type : UInt16
  major : UInt16
  minor : UInt16
  nlink : UInt16
  size : UInt32
  addrs : Fin nAddrs → UInt32

/-- The 64 bytes of an inode. -/
def Dinode.encode (dinode : Dinode) : Bytes := fun index =>
  if index < 2 then byteOf dinode.type.toNat index
  else if index < 4 then byteOf dinode.major.toNat (index - 2)
  else if index < 6 then byteOf dinode.minor.toNat (index - 4)
  else if index < 8 then byteOf dinode.nlink.toNat (index - 6)
  else if index < 12 then byteOf dinode.size.toNat (index - 8)
  else byteOf (dinode.addrs (Fin.ofNat nAddrs ((index - 12) / 4))).toNat
    ((index - 12) % 4)

/-- The inode stored at an address. -/
def Dinode.decode (bytes : Bytes) (address : Nat) : Dinode where
  type := read16 bytes address
  major := read16 bytes (address + 2)
  minor := read16 bytes (address + 4)
  nlink := read16 bytes (address + 6)
  size := read32 bytes (address + 8)
  addrs := fun index => read32 bytes (address + 12 + 4 * index)

/-- A slot of the inode cache.  All locks belong to one processor, so a lock is
held by it exactly when it is locked. -/
structure Inode where
  data : Dinode
  inodeNum : UInt16
  ref : UInt32
  valid : Bool
  slk : Bool

/-- The state of the file system. -/
structure State where
  disk : Nat → Block
  /-- Numbers of the blocks whose buffers are locked. -/
  held : List UInt32
  icache : Slot → Inode
  lkIcache : Bool

namespace Inode

@[simps] def setData (inode : Inode) (data : Dinode) : Inode :=
  { inode with data := data }

@[simps] def setSlk (inode : Inode) (slk : Bool) : Inode :=
  { inode with slk := slk }

@[simps] def setRef (inode : Inode) (ref : UInt32) : Inode :=
  { inode with ref := ref }

end Inode

namespace State

@[simps -fullyApplied] def setDisk (state : State) (index : Nat)
    (data : Block) : State :=
  { state with disk := Function.update state.disk index data }

@[simps -fullyApplied] def setHeld (state : State) (held : List UInt32) :
    State :=
  { state with held := held }

@[simps -fullyApplied] def setInode (state : State) (ip : Slot)
    (inode : Inode) : State :=
  { state with icache := Function.update state.icache ip inode }

@[simps -fullyApplied] def setLkIcache (state : State) (locked : Bool) :
    State :=
  { state with lkIcache := locked }

end State

/-- A program of the file system. -/
abbrev FsM := Program State

open Program (get modify wait assert)

/-- Read a cache slot. -/
def getInode (ip : Slot) : FsM Inode := do
  let state ← get
  return state.icache ip

/-- Change a cache slot. -/
def modifyInode (ip : Slot) (change : Inode → Inode) : FsM Unit :=
  modify fun state => state.setInode ip (change (state.icache ip))

/-- Change the stored fields of a cache slot. -/
def modifyData (ip : Slot) (change : Dinode → Dinode) : FsM Unit :=
  modifyInode ip fun inode => inode.setData (change inode.data)

/-! ## Buffers -/

/-- The block of the disk a buffer's transfers go to. -/
def diskIndex (blockNum : UInt32) : Nat :=
  Buf.sector blockNum / 2

/-- `buf_read`.  The device reports an error for a block outside the disk. -/
def bufRead (blockNum : UInt32) : FsM Block := do
  let state ← get
  assert (blockNum ∉ state.held) "acquire"
  assert (state.held.length < Buf.nBlockBuf)
    "buf_read: buffer still referenced"
  modify fun state => state.setHeld (blockNum :: state.held)
  wait
  assert (diskIndex blockNum < totalBlocks) "virtio_disk_intr status"
  let state ← get
  return state.disk (diskIndex blockNum)

/-- `buf_write` of a buffer with the given bytes. -/
def bufWrite (blockNum : UInt32) (data : Block) : FsM Unit := do
  let state ← get
  assert (blockNum ∈ state.held) "buf_write: buffer not locked"
  modify fun state => state.setDisk (diskIndex blockNum) data
  wait

/-- `buf_release`. -/
def bufRelease (blockNum : UInt32) : FsM Unit := do
  let state ← get
  assert (blockNum ∈ state.held) "buf_release: buffer not locked"
  modify fun state => state.setHeld (state.held.erase blockNum)

/-! ## Bitmaps -/

/-- A bit of a bitmap block. -/
def bitAt (data : Block) (number : Nat) : Bool :=
  data (number / 8) &&& (1 <<< UInt8.ofNat (number % 8)) ≠ 0

/-- Set a bit of a bitmap block. -/
def setBit (data : Block) (number : Nat) : Block :=
  Function.update data (number / 8)
    (data (number / 8) ||| (1 <<< UInt8.ofNat (number % 8)))

/-- Clear a bit of a bitmap block. -/
def clearBit (data : Block) (number : Nat) : Block :=
  Function.update data (number / 8)
    (data (number / 8) &&& ~~~(1 <<< UInt8.ofNat (number % 8)))

/-- The first clear bit of a bitmap block: the first one in the first byte that
is not all ones. -/
def firstClear (data : Block) : Option Nat :=
  match (List.range blockSize).find? fun byte => data byte ≠ 0xFF with
  | some byte =>
      ((List.range 8).find? fun bit => !bitAt data (byte * 8 + bit)).map
        (byte * 8 + ·)
  | none => none

/-- Find the first clear bit and set it.  When that is bit 0 the buffer is
given back, and the search goes on with it until it is written or given back a
second time. -/
def bitmapSearchAndSet (bitmapBlock : UInt32) : FsM UInt32 := do
  let data ← bufRead bitmapBlock
  match firstClear data with
  | some number =>
      let data := setBit data number
      bufWrite bitmapBlock data
      bufRelease bitmapBlock
      if number = 0 then
        if (firstClear data).isSome then
          Program.panic "buf_write: buffer not locked"
        else
          Program.panic "buf_release: buffer not locked"
      else
        return UInt32.ofNat number
  | none =>
      bufRelease bitmapBlock
      return 0

/-- Clear a bit. -/
def bitmapUnset (bitmapBlock bitNum : UInt32) : FsM Unit :=
  if bitNum = 0 then
    return
  else do
    let data ← bufRead bitmapBlock
    if bitNum.toNat / 8 ≥ blockSize then
      bufRelease bitmapBlock
    else
      bufWrite bitmapBlock (clearBit data bitNum.toNat)
      bufRelease bitmapBlock

/-- `bitmap_alloc_block`. -/
def bitmapAllocBlock : FsM UInt32 := do
  let bitNum ← bitmapSearchAndSet dataBitmapStart
  if bitNum = 0 then
    return 0
  else
    return dataStart + bitNum

/-- `bitmap_free_block`. -/
def bitmapFreeBlock (blockNum : UInt32) : FsM Unit :=
  if blockNum < dataStart then
    return
  else
    bitmapUnset dataBitmapStart (blockNum - dataStart)

/-- `bitmap_alloc_inode`. -/
def bitmapAllocInode : FsM UInt16 := do
  let bitNum ← bitmapSearchAndSet inodeBitmapStart
  return bitNum.toUInt16

/-- `bitmap_free_inode`. -/
def bitmapFreeInode (inodeNum : UInt16) : FsM Unit :=
  bitmapUnset inodeBitmapStart inodeNum.toUInt32

/-! ## Inodes -/

/-- The block an inode is stored in. -/
def inodeBlock (inodeNum : UInt16) : UInt32 :=
  inodeStart + (inodeNum / 16).toUInt32

/-- The place of an inode in its block. -/
def inodeOffset (inodeNum : UInt16) : Nat :=
  inodeNum.toNat % inodePerBlock * inodeDiskSize

/-- Copy an inode from the cache to the disk or back. -/
def inodeRw (ip : Slot) (write : Bool) : FsM Unit := do
  let inode ← getInode ip
  assert inode.slk "inode_rw: no lock"
  let blockNum := inodeBlock inode.inodeNum
  let offset := inodeOffset inode.inodeNum
  let data ← bufRead blockNum
  if write then
    let inode ← getInode ip
    bufWrite blockNum
      (memmove data offset inode.data.encode inodeDiskSize)
  else
    modifyInode ip fun inode =>
      ⟨Dinode.decode data offset, inode.inodeNum, inode.ref, true, inode.slk⟩
  bufRelease blockNum

/-- `spinlock_acquire(&lk_icache)`. -/
def acquireIcache : FsM Unit := do
  let state ← get
  assert (!state.lkIcache) "acquire"
  modify fun state => state.setLkIcache true

/-- `spinlock_release(&lk_icache)`. -/
def releaseIcache : FsM Unit := do
  let state ← get
  assert state.lkIcache "release"
  modify fun state => state.setLkIcache false

/-- Find an inode in the cache, or take a slot nobody references for it. -/
def inodeAlloc (inodeNum : UInt16) : FsM Slot := do
  acquireIcache
  let state ← get
  match (List.finRange nInode).find? fun ip =>
      (state.icache ip).inodeNum = inodeNum with
  | some ip =>
      modifyInode ip fun inode => inode.setRef (inode.ref + 1)
      releaseIcache
      return ip
  | none =>
      match (List.finRange nInode).find? fun ip =>
          (state.icache ip).ref = 0 with
      | some ip =>
          modifyInode ip fun inode =>
            ⟨inode.data, inodeNum, 1, false, inode.slk⟩
          releaseIcache
          return ip
      | none => Program.panic "inode_alloc: no available inode"

/-- Lock an inode, reading it from the disk if necessary. -/
def inodeLock (ip : Slot) : FsM Unit := do
  let inode ← getInode ip
  assert (inode.ref ≥ 1) "inode_lock: ref < 1"
  assert (!inode.slk) "acquire"
  modifyInode ip fun inode => inode.setSlk true
  let inode ← getInode ip
  if inode.valid then
    return
  else
    inodeRw ip false

/-- `inode_unlock`. -/
def inodeUnlock (ip : Slot) : FsM Unit := do
  let inode ← getInode ip
  assert inode.slk "inode_unlock: no lock"
  modifyInode ip fun inode => inode.setSlk false

/-- `inode_dup`. -/
def inodeDup (ip : Slot) : FsM Unit := do
  acquireIcache
  modifyInode ip fun inode => inode.setRef (inode.ref + 1)
  releaseIcache

/-- Allocate an inode on disk and a cache slot for it.  The slot is not
locked. -/
def inodeCreate (type major minor : UInt16) : FsM (Option Slot) := do
  let inodeNum ← bitmapAllocInode
  if inodeNum = 0 then
    return none
  else
    let ip ← inodeAlloc inodeNum
    inodeLock ip
    modifyData ip fun _ => ⟨type, major, minor, 1, 0, fun _ => 0⟩
    inodeRw ip true
    inodeUnlock ip
    return some ip

/-! ## Data of an inode -/

/-- The block of an entry, allocated if there is none. -/
def blockOfEntry (entry : UInt32) : FsM UInt32 :=
  if entry = 0 then bitmapAllocBlock else return entry

/-- Follow or create the block below an entry: `size` is
`entryPerBlock ^ level`.  The results are the block found and the new value of
the entry. -/
def locateBlock (entry bn : UInt32) : (level : Nat) → FsM (UInt32 × UInt32)
  | 0 => do
      let entry ← blockOfEntry entry
      return (entry, entry)
  | level + 1 => do
      let entry ← blockOfEntry entry
      let nextSize := UInt32.ofNat (entryPerBlock ^ level)
      let data ← bufRead entry
      let index := 4 * (bn / nextSize).toNat
      let (ret, nextEntry) ←
        locateBlock (read32 data index) (bn % nextSize) level
      bufWrite entry (write32 data index nextEntry)
      bufRelease entry
      return (ret, entry)

/-- Change a block number of an inode. -/
def Dinode.setAddr (dinode : Dinode) (index : Fin nAddrs) (addr : UInt32) :
    Dinode :=
  { dinode with addrs := Function.update dinode.addrs index addr }

/-- Change the size of an inode. -/
def Dinode.setSize (dinode : Dinode) (size : UInt32) : Dinode :=
  { dinode with size := size }

/-- Change the link count of an inode. -/
def Dinode.setNlink (dinode : Dinode) (nlink : UInt16) : Dinode :=
  { dinode with nlink := nlink }

/-- Find or create the block below a block number of an inode. -/
def locateAddr (ip : Slot) (index : Fin nAddrs) (bn : UInt32) (level : Nat) :
    FsM UInt32 := do
  let inode ← getInode ip
  let (ret, entry) ← locateBlock (inode.data.addrs index) bn level
  modifyData ip fun dinode => dinode.setAddr index entry
  return ret

/-- Find or create a block of an inode. -/
def inodeLocateBlock (ip : Slot) (bn : UInt32) : FsM UInt32 :=
  if bn < 10 then
    locateAddr ip (Fin.ofNat nAddrs bn.toNat) bn 0
  else
    let bn := bn - 10
    if bn < 512 then
      locateAddr ip (Fin.ofNat nAddrs (nAddrs1 + bn.toNat / entryPerBlock))
        (bn % 256) 1
    else
      let bn := bn - 512
      if bn < 65536 then
        locateAddr ip (Fin.ofNat nAddrs (nAddrs1 + nAddrs2)) bn 2
      else
        Program.panic "inode_locate_block: bn too large"

/-- The length of the next piece of a transfer. -/
def pieceLength (offset len total : UInt32) : UInt32 :=
  let toRead := 1024 - offset % 1024
  if toRead > len - total then len - total else toRead

/-- The loop of `inode_read_data`.  It ends before `fuel` when `fuel` is at
least `len - total`. -/
def readLoop (ip : Slot) (offset len total : UInt32) (dst : List UInt8) :
    (fuel : Nat) → FsM (List UInt8)
  | 0 => return dst
  | fuel + 1 =>
      if total < len then do
        let blockOffset := (offset % 1024).toNat
        let blockNum ← inodeLocateBlock ip (offset / 1024)
        let toRead := pieceLength offset len total
        let data ← bufRead blockNum
        let piece := (List.range toRead.toNat).map fun index =>
          data (blockOffset + index)
        bufRelease blockNum
        readLoop ip (offset + toRead) len (total + toRead) (dst ++ piece) fuel
      else
        return dst

/-- Read from an inode.  The result is the bytes stored to `dst`. -/
def inodeReadData (ip : Slot) (offset len : UInt32) : FsM (List UInt8) := do
  let inode ← getInode ip
  assert inode.slk "inode_read_data: no lock"
  if offset ≥ inode.data.size then
    return []
  else
    let len :=
      if offset + len > inode.data.size then inode.data.size - offset else len
    readLoop ip offset len 0 [] len.toNat

/-- The loop of `inode_write_data`, with the offset it ends at. -/
def writeLoop (ip : Slot) (offset len total : UInt32) (src : Bytes) :
    (fuel : Nat) → FsM (UInt32 × UInt32)
  | 0 => return (offset, total)
  | fuel + 1 =>
      if total < len then do
        let blockOffset := (offset % 1024).toNat
        let blockNum ← inodeLocateBlock ip (offset / 1024)
        let toWrite := pieceLength offset len total
        let data ← bufRead blockNum
        bufWrite blockNum (memmove data blockOffset
          (fun index => src (total.toNat + index)) toWrite.toNat)
        bufRelease blockNum
        writeLoop ip (offset + toWrite) len (total + toWrite) src fuel
      else
        return (offset, total)

/-- Write to an inode. -/
def inodeWriteData (ip : Slot) (offset len : UInt32) (src : Bytes) :
    FsM UInt32 := do
  let inode ← getInode ip
  assert inode.slk "inode_write_data: no lock"
  if (offset + len).toNat > inodeMaxSize then
    return 0
  else
    let (offset, total) ← writeLoop ip offset len 0 src len.toNat
    let inode ← getInode ip
    if offset > inode.data.size then
      modifyData ip fun dinode => dinode.setSize offset
      inodeRw ip true
      return total
    else
      return total

/-- The entries of an index block up to the first empty one. -/
def entriesBeforeHole (data : Block) : List UInt32 :=
  ((List.range entryPerBlock).map fun index => read32 data (4 * index)).takeWhile
    (· ≠ 0)

/-- Free a block and, for an index block, what is below it. -/
def dataFree (blockNum : UInt32) : (level : Nat) → FsM Unit
  | 0 => do
      assert (blockNum ≠ 0) "data_free: block_num = 0"
      bitmapFreeBlock blockNum
  | level + 1 => do
      assert (blockNum ≠ 0) "data_free: block_num = 0"
      let data ← bufRead blockNum
      (entriesBeforeHole data).forM fun addr => dataFree addr level
      bufRelease blockNum
      bitmapFreeBlock blockNum

/-- Levels of index blocks below a block number of an inode. -/
def addrLevel (index : Fin nAddrs) : Nat :=
  if index.val < nAddrs1 then 0
  else if index.val < nAddrs1 + nAddrs2 then 1 else 2

/-- Free what is below a block number of an inode and clear it. -/
def freeAddr (ip : Slot) (index : Fin nAddrs) : FsM Unit := do
  let inode ← getInode ip
  if inode.data.addrs index ≠ 0 then
    dataFree (inode.data.addrs index) (addrLevel index)
    modifyData ip fun dinode => dinode.setAddr index 0

/-- Free the data of an inode: the direct, the single-indirect and the
double-indirect blocks in order. -/
def inodeFreeData (ip : Slot) : FsM Unit := do
  let inode ← getInode ip
  assert inode.slk "inode_free_data: no lock"
  (List.finRange nAddrs).forM fun index => freeAddr ip index
  modifyData ip fun dinode => dinode.setSize 0

/-- Delete an inode on disk. -/
def inodeDestroy (ip : Slot) : FsM Unit := do
  let state ← get
  assert state.lkIcache "inode_destroy: no lk_icache"
  inodeLock ip
  inodeFreeData ip
  modifyData ip fun _ => ⟨ftUnused, 0, 0, 0, 0, fun _ => 0⟩
  inodeRw ip true
  let inode ← getInode ip
  bitmapFreeInode inode.inodeNum
  inodeUnlock ip

/-- Give a reference back, deleting the inode with its last reference and
link. -/
def inodeFree (ip : Slot) : FsM Unit := do
  acquireIcache
  modifyInode ip fun inode => inode.setRef (inode.ref - 1)
  let inode ← getInode ip
  if inode.ref = 0 ∧ inode.data.nlink = 0 then
    inodeDestroy ip
    modifyInode ip fun inode =>
      ⟨inode.data, inodeNumUnused, inode.ref, false, inode.slk⟩
    releaseIcache
  else
    releaseIcache

/-- `inode_unlock_free`. -/
def inodeUnlockFree (ip : Slot) : FsM Unit := do
  inodeUnlock ip
  inodeFree ip

end Fs
end WhuOs
