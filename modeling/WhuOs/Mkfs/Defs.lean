import WhuOs.Fs.Mkfs

/-!
# The program that writes the disk image

The functions of `mkfs.c`.  The host's files can be read and written, so a run
fails only where the program stops with a message or a failed assertion.
-/

namespace WhuOs
namespace Mkfs

open Library
open Library.Bytes
open Fs (Dinode CString bitAt setBit nAddrs entryPerBlock direntSize dirNameLen
  slash)
open Program (get modify assert)

/-- The blocks of the image. -/
abbrev Image := Nat → Block

/-- A program over the image. -/
abbrev MkfsM := Program Image

/-! ## Blocks -/

/-- The block of the image at the offset of a block number, which is a 32-bit
number. -/
def blockIndex (blockNum : UInt32) : Nat :=
  (1024 * blockNum).toNat / blockSize

/-- `block_write`. -/
def blockWrite (blockNum : UInt32) (data : Block) : MkfsM Unit :=
  modify fun image => Function.update image (blockIndex blockNum) data

/-- `block_read`. -/
def blockRead (blockNum : UInt32) : MkfsM Block := do
  let image ← get
  return image (blockIndex blockNum)

/-- The first clear bit of a bitmap. -/
def searchBit (data : Block) : Option Nat :=
  (List.range (blockSize * 8)).find? fun number => !bitAt data number

/-- Find a clear bit in a bitmap and set it. -/
def bitAlloc (bitmapBlock : UInt32) (message : String) : MkfsM Nat := do
  let data ← blockRead bitmapBlock
  match searchBit data with
  | some number =>
      blockWrite bitmapBlock (setBit data number)
      return number
  | none => Program.panic message

/-- `block_alloc`. -/
def blockAlloc : MkfsM UInt32 := do
  let number ← bitAlloc Fs.dataBitmapStart "block_alloc: no bit left"
  return UInt32.ofNat number + Fs.dataStart

/-- `inode_alloc`. -/
def inodeAlloc : MkfsM UInt16 := do
  let number ← bitAlloc Fs.inodeBitmapStart "inode_alloc: no bit left"
  return UInt16.ofNat number

/-! ## Inodes and directory entries -/

/-- `INODE_LOCATE_BLOCK`. -/
def inodeBlock (inodeNum : UInt16) : UInt32 :=
  (inodeNum / 16).toUInt32 + Fs.inodeStart

/-- `inode_write`. -/
def inodeWrite (inodeNum : UInt16) (dinode : Dinode) : MkfsM Unit := do
  let data ← blockRead (inodeBlock inodeNum)
  blockWrite (inodeBlock inodeNum)
    (memmove data (inodeNum.toNat % Fs.inodePerBlock * Fs.inodeDiskSize)
      dinode.encode Fs.inodeDiskSize)

/-- A new inode. -/
def newInode (type : UInt16) : Dinode :=
  ⟨type, 0, 0, 1, 0, fun _ => 0⟩

/-- `inode_create`. -/
def inodeCreate (inodeNum type : UInt16) : MkfsM Dinode := do
  inodeWrite inodeNum (newInode type)
  return newInode type

/-- The bytes of a directory entry.  The name is copied into uninitialised
memory, so the bytes behind it are arbitrary. -/
def dirent (inodeNum : UInt16) (name : CString) (junk : Bytes) : Bytes :=
  fun index =>
    if index < 2 then byteOf inodeNum.toNat index
    else if index - 2 < name.bytes.length then name.bytes.getD (index - 2) 0
    else if index - 2 = name.bytes.length then 0
    else junk index

/-- Add an entry to a directory.  The result is the offset of the next one. -/
def direntCreate (dirBlock offset : UInt32) (name : CString)
    (inodeNum : UInt16) (junk : Bytes) : MkfsM UInt32 := do
  assert (name.bytes.length < dirNameLen) "strlen(name) < 30"
  let data ← blockRead dirBlock
  blockWrite dirBlock
    (memmove data offset.toNat (dirent inodeNum name junk) direntSize)
  return offset + 32

/-! ## Data of an inode -/

/-- The block of an entry, allocated if there is none. -/
def blockOfEntry (entry : UInt32) : MkfsM UInt32 :=
  if entry = 0 then blockAlloc else return entry

/-- Follow or create the block below an entry: `size` is
`entryPerBlock ^ level`.  The results are the block found and the new value of
the entry.  The entry below is changed in a copy of the index block that is not
written back. -/
def locateBlock (entry bn : UInt32) : (level : Nat) → MkfsM (UInt32 × UInt32)
  | 0 => do
      let entry ← blockOfEntry entry
      return (entry, entry)
  | level + 1 => do
      let entry ← blockOfEntry entry
      let nextSize := UInt32.ofNat (entryPerBlock ^ level)
      let data ← blockRead entry
      let (ret, _) ← locateBlock (read32 data (4 * (bn / nextSize).toNat))
        (bn % nextSize) level
      return (ret, entry)

/-- Find or create the block below a block number of an inode. -/
def locateAddr (inode : Dinode) (index : Fin nAddrs) (bn : UInt32)
    (level : Nat) : MkfsM (UInt32 × Dinode) := do
  let (ret, entry) ← locateBlock (inode.addrs index) bn level
  return (ret, inode.setAddr index entry)

/-- Find or create a block of an inode. -/
def inodeLocateBlock (inode : Dinode) (bn : UInt32) :
    MkfsM (UInt32 × Dinode) :=
  if bn < 10 then
    locateAddr inode (Fin.ofNat nAddrs bn.toNat) bn 0
  else
    let bn := bn - 10
    if bn < 512 then
      locateAddr inode
        (Fin.ofNat nAddrs (Fs.nAddrs1 + bn.toNat / entryPerBlock))
        (bn % 256) 1
    else
      let bn := bn - 512
      if bn < 65536 then
        locateAddr inode (Fin.ofNat nAddrs (Fs.nAddrs1 + Fs.nAddrs2)) bn 2
      else
        Program.panic "inode_locate_block: overflow"

/-! ## The main program -/

/-- A file of the host that is copied to the image, with the argument that names
it. -/
structure UserFile where
  path : CString
  data : List UInt8

/-- The name of a file in the root directory: the argument behind its first
eight bytes, the directory and an underscore. -/
def shortName (path : CString) : CString :=
  ⟨path.bytes.drop 8, fun member => path.noNul (List.mem_of_mem_drop member)⟩

/-- Copy the data of a file block by block, until a read returns less than a
block.  The results are the inode, the number of the next block and the buffer,
which keeps what the last read did not overwrite. -/
def copyLoop (inode : Dinode) (bn : UInt32) (buf : Block)
    (data : List UInt8) : (fuel : Nat) → MkfsM (Dinode × UInt32 × Block)
  | 0 => return (inode, bn, buf)
  | fuel + 1 => do
      let piece := data.take blockSize
      let buf := memmove buf 0 (fun index => piece.getD index 0) piece.length
      let (blockNum, inode) ← inodeLocateBlock inode bn
      blockWrite blockNum buf
      let inode := inode.setSize (inode.size + UInt32.ofNat piece.length)
      if piece.length < blockSize then
        return (inode, bn + 1, buf)
      else
        copyLoop inode (bn + 1) buf (data.drop blockSize) fuel

/-- The body of the loop over the files.  The numbers of the blocks go on from
those of the file before. -/
def addFile (rootBlock offset bn : UInt32) (buf : Block) (junk : Bytes)
    (file : UserFile) : MkfsM (UInt32 × UInt32 × Block) := do
  assert ((file.path.bytes.drop 7).head? = some 95) "*shortname == '_'"
  assert (slash ∉ file.path.bytes.drop 7) "index(shortname, '/') == 0"
  let inum ← inodeAlloc
  let inode ← inodeCreate inum Fs.ftFile
  let offset ← direntCreate rootBlock offset (shortName file.path) inum junk
  let (inode, bn, buf) ← copyLoop inode bn buf file.data
    (file.data.length / blockSize + 1)
  inodeWrite inum inode
  return (offset, bn, buf)

/-- The loop over the files. -/
def addFiles (rootBlock : UInt32) (junk : Nat → Bytes) :
    (files : List UserFile) → (offset bn : UInt32) → (buf : Block) →
      MkfsM Unit
  | [], _, _, _ => return
  | file :: rest, offset, bn, buf => do
      let (offset, bn, buf) ←
        addFile rootBlock offset bn buf (junk offset.toNat) file
      addFiles rootBlock junk rest offset bn buf

/-- Write an image with the given files in the root directory. -/
def main (junk : Nat → Bytes) (files : List UserFile) : MkfsM Unit := do
  modify fun _ _ => zeroBlock
  blockWrite 0 Fs.superBlock
  let rootInum ← inodeAlloc
  let rootBlock ← blockAlloc
  assert (rootInum = 0) "rooti"
  let rooti ← inodeCreate rootInum Fs.ftDir
  let offset ← direntCreate rootBlock 0 Fs.dot rootInum (junk 0)
  let offset ← direntCreate rootBlock offset Fs.dotDot rootInum
    (junk offset.toNat)
  addFiles rootBlock junk files offset 0 Fs.superBlock
  inodeWrite rootInum ((rooti.setAddr 0 rootBlock).setSize
    (UInt32.ofNat (direntSize * (files.length + 2))))

end Mkfs
end WhuOs
