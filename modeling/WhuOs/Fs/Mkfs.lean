import WhuOs.Fs.FileDefs

/-!
# The initial disk

The image `mkfs` writes when it is given no user files, and the state of the
kernel after `inode_init` and `file_init`.
-/

namespace WhuOs
namespace Fs

open Library
open Library.Bytes

/-- The block of the root directory. -/
def rootBlock : UInt32 := 131

/-- The inode of the root directory. -/
def rootDinode : Dinode :=
  ⟨ftDir, 0, 0, 1, 64, fun index => if index = 0 then rootBlock else 0⟩

/-- The super block. -/
def superBlock : Block :=
  let data := write32 zeroBlock 0 0x12345678
  let data := write32 data 4 1024
  let data := write32 data 8 inodeBitmapStart
  let data := write32 data 12 inodeStart
  let data := write32 data 16 dataBitmapStart
  let data := write32 data 20 dataStart
  let data := write32 data 24 128
  let data := write32 data 28 8192
  write32 data 32 8323

/-- A bitmap with bit 0 set. -/
def firstBitmap : Block :=
  setBit zeroBlock 0

/-- The entries of the root directory for itself and its parent, which is the
root directory too.  `mkfs` copies the names into uninitialised memory, so the
bytes behind them are arbitrary. -/
def rootEntries (junk : Block) : Block := fun index =>
  if index = 2 ∨ index = 34 ∨ index = 35 then 46
  else if 3 < index ∧ index < 32 ∨ 36 < index ∧ index < 64 then junk index
  else 0

/-- The disk image. -/
def mkfsDisk (junk : Block) (index : Nat) : Block :=
  if index = 0 then superBlock
  else if index = 1 ∨ index = 130 then firstBitmap
  else if index = 2 then memmove zeroBlock 0 rootDinode.encode inodeDiskSize
  else if index = 131 then rootEntries junk
  else zeroBlock

/-- A slot of the inode cache after `inode_init`. -/
def emptyInode : Inode :=
  ⟨⟨0, 0, 0, 0, 0, fun _ => 0⟩, inodeNumUnused, 0, false, false⟩

/-- The file system on a fresh image. -/
def mkfsState (junk : Block) : State where
  disk := mkfsDisk junk
  held := []
  icache := fun _ => emptyInode
  lkIcache := false

/-- An entry of the file table after `file_init`. -/
def emptyFile : File :=
  ⟨.unused, false, false, 0, 0, 0, none⟩

/-- The kernel on a fresh image with only the first process. -/
def bootKernel (junk : Block) : Kernel where
  fs := mkfsState junk
  ftable := fun _ => emptyFile
  procs := fun pid =>
    ⟨if pid = procZero then .runnable else .unused, none, fun _ => none⟩

end Fs
end WhuOs
