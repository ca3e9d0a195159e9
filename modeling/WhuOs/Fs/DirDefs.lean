import WhuOs.Fs.Defs

/-!
# Directories and paths

The functions of `dir.c`.  A directory is one block of 32 entries, each with an
inode number and a name; an entry with an empty name is unused.
-/

namespace WhuOs
namespace Fs

open Library
open Library.Bytes
open Program (assert)

/-- A C string: its bytes before the terminating zero. -/
structure CString where
  bytes : List UInt8
  noNul : 0 ∉ bytes
  deriving DecidableEq

/-- `DIR_NAME_LEN`. -/
abbrev dirNameLen : Nat := 30

/-- Bytes of a directory entry. -/
abbrev direntSize : Nat := 32

/-- Entries of a directory. -/
abbrev direntPerBlock : Nat := 32

/-- Index of an entry in a directory block. -/
abbrev EntryIndex := Fin direntPerBlock

/-- Name of the directory itself. -/
def dot : CString := ⟨[46], by decide⟩

/-- Name of the parent directory. -/
def dotDot : CString := ⟨[46, 46], by decide⟩

/-- `de->inode_num`. -/
def entryInode (data : Block) (entry : EntryIndex) : UInt16 :=
  read16 data (direntSize * entry)

/-- `de->name`, up to the first zero byte. -/
def entryName (data : Block) (entry : EntryIndex) : List UInt8 :=
  ((List.range dirNameLen).map fun index =>
    data (direntSize * entry + 2 + index)).takeWhile (· ≠ 0)

/-- `strncmp(de->name, name, DIR_NAME_LEN) == 0` for an entry in use. -/
def matchesName (data : Block) (name : CString) (entry : EntryIndex) : Bool :=
  entryName data entry ≠ [] ∧
    entryName data entry = name.bytes.take dirNameLen

/-- Store an inode number and a name, padded with zeros, in an entry. -/
def storeEntry (data : Block) (entry : EntryIndex) (inodeNum : UInt16)
    (name : CString) : Block :=
  let data := write16 data (direntSize * entry) inodeNum
  memmove data (direntSize * entry + 2)
    (fun index => if index = dirNameLen - 1 then 0 else name.bytes.getD index 0)
    dirNameLen

/-- Mark an entry unused. -/
def clearEntry (data : Block) (entry : EntryIndex) : Block :=
  let data := memmove data (direntSize * entry + 2) (fun _ => 0) 1
  write16 data (direntSize * entry) inodeNumUnused

/-- Read the block of a locked directory. -/
def dirBlock (pip : Slot) (caller : String) : FsM (UInt32 × Block) := do
  let inode ← getInode pip
  assert inode.slk (caller ++ ": lock")
  assert (inode.data.type = ftDir) (caller ++ ": not dir")
  let data ← bufRead (inode.data.addrs 0)
  return (inode.data.addrs 0, data)

/-- The inode number of a name in a directory, or `inodeNumUnused`. -/
def dirSearchEntry (pip : Slot) (name : CString) : FsM UInt16 := do
  let (blockNum, data) ← dirBlock pip "dir_search_entry"
  match (List.finRange direntPerBlock).find? (matchesName data name) with
  | some entry =>
      bufRelease blockNum
      return entryInode data entry
  | none =>
      bufRelease blockNum
      return inodeNumUnused

/-- Store a new name in the first unused entry after `strlen` and the search
for the name. -/
def dirStoreEntry (pip : Slot) (inodeNum : UInt16) (name : CString) :
    FsM UInt32 := do
  let inode ← getInode pip
  let blockNum := inode.data.addrs 0
  let data ← bufRead blockNum
  match (List.finRange direntPerBlock).find? fun entry =>
      entryName data entry = [] with
  | some entry =>
      bufWrite blockNum (storeEntry data entry inodeNum name)
      bufRelease blockNum
      let offset := UInt32.ofNat (direntSize * entry)
      modifyData pip fun dinode => dinode.setSize (offset + 32)
      return offset
  | none =>
      bufRelease blockNum
      return 1024

/-- Add an entry to a directory.  The result is its offset, or the block size
on failure. -/
def dirAddEntry (pip : Slot) (inodeNum : UInt16) (name : CString) :
    FsM UInt32 := do
  let inode ← getInode pip
  assert inode.slk "dir_add_entry: lock"
  assert (inode.data.type = ftDir) "dir_add_entry: not dir"
  if name.bytes.length ≥ dirNameLen then
    return 1024
  else
    let found ← dirSearchEntry pip name
    if found ≠ inodeNumUnused then
      return 1024
    else
      dirStoreEntry pip inodeNum name

/-- Delete an entry of a directory. -/
def dirDeleteEntry (pip : Slot) (name : CString) : FsM UInt16 := do
  let (blockNum, data) ← dirBlock pip "dir_delete_entry"
  match (List.finRange direntPerBlock).find? (matchesName data name) with
  | some entry =>
      bufWrite blockNum (clearEntry data entry)
      bufRelease blockNum
      return entryInode data entry
  | none =>
      bufRelease blockNum
      return inodeNumUnused

/-- Copy the entries in use, as many as fit into `len` bytes. -/
def dirGetEntries (pip : Slot) (len : UInt32) : FsM (List (List UInt8)) := do
  let (blockNum, data) ← dirBlock pip "dir_get_entries"
  let used := (List.finRange direntPerBlock).filter fun entry =>
    entryName data entry ≠ []
  bufRelease blockNum
  return (used.take (len.toNat / direntSize)).map fun entry : EntryIndex =>
    (List.range direntSize).map fun index =>
      data (direntSize * entry + index)

/-! ## Paths -/

/-- The separator of path elements. -/
def slash : UInt8 := 47

/-- The first element of a path, cut to the length of a name, and the rest. -/
def skipElement (path : CString) : Option (CString × CString) :=
  let rest := path.bytes.dropWhile (· = slash)
  if rest = [] then
    none
  else
    some (⟨(rest.takeWhile (· ≠ slash)).take (dirNameLen - 1), fun member =>
        path.noNul ((List.dropWhile_sublist _).subset
          ((List.takeWhile_sublist _).subset (List.mem_of_mem_take member)))⟩,
      ⟨(rest.dropWhile (· ≠ slash)).dropWhile (· = slash), fun member =>
        path.noNul ((List.dropWhile_sublist _).subset
          ((List.dropWhile_sublist _).subset
            ((List.dropWhile_sublist _).subset member)))⟩)

/-- The elements that repeated calls of `skip_element` produce. -/
def pathElements (path : CString) : (fuel : Nat) → List CString
  | 0 => []
  | fuel + 1 =>
      match skipElement path with
      | none => []
      | some (name, rest) => name :: pathElements rest fuel

/-- The loop of `search_inode` over the elements of a path. -/
def searchLoop (findParent : Bool) (ip : Slot) :
    (elements : List CString) → FsM (Option (Slot × CString))
  | [] =>
      if findParent then do
        inodeFree ip
        return none
      else
        return some (ip, dot)
  | name :: rest => do
      inodeLock ip
      let inode ← getInode ip
      if inode.data.type ≠ ftDir then
        inodeUnlockFree ip
        return none
      else if findParent ∧ rest = [] then
        inodeUnlock ip
        return some (ip, name)
      else
        let nextInum ← dirSearchEntry ip name
        if nextInum = inodeNumUnused then
          inodeUnlockFree ip
          return none
        else
          inodeUnlock ip
          inodeFree ip
          let ip ← inodeAlloc nextInum
          searchLoop findParent ip rest

/-- Walk a path from the root to its inode or to the inode of its parent. -/
def searchInode (path : CString) (findParent : Bool) :
    FsM (Option (Slot × CString)) := do
  let ip ← inodeAlloc inodeRoot
  searchLoop findParent ip (pathElements path path.bytes.length)

/-- The inode of a path. -/
def pathToInode (path : CString) : FsM (Option Slot) := do
  let found ← searchInode path false
  return found.map Prod.fst

/-- The inode of the parent of a path, with the last element. -/
def pathToPinode (path : CString) : FsM (Option (Slot × CString)) :=
  searchInode path true

/-- Fill a new directory: take a block for it and add the entries for itself
and its parent.  The result is `false` when no block is left. -/
def fillDirectory (dirIp ip : Slot) (name : CString) : FsM Bool := do
  let blockNum ← bitmapAllocBlock
  if blockNum = 0 then
    inodeUnlock ip
    inodeFreeData ip
    inodeFree ip
    let _ ← dirDeleteEntry dirIp name
    inodeUnlockFree dirIp
    return false
  else
    modifyData ip fun dinode => (dinode.setAddr 0 blockNum).setSize 0
    let inode ← getInode ip
    let _ ← dirAddEntry ip inode.inodeNum dot
    let dirInode ← getInode dirIp
    let _ ← dirAddEntry ip dirInode.inodeNum dotDot
    modifyData dirIp fun dinode => dinode.setNlink (dinode.nlink + 1)
    inodeRw dirIp true
    return true

/-- The end of `path_create_inode`: count the name of the new inode. -/
def finishCreate (dirIp ip : Slot) : FsM (Option Slot) := do
  modifyData ip fun dinode => dinode.setNlink 1
  inodeRw ip true
  inodeUnlock ip
  inodeUnlockFree dirIp
  return some ip

/-- Create an inode under a path that does not exist yet. -/
def pathCreateInode (path : CString) (type major minor : UInt16) :
    FsM (Option Slot) := do
  let parent ← pathToPinode path
  match parent with
  | none => return none
  | some (dirIp, name) =>
      inodeLock dirIp
      let found ← dirSearchEntry dirIp name
      if found ≠ inodeNumUnused then
        inodeUnlockFree dirIp
        return none
      else
        let created ← inodeCreate type major minor
        match created with
        | none =>
            inodeUnlockFree dirIp
            return none
        | some ip =>
            inodeLock ip
            let inode ← getInode ip
            let offset ← dirAddEntry dirIp inode.inodeNum name
            if offset = 1024 then
              inodeUnlock ip
              inodeFreeData ip
              inodeFree ip
              inodeUnlockFree dirIp
              return none
            else if type = ftDir then
              let filled ← fillDirectory dirIp ip name
              if filled then
                finishCreate dirIp ip
              else
                return none
            else
              finishCreate dirIp ip

/-- Add a name for an existing inode that is no directory.  The result says
whether the call succeeded. -/
def pathLink (oldPath newPath : CString) : FsM Bool := do
  let old ← pathToInode oldPath
  match old with
  | none => return false
  | some oldIp =>
      inodeLock oldIp
      let inode ← getInode oldIp
      if inode.data.type = ftDir then
        inodeUnlockFree oldIp
        return false
      else
        let parent ← pathToPinode newPath
        match parent with
        | none =>
            inodeUnlockFree oldIp
            return false
        | some (dirIp, newName) =>
            inodeLock dirIp
            let inode ← getInode oldIp
            let offset ← dirAddEntry dirIp inode.inodeNum newName
            if offset = 1024 then
              inodeUnlockFree dirIp
              inodeUnlockFree oldIp
              return false
            else
              modifyData oldIp fun dinode =>
                dinode.setNlink (dinode.nlink + 1)
              inodeRw oldIp true
              inodeUnlockFree dirIp
              inodeUnlockFree oldIp
              return true

/-- Whether a directory has no entries but its own two. -/
def checkUnlink (ip : Slot) : FsM Bool := do
  let inode ← getInode ip
  assert inode.slk "check_unlink: slk"
  let entries ← dirGetEntries ip 96
  if entries.length = 3 then
    return false
  else if entries.length = 2 then
    return true
  else
    Program.panic "check_unlink: read_len"

/-- The end of `path_unlink`: delete the name and drop the link. -/
def finishUnlink (dirIp ip : Slot) (name : CString) : FsM Bool := do
  let _ ← dirDeleteEntry dirIp name
  inodeUnlockFree dirIp
  modifyData ip fun dinode => dinode.setNlink (dinode.nlink - 1)
  let inode ← getInode ip
  if inode.data.nlink = 0 then
    inodeFreeData ip
    inodeRw ip true
    inodeUnlockFree ip
    return true
  else
    inodeRw ip true
    inodeUnlockFree ip
    return true

/-- Delete a name.  The result says whether the call succeeded. -/
def pathUnlink (path : CString) : FsM Bool := do
  let parent ← pathToPinode path
  match parent with
  | none => return false
  | some (dirIp, name) =>
      inodeLock dirIp
      if name = dot ∨ name = dotDot then
        inodeUnlockFree dirIp
        return false
      else
        let inum ← dirSearchEntry dirIp name
        if inum = inodeNumUnused then
          inodeUnlockFree dirIp
          return false
        else
          let ip ← inodeAlloc inum
          inodeLock ip
          let inode ← getInode ip
          if inode.data.type = ftDir then
            let empty ← checkUnlink ip
            if empty then
              modifyData dirIp fun dinode =>
                dinode.setNlink (dinode.nlink - 1)
              inodeRw dirIp true
              finishUnlink dirIp ip name
            else
              inodeUnlockFree ip
              inodeUnlockFree dirIp
              return false
          else
            finishUnlink dirIp ip name

/-- Check that a path names a directory. -/
def dirChange (path : CString) : FsM Bool := do
  let found ← pathToInode path
  match found with
  | none => return false
  | some ip =>
      inodeLock ip
      let inode ← getInode ip
      inodeUnlockFree ip
      return inode.data.type = ftDir

end Fs
end WhuOs
