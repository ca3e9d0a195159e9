import Mathlib.Tactic.Simps.Basic
import WhuOs.Library.Bytes
import WhuOs.Library.Program

/-!
# Physical pages and page tables

The functions of `pmem.c`, `vmem.c` and `uvm.c` over the bytes of physical
memory.  The kernel maps physical memory at its own addresses, so a physical
address is also the pointer the kernel uses.  Each call of the page allocator
holds the lock of its region from its first to its last access, so the locks are
left out.  An access through a null pointer is a page fault in the kernel.
-/

namespace WhuOs
namespace Mem

open Library
open Library.Bytes

/-- `PGSIZE`. -/
abbrev pgSize : Nat := 4096

/-- `KERNEL_PAGES`. -/
abbrev kernelPages : Nat := 2048

/-- `ALLOC_END` of `kernel.ld`. -/
def allocEnd : UInt64 := 0x88000000

/-- `alloc_region_t`. -/
structure Region where
  start : UInt64
  stop : UInt64
  allocable : UInt32
  /-- `list_head.next`. -/
  listHead : UInt64

/-- Physical memory with the two regions of the page allocator. -/
structure State where
  bytes : Bytes
  kernRegion : Region
  userRegion : Region
  kernelPgtbl : UInt64

namespace State

/-- The region a page is taken from or given back to. -/
def region (state : State) (inKernel : Bool) : Region :=
  if inKernel then state.kernRegion else state.userRegion

@[simps -fullyApplied] def setBytes (state : State) (bytes : Bytes) : State :=
  { state with bytes := bytes }

/-- Change one of the regions. -/
def setRegion (state : State) (inKernel : Bool) (region : Region) : State :=
  if inKernel then { state with kernRegion := region }
  else { state with userRegion := region }

end State

/-- A program of the memory manager. -/
abbrev MemM := Program State

open Program (get modify assert)

/-- Read a word. -/
def load (address : UInt64) : MemM UInt64 := do
  let state ← get
  return read64 state.bytes address.toNat

/-- Write a word. -/
def store (address value : UInt64) : MemM Unit :=
  modify fun state =>
    state.setBytes (write64 state.bytes address.toNat value)

/-- Fill a page with zeros. -/
def clearPage (page : UInt64) : MemM Unit := do
  assert (page ≠ 0) "store page fault"
  modify fun state =>
    state.setBytes (memmove state.bytes page.toNat (fun _ => 0) pgSize)

/-- Copy a page.  Two pages are equal or disjoint, so the order in which the
bytes are copied does not matter. -/
def copyPage (src dst : UInt64) : MemM Unit :=
  modify fun state => state.setBytes (memmove state.bytes dst.toNat
    (fun index => state.bytes (src.toNat + index)) pgSize)

/-! ## Page allocator -/

/-- Link the pages of a region one after the other, the last one to nothing. -/
def linkPages : (remaining : Nat) → (pageAddr : UInt64) → MemM Unit
  | 0, _ => return
  | remaining + 1, pageAddr => do
      store pageAddr (if remaining = 0 then 0 else pageAddr + 4096)
      linkPages remaining (pageAddr + 4096)

/-- `pmem_init`. -/
def pmemInit (allocBegin : UInt64) : MemM Unit := do
  let boundary := allocBegin + UInt64.ofNat (kernelPages * pgSize)
  let userPages := ((allocEnd - boundary) / 4096).toUInt32
  linkPages kernelPages allocBegin
  modify fun state => state.setRegion true
    ⟨allocBegin, boundary, UInt32.ofNat kernelPages, allocBegin⟩
  linkPages userPages.toNat boundary
  modify fun state => state.setRegion false
    ⟨boundary, allocEnd, userPages, boundary⟩

/-- Take a page, or 0 if the region has none. -/
def pmemAlloc (inKernel : Bool) : MemM UInt64 := do
  let state ← get
  let region := state.region inKernel
  if region.allocable = 0 then
    return 0
  else
    let next ← load region.listHead
    modify fun state => state.setRegion inKernel
      ⟨region.start, region.stop, region.allocable - 1, next⟩
    return region.listHead

/-- Give a page back. -/
def pmemFree (page : UInt64) (inKernel : Bool) : MemM Unit := do
  let state ← get
  let region := state.region inKernel
  store page region.listHead
  modify fun state => state.setRegion inKernel
    ⟨region.start, region.stop, region.allocable + 1, page⟩

/-! ## Page tables -/

/-- `VA_MAX`. -/
def vaMax : UInt64 := 0x4000000000

/-- `TRAMPOLINE`. -/
def trampolineVa : UInt64 := vaMax - 4096

/-- `TRAPFRAME`. -/
def trapframeVa : UInt64 := trampolineVa - 4096

def pteV : UInt64 := 1
def pteR : UInt64 := 2
def pteW : UInt64 := 4
def pteX : UInt64 := 8
def pteU : UInt64 := 16

/-- `VA_TO_VPN`. -/
def vaToVpn (va : UInt64) (level : Nat) : UInt64 :=
  (va >>> UInt64.ofNat (12 + 9 * level)) &&& 0x1FF

/-- `PA_TO_PTE`. -/
def paToPte (pa : UInt64) : UInt64 := (pa >>> 12) <<< 10

/-- `PTE_TO_PA`. -/
def pteToPa (pte : UInt64) : UInt64 := (pte >>> 10) <<< 12

/-- `PTE_FLAGS`. -/
def pteFlags (pte : UInt64) : UInt64 := pte &&& 0x3FF

/-- `PTE_CHECK`: the entry points to a table. -/
def pteCheck (pte : UInt64) : Bool := pte &&& (pteR ||| pteW ||| pteX) = 0

/-- Whether an entry is valid. -/
def isValid (pte : UInt64) : Bool := pte &&& pteV ≠ 0

/-- The address of an entry of a table. -/
def entryAddress (pgtbl : UInt64) (index : UInt64) : UInt64 :=
  pgtbl + 8 * index

/-- The loop of `vm_getpte` from a table of a level on. -/
def walkTables (va : UInt64) (alloc : Bool) :
    (level : Nat) → (pgtbl : UInt64) → MemM UInt64
  | 0, pgtbl => return entryAddress pgtbl (vaToVpn va 0)
  | level + 1, pgtbl => do
      let entry := entryAddress pgtbl (vaToVpn va (level + 1))
      let pte ← load entry
      if isValid pte then
        walkTables va alloc level (pteToPa pte)
      else if !alloc then
        return 0
      else
        let newtbl ← pmemAlloc true
        clearPage newtbl
        store entry (paToPte newtbl ||| pteV)
        walkTables va alloc level newtbl

/-- The address of the last-level entry of a virtual address, or 0 if there is
none. -/
def vmGetpte (pgtbl va : UInt64) (alloc : Bool) : MemM UInt64 := do
  let state ← get
  let pgtbl := if pgtbl = 0 then state.kernelPgtbl else pgtbl
  assert (va < vaMax) "vm_getpte: va out of range"
  walkTables va alloc 2 pgtbl

/-- The loop of `vm_mappages`.  It ends before `fuel` when `fuel` is more than
the number of pages that are left. -/
def mapLoop (pgtbl stop perm : UInt64) :
    (fuel : Nat) → (start pa : UInt64) → MemM Unit
  | 0, _, _ => return
  | fuel + 1, start, pa =>
      if start < stop then do
        let pte ← vmGetpte pgtbl start true
        assert (pte ≠ 0) "vm_mappages: getpte fail"
        store pte (paToPte pa ||| perm ||| pteV)
        mapLoop pgtbl stop perm fuel (start + 4096) (pa + 4096)
      else
        return

/-- Map a range of virtual addresses to physical pages. -/
def vmMappages (pgtbl va pa len perm : UInt64) : MemM Unit :=
  mapLoop pgtbl (va + len) perm ((va + len - va).toNat / pgSize + 1) va pa

/-- The loop of `vm_unmappages`. -/
def unmapLoop (pgtbl stop : UInt64) (freeit : Bool) :
    (fuel : Nat) → (start : UInt64) → MemM Unit
  | 0, _ => return
  | fuel + 1, start =>
      if start < stop then do
        let entry ← vmGetpte pgtbl start false
        assert (entry ≠ 0) "vm_unmappages: not mapped"
        let pte ← load entry
        assert (isValid pte) "vm_unmappages: not mapped"
        if freeit then
          pmemFree (pteToPa pte) true
          store entry 0
          unmapLoop pgtbl stop freeit fuel (start + 4096)
        else
          store entry 0
          unmapLoop pgtbl stop freeit fuel (start + 4096)
      else
        return

/-- Remove the mappings of a range of virtual addresses. -/
def vmUnmappages (pgtbl va len : UInt64) (freeit : Bool) : MemM Unit :=
  unmapLoop pgtbl (va + len) freeit ((va + len - va).toNat / pgSize + 1) va

/-! ## User memory -/

/-- Free the pages below a page table and the table itself.  The source does not
look at the level it passes down; below the last level it would take the bytes
of a user page for a table. -/
def destroyPgtbl : (level : Nat) → (pgtbl : UInt64) → MemM Unit
  | 0, _ => Program.panic "destroy_pgtbl: below the last level"
  | level + 1, pgtbl => do
      (List.range 512).forM fun index => do
        let pte ← load (entryAddress pgtbl (UInt64.ofNat index))
        if isValid pte ∧ pteCheck pte then
          destroyPgtbl level (pteToPa pte)
        else if isValid pte then
          pmemFree (pteToPa pte) false
        else
          return
      pmemFree pgtbl false

/-- Clear a mapping without freeing its page. -/
def dropMapping (pgtbl va : UInt64) : MemM Unit := do
  let entry ← vmGetpte pgtbl va false
  if entry ≠ 0 then
    let pte ← load entry
    if isValid pte then
      store entry 0
    else
      return
  else
    return

/-- `uvm_destroy_pgtbl`: the pages of the trampoline and the trapframe are not
freed. -/
def uvmDestroyPgtbl (pgtbl : UInt64) (level : Nat) : MemM Unit :=
  if pgtbl = 0 then
    return
  else do
    dropMapping pgtbl trampolineVa
    dropMapping pgtbl trapframeVa
    destroyPgtbl level pgtbl

/-- Copy the page at a virtual address, if there is one, to a new page. -/
def copyMapping (old new va : UInt64) : MemM Unit := do
  let entry ← vmGetpte old va false
  if entry ≠ 0 then
    let pte ← load entry
    if isValid pte then
      let newPa ← pmemAlloc false
      assert (newPa ≠ 0) "uvm_copy_pgtbl: pmem_alloc failed"
      copyPage (pteToPa pte) newPa
      vmMappages new va newPa 4096 (pteFlags pte)
    else
      return
  else
    return

/-- The virtual address of a page of the user stack, counted downwards. -/
def ustackVa (index : Nat) : UInt64 :=
  trapframeVa - 4096 - (UInt32.ofNat index * 4096).toUInt64

/-- `uvm_copy_pgtbl`: the pages below `heap_top` and those of the user
stack. -/
def uvmCopyPgtbl (old new heapTop : UInt64) (ustackPages : UInt32) :
    MemM Unit := do
  (List.range ((heapTop.toNat + 4095) / pgSize)).forM fun index =>
    copyMapping old new (UInt64.ofNat (pgSize * index))
  (List.range ustackPages.toNat).forM fun index =>
    copyMapping old new (ustackVa index)

/-- Round up to a page boundary. -/
def pageAlign (address : UInt64) : UInt64 :=
  (address + 4095) &&& ~~~4095

/-- Free the page at a virtual address, if there is one, and its mapping. -/
def freeMapping (pgtbl va : UInt64) : MemM Unit := do
  let entry ← vmGetpte pgtbl va false
  if entry ≠ 0 then
    let pte ← load entry
    if isValid pte then
      pmemFree (pteToPa pte) false
      store entry 0
    else
      return
  else
    return

/-- Free the pages of a range of virtual addresses. -/
def freeRange (pgtbl stop : UInt64) : (fuel : Nat) → (va : UInt64) → MemM Unit
  | 0, _ => return
  | fuel + 1, va =>
      if va < stop then do
        freeMapping pgtbl va
        freeRange pgtbl stop fuel (va + 4096)
      else
        return

/-- The pages between two page boundaries, and one more. -/
def rangeFuel (start stop : UInt64) : Nat :=
  (stop.toNat - start.toNat) / pgSize + 1

/-- The loop of `uvm_heap_grow`.  The result is `false` when no page was left
and what was allocated before has been freed. -/
def growLoop (pgtbl first stop : UInt64) :
    (fuel : Nat) → (va : UInt64) → MemM Bool
  | 0, _ => return true
  | fuel + 1, va =>
      if va < stop then do
        let pa ← pmemAlloc false
        if pa = 0 then
          freeRange pgtbl va (rangeFuel first va) first
          return false
        else
          clearPage pa
          vmMappages pgtbl va pa 4096 (pteR ||| pteW ||| pteU)
          growLoop pgtbl first stop fuel (va + 4096)
      else
        return true

/-- `uvm_heap_grow`. -/
def uvmHeapGrow (pgtbl heapTop : UInt64) (len : UInt32) : MemM UInt64 := do
  let newHeapTop := heapTop + len.toUInt64
  let first := pageAlign heapTop
  let stop := pageAlign newHeapTop
  let grown ← growLoop pgtbl first stop (rangeFuel first stop) first
  if grown then
    return newHeapTop
  else
    return heapTop

/-- `uvm_heap_ungrow`. -/
def uvmHeapUngrow (pgtbl heapTop : UInt64) (len : UInt32) : MemM UInt64 := do
  let newHeapTop :=
    if heapTop - len.toUInt64 > heapTop then 0 else heapTop - len.toUInt64
  let first := pageAlign newHeapTop
  let stop := pageAlign heapTop
  freeRange pgtbl stop (rangeFuel first stop) first
  return newHeapTop

/-- The loop of `uvm_copyout`, for source bytes that are read from the memory at
each piece.  It ends before `fuel` when `fuel` is at least `len - copied`. -/
def copyoutLoop (pgtbl : UInt64) (source : Bytes → Bytes) (len : UInt32) :
    (fuel : Nat) → (dstVa : UInt64) → (copied : UInt32) → MemM Unit
  | 0, _, _ => return
  | fuel + 1, dstVa, copied =>
      if copied < len then do
        let entry ← vmGetpte pgtbl dstVa false
        assert (entry ≠ 0) "uvm_copyout: invalid virtual address"
        let pte ← load entry
        assert (isValid pte) "uvm_copyout: invalid virtual address"
        let pageOffset := dstVa &&& 4095
        let bytesInPage : UInt32 := 4096 - pageOffset.toUInt32
        let count :=
          if len - copied < bytesInPage then len - copied else bytesInPage
        modify fun state => state.setBytes (memmove state.bytes
          (pteToPa pte + pageOffset).toNat
          (fun index => source state.bytes (copied.toNat + index))
          count.toNat)
        copyoutLoop pgtbl source len fuel (dstVa + count.toUInt64)
          (copied + count)
      else
        return

/-! ## Copies between the kernel and a process -/

/-- A turn of a copy loop: its user address, the entry that was found for it,
and the number of bytes.  The source keeps no record of its turns. -/
structure Transfer where
  va : UInt64
  pte : UInt64
  count : UInt32

/-- Write a byte. -/
def setByte (bytes : Bytes) (address : UInt64) (value : UInt8) : Bytes :=
  fun index => if index = address.toNat then value else bytes index

/-- Copy byte after byte. -/
def copyBytes : (count : Nat) → (dst src : UInt64) → Bytes → Bytes
  | 0, _, _, bytes => bytes
  | count + 1, dst, src, bytes =>
      copyBytes count (dst + 1) (src + 1)
        (setByte bytes dst (bytes src.toNat))

/-- The number of bytes of a turn: up to the end of the page or of the copy. -/
def bytesToCopy (va : UInt64) (len copied : UInt32) : UInt32 :=
  let bytesInPage := (4096 - (va &&& 4095)).toUInt32
  if len - copied < bytesInPage then len - copied else bytesInPage

/-- The loop of `uvm_copyin` and `uvm_copyout`.  It ends before `fuel` when
`fuel` is at least `len - copied`. -/
def copyLoop (message : String) (out : Bool) (pgtbl : UInt64) (len : UInt32) :
    (fuel : Nat) → (va kernel : UInt64) → (copied : UInt32) →
    MemM (List Transfer)
  | 0, _, _, _ => return []
  | fuel + 1, va, kernel, copied =>
      if copied < len then do
        let entry ← vmGetpte pgtbl va false
        assert (entry ≠ 0) message
        let pte ← load entry
        assert (isValid pte) message
        let pa := pteToPa pte + (va &&& 4095)
        let count := bytesToCopy va len copied
        modify fun state => state.setBytes <|
          if out then copyBytes count.toNat pa kernel state.bytes
          else copyBytes count.toNat kernel pa state.bytes
        let rest ← copyLoop message out pgtbl len fuel (va + count.toUInt64)
          (kernel + count.toUInt64) (copied + count)
        return ⟨va, pte, count⟩ :: rest
      else
        return []

/-- `uvm_copyin`: copy from a process to the kernel. -/
def uvmCopyin (pgtbl dst src : UInt64) (len : UInt32) : MemM (List Transfer) :=
  if len = 0 then
    return []
  else
    copyLoop "uvm_copyin: invalid virtual address" false pgtbl len len.toNat src
      dst 0

/-- `uvm_copyout`: copy from the kernel to a process. -/
def uvmCopyout (pgtbl dst src : UInt64) (len : UInt32) : MemM (List Transfer) :=
  if len = 0 then
    return []
  else
    copyLoop "uvm_copyout: invalid virtual address" true pgtbl len len.toNat dst
      src 0

/-- Copy byte after byte up to the end of a string: the memory, the number of
bytes and whether the end was found. -/
def copyStrBytes :
    (count : Nat) → (dst src : UInt64) → Bytes → Bytes × Nat × Bool
  | 0, _, _, bytes => (bytes, 0, false)
  | count + 1, dst, src, bytes =>
      let copied := setByte bytes dst (bytes src.toNat)
      if copied src.toNat = 0 then
        (copied, 1, true)
      else
        let rest := copyStrBytes count (dst + 1) (src + 1) copied
        (rest.1, rest.2.1 + 1, rest.2.2)

/-- The loop of `uvm_copyin_str`, and what follows it.  It ends before `fuel`
when `fuel` is more than `maxlen - copied`. -/
def copyStrLoop (pgtbl : UInt64) (maxlen : UInt32) :
    (fuel : Nat) → (srcVa dstAddr : UInt64) → (copied : UInt32) →
    MemM (List Transfer)
  | 0, _, _, _ => return []
  | fuel + 1, srcVa, dstAddr, copied =>
      if copied < maxlen then do
        let entry ← vmGetpte pgtbl srcVa false
        assert (entry ≠ 0) "uvm_copyin_str: invalid virtual address"
        let pte ← load entry
        assert (isValid pte) "uvm_copyin_str: invalid virtual address"
        let srcPa := pteToPa pte + (srcVa &&& 4095)
        let state ← get
        let (bytes, read, ended) := copyStrBytes
          (bytesToCopy srcVa maxlen copied).toNat dstAddr srcPa state.bytes
        let count := UInt32.ofNat read
        modify fun state => state.setBytes bytes
        if ended then
          return [⟨srcVa, pte, count⟩]
        else
          let rest ← copyStrLoop pgtbl maxlen fuel (srcVa + count.toUInt64)
            (dstAddr + count.toUInt64) (copied + count)
          return ⟨srcVa, pte, count⟩ :: rest
      else if copied = maxlen then do
        modify fun state => state.setBytes (setByte state.bytes (dstAddr - 1) 0)
        return []
      else
        return []

/-- `uvm_copyin_str`: copy a string from a process to the kernel. -/
def uvmCopyinStr (pgtbl dst src : UInt64) (maxlen : UInt32) :
    MemM (List Transfer) :=
  if maxlen = 0 then
    return []
  else
    copyStrLoop pgtbl maxlen (maxlen.toNat + 1) src dst 0

end Mem
end WhuOs
