import WhuOs.Buf.Representation
import WhuOs.Library.Program

/-!
# The calls of one process

`buf_read`, `buf_write` and `buf_release` as whole calls over the cache and the
disk, and the system calls `sys_read_block`, `sys_write_block` and
`sys_release_block` on top of them.  No other process is active, so that a lock
is free unless the process itself holds it and every transfer ends.
-/

namespace WhuOs
namespace Buf

open Library
open Program (Runs assert get modify)

/-- A request that the disk has served. -/
structure Request where
  /-- The buffer of the transfer. -/
  index : BufIndex
  /-- The bytes go to the disk. -/
  write : Bool
  deriving DecidableEq

/-- The cache, the disk, and the requests that the disk has served, the last one
first. -/
structure Machine where
  cache : Cache
  disk : Nat → UInt8
  requests : List Request

namespace Machine

/-- Replace the cache. -/
@[simps -fullyApplied] def setCache (machine : Machine) (cache : Cache) :
    Machine :=
  { machine with cache := cache }

/-- Replace one buffer. -/
def setBuf (machine : Machine) (index : BufIndex)
    (buf : BufT) : Machine :=
  machine.setCache (machine.cache.setBuf index buf)

/-- Serve a request of the disk. -/
@[simps -fullyApplied] def serve (machine : Machine) (request : Request)
    (disk : Nat → UInt8) : Machine :=
  { machine with disk := disk, requests := request :: machine.requests }

end Machine

/-- Programs that use the cache and the disk. -/
abbrev BufM := Program Machine

/-- The disk after the bytes of a buffer are stored in its block. -/
def stored (disk : Nat → UInt8) (blockNum : UInt32) (data : Block) :
    Nat → UInt8 :=
  fun address =>
    if 512 * sector blockNum ≤ address ∧
        address < 512 * sector blockNum + blockSize then
      data (address - 512 * sector blockNum)
    else
      disk address

/-- `virtio_disk_rw`. -/
def virtioDiskRw (index : BufIndex) (write : Bool) : BufM Unit :=
  modify fun machine =>
    let buf := machine.cache.bufs index
    if write then
      machine.serve ⟨index, true⟩ (stored machine.disk buf.blockNum buf.data)
    else
      (machine.setBuf index
        (buf.fill (transferred machine.disk buf.blockNum))).serve
          ⟨index, false⟩ machine.disk

/-- `spinlock_holding` of the lock of a buffer. -/
def holding (pid : Pid) (index : BufIndex) (machine : Machine) : Bool :=
  (machine.cache.bufs index).slk = some pid

/-- Set the holder of the lock of a buffer. -/
def setHolder (index : BufIndex) (holder : Option Pid) (machine : Machine) :
    Machine :=
  machine.setBuf index ((machine.cache.bufs index).setSlk holder)

/-- `spinlock_acquire` of the lock of a buffer. -/
def acquire (pid : Pid) (index : BufIndex) : BufM Unit := do
  let machine ← get
  assert (!holding pid index machine) "acquire"
  modify (setHolder index (some pid))

/-- `spinlock_release` of the lock of a buffer. -/
def release (pid : Pid) (index : BufIndex) : BufM Unit := do
  let machine ← get
  assert (holding pid index machine) "release"
  modify (setHolder index none)

/-- `buf_read`. -/
def bufRead (pid : Pid) (blockNum : UInt32) : BufM BufIndex := do
  let machine ← get
  match readSection machine.cache blockNum with
  | .hit index cache =>
      modify fun machine => machine.setCache cache
      acquire pid index
      return index
  | .miss index cache =>
      modify fun machine => machine.setCache cache
      acquire pid index
      virtioDiskRw index false
      return index
  | .panic message => Program.panic message
  | .stuck => Program.panic "unexpected exception"

/-- `buf_write`. -/
def bufWrite (pid : Pid) (index : BufIndex) : BufM Unit := do
  let machine ← get
  assert (holding pid index machine) "buf_write: buffer not locked"
  virtioDiskRw index true

/-- `buf_release`. -/
def bufRelease (pid : Pid) (index : BufIndex) : BufM Unit := do
  let machine ← get
  assert (holding pid index machine) "buf_release: buffer not locked"
  release pid index
  let machine ← get
  match releaseSection machine.cache index with
  | some cache => modify fun machine => machine.setCache cache
  | none => Program.panic "unexpected exception"

/-! ## System calls -/

/-- A `uint64` as an `int`. -/
def toInt (value : UInt64) : Int :=
  if value.toNat % 2 ^ 32 < 2 ^ 31 then (value.toNat % 2 ^ 32 : Nat)
  else (value.toNat % 2 ^ 32 : Nat) - 2 ^ 32

/-- `index_to_buf`. -/
def indexToBuf (index : Int) : Option BufIndex :=
  if index < 0 ∨ index ≥ nBlockBuf then none
  else some (Fin.ofNat nBlockBuf index.toNat)

/-- `buf_to_index`.  Every buffer is an element of `buf_cache`. -/
def bufToIndex (index : BufIndex) : Int := index.val

/-- `sys_read_block`.  The copy to the process changes no memory of the
kernel. -/
def sysReadBlock (pid : Pid) (blockNum : UInt32) : BufM UInt64 := do
  let buf ← bufRead pid blockNum
  let index := bufToIndex buf
  if index < 0 then
    return 0
  else
    return UInt64.ofInt (index + 1)

/-- `sys_write_block`.  The bytes are those at the address that the process
passes, and none if it passes null. -/
def sysWriteBlock (pid : Pid) (bufHandle : UInt64) (data : Option Block) :
    BufM UInt64 :=
  if bufHandle = 0 then
    return -1
  else
    match indexToBuf (toInt (bufHandle - 1)) with
    | none => return -1
    | some buf => do
        match data with
        | none => pure ()
        | some data => modify fun machine =>
            machine.setBuf buf ((machine.cache.bufs buf).fill data)
        bufWrite pid buf
        return 0

/-- `sys_release_block`. -/
def sysReleaseBlock (pid : Pid) (bufHandle : UInt64) : BufM UInt64 :=
  if bufHandle = 0 then
    return -1
  else
    match indexToBuf (toInt (bufHandle - 1)) with
    | none => return -1
    | some buf => do
        bufRelease pid buf
        return 0

/-! ## The list of buffers -/

/-- The list threads all buffers, in an order. -/
structure Threaded (cache : Cache) (order : List BufIndex) : Prop where
  ring : cache.links.Ring .headBuf (order.map NodePtr.bufCache)
  complete : ∀ index, index ∈ order

namespace Threaded

variable {cache result : Cache} {order : List BufIndex} {blockNum : UInt32}
  {index : BufIndex}

theorem nodup (threaded : Threaded cache order) : order.Nodup :=
  List.Nodup.of_map _ threaded.ring.nodup

theorem length_eq (threaded : Threaded cache order) :
    order.length = nBlockBuf := by
  rw [← List.toFinset_card_of_nodup threaded.nodup,
    Finset.eq_univ_of_forall fun index =>
      List.mem_toFinset.mpr (threaded.complete index)]
  exact Finset.card_fin nBlockBuf

/-- The walk of `buf_read`. -/
theorem searchList_eq (threaded : Threaded cache order) (blockNum : UInt32) :
    searchList cache blockNum (nBlockBuf + 1) (cache.links.next .headBuf) =
      some (order.find? fun index => (cache.bufs index).blockNum = blockNum) := by
  apply searchList_eq_find _ _ threaded.ring.path
  have length := threaded.length_eq
  omega

/-- A buffer that is found is bound to the block. -/
theorem readSection_hit
    (threaded : Threaded cache order)
    (outcome : readSection cache blockNum = .hit index result) :
    (cache.bufs index).blockNum = blockNum ∧
      result = cache.setBuf index (cache.bufs index).retain := by
  unfold readSection at outcome
  rw [threaded.searchList_eq] at outcome
  cases found : order.find? fun index =>
      (cache.bufs index).blockNum = blockNum with
  | none =>
      simp only [found, bindBuf] at outcome
      split at outcome <;> try contradiction
      split at outcome <;> try contradiction
      split at outcome <;> contradiction
  | some foundIndex =>
      simp only [found, ReadOutcome.hit.injEq] at outcome
      obtain ⟨rfl, rfl⟩ := outcome
      exact ⟨by simpa using List.find?_some found, rfl⟩

/-- A buffer that is bound to a block is found. -/
theorem readSection_present
    (threaded : Threaded cache order)
    (isBound : (cache.bufs index).blockNum = blockNum) :
    ∃ other result, readSection cache blockNum = .hit other result := by
  unfold readSection
  rw [threaded.searchList_eq]
  cases found : order.find? fun index =>
      (cache.bufs index).blockNum = blockNum with
  | none =>
      rw [List.find?_eq_none] at found
      exact absurd (decide_eq_true isBound)
        (found index (threaded.complete index))
  | some other => exact ⟨other, _, rfl⟩

/-- For a block that no buffer is bound to, the last buffer of the list is
bound, unless it is referenced. -/
theorem readSection_absent
    {front : List BufIndex} {last : BufIndex}
    (threaded : Threaded cache (front ++ [last]))
    (absent : ∀ index, (cache.bufs index).blockNum ≠ blockNum) :
    if (cache.bufs last).bufRef = 0 then
      ∃ links, readSection cache blockNum = .miss last
          ((cache.setBuf last ((cache.bufs last).bind blockNum)).setLinks
            links) ∧
        links.Ring .headBuf ((last :: front).map NodePtr.bufCache)
    else
      readSection cache blockNum =
        .panic "buf_read: buffer still referenced" := by
  have notFound : (front ++ [last]).find? (fun index =>
      (cache.bufs index).blockNum = blockNum) = none := by
    simp [absent]
  have isLast := threaded.ring.prev_head
  rw [List.map_append, List.map_cons, List.map_nil, List.getLastD_concat]
    at isLast
  unfold readSection
  rw [threaded.searchList_eq, notFound]
  unfold bindBuf
  simp only [isLast]
  split
  · next unreferenced =>
      obtain ⟨links, inserted, ring⟩ := insertHead_ring threaded.ring true
      refine ⟨links, ?_, by simpa using ring⟩
      simp [unreferenced, inserted]
  · rfl

/-- The last reference to a buffer is released. -/
theorem releaseSection_last
    {front back : List BufIndex}
    (threaded : Threaded cache (front ++ index :: back))
    (isLast : (cache.bufs index).bufRef = 1) :
    ∃ links, releaseSection cache index = some
        ((cache.setBuf index (cache.bufs index).release.unbind).setLinks
          links) ∧
      links.Ring .headBuf ((front ++ back ++ [index]).map NodePtr.bufCache) := by
  obtain ⟨links, inserted, ring⟩ := insertHead_ring threaded.ring false
  have released : (cache.bufs index).release.bufRef = 0 := by
    rw [BufT.release_bufRef, isLast]
    rfl
  refine ⟨links, ?_, ring⟩
  unfold releaseSection
  rw [if_pos released]
  simp [inserted]

end Threaded

/-- The list after `buf_init`. -/
theorem bufInit_threaded :
    ∃ cache, bufInit bootCache = some cache ∧
      Threaded cache (List.finRange nBlockBuf) ∧
      ∀ index, cache.bufs index = ⟨none, blockNumUnused, zeroBlock, 0⟩ := by
  obtain ⟨cache, isInit, ring, bufs⟩ := bufInit_eq_some
  exact ⟨cache, isInit, ⟨ring, List.mem_finRange⟩, bufs⟩

/-! ## What the calls do -/

/-- A block is found in the cache. -/
structure ReadHit (pid : Pid) (blockNum : UInt32) (index : BufIndex)
    (machine machine' : Machine) : Prop where
  isBound : (machine.cache.bufs index).blockNum = blockNum
  bufs : machine'.cache.bufs = Function.update machine.cache.bufs index
    ((machine.cache.bufs index).retain.setSlk (some pid))
  links : machine'.cache.links = machine.cache.links
  disk : machine'.disk = machine.disk
  requests : machine'.requests = machine.requests

/-- The last buffer of the list is recycled and filled from the disk. -/
structure ReadMiss (pid : Pid) (blockNum : UInt32) (front : List BufIndex)
    (index : BufIndex) (machine machine' : Machine) : Prop where
  absent : ∀ other, (machine.cache.bufs other).blockNum ≠ blockNum
  unreferenced : (machine.cache.bufs index).bufRef = 0
  threaded : Threaded machine'.cache (index :: front)
  bufs : machine'.cache.bufs = Function.update machine.cache.bufs index
    ⟨some pid, blockNum, transferred machine.disk blockNum, 1⟩
  disk : machine'.disk = machine.disk
  requests : machine'.requests = ⟨index, false⟩ :: machine.requests

/-- The last reference to a buffer is dropped. -/
structure Released (front back : List BufIndex) (index : BufIndex)
    (machine machine' : Machine) : Prop where
  threaded : Threaded machine'.cache (front ++ back ++ [index])
  bufs : machine'.cache.bufs = Function.update machine.cache.bufs index
    ⟨none, blockNumUnused, (machine.cache.bufs index).data, 0⟩
  disk : machine'.disk = machine.disk
  requests : machine'.requests = machine.requests

/-- The process holds the buffer of a block. -/
def Holds (pid : Pid) (machine : Machine) (blockNum : UInt32) : Prop :=
  ∃ index, (machine.cache.bufs index).slk = some pid ∧
    (machine.cache.bufs index).blockNum = blockNum

section Calls

variable {pid : Pid} {index : BufIndex} {machine machine' : Machine}
  {blockNum : UInt32} {front back order : List BufIndex}

theorem Cache.setBuf_bufs_eq (cache : Cache) (index : BufIndex) (buf : BufT) :
    (cache.setBuf index buf).bufs = Function.update cache.bufs index buf := rfl

theorem Machine.setBuf_bufs (machine : Machine) (index : BufIndex) (buf : BufT) :
    (machine.setBuf index buf).cache.bufs =
      Function.update machine.cache.bufs index buf := rfl

theorem setHolder_bufs
    (index : BufIndex) (holder : Option Pid) (machine : Machine) :
    (setHolder index holder machine).cache.bufs =
      Function.update machine.cache.bufs index
        ((machine.cache.bufs index).setSlk holder) := rfl

theorem holding_iff :
    holding pid index machine = true ↔
      (machine.cache.bufs index).slk = some pid :=
  decide_eq_true_iff

theorem acquire_runs {value : Unit} :
    (acquire pid index).Runs machine value machine' ↔
      (machine.cache.bufs index).slk ≠ some pid ∧
        machine' = setHolder index (some pid) machine := by
  unfold acquire
  simp only [Program.runs_bind, Program.runs_get, Program.runs_assert,
    Program.runs_modify, Bool.not_eq_true', ← Bool.not_eq_true, holding_iff]
  constructor
  · rintro ⟨_, _, ⟨rfl, rfl⟩, _, _, ⟨free, rfl⟩, rfl⟩
    exact ⟨free, rfl⟩
  · rintro ⟨free, rfl⟩
    exact ⟨_, _, ⟨rfl, rfl⟩, (), _, ⟨free, rfl⟩, rfl⟩

/-- `buf_read` returns the buffer of a block, or recycles the last one of the
list. -/
theorem bufRead_runs
    (threaded : Threaded machine.cache order)
    (run : (bufRead pid blockNum).Runs machine index machine') :
    ReadHit pid blockNum index machine machine' ∨
      ∃ front, order = front ++ [index] ∧
        ReadMiss pid blockNum front index machine machine' := by
  unfold bufRead at run
  obtain ⟨_, _, ⟨rfl, rfl⟩, run⟩ := Program.runs_bind.mp run
  cases outcome : readSection machine.cache blockNum with
  | hit other cache =>
      rw [outcome] at run
      simp only [Program.runs_bind, Program.runs_modify, acquire_runs,
        Program.runs_pure] at run
      obtain ⟨_, _, rfl, _, _, ⟨_, rfl⟩, rfl, rfl⟩ := run
      obtain ⟨isBound, rfl⟩ := threaded.readSection_hit outcome
      refine Or.inl ⟨isBound, ?_, rfl, rfl, rfl⟩
      rw [setHolder_bufs, Machine.setCache_cache, Cache.setBuf_bufs_eq,
        Function.update_idem, Function.update_self]
  | miss other cache =>
      rw [outcome] at run
      simp only [Program.runs_bind, Program.runs_modify, acquire_runs,
        Program.runs_pure, virtioDiskRw] at run
      obtain ⟨_, _, rfl, _, _, ⟨_, rfl⟩, _, _, rfl, rfl, rfl⟩ := run
      have absent : ∀ other, (machine.cache.bufs other).blockNum ≠ blockNum := by
        intro other isBound
        obtain ⟨_, _, found⟩ := threaded.readSection_present isBound
        rw [outcome] at found
        cases found
      rcases List.eq_nil_or_concat order with rfl | ⟨front, last, rfl⟩
      · exact absurd (threaded.complete other) List.not_mem_nil
      · rw [List.concat_eq_append] at threaded ⊢
        have misses := threaded.readSection_absent absent
        split at misses
        · next unreferenced =>
            obtain ⟨links, isMiss, ring⟩ := misses
            rw [outcome] at isMiss
            obtain ⟨rfl, rfl⟩ := ReadOutcome.miss.inj isMiss
            refine Or.inr ⟨front, rfl, absent, unreferenced, ⟨ring, ?_⟩, ?_,
              rfl, rfl⟩
            · intro index
              have member := threaded.complete index
              simpa [or_comm] using member
            · rw [if_neg Bool.false_ne_true, Machine.serve_cache,
                Machine.setBuf_bufs, setHolder_bufs, Machine.setCache_cache,
                Cache.setLinks_bufs, Cache.setBuf_bufs_eq, Function.update_idem,
                Function.update_idem, Function.update_self,
                Function.update_self]
              rfl
        · rw [outcome] at misses
          cases misses
  | panic message =>
      rw [outcome] at run
      exact absurd run Program.runs_panic
  | stuck =>
      rw [outcome] at run
      exact absurd run Program.runs_panic

/-- `buf_read` recycles the last buffer of the list for a block that no buffer
is bound to. -/
theorem bufRead_recycles
    (threaded : Threaded machine.cache (front ++ [index]))
    (absent : ∀ other, (machine.cache.bufs other).blockNum ≠ blockNum)
    (unreferenced : (machine.cache.bufs index).bufRef = 0)
    (free : (machine.cache.bufs index).slk ≠ some pid) :
    ∃ machine', (bufRead pid blockNum).Runs machine index machine' := by
  have misses := threaded.readSection_absent absent
  rw [if_pos unreferenced] at misses
  obtain ⟨links, isMiss, _⟩ := misses
  unfold bufRead
  rw [exists_congr fun _ => Program.Runs.bind_iff
    (Program.runs_get.mpr ⟨rfl, rfl⟩), isMiss]
  simp only [Program.runs_bind, Program.runs_modify, acquire_runs,
    Program.runs_pure, virtioDiskRw]
  refine ⟨_, (), _, rfl, (), _, ⟨?_, rfl⟩, (), _, rfl, trivial, rfl⟩
  rw [Machine.setCache_cache, Cache.setLinks_bufs, Cache.setBuf_bufs, if_pos rfl]
  exact free

/-- `buf_release` of a buffer with one reference that the process holds. -/
theorem bufRelease_runs
    (threaded : Threaded machine.cache (front ++ index :: back))
    (isLast : (machine.cache.bufs index).bufRef = 1)
    (held : (machine.cache.bufs index).slk = some pid) :
    ∃ machine', (bufRelease pid index).Runs machine () machine' ∧
      Released front back index machine machine' := by
  have isHolding : holding pid index machine = true := holding_iff.mpr held
  have sameRef : ((setHolder index none machine).cache.bufs index).bufRef = 1 := by
    rw [setHolder_bufs, Function.update_self]
    exact isLast
  have threaded' : Threaded (setHolder index none machine).cache
      (front ++ index :: back) := ⟨threaded.ring, threaded.complete⟩
  obtain ⟨links, isReleased, ring⟩ := threaded'.releaseSection_last sameRef
  refine ⟨machine.setCache (((setHolder index none machine).cache.setBuf index
    ((setHolder index none machine).cache.bufs index).release.unbind).setLinks
      links), ?_, ⟨ring, fun other => ?_⟩, ?_, rfl, rfl⟩
  · unfold bufRelease release
    simp only [Program.runs_bind, Program.runs_get, Program.runs_assert,
      Program.runs_modify]
    refine ⟨_, _, ⟨rfl, rfl⟩, (), _, ⟨isHolding, rfl⟩, (), _, ⟨_, _, ⟨rfl, rfl⟩,
      (), _, ⟨isHolding, rfl⟩, rfl⟩, _, _, ⟨rfl, rfl⟩, ?_⟩
    rw [isReleased]
    exact Program.runs_modify.mpr rfl
  · have member := threaded.complete other
    simpa [or_comm, or_left_comm] using member
  · rw [Machine.setCache_cache, Cache.setLinks_bufs, Cache.setBuf_bufs_eq,
      setHolder_bufs, Function.update_idem, Function.update_self]
    unfold BufT.setSlk BufT.release BufT.unbind
    rw [isLast]
    rfl

/-- `buf_release` stops the kernel for a buffer that the process does not
hold. -/
theorem bufRelease_not_held
    (notHeld : (machine.cache.bufs index).slk ≠ some pid) :
    (bufRelease pid index).exec machine =
      .error "buf_release: buffer not locked" := by
  have notHolding : holding pid index machine = false := by
    rw [Bool.eq_false_iff, Ne, holding_iff]
    exact notHeld
  unfold bufRelease
  rw [Program.Runs.exec_bind (Program.runs_get.mpr ⟨rfl, rfl⟩)]
  refine Program.exec_bind_error ?_ _
  rw [notHolding]
  rfl

/-- `buf_write` of a buffer that the process holds. -/
theorem bufWrite_runs
    (held : (machine.cache.bufs index).slk = some pid) :
    (bufWrite pid index).Runs machine ()
      (machine.serve ⟨index, true⟩ (stored machine.disk
        (machine.cache.bufs index).blockNum (machine.cache.bufs index).data)) := by
  unfold bufWrite virtioDiskRw
  simp only [Program.runs_bind, Program.runs_get, Program.runs_assert,
    Program.runs_modify]
  exact ⟨_, _, ⟨rfl, rfl⟩, (), _, ⟨holding_iff.mpr held, rfl⟩, rfl⟩

/-- `buf_write` stops the kernel for a buffer that the process does not hold. -/
theorem bufWrite_not_held
    (notHeld : (machine.cache.bufs index).slk ≠ some pid) :
    (bufWrite pid index).exec machine =
      .error "buf_write: buffer not locked" := by
  have notHolding : holding pid index machine = false := by
    rw [Bool.eq_false_iff, Ne, holding_iff]
    exact notHeld
  unfold bufWrite
  rw [Program.Runs.exec_bind (Program.runs_get.mpr ⟨rfl, rfl⟩)]
  refine Program.exec_bind_error ?_ _
  rw [notHolding]
  rfl

end Calls

end Buf
end WhuOs
