import Mathlib.Tactic.Simps.Basic
import WhuOs.Common
import WhuOs.Library.Ring
import WhuOs.Library.TransitionSystem

/-!
# The block buffer cache

The cache of `buf.c`: an array of buffers threaded on a circular doubly linked
list through `head_buf`, with referenced buffers towards `head_buf.next` and
reusable ones towards `head_buf.prev`.  The critical sections of `lk_buf_cache`
in `buf_read` and `buf_release` are functions on the cache.

Processes interleave at the granularity of these sections, of taking a
buffer's `slk`, and of the completion of a disk transfer.
-/

namespace WhuOs
namespace Buf

open Library

/-- Number of buffers in the cache. -/
abbrev nBlockBuf : Nat := 64

/-- Index of a buffer in `buf_cache`. -/
abbrev BufIndex := Fin nBlockBuf

/-- The block number of a buffer bound to no block. -/
def blockNumUnused : UInt32 := 0xFFFFFFFF

/-- A pointer to a list node: the list head or an element of `buf_cache`. -/
inductive NodePtr
  | headBuf
  | bufCache (index : BufIndex)
  deriving DecidableEq

/-- The fields of `buf_t` that the cache itself reads and writes, with the
holder of the buffer's lock. -/
structure BufT where
  /-- The process holding `slk`. -/
  slk : Option Pid
  /-- The block the buffer is bound to. -/
  blockNum : UInt32
  /-- The cached bytes. -/
  data : Block
  /-- Number of references that have not been released. -/
  bufRef : UInt32

namespace BufT

/-- `buf_ref++`. -/
@[simps -fullyApplied] def retain (buf : BufT) : BufT :=
  { buf with bufRef := buf.bufRef + 1 }

/-- Bind an unreferenced buffer to a block, with one reference. -/
@[simps -fullyApplied] def bind (buf : BufT) (blockNum : UInt32) : BufT :=
  { buf with blockNum := blockNum, bufRef := 1 }

/-- `buf_ref--`. -/
@[simps -fullyApplied] def release (buf : BufT) : BufT :=
  { buf with bufRef := buf.bufRef - 1 }

/-- Unbind a buffer from its block. -/
@[simps -fullyApplied] def unbind (buf : BufT) : BufT :=
  { buf with blockNum := blockNumUnused }

/-- Store the bytes of a transfer. -/
@[simps -fullyApplied] def fill (buf : BufT) (data : Block) : BufT :=
  { buf with data := data }

/-- Set the holder of `slk`. -/
@[simps -fullyApplied] def setSlk (buf : BufT) (holder : Option Pid) : BufT :=
  { buf with slk := holder }

end BufT

/-- The cache: list pointers and buffers. -/
structure Cache where
  /-- `next` and `prev` of every node. -/
  links : Links NodePtr
  /-- The buffer inside every node of `buf_cache`. -/
  bufs : BufIndex → BufT

namespace Cache

/-- Replace one buffer. -/
def setBuf (cache : Cache) (index : BufIndex) (buf : BufT) : Cache :=
  { cache with bufs := Function.update cache.bufs index buf }

/-- Replace the list pointers. -/
def setLinks (cache : Cache) (links : Links NodePtr) : Cache :=
  { cache with links := links }

@[simp] theorem setLinks_links (cache : Cache) (links : Links NodePtr) :
    (cache.setLinks links).links = links := rfl

@[simp] theorem setLinks_bufs (cache : Cache) (links : Links NodePtr) :
    (cache.setLinks links).bufs = cache.bufs := rfl

@[simp] theorem setBuf_links (cache : Cache) (index : BufIndex) (buf : BufT) :
    (cache.setBuf index buf).links = cache.links := rfl

@[simp] theorem setBuf_bufs
    (cache : Cache) (index : BufIndex) (buf : BufT) (other : BufIndex) :
    (cache.setBuf index buf).bufs other =
      if other = index then buf else cache.bufs other :=
  Function.update_apply _ _ _ _

/-- Replacing a buffer by one that agrees on some field keeps that field of
every buffer. -/
theorem setBuf_congr {β : Type*}
    (field : BufT → β)
    (cache : Cache) (index other : BufIndex) (buf : BufT)
    (same : field buf = field (cache.bufs index)) :
    field ((cache.setBuf index buf).bufs other) =
      field (cache.bufs other) := by
  rw [setBuf_bufs]
  split
  · next equal => rw [equal, same]
  · rfl

end Cache

/-- Move a node next to the list head: to `head_buf.next` when `headNext` is
set, to `head_buf.prev` otherwise.  A node that is on no list yet has null
pointers and is only inserted.  The result is `none` if a null pointer would be
dereferenced. -/
def insertHead (links : Links NodePtr) (node : NodePtr) (headNext : Bool) :
    Option (Links NodePtr) :=
  let links := Links.Ring.unlink links node
  if headNext then
    Links.Ring.linkFirst links .headBuf node
  else
    Links.Ring.linkLast links .headBuf node

/-- Static storage before `buf_init`: null pointers and zeroed buffers. -/
def bootCache : Cache where
  links := ⟨fun _ => none, fun _ => none⟩
  bufs := fun _ => ⟨none, 0, zeroBlock, 0⟩

/-- One iteration of the loop of `buf_init`. -/
def bufInitNode (cache : Cache) (index : BufIndex) : Option Cache := do
  let cache := cache.setBuf index ⟨none, blockNumUnused, zeroBlock, 0⟩
  let links ← insertHead cache.links (.bufCache index) false
  return cache.setLinks links

/-- Initialise the list head and put every buffer on the list. -/
def bufInit (cache : Cache) : Option Cache :=
  let links := cache.links.setNext .headBuf (some .headBuf)
  let links := links.setPrev .headBuf (some .headBuf)
  (List.finRange nBlockBuf).foldlM bufInitNode (cache.setLinks links)

/-- Follow `next` from a node until a buffer bound to `blockNum` is found or
the list head is reached again.  The outer `none` stands for a null pointer or
for a walk longer than `fuel`. -/
def searchList (cache : Cache) (blockNum : UInt32) :
    (fuel : Nat) → Option NodePtr → Option (Option BufIndex)
  | 0, _ => none
  | _ + 1, none => none
  | _ + 1, some .headBuf => some none
  | fuel + 1, some (.bufCache index) =>
      if (cache.bufs index).blockNum = blockNum then
        some (some index)
      else
        searchList cache blockNum fuel (cache.links.next (.bufCache index))

/-- What the critical section of `buf_read` ends in. -/
inductive ReadOutcome
  /-- The block was found in a buffer, whose count is raised. -/
  | hit (index : BufIndex) (cache : Cache)
  /-- A reusable buffer was bound to the block. -/
  | miss (index : BufIndex) (cache : Cache)
  /-- The kernel panics. -/
  | panic (message : String)
  /-- A null pointer is dereferenced or the walk does not end. -/
  | stuck

/-- Bind the buffer before the list head to a block that is not cached. -/
def bindBuf (cache : Cache) (blockNum : UInt32) : ReadOutcome :=
  match cache.links.prev .headBuf with
  | none => .stuck
  | some .headBuf => .panic "buf_read: no available buffer"
  | some (.bufCache index) =>
      let buf := cache.bufs index
      if buf.bufRef ≠ 0 then
        .panic "buf_read: buffer still referenced"
      else
        let cache := cache.setBuf index (buf.bind blockNum)
        match insertHead cache.links (.bufCache index) true with
        | none => .stuck
        | some links => .miss index (cache.setLinks links)

/-- The critical section of `lk_buf_cache` in `buf_read`. -/
def readSection (cache : Cache) (blockNum : UInt32) : ReadOutcome :=
  match searchList cache blockNum (nBlockBuf + 1)
      (cache.links.next .headBuf) with
  | none => .stuck
  | some (some index) =>
      .hit index (cache.setBuf index (cache.bufs index).retain)
  | some none => bindBuf cache blockNum

/-- The critical section of `lk_buf_cache` in `buf_release`. -/
def releaseSection (cache : Cache) (index : BufIndex) : Option Cache :=
  let buf := (cache.bufs index).release
  if buf.bufRef = 0 then do
    let cache := cache.setBuf index buf.unbind
    let links ← insertHead cache.links (.bufCache index) false
    return cache.setLinks links
  else
    some (cache.setBuf index buf)

/-- First sector of the transfer `virtio_disk_rw` requests for a block.  The
product is taken in 32 bits before it is widened. -/
def sector (blockNum : UInt32) : Nat :=
  (blockNum * 2).toNat

/-! ## Interleaved readers -/

/-- Where a process stands inside `buf_read` or `buf_release`. -/
inductive Pc
  /-- Outside both functions. -/
  | idle
  /-- Found the block cached; about to take `slk`. -/
  | hit (index : BufIndex) (blockNum : UInt32)
  /-- Bound a buffer to the block; about to take `slk`. -/
  | miss (index : BufIndex) (blockNum : UInt32)
  /-- Holds `slk` and waits for the disk to fill the buffer. -/
  | loading (index : BufIndex) (blockNum : UInt32)
  /-- Gave `slk` back in `buf_release`; about to drop the reference. -/
  | releasing (index : BufIndex)
  deriving DecidableEq

/-- The cache shared by all processes, where each of them stands, and for each
buffer the disk offset its bytes were last transferred from since it was bound
to its block. -/
structure System where
  /-- The shared cache. -/
  cache : Cache
  /-- Position of every process. -/
  pc : Pid → Pc
  /-- Ghost record of the last transfer into each buffer since it was bound. -/
  source : BufIndex → Option Nat

namespace System

/-- Move one process. -/
def setPc (system : System) (pid : Pid) (pc : Pc) : System :=
  { system with pc := Function.update system.pc pid pc }

/-- Record the transfer a buffer's bytes come from. -/
def setSource (system : System) (index : BufIndex) (source : Option Nat) :
    System :=
  { system with source := Function.update system.source index source }

/-- Replace the cache. -/
def setCache (system : System) (cache : Cache) : System :=
  { system with cache := cache }

/-- The `slk` holder of a buffer. -/
def slk (system : System) (index : BufIndex) : Option Pid :=
  (system.cache.bufs index).slk

/-- Set the `slk` holder of a buffer. -/
def setSlk (system : System) (index : BufIndex) (holder : Option Pid) :
    System :=
  system.setCache (system.cache.setBuf index
    ((system.cache.bufs index).setSlk holder))

@[simp] theorem setPc_cache (system : System) (pid : Pid) (pc : Pc) :
    (system.setPc pid pc).cache = system.cache := rfl

@[simp] theorem setPc_source (system : System) (pid : Pid) (pc : Pc) :
    (system.setPc pid pc).source = system.source := rfl

@[simp] theorem setPc_pc
    (system : System) (pid : Pid) (pc : Pc) (other : Pid) :
    (system.setPc pid pc).pc other =
      if other = pid then pc else system.pc other :=
  Function.update_apply _ _ _ _

@[simp] theorem setSource_cache
    (system : System) (index : BufIndex) (source : Option Nat) :
    (system.setSource index source).cache = system.cache := rfl

@[simp] theorem setSource_pc
    (system : System) (index : BufIndex) (source : Option Nat) :
    (system.setSource index source).pc = system.pc := rfl

@[simp] theorem setSource_source
    (system : System) (index : BufIndex) (source : Option Nat)
    (other : BufIndex) :
    (system.setSource index source).source other =
      if other = index then source else system.source other :=
  Function.update_apply _ _ _ _

@[simp] theorem setCache_cache (system : System) (cache : Cache) :
    (system.setCache cache).cache = cache := rfl

@[simp] theorem setCache_pc (system : System) (cache : Cache) :
    (system.setCache cache).pc = system.pc := rfl

@[simp] theorem setCache_source (system : System) (cache : Cache) :
    (system.setCache cache).source = system.source := rfl

@[simp] theorem setSlk_pc
    (system : System) (index : BufIndex) (holder : Option Pid) :
    (system.setSlk index holder).pc = system.pc := rfl

@[simp] theorem setSlk_source
    (system : System) (index : BufIndex) (holder : Option Pid) :
    (system.setSlk index holder).source = system.source := rfl

@[simp] theorem setSlk_links
    (system : System) (index : BufIndex) (holder : Option Pid) :
    (system.setSlk index holder).cache.links = system.cache.links := rfl

@[simp] theorem setSlk_bufs
    (system : System) (index : BufIndex) (holder : Option Pid)
    (other : BufIndex) :
    (system.setSlk index holder).cache.bufs other =
      if other = index then (system.cache.bufs index).setSlk holder
      else system.cache.bufs other :=
  Cache.setBuf_bufs _ _ _ _

end System

/-- The atomic actions of a process. -/
inductive Action
  /-- The `lk_buf_cache` section of `buf_read`. -/
  | read (pid : Pid) (blockNum : UInt32)
  /-- Taking `slk` in `buf_read`. -/
  | acquire (pid : Pid)
  /-- The end of the disk transfer of `buf_read`. -/
  | complete (pid : Pid)
  /-- Releasing `slk` in `buf_release`. -/
  | release (pid : Pid) (index : BufIndex)
  /-- The `lk_buf_cache` section of `buf_release`. -/
  | drop (pid : Pid)

/-- The bytes a transfer from the disk stores into a buffer. -/
def transferred (disk : Nat → UInt8) (blockNum : UInt32) : Block :=
  fun offset => disk (512 * sector blockNum + offset)

/-- The interleaving of `buf_read` and `buf_release` calls over a disk. -/
inductive Step (disk : Nat → UInt8) : System → Action → System → Prop
  | readHit {system : System} {pid : Pid} {blockNum : UInt32}
      {index : BufIndex} {cache : Cache} :
      system.pc pid = .idle →
      readSection system.cache blockNum = .hit index cache →
      Step disk system (.read pid blockNum)
        ((system.setCache cache).setPc pid (.hit index blockNum))
  | readMiss {system : System} {pid : Pid} {blockNum : UInt32}
      {index : BufIndex} {cache : Cache} :
      system.pc pid = .idle →
      readSection system.cache blockNum = .miss index cache →
      Step disk system (.read pid blockNum)
        (((system.setCache cache).setSource index none).setPc pid
          (.miss index blockNum))
  | acquireHit {system : System} {pid : Pid} {blockNum : UInt32}
      {index : BufIndex} :
      system.pc pid = .hit index blockNum →
      system.slk index = none →
      Step disk system (.acquire pid)
        ((system.setSlk index (some pid)).setPc pid .idle)
  | acquireMiss {system : System} {pid : Pid} {blockNum : UInt32}
      {index : BufIndex} :
      system.pc pid = .miss index blockNum →
      system.slk index = none →
      Step disk system (.acquire pid)
        ((system.setSlk index (some pid)).setPc pid
          (.loading index blockNum))
  | complete {system : System} {pid : Pid} {blockNum : UInt32}
      {index : BufIndex} :
      system.pc pid = .loading index blockNum →
      Step disk system (.complete pid)
        (((system.setCache (system.cache.setBuf index
            ((system.cache.bufs index).fill (transferred disk
              (system.cache.bufs index).blockNum)))).setSource index
            (some (512 * sector (system.cache.bufs index).blockNum))).setPc
          pid .idle)
  | release {system : System} {pid : Pid} {index : BufIndex} :
      system.pc pid = .idle →
      system.slk index = some pid →
      Step disk system (.release pid index)
        ((system.setSlk index none).setPc pid (.releasing index))
  | drop {system : System} {pid : Pid} {index : BufIndex} {cache : Cache} :
      system.pc pid = .releasing index →
      releaseSection system.cache index = some cache →
      Step disk system (.drop pid)
        ((system.setCache cache).setPc pid .idle)

/-- Every process outside the cache, right after `buf_init`. -/
def Initial (system : System) : Prop :=
  bufInit bootCache = some system.cache ∧
    (∀ pid, system.pc pid = .idle) ∧
    ∀ index, system.source index = none

/-- The buffer cache used by any number of processes. -/
def bufSystem (disk : Nat → UInt8) : TransitionSystem System Action where
  Init := Initial
  Step := Step disk

/-- The buffer and block number with which an action makes `buf_read`
return. -/
def returns (system : System) : Action → Option (BufIndex × UInt32)
  | .acquire pid =>
      match system.pc pid with
      | .hit index blockNum => some (index, blockNum)
      | _ => none
  | .complete pid =>
      match system.pc pid with
      | .loading index blockNum => some (index, blockNum)
      | _ => none
  | _ => none

end Buf
end WhuOs
