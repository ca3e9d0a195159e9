import WhuOs.Buf.Defs

/-!
# The virtio disk driver

The request queue of `virtio.c`: descriptor allocation, the avail ring written
by `virtio_disk_rw`, the used ring written by the device and consumed by
`virtio_disk_intr`.  The critical sections of `vdisk_lock` are the atomic steps
of the calling processes.  The interrupt handler holds `vdisk_lock` over its
whole loop while the device keeps running, so each iteration of the loop is a
step of its own.
-/

namespace WhuOs
namespace Virtio

open Library
open Buf (BufIndex)

/-- Number of descriptors. -/
abbrev num : Nat := 8

/-- Index of a descriptor. -/
abbrev DescIndex := Fin num

/-- What a descriptor points at. -/
inductive DescAddr
  | null
  /-- The request header on the kernel stack of the calling process. -/
  | header (pid : Nat)
  /-- The bytes of a buffer. -/
  | data (buf : BufIndex)
  /-- The status byte of the request with the given head. -/
  | status (head : DescIndex)
  deriving DecidableEq

/-- `struct VRingDesc`. -/
structure VRingDesc where
  addr : DescAddr
  len : UInt32
  flags : UInt16
  next : UInt16

/-- The descriptor is chained with another one. -/
def vringDescFNext : UInt16 := 1

/-- The device writes the descriptor's memory. -/
def vringDescFWrite : UInt16 := 2

/-- Book-keeping for the request whose chain starts at a descriptor. -/
structure Info where
  b : Option BufIndex
  status : UInt8

/-- `struct disk`: the rings shared with the device and the driver's own
book-keeping.  `avail[1]` and `avail[2 ..]` are `availIdx` and `availRing`. -/
structure Disk where
  desc : DescIndex → VRingDesc
  availIdx : UInt16
  availRing : DescIndex → UInt16
  usedId : UInt16
  usedElems : DescIndex → UInt32
  free : DescIndex → Bool
  usedIdx : UInt16
  info : DescIndex → Info

namespace Disk

@[simps -fullyApplied] def setDesc (disk : Disk) (index : DescIndex) (desc : VRingDesc) : Disk :=
  { disk with desc := Function.update disk.desc index desc }

@[simps -fullyApplied] def setFree (disk : Disk) (index : DescIndex) (free : Bool) : Disk :=
  { disk with free := Function.update disk.free index free }

@[simps -fullyApplied] def setInfo (disk : Disk) (index : DescIndex) (info : Info) : Disk :=
  { disk with info := Function.update disk.info index info }

end Disk

/-- A ring position reduced to a slot. -/
def slot (position : Nat) : DescIndex :=
  Fin.ofNat num position

/-- Find a free descriptor and mark it taken. -/
def allocDesc (disk : Disk) : Option (DescIndex × Disk) :=
  match (List.finRange num).find? disk.free with
  | some index => some (index, disk.setFree index false)
  | none => none

/-- Mark a descriptor as free. -/
def freeDesc (disk : Disk) (index : Nat) : Except String Disk :=
  if bound : index < num then
    if disk.free ⟨index, bound⟩ then
      .error "virtio_disk_intr 2"
    else
      let desc := disk.desc ⟨index, bound⟩
      .ok ((disk.setDesc ⟨index, bound⟩ { desc with addr := .null }).setFree
        ⟨index, bound⟩ true)
  else
    .error "virtio_disk_intr 1"

/-- Free a chain of descriptors.  The result is `none` when the chain is longer
than `fuel`. -/
def freeChain (disk : Disk) (index : Nat) :
    (fuel : Nat) → Except String (Option Disk)
  | 0 => .ok none
  | fuel + 1 => do
      let disk ← freeDesc disk index
      if bound : index < num then
        let desc := disk.desc ⟨index, bound⟩
        if desc.flags &&& vringDescFNext ≠ 0 then
          freeChain disk desc.next.toNat fuel
        else
          return some disk
      else
        return some disk

/-- The three descriptors of a request: header, data and status. -/
structure Triple where
  head : DescIndex
  data : DescIndex
  status : DescIndex
  deriving DecidableEq

/-- A descriptor belongs to a request. -/
def Triple.Owns (triple : Triple) (index : DescIndex) : Prop :=
  index = triple.head ∨ index = triple.data ∨ index = triple.status

instance (triple : Triple) : DecidablePred triple.Owns := fun _ => by
  unfold Triple.Owns
  infer_instance

/-- Allocate three descriptors, giving back the ones already taken when the
queue has no three left. -/
def alloc3Desc (disk : Disk) : Except String (Option Triple × Disk) :=
  match allocDesc disk with
  | none => .ok (none, disk)
  | some (first, disk) =>
      match allocDesc disk with
      | none => do
          let disk ← freeDesc disk first
          return (none, disk)
      | some (second, disk) =>
          match allocDesc disk with
          | none => do
              let disk ← freeDesc disk first
              let disk ← freeDesc disk second
              return (none, disk)
          | some (third, disk) => .ok (some ⟨first, second, third⟩, disk)

/-- Format the descriptors of a request, record its buffer, and make it
available to the device. -/
def submit (disk : Disk) (pid : Nat) (buf : BufIndex) (write : Bool)
    (idx : Triple) : Disk :=
  let disk := disk.setDesc idx.head
    ⟨.header pid, 16, vringDescFNext, UInt16.ofNat idx.data⟩
  let flags := if write then 0 else vringDescFWrite
  let disk := disk.setDesc idx.data
    ⟨.data buf, 1024, flags ||| vringDescFNext, UInt16.ofNat idx.status⟩
  let disk := disk.setInfo idx.head ⟨(disk.info idx.head).b, 0⟩
  let disk := disk.setDesc idx.status
    ⟨.status idx.head, 1, vringDescFWrite, 0⟩
  let disk := disk.setInfo idx.head
    ⟨some buf, (disk.info idx.head).status⟩
  let disk := { disk with
    availRing := Function.update disk.availRing (slot disk.availIdx.toNat)
      (UInt16.ofNat idx.head) }
  { disk with availIdx := disk.availIdx + 1 }

/-! ## Processes, interrupt handler and device -/

/-- Where a process stands in `virtio_disk_rw`. -/
inductive Pc
  /-- Outside the driver. -/
  | idle
  /-- Called with a buffer; has no descriptors yet. -/
  | allocating (buf : BufIndex) (write : Bool)
  /-- Submitted a request and waits for its completion. -/
  | waiting (buf : BufIndex) (idx : Triple)
  deriving DecidableEq

/-- The driver, its callers and the device, with a ghost record of who owns a
chain, whose chain the device has completed, and the used-ring entries written
and consumed so far. -/
structure System where
  disk : Disk
  /-- `b->disk` of every buffer. -/
  bufDisk : BufIndex → Bool
  pc : Nat → Pc
  /-- The interrupt handler is between taking and releasing `vdisk_lock`. -/
  intr : Bool
  /-- The device has read the avail ring up to here. -/
  lastAvail : UInt16
  /-- Heads of the chains the device works on. -/
  inflight : List DescIndex
  owner : DescIndex → Nat
  served : Nat → Bool
  usedLog : List DescIndex
  consumedLog : List DescIndex

namespace System

@[simps -fullyApplied] def setPc (system : System) (pid : Nat) (pc : Pc) : System :=
  { system with pc := Function.update system.pc pid pc }

@[simps -fullyApplied] def setDisk (system : System) (disk : Disk) : System :=
  { system with disk := disk }

@[simps -fullyApplied] def setBufDisk (system : System) (buf : BufIndex) (pending : Bool) : System :=
  { system with bufDisk := Function.update system.bufDisk buf pending }

/-- The buffer of the call a process is in. -/
def Active (system : System) (pid : Nat) (buf : BufIndex) : Prop :=
  (∃ write, system.pc pid = .allocating buf write) ∨
    ∃ idx, system.pc pid = .waiting buf idx

end System

/-- The actions of processes, interrupt handler and device. -/
inductive Action
  | call (pid : Nat) (buf : BufIndex) (write : Bool)
  | attempt (pid : Nat)
  | finish (pid : Nat)
  | intrEnter
  | intrEntry
  | intrExit
  | deviceFetch
  | deviceComplete (head : DescIndex)

/-- The state after a process submitted a request. -/
def submitted (system : System) (disk : Disk) (pid : Nat) (buf : BufIndex)
    (write : Bool) (idx : Triple) : System :=
  let system := system.setDisk (submit disk pid buf write idx)
  let system := system.setBufDisk buf true
  let system := system.setPc pid (.waiting buf idx)
  { system with
    owner := Function.update system.owner idx.head pid
    served := Function.update system.served pid false }

/-- The state after the device completed a chain: it writes status 0 through
the last descriptor of the chain and appends the head to the used ring. -/
def completed (system : System) (head statusOf : DescIndex) : System :=
  let disk := system.disk.setInfo statusOf
    ⟨(system.disk.info statusOf).b, 0⟩
  let disk := { disk with
    usedElems := Function.update disk.usedElems (slot disk.usedId.toNat)
      (UInt32.ofNat head)
    usedId := disk.usedId + 1 }
  { system with
    disk := disk
    inflight := system.inflight.erase head
    served := Function.update system.served (system.owner head) true
    usedLog := system.usedLog ++ [head] }

/-- The descriptor a chain continues with. -/
def nextDesc (disk : Disk) (index : DescIndex) : DescIndex :=
  slot (disk.desc index).next.toNat

/-- The steps of the driver, its callers and the device. -/
inductive Step : System → Action → System → Prop
  /-- A process calls `virtio_disk_rw` with a buffer no other call uses. -/
  | call {system : System} {pid : Nat} {buf : BufIndex} {write : Bool} :
      system.pc pid = .idle →
      (∀ other, ¬system.Active other buf) →
      Step system (.call pid buf write)
        (system.setPc pid (.allocating buf write))
  /-- The section up to sleeping for descriptors. -/
  | attemptFail {system : System} {pid : Nat} {buf : BufIndex} {write : Bool}
      {disk : Disk} :
      system.pc pid = .allocating buf write →
      system.intr = false →
      alloc3Desc system.disk = .ok (none, disk) →
      Step system (.attempt pid) (system.setDisk disk)
  /-- The section up to sleeping for the request's completion. -/
  | attempt {system : System} {pid : Nat} {buf : BufIndex} {write : Bool}
      {idx : Triple} {disk : Disk} :
      system.pc pid = .allocating buf write →
      system.intr = false →
      alloc3Desc system.disk = .ok (some idx, disk) →
      Step system (.attempt pid) (submitted system disk pid buf write idx)
  /-- The section from waking up with `b->disk` cleared to the return. -/
  | finish {system : System} {pid : Nat} {buf : BufIndex} {idx : Triple}
      {disk : Disk} :
      system.pc pid = .waiting buf idx →
      system.intr = false →
      system.bufDisk buf = false →
      freeChain (system.disk.setInfo idx.head
          ⟨none, (system.disk.info idx.head).status⟩) idx.head (num + 1) =
        .ok (some disk) →
      Step system (.finish pid) ((system.setDisk disk).setPc pid .idle)
  | intrEnter {system : System} :
      system.intr = false →
      Step system .intrEnter { system with intr := true }
  /-- One iteration of the loop of `virtio_disk_intr`. -/
  | intrEntry {system : System} {id : DescIndex} {buf : BufIndex} :
      system.intr = true →
      system.disk.usedIdx.toNat % num ≠ system.disk.usedId.toNat % num →
      (system.disk.usedElems (slot system.disk.usedIdx.toNat)).toNat = id →
      (system.disk.info id).status = 0 →
      (system.disk.info id).b = some buf →
      Step system .intrEntry
        { system.setBufDisk buf false with
          disk := { system.disk with
            usedIdx := UInt16.ofNat ((system.disk.usedIdx.toNat + 1) % num) }
          consumedLog := system.consumedLog ++ [id] }
  | intrExit {system : System} :
      system.intr = true →
      system.disk.usedIdx.toNat % num = system.disk.usedId.toNat % num →
      Step system .intrExit { system with intr := false }
  /-- The device takes the next entry of the avail ring. -/
  | deviceFetch {system : System} {head : DescIndex} :
      system.lastAvail ≠ system.disk.availIdx →
      (system.disk.availRing (slot system.lastAvail.toNat)).toNat = head →
      Step system .deviceFetch
        { system with
          lastAvail := system.lastAvail + 1
          inflight := system.inflight ++ [head] }
  /-- The device finishes one of the chains it works on. -/
  | deviceComplete {system : System} {head statusOf : DescIndex} :
      head ∈ system.inflight →
      (system.disk.desc (nextDesc system.disk
          (nextDesc system.disk head))).addr = .status statusOf →
      Step system (.deviceComplete head) (completed system head statusOf)

/-- The state after `virtio_disk_init`: all descriptors free, empty rings.  The
descriptor contents are arbitrary. -/
def Initial (system : System) : Prop :=
  (∀ index, system.disk.free index = true) ∧
    system.disk.availIdx = 0 ∧ system.disk.usedId = 0 ∧
    system.disk.usedIdx = 0 ∧ system.lastAvail = 0 ∧
    system.inflight = [] ∧ system.intr = false ∧
    (∀ pid, system.pc pid = .idle) ∧
    system.usedLog = [] ∧ system.consumedLog = []

/-- The disk driver with any number of callers. -/
def driverSystem : TransitionSystem System Action where
  Init := Initial
  Step := Step

end Virtio
end WhuOs
