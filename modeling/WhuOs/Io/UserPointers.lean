import WhuOs.Io.Delivery
import WhuOs.Mem.UserCopies

/-!
# Pointers of a process

`inode_read_data`, `dir_get_entries` and `inode_write_data` use a pointer of a
process as if it were one of the kernel.  They do what a transfer through a
kernel buffer and the copies of `uvm.c` does where the page table of the kernel
agrees with the one of the process.
-/

namespace WhuOs
namespace Io

open Library
open Library.Bytes
open Fs (FsM Slot)
open Mem (MemM Tables SameTables OffTables CopyRange IsMapped HasFlags physical
  translate vaMax pteR pteW pteU)
open Program (Runs)

variable {ρ : Type} {root : ρ → UInt64} {k r : ρ} {mem : Mem.State}
  {free : Bool → List UInt64} {addr kbuf dst : UInt64} {n len : UInt32}

/-! ## The kernel's table -/

theorem kernelByte_eq
    (tables : Tables mem.bytes root free) (isRoot : mem.kernelPgtbl = root k)
    (present : root k ≠ 0) {bytes : Bytes}
    (same : SameTables root free mem.bytes bytes) (flags va : UInt64) :
    kernelByte (mem.setBytes bytes) flags va = kernelByte mem flags va := by
  have translated := same.translate_eq tables present va
  unfold kernelByte
  rw [Mem.State.setBytes_kernelPgtbl, Mem.State.setBytes_bytes, isRoot,
    translated]

/-- Stores off the tables keep the tables. -/
theorem sameTables_put
    (tables : Tables mem.bytes root free) {target : Nat → Nat}
    {value : Nat → UInt8} {count : Nat}
    (off : ∀ index < count, OffTables mem.bytes root (target index)) :
    SameTables root free mem.bytes (put mem.bytes target value count) := by
  refine .of_offTables tables fun address changed => ?_
  by_contra onTable
  refine changed (put_of_ne fun index bound same => onTable ?_)
  exact same ▸ off index bound

/-- The kernel stores bytes where its table maps their addresses to. -/
theorem runs_storeBytes_put
    (tables : Tables mem.bytes root free) (isRoot : mem.kernelPgtbl = root k)
    (present : root k ≠ 0) {target : Nat → Nat} {data : List UInt8}
    (reaches : ∀ index < data.length, ∃ pa,
      kernelByte mem pteW (dst + UInt64.ofNat index) = some pa ∧
        pa.toNat = target index)
    (off : ∀ index < data.length, OffTables mem.bytes root (target index)) :
    (storeBytes dst data).Runs mem () (mem.setBytes
      (put mem.bytes target (fun index => data.getD index 0) data.length)) := by
  induction data generalizing mem dst target with
  | nil => exact Program.runs_pure.mpr ⟨rfl, rfl⟩
  | cons value rest inductionHypothesis =>
      obtain ⟨pa, reached, isTarget⟩ := reaches 0 (Nat.succ_pos _)
      have first : dst + UInt64.ofNat 0 = dst := UInt64.add_zero dst
      have next : ∀ index, dst + 1 + UInt64.ofNat index =
          dst + UInt64.ofNat (1 + index) := fun index =>
        Mem.ofNat_add_assoc dst 1 index
      rw [first] at reached
      have stored : put mem.bytes target
          (fun index => (value :: rest).getD index 0) 1 =
            Mem.setByte mem.bytes pa value := by
        funext address
        change Function.update mem.bytes (target 0) value address = _
        rw [Function.update_apply, ← isTarget]
        rfl
      have same : SameTables root free mem.bytes
          (Mem.setByte mem.bytes pa value) :=
        stored ▸ sameTables_put tables fun index bound =>
          off index (Nat.lt_of_lt_of_le bound (Nat.succ_pos _))
      have run := @inductionHypothesis
        (mem.setBytes (Mem.setByte mem.bytes pa value)) (dst + 1) same.tables
        isRoot (fun index => target (1 + index))
        (fun index bound => by
          rw [kernelByte_eq tables isRoot present same, next]
          exact reaches _ (by rw [List.length_cons]; omega))
        (fun index bound => (same.offTables_iff _).mpr
          (off _ (by rw [List.length_cons]; omega)))
      have later : ∀ index, (value :: rest).getD (1 + index) 0 =
          rest.getD index 0 := fun index => by
        rw [Nat.add_comm]
        rfl
      refine Program.runs_bind.mpr ⟨(), _,
        runs_storeByte.mpr ⟨pa, reached, rfl⟩, ?_⟩
      rw [List.length_cons, Nat.add_comm, put_add, stored]
      simp only [later]
      exact run

/-! ## Transfers of a process -/

/-- A buffer of the kernel, which maps it at its own addresses. -/
structure KernelBuffer (mem : Mem.State) (kbuf : UInt64) (n : UInt32) :
    Prop where
  store : ∀ index < n.toNat, kernelByte mem pteW (kbuf + UInt64.ofNat index) =
    some (kbuf + UInt64.ofNat index)
  load : ∀ index < n.toNat, kernelByte mem pteR (kbuf + UInt64.ofNat index) =
    some (kbuf + UInt64.ofNat index)

/-- The page table of a process maps an address for the process to write. -/
def UserMapped (mem : Mem.State) (pgtbl va : UInt64) : Prop :=
  va < vaMax ∧ ∃ pa flags, translate mem.bytes pgtbl va = some (pa, flags) ∧
    HasFlags (pteU ||| pteW) flags

/-- A range of a process, and a kernel buffer of its length. -/
structure UserRange (root : ρ → UInt64) (k r : ρ) (mem : Mem.State)
    (addr kbuf : UInt64) (n : UInt32) : Prop where
  isRoot : mem.kernelPgtbl = root k
  copy : CopyRange root r mem addr kbuf n
  mapped : ∀ index < n.toNat,
    UserMapped mem (root r) (addr + UInt64.ofNat index)
  buffer : KernelBuffer mem kbuf n

/-- The kernel reads and writes at an address the byte that a page table has
there. -/
def SameByte (mem : Mem.State) (pgtbl va : UInt64) : Prop :=
  kernelByte mem pteR va = (translate mem.bytes pgtbl va).map Prod.fst ∧
    kernelByte mem pteW va = (translate mem.bytes pgtbl va).map Prod.fst

/-- Two machines that differ in a buffer of the kernel only. -/
structure SameOutside (kbuf : UInt64) (n : UInt32)
    (machine machine' : Machine) : Prop where
  fs : machine'.fs = machine.fs
  frame : machine'.mem = machine.mem.setBytes machine'.mem.bytes
  bytes : ∀ address,
    ¬(kbuf.toNat ≤ address ∧ address < kbuf.toNat + n.toNat) →
    machine'.mem.bytes address = machine.mem.bytes address

/-- Two calls have the same result and the same effect, but for a buffer of the
kernel. -/
structure SameCall (kbuf : UInt64) (n : UInt32) (call call' : IoM UInt32)
    (machine : Machine) : Prop where
  there : ∀ result after, call.Runs machine result after →
    ∃ after', call'.Runs machine result after' ∧ SameOutside kbuf n after after'
  back : ∀ result after', call'.Runs machine result after' →
    ∃ after, call.Runs machine result after ∧ SameOutside kbuf n after after'

/-- A read or a listing through a kernel buffer and `uvm_copyout`. -/
def throughCopyout (pgtbl kbuf addr : UInt64)
    (call : UInt64 → Bool → IoM UInt32) : IoM UInt32 := do
  let n ← call kbuf false
  let _ ← onMem (Mem.uvmCopyout pgtbl addr kbuf n)
  return n

/-- A write through `uvm_copyin` and a kernel buffer. -/
def throughCopyin (pgtbl kbuf addr : UInt64) (len : UInt32)
    (call : UInt64 → Bool → IoM UInt32) : IoM UInt32 := do
  let _ ← onMem (Mem.uvmCopyin pgtbl kbuf addr len)
  call kbuf false

/-- The transfers of a length between files and an address of a process go
through a page table. -/
structure GoesThrough (pgtbl kbuf addr : UInt64) (len : UInt32)
    (machine : Machine) : Prop where
  reads : ∀ ip offset, SameCall kbuf len
    (inodeReadData ip offset len addr true)
    (throughCopyout pgtbl kbuf addr (inodeReadData ip offset len)) machine
  lists : ∀ pip, SameCall kbuf len (dirGetEntries pip len addr true)
    (throughCopyout pgtbl kbuf addr (dirGetEntries pip len)) machine
  writes : ∀ ip offset, SameCall kbuf len
    (inodeWriteData ip offset len addr true)
    (throughCopyin pgtbl kbuf addr len (inodeWriteData ip offset len)) machine

section Ranges

variable (tables : Tables mem.bytes root free) (presentKernel : root k ≠ 0)
  (present : root r ≠ 0)

include tables presentKernel present

/-- A part of a range, after bytes off the tables have changed. -/
theorem UserRange.part
    {bytes : Bytes} {start : Nat} (range : UserRange root k r mem addr kbuf n)
    (same : SameTables root free mem.bytes bytes)
    (within : start + len.toNat ≤ n.toNat) :
    UserRange root k r (mem.setBytes bytes) (addr + UInt64.ofNat start) kbuf
      len := by
  have translated := same.translate_eq tables present
  have kernels := kernelByte_eq tables range.isRoot presentKernel same
  have room := range.copy.room
  refine ⟨range.isRoot, ⟨by omega, fun index bound => ?_,
    fun index bound address isAt => ?_⟩, fun index bound => ?_,
    ⟨fun index bound => ?_, fun index bound => ?_⟩⟩
  · exact (same.offTables_iff _).mpr (range.copy.kernelOff index (by omega))
  · unfold Mem.ByteAt at isAt
    rw [Mem.State.setBytes_bytes, translated, Mem.ofNat_add_assoc] at isAt
    obtain ⟨off, differs⟩ := range.copy.userOff (start + index) (by omega)
      address isAt
    exact ⟨(same.offTables_iff _).mpr off, fun other bound' =>
      differs other (by omega)⟩
  · unfold UserMapped
    rw [Mem.State.setBytes_bytes, translated, Mem.ofNat_add_assoc]
    exact range.mapped (start + index) (by omega)
  · rw [kernels]
    exact range.buffer.store index (by omega)
  · rw [kernels]
    exact range.buffer.load index (by omega)

omit presentKernel in
theorem UserRange.isMapped
    (range : UserRange root k r mem addr kbuf n) {index : Nat}
    (bound : index < n.toNat) :
    IsMapped mem.bytes (root r) (addr + UInt64.ofNat index) := by
  obtain ⟨low, pa, flags, found, _⟩ := range.mapped index bound
  refine (Mem.isMapped_iff_translate tables present).mpr ⟨low, ?_⟩
  rw [found]
  exact Option.some_ne_none _

omit presentKernel in
/-- The bytes of a range are off the tables and apart from the buffer. -/
theorem UserRange.physical_off
    (range : UserRange root k r mem addr kbuf n) {index : Nat}
    (bound : index < n.toNat) :
    OffTables mem.bytes root
        (physical mem.bytes (root r) (addr + UInt64.ofNat index)) ∧
      ∀ other < n.toNat,
        physical mem.bytes (root r) (addr + UInt64.ofNat index) ≠
          kbuf.toNat + other :=
  range.copy.userOff index bound _
    (((range.isMapped tables present bound).byteAt_iff tables present _).mpr
      rfl)

omit presentKernel in
theorem SameByte.reached
    {va : UInt64} (isMapped : IsMapped mem.bytes (root r) va)
    (same : SameByte mem (root r) va) :
    ∃ pa, kernelByte mem pteR va = some pa ∧
      kernelByte mem pteW va = some pa ∧
      pa.toNat = physical mem.bytes (root r) va := by
  obtain ⟨pa, found, isPhysical⟩ := isMapped.translate tables present
  obtain ⟨loads, stores⟩ := same
  rw [found] at loads stores
  exact ⟨pa, loads, stores, isPhysical⟩

/-- Stores to the buffer that are copied out. -/
theorem UserRange.copiedOut
    (range : UserRange root k r mem addr kbuf len) {bytes : List UInt8}
    (short : bytes.length ≤ len.toNat) :
    ∃ buffered trace final, (storeBytes kbuf bytes).Runs mem () buffered ∧
      (Mem.uvmCopyout (root r) addr kbuf (UInt32.ofNat bytes.length)).Runs
        buffered trace final ∧
      final = mem.setBytes final.bytes ∧
      ∀ address, ¬(kbuf.toNat ≤ address ∧ address < kbuf.toNat + len.toNat) →
        final.bytes address = put mem.bytes
          (fun index => physical mem.bytes (root r) (addr + UInt64.ofNat index))
          (fun index => bytes.getD index 0) bytes.length address := by
  have lenBound := len.toNat_lt
  have room := range.copy.room
  have isLength : (UInt32.ofNat bytes.length).toNat = bytes.length := by
    rw [UInt32.toNat_ofNat']
    exact Nat.mod_eq_of_lt (by omega)
  have isBuffer : ∀ index < bytes.length,
      (kbuf + UInt64.ofNat index).toNat = kbuf.toNat + index :=
    fun index bound => Mem.add_ofNat_toNat (by omega)
  have bufferOff : ∀ index < bytes.length,
      OffTables mem.bytes root (kbuf.toNat + index) := fun index bound =>
    range.copy.kernelOff index (by omega)
  have buffered := @runs_storeBytes_put _ _ _ _ _ kbuf tables range.isRoot
    presentKernel (kbuf.toNat + ·) bytes (fun index bound => ⟨_,
      range.buffer.store index (by omega), isBuffer index bound⟩) bufferOff
  have kept := @sameTables_put _ _ _ _ tables (kbuf.toNat + ·)
    (fun index => bytes.getD index 0) bytes.length bufferOff
  have range' := @UserRange.part _ _ _ _ _ _ _ _ _ (UInt32.ofNat bytes.length)
    tables presentKernel present _ 0 range kept (by omega)
  rw [show UInt64.ofNat 0 = 0 from rfl, UInt64.add_zero] at range'
  have ready := range'.copy.ready kept.tables present true
  have zero : (0 : UInt32).toNat = 0 := rfl
  obtain ⟨trace, copied⟩ := @Mem.copyLoop_put _ _ _ _ _ _
    "uvm_copyout: invalid virtual address" _ _ _
    (UInt32.ofNat bytes.length).toNat present ready (by omega)
    (fun index bound => range'.isMapped kept.tables present
      (by rwa [zero, Nat.sub_zero] at bound))
    fun index bound other bound' =>
      (range'.physical_off kept.tables present
        (by rwa [zero, Nat.sub_zero] at bound)).2 other
        (by rwa [zero, Nat.sub_zero] at bound')
  rw [← Mem.uvmCopyout_eq, zero, Nat.sub_zero, isLength] at copied
  refine ⟨_, trace, _, buffered, copied, rfl, fun address outside => ?_⟩
  have notBuffer : ∀ index < bytes.length, kbuf.toNat + index ≠ address :=
    fun index bound isAddress => outside (by omega)
  refine put_congr (put_of_ne notBuffer) (fun index bound => ?_)
    fun index bound => ?_
  · exact kept.physical_eq r _
  · exact @put_target (kbuf.toNat + ·) bytes.length mem.bytes _
      (fun _ _ _ _ => Nat.add_left_cancel) index bound

/-- Stores to a range that the kernel sees as the process does, and stores to the
buffer that are copied out. -/
theorem storeBytes_same
    (range : UserRange root k r mem addr kbuf len) {bytes : List UInt8}
    (short : bytes.length ≤ len.toNat) (same : ∀ index < bytes.length,
      SameByte mem (root r) (addr + UInt64.ofNat index)) :
    ∃ direct buffered trace final, (storeBytes addr bytes).Runs mem () direct ∧
      (storeBytes kbuf bytes).Runs mem () buffered ∧
      (Mem.uvmCopyout (root r) addr kbuf (UInt32.ofNat bytes.length)).Runs
        buffered trace final ∧
      ∀ fs, SameOutside kbuf len ⟨fs, direct⟩ ⟨fs, final⟩ := by
  have direct := runs_storeBytes_put tables range.isRoot presentKernel
    (fun index bound => by
      obtain ⟨pa, _, stores, isPhysical⟩ := (same index bound).reached tables
        present (range.isMapped tables present (by omega))
      exact ⟨pa, stores, isPhysical⟩)
    fun index bound => (range.physical_off tables present
      (Nat.lt_of_lt_of_le bound short)).1
  obtain ⟨buffered, trace, final, run, copied, frame, outside⟩ :=
    range.copiedOut tables presentKernel present short
  exact ⟨_, buffered, trace, final, direct, run, copied, fun fs =>
    ⟨rfl, frame, outside⟩⟩

/-- Reads into a range that the kernel sees as the process does. -/
theorem Delivers.sameCall
    {call : UInt64 → Bool → IoM UInt32} {source : FsM (List UInt8)}
    (delivers : Delivers call source)
    (short : ∀ fs bytes fs', source.Runs fs bytes fs' →
      bytes.length ≤ len.toNat)
    (range : UserRange root k r mem addr kbuf len)
    (same : ∀ index < len.toNat,
      SameByte mem (root r) (addr + UInt64.ofNat index)) (fs : Fs.State) :
    SameCall kbuf len (call addr true)
      (throughCopyout (root r) kbuf addr call) ⟨fs, mem⟩ := by
  constructor
  · intro result after run
    obtain ⟨bytes, reads, stored, rfl⟩ := (delivers _ _ _ _ _).mp run
    have atMost := short _ _ _ reads
    obtain ⟨direct, buffered, trace, final, run₁, run₂, run₃, outside⟩ :=
      storeBytes_same tables presentKernel present range atMost
        fun index bound => same index (by omega)
    obtain ⟨_, isDirect⟩ := stored.deterministic run₁
    refine ⟨⟨after.fs, final⟩, Program.runs_bind.mpr ⟨_,
      ⟨after.fs, buffered⟩, (delivers _ _ _ _ _).mpr ⟨bytes, reads, run₂, rfl⟩,
      Program.runs_bind.mpr ⟨trace, _, runs_onMem.mpr ⟨final, run₃, rfl⟩,
        Program.runs_pure.mpr ⟨rfl, rfl⟩⟩⟩, ?_⟩
    have isAfter : after = ⟨after.fs, direct⟩ := by
      rw [← isDirect]
    rw [isAfter]
    exact outside after.fs
  · intro result after' run
    obtain ⟨_, middle, first, run⟩ := Program.runs_bind.mp run
    obtain ⟨bytes, reads, stored, rfl⟩ := (delivers _ _ _ _ _).mp first
    have atMost := short _ _ _ reads
    obtain ⟨direct, buffered, trace, final, run₁, run₂, run₃, outside⟩ :=
      storeBytes_same tables presentKernel present range atMost
        fun index bound => same index (by omega)
    obtain ⟨_, isBuffered⟩ := stored.deterministic run₂
    obtain ⟨_, _, second, run⟩ := Program.runs_bind.mp run
    obtain ⟨rfl, rfl⟩ := Program.runs_pure.mp run
    obtain ⟨mem', copied, rfl⟩ := runs_onMem.mp second
    rw [isBuffered] at copied
    obtain ⟨_, rfl⟩ := copied.deterministic run₃
    exact ⟨⟨middle.fs, direct⟩, (delivers _ _ _ _ _).mpr
      ⟨bytes, reads, run₁, rfl⟩, outside middle.fs⟩

omit tables presentKernel present in
/-- A write looks at the bytes it writes only. -/
theorem writeLoop_congr
    {ip : Slot} {offset total : UInt32} {src src' : Bytes} {fuel : Nat}
    (same : ∀ index < len.toNat, src index = src' index) :
    Fs.writeLoop ip offset len total src fuel =
      Fs.writeLoop ip offset len total src' fuel := by
  induction fuel generalizing offset total with
  | zero => rfl
  | succ fuel inductionHypothesis =>
      unfold Fs.writeLoop
      by_cases more : total < len
      · obtain ⟨_, within, _⟩ := Fs.pieceLength_bounds offset more
        have moved : ∀ (data : Block) (start : Nat),
            memmove data start (fun index => src (total.toNat + index))
                (Fs.pieceLength offset len total).toNat =
              memmove data start (fun index => src' (total.toNat + index))
                (Fs.pieceLength offset len total).toNat :=
          fun data start => memmove_congr fun index bound =>
            same _ (by omega)
        simp only [if_pos more, moved, inductionHypothesis]
      · rw [if_neg more, if_neg more]

omit tables presentKernel present in
theorem inodeWriteData_congr
    {src src' : Bytes} (same : ∀ index < len.toNat, src index = src' index)
    (ip : Slot) (offset : UInt32) :
    Fs.inodeWriteData ip offset len src =
      Fs.inodeWriteData ip offset len src' := by
  unfold Fs.inodeWriteData
  rw [writeLoop_congr same]

/-- Writes from a range that the kernel sees as the process does. -/
theorem UserRange.sameWrite
    (range : UserRange root k r mem addr kbuf len)
    (same : ∀ index < len.toNat,
      SameByte mem (root r) (addr + UInt64.ofNat index))
    (ip : Slot) (offset : UInt32) (fs : Fs.State) :
    SameCall kbuf len (inodeWriteData ip offset len addr true)
      (throughCopyin (root r) kbuf addr len (inodeWriteData ip offset len))
      ⟨fs, mem⟩ := by
  have room := range.copy.room
  obtain ⟨trace, mem', copied, frame, kept, moved⟩ :=
    Mem.copyLoop_translated tables present range.copy
      "uvm_copyin: invalid virtual address" (fun index bound =>
        (Mem.isMapped_iff_translate tables present).mp
          (range.isMapped tables present bound)) false nofun
  rw [← Mem.uvmCopyin_eq] at copied
  have isBuffer : ∀ index < len.toNat,
      (kbuf + UInt64.ofNat index).toNat = kbuf.toNat + index :=
    fun index bound => Mem.add_ofNat_toNat (by omega)
  have buffer : ∀ index < len.toNat, kernelByte mem' pteR
      (kbuf + UInt64.ofNat index) = some (kbuf + UInt64.ofNat index) := by
    intro index bound
    rw [frame, kernelByte_eq tables range.isRoot presentKernel kept]
    exact range.buffer.load index bound
  have reached : ∀ index < len.toNat, ∃ pa, kernelByte mem pteR
        (addr + UInt64.ofNat index) = some pa ∧
      pa.toNat = physical mem.bytes (root r) (addr + UInt64.ofNat index) := by
    intro index bound
    obtain ⟨pa, loads, _, isPhysical⟩ := (same index bound).reached tables
      present (range.isMapped tables present bound)
    exact ⟨pa, loads, isPhysical⟩
  have sameBytes : ∀ index < len.toNat,
      loaded mem (addr + UInt64.ofNat index) =
        loaded mem' (kbuf + UInt64.ofNat index) := by
    intro index bound
    obtain ⟨pa, loads, isPhysical⟩ := reached index bound
    rw [loaded_eq loads, loaded_eq (buffer index bound), isBuffer index bound,
      isPhysical]
    exact (moved.moved index bound).symm
  have sameProgram := inodeWriteData_congr sameBytes ip offset
  have outside : ∀ fs, SameOutside kbuf len ⟨fs, mem⟩ ⟨fs, mem'⟩ := fun fs =>
    ⟨rfl, frame, fun address outside => moved.others address
      fun index bound isAddress => outside (by
        change kbuf.toNat + index = address at isAddress
        omega)⟩
  constructor
  · intro result after run
    obtain ⟨_, fs', writes, rfl⟩ := inodeWriteData_loads.mp run
    refine ⟨⟨fs', mem'⟩, Program.runs_bind.mpr ⟨trace, ⟨fs, mem'⟩,
      runs_onMem.mpr ⟨mem', copied, rfl⟩, inodeWriteData_loads.mpr
        ⟨fun _ _ index bound => ?_, fs', ?_, rfl⟩⟩, outside fs'⟩
    · rw [buffer index bound]
      exact Option.some_ne_none _
    · exact sameProgram ▸ writes
  · intro result after' run
    obtain ⟨_, _, first, run⟩ := Program.runs_bind.mp run
    obtain ⟨_, copied', rfl⟩ := runs_onMem.mp first
    obtain ⟨_, rfl⟩ := copied'.deterministic copied
    obtain ⟨_, fs', writes, rfl⟩ := inodeWriteData_loads.mp run
    refine ⟨⟨fs', mem⟩, inodeWriteData_loads.mpr
      ⟨fun _ _ index bound => ?_, fs', ?_, rfl⟩, outside fs'⟩
    · obtain ⟨pa, loads, _⟩ := reached index bound
      rw [loads]
      exact Option.some_ne_none _
    · exact sameProgram ▸ writes

end Ranges

/-! ## Ranges that the kernel sees -/

theorem inodeReadData_short
    {ip : Slot} {offset : UInt32} {fs fs' : Fs.State} {bytes : List UInt8}
    (run : (Fs.inodeReadData ip offset len).Runs fs bytes fs') :
    bytes.length ≤ len.toNat := by
  simp only [Fs.inodeReadData, Program.runs_bind, Fs.runs_getInode,
    Program.runs_assert] at run
  obtain ⟨_, _, ⟨rfl, rfl⟩, _, _, ⟨_, rfl⟩, run⟩ := run
  split at run
  · obtain ⟨rfl, _⟩ := Program.runs_pure.mp run
    exact Nat.zero_le _
  · next inside =>
    have length := Fs.readLoop_length (Nat.sub_le _ _) run
    have before := UInt32.lt_iff_toNat_lt.mp (UInt32.not_le.mp inside)
    have offsetBound := offset.toNat_lt
    have lenBound := len.toNat_lt
    have zero : (0 : UInt32).toNat = 0 := rfl
    rw [length, List.length_nil, zero, Nat.zero_add, Nat.sub_zero]
    split
    · next cut =>
      have cut := UInt32.lt_iff_toNat_lt.mp cut
      rw [UInt32.toNat_sub_of_le _ _ (UInt32.le_of_lt
        (UInt32.not_le.mp inside))]
      rw [UInt32.toNat_add] at cut
      omega
    · exact Nat.le_refl _

theorem dirGetEntries_short
    {pip : Slot} {fs fs' : Fs.State} {bytes : List UInt8}
    (run : (do
      let entries ← Fs.dirGetEntries pip len
      return entries.flatten : FsM (List UInt8)).Runs fs bytes fs') :
    bytes.length ≤ len.toNat := by
  simp only [Fs.dirGetEntries, Program.runs_bind, Program.runs_pure] at run
  obtain ⟨_, _, ⟨⟨_, data⟩, _, _, _, _, _, rfl, rfl⟩, rfl, rfl⟩ := run
  refine Nat.le_trans (Nat.le_of_eq (flatten_entries_length data _)) ?_
  refine Nat.le_trans (Nat.mul_le_mul_left _ (List.length_take_le _ _)) ?_
  exact Nat.mul_div_le _ _

section Ranges

variable (tables : Tables mem.bytes root free) (presentKernel : root k ≠ 0)
  (present : root r ≠ 0)

include tables presentKernel present

/-- The transfers to a range that the kernel sees as the process does. -/
theorem UserRange.goesThrough
    (range : UserRange root k r mem addr kbuf len)
    (same : ∀ index < len.toNat,
      SameByte mem (root r) (addr + UInt64.ofNat index)) (fs : Fs.State) :
    GoesThrough (root r) kbuf addr len ⟨fs, mem⟩ where
  reads ip offset := (inodeReadData_delivers ip offset len).sameCall tables
    presentKernel present (fun _ _ _ => inodeReadData_short) range same fs
  lists pip := (dirGetEntries_delivers pip len).sameCall tables presentKernel
    present (fun _ _ _ => dirGetEntries_short) range same fs
  writes ip offset := range.sameWrite tables presentKernel present same ip
    offset fs

end Ranges

theorem smallFile_read :
    ∃ fs, (Fs.inodeReadData 0 0 1).Runs Fs.smallFile [0] fs :=
  ⟨_, rfl⟩

theorem smallFile_write (src : Bytes) :
    ∃ fs, (Fs.inodeWriteData 0 0 1 src).Runs Fs.smallFile 1 fs ∧
      fs.disk 132 0 = src 0 :=
  ⟨_, rfl, rfl⟩

section Ranges

variable (tables : Tables mem.bytes root free) (presentKernel : root k ≠ 0)
  (present : root r ≠ 0)

include tables presentKernel present

omit presentKernel present in
/-- A byte off the tables can be changed. -/
theorem sameTables_update
    {address : Nat} (off : OffTables mem.bytes root address) (value : UInt8) :
    SameTables root free mem.bytes
      (Function.update mem.bytes address value) :=
  @sameTables_put _ _ _ _ tables (fun _ => address) (fun _ => value) 1
    fun _ _ => off

/-- Where reads of one byte go through a table, the kernel stores at the byte of
the process. -/
theorem UserRange.stores_of_reads
    (range : UserRange root k r mem addr kbuf 1)
    (through : ∀ bytes, SameTables root free mem.bytes bytes →
      SameCall kbuf 1 (inodeReadData 0 0 1 addr true)
        (throughCopyout (root r) kbuf addr (inodeReadData 0 0 1))
        ⟨Fs.smallFile, mem.setBytes bytes⟩) :
    ∃ pa, kernelByte mem pteW addr = some pa ∧
      pa.toNat = physical mem.bytes (root r) addr := by
  have first : addr + UInt64.ofNat 0 = addr := UInt64.add_zero addr
  have off := @UserRange.physical_off _ _ _ _ _ _ _ _ _ tables present range 0
    (by decide)
  rw [first] at off
  obtain ⟨fs, reads⟩ := smallFile_read
  have same := sameTables_update tables off.1 1
  have range' := @UserRange.part _ _ _ _ _ _ _ _ _ 1 tables presentKernel
    present _ 0 range same (by decide)
  rw [first] at range'
  obtain ⟨buffered, trace, final, stored, copied, frame, outside⟩ :=
    @UserRange.copiedOut _ _ _ _ _ _ _ _ _ same.tables presentKernel present
      range' [0] (by decide)
  obtain ⟨after, run, agree⟩ := (through _ same).back 1 ⟨fs, final⟩
    (Program.runs_bind.mpr ⟨_, ⟨fs, buffered⟩,
      (inodeReadData_delivers 0 0 1 _ _ _ _ _).mpr ⟨[0], reads, stored, rfl⟩,
      Program.runs_bind.mpr ⟨trace, _, runs_onMem.mpr ⟨final, copied, rfl⟩,
        Program.runs_pure.mpr ⟨rfl, rfl⟩⟩⟩)
  obtain ⟨bytes, reads', stored', _⟩ :=
    (inodeReadData_delivers 0 0 1 _ _ _ _ _).mp run
  obtain ⟨rfl, _⟩ := reads'.deterministic reads
  obtain ⟨_, middle, storeFirst, storeRest⟩ := Program.runs_bind.mp stored'
  obtain ⟨pa, reached, isMiddle⟩ := runs_storeByte.mp storeFirst
  obtain ⟨_, isAfter⟩ := Program.runs_pure.mp storeRest
  rw [kernelByte_eq tables range.isRoot presentKernel same] at reached
  refine ⟨pa, reached, ?_⟩
  have notBuffer : ¬(kbuf.toNat ≤ physical mem.bytes (root r) addr ∧
      physical mem.bytes (root r) addr < kbuf.toNat + (1 : UInt32).toNat) := by
    intro inside
    have one : (1 : UInt32).toNat = 1 := rfl
    exact off.2 0 (by decide) (by omega)
  have target : physical (Function.update mem.bytes
        (physical mem.bytes (root r) addr) 1) (root r)
      (addr + UInt64.ofNat 0) = physical mem.bytes (root r) addr := by
    rw [first]
    exact same.physical_eq r addr
  have isZero : final.bytes (physical mem.bytes (root r) addr) = 0 := by
    rw [outside _ notBuffer]
    change Function.update _ (physical _ (root r) (addr + UInt64.ofNat 0)) 0
      _ = 0
    rw [Mem.State.setBytes_bytes, target, Function.update_self]
  by_contra differs
  have kept := agree.bytes _ notBuffer
  rw [← isAfter, isMiddle, Mem.State.setBytes_bytes,
    Mem.setByte_of_ne _ _ (Ne.symm differs), Mem.State.setBytes_bytes,
    Function.update_self] at kept
  exact absurd (isZero.symm.trans kept) (by decide)

/-- Where writes of one byte go through a table, the kernel loads the byte of the
process. -/
theorem UserRange.loads_of_writes
    (range : UserRange root k r mem addr kbuf 1)
    (through : ∀ bytes, SameTables root free mem.bytes bytes →
      SameCall kbuf 1 (inodeWriteData 0 0 1 addr true)
        (throughCopyin (root r) kbuf addr 1 (inodeWriteData 0 0 1))
        ⟨Fs.smallFile, mem.setBytes bytes⟩) :
    ∃ pa, kernelByte mem pteR addr = some pa ∧
      pa.toNat = physical mem.bytes (root r) addr := by
  have first : addr + UInt64.ofNat 0 = addr := UInt64.add_zero addr
  have firstBuffer : kbuf + UInt64.ofNat 0 = kbuf := UInt64.add_zero kbuf
  have off := @UserRange.physical_off _ _ _ _ _ _ _ _ _ tables present range 0
    (by decide)
  rw [first] at off
  have written : ∀ bytes, SameTables root free mem.bytes bytes →
      kernelByte mem pteR addr ≠ none ∧ loaded (mem.setBytes bytes) addr =
        bytes (physical mem.bytes (root r) addr) := by
    intro bytes same
    have range' := @UserRange.part _ _ _ _ _ _ _ _ _ 1 tables presentKernel
      present _ 0 range same (by decide)
    rw [first] at range'
    obtain ⟨trace, mem', copied, frame, kept, moved⟩ :=
      Mem.copyLoop_translated same.tables present range'.copy
        "uvm_copyin: invalid virtual address" (fun index bound =>
          (Mem.isMapped_iff_translate same.tables present).mp
            (range'.isMapped same.tables present bound)) false nofun
    rw [← Mem.uvmCopyin_eq] at copied
    have buffer : kernelByte mem' pteR kbuf = some kbuf := by
      rw [frame, kernelByte_eq same.tables range'.isRoot presentKernel kept]
      have loads := range'.buffer.load 0 (by decide)
      rwa [firstBuffer] at loads
    have reaches : ∀ index < (1 : UInt32).toNat,
        kernelByte mem' pteR (kbuf + UInt64.ofNat index) ≠ none := by
      intro index bound
      obtain rfl : index = 0 := Nat.lt_one_iff.mp bound
      rw [firstBuffer, buffer]
      exact Option.some_ne_none _
    obtain ⟨fs, write, isByte⟩ := smallFile_write fun index =>
      loaded mem' (kbuf + UInt64.ofNat index)
    obtain ⟨after, run, agree⟩ := (through bytes same).back 1 ⟨fs, mem'⟩
      (Program.runs_bind.mpr ⟨trace, ⟨Fs.smallFile, mem'⟩,
        runs_onMem.mpr ⟨mem', copied, rfl⟩, inodeWriteData_loads.mpr
          ⟨fun _ _ => reaches, fs, write, rfl⟩⟩)
    obtain ⟨reached, fs', write', rfl⟩ := inodeWriteData_loads.mp run
    have reached := reached rfl (by decide) 0 (by decide)
    rw [kernelByte_eq tables range.isRoot presentKernel same, first] at reached
    refine ⟨reached, ?_⟩
    obtain ⟨_, write'', isByte'⟩ := smallFile_write fun index =>
      loaded (mem.setBytes bytes) (addr + UInt64.ofNat index)
    obtain ⟨_, rfl⟩ := write''.deterministic write'
    have sameByte := moved.moved 0 (by decide)
    change mem'.bytes (kbuf.toNat + 0) =
      bytes (physical bytes (root r) (addr + UInt64.ofNat 0)) at sameByte
    rw [first, same.physical_eq] at sameByte
    have sameFs : fs = _ := agree.fs
    rw [sameFs, isByte', first, firstBuffer, loaded_eq buffer] at isByte
    exact isByte.trans sameByte
  obtain ⟨pa, reached⟩ := Option.ne_none_iff_exists'.mp
    (written mem.bytes (.refl tables)).1
  refine ⟨pa, reached, ?_⟩
  by_contra differs
  have same := sameTables_update tables off.1 (mem.bytes pa.toNat + 1)
  have loads := (written _ same).2
  rw [loaded_eq ((kernelByte_eq tables range.isRoot presentKernel same _
    _).trans reached), Mem.State.setBytes_bytes, Function.update_self,
    Function.update_of_ne differs] at loads
  exact absurd loads.symm (by simp)

/-- All transfers between files and parts of a range, whatever memory and the
files contain, go through the table of the process if and only if the kernel
sees each byte of the range as the process does. -/
theorem transfers_go_through_iff
    (range : UserRange root k r mem addr kbuf n) :
    (∀ (start : Nat) (len : UInt32), start + len.toNat ≤ n.toNat →
        ∀ bytes, SameTables root free mem.bytes bytes → ∀ fs,
          GoesThrough (root r) kbuf (addr + UInt64.ofNat start) len
            ⟨fs, mem.setBytes bytes⟩) ↔
      ∀ index < n.toNat, SameByte mem (root r) (addr + UInt64.ofNat index) := by
  constructor
  · intro through index bound
    have range' := @UserRange.part _ _ _ _ _ _ _ _ _ 1 tables presentKernel
      present _ index range (.refl tables) bound
    have through' := through index 1 bound
    obtain ⟨pa, stores, isPa⟩ := @UserRange.stores_of_reads _ _ _ _ mem _ _ _
      tables presentKernel present range' fun bytes same =>
        (through' bytes same Fs.smallFile).reads 0 0
    obtain ⟨pa', loads, isPa'⟩ := @UserRange.loads_of_writes _ _ _ _ mem _ _ _
      tables presentKernel present range' fun bytes same =>
        (through' bytes same Fs.smallFile).writes 0 0
    obtain ⟨pa'', found, isPa''⟩ := (range.isMapped tables present
      bound).translate tables present
    obtain rfl := UInt64.toNat.inj (isPa.trans isPa''.symm)
    obtain rfl := UInt64.toNat.inj (isPa'.trans isPa''.symm)
    unfold SameByte
    rw [found]
    exact ⟨loads, stores⟩
  · intro sees start len within bytes same fs
    refine (range.part tables presentKernel present same within).goesThrough
      same.tables presentKernel present (fun index bound => ?_) fs
    have seen := sees (start + index) (by omega)
    unfold SameByte at seen ⊢
    rwa [Mem.State.setBytes_bytes, same.translate_eq tables present,
      kernelByte_eq tables range.isRoot presentKernel same,
      kernelByte_eq tables range.isRoot presentKernel same,
      Mem.ofNat_add_assoc]

end Ranges

/-! ## A page that the kernel does not map -/

open Mem (fewPages fewPagesFree twoRoots userFlags leafPte pteAt pageOf
  vmMappages)

/-- Free pages and the root of the kernel's table. -/
def bootPages : Mem.State := { fewPages with kernelPgtbl := 0x80200000 }

theorem freeLists_bootPages : Mem.FreeLists bootPages fewPagesFree := by
  obtain ⟨linked, counted, nodup, unique, aligned⟩ := Mem.freeLists_fewPages
  exact ⟨linked, counted, nodup, unique, aligned⟩

/-- A page of a process, and a page that the kernel maps to itself. -/
structure TwoPages (mem : Mem.State) (free : Bool → List UInt64) : Prop where
  tables : Tables mem.bytes twoRoots free
  isRoot : mem.kernelPgtbl = twoRoots true
  user : ∀ va, pageOf va = pageOf 0x1000 →
    pteAt mem.bytes (twoRoots false) va = leafPte 0x80300000 userFlags
  kernel : ∀ va, pageOf va = pageOf 0x80400000 →
    pteAt mem.bytes (twoRoots true) va =
      leafPte 0x80400000 (pteR ||| pteW ||| Mem.pteX)
  missing : ∀ va, pageOf va ≠ pageOf 0x80400000 →
    pteAt mem.bytes (twoRoots true) va = 0
  off : ∀ address, 0x80201000 ≤ address → OffTables mem.bytes twoRoots address

theorem exists_twoPages :
    ∃ mem₁ mem free,
      (vmMappages 0x80100000 0x1000 0x80300000 4096 userFlags).Runs bootPages ()
        mem₁ ∧
      (vmMappages 0x80200000 0x80400000 0x80400000 4096
        (pteR ||| pteW ||| Mem.pteX)).Runs mem₁ () mem ∧
      TwoPages mem free := by
  have evaluates : ((do
      vmMappages 0x80100000 0x1000 0x80300000 4096 userFlags
      vmMappages 0x80200000 0x80400000 0x80400000 4096
        (pteR ||| pteW ||| Mem.pteX) : MemM Unit).exec
          bootPages).toOption.isSome = true := by
    decide +kernel
  obtain ⟨⟨_, mem⟩, outcome⟩ := Option.isSome_iff_exists.mp evaluates
  have run : (do
      vmMappages 0x80100000 0x1000 0x80300000 4096 userFlags
      vmMappages 0x80200000 0x80400000 0x80400000 4096
        (pteR ||| pteW ||| Mem.pteX) : MemM Unit).Runs bootPages () mem := by
    unfold Program.Runs
    revert outcome
    cases (Program.exec _ bootPages : Except String (Unit × Mem.State)) with
    | error message => exact fun none => absurd none nofun
    | ok values => exact fun same => congrArg Except.ok (Option.some.inj same)
  obtain ⟨_, mem₁, maps, maps'⟩ := Program.runs_bind.mp run
  have tables : Tables bootPages.bytes twoRoots fewPagesFree :=
    Mem.tables_twoRoots
  obtain ⟨_, mapped⟩ := Mem.vmMappages_page (r := false) tables
    freeLists_bootPages (by decide) (by decide) (by decide) maps
  obtain ⟨free, mapped'⟩ := Mem.vmMappages_page (r := true) mapped.tables
    mapped.lists (by decide) (by decide) (by decide) maps'
  refine ⟨mem₁, mem, free, maps, maps', mapped'.tables,
    mapped'.kernelPgtbl.trans mapped.kernelPgtbl, fun va samePage => ?_,
    fun va samePage => mapped'.inside 0 Nat.one_pos va samePage,
    fun va differs => ?_, fun address above => ?_⟩
  · rw [mapped'.outside false va fun inside => absurd inside.1 (by decide)]
    exact mapped.inside 0 Nat.one_pos va samePage
  · rw [mapped'.outside true va fun inside => differs (by omega),
      mapped.outside true va fun inside => absurd inside.1 (by decide)]
    exact Mem.pteAt_empty (Mem.empty_twoRoots true) va
  · have low : ∀ page : UInt64, page ≤ 0x80200000 →
        ¬Mem.InPage address page := by
      rintro page order ⟨_, below⟩
      have order' := UInt64.le_iff_toNat_le.mp order
      rw [show (0x80200000 : UInt64).toNat = 0x80200000 from rfl] at order'
      omega
    refine (mapped.toGrown.trans mapped'.toGrown).offTables
      (Mem.offTables_empty Mem.empty_twoRoots fun r => low _ ?_)
      fun page member => low page ?_
    · cases r <;> decide
    · have small : ∀ page ∈ fewPagesFree true, page ≤ 0x80200000 :=
        Mem.forall_of_all (by decide +kernel)
      exact small page member

namespace TwoPages

variable {free : Bool → List UInt64} (twoPages : TwoPages mem free)

include twoPages

theorem translate_kernel {index : Nat} (bound : index < 8) :
    translate mem.bytes (twoRoots true) (0x80400000 + UInt64.ofNat index) =
      some (0x80400000 + UInt64.ofNat index, pteR ||| pteW ||| Mem.pteX |||
        Mem.pteV) := by
  have evaluates : ∀ index < 8,
      pageOf (0x80400000 + UInt64.ofNat index) = pageOf 0x80400000 ∧
      (if Mem.Canonical (0x80400000 + UInt64.ofNat index) then
        Mem.leafOf (leafPte 0x80400000 (pteR ||| pteW ||| Mem.pteX))
          (0x80400000 + UInt64.ofNat index) else none) =
        some (0x80400000 + UInt64.ofNat index, pteR ||| pteW ||| Mem.pteX |||
          Mem.pteV) := by
    decide
  obtain ⟨samePage, isByte⟩ := evaluates index bound
  rw [Mem.translate_eq twoPages.tables (by decide),
    twoPages.kernel _ samePage]
  exact isByte

theorem translate_user {index : Nat} (bound : index < 8) :
    translate mem.bytes (twoRoots false) (0x1004 + UInt64.ofNat index) =
      some (0x80300004 + UInt64.ofNat index, userFlags ||| Mem.pteV) := by
  have evaluates : ∀ index < 8,
      pageOf (0x1004 + UInt64.ofNat index) = pageOf 0x1000 ∧
      (if Mem.Canonical (0x1004 + UInt64.ofNat index) then
        Mem.leafOf (leafPte 0x80300000 userFlags)
          (0x1004 + UInt64.ofNat index) else none) =
        some (0x80300004 + UInt64.ofNat index, userFlags ||| Mem.pteV) := by
    decide
  obtain ⟨samePage, isByte⟩ := evaluates index bound
  rw [Mem.translate_eq twoPages.tables (by decide), twoPages.user _ samePage]
  exact isByte

/-- The kernel does not reach the page of the process. -/
theorem kernelByte_none (flags : UInt64) :
    kernelByte mem flags 0x1004 = none := by
  have none : translate mem.bytes (twoRoots true) 0x1004 = none := by
    rw [Mem.translate_eq twoPages.tables (by decide),
      twoPages.missing _ (by decide)]
    decide
  unfold kernelByte
  rw [twoPages.isRoot, none]

theorem userRange :
    UserRange twoRoots true false mem 0x1004 0x80400000 8 := by
  have kernel : (0x80400000 : UInt64).toNat = 0x80400000 := rfl
  have places : ∀ index < 8, (0x80300004 + UInt64.ofNat index).toNat =
      0x80300004 + index ∧ 0x1004 + UInt64.ofNat index < vaMax := by
    decide
  refine ⟨twoPages.isRoot, ⟨by decide, fun index _ => twoPages.off _
    (by omega), fun index bound address isAt => ?_⟩, fun index bound => ?_,
    ⟨fun index bound => ?_, fun index bound => ?_⟩⟩
  · obtain ⟨pa, flags, found, rfl⟩ := isAt
    rw [twoPages.translate_user bound] at found
    obtain ⟨rfl, rfl⟩ := Prod.mk.inj (Option.some.inj found)
    rw [(places index bound).1]
    refine ⟨twoPages.off _ (by omega), fun other bound' => ?_⟩
    change index < 8 at bound
    omega
  · exact ⟨(places index bound).2, _, _, twoPages.translate_user bound,
      by decide⟩
  · unfold kernelByte
    rw [twoPages.isRoot, twoPages.translate_kernel bound]
    rfl
  · unfold kernelByte
    rw [twoPages.isRoot, twoPages.translate_kernel bound]
    rfl

end TwoPages

/-- A read into the page of a process ends in a page fault of the kernel. -/
theorem read_faults :
    ∃ mem₁ mem,
      (vmMappages 0x80100000 0x1000 0x80300000 4096 userFlags).Runs bootPages ()
        mem₁ ∧
      (vmMappages 0x80200000 0x80400000 0x80400000 4096
        (pteR ||| pteW ||| Mem.pteX)).Runs mem₁ () mem ∧
      (inodeReadData 0 0 1 0x1004 true).Panics ⟨Fs.smallFile, mem⟩ ∧
      ∃ final, (throughCopyout 0x80100000 0x80400000 0x1004
        (inodeReadData 0 0 1)).Runs ⟨Fs.smallFile, mem⟩ 1 final := by
  obtain ⟨mem₁, mem, free, maps, maps', twoPages⟩ := exists_twoPages
  refine ⟨mem₁, mem, maps, maps', Program.panics_iff.mpr ?_, ?_⟩
  · rintro ⟨n, after, run⟩
    obtain ⟨fs, reads⟩ := smallFile_read
    obtain ⟨bytes, reads', stored, _⟩ :=
      (inodeReadData_delivers 0 0 1 _ _ _ _ _).mp run
    obtain ⟨rfl, _⟩ := reads'.deterministic reads
    obtain ⟨_, _, storeFirst, _⟩ := Program.runs_bind.mp stored
    obtain ⟨pa, reached, _⟩ := runs_storeByte.mp storeFirst
    rw [twoPages.kernelByte_none] at reached
    exact Option.some_ne_none _ reached.symm
  · obtain ⟨fs, reads⟩ := smallFile_read
    have range := @UserRange.part _ _ _ _ _ _ _ _ _ 1 twoPages.tables
      (by decide) (by decide) _ 0 twoPages.userRange (.refl twoPages.tables)
      (by decide)
    obtain ⟨buffered, trace, final, stored, copied, _⟩ :=
      @UserRange.copiedOut _ _ _ _ mem _ _ _ _ twoPages.tables (by decide)
        (by decide) range [0] (by decide)
    exact ⟨⟨fs, final⟩, Program.runs_bind.mpr ⟨_, ⟨fs, buffered⟩,
      (inodeReadData_delivers 0 0 1 _ _ _ _ _).mpr ⟨[0], reads, stored, rfl⟩,
      Program.runs_bind.mpr ⟨trace, _, runs_onMem.mpr ⟨final, copied, rfl⟩,
        Program.runs_pure.mpr ⟨rfl, rfl⟩⟩⟩⟩

/-- The transfers to the page do not go through the table of the process. -/
theorem transfers_go_through_iff_twoPages :
    ∃ (mem : Mem.State) (free : Bool → List UInt64),
      ¬∀ (start : Nat) (len : UInt32), start + len.toNat ≤ 8 →
        ∀ bytes, SameTables twoRoots free mem.bytes bytes → ∀ fs,
          GoesThrough (twoRoots false) 0x80400000
            (0x1004 + UInt64.ofNat start) len ⟨fs, mem.setBytes bytes⟩ := by
  obtain ⟨_, mem, free, _, _, twoPages⟩ := exists_twoPages
  refine ⟨mem, free, fun through => ?_⟩
  have same := (transfers_go_through_iff twoPages.tables (by decide)
    (by decide) twoPages.userRange).mp through 0 (by decide)
  have loads := same.1
  rw [twoPages.translate_user (by decide), show UInt64.ofNat 0 = 0 from rfl,
    UInt64.add_zero, twoPages.kernelByte_none] at loads
  exact Option.some_ne_none _ loads.symm

end Io
end WhuOs
