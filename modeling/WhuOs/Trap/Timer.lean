import WhuOs.Library.TransitionSystem
import WhuOs.Process.Stacks
import WhuOs.Trap.Vectors

/-!
# Timer interrupts

`timer_init` gives each hart a scratch area and the time of its first interrupt.
`timer_vector` gives back all registers and sets the next interrupt from the
last one, so the interrupts do not drift, however the harts run.
-/

namespace WhuOs
namespace Trap

open Library
open Library.Bytes
open Library.Assembly
open Process (memStart memEnd)

/-! ## The code -/

/-- `CLINT_MTIMECMP`. -/
def clintMtimecmp (hartid : UInt64) : UInt64 :=
  0x2000000 + 0x4000 + 8 * hartid

/-- `CLINT_MTIME`. -/
def clintMtime : UInt64 := 0x2000000 + 0xBFF8

/-- `INTERVAL`. -/
def interval : UInt64 := 1000000

/-- `MIE_MTIE`. -/
def mieMtie : UInt64 := 128

/-- `&mscratch[hartid]`, where the array is at `scratch`. -/
def mscratchOf (scratch : UInt64) (cpu : Fin nCpu) : UInt64 :=
  scratch + 40 * UInt64.ofNat cpu

/-- Where the time of the next interrupt of a hart is. -/
def mtimecmpOf (cpu : Fin nCpu) : UInt64 :=
  clintMtimecmp (UInt64.ofNat cpu)

/-- `timer_init`. -/
def timerInit (scratch vector : UInt64) (cpu : Fin nCpu) (hart : Hart) :
    Hart where
  regs := hart.regs
  csrs
    | .mscratch => mscratchOf scratch cpu
    | .mtvec => vector
    | .mie => hart.csrs .mie ||| mieMtie
    | csr => hart.csrs csr
  bytes :=
    let bytes := write64 (write64 hart.bytes
      ((mscratchOf scratch cpu).toNat + 24) (mtimecmpOf cpu))
      ((mscratchOf scratch cpu).toNat + 32) interval
    write64 bytes (mtimecmpOf cpu).toNat
      (read64 bytes clintMtime.toNat + interval)

section Vector

variable {bytes : Bytes} {csrs : Csr → UInt64} {entry : UInt64} {hart : Hart}

/-- Machine mode reaches aligned memory where it is. -/
theorem frame_machine
    {va : UInt64} {size : Nat} (aligned : va.toNat % 8 = 0)
    (room : va.toNat + size < 2 ^ 64) : Frame machine csrs bytes va va size := by
  refine ⟨room, fun _ _ => rfl, ?_⟩
  intro bytes' write offset same inside multiple
  have address : (va + offset) % 8 = 0 := by
    apply UInt64.toNat_inj.mp
    rw [UInt64.toNat_mod, UInt64.toNat_add]
    change (va.toNat + offset.toNat) % 2 ^ 64 % 8 = 0
    omega
  exact if_pos address

/-- A load in machine mode. -/
theorem run_machine_ld
    {target base : Reg} {offset address value : UInt64}
    {code : List (Instr Reg Csr)} (isAddress : hart.regs base + offset = address)
    (aligned : address % 8 = 0)
    (isValue : read64 hart.bytes address.toNat = value) :
    run machine (.ld target offset base :: code) hart =
      run machine code (hart.setReg target value) := by
  apply run_cons rfl
  rw [Instr.exec, isAddress, ← isValue]
  exact congrArg _ (if_pos aligned)

/-- A store in machine mode. -/
theorem run_machine_sd
    {source base : Reg} {offset address : UInt64} {code : List (Instr Reg Csr)}
    (isAddress : hart.regs base + offset = address)
    (aligned : address % 8 = 0) :
    run machine (.sd source offset base :: code) hart =
      run machine code (hart.setBytes
        (write64 hart.bytes address.toNat (hart.regs source))) := by
  apply run_cons rfl
  rw [Instr.exec, isAddress]
  exact congrArg _ (if_pos aligned)

/-- The registers `timer_vector` saves. -/
def timerSlots : List (Reg × UInt64) :=
  [(.a1, 0), (.a2, 8), (.a3, 16)]

theorem slots_timer : Slots 40 timerSlots :=
  ⟨by decide, by decide, by decide⟩

/-- The instructions of `timer_vector` that set the next interrupt and raise a
software interrupt. -/
def timerAdvance : List (Instr Reg Csr) :=
  [.ld .a1 24 .a0, .ld .a2 32 .a0, .ld .a3 0 .a1, .add .a3 .a3 .a2,
    .sd .a3 0 .a1, .li .a1 2, .csrw .sip .a1]

theorem timerVector_eq :
    timerVector = .csrrw .a0 .mscratch .a0 :: (saves .a0 timerSlots ++
      (timerAdvance ++ (loads .a0 timerSlots.reverse ++
        [.csrrw .a0 .mscratch .a0]))) :=
  rfl

/-- The scratch area of a hart, with the address of `mtimecmp` below it. -/
structure ScratchArea (bytes : Bytes) (entry target period : UInt64) :
    Prop where
  aligned : entry.toNat % 8 = 0
  room : entry.toNat + 40 < 2 ^ 64
  alignedTarget : target % 8 = 0
  apart : target.toNat + 8 ≤ entry.toNat
  atTarget : read64 bytes (entry.toNat + 24) = target
  atPeriod : read64 bytes (entry.toNat + 32) = period

namespace ScratchArea

variable {target period : UInt64}

/-- An address in the scratch area. -/
theorem place
    (area : ScratchArea bytes entry target period) {offset : UInt64}
    (inside : offset.toNat < 40) (multiple : offset.toNat % 8 = 0) :
    (entry + offset).toNat = entry.toNat + offset.toNat ∧
      (entry + offset) % 8 = 0 := by
  have aligned := area.aligned
  have room := area.room
  have place : (entry + offset).toNat = entry.toNat + offset.toNat := by
    rw [UInt64.toNat_add]
    omega
  refine ⟨place, ?_⟩
  apply UInt64.toNat_inj.mp
  rw [UInt64.toNat_mod, place]
  change (entry.toNat + offset.toNat) % 8 = 0
  omega

/-- Saving registers changes no number of the timer. -/
theorem save
    (area : ScratchArea bytes entry target period) (regs : Reg → UInt64) :
    ScratchArea (savedBytes entry regs timerSlots bytes) entry target period ∧
      read64 (savedBytes entry regs timerSlots bytes) target.toNat =
        read64 bytes target.toNat := by
  have fields : ∀ offset ∈ [24, 32],
      read64 (savedBytes entry regs timerSlots bytes) (entry.toNat + offset) =
        read64 bytes (entry.toNat + offset) := by
    intro offset member
    have facts : ∀ offset ∈ [24, 32], offset % 8 = 0 ∧
        ∀ slot ∈ timerSlots, slot.2.toNat ≠ offset := by decide
    rcases facts offset member with ⟨aligned, other⟩
    exact read64_savedBytes_of_not_mem slots_timer aligned other
  refine ⟨⟨area.aligned, area.room, area.alignedTarget, area.apart, ?_, ?_⟩,
    ?_⟩
  · exact (fields 24 (by decide)).trans area.atTarget
  · exact (fields 32 (by decide)).trans area.atPeriod
  · have apart := area.apart
    apply read64_congr
    intro index bound
    exact savedBytes_sameOutside slots_timer regs bytes _ (by omega)

/-- Setting the next interrupt changes no register that was saved. -/
theorem slot
    (area : ScratchArea bytes entry target period) {regs : Reg → UInt64}
    (time : UInt64) {slot : Reg × UInt64} (member : slot ∈ timerSlots) :
    read64 (write64 (savedBytes entry regs timerSlots bytes) target.toNat time)
      (entry.toNat + slot.2.toNat) = regs slot.1 := by
  have apart := area.apart
  have isSaved : read64 (savedBytes entry regs timerSlots bytes)
      (entry.toNat + slot.2.toNat) = regs slot.1 :=
    read64_savedBytes slots_timer member
  rw [← isSaved]
  apply read64_memmove_of_disjoint
  omega

/-- The next interrupt is one period after the last one. -/
theorem run_timerAdvance
    (area : ScratchArea bytes entry target period) {regs : Reg → UInt64}
    (csrs : Csr → UInt64) (isEntry : regs .a0 = entry) :
    ∃ regs' : Reg → UInt64,
      (∀ register, (∀ slot ∈ timerSlots, slot.1 ≠ register) →
        regs' register = regs register) ∧
      run machine timerAdvance ⟨regs, csrs, bytes⟩ = some ⟨regs',
        Function.update csrs .sip ((csrs .sip &&& ~~~2) ||| 2),
        write64 bytes target.toNat (read64 bytes target.toNat + period)⟩ := by
  have place₁ := @place _ _ _ _ area 24 (by decide) (by decide)
  have place₂ := @place _ _ _ _ area 32 (by decide) (by decide)
  have atTarget : read64 bytes (entry + 24).toNat = target := by
    rw [place₁.1]
    exact area.atTarget
  have atPeriod : read64 bytes (entry + 32).toNat = period := by
    rw [place₂.1]
    exact area.atPeriod
  have isTarget : target + 0 = target := UInt64.add_zero target
  let time := read64 bytes target.toNat + period
  let regs₁ := Function.update regs .a1 target
  let regs₂ := Function.update regs₁ .a2 period
  let regs₃ := Function.update regs₂ .a3 (read64 bytes target.toNat)
  let regs₄ := Function.update regs₃ .a3 time
  let bytes₄ := write64 bytes target.toNat time
  refine ⟨Function.update regs₄ .a1 2, ?_, ?_⟩
  · intro register other
    have notA1 := (other (.a1, 0) (by decide)).symm
    have notA2 := (other (.a2, 8) (by decide)).symm
    have notA3 := (other (.a3, 16) (by decide)).symm
    calc Function.update regs₄ .a1 2 register
      _ = regs₄ register := Function.update_of_ne notA1 _ _
      _ = regs₃ register := Function.update_of_ne notA3 _ _
      _ = regs₂ register := Function.update_of_ne notA3 _ _
      _ = regs₁ register := Function.update_of_ne notA2 _ _
      _ = regs register := Function.update_of_ne notA1 _ _
  · calc run machine timerAdvance ⟨regs, csrs, bytes⟩
      _ = run machine _ ⟨regs₁, csrs, bytes⟩ :=
          run_machine_ld (congrArg (· + 24) isEntry) place₁.2 atTarget
      _ = run machine _ ⟨regs₂, csrs, bytes⟩ :=
          run_machine_ld (congrArg (· + 32) isEntry) place₂.2 atPeriod
      _ = run machine _ ⟨regs₃, csrs, bytes⟩ :=
          run_machine_ld isTarget area.alignedTarget rfl
      _ = run machine _ ⟨regs₄, csrs, bytes⟩ := run_cons rfl rfl
      _ = run machine [.li .a1 2, .csrw .sip .a1] ⟨regs₄, csrs, bytes₄⟩ :=
          run_machine_sd isTarget area.alignedTarget
      _ = some ⟨Function.update regs₄ .a1 2, Function.update csrs .sip
            ((csrs .sip &&& ~~~2) ||| (2 &&& 2)), bytes₄⟩ := rfl
      _ = _ := by rw [show (2 : UInt64) &&& 2 = 2 by decide]

end ScratchArea

/-- A hart after `timer_vector`. -/
def timerLeft (entry target period : UInt64) (hart : Hart) : Hart where
  regs := hart.regs
  csrs := Function.update hart.csrs .sip ((hart.csrs .sip &&& ~~~2) ||| 2)
  bytes := write64 (savedBytes entry hart.regs timerSlots hart.bytes)
    target.toNat (read64 hart.bytes target.toNat + period)

/-- `timer_vector` gives back the registers. -/
theorem run_timerVector
    {target period : UInt64}
    (area : ScratchArea hart.bytes entry target period)
    (isEntry : hart.csrs .mscratch = entry) :
    run machine timerVector hart = some (timerLeft entry target period hart) := by
  let regs := Function.update hart.regs .a0 entry
  let csrs := Function.update hart.csrs .mscratch (hart.regs .a0)
  let saved := savedBytes entry hart.regs timerSlots hart.bytes
  let bytes := write64 saved target.toNat
    (read64 hart.bytes target.toNat + period)
  have starts : Instr.exec machine (.csrrw .a0 .mscratch .a0) hart =
      some ⟨regs, csrs, hart.bytes⟩ := by
    rw [Instr.exec, isEntry]
    rfl
  have isSaved : savedBytes entry regs timerSlots hart.bytes = saved := by
    apply savedBytes_congr
    intro slot member
    have other : ∀ slot ∈ timerSlots, slot.1 ≠ .a0 := by decide
    exact Function.update_of_ne (other slot member) _ _
  rcases area.save hart.regs with ⟨area', sameTime⟩
  have frame : ∀ csrs bytes, Frame machine csrs bytes entry entry 40 :=
    fun csrs bytes => frame_machine area.aligned area.room
  have atEntry : regs .a0 = entry := rfl
  rcases area'.run_timerAdvance csrs atEntry with ⟨regs', others, advances⟩
  rw [sameTime] at advances
  have slotsLoaded : Slots 40 timerSlots.reverse :=
    ⟨by decide, by decide, by decide⟩
  have notA0 : ∀ slot ∈ timerSlots.reverse, slot.1 ≠ .a0 := by decide
  have isBase : regs' .a0 = entry := others .a0 (by decide)
  have loaded : Function.update
      (loadedRegs entry bytes timerSlots.reverse regs') .a0 (hart.regs .a0) =
      hart.regs := by
    funext register
    rw [Function.update_apply]
    split
    · next isA0 => rw [isA0]
    · next isNotA0 =>
        by_cases member : ∃ slot ∈ timerSlots.reverse, slot.1 = register
        · rcases member with ⟨slot, member, rfl⟩
          rw [loadedRegs_of_mem slotsLoaded member]
          exact area.slot _ (List.mem_reverse.mp member)
        · push Not at member
          rw [loadedRegs_of_not_mem member, others register]
          · exact Function.update_of_ne isNotA0 _ _
          · intro slot isSlot
            exact member slot (List.mem_reverse.mpr isSlot)
  have isLeft : Function.update (Function.update csrs .sip
      ((csrs .sip &&& ~~~2) ||| 2)) .mscratch entry =
      (timerLeft entry target period hart).csrs := by
    have differ : Csr.sip ≠ .mscratch := by decide
    rw [Function.update_comm differ, Function.update_idem, ← isEntry,
      Function.update_eq_self]
    rfl
  rw [timerVector_eq]
  calc run machine _ hart
    _ = run machine (saves .a0 timerSlots ++ _) ⟨regs, csrs, hart.bytes⟩ :=
        run_cons rfl starts
    _ = run machine (timerAdvance ++ _) ⟨regs, csrs, saved⟩ := by
        rw [← isSaved]
        exact run_saves slots_timer _ (frame _ _)
    _ = run machine (loads .a0 timerSlots.reverse ++ _) ⟨regs',
          Function.update csrs .sip ((csrs .sip &&& ~~~2) ||| 2), bytes⟩ := by
        rw [run_append, advances]
        rfl
    _ = run machine [.csrrw .a0 .mscratch .a0] ⟨loadedRegs entry bytes
          timerSlots.reverse regs',
          Function.update csrs .sip ((csrs .sip &&& ~~~2) ||| 2), bytes⟩ := by
        apply run_loads slotsLoaded
        · have frame' := frame (Function.update csrs .sip
            ((csrs .sip &&& ~~~2) ||| 2)) bytes
          rw [← isBase] at frame'
          rw [← isBase]
          exact frame'
        · intro slot member isA0
          exact absurd isA0 (notA0 slot member)
    _ = some ⟨Function.update (loadedRegs entry bytes timerSlots.reverse regs')
          .a0 (hart.regs .a0), Function.update (Function.update csrs .sip
            ((csrs .sip &&& ~~~2) ||| 2)) .mscratch
            (loadedRegs entry bytes timerSlots.reverse regs' .a0), bytes⟩ := rfl
    _ = some (timerLeft entry target period hart) := by
        rw [loaded, loadedRegs_of_not_mem notA0, isBase, isLeft]
        rfl

end Vector

/-! ## Harts with timers -/

/-- A hart, with the time when its timer started and the number of its timer
interrupts since then. -/
structure TimerCpu where
  regs : Reg → UInt64
  csrs : Csr → UInt64
  start : Option UInt64
  ticks : Nat

/-- The harts over the memory they share. -/
structure TimerState where
  bytes : Bytes
  cpus : Fin nCpu → TimerCpu

namespace TimerState

def hart (state : TimerState) (cpu : Fin nCpu) : Hart :=
  ⟨(state.cpus cpu).regs, (state.cpus cpu).csrs, state.bytes⟩

def mtime (state : TimerState) : UInt64 :=
  read64 state.bytes clintMtime.toNat

def mtimecmp (state : TimerState) (cpu : Fin nCpu) : UInt64 :=
  read64 state.bytes (mtimecmpOf cpu).toNat

def setBytes (state : TimerState) (bytes : Bytes) : TimerState :=
  { state with bytes := bytes }

def setCpu (state : TimerState) (cpu : Fin nCpu) (hart : Hart)
    (start : Option UInt64) (ticks : Nat) : TimerState where
  bytes := hart.bytes
  cpus := Function.update state.cpus cpu ⟨hart.regs, hart.csrs, start, ticks⟩

/-- A timer interrupt comes as soon as it is enabled. -/
def Pending (state : TimerState) (cpu : Fin nCpu) : Prop :=
  state.mtimecmp cpu ≤ state.mtime

/-- Timer interrupts are enabled. -/
def Enabled (state : TimerState) (cpu : Fin nCpu) : Prop :=
  (state.cpus cpu).csrs .mie &&& mieMtie ≠ 0

end TimerState

/-- Control registers that only machine mode can write. -/
def machineCsrs : List Csr :=
  [.mscratch, .mtvec, .mie]

/-- Where the scratch areas and the registers of the timers are. -/
def TimerMemory (scratch : UInt64) (address : Nat) : Prop :=
  (scratch.toNat ≤ address ∧ address < scratch.toNat + 40 * nCpu) ∨
    ((clintMtimecmp 0).toNat ≤ address ∧ address < clintMtime.toNat + 8)

inductive TimerAction
  /-- A hart calls `timer_init`. -/
  | init (cpu : Fin nCpu)
  /-- Time goes by. -/
  | time
  /-- A hart runs any other code. -/
  | work (cpu : Fin nCpu)
  /-- A hart takes a timer interrupt. -/
  | interrupt (cpu : Fin nCpu)

inductive TimerStep (scratch vector : UInt64) :
    TimerState → TimerAction → TimerState → Prop
  | init {state : TimerState} {cpu : Fin nCpu} :
      (state.cpus cpu).start = none →
      TimerStep scratch vector state (.init cpu)
        (state.setCpu cpu (timerInit scratch vector cpu (state.hart cpu))
          (some state.mtime) 0)
  | time {state : TimerState} {value : UInt64} :
      state.mtime ≤ value →
      TimerStep scratch vector state .time
        (state.setBytes (write64 state.bytes clintMtime.toNat value))
  | work {state : TimerState} {cpu : Fin nCpu} {after : Hart} :
      (∀ csr ∈ machineCsrs, after.csrs csr = (state.cpus cpu).csrs csr) →
      (∀ address, TimerMemory scratch address →
        after.bytes address = state.bytes address) →
      TimerStep scratch vector state (.work cpu)
        (state.setCpu cpu after (state.cpus cpu).start (state.cpus cpu).ticks)
  | interrupt {state : TimerState} {cpu : Fin nCpu} {after : Hart} :
      state.Enabled cpu →
      state.Pending cpu →
      (state.cpus cpu).csrs .mtvec = vector →
      run machine timerVector (state.hart cpu) = some after →
      TimerStep scratch vector state (.interrupt cpu)
        (state.setCpu cpu after (state.cpus cpu).start
          ((state.cpus cpu).ticks + 1))

/-- Harts from reset on. -/
def timerSystem (scratch vector : UInt64) :
    TransitionSystem TimerState TimerAction where
  Init state := ∀ cpu, (state.cpus cpu).csrs .mie = 0 ∧
    (state.cpus cpu).start = none ∧ (state.cpus cpu).ticks = 0
  Step := TimerStep scratch vector

/-- The scratch areas are an array in memory. -/
structure ScratchPlace (scratch : UInt64) : Prop where
  aligned : scratch.toNat % 8 = 0
  low : memStart.toNat ≤ scratch.toNat
  high : scratch.toNat + 40 * nCpu ≤ memEnd.toNat

section Timers

variable {scratch vector start : UInt64} {state state' : TimerState}
  {cpu : Fin nCpu} {bytes bytes' : Bytes}

theorem mscratchOf_toNat (place : ScratchPlace scratch) (cpu : Fin nCpu) :
    (mscratchOf scratch cpu).toNat = scratch.toNat + 40 * cpu := by
  have high := place.high
  have bound := cpu.isLt
  have isEnd : memEnd.toNat = 0x88000000 := rfl
  have offsets : ∀ cpu : Fin nCpu, (40 * UInt64.ofNat cpu).toNat = 40 * cpu := by
    decide
  unfold mscratchOf
  rw [UInt64.toNat_add, offsets]
  omega

theorem mtimecmpOf_toNat (cpu : Fin nCpu) :
    (mtimecmpOf cpu).toNat = 0x2004000 + 8 * cpu := by
  revert cpu
  decide

theorem mtimecmpOf_aligned (cpu : Fin nCpu) : mtimecmpOf cpu % 8 = 0 := by
  revert cpu
  decide

/-- The numbers of the timer of a hart are the same. -/
def SameTimer (scratch : UInt64) (cpu : Fin nCpu) (bytes bytes' : Bytes) :
    Prop :=
  ∀ address, (scratch.toNat + 40 * cpu + 24 ≤ address ∧
      address < scratch.toNat + 40 * cpu + 40) ∨
    (0x2004000 + 8 * cpu ≤ address ∧ address < 0x2004000 + 8 * cpu + 8) →
    bytes' address = bytes address

/-- The timer of a hart runs. -/
structure TimerRuns (scratch vector : UInt64) (state : TimerState)
    (cpu : Fin nCpu) (start : UInt64) : Prop where
  mtvec : (state.cpus cpu).csrs .mtvec = vector
  mscratch : (state.cpus cpu).csrs .mscratch = mscratchOf scratch cpu
  area : ScratchArea state.bytes (mscratchOf scratch cpu) (mtimecmpOf cpu)
    interval
  next : state.mtimecmp cpu =
    start + interval * UInt64.ofNat ((state.cpus cpu).ticks + 1)
  count : state.mtime.toNat + interval.toNat < 2 ^ 64 →
    start.toNat + interval.toNat * (state.cpus cpu).ticks ≤ state.mtime.toNat

/-- Other steps leave a timer running. -/
theorem TimerRuns.congr
    (place : ScratchPlace scratch)
    (runs : TimerRuns scratch vector state cpu start)
    (csrs : ∀ csr ∈ machineCsrs,
      (state'.cpus cpu).csrs csr = (state.cpus cpu).csrs csr)
    (ticks : (state'.cpus cpu).ticks = (state.cpus cpu).ticks)
    (same : SameTimer scratch cpu state.bytes state'.bytes)
    (later : state.mtime ≤ state'.mtime) :
    TimerRuns scratch vector state' cpu start := by
  have entry := mscratchOf_toNat place cpu
  have target := mtimecmpOf_toNat cpu
  have field : ∀ address, (address = (mscratchOf scratch cpu).toNat + 24 ∨
      address = (mscratchOf scratch cpu).toNat + 32 ∨
      address = (mtimecmpOf cpu).toNat) →
      read64 state'.bytes address = read64 state.bytes address := by
    intro address isField
    apply read64_congr
    intro index bound
    apply same
    omega
  have area := runs.area
  refine ⟨?_, ?_, ⟨area.aligned, area.room, area.alignedTarget, area.apart, ?_,
    ?_⟩, ?_, ?_⟩
  · exact (csrs .mtvec (by decide)).trans runs.mtvec
  · exact (csrs .mscratch (by decide)).trans runs.mscratch
  · exact (field _ (Or.inl rfl)).trans area.atTarget
  · exact (field _ (Or.inr (Or.inl rfl))).trans area.atPeriod
  · rw [ticks]
    exact (field _ (Or.inr (Or.inr rfl))).trans runs.next
  · intro fits
    rw [ticks]
    rw [UInt64.le_iff_toNat_le] at later
    have count := runs.count (by omega)
    omega

/-- No timer interrupt is enabled before `timer_init`. -/
structure TimerHolds (scratch vector : UInt64) (state : TimerState)
    (cpu : Fin nCpu) : Prop where
  stopped : (state.cpus cpu).start = none → (state.cpus cpu).csrs .mie = 0
  running : ∀ start, (state.cpus cpu).start = some start →
    TimerRuns scratch vector state cpu start

theorem TimerHolds.congr
    (place : ScratchPlace scratch)
    (holds : TimerHolds scratch vector state cpu)
    (csrs : ∀ csr ∈ machineCsrs,
      (state'.cpus cpu).csrs csr = (state.cpus cpu).csrs csr)
    (starts : (state'.cpus cpu).start = (state.cpus cpu).start)
    (ticks : (state'.cpus cpu).ticks = (state.cpus cpu).ticks)
    (same : SameTimer scratch cpu state.bytes state'.bytes)
    (later : state.mtime ≤ state'.mtime) :
    TimerHolds scratch vector state' cpu := by
  constructor
  · intro isNone
    rw [csrs .mie (by decide)]
    exact holds.stopped (starts.symm.trans isNone)
  · intro start isStarted
    exact (holds.running start (starts.symm.trans isStarted)).congr place csrs
      ticks same later

/-- Only the scratch area and the time of the next interrupt of a hart are
written. -/
def ChangesTimer (scratch : UInt64) (cpu : Fin nCpu) (bytes bytes' : Bytes) :
    Prop :=
  ∀ address, ¬((scratch.toNat + 40 * cpu ≤ address ∧
      address < scratch.toNat + 40 * cpu + 40) ∨
    (0x2004000 + 8 * cpu ≤ address ∧ address < 0x2004000 + 8 * cpu + 8)) →
    bytes' address = bytes address

theorem clintMtime_toNat : clintMtime.toNat = 0x200bff8 := rfl

/-- Time is not in the timer of a hart. -/
theorem ChangesTimer.mtime
    (place : ScratchPlace scratch)
    (changes : ChangesTimer scratch cpu bytes bytes') :
    read64 bytes' clintMtime.toNat = read64 bytes clintMtime.toNat := by
  have low := place.low
  have isStart : memStart.toNat = 0x80000000 := rfl
  have processors : nCpu = 2 := rfl
  have bound := cpu.isLt
  rw [clintMtime_toNat]
  apply read64_congr
  intro index inside
  apply changes
  omega

/-- The timers of harts are apart. -/
theorem ChangesTimer.other
    (place : ScratchPlace scratch)
    (changes : ChangesTimer scratch cpu bytes bytes') {other : Fin nCpu}
    (differs : other ≠ cpu) : SameTimer scratch other bytes bytes' := by
  have low := place.low
  have isStart : memStart.toNat = 0x80000000 := rfl
  have processors : nCpu = 2 := rfl
  have bound := cpu.isLt
  have otherBound := other.isLt
  have differ : (other : Nat) ≠ cpu := fun same => differs (Fin.ext same)
  intro address inside
  apply changes
  omega

theorem setCpu_cpus
    (state : TimerState) (cpu : Fin nCpu) (hart : Hart)
    (started : Option UInt64) (ticks : Nat) :
    (state.setCpu cpu hart started ticks).cpus cpu =
      ⟨hart.regs, hart.csrs, started, ticks⟩ :=
  Function.update_self _ _ _

/-- A hart sets its own timer. -/
theorem TimerHolds.setCpu_other
    (place : ScratchPlace scratch) {other : Fin nCpu} (differs : other ≠ cpu)
    (holds : TimerHolds scratch vector state other) {hart : Hart}
    (changes : ChangesTimer scratch cpu state.bytes hart.bytes)
    (started : Option UInt64) (ticks : Nat) :
    TimerHolds scratch vector (state.setCpu cpu hart started ticks) other := by
  have sameCpu : (state.setCpu cpu hart started ticks).cpus other =
      state.cpus other := Function.update_of_ne differs _ _
  refine holds.congr place ?_ ?_ ?_ (changes.other place differs) ?_
  · intro csr _
    rw [sameCpu]
  · rw [sameCpu]
  · rw [sameCpu]
  · exact UInt64.le_of_eq (changes.mtime place).symm

theorem changesTimer_timerInit
    (place : ScratchPlace scratch) (hart : Hart) :
    ChangesTimer scratch cpu hart.bytes
      (timerInit scratch vector cpu hart).bytes := by
  have entry := mscratchOf_toNat place cpu
  have target := mtimecmpOf_toNat cpu
  intro address outside
  refine (memmove_of_not_mem _ _ ?_).trans ((memmove_of_not_mem _ _ ?_).trans
    (memmove_of_not_mem _ _ ?_))
  all_goals omega

theorem changesTimer_timerLeft
    (place : ScratchPlace scratch) (hart : Hart) (period : UInt64) :
    ChangesTimer scratch cpu hart.bytes
      (timerLeft (mscratchOf scratch cpu) (mtimecmpOf cpu) period hart).bytes := by
  have entry := mscratchOf_toNat place cpu
  have target := mtimecmpOf_toNat cpu
  intro address outside
  refine (memmove_of_not_mem _ _ ?_).trans ?_
  · omega
  · apply savedBytes_sameOutside slots_timer
    omega

/-- `timer_init` starts the timer of its hart. -/
theorem timerRuns_init
    (place : ScratchPlace scratch) (state : TimerState) (cpu : Fin nCpu) :
    TimerRuns scratch vector (state.setCpu cpu
      (timerInit scratch vector cpu (state.hart cpu)) (some state.mtime) 0) cpu
      state.mtime := by
  have entry := mscratchOf_toNat place cpu
  have target := mtimecmpOf_toNat cpu
  have low := place.low
  have high := place.high
  have aligned := place.aligned
  have isStart : memStart.toNat = 0x80000000 := rfl
  have isEnd : memEnd.toNat = 0x88000000 := rfl
  have processors : nCpu = 2 := rfl
  have bound := cpu.isLt
  have self := setCpu_cpus state cpu
    (timerInit scratch vector cpu (state.hart cpu)) (some state.mtime) 0
  have changes : ChangesTimer scratch cpu state.bytes
      (timerInit scratch vector cpu (state.hart cpu)).bytes :=
    changesTimer_timerInit place (state.hart cpu)
  let first := write64 state.bytes ((mscratchOf scratch cpu).toNat + 24)
    (mtimecmpOf cpu)
  let second := write64 first ((mscratchOf scratch cpu).toNat + 32) interval
  have unwritten : read64 second clintMtime.toNat = state.mtime := by
    rw [clintMtime_toNat]
    refine (read64_memmove_of_disjoint _ _ ?_).trans
      (read64_memmove_of_disjoint _ _ ?_)
    all_goals omega
  refine ⟨?_, ?_, ⟨by omega, by omega, mtimecmpOf_aligned cpu,
    by omega, ?_, ?_⟩, ?_, ?_⟩
  · rw [self]
    rfl
  · rw [self]
    rfl
  · calc read64 _ _
      _ = read64 second ((mscratchOf scratch cpu).toNat + 24) := by
          apply read64_memmove_of_disjoint
          omega
      _ = read64 first ((mscratchOf scratch cpu).toNat + 24) := by
          apply read64_memmove_of_disjoint
          omega
      _ = mtimecmpOf cpu := read64_write64 _ _ _
  · calc read64 _ _
      _ = read64 second ((mscratchOf scratch cpu).toNat + 32) := by
          apply read64_memmove_of_disjoint
          omega
      _ = interval := read64_write64 _ _ _
  · rw [self]
    calc read64 _ _
      _ = read64 second clintMtime.toNat + interval := read64_write64 _ _ _
      _ = state.mtime + interval * UInt64.ofNat (0 + 1) := by
          rw [unwritten]
          rfl
  · intro _
    rw [self]
    exact Nat.le_of_eq (congrArg UInt64.toNat (changes.mtime place).symm)

/-- The time of the next interrupt, unless the clock runs over. -/
theorem TimerRuns.next_toNat
    (runs : TimerRuns scratch vector state cpu start)
    (fits : state.mtime.toNat + interval.toNat < 2 ^ 64) :
    (state.mtimecmp cpu).toNat =
      start.toNat + interval.toNat * ((state.cpus cpu).ticks + 1) := by
  have count := runs.count fits
  have product : (interval * UInt64.ofNat ((state.cpus cpu).ticks + 1)).toNat =
      interval.toNat * ((state.cpus cpu).ticks + 1) % 2 ^ 64 := by
    rw [UInt64.toNat_mul, UInt64.toNat_ofNat', Nat.mul_mod_mod]
  rw [runs.next, UInt64.toNat_add, product, Nat.add_mod_mod, Nat.mod_eq_of_lt]
  rw [Nat.mul_add]
  omega

/-- A timer interrupt sets the next one. -/
theorem TimerRuns.interrupt
    (place : ScratchPlace scratch)
    (runs : TimerRuns scratch vector state cpu start)
    (pending : state.Pending cpu) :
    TimerRuns scratch vector (state.setCpu cpu
      (timerLeft (mscratchOf scratch cpu) (mtimecmpOf cpu) interval
        (state.hart cpu)) (state.cpus cpu).start ((state.cpus cpu).ticks + 1))
      cpu start := by
  have area := runs.area
  have apart := area.apart
  have changes : ChangesTimer scratch cpu state.bytes
      (timerLeft (mscratchOf scratch cpu) (mtimecmpOf cpu) interval
        (state.hart cpu)).bytes :=
    changesTimer_timerLeft place (state.hart cpu) interval
  have sameTime := changes.mtime place
  have self := setCpu_cpus state cpu (timerLeft (mscratchOf scratch cpu)
    (mtimecmpOf cpu) interval (state.hart cpu)) (state.cpus cpu).start
    ((state.cpus cpu).ticks + 1)
  rcases area.save (state.cpus cpu).regs with ⟨saved, _⟩
  have field : ∀ address, (mscratchOf scratch cpu).toNat ≤ address →
      read64 (timerLeft (mscratchOf scratch cpu) (mtimecmpOf cpu) interval
        (state.hart cpu)).bytes address =
      read64 (savedBytes (mscratchOf scratch cpu) (state.cpus cpu).regs
        timerSlots state.bytes) address := by
    intro address above
    apply read64_memmove_of_disjoint
    omega
  refine ⟨?_, ?_, ⟨area.aligned, area.room, area.alignedTarget, apart, ?_, ?_⟩,
    ?_, ?_⟩
  · rw [self]
    exact runs.mtvec
  · rw [self]
    exact runs.mscratch
  · exact (field _ (Nat.le_add_right _ _)).trans saved.atTarget
  · exact (field _ (Nat.le_add_right _ _)).trans saved.atPeriod
  · have advance : interval * UInt64.ofNat ((state.cpus cpu).ticks + 1 + 1) =
        interval * UInt64.ofNat ((state.cpus cpu).ticks + 1) + interval := by
      rw [UInt64.ofNat_add ((state.cpus cpu).ticks + 1) 1, UInt64.mul_add]
      exact congrArg _ (UInt64.mul_one interval)
    rw [self]
    calc read64 _ _
      _ = state.mtimecmp cpu + interval := read64_write64 _ _ _
      _ = start + interval *
          UInt64.ofNat ((state.cpus cpu).ticks + 1 + 1) := by
        rw [runs.next, UInt64.add_assoc, advance]
  · intro fits
    have fits' : state.mtime.toNat + interval.toNat < 2 ^ 64 := by
      rw [← show _ = state.mtime from sameTime]
      exact fits
    have due : (state.mtimecmp cpu).toNat ≤ state.mtime.toNat := pending
    have later : (state.setCpu cpu (timerLeft (mscratchOf scratch cpu)
        (mtimecmpOf cpu) interval (state.hart cpu)) (state.cpus cpu).start
        ((state.cpus cpu).ticks + 1)).mtime = state.mtime := sameTime
    rw [runs.next_toNat fits'] at due
    rw [self, later]
    exact due

/-- What a hart does not change. -/
theorem setCpu_keep
    {α : Type*} (part : TimerCpu → α) {other : Fin nCpu} {hart : Hart}
    {started : Option UInt64} {ticks : Nat}
    (same : part ⟨hart.regs, hart.csrs, started, ticks⟩ =
      part (state.cpus other)) (cpu : Fin nCpu) :
    part ((state.setCpu other hart started ticks).cpus cpu) =
      part (state.cpus cpu) := by
  by_cases self : cpu = other
  · rw [self, ← same]
    exact congrArg part (setCpu_cpus _ _ _ _ _)
  · exact congrArg part (Function.update_of_ne self _ _)

namespace TimerHolds

variable {other : Fin nCpu}

theorem init
    (place : ScratchPlace scratch) (holds : TimerHolds scratch vector state cpu) :
    TimerHolds scratch vector (state.setCpu other
      (timerInit scratch vector other (state.hart other)) (some state.mtime) 0)
      cpu := by
  by_cases self : cpu = other
  · rw [self]
    have started : ((state.setCpu other (timerInit scratch vector other
        (state.hart other)) (some state.mtime) 0).cpus other).start =
        some state.mtime :=
      congrArg TimerCpu.start (setCpu_cpus _ _ _ _ _)
    constructor
    · intro isNone
      cases started.symm.trans isNone
    · intro start isStarted
      cases started.symm.trans isStarted
      exact timerRuns_init place state other
  · exact holds.setCpu_other place self
      (changesTimer_timerInit place (state.hart other)) _ _

theorem time
    (place : ScratchPlace scratch) (holds : TimerHolds scratch vector state cpu)
    {value : UInt64} (later : state.mtime ≤ value) :
    TimerHolds scratch vector
      (state.setBytes (write64 state.bytes clintMtime.toNat value)) cpu := by
  have written : (state.setBytes (write64 state.bytes clintMtime.toNat
      value)).mtime = value := read64_write64 _ _ _
  refine holds.congr place (fun _ _ => rfl) rfl rfl ?_ ?_
  · have low := place.low
    have isStart : memStart.toNat = 0x80000000 := rfl
    have processors : nCpu = 2 := rfl
    have bound := cpu.isLt
    intro address inside
    apply memmove_of_not_mem
    rw [clintMtime_toNat]
    omega
  · rw [written]
    exact later

theorem work
    (place : ScratchPlace scratch) (holds : TimerHolds scratch vector state cpu)
    {after : Hart}
    (csrs : ∀ csr ∈ machineCsrs, after.csrs csr = (state.cpus other).csrs csr)
    (same : ∀ address, TimerMemory scratch address →
      after.bytes address = state.bytes address) :
    TimerHolds scratch vector (state.setCpu other after
      (state.cpus other).start (state.cpus other).ticks) cpu := by
  have processors : nCpu = 2 := rfl
  have isFirst : (clintMtimecmp 0).toNat = 0x2004000 := rfl
  have isLast := clintMtime_toNat
  have sameTime : read64 after.bytes clintMtime.toNat = state.mtime := by
    apply read64_congr
    intro index bound
    apply same
    right
    omega
  refine holds.congr place ?_ (setCpu_keep TimerCpu.start rfl cpu)
    (setCpu_keep TimerCpu.ticks rfl cpu) ?_ (UInt64.le_of_eq sameTime.symm)
  · intro csr member
    exact setCpu_keep (fun hart => hart.csrs csr) (csrs csr member) cpu
  · have bound := cpu.isLt
    intro address inside
    apply same
    unfold TimerMemory
    omega

theorem interrupt
    (place : ScratchPlace scratch)
    (holds : ∀ cpu, TimerHolds scratch vector state cpu) {after : Hart}
    (enabled : state.Enabled other) (pending : state.Pending other)
    (run : run machine timerVector (state.hart other) = some after)
    (cpu : Fin nCpu) :
    TimerHolds scratch vector (state.setCpu other after
      (state.cpus other).start ((state.cpus other).ticks + 1)) cpu := by
  have started : ∃ start, (state.cpus other).start = some start := by
    cases isStart : (state.cpus other).start with
    | none => exact absurd (by rw [(holds other).stopped isStart]; rfl) enabled
    | some start => exact ⟨start, rfl⟩
  rcases started with ⟨start, isStart⟩
  have runs := (holds other).running start isStart
  have isAfter := Option.some.inj
    (run.symm.trans (run_timerVector runs.area runs.mscratch))
  by_cases self : cpu = other
  · rw [self, isAfter]
    constructor
    · intro isNone
      rw [setCpu_keep TimerCpu.start rfl, isStart] at isNone
      cases isNone
    · intro start' isStart'
      rw [setCpu_keep TimerCpu.start rfl, isStart] at isStart'
      cases isStart'
      exact runs.interrupt place pending
  · apply (holds cpu).setCpu_other place self
    rw [isAfter]
    exact changesTimer_timerLeft place (state.hart other) interval

/-- Every step leaves every timer on time. -/
theorem step
    (place : ScratchPlace scratch)
    (holds : ∀ cpu, TimerHolds scratch vector state cpu) {action : TimerAction}
    (step : TimerStep scratch vector state action state') (cpu : Fin nCpu) :
    TimerHolds scratch vector state' cpu := by
  cases step with
  | init => exact (holds cpu).init place
  | time later => exact (holds cpu).time place later
  | work csrs same => exact (holds cpu).work place csrs same
  | interrupt enabled pending _ run =>
      exact interrupt place holds enabled pending run cpu

theorem of_reachable
    (place : ScratchPlace scratch)
    (reachable : (timerSystem scratch vector).Reachable state)
    (cpu : Fin nCpu) : TimerHolds scratch vector state cpu := by
  revert cpu
  apply reachable.invariant
  · intro state start cpu
    constructor
    · intro _
      exact (start cpu).1
    · intro _ isStarted
      cases (start cpu).2.1.symm.trans isStarted
  · intro before action after holds _ taken cpu
    exact step place holds taken cpu

end TimerHolds

/-- In every state that is reached, the next interrupt of a hart is a number of
intervals after its start, one more than the interrupts it has taken.  While the
clock does not run over, a hart has taken at most one interrupt for each
interval since its start, and all of them if none is pending. -/
theorem timers_onTime
    (place : ScratchPlace scratch)
    (reachable : (timerSystem scratch vector).Reachable state)
    (isStarted : (state.cpus cpu).start = some start) :
    state.mtimecmp cpu =
      start + interval * UInt64.ofNat ((state.cpus cpu).ticks + 1) ∧
    (state.mtime.toNat + interval.toNat < 2 ^ 64 →
      (state.cpus cpu).ticks ≤
        (state.mtime.toNat - start.toNat) / interval.toNat ∧
      (¬state.Pending cpu ↔ (state.cpus cpu).ticks =
        (state.mtime.toNat - start.toNat) / interval.toNat)) := by
  have runs := (TimerHolds.of_reachable place reachable cpu).running start
    isStarted
  refine ⟨runs.next, ?_⟩
  intro fits
  have count := runs.count fits
  have next := runs.next_toNat fits
  have isInterval : interval.toNat = 1000000 := rfl
  have pending : state.Pending cpu ↔
      (state.mtimecmp cpu).toNat ≤ state.mtime.toNat := Iff.rfl
  rw [pending, next, isInterval]
  rw [isInterval] at count
  omega

/-- In every state that is reached, a timer interrupt that is enabled runs
`timer_vector` to its end, which gives back all registers, raises a software
interrupt and writes nothing but three numbers of its scratch area and the time
of the next interrupt. -/
theorem timerVector_transparent
    (place : ScratchPlace scratch)
    (reachable : (timerSystem scratch vector).Reachable state)
    (enabled : state.Enabled cpu) :
    (state.cpus cpu).csrs .mtvec = vector ∧
    ∃ after, run machine timerVector (state.hart cpu) = some after ∧
      after.regs = (state.cpus cpu).regs ∧
      after.csrs = Function.update (state.cpus cpu).csrs .sip
        (((state.cpus cpu).csrs .sip &&& ~~~2) ||| 2) ∧
      ∀ address, ¬(scratch.toNat + 40 * cpu ≤ address ∧
          address < scratch.toNat + 40 * cpu + 24) →
        ¬((mtimecmpOf cpu).toNat ≤ address ∧
          address < (mtimecmpOf cpu).toNat + 8) →
        after.bytes address = state.bytes address := by
  have holds := TimerHolds.of_reachable place reachable cpu
  cases isStart : (state.cpus cpu).start with
  | none =>
      unfold TimerState.Enabled at enabled
      rw [holds.stopped isStart] at enabled
      exact absurd rfl enabled
  | some start =>
      have runs := holds.running start isStart
      refine ⟨runs.mtvec, _, run_timerVector runs.area runs.mscratch, rfl, rfl,
        ?_⟩
      intro address notSlot notNext
      have entry := mscratchOf_toNat place cpu
      have slots : Slots 24 timerSlots := ⟨by decide, by decide, by decide⟩
      refine (memmove_of_not_mem _ _ notNext).trans ?_
      apply savedBytes_sameOutside slots
      omega

end Timers

/-- The first hart has started its timer, and an interrupt is pending. -/
theorem exists_timerRun :
    ∃ state : TimerState, ScratchPlace 0x80006000 ∧
      (timerSystem 0x80006000 0x80000200).Reachable state ∧
      (state.cpus 0).start = some 0 ∧ (state.cpus 0).ticks = 0 ∧
      state.Enabled 0 ∧ state.Pending 0 := by
  let reset : TimerState := ⟨fun _ => 0, fun _ => ⟨fun _ => 0, fun _ => 0,
    none, 0⟩⟩
  let first := timerInit 0x80006000 0x80000200 0 (reset.hart 0)
  let started := reset.setCpu 0 first (some reset.mtime) 0
  let later := started.setBytes
    (write64 started.bytes clintMtime.toNat 1000000)
  have place : ScratchPlace 0x80006000 := ⟨by decide, by decide, by decide⟩
  have start : (timerSystem 0x80006000 0x80000200).Reachable reset :=
    .init fun _ => ⟨rfl, rfl, rfl⟩
  have starts : (timerSystem 0x80006000 0x80000200).Reachable started :=
    .step start trivial (.init rfl)
  have isZero : reset.mtime = 0 := by decide
  have changes : ChangesTimer 0x80006000 0 reset.bytes first.bytes :=
    changesTimer_timerInit place (reset.hart 0)
  have isNow : started.mtime = 0 := (changes.mtime place).trans isZero
  have waits : started.mtime ≤ 1000000 := by
    rw [isNow]
    decide
  have waited : (timerSystem 0x80006000 0x80000200).Reachable later :=
    .step starts trivial (.time waits)
  have isStarted : (later.cpus 0).start = some 0 := by
    rw [← isZero]
    rfl
  have isLater : later.mtime = 1000000 := read64_write64 _ _ _
  refine ⟨later, place, waited, isStarted, rfl, ?_, ?_⟩
  · change (0 ||| mieMtie) &&& mieMtie ≠ 0
    decide
  · have next := ((TimerHolds.of_reachable place waited 0).running 0
      isStarted).next
    unfold TimerState.Pending
    rw [isLater, next]
    decide

theorem timers_onTime_first :
    ∃ state : TimerState, state.Pending 0 ∧
      state.mtimecmp 0 = 0 + interval * UInt64.ofNat (0 + 1) := by
  rcases exists_timerRun with
    ⟨state, place, reachable, isStarted, isFirst, _, pending⟩
  have next := (timers_onTime place reachable isStarted).1
  rw [isFirst] at next
  exact ⟨state, pending, next⟩

theorem timerVector_transparent_first :
    ∃ (state : TimerState) (after : Hart), state.Pending 0 ∧
      run machine timerVector (state.hart 0) = some after ∧
      after.regs = (state.cpus 0).regs := by
  rcases exists_timerRun with
    ⟨state, place, reachable, _, _, enabled, pending⟩
  rcases timerVector_transparent place reachable enabled with
    ⟨_, after, runs, regs, _⟩
  exact ⟨state, after, pending, runs, regs⟩

end Trap
end WhuOs
