import Mathlib.Data.Finset.Card
import Mathlib.Data.UInt
import WhuOs.Common
import WhuOs.Library.TransitionSystem

/-!
# Spinlocks and nested interrupt disabling

The CPUs run `spinlock_acquire`, `spinlock_release` and `uart_putc_sync`, and
the calls are cut at their accesses to the memory that the CPUs share.
-/

namespace WhuOs
namespace Lib

open Library

/-- `cpuid` of one of the `NCPU` CPUs. -/
abbrev CpuId := Fin nCpu

/-- `mycpuid` -/
def mycpuid (me : CpuId) : Int32 :=
  Int32.ofNat me

/-- The addresses of memory, up to `ALLOC_END`. -/
abbrev RamAddr :=
  {address : UInt64 // 0x80000000 ≤ address ∧ address < 0x88000000}

/-- `spinlock_t`, without its name. -/
structure SpinlockT where
  locked : Int32
  cpuid : Int32
  deriving DecidableEq

/-- `spinlock_init` -/
def spinlockInit : SpinlockT where
  locked := 0
  cpuid := 0

/-- The fields of `cpu_t` that are used here, and the bit `SSTATUS_SIE`. -/
structure Cpu where
  intr : Bool
  noff : Int32
  origin : Int32
  deriving DecidableEq

/-- `intr_get` -/
def intrGet (c : Cpu) : Int32 :=
  if c.intr then 1 else 0

/-- `push_off` -/
def pushOff (c : Cpu) : Cpu :=
  let old := intrGet c
  let c := { c with intr := false }
  let c := if c.noff = 0 then { c with origin := old } else c
  { c with noff := c.noff + 1 }

/-- `pop_off` -/
def popOff (c : Cpu) : Except String Cpu :=
  if intrGet c ≠ 0 then
    .error "pop_off - interruptible"
  else if c.noff < 1 then
    .error "pop_off"
  else
    let c := { c with noff := c.noff - 1 }
    if c.noff = 0 ∧ c.origin ≠ 0 then
      .ok { c with intr := true }
    else
      .ok c

/-! ## The calls -/

/-- Where a CPU stands.  The names say which access comes next. -/
inductive Control
  /-- Between two calls, or waiting in `uart_putc_sync`. -/
  | idle
  /-- `lk->locked` in `spinlock_holding`. -/
  | acquireLocked (lk : RamAddr)
  /-- `lk->cpuid == mycpuid()` in `spinlock_holding`. -/
  | acquireCpuid (lk : RamAddr)
  /-- `__sync_lock_test_and_set(&lk->locked, 1)` -/
  | acquireSwap (lk : RamAddr)
  /-- `lk->cpuid = mycpuid()` -/
  | acquireStore (lk : RamAddr)
  /-- `lk->locked` in `spinlock_holding`. -/
  | releaseLocked (lk : RamAddr)
  /-- `lk->cpuid == mycpuid()` in `spinlock_holding`. -/
  | releaseCpuid (lk : RamAddr)
  /-- `lk->cpuid = -1` -/
  | releaseStore (lk : RamAddr)
  /-- `__sync_lock_release(&lk->locked)` -/
  | releaseUnlock (lk : RamAddr)
  /-- `pop_off()` -/
  | releasePop
  deriving DecidableEq

/-- A CPU with the history of its calls. -/
structure Thread where
  cpu : Cpu
  control : Control
  /-- The locks it acquired and did not unlock. -/
  held : Finset RamAddr
  /-- The stack frames of `uart_putc_sync` between `push_off` and `pop_off`. -/
  frames : Finset RamAddr

/-- The spinlocks in memory. -/
abbrev LockMemory := RamAddr → SpinlockT

/-- The next access of a call. -/
def advance (me : CpuId) (thread : Thread) (locks : LockMemory) :
    Except String (Thread × LockMemory) :=
  match thread.control with
  | .idle => .ok (thread, locks)
  | .acquireLocked lk =>
      if (locks lk).locked ≠ 0 then
        .ok ({ thread with control := .acquireCpuid lk }, locks)
      else
        .ok ({ thread with control := .acquireSwap lk }, locks)
  | .acquireCpuid lk =>
      if (locks lk).cpuid = mycpuid me then
        .error "acquire"
      else
        .ok ({ thread with control := .acquireSwap lk }, locks)
  | .acquireSwap lk =>
      let swapped := Function.update locks lk { locks lk with locked := 1 }
      if (locks lk).locked ≠ 0 then
        .ok (thread, swapped)
      else
        .ok ({ thread with control := .acquireStore lk }, swapped)
  | .acquireStore lk =>
      .ok ({ thread with control := .idle, held := insert lk thread.held },
        Function.update locks lk { locks lk with cpuid := mycpuid me })
  | .releaseLocked lk =>
      if (locks lk).locked ≠ 0 then
        .ok ({ thread with control := .releaseCpuid lk }, locks)
      else
        .error "release"
  | .releaseCpuid lk =>
      if (locks lk).cpuid = mycpuid me then
        .ok ({ thread with control := .releaseStore lk }, locks)
      else
        .error "release"
  | .releaseStore lk =>
      .ok ({ thread with control := .releaseUnlock lk },
        Function.update locks lk { locks lk with cpuid := -1 })
  | .releaseUnlock lk =>
      .ok ({ thread with control := .releasePop, held := thread.held.erase lk },
        Function.update locks lk { locks lk with locked := 0 })
  | .releasePop => do
      let cpu ← popOff thread.cpu
      .ok ({ thread with cpu, control := .idle }, locks)

/-- What a CPU does next. -/
inductive Action
  | acquire (lk : RamAddr)
  | release (lk : RamAddr)
  /-- `push_off` in `uart_putc_sync`. -/
  | putc (frame : RamAddr)
  /-- `pop_off` in `uart_putc_sync`. -/
  | putcPop (frame : RamAddr)
  /-- The next access of a call. -/
  | advance
  deriving DecidableEq

/-- One action of a CPU.  An acquire starts with `push_off`. -/
def perform (me : CpuId) (thread : Thread) (locks : LockMemory) :
    Action → Except String (Thread × LockMemory)
  | .acquire lk =>
      .ok ({ thread with
        cpu := pushOff thread.cpu, control := .acquireLocked lk }, locks)
  | .release lk => .ok ({ thread with control := .releaseLocked lk }, locks)
  | .putc frame =>
      .ok ({ thread with
        cpu := pushOff thread.cpu, frames := insert frame thread.frames }, locks)
  | .putcPop frame => do
      let cpu ← popOff thread.cpu
      .ok ({ thread with cpu, frames := thread.frames.erase frame }, locks)
  | .advance => advance me thread locks

/-- A lock is acquired by a CPU that does not hold it and released by one that
does, and both calls return before the next one. -/
def Thread.Allows (thread : Thread) : Action → Prop
  | .acquire lk => thread.control = .idle ∧ lk ∉ thread.held
  | .release lk => thread.control = .idle ∧ lk ∈ thread.held
  | .putc frame => thread.control = .idle ∧ frame ∉ thread.frames
  | .putcPop frame => thread.control = .idle ∧ frame ∈ thread.frames
  | .advance => thread.control ≠ .idle

instance (thread : Thread) : DecidablePred thread.Allows
  | .acquire _ => inferInstanceAs (Decidable (_ ∧ _))
  | .release _ => inferInstanceAs (Decidable (_ ∧ _))
  | .putc _ => inferInstanceAs (Decidable (_ ∧ _))
  | .putcPop _ => inferInstanceAs (Decidable (_ ∧ _))
  | .advance => inferInstanceAs (Decidable (_ ≠ _))

/-- All CPUs and their locks. -/
structure Machine where
  threads : CpuId → Thread
  locks : LockMemory
  panicked : Option String

/-- An action of one CPU. -/
def Machine.step (machine : Machine) (me : CpuId) (action : Action) : Machine :=
  match perform me (machine.threads me) machine.locks action with
  | .ok (thread, locks) =>
      { machine with
        threads := Function.update machine.threads me thread
        locks := locks }
  | .error message => { machine with panicked := some message }

/-- No call has started. -/
structure Starts (flag : CpuId → Bool) (machine : Machine) : Prop where
  locks : ∀ lk, machine.locks lk = spinlockInit
  panicked : machine.panicked = none
  control : ∀ me, (machine.threads me).control = .idle
  held : ∀ me, (machine.threads me).held = ∅
  frames : ∀ me, (machine.threads me).frames = ∅
  noff : ∀ me, (machine.threads me).cpu.noff = 0
  intr : ∀ me, (machine.threads me).cpu.intr = flag me

/-- The interleavings of calls, from a state with given interrupt flags. -/
def lockSystem (flag : CpuId → Bool) :
    TransitionSystem Machine (CpuId × Action) where
  Init := Starts flag
  Step := fun before label after =>
    before.panicked = none ∧ (before.threads label.1).Allows label.2 ∧
      after = before.step label.1 label.2

end Lib
end WhuOs
