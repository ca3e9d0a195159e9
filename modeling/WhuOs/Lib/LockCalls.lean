import WhuOs.Lib.Spinlock
import WhuOs.Library.OwnedLock

/-!
# The depth of nested calls

`noff` counts the locks a CPU holds together with its other open `push_off`s,
and the interrupt flag comes back when the count is zero again.  No call panics
unless a CPU compares its id with one that another CPU has not yet replaced.
-/

namespace WhuOs
namespace Lib

open Library

/-! ## Interrupts of one CPU -/

/-- `noff` is the depth, and `origin` the flag outside of all calls. -/
structure Cpu.Balanced (flag : Bool) (depth : Nat) (c : Cpu) : Prop where
  noff : c.noff = Int32.ofNat depth
  off : 0 < depth → c.intr = false
  origin : 0 < depth → (c.origin ≠ 0 ↔ flag = true)
  restored : depth = 0 → c.intr = flag

section Interrupts

variable {flag : Bool} {depth : Nat} {c : Cpu}

theorem toInt_depth (bound : depth < 2 ^ 31) :
    (Int32.ofNat depth).toInt = depth :=
  Int32.toInt_ofNat_of_lt bound

theorem depth_eq_zero (bound : depth < 2 ^ 31) :
    Int32.ofNat depth = 0 ↔ depth = 0 := by
  rw [← Int32.toInt_inj, toInt_depth bound]
  exact Int.natCast_eq_zero

theorem intrGet_ne_zero (c : Cpu) : intrGet c ≠ 0 ↔ c.intr = true := by
  unfold intrGet
  cases c.intr <;> decide

/-- Only the outermost `push_off` saves the flag. -/
theorem Cpu.Balanced.push
    (balanced : Cpu.Balanced flag depth c) (bound : depth + 1 < 2 ^ 31) :
    Cpu.Balanced flag (depth + 1) (pushOff c) := by
  have zero : c.noff = 0 ↔ depth = 0 := by
    rw [balanced.noff]
    exact depth_eq_zero (by omega)
  have next : c.noff + 1 = Int32.ofNat (depth + 1) := by
    rw [balanced.noff, Int32.ofNat_add]
    rfl
  unfold pushOff
  by_cases outside : depth = 0
  · simp only [if_pos (zero.mpr outside)]
    refine ⟨next, fun _ => rfl, fun _ => ?_, nofun⟩
    rw [← balanced.restored outside]
    exact intrGet_ne_zero c
  · simp only [if_neg (mt zero.mp outside)]
    exact ⟨next, fun _ => rfl,
      fun _ => balanced.origin (Nat.pos_of_ne_zero outside), nofun⟩

/-- Only the outermost `pop_off` restores the flag. -/
theorem Cpu.Balanced.pop
    (balanced : Cpu.Balanced flag (depth + 1) c) (bound : depth + 1 < 2 ^ 31) :
    ∃ after, popOff c = .ok after ∧ Cpu.Balanced flag depth after := by
  have off : ¬intrGet c ≠ 0 := by
    rw [intrGet_ne_zero, balanced.off (Nat.succ_pos depth)]
    decide
  have enough : ¬c.noff < 1 := by
    rw [balanced.noff, Int32.lt_iff_toInt_lt, toInt_depth bound]
    change ¬((depth + 1 : Nat) : Int) < 1
    omega
  have next : c.noff - 1 = Int32.ofNat depth := by
    rw [balanced.noff, Int32.ofNat_add]
    exact Int32.add_sub_cancel _ _
  have zero : c.noff - 1 = 0 ↔ depth = 0 := by
    rw [next]
    exact depth_eq_zero (by omega)
  have origin := balanced.origin (Nat.succ_pos depth)
  unfold popOff
  rw [if_neg off, if_neg enough]
  by_cases last : c.noff - 1 = 0 ∧ c.origin ≠ 0
  · simp only [if_pos last]
    have outside : depth = 0 := zero.mp last.1
    refine ⟨_, rfl, next, fun inside => ?_, fun _ => origin, fun _ => ?_⟩
    · omega
    · exact (origin.mp last.2).symm
  · simp only [if_neg last]
    refine ⟨_, rfl, next, fun _ => balanced.off (Nat.succ_pos depth),
      fun _ => origin, fun outside => ?_⟩
    have unset : ¬flag = true := fun set =>
      last ⟨zero.mpr outside, origin.mpr set⟩
    rw [Bool.not_eq_true] at unset
    rw [unset]
    exact balanced.off (Nat.succ_pos depth)

end Interrupts

/-! ## The calls of one CPU -/

/-- The `push_off` of a call that does not have its lock. -/
def Control.opened : Control → Nat
  | .idle => 0
  | .acquireLocked _ => 1
  | .acquireCpuid _ => 1
  | .acquireSwap _ => 1
  | .acquireStore _ => 1
  | .releaseLocked _ => 0
  | .releaseCpuid _ => 0
  | .releaseStore _ => 0
  | .releaseUnlock _ => 0
  | .releasePop => 1

/-- The `push_off`s that are open besides those of the locks that are held. -/
def Thread.opened (thread : Thread) : Nat :=
  thread.frames.card + thread.control.opened

/-- All open `push_off`s. -/
def Thread.depth (thread : Thread) : Nat :=
  thread.held.card + thread.opened

/-- The lock of a call is held if it is released. -/
def Thread.Fits (thread : Thread) : Prop :=
  match thread.control with
  | .idle => True
  | .acquireLocked lk => lk ∉ thread.held
  | .acquireCpuid lk => lk ∉ thread.held
  | .acquireSwap lk => lk ∉ thread.held
  | .acquireStore lk => lk ∉ thread.held
  | .releaseLocked lk => lk ∈ thread.held
  | .releaseCpuid lk => lk ∈ thread.held
  | .releaseStore lk => lk ∈ thread.held
  | .releaseUnlock lk => lk ∈ thread.held
  | .releasePop => True

/-- Memory has room for fewer locks than `noff` can count. -/
theorem card_le (addresses : Finset RamAddr) : addresses.card ≤ 2 ^ 27 := by
  have offset : ∀ address ∈ addresses,
      address.1.toNat - 0x80000000 ∈ Finset.range (2 ^ 27) := by
    intro address _
    have bound := UInt64.lt_iff_toNat_lt.mp address.2.2
    change address.1.toNat < 0x88000000 at bound
    rw [Finset.mem_range]
    omega
  have injective : Set.InjOn
      (fun address : RamAddr => address.1.toNat - 0x80000000) addresses := by
    intro address _ other _ equal
    have lower := UInt64.le_iff_toNat_le.mp address.2.1
    have lower' := UInt64.le_iff_toNat_le.mp other.2.1
    change 0x80000000 ≤ address.1.toNat at lower
    change 0x80000000 ≤ other.1.toNat at lower'
    change address.1.toNat - 0x80000000 = other.1.toNat - 0x80000000 at equal
    exact Subtype.ext (UInt64.toNat_inj.mp (by omega))
  calc
    addresses.card ≤ (Finset.range (2 ^ 27)).card :=
      Finset.card_le_card_of_injOn _ offset injective
    _ = 2 ^ 27 := Finset.card_range _

theorem Thread.depth_lt (thread : Thread) : thread.depth + 1 < 2 ^ 31 := by
  have locks := card_le thread.held
  have frames := card_le thread.frames
  have opened : thread.control.opened ≤ 1 := by
    cases thread.control <;> simp [Control.opened]
  unfold Thread.depth Thread.opened
  omega

/-- What holds of a CPU between two actions. -/
structure Thread.Sound (flag : Bool) (thread : Thread) : Prop where
  balanced : thread.cpu.Balanced flag thread.depth
  fits : thread.Fits

/-! ## The locks -/

/-- The fields of a lock. -/
def SpinlockT.view (lock : SpinlockT) : OwnedLock Int32 where
  locked := decide (lock.locked ≠ 0)
  owner := lock.cpuid

/-- Where a call stands with a lock other than those it found held. -/
def Control.phase : Control → RamAddr → Option LockPhase
  | .acquireCpuid own, lk => if own = lk then some .checking else none
  | .acquireStore own, lk => if own = lk then some .taken else none
  | .releaseUnlock own, lk => if own = lk then some .cleared else none
  | _, _ => none

/-- Where a CPU stands with a lock. -/
def Thread.phase (thread : Thread) (lk : RamAddr) : LockPhase :=
  (thread.control.phase lk).getD
    (if lk ∈ thread.held then .held else .outside)

/-- The lock that a CPU has taken without storing its id. -/
theorem Thread.control_of_taken
    {thread : Thread} {lk : RamAddr} (taken : thread.phase lk = .taken) :
    thread.control = .acquireStore lk := by
  unfold Thread.phase at taken
  cases stands : thread.control <;> rw [stands] at taken <;>
    simp only [Control.phase] at taken <;> split_ifs at taken <;>
    simp_all

/-- A lock that is held, unless it is unlocked next. -/
theorem Thread.phase_of_mem
    {thread : Thread} {lk : RamAddr} (quiet : thread.control.phase lk = none)
    (member : lk ∈ thread.held) : thread.phase lk = .held := by
  rw [Thread.phase, quiet, Option.getD_none, if_pos member]

theorem Thread.phase_of_not_mem
    {thread : Thread} {lk : RamAddr} (quiet : thread.control.phase lk = none)
    (absent : lk ∉ thread.held) : thread.phase lk = .outside := by
  rw [Thread.phase, quiet, Option.getD_none, if_neg absent]

/-- An action that does not panic and keeps a CPU sound. -/
structure Performs (flag : Bool) (me : CpuId) (thread : Thread)
    (locks : LockMemory) (action : Action) (after : Thread)
    (locks' : LockMemory) : Prop where
  result : perform me thread locks action = .ok (after, locks')
  sound : after.Sound flag
  moves : ∀ lk, OwnedLock.Move mycpuid (-1) me (thread.phase lk)
    (locks lk).view (after.phase lk) (locks' lk).view

section Steps

variable {flag : Bool} {me : CpuId} {thread after : Thread}
variable {locks : LockMemory}

theorem Thread.Sound.keep
    (sound : thread.Sound flag) (cpu : after.cpu = thread.cpu)
    (depth : after.depth = thread.depth) (fits : after.Fits) :
    after.Sound flag :=
  ⟨by rw [cpu, depth]; exact sound.balanced, fits⟩

/-- No phase changes. -/
theorem moves_stay
    (same : ∀ lk, after.phase lk = thread.phase lk) (lk : RamAddr) :
    OwnedLock.Move mycpuid (-1) me (thread.phase lk) (locks lk).view
      (after.phase lk) (locks lk).view := by
  rw [same]
  exact OwnedLock.Move.stay _ _

/-- Only one lock moves. -/
theorem moves_at
    {locks' : LockMemory} (own : RamAddr)
    (phases : ∀ lk, lk ≠ own → after.phase lk = thread.phase lk)
    (others : ∀ lk, lk ≠ own → locks' lk = locks lk)
    (moves : OwnedLock.Move mycpuid (-1) me (thread.phase own)
      (locks own).view (after.phase own) (locks' own).view) (lk : RamAddr) :
    OwnedLock.Move mycpuid (-1) me (thread.phase lk) (locks lk).view
      (after.phase lk) (locks' lk).view := by
  by_cases same : lk = own
  · rw [same]
    exact moves
  · rw [phases lk same, others lk same]
    exact OwnedLock.Move.stay _ _

variable (sound : thread.Sound flag)

include sound

/-- A call starts with `push_off`. -/
theorem Thread.Sound.push
    (cpu : after.cpu = pushOff thread.cpu)
    (depth : after.depth = thread.depth + 1) (fits : after.Fits) :
    after.Sound flag :=
  ⟨by rw [cpu, depth]; exact sound.balanced.push thread.depth_lt, fits⟩

/-- A call ends with `pop_off`. -/
theorem Thread.Sound.pop
    (inside : 0 < thread.depth) :
    ∃ cpu, popOff thread.cpu = .ok cpu ∧
      ∀ after : Thread, after.cpu = cpu → after.depth + 1 = thread.depth →
        after.Fits → after.Sound flag := by
  obtain ⟨depth, deeper⟩ := Nat.exists_eq_add_of_lt inside
  rw [Nat.zero_add] at deeper
  have balanced := sound.balanced
  have bound := thread.depth_lt
  rw [deeper] at balanced bound
  obtain ⟨cpu, run, balanced⟩ := balanced.pop (by omega)
  refine ⟨cpu, run, fun after same less fits => ⟨?_, fits⟩⟩
  rw [same, show after.depth = depth by omega]
  exact balanced

/-- The first and the last part of `uart_putc_sync`, and the first parts of the
other calls. -/
theorem Thread.Sound.call
    {action : Action} (other : action ≠ .advance)
    (allows : thread.Allows action) :
    ∃ after locks', Performs flag me thread locks action after locks' := by
  cases action with
  | acquire lk =>
      obtain ⟨idle, absent⟩ := allows
      refine ⟨_, _, rfl, sound.push rfl ?_ absent, moves_stay fun lk' => ?_⟩
      · simp only [Thread.depth, Thread.opened, idle, Control.opened]
        omega
      · simp only [Thread.phase, idle, Control.phase]
  | release lk =>
      obtain ⟨idle, member⟩ := allows
      refine ⟨_, _, rfl, sound.keep rfl ?_ member, moves_stay fun lk' => ?_⟩
      · simp only [Thread.depth, Thread.opened, idle, Control.opened]
      · simp only [Thread.phase, idle, Control.phase]
  | putc frame =>
      obtain ⟨idle, absent⟩ := allows
      refine ⟨_, _, rfl, sound.push rfl ?_ ?_, moves_stay fun _ => rfl⟩
      · simp only [Thread.depth, Thread.opened,
          Finset.card_insert_of_notMem absent]
        omega
      · exact sound.fits
  | putcPop frame =>
      obtain ⟨idle, member⟩ := allows
      have card := Finset.card_erase_add_one member
      have inside : 0 < thread.depth := by
        unfold Thread.depth Thread.opened
        omega
      obtain ⟨cpu, run, keeps⟩ := sound.pop inside
      refine ⟨{ thread with cpu, frames := thread.frames.erase frame }, locks,
        ?_, keeps _ rfl ?_ sound.fits, moves_stay fun _ => rfl⟩
      · rw [perform, run]
        rfl
      · simp only [Thread.depth, Thread.opened]
        omega
  | advance => exact absurd rfl other

/-- `spinlock_acquire` reads whether the lock is taken. -/
theorem Thread.Sound.acquireLocked
    {lk : RamAddr} (stands : thread.control = .acquireLocked lk) :
    ∃ after locks', Performs flag me thread locks .advance after locks' := by
  have absent := sound.fits
  rw [Thread.Fits, stands] at absent
  have outside : thread.phase lk = .outside :=
    thread.phase_of_not_mem (by rw [stands]; rfl) absent
  by_cases set : (locks lk).locked ≠ 0
  · refine ⟨{ thread with control := .acquireCpuid lk }, locks, ?_,
      sound.keep rfl ?_ absent, moves_at lk ?_ (fun _ _ => rfl) ?_⟩
    · rw [perform, advance, stands]
      exact if_pos set
    · simp only [Thread.depth, Thread.opened, stands, Control.opened]
    · intro other differs
      simp only [Thread.phase, stands, Control.phase, if_neg differs.symm]
    · have checking : Thread.phase { thread with control := .acquireCpuid lk }
          lk = .checking := by
        rw [Thread.phase, Control.phase, if_pos rfl]
        rfl
      rw [outside, checking]
      exact OwnedLock.Move.check _ (decide_eq_true set)
  · refine ⟨{ thread with control := .acquireSwap lk }, locks, ?_,
      sound.keep rfl ?_ absent, moves_stay fun other => ?_⟩
    · rw [perform, advance, stands]
      exact if_neg set
    · simp only [Thread.depth, Thread.opened, stands, Control.opened]
    · simp only [Thread.phase, stands, Control.phase]

/-- `spinlock_acquire` reads the id of another CPU. -/
theorem Thread.Sound.acquireCpuid
    {lk : RamAddr} (stands : thread.control = .acquireCpuid lk)
    (foreign : (locks lk).cpuid ≠ mycpuid me) :
    ∃ after locks', Performs flag me thread locks .advance after locks' := by
  have absent := sound.fits
  rw [Thread.Fits, stands] at absent
  refine ⟨{ thread with control := .acquireSwap lk }, locks, ?_,
    sound.keep rfl ?_ absent, moves_at lk ?_ (fun _ _ => rfl) ?_⟩
  · rw [perform, advance, stands]
    exact if_neg foreign
  · simp only [Thread.depth, Thread.opened, stands, Control.opened]
  · intro other differs
    simp only [Thread.phase, stands, Control.phase, if_neg differs.symm]
  · have checking : thread.phase lk = .checking := by
      rw [Thread.phase, stands, Control.phase, if_pos rfl]
      rfl
    have outside : Thread.phase { thread with control := .acquireSwap lk }
        lk = .outside := Thread.phase_of_not_mem rfl absent
    rw [checking, outside]
    exact OwnedLock.Move.pass _

/-- The test-and-set of `spinlock_acquire`. -/
theorem Thread.Sound.acquireSwap
    {lk : RamAddr} (stands : thread.control = .acquireSwap lk) :
    ∃ after locks', Performs flag me thread locks .advance after locks' := by
  have absent := sound.fits
  rw [Thread.Fits, stands] at absent
  have outside : thread.phase lk = .outside :=
    thread.phase_of_not_mem (by rw [stands]; rfl) absent
  have others : ∀ other, other ≠ lk → Function.update locks lk
      { locks lk with locked := 1 } other = locks other :=
    fun other differs => Function.update_of_ne differs _ _
  by_cases set : (locks lk).locked ≠ 0
  · refine ⟨thread, Function.update locks lk { locks lk with locked := 1 }, ?_,
      sound, moves_at lk (fun _ _ => rfl) others ?_⟩
    · rw [perform, advance, stands]
      exact if_pos set
    · have same : SpinlockT.view { locks lk with locked := 1 } =
          (locks lk).view := by
        rw [SpinlockT.view, SpinlockT.view, decide_eq_true set]
        rfl
      rw [Function.update_self, same]
      exact OwnedLock.Move.stay _ _
  · refine ⟨{ thread with control := .acquireStore lk },
      Function.update locks lk { locks lk with locked := 1 }, ?_,
      sound.keep rfl ?_ absent, moves_at lk ?_ others ?_⟩
    · rw [perform, advance, stands]
      exact if_neg set
    · simp only [Thread.depth, Thread.opened, stands, Control.opened]
    · intro other differs
      simp only [Thread.phase, stands, Control.phase, if_neg differs.symm]
    · have taken : Thread.phase { thread with control := .acquireStore lk }
          lk = .taken := by
        rw [Thread.phase, Control.phase, if_pos rfl]
        rfl
      rw [outside, taken, Function.update_self]
      exact OwnedLock.Move.take _ (decide_eq_false set)

/-- The end of `spinlock_acquire`. -/
theorem Thread.Sound.acquireStore
    {lk : RamAddr} (stands : thread.control = .acquireStore lk) :
    ∃ after locks', Performs flag me thread locks .advance after locks' := by
  have absent := sound.fits
  rw [Thread.Fits, stands] at absent
  have card := Finset.card_insert_of_notMem absent
  refine ⟨{ thread with control := .idle, held := insert lk thread.held },
    Function.update locks lk { locks lk with cpuid := mycpuid me }, ?_,
    sound.keep rfl ?_ trivial, moves_at lk ?_
      (fun other differs => Function.update_of_ne differs _ _) ?_⟩
  · rw [perform, advance, stands]
  · simp only [Thread.depth, Thread.opened, stands, Control.opened, card]
    omega
  · intro other differs
    simp only [Thread.phase, stands, Control.phase, if_neg differs.symm,
      Finset.mem_insert, differs, false_or]
  · have taken : thread.phase lk = .taken := by
      rw [Thread.phase, stands, Control.phase, if_pos rfl]
      rfl
    rw [taken, Thread.phase_of_mem rfl (Finset.mem_insert_self _ _),
      Function.update_self]
    exact OwnedLock.Move.store _

/-- `spinlock_release` finds its own lock. -/
theorem Thread.Sound.releaseHeld
    {lk : RamAddr} (own : (locks lk).locked ≠ 0 ∧ (locks lk).cpuid = mycpuid me)
    (stands : thread.control = .releaseLocked lk ∨
      thread.control = .releaseCpuid lk) :
    ∃ after locks', Performs flag me thread locks .advance after locks' := by
  have member := sound.fits
  rcases stands with stands | stands
  · rw [Thread.Fits, stands] at member
    refine ⟨{ thread with control := .releaseCpuid lk }, locks, ?_,
      sound.keep rfl ?_ member, moves_stay fun other => ?_⟩
    · rw [perform, advance, stands]
      exact if_pos own.1
    · simp only [Thread.depth, Thread.opened, stands, Control.opened]
    · simp only [Thread.phase, stands, Control.phase]
  · rw [Thread.Fits, stands] at member
    refine ⟨{ thread with control := .releaseStore lk }, locks, ?_,
      sound.keep rfl ?_ member, moves_stay fun other => ?_⟩
    · rw [perform, advance, stands]
      exact if_pos own.2
    · simp only [Thread.depth, Thread.opened, stands, Control.opened]
    · simp only [Thread.phase, stands, Control.phase]

/-- `spinlock_release` removes the id. -/
theorem Thread.Sound.releaseStore
    {lk : RamAddr} (stands : thread.control = .releaseStore lk) :
    ∃ after locks', Performs flag me thread locks .advance after locks' := by
  have member := sound.fits
  rw [Thread.Fits, stands] at member
  refine ⟨{ thread with control := .releaseUnlock lk },
    Function.update locks lk { locks lk with cpuid := -1 }, ?_,
    sound.keep rfl ?_ member, moves_at lk ?_
      (fun other differs => Function.update_of_ne differs _ _) ?_⟩
  · rw [perform, advance, stands]
  · simp only [Thread.depth, Thread.opened, stands, Control.opened]
  · intro other differs
    simp only [Thread.phase, stands, Control.phase, if_neg differs.symm]
  · have held : thread.phase lk = .held :=
      thread.phase_of_mem (by rw [stands]; rfl) member
    have cleared : Thread.phase { thread with control := .releaseUnlock lk }
        lk = .cleared := by
      rw [Thread.phase, Control.phase, if_pos rfl]
      rfl
    rw [held, cleared, Function.update_self]
    exact OwnedLock.Move.clear _

/-- `spinlock_release` unlocks. -/
theorem Thread.Sound.releaseUnlock
    {lk : RamAddr} (stands : thread.control = .releaseUnlock lk) :
    ∃ after locks', Performs flag me thread locks .advance after locks' := by
  have member := sound.fits
  rw [Thread.Fits, stands] at member
  have card := Finset.card_erase_add_one member
  refine ⟨{ thread with control := .releasePop, held := thread.held.erase lk },
    Function.update locks lk { locks lk with locked := 0 }, ?_,
    sound.keep rfl ?_ trivial, moves_at lk ?_
      (fun other differs => Function.update_of_ne differs _ _) ?_⟩
  · rw [perform, advance, stands]
  · simp only [Thread.depth, Thread.opened, stands, Control.opened]
    omega
  · intro other differs
    simp only [Thread.phase, stands, Control.phase, if_neg differs.symm,
      Finset.mem_erase, ne_eq, differs, not_false_eq_true, true_and]
  · have cleared : thread.phase lk = .cleared := by
      rw [Thread.phase, stands, Control.phase, if_pos rfl]
      rfl
    have outside : Thread.phase { thread with
        control := .releasePop, held := thread.held.erase lk } lk =
          .outside := Thread.phase_of_not_mem rfl (Finset.notMem_erase _ _)
    rw [cleared, outside, Function.update_self]
    exact OwnedLock.Move.unlock _

/-- The end of `spinlock_release`. -/
theorem Thread.Sound.releasePop
    (stands : thread.control = .releasePop) :
    ∃ after locks', Performs flag me thread locks .advance after locks' := by
  have inside : 0 < thread.depth := by
    simp only [Thread.depth, Thread.opened, stands, Control.opened]
    omega
  obtain ⟨cpu, run, keeps⟩ := sound.pop inside
  refine ⟨{ thread with cpu, control := .idle }, locks, ?_,
    keeps _ rfl ?_ trivial, moves_stay fun other => ?_⟩
  · rw [perform, advance, stands, run]
    rfl
  · simp only [Thread.depth, Thread.opened, stands, Control.opened]
    omega
  · simp only [Thread.phase, stands, Control.phase]

/-- No action panics that finds the locks it holds and, when it compares ids,
not its own. -/
theorem Thread.Sound.performs
    {action : Action} (allows : thread.Allows action)
    (own : ∀ lk, thread.phase lk = .held →
      (locks lk).locked ≠ 0 ∧ (locks lk).cpuid = mycpuid me)
    (foreign : ∀ lk, action = .advance → thread.control = .acquireCpuid lk →
      (locks lk).cpuid ≠ mycpuid me) :
    ∃ after locks', Performs flag me thread locks action after locks' := by
  by_cases call : action ≠ .advance
  · exact sound.call call allows
  · obtain rfl : action = .advance := not_not.mp call
    have member := sound.fits
    cases stands : thread.control with
    | idle => exact absurd stands allows
    | acquireLocked lk => exact sound.acquireLocked stands
    | acquireCpuid lk => exact sound.acquireCpuid stands (foreign lk rfl stands)
    | acquireSwap lk => exact sound.acquireSwap stands
    | acquireStore lk => exact sound.acquireStore stands
    | releaseLocked lk =>
        rw [Thread.Fits, stands] at member
        exact sound.releaseHeld
          (own lk (thread.phase_of_mem (by rw [stands]; rfl) member))
          (Or.inl stands)
    | releaseCpuid lk =>
        rw [Thread.Fits, stands] at member
        exact sound.releaseHeld
          (own lk (thread.phase_of_mem (by rw [stands]; rfl) member))
          (Or.inr stands)
    | releaseStore lk => exact sound.releaseStore stands
    | releaseUnlock lk => exact sound.releaseUnlock stands
    | releasePop => exact sound.releasePop stands

end Steps

/-! ## All CPUs -/

theorem mycpuid_injective : Function.Injective mycpuid := by
  decide

theorem mycpuid_ne_nobody (me : CpuId) : mycpuid me ≠ -1 := by
  revert me
  decide

/-- What holds between two actions. -/
structure Machine.Sound (flag : CpuId → Bool) (machine : Machine) : Prop where
  panicked : machine.panicked = none
  threads : ∀ me, (machine.threads me).Sound (flag me)
  locks : ∀ lk, OwnedLock.Invariant mycpuid (-1)
    (fun me => (machine.threads me).phase lk) (machine.locks lk).view

/-- A CPU compares its id with the `cpuid` of a lock that another CPU has taken
without having stored its own id, and finds its id. -/
def Machine.Races (machine : Machine) (me : CpuId) (action : Action) : Prop :=
  action = .advance ∧ ∃ lk other,
    (machine.threads me).control = .acquireCpuid lk ∧
    (machine.threads other).control = .acquireStore lk ∧
    (machine.locks lk).cpuid = mycpuid me

variable {flag : CpuId → Bool} {machine : Machine}

theorem Starts.sound (starts : Starts flag machine) : machine.Sound flag where
  panicked := starts.panicked
  threads := fun me => by
    have depth : (machine.threads me).depth = 0 := by
      rw [Thread.depth, Thread.opened, starts.held, starts.frames,
        starts.control]
      rfl
    refine ⟨?_, ?_⟩
    · rw [depth]
      exact ⟨starts.noff me, fun inside => absurd inside (Nat.lt_irrefl 0),
        fun inside => absurd inside (Nat.lt_irrefl 0),
        fun _ => starts.intr me⟩
    · rw [Thread.Fits, starts.control]
      trivial
  locks := fun lk => by
    refine OwnedLock.Invariant.initial ?_ fun me => ?_
    · rw [starts.locks]
      rfl
    · refine Thread.phase_of_not_mem ?_ ?_
      · rw [starts.control]
        rfl
      · rw [starts.held]
        exact Finset.notMem_empty lk

/-- An action keeps all CPUs sound unless it is a race. -/
theorem Machine.Sound.step
    (sound : machine.Sound flag) {me : CpuId} {action : Action}
    (allows : (machine.threads me).Allows action)
    (quiet : ¬machine.Races me action) :
    (machine.step me action).Sound flag := by
  have own : ∀ lk, (machine.threads me).phase lk = .held →
      (machine.locks lk).locked ≠ 0 ∧
        (machine.locks lk).cpuid = mycpuid me := by
    intro lk held
    have owns : ((machine.threads me).phase lk).Owns := by
      rw [held]
      trivial
    exact ⟨of_decide_eq_true ((sound.locks lk).locked_of_owns owns),
      (sound.locks lk).held me held⟩
  have foreign : ∀ lk, action = .advance →
      (machine.threads me).control = .acquireCpuid lk →
      (machine.locks lk).cpuid ≠ mycpuid me := by
    intro lk advances stands same
    have checking : (machine.threads me).phase lk = .checking := by
      rw [Thread.phase, stands, Control.phase, if_pos rfl]
      rfl
    obtain ⟨other, taken⟩ := (sound.locks lk).checking me checking same
    exact quiet ⟨advances, lk, other, stands, Thread.control_of_taken taken,
      same⟩
  obtain ⟨after, locks, performs⟩ :=
    (sound.threads me).performs allows own foreign
  have stepped : machine.step me action = { machine with
      threads := Function.update machine.threads me after
      locks := locks } := by
    rw [Machine.step, performs.result]
  rw [stepped]
  refine ⟨sound.panicked, fun other => ?_, fun lk => ?_⟩
  · by_cases mine : other = me
    · rw [mine]
      change (Function.update machine.threads me after me).Sound (flag me)
      rw [Function.update_self]
      exact performs.sound
    · change (Function.update machine.threads me after other).Sound (flag other)
      rw [Function.update_of_ne mine]
      exact sound.threads other
  · have phases : (fun other =>
        (Function.update machine.threads me after other).phase lk) =
        Function.update (fun other => (machine.threads other).phase lk) me
          (after.phase lk) := by
      funext other
      exact Function.apply_update (fun _ thread => thread.phase lk)
        machine.threads me after other
    change OwnedLock.Invariant mycpuid (-1) (fun other =>
      (Function.update machine.threads me after other).phase lk) _
    rw [phases]
    exact (sound.locks lk).move mycpuid_injective mycpuid_ne_nobody
      (performs.moves lk)

/-- A race panics. -/
theorem Machine.Races.panics
    {me : CpuId} {action : Action} (races : machine.Races me action) :
    (machine.step me action).panicked = some "acquire" := by
  obtain ⟨rfl, lk, other, stands, _, same⟩ := races
  rw [Machine.step, perform, advance, stands]
  simp only [if_pos same]

/-- In every run without races nothing has panicked, `noff` counts the locks
and the open `push_off`s, and the flag comes back.  The next action panics if
and only if it is a race. -/
theorem lockCalls_sound
    (reachable : (lockSystem flag).ReachableBy
      (fun machine label => ¬machine.Races label.1 label.2) machine) :
    machine.panicked = none ∧
      (∀ me,
        (machine.threads me).cpu.noff.toInt =
          (machine.threads me).held.card + (machine.threads me).opened ∧
        (0 < (machine.threads me).cpu.noff.toInt →
          (machine.threads me).cpu.intr = false) ∧
        ((machine.threads me).cpu.noff.toInt = 0 →
          (machine.threads me).cpu.intr = flag me)) ∧
      ∀ me action, (machine.threads me).Allows action →
        ((machine.step me action).panicked = none ↔
          ¬machine.Races me action) := by
  have sound : machine.Sound flag := by
    refine reachable.invariant
      (fun state (starts : Starts flag state) => starts.sound) ?_
    rintro before ⟨me, action⟩ after sound quiet ⟨_, allows, rfl⟩
    exact sound.step allows quiet
  refine ⟨sound.panicked, fun me => ?_, fun me action allows =>
    ⟨fun returns races => ?_, fun quiet => (sound.step allows quiet).panicked⟩⟩
  · have balanced := (sound.threads me).balanced
    have bound := (machine.threads me).depth_lt
    have count : (machine.threads me).cpu.noff.toInt =
        (machine.threads me).depth := by
      rw [balanced.noff]
      exact toInt_depth (by omega)
    refine ⟨?_, fun inside => balanced.off ?_, fun outside =>
      balanced.restored ?_⟩
    · rw [count, Thread.depth, Nat.cast_add]
    · omega
    · omega
  · rw [races.panics] at returns
    cases returns

/-- Both CPUs after `spinlock_init`, with interrupts on. -/
def boot : Machine where
  threads := fun _ =>
    { cpu := { intr := true, noff := 0, origin := 0 }
      control := .idle, held := ∅, frames := ∅ }
  locks := fun _ => spinlockInit
  panicked := none

theorem boot_starts : Starts (fun _ => true) boot where
  locks := fun _ => rfl
  panicked := rfl
  control := fun _ => rfl
  held := fun _ => rfl
  frames := fun _ => rfl
  noff := fun _ => rfl
  intr := fun _ => rfl

theorem reachable_step
    {guard : Machine → CpuId × Action → Prop} {me : CpuId} {action : Action}
    (reachable : (lockSystem flag).ReachableBy guard machine)
    (guarded : guard machine (me, action)) (runs : machine.panicked = none)
    (allows : (machine.threads me).Allows action) :
    (lockSystem flag).ReachableBy guard (machine.step me action) := by
  apply reachable.step guarded
  exact ⟨runs, allows, rfl⟩

/-- A lock is acquired in the middle of `uart_putc_sync`. -/
theorem lockCalls_sound_nested :
    (((boot.step 0 (.putc ⟨0x80001000, by decide⟩)).step 0
      (.acquire ⟨0x80002000, by decide⟩)).threads 0).cpu.noff.toInt = 2 := by
  have opened : (lockSystem fun _ => true).ReachableBy
      (fun machine label => ¬machine.Races label.1 label.2)
      (boot.step 0 (.putc ⟨0x80001000, by decide⟩)) :=
    reachable_step (.init boot_starts) (fun races => nomatch races.1) rfl
      (by decide)
  have acquiring := reachable_step opened
    (fun races : Machine.Races _ 0 (.acquire ⟨0x80002000, by decide⟩) =>
      nomatch races.1) rfl (by decide)
  rw [((lockCalls_sound acquiring).2.1 0).1]
  rfl

/-- Actions one after the other. -/
def Machine.run (machine : Machine) : List (CpuId × Action) → Option Machine
  | [] => some machine
  | (me, action) :: rest =>
      if machine.panicked = none ∧ (machine.threads me).Allows action then
        (machine.step me action).run rest
      else
        none

theorem reachable_of_run
    {actions : List (CpuId × Action)} {after : Machine}
    (reachable : (lockSystem flag).Reachable machine)
    (runs : machine.run actions = some after) :
    (lockSystem flag).Reachable after := by
  induction actions generalizing machine with
  | nil =>
      obtain rfl := Option.some.inj runs
      exact reachable
  | cons label rest inductionHypothesis =>
      obtain ⟨me, action⟩ := label
      rw [Machine.run] at runs
      split_ifs at runs with allowed
      exact inductionHypothesis
        (reachable_step reachable trivial allowed.1 allowed.2) runs

/-- A lock that was never held, and two CPUs that acquire it. -/
def firstAcquire (lk : RamAddr) : List (CpuId × Action) :=
  [(1, .acquire lk), (1, .advance), (0, .acquire lk), (1, .advance),
    (0, .advance), (0, .advance)]

/-- CPU 0 finds its id in a lock that CPU 1 has just taken. -/
theorem acquire_panics :
    ¬∀ machine, (lockSystem fun _ => true).Reachable machine →
      machine.panicked = none := by
  intro never
  have runs : (boot.run (firstAcquire ⟨0x80002000, by decide⟩)).map
      Machine.panicked = some (some "acquire") := by
    decide +kernel
  obtain ⟨after, run, panicked⟩ := Option.map_eq_some_iff.mp runs
  rw [never after (reachable_of_run (.init boot_starts) run)] at panicked
  cases panicked

end Lib
end WhuOs
