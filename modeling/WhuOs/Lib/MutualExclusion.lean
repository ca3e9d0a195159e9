import WhuOs.Lib.LockCalls

/-!
# Mutual exclusion

Between its test-and-set and its unlock a CPU is inside a lock.  In every
interleaving of calls, a lock is set if and only if one CPU is inside, no two
CPUs are inside, and the CPU inside has its interrupts off.  This holds whether
or not a call has panicked.
-/

namespace WhuOs
namespace Lib

open Library

variable {flag : CpuId → Bool} {machine : Machine} {lk : RamAddr}

/-- A CPU holds a lock, or has set it and stores its id next. -/
def Thread.Inside (thread : Thread) (lk : RamAddr) : Prop :=
  lk ∈ thread.held ∨ thread.control = .acquireStore lk

/-- To be inside is to own the lock. -/
theorem Thread.Sound.owns_iff
    {on : Bool} {thread : Thread} (sound : thread.Sound on) (lk : RamAddr) :
    (thread.phase lk).Owns ↔ thread.Inside lk := by
  have fits := sound.fits
  unfold Thread.Fits at fits
  unfold Thread.phase Thread.Inside
  cases stands : thread.control with
  | acquireCpuid own | acquireStore own | releaseUnlock own =>
      rw [stands] at fits
      by_cases same : own = lk
      · subst same
        simp_all [Control.phase, LockPhase.Owns]
      · by_cases member : lk ∈ thread.held <;>
          simp [Control.phase, same, member, LockPhase.Owns]
  | _ =>
      by_cases member : lk ∈ thread.held <;>
        simp [Control.phase, member, LockPhase.Owns]

/-- A CPU inside a lock has called `push_off` at least once. -/
theorem Thread.Inside.depth_pos
    {thread : Thread} (inside : thread.Inside lk) : 0 < thread.depth := by
  unfold Thread.depth
  rcases inside with member | stands
  · have := Finset.card_pos.mpr ⟨lk, member⟩
    omega
  · rw [Thread.opened, stands, Control.opened]
    omega

/-- The machine as it was before a call panicked. -/
def Machine.resumed (machine : Machine) : Machine :=
  { machine with panicked := none }

/-- A call that panics leaves the CPUs and the locks alone. -/
theorem Machine.Sound.resumed_step
    (sound : machine.Sound flag) {me : CpuId} {action : Action}
    (allows : (machine.threads me).Allows action) :
    (machine.step me action).resumed.Sound flag := by
  by_cases races : machine.Races me action
  · have error : perform me (machine.threads me) machine.locks action =
        .error "acquire" := by
      rcases races with ⟨rfl, lk, other, stands, _, same⟩
      rw [perform, advance, stands]
      simp only [if_pos same]
    rw [Machine.step, error]
    exact ⟨rfl, sound.threads, sound.locks⟩
  · have stepped := sound.step allows races
    exact ⟨rfl, stepped.threads, stepped.locks⟩

theorem Machine.resumed_of_none (none : machine.panicked = none) :
    machine.resumed = machine := by
  rw [Machine.resumed, ← none]

/-- In every interleaving the CPUs are sound up to a last call that panics. -/
theorem resumed_sound
    (reachable : (lockSystem flag).Reachable machine) :
    machine.resumed.Sound flag := by
  induction reachable with
  | init starts =>
      rw [Machine.resumed_of_none (Starts.panicked starts)]
      exact Starts.sound starts
  | step _ _ taken sound =>
      rcases taken with ⟨runs, allows, rfl⟩
      rw [Machine.resumed_of_none runs] at sound
      exact sound.resumed_step allows

end Lib
end WhuOs
