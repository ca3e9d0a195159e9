import Mathlib.Data.Option.Basic
import Mathlib.Logic.Function.Basic

/-!
# Locks that name their owner

A lock is taken by a test-and-set, after which its new owner stores its name
into it.  Before it waits for a lock that is set, a party compares the name in
the lock with its own.  Between the test-and-set and the store the lock still
has the name of an earlier time.
-/

namespace Library

/-- Where a party stands with a lock. -/
inductive LockPhase
  | outside
  /-- The lock was set, and the names are compared next. -/
  | checking
  /-- The lock was taken, and the name is stored next. -/
  | taken
  | held
  /-- The name was removed, and the lock is unlocked next. -/
  | cleared
  deriving DecidableEq

/-- The lock belongs to the party. -/
def LockPhase.Owns : LockPhase → Prop
  | .outside => False
  | .checking => False
  | .taken => True
  | .held => True
  | .cleared => True

/-- A flag and a name. -/
structure OwnedLock (ι : Type*) where
  locked : Bool
  owner : ι

namespace OwnedLock

variable {κ ι : Type*} (name : κ → ι) (nobody : ι)

/-- The moves of a party. -/
inductive Move (me : κ) :
    LockPhase → OwnedLock ι → LockPhase → OwnedLock ι → Prop
  | stay (phase : LockPhase) (lock : OwnedLock ι) : Move me phase lock phase lock
  | check (lock : OwnedLock ι) :
      lock.locked = true → Move me .outside lock .checking lock
  | pass (lock : OwnedLock ι) : Move me .checking lock .outside lock
  | take (lock : OwnedLock ι) :
      lock.locked = false →
      Move me .outside lock .taken { lock with locked := true }
  | store (lock : OwnedLock ι) :
      Move me .taken lock .held { lock with owner := name me }
  | clear (lock : OwnedLock ι) :
      Move me .held lock .cleared { lock with owner := nobody }
  | unlock (lock : OwnedLock ι) :
      Move me .cleared lock .outside { lock with locked := false }

/-- A lock and the parties that use it. -/
structure Invariant (phases : κ → LockPhase) (lock : OwnedLock ι) : Prop where
  owned : ∃ owner : Option κ, lock.locked = owner.isSome ∧
    ∀ party, (phases party).Owns ↔ owner = some party
  held : ∀ party, phases party = .held → lock.owner = name party
  cleared : ∀ party, phases party = .cleared → lock.owner = nobody
  /-- A party finds its own name only before the new owner stored its. -/
  checking : ∀ party, phases party = .checking → lock.owner = name party →
    ∃ other, phases other = .taken

namespace Invariant

variable {name nobody} {phases : κ → LockPhase} {lock : OwnedLock ι}

/-- A lock that is not set and that nobody uses. -/
theorem initial
    (unlocked : lock.locked = false) (unused : ∀ party, phases party = .outside) :
    Invariant name nobody phases lock where
  owned := ⟨none, unlocked, fun party => by rw [unused]; simp [LockPhase.Owns]⟩
  held := fun party holds => by rw [unused] at holds; cases holds
  cleared := fun party clears => by rw [unused] at clears; cases clears
  checking := fun party checks => by rw [unused] at checks; cases checks

variable (invariant : Invariant name nobody phases lock)

include invariant

/-- A lock has at most one owner. -/
theorem only
    {party other : κ} (owns : (phases party).Owns) (owns' : (phases other).Owns) :
    other = party := by
  obtain ⟨owner, _, iff⟩ := invariant.owned
  have equal := (iff other).mp owns'
  rw [(iff party).mp owns] at equal
  exact (Option.some.inj equal).symm

theorem locked_of_owns
    {party : κ} (owns : (phases party).Owns) : lock.locked = true := by
  obtain ⟨owner, set, iff⟩ := invariant.owned
  rw [set, (iff party).mp owns]
  rfl

theorem not_owns
    (unlocked : lock.locked = false) (party : κ) : ¬(phases party).Owns :=
  fun owns => absurd (invariant.locked_of_owns owns) (by rw [unlocked]; decide)

end Invariant

section Moves

variable [DecidableEq κ] {name nobody} {phases : κ → LockPhase}
variable {lock after : OwnedLock ι}
variable {me : κ} {phase : LockPhase}

theorem update_owns
    (same : phase.Owns ↔ (phases me).Owns) (party : κ) :
    (Function.update phases me phase party).Owns ↔ (phases party).Owns := by
  by_cases mine : party = me
  · rw [mine, Function.update_self, same]
  · rw [Function.update_of_ne mine]

/-- If a party moves that does not own the lock before and after, and the lock
does not change, only a party that checks has to be considered. -/
theorem Invariant.outside
    (invariant : Invariant name nobody phases lock)
    (before : ¬(phases me).Owns) (afterwards : ¬phase.Owns)
    (checks : phase = .checking → lock.owner = name me →
      ∃ other, phases other = .taken) :
    Invariant name nobody (Function.update phases me phase) lock := by
  have owns : ∀ party : κ, (Function.update phases me phase party).Owns ↔
      (phases party).Owns := update_owns (iff_of_false afterwards before)
  have kept : ∀ (other : LockPhase) (party : κ), other.Owns →
      (Function.update phases me phase party = other ↔
        phases party = other) := by
    intro other party owning
    by_cases mine : party = me
    · rw [mine, Function.update_self]
      refine iff_of_false (fun same => afterwards (same ▸ owning))
        (fun same => before (same ▸ owning))
    · rw [Function.update_of_ne mine]
  refine ⟨?_, fun party holds => ?_, fun party clears => ?_,
    fun party checking same => ?_⟩
  · obtain ⟨owner, set, iff⟩ := invariant.owned
    exact ⟨owner, set, fun party => (owns party).trans (iff party)⟩
  · exact invariant.held party ((kept .held party trivial).mp holds)
  · exact invariant.cleared party ((kept .cleared party trivial).mp clears)
  · have taken : ∃ other, phases other = .taken := by
      by_cases mine : party = me
      · rw [mine, Function.update_self] at checking
        exact checks checking (mine ▸ same)
      · rw [Function.update_of_ne mine] at checking
        exact invariant.checking party checking same
    obtain ⟨other, took⟩ := taken
    exact ⟨other, (kept .taken other trivial).mpr took⟩

/-- If nobody else owns the lock, the party that moves decides about it. -/
theorem Invariant.inside
    (alone : ∀ party ≠ me, ¬(phases party).Owns)
    (locked : after.locked = true ↔ phase.Owns)
    (holds : phase = .held → after.owner = name me)
    (clears : phase = .cleared → after.owner = nobody)
    (checks : phase ≠ .checking)
    (differs : phase = .taken ∨ ∀ party ≠ me, after.owner ≠ name party) :
    Invariant name nobody (Function.update phases me phase) after := by
  have mine : ∀ party, (Function.update phases me phase party).Owns →
      party = me := by
    intro party owns
    by_contra other
    rw [Function.update_of_ne other] at owns
    exact alone party other owns
  have same : ∀ (other : LockPhase) (party : κ), other.Owns →
      Function.update phases me phase party = other →
        party = me ∧ phase = other := by
    intro other party owning stands
    have equal : party = me := mine party (by rw [stands]; exact owning)
    rw [equal, Function.update_self] at stands
    exact ⟨equal, stands⟩
  refine ⟨?_, fun party stands => ?_, fun party stands => ?_,
    fun party checking equal => ?_⟩
  · by_cases owns : phase.Owns
    · refine ⟨some me, locked.mpr owns, fun party =>
        ⟨fun owning => by rw [mine party owning], fun equal => ?_⟩⟩
      rw [← Option.some.inj equal, Function.update_self]
      exact owns
    · refine ⟨none, Bool.eq_false_iff.mpr fun set => owns (locked.mp set),
        fun party => iff_of_false (fun owning => owns ?_) (by simp)⟩
      rw [mine party owning, Function.update_self] at owning
      exact owning
  · obtain ⟨rfl, stage⟩ := same .held party trivial stands
    exact holds stage
  · obtain ⟨rfl, stage⟩ := same .cleared party trivial stands
    exact clears stage
  · rcases differs with took | differs
    · exact ⟨me, by rw [Function.update_self, took]⟩
    · by_cases equal' : party = me
      · rw [equal', Function.update_self] at checking
        exact absurd checking checks
      · exact absurd equal (differs party equal')

/-- Every move keeps the invariant if the names differ. -/
theorem Invariant.move
    (distinct : Function.Injective name) (named : ∀ party, name party ≠ nobody)
    (invariant : Invariant name nobody phases lock)
    (moves : Move name nobody me (phases me) lock phase after) :
    Invariant name nobody (Function.update phases me phase) after := by
  generalize stands : phases me = before at moves
  cases moves with
  | stay =>
      rw [← stands, Function.update_eq_self]
      exact invariant
  | check _ set =>
      refine invariant.outside (by rw [stands]; exact id) id fun _ same => ?_
      obtain ⟨owner, isSome, iff⟩ := invariant.owned
      rw [set] at isSome
      obtain ⟨other, rfl⟩ := Option.isSome_iff_exists.mp isSome.symm
      have owns : (phases other).Owns := (iff other).mpr rfl
      have differs : other ≠ me := by
        rintro rfl
        rw [stands] at owns
        exact owns
      refine ⟨other, ?_⟩
      cases stage : phases other with
      | taken => rfl
      | held =>
          have equal := invariant.held other stage
          rw [same] at equal
          exact absurd (distinct equal).symm differs
      | cleared =>
          have equal := invariant.cleared other stage
          rw [same] at equal
          exact absurd equal (named me)
      | outside => rw [stage] at owns; exact owns.elim
      | checking => rw [stage] at owns; exact owns.elim
  | pass =>
      exact invariant.outside (by rw [stands]; exact id) id
        fun checking => by cases checking
  | take _ unlocked =>
      exact inside (fun party _ => invariant.not_owns unlocked party)
        (iff_of_true rfl trivial) nofun nofun nofun
        (Or.inl rfl)
  | store =>
      have owns : (phases me).Owns := by rw [stands]; trivial
      refine inside (fun party other owns' => other (invariant.only owns owns'))
        (iff_of_true (invariant.locked_of_owns owns) trivial) (fun _ => rfl)
        nofun nofun (Or.inr fun party other same => other ?_)
      exact (distinct same).symm
  | clear =>
      have owns : (phases me).Owns := by rw [stands]; trivial
      exact inside (fun party other owns' => other (invariant.only owns owns'))
        (iff_of_true (invariant.locked_of_owns owns) trivial) nofun
        (fun _ => rfl) nofun
        (Or.inr fun party _ same => named party same.symm)
  | unlock =>
      have owns : (phases me).Owns := by rw [stands]; trivial
      have unnamed : lock.owner = nobody := invariant.cleared me stands
      refine inside (fun party other owns' => other (invariant.only owns owns'))
        (iff_of_false Bool.false_ne_true id) nofun nofun nofun
        (Or.inr fun party _ same => ?_)
      exact named party (same.symm.trans unnamed)

end Moves
end OwnedLock
end Library
