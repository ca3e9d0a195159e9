import WhuOs.Virtio.Descriptors

/-!
# Ownership of descriptors

Every waiting process owns the three descriptors of its request.  Requests own
disjoint descriptors, and the free map marks exactly the descriptors owned by
none.
-/

namespace WhuOs
namespace Virtio

open Buf (BufIndex)

/-- The ownership invariant of the request queue. -/
structure Owned (system : System) : Prop where
  distinct : ∀ pid buf idx, system.pc pid = .waiting buf idx → idx.Distinct
  disjoint : ∀ pid other buf buf' idx idx',
    system.pc pid = .waiting buf idx →
    system.pc other = .waiting buf' idx' → pid ≠ other →
    ∀ index, idx.Owns index → ¬idx'.Owns index
  freeExact : ∀ index, system.disk.free index = true ↔
    ∀ pid buf idx, system.pc pid = .waiting buf idx → ¬idx.Owns index
  chained : ∀ pid buf idx, system.pc pid = .waiting buf idx →
    Chained system.disk idx
  recorded : ∀ pid buf idx, system.pc pid = .waiting buf idx →
    (system.disk.info idx.head).b = some buf ∧ system.owner idx.head = pid
  bufDistinct : ∀ pid other buf, system.Active pid buf →
    system.Active other buf → pid = other

namespace Owned

variable {system : System}

/-- The descriptors of a waiting process are taken. -/
theorem taken
    (owned : Owned system)
    {pid : Nat} {buf : BufIndex} {idx : Triple} {index : DescIndex}
    (waiting : system.pc pid = .waiting buf idx)
    (owns : idx.Owns index) :
    system.disk.free index = false := by
  rw [← Bool.not_eq_true, owned.freeExact]
  intro unowned
  exact unowned pid buf idx waiting owns

/-- A process is determined by the head of its request. -/
theorem eq_of_head
    (owned : Owned system)
    {pid other : Nat} {buf buf' : BufIndex} {idx idx' : Triple}
    (waiting : system.pc pid = .waiting buf idx)
    (waiting' : system.pc other = .waiting buf' idx')
    (sameHead : idx.head = idx'.head) :
    pid = other ∧ buf = buf' ∧ idx = idx' := by
  have samePid : pid = other := by
    by_contra different
    exact owned.disjoint _ _ _ _ _ _ waiting waiting' different idx.head
      (Or.inl rfl) (Or.inl sameHead)
  subst samePid
  rw [waiting] at waiting'
  cases waiting'
  exact ⟨rfl, rfl, rfl⟩

/-- The invariant only depends on who waits, on the taken descriptors and on
the recorded buffers and owners. -/
theorem transfer
    (owned : Owned system) {after : System}
    (sameWaiting : ∀ pid buf idx, after.pc pid = .waiting buf idx ↔
      system.pc pid = .waiting buf idx)
    (sameFree : after.disk.free = system.disk.free)
    (sameDesc : ∀ index, system.disk.free index = false →
      after.disk.desc index = system.disk.desc index)
    (sameInfo : ∀ index, (after.disk.info index).b =
      (system.disk.info index).b)
    (sameOwner : after.owner = system.owner)
    (bufDistinct : ∀ pid other buf, after.Active pid buf →
      after.Active other buf → pid = other) :
    Owned after := by
  constructor
  case distinct =>
      intro pid buf idx waiting
      exact owned.distinct pid buf idx ((sameWaiting _ _ _).mp waiting)
  case disjoint =>
      intro pid other buf buf' idx idx' waiting waiting'
      exact owned.disjoint pid other buf buf' idx idx'
        ((sameWaiting _ _ _).mp waiting) ((sameWaiting _ _ _).mp waiting')
  case freeExact =>
      intro index
      rw [sameFree, owned.freeExact]
      constructor
      · intro unowned pid buf idx waiting
        exact unowned pid buf idx ((sameWaiting _ _ _).mp waiting)
      · intro unowned pid buf idx waiting
        exact unowned pid buf idx ((sameWaiting _ _ _).mpr waiting)
  case chained =>
      intro pid buf idx waiting
      have before := (sameWaiting _ _ _).mp waiting
      apply (owned.chained pid buf idx before).congr
      intro index owns
      exact sameDesc index (owned.taken before owns)
  case recorded =>
      intro pid buf idx waiting
      rw [sameInfo, sameOwner]
      exact owned.recorded pid buf idx ((sameWaiting _ _ _).mp waiting)
  case bufDistinct => exact bufDistinct

/-- Calling the driver with a buffer no other call uses. -/
theorem call
    (owned : Owned system) {pid : Nat} {buf : BufIndex} {write : Bool}
    (idle : system.pc pid = .idle)
    (unused : ∀ other, ¬system.Active other buf) :
    Owned (system.setPc pid (.allocating buf write)) := by
  have activeCases : ∀ other shared, (system.setPc pid
      (.allocating buf write)).Active other shared →
      (other = pid ∧ shared = buf) ∨ system.Active other shared := by
    intro other shared active
    by_cases equal : other = pid
    · left
      simpa [System.Active, equal, eq_comm] using active
    · right
      simpa [System.Active, equal] using active
  apply owned.transfer
  case sameWaiting =>
      intro other buf' idx
      by_cases equal : other = pid
      · simp [equal, idle]
      · simp [equal]
  case sameFree => rfl
  case sameDesc => intros; rfl
  case sameInfo => intros; rfl
  case sameOwner => rfl
  case bufDistinct =>
      intro first second shared firstActive secondActive
      rcases activeCases _ _ firstActive with ⟨rfl, rfl⟩ | active
      · rcases activeCases _ _ secondActive with ⟨rfl, _⟩ | active'
        · rfl
        · exact absurd active' (unused _)
      · rcases activeCases _ _ secondActive with ⟨rfl, rfl⟩ | active'
        · exact absurd active (unused _)
        · exact owned.bufDistinct _ _ _ active active'

/-- An allocation that was rolled back. -/
theorem rollback
    (owned : Owned system) {disk : Disk}
    (same : system.disk.SameUpToFree disk) :
    Owned (system.setDisk disk) := by
  apply owned.transfer
  case sameWaiting => intros; rfl
  case sameFree => exact same.free
  case sameDesc => exact same.desc
  case sameInfo => intro index; rw [System.setDisk_disk, same.info]
  case sameOwner => rfl
  case bufDistinct => exact owned.bufDistinct

/-- A process gets the descriptors of its request. -/
theorem submitted
    (owned : Owned system)
    {pid : Nat} {buf : BufIndex} {write : Bool} {idx : Triple}
    (allocating : system.pc pid = .allocating buf write)
    (distinct : idx.Distinct)
    (free : ∀ index, idx.Owns index → system.disk.free index = true) :
    Owned (Virtio.submitted system (system.disk.setTriple idx false) pid buf
      write idx) := by
  -- A waiting process after the step is the submitting one or waited before,
  -- and one that waited before owns none of the new descriptors.
  have foreign : ∀ other buf' idx', system.pc other = .waiting buf' idx' →
      ∀ index, idx.Owns index → ¬idx'.Owns index := by
    intro other buf' idx' waiting index owns
    exact (owned.freeExact index).mp (free index owns) other buf' idx' waiting
  have position : ∀ other, (Virtio.submitted system
      (system.disk.setTriple idx false) pid buf write idx).pc other =
      if other = pid then .waiting buf idx else system.pc other := by
    intro other
    simp [Virtio.submitted, Function.update_apply]
  constructor
  case distinct =>
      intro other buf' idx' waiting
      rw [position] at waiting
      split at waiting
      · cases waiting
        exact distinct
      · exact owned.distinct _ _ _ waiting
  case disjoint =>
      intro first second buf₁ buf₂ idx₁ idx₂ waiting₁ waiting₂ different
      rw [position] at waiting₁ waiting₂
      split at waiting₁
      · cases waiting₁
        rw [if_neg (by omega)] at waiting₂
        exact foreign _ _ _ waiting₂
      · split at waiting₂
        · cases waiting₂
          intro index owns owns'
          exact foreign _ _ _ waiting₁ index owns' owns
        · exact owned.disjoint _ _ _ _ _ _ waiting₁ waiting₂ different
  case freeExact =>
      intro index
      have free' : (Virtio.submitted system (system.disk.setTriple idx false)
          pid buf write idx).disk.free index =
          (system.disk.setTriple idx false).free index := by
        simp [Virtio.submitted, submit]
      rw [free', Disk.setTriple_free]
      constructor
      · intro isFree other buf' idx' waiting
        rw [position] at waiting
        split at isFree
        · cases isFree
        · next unowned =>
          split at waiting
          · cases waiting
            exact unowned
          · exact (owned.freeExact index).mp isFree _ _ _ waiting
      · intro unowned
        rw [if_neg (unowned pid buf idx (by simp [position]))]
        rw [owned.freeExact]
        intro other buf' idx' waiting
        apply unowned other buf' idx'
        rw [position, if_neg, waiting]
        rintro rfl
        rw [allocating] at waiting
        cases waiting
  case chained =>
      intro other buf' idx' waiting
      rw [position] at waiting
      split at waiting
      · cases waiting
        exact submit_chained _ _ _ _ distinct
      · apply (owned.chained _ _ _ waiting).congr
        intro index owns
        have unowned : ¬idx.Owns index := fun owns' =>
          foreign _ _ _ waiting index owns' owns
        simp [Virtio.submitted, submit_desc _ _ _ _ unowned,
          Disk.setTriple]
  case recorded =>
      intro other buf' idx' waiting
      rw [position] at waiting
      split at waiting
      · next equal =>
        cases waiting
        simp [Virtio.submitted, submit, equal]
      · have otherHead : idx'.head ≠ idx.head := by
          intro equal
          exact foreign _ _ _ waiting idx'.head (Or.inl equal) (Or.inl rfl)
        simpa [Virtio.submitted, submit, otherHead, Disk.setTriple] using
          owned.recorded _ _ _ waiting
  case bufDistinct =>
      have smaller : ∀ other shared, (Virtio.submitted system
          (system.disk.setTriple idx false) pid buf write idx).Active other
          shared → system.Active other shared := by
        intro other shared active
        by_cases equal : other = pid
        · left
          simp only [System.Active, position, if_pos equal] at active
          rcases active with ⟨_, impossible⟩ | ⟨_, same⟩
          · cases impossible
          · cases same
            exact ⟨write, by rw [equal, allocating]⟩
        · simpa only [System.Active, position, if_neg equal] using active
      intro first second shared active active'
      exact owned.bufDistinct _ _ _ (smaller _ _ active)
        (smaller _ _ active')

/-- A process gives back its descriptors and returns. -/
theorem finish
    (owned : Owned system)
    {pid : Nat} {buf : BufIndex} {idx : Triple}
    (waiting : system.pc pid = .waiting buf idx) :
    Owned ((system.setDisk ((system.disk.setInfo idx.head
      ⟨none, (system.disk.info idx.head).status⟩).giveBackTriple idx)).setPc
        pid .idle) := by
  generalize afterEq : (system.setDisk ((system.disk.setInfo idx.head
    ⟨none, (system.disk.info idx.head).status⟩).giveBackTriple idx)).setPc
      pid .idle = after
  have position : ∀ other, after.pc other =
      if other = pid then .idle else system.pc other := by
    intro other
    simp [← afterEq, Function.update_apply]
  have stillWaiting : ∀ {other buf' idx'}, after.pc other =
      .waiting buf' idx' → other ≠ pid ∧ system.pc other =
        .waiting buf' idx' := by
    intro other buf' idx' waiting'
    rw [position] at waiting'
    split at waiting'
    · cases waiting'
    · next different => exact ⟨different, waiting'⟩
  constructor
  case distinct =>
      intro other buf' idx' waiting'
      exact owned.distinct _ _ _ (stillWaiting waiting').2
  case disjoint =>
      intro first second buf₁ buf₂ idx₁ idx₂ waiting₁ waiting₂
      exact owned.disjoint _ _ _ _ _ _ (stillWaiting waiting₁).2
        (stillWaiting waiting₂).2
  case freeExact =>
      intro index
      have free' : after.disk.free index =
          if idx.Owns index then true else system.disk.free index := by
        rw [← afterEq]
        exact Disk.giveBackTriple_free _ _ _
      rw [free']
      constructor
      · intro isFree other buf' idx' waiting'
        obtain ⟨different, before⟩ := stillWaiting waiting'
        split at isFree
        · next owns =>
          exact owned.disjoint _ _ _ _ _ _ waiting before different.symm
            index owns
        · exact (owned.freeExact index).mp isFree _ _ _ before
      · intro unowned
        split
        · rfl
        · next notOwned =>
          rw [owned.freeExact]
          intro other buf' idx' before
          by_cases equal : other = pid
          · subst equal
            rw [waiting] at before
            cases before
            exact notOwned
          · apply unowned other buf' idx'
            rw [position, if_neg equal, before]
  case chained =>
      intro other buf' idx' waiting'
      obtain ⟨different, before⟩ := stillWaiting waiting'
      apply (owned.chained _ _ _ before).congr
      intro index owns
      have unowned := owned.disjoint _ _ _ _ _ _ before waiting different
        index owns
      rw [← afterEq]
      exact Disk.giveBackTriple_desc _ unowned
  case recorded =>
      intro other buf' idx' waiting'
      obtain ⟨different, before⟩ := stillWaiting waiting'
      have otherHead : idx'.head ≠ idx.head := by
        intro equal
        exact owned.disjoint _ _ _ _ _ _ before waiting different idx'.head
          (Or.inl rfl) (Or.inl equal)
      simpa [← afterEq, Disk.giveBackTriple, Disk.giveBack, otherHead] using
        owned.recorded _ _ _ before
  case bufDistinct =>
      have smaller : ∀ other shared, after.Active other shared →
          system.Active other shared := by
        intro other shared active
        by_cases equal : other = pid
        · simp [System.Active, position, equal] at active
        · simpa only [System.Active, position, if_neg equal] using active
      intro first second shared active active'
      exact owned.bufDistinct _ _ _ (smaller _ _ active)
        (smaller _ _ active')

end Owned

end Virtio
end WhuOs
