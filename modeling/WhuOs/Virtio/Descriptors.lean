import WhuOs.Virtio.Defs

/-!
# Descriptor allocation

What the allocation functions of the driver do to the free map and to the
descriptors of other requests.
-/

namespace WhuOs
namespace Virtio

open Buf (BufIndex)

/-- The three descriptors of a request are different. -/
structure Triple.Distinct (triple : Triple) : Prop where
  headData : triple.head ≠ triple.data
  headStatus : triple.head ≠ triple.status
  dataStatus : triple.data ≠ triple.status

/-- The descriptors are linked from the header through the data to the status
descriptor, which points at the status byte of the request. -/
structure Chained (disk : Disk) (triple : Triple) : Prop where
  headFlags : (disk.desc triple.head).flags &&& vringDescFNext ≠ 0
  headNext : (disk.desc triple.head).next.toNat = triple.data
  dataFlags : (disk.desc triple.data).flags &&& vringDescFNext ≠ 0
  dataNext : (disk.desc triple.data).next.toNat = triple.status
  statusFlags : (disk.desc triple.status).flags &&& vringDescFNext = 0
  statusAddr : (disk.desc triple.status).addr = .status triple.head

/-- Chaining depends only on the descriptors of the request. -/
theorem Chained.congr
    {disk other : Disk} {triple : Triple}
    (chained : Chained disk triple)
    (same : ∀ index, triple.Owns index → other.desc index = disk.desc index) :
    Chained other triple := by
  have head := same triple.head (Or.inl rfl)
  have data := same triple.data (Or.inr (Or.inl rfl))
  have status := same triple.status (Or.inr (Or.inr rfl))
  constructor
  case headFlags => rw [head]; exact chained.headFlags
  case headNext => rw [head]; exact chained.headNext
  case dataFlags => rw [data]; exact chained.dataFlags
  case dataNext => rw [data]; exact chained.dataNext
  case statusFlags => rw [status]; exact chained.statusFlags
  case statusAddr => rw [status]; exact chained.statusAddr

/-- Mark the descriptors of a request free or taken. -/
def Disk.setTriple (disk : Disk) (triple : Triple) (free : Bool) : Disk :=
  ((disk.setFree triple.head free).setFree triple.data free).setFree
    triple.status free

theorem Disk.setTriple_free
    (disk : Disk) (triple : Triple) (free : Bool) (index : DescIndex) :
    (disk.setTriple triple free).free index =
      if triple.Owns index then free else disk.free index := by
  unfold Disk.setTriple Triple.Owns
  simp only [Disk.setFree_free, Function.update_apply]
  by_cases status : index = triple.status <;>
    by_cases data : index = triple.data <;>
    by_cases head : index = triple.head <;>
    simp [status, data, head]

/-- Allocation takes a free descriptor. -/
theorem allocDesc_eq_some
    {disk result : Disk} {index : DescIndex}
    (allocated : allocDesc disk = some (index, result)) :
    disk.free index = true ∧ result = disk.setFree index false := by
  unfold allocDesc at allocated
  cases found : (List.finRange num).find? disk.free with
  | none => simp [found] at allocated
  | some first =>
      simp only [found, Option.some.injEq, Prod.mk.injEq] at allocated
      obtain ⟨rfl, rfl⟩ := allocated
      exact ⟨List.find?_some found, rfl⟩

/-- Freeing a taken descriptor succeeds. -/
theorem freeDesc_of_taken
    {disk : Disk} {index : DescIndex}
    (taken : disk.free index = false) :
    freeDesc disk index = .ok ((disk.setDesc index
      { disk.desc index with addr := .null }).setFree index true) := by
  simp [freeDesc, taken]

/-- Two disks that agree except for the addresses of descriptors that are free
in the first. -/
structure Disk.SameUpToFree (disk other : Disk) : Prop where
  desc : ∀ index, disk.free index = false → other.desc index = disk.desc index
  free : other.free = disk.free
  availIdx : other.availIdx = disk.availIdx
  availRing : other.availRing = disk.availRing
  usedId : other.usedId = disk.usedId
  usedElems : other.usedElems = disk.usedElems
  usedIdx : other.usedIdx = disk.usedIdx
  info : other.info = disk.info

/-- The three ways the allocation of a request can end.  Descriptors that are
given back were free before, and no way runs into a panic of `freeDesc`. -/
theorem alloc3Desc_cases (disk : Disk) :
    (∃ result, alloc3Desc disk = .ok (none, result) ∧
      disk.SameUpToFree result) ∨
    ∃ idx : Triple, idx.Distinct ∧
      (∀ index, idx.Owns index → disk.free index = true) ∧
      alloc3Desc disk = .ok (some idx, disk.setTriple idx false) := by
  unfold alloc3Desc
  split
  · exact Or.inl ⟨disk, rfl, ⟨fun _ _ => rfl, rfl, rfl, rfl, rfl, rfl, rfl,
      rfl⟩⟩
  next first disk₁ firstEq =>
    obtain ⟨firstFree, rfl⟩ := allocDesc_eq_some firstEq
    split
    · left
      rw [freeDesc_of_taken (by simp)]
      refine ⟨_, rfl, ⟨?_, ?_, rfl, rfl, rfl, rfl, rfl, rfl⟩⟩
      · intro index taken
        have notFirst : index ≠ first := ne_of_apply_ne disk.free
          (by rw [taken, firstFree]; decide)
        simp [notFirst]
      · funext index
        by_cases isFirst : index = first <;> simp [isFirst, firstFree]
    next second disk₂ secondEq =>
      obtain ⟨secondFree, rfl⟩ := allocDesc_eq_some secondEq
      have secondNotFirst : second ≠ first := by
        intro equal
        simp [equal] at secondFree
      have secondFree' : disk.free second = true := by
        simpa [secondNotFirst] using secondFree
      split
      · left
        rw [freeDesc_of_taken (by simp [secondNotFirst.symm])]
        simp only [bind, Except.bind]
        rw [freeDesc_of_taken (by simp [secondNotFirst])]
        refine ⟨_, rfl, ⟨?_, ?_, rfl, rfl, rfl, rfl, rfl, rfl⟩⟩
        · intro index taken
          have notFirst : index ≠ first := ne_of_apply_ne disk.free
            (by rw [taken, firstFree]; decide)
          have notSecond : index ≠ second := ne_of_apply_ne disk.free
            (by rw [taken, secondFree']; decide)
          simp [notFirst, notSecond]
        · funext index
          by_cases isSecond : index = second
          · simp [isSecond, secondFree']
          · by_cases isFirst : index = first
            · simp [isFirst, secondNotFirst.symm, firstFree]
            · simp [isFirst, isSecond]
      next third disk₃ thirdEq =>
        right
        obtain ⟨thirdFree, rfl⟩ := allocDesc_eq_some thirdEq
        have thirdNotSecond : third ≠ second := by
          intro equal
          simp [equal] at thirdFree
        have thirdNotFirst : third ≠ first := by
          intro equal
          simp [equal, secondNotFirst.symm] at thirdFree
        refine ⟨⟨first, second, third⟩, ⟨secondNotFirst.symm,
          thirdNotFirst.symm, thirdNotSecond.symm⟩, ?_, rfl⟩
        intro index owned
        rcases owned with rfl | rfl | rfl
        · exact firstFree
        · exact secondFree'
        · simpa [thirdNotSecond, thirdNotFirst] using thirdFree

/-- Give back a descriptor. -/
def Disk.giveBack (disk : Disk) (index : DescIndex) : Disk :=
  (disk.setDesc index { disk.desc index with addr := .null }).setFree index true

@[simp] theorem Disk.giveBack_free
    (disk : Disk) (index other : DescIndex) :
    (disk.giveBack index).free other =
      if other = index then true else disk.free other :=
  Function.update_apply _ _ _ _

theorem Disk.giveBack_desc_of_ne
    (disk : Disk) {index other : DescIndex}
    (different : other ≠ index) :
    (disk.giveBack index).desc other = disk.desc other :=
  Function.update_of_ne different _ _

/-- Freeing a chain gives back its first descriptor and follows the link. -/
theorem freeChain_of_taken
    {disk : Disk} {index : DescIndex}
    (taken : disk.free index = false) (fuel : Nat) :
    freeChain disk index (fuel + 1) =
      if (disk.desc index).flags &&& vringDescFNext ≠ 0 then
        freeChain (disk.giveBack index) (disk.desc index).next.toNat fuel
      else
        .ok (some (disk.giveBack index)) := by
  simp only [freeChain, freeDesc_of_taken taken, bind, Except.bind,
    Fin.is_lt, dif_pos, Disk.setFree_desc, Disk.setDesc_desc,
    Function.update_self]
  rfl

/-- The state of the queue after the descriptors of a request were given
back. -/
def Disk.giveBackTriple (disk : Disk) (triple : Triple) : Disk :=
  ((disk.giveBack triple.head).giveBack triple.data).giveBack triple.status

theorem Disk.giveBackTriple_free
    (disk : Disk) (triple : Triple) (index : DescIndex) :
    (disk.giveBackTriple triple).free index =
      if triple.Owns index then true else disk.free index := by
  unfold Disk.giveBackTriple Triple.Owns
  simp only [Disk.giveBack_free]
  by_cases status : index = triple.status <;>
    by_cases data : index = triple.data <;>
    by_cases head : index = triple.head <;>
    simp [status, data, head]

theorem Disk.giveBackTriple_desc
    (disk : Disk) {triple : Triple} {index : DescIndex}
    (foreign : ¬triple.Owns index) :
    (disk.giveBackTriple triple).desc index = disk.desc index := by
  unfold Triple.Owns at foreign
  push Not at foreign
  unfold Disk.giveBackTriple
  rw [Disk.giveBack_desc_of_ne _ foreign.2.2,
    Disk.giveBack_desc_of_ne _ foreign.2.1,
    Disk.giveBack_desc_of_ne _ foreign.1]

/-- Freeing the chain of a request gives back its three descriptors and ends
there. -/
theorem freeChain_of_chained
    {disk : Disk} {triple : Triple}
    (distinct : triple.Distinct)
    (chained : Chained disk triple)
    (taken : ∀ index, triple.Owns index → disk.free index = false) :
    freeChain disk triple.head (num + 1) =
      .ok (some (disk.giveBackTriple triple)) := by
  have headTaken := taken triple.head (Or.inl rfl)
  have dataTaken : (disk.giveBack triple.head).free triple.data = false := by
    simpa [distinct.headData.symm] using
      taken triple.data (Or.inr (Or.inl rfl))
  have statusTaken : ((disk.giveBack triple.head).giveBack triple.data).free
      triple.status = false := by
    simpa [distinct.headStatus.symm, distinct.dataStatus.symm]
      using taken triple.status (Or.inr (Or.inr rfl))
  rw [freeChain_of_taken headTaken, if_pos chained.headFlags,
    chained.headNext, freeChain_of_taken dataTaken,
    Disk.giveBack_desc_of_ne _ distinct.headData.symm,
    if_pos chained.dataFlags, chained.dataNext,
    freeChain_of_taken statusTaken,
    Disk.giveBack_desc_of_ne _ distinct.dataStatus.symm,
    Disk.giveBack_desc_of_ne _ distinct.headStatus.symm,
    if_neg (not_not_intro chained.statusFlags)]
  rfl

/-- Submitting a request chains its descriptors. -/
theorem submit_chained
    (disk : Disk) (pid : Nat) (buf : BufIndex) (write : Bool)
    {triple : Triple}
    (distinct : triple.Distinct) :
    Chained (submit disk pid buf write triple) triple := by
  have small : ∀ index : DescIndex,
      (UInt16.ofNat (index : Nat)).toNat = index := by
    intro index
    rw [UInt16.toNat_ofNat']
    exact Nat.mod_eq_of_lt (Nat.lt_trans index.isLt (by decide))
  constructor
  all_goals
    simp [submit, distinct.headData, distinct.headStatus, distinct.dataStatus,
      small]
  · decide
  · cases write <;> decide
  · decide

theorem submit_desc
    (disk : Disk) (pid : Nat) (buf : BufIndex) (write : Bool)
    {triple : Triple} {index : DescIndex}
    (foreign : ¬triple.Owns index) :
    (submit disk pid buf write triple).desc index = disk.desc index := by
  unfold Triple.Owns at foreign
  push Not at foreign
  simp [submit, foreign.1, foreign.2.1, foreign.2.2]

end Virtio
end WhuOs
