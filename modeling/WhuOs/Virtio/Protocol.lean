import WhuOs.Library.Circular
import WhuOs.Virtio.Requests

/-!
# The disk driver protocol

The requests in flight form a pipeline: the avail ring holds the heads the
device has not fetched, the device works on some, and the used ring holds the
heads it completed and the interrupt handler has not consumed.  Together with
descriptor ownership this gives the protocol guarantees of the driver.
-/

namespace WhuOs
namespace Virtio

open Library
open Buf (BufIndex)

/-- A process waits for the request with the given head and its buffer is still
marked as owned by the disk. -/
def System.Outstanding (system : System) (head : DescIndex) : Prop :=
  ∃ pid buf idx, system.pc pid = .waiting buf idx ∧ idx.head = head ∧
    system.bufDisk buf = true

/-- The pipeline invariant: `queued` are the heads in the avail ring and `done`
the heads in the used ring. -/
structure Flow (system : System) (queued done : List DescIndex) : Prop where
  nodup : (queued ++ system.inflight ++ done).Nodup
  outstanding : ∀ head ∈ queued ++ system.inflight ++ done,
    system.Outstanding head
  served : ∀ pid buf idx, system.pc pid = .waiting buf idx →
    idx.head ∈ done ∨ system.bufDisk buf = false → system.served pid = true
  availCount : system.disk.availIdx.toNat =
    (system.lastAvail.toNat + queued.length) % 65536
  availWindow : Circular.Window system.disk.availRing system.lastAvail.toNat
    (queued.map fun head : DescIndex => UInt16.ofNat head)
  usedBound : system.disk.usedIdx.toNat < num
  usedCount : system.disk.usedId.toNat ≡
    system.disk.usedIdx.toNat + done.length [MOD num]
  usedWindow : Circular.Window system.disk.usedElems
    system.disk.usedIdx.toNat (done.map fun head : DescIndex => UInt32.ofNat head)
  status : ∀ head ∈ done, (system.disk.info head).status = 0
  log : system.usedLog = system.consumedLog ++ done

namespace Flow

variable {system : System} {queued done : List DescIndex}

/-- The pipeline never fills the rings: the data descriptor of a request is no
head. -/
theorem length_lt
    (flow : Flow system queued done) (owned : Owned system) :
    (queued ++ system.inflight ++ done).length < num := by
  cases pendingEq : queued ++ system.inflight ++ done with
  | nil => decide
  | cons first rest =>
      have nodup := flow.nodup
      rw [pendingEq] at nodup
      obtain ⟨pid, buf, idx, waiting, rfl, _⟩ :=
        flow.outstanding first (by simp [pendingEq])
      have dataFresh : idx.data ∉ idx.head :: rest := by
        intro member
        obtain ⟨other, buf', idx', waiting', sameHead, _⟩ :=
          flow.outstanding idx.data (by rwa [pendingEq])
        have samePid : pid = other := by
          by_contra different
          exact owned.disjoint _ _ _ _ _ _ waiting waiting' different idx.data
            (Or.inr (Or.inl rfl)) (Or.inl sameHead.symm)
        subst samePid
        rw [waiting] at waiting'
        cases waiting'
        exact (owned.distinct _ _ _ waiting).headData sameHead
      have bound := (List.nodup_cons.mpr ⟨dataFresh, nodup⟩).length_le_card
      rw [Fintype.card_fin] at bound
      simp only [List.length_cons] at bound ⊢
      exact bound

/-- The invariant only depends on who waits and on the state of the rings. -/
theorem transfer
    (flow : Flow system queued done) {after : System}
    (sameWaiting : ∀ pid buf idx, after.pc pid = .waiting buf idx ↔
      system.pc pid = .waiting buf idx)
    (sameBuf : after.bufDisk = system.bufDisk)
    (sameServed : after.served = system.served)
    (sameInflight : after.inflight = system.inflight)
    (sameLast : after.lastAvail = system.lastAvail)
    (sameUsedLog : after.usedLog = system.usedLog)
    (sameConsumedLog : after.consumedLog = system.consumedLog)
    (sameDisk : after.disk = system.disk ∨
      system.disk.SameUpToFree after.disk) :
    Flow after queued done := by
  have same : system.disk.SameUpToFree after.disk := by
    rcases sameDisk with equal | same
    · rw [equal]
      exact ⟨fun _ _ => rfl, rfl, rfl, rfl, rfl, rfl, rfl, rfl⟩
    · exact same
  constructor
  case nodup => rw [sameInflight]; exact flow.nodup
  case outstanding =>
      intro head member
      rw [sameInflight] at member
      obtain ⟨pid, buf, idx, waiting, isHead, pending⟩ :=
        flow.outstanding head member
      exact ⟨pid, buf, idx, (sameWaiting _ _ _).mpr waiting, isHead,
        by rw [sameBuf, pending]⟩
  case served =>
      intro pid buf idx waiting
      rw [sameBuf, sameServed]
      exact flow.served pid buf idx ((sameWaiting _ _ _).mp waiting)
  case availCount => rw [same.availIdx, sameLast]; exact flow.availCount
  case availWindow => rw [same.availRing, sameLast]; exact flow.availWindow
  case usedBound => rw [same.usedIdx]; exact flow.usedBound
  case usedCount => rw [same.usedId, same.usedIdx]; exact flow.usedCount
  case usedWindow => rw [same.usedElems, same.usedIdx]; exact flow.usedWindow
  case status => rw [same.info]; exact flow.status
  case log => rw [sameUsedLog, sameConsumedLog]; exact flow.log

/-- A request enters the avail ring. -/
theorem submitted
    (flow : Flow system queued done) (owned : Owned system)
    {pid : Nat} {buf : BufIndex} {write : Bool} {idx : Triple}
    (allocating : system.pc pid = .allocating buf write)
    (free : ∀ index, idx.Owns index → system.disk.free index = true) :
    Flow (Virtio.submitted system (system.disk.setTriple idx false) pid buf
      write idx) (queued ++ [idx.head]) done := by
  have fresh : idx.head ∉ queued ++ system.inflight ++ done := by
    intro member
    obtain ⟨other, buf', idx', waiting, isHead, _⟩ :=
      flow.outstanding _ member
    have taken := owned.taken waiting (Or.inl isHead.symm)
    rw [free idx.head (Or.inl rfl)] at taken
    cases taken
  have short := flow.length_lt owned
  simp only [List.length_append] at short
  have moved : ((queued ++ [idx.head]) ++ system.inflight ++ done).Perm
      (idx.head :: (queued ++ system.inflight ++ done)) := by
    simp only [List.append_assoc]
    exact List.perm_middle
  have position : ∀ other, (Virtio.submitted system
      (system.disk.setTriple idx false) pid buf write idx).pc other =
      if other = pid then .waiting buf idx else system.pc other := by
    intro other
    simp [Virtio.submitted, Function.update_apply]
  have bufPending : ∀ other, (Virtio.submitted system
      (system.disk.setTriple idx false) pid buf write idx).bufDisk other =
      if other = buf then true else system.bufDisk other := by
    intro other
    simp [Virtio.submitted, Function.update_apply]
  constructor
  case nodup =>
      apply moved.nodup_iff.mpr
      exact List.nodup_cons.mpr ⟨fresh, flow.nodup⟩
  case outstanding =>
      intro head member
      rcases List.mem_cons.mp (moved.mem_iff.mp member) with rfl | older
      · exact ⟨pid, buf, idx, by simp [position], rfl, by simp [bufPending]⟩
      · obtain ⟨other, buf', idx', waiting, isHead, pending⟩ :=
          flow.outstanding head older
        refine ⟨other, buf', idx', ?_, isHead, by simp [bufPending, pending]⟩
        rw [position, if_neg, waiting]
        rintro rfl
        rw [allocating] at waiting
        cases waiting
  case served =>
      intro other buf' idx' waiting condition
      rw [position] at waiting
      split at waiting
      · cases waiting
        rcases condition with completed | cleared
        · exact absurd (List.mem_append_right _ completed) fresh
        · simp [bufPending] at cleared
      · next different =>
        have earlier : idx'.head ∈ done ∨ system.bufDisk buf' = false := by
          refine condition.imp id fun cleared => ?_
          rw [bufPending] at cleared
          split at cleared
          · cases cleared
          · exact cleared
        simpa [Virtio.submitted, different] using
          flow.served _ _ _ waiting earlier
  case availCount =>
      have count := flow.availCount
      have added : (Virtio.submitted system (system.disk.setTriple idx false)
          pid buf write idx).disk.availIdx = system.disk.availIdx + 1 := rfl
      have sameLast : (Virtio.submitted system
          (system.disk.setTriple idx false) pid buf write idx).lastAvail =
            system.lastAvail := rfl
      rw [added, sameLast, UInt16.toNat_add, List.length_append]
      simp only [UInt16.reduceToNat, List.length_singleton]
      omega
  case availWindow =>
      have last : system.disk.availIdx.toNat ≡ system.lastAvail.toNat +
          (queued.map fun head : DescIndex =>
            UInt16.ofNat head).length [MOD num] := by
        rw [List.length_map, flow.availCount, Nat.ModEq,
          Nat.mod_mod_of_dvd _ (by decide)]
      rw [List.map_append]
      exact flow.availWindow.push (by rw [List.length_map]; omega) last
        (UInt16.ofNat idx.head)
  case usedBound => exact flow.usedBound
  case usedCount => exact flow.usedCount
  case usedWindow => exact flow.usedWindow
  case status =>
      intro head member
      have otherHead : head ≠ idx.head := by
        rintro rfl
        exact fresh (List.mem_append_right _ member)
      simpa [Virtio.submitted, submit, Disk.setTriple, otherHead] using
        flow.status head member
  case log => exact flow.log

/-- A process whose buffer was cleared is in no ring and leaves the
pipeline as it is. -/
theorem finish
    (flow : Flow system queued done)
    {pid : Nat} {buf : BufIndex} {idx : Triple}
    (waiting : system.pc pid = .waiting buf idx)
    (cleared : system.bufDisk buf = false) :
    Flow ((system.setDisk ((system.disk.setInfo idx.head
      ⟨none, (system.disk.info idx.head).status⟩).giveBackTriple idx)).setPc
        pid .idle) queued done := by
  constructor
  case nodup => exact flow.nodup
  case outstanding =>
      intro head member
      obtain ⟨other, buf', idx', waiting', isHead, pending⟩ :=
        flow.outstanding head member
      refine ⟨other, buf', idx', ?_, isHead, pending⟩
      have different : other ≠ pid := by
        rintro rfl
        rw [waiting] at waiting'
        cases waiting'
        rw [cleared] at pending
        cases pending
      simpa [different] using waiting'
  case served =>
      intro other buf' idx' waiting'
      by_cases equal : other = pid
      · simp [equal] at waiting'
      · exact flow.served _ _ _ (by simpa [equal] using waiting')
  case availCount => exact flow.availCount
  case availWindow => exact flow.availWindow
  case usedBound => exact flow.usedBound
  case usedCount => exact flow.usedCount
  case usedWindow => exact flow.usedWindow
  case status =>
      intro head member
      by_cases equal : head = idx.head
      · subst equal
        simpa [Disk.giveBackTriple, Disk.giveBack] using
          flow.status _ member
      · simpa [Disk.giveBackTriple, Disk.giveBack, equal] using
          flow.status _ member
  case log => exact flow.log

/-- The interrupt handler finds an entry exactly when one is pending. -/
theorem done_eq_nil_iff
    (flow : Flow system queued done) (owned : Owned system) :
    done = [] ↔ system.disk.usedIdx.toNat % num =
      system.disk.usedId.toNat % num := by
  have short := flow.length_lt owned
  have count := flow.usedCount
  simp only [List.length_append] at short
  constructor
  · rintro rfl
    exact count.symm
  · intro same
    have none : done.length = 0 := by
      unfold Nat.ModEq at count
      simp only [num] at same count short
      omega
    exact List.length_eq_zero_iff.mp none

/-- The entry the interrupt handler reads is the oldest completed head. -/
theorem entry_eq
    {head id : DescIndex} {rest : List DescIndex}
    (flow : Flow system queued (head :: rest))
    (read : (system.disk.usedElems
      (slot system.disk.usedIdx.toNat)).toNat = id) :
    id = head := by
  have stored : system.disk.usedElems (slot system.disk.usedIdx.toNat) =
      UInt32.ofNat head := flow.usedWindow.head
  rw [stored, UInt32.toNat_ofNat',
    Nat.mod_eq_of_lt (Nat.lt_trans head.isLt (by decide))] at read
  exact Fin.ext read.symm

/-- The interrupt handler consumes an entry of the used ring. -/
theorem intrEntry
    {head : DescIndex} {rest : List DescIndex}
    (flow : Flow system queued (head :: rest)) (owned : Owned system)
    {buf : BufIndex}
    (recorded : (system.disk.info head).b = some buf) :
    Flow { system.setBufDisk buf false with
      disk := { system.disk with
        usedIdx := UInt16.ofNat ((system.disk.usedIdx.toNat + 1) % num) }
      consumedLog := system.consumedLog ++ [head] } queued rest := by
  have moved : (queued ++ system.inflight ++ head :: rest).Perm
      (head :: (queued ++ system.inflight ++ rest)) := List.perm_middle
  obtain ⟨headFresh, nodup⟩ :=
    List.nodup_cons.mp (moved.nodup_iff.mp flow.nodup)
  obtain ⟨pid, buf₀, idx, waiting, rfl, pending⟩ := flow.outstanding head
    (moved.mem_iff.mpr List.mem_cons_self)
  have sameBuf : buf₀ = buf := by
    have := (owned.recorded _ _ _ waiting).1
    rw [recorded] at this
    exact (Option.some.inj this).symm
  subst sameBuf
  have onlyUser : ∀ other idx', system.pc other = .waiting buf₀ idx' →
      other = pid ∧ idx' = idx := by
    intro other idx' waiting'
    have equal : other = pid := owned.bufDistinct _ _ _
      (Or.inr ⟨_, waiting'⟩) (Or.inr ⟨_, waiting⟩)
    subst equal
    rw [waiting] at waiting'
    cases waiting'
    exact ⟨rfl, rfl⟩
  have advanced : (UInt16.ofNat
      ((system.disk.usedIdx.toNat + 1) % num)).toNat =
      (system.disk.usedIdx.toNat + 1) % num := by
    rw [UInt16.toNat_ofNat']
    exact Nat.mod_eq_of_lt (Nat.lt_trans (Nat.mod_lt _ (by decide))
      (by decide))
  constructor
  case nodup => exact nodup
  case outstanding =>
      intro other member
      obtain ⟨pid', buf', idx', waiting', isHead, pending'⟩ :=
        flow.outstanding other (moved.mem_iff.mpr (List.mem_cons_of_mem _
          member))
      refine ⟨pid', buf', idx', waiting', isHead, ?_⟩
      have different : buf' ≠ buf₀ := by
        rintro rfl
        obtain ⟨_, rfl⟩ := onlyUser _ _ waiting'
        exact headFresh (isHead ▸ member)
      simpa [different] using pending'
  case served =>
      intro pid' buf' idx' waiting' condition
      apply flow.served pid' buf' idx' waiting'
      rcases condition with completed | cleared
      · exact Or.inl (List.mem_cons_of_mem _ completed)
      · by_cases equal : buf' = buf₀
        · subst equal
          obtain ⟨_, rfl⟩ := onlyUser _ _ waiting'
          exact Or.inl List.mem_cons_self
        · exact Or.inr (by simpa [equal] using cleared)
  case availCount => exact flow.availCount
  case availWindow => exact flow.availWindow
  case usedBound =>
      simp only [advanced]
      exact Nat.mod_lt _ (by decide)
  case usedCount =>
      have count := flow.usedCount
      simp only [advanced]
      simp only [List.length_cons, Nat.ModEq, num] at count ⊢
      omega
  case usedWindow =>
      simp only [advanced]
      exact flow.usedWindow.tail.congr_start (Nat.mod_modEq _ _).symm
  case status =>
      intro other member
      exact flow.status other (List.mem_cons_of_mem _ member)
  case log =>
      simpa using flow.log

/-- The device fetches the oldest entry of the avail ring. -/
theorem deviceFetch
    {head : DescIndex}
    (flow : Flow system queued done)
    (available : system.lastAvail ≠ system.disk.availIdx)
    (read : (system.disk.availRing
      (slot system.lastAvail.toNat)).toNat = head) :
    ∃ rest, Flow { system with
      lastAvail := system.lastAvail + 1
      inflight := system.inflight ++ [head] } rest done := by
  cases queued with
  | nil =>
      have count := flow.availCount
      have bound := system.lastAvail.toNat_lt
      exfalso
      apply available
      apply UInt16.toNat_inj.mp
      rw [count]
      simp only [List.length_nil]
      omega
  | cons first rest =>
      have stored : system.disk.availRing (slot system.lastAvail.toNat) =
          UInt16.ofNat first := flow.availWindow.head
      rw [stored, UInt16.toNat_ofNat',
        Nat.mod_eq_of_lt (Nat.lt_trans first.isLt (by decide))] at read
      obtain rfl : first = head := Fin.ext read
      have moved : (rest ++ (system.inflight ++ [first]) ++ done).Perm
          (first :: rest ++ system.inflight ++ done) := by
        simp only [List.append_assoc, List.cons_append, List.nil_append]
        rw [← List.append_assoc, ← List.append_assoc]
        exact List.perm_middle
      have advanced : (system.lastAvail + 1).toNat =
          (system.lastAvail.toNat + 1) % 65536 := by
        rw [UInt16.toNat_add]
        rfl
      refine ⟨rest, ?_⟩
      constructor
      case nodup => exact moved.nodup_iff.mpr flow.nodup
      case outstanding =>
          intro head member
          exact flow.outstanding head (moved.mem_iff.mp member)
      case served => exact flow.served
      case availCount =>
          have count := flow.availCount
          simp only [advanced]
          rw [List.length_cons] at count
          omega
      case availWindow =>
          apply flow.availWindow.tail.congr_start
          simp only [advanced, Nat.ModEq]
          rw [Nat.mod_mod_of_dvd _ (by decide)]
      case usedBound => exact flow.usedBound
      case usedCount => exact flow.usedCount
      case usedWindow => exact flow.usedWindow
      case status => exact flow.status
      case log => exact flow.log

/-- The device completes a chain. -/
theorem completed
    {head statusOf : DescIndex}
    (flow : Flow system queued done) (owned : Owned system)
    (working : head ∈ system.inflight)
    (addr : (system.disk.desc (nextDesc system.disk
      (nextDesc system.disk head))).addr = .status statusOf) :
    Flow (Virtio.completed system head statusOf) queued (done ++ [head]) := by
  obtain ⟨pid, buf, idx, waiting, rfl, pending⟩ := flow.outstanding head
    (List.mem_append_left _ (List.mem_append_right _ working))
  have chained := owned.chained _ _ _ waiting
  have slot_val : ∀ index : DescIndex, slot index = index := fun index =>
    Fin.ext (Nat.mod_eq_of_lt index.isLt)
  -- The device writes the status byte of the chain it completed.
  have statusEq : statusOf = idx.head := by
    simp only [nextDesc, chained.headNext, slot_val, chained.dataNext,
      chained.statusAddr] at addr
    cases addr
    rfl
  subst statusEq
  have short := flow.length_lt owned
  simp only [List.length_append] at short
  have moved : (queued ++ system.inflight.erase idx.head ++
      (done ++ [idx.head])).Perm (queued ++ system.inflight ++ done) := by
    have restored := (List.perm_cons_erase working).symm
    have extracted : (queued ++ system.inflight.erase idx.head ++ done ++
        [idx.head]).Perm (queued ++ (idx.head ::
          system.inflight.erase idx.head) ++ done) := by
      apply (List.perm_append_singleton _ _).trans
      rw [List.append_assoc, List.append_assoc, List.cons_append]
      exact List.perm_middle.symm
    rw [← List.append_assoc]
    exact extracted.trans ((restored.append_left queued).append_right done)
  constructor
  case nodup => exact moved.nodup_iff.mpr flow.nodup
  case outstanding =>
      intro head member
      exact flow.outstanding head (moved.mem_iff.mp member)
  case served =>
      intro pid' buf' idx' waiting' condition
      have ownerEq := (owned.recorded _ _ _ waiting).2
      by_cases equal : pid' = pid
      · simp [Virtio.completed, ownerEq, equal]
      · have different : idx'.head ≠ idx.head := fun sameHead =>
          equal (owned.eq_of_head waiting' waiting sameHead).1
        have earlier : idx'.head ∈ done ∨ system.bufDisk buf' = false := by
          refine condition.imp (fun member => ?_) id
          simpa [different] using member
        simpa [Virtio.completed, ownerEq, equal] using
          flow.served _ _ _ waiting' earlier
  case availCount => exact flow.availCount
  case availWindow => exact flow.availWindow
  case usedBound => exact flow.usedBound
  case usedCount =>
      have count := flow.usedCount
      have advanced : (Virtio.completed system idx.head idx.head).disk.usedId =
          system.disk.usedId + 1 := rfl
      have sameIdx : (Virtio.completed system idx.head
          idx.head).disk.usedIdx = system.disk.usedIdx := rfl
      rw [advanced, sameIdx, UInt16.toNat_add, List.length_append]
      simp only [UInt16.reduceToNat, List.length_singleton, Nat.ModEq,
        num] at count ⊢
      omega
  case usedWindow =>
      have last : system.disk.usedId.toNat ≡ system.disk.usedIdx.toNat +
          (done.map fun head : DescIndex =>
            UInt32.ofNat head).length [MOD num] := by
        rw [List.length_map]
        exact flow.usedCount
      rw [List.map_append]
      exact flow.usedWindow.push (by rw [List.length_map]; omega) last
        (UInt32.ofNat idx.head)
  case status =>
      intro head member
      by_cases equal : head = idx.head
      · simp [Virtio.completed, equal]
      · have older : head ∈ done := by simpa [equal] using member
        simpa [Virtio.completed, equal] using flow.status head older
  case log =>
      have log := flow.log
      simp [Virtio.completed, log]

end Flow

/-! ## Runs -/

/-- Descriptors are owned consistently and the requests flow through the
rings. -/
def Consistent (system : System) : Prop :=
  Owned system ∧ ∃ queued done, Flow system queued done

theorem Initial.consistent
    {system : System}
    (initial : Initial system) :
    Consistent system := by
  obtain ⟨free, availIdx, usedId, usedIdx, lastAvail, inflight, _, idle,
    usedLog, consumedLog⟩ := initial
  have noneWaiting : ∀ {pid buf idx}, system.pc pid ≠ .waiting buf idx := by
    intro pid buf idx
    rw [idle]
    exact Pc.noConfusion
  refine ⟨?_, [], [], ?_⟩
  · constructor
    case distinct => intro pid buf idx waiting; exact absurd waiting noneWaiting
    case disjoint =>
        intro pid _ buf _ idx _ waiting
        exact absurd waiting noneWaiting
    case freeExact =>
        intro index
        simp only [free, true_iff]
        intro pid buf idx waiting
        exact absurd waiting noneWaiting
    case chained => intro pid buf idx waiting; exact absurd waiting noneWaiting
    case recorded => intro pid buf idx waiting; exact absurd waiting noneWaiting
    case bufDistinct =>
        intro pid other buf active
        simp [System.Active, idle] at active
  · constructor
    case nodup => simp [inflight]
    case outstanding => simp [inflight]
    case served => intro pid buf idx waiting; exact absurd waiting noneWaiting
    case availCount => simp [availIdx, lastAvail]
    case availWindow => exact Circular.Window.nil _ _
    case usedBound => rw [usedIdx]; decide
    case usedCount => rw [usedId, usedIdx]; rfl
    case usedWindow => exact Circular.Window.nil _ _
    case status => simp
    case log => simp [usedLog, consumedLog]

/-- The result of freeing the chain of a request that was completed. -/
theorem Owned.freeChain_eq
    {system : System}
    (owned : Owned system)
    {pid : Nat} {buf : BufIndex} {idx : Triple}
    (waiting : system.pc pid = .waiting buf idx) :
    freeChain (system.disk.setInfo idx.head
        ⟨none, (system.disk.info idx.head).status⟩) idx.head (num + 1) =
      .ok (some ((system.disk.setInfo idx.head
        ⟨none, (system.disk.info idx.head).status⟩).giveBackTriple idx)) := by
  apply freeChain_of_chained (owned.distinct _ _ _ waiting)
  · exact (owned.chained _ _ _ waiting).congr fun _ _ => rfl
  · intro index owns
    exact owned.taken waiting owns

/-- Every step keeps the driver consistent. -/
theorem Consistent.step
    {before after : System} {action : Action}
    (consistent : Consistent before)
    (taken : Step before action after) :
    Consistent after := by
  obtain ⟨owned, queued, done, flow⟩ := consistent
  cases taken with
  | @call pid buf write idle unused =>
      refine ⟨owned.call idle unused, queued, done, ?_⟩
      apply flow.transfer
      case sameWaiting =>
          intro other buf' idx
          by_cases equal : other = pid
          · simp [equal, idle]
          · simp [equal]
      case sameDisk => exact Or.inl rfl
      all_goals rfl
  | @attemptFail pid buf write disk allocating unlocked failed =>
      have same : before.disk.SameUpToFree disk := by
        rcases alloc3Desc_cases before.disk with
          ⟨result, outcome, same⟩ | ⟨idx, _, _, outcome⟩
        · rw [failed] at outcome
          cases outcome
          exact same
        · rw [failed] at outcome
          cases outcome
      refine ⟨owned.rollback same, queued, done, ?_⟩
      apply flow.transfer
      case sameWaiting => intros; rfl
      case sameDisk => exact Or.inr same
      all_goals rfl
  | @attempt pid buf write idx disk allocating unlocked succeeded =>
      rcases alloc3Desc_cases before.disk with
        ⟨result, outcome, _⟩ | ⟨idx', distinct, free, outcome⟩
      · rw [succeeded] at outcome
        cases outcome
      · rw [succeeded] at outcome
        cases outcome
        exact ⟨owned.submitted allocating distinct free, _, _,
          flow.submitted owned allocating free⟩
  | @finish pid buf idx disk waiting unlocked cleared freed =>
      rw [owned.freeChain_eq waiting] at freed
      cases freed
      exact ⟨owned.finish waiting, _, _, flow.finish waiting cleared⟩
  | intrEnter unlocked =>
      exact ⟨⟨owned.distinct, owned.disjoint, owned.freeExact, owned.chained,
        owned.recorded, owned.bufDistinct⟩, queued, done, ⟨flow.nodup,
        flow.outstanding, flow.served, flow.availCount, flow.availWindow,
        flow.usedBound, flow.usedCount, flow.usedWindow, flow.status,
        flow.log⟩⟩
  | @intrEntry id buf locked different read status recorded =>
      cases done with
      | nil =>
          exact absurd ((flow.done_eq_nil_iff owned).mp rfl) different
      | cons head rest =>
          obtain rfl := flow.entry_eq read
          refine ⟨?_, queued, rest, flow.intrEntry owned recorded⟩
          apply owned.transfer
          case sameWaiting => intros; rfl
          case sameDesc => intros; rfl
          case sameInfo => intros; rfl
          case bufDistinct => exact owned.bufDistinct
          all_goals rfl
  | intrExit locked same =>
      exact ⟨⟨owned.distinct, owned.disjoint, owned.freeExact, owned.chained,
        owned.recorded, owned.bufDistinct⟩, queued, done, ⟨flow.nodup,
        flow.outstanding, flow.served, flow.availCount, flow.availWindow,
        flow.usedBound, flow.usedCount, flow.usedWindow, flow.status,
        flow.log⟩⟩
  | @deviceFetch head available read =>
      obtain ⟨rest, fetched⟩ := flow.deviceFetch available read
      exact ⟨⟨owned.distinct, owned.disjoint, owned.freeExact, owned.chained,
        owned.recorded, owned.bufDistinct⟩, rest, done, fetched⟩
  | @deviceComplete head statusOf working addr =>
      refine ⟨?_, queued, _, flow.completed owned working addr⟩
      apply owned.transfer
      case sameWaiting => intros; rfl
      case sameDesc => intros; rfl
      case sameInfo =>
          intro index
          by_cases equal : index = statusOf <;>
            simp [completed, equal]
      case bufDistinct => exact owned.bufDistinct
      all_goals rfl

/-- Every reachable state of the driver is consistent. -/
theorem consistent_of_reachable
    {system : System}
    (reachable : driverSystem.Reachable system) :
    Consistent system := by
  apply reachable.invariant
  · intro start initial
    exact initial.consistent
  · intro before action after consistent _ taken
    exact consistent.step taken

/-- What the driver guarantees in a state: requests own disjoint descriptors
and the free map is exact, entries are consumed in the order the device wrote
them, the entry found by the interrupt handler names a pending request, and no
panic of `free_desc` is reached by the next allocation or the next return. -/
structure Orderly (system : System) : Prop where
  disjoint : ∀ pid other buf buf' idx idx',
    system.pc pid = .waiting buf idx →
    system.pc other = .waiting buf' idx' → pid ≠ other →
    ∀ index, idx.Owns index → ¬idx'.Owns index
  distinct : ∀ pid buf idx, system.pc pid = .waiting buf idx → idx.Distinct
  freeExact : ∀ index, system.disk.free index = true ↔
    ∀ pid buf idx, system.pc pid = .waiting buf idx → ¬idx.Owns index
  consumedOnce : system.consumedLog <+: system.usedLog
  entryPending : system.disk.usedIdx.toNat % num ≠
      system.disk.usedId.toNat % num →
    ∃ (id : DescIndex) (buf : BufIndex),
      (system.disk.usedElems (slot system.disk.usedIdx.toNat)).toNat = id ∧
      (system.disk.info id).status = 0 ∧
      (system.disk.info id).b = some buf ∧
      system.consumedLog ++ [id] <+: system.usedLog
  allocSafe : ∃ result, alloc3Desc system.disk = .ok result
  freeSafe : ∀ pid buf idx, system.pc pid = .waiting buf idx →
    ∃ disk, freeChain (system.disk.setInfo idx.head
      ⟨none, (system.disk.info idx.head).status⟩) idx.head (num + 1) =
        .ok (some disk)

/-- What the driver guarantees about a step: a call returns only after the
device completed its chain, until then its descriptors are neither given away
nor changed, and the interrupt handler leaves no used-ring entry behind. -/
structure OrderlyStep (before : System) (action : Action) (after : System) :
    Prop where
  returned : ∀ pid, action = .finish pid → before.served pid = true
  kept : ∀ pid buf idx, before.pc pid = .waiting buf idx →
    action ≠ .finish pid →
    after.pc pid = .waiting buf idx ∧
      ∀ index, idx.Owns index → after.disk.free index = false ∧
        after.disk.desc index = before.disk.desc index
  drained : action = .intrExit → after.consumedLog = after.usedLog

theorem Consistent.orderly
    {system : System}
    (consistent : Consistent system) :
    Orderly system := by
  obtain ⟨owned, queued, done, flow⟩ := consistent
  constructor
  case disjoint => exact owned.disjoint
  case distinct => exact owned.distinct
  case freeExact => exact owned.freeExact
  case consumedOnce => exact ⟨done, flow.log.symm⟩
  case entryPending =>
      intro different
      cases done with
      | nil => exact absurd ((flow.done_eq_nil_iff owned).mp rfl) different
      | cons head rest =>
          obtain ⟨pid, buf, idx, waiting, rfl, _⟩ := flow.outstanding head
            (List.mem_append_right _ List.mem_cons_self)
          refine ⟨idx.head, buf, ?_, flow.status _ List.mem_cons_self,
            (owned.recorded _ _ _ waiting).1, rest, ?_⟩
          · have stored : system.disk.usedElems
                (slot system.disk.usedIdx.toNat) = UInt32.ofNat idx.head :=
              flow.usedWindow.head
            rw [stored, UInt32.toNat_ofNat', Nat.mod_eq_of_lt
              (Nat.lt_trans idx.head.isLt (by decide))]
          · rw [flow.log, List.append_assoc]
            rfl
  case allocSafe =>
      rcases alloc3Desc_cases system.disk with
        ⟨result, outcome, _⟩ | ⟨idx, _, _, outcome⟩
      · exact ⟨_, outcome⟩
      · exact ⟨_, outcome⟩
  case freeSafe =>
      intro pid buf idx waiting
      exact ⟨_, owned.freeChain_eq waiting⟩

/-- The position of a waiting process changes only by its own return. -/
theorem Step.waiting_kept
    {before after : System} {action : Action}
    (taken : Step before action after)
    {pid : Nat} {buf : BufIndex} {idx : Triple}
    (waiting : before.pc pid = .waiting buf idx)
    (notReturning : action ≠ .finish pid) :
    after.pc pid = .waiting buf idx := by
  cases taken with
  | @call other _ _ idle =>
      have different : pid ≠ other := by
        rintro rfl
        rw [waiting] at idle
        cases idle
      simpa [different] using waiting
  | @attempt other _ _ _ _ allocating =>
      have different : pid ≠ other := by
        rintro rfl
        rw [waiting] at allocating
        cases allocating
      simpa [submitted, different] using waiting
  | @finish other =>
      have different : pid ≠ other := by
        rintro rfl
        exact notReturning rfl
      simpa [different] using waiting
  | attemptFail => exact waiting
  | intrEnter => exact waiting
  | intrEntry => exact waiting
  | intrExit => exact waiting
  | deviceFetch => exact waiting
  | deviceComplete => exact waiting

/-- The descriptors of a waiting process keep their contents. -/
theorem Consistent.desc_kept
    {before after : System} {action : Action}
    (consistent : Consistent before)
    (taken : Step before action after)
    {pid : Nat} {buf : BufIndex} {idx : Triple} {index : DescIndex}
    (waiting : before.pc pid = .waiting buf idx)
    (notReturning : action ≠ .finish pid)
    (owns : idx.Owns index) :
    after.disk.desc index = before.disk.desc index := by
  obtain ⟨owned, _⟩ := consistent
  have isTaken := owned.taken waiting owns
  cases taken with
  | attemptFail _ _ failed =>
      rcases alloc3Desc_cases before.disk with
        ⟨result, outcome, same⟩ | ⟨_, _, _, outcome⟩
      · rw [failed] at outcome
        cases outcome
        exact same.desc index isTaken
      · rw [failed] at outcome
        cases outcome
  | @attempt other buf' write idx' disk allocating _ succeeded =>
      rcases alloc3Desc_cases before.disk with
        ⟨_, outcome, _⟩ | ⟨_, _, free, outcome⟩
      · rw [succeeded] at outcome
        cases outcome
      · rw [succeeded] at outcome
        cases outcome
        have unowned : ¬idx'.Owns index := by
          intro owns'
          rw [free index owns'] at isTaken
          cases isTaken
        exact submit_desc _ _ _ _ unowned
  | @finish other _ _ _ waiting' _ _ freed =>
      rw [owned.freeChain_eq waiting'] at freed
      cases freed
      have different : pid ≠ other := by
        rintro rfl
        exact notReturning rfl
      exact Disk.giveBackTriple_desc _
        (owned.disjoint _ _ _ _ _ _ waiting waiting' different index owns)
  | call => rfl
  | intrEnter => rfl
  | intrEntry => rfl
  | intrExit => rfl
  | deviceFetch => rfl
  | deviceComplete => rfl

theorem Consistent.orderlyStep
    {before after : System} {action : Action}
    (consistent : Consistent before)
    (taken : Step before action after) :
    OrderlyStep before action after := by
  constructor
  case returned =>
      rintro pid rfl
      obtain ⟨_, queued, done, flow⟩ := consistent
      cases taken with
      | finish waiting _ cleared _ =>
          exact flow.served _ _ _ waiting (Or.inr cleared)
  case kept =>
      intro pid buf idx waiting notReturning
      have still := taken.waiting_kept waiting notReturning
      refine ⟨still, fun index owns => ⟨?_, ?_⟩⟩
      · exact (consistent.step taken).1.taken still owns
      · exact consistent.desc_kept taken waiting notReturning owns
  case drained =>
      rintro rfl
      obtain ⟨owned, queued, done, flow⟩ := consistent
      cases taken with
      | intrExit _ same =>
          have empty := (flow.done_eq_nil_iff owned).mpr same
          have log := flow.log
          rw [empty, List.append_nil] at log
          exact log.symm

/-- In every reachable state of the driver, its callers and the device, and in
every step taken from it, the request queue behaves as a queue: disjoint
ownership with an exact free map, each used-ring entry consumed once, calls
that return only after their own completion, no reuse of a descriptor before
that, and no panic while freeing descriptors. -/
theorem diskDriver_protocol
    {system : System}
    (reachable : driverSystem.Reachable system) :
    Orderly system ∧ ∀ action after,
      driverSystem.Step system action after →
        OrderlyStep system action after := by
  have consistent := consistent_of_reachable reachable
  exact ⟨consistent.orderly, fun _ _ taken => consistent.orderlyStep taken⟩

/-- An idle driver with empty rings. -/
def idleSystem : System where
  disk := ⟨fun _ => ⟨.null, 0, 0, 0⟩, 0, fun _ => 0, 0, fun _ => 0,
    fun _ => true, 0, fun _ => ⟨none, 0⟩⟩
  bufDisk := fun _ => false
  pc := fun _ => .idle
  intr := false
  lastAvail := 0
  inflight := []
  owner := fun _ => 0
  served := fun _ => false
  usedLog := []
  consumedLog := []

/-- Two processes submit requests for two buffers; the guarantees hold between
them. -/
theorem diskDriver_protocol_two_requests :
    ∃ system, system.pc 0 = .waiting 3 ⟨0, 1, 2⟩ ∧
      system.pc 1 = .waiting 5 ⟨3, 4, 5⟩ ∧ Orderly system := by
  have reached₀ : driverSystem.Reachable idleSystem :=
    .init ⟨fun _ => rfl, rfl, rfl, rfl, rfl, rfl, rfl, fun _ => rfl, rfl, rfl⟩
  have call₁ : Step idleSystem (.call 0 3 false) _ := .call rfl
    (by simp [System.Active, idleSystem])
  have attempt₁ : Step (idleSystem.setPc 0 (.allocating 3 false))
      (.attempt 0) (submitted (idleSystem.setPc 0 (.allocating 3 false))
        (idleSystem.disk.setTriple ⟨0, 1, 2⟩ false) 0 3 false ⟨0, 1, 2⟩) :=
    .attempt rfl rfl rfl
  have reached₁ := (reached₀.step trivial call₁).step trivial attempt₁
  generalize submittedEq : submitted (idleSystem.setPc 0
    (.allocating 3 false)) (idleSystem.disk.setTriple ⟨0, 1, 2⟩ false) 0 3
      false ⟨0, 1, 2⟩ = first at reached₁
  have positions : first.pc = Function.update (Function.update
      (fun _ => .idle) 0 (.allocating 3 false)) 0 (.waiting 3 ⟨0, 1, 2⟩) := by
    rw [← submittedEq]
    rfl
  have call₂ : Step first (.call 1 5 true) _ := .call (by simp [positions])
    (by
      intro other
      by_cases equal : other = 0 <;>
        simp [System.Active, positions, equal])
  have attempt₂ : Step (first.setPc 1 (.allocating 5 true)) (.attempt 1)
      (submitted (first.setPc 1 (.allocating 5 true))
        (first.disk.setTriple ⟨3, 4, 5⟩ false) 1 5 true ⟨3, 4, 5⟩) :=
    .attempt (by simp) (by rw [← submittedEq]; rfl)
      (by rw [← submittedEq]; rfl)
  have reached₂ := (reached₁.step trivial call₂).step trivial attempt₂
  refine ⟨_, ?_, ?_, (diskDriver_protocol reached₂).1⟩
  · simp [submitted, positions]
  · simp [submitted]

end Virtio
end WhuOs
