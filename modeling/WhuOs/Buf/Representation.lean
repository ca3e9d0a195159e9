import WhuOs.Buf.Defs
import WhuOs.Library.Counting

/-!
# Shape of the buffer list

In every state the processes can reach, the list consists of the referenced
buffers followed by the reusable ones, referenced buffers are bound to distinct
blocks, and reference counts agree with the processes that hold or wait for a
buffer.
-/

namespace WhuOs
namespace Buf

open Library

/-- The buffer a process holds a reference to without holding its `slk`. -/
def Pc.awaited : Pc → Option BufIndex
  | .hit index _ => some index
  | .miss index _ => some index
  | .releasing index => some index
  | _ => none

/-- Number of processes that await a buffer. -/
def waiters (pc : Pid → Pc) (index : BufIndex) : Nat :=
  countEntries pc fun pc => pc.awaited = some index

/-- Outstanding holders of a buffer: the processes between taking a reference
and taking `slk`, those between giving `slk` back and dropping the reference,
and the holder of `slk`. -/
def holders (system : System) (index : BufIndex) : Nat :=
  waiters system.pc index +
    if (system.slk index).isSome then 1 else 0

/-- The list is the referenced buffers followed by the reusable ones. -/
structure Arranged (system : System) (used free : List BufIndex) : Prop where
  /-- The pointers thread exactly these buffers, in this order. -/
  ring : system.cache.links.Ring .headBuf
    ((used ++ free).map NodePtr.bufCache)
  /-- Every buffer is on the list. -/
  complete : ∀ index, index ∈ used ++ free
  /-- The front part is referenced. -/
  usedRef : ∀ index ∈ used, (system.cache.bufs index).bufRef ≠ 0
  /-- The back part is not. -/
  freeRef : ∀ index ∈ free, (system.cache.bufs index).bufRef = 0
  /-- Unreferenced buffers are bound to no block. -/
  freeUnbound : ∀ index ∈ free,
    (system.cache.bufs index).blockNum = blockNumUnused
  /-- Referenced buffers are bound to pairwise distinct blocks. -/
  usedDistinct : ∀ first ∈ used, ∀ second ∈ used,
    (system.cache.bufs first).blockNum = (system.cache.bufs second).blockNum →
      first = second
  /-- Referenced buffers are bound. -/
  usedBound : ∀ index ∈ used,
    (system.cache.bufs index).blockNum ≠ blockNumUnused
  /-- Reference counts count the holders. -/
  counted : ∀ index,
    (system.cache.bufs index).bufRef.toNat = holders system index

/-- The list can be split into a referenced and a reusable part. -/
def Shaped (system : System) : Prop :=
  ∃ used free, Arranged system used free

/-- No `buf_read` is given the number that marks unbound buffers. -/
def NumbersValid (_ : System) : Action → Prop
  | .read _ blockNum => blockNum ≠ blockNumUnused
  | _ => True

/-! ## The list operations -/

/-- Moving a buffer next to the list head. -/
theorem insertHead_ring
    {links : Links NodePtr} {front back : List BufIndex} {index : BufIndex}
    (ring : links.Ring .headBuf
      ((front ++ index :: back).map NodePtr.bufCache))
    (headNext : Bool) :
    ∃ result, insertHead links (.bufCache index) headNext = some result ∧
      result.Ring .headBuf
        ((if headNext then index :: (front ++ back)
          else front ++ back ++ [index]).map NodePtr.bufCache) := by
  rw [List.map_append, List.map_cons] at ring
  have unlinked := Links.Ring.unlink_ring ring
  have fresh : NodePtr.bufCache index ∉ NodePtr.headBuf ::
      (front.map NodePtr.bufCache ++ back.map NodePtr.bufCache) := by
    have distinct := ring.nodup
    rw [List.nodup_middle] at distinct
    simpa using (List.nodup_cons.mp distinct).1
  cases headNext with
  | true =>
      obtain ⟨result, computed, spliced⟩ :=
        Links.Ring.linkFirst_ring unlinked fresh
      exact ⟨result, by simpa [insertHead] using computed,
        by simpa using spliced⟩
  | false =>
      obtain ⟨result, computed, spliced, _⟩ :=
        Links.Ring.linkLast_ring unlinked fresh
      exact ⟨result, by simpa [insertHead] using computed,
        by simpa using spliced⟩

/-- Walking the list finds the first buffer bound to the block. -/
theorem searchList_eq_find
    (cache : Cache) (blockNum : UInt32)
    {start : NodePtr} {order : List BufIndex} {fuel : Nat}
    (path : cache.links.Path start (order.map NodePtr.bufCache) .headBuf)
    (enough : order.length < fuel) :
    searchList cache blockNum fuel (cache.links.next start) =
      some (order.find? fun index =>
        (cache.bufs index).blockNum = blockNum) := by
  induction order generalizing start fuel with
  | nil =>
      obtain ⟨fuel, rfl⟩ := Nat.exists_eq_succ_of_ne_zero
        (Nat.ne_of_gt enough)
      rw [path.1]
      rfl
  | cons index order inductionHypothesis =>
      obtain ⟨fuel, rfl⟩ := Nat.exists_eq_succ_of_ne_zero
        (Nat.ne_of_gt (Nat.zero_lt_of_lt enough))
      rw [path.1.1, searchList]
      by_cases found : (cache.bufs index).blockNum = blockNum
      · simp [found]
      · rw [if_neg found, inductionHypothesis path.2
          (by simpa using enough)]
        simp [found]

/-- The list names every buffer once, so it has one node for each. -/
theorem Arranged.length_eq
    {system : System} {used free : List BufIndex}
    (arranged : Arranged system used free) :
    (used ++ free).length = nBlockBuf := by
  have distinct : (used ++ free).Nodup :=
    List.Nodup.of_map _ arranged.ring.nodup
  rw [← List.toFinset_card_of_nodup distinct,
    Finset.eq_univ_of_forall fun index =>
      List.mem_toFinset.mpr (arranged.complete index)]
  exact Finset.card_fin nBlockBuf

/-- The walk of `buf_read` on a well-shaped list. -/
theorem Arranged.searchList_eq
    {system : System} {used free : List BufIndex}
    (arranged : Arranged system used free)
    (blockNum : UInt32) :
    searchList system.cache blockNum (nBlockBuf + 1)
        (system.cache.links.next .headBuf) =
      some ((used ++ free).find? fun index =>
        (system.cache.bufs index).blockNum = blockNum) := by
  apply searchList_eq_find _ _ arranged.ring.path
  have := arranged.length_eq
  omega

/-- A reference count is nonzero exactly on the front part of the list. -/
theorem Arranged.mem_used_iff
    {system : System} {used free : List BufIndex}
    (arranged : Arranged system used free)
    (index : BufIndex) :
    index ∈ used ↔ (system.cache.bufs index).bufRef ≠ 0 := by
  constructor
  · exact arranged.usedRef index
  · intro referenced
    rcases List.mem_append.mp (arranged.complete index) with inUsed | inFree
    · exact inUsed
    · exact absurd (arranged.freeRef index inFree) referenced

/-- A cached block is found in the front part of the list. -/
theorem Arranged.readSection_hit
    {system : System} {used free : List BufIndex}
    (arranged : Arranged system used free)
    {blockNum : UInt32} {index : BufIndex} {cache : Cache}
    (valid : blockNum ≠ blockNumUnused)
    (outcome : readSection system.cache blockNum = .hit index cache) :
    index ∈ used ∧ (system.cache.bufs index).blockNum = blockNum ∧
      cache = system.cache.setBuf index
        (system.cache.bufs index).retain := by
  unfold readSection at outcome
  rw [arranged.searchList_eq] at outcome
  cases found : (used ++ free).find? fun index =>
      (system.cache.bufs index).blockNum = blockNum with
  | none =>
      simp only [found, bindBuf] at outcome
      split at outcome <;> try contradiction
      split at outcome <;> try contradiction
      split at outcome <;> contradiction
  | some foundIndex =>
      simp only [found, ReadOutcome.hit.injEq] at outcome
      obtain ⟨rfl, rfl⟩ := outcome
      have bound : (system.cache.bufs foundIndex).blockNum = blockNum := by
        simpa using List.find?_some found
      refine ⟨?_, bound, rfl⟩
      rcases List.mem_append.mp (List.mem_of_find?_eq_some found) with
        inUsed | inFree
      · exact inUsed
      · exact absurd (bound.symm.trans (arranged.freeUnbound _ inFree)) valid

/-- For a block that is not cached, `buf_read` looks at the last buffer of the
list: it panics when the free part is empty and otherwise binds that buffer. -/
theorem Arranged.readSection_absent
    {system : System} {used free : List BufIndex}
    (arranged : Arranged system used free)
    {blockNum : UInt32}
    (absent : ∀ index, (system.cache.bufs index).blockNum ≠ blockNum) :
    (free = [] ∧ readSection system.cache blockNum =
        .panic "buf_read: buffer still referenced") ∨
      ∃ rest index links, free = rest ++ [index] ∧
        readSection system.cache blockNum =
          .miss index ((system.cache.setBuf index
            ((system.cache.bufs index).bind blockNum)).setLinks links) ∧
        links.Ring .headBuf
          ((index :: used ++ rest).map NodePtr.bufCache) := by
  have notFound : (used ++ free).find? (fun index =>
      (system.cache.bufs index).blockNum = blockNum) = none := by
    simp [absent]
  have section_eq : readSection system.cache blockNum =
      bindBuf system.cache blockNum := by
    unfold readSection
    rw [arranged.searchList_eq, notFound]
  have lastNode := arranged.ring.prev_head
  rcases List.eq_nil_or_concat free with rfl | ⟨rest, index, rfl⟩
  · left
    refine ⟨rfl, ?_⟩
    have length_eq := arranged.length_eq
    rcases List.eq_nil_or_concat used with rfl | ⟨front, last, rfl⟩
    · simp at length_eq
    · simp only [List.concat_eq_append, List.append_nil, List.map_append,
        List.map_cons, List.map_nil, List.getLastD_concat] at lastNode
      have referenced := arranged.usedRef last (by simp)
      rw [section_eq, bindBuf]
      simp [lastNode, referenced]
  · right
    simp only [List.concat_eq_append] at *
    rw [← List.append_assoc, List.map_append, List.map_cons, List.map_nil,
      List.getLastD_concat] at lastNode
    have unreferenced := arranged.freeRef index (by simp)
    have ring := arranged.ring
    rw [← List.append_assoc] at ring
    obtain ⟨links, inserted, newRing⟩ := insertHead_ring ring true
    refine ⟨rest, index, links, rfl, ?_, by simpa using newRing⟩
    rw [section_eq, bindBuf]
    simp [lastNode, unreferenced, inserted]

/-- A buffer bound on a miss was not cached before. -/
theorem Arranged.readSection_miss
    {system : System} {used free : List BufIndex}
    (arranged : Arranged system used free)
    {blockNum : UInt32} {index : BufIndex} {cache : Cache}
    (outcome : readSection system.cache blockNum = .miss index cache) :
    (∀ index, (system.cache.bufs index).blockNum ≠ blockNum) ∧
      ∃ rest links, free = rest ++ [index] ∧
        cache = (system.cache.setBuf index
          ((system.cache.bufs index).bind blockNum)).setLinks links ∧
        links.Ring .headBuf
          ((index :: used ++ rest).map NodePtr.bufCache) := by
  have absent : ∀ index, (system.cache.bufs index).blockNum ≠ blockNum := by
    intro other bound
    unfold readSection at outcome
    rw [arranged.searchList_eq] at outcome
    cases found : (used ++ free).find? fun index =>
        (system.cache.bufs index).blockNum = blockNum with
    | none =>
        rw [List.find?_eq_none] at found
        exact found other (arranged.complete other) (by simpa using bound)
    | some foundIndex => simp [found] at outcome
  refine ⟨absent, ?_⟩
  rcases arranged.readSection_absent absent with
    ⟨_, panics⟩ | ⟨rest, bound, links, freeEq, misses, ring⟩
  · rw [panics] at outcome
    contradiction
  · rw [misses] at outcome
    injection outcome with indexEq cacheEq
    subst indexEq
    exact ⟨rest, links, freeEq, cacheEq.symm, ring⟩

/-! ## Counting holders -/

/-- Moving a process, in a step that keeps every `slk`, changes the holders of
the buffers it moves between. -/
theorem holders_move
    (before after : System) {pid : Pid} {pc : Pc}
    (moved : after.pc = Function.update before.pc pid pc)
    (sameSlk : ∀ index, after.slk index = before.slk index)
    (index : BufIndex) :
    holders after index +
        (if (before.pc pid).awaited = some index then 1 else 0) =
      holders before index + if pc.awaited = some index then 1 else 0 := by
  have counted := countEntries_update before.pc
    (fun pc => pc.awaited = some index) pid pc
  unfold holders waiters
  rw [moved, sameSlk]
  omega

/-- Setting one `slk` changes at most the lock holder's contribution. -/
theorem holders_setSlk
    (system : System) (index : BufIndex) (holder : Option Pid)
    (other : BufIndex) :
    holders (system.setSlk index holder) other +
        (if other = index ∧ (system.slk index).isSome then 1 else 0) =
      holders system other +
        if other = index ∧ holder.isSome then 1 else 0 := by
  unfold holders System.slk
  rw [System.setSlk_bufs]
  by_cases same : other = index
  · simp only [same, if_true, true_and, BufT.setSlk_slk, System.setSlk_pc]
    omega
  · simp [same]

/-- A buffer never has more holders than processes and one. -/
theorem holders_le (system : System) (index : BufIndex) :
    holders system index ≤ nProc + 1 := by
  have bound := countEntries_le_card system.pc
    (fun pc => pc.awaited = some index)
  rw [Fintype.card_fin] at bound
  unfold holders waiters
  split <;> omega

/-! ## The initial list -/

/-- Inserting buffers that are on no list yet, one after the other. -/
theorem foldlM_bufInitNode
    (cache : Cache) (done todo : List BufIndex)
    (ring : cache.links.Ring .headBuf (done.map NodePtr.bufCache))
    (offList : ∀ index ∈ todo, cache.links.next (.bufCache index) = none)
    (distinct : (done ++ todo).Nodup) :
    ∃ result, todo.foldlM bufInitNode cache = some result ∧
      result.links.Ring .headBuf ((done ++ todo).map NodePtr.bufCache) ∧
      (∀ index ∈ todo, result.bufs index =
        ⟨none, blockNumUnused, zeroBlock, 0⟩) ∧
      ∀ index ∉ todo, result.bufs index = cache.bufs index := by
  induction todo generalizing cache done with
  | nil =>
      refine ⟨cache, by simp, by simpa using ring, by simp, by simp⟩
  | cons index todo inductionHypothesis =>
      rw [List.nodup_middle, List.nodup_cons, List.mem_append, not_or]
        at distinct
      obtain ⟨⟨notDone, notTodo⟩, restDistinct⟩ := distinct
      have unlinked :
          Links.Ring.unlink cache.links (.bufCache index) = cache.links := by
        simp [Links.Ring.unlink, offList index (by simp)]
      obtain ⟨links, computed, newRing, kept⟩ :=
        Links.Ring.linkLast_ring ring
          (show NodePtr.bufCache index ∉ _ by simpa using notDone)
      have inserted : bufInitNode cache index = some
          ((cache.setBuf index
            ⟨none, blockNumUnused, zeroBlock, 0⟩).setLinks links) := by
        simp [bufInitNode, insertHead, unlinked, computed]
      obtain ⟨result, folded, resultRing, initialised, untouched⟩ :=
        inductionHypothesis ((cache.setBuf index
            ⟨none, blockNumUnused, zeroBlock, 0⟩).setLinks links)
          (done ++ [index])
          (by simpa using newRing)
          (by
            intro other member
            rw [Cache.setLinks_links, kept, offList other (by simp [member])]
            have notDoneOther : other ∉ done := by
              intro inDone
              exact (List.disjoint_of_nodup_append restDistinct)
                inDone member
            have notIndex : other ≠ index := by
              intro equal
              exact notTodo (equal ▸ member)
            simp [notDoneOther, notIndex])
          (by
            rw [List.append_assoc]
            exact List.nodup_middle.mpr (List.nodup_cons.mpr
              ⟨by simp [notDone, notTodo], restDistinct⟩))
      refine ⟨result, by simp [inserted, folded], by simpa using resultRing,
        ?_, ?_⟩
      · intro other member
        rcases List.mem_cons.mp member with isIndex | inTodo
        · rw [isIndex, untouched index notTodo]
          simp
        · exact initialised other inTodo
      · intro other outside
        simp only [List.mem_cons, not_or] at outside
        rw [untouched other outside.2]
        simp [outside.1]

/-- `buf_init` leaves every buffer on the free part of the list. -/
theorem bufInit_eq_some :
    ∃ cache, bufInit bootCache = some cache ∧
      cache.links.Ring .headBuf
        ((List.finRange nBlockBuf).map NodePtr.bufCache) ∧
      ∀ index, cache.bufs index = ⟨none, blockNumUnused, zeroBlock, 0⟩ := by
  obtain ⟨result, folded, ring, initialised, _⟩ := foldlM_bufInitNode
    (bootCache.setLinks
      ((bootCache.links.setNext .headBuf (some .headBuf)).setPrev
        .headBuf (some .headBuf)))
    [] (List.finRange nBlockBuf)
    (Links.Ring.empty (by simp) (by simp))
    (by simp [bootCache])
    (by simpa using List.nodup_finRange nBlockBuf)
  exact ⟨result, folded, by simpa using ring,
    fun index => initialised index (List.mem_finRange index)⟩

/-- The invariant holds after `buf_init`. -/
theorem Initial.arranged
    {system : System}
    (initial : Initial system) :
    Arranged system [] (List.finRange nBlockBuf) := by
  obtain ⟨computed, idle, _⟩ := initial
  obtain ⟨cache, cacheEq, ring, bufs⟩ := bufInit_eq_some
  obtain rfl : cache = system.cache := by
    rw [cacheEq] at computed
    exact Option.some.inj computed
  have noWaiters : ∀ index, waiters system.pc index = 0 := by
    intro index
    rw [waiters, countEntries_eq_zero]
    intro pid
    simp [idle pid, Pc.awaited]
  constructor
  case ring => simpa using ring
  case complete => simp
  case usedRef => simp
  case freeRef => simp [bufs]
  case freeUnbound => simp [bufs]
  case usedDistinct => simp
  case usedBound => simp
  case counted => simp [holders, noWaiters, System.slk, bufs]

/-- The state `buf_init` leaves, with every process outside the cache. -/
theorem exists_initial :
    ∃ system : System, Initial system ∧
      Arranged system [] (List.finRange nBlockBuf) := by
  obtain ⟨cache, computed, _⟩ := bufInit_eq_some
  have initial : Initial ⟨cache, fun _ => .idle, fun _ => none⟩ :=
    ⟨computed, fun _ => rfl, fun _ => rfl⟩
  exact ⟨_, initial, Initial.arranged initial⟩

/-! ## Preservation -/

/-- Transfer of the invariant along a step that keeps the list, the block
numbers and the reference counts. -/
theorem Arranged.of_same_bufs
    {before after : System} {used free : List BufIndex}
    (arranged : Arranged before used free)
    (sameLinks : after.cache.links = before.cache.links)
    (sameRef : ∀ index, (after.cache.bufs index).bufRef =
      (before.cache.bufs index).bufRef)
    (sameNum : ∀ index, (after.cache.bufs index).blockNum =
      (before.cache.bufs index).blockNum)
    (sameHolders : ∀ index, holders after index = holders before index) :
    Arranged after used free := by
  constructor
  case ring => rw [sameLinks]; exact arranged.ring
  case complete => exact arranged.complete
  case usedRef => simpa only [sameRef] using arranged.usedRef
  case freeRef => simpa only [sameRef] using arranged.freeRef
  case freeUnbound => simpa only [sameNum] using arranged.freeUnbound
  case usedDistinct => simpa only [sameNum] using arranged.usedDistinct
  case usedBound => simpa only [sameNum] using arranged.usedBound
  case counted => simpa only [sameRef, sameHolders] using arranged.counted

/-- Counting one more holder does not overflow. -/
theorem Arranged.bufRef_add_one
    {system : System} {used free : List BufIndex}
    (arranged : Arranged system used free)
    (index : BufIndex) :
    ((system.cache.bufs index).bufRef + 1).toNat =
      (system.cache.bufs index).bufRef.toNat + 1 := by
  have counted := arranged.counted index
  have bound : holders system index ≤ 64 + 1 := holders_le system index
  rw [UInt32.toNat_add, UInt32.toNat_one]
  omega

/-- A hit raises the count of a buffer in the front part. -/
theorem Arranged.readHit
    {system : System} {used free : List BufIndex}
    (arranged : Arranged system used free)
    {pid : Pid} {blockNum : UInt32} {index : BufIndex} {cache : Cache}
    (valid : blockNum ≠ blockNumUnused)
    (idle : system.pc pid = .idle)
    (outcome : readSection system.cache blockNum = .hit index cache) :
    Arranged ((system.setCache cache).setPc pid (.hit index blockNum))
      used free := by
  obtain ⟨inUsed, bound, rfl⟩ := arranged.readSection_hit valid outcome
  have grown := arranged.bufRef_add_one index
  have notFree : ∀ other ∈ free, other ≠ index := by
    intro other inFree equal
    exact arranged.usedRef index inUsed (equal ▸ arranged.freeRef other inFree)
  constructor
  case ring => exact arranged.ring
  case complete => exact arranged.complete
  case usedRef =>
      intro other member
      simp only [System.setPc_cache, System.setCache_cache,
        Cache.setBuf_bufs]
      split
      · intro zero
        have := congrArg UInt32.toNat zero
        simp only [BufT.retain_bufRef, UInt32.toNat_zero] at this
        omega
      · exact arranged.usedRef other member
  case freeRef =>
      intro other member
      simpa [notFree other member] using
        arranged.freeRef other member
  case freeUnbound =>
      intro other member
      simpa [notFree other member] using
        arranged.freeUnbound other member
  case usedDistinct =>
      intro first firstUsed second secondUsed equal
      apply arranged.usedDistinct first firstUsed second secondUsed
      simp only [System.setPc_cache, System.setCache_cache,
        Cache.setBuf_bufs] at equal
      split at equal <;> split at equal <;> simp_all
  case usedBound =>
      intro other member
      have bound := arranged.usedBound other member
      simp only [System.setPc_cache, System.setCache_cache,
        Cache.setBuf_bufs]
      split <;> simp_all
  case counted =>
      intro other
      have moved := holders_move system
        ((system.setCache (system.cache.setBuf index
          (system.cache.bufs index).retain)).setPc pid (.hit index blockNum))
        rfl (fun other => Cache.setBuf_congr BufT.slk _ _ other _ rfl) other
      simp only [idle, Pc.awaited, reduceCtorEq, if_false, add_zero,
        Option.some.injEq] at moved
      have counted := arranged.counted other
      rw [moved]
      by_cases same : other = index
      · subst same
        simp [grown, counted]
      · simp [same, Ne.symm same, counted]

/-- A miss moves the last buffer of the free part to the front. -/
theorem Arranged.readMiss
    {system : System} {used free : List BufIndex}
    (arranged : Arranged system used free)
    {pid : Pid} {blockNum : UInt32} {index : BufIndex} {cache : Cache}
    (valid : blockNum ≠ blockNumUnused)
    (idle : system.pc pid = .idle)
    (outcome : readSection system.cache blockNum = .miss index cache) :
    ∃ rest, free = rest ++ [index] ∧
      Arranged (((system.setCache cache).setSource index none).setPc pid
        (.miss index blockNum)) (index :: used) rest := by
  obtain ⟨absent, rest, links, freeEq, rfl, ring⟩ :=
    arranged.readSection_miss outcome
  have indexFree : index ∈ free := by simp [freeEq]
  have distinct : (used ++ free).Nodup :=
    List.Nodup.of_map _ arranged.ring.nodup
  rw [freeEq, ← List.append_assoc, List.nodup_append] at distinct
  have notIndex : ∀ other ∈ used ++ rest, other ≠ index := by
    intro other member equal
    exact distinct.2.2 other member index (by simp) equal
  have notUsed : ∀ other ∈ used, other ≠ index := fun other member =>
    notIndex other (List.mem_append_left rest member)
  have notRest : ∀ other ∈ rest, other ≠ index := fun other member =>
    notIndex other (List.mem_append_right used member)
  have restFree : ∀ other ∈ rest, other ∈ free := by
    intro other member
    simp [freeEq, member]
  refine ⟨rest, freeEq, ?_⟩
  constructor
  case ring => simpa using ring
  case complete =>
      intro other
      have := arranged.complete other
      simp only [freeEq, List.mem_append, List.mem_cons,
        List.not_mem_nil, or_false] at this ⊢
      tauto
  case usedRef =>
      intro other member
      by_cases same : other = index
      · simp [same]
      · have inUsed : other ∈ used := by simpa [same] using member
        simpa [same] using
          arranged.usedRef other inUsed
  case freeRef =>
      intro other member
      simpa [notRest other member] using
        arranged.freeRef other (restFree other member)
  case freeUnbound =>
      intro other member
      simpa [notRest other member] using
        arranged.freeUnbound other (restFree other member)
  case usedDistinct =>
      intro first firstUsed second secondUsed
      rw [List.mem_cons] at firstUsed secondUsed
      simp only [System.setPc_cache, System.setSource_cache,
        System.setCache_cache, Cache.setLinks_bufs, Cache.setBuf_bufs]
      rcases firstUsed with rfl | firstUsed <;>
        rcases secondUsed with rfl | secondUsed
      · simp
      · intro equal
        rw [if_pos rfl, if_neg (notUsed second secondUsed)] at equal
        exact absurd equal.symm (absent second)
      · intro equal
        rw [if_pos rfl, if_neg (notUsed first firstUsed)] at equal
        exact absurd equal (absent first)
      · rw [if_neg (notUsed first firstUsed),
          if_neg (notUsed second secondUsed)]
        exact arranged.usedDistinct first firstUsed second secondUsed
  case usedBound =>
      intro other member
      by_cases same : other = index
      · simpa [same] using
          valid
      · have inUsed : other ∈ used := by simpa [same] using member
        simpa [same] using
          arranged.usedBound other inUsed
  case counted =>
      intro other
      have moved := holders_move system
        (((system.setCache ((system.cache.setBuf index
          ((system.cache.bufs index).bind blockNum)).setLinks
            links)).setSource index none).setPc pid (.miss index blockNum))
        rfl (fun other => Cache.setBuf_congr BufT.slk _ _ other _ rfl) other
      simp only [idle, Pc.awaited, reduceCtorEq, if_false, add_zero,
        Option.some.injEq] at moved
      have counted := arranged.counted other
      rw [moved]
      by_cases same : other = index
      · subst same
        rw [arranged.freeRef other indexFree] at counted
        simp [← counted]
      · simp [same, Ne.symm same, counted]

/-- A process that awaits a buffer is one of its holders. -/
theorem Arranged.mem_used_of_awaits
    {system : System} {used free : List BufIndex}
    (arranged : Arranged system used free)
    {pid : Pid} {index : BufIndex}
    (awaits : (system.pc pid).awaited = some index) :
    index ∈ used := by
  rw [arranged.mem_used_iff]
  intro zero
  have counted := arranged.counted index
  have waiting := (countEntries_pos system.pc
    (fun pc => pc.awaited = some index)).mpr ⟨pid, awaits⟩
  rw [zero, UInt32.toNat_zero] at counted
  unfold holders waiters at counted
  omega

/-- Dropping a reference leaves every `slk` alone. -/
theorem releaseSection_slk
    {cache result : Cache} {index : BufIndex}
    (outcome : releaseSection cache index = some result)
    (other : BufIndex) :
    (result.bufs other).slk = (cache.bufs other).slk := by
  by_cases last : (cache.bufs index).release.bufRef = 0
  · simp only [releaseSection, if_pos last, Option.bind_eq_bind,
      Option.bind_eq_some_iff] at outcome
    obtain ⟨links, _, stored⟩ := outcome
    obtain rfl := Option.some.inj stored
    exact Cache.setBuf_congr BufT.slk cache index other _ rfl
  · simp only [releaseSection, if_neg last] at outcome
    obtain rfl := Option.some.inj outcome
    exact Cache.setBuf_congr BufT.slk cache index other _ rfl

/-- Dropping a reference moves the buffer to the back with its last one. -/
theorem Arranged.drop
    {system : System} {used free : List BufIndex}
    (arranged : Arranged system used free)
    {pid : Pid} {index : BufIndex} {cache : Cache}
    (releasing : system.pc pid = .releasing index)
    (outcome : releaseSection system.cache index = some cache) :
    ∃ used free, Arranged ((system.setCache cache).setPc pid .idle)
      used free := by
  have awaits : (system.pc pid).awaited = some index := by
    simp [releasing, Pc.awaited]
  have inUsed := arranged.mem_used_of_awaits awaits
  have referenced := arranged.usedRef index inUsed
  have notFree : ∀ other ∈ free, other ≠ index := by
    intro other inFree equal
    exact referenced (equal ▸ arranged.freeRef other inFree)
  have lowered : (system.cache.bufs index).release.bufRef.toNat + 1 =
      (system.cache.bufs index).bufRef.toNat := by
    have positive : (system.cache.bufs index).bufRef.toNat ≠ 0 := by
      intro zero
      exact referenced (UInt32.toNat_inj.mp (by simpa using zero))
    have bound := (system.cache.bufs index).bufRef.toNat_lt
    rw [BufT.release_bufRef, UInt32.toNat_sub, UInt32.toNat_one]
    omega
  have counted : ∀ other,
      holders ((system.setCache cache).setPc pid .idle) other +
        (if other = index then 1 else 0) = holders system other := by
    intro other
    have moved := holders_move system
      ((system.setCache cache).setPc pid .idle) rfl
      (releaseSection_slk outcome) other
    simpa [releasing, Pc.awaited, eq_comm] using moved
  by_cases last : (system.cache.bufs index).release.bufRef = 0
  · obtain ⟨front, back, rfl⟩ := List.append_of_mem inUsed
    have ring := arranged.ring
    rw [List.append_assoc, List.cons_append] at ring
    obtain ⟨links, inserted, newRing⟩ := insertHead_ring ring false
    have cacheEq : cache = (system.cache.setBuf index
        (system.cache.bufs index).release.unbind).setLinks links := by
      simp only [releaseSection, if_pos last, Cache.setBuf_links,
        inserted] at outcome
      exact (Option.some.inj outcome).symm
    have distinct : ((front ++ index :: back) ++ free).Nodup :=
      List.Nodup.of_map _ arranged.ring.nodup
    have notKept : ∀ other ∈ front ++ back, other ≠ index := by
      rintro other member rfl
      rw [List.nodup_append, List.nodup_middle, List.nodup_cons] at distinct
      exact distinct.1.1 member
    have wasUsed : ∀ other ∈ front ++ back,
        other ∈ front ++ index :: back := by
      intro other member
      rw [List.mem_append] at member
      rw [List.mem_append, List.mem_cons]
      tauto
    refine ⟨front ++ back, free ++ [index], ?_⟩
    subst cacheEq
    constructor
    case ring => simpa using newRing
    case complete =>
        intro other
        have := arranged.complete other
        simp only [List.mem_append, List.mem_cons, List.not_mem_nil,
          or_false] at this ⊢
        tauto
    case usedRef =>
        intro other member
        simpa [notKept other member] using
          arranged.usedRef other (wasUsed other member)
    case freeRef =>
        intro other member
        by_cases same : other = index
        · simpa [same] using last
        · have inFree : other ∈ free := by simpa [same] using member
          simpa [same] using arranged.freeRef other inFree
    case freeUnbound =>
        intro other member
        by_cases same : other = index
        · simp [same]
        · have inFree : other ∈ free := by simpa [same] using member
          simpa [same] using arranged.freeUnbound other inFree
    case usedDistinct =>
        intro first firstUsed second secondUsed equal
        apply arranged.usedDistinct first (wasUsed first firstUsed)
          second (wasUsed second secondUsed)
        simpa [notKept first firstUsed, notKept second secondUsed] using equal
    case usedBound =>
        intro other member
        simpa [notKept other member] using
          arranged.usedBound other (wasUsed other member)
    case counted =>
        intro other
        have kept := arranged.counted other
        have change := counted other
        by_cases same : other = index
        · subst same
          have zero := congrArg UInt32.toNat last
          rw [UInt32.toNat_zero] at zero
          simp only [System.setPc_cache, System.setCache_cache,
            Cache.setLinks_bufs, Cache.setBuf_bufs, if_true,
            BufT.unbind_bufRef] at change ⊢
          omega
        · simp only [if_neg same, add_zero] at change
          simp [same, kept, change]
  · have cacheEq : cache = system.cache.setBuf index
        (system.cache.bufs index).release := by
      simp only [releaseSection, if_neg last] at outcome
      exact (Option.some.inj outcome).symm
    refine ⟨used, free, ?_⟩
    subst cacheEq
    constructor
    case ring => exact arranged.ring
    case complete => exact arranged.complete
    case usedRef =>
        intro other member
        by_cases same : other = index
        · simpa [same] using last
        · simpa [same] using arranged.usedRef other member
    case freeRef =>
        intro other member
        simpa [notFree other member] using arranged.freeRef other member
    case freeUnbound =>
        intro other member
        simpa [notFree other member] using arranged.freeUnbound other member
    case usedDistinct =>
        intro first firstUsed second secondUsed equal
        apply arranged.usedDistinct first firstUsed second secondUsed
        simp only [System.setPc_cache, System.setCache_cache,
          Cache.setBuf_bufs] at equal
        split at equal <;> split at equal <;> simp_all
    case usedBound =>
        intro other member
        have bound := arranged.usedBound other member
        simp only [System.setPc_cache, System.setCache_cache,
          Cache.setBuf_bufs]
        split <;> simp_all
    case counted =>
        intro other
        have kept := arranged.counted other
        have change := counted other
        by_cases same : other = index
        · subst same
          simp only [System.setPc_cache, System.setCache_cache,
            Cache.setBuf_bufs, if_true] at change ⊢
          omega
        · simp only [if_neg same, add_zero] at change
          simp [same, kept, change]

/-- Taking or giving back a `slk` while moving between awaiting a buffer and
holding it keeps the invariant. -/
theorem Arranged.exchange
    {system : System} {used free : List BufIndex}
    (arranged : Arranged system used free)
    {pid : Pid} {index : BufIndex} {holder : Option Pid} {pc : Pc}
    (balanced : ∀ other,
      (if pc.awaited = some other then 1 else 0) +
          (if other = index ∧ holder.isSome then 1 else 0) =
        (if (system.pc pid).awaited = some other then 1 else 0) +
          if other = index ∧ (system.slk index).isSome then 1 else 0) :
    Arranged ((system.setSlk index holder).setPc pid pc) used free := by
  apply arranged.of_same_bufs
  · rfl
  · intro other
    rw [System.setPc_cache, System.setSlk_bufs]
    split <;> simp_all
  · intro other
    rw [System.setPc_cache, System.setSlk_bufs]
    split <;> simp_all
  · intro other
    have moved := holders_move (system.setSlk index holder)
      ((system.setSlk index holder).setPc pid pc) rfl (fun _ => rfl) other
    have locked := holders_setSlk system index holder other
    have balance := balanced other
    rw [System.setSlk_pc] at moved
    omega

/-- Every step keeps the list well shaped, as long as no `buf_read` is given
the number that marks unbound buffers. -/
theorem Arranged.step
    {disk : Nat → UInt8} {before after : System} {action : Action}
    {used free : List BufIndex}
    (arranged : Arranged before used free)
    (valid : NumbersValid before action)
    (taken : Step disk before action after) :
    Shaped after := by
  cases taken with
  | readHit idle outcome =>
      exact ⟨used, free, arranged.readHit valid idle outcome⟩
  | readMiss idle outcome =>
      obtain ⟨rest, _, result⟩ := arranged.readMiss valid idle outcome
      exact ⟨_, rest, result⟩
  | acquireHit waiting unlocked =>
      refine ⟨used, free, arranged.exchange ?_⟩
      intro other
      simp [waiting, unlocked, Pc.awaited, eq_comm]
  | acquireMiss waiting unlocked =>
      refine ⟨used, free, arranged.exchange ?_⟩
      intro other
      simp [waiting, unlocked, Pc.awaited, eq_comm]
  | @complete pid blockNum index loading =>
      refine ⟨used, free, arranged.of_same_bufs rfl ?_ ?_ ?_⟩
      · intro other
        simp only [System.setPc_cache, System.setSource_cache,
          System.setCache_cache, Cache.setBuf_bufs]
        split <;> simp_all
      · intro other
        simp only [System.setPc_cache, System.setSource_cache,
          System.setCache_cache, Cache.setBuf_bufs]
        split <;> simp_all
      · intro other
        have moved := holders_move before
          (((before.setCache (before.cache.setBuf index
            ((before.cache.bufs index).fill (transferred disk
              (before.cache.bufs index).blockNum)))).setSource index
            (some (512 * sector (before.cache.bufs index).blockNum))).setPc
              pid .idle) rfl (fun other => Cache.setBuf_congr BufT.slk _ _ other _ rfl)
          other
        simpa [loading, Pc.awaited] using moved
  | release idle locked =>
      refine ⟨used, free, arranged.exchange ?_⟩
      intro other
      simp [idle, locked, Pc.awaited, eq_comm]
  | drop releasing outcome => exact arranged.drop releasing outcome

/-- The list is well shaped in every reachable state. -/
theorem shaped_of_reachable
    {disk : Nat → UInt8} {system : System}
    (reachable : (bufSystem disk).ReachableBy NumbersValid system) :
    Shaped system := by
  apply reachable.invariant
  · intro start initial
    exact ⟨[], _, Initial.arranged initial⟩
  · rintro before action after ⟨used, free, arranged⟩ valid taken
    exact arranged.step valid taken

end Buf
end WhuOs
