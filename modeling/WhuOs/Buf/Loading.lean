import WhuOs.Buf.Representation

/-!
# Buffers returned by `buf_read`

A buffer returned by `buf_read` should hold the bytes of its block.  This needs
three things that the code does not check: the block number is not the one that
marks unbound buffers, doubling it does not overflow 32 bits, and a reader that
finds a block already bound does not overtake the reader that bound it on the
way to `slk`.
-/

namespace WhuOs
namespace Buf

open Library

/-- The bytes of a block on the disk. -/
def diskBlock (disk : Nat → UInt8) (blockNum : UInt32) : Block :=
  fun offset => disk (1024 * blockNum.toNat + offset)

/-- A buffer is referenced, sits in the referenced part of the list, and was
filled from the bytes of the block since it was bound to it. -/
structure Loaded (disk : Nat → UInt8) (system : System)
    (index : BufIndex) (blockNum : UInt32) : Prop where
  referenced : (system.cache.bufs index).bufRef ≠ 0
  moved : ∃ used free, Arranged system used free ∧ index ∈ used
  source : system.source index = some (1024 * blockNum.toNat)
  data : (system.cache.bufs index).data = diskBlock disk blockNum

/-- Block numbers whose sector number fits in 32 bits, and no reader taking the
`slk` of a buffer between its binding and the binder's own taking of `slk`. -/
def Orderly (system : System) : Action → Prop
  | .read _ blockNum => blockNum.toNat < 2 ^ 31
  | .acquire pid =>
      ∀ index blockNum, system.pc pid = .hit index blockNum →
        ∀ binder bound, system.pc binder ≠ .miss index bound
  | _ => True

/-- The process is about to fill the buffer. -/
def Pc.Fills (index : BufIndex) (pc : Pc) : Prop :=
  ∃ blockNum, pc = .miss index blockNum ∨ pc = .loading index blockNum

/-- The buffer was filled from its block since it was bound to it. -/
def Filled (disk : Nat → UInt8) (system : System) (index : BufIndex) : Prop :=
  system.source index =
      some (1024 * (system.cache.bufs index).blockNum.toNat) ∧
    (system.cache.bufs index).data =
      diskBlock disk (system.cache.bufs index).blockNum

/-- Readers are bound to the block they asked for, and every referenced buffer
is loaded or has a reader on the way to load it. -/
structure Tracked (disk : Nat → UInt8) (system : System) : Prop where
  hitBound : ∀ pid index blockNum, system.pc pid = .hit index blockNum →
    (system.cache.bufs index).blockNum = blockNum
  missBound : ∀ pid index blockNum, system.pc pid = .miss index blockNum →
    (system.cache.bufs index).blockNum = blockNum
  loadingBound : ∀ pid index blockNum,
    system.pc pid = .loading index blockNum →
    (system.cache.bufs index).blockNum = blockNum ∧
      system.slk index = some pid
  inRange : ∀ index, (system.cache.bufs index).bufRef ≠ 0 →
    (system.cache.bufs index).blockNum.toNat < 2 ^ 31
  filled : ∀ index, (system.cache.bufs index).bufRef ≠ 0 →
    Filled disk system index ∨ ∃ pid, (system.pc pid).Fills index

theorem Orderly.numbersValid
    {system : System} {action : Action}
    (orderly : Orderly system action) :
    NumbersValid system action := by
  cases action with
  | read pid blockNum =>
      intro unused
      have small : blockNum.toNat < 2 ^ 31 := orderly
      rw [unused] at small
      exact absurd small (by decide)
  | _ => trivial

/-- Doubling a block number below `2 ^ 31` does not overflow. -/
theorem sector_of_lt
    {blockNum : UInt32}
    (small : blockNum.toNat < 2 ^ 31) :
    512 * sector blockNum = 1024 * blockNum.toNat := by
  have two : (2 : UInt32).toNat = 2 := rfl
  unfold sector
  rw [UInt32.toNat_mul, two]
  omega

theorem transferred_of_lt
    {disk : Nat → UInt8} {blockNum : UInt32}
    (small : blockNum.toNat < 2 ^ 31) :
    transferred disk blockNum = diskBlock disk blockNum := by
  funext offset
  rw [transferred, diskBlock, sector_of_lt small]

/-- Nothing is referenced at the start. -/
theorem Initial.tracked
    {disk : Nat → UInt8} {system : System}
    (initial : Initial system) :
    Tracked disk system := by
  have arranged := Initial.arranged initial
  obtain ⟨_, idle, _⟩ := initial
  have unreferenced : ∀ index, (system.cache.bufs index).bufRef = 0 :=
    fun index => arranged.freeRef index (List.mem_finRange index)
  constructor
  case hitBound => simp [idle]
  case missBound => simp [idle]
  case loadingBound => simp [idle]
  case inRange => simp [unreferenced]
  case filled => simp [unreferenced]

/-- The lock holder of a buffer is one of its holders. -/
theorem Arranged.mem_used_of_slk
    {system : System} {used free : List BufIndex}
    (arranged : Arranged system used free)
    {pid : Pid} {index : BufIndex}
    (locked : system.slk index = some pid) :
    index ∈ used := by
  rw [arranged.mem_used_iff]
  intro zero
  have counted := arranged.counted index
  rw [zero, UInt32.toNat_zero] at counted
  unfold holders at counted
  rw [locked] at counted
  simp at counted

/-- Reusable buffers are unlocked. -/
theorem Arranged.slk_of_free
    {system : System} {used free : List BufIndex}
    (arranged : Arranged system used free)
    {index : BufIndex}
    (inFree : index ∈ free) :
    (system.cache.bufs index).slk = none := by
  cases locked : (system.cache.bufs index).slk with
  | none => rfl
  | some pid =>
      have inUsed := arranged.mem_used_of_slk locked
      exact absurd (arranged.freeRef index inFree)
        (arranged.usedRef index inUsed)

/-- A process that refers to a buffer keeps it in the referenced part. -/
theorem Tracked.referenced
    {disk : Nat → UInt8} {system : System} {used free : List BufIndex}
    (tracked : Tracked disk system)
    (arranged : Arranged system used free)
    {pid : Pid} {index : BufIndex} {blockNum : UInt32}
    (refers : system.pc pid = .hit index blockNum ∨
      system.pc pid = .miss index blockNum ∨
      system.pc pid = .loading index blockNum) :
    (system.cache.bufs index).bufRef ≠ 0 := by
  rw [← arranged.mem_used_iff]
  rcases refers with position | position | position
  · exact arranged.mem_used_of_awaits (by rw [position]; rfl)
  · exact arranged.mem_used_of_awaits (by rw [position]; rfl)
  · exact arranged.mem_used_of_slk
      (tracked.loadingBound _ _ _ position).2

/-- Transfer of the tracking invariant along a step of one process.  Only the
moved process and the buffers that become loaded need attention. -/
theorem Tracked.transfer
    {disk : Nat → UInt8} {before after : System}
    {used free used' free' : List BufIndex}
    (tracked : Tracked disk before)
    (arranged : Arranged before used free)
    (arranged' : Arranged after used' free')
    (pid : Pid)
    (others : ∀ other, other ≠ pid → after.pc other = before.pc other)
    (sameNum : ∀ index, (before.cache.bufs index).bufRef ≠ 0 →
      (after.cache.bufs index).bufRef ≠ 0 →
      (after.cache.bufs index).blockNum =
        (before.cache.bufs index).blockNum)
    (sameSlk : ∀ other index blockNum, other ≠ pid →
      before.pc other = .loading index blockNum →
      after.slk index = before.slk index)
    (ownHit : ∀ index blockNum, after.pc pid = .hit index blockNum →
      (after.cache.bufs index).blockNum = blockNum)
    (ownMiss : ∀ index blockNum, after.pc pid = .miss index blockNum →
      (after.cache.bufs index).blockNum = blockNum)
    (ownLoading : ∀ index blockNum,
      after.pc pid = .loading index blockNum →
      (after.cache.bufs index).blockNum = blockNum ∧
        after.slk index = some pid)
    (inRange : ∀ index, (before.cache.bufs index).bufRef = 0 →
      (after.cache.bufs index).bufRef ≠ 0 →
      (after.cache.bufs index).blockNum.toNat < 2 ^ 31)
    (filled : ∀ index, (after.cache.bufs index).bufRef ≠ 0 →
      Filled disk after index ∨ ∃ pid, (after.pc pid).Fills index) :
    Tracked disk after := by
  have awaited : ∀ other index blockNum, other ≠ pid →
      after.pc other = .hit index blockNum ∨
        after.pc other = .miss index blockNum →
      (after.cache.bufs index).blockNum =
        (before.cache.bufs index).blockNum := by
    intro other index blockNum different position
    apply sameNum
    · rw [others other different] at position
      have refers : before.pc other = .hit index blockNum ∨
          before.pc other = .miss index blockNum ∨
          before.pc other = .loading index blockNum := by tauto
      exact tracked.referenced arranged refers
    · rw [← arranged'.mem_used_iff]
      rcases position with position | position <;>
        exact arranged'.mem_used_of_awaits (by rw [position]; rfl)
  constructor
  case hitBound =>
      intro other index blockNum position
      by_cases same : other = pid
      · exact ownHit index blockNum (same ▸ position)
      · rw [awaited other index blockNum same (Or.inl position)]
        rw [others other same] at position
        exact tracked.hitBound other index blockNum position
  case missBound =>
      intro other index blockNum position
      by_cases same : other = pid
      · exact ownMiss index blockNum (same ▸ position)
      · rw [awaited other index blockNum same (Or.inr position)]
        rw [others other same] at position
        exact tracked.missBound other index blockNum position
  case loadingBound =>
      intro other index blockNum position
      by_cases same : other = pid
      · subst same
        exact ownLoading index blockNum position
      · rw [others other same] at position
        obtain ⟨num, locked⟩ :=
          tracked.loadingBound other index blockNum position
        have lockedAfter : after.slk index = some other := by
          rw [sameSlk other index blockNum same position, locked]
        refine ⟨?_, lockedAfter⟩
        rw [sameNum, num]
        · exact tracked.referenced arranged (Or.inr (Or.inr position))
        · rw [← arranged'.mem_used_iff]
          exact arranged'.mem_used_of_slk lockedAfter
  case inRange =>
      intro index nonzero
      by_cases wasZero : (before.cache.bufs index).bufRef = 0
      · exact inRange index wasZero nonzero
      · rw [sameNum index wasZero nonzero]
        exact tracked.inRange index wasZero
  case filled => exact filled

/-- A buffer stays filled, or keeps its filler, along a step that keeps its
block, bytes and record, provided the moved process still fills what it filled
before. -/
theorem Tracked.keep_filled
    {disk : Nat → UInt8} {before after : System}
    (tracked : Tracked disk before)
    (pid : Pid)
    (others : ∀ other, other ≠ pid → after.pc other = before.pc other)
    {index : BufIndex}
    (referenced : (before.cache.bufs index).bufRef ≠ 0)
    (sameNum : (after.cache.bufs index).blockNum =
      (before.cache.bufs index).blockNum)
    (sameData : (after.cache.bufs index).data =
      (before.cache.bufs index).data)
    (sameSource : after.source index = before.source index)
    (own : (before.pc pid).Fills index → (after.pc pid).Fills index) :
    Filled disk after index ∨ ∃ pid, (after.pc pid).Fills index := by
  rcases tracked.filled index referenced with filled | ⟨filler, fills⟩
  · left
    unfold Filled
    rw [sameNum, sameData, sameSource]
    exact filled
  · right
    refine ⟨filler, ?_⟩
    by_cases same : filler = pid
    · rw [same] at fills ⊢
      exact own fills
    · rw [others filler same]
      exact fills

theorem not_fills_idle (index : BufIndex) : ¬Pc.Fills index .idle := by
  rintro ⟨_, position | position⟩ <;> cases position

theorem Tracked.readHit
    {disk : Nat → UInt8} {system : System} {used free : List BufIndex}
    (tracked : Tracked disk system)
    (arranged : Arranged system used free)
    {pid : Pid} {blockNum : UInt32} {index : BufIndex} {cache : Cache}
    (valid : blockNum ≠ blockNumUnused)
    (idle : system.pc pid = .idle)
    (outcome : readSection system.cache blockNum = .hit index cache) :
    Tracked disk
      ((system.setCache cache).setPc pid (.hit index blockNum)) := by
  have arranged' := arranged.readHit valid idle outcome
  obtain ⟨inUsed, bound, rfl⟩ := arranged.readSection_hit valid outcome
  have others : ∀ other, other ≠ pid →
      ((system.setCache (system.cache.setBuf index
        (system.cache.bufs index).retain)).setPc pid
          (.hit index blockNum)).pc other = system.pc other := by
    intro other different
    simp [different]
  have wasReferenced : ∀ other, ((system.cache.setBuf index
      (system.cache.bufs index).retain).bufs other).bufRef ≠ 0 →
        (system.cache.bufs other).bufRef ≠ 0 := by
    intro other nonzero
    by_cases same : other = index
    · rw [same]
      exact arranged.usedRef index inUsed
    · simpa [same] using nonzero
  apply tracked.transfer arranged arranged' pid others
  case sameNum =>
      intro other _ _
      exact Cache.setBuf_congr BufT.blockNum _ _ other _ rfl
  case sameSlk =>
      intro other otherIndex _ _ _
      exact Cache.setBuf_congr BufT.slk _ _ otherIndex _ rfl
  case ownHit =>
      intro otherIndex otherNum position
      simp only [System.setPc_pc, if_true, Pc.hit.injEq] at position
      obtain ⟨rfl, rfl⟩ := position
      simpa using bound
  case ownMiss => simp
  case ownLoading => simp
  case inRange =>
      intro other zero nonzero
      exact absurd zero (wasReferenced other nonzero)
  case filled =>
      intro other nonzero
      apply tracked.keep_filled pid others (wasReferenced other nonzero)
      · exact Cache.setBuf_congr BufT.blockNum _ _ other _ rfl
      · exact Cache.setBuf_congr BufT.data _ _ other _ rfl
      · rfl
      · intro fills
        rw [idle] at fills
        exact absurd fills (not_fills_idle other)

theorem Tracked.readMiss
    {disk : Nat → UInt8} {system : System} {used free : List BufIndex}
    (tracked : Tracked disk system)
    (arranged : Arranged system used free)
    {pid : Pid} {blockNum : UInt32} {index : BufIndex} {cache : Cache}
    (small : blockNum.toNat < 2 ^ 31)
    (valid : blockNum ≠ blockNumUnused)
    (idle : system.pc pid = .idle)
    (outcome : readSection system.cache blockNum = .miss index cache) :
    Tracked disk (((system.setCache cache).setSource index none).setPc pid
      (.miss index blockNum)) := by
  obtain ⟨_, _, arranged'⟩ := arranged.readMiss valid idle outcome
  obtain ⟨_, rest, links, rfl, rfl, _⟩ := arranged.readSection_miss outcome
  have unreferenced := arranged.freeRef index (by simp)
  have others : ∀ other, other ≠ pid →
      (((system.setCache ((system.cache.setBuf index
        ((system.cache.bufs index).bind blockNum)).setLinks links)).setSource
          index none).setPc pid (.miss index blockNum)).pc other =
        system.pc other := by
    intro other different
    simp [different]
  apply tracked.transfer arranged arranged' pid others
  case sameNum =>
      intro other wasNonzero _
      have different : other ≠ index := by
        rintro rfl
        exact wasNonzero unreferenced
      simp [different]
  case sameSlk =>
      intro other otherIndex _ _ _
      exact Cache.setBuf_congr BufT.slk _ _ otherIndex _ rfl
  case ownHit => simp
  case ownMiss =>
      intro otherIndex otherNum position
      simp only [System.setPc_pc, if_true, Pc.miss.injEq] at position
      obtain ⟨rfl, rfl⟩ := position
      simp
  case ownLoading => simp
  case inRange =>
      intro other zero nonzero
      by_cases same : other = index
      · simpa [same] using small
      · simp only [System.setPc_cache, System.setSource_cache,
          System.setCache_cache, Cache.setLinks_bufs, Cache.setBuf_bufs,
          if_neg same] at nonzero
        exact absurd zero nonzero
  case filled =>
      intro other nonzero
      by_cases same : other = index
      · right
        refine ⟨pid, blockNum, ?_⟩
        simp [same]
      · simp only [System.setPc_cache, System.setSource_cache,
          System.setCache_cache, Cache.setLinks_bufs, Cache.setBuf_bufs,
          if_neg same] at nonzero
        apply tracked.keep_filled pid others nonzero
        · simp [same]
        · simp [same]
        · simp [same]
        · intro fills
          rw [idle] at fills
          exact absurd fills (not_fills_idle other)

/-- Taking or giving back a `slk` changes no block, bytes or record. -/
theorem Tracked.exchange
    {disk : Nat → UInt8} {system : System}
    {used free used' free' : List BufIndex}
    (tracked : Tracked disk system)
    (arranged : Arranged system used free)
    {pid : Pid} {index : BufIndex} {holder : Option Pid} {pc : Pc}
    (arranged' : Arranged ((system.setSlk index holder).setPc pid pc)
      used' free')
    (notOthers : ∀ other blockNum, other ≠ pid →
      system.pc other ≠ .loading index blockNum)
    (ownHit : ∀ otherIndex blockNum, pc ≠ .hit otherIndex blockNum)
    (ownMiss : ∀ otherIndex blockNum, pc ≠ .miss otherIndex blockNum)
    (ownLoading : ∀ otherIndex blockNum, pc = .loading otherIndex blockNum →
      (system.cache.bufs otherIndex).blockNum = blockNum ∧
        otherIndex = index ∧ holder = some pid)
    (ownFills : ∀ otherIndex, (system.pc pid).Fills otherIndex →
      pc.Fills otherIndex) :
    Tracked disk ((system.setSlk index holder).setPc pid pc) := by
  have others : ∀ other, other ≠ pid →
      ((system.setSlk index holder).setPc pid pc).pc other =
        system.pc other := by
    intro other different
    simp [different]
  have sameNum : ∀ other,
      (((system.setSlk index holder).setPc pid pc).cache.bufs other).blockNum =
        (system.cache.bufs other).blockNum :=
    fun other => Cache.setBuf_congr BufT.blockNum _ _ other _ rfl
  have sameRef : ∀ other,
      (((system.setSlk index holder).setPc pid pc).cache.bufs other).bufRef =
        (system.cache.bufs other).bufRef :=
    fun other => Cache.setBuf_congr BufT.bufRef _ _ other _ rfl
  apply tracked.transfer arranged arranged' pid others
  case sameNum => exact fun other _ _ => sameNum other
  case sameSlk =>
      intro other otherIndex blockNum different position
      have notIndex : otherIndex ≠ index := by
        rintro rfl
        exact notOthers other blockNum different position
      simp [System.slk, notIndex]
  case ownHit =>
      intro otherIndex blockNum position
      simp only [System.setPc_pc, if_true] at position
      exact absurd position (ownHit otherIndex blockNum)
  case ownMiss =>
      intro otherIndex blockNum position
      simp only [System.setPc_pc, if_true] at position
      exact absurd position (ownMiss otherIndex blockNum)
  case ownLoading =>
      intro otherIndex blockNum position
      simp only [System.setPc_pc, if_true] at position
      obtain ⟨num, rfl, rfl⟩ := ownLoading otherIndex blockNum position
      exact ⟨(sameNum otherIndex).trans num, by simp [System.slk]⟩
  case inRange =>
      intro other zero nonzero
      rw [sameRef] at nonzero
      exact absurd zero nonzero
  case filled =>
      intro other nonzero
      rw [sameRef] at nonzero
      apply tracked.keep_filled pid others nonzero (sameNum other)
      · exact Cache.setBuf_congr BufT.data _ _ other _ rfl
      · rfl
      · intro fills
        simpa using ownFills other fills

theorem Tracked.complete
    {disk : Nat → UInt8} {system : System}
    {used free used' free' : List BufIndex}
    (tracked : Tracked disk system)
    (arranged : Arranged system used free)
    {pid : Pid} {blockNum : UInt32} {index : BufIndex}
    (loading : system.pc pid = .loading index blockNum)
    (arranged' : Arranged (((system.setCache (system.cache.setBuf index
        ((system.cache.bufs index).fill (transferred disk
          (system.cache.bufs index).blockNum)))).setSource index
        (some (512 * sector (system.cache.bufs index).blockNum))).setPc
      pid .idle) used' free') :
    Tracked disk (((system.setCache (system.cache.setBuf index
        ((system.cache.bufs index).fill (transferred disk
          (system.cache.bufs index).blockNum)))).setSource index
        (some (512 * sector (system.cache.bufs index).blockNum))).setPc
      pid .idle) := by
  have small := tracked.inRange index
    (tracked.referenced arranged (Or.inr (Or.inr loading)))
  have others : ∀ other, other ≠ pid →
      (((system.setCache (system.cache.setBuf index
          ((system.cache.bufs index).fill (transferred disk
            (system.cache.bufs index).blockNum)))).setSource index
          (some (512 * sector (system.cache.bufs index).blockNum))).setPc
        pid .idle).pc other = system.pc other := by
    intro other different
    simp [different]
  have sameRef : ∀ other, ((system.cache.setBuf index
      ((system.cache.bufs index).fill (transferred disk
        (system.cache.bufs index).blockNum))).bufs other).bufRef =
          (system.cache.bufs other).bufRef :=
    fun other => Cache.setBuf_congr BufT.bufRef _ _ other _ rfl
  apply tracked.transfer arranged arranged' pid others
  case sameNum =>
      intro other _ _
      exact Cache.setBuf_congr BufT.blockNum _ _ other _ rfl
  case sameSlk =>
      intro other otherIndex _ _ _
      exact Cache.setBuf_congr BufT.slk _ _ otherIndex _ rfl
  case ownHit => simp
  case ownMiss => simp
  case ownLoading => simp
  case inRange =>
      intro other zero nonzero
      exact absurd ((sameRef other).trans zero) nonzero
  case filled =>
      intro other nonzero
      by_cases same : other = index
      · left
        subst same
        simp only [Filled, System.setPc_source, System.setSource_source,
          if_true, System.setPc_cache, System.setSource_cache,
          System.setCache_cache, Cache.setBuf_bufs, BufT.fill_blockNum]
        refine ⟨by rw [sector_of_lt small], ?_⟩
        exact transferred_of_lt small
      · apply tracked.keep_filled pid others
        · rw [← sameRef other]
          exact nonzero
        · simp [same]
        · simp [same]
        · simp [same]
        · rw [loading]
          rintro ⟨otherNum, position | position⟩ <;>
            simp only [reduceCtorEq, Pc.loading.injEq] at position
          exact absurd position.1.symm same

/-- What dropping a reference does to the buffers. -/
theorem releaseSection_bufs
    {cache result : Cache} {index : BufIndex}
    (outcome : releaseSection cache index = some result)
    (other : BufIndex) :
    (other ≠ index → result.bufs other = cache.bufs other) ∧
      ((result.bufs index).bufRef ≠ 0 →
        result.bufs index = (cache.bufs index).release) := by
  by_cases last : (cache.bufs index).release.bufRef = 0
  · simp only [releaseSection, if_pos last, Option.bind_eq_bind,
      Option.bind_eq_some_iff] at outcome
    obtain ⟨links, _, stored⟩ := outcome
    obtain rfl := Option.some.inj stored
    refine ⟨fun different => by simp [different], fun nonzero => ?_⟩
    simp only [Cache.setLinks_bufs, Cache.setBuf_bufs, if_true,
      BufT.unbind_bufRef] at nonzero
    exact absurd last nonzero
  · simp only [releaseSection, if_neg last] at outcome
    obtain rfl := Option.some.inj outcome
    exact ⟨fun different => by simp [different], fun _ => by simp⟩

theorem Tracked.drop
    {disk : Nat → UInt8} {system : System}
    {used free used' free' : List BufIndex}
    (tracked : Tracked disk system)
    (arranged : Arranged system used free)
    {pid : Pid} {index : BufIndex} {cache : Cache}
    (releasing : system.pc pid = .releasing index)
    (outcome : releaseSection system.cache index = some cache)
    (arranged' : Arranged ((system.setCache cache).setPc pid .idle)
      used' free') :
    Tracked disk ((system.setCache cache).setPc pid .idle) := by
  have referenced : (system.cache.bufs index).bufRef ≠ 0 := by
    rw [← arranged.mem_used_iff]
    exact arranged.mem_used_of_awaits (by rw [releasing]; rfl)
  have others : ∀ other, other ≠ pid →
      ((system.setCache cache).setPc pid .idle).pc other =
        system.pc other := by
    intro other different
    simp [different]
  have kept : ∀ other, (cache.bufs other).bufRef ≠ 0 →
      (system.cache.bufs other).bufRef ≠ 0 ∧
        (cache.bufs other).blockNum = (system.cache.bufs other).blockNum ∧
        (cache.bufs other).data = (system.cache.bufs other).data := by
    intro other nonzero
    obtain ⟨elsewhere, here⟩ := releaseSection_bufs outcome other
    by_cases same : other = index
    · subst same
      rw [here nonzero]
      exact ⟨referenced, rfl, rfl⟩
    · rw [elsewhere same] at nonzero ⊢
      exact ⟨nonzero, rfl, rfl⟩
  apply tracked.transfer arranged arranged' pid others
  case sameNum => exact fun other _ nonzero => (kept other nonzero).2.1
  case sameSlk =>
      intro other otherIndex _ _ _
      exact releaseSection_slk outcome otherIndex
  case ownHit => simp
  case ownMiss => simp
  case ownLoading => simp
  case inRange =>
      intro other zero nonzero
      exact absurd zero (kept other nonzero).1
  case filled =>
      intro other nonzero
      obtain ⟨wasNonzero, sameNum, sameData⟩ := kept other nonzero
      apply tracked.keep_filled pid others wasNonzero sameNum sameData rfl
      rw [releasing]
      rintro ⟨_, position | position⟩ <;> cases position

/-- Every orderly step keeps readers bound and buffers loaded. -/
theorem Tracked.step
    {disk : Nat → UInt8} {before after : System} {action : Action}
    (tracked : Tracked disk before)
    (shaped : Shaped before)
    (orderly : Orderly before action)
    (taken : Step disk before action after) :
    Tracked disk after := by
  obtain ⟨used, free, arranged⟩ := shaped
  obtain ⟨used', free', arranged'⟩ :=
    arranged.step orderly.numbersValid taken
  have valid := orderly.numbersValid
  cases taken with
  | readHit idle outcome =>
      exact tracked.readHit arranged valid idle outcome
  | readMiss idle outcome =>
      exact tracked.readMiss arranged orderly valid idle outcome
  | @acquireHit pid blockNum index waiting unlocked =>
      apply tracked.exchange arranged arranged'
      · intro other otherNum _ position
        have := (tracked.loadingBound _ _ _ position).2
        rw [unlocked] at this
        cases this
      · simp
      · simp
      · simp
      · rw [waiting]
        rintro _ ⟨_, position | position⟩ <;> cases position
  | @acquireMiss pid blockNum index waiting unlocked =>
      apply tracked.exchange arranged arranged'
      · intro other otherNum _ position
        have := (tracked.loadingBound _ _ _ position).2
        rw [unlocked] at this
        cases this
      · simp
      · simp
      · intro otherIndex otherNum position
        simp only [Pc.loading.injEq] at position
        obtain ⟨rfl, rfl⟩ := position
        exact ⟨tracked.missBound _ _ _ waiting, rfl, rfl⟩
      · rw [waiting]
        rintro otherIndex ⟨otherNum, position | position⟩
        · simp only [Pc.miss.injEq] at position
          obtain ⟨rfl, rfl⟩ := position
          exact ⟨blockNum, Or.inr rfl⟩
        · cases position
  | complete loading => exact tracked.complete arranged loading arranged'
  | @release pid index idle locked =>
      apply tracked.exchange arranged arranged'
      · intro other otherNum different position
        have := (tracked.loadingBound _ _ _ position).2
        rw [locked] at this
        exact different (Option.some.inj this).symm
      · simp
      · simp
      · simp
      · intro otherIndex fills
        rw [idle] at fills
        exact absurd fills (not_fills_idle otherIndex)
  | drop releasing outcome =>
      exact tracked.drop arranged releasing outcome arranged'

/-- The list is well shaped and its buffers are tracked. -/
def Coherent (disk : Nat → UInt8) (system : System) : Prop :=
  Shaped system ∧ Tracked disk system

/-- Orderly runs keep the cache coherent. -/
theorem coherent_of_reachable
    {disk : Nat → UInt8} {system : System}
    (reachable : (bufSystem disk).ReachableBy Orderly system) :
    Coherent disk system := by
  apply reachable.invariant
  · intro start initial
    exact ⟨⟨[], _, Initial.arranged initial⟩, Initial.tracked initial⟩
  · rintro before action after ⟨shaped, tracked⟩ orderly taken
    refine ⟨?_, tracked.step shaped orderly taken⟩
    obtain ⟨used, free, arranged⟩ := shaped
    exact arranged.step orderly.numbersValid taken

/-- A filled and referenced buffer of a coherent cache is loaded. -/
theorem Filled.loaded
    {disk : Nat → UInt8} {system : System} {index : BufIndex}
    (filled : Filled disk system index)
    (shaped : Shaped system)
    (referenced : (system.cache.bufs index).bufRef ≠ 0) :
    Loaded disk system index (system.cache.bufs index).blockNum := by
  obtain ⟨used, free, arranged⟩ := shaped
  exact ⟨referenced,
    ⟨used, free, arranged, (arranged.mem_used_iff index).mpr referenced⟩,
    filled.1, filled.2⟩

end Buf
end WhuOs
