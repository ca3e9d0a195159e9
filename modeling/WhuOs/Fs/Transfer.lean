import WhuOs.Fs.Extend

/-!
# Reading and writing the data of an inode

The loops of `inode_read_data` and `inode_write_data` find one block after the
other.  They touch the blocks of their own inode only.
-/

namespace WhuOs
namespace Fs

open Library
open Library.Bytes
open Library.Forest (missing)
open Program (Runs)

variable {state final : State}

/-- What reading and writing the data of a locked inode may change: the block
numbers in its slot, the bitmap of blocks, and blocks of its own. -/
structure Transferred (state final : State) (ip : Slot) : Prop where
  sound : Sound final
  held : final.held = state.held
  lkIcache : final.lkIcache = state.lkIcache
  slots : ∀ other, other ≠ ip → final.icache other = state.icache other
  slot : ∃ addrs, final.icache ip = (state.icache ip).setData
    { (state.icache ip).data with addrs := addrs }
  table : ∀ index, 1 ≤ index → index < 130 →
    final.disk index = state.disk index
  places : ∀ root path, root.1 ≠ (state.icache ip).inodeNum →
    path.length ≤ rootHeight root →
    final.place root path = state.place root path ∧
    (state.place root path ≠ 0 →
      final.disk (diskIndex (state.place root path)) =
        state.disk (diskIndex (state.place root path)))

namespace Transferred

variable {ip : Slot}

theorem inodeNum (transferred : Transferred state final ip) :
    (final.icache ip).inodeNum = (state.icache ip).inodeNum := by
  obtain ⟨_, same⟩ := transferred.slot
  rw [same]
  rfl

theorem valid (transferred : Transferred state final ip) :
    (final.icache ip).valid = (state.icache ip).valid := by
  obtain ⟨_, same⟩ := transferred.slot
  rw [same]
  rfl

theorem refl (sound : Sound state) : Transferred state state ip :=
  ⟨sound, rfl, rfl, fun _ _ => rfl, ⟨(state.icache ip).data.addrs, rfl⟩,
    fun _ _ _ => rfl, fun _ _ _ _ => ⟨rfl, fun _ => rfl⟩⟩

theorem trans
    {middle : State} (first : Transferred state middle ip)
    (second : Transferred middle final ip) : Transferred state final ip := by
  refine ⟨second.sound, second.held.trans first.held,
    second.lkIcache.trans first.lkIcache, fun other differs => ?_, ?_,
    fun index low high => ?_, fun root path elsewhere bound => ?_⟩
  · rw [second.slots other differs, first.slots other differs]
  · obtain ⟨_, same⟩ := first.slot
    obtain ⟨addrs, same'⟩ := second.slot
    refine ⟨addrs, ?_⟩
    rw [same', same]
    rfl
  · rw [second.table index low high, first.table index low high]
  · have firstPlace := first.places root path elsewhere bound
    rw [← first.inodeNum] at elsewhere
    have secondPlace := second.places root path elsewhere bound
    refine ⟨secondPlace.1.trans firstPlace.1, fun present => ?_⟩
    rw [firstPlace.1] at secondPlace
    rw [secondPlace.2 present, firstPlace.2 present]

end Transferred

/-- A block of the forest that is not on the way to another. -/
theorem Sound.place_ne_of_lt
    (sound : Sound state) {root root' : Root} {path path' : List ChildIndex}
    (bound : path.length ≤ rootHeight root)
    (whole : path'.length = rootHeight root')
    (short : path.length < rootHeight root)
    (present : state.place root path ≠ 0) :
    diskIndex (state.place root path) ≠
      diskIndex (state.place root' path') := by
  intro same
  have marked := sound.marked_place bound present
  have present' : state.place root' path' ≠ 0 := by
    intro absent
    rw [absent, diskIndex_zero] at same
    exact marked.diskIndex_ne (by decide) same
  have marked' := sound.marked_place whole.le present'
  have equal := marked.diskIndex_inj marked' same
  obtain ⟨rfl, rfl⟩ := sound.forest.unique root root' path path' bound
    whole.le present equal
  omega

/-- Writing the data of a block that is not an index block. -/
theorem Sound.writeLeaf
    (sound : Sound state) (root : Root) {path : List ChildIndex}
    (whole : path.length = rootHeight root) (data : Block) :
    Sound (state.setDisk (diskIndex (state.place root path)) data) ∧
      (∀ root' path', path'.length ≤ rootHeight root' →
        (state.setDisk (diskIndex (state.place root path)) data).place root'
          path' = state.place root' path') ∧
      ∀ index, 1 ≤ index → index < 131 →
        (state.setDisk (diskIndex (state.place root path)) data).disk index =
          state.disk index := by
  have outside : ∀ index, 1 ≤ index → index < 131 →
      index ≠ diskIndex (state.place root path) := by
    intro index low high same
    by_cases absent : state.place root path = 0
    · rw [absent, diskIndex_zero] at same
      omega
    · exact (sound.marked_place whole.le absent).diskIndex_ne high same.symm
  have kept : ∀ index, index ≠ diskIndex (state.place root path) →
      (state.setDisk (diskIndex (state.place root path)) data).disk index =
        state.disk index :=
    fun index differs => Function.update_of_ne differs _ _
  have table : SameTable state
      (state.setDisk (diskIndex (state.place root path)) data) :=
    fun index low high => kept index (outside index (by omega) (by omega))
  have index : ∀ root' path', path'.length < rootHeight root' →
      state.place root' path' ≠ 0 →
      (state.setDisk (diskIndex (state.place root path)) data).disk
        (diskIndex (state.place root' path')) =
        state.disk (diskIndex (state.place root' path')) :=
    fun root' path' short present => kept _
      (sound.place_ne_of_lt (Nat.le_of_lt short) whole short present)
  have bitmap : (state.setDisk (diskIndex (state.place root path))
      data).disk 130 = state.disk 130 :=
    kept 130 (outside 130 (by decide) (by decide))
  refine ⟨sound.writeData rfl table index ?_, fun root' path' bound =>
    place_congr (table.root rfl) index root' bound, fun index low high =>
    kept index (outside index low high)⟩
  rw [State.marked_congr bitmap]
  exact fun root' path' bound present => sound.marked_place bound present

/-- Finding a block of an inode. -/
theorem Extended.transferred
    {ip : Slot} {k : Fin nAddrs} {target : List ChildIndex}
    (sound : Sound state) (extended : Extended state final ip k target) :
    Transferred state final ip := by
  have onWay : ∀ path, path <+: target → path.length < addrLevel k →
      final.Marked (final.place ((state.icache ip).inodeNum, k) path) :=
    fun path onPath short => extended.sound.marked_place
      (Nat.le_of_lt short) (extended.index path onPath short)
  refine ⟨extended.sound, ?_, ?_, ?_, ?_, ?_, ?_⟩
  · rw [extended.cache]
    rfl
  · rw [extended.cache]
    rfl
  · intro other differs
    rw [extended.cache, setData_icache_of_ne differs]
    rfl
  · rw [extended.cache, setData_icache_self]
    exact ⟨_, rfl⟩
  · intro index low high
    refine extended.disk index (by omega) fun path onPath short => ?_
    exact (onWay path onPath short).diskIndex_ne (by omega)
  · intro root path elsewhere bound
    have same : final.place root path = state.place root path := by
      rcases extended.kept root path bound with same | ⟨rfl, _⟩
      · exact same
      · exact absurd rfl elsewhere
    refine ⟨same, fun present => ?_⟩
    have marked := sound.marked_place bound present
    refine extended.disk _ (marked.diskIndex_ne (by decide))
      fun way onPath short equal => ?_
    have equal := (onWay way onPath short).diskIndex_inj marked equal
    rw [← same] at equal
    have unique := extended.sound.forest.unique
      ((state.icache ip).inodeNum, k) root way path (Nat.le_of_lt short) bound
      (onWay way onPath short).ne_zero equal
    rw [← unique.1] at elsewhere
    exact elsewhere rfl

/-- Writing a block of an inode. -/
theorem Sound.writeLeaf_transferred
    {ip : Slot} (sound : Sound state) (k : Fin nAddrs)
    {path : List ChildIndex} (whole : path.length = addrLevel k)
    (data : Block) :
    Transferred state (state.setDisk (diskIndex
      (state.place ((state.icache ip).inodeNum, k) path)) data) ip := by
  obtain ⟨sound', places, low⟩ := sound.writeLeaf
    ((state.icache ip).inodeNum, k) whole data
  refine ⟨sound', rfl, rfl, fun _ _ => rfl,
    ⟨(state.icache ip).data.addrs, rfl⟩, fun index one small =>
      low index one (by omega), fun root path' elsewhere bound =>
      ⟨places root path' bound, fun present => ?_⟩⟩
  refine Function.update_of_ne (fun same => ?_) _ _
  have marked := sound.marked_place bound present
  have present' : state.place ((state.icache ip).inodeNum, k) path ≠ 0 := by
    intro absent
    rw [absent, diskIndex_zero] at same
    exact marked.diskIndex_ne (by decide) same
  have marked' : state.Marked (state.place ((state.icache ip).inodeNum, k)
      path) := sound.marked_place whole.le present'
  have unique := sound.forest.unique root ((state.icache ip).inodeNum, k) path'
    path bound whole.le present (marked.diskIndex_inj marked' same)
  rw [unique.1] at elsewhere
  exact elsewhere rfl

/-! ## The blocks of a transfer -/

/-- The numbers of the blocks that hold a range of bytes. -/
def blocksOf (offset len : Nat) : List Nat :=
  if len = 0 then []
  else List.range' (offset / 1024)
    ((offset + len - 1) / 1024 + 1 - offset / 1024)

/-- The part of a range in its first block. -/
def piece (offset len : Nat) : Nat :=
  min (1024 - offset % 1024) len

theorem blocksOf_cons
    {offset len : Nat} (positive : 0 < len) :
    blocksOf offset len = offset / 1024 ::
      blocksOf (offset + piece offset len) (len - piece offset len) := by
  have some : 0 < piece offset len := by
    unfold piece
    omega
  unfold blocksOf
  rw [if_neg (by omega)]
  split
  · next last =>
    have count : (offset + len - 1) / 1024 + 1 - offset / 1024 = 1 := by
      unfold piece at last
      omega
    rw [count]
    rfl
  · next more =>
    have full : piece offset len = 1024 - offset % 1024 := by
      unfold piece at more ⊢
      omega
    have start : (offset + piece offset len) / 1024 = offset / 1024 + 1 := by
      omega
    have count : (offset + len - 1) / 1024 + 1 - offset / 1024 =
        ((offset + piece offset len + (len - piece offset len) - 1) / 1024 +
          1 - (offset + piece offset len) / 1024) + 1 := by
      omega
    rw [count, List.range'_succ, start]

theorem blocksOf_nodup (offset len : Nat) : (blocksOf offset len).Nodup := by
  unfold blocksOf
  split
  · exact List.nodup_nil
  · exact List.nodup_range'

/-- The length of a piece does not overflow. -/
theorem pieceLength_toNat
    {offset len total : UInt32} (more : total < len) :
    (pieceLength offset len total).toNat =
      piece offset.toNat (len.toNat - total.toNat) := by
  have below : total ≤ len := UInt32.le_of_lt more
  have rest : (len - total).toNat = len.toNat - total.toNat :=
    UInt32.toNat_sub_of_le _ _ below
  have remainder : (offset % 1024).toNat = offset.toNat % 1024 :=
    UInt32.toNat_mod _ _
  have small : offset % 1024 ≤ 1024 := by
    apply UInt32.le_iff_toNat_le.mpr
    rw [remainder]
    exact (Nat.mod_lt _ (by decide)).le
  have room : (1024 - offset % 1024).toNat = 1024 - offset.toNat % 1024 := by
    rw [UInt32.toNat_sub_of_le _ _ small, remainder]
    rfl
  simp only [pieceLength, piece]
  split
  · next large =>
    have large := UInt32.lt_iff_toNat_lt.mp large
    rw [room, rest] at large
    rw [rest]
    omega
  · next fits =>
    have fits := UInt32.le_iff_toNat_le.mp (UInt32.not_lt.mp fits)
    rw [room, rest] at fits
    rw [room]
    omega

/-! ## Places of numbered blocks -/

/-- Different numbers below a level have different paths. -/
theorem pathBelow_inj
    {level bn bn' : Nat} (bound : bn < entryPerBlock ^ level)
    (bound' : bn' < entryPerBlock ^ level)
    (same : pathBelow bn level = pathBelow bn' level) : bn = bn' := by
  induction level generalizing bn bn' with
  | zero =>
      rw [Nat.pow_zero] at bound bound'
      omega
  | succ level inductionHypothesis =>
      have power : 0 < entryPerBlock ^ level := Nat.pow_pos (by decide)
      rw [Nat.pow_succ] at bound bound'
      have quotient := Nat.div_lt_of_lt_mul bound
      have quotient' := Nat.div_lt_of_lt_mul bound'
      obtain ⟨heads, tails⟩ := List.cons.inj same
      have values := congrArg Fin.val heads
      have value : (Fin.ofNat entryPerBlock
          (bn / entryPerBlock ^ level)).val = bn / entryPerBlock ^ level :=
        Nat.mod_eq_of_lt quotient
      have value' : (Fin.ofNat entryPerBlock
          (bn' / entryPerBlock ^ level)).val = bn' / entryPerBlock ^ level :=
        Nat.mod_eq_of_lt quotient'
      rw [value, value'] at values
      have rests := inductionHypothesis (Nat.mod_lt _ power)
        (Nat.mod_lt _ power) tails
      rw [← Nat.div_add_mod bn (entryPerBlock ^ level), values, rests,
        Nat.div_add_mod]

/-- Different blocks of an inode have different places. -/
theorem placeOf_inj
    {bn bn' : Nat} (bound : bn < maxBlocks) (bound' : bn' < maxBlocks)
    (same : placeOf bn = placeOf bn') : bn = bn' := by
  have size : maxBlocks = 66058 := rfl
  have direct : ∀ number, number < 10 →
      (Fin.ofNat nAddrs number).val = number := fun number small =>
    Nat.mod_eq_of_lt (by show number < 13; omega)
  unfold placeOf at same
  split at same
  · next isDirect =>
    split at same
    · have values := congrArg Fin.val (congrArg Prod.fst same)
      rwa [direct bn isDirect, direct bn' ‹_›] at values
    · split at same
      · have := congrArg (fun place => place.2.length) same
        simp [pathBelow_length] at this
      · have := congrArg (fun place => place.2.length) same
        simp [pathBelow_length] at this
  · split at same
    · next isSingle =>
      split at same
      · have := congrArg (fun place => place.2.length) same
        simp [pathBelow_length] at this
      · split at same
        · next isSingle' =>
          have values := congrArg Fin.val (congrArg Prod.fst same)
          have index : ∀ number, number < 522 →
              (Fin.ofNat nAddrs (10 + (number - 10) / 256)).val =
                10 + (number - 10) / 256 := fun number small =>
            Nat.mod_eq_of_lt (by
              show 10 + (number - 10) / 256 < 13
              omega)
          simp only [index bn isSingle, index bn' isSingle'] at values
          have remainder : ∀ number, number % 256 < entryPerBlock ^ 1 :=
            fun number => Nat.mod_lt number (by decide)
          have rests := pathBelow_inj (remainder _) (remainder _)
            (congrArg Prod.snd same)
          omega
        · have := congrArg (fun place => place.2.length) same
          simp [pathBelow_length] at this
    · split at same
      · have := congrArg (fun place => place.2.length) same
        simp [pathBelow_length] at this
      · split at same
        · have := congrArg (fun place => place.2.length) same
          simp [pathBelow_length] at this
        · have power : entryPerBlock ^ 2 = 65536 := rfl
          have rests := pathBelow_inj (by omega) (by omega)
            (congrArg Prod.snd same)
          omega

/-! ## Supply of index blocks -/

/-- A place below the block numbers of an inode. -/
abbrev Node := Fin nAddrs × List ChildIndex

/-- The index blocks on the way to a numbered block. -/
def indexNodes (bn : Nat) : List Node :=
  ((placeOf bn).2.inits.filter fun way =>
    way.length < addrLevel (placeOf bn).1).map ((placeOf bn).1, ·)

/-- The number of blocks missing on the way to a numbered block when some index
blocks were added before. -/
def State.stillMissing (state : State) (inodeNum : UInt16) (made : List Node)
    (bn : Nat) : Nat :=
  ((placeOf bn).2.inits.filter fun way =>
    state.place (inodeNum, (placeOf bn).1) way = 0 ∧
      ((placeOf bn).1, way) ∉ made).length

/-- Visiting numbered blocks one after the other, each free block that becomes
an index block exists and reads as zero.  The blocks missing on the way to a
numbered block are taken from the front of the free ones, the data block
last. -/
def State.Planned (state : State) (inodeNum : UInt16) :
    (made : List Node) → (free : List Nat) → (blocks : List Nat) → Prop
  | _, _, [] => True
  | made, free, bn :: blocks =>
      (∀ k, k + 1 < state.stillMissing inodeNum made bn →
        ∃ block, free[k]? = some block ∧ Zeroed (state.disk block)) ∧
      state.Planned inodeNum (indexNodes bn ++ made)
        (free.drop (state.stillMissing inodeNum made bn)) blocks

/-- How far a transfer has come: the index blocks it added, the blocks that are
still free, and the numbered blocks still to be visited. -/
structure Follows (start state : State) (inodeNum : UInt16)
    (made : List Node) (free blocks : List Nat) : Prop where
  remaining : state.freeBlocks = free
  clean : ∀ block ∈ free, state.disk block = start.disk block
  index : ∀ k path, path.length < addrLevel k →
    (state.place (inodeNum, k) path = 0 ↔
      start.place (inodeNum, k) path = 0 ∧ (k, path) ∉ made)
  leaf : ∀ bn ∈ blocks, bn < maxBlocks →
    (state.leaf inodeNum bn = 0 ↔ start.leaf inodeNum bn = 0)
  added : ∀ k path, (k, path) ∈ made → path.length < addrLevel k

theorem mem_indexNodes {bn : Nat} {k : Fin nAddrs} {path : List ChildIndex} :
    (k, path) ∈ indexNodes bn ↔ k = (placeOf bn).1 ∧
      path <+: (placeOf bn).2 ∧ path.length < addrLevel k := by
  simp only [indexNodes, List.mem_map, List.mem_filter, List.mem_inits,
    decide_eq_true_eq, Prod.mk.injEq]
  constructor
  · rintro ⟨way, ⟨onWay, short⟩, rfl, rfl⟩
    exact ⟨rfl, onWay, short⟩
  · rintro ⟨rfl, onWay, short⟩
    exact ⟨path, ⟨onWay, short⟩, rfl, rfl⟩

namespace Follows

variable {start : State} {inodeNum : UInt16} {made : List Node}
variable {free blocks : List Nat} {bn : Nat}

theorem refl (start : State) (inodeNum : UInt16) (blocks : List Nat) :
    Follows start start inodeNum [] start.freeBlocks blocks :=
  ⟨rfl, fun _ _ => rfl, fun _ _ _ => by simp, fun _ _ _ => Iff.rfl,
    fun _ _ member => absurd member List.not_mem_nil⟩

/-- What is missing is what the plan says. -/
theorem missingTo
    (follows : Follows start state inodeNum made free (bn :: blocks))
    (bound : bn < maxBlocks) :
    state.missingTo inodeNum bn = start.stillMissing inodeNum made bn := by
  unfold State.missingTo State.stillMissing
  rw [Forest.missing_eq_length]
  congr 1
  apply List.filter_congr
  intro way onWay
  have onWay := (List.mem_inits _ _).mp onWay
  rw [decide_eq_decide]
  by_cases short : way.length < addrLevel (placeOf bn).1
  · exact follows.index _ way short
  · have whole : way = (placeOf bn).2 := by
      apply onWay.eq_of_length_le
      rw [placeOf_length]
      omega
    rw [whole] at short ⊢
    have notMade : ((placeOf bn).1, (placeOf bn).2) ∉ made := fun member =>
      short (follows.added _ _ member)
    have leaf := follows.leaf bn List.mem_cons_self bound
    simp only [notMade, not_false_eq_true, and_true]
    exact leaf

theorem supplies
    (follows : Follows start state inodeNum made free (bn :: blocks))
    (bound : bn < maxBlocks)
    (planned : start.Planned inodeNum made free (bn :: blocks)) :
    state.Supplies (state.missingTo inodeNum bn) := by
  intro k few
  rw [follows.missingTo bound] at few
  obtain ⟨block, isFree, zeroed⟩ := planned.1 k few
  refine ⟨block, by rw [follows.remaining]; exact isFree, ?_⟩
  rw [follows.clean block (List.mem_of_getElem? isFree)]
  exact zeroed

/-- Visiting a numbered block and writing to it. -/
theorem step
    {middle : State} {ip : Slot}
    (follows : Follows start state (state.icache ip).inodeNum made free
      (bn :: blocks))
    (bound : bn < maxBlocks) (fresh : bn ∉ blocks)
    (extended : Extended state middle ip (placeOf bn).1 (placeOf bn).2)
    (places : ∀ root path, path.length ≤ rootHeight root →
      final.place root path = middle.place root path)
    (disk : ∀ index, 1 ≤ index → index ≠ diskIndex
        (middle.leaf (state.icache ip).inodeNum bn) →
      final.disk index = middle.disk index) :
    Follows start final (state.icache ip).inodeNum (indexNodes bn ++ made)
      (free.drop (start.stillMissing (state.icache ip).inodeNum made bn))
      blocks := by
  have whole := placeOf_length bn
  have leafMarked : middle.leaf (state.icache ip).inodeNum bn ≠ 0 →
      middle.Marked (middle.leaf (state.icache ip).inodeNum bn) :=
    fun present => extended.sound.marked_place whole.le present
  have bitmap : final.disk 130 = middle.disk 130 := by
    apply disk 130 (by decide)
    intro same
    by_cases absent : middle.leaf (state.icache ip).inodeNum bn = 0
    · rw [absent, diskIndex_zero] at same
      cases same
    · exact (leafMarked absent).diskIndex_ne (by decide) same.symm
  have missing := follows.missingTo bound
  unfold State.missingTo at missing
  have sameFree : final.freeBlocks = free.drop
      (start.stillMissing (state.icache ip).inodeNum made bn) := by
    rw [State.freeBlocks_congr bitmap, extended.free, missing, follows.remaining]
  refine ⟨sameFree, ?_, ?_, ?_, ?_⟩
  · intro block member
    have inFree : block ∈ middle.freeBlocks := by
      rw [← State.freeBlocks_congr bitmap, sameFree]
      exact member
    have low := (State.mem_freeBlocks.mp inFree).1
    have notMarked : ∀ other : UInt32, middle.Marked other →
        diskIndex other ≠ block := by
      intro other marked same
      rw [marked.diskIndex_eq] at same
      exact State.not_marked_of_mem_freeBlocks (same ▸ inFree) marked
    rw [disk block (by omega), extended.disk block (by omega),
      follows.clean block (List.mem_of_mem_drop member)]
    · intro path onPath short
      exact notMarked _ (extended.sound.marked_place (Nat.le_of_lt short)
        (extended.index path onPath short))
    · intro same
      by_cases absent : middle.leaf (state.icache ip).inodeNum bn = 0
      · rw [absent, diskIndex_zero] at same
        omega
      · exact notMarked _ (leafMarked absent) same.symm
  · intro k path short
    rw [places ((state.icache ip).inodeNum, k) path (Nat.le_of_lt short),
      List.mem_append, mem_indexNodes]
    have before := follows.index k path short
    have kept := extended.kept ((state.icache ip).inodeNum, k) path
      (Nat.le_of_lt short)
    by_cases onWay : k = (placeOf bn).1 ∧ path <+: (placeOf bn).2
    · obtain ⟨rfl, onPath⟩ := onWay
      have present := extended.index path onPath short
      simp only [onPath, short, true_and, true_or, not_true_eq_false,
        and_false, iff_false]
      exact present
    · rcases kept with same | ⟨sameRoot, onPath, _⟩
      · rw [same, before]
        constructor
        · rintro ⟨absent, notMade⟩
          exact ⟨absent, fun member => member.elim
            (fun node => onWay ⟨node.1, node.2.1⟩) notMade⟩
        · rintro ⟨absent, notMade⟩
          exact ⟨absent, fun member => notMade (Or.inr member)⟩
      · exact absurd ⟨congrArg Prod.snd sameRoot, onPath⟩ onWay
  · intro other member otherBound
    have before := follows.leaf other (List.mem_cons_of_mem _ member)
      otherBound
    have same : final.leaf (state.icache ip).inodeNum other =
        state.leaf (state.icache ip).inodeNum other := by
      unfold State.leaf
      rw [places _ _ (placeOf_length other).le]
      rcases extended.kept ((state.icache ip).inodeNum, (placeOf other).1)
        (placeOf other).2 (placeOf_length other).le with
        same | ⟨sameRoot, onPath, _⟩
      · exact same
      · have sameIndex : (placeOf other).1 = (placeOf bn).1 :=
          congrArg Prod.snd sameRoot
        have samePath : (placeOf other).2 = (placeOf bn).2 := by
          apply onPath.eq_of_length
          rw [placeOf_length, placeOf_length, sameIndex]
        have equal := placeOf_inj otherBound bound
          (Prod.ext sameIndex samePath)
        rw [equal] at member
        exact absurd member fresh
    rw [same]
    exact before
  · intro k path member
    rcases List.mem_append.mp member with new | old
    · exact (mem_indexNodes.mp new).2.2
    · exact follows.added k path old

end Follows

/-! ## The loops -/

/-- The next position of a transfer after a piece. -/
theorem transfer_advances
    {offset len total : UInt32} (more : total < len)
    (noWrap : offset.toNat + piece offset.toNat (len.toNat - total.toNat) <
      2 ^ 32) :
    blocksOf offset.toNat (len.toNat - total.toNat) = offset.toNat / 1024 ::
      blocksOf (offset + pieceLength offset len total).toNat
        (len.toNat - (total + pieceLength offset len total).toNat) ∧
    (offset + pieceLength offset len total).toNat = offset.toNat +
      piece offset.toNat (len.toNat - total.toNat) ∧
    (total + pieceLength offset len total).toNat = total.toNat +
      piece offset.toNat (len.toNat - total.toNat) := by
  have length : (pieceLength offset len total).toNat =
      piece offset.toNat (len.toNat - total.toNat) := pieceLength_toNat more
  have more' := UInt32.lt_iff_toNat_lt.mp more
  have small := len.toNat_lt
  have fits : piece offset.toNat (len.toNat - total.toNat) ≤
      len.toNat - total.toNat := Nat.min_le_right _ _
  have next : (offset + pieceLength offset len total).toNat = offset.toNat +
      piece offset.toNat (len.toNat - total.toNat) := by
    rw [UInt32.toNat_add, length]
    exact Nat.mod_eq_of_lt noWrap
  have next' : (total + pieceLength offset len total).toNat = total.toNat +
      piece offset.toNat (len.toNat - total.toNat) := by
    rw [UInt32.toNat_add, length]
    exact Nat.mod_eq_of_lt (by omega)
  refine ⟨?_, next, next'⟩
  rw [next, next', blocksOf_cons (by omega), Nat.sub_sub]

theorem transfer_next
    {offset len total : UInt32} (more : total < len)
    (bound : offset.toNat / 1024 < maxBlocks) :
    blocksOf offset.toNat (len.toNat - total.toNat) = offset.toNat / 1024 ::
      blocksOf (offset + pieceLength offset len total).toNat
        (len.toNat - (total + pieceLength offset len total).toNat) ∧
    (offset + pieceLength offset len total).toNat = offset.toNat +
      piece offset.toNat (len.toNat - total.toNat) ∧
    (total + pieceLength offset len total).toNat = total.toNat +
      piece offset.toNat (len.toNat - total.toNat) := by
  have size : maxBlocks = 66058 := rfl
  have fits : piece offset.toNat (len.toNat - total.toNat) ≤ 1024 := by
    unfold piece
    omega
  exact transfer_advances more (by omega)

/-- The blocks of a transfer after the first. -/
theorem transfer_split
    {offset len total : UInt32} {blocks : List Nat} (more : total < len)
    (bound : offset.toNat / 1024 < maxBlocks)
    (here : blocksOf offset.toNat (len.toNat - total.toNat) = blocks) :
    ∃ rest, blocks = offset.toNat / 1024 :: rest ∧
      offset.toNat / 1024 ∉ rest ∧
      blocksOf (offset + pieceLength offset len total).toNat
        (len.toNat - (total + pieceLength offset len total).toNat) = rest := by
  have split := (transfer_next more bound).1
  have nodup := blocksOf_nodup offset.toNat (len.toNat - total.toNat)
  rw [split] at nodup
  exact ⟨_, here.symm.trans split, (List.nodup_cons.mp nodup).1, rfl⟩

/-- The number of a block in a 32-bit transfer. -/
theorem blockNumber_toNat (offset : UInt32) :
    (offset / 1024).toNat = offset.toNat / 1024 :=
  UInt32.toNat_div _ _

section Loops

variable {start : State} {ip : Slot} {offset len total : UInt32}
variable {made : List Node} {free blocks : List Nat}

/-- One step of a transfer: find a block and, if it is written, write it. -/
theorem Follows.visit
    {ret : UInt32} {middle : State}
    (sound : Sound state)
    (used : (state.icache ip).inodeNum ≠ inodeNumUnused)
    (valid : (state.icache ip).valid = true)
    (fresh : offset.toNat / 1024 ∉ blocks)
    (follows : Follows start state (state.icache ip).inodeNum made free
      (offset.toNat / 1024 :: blocks))
    (planned : start.Planned (state.icache ip).inodeNum made free
      (offset.toNat / 1024 :: blocks))
    (locate : (inodeLocateBlock ip (offset / 1024)).Runs state ret middle)
    (written : final = middle ∨
      ∃ data, final = middle.setDisk (diskIndex ret) data) :
    Transferred state final ip ∧ ∃ made' free',
      Follows start final (final.icache ip).inodeNum made' free' blocks ∧
      start.Planned (final.icache ip).inodeNum made' free' blocks := by
  have bound := inodeLocateBlock_bound locate
  rw [blockNumber_toNat] at bound
  have supplies := follows.supplies bound planned
  rw [← blockNumber_toNat] at supplies
  obtain ⟨extended, rfl⟩ := inodeLocateBlock_extended sound used valid
    supplies locate
  rw [blockNumber_toNat] at extended written
  have whole := placeOf_length (offset.toNat / 1024)
  have located := extended.transferred sound
  have number := located.inodeNum
  have result : Transferred middle final ip ∧
      (∀ root path, path.length ≤ rootHeight root →
        final.place root path = middle.place root path) ∧
      ∀ index, 1 ≤ index → index ≠ diskIndex
          (middle.leaf (state.icache ip).inodeNum (offset.toNat / 1024)) →
        final.disk index = middle.disk index := by
    rcases written with rfl | ⟨data, rfl⟩
    · exact ⟨Transferred.refl extended.sound, fun _ _ _ => rfl,
        fun _ _ _ => rfl⟩
    · rw [← number]
      refine ⟨extended.sound.writeLeaf_transferred _ whole data,
        (extended.sound.writeLeaf _ whole data).2.1,
        fun index _ differs => Function.update_of_ne differs _ _⟩
  obtain ⟨transferred, places, disk⟩ := result
  refine ⟨located.trans transferred, indexNodes (offset.toNat / 1024) ++ made,
    free.drop (start.stillMissing (state.icache ip).inodeNum made
      (offset.toNat / 1024)), ?_, ?_⟩
  · rw [transferred.inodeNum, number]
    exact follows.step bound fresh extended places disk
  · rw [transferred.inodeNum, number]
    exact planned.2

theorem writeLoop_transferred
    {src : Bytes} {fuel : Nat} {result : UInt32 × UInt32}
    (sound : Sound state)
    (used : (state.icache ip).inodeNum ≠ inodeNumUnused)
    (valid : (state.icache ip).valid = true)
    (here : blocksOf offset.toNat (len.toNat - total.toNat) = blocks)
    (follows : Follows start state (state.icache ip).inodeNum made free blocks)
    (planned : start.Planned (state.icache ip).inodeNum made free blocks)
    (run : (writeLoop ip offset len total src fuel).Runs state result final) :
    Transferred state final ip := by
  induction fuel generalizing state offset total made free
    blocks with
  | zero =>
      simp only [writeLoop, Program.runs_pure] at run
      rw [← run.2]
      exact Transferred.refl sound
  | succ fuel inductionHypothesis =>
      simp only [writeLoop] at run
      split at run
      · next more =>
        simp only [Program.runs_bind] at run
        obtain ⟨blockNum, middle, locate, data, _, read, _, _, write, _, next,
          release, run⟩ := run
        obtain ⟨_, _, rfl, rfl⟩ := bufRead_runs read
        have bound := inodeLocateBlock_bound locate
        rw [blockNumber_toNat] at bound
        obtain ⟨rest, rfl, fresh, here'⟩ := transfer_split more bound here
        obtain ⟨visited, made', free', follows', planned'⟩ := follows.visit
          sound used valid fresh planned locate
          (Or.inr ⟨_, bufRelease_after_write write release⟩)
        exact visited.trans (inductionHypothesis visited.sound
          (by rwa [visited.inodeNum]) (visited.valid.trans valid) here'
          follows' planned' run)
      · rw [Program.runs_pure] at run
        rw [← run.2]
        exact Transferred.refl sound

theorem readLoop_transferred
    {dst result : List UInt8} {fuel : Nat}
    (sound : Sound state)
    (used : (state.icache ip).inodeNum ≠ inodeNumUnused)
    (valid : (state.icache ip).valid = true)
    (here : blocksOf offset.toNat (len.toNat - total.toNat) = blocks)
    (follows : Follows start state (state.icache ip).inodeNum made free blocks)
    (planned : start.Planned (state.icache ip).inodeNum made free blocks)
    (run : (readLoop ip offset len total dst fuel).Runs state result final) :
    Transferred state final ip := by
  induction fuel generalizing state offset total made free dst
    blocks with
  | zero =>
      simp only [readLoop, Program.runs_pure] at run
      rw [← run.2]
      exact Transferred.refl sound
  | succ fuel inductionHypothesis =>
      simp only [readLoop] at run
      split at run
      · next more =>
        simp only [Program.runs_bind] at run
        obtain ⟨blockNum, middle, locate, data, _, read, _, next, release,
          run⟩ := run
        obtain ⟨_, _, rfl, rfl⟩ := bufRead_runs read
        have bound := inodeLocateBlock_bound locate
        rw [blockNumber_toNat] at bound
        obtain ⟨rest, rfl, fresh, here'⟩ := transfer_split more bound here
        obtain ⟨visited, made', free', follows', planned'⟩ := follows.visit
          sound used valid fresh planned locate
          (Or.inl (bufRelease_after_read release))
        exact visited.trans (inductionHypothesis visited.sound
          (by rwa [visited.inodeNum]) (visited.valid.trans valid) here'
          follows' planned' run)
      · rw [Program.runs_pure] at run
        rw [← run.2]
        exact Transferred.refl sound

end Loops

/-! ## Transfers -/

/-- The length of a read after it was cut at the end of the data. -/
def readLength (size offset len : UInt32) : UInt32 :=
  if offset ≥ size then 0
  else if offset + len > size then size - offset else len

/-- The free blocks that become index blocks in a transfer exist and read as
zero. -/
def State.TransferSupplied (state : State) (inodeNum : UInt16)
    (offset len : Nat) : Prop :=
  state.Planned inodeNum [] state.freeBlocks (blocksOf offset len)

theorem inodeReadData_transferred
    {ip : Slot} {offset len : UInt32} {result : List UInt8}
    (sound : Sound state)
    (used : (state.icache ip).inodeNum ≠ inodeNumUnused)
    (valid : (state.icache ip).valid = true)
    (supplied : state.TransferSupplied (state.icache ip).inodeNum
      offset.toNat (readLength (state.icache ip).data.size offset len).toNat)
    (run : (inodeReadData ip offset len).Runs state result final) :
    Transferred state final ip := by
  simp only [inodeReadData, Program.runs_bind, runs_getInode,
    Program.runs_assert] at run
  obtain ⟨_, _, ⟨rfl, rfl⟩, _, _, ⟨_, rfl⟩, run⟩ := run
  unfold readLength at supplied
  split at run
  · rw [Program.runs_pure] at run
    rw [← run.2]
    exact Transferred.refl sound
  · next inside =>
    rw [if_neg inside] at supplied
    exact readLoop_transferred sound used valid
      (by rw [UInt32.toNat_zero, Nat.sub_zero]) (Follows.refl _ _ _) supplied
      run

/-- A write transfers its data and then stores the inode if its size grew. -/
theorem inodeWriteData_runs
    {ip : Slot} {offset len result : UInt32} {src : Bytes}
    (run : (inodeWriteData ip offset len src).Runs state result final) :
    ((offset + len).toNat > inodeMaxSize ∧ result = 0 ∧ final = state) ∨
    ((offset + len).toNat ≤ inodeMaxSize ∧ ∃ finish middle,
      (writeLoop ip offset len 0 src len.toNat).Runs state (finish, result)
        middle ∧
      if finish > (middle.icache ip).data.size then
        final = middle.storeData ip
          ((middle.icache ip).data.setSize finish)
      else final = middle) := by
  simp only [inodeWriteData, Program.runs_bind, runs_getInode,
    Program.runs_assert] at run
  obtain ⟨_, _, ⟨rfl, rfl⟩, _, _, ⟨_, rfl⟩, run⟩ := run
  split at run
  · next large =>
    rw [Program.runs_pure] at run
    exact Or.inl ⟨large, run.1.symm, run.2.symm⟩
  · next fits =>
    simp only [Program.runs_bind, runs_getInode] at run
    obtain ⟨⟨finish, total⟩, middle, loop, _, _, ⟨rfl, rfl⟩, run⟩ := run
    refine Or.inr ⟨not_lt.mp fits, finish, middle, ?_⟩
    split at run
    · next grown =>
      simp only [Program.runs_bind, runs_modifyData, Program.runs_pure] at run
      obtain ⟨_, _, rfl, _, _, write, rfl, rfl⟩ := run
      obtain ⟨_, rfl⟩ := inodeRw_write_stores write
      refine ⟨loop, ?_⟩
      rw [if_pos grown, setData_icache_self]
      rfl
    · next kept =>
      rw [Program.runs_pure] at run
      obtain ⟨rfl, rfl⟩ := run
      refine ⟨loop, ?_⟩
      rw [if_neg kept]

theorem inodeWriteData_sound
    {ip : Slot} {offset len result : UInt32} {src : Bytes}
    (sound : Sound state)
    (used : (state.icache ip).inodeNum ≠ inodeNumUnused)
    (valid : (state.icache ip).valid = true)
    (supplied : (offset + len).toNat ≤ inodeMaxSize →
      state.TransferSupplied (state.icache ip).inodeNum offset.toNat
        len.toNat)
    (run : (inodeWriteData ip offset len src).Runs state result final) :
    ∃ middle, Transferred state middle ip ∧ (final = middle ∨ ∃ size,
      final = middle.storeData ip ((middle.icache ip).data.setSize size)) := by
  rcases inodeWriteData_runs run with
    ⟨_, _, rfl⟩ | ⟨fits, finish, middle, loop, outcome⟩
  · exact ⟨_, Transferred.refl sound, Or.inl rfl⟩
  · refine ⟨middle, ?_, ?_⟩
    · exact writeLoop_transferred sound used valid
        (by rw [UInt32.toNat_zero, Nat.sub_zero]) (Follows.refl _ _ _)
        (supplied fits) loop
    · split at outcome
      · exact Or.inr ⟨finish, outcome⟩
      · exact Or.inl outcome

end Fs
end WhuOs
