import WhuOs.Mem.Pmem

/-!
# Entries of page tables

The macros of `vmem.h` as arithmetic, and what reads and writes of memory do to
the entries of aligned tables and to the free lists.
-/

namespace WhuOs
namespace Mem

open Library
open Library.Bytes
open Program (Runs)

/-! ## Macros -/

theorem vaToVpn_toNat (va : UInt64) {level : Nat} (bound : level ≤ 2) :
    (vaToVpn va level).toNat = va.toNat / 2 ^ (12 + 9 * level) % 512 := by
  have mask : (0x1FF : UInt64).toNat = 2 ^ 9 - 1 := rfl
  unfold vaToVpn
  rw [UInt64.toNat_and, UInt64.toNat_shiftRight, mask,
    Nat.and_two_pow_sub_one_eq_mod, Nat.shiftRight_eq_div_pow,
    UInt64.toNat_ofNat']
  interval_cases level <;> rfl

theorem paToPte_toNat (pa : UInt64) :
    (paToPte pa).toNat = pa.toNat / 4096 * 1024 := by
  have bound := pa.toNat_lt
  have twelve : (12 : UInt64).toNat % 64 = 12 := rfl
  have ten : (10 : UInt64).toNat % 64 = 10 := rfl
  unfold paToPte
  rw [UInt64.toNat_shiftLeft, UInt64.toNat_shiftRight, twelve, ten,
    Nat.shiftRight_eq_div_pow, Nat.shiftLeft_eq, Nat.mod_eq_of_lt]
  · omega

theorem pteToPa_toNat (pte : UInt64) :
    (pteToPa pte).toNat = pte.toNat / 1024 * 4096 % 2 ^ 64 := by
  have twelve : (12 : UInt64).toNat % 64 = 12 := rfl
  have ten : (10 : UInt64).toNat % 64 = 10 := rfl
  unfold pteToPa
  rw [UInt64.toNat_shiftLeft, UInt64.toNat_shiftRight, twelve, ten,
    Nat.shiftRight_eq_div_pow, Nat.shiftLeft_eq]

/-- Every address in an entry is the start of a page. -/
theorem aligned_pteToPa (pte : UInt64) : Aligned (pteToPa pte) := by
  unfold Aligned
  rw [pteToPa_toNat]
  omega

/-- An entry that is stored for a physical page. -/
def leafPte (pa perm : UInt64) : UInt64 := paToPte pa ||| perm ||| pteV

theorem leafPte_toNat
    {pa perm : UInt64} (flags : perm.toNat < 1024) :
    (leafPte pa perm).toNat =
      pa.toNat / 4096 * 1024 + (perm ||| pteV).toNat := by
  have low : (perm ||| pteV).toNat < 2 ^ 10 := by
    rw [UInt64.toNat_or]
    exact Nat.or_lt_two_pow flags (by decide)
  have shifted : pa.toNat / 4096 * 1024 = (pa.toNat / 4096) <<< 10 := by
    rw [Nat.shiftLeft_eq]
  unfold leafPte
  rw [UInt64.or_assoc, UInt64.toNat_or, paToPte_toNat, shifted,
    Nat.shiftLeft_add_eq_or_of_lt low]

theorem pteToPa_leafPte
    {pa perm : UInt64} (aligned : Aligned pa) (flags : perm.toNat < 1024) :
    pteToPa (leafPte pa perm) = pa := by
  have low : (perm ||| pteV).toNat < 2 ^ 10 := by
    rw [UInt64.toNat_or]
    exact Nat.or_lt_two_pow flags (by decide)
  have bound := pa.toNat_lt
  unfold Aligned at aligned
  apply UInt64.toNat_inj.mp
  rw [pteToPa_toNat, leafPte_toNat flags]
  omega

theorem pteFlags_leafPte
    {pa perm : UInt64} (flags : perm.toNat < 1024) :
    pteFlags (leafPte pa perm) = perm ||| pteV := by
  have low : (perm ||| pteV).toNat < 2 ^ 10 := by
    rw [UInt64.toNat_or]
    exact Nat.or_lt_two_pow flags (by decide)
  have mask : (0x3FF : UInt64).toNat = 2 ^ 10 - 1 := rfl
  apply UInt64.toNat_inj.mp
  unfold pteFlags
  rw [UInt64.toNat_and, mask, Nat.and_two_pow_sub_one_eq_mod,
    leafPte_toNat flags]
  omega

theorem isValid_iff (pte : UInt64) :
    isValid pte = pte.toNat.testBit 0 := by
  have one : pteV.toNat = 1 := rfl
  have bit : (pte &&& pteV).toNat = pte.toNat % 2 := by
    rw [UInt64.toNat_and, one, Nat.and_one_is_mod]
  have zero : pte &&& pteV = 0 ↔ pte.toNat % 2 = 0 := by
    rw [← bit]
    exact UInt64.toNat_inj.symm
  unfold isValid
  rw [Nat.testBit_zero]
  simp only [ne_eq, zero, decide_not]
  rcases Nat.mod_two_eq_zero_or_one pte.toNat with even | odd
  · simp [even]
  · simp [odd]

theorem isValid_or (pte other : UInt64) : isValid (pte ||| other) =
    (isValid pte || isValid other) := by
  rw [isValid_iff, isValid_iff, isValid_iff, UInt64.toNat_or, Nat.testBit_or]

theorem isValid_leafPte (pa perm : UInt64) :
    isValid (leafPte pa perm) = true := by
  have valid : isValid pteV = true := by decide
  unfold leafPte
  rw [isValid_or, valid, Bool.or_true]

theorem not_isValid_zero : isValid 0 = false := by decide

/-- An entry for a table. -/
theorem leafPte_zero (pa : UInt64) : leafPte pa 0 = paToPte pa ||| pteV := by
  unfold leafPte
  rw [UInt64.or_zero]

theorem pteCheck_leafPte_zero (pa : UInt64) :
    pteCheck (leafPte pa 0) = true := by
  have noFlags : (0 : UInt64).toNat < 1024 := by decide
  have flags : pteFlags (leafPte pa 0) = 0 ||| pteV :=
    pteFlags_leafPte noFlags
  have mask : pteR ||| pteW ||| pteX = 0x3FF &&& (pteR ||| pteW ||| pteX) := by
    decide
  unfold pteFlags at flags
  unfold pteCheck
  rw [mask, ← UInt64.and_assoc, flags]
  decide

theorem and_not_mask (number : Nat) (bound : number < 2 ^ 64) :
    number &&& (2 ^ 64 - 4096) = number / 4096 * 4096 := by
  have mask : 2 ^ 64 - 4096 = 2 ^ 64 - (2 ^ 12 - 1 + 1) := rfl
  have shifted : number / 4096 * 4096 = (number >>> 12) <<< 12 := by
    rw [Nat.shiftLeft_eq, Nat.shiftRight_eq_div_pow]
  rw [shifted, mask]
  apply Nat.eq_of_testBit_eq
  intro bit
  rw [Nat.testBit_and, Nat.testBit_two_pow_sub_succ (by decide),
    Nat.testBit_two_pow_sub_one, Nat.testBit_shiftLeft, Nat.testBit_shiftRight]
  by_cases low : bit < 12
  · simp [low, Nat.not_le_of_lt low]
  · have above : 12 ≤ bit := Nat.le_of_not_lt low
    rw [Nat.add_sub_cancel' above]
    by_cases inside : bit < 64
    · simp [low, above, inside]
    · have high : number.testBit bit = false :=
        Nat.testBit_lt_two_pow (Nat.lt_of_lt_of_le bound
          (Nat.pow_le_pow_right (by decide) (Nat.le_of_not_lt inside)))
      simp [high]

theorem pageAlign_toNat
    {address : UInt64} (room : address.toNat + 4095 < 2 ^ 64) :
    (pageAlign address).toNat = (address.toNat + 4095) / 4096 * 4096 := by
  have mask : (~~~(4095 : UInt64)).toNat = 2 ^ 64 - 4096 := rfl
  have size : (4095 : UInt64).toNat = 4095 := rfl
  unfold pageAlign
  rw [UInt64.toNat_and, mask, and_not_mask _ (UInt64.toNat_lt _),
    UInt64.toNat_add, size, Nat.mod_eq_of_lt room]

theorem aligned_pageAlign (address : UInt64) : Aligned (pageAlign address) := by
  have mask : (~~~(4095 : UInt64)).toNat = 2 ^ 64 - 4096 := rfl
  unfold pageAlign Aligned
  rw [UInt64.toNat_and, mask, and_not_mask _ (UInt64.toNat_lt _)]
  exact Nat.mul_mod_left _ _

/-! ## Entries -/

/-- The entry of a table. -/
def entryOf (bytes : Bytes) (table : UInt64) (index : Fin 512) : UInt64 :=
  read64 bytes (table.toNat + 8 * index)

theorem Aligned.room {page : UInt64} (aligned : Aligned page) :
    page.toNat + 4096 ≤ 2 ^ 64 := by
  have bound := page.toNat_lt
  unfold Aligned at aligned
  omega

theorem entryAddress_toNat
    {table index : UInt64} (aligned : Aligned table)
    (bound : index.toNat < 512) :
    (entryAddress table index).toNat = table.toNat + 8 * index.toNat := by
  have room := aligned.room
  have eight : (8 : UInt64).toNat = 8 := rfl
  unfold entryAddress
  rw [UInt64.toNat_add, UInt64.toNat_mul, eight, Nat.mod_eq_of_lt,
    Nat.mod_eq_of_lt]
  · omega
  · rw [Nat.mod_eq_of_lt]
    · omega
    · omega

/-- Pages that differ are disjoint. -/
theorem Aligned.apart
    {page page' : UInt64} (aligned : Aligned page) (aligned' : Aligned page')
    (differs : page ≠ page') :
    page.toNat + 4096 ≤ page'.toNat ∨ page'.toNat + 4096 ≤ page.toNat := by
  have notSame : page.toNat ≠ page'.toNat := fun same =>
    differs (UInt64.toNat_inj.mp same)
  unfold Aligned at aligned aligned'
  omega

/-- Memory that changed in one page only. -/
def ChangedIn (page : UInt64) (bytes bytes' : Bytes) : Prop :=
  ∀ address, ¬InPage address page → bytes' address = bytes address

theorem changedIn_memmove
    {page : UInt64} {bytes source : Bytes} {address length : Nat}
    (low : page.toNat ≤ address) (high : address + length ≤ page.toNat + 4096) :
    ChangedIn page bytes (memmove bytes address source length) := by
  intro other outside
  apply memmove_of_not_mem
  unfold InPage at outside
  omega

theorem changedIn_store
    {table value : UInt64} {index : Fin 512} {bytes : Bytes} :
    ChangedIn table bytes
      (write64 bytes (table.toNat + 8 * index) value) := by
  have bound := index.isLt
  exact changedIn_memmove (by omega) (by omega)

theorem entryOf_of_ne
    {page table : UInt64} {bytes bytes' : Bytes}
    (changed : ChangedIn page bytes bytes') (aligned : Aligned page)
    (aligned' : Aligned table) (differs : table ≠ page) (index : Fin 512) :
    entryOf bytes' table index = entryOf bytes table index := by
  apply read64_congr
  intro offset bound
  apply changed
  have small := index.isLt
  have apart := aligned'.apart aligned differs
  unfold InPage
  omega

theorem entryOf_store_self
    (bytes : Bytes) (table value : UInt64) (index : Fin 512) :
    entryOf (write64 bytes (table.toNat + 8 * index) value) table index =
      value :=
  read64_write64 _ _ _

theorem entryOf_store_of_ne
    (bytes : Bytes) (table value : UInt64) {index other : Fin 512}
    (differs : other ≠ index) :
    entryOf (write64 bytes (table.toNat + 8 * index) value) table other =
      entryOf bytes table other := by
  apply read64_memmove_of_disjoint
  have notSame : other.val ≠ index.val := fun same =>
    differs (Fin.val_injective same)
  omega

/-- A page of zeros. -/
def clearedBytes (bytes : Bytes) (page : UInt64) : Bytes :=
  memmove bytes page.toNat (fun _ => 0) 4096

theorem changedIn_cleared (bytes : Bytes) (page : UInt64) :
    ChangedIn page bytes (clearedBytes bytes page) :=
  changedIn_memmove (Nat.le_refl _) (Nat.le_refl _)

/-- A page of zeros has empty entries. -/
theorem entryOf_of_zero
    {bytes : Bytes} {page : UInt64}
    (zero : ∀ offset < 4096, bytes (page.toNat + offset) = 0)
    (index : Fin 512) : entryOf bytes page index = 0 := by
  apply read64_of_byteOf
  intro offset bound
  have small := index.isLt
  rw [Nat.add_assoc, zero _ (by omega)]
  interval_cases offset <;> rfl

theorem entryOf_cleared (bytes : Bytes) (page : UInt64) (index : Fin 512) :
    entryOf (clearedBytes bytes page) page index = 0 := by
  refine entryOf_of_zero (fun offset bound => ?_) index
  unfold clearedBytes
  exact memmove_of_mem _ _ (by omega)

/-! ## Free lists -/

/-- Lists of distinct free pages, one for each region. -/
structure FreeLists (mem : State) (free : Bool → List UInt64) : Prop where
  linked : ∀ inKernel,
    Linked 0 mem.next (mem.region inKernel).listHead (free inKernel)
  counted : ∀ inKernel,
    (free inKernel).length = (mem.region inKernel).allocable.toNat
  nodup : ∀ inKernel, (free inKernel).Nodup
  unique : ∀ inKernel other page, page ∈ free inKernel →
    page ∈ free other → other = inKernel
  aligned : ∀ inKernel, ∀ page ∈ free inKernel, Aligned page

/-- A check of a list, for a type with as many values as that of the words. -/
theorem forall_of_all
    {pages : List UInt64} {property : UInt64 → Prop} [DecidablePred property]
    (checked : pages.all (fun page => decide (property page)) = true) :
    ∀ page ∈ pages, property page := fun page member =>
  of_decide_eq_true (List.all_eq_true.mp checked page member)

/-- The lists of two regions are disjoint if no page of one is on the other. -/
theorem unique_of_all
    {free : Bool → List UInt64}
    (apart : (free true).all (fun page => decide (page ∉ free false)) = true)
    (inKernel other : Bool) (page : UInt64) (isIn : page ∈ free inKernel)
    (isIn' : page ∈ free other) : other = inKernel := by
  have notBoth : ∀ page ∈ free true, page ∉ free false := forall_of_all apart
  cases inKernel <;> cases other
  · rfl
  · exact absurd isIn (notBoth page isIn')
  · exact absurd isIn' (notBoth page isIn)
  · rfl

/-- A page that is on no free list. -/
structure Taken (free : Bool → List UInt64) (page : UInt64) : Prop where
  aligned : Aligned page
  notFree : ∀ inKernel, page ∉ free inKernel

/-- A page that the list of a region leads to. -/
def OnFreeList (mem : State) (inKernel : Bool) (page : UInt64) : Prop :=
  ∃ nodes, Linked 0 mem.next (mem.region inKernel).listHead nodes ∧
    page ∈ nodes

namespace FreeLists

variable {mem : State} {free : Bool → List UInt64}

theorem onFreeList_iff
    (lists : FreeLists mem free) {inKernel : Bool} {page : UInt64} :
    OnFreeList mem inKernel page ↔ page ∈ free inKernel := by
  constructor
  · rintro ⟨nodes, linked, member⟩
    rw [← linked.eq_of_linked (lists.linked inKernel)]
    exact member
  · exact fun member => ⟨free inKernel, lists.linked inKernel, member⟩

theorem ne_null
    (lists : FreeLists mem free) {inKernel : Bool} {page : UInt64}
    (member : page ∈ free inKernel) : page ≠ 0 :=
  (lists.linked inKernel).ne_null member

/-- A write to a page that is not free keeps the lists. -/
theorem setBytes
    (lists : FreeLists mem free) {page : UInt64} {bytes : Bytes}
    (taken : Taken free page) (changed : ChangedIn page mem.bytes bytes) :
    FreeLists (mem.setBytes bytes) free := by
  refine ⟨fun inKernel => ?_, lists.counted, lists.nodup, lists.unique,
    lists.aligned⟩
  refine (lists.linked inKernel).congr fun node member => ?_
  have differs : node ≠ page := by
    rintro rfl
    exact taken.notFree inKernel member
  have kept := entryOf_of_ne changed taken.aligned (lists.aligned inKernel node
    member) differs 0
  unfold entryOf at kept
  exact kept

theorem mem_of_mem_rest
    {inKernel other : Bool} {page node : UInt64} {rest : List UInt64}
    (isFree : free inKernel = page :: rest)
    (member : node ∈ Function.update free inKernel rest other) :
    node ∈ free other := by
  by_cases same : other = inKernel
  · subst same
    rw [Function.update_self] at member
    rw [isFree]
    exact List.mem_cons_of_mem _ member
  · rwa [Function.update_of_ne same] at member

/-- A page is taken from a list. -/
theorem alloc
    (lists : FreeLists mem free) {inKernel : Bool} {page : UInt64}
    {rest : List UInt64} (isFree : free inKernel = page :: rest) :
    ∃ region, (pmemAlloc inKernel).Runs mem page
        (mem.setRegion inKernel region) ∧
      FreeLists (mem.setRegion inKernel region)
        (Function.update free inKernel rest) := by
  have linked := lists.linked inKernel
  have counted := lists.counted inKernel
  rw [isFree] at linked counted
  obtain ⟨isHead, notNull, tail⟩ := linked
  rw [List.length_cons] at counted
  have some : (mem.region inKernel).allocable ≠ 0 := by
    intro none
    rw [none] at counted
    cases counted
  refine ⟨_, pmemAlloc_runs.mpr (Or.inr ⟨some, isHead.symm, rfl⟩),
    fun other => ?_, fun other => ?_, fun other => ?_,
    fun first second node member member' => lists.unique first second node
      (mem_of_mem_rest isFree member) (mem_of_mem_rest isFree member'),
    fun other node member =>
      lists.aligned other node (mem_of_mem_rest isFree member)⟩
  · rw [setRegion_next]
    by_cases same : other = inKernel
    · subst same
      rw [setRegion_region_self, Function.update_self]
      exact tail
    · rw [setRegion_region_of_ne same, Function.update_of_ne same]
      exact lists.linked other
  · by_cases same : other = inKernel
    · subst same
      have less := toNat_sub_one some
      rw [setRegion_region_self, Function.update_self]
      show rest.length = ((mem.region other).allocable - 1).toNat
      omega
    · rw [setRegion_region_of_ne same, Function.update_of_ne same]
      exact lists.counted other
  · have nodup := lists.nodup other
    by_cases same : other = inKernel
    · subst same
      rw [isFree] at nodup
      rw [Function.update_self]
      exact (List.nodup_cons.mp nodup).2
    · rw [Function.update_of_ne same]
      exact nodup

/-- The page that is taken is on no list any more. -/
theorem taken_alloc
    (lists : FreeLists mem free) {inKernel : Bool} {page : UInt64}
    {rest : List UInt64} (isFree : free inKernel = page :: rest) :
    Taken (Function.update free inKernel rest) page := by
  refine ⟨lists.aligned inKernel page (by rw [isFree]; exact
    List.mem_cons_self), fun other member => ?_⟩
  by_cases same : other = inKernel
  · subst same
    have nodup := lists.nodup other
    rw [isFree] at nodup
    rw [Function.update_self] at member
    exact (List.nodup_cons.mp nodup).1 member
  · rw [Function.update_of_ne same] at member
    refine same (lists.unique inKernel other page ?_ member)
    rw [isFree]
    exact List.mem_cons_self

/-- No page is taken from an empty list. -/
theorem alloc_empty
    (lists : FreeLists mem free) {inKernel : Bool} (none : free inKernel = []) :
    (pmemAlloc inKernel).Runs mem 0 mem := by
  refine pmemAlloc_runs.mpr (Or.inl ⟨?_, rfl, rfl⟩)
  have counted := lists.counted inKernel
  rw [none] at counted
  exact UInt32.toNat_inj.mp counted.symm

end FreeLists

end Mem
end WhuOs
