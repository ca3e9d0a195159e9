import WhuOs.Mem.User

/-!
# Well-formed address spaces

The user pages of every address space are open to users, and the tables are
pages of the memory.  Every program that works on user pages keeps this.
-/

namespace WhuOs
namespace Mem

open Library
open Library.Bytes
open Program (Preserves Runs)

variable {ρ : Type} [DecidableEq ρ] {root : ρ → UInt64}
  {mem mem' : State} {free free' : Bool → List UInt64}
  {held held' : Holder ρ → UInt64} {r : ρ} {va : UInt64}

/-- The flags of a user page: everything is permitted but, except for the code
of the first process, to fetch. -/
def UserFlags (flags : UInt64) : Prop :=
  flags = pteR ||| pteW ||| pteU ||| pteV ∨
    flags = pteR ||| pteW ||| pteX ||| pteU ||| pteV

/-- The flags tell a user page from a table. -/
theorem pteCheck_of_userFlags
    {pte : UInt64} (flags : UserFlags (pteFlags pte)) :
    pteCheck pte = false := by
  have same : pte &&& (pteR ||| pteW ||| pteX) =
      pteFlags pte &&& (pteR ||| pteW ||| pteX) := by
    unfold pteFlags
    rw [UInt64.and_assoc]
    rfl
  unfold pteCheck
  rw [same]
  rcases flags with isFlags | isFlags
  · rw [isFlags]
    rfl
  · rw [isFlags]
    rfl

/-- User pages have the flags of user pages, and tables are in memory. -/
structure Formed (bytes : Bytes) (root : ρ → UInt64) : Prop where
  userFlags : ∀ r va, pageOf va < userPages →
    isValid (pteAt bytes (root r) va) = true →
    UserFlags (pteFlags (pteAt bytes (root r) va))
  tables : ∀ r path, path.length ≤ 2 → tableAt bytes (root r) path ≠ 0 →
    InRam (tableAt bytes (root r) path)

namespace Formed

omit [DecidableEq ρ] in
theorem congr
    {bytes bytes' : Bytes} (formed : Formed bytes root)
    (ptes : ∀ r va, pteAt bytes' (root r) va = pteAt bytes (root r) va)
    (tables : ∀ r path, path.length ≤ 2 →
      tableAt bytes' (root r) path = tableAt bytes (root r) path) :
    Formed bytes' root := by
  constructor
  · intro r va isUser valid
    rw [ptes] at valid ⊢
    exact formed.userFlags r va isUser valid
  · intro r path bound present
    rw [tables r path bound] at present ⊢
    exact formed.tables r path bound present

omit [DecidableEq ρ] in
/-- A write to the page of a holder. -/
theorem write
    {η : Type} {held : η → UInt64} (formed : Formed mem.bytes root)
    (holds : Holds mem root free held) {holder : η} (some : held holder ≠ 0)
    {bytes : Bytes} (changed : ChangedIn (held holder) mem.bytes bytes) :
    Formed bytes root :=
  formed.congr (holds.pteAt_write some changed)
    (tableAt_of_notTable holds.tables changed (holds.taken some).aligned
      (holds.notTable holder some))

omit [DecidableEq ρ] in
/-- One entry is stored, on the way to which tables may be added. -/
theorem mapped
    {page : Nat} {entry : UInt64} (formed : Formed mem.bytes root)
    (freeRam : ∀ page ∈ free true, InRam page)
    (mapped : Mapped root r page 1 (fun _ => entry) mem free mem' free')
    (flags : page < userPages → isValid entry = true →
      UserFlags (pteFlags entry)) : Formed mem'.bytes root := by
  constructor
  · intro r' va isUser valid
    by_cases isPlace : r' = r ∧ pageOf va = page
    · rcases isPlace with ⟨rfl, isPage⟩
      have isEntry := mapped.inside 0 Nat.one_pos va isPage
      rw [isEntry] at valid ⊢
      exact flags (by omega) valid
    · have same := mapped.outside r' va fun inside =>
        isPlace ⟨inside.1, by omega⟩
      rw [same] at valid ⊢
      exact formed.userFlags r' va isUser valid
  · intro r' path bound present
    rcases mapped.placed r' path bound with same | ⟨_, fresh⟩
    · rw [same] at present ⊢
      exact formed.tables r' path bound present
    · exact freeRam _ fresh

end Formed

theorem userFlags_leafPte
    {perm : UInt64} (pa : UInt64) (small : perm.toNat < 1024)
    (flags : UserFlags (perm ||| pteV)) :
    UserFlags (pteFlags (leafPte pa perm)) := by
  rw [pteFlags_leafPte small]
  exact flags

/-- Memory with well-formed address spaces whose pages have one holder each. -/
def Space (root : ρ → UInt64) (mem : State) : Prop :=
  (∃ free held, UserMem mem root free held) ∧ Formed mem.bytes root

namespace Space

/-- A page is allocated, written to and mapped. -/
theorem mapPage
    (space : Space root mem) (present : root r ≠ 0) (aligned : Aligned va)
    (low : va.toNat + 4096 ≤ 2 ^ 38) {inKernel : Bool} {pa perm : UInt64}
    (small : perm.toNat < 1024) (flags : UserFlags (perm ||| pteV))
    (notNull : pa ≠ 0) {mem₁ : State}
    (allocated : (pmemAlloc inKernel).Runs mem pa mem₁) {bytes : Bytes}
    (changed : ChangedIn pa mem.bytes bytes)
    (run : (vmMappages (root r) va pa 4096 perm).Runs (mem₁.setBytes bytes) ()
      mem') : Space root mem' := by
  rcases space with ⟨⟨free, held, user⟩, formed⟩
  rcases user.mapPage present aligned low small notNull allocated changed run
    with ⟨free', isMapped⟩
  refine ⟨⟨free', _, isMapped.userMem⟩, ?_⟩
  rcases user.toHolds.alloc_some .scratch notNull allocated with
    ⟨sameBytes, _, free₁, holds⟩
  have atScratch : Function.update held Holder.scratch pa .scratch = pa :=
    Function.update_self _ _ _
  have some : Function.update held Holder.scratch pa .scratch ≠ 0 := by
    rw [atScratch]
    exact notNull
  have written : ChangedIn (Function.update held Holder.scratch pa .scratch)
      mem₁.bytes bytes := by
    rw [atScratch, sameBytes]
    exact changed
  have holds₂ := holds.write some written
  rcases vmMappages_page holds₂.tables holds₂.lists present aligned low run with
    ⟨free₂, mapped⟩
  rw [← sameBytes] at formed
  exact (formed.write holds some written).mapped (holds₂.freeRam true) mapped
    fun _ _ => userFlags_leafPte pa small flags

/-- The page at a virtual address is freed. -/
theorem freeMapping
    (present : root r ≠ 0) (isUser : pageOf va < userPages) :
    Preserves (Space root) (freeMapping (root r) va) := by
  rintro mem ⟨⟩ mem' ⟨⟨free, held, user⟩, formed⟩ run
  rcases user.freeMapping present isUser run with ⟨free', held', user', _⟩
  refine ⟨⟨free', held', user'⟩, ?_⟩
  rcases (lookup_runs user.tables present run).2 with
    ⟨_, skipped⟩ | ⟨valid, freed⟩
  · rcases Program.runs_pure.mp skipped with ⟨_, rfl⟩
    exact formed
  have some := (user.backed r va isUser).2 valid
  rw [user.pteToPa_eq isUser valid, Program.runs_bind] at freed
  rcases freed with ⟨_, _, gives, stores⟩
  rcases pmemFree_runs.mp gives with rfl
  have holds := user.toHolds.giveBack some false
  have changed := changedIn_giveBack mem (held (.user r (pageOf va))) false
  have placed := tableAt_of_notTable user.tables changed
    (user.taken some).aligned (user.notTable _ some)
  have below : tableAt (mem.giveBack (held (.user r (pageOf va)))
      false).bytes (root r) (pathTo va 0) ≠ 0 := by
    rw [placed r (pathTo va 0) (Nat.le_refl 2)]
    exact tableAt_of_isValid valid
  have samePointer : entryPointer mem.bytes (root r) va = entryPointer
      (mem.giveBack (held (.user r (pageOf va))) false).bytes (root r) va := by
    unfold entryPointer
    rw [placed r (pathTo va 0) (Nat.le_refl 2)]
  rw [samePointer] at stores
  rcases (store_entryPointer holds.tables below 0).deterministic stores with
    ⟨_, rfl⟩
  have formed' := formed.congr (user.pteAt_giveBack some false) placed
  exact formed'.mapped (holds.freeRam true)
    (Mapped.storeLeaf 0 holds.tables holds.lists below) nofun

/-- The pages of a range are freed. -/
theorem freeRange
    (present : root r ≠ 0) {stop : UInt64} (aligned : Aligned va)
    (isUser : stop.toNat ≤ 4096 * userPages) (fuel : Nat) :
    Preserves (Space root) (freeRange (root r) stop fuel va) := by
  induction fuel generalizing va with
  | zero => exact Preserves.pure ()
  | succ fuel inductionHypothesis =>
      unfold Mem.freeRange
      by_cases below : va < stop
      · rw [if_pos below]
        apply Preserves.bind
        · exact freeMapping present (pageOf_of_lt aligned below isUser).2
        · intro _
          exact inductionHypothesis (aligned_next aligned below isUser)
      · rw [if_neg below]
        exact Preserves.pure ()

/-- The loop of `uvm_heap_grow`. -/
theorem growLoop
    (present : root r ≠ 0) {first stop : UInt64} (firstAligned : Aligned first)
    (aligned : Aligned va) (isUser : stop.toNat ≤ 4096 * userPages)
    (fuel : Nat) :
    Preserves (Space root) (growLoop (root r) first stop fuel va) := by
  induction fuel generalizing va with
  | zero => exact Preserves.pure true
  | succ fuel inductionHypothesis =>
      unfold Mem.growLoop
      by_cases below : va < stop
      · rw [if_pos below]
        intro mem grown mem' space run
        rw [Program.runs_bind] at run
        rcases run with ⟨pa, mem₁, allocated, run⟩
        have place := pageOf_of_lt aligned below isUser
        have below' := UInt64.lt_iff_toNat_lt.mp below
        by_cases null : pa = 0
        · -- no page was left
          rcases space with ⟨⟨free, held, user⟩, formed⟩
          have same : mem₁ = mem := by
            rcases user.toHolds.alloc .scratch allocated with
              ⟨_, same⟩ | ⟨notNull, _⟩
            · exact same
            · exact absurd null notNull
          rw [if_pos null, same] at run
          refine Preserves.bind (freeRange present firstAligned ?_ _)
            (fun _ => Preserves.pure false) ⟨⟨free, held, user⟩, formed⟩ run
          omega
        · rw [if_neg null, Program.runs_bind] at run
          rcases run with ⟨_, mem₂, clears, run⟩
          rcases (clearPage_runs null).mp clears with rfl
          rw [Program.runs_bind] at run
          rcases run with ⟨_, mem₃, maps, rest⟩
          have changed : ChangedIn pa mem.bytes
              (clearedBytes mem₁.bytes pa) := by
            rw [pmemAlloc_bytes allocated]
            exact changedIn_cleared _ _
          have room : va.toNat + 4096 ≤ 2 ^ 38 := by
            unfold userPages at isUser
            unfold Aligned at aligned
            omega
          have next := space.mapPage present aligned room (by decide)
            (Or.inl rfl) null allocated changed maps
          exact inductionHypothesis (aligned_next aligned below isUser) next
            rest
      · rw [if_neg below]
        exact Preserves.pure true

section Heap

variable {heapTop : UInt64} (low : heapTop.toNat ≤ 2 ^ 30) (len : UInt32)

include low

/-- `uvm_heap_grow`. -/
theorem heapGrow (present : root r ≠ 0) :
    Preserves (Space root) (uvmHeapGrow (root r) heapTop len) := by
  have lenBound := len.toNat_lt
  have sum : (heapTop + len.toUInt64).toNat = heapTop.toNat + len.toNat := by
    rw [UInt64.toNat_add, UInt32.toNat_toUInt64]
    omega
  have stop := pageAlign_toNat
    (show (heapTop + len.toUInt64).toNat + 4095 < 2 ^ 64 by omega)
  have isUser : (pageAlign (heapTop + len.toUInt64)).toNat ≤
      4096 * userPages := by
    unfold userPages
    omega
  unfold uvmHeapGrow
  apply Preserves.bind
  · exact growLoop present (aligned_pageAlign _) (aligned_pageAlign _) isUser _
  · intro _
    exact Preserves.ite (Preserves.pure _) (Preserves.pure _)

/-- `uvm_heap_ungrow`. -/
theorem heapUngrow (present : root r ≠ 0) :
    Preserves (Space root) (uvmHeapUngrow (root r) heapTop len) := by
  have stop := pageAlign_toNat (show heapTop.toNat + 4095 < 2 ^ 64 by omega)
  have isUser : (pageAlign heapTop).toNat ≤ 4096 * userPages := by
    unfold userPages
    omega
  unfold uvmHeapUngrow
  apply Preserves.bind
  · exact freeRange present (aligned_pageAlign _) isUser _
  · intro _
    exact Preserves.pure _

end Heap

/-! ## Copies -/

section Copy

variable {old new : ρ} (oldPresent : root old ≠ 0) (newPresent : root new ≠ 0)

include oldPresent newPresent

/-- One page is copied. -/
theorem copyMapping
    (aligned : Aligned va) (isUser : va.toNat < 4096 * userPages) :
    Preserves (Space root) (copyMapping (root old) (root new) va) := by
  rintro mem ⟨⟩ mem' ⟨⟨free, held, user⟩, formed⟩ run
  rcases (lookup_runs user.tables oldPresent run).2 with
    ⟨_, skipped⟩ | ⟨valid, copies⟩
  · rcases Program.runs_pure.mp skipped with ⟨_, rfl⟩
    exact ⟨⟨free, held, user⟩, formed⟩
  simp only [Program.runs_bind, Program.runs_assert, decide_eq_true_eq,
    copyPage_runs] at copies
  rcases copies with
    ⟨newPa, mem₁, allocated, _, _, ⟨notNull, rfl⟩, _, _, rfl, maps⟩
  have isPage : pageOf va < userPages := by
    unfold userPages at isUser ⊢
    unfold pageOf
    omega
  have flags := formed.userFlags old va isPage valid
  rw [← pteFlags_or_pteV valid] at flags
  have changed : ChangedIn newPa mem.bytes (memmove mem₁.bytes newPa.toNat
      (fun index => mem₁.bytes
        ((pteToPa (pteAt mem.bytes (root old) va)).toNat + index)) pgSize) := by
    rw [pmemAlloc_bytes allocated]
    exact changedIn_memmove (Nat.le_refl _) (Nat.le_refl _)
  have room : va.toNat + 4096 ≤ 2 ^ 38 := by
    unfold Aligned at aligned
    unfold userPages at isUser
    omega
  exact mapPage ⟨⟨free, held, user⟩, formed⟩ newPresent aligned room
    (pteFlags_lt _) flags notNull allocated changed maps

theorem copyLoop
    {address : Nat → UInt64} {items : List Nat}
    (inside : ∀ item ∈ items, Aligned (address item) ∧
      (address item).toNat < 4096 * userPages) :
    Preserves (Space root) (items.forM fun item =>
      Mem.copyMapping (root old) (root new) (address item)) := by
  induction items with
  | nil => exact Preserves.pure _
  | cons item items inductionHypothesis =>
      rcases inside item List.mem_cons_self with ⟨aligned, isUser⟩
      apply Preserves.bind
      · exact copyMapping oldPresent newPresent aligned isUser
      · intro _
        exact inductionHypothesis fun other member =>
          inside other (List.mem_cons_of_mem item member)

/-- `uvm_copy_pgtbl`. -/
theorem copyPgtbl
    {heapTop : UInt64} (low : heapTop.toNat ≤ 2 ^ 30) (ustackPages : UInt32) :
    Preserves (Space root)
      (uvmCopyPgtbl (root old) (root new) heapTop ustackPages) := by
  unfold uvmCopyPgtbl
  apply Preserves.bind
  · apply copyLoop oldPresent newPresent
    intro index member
    rw [List.mem_range] at member
    unfold pgSize at member
    have isAddress : (UInt64.ofNat (pgSize * index)).toNat = 4096 * index := by
      unfold pgSize
      rw [UInt64.toNat_ofNat']
      omega
    unfold Aligned userPages
    rw [isAddress]
    omega
  · intro _
    apply copyLoop oldPresent newPresent
    intro index _
    exact ustackVa_toNat index

end Copy

end Space
end Mem
end WhuOs
