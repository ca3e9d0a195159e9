import Mathlib.Data.Finset.Image
import Mathlib.Data.Fintype.Card
import WhuOs.Mem.Mapping

/-!
# Pages and their holders

Besides the free pages and the tables there are pages that belong to someone.
No page belongs to two holders.  The operations of the page allocator move pages
between the free lists and the holders, and a write to the page of one holder is
not seen by the others.
-/

namespace WhuOs
namespace Mem

open Library
open Library.Bytes
open Program (Runs)

/-- A page of the memory of the machine. -/
def InRam (page : UInt64) : Prop :=
  Aligned page ∧ 0x80000000 ≤ page.toNat ∧ page.toNat < 0x88000000

instance (page : UInt64) : Decidable (InRam page) :=
  inferInstanceAs (Decidable (_ ∧ _))

/-- The number of a page of the memory. -/
def ramIndex (page : UInt64) : Nat := page.toNat / 4096 - 0x80000

theorem InRam.index_lt {page : UInt64} (inRam : InRam page) :
    ramIndex page < 0x8000 := by
  unfold InRam at inRam
  unfold ramIndex
  omega

theorem InRam.eq_of_index
    {page page' : UInt64} (inRam : InRam page) (inRam' : InRam page')
    (same : ramIndex page = ramIndex page') : page = page' := by
  unfold InRam Aligned at inRam inRam'
  unfold ramIndex at same
  apply UInt64.toNat_inj.mp
  omega

theorem InRam.ne_zero {page : UInt64} (inRam : InRam page) : page ≠ 0 := by
  rintro rfl
  exact absurd inRam.2.1 (by decide)

/-- There are not more pages than the memory has. -/
theorem length_le_of_inRam
    {pages : List UInt64} (nodup : pages.Nodup)
    (inRam : ∀ page ∈ pages, InRam page) : pages.length ≤ 0x8000 := by
  have injective : (pages.map ramIndex).Nodup := by
    refine List.Nodup.map_on (fun page member page' member' same => ?_) nodup
    exact (inRam page member).eq_of_index (inRam page' member') same
  have within : pages.map ramIndex ⊆ List.range 0x8000 := by
    intro index member
    obtain ⟨page, isPage, rfl⟩ := List.mem_map.mp member
    exact List.mem_range.mpr (inRam page isPage).index_lt
  have bounded := (injective.subperm within).length_le
  rwa [List.length_map, List.length_range] at bounded

/-! ## Giving pages back -/

variable {ρ η : Type} {root : ρ → UInt64} {mem mem' : State}
  {free free' : Bool → List UInt64} {held held' : η → UInt64}

theorem giveBack_bytes (mem : State) (page : UInt64) (inKernel : Bool) :
    (mem.giveBack page inKernel).bytes =
      write64 mem.bytes page.toNat (mem.region inKernel).listHead :=
  setRegion_bytes _ _

theorem changedIn_giveBack (mem : State) (page : UInt64) (inKernel : Bool) :
    ChangedIn page mem.bytes (mem.giveBack page inKernel).bytes := by
  rw [giveBack_bytes]
  exact @changedIn_store page (mem.region inKernel).listHead 0 mem.bytes

theorem FreeLists.mem_of_mem_cons
    {inKernel other : Bool} {page node : UInt64}
    (member : node ∈
      Function.update free inKernel (page :: free inKernel) other) :
    node = page ∧ other = inKernel ∨ node ∈ free other := by
  by_cases same : other = inKernel
  · subst same
    rw [Function.update_self] at member
    rcases List.mem_cons.mp member with isPage | member
    · exact Or.inl ⟨isPage, rfl⟩
    · exact Or.inr member
  · rw [Function.update_of_ne same] at member
    exact Or.inr member

/-- A page is put on a list. -/
theorem FreeLists.giveBack
    (lists : FreeLists mem free) {page : UInt64} (taken : Taken free page)
    (notNull : page ≠ 0) {inKernel : Bool}
    (room : (free inKernel).length + 1 < 2 ^ 32) :
    FreeLists (mem.giveBack page inKernel)
      (Function.update free inKernel (page :: free inKernel)) := by
  have links : ∀ other, ∀ node ∈ free other,
      (mem.giveBack page inKernel).next node = mem.next node := by
    intro other node member
    have differs : node ≠ page := by
      rintro rfl
      exact taken.notFree other member
    unfold State.next
    rw [giveBack_bytes]
    exact read64_write64_of_ne (lists.aligned other node member) taken.aligned
      differs _
  refine ⟨fun other => ?_, fun other => ?_, fun other => ?_,
    fun first second node member member' => ?_, fun other node member => ?_⟩
  · by_cases same : other = inKernel
    · subst same
      have isHead : ((mem.giveBack page other).region other).listHead =
          page := by
        simp [State.giveBack]
      have isNext : (mem.giveBack page other).next page =
          (mem.region other).listHead := by
        unfold State.next
        rw [giveBack_bytes, read64_write64]
      rw [isHead, Function.update_self]
      refine ⟨rfl, notNull, ?_⟩
      rw [isNext]
      exact (lists.linked other).congr (links other)
    · have sameRegion : (mem.giveBack page inKernel).region other =
          mem.region other := setRegion_region_of_ne same _
      rw [sameRegion, Function.update_of_ne same]
      exact (lists.linked other).congr (links other)
  · have counted := lists.counted other
    by_cases same : other = inKernel
    · subst same
      have one : (1 : UInt32).toNat = 1 := rfl
      rw [Function.update_self, List.length_cons]
      simp only [State.giveBack, setRegion_region_self]
      rw [UInt32.toNat_add, one]
      omega
    · have sameRegion : (mem.giveBack page inKernel).region other =
          mem.region other := setRegion_region_of_ne same _
      rw [sameRegion, Function.update_of_ne same]
      exact counted
  · by_cases same : other = inKernel
    · subst same
      rw [Function.update_self]
      exact List.nodup_cons.mpr ⟨taken.notFree other, lists.nodup other⟩
    · rw [Function.update_of_ne same]
      exact lists.nodup other
  · rcases FreeLists.mem_of_mem_cons member with ⟨isPage, rfl⟩ | member
    · rcases FreeLists.mem_of_mem_cons member' with ⟨_, rfl⟩ | member'
      · rfl
      · rw [isPage] at member'
        exact absurd member' (taken.notFree second)
    · rcases FreeLists.mem_of_mem_cons member' with ⟨isPage, _⟩ | member'
      · rw [isPage] at member
        exact absurd member (taken.notFree first)
      · exact lists.unique first second node member member'
  · rcases FreeLists.mem_of_mem_cons member with ⟨rfl, _⟩ | member
    · exact taken.aligned
    · exact lists.aligned other node member

/-! ## Writes to pages that are not tables -/

section NotTable

variable {bytes bytes' : Bytes} {page : UInt64}
  (tables : Tables bytes root free) (changed : ChangedIn page bytes bytes')
  (aligned : Aligned page)
  (notTable : ∀ r path, path.length ≤ 2 → tableAt bytes (root r) path ≠ page)

include tables changed aligned notTable

theorem entryOf_of_notTable
    (r : ρ) (path : List (Fin 512)) (bound : path.length ≤ 2)
    (index : Fin 512) :
    entryOf bytes' (tableAt bytes (root r) path) index =
      entryOf bytes (tableAt bytes (root r) path) index :=
  entryOf_of_ne changed aligned (tables.aligned_tableAt r path)
    (notTable r path bound) index

theorem tableAt_of_notTable
    (r : ρ) (path : List (Fin 512)) (bound : path.length ≤ 2) :
    tableAt bytes' (root r) path = tableAt bytes (root r) path :=
  tableAt_of_kept (fun r path index short _ => entryOf_of_notTable tables
    changed aligned notTable r path (Nat.le_of_lt short) index) r path bound

theorem pteAt_of_notTable (r : ρ) (va : UInt64) :
    pteAt bytes' (root r) va = pteAt bytes (root r) va := by
  have length : (pathTo va 0).length ≤ 2 := Nat.le_refl _
  unfold pteAt
  rw [tableAt_of_notTable tables changed aligned notTable r _ length,
    entryOf_of_notTable tables changed aligned notTable r _ length]

theorem Tables.of_notTable
    (taken : ∀ page, page ≠ 0 → Taken free page →
      (∃ r path, path.length ≤ 2 ∧ tableAt bytes (root r) path = page) →
      Taken free' page) :
    Tables bytes' root free' :=
  tables.of_kept (fun r path index short _ => entryOf_of_notTable tables
    changed aligned notTable r path (Nat.le_of_lt short) index) taken

end NotTable

theorem Tables.mono
    {bytes : Bytes} (tables : Tables bytes root free)
    (fewer : ∀ inKernel, ∀ page ∈ free' inKernel, page ∈ free inKernel) :
    Tables bytes root free' :=
  ⟨tables.aligned, ⟨fun r path bound below =>
    (tables.sound.marked r path bound below).mono fewer, tables.sound.unique⟩,
    tables.pointer⟩

/-! ## Holders -/

/-- A page that was not written to. -/
def Unchanged (page : UInt64) (bytes bytes' : Bytes) : Prop :=
  ∀ address, InPage address page → bytes' address = bytes address

theorem Unchanged.trans
    {page : UInt64} {bytes bytes' bytes'' : Bytes}
    (first : Unchanged page bytes bytes')
    (second : Unchanged page bytes' bytes'') :
    Unchanged page bytes bytes'' :=
  fun address inside => (second address inside).trans (first address inside)

theorem ChangedIn.unchanged
    {page page' : UInt64} {bytes bytes' : Bytes}
    (changed : ChangedIn page bytes bytes') (aligned : Aligned page)
    (aligned' : Aligned page') (differs : page' ≠ page) :
    Unchanged page' bytes bytes' :=
  fun address inside => changed address fun other =>
    differs (aligned'.eq_of_inPage aligned inside other)

/-- Every page that is held belongs to one holder.  It is neither free nor a
table.  A holder without a page holds 0. -/
structure Holds (mem : State) (root : ρ → UInt64) (free : Bool → List UInt64)
    (held : η → UInt64) : Prop where
  lists : FreeLists mem free
  tables : Tables mem.bytes root free
  freeRam : ∀ inKernel, ∀ page ∈ free inKernel, InRam page
  inRam : ∀ holder, held holder ≠ 0 → InRam (held holder)
  notFree : ∀ holder, held holder ≠ 0 →
    ∀ inKernel, held holder ∉ free inKernel
  notTable : ∀ holder, held holder ≠ 0 → ∀ r path, path.length ≤ 2 →
    tableAt mem.bytes (root r) path ≠ held holder
  unique : ∀ holder holder', held holder ≠ 0 →
    held holder = held holder' → holder = holder'

namespace Holds

theorem taken
    (holds : Holds mem root free held) {holder : η}
    (some : held holder ≠ 0) : Taken free (held holder) :=
  ⟨(holds.inRam holder some).1, holds.notFree holder some⟩

/-- A write to the page of a holder. -/
theorem write
    (holds : Holds mem root free held) {holder : η} (some : held holder ≠ 0)
    {bytes : Bytes} (changed : ChangedIn (held holder) mem.bytes bytes) :
    Holds (mem.setBytes bytes) root free held := by
  have taken := holds.taken some
  have notTable := holds.notTable holder some
  refine ⟨holds.lists.setBytes taken changed,
    holds.tables.of_notTable changed taken.aligned notTable
      fun _ _ isTaken _ => isTaken,
    holds.freeRam, holds.inRam, holds.notFree, fun other isSome r path bound =>
      ?_, holds.unique⟩
  rw [State.setBytes_bytes, tableAt_of_notTable holds.tables changed
    taken.aligned notTable r path bound]
  exact holds.notTable other isSome r path bound

theorem pteAt_write
    (holds : Holds mem root free held) {holder : η} (some : held holder ≠ 0)
    {bytes : Bytes} (changed : ChangedIn (held holder) mem.bytes bytes)
    (r : ρ) (va : UInt64) :
    pteAt bytes (root r) va = pteAt mem.bytes (root r) va :=
  pteAt_of_notTable holds.tables changed (holds.taken some).aligned
    (holds.notTable holder some) r va

theorem unchanged_write
    (holds : Holds mem root free held) {holder other : η}
    (some : held holder ≠ 0) (some' : held other ≠ 0) (differs : other ≠ holder)
    {bytes : Bytes} (changed : ChangedIn (held holder) mem.bytes bytes) :
    Unchanged (held other) mem.bytes bytes :=
  changed.unchanged (holds.taken some).aligned (holds.taken some').aligned
    fun same => differs (holds.unique other holder some' same)

/-- Tables that are added do not touch the pages of holders. -/
theorem grown
    (holds : Holds mem root free held)
    (grown : Grown root mem free mem' free') : Holds mem' root free' held where
  lists := grown.lists
  tables := grown.tables
  freeRam := fun inKernel page member =>
    holds.freeRam inKernel page (grown.fewer_all inKernel page member)
  inRam := holds.inRam
  notFree := fun holder some inKernel member =>
    holds.notFree holder some inKernel (grown.fewer_all inKernel _ member)
  notTable := fun holder some =>
    grown.notTable (holds.taken some) (holds.notTable holder some)
  unique := holds.unique

theorem unchanged_grown
    (holds : Holds mem root free held)
    (grown : Grown root mem free mem' free') {holder : η}
    (some : held holder ≠ 0) :
    Unchanged (held holder) mem.bytes mem'.bytes :=
  grown.others _ (holds.taken some) (holds.notTable holder some)

variable [DecidableEq η]

/-- A page is given from one holder to another, which loses its own. -/
theorem move
    (holds : Holds mem root free held) (source target : η) :
    Holds mem root free (Function.update
      (Function.update held target (held source)) source 0) := by
  have cases : ∀ holder, Function.update (Function.update held target
      (held source)) source 0 holder ≠ 0 →
      (holder = target ∧ Function.update (Function.update held target
        (held source)) source 0 holder = held source) ∨
      (holder ≠ source ∧ holder ≠ target ∧ Function.update (Function.update
        held target (held source)) source 0 holder = held holder) := by
    intro holder some
    by_cases isSource : holder = source
    · rw [isSource, Function.update_self] at some
      exact absurd rfl some
    · rw [Function.update_of_ne isSource] at some ⊢
      by_cases isTarget : holder = target
      · rw [isTarget, Function.update_self]
        exact Or.inl ⟨rfl, rfl⟩
      · rw [Function.update_of_ne isTarget]
        exact Or.inr ⟨isSource, isTarget, rfl⟩
  refine ⟨holds.lists, holds.tables, holds.freeRam, fun holder some => ?_,
    fun holder some => ?_, fun holder some => ?_,
    fun holder holder' some same => ?_⟩
  · rcases cases holder some with ⟨_, isHeld⟩ | ⟨_, _, isHeld⟩
    · rw [isHeld] at some ⊢
      exact holds.inRam source some
    · rw [isHeld] at some ⊢
      exact holds.inRam holder some
  · rcases cases holder some with ⟨_, isHeld⟩ | ⟨_, _, isHeld⟩
    · rw [isHeld] at some ⊢
      exact holds.notFree source some
    · rw [isHeld] at some ⊢
      exact holds.notFree holder some
  · rcases cases holder some with ⟨_, isHeld⟩ | ⟨_, _, isHeld⟩
    · rw [isHeld] at some ⊢
      exact holds.notTable source some
    · rw [isHeld] at some ⊢
      exact holds.notTable holder some
  · have some' := some
    rw [same] at some'
    rcases cases holder some with ⟨isTarget, isHeld⟩ | ⟨notSource, _, isHeld⟩
    · rcases cases holder' some' with
        ⟨isTarget', _⟩ | ⟨notSource', _, isHeld'⟩
      · rw [isTarget, isTarget']
      · rw [isHeld] at some
        rw [isHeld, isHeld'] at same
        exact absurd (holds.unique source holder' some same).symm notSource'
    · rcases cases holder' some' with ⟨_, isHeld'⟩ | ⟨_, _, isHeld'⟩
      · rw [isHeld] at some
        rw [isHeld, isHeld'] at same
        exact absurd (holds.unique holder source some same) notSource
      · rw [isHeld] at some
        rw [isHeld, isHeld'] at same
        exact holds.unique holder holder' some same

/-- A page that is held gets lost. -/
theorem drop (holds : Holds mem root free held) (holder : η) :
    Holds mem root free (Function.update held holder 0) := by
  have moved := holds.move holder holder
  rwa [Function.update_idem] at moved

/-- The outcomes of `pmem_alloc`. -/
theorem alloc
    (holds : Holds mem root free held) (holder : η) {inKernel : Bool}
    {page : UInt64} (run : (pmemAlloc inKernel).Runs mem page mem') :
    (page = 0 ∧ mem' = mem) ∨
    (page ≠ 0 ∧ mem'.bytes = mem.bytes ∧
      mem'.kernelPgtbl = mem.kernelPgtbl ∧
      ∃ free', Holds mem' root free' (Function.update held holder page)) := by
  cases isFree : free inKernel with
  | nil =>
      obtain ⟨rfl, rfl⟩ := (holds.lists.alloc_empty isFree).deterministic run
      exact Or.inl ⟨rfl, rfl⟩
  | cons first rest =>
      obtain ⟨region, allocated, lists⟩ := holds.lists.alloc isFree
      obtain ⟨rfl, rfl⟩ := allocated.deterministic run
      have member : first ∈ free inKernel := by
        rw [isFree]
        exact List.mem_cons_self
      have notNull := holds.lists.ne_null member
      have fewer : ∀ other, ∀ page ∈ Function.update free inKernel rest other,
          page ∈ free other :=
        fun _ _ => FreeLists.mem_of_mem_rest isFree
      have taken := holds.lists.taken_alloc isFree
      refine Or.inr ⟨notNull, setRegion_bytes _ _, setRegion_kernelPgtbl _ _,
        Function.update free inKernel rest, lists, ?_, ?_, ?_, ?_, ?_, ?_⟩
      · rw [setRegion_bytes]
        exact holds.tables.mono fewer
      · exact fun other page isMember =>
          holds.freeRam other page (fewer other page isMember)
      · intro other some
        by_cases same : other = holder
        · rw [same, Function.update_self]
          exact holds.freeRam inKernel first member
        · rw [Function.update_of_ne same] at some ⊢
          exact holds.inRam other some
      · intro other some
        by_cases same : other = holder
        · rw [same, Function.update_self]
          exact taken.notFree
        · rw [Function.update_of_ne same] at some ⊢
          exact ((holds.taken some).mono fewer).notFree
      · intro other some r path bound
        rw [setRegion_bytes]
        by_cases same : other = holder
        · rw [same, Function.update_self]
          exact holds.tables.notFree bound member notNull r
        · rw [Function.update_of_ne same] at some ⊢
          exact holds.notTable other some r path bound
      · intro other other' some equal
        by_cases same : other = holder
        · by_cases same' : other' = holder
          · rw [same, same']
          · rw [same, Function.update_self, Function.update_of_ne same']
              at equal
            rw [equal] at member notNull
            exact absurd member (holds.notFree other' notNull inKernel)
        · rw [Function.update_of_ne same] at some equal
          by_cases same' : other' = holder
          · rw [same', Function.update_self] at equal
            rw [← equal] at member
            exact absurd member (holds.notFree other some inKernel)
          · rw [Function.update_of_ne same'] at equal
            exact holds.unique other other' some equal

/-- An allocation that succeeds. -/
theorem alloc_some
    (holds : Holds mem root free held) (holder : η) {inKernel : Bool}
    {page : UInt64} (notNull : page ≠ 0)
    (run : (pmemAlloc inKernel).Runs mem page mem') :
    mem'.bytes = mem.bytes ∧ Aligned page ∧
      ∃ free', Holds mem' root free' (Function.update held holder page) := by
  rcases holds.alloc holder run with
    ⟨null, _⟩ | ⟨_, sameBytes, _, free', holds'⟩
  · exact absurd null notNull
  have isPage : Function.update held holder page holder = page :=
    Function.update_self _ _ _
  have taken := holds'.taken (show Function.update held holder page holder ≠ 0
    by rw [isPage]; exact notNull)
  rw [isPage] at taken
  exact ⟨sameBytes, taken.aligned, free', holds'⟩

/-- A holder gives its page back. -/
theorem giveBack
    (holds : Holds mem root free held) {holder : η} (some : held holder ≠ 0)
    (inKernel : Bool) :
    Holds (mem.giveBack (held holder) inKernel) root
      (Function.update free inKernel (held holder :: free inKernel))
      (Function.update held holder 0) := by
  have taken := holds.taken some
  have notTable := holds.notTable holder some
  have changed := changedIn_giveBack mem (held holder) inKernel
  have room : (free inKernel).length + 1 < 2 ^ 32 := by
    have bounded := length_le_of_inRam (holds.lists.nodup inKernel)
      (holds.freeRam inKernel)
    omega
  have others : ∀ other, Function.update held holder 0 other ≠ 0 →
      other ≠ holder ∧ Function.update held holder 0 other = held other := by
    intro other isSome
    by_cases same : other = holder
    · rw [same, Function.update_self] at isSome
      exact absurd rfl isSome
    · exact ⟨same, Function.update_of_ne same _ _⟩
  have placed := tableAt_of_notTable holds.tables changed taken.aligned notTable
  refine ⟨holds.lists.giveBack taken some room, ?_, ?_, ?_, ?_, ?_, ?_⟩
  · refine holds.tables.of_notTable changed taken.aligned notTable ?_
    rintro page _ isTaken ⟨r, path, bound, rfl⟩
    refine ⟨isTaken.aligned, fun other member => ?_⟩
    rcases FreeLists.mem_of_mem_cons member with ⟨isPage, _⟩ | member
    · exact notTable r path bound isPage
    · exact isTaken.notFree other member
  · intro other page member
    rcases FreeLists.mem_of_mem_cons member with ⟨rfl, _⟩ | member
    · exact holds.inRam holder some
    · exact holds.freeRam other page member
  · intro other isSome
    obtain ⟨_, same⟩ := others other isSome
    rw [same] at isSome ⊢
    exact holds.inRam other isSome
  · intro other isSome inKernel' member
    obtain ⟨differs, same⟩ := others other isSome
    rw [same] at isSome member
    rcases FreeLists.mem_of_mem_cons member with ⟨isPage, _⟩ | member
    · exact differs (holds.unique other holder isSome isPage)
    · exact holds.notFree other isSome inKernel' member
  · intro other isSome r path bound
    obtain ⟨_, same⟩ := others other isSome
    rw [same] at isSome ⊢
    rw [placed r path bound]
    exact holds.notTable other isSome r path bound
  · intro other other' isSome equal
    have isSome' := isSome
    rw [equal] at isSome'
    have same := (others other isSome).2
    rw [same] at isSome equal
    rw [(others other' isSome').2] at equal
    exact holds.unique other other' isSome equal

omit [DecidableEq η] in
theorem pteAt_giveBack
    (holds : Holds mem root free held) {holder : η} (some : held holder ≠ 0)
    (inKernel : Bool) (r : ρ) (va : UInt64) :
    pteAt (mem.giveBack (held holder) inKernel).bytes (root r) va =
      pteAt mem.bytes (root r) va :=
  holds.pteAt_write some (changedIn_giveBack mem (held holder) inKernel) r va

/-! ## New page tables -/

section AddRoot

variable [DecidableEq ρ] {r : ρ} {page : UInt64}

/-- The tables after a page without entries became the root of a page table. -/
theorem tableAt_addRoot
    {bytes : Bytes} (notNull : page ≠ 0)
    (empty : ∀ index, entryOf bytes page index = 0) (r' : ρ)
    (path : List (Fin 512)) :
    tableAt bytes (Function.update root r page r') path =
      if r' = r then (if path = [] then page else 0)
      else tableAt bytes (root r') path := by
  by_cases same : r' = r
  · rw [if_pos same, same, Function.update_self]
    cases path with
    | nil => rw [if_pos rfl]; rfl
    | cons index rest =>
        have none : childOf bytes page index = 0 := by
          apply childOf_eq_zero
          rw [empty, not_isValid_zero]
        have proper : index :: rest ≠ [] := List.cons_ne_nil _ _
        unfold tableAt
        rw [Forest.value_cons notNull, none, Forest.value_null, if_neg proper]
  · rw [if_neg same, Function.update_of_ne same]

theorem pteAt_addRoot
    {bytes : Bytes} (notNull : page ≠ 0)
    (empty : ∀ index, entryOf bytes page index = 0) (r' : ρ) (va : UInt64) :
    pteAt bytes (Function.update root r page r') va =
      if r' = r then 0 else pteAt bytes (root r') va := by
  have proper : pathTo va 0 ≠ [] := List.cons_ne_nil _ _
  unfold pteAt
  rw [tableAt_addRoot notNull empty]
  by_cases same : r' = r
  · rw [if_pos same, if_pos same, if_neg proper, if_pos rfl]
  · rw [if_neg same, if_neg same]

/-- A page without entries becomes the root of a page table. -/
theorem addRoot
    (holds : Holds mem root free held) {holder : η}
    (some : held holder ≠ 0)
    (empty : ∀ index, entryOf mem.bytes (held holder) index = 0) (r : ρ) :
    Holds mem (Function.update root r (held holder)) free
      (Function.update held holder 0) := by
  have taken := holds.taken some
  have root' : ∀ path, tableAt mem.bytes
      (Function.update root r (held holder) r) path ≠ 0 →
      path = [] ∧ tableAt mem.bytes
        (Function.update root r (held holder) r) path = held holder := by
    intro path present
    rw [tableAt_addRoot some empty, if_pos rfl] at present ⊢
    by_cases proper : path = []
    · exact ⟨proper, if_pos proper⟩
    · rw [if_neg proper] at present
      exact absurd rfl present
  have others : ∀ r' path, r' ≠ r →
      tableAt mem.bytes (Function.update root r (held holder) r') path =
        tableAt mem.bytes (root r') path := by
    intro r' path differs
    rw [tableAt_addRoot some empty, if_neg differs]
  have dropped := holds.drop holder
  refine ⟨holds.lists, ⟨fun r' => ?_, ⟨fun r' path bound present => ?_,
    fun r₁ r₂ path₁ path₂ bound₁ bound₂ present equal => ?_⟩,
    fun r' path index bound present valid => ?_⟩, holds.freeRam, dropped.inRam,
    dropped.notFree, fun other isSome r' path bound => ?_, dropped.unique⟩
  · by_cases same : r' = r
    · rw [same, Function.update_self]
      exact taken.aligned
    · rw [Function.update_of_ne same]
      exact holds.tables.aligned r'
  · change tableAt _ _ _ ≠ 0 at present
    change Taken free (tableAt _ _ _)
    by_cases same : r' = r
    · subst same
      rw [(root' path present).2]
      exact taken
    · rw [others r' path same] at present ⊢
      exact holds.tables.taken_tableAt bound present
  · change tableAt _ _ _ ≠ 0 at present
    change tableAt _ _ _ = tableAt _ _ _ at equal
    have present₂ := present
    rw [equal] at present₂
    by_cases same₁ : r₁ = r
    · subst same₁
      by_cases same₂ : r₂ = r₁
      · subst same₂
        rw [(root' path₁ present).1, (root' path₂ present₂).1]
        exact ⟨rfl, rfl⟩
      · rw [(root' path₁ present).2, others r₂ path₂ same₂] at equal
        exact absurd equal.symm (holds.notTable holder some r₂ path₂ bound₂)
    · by_cases same₂ : r₂ = r
      · subst same₂
        rw [(root' path₂ present₂).2, others r₁ path₁ same₁] at equal
        exact absurd equal (holds.notTable holder some r₁ path₁ bound₁)
      · rw [others r₁ path₁ same₁] at present equal
        rw [others r₂ path₂ same₂] at equal
        exact holds.tables.unique bound₁ bound₂ present equal
  · by_cases same : r' = r
    · subst same
      rw [(root' path present).2, empty, not_isValid_zero] at valid
      cases valid
    · rw [others r' path same] at present valid ⊢
      exact holds.tables.pointer r' path index bound present valid
  · by_cases same : other = holder
    · rw [same, Function.update_self] at isSome
      exact absurd rfl isSome
    · rw [Function.update_of_ne same] at isSome ⊢
      by_cases isRoot : r' = r
      · subst isRoot
        intro equal
        have present : tableAt mem.bytes
            (Function.update root r' (held holder) r') path ≠ 0 := by
          rw [equal]
          exact isSome
        rw [(root' path present).2] at equal
        exact same (holds.unique holder other some equal).symm
      · rw [others r' path isRoot]
        exact holds.notTable other isSome r' path bound

end AddRoot

end Holds

end Mem
end WhuOs
