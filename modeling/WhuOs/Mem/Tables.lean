import WhuOs.Library.Forest
import WhuOs.Mem.Entries

/-!
# Page tables as maps

The tables of page tables form a forest of height two.  Seen from outside, a
page table is a function from virtual pages to entries: `vm_getpte` adds tables
without changing this function, and a store through the pointer it returns
changes it for one page.
-/

namespace WhuOs
namespace Mem

open Library
open Library.Bytes
open Program (Runs)

/-! ## The forest of tables -/

/-- The page an entry points to, or 0 if the entry is not valid. -/
def childOf (bytes : Bytes) (table : UInt64) (index : Fin 512) : UInt64 :=
  if isValid (entryOf bytes table index) then
    pteToPa (entryOf bytes table index)
  else 0

/-- The index of a virtual address in a table of a level. -/
def vpn (va : UInt64) (level : Nat) : Fin 512 :=
  ⟨va.toNat / 2 ^ (12 + 9 * level) % 512, Nat.mod_lt _ (by decide)⟩

/-- The way from the root to the table of a level. -/
def pathTo (va : UInt64) : Nat → List (Fin 512)
  | 0 => [vpn va 2, vpn va 1]
  | 1 => [vpn va 2]
  | _ => []

/-- The table at the end of a path, or 0 if there is none. -/
def tableAt (bytes : Bytes) (root : UInt64) (path : List (Fin 512)) : UInt64 :=
  Forest.value 0 (childOf bytes) root path

/-- The entry for a virtual address, or 0 if there is none. -/
def pteAt (bytes : Bytes) (root va : UInt64) : UInt64 :=
  if tableAt bytes root (pathTo va 0) = 0 then 0
  else entryOf bytes (tableAt bytes root (pathTo va 0)) (vpn va 0)

variable {ρ : Type} {root : ρ → UInt64} {bytes bytes' : Bytes}
  {free : Bool → List UInt64}

/-- Three-level page tables whose tables are distinct pages that are not
free. -/
structure Tables (bytes : Bytes) (root : ρ → UInt64)
    (free : Bool → List UInt64) : Prop where
  aligned : ∀ r, Aligned (root r)
  sound : Forest.Sound 0 (fun _ => 2) root (childOf bytes) (Taken free)
  pointer : ∀ r path index, path.length < 2 →
    tableAt bytes (root r) path ≠ 0 →
    isValid (entryOf bytes (tableAt bytes (root r) path) index) = true →
    pteCheck (entryOf bytes (tableAt bytes (root r) path) index) = true ∧
      pteToPa (entryOf bytes (tableAt bytes (root r) path) index) ≠ 0

theorem pathTo_succ (va : UInt64) {level : Nat} (bound : level < 2) :
    pathTo va level = pathTo va (level + 1) ++ [vpn va (level + 1)] := by
  interval_cases level <;> rfl

theorem pathTo_length (va : UInt64) {level : Nat} (bound : level ≤ 2) :
    (pathTo va level).length = 2 - level := by
  interval_cases level <;> rfl

theorem tableAt_concat (bytes : Bytes) (root : UInt64) (path : List (Fin 512))
    (index : Fin 512) :
    tableAt bytes root (path ++ [index]) =
      if tableAt bytes root path = 0 then 0
      else childOf bytes (tableAt bytes root path) index :=
  Forest.value_concat root path index

theorem aligned_zero : Aligned 0 := by decide

theorem aligned_childOf (bytes : Bytes) (table : UInt64) (index : Fin 512) :
    Aligned (childOf bytes table index) := by
  unfold childOf
  split
  · exact aligned_pteToPa _
  · exact aligned_zero

namespace Tables

theorem aligned_tableAt
    (tables : Tables bytes root free) (r : ρ) (path : List (Fin 512)) :
    Aligned (tableAt bytes (root r) path) := by
  induction path using List.reverseRecOn with
  | nil => exact tables.aligned r
  | append_singleton front last inductionHypothesis =>
      rw [tableAt_concat]
      split
      · exact aligned_zero
      · exact aligned_childOf _ _ _

theorem taken_tableAt
    (tables : Tables bytes root free) {r : ρ} {path : List (Fin 512)}
    (bound : path.length ≤ 2) (present : tableAt bytes (root r) path ≠ 0) :
    Taken free (tableAt bytes (root r) path) :=
  tables.sound.marked r path bound present

theorem unique
    (tables : Tables bytes root free) {r r' : ρ} {path path' : List (Fin 512)}
    (bound : path.length ≤ 2) (bound' : path'.length ≤ 2)
    (present : tableAt bytes (root r) path ≠ 0)
    (same : tableAt bytes (root r) path = tableAt bytes (root r') path') :
    r = r' ∧ path = path' :=
  tables.sound.unique r r' path path' bound bound' present same

end Tables

/-- Pages that are taken stay taken when more pages are. -/
theorem Taken.mono
    {free' : Bool → List UInt64} {page : UInt64} (taken : Taken free page)
    (fewer : ∀ inKernel, ∀ other ∈ free' inKernel, other ∈ free inKernel) :
    Taken free' page :=
  ⟨taken.aligned, fun inKernel member =>
    taken.notFree inKernel (fewer inKernel page member)⟩

/-! ## Writes to tables -/

/-- The tables do not depend on what is written to other pages. -/
theorem childOf_of_ne
    {page table : UInt64} (changed : ChangedIn page bytes bytes')
    (aligned : Aligned page) (aligned' : Aligned table)
    (differs : table ≠ page) :
    childOf bytes' table = childOf bytes table := by
  funext index
  unfold childOf
  rw [entryOf_of_ne changed aligned aligned' differs]

/-- Bytes after a store to an entry. -/
def storeEntry (bytes : Bytes) (table : UInt64) (index : Fin 512)
    (value : UInt64) : Bytes :=
  write64 bytes (table.toNat + 8 * index) value

theorem changedIn_storeEntry
    (bytes : Bytes) (table : UInt64) (index : Fin 512) (value : UInt64) :
    ChangedIn table bytes (storeEntry bytes table index value) :=
  changedIn_store

/-- A new table is linked where none was. -/
theorem childOf_storeEntry
    (bytes : Bytes) (table fresh : UInt64) (index : Fin 512)
    (aligned : Aligned fresh) :
    childOf (storeEntry bytes table index (leafPte fresh 0)) table =
      Function.update (childOf bytes table) index fresh := by
  funext other
  unfold childOf storeEntry
  by_cases same : other = index
  · subst same
    have noFlags : (0 : UInt64).toNat < 1024 := by decide
    rw [Function.update_self, entryOf_store_self, if_pos (isValid_leafPte _ _),
      pteToPa_leafPte aligned noFlags]
  · rw [Function.update_of_ne same, entryOf_store_of_ne _ _ _ same]

theorem childOf_eq_zero
    {table : UInt64} {index : Fin 512}
    (invalid : isValid (entryOf bytes table index) = false) :
    childOf bytes table index = 0 := by
  unfold childOf
  rw [invalid]
  rfl

theorem Tables.notFree
    (tables : Tables bytes root free) {path : List (Fin 512)}
    (bound : path.length ≤ 2) {inKernel : Bool} {fresh : UInt64}
    (isFree : fresh ∈ free inKernel) (notNull : fresh ≠ 0) (r : ρ) :
    tableAt bytes (root r) path ≠ fresh := by
  rintro rfl
  exact (tables.taken_tableAt bound notNull).notFree inKernel isFree

/-- What may happen to memory when tables are added and entries are stored.  The
tables that were there stay where they are, new tables are pages that were free,
and other pages keep their contents. -/
structure Grown (root : ρ → UInt64) (mem : State) (free : Bool → List UInt64)
    (mem' : State) (free' : Bool → List UInt64) : Prop where
  lists : FreeLists mem' free'
  tables : Tables mem'.bytes root free'
  kernelPgtbl : mem'.kernelPgtbl = mem.kernelPgtbl
  user : free' false = free false
  fewer : ∀ page ∈ free' true, page ∈ free true
  placed : ∀ r path, path.length ≤ 2 →
    tableAt mem'.bytes (root r) path = tableAt mem.bytes (root r) path ∨
      tableAt mem.bytes (root r) path = 0 ∧
        tableAt mem'.bytes (root r) path ∈ free true
  others : ∀ page, Taken free page →
    (∀ r path, path.length ≤ 2 → tableAt mem.bytes (root r) path ≠ page) →
    ∀ address, InPage address page → mem'.bytes address = mem.bytes address

namespace Grown

variable {mem mem' mem'' : State} {free' free'' : Bool → List UInt64}

theorem refl (lists : FreeLists mem free) (tables : Tables mem.bytes root free) :
    Grown root mem free mem free where
  lists := lists
  tables := tables
  kernelPgtbl := rfl
  user := rfl
  fewer := fun _ member => member
  placed := fun _ _ _ => Or.inl rfl
  others := fun _ _ _ _ _ => rfl

theorem fewer_all
    (grown : Grown root mem free mem' free') (inKernel : Bool) :
    ∀ page ∈ free' inKernel, page ∈ free inKernel := by
  cases inKernel with
  | false =>
      rw [grown.user]
      exact fun _ member => member
  | true => exact grown.fewer

theorem taken
    (grown : Grown root mem free mem' free') {page : UInt64}
    (taken : Taken free page) : Taken free' page :=
  taken.mono grown.fewer_all

/-- Pages that were taken do not become tables. -/
theorem notTable
    (grown : Grown root mem free mem' free') {page : UInt64}
    (taken : Taken free page)
    (notTable : ∀ r path, path.length ≤ 2 →
      tableAt mem.bytes (root r) path ≠ page)
    (r : ρ) (path : List (Fin 512)) (bound : path.length ≤ 2) :
    tableAt mem'.bytes (root r) path ≠ page := by
  rcases grown.placed r path bound with same | ⟨_, wasFree⟩
  · rw [same]
    exact notTable r path bound
  · rintro rfl
    exact taken.notFree true wasFree

theorem trans
    (first : Grown root mem free mem' free')
    (second : Grown root mem' free' mem'' free'') :
    Grown root mem free mem'' free'' where
  lists := second.lists
  tables := second.tables
  kernelPgtbl := second.kernelPgtbl.trans first.kernelPgtbl
  user := second.user.trans first.user
  fewer := fun page member => first.fewer page (second.fewer page member)
  placed := by
    intro r path bound
    rcases second.placed r path bound with same | ⟨missing, wasFree⟩
    · rw [same]
      exact first.placed r path bound
    · rcases first.placed r path bound with same | ⟨absent, _⟩
      · exact Or.inr ⟨same.symm.trans missing, first.fewer _ wasFree⟩
      · exact Or.inr ⟨absent, first.fewer _ wasFree⟩
  others := by
    intro page taken notTable address inside
    rw [second.others page (first.taken taken) (first.notTable taken notTable)
        address inside,
      first.others page taken notTable address inside]

end Grown

section Attach

variable {mem : State} {r : ρ} {path : List (Fin 512)} {index : Fin 512}
  {fresh : UInt64} {rest : List UInt64}

/-- Bytes after a free page was cleared and linked as a new table. -/
def attachBytes (bytes : Bytes) (table : UInt64) (index : Fin 512)
    (fresh : UInt64) : Bytes :=
  storeEntry (clearedBytes bytes fresh) table index (leafPte fresh 0)

/-- Pages other than the new table and the one that points to it. -/
theorem attachBytes_of_ne
    {table page : UInt64} (aligned : Aligned table) (aligned' : Aligned fresh)
    (pageAligned : Aligned page) (notTable : page ≠ table)
    (notFresh : page ≠ fresh) {address : Nat} (inside : InPage address page) :
    attachBytes bytes table index fresh address = bytes address := by
  unfold attachBytes
  rw [changedIn_storeEntry _ _ _ _ _ fun other =>
      notTable (pageAligned.eq_of_inPage aligned inside other),
    changedIn_cleared _ _ _ fun other =>
      notFresh (pageAligned.eq_of_inPage aligned' inside other)]

theorem entryOf_attachBytes_of_ne
    {table page : UInt64} (aligned : Aligned table) (aligned' : Aligned fresh)
    (pageAligned : Aligned page) (notTable : page ≠ table)
    (notFresh : page ≠ fresh) (other : Fin 512) :
    entryOf (attachBytes bytes table index fresh) page other =
      entryOf bytes page other := by
  unfold attachBytes
  rw [entryOf_of_ne (changedIn_storeEntry _ _ _ _) aligned pageAligned
      notTable,
    entryOf_of_ne (changedIn_cleared _ _) aligned' pageAligned notFresh]

theorem entryOf_attachBytes_fresh
    {table : UInt64} (aligned : Aligned table) (aligned' : Aligned fresh)
    (differs : fresh ≠ table) (other : Fin 512) :
    entryOf (attachBytes bytes table index fresh) fresh other = 0 := by
  unfold attachBytes
  rw [entryOf_of_ne (changedIn_storeEntry _ _ _ _) aligned aligned' differs,
    entryOf_cleared]

variable (tables : Tables bytes root free) (isFree : fresh ∈ free true)
  (freshAligned : Aligned fresh) (notNull : fresh ≠ 0)
  (short : path.length < 2)

include tables isFree freshAligned notNull short

/-- The pointers after the new table was linked. -/
theorem childOf_attach :
    childOf (attachBytes bytes (tableAt bytes (root r) path) index fresh)
        (tableAt bytes (root r) path) =
      Function.update (childOf bytes (tableAt bytes (root r) path)) index
        fresh := by
  have differs := tables.notFree (Nat.le_of_lt short) isFree notNull r
  unfold attachBytes
  rw [childOf_storeEntry _ _ _ _ freshAligned,
    childOf_of_ne (changedIn_cleared _ _) freshAligned
      (tables.aligned_tableAt r path) differs]

theorem childOf_attach_fresh (other : Fin 512) :
    childOf (attachBytes bytes (tableAt bytes (root r) path) index fresh) fresh
      other = 0 := by
  refine childOf_eq_zero ?_
  rw [← not_isValid_zero]
  exact congrArg isValid (entryOf_attachBytes_fresh
    (tables.aligned_tableAt r path) freshAligned
    (tables.notFree (Nat.le_of_lt short) isFree notNull r).symm other)

omit notNull short in
theorem childOf_attach_others
    {block : UInt64} (taken : Taken free block)
    (notTable : block ≠ tableAt bytes (root r) path) :
    childOf (attachBytes bytes (tableAt bytes (root r) path) index fresh)
      block = childOf bytes block := by
  have notFresh : block ≠ fresh := by
    rintro rfl
    exact taken.notFree true isFree
  funext other
  unfold childOf
  rw [entryOf_attachBytes_of_ne (tables.aligned_tableAt r path) freshAligned
    taken.aligned notTable notFresh]

variable [DecidableEq ρ] (present : tableAt bytes (root r) path ≠ 0)
  (invalid : isValid (entryOf bytes (tableAt bytes (root r) path) index) =
    false)

include present invalid

/-- The new table appears at one place. -/
theorem tableAt_attach
    (r' : ρ) (path' : List (Fin 512)) (bound : path'.length ≤ 2) :
    tableAt (attachBytes bytes (tableAt bytes (root r) path) index fresh)
        (root r') path' =
      if r' = r ∧ path' = path ++ [index] then fresh
      else tableAt bytes (root r') path' := by
  exact Forest.value_attach tables.sound short rfl present
    (childOf_eq_zero invalid) notNull
    (childOf_attach tables isFree freshAligned notNull short)
    (childOf_attach_fresh tables isFree freshAligned notNull short)
    (fun _ => childOf_attach_others tables isFree freshAligned) bound

/-- The entries that are not at the place of the new table. -/
theorem pteAt_attach (r' : ρ) (va : UInt64) :
    pteAt (attachBytes bytes (tableAt bytes (root r) path) index fresh)
        (root r') va = pteAt bytes (root r') va := by
  have tableAligned := tables.aligned_tableAt r path
  have differs := tables.notFree (Nat.le_of_lt short) isFree notNull r
  have length : (pathTo va 0).length = 2 := rfl
  have appears := tableAt_attach tables isFree freshAligned notNull short
    present invalid r' _ (Nat.le_of_eq length)
  unfold pteAt
  by_cases isNew : r' = r ∧ pathTo va 0 = path ++ [index]
  · rw [if_pos isNew] at appears
    obtain ⟨rfl, isPath⟩ := isNew
    rw [appears, if_neg notNull, isPath, tableAt_concat, if_neg present,
      childOf_eq_zero invalid, if_pos rfl]
    exact entryOf_attachBytes_fresh tableAligned freshAligned differs.symm _
  · rw [if_neg isNew] at appears
    rw [appears]
    split
    · rfl
    · rename_i below
      refine entryOf_attachBytes_of_ne tableAligned freshAligned
        (tables.aligned_tableAt r' _) ?_ ?_ _
      · intro same
        have short' := (tables.unique (Nat.le_of_eq length)
          (Nat.le_of_lt short) below same).2
        rw [← short', length] at short
        exact absurd short (Nat.lt_irrefl _)
      · exact tables.notFree (Nat.le_of_eq length) isFree notNull r'

/-- The tables that were there do not change, except for the new pointer. -/
theorem entryOf_attach_tableAt
    (r' : ρ) {path' : List (Fin 512)} (bound : path'.length ≤ 2)
    (below : tableAt bytes (root r') path' ≠ 0) (other : Fin 512) :
    entryOf (attachBytes bytes (tableAt bytes (root r) path) index fresh)
        (tableAt bytes (root r') path') other =
      if r' = r ∧ path' = path ∧ other = index then leafPte fresh 0
      else entryOf bytes (tableAt bytes (root r') path') other := by
  have tableAligned := tables.aligned_tableAt r path
  have differs := tables.notFree (Nat.le_of_lt short) isFree notNull r
  by_cases same : tableAt bytes (root r') path' = tableAt bytes (root r) path
  · obtain ⟨rfl, rfl⟩ := tables.unique bound (Nat.le_of_lt short) below same
    by_cases isIndex : other = index
    · rw [if_pos ⟨rfl, rfl, isIndex⟩, isIndex]
      exact entryOf_store_self _ _ _ _
    · rw [if_neg fun all => isIndex all.2.2]
      unfold attachBytes storeEntry
      rw [entryOf_store_of_ne _ _ _ isIndex,
        entryOf_of_ne (changedIn_cleared _ _) freshAligned tableAligned
          differs]
  · rw [if_neg]
    · exact entryOf_attachBytes_of_ne tableAligned freshAligned
        (tables.aligned_tableAt r' _) same
        (tables.notFree bound isFree notNull r') _
    · rintro ⟨rfl, rfl, _⟩
      exact same rfl

/-- The tables after a free page was linked among them. -/
theorem Tables.attach
    {free' : Bool → List UInt64} (freshTaken : Taken free' fresh)
    (fewer : ∀ inKernel, ∀ page ∈ free' inKernel, page ∈ free inKernel) :
    Tables (attachBytes bytes (tableAt bytes (root r) path) index fresh) root
      free' := by
  have tableAligned := tables.aligned_tableAt r path
  have differs := tables.notFree (Nat.le_of_lt short) isFree notNull r
  have appears := tableAt_attach tables isFree freshAligned notNull short
    present invalid
  have sound := Forest.Sound.attach tables.sound short rfl present
    (childOf_eq_zero invalid) (fun taken => taken.notFree true isFree) notNull
    (childOf_attach tables isFree freshAligned notNull short)
    (childOf_attach_fresh tables isFree freshAligned notNull short)
    (fun _ => childOf_attach_others tables isFree freshAligned)
  refine ⟨tables.aligned, ⟨fun r' path' bound below => ?_, sound.unique⟩,
    fun r' path' other bound below valid => ?_⟩
  · rcases sound.marked r' path' bound below with taken | isFresh
    · exact taken.mono fewer
    · rw [isFresh]
      exact freshTaken
  · rw [appears r' path' (Nat.le_of_lt bound)] at below valid ⊢
    by_cases isNew : r' = r ∧ path' = path ++ [index]
    · rw [if_pos isNew, entryOf_attachBytes_fresh tableAligned freshAligned
        differs.symm] at valid
      cases not_isValid_zero.symm.trans valid
    · rw [if_neg isNew] at below valid ⊢
      have stored := entryOf_attach_tableAt tables isFree freshAligned notNull
        short present invalid r' (Nat.le_of_lt bound) below other
      by_cases atPointer : r' = r ∧ path' = path ∧ other = index
      · rw [if_pos atPointer] at stored
        rw [stored]
        have noFlags : (0 : UInt64).toNat < 1024 := by decide
        rw [pteToPa_leafPte freshAligned noFlags]
        exact ⟨pteCheck_leafPte_zero _, notNull⟩
      · rw [if_neg atPointer] at stored
        rw [stored] at valid ⊢
        exact tables.pointer r' path' other bound below valid

end Attach

/-- A new table is linked where none was. -/
theorem Grown.attach
    [DecidableEq ρ] {mem : State} {r : ρ} {path : List (Fin 512)}
    {index : Fin 512} {fresh : UInt64} {rest : List UInt64} {region : Region}
    (tables : Tables mem.bytes root free) (lists : FreeLists mem free)
    (isFree : free true = fresh :: rest)
    (allocated : FreeLists (mem.setRegion true region)
      (Function.update free true rest))
    (short : path.length < 2)
    (present : tableAt mem.bytes (root r) path ≠ 0)
    (invalid :
      isValid (entryOf mem.bytes (tableAt mem.bytes (root r) path) index) =
        false) :
    Grown root mem free
      ((mem.setRegion true region).setBytes (attachBytes mem.bytes
        (tableAt mem.bytes (root r) path) index fresh))
      (Function.update free true rest) := by
  have member : fresh ∈ free true := by
    rw [isFree]
    exact List.mem_cons_self
  have freshAligned := lists.aligned true fresh member
  have notNull := lists.ne_null member
  have tableAligned := tables.aligned_tableAt r path
  have differs := tables.notFree (Nat.le_of_lt short) member notNull r
  have freshTaken := lists.taken_alloc isFree
  have fewer : ∀ inKernel, ∀ page ∈ Function.update free true rest inKernel,
      page ∈ free inKernel :=
    fun _ _ => FreeLists.mem_of_mem_rest isFree
  have tableTaken := (tables.taken_tableAt (Nat.le_of_lt short) present).mono
    fewer
  have appears := tableAt_attach tables member freshAligned notNull short
    present invalid
  constructor
  · have cleared := allocated.setBytes freshTaken (changedIn_cleared _ _)
    exact cleared.setBytes tableTaken (changedIn_storeEntry _ _ _ _)
  · exact tables.attach member freshAligned notNull short present invalid
      freshTaken fewer
  · exact setRegion_kernelPgtbl _ _
  · exact Function.update_of_ne Bool.false_ne_true _ _
  · exact fewer true
  · intro r' path' bound
    rw [State.setBytes_bytes, appears r' path' bound]
    by_cases isNew : r' = r ∧ path' = path ++ [index]
    · rw [if_pos isNew, isNew.1, isNew.2, tableAt_concat, if_neg present,
        childOf_eq_zero invalid]
      exact Or.inr ⟨rfl, member⟩
    · rw [if_neg isNew]
      exact Or.inl rfl
  · intro page taken notTable address inside
    rw [State.setBytes_bytes]
    refine attachBytes_of_ne tableAligned freshAligned taken.aligned
      (fun same => notTable r path (Nat.le_of_lt short) same.symm) ?_ inside
    rintro rfl
    exact taken.notFree true member

/-! ## Stores to entries of the last level -/

/-- The number of the page of a virtual address. -/
def pageOf (va : UInt64) : Nat := va.toNat / 4096 % 2 ^ 27

/-- Addresses of one page have the same entry, and no others do. -/
theorem pageOf_eq_iff {va va' : UInt64} :
    pageOf va = pageOf va' ↔ pathTo va 0 = pathTo va' 0 ∧
      vpn va 0 = vpn va' 0 := by
  simp only [pathTo, vpn, pageOf, List.cons.injEq, Fin.mk.injEq, and_true]
  constructor
  · intro same
    omega
  · rintro ⟨⟨_, _⟩, _⟩
    omega

theorem pteAt_congr
    {bytes : Bytes} {table va va' : UInt64} (same : pageOf va = pageOf va') :
    pteAt bytes table va = pteAt bytes table va' := by
  obtain ⟨samePath, sameIndex⟩ := pageOf_eq_iff.mp same
  unfold pteAt
  rw [samePath, sameIndex]

section Kept

variable (kept : ∀ r path index, path.length < 2 →
  tableAt bytes (root r) path ≠ 0 →
  entryOf bytes' (tableAt bytes (root r) path) index =
    entryOf bytes (tableAt bytes (root r) path) index)

include kept

/-- Tables are reached through the entries above the last level. -/
theorem tableAt_of_kept
    (r : ρ) (path : List (Fin 512)) (bound : path.length ≤ 2) :
    tableAt bytes' (root r) path = tableAt bytes (root r) path := by
  apply Forest.value_congr
  intro before index after split below
  have short : before.length < 2 := by
    rw [split, List.length_append, List.length_cons] at bound
    omega
  change childOf bytes' (tableAt _ _ _) index =
    childOf bytes (tableAt _ _ _) index
  unfold childOf
  rw [kept r before index short below]

/-- The tables of memory that keeps the entries above the last level. -/
theorem Tables.of_kept
    (tables : Tables bytes root free) {free' : Bool → List UInt64}
    (taken : ∀ page, page ≠ 0 → Taken free page →
      (∃ r path, path.length ≤ 2 ∧ tableAt bytes (root r) path = page) →
      Taken free' page) :
    Tables bytes' root free' := by
  have placed := tableAt_of_kept kept
  refine ⟨tables.aligned, ⟨fun r path bound below => ?_,
    fun r₁ r₂ path₁ path₂ bound₁ bound₂ below equal => ?_⟩,
    fun r path index bound below valid => ?_⟩
  · change tableAt _ _ _ ≠ 0 at below
    change Taken free' (tableAt _ _ _)
    rw [placed r path bound] at below ⊢
    exact taken _ below (tables.taken_tableAt bound below) ⟨r, path, bound, rfl⟩
  · change tableAt _ _ _ ≠ 0 at below
    change tableAt _ _ _ = tableAt _ _ _ at equal
    rw [placed r₁ path₁ bound₁] at below equal
    rw [placed r₂ path₂ bound₂] at equal
    exact tables.unique bound₁ bound₂ below equal
  · rw [placed r path (Nat.le_of_lt bound)] at below valid ⊢
    rw [kept r path index bound below] at valid ⊢
    exact tables.pointer r path index bound below valid

end Kept

section StoreLeaf

variable {mem : State} {r : ρ} {va value : UInt64}
  (tables : Tables bytes root free)
  (present : tableAt bytes (root r) (pathTo va 0) ≠ 0)

include tables

/-- A store to an entry of the last level keeps the others. -/
theorem entryOf_storeLeaf
    (r' : ρ) (path' : List (Fin 512)) (index : Fin 512)
    (short : path'.length < 2) (below : tableAt bytes (root r') path' ≠ 0) :
    entryOf (storeEntry bytes (tableAt bytes (root r) (pathTo va 0)) (vpn va 0)
        value) (tableAt bytes (root r') path') index =
      entryOf bytes (tableAt bytes (root r') path') index := by
  have length : (pathTo va 0).length = 2 := rfl
  refine entryOf_of_ne (changedIn_storeEntry _ _ _ _)
    (tables.aligned_tableAt r _) (tables.aligned_tableAt r' path') ?_ index
  intro same
  have samePath := (tables.unique (Nat.le_of_lt short) (Nat.le_of_eq length)
    below same).2
  rw [samePath, length] at short
  exact Nat.lt_irrefl 2 short

theorem tableAt_storeLeaf
    (r' : ρ) (path' : List (Fin 512)) (bound : path'.length ≤ 2) :
    tableAt (storeEntry bytes (tableAt bytes (root r) (pathTo va 0)) (vpn va 0)
        value) (root r') path' = tableAt bytes (root r') path' :=
  tableAt_of_kept (entryOf_storeLeaf tables) r' path' bound

/-- The tables after a store to an entry of the last level. -/
theorem Tables.storeLeaf :
    Tables (storeEntry bytes (tableAt bytes (root r) (pathTo va 0)) (vpn va 0)
      value) root free :=
  tables.of_kept (entryOf_storeLeaf tables) fun _ _ taken _ => taken

include present

/-- One entry changes. -/
theorem pteAt_storeLeaf [DecidableEq ρ] (r' : ρ) (va' : UInt64) :
    pteAt (storeEntry bytes (tableAt bytes (root r) (pathTo va 0)) (vpn va 0)
        value) (root r') va' =
      if r' = r ∧ pageOf va' = pageOf va then value
      else pteAt bytes (root r') va' := by
  have length : ∀ va, (pathTo va 0).length ≤ 2 := fun _ => Nat.le_refl _
  unfold pteAt
  rw [tableAt_storeLeaf tables r' _ (length va')]
  by_cases same : r' = r ∧ pageOf va' = pageOf va
  · rw [if_pos same]
    obtain ⟨rfl, samePage⟩ := same
    obtain ⟨samePath, sameIndex⟩ := pageOf_eq_iff.mp samePage
    rw [samePath, sameIndex, if_neg present]
    exact entryOf_store_self _ _ _ _
  · rw [if_neg same]
    split
    · rfl
    · rename_i below
      by_cases sameTable : tableAt bytes (root r') (pathTo va' 0) =
          tableAt bytes (root r) (pathTo va 0)
      · obtain ⟨rfl, samePath⟩ := tables.unique (length va') (length va) below
          sameTable
        rw [samePath]
        refine entryOf_store_of_ne _ _ _ fun sameIndex => same ⟨rfl, ?_⟩
        exact pageOf_eq_iff.mpr ⟨samePath, sameIndex⟩
      · exact entryOf_of_ne (changedIn_storeEntry _ _ _ _)
          (tables.aligned_tableAt r _) (tables.aligned_tableAt r' _) sameTable
          _

end StoreLeaf

/-- An entry of the last level is stored. -/
theorem Grown.storeLeaf
    {mem : State} {r : ρ} {va : UInt64} (value : UInt64)
    (tables : Tables mem.bytes root free) (lists : FreeLists mem free)
    (present : tableAt mem.bytes (root r) (pathTo va 0) ≠ 0) :
    Grown root mem free
      (mem.setBytes (storeEntry mem.bytes
        (tableAt mem.bytes (root r) (pathTo va 0)) (vpn va 0) value)) free := by
  have length : (pathTo va 0).length ≤ 2 := Nat.le_refl _
  have taken := tables.taken_tableAt length present
  constructor
  · exact lists.setBytes taken (changedIn_storeEntry _ _ _ _)
  · exact tables.storeLeaf
  · rfl
  · rfl
  · exact fun _ member => member
  · intro r' path' bound
    exact Or.inl (tableAt_storeLeaf tables r' path' bound)
  · intro page pageTaken notTable address inside
    refine changedIn_storeEntry _ _ _ _ address fun atTable => ?_
    exact notTable r _ length
      (taken.aligned.eq_of_inPage pageTaken.aligned atTable inside)

end Mem
end WhuOs
