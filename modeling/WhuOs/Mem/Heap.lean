import WhuOs.Mem.User

/-!
# Pages that are taken and mapped one after the other

`uvm_heap_grow` and `uvm_copy_pgtbl` take pages of the user region, fill them and
map them into one address space; `uvm_heap_ungrow` and the rollback of
`uvm_heap_grow` give such pages back.  One record says what memory is like
between any two of these steps.
-/

namespace WhuOs
namespace Mem

open Library
open Library.Bytes
open Program (Runs)

/-- A page that was taken and mapped, and what it was filled with. -/
structure Piece where
  vpn : Nat
  page : UInt64
  perm : UInt64
  contents : Bytes

variable {ρ : Type} [DecidableEq ρ] {root : ρ → UInt64}
  {mem₀ mem mem' : State} {free₀ free free' : Bool → List UInt64} {r : ρ}
  {va : UInt64} {pieces : List Piece} {dropped : List Nat}

/-- Since memory was `mem₀`, pages of the user region have been taken for some
virtual pages of an address space, and others have been given back. -/
structure Filled (root : ρ → UInt64) (r : ρ) (mem₀ : State)
    (free₀ : Bool → List UInt64) (pieces : List Piece) (dropped : List Nat)
    (mem : State) (free : Bool → List UInt64) : Prop where
  lists : FreeLists mem free
  tables : Tables mem.bytes root free
  kernelPgtbl : mem.kernelPgtbl = mem₀.kernelPgtbl
  user : (pieces.map Piece.page ++ free false).Perm (free₀ false)
  fewer : ∀ page ∈ free true, page ∈ free₀ true
  placed : ∀ r path, path.length ≤ 2 →
    tableAt mem.bytes (root r) path = tableAt mem₀.bytes (root r) path ∨
      tableAt mem₀.bytes (root r) path = 0 ∧
        tableAt mem.bytes (root r) path ∈ free₀ true
  flags : ∀ piece ∈ pieces, piece.perm.toNat < 1024
  nodup : (pieces.map Piece.vpn).Nodup
  inside : ∀ piece ∈ pieces, ∀ va, pageOf va = piece.vpn →
    pteAt mem.bytes (root r) va = leafPte piece.page piece.perm
  gone : ∀ va, pageOf va ∈ dropped → pageOf va ∉ pieces.map Piece.vpn →
    pteAt mem.bytes (root r) va = 0
  outside : ∀ r' va, ¬(r' = r ∧
      (pageOf va ∈ pieces.map Piece.vpn ∨ pageOf va ∈ dropped)) →
    pteAt mem.bytes (root r') va = pteAt mem₀.bytes (root r') va
  contents : ∀ piece ∈ pieces, ∀ offset < 4096,
    mem.bytes (piece.page.toNat + offset) = piece.contents offset
  others : ∀ page, Taken free₀ page →
    (∀ r path, path.length ≤ 2 → tableAt mem₀.bytes (root r) path ≠ page) →
    Unchanged page mem₀.bytes mem.bytes

/-- The lookup of an entry that is valid. -/
theorem lookup_valid
    {α : Type} (tables : Tables mem.bytes root free) (present : root r ≠ 0)
    (low : va < vaMax) (valid : isValid (pteAt mem.bytes (root r) va) = true)
    {body : UInt64 → UInt64 → MemM α} {skip : MemM α} {result : α} :
    (do
      let entry ← vmGetpte (root r) va false
      if entry ≠ 0 then
        let pte ← load entry
        if isValid pte then body entry pte else skip
      else skip : MemM α).Runs mem result mem' ↔
    (body (entryPointer mem.bytes (root r) va)
      (pteAt mem.bytes (root r) va)).Runs mem result mem' := by
  have isRoot : rootOf mem (root r) = root r := if_neg present
  have found := (vmGetpte_lookup tables isRoot present).mpr
    ⟨low, rfl, Eq.refl mem⟩
  have below := tableAt_of_isValid valid
  rw [found.bind_iff, if_pos (entryPointer_of_present tables below).2,
    (load_entryPointer tables below).bind_iff, if_pos valid]

namespace Filled

/-- Nothing was taken yet. -/
theorem refl
    (lists : FreeLists mem free) (tables : Tables mem.bytes root free) :
    Filled root r mem free [] [] mem free where
  lists
  tables
  kernelPgtbl := rfl
  user := List.Perm.refl _
  fewer _ member := member
  placed _ _ _ := Or.inl rfl
  flags := nofun
  nodup := List.nodup_nil
  inside := nofun
  gone := nofun
  outside _ _ _ := rfl
  contents := nofun
  others _ _ _ _ _ := rfl

section Initial

variable (lists₀ : FreeLists mem₀ free₀) (tables₀ : Tables mem₀.bytes root free₀)
  (filled : Filled root r mem₀ free₀ pieces dropped mem free)

include filled

theorem mem_free_of_piece {piece : Piece} (member : piece ∈ pieces) :
    piece.page ∈ free₀ false :=
  filled.user.subset (List.mem_append_left _ (List.mem_map_of_mem member))

theorem mem_free_of_free (inKernel : Bool) {page : UInt64}
    (member : page ∈ free inKernel) : page ∈ free₀ inKernel := by
  cases inKernel with
  | false => exact filled.user.subset (List.mem_append_right _ member)
  | true => exact filled.fewer page member

/-- A page that was not free before is not free. -/
theorem taken {page : UInt64} (taken : Taken free₀ page) : Taken free page :=
  taken.mono filled.mem_free_of_free

include lists₀

theorem nodup_pages : (pieces.map Piece.page ++ free false).Nodup :=
  filled.user.nodup_iff.mpr (lists₀.nodup false)

/-- The page of a piece is not free. -/
theorem taken_piece {piece : Piece} (member : piece ∈ pieces) :
    Taken free piece.page := by
  have wasFree := filled.mem_free_of_piece member
  refine ⟨lists₀.aligned false _ wasFree, fun inKernel isFree => ?_⟩
  cases inKernel with
  | false =>
      exact (List.nodup_append.mp (filled.nodup_pages lists₀)).2.2 _
        (List.mem_map_of_mem member) _ isFree rfl
  | true =>
      have same := lists₀.unique false true _ wasFree (filled.fewer _ isFree)
      cases same

include tables₀

/-- No table lies in a page that was free in the user region. -/
theorem notTable
    {page : UInt64} (wasFree : page ∈ free₀ false) (r' : ρ)
    (path : List (Fin 512)) (bound : path.length ≤ 2) :
    tableAt mem.bytes (root r') path ≠ page := by
  rcases filled.placed r' path bound with same | ⟨_, fromKernel⟩
  · rw [same]
    exact tables₀.notFree bound wasFree (lists₀.ne_null wasFree) r'
  · intro same
    rw [same] at fromKernel
    cases lists₀.unique false true _ wasFree fromKernel

omit lists₀ tables₀ in
/-- What holds of a page that was neither free nor a table holds on. -/
theorem notTable_of_taken
    {page : UInt64} (taken : Taken free₀ page)
    (notTable : ∀ r path, path.length ≤ 2 →
      tableAt mem₀.bytes (root r) path ≠ page)
    (r' : ρ) (path : List (Fin 512)) (bound : path.length ≤ 2) :
    tableAt mem.bytes (root r') path ≠ page := by
  rcases filled.placed r' path bound with same | ⟨_, fromKernel⟩
  · rw [same]
    exact notTable r' path bound
  · intro same
    rw [same] at fromKernel
    exact taken.notFree true fromKernel

end Initial

/-- `vm_mappages` for one page ends if there is a page for each table that is
missing, and leaves enough pages for the next one. -/
theorem vmMappages_enough
    (tables : Tables mem.bytes root free) (lists : FreeLists mem free)
    (present : root r ≠ 0) (aligned : Aligned va)
    (low : va.toNat + 4096 ≤ 2 ^ 38) (pa perm : UInt64)
    {paths : Finset (List (Fin 512))}
    (along : ∀ level < 2, pathTo va level ∈ paths)
    (enough : Enough mem.bytes (root r) free paths) :
    ∃ mem' free', (vmMappages (root r) va pa 4096 perm).Runs mem () mem' ∧
      Mapped root r (pageOf va) 1 (fun _ => leafPte pa perm) mem free mem'
        free' ∧
      Enough mem'.bytes (root r) free' paths := by
  have size : (4096 : UInt64).toNat = 4096 := rfl
  have max : vaMax.toNat = 2 ^ 38 := rfl
  have next : (va + 4096).toNat = va.toNat + 4096 := by
    rw [UInt64.toNat_add, size]
    omega
  have isRoot : rootOf mem (root r) = root r := if_neg present
  have lower : va < vaMax := by
    rw [UInt64.lt_iff_toNat_lt]
    omega
  have more : va < va + 4096 := by
    rw [UInt64.lt_iff_toNat_lt]
    omega
  obtain ⟨mem', maps⟩ := mapPage_total tables lists isRoot present
    (leafPte pa perm) lower along enough
  obtain ⟨_, free', mapped, kept⟩ := mapPage_mapped tables lists isRoot present
    maps
  refine ⟨mem', free', ?_, mapped, (kept paths along).mpr enough⟩
  unfold vmMappages
  rw [mapLoop_succ more]
  refine ⟨mem', maps, (mapLoop_none ?_).mpr rfl⟩
  rw [UInt64.lt_iff_toNat_lt]
  omega

section Take

variable (lists₀ : FreeLists mem₀ free₀) (tables₀ : Tables mem₀.bytes root free₀)
  (filled : Filled root r mem₀ free₀ pieces dropped mem free)

include lists₀ tables₀ filled

/-- What holds after a page was taken, filled and mapped. -/
theorem take_filled
    {page : UInt64} {rest : List UInt64} (isFree : free false = page :: rest)
    {perm : UInt64} (flags : perm.toNat < 1024)
    (fresh : pageOf va ∉ pieces.map Piece.vpn)
    {bytes : Bytes} (changed : ChangedIn page mem.bytes bytes)
    {contents : Bytes} (isFilled : ∀ offset < 4096,
      bytes (page.toNat + offset) = contents offset) {region : Region}
    (mapped : Mapped root r (pageOf va) 1 (fun _ => leafPte page perm)
      ((mem.setRegion false region).setBytes bytes)
      (Function.update free false rest) mem' free') :
    Filled root r mem₀ free₀ (pieces ++ [⟨pageOf va, page, perm, contents⟩]) dropped mem' free' := by
  have wasFree : page ∈ free₀ false := by
    refine filled.mem_free_of_free false ?_
    rw [isFree]
    exact List.mem_cons_self
  have taken₁ := filled.lists.taken_alloc isFree
  have fewer₁ : ∀ inKernel, ∀ other ∈ Function.update free false rest inKernel,
      other ∈ free inKernel :=
    fun inKernel other member => FreeLists.mem_of_mem_rest isFree member
  have notTable := filled.notTable lists₀ tables₀ wasFree
  have placed₂ := tableAt_of_notTable filled.tables changed taken₁.aligned
    notTable
  have ptes : ∀ r' va', ¬(r' = r ∧ pageOf va' = pageOf va) →
      pteAt mem'.bytes (root r') va' = pteAt mem.bytes (root r') va' := by
    intro r' va' differs
    rw [mapped.outside r' va' fun inside => differs ⟨inside.1, by omega⟩]
    exact pteAt_of_notTable filled.tables changed taken₁.aligned notTable r' va'
  have isNew : ∀ va', pageOf va' = pageOf va →
      pteAt mem'.bytes (root r) va' = leafPte page perm :=
    fun va' isPage => mapped.inside 0 Nat.zero_lt_one va' isPage
  have keeps : ∀ other, Taken free other → other ≠ page →
      (∀ r' path, path.length ≤ 2 →
        tableAt mem.bytes (root r') path ≠ other) →
      Unchanged other mem.bytes mem'.bytes := by
    intro other taken differs notTable'
    refine (changed.unchanged taken₁.aligned taken.aligned differs).trans ?_
    refine mapped.others other (taken.mono fewer₁) fun r' path bound => ?_
    rw [State.setBytes_bytes, placed₂ r' path bound]
    exact notTable' r' path bound
  have lastMapped : ∀ piece ∈ pieces ++ [(⟨pageOf va, page, perm, contents⟩ : Piece)],
      piece ∈ pieces ∨ piece = ⟨pageOf va, page, perm, contents⟩ := by
    intro piece member
    rcases List.mem_append.mp member with old | last
    · exact Or.inl old
    · exact Or.inr (List.mem_singleton.mp last)
  have vpns : (pieces ++ [(⟨pageOf va, page, perm, contents⟩ : Piece)]).map Piece.vpn =
        pieces.map Piece.vpn ++ [pageOf va] := List.map_append
  refine ⟨mapped.lists, mapped.tables, mapped.kernelPgtbl.trans ?_, ?_, ?_, ?_,
    ?_, ?_, ?_, ?_, ?_, ?_, ?_⟩
  · rw [← filled.kernelPgtbl]
    exact setRegion_kernelPgtbl _ _
  · have same : free' false = rest := by
      rw [mapped.user, Function.update_self]
    have user := filled.user
    rw [isFree] at user
    rw [List.map_append, List.append_assoc, same]
    exact user
  · intro other member
    exact filled.fewer other (fewer₁ true other (mapped.fewer other member))
  · intro r' path bound
    rcases mapped.placed r' path bound with same | ⟨absent, fromKernel⟩
    · rw [same, State.setBytes_bytes, placed₂ r' path bound]
      exact filled.placed r' path bound
    · rw [State.setBytes_bytes, placed₂ r' path bound] at absent
      refine Or.inr ⟨?_, filled.fewer _ (fewer₁ true _ fromKernel)⟩
      rcases filled.placed r' path bound with same | ⟨wasAbsent, _⟩
      · rw [← same]
        exact absent
      · exact wasAbsent
  · intro piece member
    rcases lastMapped piece member with old | rfl
    · exact filled.flags piece old
    · exact flags
  · rw [vpns]
    refine List.nodup_append.mpr ⟨filled.nodup, List.nodup_singleton _, ?_⟩
    intro vpn old other last same
    rw [same, List.mem_singleton.mp last] at old
    exact fresh old
  · intro piece member va' isPage
    rcases lastMapped piece member with old | rfl
    · rw [ptes r va', filled.inside piece old va' isPage]
      rintro ⟨_, samePage⟩
      rw [← samePage, isPage] at fresh
      exact fresh (List.mem_map_of_mem old)
    · exact isNew va' isPage
  · intro va' isDropped absent
    rw [vpns, List.mem_append, not_or, List.mem_singleton] at absent
    rw [ptes r va' fun inside => absent.2 inside.2]
    exact filled.gone va' isDropped absent.1
  · intro r' va' outside
    rw [vpns] at outside
    rw [ptes r' va', filled.outside r' va']
    · rintro ⟨same, isPiece | isDropped⟩
      · exact outside ⟨same, Or.inl (List.mem_append_left _ isPiece)⟩
      · exact outside ⟨same, Or.inr isDropped⟩
    · rintro ⟨same, samePage⟩
      exact outside ⟨same, Or.inl (List.mem_append_right _
        (List.mem_singleton.mpr samePage))⟩
  · intro piece member offset bound
    rcases lastMapped piece member with old | rfl
    · have differs : piece.page ≠ page := by
        have nodup := (List.nodup_append.mp (filled.nodup_pages lists₀)).2.2
        rw [isFree] at nodup
        exact nodup _ (List.mem_map_of_mem old) _ List.mem_cons_self
      have unchanged := keeps piece.page (filled.taken_piece lists₀ old) differs
        (filled.notTable lists₀ tables₀ (filled.mem_free_of_piece old))
      rw [unchanged.apply bound]
      exact filled.contents piece old offset bound
    · have unchanged : Unchanged page bytes mem'.bytes := by
        refine mapped.others page taken₁ fun r' path bound => ?_
        rw [State.setBytes_bytes, placed₂ r' path bound]
        exact notTable r' path bound
      exact (unchanged.apply bound).trans (isFilled offset bound)
  · intro other taken notTable'
    refine (filled.others other taken notTable').trans ?_
    refine keeps other (filled.taken taken) ?_
      (filled.notTable_of_taken taken notTable')
    rintro rfl
    exact taken.notFree false wasFree

/-- What holds after a page was taken and filled. -/
theorem take_prepared
    {page : UInt64} {rest : List UInt64} (isFree : free false = page :: rest)
    {bytes : Bytes} (changed : ChangedIn page mem.bytes bytes) :
    ∃ region, (pmemAlloc false).Runs mem page (mem.setRegion false region) ∧
      page ≠ 0 ∧
      FreeLists ((mem.setRegion false region).setBytes bytes)
        (Function.update free false rest) ∧
      Tables bytes root (Function.update free false rest) ∧
      ∀ r' path, path.length ≤ 2 → tableAt bytes (root r') path =
        tableAt mem.bytes (root r') path := by
  have wasFree : page ∈ free₀ false := by
    refine filled.mem_free_of_free false ?_
    rw [isFree]
    exact List.mem_cons_self
  obtain ⟨region, allocated, lists₁⟩ := filled.lists.alloc isFree
  have taken₁ := filled.lists.taken_alloc isFree
  have notTable := filled.notTable lists₀ tables₀ wasFree
  have tables₁ := filled.tables.mono fun inKernel other member =>
    FreeLists.mem_of_mem_rest isFree member
  exact ⟨region, allocated, lists₀.ne_null wasFree,
    lists₁.setBytes taken₁ changed,
    tables₁.of_notTable changed taken₁.aligned notTable
      fun _ _ taken _ => taken,
    tableAt_of_notTable filled.tables changed taken₁.aligned notTable⟩

/-- A page is taken, filled and mapped. -/
theorem take
    {page : UInt64} {rest : List UInt64} (isFree : free false = page :: rest)
    (present : root r ≠ 0) (aligned : Aligned va)
    (low : va.toNat + 4096 ≤ 2 ^ 38) {perm : UInt64}
    (flags : perm.toNat < 1024) (fresh : pageOf va ∉ pieces.map Piece.vpn)
    {bytes : Bytes} (changed : ChangedIn page mem.bytes bytes)
    {contents : Bytes} (isFilled : ∀ offset < 4096,
      bytes (page.toNat + offset) = contents offset) :
    ∃ mem₁, (pmemAlloc false).Runs mem page mem₁ ∧ page ≠ 0 ∧
      mem₁.bytes = mem.bytes ∧
      (∀ mem', (vmMappages (root r) va page 4096 perm).Runs
          (mem₁.setBytes bytes) () mem' →
        ∃ free', Filled root r mem₀ free₀ (pieces ++ [⟨pageOf va, page, perm, contents⟩]) dropped mem' free' ∧
          free' false = rest) ∧
      ∀ paths, (∀ level < 2, pathTo va level ∈ paths) →
        Enough mem.bytes (root r) free paths →
        ∃ mem' free', (vmMappages (root r) va page 4096 perm).Runs
            (mem₁.setBytes bytes) () mem' ∧
          Filled root r mem₀ free₀ (pieces ++ [⟨pageOf va, page, perm, contents⟩]) dropped mem' free' ∧
          free' false = rest ∧ Enough mem'.bytes (root r) free' paths := by
  obtain ⟨region, allocated, notNull, lists₂, tables₂, placed₂⟩ :=
    filled.take_prepared lists₀ tables₀ isFree changed
  refine ⟨_, allocated, notNull, setRegion_bytes _ _, fun mem' maps => ?_,
    fun paths along enough => ?_⟩
  · obtain ⟨free', mapped⟩ := vmMappages_page tables₂ lists₂ present aligned
      low maps
    refine ⟨free', filled.take_filled lists₀ tables₀ isFree flags fresh changed
      isFilled mapped, ?_⟩
    rw [mapped.user, Function.update_self]
  · have same : Function.update free false rest true = free true :=
      Function.update_of_ne (by decide) _ _
    have enough₂ : Enough bytes (root r) (Function.update free false rest)
        paths := by
      have kept := (enough_congr
        (show ∀ path, path.length ≤ 2 →
          tableAt (mem.setBytes bytes).bytes (root r) path =
            tableAt mem.bytes (root r) path from placed₂ r)).mpr enough
      unfold Enough at kept ⊢
      rw [same]
      exact kept
    obtain ⟨mem', free', maps, mapped, enough'⟩ := vmMappages_enough tables₂
      lists₂ present aligned low page perm along enough₂
    refine ⟨mem', free', maps, filled.take_filled lists₀ tables₀ isFree flags
      fresh changed isFilled mapped, ?_, enough'⟩
    rw [mapped.user, Function.update_self]

end Take

section Give

variable (lists₀ : FreeLists mem₀ free₀) (tables₀ : Tables mem₀.bytes root free₀)
  {before after : List Piece} {piece : Piece}
  (filled : Filled root r mem₀ free₀ (before ++ piece :: after) dropped mem
    free)

include lists₀ tables₀ filled

/-- What holds after a page was given back and its entry was cleared. -/
theorem give_filled
    (isPage : pageOf va = piece.vpn)
    (lists' : FreeLists (mem.giveBack piece.page false)
      (Function.update free false (piece.page :: free false)))
    (mapped : Mapped root r (pageOf va) 1 (fun _ => 0)
      (mem.giveBack piece.page false)
      (Function.update free false (piece.page :: free false)) mem'
      (Function.update free false (piece.page :: free false))) :
    Filled root r mem₀ free₀ (before ++ after) (piece.vpn :: dropped) mem'
      (Function.update free false (piece.page :: free false)) := by
  have member : piece ∈ before ++ piece :: after :=
    List.mem_append_right _ List.mem_cons_self
  have wasFree := filled.mem_free_of_piece member
  have taken := filled.taken_piece lists₀ member
  have notTable := filled.notTable lists₀ tables₀ wasFree
  have changed := changedIn_giveBack mem piece.page false
  have placed := tableAt_of_notTable filled.tables changed taken.aligned
    notTable
  have ptes : ∀ r' va', ¬(r' = r ∧ pageOf va' = piece.vpn) →
      pteAt mem'.bytes (root r') va' = pteAt mem.bytes (root r') va' := by
    intro r' va' differs
    rw [mapped.outside r' va' fun inside => differs ⟨inside.1, by omega⟩]
    exact pteAt_of_notTable filled.tables changed taken.aligned notTable r' va'
  have subset : ∀ other, other ∈ before ++ after →
      other ∈ before ++ piece :: after := by
    intro other isOther
    rcases List.mem_append.mp isOther with isBefore | isAfter
    · exact List.mem_append_left _ isBefore
    · exact List.mem_append_right _ (List.mem_cons_of_mem _ isAfter)
  have split : ((before ++ piece :: after).map Piece.vpn).Perm
      (piece.vpn :: (before ++ after).map Piece.vpn) := by
    rw [List.map_append, List.map_append, List.map_cons]
    exact List.perm_middle
  have nodup := List.nodup_cons.mp (split.nodup_iff.mp filled.nodup)
  have pages : ((before ++ piece :: after).map Piece.page).Perm
      (piece.page :: (before ++ after).map Piece.page) := by
    rw [List.map_append, List.map_append, List.map_cons]
    exact List.perm_middle
  have pagesNodup := List.nodup_cons.mp (pages.nodup_iff.mp
    (List.nodup_append.mp (filled.nodup_pages lists₀)).1)
  have keeps : ∀ other, Taken free other → other ≠ piece.page →
      (∀ r' path, path.length ≤ 2 →
        tableAt mem.bytes (root r') path ≠ other) →
      Unchanged other mem.bytes mem'.bytes := by
    intro other isTaken differs notTable'
    refine (changed.unchanged taken.aligned isTaken.aligned differs).trans ?_
    refine mapped.others other ⟨isTaken.aligned, fun inKernel isFree => ?_⟩ ?_
    · rcases FreeLists.mem_of_mem_cons isFree with ⟨same, _⟩ | stillFree
      · exact differs same
      · exact isTaken.notFree inKernel stillFree
    · intro r' path bound
      rw [placed r' path bound]
      exact notTable' r' path bound
  refine ⟨mapped.lists, mapped.tables, mapped.kernelPgtbl.trans ?_, ?_, ?_, ?_,
    ?_, nodup.2, ?_, ?_, ?_, ?_, ?_⟩
  · rw [← filled.kernelPgtbl]
    exact setRegion_kernelPgtbl _ _
  · rw [Function.update_self]
    refine List.Perm.trans ?_ filled.user
    exact List.perm_middle.trans (pages.symm.append_right _)
  · intro other isFree
    rw [Function.update_of_ne (by decide)] at isFree
    exact filled.fewer other isFree
  · intro r' path bound
    rcases mapped.placed r' path bound with same | ⟨absent, fromKernel⟩
    · rw [same, placed r' path bound]
      exact filled.placed r' path bound
    · rw [placed r' path bound] at absent
      rw [Function.update_of_ne (by decide)] at fromKernel
      refine Or.inr ⟨?_, filled.fewer _ fromKernel⟩
      rcases filled.placed r' path bound with same | ⟨wasAbsent, _⟩
      · rw [← same]
        exact absent
      · exact wasAbsent
  · intro other isOther
    exact filled.flags other (subset other isOther)
  · intro other isOther va' isPage'
    rw [ptes r va', filled.inside other (subset other isOther) va' isPage']
    rintro ⟨_, same⟩
    rw [← same, isPage'] at nodup
    exact nodup.1 (List.mem_map_of_mem isOther)
  · intro va' isDropped absent
    by_cases same : pageOf va' = piece.vpn
    · exact mapped.inside 0 Nat.zero_lt_one va' (same.trans isPage.symm)
    · rw [ptes r va' fun inside => same inside.2]
      refine filled.gone va' ?_ ?_
      · rcases List.mem_cons.mp isDropped with isThis | isOther
        · exact absurd isThis same
        · exact isOther
      · intro isPiece
        rcases List.mem_cons.mp (split.subset isPiece) with isThis | isOther
        · exact same isThis
        · exact absent isOther
  · intro r' va' outside
    rw [ptes r' va', filled.outside r' va']
    · rintro ⟨same, isPiece | isDropped⟩
      · rcases List.mem_cons.mp (split.subset isPiece) with isThis | isOther
        · refine outside ⟨same, Or.inr ?_⟩
          rw [isThis]
          exact List.mem_cons_self
        · exact outside ⟨same, Or.inl isOther⟩
      · exact outside ⟨same, Or.inr (List.mem_cons_of_mem _ isDropped)⟩
    · rintro ⟨same, isThis⟩
      refine outside ⟨same, Or.inr ?_⟩
      rw [isThis]
      exact List.mem_cons_self
  · intro other isOther offset bound
    have isPiece := subset other isOther
    have differs : other.page ≠ piece.page := by
      intro same
      rw [← same] at pagesNodup
      exact pagesNodup.1 (List.mem_map_of_mem isOther)
    have unchanged := keeps other.page (filled.taken_piece lists₀ isPiece)
      differs (filled.notTable lists₀ tables₀
        (filled.mem_free_of_piece isPiece))
    rw [unchanged.apply bound]
    exact filled.contents other isPiece offset bound
  · intro other taken' notTable'
    refine (filled.others other taken' notTable').trans ?_
    refine keeps other (filled.taken taken') ?_
      (filled.notTable_of_taken taken' notTable')
    rintro rfl
    exact taken'.notFree false wasFree

/-- A page is given back. -/
theorem give
    (present : root r ≠ 0) (low : va < vaMax)
    (isPage : pageOf va = piece.vpn) :
    ∃ mem' free', (freeMapping (root r) va).Runs mem () mem' ∧
      Filled root r mem₀ free₀ (before ++ after) (piece.vpn :: dropped) mem'
        free' := by
  have member : piece ∈ before ++ piece :: after :=
    List.mem_append_right _ List.mem_cons_self
  have wasFree := filled.mem_free_of_piece member
  have taken := filled.taken_piece lists₀ member
  have notTable := filled.notTable lists₀ tables₀ wasFree
  have isEntry := filled.inside piece member va isPage
  have valid : isValid (pteAt mem.bytes (root r) va) = true := by
    rw [isEntry]
    exact isValid_leafPte _ _
  have isPiecePage : pteToPa (pteAt mem.bytes (root r) va) = piece.page := by
    rw [isEntry, pteToPa_leafPte taken.aligned (filled.flags piece member)]
  have room : (free false).length + 1 < 2 ^ 32 := by
    have total := filled.user.length_eq
    have counted := lists₀.counted false
    have bound := (mem₀.region false).allocable.toNat_lt
    simp only [List.length_append, List.length_map, List.length_cons] at total
    omega
  have lists' := filled.lists.giveBack taken (lists₀.ne_null wasFree) room
  have changed := changedIn_giveBack mem piece.page false
  have tables' : Tables (mem.giveBack piece.page false).bytes root
      (Function.update free false (piece.page :: free false)) := by
    refine filled.tables.of_notTable changed taken.aligned notTable ?_
    rintro page _ isTaken ⟨r', path, bound, same⟩
    refine ⟨isTaken.aligned, fun inKernel isFree => ?_⟩
    rcases FreeLists.mem_of_mem_cons isFree with ⟨isThis, _⟩ | stillFree
    · exact notTable r' path bound (same.trans isThis)
    · exact isTaken.notFree inKernel stillFree
  have placed := tableAt_of_notTable filled.tables changed taken.aligned
    notTable r (pathTo va 0) (Nat.le_refl 2)
  have below : tableAt (mem.giveBack piece.page false).bytes (root r)
      (pathTo va 0) ≠ 0 := by
    rw [placed]
    exact tableAt_of_isValid valid
  have samePointer : entryPointer mem.bytes (root r) va = entryPointer
      (mem.giveBack piece.page false).bytes (root r) va := by
    unfold entryPointer
    rw [placed]
  have mapped := Mapped.storeLeaf 0 tables' lists' below
  refine ⟨_, _, ?_, filled.give_filled lists₀ tables₀ isPage lists' mapped⟩
  refine (lookup_valid filled.tables present low valid).mpr ?_
  have gives : (pmemFree piece.page false).Runs mem ()
      (mem.giveBack piece.page false) := pmemFree_runs.mpr rfl
  rw [isPiecePage, gives.bind_iff, samePointer]
  exact store_entryPointer tables' below 0

end Give

end Filled

/-! ## The heap -/

/-- A page of the heap as `uvm_heap_grow` maps it. -/
def heapPiece (vpn : Nat) (page : UInt64) : Piece :=
  ⟨vpn, page, pteR ||| pteW ||| pteU, fun _ => 0⟩

/-- Pages of the heap that follow one another. -/
def heapPieces : (vpn : Nat) → (pages : List UInt64) → List Piece
  | _, [] => []
  | vpn, page :: pages => heapPiece vpn page :: heapPieces (vpn + 1) pages

theorem heapPieces_append (vpn : Nat) (pages more : List UInt64) :
    heapPieces vpn (pages ++ more) =
      heapPieces vpn pages ++ heapPieces (vpn + pages.length) more := by
  induction pages generalizing vpn with
  | nil => rfl
  | cons page pages inductionHypothesis =>
      rw [List.cons_append, heapPieces, inductionHypothesis, heapPieces,
        List.length_cons, List.cons_append, Nat.add_assoc vpn 1,
        Nat.add_comm 1]

theorem heapPieces_vpn (vpn : Nat) (pages : List UInt64) :
    (heapPieces vpn pages).map Piece.vpn = List.range' vpn pages.length := by
  induction pages generalizing vpn with
  | nil => rfl
  | cons page pages inductionHypothesis =>
      rw [heapPieces, List.map_cons, inductionHypothesis, List.length_cons,
        List.range'_succ]
      rfl

theorem heapPieces_page (vpn : Nat) (pages : List UInt64) :
    (heapPieces vpn pages).map Piece.page = pages := by
  induction pages generalizing vpn with
  | nil => rfl
  | cons page pages inductionHypothesis =>
      rw [heapPieces, List.map_cons, inductionHypothesis]
      rfl

theorem heapPieces_zero
    {vpn : Nat} {pages : List UInt64} {piece : Piece}
    (member : piece ∈ heapPieces vpn pages) (offset : Nat) :
    piece.contents offset = 0 := by
  induction pages generalizing vpn with
  | nil => cases member
  | cons page pages inductionHypothesis =>
      rcases List.mem_cons.mp member with rfl | others
      · rfl
      · exact inductionHypothesis others

theorem heapPiece_mem
    (vpn : Nat) (pages : List UInt64) {index : Nat}
    (bound : index < pages.length) :
    heapPiece (vpn + index) (pages.get ⟨index, bound⟩) ∈
      heapPieces vpn pages := by
  induction pages generalizing vpn index with
  | nil => cases bound
  | cons page pages inductionHypothesis =>
      cases index with
      | zero => exact List.mem_cons_self
      | succ index =>
          have member := inductionHypothesis (vpn + 1)
            (Nat.lt_of_succ_lt_succ bound)
          rw [Nat.add_assoc, Nat.add_comm 1] at member
          exact List.mem_cons_of_mem _ member

/-- One page more at the end of the pages that follow one another. -/
structure NextPage (first va page : UInt64) (done : List UInt64) : Prop where
  aligned : Aligned va
  next : (va + 4096).toNat = va.toNat + 4096
  fresh : va.toNat / 4096 ∉
    (heapPieces (first.toNat / 4096) done).map Piece.vpn
  pieces : heapPieces (first.toNat / 4096) (done ++ [page]) =
    heapPieces (first.toNat / 4096) done ++ [heapPiece (va.toNat / 4096) page]
  range : PageRange first (va + 4096) (done ++ [page]).length

theorem PageRange.nextPage
    {first : UInt64} {done : List UInt64}
    (start : PageRange first va done.length) (low : va.toNat + 4096 ≤ 2 ^ 38)
    (page : UInt64) : NextPage first va page done := by
  have size : (4096 : UInt64).toNat = 4096 := rfl
  have starts := start.ends
  have aligned := start.aligned
  have next : (va + 4096).toNat = va.toNat + 4096 := by
    rw [UInt64.toNat_add, size]
    omega
  unfold Aligned at aligned
  have isVpn : first.toNat / 4096 + done.length = va.toNat / 4096 := by omega
  refine ⟨?_, next, ?_, ?_, start.aligned, ?_, ?_⟩
  · unfold Aligned
    omega
  · rw [heapPieces_vpn, List.mem_range'_1]
    omega
  · rw [heapPieces_append, isVpn]
    rfl
  · rw [next, List.length_append, List.length_singleton, Nat.mul_add,
      ← Nat.add_assoc, starts]
  · rw [next]
    exact low

section Loops

variable (lists₀ : FreeLists mem₀ free₀) (tables₀ : Tables mem₀.bytes root free₀)
  (present : root r ≠ 0) {first stop : UInt64} {pages : List UInt64}
  {fuel : Nat}

include lists₀ tables₀ present

/-- A range of pages is given back. -/
theorem Filled.freeRange
    {kept : List Piece}
    (filled : Filled root r mem₀ free₀
      (kept ++ heapPieces (va.toNat / 4096) pages) dropped mem free)
    (range : PageRange va stop pages.length) (fueled : pages.length ≤ fuel) :
    ∃ mem' free' dropped', (freeRange (root r) stop fuel va).Runs mem () mem' ∧
      Filled root r mem₀ free₀ kept dropped' mem' free' ∧
      ∀ vpn, vpn ∈ dropped' ↔ vpn ∈ dropped ∨
        va.toNat / 4096 ≤ vpn ∧ vpn < va.toNat / 4096 + pages.length := by
  induction pages generalizing va mem free dropped fuel with
  | nil =>
      have stops : (Mem.freeRange (root r) stop fuel va).Runs mem () mem := by
        cases fuel with
        | zero => exact Program.runs_pure.mpr ⟨rfl, rfl⟩
        | succ fuel =>
            rw [Mem.freeRange, if_neg range.not_lt]
            exact Program.runs_pure.mpr ⟨rfl, rfl⟩
      rw [heapPieces, List.append_nil] at filled
      refine ⟨mem, free, dropped, stops, filled, fun vpn => ?_⟩
      rw [List.length_nil]
      constructor
      · exact Or.inl
      · rintro (isDropped | inside)
        · exact isDropped
        · omega
  | cons page pages inductionHypothesis =>
      obtain ⟨fuel, rfl⟩ := Nat.exists_eq_succ_of_ne_zero
        (Nat.ne_of_gt (Nat.lt_of_lt_of_le (Nat.succ_pos _) fueled))
      obtain ⟨mem₁, free₁, frees, filled₁⟩ := filled.give lists₀ tables₀ present
        range.start_lt range.pageOf_start
      rw [← range.next_page] at filled₁
      obtain ⟨mem', free', dropped', rest, filled', members⟩ :=
        inductionHypothesis filled₁ range.next
          (Nat.le_of_succ_le_succ fueled)
      refine ⟨mem', free', dropped', ?_, filled', fun vpn => ?_⟩
      · rw [Mem.freeRange, if_pos range.lt, frees.bind_iff]
        exact rest
      · rw [members, List.mem_cons, range.next_page, List.length_cons]
        have isVpn : (heapPiece (va.toNat / 4096) page).vpn =
            va.toNat / 4096 := rfl
        rw [isVpn]
        constructor
        · rintro ((isThis | isDropped) | inside)
          · exact Or.inr ⟨by omega, by omega⟩
          · exact Or.inl isDropped
          · exact Or.inr ⟨by omega, by omega⟩
        · rintro (isDropped | inside)
          · exact Or.inl (Or.inr isDropped)
          · by_cases isThis : vpn = va.toNat / 4096
            · exact Or.inl (Or.inl isThis)
            · exact Or.inr ⟨by omega, by omega⟩

/-- One turn of the loop of `uvm_heap_grow` when a page is left. -/
theorem Filled.growStep
    (filled : Filled root r mem₀ free₀ pieces dropped mem free)
    {page : UInt64} {rest : List UInt64} (isFree : free false = page :: rest)
    (fresh : va.toNat / 4096 ∉ pieces.map Piece.vpn) (aligned : Aligned va)
    (below : va < stop) (low : va.toNat + 4096 ≤ 2 ^ 38) :
    (∀ grown mem', (growLoop (root r) first stop (fuel + 1) va).Runs mem grown
        mem' → ∃ middle free', Filled root r mem₀ free₀
          (pieces ++ [heapPiece (va.toNat / 4096) page]) dropped middle free' ∧
        free' false = rest ∧
        (growLoop (root r) first stop fuel (va + 4096)).Runs middle grown
          mem') ∧
    ∀ paths, (∀ level < 2, pathTo va level ∈ paths) →
      Enough mem.bytes (root r) free paths →
      ∃ middle free', Filled root r mem₀ free₀
          (pieces ++ [heapPiece (va.toNat / 4096) page]) dropped middle free' ∧
        free' false = rest ∧ Enough middle.bytes (root r) free' paths ∧
        ∀ grown mem', (growLoop (root r) first stop fuel (va + 4096)).Runs
            middle grown mem' →
          (growLoop (root r) first stop (fuel + 1) va).Runs mem grown mem' := by
  have flags : (pteR ||| pteW ||| pteU).toNat < 1024 := by decide
  have changed := changedIn_cleared mem.bytes page
  have isPage : pageOf va = va.toNat / 4096 := by
    unfold pageOf
    omega
  rw [← isPage] at fresh
  have zero : ∀ offset < 4096,
      clearedBytes mem.bytes page (page.toNat + offset) = 0 := by
    intro offset bound
    exact memmove_of_mem _ _ ⟨by omega, by omega⟩
  obtain ⟨mem₁, allocated, notNull, sameBytes, maps, mapsEnough⟩ :=
    filled.take lists₀ tables₀ isFree present aligned low flags fresh changed
      zero
  have turn : ∀ grown mem', (growLoop (root r) first stop (fuel + 1) va).Runs
      mem grown mem' ↔ ∃ middle,
        (vmMappages (root r) va page 4096 (pteR ||| pteW ||| pteU)).Runs
          (mem₁.setBytes (clearedBytes mem.bytes page)) () middle ∧
        (growLoop (root r) first stop fuel (va + 4096)).Runs middle grown
          mem' := by
    intro grown mem'
    have clears := (clearPage_runs notNull).mpr
      (Eq.refl (mem₁.setBytes (clearedBytes mem₁.bytes page)))
    rw [sameBytes] at clears
    rw [growLoop, if_pos below, allocated.bind_iff, if_neg notNull,
      clears.bind_iff, Program.runs_bind]
    constructor
    · rintro ⟨_, middle, run, rest⟩
      exact ⟨middle, run, rest⟩
    · rintro ⟨middle, run, rest⟩
      exact ⟨(), middle, run, rest⟩
  have isPiece : heapPiece (va.toNat / 4096) page =
      ⟨pageOf va, page, pteR ||| pteW ||| pteU, fun _ => 0⟩ := by
    rw [isPage]
    rfl
  rw [isPiece]
  refine ⟨fun grown mem' run => ?_, fun paths along enough => ?_⟩
  · obtain ⟨middle, run, rest⟩ := (turn grown mem').mp run
    obtain ⟨free', filled', isRest⟩ := maps middle run
    exact ⟨middle, free', filled', isRest, rest⟩
  · obtain ⟨middle, free', run, filled', isRest, enough'⟩ :=
      mapsEnough paths along enough
    exact ⟨middle, free', filled', isRest, enough',
      fun grown mem' rest => (turn grown mem').mpr ⟨middle, run, rest⟩⟩

omit [DecidableEq ρ] lists₀ tables₀ present in
/-- `vm_mappages` returns for addresses below `VA_MAX` only. -/
theorem vmMappages_low
    {pgtbl pa perm : UInt64} (room : va.toNat + 4096 < 2 ^ 64)
    (run : (vmMappages pgtbl va pa 4096 perm).Runs mem () mem') : va < vaMax := by
  have size : (4096 : UInt64).toNat = 4096 := rfl
  have more : va < va + 4096 := by
    rw [UInt64.lt_iff_toNat_lt, UInt64.toNat_add, size]
    omega
  obtain ⟨middle, maps, _⟩ := (mapLoop_succ more).mp run
  unfold mapPage at maps
  obtain ⟨_, _, found, _⟩ := Program.runs_bind.mp maps
  exact (vmGetpte_runs.mp found).1

omit tables₀ present in
/-- The loop of `uvm_heap_grow` goes on only below `VA_MAX`. -/
theorem Filled.growLoop_low
    (filled : Filled root r mem₀ free₀ pieces dropped mem free)
    {page : UInt64} {rest : List UInt64} (isFree : free false = page :: rest)
    (below : va < stop) (room : va.toNat + 4096 < 2 ^ 64) {grown : Bool}
    (run : (growLoop (root r) first stop (fuel + 1) va).Runs mem grown mem') :
    va < vaMax := by
  have wasFree : page ∈ free₀ false := by
    refine filled.mem_free_of_free false ?_
    rw [isFree]
    exact List.mem_cons_self
  obtain ⟨region, allocated, _⟩ := filled.lists.alloc isFree
  rw [Mem.growLoop, if_pos below, allocated.bind_iff,
    if_neg (lists₀.ne_null wasFree), Program.runs_bind] at run
  obtain ⟨_, cleared, _, run⟩ := run
  obtain ⟨_, middle, maps, _⟩ := Program.runs_bind.mp run
  exact vmMappages_low room maps

omit lists₀ tables₀ present in
/-- Nothing is left to do. -/
theorem Filled.growLoop_finished
    {vpn : Nat} {done : List UInt64} {grown : Bool} {remaining : Nat}
    (filled : Filled root r mem₀ free₀ (heapPieces vpn done) dropped mem free)
    (low : va.toNat ≤ 2 ^ 38)
    (ends : va.toNat + 4096 * remaining = stop.toNat) (none : remaining = 0)
    (run : (pure true : MemM Bool).Runs mem grown mem') :
    grown = true ∧ remaining ≤ (free false).length ∧ stop.toNat ≤ 2 ^ 38 ∧
      ∃ free', Filled root r mem₀ free₀
        (heapPieces vpn (done ++ (free false).take remaining)) dropped mem'
        free' := by
  obtain ⟨rfl, rfl⟩ := Program.runs_pure.mp run
  subst none
  rw [List.take_zero, List.append_nil, ← ends]
  exact ⟨rfl, Nat.zero_le _, low, free, filled⟩

/-- What the loop of `uvm_heap_grow` did when it ended. -/
theorem Filled.growLoop
    {done : List UInt64}
    (filled : Filled root r mem₀ free₀ (heapPieces (first.toNat / 4096) done)
      dropped mem free)
    (start : PageRange first va done.length) {remaining : Nat}
    (ends : va.toNat + 4096 * remaining = stop.toNat)
    (fueled : remaining ≤ fuel) {grown : Bool}
    (run : (growLoop (root r) first stop fuel va).Runs mem grown mem') :
    grown = true ∧ remaining ≤ (free false).length ∧ stop.toNat ≤ 2 ^ 38 ∧
      (∃ free', Filled root r mem₀ free₀ (heapPieces (first.toNat / 4096)
        (done ++ (free false).take remaining)) dropped mem' free') ∨
    grown = false ∧ (free false).length < remaining ∧
      first.toNat + 4096 * (done.length + (free false).length) ≤ 2 ^ 38 ∧
      ∃ free' dropped', Filled root r mem₀ free₀ [] dropped' mem' free' ∧
        ∀ vpn, vpn ∈ dropped' ↔ vpn ∈ dropped ∨ first.toNat / 4096 ≤ vpn ∧
          vpn < first.toNat / 4096 + (done.length + (free false).length) := by
  induction fuel generalizing va mem free done remaining with
  | zero =>
      exact Or.inl (filled.growLoop_finished start.low ends
        (Nat.le_zero.mp fueled) run)
  | succ fuel inductionHypothesis =>
      by_cases below : va < stop
      · have more := UInt64.lt_iff_toNat_lt.mp below
        obtain ⟨remaining, rfl⟩ : ∃ count, remaining = count + 1 :=
          Nat.exists_eq_add_one.mpr (by omega)
        have starts := start.ends
        have startLow := start.low
        have startAligned := start.aligned
        unfold Aligned at startAligned
        cases isFree : free false with
        | nil =>
            -- no page is left
            have allocated := filled.lists.alloc_empty isFree
            have fueled' : done.length ≤ rangeFuel first va := by
              unfold rangeFuel pgSize
              omega
            have filled₁ : Filled root r mem₀ free₀
                ([] ++ heapPieces (first.toNat / 4096) done) dropped mem free :=
              filled
            obtain ⟨final, free', dropped', frees, filled', members⟩ :=
              filled₁.freeRange lists₀ tables₀ present start fueled'
            rw [Mem.growLoop, if_pos below, allocated.bind_iff, if_pos rfl,
              frees.bind_iff] at run
            obtain ⟨rfl, rfl⟩ := Program.runs_pure.mp run
            refine Or.inr ⟨rfl, Nat.succ_pos _, ?_, free', dropped', filled',
              fun vpn => ?_⟩
            · rw [List.length_nil, Nat.add_zero, starts]
              exact startLow
            · rw [members, List.length_nil, Nat.add_zero]
        | cons page rest =>
            have lower := UInt64.lt_iff_toNat_lt.mp
              (filled.growLoop_low lists₀ isFree below (by omega) run)
            have max : vaMax.toNat = 2 ^ 38 := rfl
            have low : va.toNat + 4096 ≤ 2 ^ 38 := by omega
            have nextPage := start.nextPage low page
            have next := nextPage.next
            obtain ⟨middle, free₁, filled₁, isRest, rest'⟩ :=
              (filled.growStep lists₀ tables₀ present isFree nextPage.fresh
                nextPage.aligned below low).1 grown mem' run
            rw [← nextPage.pieces] at filled₁
            have ends' : (va + 4096).toNat + 4096 * remaining = stop.toNat := by
              omega
            have outcome := inductionHypothesis filled₁ nextPage.range ends'
              (Nat.le_of_succ_le_succ fueled) rest'
            rw [isRest, List.append_assoc, List.length_append,
              List.length_singleton] at outcome
            rw [List.length_cons, List.take_succ_cons]
            rcases outcome with ⟨isTrue, fits, final⟩ | ⟨isFalse, full, final⟩
            · exact Or.inl ⟨isTrue, Nat.succ_le_succ fits, final⟩
            · rw [Nat.add_assoc, Nat.add_comm 1] at final
              exact Or.inr ⟨isFalse, Nat.succ_lt_succ full, final⟩
      · rw [Mem.growLoop, if_neg below] at run
        refine Or.inl (filled.growLoop_finished start.low ends ?_ run)
        rw [UInt64.lt_iff_toNat_lt] at below
        omega

/-- The loop of `uvm_heap_grow` ends if there is a page for each table that is
missing. -/
theorem Filled.growLoop_total
    {done : List UInt64}
    (filled : Filled root r mem₀ free₀ (heapPieces (first.toNat / 4096) done)
      dropped mem free)
    (start : PageRange first va done.length) {remaining : Nat}
    (ends : va.toNat + 4096 * remaining = stop.toNat)
    {paths : Finset (List (Fin 512))}
    (reached : ∀ index < remaining, index < (free false).length →
      va.toNat + 4096 * index + 4096 ≤ 2 ^ 38 ∧ ∀ level < 2,
        pathTo (va + 4096 * UInt64.ofNat index) level ∈ paths)
    (enough : Enough mem.bytes (root r) free paths) :
    ∃ grown mem', (Mem.growLoop (root r) first stop fuel va).Runs mem grown
      mem' := by
  induction fuel generalizing va mem free done remaining with
  | zero => exact ⟨true, mem, Program.runs_pure.mpr ⟨rfl, rfl⟩⟩
  | succ fuel inductionHypothesis =>
      by_cases below : va < stop
      · have more := UInt64.lt_iff_toNat_lt.mp below
        obtain ⟨remaining, rfl⟩ : ∃ count, remaining = count + 1 :=
          Nat.exists_eq_add_one.mpr (by omega)
        have starts := start.ends
        cases isFree : free false with
        | nil =>
            have allocated := filled.lists.alloc_empty isFree
            have fueled' : done.length ≤ rangeFuel first va := by
              unfold rangeFuel pgSize
              omega
            have filled₁ : Filled root r mem₀ free₀
                ([] ++ heapPieces (first.toNat / 4096) done) dropped mem free :=
              filled
            obtain ⟨final, _, _, frees, _⟩ :=
              filled₁.freeRange lists₀ tables₀ present start fueled'
            refine ⟨false, final, ?_⟩
            rw [Mem.growLoop, if_pos below, allocated.bind_iff, if_pos rfl,
              frees.bind_iff]
            exact Program.runs_pure.mpr ⟨rfl, rfl⟩
        | cons page rest =>
            rw [isFree, List.length_cons] at reached
            obtain ⟨low, along₀⟩ :=
              reached 0 (Nat.succ_pos remaining) (Nat.succ_pos rest.length)
            rw [offset_zero] at along₀
            have nextPage := start.nextPage low page
            have next := nextPage.next
            obtain ⟨middle, free₁, filled₁, isRest, enough₁, back⟩ :=
              (filled.growStep lists₀ tables₀ present isFree nextPage.fresh
                nextPage.aligned below low).2 paths along₀ enough
            rw [← nextPage.pieces] at filled₁
            have ends' : (va + 4096).toNat + 4096 * remaining = stop.toNat := by
              omega
            have reached' : ∀ index < remaining,
                index < (free₁ false).length →
                (va + 4096).toNat + 4096 * index + 4096 ≤ 2 ^ 38 ∧
                  ∀ level < 2, pathTo (va + 4096 + 4096 * UInt64.ofNat index)
                    level ∈ paths := by
              intro index bound bound'
              rw [isRest] at bound'
              obtain ⟨low', along⟩ := reached (index + 1)
                (Nat.succ_lt_succ bound) (Nat.succ_lt_succ bound')
              rw [offset_succ] at along
              exact ⟨by omega, along⟩
            obtain ⟨grown, mem', rest'⟩ := inductionHypothesis filled₁
              nextPage.range ends' reached' enough₁
            exact ⟨grown, mem', back grown mem' rest'⟩
      · refine ⟨true, mem, ?_⟩
        rw [Mem.growLoop, if_neg below]
        exact Program.runs_pure.mpr ⟨rfl, rfl⟩

end Loops

end Mem
end WhuOs
