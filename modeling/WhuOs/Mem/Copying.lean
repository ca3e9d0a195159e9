import WhuOs.Mem.Growth

/-!
# Copying an address space

`uvm_copy_pgtbl` copies the pages of the heap upwards and those of the user
stack downwards.  The offset of a stack page is a product of 32-bit numbers, so
the loop over the stack comes back to its first page after `2 ^ 20` pages.
-/

namespace WhuOs
namespace Mem

open Library
open Library.Bytes
open Program (Runs)

variable {ρ : Type} [DecidableEq ρ] {root : ρ → UInt64} {old new r : ρ}
  {mem₀ mem mem' : State} {free₀ free free' : Bool → List UInt64}
  {va : UInt64} {done : Nat → Prop} {copy : Nat → UInt64}

/-! ## One page after the other -/

omit [DecidableEq ρ] in
/-- The lookup of an entry that is not valid. -/
theorem lookup_invalid
    {α : Type} (tables : Tables mem.bytes root free) (present : root r ≠ 0)
    (low : va < vaMax)
    (invalid : isValid (pteAt mem.bytes (root r) va) = false)
    {body : UInt64 → UInt64 → MemM α} {skip : MemM α} {result : α} :
    (do
      let entry ← vmGetpte (root r) va false
      if entry ≠ 0 then
        let pte ← load entry
        if isValid pte then body entry pte else skip
      else skip : MemM α).Runs mem result mem' ↔
    skip.Runs mem result mem' := by
  have isRoot : rootOf mem (root r) = root r := if_neg present
  have found := (vmGetpte_lookup tables isRoot present).mpr
    ⟨low, rfl, Eq.refl mem⟩
  rw [found.bind_iff]
  by_cases below : tableAt mem.bytes (root r) (pathTo va 0) = 0
  · rw [if_neg (not_not.mpr ((entryPointer_eq_zero tables).mpr below))]
  · rw [if_pos (entryPointer_of_present tables below).2,
      (load_entryPointer tables below).bind_iff, invalid, if_neg (by decide)]

/-- The pages of an address space are neither free nor tables. -/
def OwnPages (root : ρ → UInt64) (r : ρ) (mem : State)
    (free : Bool → List UInt64) : Prop :=
  ∀ va, isValid (pteAt mem.bytes (root r) va) = true →
    Taken free (pteToPa (pteAt mem.bytes (root r) va)) ∧
    ∀ r' path, path.length ≤ 2 → tableAt mem.bytes (root r') path ≠
      pteToPa (pteAt mem.bytes (root r) va)

/-- A page that has been looked at and is mapped. -/
def IsCopied (root : ρ → UInt64) (old : ρ) (mem₀ : State) (done : Nat → Prop)
    (va : UInt64) : Prop :=
  done (pageOf va) ∧ isValid (pteAt mem₀.bytes (root old) va) = true

/-- Since memory was `mem₀`, pages of one address space have been copied to
pages of the user region and mapped into another. -/
structure Copying (root : ρ → UInt64) (old new : ρ) (mem₀ : State)
    (free₀ : Bool → List UInt64) (done : Nat → Prop) (copy : Nat → UInt64)
    (mem : State) (free : Bool → List UInt64) : Prop where
  lists : FreeLists mem free
  tables : Tables mem.bytes root free
  fewer : ∀ inKernel, ∀ page ∈ free inKernel, page ∈ free₀ inKernel
  placed : ∀ r path, path.length ≤ 2 →
    tableAt mem.bytes (root r) path = tableAt mem₀.bytes (root r) path ∨
      tableAt mem₀.bytes (root r) path = 0 ∧
        tableAt mem.bytes (root r) path ∈ free₀ true
  fresh : ∀ va, IsCopied root old mem₀ done va →
    copy (pageOf va) ∈ free₀ false ∧ copy (pageOf va) ∉ free false
  injective : ∀ va va', IsCopied root old mem₀ done va →
    IsCopied root old mem₀ done va' → copy (pageOf va) = copy (pageOf va') →
    pageOf va = pageOf va'
  inside : ∀ va, IsCopied root old mem₀ done va →
    pteAt mem.bytes (root new) va = leafPte (copy (pageOf va))
      (pteFlags (pteAt mem₀.bytes (root old) va))
  contents : ∀ va, IsCopied root old mem₀ done va → ∀ offset < 4096,
    mem.bytes ((copy (pageOf va)).toNat + offset) = mem₀.bytes
      ((pteToPa (pteAt mem₀.bytes (root old) va)).toNat + offset)
  outside : ∀ r va, ¬(r = new ∧ IsCopied root old mem₀ done va) →
    pteAt mem.bytes (root r) va = pteAt mem₀.bytes (root r) va
  others : ∀ page, Taken free₀ page →
    (∀ r path, path.length ≤ 2 → tableAt mem₀.bytes (root r) path ≠ page) →
    Unchanged page mem₀.bytes mem.bytes

namespace Copying

omit [DecidableEq ρ] in
/-- Nothing has been looked at yet. -/
theorem refl
    (lists : FreeLists mem free) (tables : Tables mem.bytes root free)
    (copy : Nat → UInt64) :
    Copying root old new mem free (fun _ => False) copy mem free where
  lists
  tables
  fewer _ _ member := member
  placed _ _ _ := Or.inl rfl
  fresh _ isCopied := isCopied.1.elim
  injective _ _ isCopied := isCopied.1.elim
  inside _ isCopied := isCopied.1.elim
  contents _ isCopied := isCopied.1.elim
  outside _ _ _ := rfl
  others _ _ _ _ _ := rfl

variable (copying : Copying root old new mem₀ free₀ done copy mem free)

include copying

omit [DecidableEq ρ] in
theorem taken {page : UInt64} (taken : Taken free₀ page) : Taken free page :=
  taken.mono copying.fewer

omit [DecidableEq ρ] in
/-- A page that was neither free nor a table does not become a table. -/
theorem notTable_of_taken
    {page : UInt64} (taken : Taken free₀ page)
    (notTable : ∀ r path, path.length ≤ 2 →
      tableAt mem₀.bytes (root r) path ≠ page)
    (r : ρ) (path : List (Fin 512)) (bound : path.length ≤ 2) :
    tableAt mem.bytes (root r) path ≠ page := by
  rcases copying.placed r path bound with same | ⟨_, fromKernel⟩
  · rw [same]
    exact notTable r path bound
  · intro same
    rw [same] at fromKernel
    exact taken.notFree true fromKernel

variable (lists₀ : FreeLists mem₀ free₀) (tables₀ : Tables mem₀.bytes root free₀)

include lists₀

omit [DecidableEq ρ] in
/-- The copy of a page is not free. -/
theorem taken_copy (isCopied : IsCopied root old mem₀ done va) :
    Taken free (copy (pageOf va)) := by
  obtain ⟨wasFree, notFree⟩ := copying.fresh va isCopied
  refine ⟨lists₀.aligned false _ wasFree, fun inKernel isFree => ?_⟩
  cases inKernel with
  | false => exact notFree isFree
  | true =>
      cases lists₀.unique false true _ wasFree (copying.fewer true _ isFree)

include tables₀

omit [DecidableEq ρ] in
/-- The copy of a page is not a table. -/
theorem notTable_copy
    (isCopied : IsCopied root old mem₀ done va) (r : ρ)
    (path : List (Fin 512)) (bound : path.length ≤ 2) :
    tableAt mem.bytes (root r) path ≠ copy (pageOf va) := by
  have wasFree := (copying.fresh va isCopied).1
  rcases copying.placed r path bound with same | ⟨_, fromKernel⟩
  · rw [same]
    exact tables₀.notFree bound wasFree (lists₀.ne_null wasFree) r
  · intro same
    rw [same] at fromKernel
    cases lists₀.unique false true _ wasFree fromKernel

/-- What holds after one more page was copied. -/
theorem next
    (valid : isValid (pteAt mem₀.bytes (root old) va) = true)
    (own : OwnPages root old mem₀ free₀) {page : UInt64} {rest : List UInt64}
    (isFree : free false = page :: rest)
    (one : Filled root new mem free [⟨pageOf va, page,
      pteFlags (pteAt mem₀.bytes (root old) va), fun offset => mem.bytes
        ((pteToPa (pteAt mem₀.bytes (root old) va)).toNat + offset)⟩] [] mem'
      free') :
    Copying root old new mem₀ free₀ (fun vpn => done vpn ∨ vpn = pageOf va)
      (Function.update copy (pageOf va) page) mem' free' := by
  have member : page ∈ free false := by
    rw [isFree]
    exact List.mem_cons_self
  have single := List.mem_singleton.mpr (Eq.refl (⟨pageOf va, page,
      pteFlags (pteAt mem₀.bytes (root old) va), fun offset => mem.bytes
        ((pteToPa (pteAt mem₀.bytes (root old) va)).toNat + offset)⟩ : Piece))
  have fewer : ∀ inKernel, ∀ other ∈ free' inKernel, other ∈ free inKernel :=
    fun inKernel other => one.mem_free_of_free inKernel
  have isCopied : ∀ va', IsCopied root old mem₀
      (fun vpn => done vpn ∨ vpn = pageOf va) va' → pageOf va' ≠ pageOf va →
      IsCopied root old mem₀ done va' :=
    fun va' both differs => ⟨both.1.resolve_right differs, both.2⟩
  have isOld : ∀ va', pageOf va' ≠ pageOf va →
      Function.update copy (pageOf va) page (pageOf va') = copy (pageOf va') :=
    fun va' differs => Function.update_of_ne differs _ _
  have isNew : ∀ va', pageOf va' = pageOf va →
      Function.update copy (pageOf va) page (pageOf va') = page := by
    intro va' same
    rw [same, Function.update_self]
  have differs : ∀ va', IsCopied root old mem₀ done va' →
      copy (pageOf va') ≠ page := by
    intro va' isCopied same
    rw [← same] at member
    exact (copying.fresh va' isCopied).2 member
  refine ⟨one.lists, one.tables, fun inKernel other isFree' =>
    copying.fewer inKernel other (fewer inKernel other isFree'), ?_, ?_, ?_, ?_,
    ?_, ?_, ?_⟩
  · intro r path bound
    rcases one.placed r path bound with same | ⟨absent, fromKernel⟩
    · rw [same]
      exact copying.placed r path bound
    · refine Or.inr ⟨?_, copying.fewer true _ fromKernel⟩
      rcases copying.placed r path bound with same | ⟨wasAbsent, _⟩
      · rw [← same]
        exact absent
      · exact wasAbsent
  · intro va' both
    by_cases same : pageOf va' = pageOf va
    · rw [isNew va' same]
      exact ⟨copying.fewer false page member,
        (one.taken_piece copying.lists single).notFree false⟩
    · rw [isOld va' same]
      obtain ⟨wasFree, notFree⟩ := copying.fresh va' (isCopied va' both same)
      exact ⟨wasFree, mt (fewer false _) notFree⟩
  · intro va' va'' both both' equal
    by_cases same : pageOf va' = pageOf va
    · by_cases same' : pageOf va'' = pageOf va
      · exact same.trans same'.symm
      · rw [isNew va' same, isOld va'' same'] at equal
        exact absurd equal.symm (differs va'' (isCopied va'' both' same'))
    · by_cases same' : pageOf va'' = pageOf va
      · rw [isOld va' same, isNew va'' same'] at equal
        exact absurd equal (differs va' (isCopied va' both same))
      · rw [isOld va' same, isOld va'' same'] at equal
        exact copying.injective va' va'' (isCopied va' both same)
          (isCopied va'' both' same') equal
  · intro va' both
    by_cases same : pageOf va' = pageOf va
    · rw [isNew va' same, one.inside _ single va' same, pteAt_congr same]
    · rw [isOld va' same, one.outside new va',
        copying.inside va' (isCopied va' both same)]
      rintro ⟨_, isPiece | none⟩
      · exact same (List.mem_singleton.mp isPiece)
      · exact absurd none List.not_mem_nil
  · intro va' both offset bound
    by_cases same : pageOf va' = pageOf va
    · obtain ⟨taken, notTable⟩ := own va valid
      rw [isNew va' same, pteAt_congr same]
      exact (one.contents _ single offset bound).trans
        ((copying.others _ taken notTable).apply bound)
    · have before := isCopied va' both same
      have unchanged := one.others _ (copying.taken_copy lists₀ before)
        (copying.notTable_copy lists₀ tables₀ before)
      rw [isOld va' same, unchanged.apply bound]
      exact copying.contents va' before offset bound
  · intro r va' notCopied
    rw [one.outside r va', copying.outside r va']
    · rintro ⟨same, before⟩
      exact notCopied ⟨same, Or.inl before.1, before.2⟩
    · rintro ⟨same, isPiece | none⟩
      · have samePage := List.mem_singleton.mp isPiece
        refine notCopied ⟨same, Or.inr samePage, ?_⟩
        rw [pteAt_congr samePage]
        exact valid
      · exact absurd none List.not_mem_nil
  · intro other taken notTable
    exact (copying.others other taken notTable).trans (one.others other
      (copying.taken taken) (copying.notTable_of_taken taken notTable))

omit [DecidableEq ρ] lists₀ tables₀ in
/-- A page that is not mapped is skipped. -/
theorem skip (invalid : isValid (pteAt mem₀.bytes (root old) va) = false) :
    Copying root old new mem₀ free₀ (fun vpn => done vpn ∨ vpn = pageOf va)
      copy mem free := by
  have same : ∀ va', IsCopied root old mem₀
      (fun vpn => done vpn ∨ vpn = pageOf va) va' ↔
      IsCopied root old mem₀ done va' := by
    intro va'
    refine ⟨fun both => ⟨both.1.resolve_right fun samePage => ?_, both.2⟩,
      fun both => ⟨Or.inl both.1, both.2⟩⟩
    have valid := both.2
    rw [pteAt_congr samePage, invalid] at valid
    cases valid
  refine ⟨copying.lists, copying.tables, copying.fewer, copying.placed,
    fun va' => ?_, fun va' va'' => ?_, fun va' => ?_, fun va' => ?_,
    fun r va' => ?_, copying.others⟩
  · rw [same]
    exact copying.fresh va'
  · rw [same, same]
    exact copying.injective va' va''
  · rw [same]
    exact copying.inside va'
  · rw [same]
    exact copying.contents va'
  · rw [same]
    exact copying.outside r va'

variable (own : OwnPages root old mem₀ free₀) (differ : old ≠ new)
  (oldPresent : root old ≠ 0) (newPresent : root new ≠ 0)
  {paths : Finset (List (Fin 512))}
  (enough : Enough mem.bytes (root new) free paths)

include tables₀ own differ oldPresent newPresent enough

/-- One turn of the loops of `uvm_copy_pgtbl`. -/
theorem turn
    (aligned : Aligned va) (low : va.toNat + 4096 ≤ 2 ^ 38)
    (along : isValid (pteAt mem₀.bytes (root old) va) = true →
      ∀ level < 2, pathTo va level ∈ paths)
    (pages : isValid (pteAt mem₀.bytes (root old) va) = true →
      free false ≠ []) :
    ∃ mem' free' copy', (copyMapping (root old) (root new) va).Runs mem ()
        mem' ∧
      Copying root old new mem₀ free₀ (fun vpn => done vpn ∨ vpn = pageOf va)
        copy' mem' free' ∧
      Enough mem'.bytes (root new) free' paths ∧
      (free false).length = (free' false).length +
        if isValid (pteAt mem₀.bytes (root old) va) then 1 else 0 := by
  have max : vaMax.toNat = 2 ^ 38 := rfl
  have lower : va < vaMax := by
    rw [UInt64.lt_iff_toNat_lt]
    omega
  have samePte : pteAt mem.bytes (root old) va = pteAt mem₀.bytes (root old) va :=
    copying.outside old va fun both => differ both.1
  cases valid : isValid (pteAt mem₀.bytes (root old) va) with
  | false =>
      refine ⟨mem, free, copy, ?_, copying.skip valid, enough, rfl⟩
      refine (lookup_invalid copying.tables oldPresent lower ?_).mpr
        (Program.runs_pure.mpr ⟨rfl, rfl⟩)
      rw [samePte]
      exact valid
  | true =>
      obtain ⟨page, rest, isFree⟩ := List.exists_cons_of_ne_nil (pages valid)
      have start : Filled root new mem free [] [] mem free :=
        Filled.refl copying.lists copying.tables
      have changed : ChangedIn page mem.bytes (memmove mem.bytes page.toNat
          (fun index => mem.bytes ((pteToPa
            (pteAt mem₀.bytes (root old) va)).toNat + index)) pgSize) :=
        changedIn_memmove (Nat.le_refl _) (Nat.le_refl _)
      obtain ⟨mem₁, allocated, notNull, sameBytes, _, total⟩ :=
        start.take copying.lists copying.tables isFree newPresent aligned low
          (pteFlags_lt (pteAt mem₀.bytes (root old) va)) List.not_mem_nil
          changed fun offset bound => by
            rw [memmove_of_mem _ _
              ⟨Nat.le_add_right _ _, Nat.add_lt_add_left bound _⟩,
              Nat.add_sub_cancel_left]
      obtain ⟨mem', free', maps, filled, isRest, enough'⟩ := total paths
        (along valid) enough
      refine ⟨mem', free', _, ?_, copying.next lists₀ tables₀ valid own isFree
        filled, enough', ?_⟩
      · refine (lookup_valid copying.tables oldPresent lower ?_).mpr ?_
        · rw [samePte]
          exact valid
        · simp only [samePte, allocated.bind_iff, Program.runs_bind,
            Program.runs_assert, decide_eq_true_eq, copyPage_runs]
          refine ⟨(), mem₁, ⟨notNull, rfl⟩, (), _, rfl, ?_⟩
          rw [sameBytes]
          exact maps
      · rw [isRest, isFree]
        rfl

/-- A loop over pages. -/
theorem loop
    {items : List Nat} {address : Nat → UInt64}
    (inside : ∀ item ∈ items, Aligned (address item) ∧
      (address item).toNat + 4096 ≤ 2 ^ 38)
    (along : ∀ item ∈ items,
      isValid (pteAt mem₀.bytes (root old) (address item)) = true →
      ∀ level < 2, pathTo (address item) level ∈ paths)
    (pages : items.countP (fun item =>
        isValid (pteAt mem₀.bytes (root old) (address item))) ≤
      (free false).length) :
    ∃ mem' free' copy', (items.forM fun item =>
        copyMapping (root old) (root new) (address item)).Runs mem () mem' ∧
      Copying root old new mem₀ free₀ (fun vpn => done vpn ∨ ∃ item ∈ items,
        vpn = pageOf (address item)) copy' mem' free' ∧
      Enough mem'.bytes (root new) free' paths ∧
      (free false).length = (free' false).length + items.countP fun item =>
        isValid (pteAt mem₀.bytes (root old) (address item)) := by
  induction items generalizing mem free done copy with
  | nil =>
      have same : (fun vpn => done vpn ∨ ∃ item ∈ ([] : List Nat),
          vpn = pageOf (address item)) = done := by
        funext vpn
        simp
      refine ⟨mem, free, copy, Program.runs_pure.mpr ⟨rfl, rfl⟩, ?_, enough,
        rfl⟩
      rw [same]
      exact copying
  | cons item rest inductionHypothesis =>
      have here := inside item List.mem_cons_self
      rw [List.countP_cons] at pages
      obtain ⟨middle, free₁, copy₁, first, copying₁, enough₁, count₁⟩ :=
        copying.turn lists₀ tables₀ own differ oldPresent newPresent enough
          here.1 here.2 (along item List.mem_cons_self) fun valid none => by
            rw [if_pos valid, none, List.length_nil] at pages
            omega
      obtain ⟨mem', free', copy', others, copying', enough', count'⟩ :=
        inductionHypothesis copying₁ enough₁
          (fun other member => inside other (List.mem_cons_of_mem _ member))
          (fun other member => along other (List.mem_cons_of_mem _ member))
          (by omega)
      have same : (fun vpn => done vpn ∨ ∃ other ∈ item :: rest,
          vpn = pageOf (address other)) =
          fun vpn => (done vpn ∨ vpn = pageOf (address item)) ∨
            ∃ other ∈ rest, vpn = pageOf (address other) := by
        funext vpn
        simp only [List.mem_cons, exists_eq_or_imp, or_assoc]
      refine ⟨mem', free', copy', ?_, ?_, enough', ?_⟩
      · rw [List.forM, Program.runs_bind]
        exact ⟨(), middle, first, others⟩
      · rw [same]
        exact copying'
      · rw [List.countP_cons]
        omega

end Copying

/-! ## Both loops -/

/-- The virtual addresses `uvm_copy_pgtbl` looks at, in the order of its
loops. -/
def visited (heapTop : UInt64) (ustackPages : UInt32) : List UInt64 :=
  (List.range ((heapTop.toNat + 4095) / pgSize)).map
      (fun index => UInt64.ofNat (pgSize * index)) ++
    (List.range ustackPages.toNat).map ustackVa

/-- Free pages for a copy of an address space: one for each page that the loops
find mapped, and one for each table that is missing on the way to such a
page. -/
structure EnoughFor (root : ρ → UInt64) (old new : ρ) (mem : State)
    (free : Bool → List UInt64) (heapTop : UInt64) (ustackPages : UInt32)
    (paths : Finset (List (Fin 512))) : Prop where
  along : ∀ va ∈ visited heapTop ustackPages,
    isValid (pteAt mem.bytes (root old) va) = true →
    ∀ level < 2, pathTo va level ∈ paths
  tables : Enough mem.bytes (root new) free paths
  pages : (visited heapTop ustackPages).countP (fun va =>
    isValid (pteAt mem.bytes (root old) va)) ≤ (free false).length

/-- A page below the top of the heap, or one of the pages below the
trapframe. -/
def InRanges (heapTop : UInt64) (ustackPages : UInt32) (vpn : Nat) : Prop :=
  4096 * vpn < heapTop.toNat ∨
    vpn < userPages ∧ userPages ≤ vpn + ustackPages.toNat

section Visited

variable {heapTop : UInt64} {ustackPages : UInt32}
  (disjoint : (heapTop.toNat + 4095) / 4096 + ustackPages.toNat ≤ userPages)

theorem pageOf_ustackVa (index : Nat) :
    pageOf (ustackVa index) = userPages - 1 - index % 2 ^ 20 := by
  unfold pageOf userPages
  rw [ustackVa_address]
  omega

include disjoint

/-- The addresses that are looked at are those of user pages. -/
theorem visited_inside (member : va ∈ visited heapTop ustackPages) :
    Aligned va ∧ va.toNat + 4096 ≤ 2 ^ 38 := by
  unfold userPages at disjoint
  rcases List.mem_append.mp member with isHeap | isStack
  · obtain ⟨index, bound, rfl⟩ := List.mem_map.mp isHeap
    rw [List.mem_range] at bound
    unfold pgSize at bound ⊢
    unfold Aligned
    rw [UInt64.toNat_ofNat']
    omega
  · obtain ⟨index, _, rfl⟩ := List.mem_map.mp isStack
    obtain ⟨aligned, isUser⟩ := ustackVa_toNat index
    refine ⟨aligned, ?_⟩
    unfold Aligned at aligned
    unfold userPages at isUser
    omega

/-- The pages that are looked at: those of the heap and at most `2 ^ 20` pages
of the stack. -/
theorem visited_iff (vpn : Nat) :
    (∃ va ∈ visited heapTop ustackPages, vpn = pageOf va) ↔
      InRanges heapTop ustackPages vpn ∧
        (4096 * vpn < heapTop.toNat ∨ userPages ≤ vpn + 2 ^ 20) := by
  have isPage : ∀ index < (heapTop.toNat + 4095) / 4096,
      pageOf (UInt64.ofNat (4096 * index)) = index := by
    intro index bound
    unfold userPages at disjoint
    exact pageOf_ofNat (by omega)
  unfold visited InRanges pgSize
  constructor
  · rintro ⟨va, member, rfl⟩
    rcases List.mem_append.mp member with isHeap | isStack
    · obtain ⟨index, bound, rfl⟩ := List.mem_map.mp isHeap
      rw [List.mem_range] at bound
      rw [isPage index bound]
      exact ⟨Or.inl (by omega), Or.inl (by omega)⟩
    · obtain ⟨index, bound, rfl⟩ := List.mem_map.mp isStack
      rw [List.mem_range] at bound
      rw [pageOf_ustackVa]
      unfold userPages at disjoint ⊢
      exact ⟨Or.inr ⟨by omega, by omega⟩, Or.inr (by omega)⟩
  · rintro ⟨isHeap | ⟨below, inStack⟩, near⟩
    · refine ⟨UInt64.ofNat (4096 * vpn), List.mem_append_left _
        (List.mem_map.mpr ⟨vpn, List.mem_range.mpr (by omega), rfl⟩), ?_⟩
      exact (isPage vpn (by omega)).symm
    · rcases near with isHeap | near
      · refine ⟨UInt64.ofNat (4096 * vpn), List.mem_append_left _
          (List.mem_map.mpr ⟨vpn, List.mem_range.mpr (by omega), rfl⟩), ?_⟩
        exact (isPage vpn (by omega)).symm
      · refine ⟨ustackVa (userPages - 1 - vpn), List.mem_append_right _
          (List.mem_map.mpr ⟨_, List.mem_range.mpr (by omega), rfl⟩), ?_⟩
        rw [pageOf_ustackVa]
        unfold userPages at near below ⊢
        omega

end Visited

section Copies

variable {heapTop : UInt64} {ustackPages : UInt32}
  {paths : Finset (List (Fin 512))}
  (lists : FreeLists mem free) (tables : Tables mem.bytes root free)
  (differ : old ≠ new) (oldPresent : root old ≠ 0) (newPresent : root new ≠ 0)
  (own : OwnPages root old mem free)
  (disjoint : (heapTop.toNat + 4095) / 4096 + ustackPages.toNat ≤ userPages)
  (enough : EnoughFor root old new mem free heapTop ustackPages paths)

include lists tables differ oldPresent newPresent own disjoint enough

/-- With enough free pages `uvm_copy_pgtbl` returns, and it has copied the pages
it looked at. -/
theorem uvmCopyPgtbl_copying :
    ∃ mem' free' copy, (uvmCopyPgtbl (root old) (root new) heapTop
        ustackPages).Runs mem () mem' ∧
      Copying root old new mem free (fun vpn =>
        ∃ va ∈ visited heapTop ustackPages, vpn = pageOf va) copy mem' free' := by
  have counts := enough.pages
  unfold visited at counts
  rw [List.countP_append, List.countP_map, List.countP_map] at counts
  have inHeap : ∀ index ∈ List.range ((heapTop.toNat + 4095) / pgSize),
      UInt64.ofNat (pgSize * index) ∈ visited heapTop ustackPages :=
    fun index member => List.mem_append_left _ (List.mem_map_of_mem member)
  have inStack : ∀ index ∈ List.range ustackPages.toNat,
      ustackVa index ∈ visited heapTop ustackPages :=
    fun index member => List.mem_append_right _ (List.mem_map_of_mem member)
  have start : Copying root old new mem free (fun _ => False) (fun _ => 0) mem
      free := .refl lists tables _
  obtain ⟨middle, free₁, copy₁, heap, copying₁, enough₁, count₁⟩ :=
    start.loop lists tables own differ oldPresent newPresent enough.tables
      (fun index member => visited_inside disjoint (inHeap index member))
      (fun index member => enough.along _ (inHeap index member))
      (Nat.le_trans (Nat.le_add_right _ _) counts)
  have left : (List.range ustackPages.toNat).countP (fun index =>
      isValid (pteAt mem.bytes (root old) (ustackVa index))) ≤
      (free₁ false).length := by
    rw [count₁, Nat.add_comm] at counts
    exact Nat.le_of_add_le_add_right counts
  obtain ⟨mem', free', copy', stack, copying', _, _⟩ :=
    copying₁.loop lists tables own differ oldPresent newPresent enough₁
      (fun index member => visited_inside disjoint (inStack index member))
      (fun index member => enough.along _ (inStack index member)) left
  refine ⟨mem', free', copy', ?_, ?_⟩
  · rw [uvmCopyPgtbl, Program.runs_bind]
    exact ⟨(), middle, heap, stack⟩
  · have same : (fun vpn => ∃ va ∈ visited heapTop ustackPages,
        vpn = pageOf va) = fun vpn => (False ∨
          ∃ index ∈ List.range ((heapTop.toNat + 4095) / pgSize),
            vpn = pageOf (UInt64.ofNat (pgSize * index))) ∨
          ∃ index ∈ List.range ustackPages.toNat,
            vpn = pageOf (ustackVa index) := by
      funext vpn
      simp [visited, or_and_right, exists_or]
    rw [same]
    exact copying'

end Copies

/-! ## Copies of an address space -/

/-- One address space has become a copy of another on its user pages, in pages
that were free. -/
structure CopiesMemory (root : ρ → UInt64) (old new : ρ) (mem : State)
    (heapTop : UInt64) (ustackPages : UInt32) (mem' : State) : Prop where
  maps : ∀ va, Aligned va → InRanges heapTop ustackPages (pageOf va) →
    (translate mem'.bytes (root new) va = none ↔
      translate mem.bytes (root old) va = none)
  copies : ∀ va page flags, Aligned va →
    InRanges heapTop ustackPages (pageOf va) →
    translate mem.bytes (root old) va = some (page, flags) →
    ∃ fresh, translate mem'.bytes (root new) va = some (fresh, flags) ∧
      OnFreeList mem false fresh ∧
      (∀ offset < 4096, mem'.bytes (fresh.toNat + offset) =
        mem.bytes (page.toNat + offset)) ∧
      (∀ va' flags', Aligned va' →
        translate mem.bytes (root old) va' ≠ some (fresh, flags')) ∧
      ∀ va' flags', Aligned va' → va' ≠ va →
        translate mem'.bytes (root new) va' ≠ some (fresh, flags')
  others : ∀ va, ¬InRanges heapTop ustackPages (pageOf va) →
    translate mem'.bytes (root new) va = translate mem.bytes (root new) va
  parentTable : ∀ va,
    translate mem'.bytes (root old) va = translate mem.bytes (root old) va
  parentMemory : ∀ va page flags, Aligned va →
    translate mem.bytes (root old) va = some (page, flags) →
    Unchanged page mem.bytes mem'.bytes

/-- No page of the stack is mapped that is more than `2 ^ 20` pages below the
trapframe. -/
def NearStack (root : ρ → UInt64) (old : ρ) (mem : State)
    (ustackPages : UInt32) : Prop :=
  ∀ va < trapframeVa, Aligned va →
    userPages ≤ pageOf va + ustackPages.toNat →
    pageOf va + 2 ^ 20 < userPages → translate mem.bytes (root old) va = none

omit [DecidableEq ρ] in
/-- Canonical addresses of pages differ in their page numbers. -/
theorem eq_of_pageOf
    {va va' : UInt64} (canonical : Canonical va) (canonical' : Canonical va')
    (aligned : Aligned va) (aligned' : Aligned va')
    (same : pageOf va = pageOf va') : va = va' := by
  have bound := va.toNat_lt
  have bound' := va'.toNat_lt
  apply UInt64.toNat.inj
  unfold Canonical at canonical canonical'
  unfold Aligned at aligned aligned'
  unfold pageOf at same
  omega

section Copies

variable {heapTop : UInt64} {ustackPages : UInt32}
  (lists : FreeLists mem free) (tables : Tables mem.bytes root free)
  (oldPresent : root old ≠ 0) (newPresent : root new ≠ 0)
  (own : OwnPages root old mem free) (ownNew : OwnPages root new mem free)
  (only : ∀ va < trapframeVa, translate mem.bytes (root new) va = none)
  (disjoint : (heapTop.toNat + 4095) / 4096 + ustackPages.toNat ≤ userPages)
  (copying : Copying root old new mem free (fun vpn =>
    ∃ va ∈ visited heapTop ustackPages, vpn = pageOf va) copy mem' free')

omit [DecidableEq ρ] in
include disjoint in
/-- The addresses in the ranges are below the trapframe. -/
theorem InRanges.lt_trapframe
    (inRanges : InRanges heapTop ustackPages (pageOf va))
    (canonical : Canonical va) : va < trapframeVa := by
  have limit : trapframeVa.toNat = 4096 * (2 ^ 26 - 2) := rfl
  have bound := va.toNat_lt
  rw [UInt64.lt_iff_toNat_lt, limit]
  unfold InRanges userPages at inRanges
  unfold userPages at disjoint
  unfold Canonical at canonical
  unfold pageOf at inRanges
  omega

include tables copying

omit [DecidableEq ρ] in
include oldPresent in
theorem Copying.translate_parent (differ : old ≠ new) (va : UInt64) :
    translate mem'.bytes (root old) va = translate mem.bytes (root old) va := by
  rw [translate_eq copying.tables oldPresent, translate_eq tables oldPresent,
    copying.outside old va fun both => differ both.1]

omit [DecidableEq ρ] in
include newPresent in
/-- The pages that were not looked at. -/
theorem Copying.translate_others
    (notVisited : ¬∃ va' ∈ visited heapTop ustackPages,
      pageOf va = pageOf va') :
    translate mem'.bytes (root new) va = translate mem.bytes (root new) va := by
  rw [translate_eq copying.tables newPresent, translate_eq tables newPresent,
    copying.outside new va fun both => notVisited both.2.1]

omit [DecidableEq ρ] in
include oldPresent newPresent only in
/-- A page that was looked at is mapped where it was mapped. -/
theorem Copying.translate_none_iff
    (low : va < trapframeVa) (isVisited : ∃ va' ∈ visited heapTop ustackPages,
      pageOf va = pageOf va') :
    translate mem'.bytes (root new) va = none ↔
      translate mem.bytes (root old) va = none := by
  have canonical : Canonical va := by
    have limit : trapframeVa.toNat = 4096 * (2 ^ 26 - 2) := rfl
    rw [UInt64.lt_iff_toNat_lt, limit] at low
    unfold Canonical
    omega
  rw [translate_eq_none_iff copying.tables newPresent canonical,
    translate_eq_none_iff tables oldPresent canonical]
  cases valid : isValid (pteAt mem.bytes (root old) va) with
  | true =>
      rw [copying.inside va ⟨isVisited, valid⟩, isValid_leafPte]
  | false =>
      have absent := (translate_eq_none_iff tables newPresent canonical).mp
        (only va low)
      have notCopied : ¬(new = new ∧ IsCopied root old mem (fun vpn =>
          ∃ va ∈ visited heapTop ustackPages, vpn = pageOf va) va) :=
        fun both => absurd (valid.symm.trans both.2.2) Bool.false_ne_true
      rw [copying.outside new va notCopied, absent]

omit [DecidableEq ρ] in
include lists oldPresent newPresent own ownNew in
/-- The copy of a page that was looked at. -/
theorem Copying.translate_copied
    (aligned : Aligned va) (isVisited : ∃ va' ∈ visited heapTop ustackPages,
      pageOf va = pageOf va') {page flags : UInt64}
    (mapped : translate mem.bytes (root old) va = some (page, flags)) :
    ∃ fresh, translate mem'.bytes (root new) va = some (fresh, flags) ∧
      OnFreeList mem false fresh ∧
      (∀ offset < 4096, mem'.bytes (fresh.toNat + offset) =
        mem.bytes (page.toNat + offset)) ∧
      (∀ va' flags', Aligned va' →
        translate mem.bytes (root old) va' ≠ some (fresh, flags')) ∧
      ∀ va' flags', Aligned va' → va' ≠ va →
        translate mem'.bytes (root new) va' ≠ some (fresh, flags') := by
  obtain ⟨canonical, valid, rfl, rfl⟩ :=
    (translate_eq_some_iff tables oldPresent aligned).mp mapped
  have isCopied : IsCopied root old mem (fun vpn =>
      ∃ va ∈ visited heapTop ustackPages, vpn = pageOf va) va :=
    ⟨isVisited, valid⟩
  have wasFree := (copying.fresh va isCopied).1
  have freshAligned := lists.aligned false _ wasFree
  have flags := pteFlags_lt (pteAt mem.bytes (root old) va)
  refine ⟨copy (pageOf va), ?_, lists.onFreeList_iff.mpr wasFree,
    copying.contents va isCopied, fun va' flags' aligned' isFresh => ?_,
    fun va' flags' aligned' differs isFresh => ?_⟩
  · rw [translate_eq_some_iff copying.tables newPresent aligned,
      copying.inside va isCopied]
    exact ⟨canonical, isValid_leafPte _ _, pteToPa_leafPte freshAligned flags,
      (pteFlags_leafPte flags).trans (pteFlags_or_pteV valid)⟩
  · obtain ⟨_, valid', isPage, _⟩ :=
      (translate_eq_some_iff tables oldPresent aligned').mp isFresh
    rw [← isPage] at wasFree
    exact (own va' valid').1.notFree false wasFree
  · obtain ⟨canonical', valid', isPage, _⟩ :=
      (translate_eq_some_iff copying.tables newPresent aligned').mp isFresh
    by_cases isCopied' : IsCopied root old mem
        (fun vpn => ∃ va ∈ visited heapTop ustackPages, vpn = pageOf va) va'
    · have freshAligned' := lists.aligned false _
        (copying.fresh va' isCopied').1
      rw [copying.inside va' isCopied',
        pteToPa_leafPte freshAligned' (pteFlags_lt _)] at isPage
      exact differs (eq_of_pageOf canonical' canonical aligned' aligned
        (copying.injective va' va isCopied' isCopied isPage))
    · rw [copying.outside new va' fun both => isCopied' both.2] at valid' isPage
      rw [← isPage] at wasFree
      exact (ownNew va' valid').1.notFree false wasFree

end Copies

section Copies

variable {heapTop : UInt64} {ustackPages : UInt32}
  {paths : Finset (List (Fin 512))}

omit [DecidableEq ρ] in
/-- A page deep in the stack is not looked at. -/
theorem CopiesMemory.nearStack
    (result : CopiesMemory root old new mem heapTop ustackPages mem')
    (tables : Tables mem.bytes root free) (newPresent : root new ≠ 0)
    (only : ∀ va < trapframeVa, translate mem.bytes (root new) va = none)
    (disjoint : (heapTop.toNat + 4095) / 4096 + ustackPages.toNat ≤ userPages)
    (copying : Copying root old new mem free (fun vpn =>
      ∃ va ∈ visited heapTop ustackPages, vpn = pageOf va) copy mem' free') :
    NearStack root old mem ustackPages := by
  intro va low aligned inStack far
  have isUser := pageOf_of_lt aligned low (by decide)
  have notVisited : ¬∃ va' ∈ visited heapTop ustackPages,
      pageOf va = pageOf va' := by
    rw [visited_iff disjoint]
    rintro ⟨_, isHeap | near⟩
    · unfold userPages at disjoint inStack
      omega
    · omega
  rw [← result.maps va aligned (Or.inr ⟨isUser.2, inStack⟩),
    copying.translate_others tables newPresent notVisited]
  exact only va low

/-- With enough free pages, `uvm_copy_pgtbl` copies the memory of an address
space exactly when no page is mapped so deep in the stack that its offset does
not fit into 32 bits. -/
theorem copies_memory_iff
    (lists : FreeLists mem free) (tables : Tables mem.bytes root free)
    (differ : old ≠ new) (oldPresent : root old ≠ 0)
    (newPresent : root new ≠ 0) (own : OwnPages root old mem free)
    (ownNew : OwnPages root new mem free)
    (only : ∀ va < trapframeVa, translate mem.bytes (root new) va = none)
    (disjoint : (heapTop.toNat + 4095) / 4096 + ustackPages.toNat ≤ userPages)
    (enough : EnoughFor root old new mem free heapTop ustackPages paths) :
    (∃ mem', (uvmCopyPgtbl (root old) (root new) heapTop ustackPages).Runs mem
        () mem' ∧
      CopiesMemory root old new mem heapTop ustackPages mem') ↔
      NearStack root old mem ustackPages := by
  obtain ⟨mem', free', copy, run, copying⟩ := uvmCopyPgtbl_copying lists tables
    differ oldPresent newPresent own disjoint enough
  constructor
  · rintro ⟨final, run', result⟩
    obtain ⟨_, rfl⟩ := run.deterministic run'
    exact result.nearStack tables newPresent only disjoint copying
  · intro near
    have looked : ∀ va < trapframeVa, Aligned va →
        InRanges heapTop ustackPages (pageOf va) →
        (∃ va' ∈ visited heapTop ustackPages, pageOf va = pageOf va') ∨
          translate mem.bytes (root old) va = none ∧
            translate mem'.bytes (root new) va = none := by
      intro va low aligned inRanges
      by_cases isVisited : ∃ va' ∈ visited heapTop ustackPages,
          pageOf va = pageOf va'
      · exact Or.inl isVisited
      · have unmapped := copying.translate_others tables newPresent isVisited
        rw [only va low] at unmapped
        rw [visited_iff disjoint] at isVisited
        rcases inRanges with isHeap | inStack
        · exact absurd ⟨Or.inl isHeap, Or.inl isHeap⟩ isVisited
        · refine Or.inr ⟨near va low aligned inStack.2 ?_, unmapped⟩
          by_contra isNear
          exact isVisited ⟨Or.inr inStack, Or.inr (Nat.not_lt.mp isNear)⟩
    refine ⟨mem', run, fun va aligned inRanges => ?_,
      fun va page flags aligned inRanges mapped => ?_, fun va outside => ?_,
      copying.translate_parent tables oldPresent differ,
      fun va page flags aligned mapped => ?_⟩
    · by_cases canonical : Canonical va
      · have low := inRanges.lt_trapframe disjoint canonical
        rcases looked va low aligned inRanges with isVisited | ⟨none, none'⟩
        · exact copying.translate_none_iff tables oldPresent newPresent only low
            isVisited
        · rw [none, none']
      · rw [translate_eq copying.tables newPresent, if_neg canonical,
          translate_eq tables oldPresent, if_neg canonical]
    · have canonical := ((translate_eq_some_iff tables oldPresent aligned).mp
        mapped).1
      have low := inRanges.lt_trapframe disjoint canonical
      rcases looked va low aligned inRanges with isVisited | ⟨none, _⟩
      · exact copying.translate_copied lists tables oldPresent newPresent own
          ownNew aligned isVisited mapped
      · rw [none] at mapped
        cases mapped
    · refine copying.translate_others tables newPresent ?_
      rw [visited_iff disjoint]
      exact fun isVisited => outside isVisited.1
    · obtain ⟨_, valid, rfl, _⟩ :=
        (translate_eq_some_iff tables oldPresent aligned).mp mapped
      obtain ⟨taken, notTable⟩ := own va valid
      exact copying.others _ taken notTable

end Copies

/-! ## Two tables -/

/-- A parent and a child. -/
def twoRoots : Bool → UInt64
  | false => 0x80100000
  | true => 0x80200000

theorem empty_twoRoots (r : Bool) (index : Fin 512) :
    entryOf fewPages.bytes (twoRoots r) index = 0 := by
  cases r with
  | false => exact empty_fewPages index
  | true =>
      refine entryOf_of_zero (fun offset _ => fewPages_eq_zero (Or.inr ?_))
        index
      change _ ≤ 0x80200000 + offset
      omega

theorem tables_twoRoots :
    Tables fewPages.bytes twoRoots fewPagesFree := by
  refine Tables.empty (fun r => ⟨?_, ?_⟩) empty_twoRoots fun r r' same => ?_
  · cases r <;> decide
  · cases r <;> decide +kernel
  · cases r <;> cases r' <;> first | rfl | exact absurd same (by decide)

/-- The flags of a user page. -/
def userFlags : UInt64 := pteR ||| pteW ||| pteU

/-- One page of the parent is mapped. -/
structure OnePage (va : UInt64) (mem : State) (free : Bool → List UInt64) :
    Prop where
  mapped : Mapped twoRoots false (pageOf va) 1
    (fun _ => leafPte 0x80300000 userFlags) fewPages fewPagesFree mem free
  kernel : (free true).length = 4

/-- The run that maps the page. -/
theorem OnePage.of_exec
    (va : UInt64) (aligned : Aligned va) (low : va.toNat + 4096 ≤ 2 ^ 38)
    (evaluates : ((vmMappages 0x80100000 va 0x80300000 4096 userFlags).exec
      fewPages).toOption.map (fun outcome =>
        (outcome.2.region true).allocable) = some 4) :
    ∃ mem free, OnePage va mem free := by
  cases outcome : (vmMappages 0x80100000 va 0x80300000 4096 userFlags).exec
      fewPages with
  | error message =>
      rw [outcome] at evaluates
      cases evaluates
  | ok values =>
      rw [outcome] at evaluates
      have left : (values.2.region true).allocable = 4 :=
        Option.some.inj evaluates
      obtain ⟨free, mapped⟩ := vmMappages_page (r := false) tables_twoRoots
        freeLists_fewPages (by decide) aligned low outcome
      refine ⟨values.2, free, mapped, ?_⟩
      rw [mapped.lists.counted, left]
      rfl

namespace OnePage

variable {mem : State} {free : Bool → List UInt64}
  (onePage : OnePage va mem free)

include onePage

theorem valid_iff (va' : UInt64) :
    isValid (pteAt mem.bytes (twoRoots false) va') = true ↔
      pageOf va' = pageOf va := by
  constructor
  · intro valid
    by_contra differs
    rw [onePage.mapped.outside false va' fun inside => differs (by omega),
      pteAt_empty (empty_twoRoots false), not_isValid_zero] at valid
    cases valid
  · intro same
    rw [onePage.mapped.inside 0 Nat.one_pos va' same]
    exact isValid_leafPte _ _

theorem child_empty (va' : UInt64) :
    pteAt mem.bytes (twoRoots true) va' = 0 := by
  rw [onePage.mapped.outside true va' fun inside => absurd inside.1 (by decide),
    pteAt_empty (empty_twoRoots true)]

theorem own : OwnPages twoRoots false mem free := by
  intro va' valid
  have same := (onePage.valid_iff va').mp valid
  have isPage : pteToPa (pteAt mem.bytes (twoRoots false) va') =
      0x80300000 := by
    rw [onePage.mapped.inside 0 Nat.one_pos va' same]
    decide
  have taken : Taken fewPagesFree 0x80300000 := ⟨by decide, by decide +kernel⟩
  rw [isPage]
  refine ⟨onePage.mapped.taken taken,
    onePage.mapped.notTable taken fun r path _ => ?_⟩
  by_cases atRoot : path = []
  · subst atRoot
    cases r <;> decide
  · rw [tableAt_empty (empty_twoRoots r) atRoot]
    decide

theorem ownNew : OwnPages twoRoots true mem free := by
  intro va' valid
  rw [onePage.child_empty, not_isValid_zero] at valid
  cases valid

theorem only :
    ∀ va' < trapframeVa, translate mem.bytes (twoRoots true) va' = none := by
  intro va' _
  rw [translate_eq onePage.mapped.tables (by decide), onePage.child_empty]
  unfold leafOf
  rw [not_isValid_zero]
  exact ite_self _

/-- The child needs at most four tables. -/
theorem enough
    {paths : Finset (List (Fin 512))} (few : paths.card ≤ 4) :
    Enough mem.bytes (twoRoots true) free paths := by
  unfold Enough
  rw [onePage.kernel]
  exact Nat.le_trans (Finset.card_filter_le _ _) few

end OnePage

/-- A parent with a page of code is copied. -/
theorem copies_memory_iff_onePage :
    ∃ mem mem', (uvmCopyPgtbl 0x80100000 0x80200000 0x2000 2).Runs mem () mem' ∧
      CopiesMemory twoRoots false true mem 0x2000 2 mem' := by
  obtain ⟨mem, free, onePage⟩ := OnePage.of_exec 0x1000 (by decide)
    (by decide) (by decide +kernel)
  have enough : EnoughFor twoRoots false true mem free 0x2000 2
      (tablesOf 0 1 ∪ tablesOf (ustackVa 0) 1) := by
    refine ⟨fun va member _ level bound => ?_,
      onePage.enough (by decide +kernel), ?_⟩
    · have along : ∀ va ∈ visited 0x2000 2, ∀ level < 2,
          pathTo va level ∈ tablesOf 0 1 ∪ tablesOf (ustackVa 0) 1 :=
        forall_of_all (by decide +kernel)
      exact along va member level bound
    · rw [onePage.mapped.user]
      have once : (visited 0x2000 2).countP
          (fun va => decide (pageOf va = 1)) = 1 := by
        decide +kernel
      refine Nat.le_trans (List.countP_mono_left fun va _ valid => ?_)
        (Nat.le_trans (Nat.le_of_eq once) (by decide))
      exact decide_eq_true ((onePage.valid_iff va).mp valid)
  have near : NearStack twoRoots false mem 2 := by
    intro va _ _ inStack far
    have two : (2 : UInt32).toNat = 2 := rfl
    rw [two] at inStack
    omega
  have disjoint : ((0x2000 : UInt64).toNat + 4095) / 4096 +
      (2 : UInt32).toNat ≤ userPages := by
    decide
  obtain ⟨mem', run, result⟩ := (copies_memory_iff onePage.mapped.lists
    onePage.mapped.tables (by decide) (by decide) (by decide) onePage.own
    onePage.ownNew onePage.only disjoint enough).mpr near
  exact ⟨mem, mem', run, result⟩

/-- The address of the stack page with the index `2 ^ 20`. -/
def deepVa : UInt64 := trapframeVa - 4096 - 0x100000000

theorem pageOf_deepVa : pageOf deepVa = userPages - (2 ^ 20 + 1) := by decide

/-- A page of a stack of `2 ^ 20 + 1` pages is not copied. -/
theorem copies_memory_misses :
    ¬∀ (root : Bool → UInt64) (old new : Bool) (mem : State)
        (free : Bool → List UInt64) (heapTop : UInt64) (ustackPages : UInt32)
        (paths : Finset (List (Fin 512))),
      FreeLists mem free → Tables mem.bytes root free → old ≠ new →
      root old ≠ 0 → root new ≠ 0 → OwnPages root old mem free →
      OwnPages root new mem free →
      (∀ va < trapframeVa, translate mem.bytes (root new) va = none) →
      (heapTop.toNat + 4095) / 4096 + ustackPages.toNat ≤ userPages →
      EnoughFor root old new mem free heapTop ustackPages paths →
      ∃ mem', (uvmCopyPgtbl (root old) (root new) heapTop ustackPages).Runs mem
          () mem' ∧
        CopiesMemory root old new mem heapTop ustackPages mem' := by
  intro copies
  obtain ⟨mem, free, onePage⟩ := OnePage.of_exec deepVa (by decide)
    (by decide) (by decide +kernel)
  have size : (0x100001 : UInt32).toNat = 2 ^ 20 + 1 := rfl
  have zero : (0 : UInt64).toNat = 0 := rfl
  have disjoint : ((0 : UInt64).toNat + 4095) / 4096 +
      (0x100001 : UInt32).toNat ≤ userPages := by
    rw [size, zero]
    decide
  have notVisited : ∀ va ∈ visited 0 0x100001,
      ¬isValid (pteAt mem.bytes (twoRoots false) va) = true := by
    intro va member valid
    have same := (onePage.valid_iff va).mp valid
    have isVisited := (visited_iff disjoint (pageOf va)).mp ⟨va, member, rfl⟩
    rw [same, zero, pageOf_deepVa] at isVisited
    omega
  have enough : EnoughFor twoRoots false true mem free 0 0x100001 ∅ := by
    refine ⟨fun va member valid => absurd valid (notVisited va member),
      onePage.enough (by decide), ?_⟩
    rw [List.countP_eq_zero.mpr notVisited]
    exact Nat.zero_le _
  obtain ⟨mem', run, result⟩ := copies twoRoots false true mem free 0 0x100001 ∅
    onePage.mapped.lists onePage.mapped.tables (by decide) (by decide)
    (by decide) onePage.own onePage.ownNew onePage.only disjoint enough
  obtain ⟨mem'', free', copy, run', copying⟩ := uvmCopyPgtbl_copying
    onePage.mapped.lists onePage.mapped.tables (by decide) (by decide)
    (by decide) onePage.own disjoint enough
  obtain ⟨_, rfl⟩ := run.deterministic run'
  have none := result.nearStack onePage.mapped.tables (by decide) onePage.only
    disjoint copying deepVa (by decide) (by decide)
    (by rw [pageOf_deepVa, size]; decide) (by rw [pageOf_deepVa]; decide)
  have unmapped := (translate_eq_none_iff onePage.mapped.tables
    (show twoRoots false ≠ 0 by decide) (show Canonical deepVa by decide)).mp none
  rw [(onePage.valid_iff deepVa).mpr rfl] at unmapped
  cases unmapped

end Mem
end WhuOs
