import WhuOs.Mem.Holding

/-!
# User memory

The pages that user page tables map belong to one page of one table each.  The
functions of `uvm.c` keep this: copying a page table gives the copy pages of its
own, and the heap grows and shrinks by pages that nobody else uses.
-/

namespace WhuOs
namespace Mem

open Library
open Library.Bytes
open Program (Runs)

/-- Who may hold a page. -/
inductive Holder (ρ : Type)
  /-- A page of the user part of an address space. -/
  | user (r : ρ) (page : Nat)
  | trapframe (r : ρ)
  /-- A page that was just allocated. -/
  | scratch
  deriving DecidableEq

/-- The number of virtual pages below the trapframe. -/
abbrev userPages : Nat := 2 ^ 26 - 2

/-- The page an entry maps, or 0. -/
def entryPage (pte : UInt64) : UInt64 :=
  if isValid pte then pteToPa pte else 0

variable {ρ : Type} [DecidableEq ρ] {root : ρ → UInt64}
  {mem mem' mem'' : State} {free free' : Bool → List UInt64}
  {held held' held'' : Holder ρ → UInt64} {r : ρ} {va : UInt64}

/-- The pages that are mapped are those their places hold. -/
def Backed (bytes : Bytes) (root : ρ → UInt64) (held : Holder ρ → UInt64) :
    Prop :=
  ∀ r va, pageOf va < userPages →
    held (.user r (pageOf va)) = entryPage (pteAt bytes (root r) va) ∧
      (isValid (pteAt bytes (root r) va) = true →
        held (.user r (pageOf va)) ≠ 0)

/-- Memory in which every user page belongs to one place. -/
structure UserMem (mem : State) (root : ρ → UInt64)
    (free : Bool → List UInt64) (held : Holder ρ → UInt64) : Prop
    extends Holds mem root free held where
  backed : Backed mem.bytes root held
  scratch : held .scratch = 0

/-- What may have changed when only some user pages of one address space were
worked on. -/
structure Touches (root : ρ → UInt64) (r : ρ) (pages : Nat → Prop)
    (mem : State) (held : Holder ρ → UInt64) (mem' : State)
    (held' : Holder ρ → UInt64) : Prop where
  ptes : ∀ r' va, ¬(r' = r ∧ pages (pageOf va)) →
    pteAt mem'.bytes (root r') va = pteAt mem.bytes (root r') va
  holders : ∀ holder, holder ≠ .scratch →
    (∀ page, pages page → holder ≠ .user r page) →
    held' holder = held holder ∧
      (held holder ≠ 0 → Unchanged (held holder) mem.bytes mem'.bytes)

namespace Touches

variable {pages pages' : Nat → Prop}

omit [DecidableEq ρ] in
theorem refl : Touches root r pages mem held mem held :=
  ⟨fun _ _ _ => rfl, fun _ _ _ => ⟨rfl, fun _ _ _ => rfl⟩⟩

omit [DecidableEq ρ] in
theorem trans
    (first : Touches root r pages mem held mem' held')
    (second : Touches root r pages mem' held' mem'' held'') :
    Touches root r pages mem held mem'' held'' := by
  refine ⟨fun r' va outside => (second.ptes r' va outside).trans
    (first.ptes r' va outside), fun holder proper outside => ?_⟩
  obtain ⟨same, unchanged⟩ := first.holders holder proper outside
  obtain ⟨same', unchanged'⟩ := second.holders holder proper outside
  refine ⟨same'.trans same, fun some => (unchanged some).trans ?_⟩
  rw [same] at unchanged'
  exact unchanged' some

omit [DecidableEq ρ] in
theorem mono
    (touches : Touches root r pages mem held mem' held')
    (more : ∀ page, pages page → pages' page) :
    Touches root r pages' mem held mem' held' :=
  ⟨fun r' va outside => touches.ptes r' va fun inside =>
      outside ⟨inside.1, more _ inside.2⟩,
    fun holder proper outside => touches.holders holder proper
      fun page inside => outside page (more page inside)⟩

end Touches

/-! ## One page -/

theorem entryPage_leafPte
    {pa perm : UInt64} (aligned : Aligned pa) (flags : perm.toNat < 1024) :
    entryPage (leafPte pa perm) = pa := by
  unfold entryPage
  rw [if_pos (isValid_leafPte _ _), pteToPa_leafPte aligned flags]

omit [DecidableEq ρ] in
/-- One entry and the page of its place change together. -/
theorem Backed.mapped
    {page : Nat} {entry : UInt64} (backed : Backed mem.bytes root held)
    (mapped : Mapped root r page 1 (fun _ => entry) mem free mem' free')
    (atPage : held' (.user r page) = entryPage entry ∧
      (isValid entry = true → held' (.user r page) ≠ 0))
    (others : ∀ r' page', ¬(r' = r ∧ page' = page) →
      held' (.user r' page') = held (.user r' page')) :
    Backed mem'.bytes root held' := by
  intro r' va isUser
  by_cases same : r' = r ∧ pageOf va = page
  · obtain ⟨rfl, isPage⟩ := same
    rw [mapped.inside 0 Nat.zero_lt_one va isPage, isPage]
    exact atPage
  · rw [mapped.outside r' va, others r' _ same]
    · exact backed r' va isUser
    · rintro ⟨isRoot, low, high⟩
      exact same ⟨isRoot, by omega⟩

omit [DecidableEq ρ] in
theorem Backed.congr
    (backed : Backed mem.bytes root held)
    (ptes : ∀ r va, pteAt mem'.bytes (root r) va = pteAt mem.bytes (root r) va)
    (others : ∀ r page, held' (.user r page) = held (.user r page)) :
    Backed mem'.bytes root held' := by
  intro r va isUser
  rw [ptes, others]
  exact backed r va isUser

/-- The page of a place that was mapped. -/
theorem Backed.leafPte
    {page : Nat} {pa perm : UInt64} (backed : Backed mem.bytes root held)
    (aligned : Aligned pa) (notNull : pa ≠ 0) (flags : perm.toNat < 1024)
    (mapped : Mapped root r page 1 (fun _ => leafPte pa perm) mem free mem'
      free') :
    Backed mem'.bytes root (Function.update held (.user r page) pa) := by
  refine backed.mapped mapped ⟨?_, fun _ => ?_⟩ fun r' page' differs => ?_
  · rw [Function.update_self, entryPage_leafPte aligned flags]
  · rw [Function.update_self]
    exact notNull
  · refine Function.update_of_ne (fun same => differs ?_) _ _
    cases same
    exact ⟨rfl, rfl⟩

/-- `vm_mappages` for one page. -/
theorem vmMappages_page
    (tables : Tables mem.bytes root free) (lists : FreeLists mem free)
    (present : root r ≠ 0) (aligned : Aligned va)
    (low : va.toNat + 4096 ≤ 2 ^ 38) {pa perm : UInt64}
    (run : (vmMappages (root r) va pa 4096 perm).Runs mem () mem') :
    ∃ free', Mapped root r (pageOf va) 1 (fun _ => leafPte pa perm) mem free
      mem' free' := by
  have size : (4096 : UInt64).toNat = 4096 := rfl
  have range : PageRange va (va + 4096) 1 := by
    refine ⟨aligned, ?_, ?_⟩
    · rw [UInt64.toNat_add, size]
      omega
    · rw [UInt64.toNat_add, size]
      omega
  have isRoot : rootOf mem (root r) = root r := if_neg present
  obtain ⟨free', mapped⟩ := mapLoop_mapped tables lists isRoot present range
    (Nat.le_add_left 1 _) run
  rw [← range.pageOf_start] at mapped
  refine ⟨free', mapped.toGrown, fun index bound va' isPage => ?_,
    mapped.outside⟩
  have isZero : index = 0 := Nat.lt_one_iff.mp bound
  subst isZero
  rw [mapped.inside 0 bound va' isPage, offset_zero]

/-- The holders after a page was allocated and mapped. -/
def mapHeld (held : Holder ρ → UInt64) (r : ρ) (page : Nat) (pa : UInt64) :
    Holder ρ → UInt64 :=
  Function.update (Function.update held (.user r page) pa) .scratch 0

theorem mapHeld_self (held : Holder ρ → UInt64) (r : ρ) (page : Nat)
    (pa : UInt64) : mapHeld held r page pa (.user r page) = pa := by
  have differs : Holder.user r page ≠ .scratch := nofun
  unfold mapHeld
  rw [Function.update_of_ne differs, Function.update_self]

theorem mapHeld_of_ne
    (held : Holder ρ → UInt64) {r : ρ} {page : Nat} (pa : UInt64)
    {holder : Holder ρ} (proper : holder ≠ .scratch)
    (differs : holder ≠ .user r page) :
    mapHeld held r page pa holder = held holder := by
  unfold mapHeld
  rw [Function.update_of_ne proper, Function.update_of_ne differs]

/-- A page was allocated, written to and mapped. -/
structure PageMapped (root : ρ → UInt64) (r : ρ) (va pa perm : UInt64)
    (bytes : Bytes) (mem : State) (held : Holder ρ → UInt64) (mem' : State)
    (free' : Bool → List UInt64) : Prop where
  userMem : UserMem mem' root free' (mapHeld held r (pageOf va) pa)
  touches : Touches root r (· = pageOf va) mem held mem'
    (mapHeld held r (pageOf va) pa)
  ptes : ∀ va', pageOf va' = pageOf va →
    pteAt mem'.bytes (root r) va' = leafPte pa perm
  contents : Unchanged pa bytes mem'.bytes

/-- A page is allocated, written to and mapped. -/
theorem UserMem.mapPage
    (user : UserMem mem root free held) (present : root r ≠ 0)
    (aligned : Aligned va) (low : va.toNat + 4096 ≤ 2 ^ 38) {inKernel : Bool}
    {pa perm : UInt64} (flags : perm.toNat < 1024) (notNull : pa ≠ 0)
    {mem₁ : State} (allocated : (pmemAlloc inKernel).Runs mem pa mem₁)
    {bytes : Bytes} (changed : ChangedIn pa mem.bytes bytes)
    (run : (vmMappages (root r) va pa 4096 perm).Runs (mem₁.setBytes bytes) ()
      mem') :
    ∃ free', PageMapped root r va pa perm bytes mem held mem' free' := by
  obtain ⟨sameBytes, aligned', free₁, holds⟩ :=
    user.toHolds.alloc_some .scratch notNull allocated
  have atScratch : Function.update held Holder.scratch pa .scratch = pa :=
    Function.update_self _ _ _
  have some : Function.update held Holder.scratch pa .scratch ≠ 0 := by
    rw [atScratch]
    exact notNull
  have written : ChangedIn (Function.update held Holder.scratch pa .scratch)
      mem₁.bytes bytes := by
    rw [atScratch, sameBytes]
    exact changed
  have holds₂ := holds.write some written
  obtain ⟨free', mapped⟩ := vmMappages_page holds₂.tables holds₂.lists present
    aligned low run
  have holds₃ := (holds₂.grown mapped.toGrown).move .scratch
    (.user r (pageOf va))
  rw [atScratch] at holds₃
  have isHeld : Function.update (Function.update (Function.update held
      .scratch pa) (.user r (pageOf va)) pa) .scratch 0 =
        mapHeld held r (pageOf va) pa := by
    funext holder
    unfold mapHeld
    by_cases isScratch : holder = .scratch
    · rw [isScratch, Function.update_self, Function.update_self]
    · rw [Function.update_of_ne isScratch, Function.update_of_ne isScratch]
      by_cases isPlace : holder = .user r (pageOf va)
      · rw [isPlace, Function.update_self, Function.update_self]
      · rw [Function.update_of_ne isPlace, Function.update_of_ne isPlace,
          Function.update_of_ne isScratch]
  rw [isHeld] at holds₃
  have ptes₂ : ∀ r' va', pteAt bytes (root r') va' =
      pteAt mem.bytes (root r') va' := by
    intro r' va'
    rw [holds.pteAt_write some written, sameBytes]
  refine ⟨free', ⟨holds₃, ?_, Function.update_self _ _ _⟩, ⟨?_, ?_⟩, ?_, ?_⟩
  · have backed : Backed (mem₁.setBytes bytes).bytes root held := by
      intro r' va' isUser
      rw [State.setBytes_bytes, ptes₂]
      exact user.backed r' va' isUser
    intro r' va' isUser
    have places := backed.leafPte aligned' notNull flags mapped r' va' isUser
    have proper : Holder.user r' (pageOf va') ≠ .scratch := nofun
    unfold mapHeld
    rw [Function.update_of_ne proper]
    exact places
  · intro r' va' outside
    rw [mapped.outside r' va', State.setBytes_bytes, ptes₂]
    rintro ⟨same, low, high⟩
    exact outside ⟨same, by omega⟩
  · intro holder proper outside
    refine ⟨mapHeld_of_ne held pa proper (outside _ rfl), fun isSome => ?_⟩
    have isHeld' : Function.update held Holder.scratch pa holder =
        held holder := Function.update_of_ne proper _ _
    have isSome' : Function.update held Holder.scratch pa holder ≠ 0 := by
      rw [isHeld']
      exact isSome
    have first := holds.unchanged_write some isSome' proper written
    have second := holds₂.unchanged_grown mapped.toGrown isSome'
    rw [isHeld'] at first second
    rw [sameBytes] at first
    exact first.trans second
  · intro va' isPage
    exact mapped.inside 0 Nat.zero_lt_one va' isPage
  · have kept := holds₂.unchanged_grown mapped.toGrown some
    rw [atScratch] at kept
    exact kept

omit [DecidableEq ρ] in
/-- Looking up an entry and going on with it if it is valid. -/
theorem lookup_runs
    {α : Type} (tables : Tables mem.bytes root free) (present : root r ≠ 0)
    {body : UInt64 → UInt64 → MemM α} {skip : MemM α} {result : α}
    (run : (do
      let entry ← vmGetpte (root r) va false
      if entry ≠ 0 then
        let pte ← load entry
        if isValid pte then body entry pte else skip
      else skip : MemM α).Runs mem result mem') :
    va < vaMax ∧
    ((isValid (pteAt mem.bytes (root r) va) = false ∧
      skip.Runs mem result mem') ∨
    (isValid (pteAt mem.bytes (root r) va) = true ∧
      (body (entryPointer mem.bytes (root r) va)
        (pteAt mem.bytes (root r) va)).Runs mem result mem')) := by
  have isRoot : rootOf mem (root r) = root r := if_neg present
  rw [Program.runs_bind] at run
  obtain ⟨pointer, _, found, run⟩ := run
  obtain ⟨low, rfl, rfl⟩ := (vmGetpte_lookup tables isRoot present).mp found
  refine ⟨low, ?_⟩
  by_cases absent : tableAt mem.bytes (root r) (pathTo va 0) = 0
  · have null := (entryPointer_eq_zero tables).mpr absent
    have invalid : isValid (pteAt mem.bytes (root r) va) = false := by
      unfold pteAt
      rw [if_pos absent, not_isValid_zero]
    rw [if_neg (not_not_intro null)] at run
    exact Or.inl ⟨invalid, run⟩
  · have notNull := (entryPointer_of_present tables absent).2
    rw [if_pos notNull, (load_entryPointer tables absent).bind_iff] at run
    cases valid : isValid (pteAt mem.bytes (root r) va) with
    | true =>
        rw [valid, if_pos rfl] at run
        exact Or.inr ⟨rfl, run⟩
    | false =>
        rw [valid, if_neg Bool.false_ne_true] at run
        exact Or.inl ⟨rfl, run⟩

/-- The page at a virtual address is freed. -/
theorem UserMem.freeMapping
    (user : UserMem mem root free held) (present : root r ≠ 0)
    (isUser : pageOf va < userPages)
    (run : (freeMapping (root r) va).Runs mem () mem') :
    ∃ free' held', UserMem mem' root free' held' ∧
      Touches root r (· = pageOf va) mem held mem' held' := by
  rcases (lookup_runs user.tables present run).2 with
    ⟨_, skipped⟩ | ⟨valid, freed⟩
  · obtain ⟨_, rfl⟩ := Program.runs_pure.mp skipped
    exact ⟨free, held, user, Touches.refl⟩
  have below := tableAt_of_isValid valid
  have isHeld := (user.backed r va isUser).1
  have some := (user.backed r va isUser).2 valid
  have isPage : pteToPa (pteAt mem.bytes (root r) va) =
      held (.user r (pageOf va)) := by
    rw [isHeld]
    unfold entryPage
    rw [if_pos valid]
  rw [isPage, Program.runs_bind] at freed
  obtain ⟨_, _, gives, stores⟩ := freed
  obtain rfl := pmemFree_runs.mp gives
  have holds := user.toHolds.giveBack some false
  have changed := changedIn_giveBack mem (held (.user r (pageOf va))) false
  have placed := tableAt_of_notTable user.tables changed
    (user.taken some).aligned (user.notTable _ some) r (pathTo va 0)
    (Nat.le_refl 2)
  have samePointer : entryPointer mem.bytes (root r) va = entryPointer
      (mem.giveBack (held (.user r (pageOf va))) false).bytes (root r) va := by
    unfold entryPointer
    rw [placed]
  have below' : tableAt (mem.giveBack (held (.user r (pageOf va)))
      false).bytes (root r) (pathTo va 0) ≠ 0 := by
    rw [placed]
    exact below
  rw [samePointer] at stores
  obtain ⟨_, rfl⟩ := (store_entryPointer holds.tables below'
    0).deterministic stores
  have mapped := Mapped.storeLeaf 0 holds.tables holds.lists below'
  have ptes := user.pteAt_giveBack some false
  refine ⟨_, _, ⟨holds.grown mapped.toGrown, ?_, ?_⟩, ⟨?_, ?_⟩⟩
  · have backed : Backed (mem.giveBack (held (.user r (pageOf va)))
        false).bytes root held := by
      intro r' va' isUser'
      rw [ptes]
      exact user.backed r' va' isUser'
    refine backed.mapped mapped ⟨?_, nofun⟩ fun r' page differs => ?_
    · rw [Function.update_self]
      rfl
    · refine Function.update_of_ne (fun same => differs ?_) _ _
      cases same
      exact ⟨rfl, rfl⟩
  · have differs : Holder.scratch ≠ .user r (pageOf va) := nofun
    rw [Function.update_of_ne differs]
    exact user.scratch
  · intro r' va' outside
    rw [mapped.outside r' va', ptes]
    rintro ⟨same, low, high⟩
    exact outside ⟨same, by omega⟩
  · intro holder _ outside
    have differs := outside _ rfl
    refine ⟨Function.update_of_ne differs _ _, fun isSome => ?_⟩
    have isSome' : Function.update held (.user r (pageOf va)) 0 holder ≠ 0 := by
      rw [Function.update_of_ne differs]
      exact isSome
    have first := user.unchanged_write some isSome differs changed
    have second := holds.unchanged_grown mapped.toGrown isSome'
    rw [Function.update_of_ne differs] at second
    exact first.trans second

omit [DecidableEq ρ] in
/-- A write to the page of a holder. -/
theorem UserMem.write
    (user : UserMem mem root free held) {holder : Holder ρ}
    (some : held holder ≠ 0) {bytes : Bytes}
    (changed : ChangedIn (held holder) mem.bytes bytes) :
    UserMem (mem.setBytes bytes) root free held := by
  refine ⟨user.toHolds.write some changed, fun r' va isUser => ?_,
    user.scratch⟩
  rw [State.setBytes_bytes, user.pteAt_write some changed]
  exact user.backed r' va isUser

/-- A page is allocated for a trapframe. -/
theorem UserMem.alloc_trapframe
    (user : UserMem mem root free held) (r : ρ) {inKernel : Bool}
    {page : UInt64} (notNull : page ≠ 0)
    (run : (pmemAlloc inKernel).Runs mem page mem') :
    mem'.bytes = mem.bytes ∧ ∃ free', UserMem mem' root free'
      (Function.update held (.trapframe r) page) := by
  obtain ⟨sameBytes, _, free', holds⟩ := user.toHolds.alloc_some
    (.trapframe r) notNull run
  refine ⟨sameBytes, free', holds, fun r' va isUser => ?_, ?_⟩
  · have differs : Holder.user r' (pageOf va) ≠ .trapframe r := nofun
    rw [sameBytes, Function.update_of_ne differs]
    exact user.backed r' va isUser
  · have differs : Holder.scratch ≠ Holder.trapframe r := nofun
    rw [Function.update_of_ne differs]
    exact user.scratch

/-! ## Pages above the user pages -/

/-- The user pages and the pages of all holders are as they were, and so are the
entries of all address spaces but one. -/
structure Untouched (r : ρ) (root root' : ρ → UInt64) (mem mem' : State)
    (held : Holder ρ → UInt64) : Prop where
  ptes : ∀ r' va, r' ≠ r ∨ pageOf va < userPages →
    pteAt mem'.bytes (root' r') va = pteAt mem.bytes (root r') va
  pages : ∀ holder, held holder ≠ 0 →
    Unchanged (held holder) mem.bytes mem'.bytes

omit [DecidableEq ρ] in
theorem Untouched.trans
    {root' root'' : ρ → UInt64} (first : Untouched r root root' mem mem' held)
    (second : Untouched r root' root'' mem' mem'' held) :
    Untouched r root root'' mem mem'' held :=
  ⟨fun r' va outside => (second.ptes r' va outside).trans
      (first.ptes r' va outside),
    fun holder some => (first.pages holder some).trans
      (second.pages holder some)⟩

omit [DecidableEq ρ] in
theorem Backed.untouched
    {root' : ρ → UInt64} (backed : Backed mem.bytes root held)
    (untouched : Untouched r root root' mem mem' held) :
    Backed mem'.bytes root' held := by
  intro r' va isUser
  rw [untouched.ptes r' va (Or.inr isUser)]
  exact backed r' va isUser

/-- A page above the user pages is mapped. -/
theorem vmMappages_high
    (user : UserMem mem root free held) (present : root r ≠ 0)
    {va pa perm : UInt64} (aligned : Aligned va)
    (low : va.toNat + 4096 ≤ 2 ^ 38) (high : userPages ≤ pageOf va)
    (run : (vmMappages (root r) va pa 4096 perm).Runs mem () mem') :
    ∃ free', UserMem mem' root free' held ∧
      Untouched r root root mem mem' held := by
  obtain ⟨free', mapped⟩ := vmMappages_page user.tables user.lists present
    aligned low run
  have untouched : Untouched r root root mem mem' held := by
    refine ⟨fun r' va' outside => mapped.outside r' va' ?_, fun holder some =>
      user.unchanged_grown mapped.toGrown some⟩
    rintro ⟨same, atLeast, _⟩
    rcases outside with differs | isUser
    · exact differs same
    · omega
  exact ⟨free', ⟨user.toHolds.grown mapped.toGrown,
    user.backed.untouched untouched, user.scratch⟩, untouched⟩

/-! ## Ranges of the heap -/

/-- The pages between two addresses. -/
def Between (first stop : UInt64) (page : Nat) : Prop :=
  first.toNat ≤ 4096 * page ∧ 4096 * page < stop.toNat

theorem pageOf_of_lt
    {va stop : UInt64} (aligned : Aligned va) (below : va < stop)
    (isUser : stop.toNat ≤ 4096 * userPages) :
    4096 * pageOf va = va.toNat ∧ pageOf va < userPages := by
  rw [UInt64.lt_iff_toNat_lt] at below
  unfold Aligned at aligned
  unfold userPages at isUser ⊢
  unfold pageOf
  omega

theorem next_toNat
    {va stop : UInt64} (below : va < stop)
    (isUser : stop.toNat ≤ 4096 * userPages) :
    (va + 4096).toNat = va.toNat + 4096 := by
  have size : (4096 : UInt64).toNat = 4096 := rfl
  rw [UInt64.lt_iff_toNat_lt] at below
  unfold userPages at isUser
  rw [UInt64.toNat_add, size]
  omega

theorem aligned_next
    {va stop : UInt64} (aligned : Aligned va) (below : va < stop)
    (isUser : stop.toNat ≤ 4096 * userPages) : Aligned (va + 4096) := by
  have next := next_toNat below isUser
  unfold Aligned at aligned ⊢
  omega

/-- The pages of a range are freed. -/
theorem UserMem.freeRange
    (user : UserMem mem root free held) (present : root r ≠ 0)
    {first stop : UInt64} (aligned : Aligned va) (low : first ≤ va)
    (isUser : stop.toNat ≤ 4096 * userPages) {fuel : Nat}
    (run : (freeRange (root r) stop fuel va).Runs mem () mem') :
    ∃ free' held', UserMem mem' root free' held' ∧
      Touches root r (Between first stop) mem held mem' held' := by
  induction fuel generalizing va mem free held with
  | zero =>
      obtain ⟨_, rfl⟩ := Program.runs_pure.mp run
      exact ⟨free, held, user, Touches.refl⟩
  | succ fuel inductionHypothesis =>
      by_cases below : va < stop
      · rw [freeRange, if_pos below, Program.runs_bind] at run
        obtain ⟨_, middle, frees, rest⟩ := run
        have place := pageOf_of_lt aligned below isUser
        have next := next_toNat below isUser
        obtain ⟨free₁, held₁, user₁, touches₁⟩ :=
          user.freeMapping present place.2 frees
        have low' : first ≤ va + 4096 := by
          rw [UInt64.le_iff_toNat_le] at low ⊢
          omega
        obtain ⟨free', held', user', touches⟩ := inductionHypothesis user₁
          (aligned_next aligned below isUser) low' rest
        refine ⟨free', held', user', (touches₁.mono ?_).trans touches⟩
        rintro page rfl
        rw [UInt64.le_iff_toNat_le] at low
        rw [UInt64.lt_iff_toNat_lt] at below
        exact ⟨by omega, by omega⟩
      · rw [freeRange, if_neg below] at run
        obtain ⟨_, rfl⟩ := Program.runs_pure.mp run
        exact ⟨free, held, user, Touches.refl⟩

theorem pmemAlloc_bytes
    {inKernel : Bool} {page : UInt64}
    (run : (pmemAlloc inKernel).Runs mem page mem') :
    mem'.bytes = mem.bytes := by
  rcases pmemAlloc_runs.mp run with ⟨_, _, rfl⟩ | ⟨_, _, rfl⟩
  · rfl
  · exact setRegion_bytes _ _

theorem clearPage_runs
    {page : UInt64} (notNull : page ≠ 0) :
    (clearPage page).Runs mem () mem' ↔
      mem.setBytes (clearedBytes mem.bytes page) = mem' := by
  simp only [clearPage, Program.runs_bind, Program.runs_assert,
    Program.runs_modify, decide_eq_true_eq]
  constructor
  · rintro ⟨_, _, ⟨_, rfl⟩, rfl⟩
    rfl
  · rintro rfl
    exact ⟨(), mem, ⟨notNull, rfl⟩, rfl⟩

/-- The loop of `uvm_heap_grow`. -/
theorem UserMem.growLoop
    (user : UserMem mem root free held) (present : root r ≠ 0)
    {first stop : UInt64} (firstAligned : Aligned first)
    (stopAligned : Aligned stop) (aligned : Aligned va) (low : first ≤ va)
    (isUser : stop.toNat ≤ 4096 * userPages) {fuel : Nat}
    (fueled : (stop.toNat - va.toNat) / 4096 + 1 ≤ fuel)
    (valid : ∀ va', Between first va (pageOf va') →
      isValid (pteAt mem.bytes (root r) va') = true)
    {grown : Bool}
    (run : (growLoop (root r) first stop fuel va).Runs mem grown mem') :
    ∃ free' held', UserMem mem' root free' held' ∧
      Touches root r (Between first stop) mem held mem' held' ∧
      (grown = true → ∀ va', Between first stop (pageOf va') →
        isValid (pteAt mem'.bytes (root r) va') = true) := by
  induction fuel generalizing va mem free held with
  | zero => omega
  | succ fuel inductionHypothesis =>
      by_cases below : va < stop
      · rw [Mem.growLoop, if_pos below, Program.runs_bind] at run
        obtain ⟨pa, mem₁, allocated, run⟩ := run
        have place := pageOf_of_lt aligned below isUser
        have next := next_toNat below isUser
        have below' := UInt64.lt_iff_toNat_lt.mp below
        have low' := UInt64.le_iff_toNat_le.mp low
        by_cases null : pa = 0
        · -- no page was left
          rw [if_pos null, Program.runs_bind] at run
          obtain ⟨_, _, frees, isFalse⟩ := run
          obtain ⟨rfl, rfl⟩ := Program.runs_pure.mp isFalse
          have same : mem₁ = mem := by
            rcases user.toHolds.alloc .scratch allocated with
              ⟨_, same⟩ | ⟨notNull, _⟩
            · exact same
            · exact absurd null notNull
          rw [same] at frees
          have isUser' : va.toNat ≤ 4096 * userPages := by omega
          obtain ⟨free', held', user', touches⟩ := user.freeRange present
            firstAligned (UInt64.le_refl first) isUser' frees
          refine ⟨free', held', user', touches.mono ?_, nofun⟩
          rintro page ⟨atLeast, less⟩
          exact ⟨atLeast, by omega⟩
        · rw [if_neg null, Program.runs_bind] at run
          obtain ⟨_, mem₂, clears, run⟩ := run
          obtain rfl := (clearPage_runs null).mp clears
          rw [Program.runs_bind] at run
          obtain ⟨_, mem₃, maps, rest⟩ := run
          have sameBytes := pmemAlloc_bytes allocated
          have changed : ChangedIn pa mem.bytes
              (clearedBytes mem₁.bytes pa) := by
            rw [sameBytes]
            exact changedIn_cleared _ _
          have room : va.toNat + 4096 ≤ 2 ^ 38 := by
            unfold userPages at isUser
            unfold Aligned at aligned
            omega
          have flags : (pteR ||| pteW ||| pteU).toNat < 1024 := by decide
          obtain ⟨free₁, mapped⟩ := user.mapPage present aligned room flags null
            allocated changed maps
          have validNext : ∀ va', Between first (va + 4096) (pageOf va') →
              isValid (pteAt mem₃.bytes (root r) va') = true := by
            rintro va' ⟨atLeast, less⟩
            by_cases isNew : pageOf va' = pageOf va
            · rw [mapped.ptes va' isNew]
              exact isValid_leafPte _ _
            · rw [mapped.touches.ptes r va' fun inside => isNew inside.2]
              exact valid va' ⟨atLeast, by omega⟩
          have low'' : first ≤ va + 4096 := by
            rw [UInt64.le_iff_toNat_le]
            omega
          have fueled' : (stop.toNat - (va + 4096).toNat) / 4096 + 1 ≤ fuel := by
            unfold Aligned at aligned stopAligned
            omega
          obtain ⟨free', held', user', touches, validAll⟩ :=
            inductionHypothesis mapped.userMem
              (aligned_next aligned below isUser) low'' fueled' validNext rest
          refine ⟨free', held', user', (mapped.touches.mono ?_).trans touches,
            validAll⟩
          rintro page rfl
          exact ⟨by omega, by omega⟩
      · rw [Mem.growLoop, if_neg below] at run
        obtain ⟨_, rfl⟩ := Program.runs_pure.mp run
        refine ⟨free, held, user, Touches.refl, fun _ va' inside =>
          valid va' ?_⟩
        rw [UInt64.lt_iff_toNat_lt] at below
        exact ⟨inside.1, by have := inside.2; omega⟩

/-- `uvm_heap_grow` moves the top of the heap only if all pages below the new
top were mapped. -/
theorem UserMem.heapGrow
    (user : UserMem mem root free held) (present : root r ≠ 0)
    {heapTop newTop : UInt64} {len : UInt32} (low : heapTop.toNat ≤ 2 ^ 30)
    (run : (uvmHeapGrow (root r) heapTop len).Runs mem newTop mem') :
    ∃ free' held', UserMem mem' root free' held' ∧
      Touches root r (Between (pageAlign heapTop)
        (pageAlign (heapTop + len.toUInt64))) mem held mem' held' ∧
      (newTop = heapTop ∨ newTop = heapTop + len.toUInt64 ∧
        newTop.toNat = heapTop.toNat + len.toNat ∧
        ∀ va', Between (pageAlign heapTop) (pageAlign newTop) (pageOf va') →
          isValid (pteAt mem'.bytes (root r) va') = true) := by
  have lenBound := len.toNat_lt
  have sum : (heapTop + len.toUInt64).toNat = heapTop.toNat + len.toNat := by
    rw [UInt64.toNat_add, UInt32.toNat_toUInt64]
    omega
  have first := pageAlign_toNat (show heapTop.toNat + 4095 < 2 ^ 64 by omega)
  have stop := pageAlign_toNat
    (show (heapTop + len.toUInt64).toNat + 4095 < 2 ^ 64 by omega)
  have isUser : (pageAlign (heapTop + len.toUInt64)).toNat ≤
      4096 * userPages := by
    unfold userPages
    omega
  rw [uvmHeapGrow, Program.runs_bind] at run
  obtain ⟨grown, _, loop, run⟩ := run
  obtain ⟨free', held', user', touches, valid⟩ := user.growLoop present
    (aligned_pageAlign heapTop) (aligned_pageAlign _)
    (aligned_pageAlign heapTop) (UInt64.le_refl _) isUser (Nat.le_refl _)
    (by
      rintro va' ⟨atLeast, less⟩
      omega) loop
  cases grown with
  | true =>
      rw [if_pos rfl] at run
      obtain ⟨rfl, rfl⟩ := Program.runs_pure.mp run
      exact ⟨free', held', user', touches, Or.inr ⟨rfl, sum, valid rfl⟩⟩
  | false =>
      rw [if_neg Bool.false_ne_true] at run
      obtain ⟨rfl, rfl⟩ := Program.runs_pure.mp run
      exact ⟨free', held', user', touches, Or.inl rfl⟩

/-- `uvm_heap_ungrow` frees pages above the new top. -/
theorem UserMem.heapUngrow
    (user : UserMem mem root free held) (present : root r ≠ 0)
    {heapTop newTop : UInt64} {len : UInt32} (low : heapTop.toNat ≤ 2 ^ 30)
    (run : (uvmHeapUngrow (root r) heapTop len).Runs mem newTop mem') :
    ∃ free' held', UserMem mem' root free' held' ∧
      Touches root r (Between (pageAlign newTop) (pageAlign heapTop)) mem held
        mem' held' ∧ newTop ≤ heapTop := by
  have stop := pageAlign_toNat (show heapTop.toNat + 4095 < 2 ^ 64 by omega)
  have isUser : (pageAlign heapTop).toNat ≤ 4096 * userPages := by
    unfold userPages
    omega
  rw [uvmHeapUngrow, Program.runs_bind] at run
  obtain ⟨_, _, frees, run⟩ := run
  obtain ⟨isTop, rfl⟩ := Program.runs_pure.mp run
  rw [isTop] at frees
  have below : newTop ≤ heapTop := by
    rw [← isTop]
    split
    · exact UInt64.zero_le
    · rename_i notAbove
      exact UInt64.not_lt.mp notAbove
  obtain ⟨free', held', user', touches⟩ := user.freeRange present
    (aligned_pageAlign newTop) (UInt64.le_refl _) isUser frees
  exact ⟨free', held', user', touches, below⟩

theorem pageOf_ofNat {page : Nat} (bound : page < 2 ^ 27) :
    pageOf (UInt64.ofNat (4096 * page)) = page := by
  unfold pageOf
  rw [UInt64.toNat_ofNat']
  omega

omit [DecidableEq ρ] in
/-- An address space cannot have more pages than the memory. -/
theorem UserMem.count_le
    (user : UserMem mem root free held) (first last : Nat)
    (isUser : last ≤ userPages)
    (valid : ∀ va, first ≤ pageOf va → pageOf va < last →
      isValid (pteAt mem.bytes (root r) va) = true) :
    last - first ≤ 0x8000 := by
  have some : ∀ page ∈ List.range' first (last - first),
      held (.user r page) ≠ 0 := by
    intro page member
    rw [List.mem_range'_1] at member
    unfold userPages at isUser
    have isPage := pageOf_ofNat (show page < 2 ^ 27 by omega)
    have backed := user.backed r (UInt64.ofNat (4096 * page)) (by
      rw [isPage]
      unfold userPages
      omega)
    rw [isPage] at backed
    exact backed.2 (valid _ (by omega) (by omega))
  have nodup : ((List.range' first (last - first)).map
      fun page => held (.user r page)).Nodup := by
    refine List.Nodup.map_on (fun page member page' _ same => ?_)
      List.nodup_range'
    cases user.unique _ _ (some page member) same
    rfl
  have bounded := length_le_of_inRam nodup (by
    intro page isPage
    obtain ⟨index, member, rfl⟩ := List.mem_map.mp isPage
    exact user.inRam _ (some index member))
  rwa [List.length_map, List.length_range'] at bounded

/-! ## Copies of address spaces -/

/-- An entry that maps a copy of a page with the same flags. -/
structure CopyOf (bytes₀ bytes : Bytes) (pte pte' : UInt64) : Prop where
  valid : isValid pte' = true
  flags : pteFlags pte' = pteFlags pte
  differs : pteToPa pte' ≠ pteToPa pte
  contents : ∀ offset < 4096, bytes ((pteToPa pte').toNat + offset) =
    bytes₀ ((pteToPa pte).toNat + offset)

/-- A part of the pages of one address space was copied to another. -/
structure Copied (root : ρ → UInt64) (old new : ρ) (done : Nat → Prop)
    (mem : State) (held : Holder ρ → UInt64) (mem' : State)
    (held' : Holder ρ → UInt64) : Prop where
  touches : Touches root new done mem held mem' held'
  copies : ∀ va, pageOf va < userPages → done (pageOf va) →
    isValid (pteAt mem.bytes (root old) va) = true →
    CopyOf mem.bytes mem'.bytes (pteAt mem.bytes (root old) va)
      (pteAt mem'.bytes (root new) va)
  others : ∀ va, pageOf va < userPages →
    ¬(done (pageOf va) ∧ isValid (pteAt mem.bytes (root old) va) = true) →
    pteAt mem'.bytes (root new) va = pteAt mem.bytes (root new) va

omit [DecidableEq ρ] in
theorem Copied.refl {old new : ρ} :
    Copied root old new (fun _ => False) mem held mem held :=
  ⟨Touches.refl, fun _ _ none => none.elim, fun _ _ _ => rfl⟩

theorem pteFlags_lt (pte : UInt64) : (pteFlags pte).toNat < 1024 := by
  have mask : (0x3FF : UInt64).toNat = 2 ^ 10 - 1 := rfl
  unfold pteFlags
  rw [UInt64.toNat_and, mask, Nat.and_two_pow_sub_one_eq_mod]
  exact Nat.mod_lt _ (by decide)

/-- The flags of a valid entry contain the valid bit. -/
theorem pteFlags_or_pteV {pte : UInt64} (valid : isValid pte = true) :
    pteFlags pte ||| pteV = pteFlags pte := by
  have one : pteV.toNat = 1 := rfl
  have mask : (0x3FF : UInt64).toNat = 2 ^ 10 - 1 := rfl
  rw [isValid_iff] at valid
  apply UInt64.toNat_inj.mp
  apply Nat.eq_of_testBit_eq
  intro bit
  unfold pteFlags
  rw [UInt64.toNat_or, Nat.testBit_or, UInt64.toNat_and, Nat.testBit_and, mask,
    Nat.testBit_two_pow_sub_one, one]
  cases bit with
  | zero => simp [valid]
  | succ bit => simp [Nat.testBit_add_one]

theorem copyPage_runs {src dst : UInt64} {result : Unit} :
    (copyPage src dst).Runs mem result mem' ↔
      mem.setBytes (memmove mem.bytes dst.toNat
        (fun index => mem.bytes (src.toNat + index)) pgSize) = mem' :=
  Program.runs_modify

/-- One page is copied. -/
theorem UserMem.copyMapping
    {old new : ρ} (user : UserMem mem root free held)
    (differ : old ≠ new) (oldPresent : root old ≠ 0)
    (newPresent : root new ≠ 0) (aligned : Aligned va)
    (isUser : va.toNat < 4096 * userPages)
    (run : (copyMapping (root old) (root new) va).Runs mem () mem') :
    ∃ free' held', UserMem mem' root free' held' ∧
      Copied root old new (· = pageOf va) mem held mem' held' := by
  have isPage : 4096 * pageOf va = va.toNat ∧ pageOf va < userPages := by
    unfold Aligned at aligned
    unfold userPages at isUser ⊢
    unfold pageOf
    omega
  rcases (lookup_runs user.tables oldPresent run).2 with
    ⟨invalid, skipped⟩ | ⟨valid, copies⟩
  · obtain ⟨_, rfl⟩ := Program.runs_pure.mp skipped
    refine ⟨free, held, user, Touches.refl, ?_, fun _ _ _ => rfl⟩
    rintro va' _ samePage valid
    rw [pteAt_congr samePage, invalid] at valid
    cases valid
  simp only [Program.runs_bind, Program.runs_assert, decide_eq_true_eq,
    copyPage_runs] at copies
  obtain ⟨newPa, mem₁, allocated, _, _, ⟨notNull, rfl⟩, _, _, rfl, maps⟩ :=
    copies
  have sameBytes := pmemAlloc_bytes allocated
  have isHeld := (user.backed old va isPage.2).1
  have some := (user.backed old va isPage.2).2 valid
  have oldPa : pteToPa (pteAt mem.bytes (root old) va) =
      held (.user old (pageOf va)) := by
    rw [isHeld]
    unfold entryPage
    rw [if_pos valid]
  have changed : ChangedIn newPa mem.bytes (memmove mem₁.bytes newPa.toNat
      (fun index => mem₁.bytes
        ((pteToPa (pteAt mem.bytes (root old) va)).toNat + index)) pgSize) := by
    rw [sameBytes]
    exact changedIn_memmove (Nat.le_refl _) (Nat.le_refl _)
  have room : va.toNat + 4096 ≤ 2 ^ 38 := by
    unfold Aligned at aligned
    unfold userPages at isUser
    omega
  obtain ⟨free', mapped⟩ := user.mapPage newPresent aligned room
    (pteFlags_lt _) notNull allocated changed maps
  have atNew := mapHeld_self held new (pageOf va) newPa
  have someNew : mapHeld held new (pageOf va) newPa
      (.user new (pageOf va)) ≠ 0 := by
    rw [atNew]
    exact notNull
  have newAligned : Aligned newPa := by
    have taken := mapped.userMem.taken someNew
    rw [atNew] at taken
    exact taken.aligned
  have fresh : newPa ≠ held (.user old (pageOf va)) := by
    have atOld : mapHeld held new (pageOf va) newPa (.user old (pageOf va)) =
        held (.user old (pageOf va)) := by
      refine mapHeld_of_ne held newPa (fun wrong => ?_)
        fun same => differ ?_
      · cases wrong
      cases same
      rfl
    intro same
    have sameHolder := mapped.userMem.unique _ _ someNew
      (atNew.trans (same.trans atOld.symm))
    cases sameHolder
    exact differ rfl
  refine ⟨free', _, mapped.userMem, mapped.touches, ?_, ?_⟩
  · rintro va' _ samePage _
    rw [mapped.ptes va' samePage, pteAt_congr samePage]
    refine ⟨isValid_leafPte _ _, ?_, ?_, ?_⟩
    · rw [pteFlags_leafPte (pteFlags_lt _), pteFlags_or_pteV valid]
    · rw [pteToPa_leafPte newAligned (pteFlags_lt _), oldPa]
      exact fresh
    · intro offset bound
      rw [pteToPa_leafPte newAligned (pteFlags_lt _), mapped.contents _
        ⟨Nat.le_add_right _ _, Nat.add_lt_add_left bound _⟩, ← sameBytes]
      rw [memmove_of_mem _ _
        ⟨Nat.le_add_right _ _, Nat.add_lt_add_left bound _⟩,
        Nat.add_sub_cancel_left]
  · intro va' _ notDone
    refine mapped.touches.ptes new va' fun inside => notDone ⟨inside.2, ?_⟩
    rw [pteAt_congr inside.2]
    exact valid

omit [DecidableEq ρ] in
theorem UserMem.pteToPa_eq
    (user : UserMem mem root free held) (isUser : pageOf va < userPages)
    (valid : isValid (pteAt mem.bytes (root r) va) = true) :
    pteToPa (pteAt mem.bytes (root r) va) = held (.user r (pageOf va)) := by
  rw [(user.backed r va isUser).1]
  unfold entryPage
  rw [if_pos valid]

theorem Unchanged.apply
    {page : UInt64} {bytes bytes' : Bytes}
    (unchanged : Unchanged page bytes bytes') {offset : Nat}
    (bound : offset < 4096) :
    bytes' (page.toNat + offset) = bytes (page.toNat + offset) :=
  unchanged _ ⟨Nat.le_add_right _ _, Nat.add_lt_add_left bound _⟩

omit [DecidableEq ρ] in
/-- Pages are copied one after the other. -/
theorem Copied.trans
    {old new : ρ} {done done' : Nat → Prop} (differ : old ≠ new)
    (user : UserMem mem root free held)
    (user' : UserMem mem' root free' held')
    (first : Copied root old new done mem held mem' held')
    (second : Copied root old new done' mem' held' mem'' held'') :
    Copied root old new (fun page => done page ∨ done' page) mem held mem''
      held'' := by
  have samePtes : ∀ va, pteAt mem'.bytes (root old) va =
      pteAt mem.bytes (root old) va :=
    fun va => first.touches.ptes old va fun inside => differ inside.1
  refine ⟨(first.touches.mono fun _ => Or.inl).trans
    (second.touches.mono fun _ => Or.inr), fun va isUser isDone valid => ?_,
    fun va isUser notDone => ?_⟩
  · by_cases again : done' (pageOf va)
    · -- the page is copied by the second part
      have copy := second.copies va isUser again (by rw [samePtes]; exact valid)
      rw [samePtes] at copy
      refine ⟨copy.valid, copy.flags, copy.differs, fun offset bound => ?_⟩
      have kept := (first.touches.holders (.user old (pageOf va)) nofun
        fun page _ same => by cases same; exact differ rfl).2
        ((user.backed old va isUser).2 valid)
      rw [copy.contents offset bound, user.pteToPa_eq isUser valid,
        kept.apply bound]
    · have copy := first.copies va isUser (isDone.resolve_right again) valid
      have same := second.others va isUser fun both => again both.1
      rw [same]
      refine ⟨copy.valid, copy.flags, copy.differs, fun offset bound => ?_⟩
      have kept := (second.touches.holders (.user new (pageOf va)) nofun
        fun page isDone' same => by cases same; exact again isDone').2
        ((user'.backed new va isUser).2 copy.valid)
      rw [← copy.contents offset bound, user'.pteToPa_eq isUser copy.valid,
        kept.apply bound]
  · rw [second.others va isUser, first.others va isUser]
    · rintro ⟨isDone, valid⟩
      exact notDone ⟨Or.inl isDone, valid⟩
    · rintro ⟨isDone, valid⟩
      rw [samePtes] at valid
      exact notDone ⟨Or.inr isDone, valid⟩

/-- A loop that copies pages. -/
theorem UserMem.copyLoop
    {old new : ρ} (user : UserMem mem root free held) (differ : old ≠ new)
    (oldPresent : root old ≠ 0) (newPresent : root new ≠ 0)
    {address : Nat → UInt64} {items : List Nat}
    (inside : ∀ item ∈ items, Aligned (address item) ∧
      (address item).toNat < 4096 * userPages)
    (run : (items.forM fun item =>
      Mem.copyMapping (root old) (root new) (address item)).Runs mem () mem') :
    ∃ free' held', UserMem mem' root free' held' ∧
      Copied root old new (fun page => ∃ item ∈ items,
        page = pageOf (address item)) mem held mem' held' := by
  induction items generalizing mem free held with
  | nil =>
      obtain ⟨_, rfl⟩ := Program.runs_pure.mp run
      refine ⟨free, held, user, Touches.refl, ?_, fun _ _ _ => rfl⟩
      rintro _ _ ⟨_, member, _⟩
      cases member
  | cons item rest inductionHypothesis =>
      rw [List.forM, Program.runs_bind] at run
      obtain ⟨_, middle, first, others⟩ := run
      obtain ⟨aligned, isUser⟩ := inside item List.mem_cons_self
      obtain ⟨free₁, held₁, user₁, copied₁⟩ := user.copyMapping differ
        oldPresent newPresent aligned isUser first
      obtain ⟨free', held', user', copied⟩ := inductionHypothesis user₁
        (fun other member => inside other (List.mem_cons_of_mem _ member))
        others
      have both := Copied.trans differ user user₁ copied₁ copied
      refine ⟨free', held', user', ?_⟩
      have same : (fun page => page = pageOf (address item) ∨
          ∃ other ∈ rest, page = pageOf (address other)) =
          fun page => ∃ other ∈ item :: rest,
            page = pageOf (address other) := by
        funext page
        simp only [List.mem_cons, exists_eq_or_imp]
      rw [← same]
      exact both

/-- The pages `uvm_copy_pgtbl` looks at. -/
def CopiedPage (heapTop : UInt64) (ustackPages : UInt32) (page : Nat) : Prop :=
  4096 * page < heapTop.toNat ∨
    ∃ index < ustackPages.toNat, page = pageOf (ustackVa index)

/-- The offset of a stack page is computed with 32 bits. -/
theorem ustackVa_address (index : Nat) :
    (ustackVa index).toNat =
      2 ^ 38 - 12288 - index % 2 ^ 32 * 4096 % 2 ^ 32 := by
  have base : (trapframeVa - 4096).toNat = 2 ^ 38 - 12288 := rfl
  have size : (4096 : UInt32).toNat = 4096 := rfl
  have offset : ((UInt32.ofNat index * 4096).toUInt64).toNat =
      index % 2 ^ 32 * 4096 % 2 ^ 32 := by
    rw [UInt32.toNat_toUInt64, UInt32.toNat_mul, UInt32.toNat_ofNat', size]
  have below : (UInt32.ofNat index * 4096).toUInt64 ≤ trapframeVa - 4096 := by
    rw [UInt64.le_iff_toNat_le, base, offset]
    omega
  unfold ustackVa
  rw [UInt64.toNat_sub_of_le _ _ below, base, offset]

theorem ustackVa_toNat (index : Nat) :
    Aligned (ustackVa index) ∧ (ustackVa index).toNat < 4096 * userPages := by
  unfold Aligned userPages
  rw [ustackVa_address]
  omega

/-- `uvm_copy_pgtbl`. -/
theorem UserMem.copyPgtbl
    {old new : ρ} (user : UserMem mem root free held) (differ : old ≠ new)
    (oldPresent : root old ≠ 0) (newPresent : root new ≠ 0)
    {heapTop : UInt64} {ustackPages : UInt32} (low : heapTop.toNat ≤ 2 ^ 30)
    (run : (uvmCopyPgtbl (root old) (root new) heapTop ustackPages).Runs mem ()
      mem') :
    ∃ free' held', UserMem mem' root free' held' ∧
      Copied root old new (CopiedPage heapTop ustackPages) mem held mem'
        held' := by
  have address : ∀ index ∈ List.range ((heapTop.toNat + 4095) / pgSize),
      4096 * index < heapTop.toNat ∧
        (UInt64.ofNat (pgSize * index)).toNat = 4096 * index := by
    intro index member
    rw [List.mem_range] at member
    unfold pgSize at member ⊢
    rw [UInt64.toNat_ofNat']
    omega
  rw [uvmCopyPgtbl, Program.runs_bind] at run
  obtain ⟨_, middle, heap, stack⟩ := run
  obtain ⟨free₁, held₁, user₁, copied₁⟩ := user.copyLoop differ oldPresent
    newPresent (fun index member => by
      obtain ⟨below, isAddress⟩ := address index member
      unfold Aligned userPages
      rw [isAddress]
      omega) heap
  obtain ⟨free', held', user', copied⟩ := user₁.copyLoop differ oldPresent
    newPresent (fun index _ => ustackVa_toNat index) stack
  refine ⟨free', held', user', ?_⟩
  have both := Copied.trans differ user user₁ copied₁ copied
  have same : (fun page => (∃ index ∈ List.range ((heapTop.toNat + 4095) /
      pgSize), page = pageOf (UInt64.ofNat (pgSize * index))) ∨
      ∃ index ∈ List.range ustackPages.toNat,
        page = pageOf (ustackVa index)) = CopiedPage heapTop ustackPages := by
    funext page
    unfold CopiedPage
    simp only [List.mem_range, eq_iff_iff]
    refine or_congr_left ?_
    constructor
    · rintro ⟨index, bound, rfl⟩
      obtain ⟨below, isAddress⟩ := address index (List.mem_range.mpr bound)
      rw [pageOf_ofNat (by omega)]
      exact below
    · intro below
      refine ⟨page, ?_, (pageOf_ofNat (by omega)).symm⟩
      unfold pgSize
      omega
  rw [← same]
  exact both

end Mem
end WhuOs
