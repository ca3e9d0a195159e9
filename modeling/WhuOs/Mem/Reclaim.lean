import WhuOs.Mem.Destroy
import WhuOs.Mem.Formed

/-!
# Reclaiming an address space

Destroying the page table of a process gives back exactly the tables and the
user pages of its address space.  All other address spaces stay as they are.
-/

namespace WhuOs
namespace Mem

open Library
open Library.Bytes
open Program (Runs)

variable {ρ : Type} {root : ρ → UInt64}
  {mem mem' : State} {free free' : Bool → List UInt64}
  {held held' : Holder ρ → UInt64} {r : ρ} {va : UInt64}

/-! ## Places of user pages -/

/-- The virtual address of an entry of the last level. -/
def vaAt (i j k : Fin 512) : UInt64 :=
  UInt64.ofNat (4096 * (i.val * 2 ^ 18 + j.val * 2 ^ 9 + k.val))

theorem vaAt_toNat (i j k : Fin 512) :
    (vaAt i j k).toNat = 4096 * (i.val * 2 ^ 18 + j.val * 2 ^ 9 + k.val) := by
  have := i.isLt
  have := j.isLt
  have := k.isLt
  unfold vaAt
  rw [UInt64.toNat_ofNat']
  omega

theorem pathTo_vaAt (i j k : Fin 512) : pathTo (vaAt i j k) 0 = [i, j] := by
  have := i.isLt
  have := j.isLt
  have := k.isLt
  have isAddress := vaAt_toNat i j k
  simp only [pathTo, vpn, List.cons.injEq, Fin.ext_iff, and_true]
  rw [isAddress]
  omega

theorem vpn_vaAt (i j k : Fin 512) : vpn (vaAt i j k) 0 = k := by
  have := i.isLt
  have := j.isLt
  have := k.isLt
  apply Fin.ext
  change (vaAt i j k).toNat / 2 ^ (12 + 9 * 0) % 512 = k
  rw [vaAt_toNat i j k]
  omega

/-- The page at the end of a path of three steps. -/
theorem value_three (bytes : Bytes) (root : UInt64) (i j k : Fin 512) :
    Forest.value 0 (childOf bytes) root [i, j, k] =
      entryPage (pteAt bytes root (vaAt i j k)) := by
  have split : [i, j, k] = [i, j] ++ [k] := rfl
  rw [split, Forest.value_concat]
  unfold pteAt entryPage
  rw [pathTo_vaAt, vpn_vaAt]
  unfold tableAt
  split
  · rw [if_neg (by rw [not_isValid_zero]; exact Bool.false_ne_true)]
  · rfl

/-- The entries of an address space above the user pages are empty. -/
def NothingHigh (bytes : Bytes) (root : UInt64) : Prop :=
  ∀ va, userPages ≤ pageOf va → isValid (pteAt bytes root va) = false

section Tree

variable (user : UserMem mem root free held)
  (high : NothingHigh mem.bytes (root r))

include user high

/-- The pages in the last level belong to user pages. -/
theorem held_of_value_three
    {i j k : Fin 512}
    (present : Forest.value 0 (childOf mem.bytes) (root r) [i, j, k] ≠ 0) :
    pageOf (vaAt i j k) < userPages ∧
      Forest.value 0 (childOf mem.bytes) (root r) [i, j, k] =
        held (.user r (pageOf (vaAt i j k))) := by
  rw [value_three] at present ⊢
  by_cases isUser : pageOf (vaAt i j k) < userPages
  · exact ⟨isUser, (user.backed r _ isUser).1.symm⟩
  · have invalid := high (vaAt i j k) (Nat.le_of_not_lt isUser)
    unfold entryPage at present
    rw [invalid] at present
    exact absurd rfl present

/-- The places of an address space hold different pages. -/
theorem distinct_places : Forest.Distinct 0 (childOf mem.bytes) 3 (root r) := by
  intro path path' short short' present same
  have present' := present
  rw [same] at present'
  rcases Nat.lt_or_eq_of_le short with upper | leaf
  · have bound : path.length ≤ 2 := Nat.le_of_lt_succ upper
    rcases Nat.lt_or_eq_of_le short' with upper' | leaf'
    · exact (user.tables.unique bound (Nat.le_of_lt_succ upper') present
        same).2
    · rcases List.length_eq_three.mp leaf' with ⟨i, j, k, rfl⟩
      rcases held_of_value_three user high present' with ⟨_, isHeld⟩
      rw [isHeld] at present' same
      exact absurd same (user.notTable _ present' r path bound)
  · rcases List.length_eq_three.mp leaf with ⟨i, j, k, rfl⟩
    rcases held_of_value_three user high present with ⟨_, isHeld⟩
    rcases Nat.lt_or_eq_of_le short' with upper' | leaf'
    · rw [isHeld] at present same
      exact absurd same.symm
        (user.notTable _ present r path' (Nat.le_of_lt_succ upper'))
    · rcases List.length_eq_three.mp leaf' with ⟨i', j', k', rfl⟩
      rcases held_of_value_three user high present' with ⟨_, isHeld'⟩
      rw [isHeld, isHeld'] at same
      rw [isHeld] at present
      have samePage := user.unique _ _ present same
      rw [Holder.user.injEq, pageOf_eq_iff, pathTo_vaAt, pathTo_vaAt, vpn_vaAt,
        vpn_vaAt] at samePage
      rcases samePage.2 with ⟨samePath, rfl⟩
      cases samePath
      rfl

variable (present : root r ≠ 0)

include present

/-- The pages of an address space: its tables and its user pages. -/
theorem mem_pagesOf {page : UInt64} :
    page ∈ pagesOf mem.bytes 3 (root r) ↔ page ≠ 0 ∧
      ((∃ path, path.length ≤ 2 ∧
        tableAt mem.bytes (root r) path = page) ∨
      ∃ number < userPages, held (.user r number) = page) := by
  unfold pagesOf
  rw [Forest.mem_postorder present]
  refine and_congr_right fun notNull => ?_
  constructor
  · rintro ⟨path, short, rfl⟩
    rcases Nat.lt_or_eq_of_le short with upper | leaf
    · exact Or.inl ⟨path, Nat.le_of_lt_succ upper, rfl⟩
    · rcases List.length_eq_three.mp leaf with ⟨i, j, k, rfl⟩
      rcases held_of_value_three user high notNull with ⟨isUser, isHeld⟩
      exact Or.inr ⟨_, isUser, isHeld.symm⟩
  · rintro (⟨path, bound, rfl⟩ | ⟨number, isUser, rfl⟩)
    · exact ⟨path, Nat.le_succ_of_le bound, rfl⟩
    · have small : number < 2 ^ 27 := by
        unfold userPages at isUser
        omega
      refine ⟨[vpn (UInt64.ofNat (4096 * number)) 2,
        vpn (UInt64.ofNat (4096 * number)) 1,
        vpn (UInt64.ofNat (4096 * number)) 0], le_rfl, ?_⟩
      have isPage := pageOf_ofNat small
      have samePage : pageOf (vaAt (vpn (UInt64.ofNat (4096 * number)) 2)
          (vpn (UInt64.ofNat (4096 * number)) 1)
          (vpn (UInt64.ofNat (4096 * number)) 0)) =
            pageOf (UInt64.ofNat (4096 * number)) :=
        pageOf_eq_iff.mpr ⟨pathTo_vaAt _ _ _, vpn_vaAt _ _ _⟩
      rw [value_three, pteAt_congr samePage,
        ← (user.backed r _ (by rw [isPage]; exact isUser)).1, isPage]

theorem nodup_pagesOf : (pagesOf mem.bytes 3 (root r)).Nodup :=
  Forest.nodup_postorder present (distinct_places user high)

variable (formed : Formed mem.bytes root)

include formed

omit present in
/-- An entry of the last level is not taken for a pointer. -/
theorem leaf_of_valid
    (valid : isValid (pteAt mem.bytes (root r) va) = true) :
    pteCheck (pteAt mem.bytes (root r) va) = false ∧
      pteToPa (pteAt mem.bytes (root r) va) ≠ 0 := by
  by_cases isUser : pageOf va < userPages
  · constructor
    · exact pteCheck_of_userFlags (formed.userFlags r va isUser valid)
    · rw [user.pteToPa_eq isUser valid]
      exact (user.backed r va isUser).2 valid
  · rw [high va (Nat.le_of_not_lt isUser)] at valid
    cases valid

omit present in
/-- Every table of the address space has the shape of its level. -/
theorem shaped_tableAt
    {level : Nat} {path : List (Fin 512)} (length : path.length + level = 3)
    (present : tableAt mem.bytes (root r) path ≠ 0) :
    Shaped mem.bytes level (tableAt mem.bytes (root r) path) := by
  induction level generalizing path with
  | zero => trivial
  | succ level inductionHypothesis =>
      intro index valid
      cases level with
      | zero =>
          rcases List.length_eq_two.mp (show path.length = 2 by omega) with
            ⟨i, j, rfl⟩
          have isEntry : pteAt mem.bytes (root r) (vaAt i j index) =
              entryOf mem.bytes (tableAt mem.bytes (root r) [i, j]) index := by
            unfold pteAt
            rw [pathTo_vaAt, vpn_vaAt, if_neg present]
          rw [← isEntry] at valid ⊢
          rcases leaf_of_valid user high formed valid with ⟨isLeaf, notNull⟩
          exact ⟨isLeaf, notNull, trivial⟩
      | succ level =>
          rcases user.tables.pointer r path index (by omega) present valid with
            ⟨isPointer, notNull⟩
          have isChild : tableAt mem.bytes (root r) (path ++ [index]) =
              pteToPa (entryOf mem.bytes
                (tableAt mem.bytes (root r) path) index) := by
            rw [tableAt_concat, if_neg present]
            exact if_pos valid
          have childPresent : tableAt mem.bytes (root r) (path ++ [index]) ≠ 0 := by
            rw [isChild]
            exact notNull
          have childLength : (path ++ [index]).length + (level + 1) = 3 := by
            rw [List.length_append, List.length_singleton]
            omega
          have below := inductionHypothesis childLength childPresent
          rw [isChild] at below
          exact ⟨isPointer.trans (decide_eq_true (Nat.succ_pos _)).symm,
            notNull, below⟩

/-- The pages of an address space are pages of the memory that are taken. -/
theorem taken_pagesOf
    {page : UInt64} (member : page ∈ pagesOf mem.bytes 3 (root r)) :
    page ≠ 0 ∧ InRam page ∧ Taken free page := by
  rcases (mem_pagesOf user high present).mp member with
    ⟨notNull, ⟨path, bound, rfl⟩ | ⟨number, _, rfl⟩⟩
  · exact ⟨notNull, formed.tables r path bound notNull,
      user.tables.taken_tableAt bound notNull⟩
  · exact ⟨notNull, user.inRam _ notNull, user.taken notNull⟩

/-- `destroy_pgtbl` ends, and gives back the pages of the address space. -/
theorem destroyPgtbl_three :
    (destroyPgtbl 3 (root r)).Runs mem ()
      (mem.giveBackAll (pagesOf mem.bytes 3 (root r))) := by
  apply destroyPgtbl_runs 2
  · have length : ([] : List (Fin 512)).length + 3 = 3 := rfl
    exact shaped_tableAt user high formed length present
  · intro page member
    exact (taken_pagesOf user high present formed member).2.1.1
  · exact nodup_pagesOf user high present

end Tree

/-! ## Memory afterwards -/

/-- Pages are put on the list of the user region. -/
theorem FreeLists.giveBackAll
    {pages : List UInt64} (lists : FreeLists mem free) (nodup : pages.Nodup)
    (taken : ∀ page ∈ pages, page ≠ 0 ∧ Taken free page)
    (room : (free false).length + pages.length < 2 ^ 32) :
    FreeLists (mem.giveBackAll pages)
      (Function.update free false (pages.reverse ++ free false)) := by
  induction pages generalizing mem free with
  | nil =>
      rw [List.reverse_nil, List.nil_append, Function.update_eq_self]
      exact lists
  | cons page pages inductionHypothesis =>
      rcases taken page List.mem_cons_self with ⟨notNull, isTaken⟩
      rcases List.nodup_cons.mp nodup with ⟨apart, nodup⟩
      rw [List.length_cons] at room
      have lists' := lists.giveBack isTaken notNull
        (show (free false).length + 1 < 2 ^ 32 by omega)
      have rest := inductionHypothesis lists' nodup (by
        intro other member
        rcases taken other (List.mem_cons_of_mem page member) with
          ⟨notNull', isTaken'⟩
        refine ⟨notNull', isTaken'.aligned, ?_⟩
        intro inKernel isFree
        rcases FreeLists.mem_of_mem_cons isFree with ⟨rfl, _⟩ | isFree
        · exact apart member
        · exact isTaken'.notFree inKernel isFree) (by
        rw [Function.update_self, List.length_cons]
        omega)
      rw [Function.update_self, Function.update_idem] at rest
      rw [List.reverse_cons, List.append_assoc, List.singleton_append]
      exact rest

variable [DecidableEq ρ]

/-- The holders after an address space is gone. -/
def released (held : Holder ρ → UInt64) (r : ρ) : Holder ρ → UInt64
  | .user r' page => if r' = r then 0 else held (.user r' page)
  | other => held other

theorem released_eq
    {holder : Holder ρ} (some : released held r holder ≠ 0) :
    released held r holder = held holder ∧ ∀ page, holder ≠ .user r page := by
  cases holder with
  | user r' page =>
      rw [released] at some ⊢
      split at some
      · exact absurd rfl some
      · next differs =>
        refine ⟨if_neg differs, ?_⟩
        intro other isSame
        cases isSame
        exact differs rfl
  | trapframe r' => exact ⟨rfl, nofun⟩
  | scratch => exact ⟨rfl, nofun⟩

/-- An address space is gone, and its pages are free. -/
structure Reclaimed (root : ρ → UInt64) (r : ρ) (mem : State)
    (free : Bool → List UInt64) (held : Holder ρ → UInt64) (mem' : State)
    (free' : Bool → List UInt64) : Prop where
  userMem : UserMem mem' (Function.update root r 0) free' (released held r)
  formed : Formed mem'.bytes (Function.update root r 0)
  kernelFree : free' true = free true
  userFree : ∃ pages : List UInt64, pages.Nodup ∧
    free' false = pages ++ free false ∧
    ∀ page, page ∈ pages ↔ page ≠ 0 ∧
      ((∃ path, path.length ≤ 2 ∧ tableAt mem.bytes (root r) path = page) ∨
        ∃ number < userPages, held (.user r number) = page)
  kernelPgtbl : mem'.kernelPgtbl = mem.kernelPgtbl
  ptes : ∀ r' va, r' ≠ r →
    pteAt mem'.bytes (root r') va = pteAt mem.bytes (root r') va
  pages : ∀ holder, held holder ≠ 0 → (∀ page, holder ≠ .user r page) →
    Unchanged (held holder) mem.bytes mem'.bytes

/-- The tables of an address space that is left out. -/
theorem Tables.dropRoot
    {bytes : Bytes} (tables : Tables bytes root free) (r : ρ) :
    Tables bytes (Function.update root r 0) free := by
  have fewer : ∀ r' path,
      tableAt bytes (Function.update root r 0 r') path =
        if r' = r then 0 else tableAt bytes (root r') path := by
    intro r' path
    by_cases same : r' = r
    · rw [same, Function.update_self, if_pos rfl]
      exact Forest.value_null path
    · rw [Function.update_of_ne same, if_neg same]
  refine ⟨?_, tables.sound.restrict ?_ ?_, ?_⟩
  · intro r'
    by_cases same : r' = r
    · rw [same, Function.update_self]
      exact aligned_zero
    · rw [Function.update_of_ne same]
      exact tables.aligned r'
  · intro r' path _
    change tableAt _ _ _ = tableAt _ _ _ ∨ tableAt _ _ _ = 0
    rw [fewer]
    split
    · exact Or.inr rfl
    · exact Or.inl rfl
  · exact fun _ _ _ _ marked => marked
  · intro r' path index short present valid
    rw [fewer] at present valid ⊢
    split at present
    · exact absurd rfl present
    · next differs =>
      rw [if_neg differs] at valid ⊢
      exact tables.pointer r' path index short present valid

theorem pteAt_null (bytes : Bytes) (va : UInt64) : pteAt bytes 0 va = 0 :=
  if_pos (Forest.value_null (pathTo va 0))

theorem mem_free_reclaim
    {pages : List UInt64} {inKernel : Bool} {page : UInt64}
    (member : page ∈
      Function.update free false (pages.reverse ++ free false) inKernel) :
    page ∈ pages ∨ page ∈ free inKernel := by
  cases inKernel with
  | true => exact Or.inr member
  | false =>
      rw [Function.update_self, List.mem_append, List.mem_reverse] at member
      exact member

section Reclaim

variable (user : UserMem mem root free held)
  (high : NothingHigh mem.bytes (root r)) (present : root r ≠ 0)
  (formed : Formed mem.bytes root)

include user high present

omit [DecidableEq ρ] in
/-- Tables of other address spaces are not given back. -/
theorem table_not_mem_pagesOf
    {r' : ρ} (other : r' ≠ r) {path : List (Fin 512)} (bound : path.length ≤ 2)
    (notNull : tableAt mem.bytes (root r') path ≠ 0) :
    tableAt mem.bytes (root r') path ∉ pagesOf mem.bytes 3 (root r) := by
  intro member
  rcases (mem_pagesOf user high present).mp member with
    ⟨_, ⟨path', bound', same⟩ | ⟨number, _, same⟩⟩
  · exact other (user.tables.unique bound bound' notNull same.symm).1
  · rw [← same] at notNull
    exact user.notTable _ notNull r' path bound same.symm

omit [DecidableEq ρ] in
/-- Pages of other holders are not given back. -/
theorem held_not_mem_pagesOf
    {holder : Holder ρ} (some : held holder ≠ 0)
    (other : ∀ page, holder ≠ .user r page) :
    held holder ∉ pagesOf mem.bytes 3 (root r) := by
  intro member
  rcases (mem_pagesOf user high present).mp member with
    ⟨_, ⟨path, bound, same⟩ | ⟨number, _, same⟩⟩
  · exact user.notTable holder some r path bound same
  · exact other number (user.unique holder _ some same.symm)

include formed

omit [DecidableEq ρ] in
/-- Pages that are not given back are not written to. -/
theorem unchanged_reclaim
    {page : UInt64} (aligned : Aligned page)
    (other : page ∉ pagesOf mem.bytes 3 (root r)) :
    Unchanged page mem.bytes
      (mem.giveBackAll (pagesOf mem.bytes 3 (root r))).bytes :=
  unchanged_giveBackAll (fun _ member =>
    (taken_pagesOf user high present formed member).2.1.1) aligned other

theorem entryOf_reclaim
    {r' : ρ} {path : List (Fin 512)} (bound : path.length ≤ 2)
    (notNull : tableAt mem.bytes (Function.update root r 0 r') path ≠ 0)
    (index : Fin 512) :
    entryOf (mem.giveBackAll (pagesOf mem.bytes 3 (root r))).bytes
        (tableAt mem.bytes (Function.update root r 0 r') path) index =
      entryOf mem.bytes
        (tableAt mem.bytes (Function.update root r 0 r') path) index := by
  by_cases other : r' = r
  · rw [other, Function.update_self] at notNull
    exact absurd (Forest.value_null path) notNull
  · rw [Function.update_of_ne other] at notNull ⊢
    exact (unchanged_reclaim user high present formed
      (user.tables.aligned_tableAt r' path)
      (table_not_mem_pagesOf user high present other bound notNull)).entryOf
        index

/-- The tables that are left. -/
theorem tableAt_reclaim
    (r' : ρ) (path : List (Fin 512)) (bound : path.length ≤ 2) :
    tableAt (mem.giveBackAll (pagesOf mem.bytes 3 (root r))).bytes
        (Function.update root r 0 r') path =
      tableAt mem.bytes (Function.update root r 0 r') path :=
  tableAt_of_kept (fun _ _ index short notNull =>
    entryOf_reclaim user high present formed (Nat.le_of_lt short) notNull
      index) r' path bound

/-- The entries that are left. -/
theorem pteAt_reclaim (r' : ρ) (va : UInt64) :
    pteAt (mem.giveBackAll (pagesOf mem.bytes 3 (root r))).bytes
        (Function.update root r 0 r') va =
      pteAt mem.bytes (Function.update root r 0 r') va := by
  unfold pteAt
  rw [tableAt_reclaim user high present formed r' (pathTo va 0)
    (Nat.le_refl 2)]
  split
  · rfl
  · next notNull =>
    have bound : (pathTo va 0).length ≤ 2 := Nat.le_refl 2
    exact entryOf_reclaim user high present formed bound notNull _

omit formed in
/-- The holders that are left have their pages. -/
theorem released_reclaim
    {holder : Holder ρ} (some : released held r holder ≠ 0) :
    held holder ≠ 0 ∧ released held r holder = held holder ∧
      held holder ∉ pagesOf mem.bytes 3 (root r) := by
  rcases released_eq some with ⟨same, other⟩
  rw [same] at some
  exact ⟨some, same, held_not_mem_pagesOf user high present some other⟩

theorem tables_reclaim :
    Tables (mem.giveBackAll (pagesOf mem.bytes 3 (root r))).bytes
      (Function.update root r 0) (Function.update free false
        ((pagesOf mem.bytes 3 (root r)).reverse ++ free false)) := by
  refine Tables.of_kept (fun _ _ index short notNull =>
    entryOf_reclaim user high present formed (Nat.le_of_lt short) notNull
      index) (user.tables.dropRoot r) ?_
  rintro page notNull taken ⟨r', path, bound, rfl⟩
  refine ⟨taken.aligned, ?_⟩
  intro inKernel member
  rcases mem_free_reclaim member with below | isFree
  · by_cases other : r' = r
    · rw [other, Function.update_self] at notNull
      exact notNull (Forest.value_null path)
    · rw [Function.update_of_ne other] at notNull below
      exact table_not_mem_pagesOf user high present other bound notNull below
  · exact taken.notFree inKernel isFree

theorem holds_reclaim :
    Holds (mem.giveBackAll (pagesOf mem.bytes 3 (root r)))
      (Function.update root r 0) (Function.update free false
        ((pagesOf mem.bytes 3 (root r)).reverse ++ free false))
      (released held r) := by
  have nodup := nodup_pagesOf user high present
  have room : (free false).length + (pagesOf mem.bytes 3 (root r)).length <
      2 ^ 32 := by
    have bounded := length_le_of_inRam (user.lists.nodup false)
      (user.freeRam false)
    have bounded' := length_le_of_inRam nodup fun page member =>
      (taken_pagesOf user high present formed member).2.1
    omega
  have lists := user.lists.giveBackAll nodup (fun page member =>
    have taken := taken_pagesOf user high present formed member
    ⟨taken.1, taken.2.2⟩) room
  refine ⟨lists, tables_reclaim user high present formed, ?_, ?_, ?_, ?_, ?_⟩
  · intro inKernel page member
    rcases mem_free_reclaim member with below | isFree
    · exact (taken_pagesOf user high present formed below).2.1
    · exact user.freeRam inKernel page isFree
  · intro holder some
    rcases released_reclaim user high present some with ⟨some, same, _⟩
    rw [same]
    exact user.inRam holder some
  · intro holder some inKernel member
    rcases released_reclaim user high present some with
      ⟨some, same, apart⟩
    rw [same] at member
    rcases mem_free_reclaim member with
      below | isFree
    · exact apart below
    · exact user.notFree holder some inKernel isFree
  · intro holder some r' path bound
    rcases released_reclaim user high present some with ⟨some, same, _⟩
    rw [same, tableAt_reclaim user high present formed r' path bound]
    by_cases other : r' = r
    · rw [other, Function.update_self]
      intro isHeld
      rw [← isHeld] at some
      exact some (Forest.value_null path)
    · rw [Function.update_of_ne other]
      exact user.notTable holder some r' path bound
  · intro holder holder' some equal
    have some' := some
    rw [equal] at some'
    rcases released_reclaim user high present some with ⟨some, same, _⟩
    rcases released_reclaim user high present some' with ⟨_, same', _⟩
    rw [same, same'] at equal
    exact user.unique holder holder' some equal

theorem userMem_reclaim :
    UserMem (mem.giveBackAll (pagesOf mem.bytes 3 (root r)))
      (Function.update root r 0) (Function.update free false
        ((pagesOf mem.bytes 3 (root r)).reverse ++ free false))
      (released held r) := by
  refine ⟨holds_reclaim user high present formed, ?_, user.scratch⟩
  intro r' va isUser
  rw [pteAt_reclaim user high present formed, released]
  by_cases same : r' = r
  · rw [same, Function.update_self, pteAt_null, if_pos rfl]
    exact ⟨rfl, nofun⟩
  · rw [Function.update_of_ne same, if_neg same]
    exact user.backed r' va isUser

theorem formed_reclaim :
    Formed (mem.giveBackAll (pagesOf mem.bytes 3 (root r))).bytes
      (Function.update root r 0) := by
  constructor
  · intro r' va isUser valid
    rw [pteAt_reclaim user high present formed] at valid ⊢
    by_cases same : r' = r
    · rw [same, Function.update_self, pteAt_null] at valid
      cases valid
    · rw [Function.update_of_ne same] at valid ⊢
      exact formed.userFlags r' va isUser valid
  · intro r' path bound notNull
    rw [tableAt_reclaim user high present formed r' path bound] at notNull ⊢
    by_cases same : r' = r
    · rw [same, Function.update_self] at notNull
      exact absurd (Forest.value_null path) notNull
    · rw [Function.update_of_ne same] at notNull ⊢
      exact formed.tables r' path bound notNull

/-- `destroy_pgtbl` reclaims an address space. -/
theorem UserMem.reclaim :
    ∃ mem' free', (destroyPgtbl 3 (root r)).Runs mem () mem' ∧
      Reclaimed root r mem free held mem' free' := by
  refine ⟨_, _, destroyPgtbl_three user high present formed,
    userMem_reclaim user high present formed,
    formed_reclaim user high present formed, rfl, ?_, ?_, ?_, ?_⟩
  · refine ⟨_, List.nodup_reverse.mpr (nodup_pagesOf user high present),
      Function.update_self _ _ _, ?_⟩
    intro page
    rw [List.mem_reverse]
    exact mem_pagesOf user high present
  · exact kernelPgtbl_giveBackAll _
  · intro r' va other
    have same := pteAt_reclaim user high present formed r' va
    rw [Function.update_of_ne other] at same
    exact same
  · intro holder some other
    exact unchanged_reclaim user high present formed
      (user.taken some).aligned
      (held_not_mem_pagesOf user high present some other)

end Reclaim

end Mem
end WhuOs
