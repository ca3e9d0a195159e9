import WhuOs.Mem.User
import WhuOs.Process.Runs

/-!
# The memory of processes

How the functions that build address spaces and trapframes change the pages of
processes.
-/

namespace WhuOs
namespace Process

open Library
open Library.Bytes
open Mem
open Program (Runs)

variable {ρ : Type} [DecidableEq ρ] {root : ρ → UInt64}
  {mem mem' : Mem.State} {free free' : Bool → List UInt64}
  {held held' : Holder ρ → UInt64} {r : ρ}

/-! ## Page tables -/

/-- `proc_pgtbl_init` gives an address space without user pages. -/
theorem procPgtblInit_user
    (user : UserMem mem root free held) (absent : root r = 0)
    {trampoline trapframe pgtbl : UInt64}
    (run : (procPgtblInit trampoline trapframe).Runs mem pgtbl mem') :
    (pgtbl = 0 ∧ mem' = mem) ∨
    (pgtbl ≠ 0 ∧ ∃ free',
      UserMem mem' (Function.update root r pgtbl) free' held ∧
      Untouched r root (Function.update root r pgtbl) mem mem' held) := by
  rw [procPgtblInit, Program.runs_bind] at run
  obtain ⟨page, mem₁, allocated, run⟩ := run
  rcases user.toHolds.alloc .scratch allocated with
    ⟨rfl, rfl⟩ | ⟨notNull, sameBytes, _, free₁, holds⟩
  · rw [if_pos rfl] at run
    obtain ⟨rfl, rfl⟩ := Program.runs_pure.mp run
    exact Or.inl ⟨rfl, rfl⟩
  rw [if_neg notNull] at run
  simp only [Program.runs_bind, Program.runs_pure] at run
  obtain ⟨_, mem₂, clears, _, mem₃, mapsTrampoline, _, mem₄, mapsTrapframe, rfl,
    rfl⟩ := run
  obtain rfl := (clearPage_runs notNull).mp clears
  have atScratch : Function.update held Holder.scratch page .scratch = page :=
    Function.update_self _ _ _
  have some : Function.update held Holder.scratch page .scratch ≠ 0 := by
    rw [atScratch]
    exact notNull
  have written : ChangedIn (Function.update held Holder.scratch page .scratch)
      mem₁.bytes (clearedBytes mem₁.bytes page) := by
    rw [atScratch]
    exact changedIn_cleared _ _
  have holds₂ := holds.write some written
  have empty : ∀ index, entryOf (mem₁.setBytes
      (clearedBytes mem₁.bytes page)).bytes
      (Function.update held Holder.scratch page .scratch) index = 0 := by
    intro index
    rw [atScratch]
    exact entryOf_cleared _ _ _
  have holds₃ := holds₂.addRoot some empty r
  rw [atScratch, Function.update_idem] at holds₃
  have isHeld : Function.update held Holder.scratch 0 = held := by
    rw [← user.scratch]
    exact Function.update_eq_self _ _
  rw [isHeld] at holds₃
  have emptyPage : ∀ index,
      entryOf (clearedBytes mem₁.bytes page) page index = 0 :=
    entryOf_cleared _ _
  have untouched : Untouched r root (Function.update root r page) mem
      (mem₁.setBytes (clearedBytes mem₁.bytes page)) held := by
    constructor
    · intro r' va _
      rw [State.setBytes_bytes, Holds.pteAt_addRoot notNull emptyPage]
      by_cases same : r' = r
      · rw [if_pos same, same, absent]
        rfl
      · rw [if_neg same, holds.pteAt_write some written, sameBytes]
    · intro holder isSome
      have proper : holder ≠ .scratch := by
        rintro rfl
        exact isSome user.scratch
      have isSome' : Function.update held Holder.scratch page holder ≠ 0 := by
        rw [Function.update_of_ne proper]
        exact isSome
      have kept := holds.unchanged_write some isSome' proper written
      rw [Function.update_of_ne proper, sameBytes] at kept
      rw [State.setBytes_bytes, sameBytes]
      exact kept
  have user₃ : UserMem (mem₁.setBytes (clearedBytes mem₁.bytes page))
      (Function.update root r page) free₁ held :=
    ⟨holds₃, user.backed.untouched untouched, user.scratch⟩
  have isRoot : Function.update root r page r = page :=
    Function.update_self _ _ _
  have present : Function.update root r page r ≠ 0 := by
    rw [isRoot]
    exact notNull
  have trampolineRun : (vmMappages (Function.update root r page r)
      trampolineVa trampoline 4096 (pteR ||| pteX)).Runs
      (mem₁.setBytes (clearedBytes mem₁.bytes page)) () mem₃ := by
    rw [isRoot]
    exact mapsTrampoline
  have trapframeRun : (vmMappages (Function.update root r page r)
      trapframeVa trapframe 4096 (pteR ||| pteW)).Runs mem₃ () mem₄ := by
    rw [isRoot]
    exact mapsTrapframe
  obtain ⟨free₃, user₄, untouched₄⟩ := vmMappages_high user₃ present
    (by decide) (by decide) (by decide) trampolineRun
  obtain ⟨free', user₅, untouched₅⟩ := vmMappages_high user₄ present
    (by decide) (by decide) (by decide) trapframeRun
  exact Or.inr ⟨notNull, free', user₅,
    (untouched.trans untouched₄).trans untouched₅⟩

/-! ## Trapframes -/

/-- `proc_fork` copies the trapframe and stores 0 as the return value. -/
theorem copyTrapframe_runs
    {src dst : UInt64} (aligned : Aligned dst)
    (run : (copyTrapframe src dst).Runs mem () mem') :
    ∃ bytes, mem' = mem.setBytes bytes ∧ ChangedIn dst mem.bytes bytes ∧
      ∀ offset < trapframeSize, bytes (dst.toNat + offset) =
        if 112 ≤ offset ∧ offset < 120 then 0
        else mem.bytes (src.toNat + offset) := by
  have room := aligned.room
  have size : trapframeSize = 288 := rfl
  have at112 : (dst + 112).toNat = dst.toNat + 112 := by
    have value : (112 : UInt64).toNat = 112 := rfl
    rw [UInt64.toNat_add, value]
    omega
  simp only [copyTrapframe, Program.runs_bind, Program.runs_modify,
    runs_store] at run
  obtain ⟨_, _, rfl, rfl⟩ := run
  refine ⟨_, rfl, ?_, ?_⟩
  · intro address outside
    unfold InPage at outside
    rw [State.setBytes_bytes, at112]
    unfold write64
    rw [memmove_of_not_mem _ _ (by omega), memmove_of_not_mem _ _ (by omega)]
  · intro offset bound
    rw [State.setBytes_bytes, at112]
    unfold write64
    by_cases isA0 : 112 ≤ offset ∧ offset < 120
    · rw [if_pos isA0, memmove_of_mem _ _ (by omega)]
      unfold Bytes.byteOf
      rw [UInt64.toNat_zero, Nat.zero_div]
      rfl
    · rw [if_neg isA0, memmove_of_not_mem _ _ (by omega),
        memmove_of_mem _ _ (by omega), Nat.add_sub_cancel_left]

omit [DecidableEq ρ] in
/-- A store to the trapframe of a process. -/
theorem store_trapframe
    (user : UserMem mem root free held) (some : held (.trapframe r) ≠ 0)
    {offset value : UInt64} (bound : offset.toNat + 8 ≤ 4096)
    (run : (store (held (.trapframe r) + offset) value).Runs mem () mem') :
    UserMem mem' root free held := by
  have room := (user.taken some).aligned.room
  have address : (held (.trapframe r) + offset).toNat =
      (held (.trapframe r)).toNat + offset.toNat := by
    rw [UInt64.toNat_add]
    omega
  obtain rfl := runs_store.mp run
  refine user.write some (changedIn_memmove ?_ ?_)
  · omega
  · omega

/-! ## The first process -/

/-- The holders after the stack and the code of the first process were
allocated. -/
def firstHeld (held : Holder ρ → UInt64) (r : ρ)
    (ustackPa1 ustackPa2 codePa : UInt64) : Holder ρ → UInt64 :=
  Function.update (Function.update (Function.update held
    (.user r (pageOf (trapframeVa - 8192))) ustackPa1)
    (.user r (pageOf (trapframeVa - 8192 + 4096))) ustackPa2)
    (.user r (pageOf 4096)) codePa

theorem firstHeld_code
    (held : Holder ρ → UInt64) (r : ρ) (ustackPa1 ustackPa2 codePa : UInt64) :
    firstHeld held r ustackPa1 ustackPa2 codePa (.user r (pageOf 4096)) =
      codePa :=
  Function.update_self _ _ _

theorem firstHeld_of_ne
    (held : Holder ρ → UInt64) (r : ρ) (ustackPa1 ustackPa2 codePa : UInt64)
    {holder : Holder ρ} (other : ∀ page, holder ≠ .user r page) :
    firstHeld held r ustackPa1 ustackPa2 codePa holder = held holder := by
  unfold firstHeld
  rw [Function.update_of_ne (other _), Function.update_of_ne (other _),
    Function.update_of_ne (other _)]

/-- The stack and the code of the first process are mapped. -/
theorem firstHeld_user
    (user : UserMem mem root free held) (present : root r ≠ 0)
    {ustackPa1 ustackPa2 codePa : UInt64}
    (notNull₁ : ustackPa1 ≠ 0) (notNull₂ : ustackPa2 ≠ 0)
    (notNull₃ : codePa ≠ 0) {mem₁ mem₂ mem₃ mem₄ mem₅ : Mem.State}
    (allocated₁ : (pmemAlloc true).Runs mem ustackPa1 mem₁)
    (allocated₂ : (pmemAlloc true).Runs mem₁ ustackPa2 mem₂)
    (maps₁ : (vmMappages (root r) (trapframeVa - 8192) ustackPa1 4096
      (pteR ||| pteW ||| pteU)).Runs mem₂ () mem₃)
    (maps₂ : (vmMappages (root r) (trapframeVa - 8192 + 4096) ustackPa2 4096
      (pteR ||| pteW ||| pteU)).Runs mem₃ () mem₄)
    (allocated₃ : (pmemAlloc true).Runs mem₄ codePa mem₅)
    (maps₃ : (vmMappages (root r) 4096 codePa 4096
      (pteR ||| pteW ||| pteX ||| pteU)).Runs mem₅ () mem') :
    ∃ free', UserMem mem' root free'
      (firstHeld held r ustackPa1 ustackPa2 codePa) := by
  obtain ⟨same₁, aligned₁, free₁, holds₁⟩ := user.toHolds.alloc_some
    (.user r (pageOf (trapframeVa - 8192))) notNull₁ allocated₁
  obtain ⟨same₂, aligned₂, free₂, holds₂⟩ := holds₁.alloc_some
    (.user r (pageOf (trapframeVa - 8192 + 4096))) notNull₂ allocated₂
  have flags : (pteR ||| pteW ||| pteU).toNat < 1024 := by decide
  have codeFlags : (pteR ||| pteW ||| pteX ||| pteU).toNat < 1024 := by decide
  obtain ⟨free₃, mapped₁⟩ := vmMappages_page holds₂.tables holds₂.lists present
    (by decide) (by decide) maps₁
  have holds₃ := holds₂.grown mapped₁.toGrown
  obtain ⟨free₄, mapped₂⟩ := vmMappages_page holds₃.tables holds₃.lists present
    (by decide) (by decide) maps₂
  have holds₄ := holds₃.grown mapped₂.toGrown
  obtain ⟨same₅, aligned₅, free₅, holds₅⟩ := holds₄.alloc_some
    (.user r (pageOf 4096)) notNull₃ allocated₃
  obtain ⟨free₆, mapped₃⟩ := vmMappages_page holds₅.tables holds₅.lists present
    (by decide) (by decide) maps₃
  have backed₂ : Backed mem₂.bytes root held := by
    rw [same₂, same₁]
    exact user.backed
  have backed₄ := (backed₂.leafPte aligned₁ notNull₁ flags mapped₁).leafPte
    aligned₂ notNull₂ flags mapped₂
  rw [← same₅] at backed₄
  refine ⟨free₆, holds₅.grown mapped₃.toGrown,
    backed₄.leafPte aligned₅ notNull₃ codeFlags mapped₃, ?_⟩
  have kept := firstHeld_of_ne held r ustackPa1 ustackPa2 codePa
    (show ∀ page, Holder.scratch ≠ .user r page from nofun)
  rw [kept]
  exact user.scratch

/-- The memory of the first process belongs to it. -/
theorem makeFirstMemory_user
    (user : UserMem mem root free held) (present : root r ≠ 0)
    (some : held (.trapframe r) ≠ 0) {boot : BootData} {kstack : UInt64}
    (run : (makeFirstMemory boot (root r) (held (.trapframe r)) kstack).Runs mem
      () mem') :
    ∃ free' held', UserMem mem' root free' held' ∧
      (∀ r', held' (.trapframe r') = held (.trapframe r')) ∧
      held' (.user r (pageOf 4096)) ≠ 0 := by
  simp only [makeFirstMemory, Program.runs_bind, Program.runs_assert,
    Program.runs_modify, decide_eq_true_eq] at run
  obtain ⟨ustackPa1, mem₁, allocated₁, ustackPa2, mem₂, allocated₂, _, _,
    ⟨⟨notNull₁, notNull₂⟩, rfl⟩, _, mem₃, maps₁, _, mem₄, maps₂, _, _,
    ⟨fits, rfl⟩, codePa, mem₅, allocated₃, _, _, ⟨notNull₃, rfl⟩, _, mem₆,
    maps₃, _, _, rfl, _, _, rfl, _, mem₇, store₁, _, mem₈, store₂, _, mem₉,
    store₃, _, mem₁₀, store₄, _, mem₁₁, store₅, store₆⟩ := run
  obtain ⟨free₆, user₆⟩ := firstHeld_user user present notNull₁ notNull₂
    notNull₃ allocated₁ allocated₂ maps₁ maps₂ allocated₃ maps₃
  have atCode := firstHeld_code held r ustackPa1 ustackPa2 codePa
  have trapframes : ∀ r', firstHeld held r ustackPa1 ustackPa2 codePa
      (.trapframe r') = held (.trapframe r') :=
    fun r' => firstHeld_of_ne held r ustackPa1 ustackPa2 codePa (by
      intro va wrong
      cases wrong)
  have size : trapframeSize = 288 := rfl
  have pageSize : pgSize = 4096 := rfl
  have someCode : firstHeld held r ustackPa1 ustackPa2 codePa
      (.user r (pageOf 4096)) ≠ 0 := by
    rw [atCode]
    exact notNull₃
  refine ⟨free₆, firstHeld held r ustackPa1 ustackPa2 codePa, ?_, trapframes,
    someCode⟩
  rw [← trapframes r] at some store₁ store₂ store₃ store₄ store₅ store₆
  have wroteCode : ChangedIn (firstHeld held r ustackPa1 ustackPa2 codePa
      (.user r (pageOf 4096))) mem₆.bytes
      (memmove mem₆.bytes codePa.toNat boot.initcode boot.initcodeLen) := by
    rw [atCode]
    exact changedIn_memmove (Nat.le_refl _) (by omega)
  have user₇ := user₆.write someCode wroteCode
  have clears : ∀ page bytes, ChangedIn page bytes
      (memmove bytes page.toNat (fun _ => 0) trapframeSize) :=
    fun page bytes => changedIn_memmove (Nat.le_refl _) (by omega)
  have cleared := user₇.write some (clears _ _)
  have user₈ := store_trapframe cleared some (by decide) store₁
  have user₉ := store_trapframe user₈ some (by decide) store₂
  rw [← UInt64.add_zero (firstHeld _ _ _ _ _ _)] at store₃
  have user₁₀ := store_trapframe user₉ some (by decide) store₃
  have user₁₁ := store_trapframe user₁₀ some (by decide) store₄
  have user₁₂ := store_trapframe user₁₁ some (by decide) store₅
  exact store_trapframe user₁₂ some (by decide) store₆

/-! ## Forks -/

/-- What `proc_fork` does to memory. -/
structure ForkedMem (root : ρ → UInt64) (old new : ρ) (done : Nat → Prop)
    (held : Holder ρ → UInt64) (tf pgtbl : UInt64) (mem mem' : Mem.State) :
    Prop where
  ptes : ∀ r va, r ≠ new →
    pteAt mem'.bytes (root r) va = pteAt mem.bytes (root r) va
  pages : ∀ holder, held holder ≠ 0 → (∀ page, holder ≠ .user new page) →
    Unchanged (held holder) mem.bytes mem'.bytes
  copies : ∀ va, pageOf va < userPages → done (pageOf va) →
    isValid (pteAt mem.bytes (root old) va) = true →
    CopyOf mem.bytes mem'.bytes (pteAt mem.bytes (root old) va)
      (pteAt mem'.bytes pgtbl va)
  absent : ∀ va, pageOf va < userPages →
    ¬(done (pageOf va) ∧ isValid (pteAt mem.bytes (root old) va) = true) →
    isValid (pteAt mem'.bytes pgtbl va) = false
  trapframe : ∀ offset < trapframeSize, mem'.bytes (tf.toNat + offset) =
    if 112 ≤ offset ∧ offset < 120 then 0
    else mem.bytes ((held (.trapframe old)).toNat + offset)

/-- A child gets a trapframe, a page table and copies of the pages of its
parent. -/
theorem fork_memory
    {old new : ρ} (user : UserMem mem root free held) (differ : old ≠ new)
    (oldPresent : root old ≠ 0) (newAbsent : root new = 0)
    (oldTf : held (.trapframe old) ≠ 0) (newTf : held (.trapframe new) = 0)
    {heapTop : UInt64} (low : heapTop.toNat ≤ 2 ^ 30) {ustackPages : UInt32}
    {trampoline tf pgtbl : UInt64} {mem₁ mem₂ mem₃ : Mem.State}
    (tfSome : tf ≠ 0) (pgtblSome : pgtbl ≠ 0)
    (allocTf : (pmemAlloc true).Runs mem tf mem₁)
    (init : (procPgtblInit trampoline tf).Runs mem₁ pgtbl mem₂)
    (copy : (uvmCopyPgtbl (root old) pgtbl heapTop ustackPages).Runs mem₂ ()
      mem₃)
    (copyTf : (copyTrapframe (held (.trapframe old)) tf).Runs mem₃ () mem') :
    ForkedMem root old new (CopiedPage heapTop ustackPages) held tf pgtbl mem
        mem' ∧
      ∃ free' held', UserMem mem' (Function.update root new pgtbl) free' held' ∧
        ∀ r, held' (.trapframe r) =
          if r = new then tf else held (.trapframe r) := by
  obtain ⟨sameBytes, free₁, user₁⟩ := user.alloc_trapframe new tfSome allocTf
  rcases procPgtblInit_user (r := new) user₁ newAbsent init with
    ⟨null, _⟩ | ⟨_, free₂, user₂, untouched⟩
  · exact absurd null pgtblSome
  have rootNew : Function.update root new pgtbl new = pgtbl :=
    Function.update_self _ _ _
  have rootOther : ∀ r, r ≠ new → Function.update root new pgtbl r = root r :=
    fun r differs => Function.update_of_ne differs _ _
  rw [← rootNew, ← rootOther old differ] at copy
  rw [← rootOther old differ] at oldPresent
  obtain ⟨free₃, held₃, user₃, copied⟩ := user₂.copyPgtbl differ oldPresent
    (by rw [rootNew]; exact pgtblSome) low copy
  have heldTf : held₃ (.trapframe new) = tf := by
    rw [(copied.touches.holders (.trapframe new) nofun fun _ _ => nofun).1]
    exact Function.update_self _ _ _
  have someTf : held₃ (.trapframe new) ≠ 0 := by
    rw [heldTf]
    exact tfSome
  have alignedTf : Aligned tf := by
    rw [← heldTf]
    exact (user₃.taken someTf).aligned
  obtain ⟨bytes, rfl, changed, frame⟩ := copyTrapframe_runs alignedTf copyTf
  rw [← heldTf] at changed
  have written := user₃.pteAt_write someTf changed
  have keptPtes : ∀ r va, r ≠ new →
      pteAt mem₂.bytes (Function.update root new pgtbl r) va =
        pteAt mem.bytes (root r) va := by
    intro r va differs
    rw [untouched.ptes r va (Or.inl differs), sameBytes]
  have keptHeld : ∀ holder, held holder ≠ 0 →
      Function.update held (.trapframe new) tf holder = held holder := by
    intro holder some
    refine Function.update_of_ne ?_ _ _
    rintro rfl
    exact some newTf
  have keptPages₂ : ∀ holder, held holder ≠ 0 →
      Unchanged (held holder) mem.bytes mem₂.bytes := by
    intro holder some
    have kept := untouched.pages holder (by rw [keptHeld holder some]; exact some)
    rw [keptHeld holder some, sameBytes] at kept
    exact kept
  have keptPages₃ : ∀ holder, held holder ≠ 0 →
      (∀ page, holder ≠ .user new page) →
      held₃ holder = held holder ∧
        Unchanged (held holder) mem.bytes mem₃.bytes := by
    intro holder some other
    have proper : holder ≠ .scratch := by
      rintro rfl
      exact some user.scratch
    have kept := copied.touches.holders holder proper fun page _ => other page
    rw [keptHeld holder some] at kept
    exact ⟨kept.1, (keptPages₂ holder some).trans (kept.2 some)⟩
  refine ⟨⟨fun r va differs => ?_, fun holder some other => ?_,
    fun va isUser isDone valid => ?_, fun va isUser notDone => ?_,
    fun offset bound => ?_⟩, free₃, held₃, user₃.write someTf changed,
    fun r => ?_⟩
  · have kept := copied.touches.ptes r va fun both => differs both.1
    have whole := (written r va).trans (kept.trans (keptPtes r va differs))
    rw [rootOther r differs] at whole
    exact whole
  · obtain ⟨sameHeld, kept⟩ := keptPages₃ holder some other
    have differs : holder ≠ .trapframe new := by
      rintro rfl
      exact some newTf
    have last := user₃.unchanged_write someTf (by rw [sameHeld]; exact some)
      differs changed
    rw [sameHeld] at last
    exact kept.trans last
  · have oldPte := keptPtes old va differ
    have copy := copied.copies va isUser isDone (by rw [oldPte]; exact valid)
    rw [oldPte] at copy
    have newPte := written new va
    rw [rootNew] at newPte copy
    rw [State.setBytes_bytes, newPte]
    refine ⟨copy.valid, copy.flags, copy.differs, fun offset bound => ?_⟩
    have someNew := (user₃.backed new va isUser).2 (by
      rw [rootNew]
      exact copy.valid)
    have isPage := user₃.pteToPa_eq (r := new) isUser (by
      rw [rootNew]
      exact copy.valid)
    rw [rootNew] at isPage
    have kept := user₃.unchanged_write someTf someNew nofun changed
    have someOld := (user.backed old va isUser).2 valid
    have keptOld := keptPages₂ (.user old (pageOf va)) someOld
    have contents := copy.contents offset bound
    rw [isPage] at contents ⊢
    rw [user.pteToPa_eq isUser valid] at contents ⊢
    rw [kept.apply bound, contents, keptOld.apply bound]
  · have same := copied.others va isUser fun both => notDone
      ⟨both.1, by rw [← keptPtes old va differ]; exact both.2⟩
    have fresh := untouched.ptes new va (Or.inr isUser)
    have whole := (written new va).trans (same.trans fresh)
    have nothing : pteAt mem₁.bytes (root new) va = 0 := by
      rw [newAbsent]
      exact if_pos (Forest.value_null _)
    rw [rootNew, nothing] at whole
    rw [State.setBytes_bytes, whole, not_isValid_zero]
  · have kept := (keptPages₃ (.trapframe old) oldTf nofun).2
    have small : offset < 4096 := Nat.lt_trans bound (by decide)
    rw [State.setBytes_bytes, frame offset bound, kept.apply small]
  · by_cases same : r = new
    · rw [if_pos same, same, heldTf]
    · have differs : Holder.trapframe r ≠ .trapframe new :=
        fun equal => same (Holder.trapframe.inj equal)
      rw [if_neg same, (copied.touches.holders (.trapframe r) nofun
        fun _ _ => nofun).1, Function.update_of_ne differs]

/-! ## Allocation that fails -/

variable {state final : State}

/-- The ways `proc_alloc` fails when unused slots have no pages. -/
theorem procAlloc_none
    (unused : ∀ slot, (state.procs slot).state = .unused →
      (state.procs slot).pgtbl = 0 ∧ (state.procs slot).tf = 0)
    (run : procAlloc.Runs state none final) :
    final = state ∨ ∃ slot mem, (state.procs slot).state = .unused ∧
      final = ((state.setGlobalPid (wrapInt (state.globalPid + 1))).setMem
        mem).setProc slot (state.procs slot).freed ∧
      ((pmemAlloc true).Runs state.mem 0 mem ∨ ∃ tf middle middle', tf ≠ 0 ∧
        (pmemAlloc true).Runs state.mem tf middle ∧
        (procPgtblInit state.trampoline tf).Runs middle 0 middle' ∧
        (pmemFree tf true).Runs middle' () mem) := by
  simp only [procAlloc, Program.runs_bind, Program.runs_get] at run
  obtain ⟨_, _, ⟨rfl, rfl⟩, run⟩ := run
  cases found : unusedSlot state with
  | none =>
      simp only [found, Program.runs_pure] at run
      exact Or.inl run.2.symm
  | some slot =>
      have isUnused : (state.procs slot).state = .unused := by
        simpa using List.find?_some found
      obtain ⟨noPgtbl, noTf⟩ := unused slot isUnused
      simp only [found, Program.runs_bind, runs_modifyProc, runs_onMem] at run
      obtain ⟨pid, _, allocPid, _, _, rfl, tf, _, ⟨middle, allocTf, rfl⟩, _, _,
        rfl, run⟩ := run
      obtain ⟨fits, rfl, rfl⟩ := allocPid_runs allocPid
      refine Or.inr ⟨slot, ?_⟩
      split at run
      · next tfNone =>
        simp only [Program.runs_bind, Program.runs_pure] at run
        obtain ⟨_, _, free, _, rfl⟩ := run
        obtain ⟨_, mem', freeTf, destroy, rfl⟩ := procFree_runs free
        simp only [setProc_procs_self, State.setMem_procs,
          State.setGlobalPid_procs, Proc.setTf, tfNone, noPgtbl,
          freeUnlessNull, uvmDestroyPgtbl, if_true,
          Program.runs_pure] at freeTf destroy
        obtain ⟨_, rfl⟩ := destroy
        rw [← freeTf.2]
        refine ⟨middle, isUnused, ?_, Or.inl ?_⟩
        · simp [Proc.freed, Proc.setTf]
        · rw [← tfNone]
          exact allocTf
      · next tfSome =>
        simp only [Program.runs_bind, runs_modifyProc, runs_onMem] at run
        obtain ⟨pgtbl, _, ⟨mem, init, rfl⟩, _, _, rfl, run⟩ := run
        split at run
        · next pgtblNone =>
          simp only [Program.runs_bind, Program.runs_pure] at run
          obtain ⟨_, _, free, _, rfl⟩ := run
          obtain ⟨_, mem', freeTf, destroy, rfl⟩ := procFree_runs free
          simp only [setProc_procs_self, State.setMem_procs, Proc.setTf,
            Proc.setPgtbl, tfSome, pgtblNone, freeUnlessNull, uvmDestroyPgtbl, if_true, if_false,
            Program.runs_pure] at freeTf destroy
          obtain ⟨_, rfl⟩ := destroy
          refine ⟨_, isUnused, ?_, Or.inr ⟨tf, middle, mem, tfSome, allocTf, ?_,
            freeTf⟩⟩
          · simp [Proc.freed, Proc.setTf, Proc.setPgtbl]
          · rw [← pgtblNone]
            exact init
        · simp only [Program.runs_bind, Program.runs_pure] at run
          obtain ⟨_, _, _, same, _⟩ := run
          cases same

end Process
end WhuOs
