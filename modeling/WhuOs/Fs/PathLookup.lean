import WhuOs.Fs.Locks
import WhuOs.Fs.Visits

/-!
# Path lookups

The loop over a path produces its components between separators, each cut to
the length of a name.  From a state between calls in which the root is
referenced, names lead to linked inodes and a slot is free, both lookups return:
one with the inode at which the components lead from the root, the other with
its parent.  They take the reference that they return and nothing else.
-/

namespace WhuOs
namespace Fs

open Library
open Program (Runs)

variable {state final : State} {path name : CString} {inodeNum : UInt16}

/-! ## Components -/

/-- The nonempty parts of a path between separators, cut to 29 bytes. -/
def components (path : List UInt8) : List (List UInt8) :=
  ((path.splitOn slash).filter (· ≠ [])).map (List.take 29)

theorem components_slash (rest : List UInt8) :
    components (slash :: rest) = components rest := by
  unfold components
  rw [List.splitOn_cons_eq_if_modifyHead, if_pos (by decide)]
  rfl

theorem components_slashes (path : List UInt8) :
    components (path.dropWhile (· = slash)) = components path := by
  induction path with
  | nil => rfl
  | cons byte rest inductionHypothesis =>
      by_cases isSlash : byte = slash
      · rw [List.dropWhile_cons_of_pos (by simpa using isSlash),
          inductionHypothesis, isSlash, components_slash]
      · rw [List.dropWhile_cons_of_neg (by simpa using isSlash)]

/-- A path that does not start with a separator starts with a component. -/
theorem components_element
    {byte : UInt8} {rest : List UInt8} (start : byte ≠ slash) :
    components (byte :: rest) =
      ((byte :: rest).takeWhile (· ≠ slash)).take 29 ::
        components ((byte :: rest).dropWhile (· ≠ slash)) := by
  have parts : (byte :: rest).takeWhile (· ≠ slash) ++
      (byte :: rest).dropWhile (· ≠ slash) = byte :: rest :=
    List.takeWhile_append_dropWhile
  have noSlash : slash ∉ (byte :: rest).takeWhile (· ≠ slash) := by
    intro member
    have unlike := List.all_takeWhile (p := (· ≠ slash)) (l := byte :: rest)
    simpa using List.all_eq_true.mp unlike slash member
  have nonempty : (byte :: rest).takeWhile (· ≠ slash) ≠ [] := by
    rw [List.takeWhile_cons_of_pos (by simpa using start)]
    exact List.cons_ne_nil _ _
  conv_lhs => rw [← parts]
  generalize (byte :: rest).takeWhile (· ≠ slash) = element at *
  cases behind : (byte :: rest).dropWhile (· ≠ slash) with
  | nil =>
      rw [List.append_nil]
      unfold components
      rw [List.splitOn_eq_singleton noSlash,
        List.filter_cons_of_pos (by simpa using nonempty)]
      rfl
  | cons separator tail =>
      have isSlash : separator = slash := by
        have head := List.head?_dropWhile_not (· ≠ slash) (byte :: rest)
        rw [behind] at head
        simpa using head
      rw [isSlash, components_slash]
      unfold components
      rw [List.splitOn_append_cons_of_beq _ _ (by simp),
        List.splitOn_eq_singleton noSlash, List.singleton_append,
        List.filter_cons_of_pos (by simpa using nonempty), List.map_cons]

/-- What `skip_element` makes of a path. -/
theorem skipElement_cases (path : CString) :
    (path.bytes.dropWhile (· = slash) = [] ∧ skipElement path = none) ∨
    ∃ byte tail name rest, path.bytes.dropWhile (· = slash) = byte :: tail ∧
      byte ≠ slash ∧ skipElement path = some (name, rest) ∧
      name.bytes = ((byte :: tail).takeWhile (· ≠ slash)).take 29 ∧
      rest.bytes =
        ((byte :: tail).dropWhile (· ≠ slash)).dropWhile (· = slash) := by
  unfold skipElement
  dsimp only
  by_cases empty : path.bytes.dropWhile (· = slash) = []
  · rw [if_pos empty]
    exact Or.inl ⟨empty, rfl⟩
  · rw [if_neg empty]
    obtain ⟨byte, tail, stripped⟩ := List.exists_cons_of_ne_nil empty
    have start : byte ≠ slash := by
      have head := List.head?_dropWhile_not (· = slash) path.bytes
      rw [stripped] at head
      simpa using head
    exact Or.inr ⟨byte, tail, _, _, stripped, start, rfl,
      congrArg (fun bytes => (bytes.takeWhile (· ≠ slash)).take 29) stripped,
      congrArg (fun bytes => (bytes.dropWhile (· ≠ slash)).dropWhile
        (· = slash)) stripped⟩

/-- Repeated calls of `skip_element` produce the components of a path. -/
theorem pathElements_bytes
    {path : CString} {fuel : Nat} (enough : path.bytes.length ≤ fuel) :
    (pathElements path fuel).map CString.bytes = components path.bytes := by
  induction fuel generalizing path with
  | zero =>
      rw [List.eq_nil_of_length_eq_zero (Nat.le_zero.mp enough)]
      rfl
  | succ fuel inductionHypothesis =>
      rw [← components_slashes]
      unfold pathElements
      rcases skipElement_cases path with ⟨empty, skipped⟩ |
        ⟨byte, tail, name, rest, stripped, start, skipped, element, behind⟩
      · rw [skipped, empty]
        rfl
      · have shorter : rest.bytes.length ≤ fuel := by
          have first := (List.dropWhile_sublist (· = slash)
            (l := path.bytes)).length_le
          have second := (List.dropWhile_sublist (· = slash) (l :=
            (byte :: tail).dropWhile (· ≠ slash))).length_le
          have third := (List.dropWhile_sublist (· ≠ slash)
            (l := tail)).length_le
          rw [stripped, List.length_cons] at first
          rw [List.dropWhile_cons_of_pos (by simpa using start)] at second
          rw [behind, List.dropWhile_cons_of_pos (by simpa using start)]
          omega
        rw [skipped, stripped, components_element start]
        dsimp only
        rw [List.map_cons, inductionHypothesis shorter, behind,
          components_slashes, element]

/-! ## Where a path leads -/

theorem childOf_of_notDir
    (notDir : (state.dinodeOf inodeNum).type ≠ ftDir) :
    state.childOf inodeNum name = none :=
  if_pos notDir

/-- A lookup of an inode folds the lookup of a name over the components. -/
theorem target_inode (elements : List CString) :
    (state.target false inodeNum elements).map Prod.fst =
      elements.foldlM state.childOf inodeNum := by
  induction elements generalizing inodeNum with
  | nil => rfl
  | cons name rest inductionHypothesis =>
      rw [State.target, List.foldlM_cons]
      by_cases notDir : (state.dinodeOf inodeNum).type ≠ ftDir
      · rw [if_pos notDir, childOf_of_notDir notDir]
        rfl
      · rw [if_neg notDir, if_neg (fun both => by cases both.1)]
        cases state.childOf inodeNum name with
        | none => rfl
        | some child => exact inductionHypothesis

theorem fold_last (elements : List CString) (last : CString) :
    (elements ++ [last]).foldlM state.childOf inodeNum =
      (elements.foldlM state.childOf inodeNum).bind fun dir =>
        state.childOf dir last := by
  rw [List.foldlM_append]
  refine congrArg (Option.bind _) (funext fun dir => ?_)
  rw [List.foldlM_cons]
  exact Option.bind_fun_some _

/-- A lookup of a parent folds over all components but the last. -/
theorem target_parent (elements : List CString) (last : CString) :
    state.target true inodeNum (elements ++ [last]) =
      (elements.foldlM state.childOf inodeNum).bind fun dir =>
        if (state.dinodeOf dir).type = ftDir then some (dir, last)
        else none := by
  induction elements generalizing inodeNum with
  | nil =>
      rw [List.nil_append, State.target, List.foldlM_nil, Option.pure_def,
        Option.bind_some]
      by_cases isDir : (state.dinodeOf inodeNum).type = ftDir
      · rw [if_neg (not_not.mpr isDir), if_pos ⟨rfl, rfl⟩, if_pos isDir]
      · rw [if_pos isDir, if_neg isDir]
  | cons name rest inductionHypothesis =>
      rw [List.cons_append, State.target, List.foldlM_cons]
      by_cases notDir : (state.dinodeOf inodeNum).type ≠ ftDir
      · rw [if_pos notDir, childOf_of_notDir notDir]
        rfl
      · rw [if_neg notDir, if_neg (fun both => by simp at both)]
        cases state.childOf inodeNum name with
        | none => rfl
        | some child => exact inductionHypothesis

/-! ## Lookups -/

theorem refOf_of_unique
    {ip : Slot} (unique : UniqueSlots state)
    (used : (state.icache ip).inodeNum ≠ inodeNumUnused) :
    refOf state (state.icache ip).inodeNum =
      (state.icache ip).ref.toNat := by
  unfold refOf
  rw [slotOf_of_unique unique used]
  rfl

theorem refOf_eq_zero
    (free : ∀ ip, (state.icache ip).inodeNum = inodeNum →
      (state.icache ip).ref = 0) :
    refOf state inodeNum = 0 := by
  unfold refOf
  cases found : slotOf state inodeNum with
  | none => rfl
  | some ip => exact congrArg UInt32.toNat (free ip (slotOf_eq_some found))

/-- A lookup takes a reference to the slot that it returns, and no other, and
leaves no slot locked. -/
structure TakesOnly (state final : State) (taken : Option Slot) : Prop where
  refs : ∀ inodeNum, inodeNum ≠ inodeNumUnused → refOf final inodeNum =
    refOf state inodeNum + if taken.any fun ip =>
      (final.icache ip).inodeNum = inodeNum then 1 else 0
  unlocked : ∀ ip, (final.icache ip).slk = false

/-- What the lookups of a path do, given its components. -/
structure LooksUp (state : State) (path : CString)
    (elements : List CString) : Prop where
  spelled : elements.map CString.bytes = components path.bytes
  inode : ∃ result final, (pathToInode path).Runs state result final ∧
    TakesOnly state final result ∧
    result.map (fun ip => (final.icache ip).inodeNum) =
      elements.foldlM state.childOf inodeRoot
  noParent : elements = [] → ∃ final,
    (pathToPinode path).Runs state none final ∧ TakesOnly state final none
  parent : ∀ before last, elements = before ++ [last] →
    ∃ result final, (pathToPinode path).Runs state result final ∧
      TakesOnly state final (result.map Prod.fst) ∧
      result.map (fun found => ((final.icache found.1).inodeNum, found.2)) =
        (before.foldlM state.childOf inodeRoot).bind fun dir =>
          if (state.dinodeOf dir).type = ftDir then some (dir, last) else none
  agree : elements ≠ [] → ∀ number,
    (∃ ip final, (pathToInode path).Runs state (some ip) final ∧
      (final.icache ip).inodeNum = number) ↔
    ∃ dirIp name found locked after,
      (pathToPinode path).Runs state (some (dirIp, name)) found ∧
      (inodeLock dirIp).Runs found () locked ∧
      (dirSearchEntry dirIp name).Runs locked number after ∧
      number ≠ inodeNumUnused

/-- A state between calls in which the root is in use, every name leads to a
linked inode and a slot is free. -/
structure LookupReady (state : State) : Prop where
  idle : state.held = []
  cacheIdle : state.lkIcache = false
  unique : UniqueSlots state
  unlocked : ∀ ip, (state.icache ip).slk = false
  countable : ∀ ip, (state.icache ip).ref + 1 ≠ 0
  backed : ∀ ip, (state.icache ip).inodeNum ≠ inodeNumUnused →
    (state.icache ip).ref = 0 → (state.icache ip).valid = true →
    SameUse (state.icache ip).inodeNum
      (state.dinodeAt (state.icache ip).inodeNum) (state.icache ip).data
  inside : ∀ dir, state.Named dir → (state.dinodeOf dir).type = ftDir →
    diskIndex ((state.dinodeOf dir).addrs 0) < totalBlocks
  root : ∃ ip, (state.icache ip).inodeNum = inodeRoot ∧
    (state.icache ip).valid = true ∧ (state.icache ip).ref ≠ 0
  linked : ∀ dir entry name child, state.Named dir →
    (state.dinodeOf dir).type = ftDir →
    entryOf (state.disk (diskIndex ((state.dinodeOf dir).addrs 0))) entry =
      some (name, child) →
    child ≠ inodeNumUnused → state.Linked child
  spare : ∃ ip, (state.icache ip).ref = 0

namespace LookupReady

variable (ready : LookupReady state)

include ready

theorem rootReferenced : state.Referenced inodeRoot := by
  obtain ⟨ip, number, _, referenced⟩ := ready.root
  exact ⟨ip, number, referenced⟩

theorem settled : Settled state where
  idle := ready.idle
  cacheIdle := ready.cacheIdle
  unique := ready.unique
  locked ip locked := by
    rw [ready.unlocked ip] at locked
    cases locked
  countable := ready.countable
  backed := ready.backed
  inside := ready.inside
  linked dir name child named found := by
    obtain ⟨isDir, used, entry, listed, isListed⟩ := childOf_listed found
    exact ready.linked dir entry listed child named isDir isListed used
  root := Or.inl ready.rootReferenced

theorem available (inodeNum : UInt16) : state.Available inodeNum :=
  Or.inr ready.spare

/-- Where a path leads is linked. -/
theorem fold_named
    {dir : UInt16} {elements : List CString} (named : state.Named inodeNum)
    (used : inodeNum ≠ inodeNumUnused)
    (leads : elements.foldlM state.childOf inodeNum = some dir) :
    state.Named dir ∧ dir ≠ inodeNumUnused := by
  induction elements generalizing inodeNum with
  | nil =>
      rw [List.foldlM_nil] at leads
      cases leads
      exact ⟨named, used⟩
  | cons name rest inductionHypothesis =>
      rw [List.foldlM_cons] at leads
      obtain ⟨child, found, leads⟩ := Option.bind_eq_some_iff.mp leads
      exact inductionHypothesis
        (Or.inr (ready.settled.linked inodeNum name child named found))
        (childOf_ne_unused found) leads

/-- A lookup ends where its path leads. -/
theorem search (path : CString) (findParent : Bool) :
    ∃ result final, (searchInode path findParent).Runs state result final ∧
      During state final (result.map Prod.fst) ∧
      result.map (fun found => ((final.icache found.1).inodeNum, found.2)) =
        state.target findParent inodeRoot
          (pathElements path path.bytes.length) := by
  obtain ⟨ip, taken, alloc, during, number⟩ := ready.settled.during.alloc
    (by decide) (Or.inl ready.rootReferenced)
  have ways : ∀ visited ∈ state.visits findParent (taken.icache ip).inodeNum
      (pathElements path path.bytes.length),
      state.Available visited ∧ state.InodeUnlocked visited :=
    fun visited _ => ⟨ready.available visited, fun ip _ => ready.unlocked ip⟩
  obtain ⟨result, final, walk, arrives⟩ := searchLoop_returns ready.settled
    during ((Trail.fresh state).alloc ready.settled.during alloc)
    (by rw [number]; decide) (Or.inl number) ways
    fun _ _ free => by
      obtain ⟨slot, rooted, _, referenced⟩ := ready.root
      have same := during.unique slot ip
        (by rw [during.numbers slot referenced, rooted]; decide)
        ((during.numbers slot referenced).trans (rooted.trans number.symm))
      exact absurd (same ▸ free) referenced
  refine ⟨result, final, Program.runs_bind.mpr ⟨ip, taken, alloc, walk⟩,
    arrives.during, ?_⟩
  rw [arrives.target, number]

omit ready in
/-- A slot with references has its inode throughout, so a slot that stands for
an inode now counts the references there were. -/
theorem refOf_before
    {taken : Option Slot} {ip : Slot} (during : During state final taken)
    (unique : UniqueSlots state) (used : inodeNum ≠ inodeNumUnused)
    (number : (final.icache ip).inodeNum = inodeNum) :
    refOf state inodeNum = (state.icache ip).ref.toNat := by
  by_cases free : (state.icache ip).ref = 0
  · rw [free]
    refine refOf_eq_zero fun slot was => ?_
    by_contra referenced
    have same := during.unique slot ip
      (by rw [during.numbers slot referenced, was]; exact used)
      ((during.numbers slot referenced).trans (was.trans number.symm))
    exact referenced (same ▸ free)
  · have was := (during.numbers ip free).symm.trans number
    rw [← was, refOf_of_unique unique (by rw [was]; exact used)]

/-- A lookup holds what it returns and nothing else. -/
theorem takesOnly
    {taken : Option Slot} (during : During state final taken) :
    TakesOnly state final taken := by
  refine ⟨fun inodeNum used => ?_, fun ip => ?_⟩
  · cases found : slotOf final inodeNum with
    | none =>
        have absent := slotOf_eq_none found
        have none : refOf state inodeNum = 0 := refOf_eq_zero fun ip was => by
          by_contra referenced
          exact absent ip ((during.numbers ip referenced).trans was)
        have other : taken.any (fun ip =>
            (final.icache ip).inodeNum = inodeNum) = false := by
          cases taken with
          | none => rfl
          | some ip => exact decide_eq_false (absent ip)
        rw [none, other, refOf_eq_zero fun ip is => absurd is (absent ip)]
        rfl
    | some ip =>
        have number := slotOf_eq_some found
        have holds : taken.any (fun ip =>
            (final.icache ip).inodeNum = inodeNum) = true ↔
              taken = some ip := by
          cases taken with
          | none => exact ⟨nofun, nofun⟩
          | some slot =>
              rw [Option.any_some, decide_eq_true_eq, Option.some.injEq]
              refine ⟨fun is => ?_, fun same => same ▸ number⟩
              exact during.unique slot ip (by rw [is]; exact used)
                (is.trans number.symm)
        rw [refOf_before during ready.unique used number, ← number,
          refOf_of_unique during.unique (by rw [number]; exact used),
          during.refs ip, number]
        simp only [holds]
        split
        · have countable := UInt32.toNat_inj.not.mpr (ready.countable ip)
          rw [UInt32.toNat_add] at countable ⊢
          have bound := (state.icache ip).ref.toNat_lt
          have one : (1 : UInt32).toNat = 1 := rfl
          have zero : (0 : UInt32).toNat = 0 := rfl
          omega
        · rw [UInt32.add_zero, Nat.add_zero]
  · rw [during.locks ip, ready.unlocked ip]

/-- A lookup of an inode ends at the fold over its components. -/
theorem inodeLookup (path : CString) :
    ∃ result final, (pathToInode path).Runs state result final ∧
      During state final result ∧
      result.map (fun ip => (final.icache ip).inodeNum) =
        (pathElements path path.bytes.length).foldlM state.childOf
          inodeRoot := by
  obtain ⟨result, final, run, during, target⟩ := ready.search path false
  refine ⟨result.map Prod.fst, final, Program.runs_bind.mpr ⟨result, final,
    run, Program.runs_pure.mpr ⟨rfl, rfl⟩⟩, during, ?_⟩
  rw [← target_inode, ← target, Option.map_map, Option.map_map]
  rfl

/-- Searching the directory that a lookup of a parent returned. -/
theorem searchParent
    {dirIp : Slot} (during : During state final (some dirIp))
    (named : state.Named (final.icache dirIp).inodeNum)
    (used : (final.icache dirIp).inodeNum ≠ inodeNumUnused)
    (isDir : (state.dinodeOf (final.icache dirIp).inodeNum).type = ftDir)
    (name : CString) :
    ∃ locked child, (inodeLock dirIp).Runs final () locked ∧
      (dirSearchEntry dirIp name).Runs locked child locked ∧
      state.childOf (final.icache dirIp).inodeNum name =
        if child = inodeNumUnused then none else some child := by
  obtain ⟨child, search, leads⟩ := during.search used ready.settled named
    ((during.locked_uses used).type.trans isDir) name
  exact ⟨_, child, during.lock (ready.unlocked dirIp) (ready.countable dirIp),
    search, leads⟩

end LookupReady

/-- Between careful calls lookups need the root in use and a free slot. -/
theorem Session.lookupReady
    {session : Session}
    (reachable : sessionSystem.ReachableBy Careful session)
    (root : ∃ ip, (session.kernel.fs.icache ip).inodeNum = inodeRoot ∧
      (session.kernel.fs.icache ip).valid = true ∧
      (session.kernel.fs.icache ip).ref ≠ 0)
    (spare : ∃ ip, (session.kernel.fs.icache ip).ref = 0) :
    LookupReady session.kernel.fs := by
  have orderly := Session.Orderly.of_reachable reachable
  have locks := Session.Unlocked.of_reachable reachable
  have unlocked : ∀ ip, (session.kernel.fs.icache ip).slk = false :=
    fun ip => Bool.eq_false_iff.mpr fun locked => by
      cases (locks.locked ip).mp locked
  have settled := orderly.tree.settled orderly.live (Nat.zero_le _)
    locks.cacheIdle fun ip locked => by
      rw [unlocked ip] at locked
      cases locked
  exact ⟨settled.idle, settled.cacheIdle, settled.unique, unlocked,
    settled.countable, settled.backed, settled.inside, root,
    fun _ _ _ _ named isDir listed _ =>
      orderly.tree.listed_linked orderly.live.sound named isDir listed, spare⟩

/-- Both lookups of a path follow its components from the root, and agree. -/
theorem pathLookup_agrees (ready : LookupReady state) (path : CString) :
    LooksUp state path (pathElements path path.bytes.length) := by
  obtain ⟨inode, found, inodeRun, inodeDuring, inodeNum⟩ :=
    ready.inodeLookup path
  obtain ⟨parent, held, parentRun, parentDuring, target⟩ :=
    ready.search path true
  refine ⟨pathElements_bytes (Nat.le_refl _), ⟨inode, found, inodeRun,
    ready.takesOnly inodeDuring, inodeNum⟩, fun empty => ?_,
    fun before last split => ⟨parent, held, parentRun,
      ready.takesOnly parentDuring, ?_⟩, fun nonempty number => ?_⟩
  · rw [empty] at target
    obtain rfl := Option.map_eq_none_iff.mp target
    exact ⟨held, parentRun, ready.takesOnly parentDuring⟩
  · rw [target, split, target_parent]
  · obtain ⟨before, last, split⟩ :=
      (List.eq_nil_or_concat _).resolve_left nonempty
    rw [List.concat_eq_append] at split
    rw [split, target_parent] at target
    rw [split, fold_last] at inodeNum
    constructor
    · rintro ⟨ip, final, run, number⟩
      obtain ⟨rfl, rfl⟩ := run.deterministic inodeRun
      rw [Option.map_some, number] at inodeNum
      obtain ⟨dir, leads, child⟩ := Option.bind_eq_some_iff.mp inodeNum.symm
      have isDir := (childOf_listed child).1
      rw [leads, Option.bind_some, if_pos isDir] at target
      obtain ⟨⟨dirIp, name⟩, rfl, ends⟩ := Option.map_eq_some_iff.mp target
      obtain ⟨rfl, rfl⟩ := Prod.mk.inj ends
      obtain ⟨named, used⟩ := ready.fold_named (Or.inl rfl) (by decide) leads
      obtain ⟨locked, listed, lock, search, finds⟩ := ready.searchParent
        parentDuring named used isDir name
      rw [child] at finds
      split_ifs at finds with missing
      obtain rfl := Option.some.inj finds
      exact ⟨dirIp, name, held, locked, locked, parentRun, lock, search,
        missing⟩
    · rintro ⟨dirIp, name, found', locked, after, run, lock, search, listed⟩
      obtain ⟨rfl, rfl⟩ := run.deterministic parentRun
      obtain ⟨dir, leads, isDir⟩ := Option.bind_eq_some_iff.mp target.symm
      split_ifs at isDir with type
      obtain ⟨rfl, rfl⟩ := Prod.mk.inj (Option.some.inj isDir)
      obtain ⟨named, used⟩ := ready.fold_named (Or.inl rfl) (by decide) leads
      obtain ⟨locked', child, lock', search', finds⟩ := ready.searchParent
        parentDuring named used type last
      obtain ⟨_, rfl⟩ := lock.deterministic lock'
      obtain ⟨rfl, _⟩ := search.deterministic search'
      rw [if_neg listed] at finds
      rw [leads, Option.bind_some, finds] at inodeNum
      obtain ⟨ip, rfl, number⟩ := Option.map_eq_some_iff.mp inodeNum
      exact ⟨ip, found, inodeRun, number⟩

/-- With the root open on a fresh image, the path `//a/` is looked up. -/
theorem pathLookup_agrees_rootOpen :
    ∃ state, LooksUp state ⟨[47, 47, 97, 47], by decide⟩
      (pathElements ⟨[47, 47, 97, 47], by decide⟩ 4) := by
  obtain ⟨result, after, run, holds⟩ := Program.exists_runs_of_any
    (show ((fileOpen ⟨[47], by decide⟩ modeRead).exec
      (bootKernel zeroBlock)).toOption.any (fun outcome =>
        decide ((outcome.2.fs.icache 0).inodeNum = inodeRoot ∧
          (outcome.2.fs.icache 0).valid = true ∧
          (outcome.2.fs.icache 0).ref ≠ 0 ∧
          (outcome.2.fs.icache 1).ref = 0)) = true by decide +kernel)
  obtain ⟨number, valid, referenced, free⟩ := of_decide_eq_true holds
  have start : sessionSystem.ReachableBy Careful
      ⟨bootKernel zeroBlock, fun _ => 0⟩ := .init ⟨rfl, zeroBlock, rfl⟩
  have step : FileStep ⟨bootKernel zeroBlock, fun _ => 0⟩
      (.open ⟨[47], by decide⟩ modeRead) ⟨after, fun _ => 0⟩ := .open run
  have careful : Careful ⟨bootKernel zeroBlock, fun _ => 0⟩
      (.open ⟨[47], by decide⟩ modeRead) :=
    fun create => absurd (show modeRead &&& modeCreate = 0 by decide) create
  have opened := start.step careful step
  exact ⟨after.fs, pathLookup_agrees (Session.lookupReady opened
    ⟨0, number, valid, referenced⟩ ⟨1, free⟩) _⟩

end Fs
end WhuOs
