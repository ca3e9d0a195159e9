import WhuOs.Fs.DirSize

/-!
# Link counts

In sequences of creations, links and unlinks, the number of links of a file is
that of the entries for it, and the number of links of a directory is one more
than that of the directories it lists.
-/

namespace WhuOs
namespace Fs

open Library

variable {state : State} {session : Session}

/-! ## Blocks without entries -/

/-- All bytes of a block are zero. -/
def ReadsZero (data : Block) : Prop :=
  ∀ offset < blockSize, data offset = 0

theorem ReadsZero.entryOf
    {data : Block} (zero : ReadsZero data) (entry : EntryIndex) :
    entryOf data entry = none := by
  have size : blockSize = 1024 := rfl
  have slots : direntPerBlock = 32 := rfl
  refine (entryOf_congr fun index small => ?_).trans (entryOf_blank entry)
  exact zero _ (by omega)

theorem ReadsZero.ownEntries
    {data : Block} (zero : ReadsZero data) (node above : UInt16) :
    OwnEntries data node above := by
  constructor
  · intro entry used listed
    rw [zero.entryOf] at listed
    cases listed
  · intro entry entry' used listed
    rw [zero.entryOf] at listed
    cases listed

/-! ## Calls -/

/-- A call of `path_create_inode`, `path_link` or `path_unlink`, or of
`inode_free` on what the first returned.  When it creates an inode, fewer
inodes than the table has are allocated, and the block that a directory is
handed out reads as zero. -/
def LinkCall (before : Session) : FileCall → Prop
  | .create _ type _ _ =>
      (∃ number < maxInodes,
        bitAt before.kernel.fs.inodeBitmap number = false) ∧
      (type = ftDir → ∀ block,
        before.kernel.fs.freeBlocks.head? = some block →
        ReadsZero (before.kernel.fs.disk block))
  | .giveBack _ => True
  | .link _ _ => True
  | .unlink _ => True
  | _ => False

theorem inodeFits_of_clear
    {number : Nat} (small : number < maxInodes)
    (clear : bitAt state.inodeBitmap number = false) : InodeFits state := by
  intro first isFirst
  by_contra large
  have set := (firstClear_eq_some isFirst).2.2 number (by omega)
  rw [clear] at set
  cases set

theorem LinkCall.careful
    {before : Session} {call : FileCall} (isLinkCall : LinkCall before call) :
    Careful before call := by
  cases call with
  | create path type major minor =>
      obtain ⟨⟨number, small, clear⟩, zero⟩ := isLinkCall
      exact Or.inr ⟨inodeFits_of_clear small clear,
        fun isDir dir name block node _ next _ =>
          (zero isDir block next).ownEntries node dir⟩
  | giveBack ip => trivial
  | link oldPath newPath => trivial
  | unlink path => trivial
  | _ => exact isLinkCall.elim

/-! ## Counts -/

/-- The places of the entries that name an inode, over all directories with
links. -/
def State.linksTo (state : State) (node : UInt16) : Set (UInt16 × EntryIndex) :=
  {place | state.IsDir place.1 ∧ ∃ name,
    entryOf (state.dirBlock place.1) place.2 = some (name, node)}

/-- The directories with links that a directory lists, other than itself and
its parent. -/
def State.childDirs (state : State) (dir : UInt16) : Set UInt16 :=
  {child | state.IsDir child ∧ ∃ entry name,
    entryOf (state.dirBlock dir) entry = some (name, child) ∧
      name ≠ dot.bytes ∧ name ≠ dotDot.bytes}

/-- The numbers of links on disk are right. -/
structure LinksCounted (state : State) : Prop where
  files : ∀ node : UInt16, node.toNat < maxInodes →
    (state.dinodeAt node).type ≠ ftDir →
    (state.dinodeAt node).nlink.toNat = (state.linksTo node).ncard
  dirs : ∀ dir, state.IsDir dir →
    (state.dinodeAt dir).nlink.toNat = 1 + (state.childDirs dir).ncard

theorem places_eq_linksTo (node : UInt16) :
    state.directories.places node = state.linksTo node := by
  ext ⟨dir, entry⟩
  constructor
  · rintro ⟨name, listed⟩
    have isDir : state.IsDir dir := by
      by_contra notDir
      exact absurd ((if_neg notDir).symm.trans listed) nofun
    rw [entries_of_isDir isDir] at listed
    exact ⟨isDir, name, listed⟩
  · rintro ⟨isDir, name, listed⟩
    exact ⟨name, (entries_of_isDir isDir entry).trans listed⟩

theorem DirTree.children_eq
    {dir : UInt16} (tree : DirTree state) (isDir : state.IsDir dir) :
    state.directories.children dotDot.bytes inodeRoot dir =
      state.childDirs dir := by
  ext child
  rw [tree.consistent.mem_children]
  simp only [entries_of_isDir isDir]
  rfl

/-- A tree of directories has the right numbers of links. -/
theorem DirTree.linksCounted (tree : DirTree state) : LinksCounted state := by
  constructor
  · intro node small notDir
    rw [← links_of_small small, ← places_eq_linksTo]
    exact tree.consistent.fileLinks fun isDir => notDir isDir.2.1
  · intro dir isDir
    rw [← links_of_small isDir.1, ← tree.children_eq isDir]
    exact tree.consistent.dirLinks isDir

/-- Creations, links and unlinks keep the numbers of links right, whether they
succeed or not. -/
theorem linkCounts
    (reachable : sessionSystem.ReachableBy LinkCall session) :
    LinksCounted session.kernel.fs := by
  have orderly : session.Orderly := by
    refine reachable.invariant ?_ fun _ _ _ orderly isLinkCall taken =>
      orderly.step isLinkCall.careful taken
    rintro ⟨kernel, returned⟩ ⟨rfl, junk, rfl⟩
    exact .start junk
  exact orderly.tree.linksCounted

/-! ## On a fresh image -/

theorem readsZero_mkfsState
    {junk : Block} {block : Nat}
    (next : (mkfsState junk).freeBlocks.head? = some block) :
    ReadsZero ((mkfsState junk).disk block) := by
  obtain ⟨low, _, clear⟩ :=
    State.mem_freeBlocks.mp (List.mem_of_head? next)
  have notRoot : block ≠ 131 := by
    rintro rfl
    have set : bitAt firstBitmap 0 = true := by decide +kernel
    exact absurd (set.symm.trans clear) (by decide)
  intro offset _
  change mkfsDisk junk block offset = 0
  unfold mkfsDisk
  rw [if_neg (by omega), if_neg (by omega), if_neg (by omega), if_neg notRoot]
  rfl

/-- After a directory was created in the root, the root has two links. -/
theorem linkCounts_mkdir :
    ∃ state, LinksCounted state ∧ (state.dinodeAt inodeRoot).nlink = 2 := by
  obtain ⟨result, final, run, linked⟩ := Program.exists_runs_of_any
    (show ((pathCreateInode ⟨[47, 100], by decide⟩ ftDir 0 0).exec
      (mkfsState zeroBlock)).toOption.any (fun outcome =>
        decide ((outcome.2.dinodeAt inodeRoot).nlink = 2)) = true
      by decide +kernel)
  have start : sessionSystem.ReachableBy LinkCall
      ⟨bootKernel zeroBlock, fun _ => 0⟩ := .init ⟨rfl, zeroBlock, rfl⟩
  have clear : bitAt (mkfsState zeroBlock).inodeBitmap 1 = false := by
    decide +kernel
  have isLinkCall : LinkCall ⟨bootKernel zeroBlock, fun _ => 0⟩
      (.create ⟨[47, 100], by decide⟩ ftDir 0 0) :=
    ⟨⟨1, by decide, clear⟩, fun _ block next => readsZero_mkfsState next⟩
  exact ⟨final, linkCounts (.step start isLinkCall (.create run)),
    of_decide_eq_true linked⟩

end Fs
end WhuOs
