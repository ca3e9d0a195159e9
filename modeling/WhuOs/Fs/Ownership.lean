import WhuOs.Fs.Session

/-!
# Owners of blocks

In every state that careful calls reach, a block number of an inode or of an
index block is that of a data block whose bit is set, and it occurs at one place.
A block that is free belongs to nobody, and the blocks of an inode on disk are
among its current ones.
-/

namespace WhuOs
namespace Fs

open Library

variable {state : State} {session : Session}

/-- A block that is the data block or an index block of an inode. -/
def State.Uses (state : State) (inodeNum : UInt16) (block : UInt32) : Prop :=
  block ≠ 0 ∧ ∃ k path, path.length ≤ addrLevel k ∧
    state.place (inodeNum, k) path = block

/-- Blocks in use have one place each, and none of them is free. -/
structure BlocksOwned (state : State) : Prop where
  inArea : ∀ inodeNum block, state.Uses inodeNum block →
    131 ≤ block.toNat ∧ block.toNat < 131 + dataBlocks
  marked : ∀ inodeNum block, state.Uses inodeNum block →
    bitAt state.dataBitmap (block.toNat - 131) = true
  notFree : ∀ inodeNum block, state.Uses inodeNum block →
    block.toNat ∉ state.freeBlocks
  onePlace : ∀ (root root' : Root) (path path' : List ChildIndex),
    path.length ≤ addrLevel root.2 → path'.length ≤ addrLevel root'.2 →
    state.place root path ≠ 0 →
    state.place root path = state.place root' path' →
    root = root' ∧ path = path'
  stored : ∀ inodeNum : UInt16, inodeNum.toNat < maxInodes → ∀ k,
    (state.dinodeAt inodeNum).addrs k ≠ 0 →
    state.Uses inodeNum ((state.dinodeAt inodeNum).addrs k)

/-- A block in use is marked. -/
theorem Sound.marked_of_uses
    {inodeNum : UInt16} {block : UInt32} (sound : Sound state)
    (uses : state.Uses inodeNum block) : state.Marked block := by
  rcases uses with ⟨present, k, path, bound, rfl⟩
  exact sound.marked_place bound present

theorem Sound.blocksOwned (sound : Sound state) : BlocksOwned state where
  inArea := fun inodeNum block uses => by
    have marked := sound.marked_of_uses uses
    exact ⟨marked.1, marked.2.1⟩
  marked := fun inodeNum block uses => (sound.marked_of_uses uses).2.2
  notFree := fun inodeNum block uses free => by
    have clear := (State.mem_freeBlocks.mp free).2.2
    rw [(sound.marked_of_uses uses).2.2] at clear
    cases clear
  onePlace := fun root root' path path' bound bound' present same =>
    sound.forest.unique root root' path path' bound bound' present same
  stored := fun inodeNum small k present =>
    ⟨present, k, [], Nat.zero_le _, sound.root_of_stored small present⟩

/-- Two inodes never share a block. -/
theorem BlocksOwned.apart
    {inodeNum inodeNum' : UInt16} {block : UInt32} (owned : BlocksOwned state)
    (uses : state.Uses inodeNum block) (uses' : state.Uses inodeNum' block) :
    inodeNum = inodeNum' := by
  rcases uses with ⟨present, k, path, bound, rfl⟩
  rcases uses' with ⟨_, k', path', bound', same⟩
  have places := owned.onePlace (inodeNum, k) (inodeNum', k') path path' bound
    bound' present same.symm
  exact congrArg Prod.fst places.1

/-- The next block that is handed out belongs to nobody. -/
theorem BlocksOwned.next_unused
    {block : Nat} (owned : BlocksOwned state)
    (next : state.freeBlocks.head? = some block) (inodeNum : UInt16) :
    ¬state.Uses inodeNum (UInt32.ofNat block) := by
  intro uses
  have free := List.mem_of_head? next
  have bound := (State.mem_freeBlocks.mp free).2.1
  have number : (UInt32.ofNat block).toNat = block := by
    apply UInt32.toNat_ofNat_of_lt'
    exact lt_trans bound (by decide)
  apply owned.notFree inodeNum _ uses
  rw [number]
  exact free

end Fs
end WhuOs
