import WhuOs.Fs.Session

/-!
# Creating what exists

`path_create_inode` is documented to return the inode of a path that exists.
The lookup of the last name is done again under the lock of its directory, and a
name that is found ends the call without an inode.  So no call returns the inode
that an earlier call made, and `file_open` cannot open an existing file with
`MODE_CREATE`.
-/

namespace WhuOs
namespace Fs

open Library
open Program (Runs)

variable {state final : State} {ip target : Slot} {path name : CString}

/-! ## The walk to the parent -/

/-- A walk that reaches an inode passes through its parent, where the last name
is found. -/
theorem searchLoop_parent
    {elements : List CString} (nonempty : elements ≠ [])
    (run : (searchLoop false ip elements).Runs state (some (target, name))
      final) :
    ∃ dirIp last found,
      (searchLoop true ip elements).Runs state (some (dirIp, last)) found ∧
      found.lookup dirIp last ≠ inodeNumUnused := by
  induction elements generalizing ip state with
  | nil => exact absurd rfl nonempty
  | cons element rest inductionHypothesis =>
      simp only [searchLoop, Program.runs_bind, runs_getInode] at run
      obtain ⟨_, locked, lock, _, _, ⟨rfl, rfl⟩, run⟩ := run
      split at run
      · simp only [Program.runs_bind, Program.runs_pure] at run
        obtain ⟨_, _, _, absurd, _⟩ := run
        cases absurd
      · next isDir =>
        simp only [Bool.false_eq_true, false_and, if_false, Program.runs_bind]
          at run
        obtain ⟨_, _, search, run⟩ := run
        obtain ⟨_, _, _, rfl, rfl⟩ := dirSearchEntry_runs search
        split at run
        · simp only [Program.runs_bind, Program.runs_pure] at run
          obtain ⟨_, _, _, absurd, _⟩ := run
          cases absurd
        · next named =>
          simp only [Program.runs_bind] at run
          obtain ⟨_, unlocked, unlock, _, freed, free, next, taken, alloc,
            run⟩ := run
          by_cases last : rest = []
          · subst last
            refine ⟨ip, element, unlocked, ?_, ?_⟩
            · rw [searchLoop, lock.bind_iff,
                (runs_getInode.mpr ⟨rfl, rfl⟩).bind_iff, if_neg isDir,
                if_pos ⟨rfl, rfl⟩, unlock.bind_iff]
              exact Program.runs_pure.mpr ⟨rfl, rfl⟩
            · obtain ⟨_, _, rfl⟩ := inodeLock_runs lock
              obtain ⟨_, rfl⟩ := inodeUnlock_runs unlock
              unfold State.lookup
              rw [locked_data_of_valid (by simp [State.locked])]
              simpa [State.dirData, lookupName] using named
          · obtain ⟨dirIp, lastName, parent, walk, listed⟩ :=
              inductionHypothesis last run
            refine ⟨dirIp, lastName, parent, ?_, listed⟩
            rw [searchLoop, lock.bind_iff,
              (runs_getInode.mpr ⟨rfl, rfl⟩).bind_iff, if_neg isDir,
              if_neg (fun both => last both.2), search.bind_iff,
              if_neg named, unlock.bind_iff, free.bind_iff, alloc.bind_iff]
            exact walk

/-- Nothing can be created at a path that leads to an inode. -/
theorem cannotCreate_of_pathToInode
    (run : (pathToInode path).Runs state (some ip) final) :
    CannotCreate state path := by
  intro dirIp name found parent
  left
  simp only [pathToInode, searchInode, Program.runs_bind,
    Program.runs_pure] at run
  obtain ⟨result, _, ⟨root, taken, alloc, walk⟩, isSome, _⟩ := run
  obtain ⟨⟨target, last⟩, rfl, _⟩ := Option.map_eq_some_iff.mp isSome
  have walk' : (searchLoop true root
      (pathElements path path.bytes.length)).Runs taken (some (dirIp, name))
        found := by
    rw [pathToPinode, searchInode, alloc.bind_iff] at parent
    exact parent
  have nonempty : pathElements path path.bytes.length ≠ [] := by
    intro empty
    simp only [empty, searchLoop, if_true, Program.runs_bind,
      Program.runs_pure] at walk'
    obtain ⟨_, _, _, absurd, _⟩ := walk'
    cases absurd
  obtain ⟨dirIp', last', found', parent', listed⟩ :=
    searchLoop_parent nonempty walk
  obtain ⟨same, rfl⟩ := parent'.deterministic walk'
  obtain ⟨rfl, rfl⟩ := Prod.mk.inj (Option.some.inj same)
  exact listed

/-! ## Opening and creating -/

/-- What `path_create_inode` promises for a file: an inode that the path leads
to afterwards, paths that lead where they led before, and a second call that
returns the inode again and leaves the disk alone. -/
structure CreatesOrReturns (state : State) (path : CString) (ip : Slot)
    (created : State) : Prop where
  creates : (pathCreateInode path ftFile 0 0).Runs state (some ip) created
  resolves : ∃ found, (pathToInode path).Runs created (some ip) found
  others : ∀ other slot before,
    (pathToInode other).Runs state (some slot) before →
    ∃ slot' after, (pathToInode other).Runs created (some slot') after ∧
      (after.icache slot').inodeNum = (before.icache slot).inodeNum
  again : ∃ repeated,
    (pathCreateInode path ftFile 0 0).Runs created (some ip) repeated ∧
      repeated.disk = created.disk

theorem not_createsOrReturns {created : State} :
    ¬CreatesOrReturns state path ip created := by
  intro promise
  obtain ⟨found, resolves⟩ := promise.resolves
  obtain ⟨repeated, again, _⟩ := promise.again
  cases pathCreateInode_none (cannotCreate_of_pathToInode resolves) again

/-- The promise with that of `file_open`, which creates files with
`MODE_CREATE` unless they exist. -/
def CreateOrOpen (kernel : Kernel) (path : CString) : Prop :=
  (∃ ip created, CreatesOrReturns kernel.fs path ip created) ∧
    ((∃ ip found, (pathToInode path).Runs kernel.fs (some ip) found) →
      ∃ index after, (fileOpen path modeCreate).Runs kernel (some index) after)

/-- No call keeps the promise: where the path leads to an inode, creating and
opening it fail, and where it does not, creating it a second time fails. -/
theorem createOrOpen_never (kernel : Kernel) (path : CString) :
    ¬CreateOrOpen kernel path ∧
      (∀ ip created, ¬CreatesOrReturns kernel.fs path ip created) ∧
      ∀ ip found, (pathToInode path).Runs kernel.fs (some ip) found →
        ∀ index after,
          ¬(fileOpen path modeCreate).Runs kernel (some index) after := by
  refine ⟨?_, fun ip created => not_createsOrReturns, ?_⟩
  · rintro ⟨⟨ip, created, promise⟩, _⟩
    exact not_createsOrReturns promise
  · intro ip found resolves index after opens
    have fails := cannotCreate_of_pathToInode resolves
    rcases fileOpen_runs opens with ⟨_, _, absurd, _⟩ |
      ⟨_, _, _, creates, _⟩
    · cases absurd
    · rw [openInode, if_pos (by decide)] at creates
      cases pathCreateInode_none fails creates

/-- The file `/a` is created on a fresh image, and creating it again fails. -/
theorem createOrOpen_newFile :
    ¬∀ session path, sessionSystem.Reachable session →
      (∃ dirIp name found,
        (pathToPinode path).Runs session.kernel.fs (some (dirIp, name))
          found) →
      ((∃ ip found, (pathToInode path).Runs session.kernel.fs (some ip)
          found) ∨
        ∃ ip created, (pathCreateInode path ftFile 0 0).Runs
          session.kernel.fs (some ip) created) →
      CreateOrOpen session.kernel path := by
  intro claim
  have parent : ∃ dirIp name found, (pathToPinode ⟨[47, 97], by decide⟩).Runs
      (mkfsState zeroBlock) (some (dirIp, name)) found := by
    obtain ⟨result, found, run, isSome⟩ := Program.exists_runs_of_any
      (show ((pathToPinode ⟨[47, 97], by decide⟩).exec
        (mkfsState zeroBlock)).toOption.any (fun outcome =>
          outcome.1.isSome) = true by decide +kernel)
    obtain ⟨⟨dirIp, name⟩, rfl⟩ := Option.isSome_iff_exists.mp isSome
    exact ⟨dirIp, name, found, run⟩
  have room : ∃ ip created,
      (pathCreateInode ⟨[47, 97], by decide⟩ ftFile 0 0).Runs
        (mkfsState zeroBlock) (some ip) created := by
    obtain ⟨result, created, run, isSome⟩ := Program.exists_runs_of_any
      (show ((pathCreateInode ⟨[47, 97], by decide⟩ ftFile 0 0).exec
        (mkfsState zeroBlock)).toOption.any (fun outcome =>
          outcome.1.isSome) = true by decide +kernel)
    obtain ⟨ip, rfl⟩ := Option.isSome_iff_exists.mp isSome
    exact ⟨ip, created, run⟩
  obtain ⟨⟨ip, created, promise⟩, _⟩ :=
    claim ⟨bootKernel zeroBlock, fun _ => 0⟩ _
      (.init ⟨rfl, zeroBlock, rfl⟩) parent (Or.inr room)
  exact not_createsOrReturns promise

end Fs
end WhuOs
