import WhuOs.Buf.Calls

/-!
# Handles of buffers

`sys_read_block` gives a process a handle, which is the index of a buffer and
one.  A handle is live until it is released.  The other two system calls look
only at the index that is left of a handle in 32 bits.
-/

namespace WhuOs
namespace Buf

open Library
open Program (Runs)

/-- A system call of a process. -/
inductive HandleCall
  | readBlock (blockNum : UInt32)
  | writeBlock (bufHandle : UInt64) (data : Option Block)
  | releaseBlock (bufHandle : UInt64)

/-- The machine, and for each live handle the buffer and the block that it was
issued for. -/
structure Session where
  machine : Machine
  issued : UInt64 → Option (BufIndex × UInt32)

namespace Session

/-- A buffer of the machine. -/
def buf (session : Session) (index : BufIndex) : BufT :=
  session.machine.cache.bufs index

/-- Replace the machine. -/
@[simps -fullyApplied] def setMachine (session : Session) (machine : Machine) :
    Session :=
  { session with machine := machine }

/-- A handle is issued, or no longer live. -/
@[simps -fullyApplied] def setIssued (session : Session) (bufHandle : UInt64)
    (place : Option (BufIndex × UInt32)) : Session :=
  { session with issued := Function.update session.issued bufHandle place }

/-- No handle has been issued. -/
structure Initial (session : Session) : Prop where
  cache : bufInit bootCache = some session.machine.cache
  issued : ∀ bufHandle, session.issued bufHandle = none

/-- A handle is live, or it is not the handle of any buffer. -/
def Checked (session : Session) (bufHandle : UInt64) : Prop :=
  session.issued bufHandle ≠ none ∨ bufHandle = 0 ∨
    indexToBuf (toInt (bufHandle - 1)) = none

end Session

/-- The system calls of a process that never reads a block that it holds. -/
inductive Serve (pid : Pid) : Session → HandleCall → Session → Prop
  | readBlock {session : Session} {blockNum : UInt32} {index : BufIndex}
      {bufHandle : UInt64} {machine : Machine} :
      ¬Holds pid session.machine blockNum →
      (bufRead pid blockNum).Runs session.machine index machine →
      (sysReadBlock pid blockNum).Runs session.machine bufHandle machine →
      Serve pid session (.readBlock blockNum)
        ((session.setMachine machine).setIssued bufHandle
          (some (index, blockNum)))
  | writeBlock {session : Session} {bufHandle value : UInt64}
      {data : Option Block} {machine : Machine} :
      (sysWriteBlock pid bufHandle data).Runs session.machine value machine →
      Serve pid session (.writeBlock bufHandle data)
        (session.setMachine machine)
  | releaseBlock {session : Session} {bufHandle value : UInt64}
      {machine : Machine} :
      (sysReleaseBlock pid bufHandle).Runs session.machine value machine →
      Serve pid session (.releaseBlock bufHandle)
        ((session.setMachine machine).setIssued bufHandle none)

/-- The cache used by one process through handles. -/
def handleSystem (pid : Pid) : TransitionSystem Session HandleCall where
  Init := Session.Initial
  Step := Serve pid

/-- The handles of a call are live, or not those of any buffer. -/
def CheckedCall (session : Session) : HandleCall → Prop
  | .readBlock _ => True
  | .writeBlock bufHandle _ => session.Checked bufHandle
  | .releaseBlock bufHandle => session.Checked bufHandle

/-! ## Live handles -/

/-- The handle of a buffer. -/
def handleOf (index : BufIndex) : UInt64 := UInt64.ofNat (index.val + 1)

theorem indexToBuf_handleOf (index : BufIndex) :
    handleOf index ≠ 0 ∧
      indexToBuf (toInt (handleOf index - 1)) = some index := by
  revert index
  decide

theorem ofInt_bufToIndex (index : BufIndex) :
    UInt64.ofInt (bufToIndex index + 1) = handleOf index := by
  revert index
  decide

theorem handleOf_injective {index other : BufIndex}
    (same : handleOf index = handleOf other) : index = other := by
  have found := (indexToBuf_handleOf index).2
  rw [same, (indexToBuf_handleOf other).2] at found
  exact (Option.some.inj found).symm

/-- A buffer is held and its handle is live, or neither. -/
def BufIssued (pid : Pid) (session : Session) (index : BufIndex) : Prop :=
  ((session.buf index).slk = some pid ∧ (session.buf index).bufRef = 1 ∧
    session.issued (handleOf index) =
      some (index, (session.buf index).blockNum)) ∨
  ((session.buf index).slk = none ∧ (session.buf index).bufRef = 0 ∧
    session.issued (handleOf index) = none)

/-- The live handles are those of the buffers that the process holds. -/
structure Consistent (pid : Pid) (session : Session) (order : List BufIndex) :
    Prop where
  threaded : Threaded session.machine.cache order
  bufs : ∀ index, BufIssued pid session index
  handles : ∀ bufHandle place, session.issued bufHandle = some place →
    bufHandle = handleOf place.1

section Calls

variable {pid : Pid} {session session' : Session} {order : List BufIndex}
  {index : BufIndex} {blockNum : UInt32} {bufHandle value : UInt64}
  {data : Option Block} {machine machine' : Machine}

/-- `sys_read_block` returns the handle of the buffer. -/
theorem sysReadBlock_runs
    (run : (bufRead pid blockNum).Runs machine index machine') :
    (sysReadBlock pid blockNum).Runs machine (handleOf index) machine' := by
  unfold sysReadBlock
  rw [run.bind_iff]
  have proper : ¬bufToIndex index < 0 := by
    unfold bufToIndex
    omega
  rw [if_neg proper, Program.runs_pure]
  exact ⟨ofInt_bufToIndex index, rfl⟩

/-- The calls refuse a handle that is not that of any buffer. -/
theorem refuses
    (noBuf : bufHandle = 0 ∨ indexToBuf (toInt (bufHandle - 1)) = none) :
    (sysWriteBlock pid bufHandle data).Runs machine (-1) machine ∧
      (sysReleaseBlock pid bufHandle).Runs machine (-1) machine := by
  unfold sysWriteBlock sysReleaseBlock
  by_cases isZero : bufHandle = 0
  · rw [if_pos isZero, if_pos isZero, Program.runs_pure]
    exact ⟨⟨rfl, rfl⟩, rfl, rfl⟩
  · rw [if_neg isZero, if_neg isZero, noBuf.resolve_left isZero]
    exact ⟨Program.runs_pure.mpr ⟨rfl, rfl⟩, Program.runs_pure.mpr ⟨rfl, rfl⟩⟩

/-- The bytes that a process passes are stored in a buffer. -/
def filled (machine : Machine) (index : BufIndex) (data : Option Block) :
    Machine :=
  machine.setBuf index ((machine.cache.bufs index).fill
    (data.getD (machine.cache.bufs index).data))

theorem filled_none (machine : Machine) (index : BufIndex) :
    filled machine index none = machine := by
  have same : machine.cache.setBuf index (machine.cache.bufs index) =
      machine.cache := by
    unfold Cache.setBuf
    rw [Function.update_eq_self]
  change machine.setCache (machine.cache.setBuf index (machine.cache.bufs index)) =
    machine
  rw [same]
  rfl

theorem filled_bufs (machine : Machine) (index : BufIndex)
    (data : Option Block) :
    (filled machine index data).cache.bufs =
      Function.update machine.cache.bufs index ((machine.cache.bufs index).fill
        (data.getD (machine.cache.bufs index).data)) := rfl

/-- The machine after the bytes are also stored in the block of the buffer. -/
def written (machine : Machine) (index : BufIndex) (blockNum : UInt32)
    (data : Option Block) : Machine :=
  (filled machine index data).serve ⟨index, true⟩ (stored machine.disk blockNum
    (data.getD (machine.cache.bufs index).data))

section Found

variable (proper : bufHandle ≠ 0)
  (found : indexToBuf (toInt (bufHandle - 1)) = some index)

include proper found

/-- `sys_write_block` stores the bytes in the buffer, and writes it. -/
theorem sysWriteBlock_exec :
    (sysWriteBlock pid bufHandle data).exec machine =
      (bufWrite pid index >>= fun _ => pure 0).exec
        (filled machine index data) := by
  unfold sysWriteBlock
  rw [if_neg proper, found]
  cases data with
  | none => rw [filled_none]
  | some data =>
      exact Program.Runs.exec_bind
        (Program.runs_modify.mpr rfl : Program.Runs _ _ () _) _

/-- `sys_write_block` of a buffer that the process holds. -/
theorem sysWriteBlock_runs
    (held : (machine.cache.bufs index).slk = some pid) :
    (sysWriteBlock pid bufHandle data).Runs machine 0
      (written machine index (machine.cache.bufs index).blockNum data) := by
  have held' : ((filled machine index data).cache.bufs index).slk =
      some pid := by
    rw [filled_bufs, Function.update_self]
    exact held
  unfold Program.Runs
  rw [sysWriteBlock_exec proper found]
  refine Program.runs_bind.mpr ⟨(), _, bufWrite_runs held',
    Program.runs_pure.mpr ⟨rfl, ?_⟩⟩
  unfold written
  rw [filled_bufs, Function.update_self]
  rfl

/-- `sys_write_block` stops the kernel for a buffer that the process does not
hold. -/
theorem sysWriteBlock_not_held
    (notHeld : (machine.cache.bufs index).slk ≠ some pid) :
    (sysWriteBlock pid bufHandle data).exec machine =
      .error "buf_write: buffer not locked" := by
  rw [sysWriteBlock_exec proper found]
  refine Program.exec_bind_error (bufWrite_not_held ?_) _
  rw [filled_bufs, Function.update_self]
  exact notHeld

/-- `sys_release_block` of a buffer that the process holds. -/
theorem sysReleaseBlock_runs
    {front back : List BufIndex}
    (threaded : Threaded machine.cache (front ++ index :: back))
    (isLast : (machine.cache.bufs index).bufRef = 1)
    (held : (machine.cache.bufs index).slk = some pid) :
    ∃ machine', (sysReleaseBlock pid bufHandle).Runs machine 0 machine' ∧
      Released front back index machine machine' := by
  obtain ⟨machine', run, isReleased⟩ := bufRelease_runs threaded isLast held
  unfold sysReleaseBlock
  rw [if_neg proper, found]
  exact ⟨machine', run.bind_iff.mpr (Program.runs_pure.mpr ⟨rfl, rfl⟩),
    isReleased⟩

/-- `sys_release_block` stops the kernel for a buffer that the process does not
hold. -/
theorem sysReleaseBlock_not_held
    (notHeld : (machine.cache.bufs index).slk ≠ some pid) :
    (sysReleaseBlock pid bufHandle).exec machine =
      .error "buf_release: buffer not locked" := by
  unfold sysReleaseBlock
  rw [if_neg proper, found]
  exact Program.exec_bind_error (bufRelease_not_held notHeld) _

end Found

/-! ## Live handles and buffers -/

namespace Consistent

/-- A live handle is that of a buffer that the process holds. -/
theorem live
    (consistent : Consistent pid session order)
    {place : BufIndex × UInt32} (isLive : session.issued bufHandle = some place) :
    bufHandle = handleOf place.1 ∧ (session.buf place.1).slk = some pid ∧
      (session.buf place.1).bufRef = 1 ∧
      (session.buf place.1).blockNum = place.2 := by
  have isHandle := consistent.handles bufHandle place isLive
  rw [isHandle] at isLive
  rcases consistent.bufs place.1 with ⟨held, isLast, issued⟩ | ⟨_, _, issued⟩
  · rw [isLive] at issued
    have same := congrArg Prod.snd (Option.some.inj issued)
    exact ⟨isHandle, held, isLast, same.symm⟩
  · rw [isLive] at issued
    cases issued

/-- After `buf_init` no handle is live. -/
theorem of_initial (initial : session.Initial) :
    Consistent pid session (List.finRange nBlockBuf) := by
  obtain ⟨cache, isInit, threaded, bufs⟩ := bufInit_threaded
  obtain rfl : cache = session.machine.cache :=
    Option.some.inj (isInit.symm.trans initial.cache)
  refine ⟨threaded, fun index => Or.inr ?_, fun bufHandle place isLive => ?_⟩
  · unfold Session.buf
    rw [bufs index]
    exact ⟨rfl, rfl, initial.issued _⟩
  · rw [initial.issued] at isLive
    cases isLive

/-- One buffer and its handle change. -/
theorem update
    {place : Option (BufIndex × UInt32)} {buf : BufT} {order' : List BufIndex}
    (consistent : Consistent pid session order)
    (threaded : Threaded machine.cache order')
    (bufs : machine.cache.bufs =
      Function.update session.machine.cache.bufs index buf)
    (isPlace : buf.slk = some pid ∧ buf.bufRef = 1 ∧
        place = some (index, buf.blockNum) ∨
      buf.slk = none ∧ buf.bufRef = 0 ∧ place = none) :
    Consistent pid ((session.setMachine machine).setIssued (handleOf index)
      place) order' := by
  refine ⟨threaded, fun other => ?_, fun bufHandle other isLive => ?_⟩
  · unfold BufIssued Session.buf
    rw [Session.setIssued_machine, Session.setMachine_machine, bufs,
      Session.setIssued_issued, Session.setMachine_issued]
    by_cases same : other = index
    · rw [same, Function.update_self, Function.update_self]
      exact isPlace
    · rw [Function.update_of_ne same, Function.update_of_ne fun isHandle =>
        same (handleOf_injective isHandle)]
      exact consistent.bufs other
  · rw [Session.setIssued_issued, Session.setMachine_issued] at isLive
    by_cases same : bufHandle = handleOf index
    · rw [same, Function.update_self] at isLive
      rcases isPlace with ⟨_, _, isSome⟩ | ⟨_, _, isNone⟩
      · rw [isSome] at isLive
        obtain rfl := Option.some.inj isLive
        exact same
      · rw [isNone] at isLive
        cases isLive
    · rw [Function.update_of_ne same] at isLive
      exact consistent.handles bufHandle other isLive

/-- The bytes of a buffer and of its block change. -/
theorem write
    (consistent : Consistent pid session order) (index : BufIndex)
    (blockNum : UInt32) (data : Option Block) :
    Consistent pid
      (session.setMachine (written session.machine index blockNum data))
      order := by
  refine ⟨⟨consistent.threaded.ring, consistent.threaded.complete⟩,
    fun other => ?_, consistent.handles⟩
  have isIssued := consistent.bufs other
  unfold BufIssued Session.buf at isIssued ⊢
  have kept : ((written session.machine index blockNum data).cache.bufs
      other).slk = (session.machine.cache.bufs other).slk ∧
      ((written session.machine index blockNum data).cache.bufs
        other).bufRef = (session.machine.cache.bufs other).bufRef ∧
      ((written session.machine index blockNum data).cache.bufs
        other).blockNum = (session.machine.cache.bufs other).blockNum := by
    unfold written
    rw [Machine.serve_cache, filled_bufs]
    by_cases same : other = index
    · rw [same, Function.update_self]
      exact ⟨rfl, rfl, rfl⟩
    · rw [Function.update_of_ne same]
      exact ⟨rfl, rfl, rfl⟩
  rw [Session.setMachine_machine, Session.setMachine_issued, kept.1, kept.2.1,
    kept.2.2]
  exact isIssued

end Consistent

/-- The live handles are those of the buffers that the process holds. -/
def Agrees (pid : Pid) (session : Session) : Prop :=
  ∃ order, Consistent pid session order

/-- What `sys_write_block` has to do: refuse a handle that is not live, and
write the buffer and the block that a live one was issued for. -/
def WriteChecked (pid : Pid) (session : Session) (bufHandle : UInt64)
    (data : Option Block) : Prop :=
  match session.issued bufHandle with
  | none => (sysWriteBlock pid bufHandle data).Runs session.machine (-1)
      session.machine
  | some (index, blockNum) =>
      (sysWriteBlock pid bufHandle data).Runs session.machine 0
        (written session.machine index blockNum data)

/-- What `sys_release_block` has to do: refuse a handle that is not live, and
release the buffer that a live one was issued for. -/
def ReleaseChecked (pid : Pid) (session : Session) (bufHandle : UInt64) :
    Prop :=
  match session.issued bufHandle with
  | none => (sysReleaseBlock pid bufHandle).Runs session.machine (-1)
      session.machine
  | some (index, _) => ∃ front back machine,
      Threaded session.machine.cache (front ++ index :: back) ∧
      (sysReleaseBlock pid bufHandle).Runs session.machine 0 machine ∧
      Released front back index session.machine machine

theorem Consistent.writeChecked_iff
    (consistent : Consistent pid session order) :
    WriteChecked pid session bufHandle data ↔ session.Checked bufHandle := by
  unfold WriteChecked Session.Checked
  cases issued : session.issued bufHandle with
  | some place =>
      obtain ⟨index, blockNum⟩ := place
      obtain ⟨rfl, held, _, isBlock⟩ := consistent.live issued
      obtain ⟨proper, found⟩ := indexToBuf_handleOf index
      obtain rfl : (session.buf index).blockNum = blockNum := isBlock
      exact iff_of_true (sysWriteBlock_runs proper found held) (Or.inl nofun)
  | none =>
      refine ⟨fun run => Or.inr ?_, fun checked => ?_⟩
      · by_contra isBuf
        obtain ⟨proper, isSome⟩ := not_or.mp isBuf
        obtain ⟨index, found⟩ := Option.ne_none_iff_exists'.mp isSome
        by_cases held : (session.machine.cache.bufs index).slk = some pid
        · have run' := @sysWriteBlock_runs pid index bufHandle data _ proper
            found held
          exact absurd (run.deterministic run').1 (by decide)
        · unfold Program.Runs at run
          rw [sysWriteBlock_not_held proper found held] at run
          cases run
      · exact (refuses (checked.resolve_left fun isSome => isSome rfl)).1

theorem Consistent.releaseChecked_iff
    (consistent : Consistent pid session order) :
    ReleaseChecked pid session bufHandle ↔ session.Checked bufHandle := by
  unfold ReleaseChecked Session.Checked
  cases issued : session.issued bufHandle with
  | some place =>
      obtain ⟨index, blockNum⟩ := place
      obtain ⟨rfl, held, isLast, _⟩ := consistent.live issued
      obtain ⟨proper, found⟩ := indexToBuf_handleOf index
      refine iff_of_true ?_ (Or.inl nofun)
      obtain ⟨front, back, rfl⟩ :=
        List.append_of_mem (consistent.threaded.complete index)
      obtain ⟨machine, run, isReleased⟩ := sysReleaseBlock_runs proper found
        consistent.threaded isLast held
      exact ⟨front, back, machine, consistent.threaded, run, isReleased⟩
  | none =>
      refine ⟨fun run => Or.inr ?_, fun checked => ?_⟩
      · by_contra isBuf
        obtain ⟨proper, isSome⟩ := not_or.mp isBuf
        obtain ⟨index, found⟩ := Option.ne_none_iff_exists'.mp isSome
        rcases consistent.bufs index with ⟨held, isLast, _⟩ | ⟨isFree, _⟩
        · obtain ⟨front, back, rfl⟩ :=
            List.append_of_mem (consistent.threaded.complete index)
          obtain ⟨machine, run', _⟩ := sysReleaseBlock_runs proper found
            consistent.threaded isLast held
          exact absurd (run.deterministic run').1 (by decide)
        · have notHeld : (session.machine.cache.bufs index).slk ≠ some pid := by
            intro held
            rw [show (session.machine.cache.bufs index).slk = none from isFree]
              at held
            cases held
          unfold Program.Runs at run
          rw [sysReleaseBlock_not_held proper found notHeld] at run
          cases run
      · exact (@refuses pid _ none _
          (checked.resolve_left fun isSome => isSome rfl)).2

/-- A call whose handle is live, or not that of any buffer. -/
theorem Consistent.step
    (consistent : Consistent pid session order) {call : HandleCall}
    (checked : CheckedCall session call) (taken : Serve pid session call session') :
    Agrees pid session' := by
  cases taken with
  | @readBlock blockNum index bufHandle machine notHeld run isRun =>
      obtain ⟨rfl, _⟩ := (sysReadBlock_runs run).deterministic isRun
      rcases bufRead_runs consistent.threaded run with hit | ⟨_, _, miss⟩
      · have isBound := hit.isBound
        have isFree := (consistent.bufs index).resolve_left fun isHeld =>
          notHeld ⟨index, isHeld.1, isBound⟩
        refine ⟨order, consistent.update ⟨?_, consistent.threaded.complete⟩
          hit.bufs (Or.inl ⟨rfl, ?_, ?_⟩)⟩
        · rw [hit.links]
          exact consistent.threaded.ring
        · change (session.buf index).bufRef + 1 = 1
          rw [isFree.2.1]
          rfl
        · rw [← isBound]
          rfl
      · exact ⟨_, consistent.update miss.threaded miss.bufs
          (Or.inl ⟨rfl, rfl, rfl⟩)⟩
  | @writeBlock bufHandle value data machine run =>
      have isChecked := (@Consistent.writeChecked_iff _ _ _ _ data
        consistent).mpr checked
      unfold WriteChecked at isChecked
      cases issued : session.issued bufHandle with
      | none =>
          rw [issued] at isChecked
          obtain ⟨_, rfl⟩ := run.deterministic isChecked
          exact ⟨order, consistent⟩
      | some place =>
          rw [issued] at isChecked
          obtain ⟨_, rfl⟩ := run.deterministic isChecked
          exact ⟨order, consistent.write _ _ data⟩
  | @releaseBlock bufHandle value machine run =>
      have isChecked := consistent.releaseChecked_iff.mpr checked
      unfold ReleaseChecked at isChecked
      cases issued : session.issued bufHandle with
      | none =>
          rw [issued] at isChecked
          obtain ⟨_, rfl⟩ := run.deterministic isChecked
          have same : (session.setMachine session.machine).setIssued bufHandle
              none = session := by
            unfold Session.setIssued
            rw [Session.setMachine_issued, ← issued, Function.update_eq_self]
            rfl
          rw [same]
          exact ⟨order, consistent⟩
      | some place =>
          rw [issued] at isChecked
          obtain ⟨front, back, _, _, run', isReleased⟩ := isChecked
          obtain ⟨_, rfl⟩ := run.deterministic run'
          rw [consistent.handles bufHandle place issued]
          exact ⟨_, consistent.update isReleased.threaded isReleased.bufs
            (Or.inr ⟨rfl, rfl, rfl⟩)⟩

theorem agrees_of_reachable
    (reachable : (handleSystem pid).ReachableBy CheckedCall session) :
    Agrees pid session := by
  apply reachable.invariant
  · intro session initial
    exact ⟨_, .of_initial initial⟩
  · rintro session call session' ⟨order, consistent⟩ checked taken
    exact consistent.step checked taken

end Calls

/-- As long as all handles of the calls before are live or not those of any
buffer, the calls check a handle if and only if it is live or not that of any
buffer. -/
theorem handles_checked_iff
    {pid : Pid} {session : Session}
    (reachable : (handleSystem pid).ReachableBy CheckedCall session)
    (bufHandle : UInt64) (data : Option Block) :
    (WriteChecked pid session bufHandle data ↔ session.Checked bufHandle) ∧
      (ReleaseChecked pid session bufHandle ↔ session.Checked bufHandle) := by
  obtain ⟨order, consistent⟩ := agrees_of_reachable reachable
  exact ⟨consistent.writeChecked_iff, consistent.releaseChecked_iff⟩

/-- The handle of the first buffer that is read is live. -/
theorem handles_checked_iff_first :
    ∃ session bufHandle, session.issued bufHandle ≠ none ∧
      WriteChecked 0 session bufHandle none ∧
      ReleaseChecked 0 session bufHandle := by
  obtain ⟨cache, isInit, threaded, bufs⟩ := bufInit_threaded
  have initial : Session.Initial ⟨⟨cache, fun _ => 0, []⟩, fun _ => none⟩ :=
    ⟨isInit, fun _ => rfl⟩
  rcases List.eq_nil_or_concat (List.finRange nBlockBuf) with
    none | ⟨front, last, isOrder⟩
  · exact absurd none (by decide)
  · rw [isOrder, List.concat_eq_append] at threaded
    have absent : ∀ other, (cache.bufs other).blockNum ≠ 5 := by
      intro other
      rw [bufs other]
      decide
    obtain ⟨machine, run⟩ := @bufRead_recycles 0 last
      ⟨cache, fun _ => 0, []⟩ 5 front threaded absent (by rw [bufs last])
      (by rw [bufs last]; exact nofun)
    have notHeld : ¬Holds 0 (Machine.mk cache (fun _ => 0) []) 5 := by
      rintro ⟨index, isHeld, _⟩
      rw [show (cache.bufs index).slk = none by rw [bufs index]] at isHeld
      cases isHeld
    have taken : (handleSystem 0).Step ⟨⟨cache, fun _ => 0, []⟩, fun _ => none⟩
        (.readBlock 5) _ := Serve.readBlock notHeld run (sysReadBlock_runs run)
    have isChecked : CheckedCall ⟨⟨cache, fun _ => 0, []⟩, fun _ => none⟩
        (.readBlock 5) := trivial
    have reached := TransitionSystem.ReachableBy.step
      (TransitionSystem.ReachableBy.init initial) isChecked taken
    have isLive : (Session.setIssued (Session.setMachine
        ⟨⟨cache, fun _ => 0, []⟩, fun _ => none⟩ machine) (handleOf last)
          (some (last, 5))).issued (handleOf last) ≠ none := by
      rw [Session.setIssued_issued, Function.update_self]
      exact nofun
    obtain ⟨writes, releases⟩ := handles_checked_iff reached (handleOf last) none
    exact ⟨_, handleOf last, isLive, writes.mpr (Or.inl isLive),
      releases.mpr (Or.inl isLive)⟩

/-- A handle that was never issued stops the kernel. -/
theorem handles_not_checked :
    ¬∀ (pid : Pid) (session : Session),
      (handleSystem pid).ReachableBy CheckedCall session →
      ∀ bufHandle data, WriteChecked pid session bufHandle data ∧
        ReleaseChecked pid session bufHandle := by
  intro checked
  obtain ⟨cache, isInit, _, _⟩ := bufInit_threaded
  have initial : Session.Initial ⟨⟨cache, fun _ => 0, []⟩, fun _ => none⟩ :=
    ⟨isInit, fun _ => rfl⟩
  obtain ⟨_, releases⟩ := checked 0 _ (.init initial) 1 none
  have consistent : Consistent 0 _ _ := .of_initial initial
  rcases consistent.releaseChecked_iff.mp releases with isLive | isZero | noBuf
  · exact isLive rfl
  · cases isZero
  · exact absurd noBuf (by decide)

end Buf
end WhuOs
