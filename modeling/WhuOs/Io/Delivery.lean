import WhuOs.Fs.Ranges
import WhuOs.Io.Defs

/-!
# What a transfer reads and stores

A read or a listing of a directory is the function of the file system that
returns the bytes, followed by stores of these bytes to the pointer.  A write
is the function of the file system with the bytes that the kernel loads from
the pointer.
-/

namespace WhuOs
namespace Io

open Library
open Fs (FsM Slot EntryIndex direntPerBlock direntSize)
open Mem (MemM pteR pteW)
open Program (Runs)

variable {machine machine' : Machine} {user : Bool} {dst src : UInt64}
  {ip : Slot} {offset len total : UInt32} {fuel : Nat}

section Programs

variable {α : Type} {value : α}

@[simp] theorem runs_onFs {program : FsM α} :
    (onFs program).Runs machine value machine' ↔
      ∃ fs, program.Runs machine.fs value fs ∧ machine' = ⟨fs, machine.mem⟩ := by
  unfold onFs
  rw [@Program.runs_zoom _ _ _ Machine.fs Machine.setFs (fun _ _ => rfl)
    fun _ _ _ => rfl]
  exact exists_congr fun fs => and_congr_right fun _ => eq_comm

@[simp] theorem runs_onMem {program : MemM α} :
    (onMem program).Runs machine value machine' ↔
      ∃ mem, program.Runs machine.mem value mem ∧
        machine' = ⟨machine.fs, mem⟩ := by
  unfold onMem
  rw [@Program.runs_zoom _ _ _ Machine.mem Machine.setMem (fun _ _ => rfl)
    fun _ _ _ => rfl]
  exact exists_congr fun mem => and_congr_right fun _ => eq_comm

end Programs

/-! ## Stores -/

section Stores

variable {mem mem' : Mem.State}

@[simp] theorem runs_storeByte {value : UInt8} :
    (storeByte dst value).Runs mem () mem' ↔
      ∃ pa, kernelByte mem pteW dst = some pa ∧
        mem' = mem.setBytes (Mem.setByte mem.bytes pa value) := by
  unfold storeByte
  simp only [Program.runs_bind, Program.runs_get]
  constructor
  · rintro ⟨_, _, ⟨rfl, rfl⟩, run⟩
    cases reached : kernelByte mem pteW dst with
    | none =>
        rw [reached] at run
        exact absurd run Program.runs_panic
    | some pa =>
        rw [reached] at run
        exact ⟨pa, rfl, (Program.runs_modify.mp run).symm⟩
  · rintro ⟨pa, reached, rfl⟩
    refine ⟨mem, mem, ⟨rfl, rfl⟩, ?_⟩
    rw [reached]
    exact Program.runs_modify.mpr rfl

@[simp] theorem runs_loadByte {value : UInt8} :
    (loadByte src).Runs mem value mem' ↔
      ∃ pa, kernelByte mem pteR src = some pa ∧
        mem.bytes pa.toNat = value ∧ mem' = mem := by
  unfold loadByte
  simp only [Program.runs_bind, Program.runs_get]
  constructor
  · rintro ⟨_, _, ⟨rfl, rfl⟩, run⟩
    cases reached : kernelByte mem pteR src with
    | none =>
        rw [reached] at run
        exact absurd run Program.runs_panic
    | some pa =>
        rw [reached] at run
        obtain ⟨isValue, same⟩ := Program.runs_pure.mp run
        exact ⟨pa, rfl, isValue, same.symm⟩
  · rintro ⟨pa, reached, rfl, rfl⟩
    refine ⟨mem', mem', ⟨rfl, rfl⟩, ?_⟩
    rw [reached]
    exact Program.runs_pure.mpr ⟨rfl, rfl⟩

theorem storeBytes_append (dst : UInt64) (first rest : List UInt8) :
    (storeBytes dst (first ++ rest)).Runs mem () mem' ↔
      ∃ middle, (storeBytes dst first).Runs mem () middle ∧
        (storeBytes (dst + UInt64.ofNat first.length) rest).Runs middle ()
          mem' := by
  induction first generalizing dst mem with
  | nil =>
      rw [List.length_nil, show UInt64.ofNat 0 = 0 from rfl, UInt64.add_zero]
      constructor
      · exact fun run => ⟨mem, Program.runs_pure.mpr ⟨rfl, rfl⟩, run⟩
      · rintro ⟨middle, none, run⟩
        rwa [(Program.runs_pure.mp none).2]
  | cons value first inductionHypothesis =>
      have next : dst + 1 + UInt64.ofNat first.length =
          dst + UInt64.ofNat (first.length + 1) := by
        rw [Nat.add_comm, ← Mem.ofNat_add_assoc]
        rfl
      simp only [List.cons_append, storeBytes, Program.runs_bind,
        inductionHypothesis, List.length_cons, next]
      constructor
      · rintro ⟨_, one, stored, middle, run, run'⟩
        exact ⟨middle, ⟨_, one, stored, run⟩, run'⟩
      · rintro ⟨middle, ⟨_, one, stored, run⟩, run'⟩
        exact ⟨_, one, stored, middle, run, run'⟩

end Stores

@[simp] theorem runs_copyTo {piece : List UInt8} {result : Unit} :
    (copyTo user dst piece).Runs machine result machine' ↔
      ∃ mem, (storeBytes dst piece).Runs machine.mem () mem ∧
        machine' = ⟨machine.fs, mem⟩ := by
  cases user <;> exact runs_onMem

@[simp] theorem runs_copyFrom {count : Nat} {piece : List UInt8} :
    (copyFrom user src count).Runs machine piece machine' ↔
      ∃ mem, (loadBytes src count).Runs machine.mem piece mem ∧
        machine' = ⟨machine.fs, mem⟩ := by
  cases user <;> exact runs_onMem

/-! ## Reads -/

/-- The loop adds to the bytes that were read before. -/
theorem readLoop_append
    {state final : Fs.State} {before result : List UInt8} :
    (Fs.readLoop ip offset len total before fuel).Runs state result final ↔
      ∃ bytes, result = before ++ bytes ∧
        (Fs.readLoop ip offset len total [] fuel).Runs state bytes final := by
  induction fuel generalizing offset total before state result with
  | zero =>
      simp only [Fs.readLoop, Program.runs_pure]
      constructor
      · rintro ⟨rfl, rfl⟩
        exact ⟨[], (List.append_nil _).symm, rfl, rfl⟩
      · rintro ⟨_, rfl, rfl, rfl⟩
        exact ⟨(List.append_nil _).symm, rfl⟩
  | succ fuel inductionHypothesis =>
      unfold Fs.readLoop
      by_cases more : total < len
      · simp only [if_pos more, Program.runs_bind]
        constructor
        · rintro ⟨bn, _, locate, data, _, read, _, _, release, run⟩
          obtain ⟨bytes, isResult, run⟩ := inductionHypothesis.mp run
          rw [List.append_assoc] at isResult
          exact ⟨_, isResult, bn, _, locate, data, _, read, _, _, release,
            inductionHypothesis.mpr ⟨bytes, by rw [List.nil_append], run⟩⟩
        · rintro ⟨_, isResult, bn, _, locate, data, _, read, _, _, release, run⟩
          obtain ⟨bytes, isBytes, run⟩ := inductionHypothesis.mp run
          rw [isBytes, List.nil_append, ← List.append_assoc] at isResult
          exact ⟨bn, _, locate, data, _, read, _, _, release,
            inductionHypothesis.mpr ⟨bytes, isResult, run⟩⟩
      · simp only [if_neg more, Program.runs_pure]
        constructor
        · rintro ⟨rfl, rfl⟩
          exact ⟨[], (List.append_nil _).symm, rfl, rfl⟩
        · rintro ⟨_, rfl, rfl, rfl⟩
          exact ⟨(List.append_nil _).symm, rfl⟩

/-- The bytes that a loop has stored, and where the next one goes. -/
theorem after_piece
    (dst : UInt64) {next : UInt32} {count : Nat}
    (isNext : next.toNat = total.toNat + count) :
    dst + total.toUInt64 + UInt64.ofNat count = dst + next.toUInt64 ∧
      total + UInt32.ofNat count = next := by
  refine ⟨?_, ?_⟩
  · rw [Mem.toUInt64_eq_ofNat, Mem.toUInt64_eq_ofNat, Mem.ofNat_add_assoc,
      isNext]
  · apply UInt32.toNat.inj
    rw [UInt32.toNat_add, UInt32.toNat_ofNat', isNext, Nat.add_mod_mod,
      Nat.mod_eq_of_lt]
    exact isNext ▸ next.toNat_lt

/-- The loop of a read reads what the loop of the file system reads, and stores
it. -/
theorem readLoop_delivers {n : UInt32} :
    (readLoop ip offset len total dst user fuel).Runs machine n machine' ↔
      ∃ bytes, (Fs.readLoop ip offset len total [] fuel).Runs machine.fs bytes
          machine'.fs ∧
        (storeBytes (dst + total.toUInt64) bytes).Runs machine.mem ()
          machine'.mem ∧
        n = total + UInt32.ofNat bytes.length := by
  have done : ∀ (machine : Machine) (total : UInt32),
      (pure total : IoM UInt32).Runs machine n machine' ↔
        ∃ bytes, (pure [] : FsM (List UInt8)).Runs machine.fs bytes
            machine'.fs ∧
          (storeBytes (dst + total.toUInt64) bytes).Runs machine.mem ()
            machine'.mem ∧
          n = total + UInt32.ofNat bytes.length := by
    intro machine total
    simp only [Program.runs_pure]
    constructor
    · rintro ⟨rfl, rfl⟩
      exact ⟨[], ⟨rfl, rfl⟩, Program.runs_pure.mpr ⟨rfl, rfl⟩,
        (UInt32.add_zero _).symm⟩
    · rintro ⟨_, ⟨rfl, sameFs⟩, stored, rfl⟩
      have sameMem := (Program.runs_pure.mp stored).2
      refine ⟨(UInt32.add_zero _).symm, ?_⟩
      change machine = ⟨machine'.fs, machine'.mem⟩
      rw [← sameFs, ← sameMem]
  induction fuel generalizing offset total machine with
  | zero => exact done machine total
  | succ fuel inductionHypothesis =>
      unfold readLoop Fs.readLoop
      by_cases more : total < len
      · obtain ⟨_, _, isNext⟩ := Fs.pieceLength_bounds offset more
        obtain ⟨nextAddress, nextTotal⟩ := after_piece dst isNext
        simp only [if_pos more, Program.runs_bind, runs_onFs, runs_copyTo]
        constructor
        · rintro ⟨bn, _, ⟨one, locate, rfl⟩, data, _, ⟨two, read, rfl⟩, _, _,
            ⟨mem, stored, rfl⟩, _, _, ⟨three, release, rfl⟩, run⟩
          obtain ⟨bytes, reads, stored', rfl⟩ := inductionHypothesis.mp run
          refine ⟨_, ⟨bn, _, locate, data, _, read, _, _, release,
            readLoop_append.mpr ⟨bytes, rfl, reads⟩⟩, ?_, ?_⟩
          · rw [List.nil_append, storeBytes_append, List.length_map,
              List.length_range, nextAddress]
            exact ⟨mem, stored, stored'⟩
          · rw [List.nil_append, List.length_append, List.length_map,
              List.length_range, UInt32.ofNat_add, ← UInt32.add_assoc,
              nextTotal]
        · rintro ⟨_, ⟨bn, _, locate, data, _, read, _, _, release, run⟩,
            stored, rfl⟩
          obtain ⟨bytes, isBytes, run⟩ := readLoop_append.mp run
          rw [List.nil_append] at isBytes
          rw [isBytes, storeBytes_append, List.length_map, List.length_range,
            nextAddress] at stored
          obtain ⟨mem, stored, stored'⟩ := stored
          refine ⟨bn, _, ⟨_, locate, rfl⟩, data, _, ⟨_, read, rfl⟩, (), _,
            ⟨mem, stored, rfl⟩, (), _, ⟨_, release, rfl⟩,
            inductionHypothesis.mpr ⟨bytes, run, stored', ?_⟩⟩
          rw [isBytes, List.length_append, List.length_map, List.length_range,
            UInt32.ofNat_add, ← UInt32.add_assoc, nextTotal]
      · simp only [if_neg more]
        exact done machine total

/-- A call stores the bytes that a function of the file system returns. -/
def Delivers (call : UInt64 → Bool → IoM UInt32)
    (source : FsM (List UInt8)) : Prop :=
  ∀ dst user machine n machine', (call dst user).Runs machine n machine' ↔
    ∃ bytes, source.Runs machine.fs bytes machine'.fs ∧
      (storeBytes dst bytes).Runs machine.mem () machine'.mem ∧
      n = UInt32.ofNat bytes.length

namespace Delivers

variable {α : Type} {call call' : UInt64 → Bool → IoM UInt32}
  {source source' : FsM (List UInt8)}

theorem nothing : Delivers (fun _ _ => return 0) (return []) := by
  intro dst user machine n machine'
  simp only [Program.runs_pure]
  constructor
  · rintro ⟨rfl, rfl⟩
    exact ⟨[], ⟨rfl, rfl⟩, Program.runs_pure.mpr ⟨rfl, rfl⟩, rfl⟩
  · rintro ⟨_, ⟨rfl, sameFs⟩, stored, rfl⟩
    have sameMem := (Program.runs_pure.mp stored).2
    refine ⟨rfl, ?_⟩
    change machine = ⟨machine'.fs, machine'.mem⟩
    rw [← sameFs, ← sameMem]

/-- What the file system does first stores nothing. -/
theorem bind
    {program : FsM α} {next : α → UInt64 → Bool → IoM UInt32}
    {nextSource : α → FsM (List UInt8)}
    (delivers : ∀ value, Delivers (next value) (nextSource value)) :
    Delivers (fun dst user => do next (← onFs program) dst user)
      (program >>= nextSource) := by
  intro dst user machine n machine'
  simp only [Program.runs_bind, runs_onFs]
  constructor
  · rintro ⟨value, _, ⟨fs, run, rfl⟩, rest⟩
    obtain ⟨bytes, reads, stored, rfl⟩ := (delivers value _ _ _ _ _).mp rest
    exact ⟨bytes, ⟨value, fs, run, reads⟩, stored, rfl⟩
  · rintro ⟨bytes, ⟨value, fs, run, reads⟩, stored, rfl⟩
    exact ⟨value, _, ⟨fs, run, rfl⟩,
      (delivers value _ _ _ _ _).mpr ⟨bytes, reads, stored, rfl⟩⟩

theorem assert
    (condition : Bool) (message : String) (delivers : Delivers call source) :
    Delivers
      (fun dst user => do
        Program.assert condition message
        call dst user)
      (do
        Program.assert condition message
        source) := by
  intro dst user machine n machine'
  simp only [Program.runs_bind, Program.runs_assert]
  constructor
  · rintro ⟨_, _, ⟨holds, rfl⟩, rest⟩
    obtain ⟨bytes, reads, stored, rfl⟩ := (delivers _ _ _ _ _).mp rest
    exact ⟨bytes, ⟨(), _, ⟨holds, rfl⟩, reads⟩, stored, rfl⟩
  · rintro ⟨bytes, ⟨_, _, ⟨holds, rfl⟩, reads⟩, stored, rfl⟩
    exact ⟨(), _, ⟨holds, rfl⟩,
      (delivers _ _ _ _ _).mpr ⟨bytes, reads, stored, rfl⟩⟩

theorem ite
    (condition : Prop) [Decidable condition] (delivers : Delivers call source)
    (delivers' : Delivers call' source') :
    Delivers
      (fun dst user => if condition then call dst user else call' dst user)
      (if condition then source else source') := by
  intro dst user machine n machine'
  by_cases holds : condition
  · simp only [if_pos holds]
    exact delivers dst user machine n machine'
  · simp only [if_neg holds]
    exact delivers' dst user machine n machine'

end Delivers

theorem inodeReadData_delivers (ip : Slot) (offset len : UInt32) :
    Delivers (inodeReadData ip offset len)
      (Fs.inodeReadData ip offset len) := by
  refine .bind fun inode => .assert _ _ (.ite _ .nothing ?_)
  intro dst user machine n machine'
  have zero : dst + (0 : UInt32).toUInt64 = dst := UInt64.add_zero dst
  rw [readLoop_delivers, zero]
  simp only [UInt32.zero_add]

/-! ## Listings -/

/-- The entries that the loop copies. -/
def entriesFrom (data : Block) (len copied : UInt32)
    (entries : List EntryIndex) : List EntryIndex :=
  (entries.filter fun entry => Fs.entryName data entry ≠ []).take
    ((len.toNat - copied.toNat) / direntSize)

theorem entriesFrom_full
    {data : Block} {copied : UInt32} (entries : List EntryIndex)
    (full : ¬copied.toNat + direntSize ≤ len.toNat) :
    entriesFrom data len copied entries = [] := by
  have none : (len.toNat - copied.toNat) / direntSize = 0 :=
    Nat.div_eq_of_lt (by unfold direntSize at *; omega)
  unfold entriesFrom
  rw [none, List.take_zero]

theorem entriesFrom_unused
    {data : Block} (copied : UInt32) {entry : EntryIndex}
    (rest : List EntryIndex) (unused : ¬Fs.entryName data entry ≠ []) :
    entriesFrom data len copied (entry :: rest) =
      entriesFrom data len copied rest := by
  unfold entriesFrom
  rw [List.filter_cons_of_neg]
  rwa [decide_eq_true_eq]

theorem entriesFrom_used
    {data : Block} {copied : UInt32} {entry : EntryIndex}
    (rest : List EntryIndex) (room : copied.toNat + direntSize ≤ len.toNat)
    (used : Fs.entryName data entry ≠ []) :
    (copied + 32).toNat = copied.toNat + direntSize ∧
      entriesFrom data len copied (entry :: rest) =
        entry :: entriesFrom data len (copied + 32) rest := by
  have small := len.toNat_lt
  have isNext : (copied + 32).toNat = copied.toNat + direntSize := by
    rw [UInt32.toNat_add, show (32 : UInt32).toNat = direntSize from rfl]
    exact Nat.mod_eq_of_lt (by unfold direntSize at *; omega)
  have one : (len.toNat - copied.toNat) / direntSize =
      (len.toNat - (copied.toNat + direntSize)) / direntSize + 1 := by
    unfold direntSize at *
    omega
  refine ⟨isNext, ?_⟩
  unfold entriesFrom
  rw [List.filter_cons, if_pos (decide_eq_true used), one, List.take_succ_cons,
    isNext]

theorem entryBytes_length (data : Block) (entry : EntryIndex) :
    (entryBytes data entry).length = direntSize := by
  unfold entryBytes
  rw [List.length_map, List.length_range]

theorem entriesLoop_delivers
    {data : Block} {entries : List EntryIndex} {copied n : UInt32} :
    (entriesLoop data len dst user entries copied).Runs machine n machine' ↔
      ∃ mem, (storeBytes (dst + copied.toUInt64)
          ((entriesFrom data len copied entries).map
            (entryBytes data)).flatten).Runs machine.mem () mem ∧
        machine' = ⟨machine.fs, mem⟩ ∧
        n = copied + UInt32.ofNat
          (direntSize * (entriesFrom data len copied entries).length) := by
  have done : ∀ (machine : Machine) (copied : UInt32),
      (pure copied : IoM UInt32).Runs machine n machine' ↔
        ∃ mem, (storeBytes (dst + copied.toUInt64) []).Runs machine.mem () mem ∧
          machine' = ⟨machine.fs, mem⟩ ∧ n = copied + UInt32.ofNat 0 := by
    intro machine copied
    simp only [Program.runs_pure]
    constructor
    · rintro ⟨rfl, rfl⟩
      exact ⟨_, Program.runs_pure.mpr ⟨rfl, rfl⟩, rfl,
        (UInt32.add_zero _).symm⟩
    · rintro ⟨mem, stored, rfl, rfl⟩
      rw [← (Program.runs_pure.mp stored).2]
      exact ⟨(UInt32.add_zero _).symm, rfl⟩
  induction entries generalizing copied machine with
  | nil =>
      have none : entriesFrom data len copied [] = [] := List.take_nil
      rw [none]
      exact done machine copied
  | cons entry rest inductionHypothesis =>
      unfold entriesLoop
      by_cases room : copied.toNat + direntSize ≤ len.toNat
      · rw [if_pos room]
        by_cases used : Fs.entryName data entry ≠ []
        · obtain ⟨isNext, isEntries⟩ := entriesFrom_used rest room used
          obtain ⟨nextAddress, nextTotal⟩ := after_piece dst isNext
          rw [if_pos used, isEntries, List.map_cons, List.flatten_cons,
            List.length_cons, Nat.mul_succ, Nat.add_comm, UInt32.ofNat_add,
            ← UInt32.add_assoc, nextTotal]
          simp only [Program.runs_bind, runs_copyTo, storeBytes_append,
            entryBytes_length, nextAddress, inductionHypothesis]
          constructor
          · rintro ⟨_, _, ⟨mem, stored, rfl⟩, mem', stored', rfl, rfl⟩
            exact ⟨mem', ⟨mem, stored, stored'⟩, rfl, rfl⟩
          · rintro ⟨mem', ⟨mem, stored, stored'⟩, rfl, rfl⟩
            exact ⟨(), _, ⟨mem, stored, rfl⟩, mem', stored', rfl, rfl⟩
        · rw [if_neg used, entriesFrom_unused copied rest used]
          exact inductionHypothesis
      · rw [if_neg room, entriesFrom_full _ room]
        exact done machine copied

theorem flatten_entries_length (data : Block) (entries : List EntryIndex) :
    ((entries.map (entryBytes data)).flatten).length =
      direntSize * entries.length := by
  induction entries with
  | nil => rfl
  | cons entry rest inductionHypothesis =>
      rw [List.map_cons, List.flatten_cons, List.length_append,
        entryBytes_length, inductionHypothesis, List.length_cons, Nat.mul_succ,
        Nat.add_comm]

theorem dirGetEntries_delivers (pip : Slot) (len : UInt32) :
    Delivers (dirGetEntries pip len)
      (do
        let entries ← Fs.dirGetEntries pip len
        return entries.flatten) := by
  intro dst user machine n machine'
  have zero : dst + (0 : UInt32).toUInt64 = dst := UInt64.add_zero dst
  have whole : ∀ data : Block, entriesFrom data len 0
      (List.finRange direntPerBlock) = ((List.finRange direntPerBlock).filter
        fun entry => Fs.entryName data entry ≠ []).take
          (len.toNat / direntSize) := fun _ => rfl
  simp only [dirGetEntries, Fs.dirGetEntries, Program.runs_bind, runs_onFs,
    entriesLoop_delivers, Program.runs_pure, zero, whole, UInt32.zero_add]
  constructor
  · rintro ⟨⟨bn, data⟩, _, ⟨fs, block, rfl⟩, _, _, ⟨mem, stored, rfl, rfl⟩, _,
      _, ⟨fs', release, rfl⟩, rfl, rfl⟩
    exact ⟨_, ⟨_, _, ⟨⟨bn, data⟩, fs, block, (), fs', release, rfl, rfl⟩, rfl,
      rfl⟩, stored, congrArg UInt32.ofNat (flatten_entries_length _ _).symm⟩
  · rintro ⟨_, ⟨_, _, ⟨⟨bn, data⟩, fs, block, _, _, release, rfl, rfl⟩, rfl,
      rfl⟩, stored, rfl⟩
    exact ⟨⟨bn, data⟩, _, ⟨fs, block, rfl⟩, _, _, ⟨_, stored, rfl, rfl⟩, (), _,
      ⟨_, release, rfl⟩, congrArg UInt32.ofNat
        (flatten_entries_length _ _).symm, rfl⟩

/-! ## Writes -/

/-- A program does what a program of the file system does, and leaves memory as
it is. -/
def Lifts {α : Type} (call : IoM α) (source : FsM α) : Prop :=
  ∀ machine value machine', call.Runs machine value machine' ↔
    ∃ fs, source.Runs machine.fs value fs ∧ machine' = ⟨fs, machine.mem⟩

namespace Lifts

variable {α β : Type} {call call' : IoM α} {source source' : FsM α}

theorem onFs (program : FsM α) : Lifts (Io.onFs program) program :=
  fun _ _ _ => runs_onFs

theorem pure (value : α) : Lifts (pure value) (pure value) := by
  intro machine result machine'
  simp only [Program.runs_pure]
  constructor
  · rintro ⟨rfl, rfl⟩
    exact ⟨_, ⟨rfl, rfl⟩, rfl⟩
  · rintro ⟨_, ⟨rfl, rfl⟩, rfl⟩
    exact ⟨rfl, rfl⟩

theorem bind
    {next : α → IoM β} {nextSource : α → FsM β} (lifts : Lifts call source)
    (rest : ∀ value, Lifts (next value) (nextSource value)) :
    Lifts (call >>= next) (source >>= nextSource) := by
  intro machine result machine'
  simp only [Program.runs_bind]
  constructor
  · rintro ⟨value, middle, run, run'⟩
    obtain ⟨fs, first, rfl⟩ := (lifts _ _ _).mp run
    obtain ⟨fs', second, rfl⟩ := (rest _ _ _ _).mp run'
    exact ⟨fs', ⟨value, fs, first, second⟩, rfl⟩
  · rintro ⟨fs', ⟨value, fs, run, run'⟩, rfl⟩
    exact ⟨value, ⟨fs, machine.mem⟩, (lifts _ _ _).mpr ⟨fs, run, rfl⟩,
      (rest _ _ _ _).mpr ⟨fs', run', rfl⟩⟩

theorem assert (condition : Bool) (message : String) :
    Lifts (Program.assert condition message)
      (Program.assert condition message) := by
  cases condition with
  | true => exact .pure ()
  | false =>
      intro machine value machine'
      constructor
      · intro run
        exact absurd run Program.runs_panic
      · rintro ⟨_, run, _⟩
        exact absurd run Program.runs_panic

theorem ite
    (condition : Prop) [Decidable condition] (lifts : Lifts call source)
    (lifts' : Lifts call' source') :
    Lifts (if condition then call else call')
      (if condition then source else source') := by
  by_cases holds : condition
  · rw [if_pos holds, if_pos holds]
    exact lifts
  · rw [if_neg holds, if_neg holds]
    exact lifts'

end Lifts

section Writes

variable {mem mem' : Mem.State}

/-- The byte that the kernel loads from an address. -/
def loaded (mem : Mem.State) (va : UInt64) : UInt8 :=
  match kernelByte mem pteR va with
  | some pa => mem.bytes pa.toNat
  | none => 0

theorem loaded_eq
    {va pa : UInt64} (reached : kernelByte mem pteR va = some pa) :
    loaded mem va = mem.bytes pa.toNat := by
  unfold loaded
  rw [reached]

theorem runs_loadBytes {count : Nat} {piece : List UInt8} :
    (loadBytes src count).Runs mem piece mem' ↔
      (∀ index < count,
        kernelByte mem pteR (src + UInt64.ofNat index) ≠ none) ∧
      piece = (List.range count).map
        (fun index => loaded mem (src + UInt64.ofNat index)) ∧
      mem' = mem := by
  induction count generalizing src piece mem mem' with
  | zero =>
      unfold loadBytes
      simp only [Program.runs_pure]
      constructor
      · rintro ⟨rfl, rfl⟩
        exact ⟨fun _ none => absurd none (Nat.not_lt_zero _), rfl, rfl⟩
      · rintro ⟨_, rfl, rfl⟩
        exact ⟨rfl, rfl⟩
  | succ count inductionHypothesis =>
      have first : src + UInt64.ofNat 0 = src := UInt64.add_zero src
      have next : ∀ index, src + 1 + UInt64.ofNat index =
          src + UInt64.ofNat (index + 1) := fun index => by
        rw [Nat.add_comm, ← Mem.ofNat_add_assoc]
        rfl
      have split : (List.range (count + 1)).map
          (fun index => loaded mem (src + UInt64.ofNat index)) =
          loaded mem src :: (List.range count).map
            (fun index => loaded mem (src + 1 + UInt64.ofNat index)) := by
        rw [List.range_succ_eq_map, List.map_cons, List.map_map, first]
        refine congrArg _ (List.map_congr_left fun index _ => ?_)
        rw [next]
        rfl
      unfold loadBytes
      simp only [Program.runs_bind, runs_loadByte, inductionHypothesis,
        Program.runs_pure, split]
      constructor
      · rintro ⟨_, _, ⟨pa, reached, rfl, rfl⟩, _, _, ⟨rest, rfl, rfl⟩, rfl,
          rfl⟩
        refine ⟨fun index bound => ?_, by rw [← loaded_eq reached], rfl⟩
        cases index with
        | zero =>
            rw [first, reached]
            exact Option.some_ne_none pa
        | succ index =>
            rw [← next]
            exact rest index (Nat.lt_of_succ_lt_succ bound)
      · rintro ⟨all, rfl, rfl⟩
        have here := all 0 (Nat.succ_pos count)
        rw [first] at here
        obtain ⟨pa, reached⟩ := Option.ne_none_iff_exists'.mp here
        refine ⟨_, _, ⟨pa, reached, rfl, rfl⟩, _, _,
          ⟨fun index bound => ?_, rfl, rfl⟩, by rw [loaded_eq reached], rfl⟩
        rw [next]
        exact all (index + 1) (Nat.succ_lt_succ bound)

theorem getD_map_range
    {count index : Nat} (value : Nat → UInt8) (bound : index < count) :
    ((List.range count).map value).getD index 0 = value index := by
  rw [List.getD_eq_getElem?_getD, List.getElem?_map, List.getElem?_range bound]
  rfl

/-- The loop of a write writes the bytes that the kernel loads. -/
theorem writeLoop_loads
    {result : UInt32 × UInt32} (enough : len.toNat - total.toNat ≤ fuel) :
    (writeLoop ip offset len total src user fuel).Runs machine result
        machine' ↔
      (∀ index < len.toNat - total.toNat, kernelByte machine.mem pteR
        (src + total.toUInt64 + UInt64.ofNat index) ≠ none) ∧
      ∃ fs, (Fs.writeLoop ip offset len total
          (fun index => loaded machine.mem (src + UInt64.ofNat index))
          fuel).Runs machine.fs result fs ∧
        machine' = ⟨fs, machine.mem⟩ := by
  induction fuel generalizing offset total machine with
  | zero =>
      rw [Nat.le_zero.mp enough]
      exact (Lifts.pure (offset, total) machine result machine').trans
        (and_iff_right fun _ none => absurd none (Nat.not_lt_zero _)).symm
  | succ fuel inductionHypothesis =>
      unfold writeLoop Fs.writeLoop
      by_cases more : total < len
      · obtain ⟨some, within, isNext⟩ := Fs.pieceLength_bounds offset more
        obtain ⟨nextAddress, _⟩ := after_piece src isNext
        have rest : len.toNat -
            (total + Fs.pieceLength offset len total).toNat ≤ fuel := by
          omega
        have piece : ∀ (mem : Mem.State) (data : Block) (start : Nat),
            Bytes.memmove data start
              (fun index => ((List.range
                (Fs.pieceLength offset len total).toNat).map fun index =>
                  loaded mem (src + total.toUInt64 +
                    UInt64.ofNat index)).getD index 0)
              (Fs.pieceLength offset len total).toNat =
            Bytes.memmove data start
              (fun index => loaded mem
                (src + UInt64.ofNat (total.toNat + index)))
              (Fs.pieceLength offset len total).toNat := by
          intro mem data start
          refine Bytes.memmove_congr fun index bound => ?_
          rw [getD_map_range _ bound, Mem.toUInt64_eq_ofNat,
            Mem.ofNat_add_assoc]
        simp only [if_pos more, Program.runs_bind, runs_onFs, runs_copyFrom,
          runs_loadBytes, inductionHypothesis rest]
        constructor
        · rintro ⟨bn, _, ⟨one, locate, rfl⟩, data, _, ⟨two, read, rfl⟩, _, _,
            ⟨_, ⟨here, isPiece, rfl⟩, rfl⟩, _, _, ⟨three, write, rfl⟩, _, _,
            ⟨four, release, rfl⟩, later, fs, run, rfl⟩
          rw [isPiece, piece] at write
          refine ⟨fun index bound => ?_, fs, ⟨bn, one, locate, data, two, read,
            (), three, write, (), four, release, run⟩, rfl⟩
          by_cases first :
              index < (Fs.pieceLength offset len total).toNat
          · exact here index first
          · have isLater := later
              (index - (Fs.pieceLength offset len total).toNat) (by omega)
            rwa [← nextAddress, Mem.ofNat_add_assoc,
              Nat.add_sub_of_le (Nat.le_of_not_lt first)] at isLater
        · rintro ⟨all, fs, ⟨bn, one, locate, data, two, read, _, three, write,
            _, four, release, run⟩, rfl⟩
          rw [← piece] at write
          refine ⟨bn, _, ⟨one, locate, rfl⟩, data, _, ⟨two, read, rfl⟩, _, _,
            ⟨_, ⟨fun index bound => all index (by omega), rfl, rfl⟩, rfl⟩, (),
            _, ⟨three, write, rfl⟩, (), _, ⟨four, release, rfl⟩,
            fun index bound => ?_, fs, run, rfl⟩
          have later := all
            ((Fs.pieceLength offset len total).toNat + index) (by omega)
          rwa [← Mem.ofNat_add_assoc, nextAddress] at later
      · have none : len.toNat - total.toNat = 0 :=
          Nat.sub_eq_zero_of_le (Nat.le_of_not_lt fun less =>
            more (UInt32.lt_iff_toNat_lt.mpr less))
        rw [none]
        simp only [if_neg more]
        exact (Lifts.pure (offset, total) machine result machine').trans
          (and_iff_right fun _ none => absurd none (Nat.not_lt_zero _)).symm

/-- A write takes the bytes that the kernel loads, unless it is refused. -/
theorem inodeWriteData_loads {n : UInt32} :
    (inodeWriteData ip offset len src user).Runs machine n machine' ↔
      ((machine.fs.icache ip).slk = true →
        (offset + len).toNat ≤ Fs.inodeMaxSize → ∀ index < len.toNat,
          kernelByte machine.mem pteR (src + UInt64.ofNat index) ≠ none) ∧
      ∃ fs, (Fs.inodeWriteData ip offset len
          fun index => loaded machine.mem (src + UInt64.ofNat index)).Runs
            machine.fs n fs ∧
        machine' = ⟨fs, machine.mem⟩ := by
  have zero : src + (0 : UInt32).toUInt64 = src := UInt64.add_zero src
  have finish : ∀ result : UInt32 × UInt32, Lifts
      (do
        let inode ← onFs (Fs.getInode ip)
        if result.1 > inode.data.size then
          onFs (Fs.modifyData ip fun dinode => dinode.setSize result.1)
          onFs (Fs.inodeRw ip true)
          return result.2
        else
          return result.2)
      (do
        let inode ← Fs.getInode ip
        if result.1 > inode.data.size then
          Fs.modifyData ip fun dinode => dinode.setSize result.1
          Fs.inodeRw ip true
          return result.2
        else
          return result.2) := fun result =>
    .bind (.onFs _) fun inode => .ite _ (.bind (.onFs _) fun _ =>
      .bind (.onFs _) fun _ => .pure _) (.pure _)
  unfold inodeWriteData Fs.inodeWriteData
  by_cases refused : (offset + len).toNat > Fs.inodeMaxSize
  · simp only [if_pos refused]
    have lifts : Lifts
        (do
          let inode ← onFs (Fs.getInode ip)
          Program.assert inode.slk "inode_write_data: no lock"
          return (0 : UInt32))
        (do
          let inode ← Fs.getInode ip
          Program.assert inode.slk "inode_write_data: no lock"
          return 0) :=
      .bind (.onFs _) fun inode => .bind (.assert _ _) fun _ => .pure _
    exact (lifts machine n machine').trans
      (and_iff_right fun _ allowed => absurd allowed (by omega)).symm
  · have fits : (offset + len).toNat ≤ Fs.inodeMaxSize := Nat.le_of_not_lt refused
    simp only [if_neg refused]
    rw [Program.runs_bind]
    constructor
    · rintro ⟨inode, _, getInode, run⟩
      obtain ⟨fs, got, rfl⟩ := runs_onFs.mp getInode
      obtain ⟨rfl, rfl⟩ := Fs.runs_getInode.mp got
      obtain ⟨_, _, assert, run⟩ := Program.runs_bind.mp run
      obtain ⟨locked, rfl⟩ := Program.runs_assert.mp assert
      obtain ⟨result, middle, loop, tail⟩ := Program.runs_bind.mp run
      obtain ⟨reached, fs, writes, rfl⟩ :=
        (writeLoop_loads (Nat.sub_le _ _)).mp loop
      obtain ⟨fs', ends, rfl⟩ := (finish result _ _ _).mp tail
      rw [zero] at reached
      exact ⟨fun _ _ => reached, fs', Program.runs_bind.mpr ⟨_, _,
        Fs.runs_getInode.mpr ⟨rfl, rfl⟩, Program.runs_bind.mpr ⟨(), _,
          Program.runs_assert.mpr ⟨locked, rfl⟩, Program.runs_bind.mpr
            ⟨result, fs, writes, ends⟩⟩⟩, rfl⟩
    · rintro ⟨reached, fs', run, rfl⟩
      obtain ⟨inode, _, getInode, run⟩ := Program.runs_bind.mp run
      obtain ⟨rfl, rfl⟩ := Fs.runs_getInode.mp getInode
      obtain ⟨_, _, assert, run⟩ := Program.runs_bind.mp run
      obtain ⟨locked, rfl⟩ := Program.runs_assert.mp assert
      obtain ⟨result, fs, writes, ends⟩ := Program.runs_bind.mp run
      have loop := (@writeLoop_loads machine ⟨fs, machine.mem⟩ user src ip
        offset len 0 len.toNat result (Nat.sub_le _ _)).mpr
          ⟨by rw [zero]; exact reached locked fits, fs, writes, rfl⟩
      have tail := (finish result ⟨fs, machine.mem⟩ n
        ⟨fs', machine.mem⟩).mpr ⟨fs', ends, rfl⟩
      exact ⟨_, machine, runs_onFs.mpr ⟨_, Fs.runs_getInode.mpr ⟨rfl, rfl⟩,
        rfl⟩, Program.runs_bind.mpr ⟨(), machine,
          Program.runs_assert.mpr ⟨locked, rfl⟩,
          Program.runs_bind.mpr ⟨result, _, loop, tail⟩⟩⟩

end Writes

end Io
end WhuOs
