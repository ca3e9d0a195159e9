import WhuOs.Mem.UserCopies

/-!
# Copies and the permissions of pages

The copies between the kernel and a process ask for valid entries and for
nothing else, so they also use the pages that a process may not access.
-/

namespace WhuOs
namespace Mem

open Library
open Library.Bytes
open Program (Runs)

variable {ρ : Type} {root : ρ → UInt64} {r : ρ} {mem mem' : State}
  {free : Bool → List UInt64} {va : UInt64}

/-! ## Strings -/

/-- The byte loop of a string copies the bytes that it reads. -/
theorem copyStrBytes_bytes (count : Nat) (dst src : UInt64) (bytes : Bytes) :
    (copyStrBytes count dst src bytes).1 =
      copyBytes (copyStrBytes count dst src bytes).2.1 dst src bytes := by
  induction count generalizing dst src bytes with
  | zero => rfl
  | succ count inductionHypothesis =>
      unfold copyStrBytes
      dsimp only
      split
      · rfl
      · exact inductionHypothesis _ _ _

/-- A turn of a string: the number of bytes and whether the end was found. -/
def strTurn (bytes : Bytes) (root va dst : UInt64) (maxlen copied : UInt32) :
    Nat × Bool :=
  (copyStrBytes (bytesToCopy va maxlen copied).toNat dst
    (pteToPa (pteAt bytes root va) + (va &&& 4095)) bytes).2

section StrLoop

variable {maxlen copied : UInt32} {dst : UInt64} {fuel : Nat}
  {trace : List Transfer}

/-- One turn of the loop of `uvm_copyin_str`. -/
theorem copyStrLoop_turn
    (tables : Tables mem.bytes root free) (present : root r ≠ 0)
    (more : copied < maxlen) {count : UInt32} {ended : Bool}
    (turn : strTurn mem.bytes (root r) va dst maxlen copied =
      (count.toNat, ended)) :
    (copyStrLoop (root r) maxlen (fuel + 1) va dst copied).Runs mem trace
        mem' ↔
      IsMapped mem.bytes (root r) va ∧ ∃ rest,
        trace = ⟨va, pteAt mem.bytes (root r) va, count⟩ :: rest ∧
        (if ended then return [] else copyStrLoop (root r) maxlen fuel
            (va + count.toUInt64) (dst + count.toUInt64)
            (copied + count) : MemM (List Transfer)).Runs
          (mem.setBytes (turnBytes false mem.bytes (root r) va dst
            count.toNat)) rest mem' := by
  have copies : copyStrBytes (bytesToCopy va maxlen copied).toNat dst
      (pteToPa (pteAt mem.bytes (root r) va) + (va &&& 4095)) mem.bytes =
      (turnBytes false mem.bytes (root r) va dst count.toNat, count.toNat,
        ended) := by
    unfold strTurn at turn
    refine Prod.ext ?_ turn
    rw [copyStrBytes_bytes, turn]
    rfl
  rw [copyStrLoop, if_pos more, lookup_checked tables present]
  refine and_congr_right fun _ => ?_
  simp only [Program.runs_bind, Program.runs_get]
  constructor
  · rintro ⟨_, _, ⟨rfl, rfl⟩, run⟩
    simp only [copies, UInt32.ofNat_toNat] at run
    obtain ⟨_, _, changed, run⟩ := run
    obtain rfl := Program.runs_modify.mp changed
    cases ended with
    | true =>
        obtain ⟨rfl, rfl⟩ := Program.runs_pure.mp run
        exact ⟨[], rfl, Program.runs_pure.mpr ⟨rfl, rfl⟩⟩
    | false =>
        rw [if_neg Bool.false_ne_true] at run
        obtain ⟨rest, _, others, after⟩ := Program.runs_bind.mp run
        obtain ⟨rfl, rfl⟩ := Program.runs_pure.mp after
        exact ⟨rest, rfl, others⟩
  · rintro ⟨rest, rfl, run⟩
    refine ⟨mem, mem, ⟨rfl, rfl⟩, ?_⟩
    simp only [copies, UInt32.ofNat_toNat]
    refine ⟨(), _, Program.runs_modify.mpr rfl, ?_⟩
    cases ended with
    | true =>
        obtain ⟨rfl, rfl⟩ := Program.runs_pure.mp run
        exact Program.runs_pure.mpr ⟨rfl, rfl⟩
    | false =>
        rw [if_neg Bool.false_ne_true] at run ⊢
        exact Program.runs_bind.mpr
          ⟨rest, mem', run, Program.runs_pure.mpr ⟨rfl, rfl⟩⟩

/-- A byte of a process. -/
def byteOf (bytes : Bytes) (root va : UInt64) (index : Nat) : UInt8 :=
  bytes (physical bytes root (va + UInt64.ofNat index))

/-- What a turn of a string has read. -/
structure StrTurn (bytes : Bytes) (root va : UInt64) (limit count : Nat)
    (ended : Bool) : Prop where
  some : 0 < count
  bound : count ≤ limit
  whole : ended = false → count = limit
  proper : ∀ index < count, ended = false ∨ index + 1 < count →
    byteOf bytes root va index ≠ 0
  last : ended = true → ∃ last, count = last + 1 ∧ byteOf bytes root va last = 0

/-- A turn of a string whose target is apart from its bytes. -/
theorem exists_strTurn
    {bytes : Bytes} {root : UInt64} (low : va < vaMax) (more : copied < maxlen)
    (room : dst.toNat + (maxlen.toNat - copied.toNat) ≤ 2 ^ 64)
    (apart : ∀ index < (bytesToCopy va maxlen copied).toNat,
      ∀ other < (bytesToCopy va maxlen copied).toNat,
      physical bytes root (va + UInt64.ofNat other) ≠ dst.toNat + index) :
    ∃ count : UInt32, ∃ ended,
      strTurn bytes root va dst maxlen copied = (count.toNat, ended) ∧
      StrTurn bytes root va (bytesToCopy va maxlen copied).toNat count.toNat
        ended := by
  obtain ⟨some, fits, inside⟩ := bytesToCopy_toNat va more
  obtain ⟨isPa, paRoom⟩ := pa_toNat bytes root va
  have sizes := (bytesToCopy va maxlen copied).toNat_lt
  unfold strTurn
  generalize (bytesToCopy va maxlen copied).toNat = limit at *
  have users : ∀ index < limit, physical bytes root (va + UInt64.ofNat index) =
      (pteToPa (pteAt bytes root va) + (va &&& 4095)).toNat + index := by
    intro index bound
    rw [(physical_in_page bytes root low (by omega)).1, isPa]
  have disjoint := ranges_apart fun index bound other bound' same => by
    refine apart index bound other bound' ?_
    rw [users other bound']
    exact same.symm
  obtain ⟨some', bound, whole, _, proper, last⟩ := copyStrBytes_copied
    (by omega) (by omega) disjoint bytes
  generalize copyStrBytes limit dst
    (pteToPa (pteAt bytes root va) + (va &&& 4095)) bytes = result at *
  have isCount : (UInt32.ofNat result.2.1).toNat = result.2.1 := by
    rw [UInt32.toNat_ofNat']
    omega
  refine ⟨UInt32.ofNat result.2.1, result.2.2, ?_, ?_⟩
  · rw [isCount]
  · rw [isCount]
    refine ⟨some' some, bound, whole, fun index isRead isProper => ?_,
      fun ended => ?_⟩
    · unfold byteOf
      rw [users index (by omega)]
      exact proper index isRead isProper
    · obtain ⟨last, isLast, isNull⟩ := last ended
      refine ⟨last, isLast, ?_⟩
      unfold byteOf
      rw [users last (by omega)]
      exact isNull

/-- A copy of a string whose target is apart from the bytes of the process. -/
structure StrReady (root : ρ → UInt64) (r : ρ) (maxlen : UInt32) (mem : State)
    (free : Bool → List UInt64) (va dst : UInt64) (copied : UInt32) :
    Prop extends CopyReady root r false maxlen mem free va dst copied where
  apart : ∀ index < maxlen.toNat - copied.toNat,
    ∀ other < maxlen.toNat - copied.toNat,
    IsMapped mem.bytes (root r) (va + UInt64.ofNat other) →
    physical mem.bytes (root r) (va + UInt64.ofNat other) ≠ dst.toNat + index

/-- All bytes up to a byte are mapped. -/
def Reached (mem : State) (pgtbl u : UInt64) (index : Nat) : Prop :=
  ∀ other ≤ index, IsMapped mem.bytes pgtbl (u + UInt64.ofNat other)

/-- All bytes up to a byte are mapped, and the string does not end before it. -/
def StrReached (mem : State) (pgtbl u : UInt64) (index : Nat) : Prop :=
  Reached mem pgtbl u index ∧
    ∀ other < index, byteOf mem.bytes pgtbl u other ≠ 0

/-- The bytes that are reached after the first ones. -/
theorem SameTables.reached_iff
    {bytes : Bytes} {count : Nat}
    (same : SameTables root free mem.bytes bytes)
    (isMapped : IsMapped mem.bytes (root r) va)
    (inside : va.toNat % 4096 + count ≤ 4096) (index : Nat) :
    Reached (mem.setBytes bytes) (root r) (va + UInt64.ofNat count) index ↔
      Reached mem (root r) va (count + index) := by
  have later : ∀ other, IsMapped (mem.setBytes bytes).bytes (root r)
      (va + UInt64.ofNat count + UInt64.ofNat other) ↔
      IsMapped mem.bytes (root r) (va + UInt64.ofNat (count + other)) := by
    intro other
    rw [State.setBytes_bytes, same.isMapped_iff, ofNat_add_assoc]
  constructor
  · intro reached other atMost
    by_cases isFirst : other < count
    · exact (physical_in_page mem.bytes (root r) isMapped.1 (by omega)).2.mpr
        isMapped
    · obtain ⟨rest, rfl⟩ := Nat.exists_eq_add_of_le (Nat.not_lt.mp isFirst)
      exact (later rest).mp (reached rest (by omega))
  · intro reached other atMost
    exact (later other).mpr (reached _ (by omega))

variable (ready : StrReady root r maxlen mem free va dst copied)
  (present : root r ≠ 0)

include ready

/-- The next turn of a string. -/
theorem StrReady.exists_turn
    (more : copied < maxlen) (isMapped : IsMapped mem.bytes (root r) va) :
    ∃ count : UInt32, ∃ ended,
      strTurn mem.bytes (root r) va dst maxlen copied = (count.toNat, ended) ∧
      StrTurn mem.bytes (root r) va (bytesToCopy va maxlen copied).toNat
        count.toNat ended := by
  obtain ⟨_, fits, inside⟩ := bytesToCopy_toNat va more
  refine exists_strTurn isMapped.1 more ready.room
    fun index bound other bound' => ready.apart index (by omega) other
      (by omega) ?_
  exact (physical_in_page mem.bytes (root r) isMapped.1 (by omega)).2.mpr
    isMapped

/-- A string is ready for the turn after a turn without its end, and the bytes
that are left are still those of the process. -/
theorem StrReady.turn
    (more : copied < maxlen) (isMapped : IsMapped mem.bytes (root r) va) :
    SameTables root free mem.bytes (turnBytes false mem.bytes (root r) va dst
        (bytesToCopy va maxlen copied).toNat) ∧
      StrReady root r maxlen (mem.setBytes (turnBytes false mem.bytes (root r)
          va dst (bytesToCopy va maxlen copied).toNat)) free
        (va + (bytesToCopy va maxlen copied).toUInt64)
        (dst + (bytesToCopy va maxlen copied).toUInt64)
        (copied + bytesToCopy va maxlen copied) ∧
      ∀ index, (bytesToCopy va maxlen copied).toNat + index <
          maxlen.toNat - copied.toNat →
        IsMapped mem.bytes (root r) (va +
          UInt64.ofNat ((bytesToCopy va maxlen copied).toNat + index)) →
        byteOf (turnBytes false mem.bytes (root r) va dst
            (bytesToCopy va maxlen copied).toNat) (root r)
          (va + (bytesToCopy va maxlen copied).toUInt64) index =
        byteOf mem.bytes (root r) va
          ((bytesToCopy va maxlen copied).toNat + index) := by
  obtain ⟨same, ready'⟩ := ready.toCopyReady.turn more isMapped
  obtain ⟨_, fits, inside⟩ := bytesToCopy_toNat va more
  obtain ⟨_, left⟩ := left_after va more
  have room := ready.room
  rw [toUInt64_eq_ofNat] at ready' ⊢
  generalize bytesToCopy va maxlen copied = size at *
  have next : (dst + UInt64.ofNat size.toNat).toNat = dst.toNat + size.toNat ∨
      maxlen.toNat - copied.toNat = size.toNat := by
    rw [UInt64.toNat_add, UInt64.toNat_ofNat']
    omega
  refine ⟨same, ⟨ready', fun index bound other bound' mapped => ?_⟩,
    fun index bound mapped => ?_⟩
  · rw [left] at bound bound'
    rw [State.setBytes_bytes, same.isMapped_iff, ofNat_add_assoc] at mapped
    rw [State.setBytes_bytes, same.physical_eq, ofNat_add_assoc,
      next.resolve_right (by omega), Nat.add_assoc]
    exact ready.apart _ (by omega) _ (by omega) mapped
  · unfold byteOf
    rw [same.physical_eq, ofNat_add_assoc]
    refine turnBytes_others isMapped.1 inside (by omega) fun other bound' => ?_
    exact (ready.apart other (by omega) _ bound mapped).symm

include present

/-- Every turn of `uvm_copyin_str` starts at a byte that is reached. -/
theorem copyStrLoop_reached
    (run : (copyStrLoop (root r) maxlen fuel va dst copied).Runs mem trace mem') :
    ∀ transfer ∈ trace, ∃ first < maxlen.toNat - copied.toNat,
      StrReached mem (root r) va first ∧
      transfer.pte = pteAt mem.bytes (root r) (va + UInt64.ofNat first) := by
  induction fuel generalizing mem va dst copied trace with
  | zero =>
      obtain ⟨rfl, _⟩ := Program.runs_pure.mp run
      nofun
  | succ fuel inductionHypothesis =>
      by_cases more : copied < maxlen
      · obtain ⟨some, fits, inside⟩ := bytesToCopy_toNat va more
        obtain ⟨_, left⟩ := left_after va more
        have isMapped : IsMapped mem.bytes (root r) va := by
          rw [copyStrLoop, if_pos more, lookup_checked ready.tables present]
            at run
          exact run.1
        obtain ⟨count, ended, isTurn, turn⟩ := ready.exists_turn more isMapped
        rw [copyStrLoop_turn ready.tables present more isTurn] at run
        obtain ⟨_, rest, rfl, run⟩ := run
        intro transfer member
        rcases List.mem_cons.mp member with rfl | later
        · have zero : va + UInt64.ofNat 0 = va := UInt64.add_zero va
          refine ⟨0, by omega, ⟨fun other atMost => ?_, nofun⟩, ?_⟩
          · rw [Nat.le_zero.mp atMost, zero]
            exact isMapped
          · rw [zero]
        · cases ended with
          | true =>
              obtain ⟨rfl, _⟩ := Program.runs_pure.mp run
              cases later
          | false =>
              have isWhole := UInt32.toNat_inj.mp (turn.whole rfl)
              rw [isWhole] at run turn
              obtain ⟨same, ready', kept⟩ := ready.turn more isMapped
              obtain ⟨first, bound, ⟨reached, proper⟩, isPte⟩ :=
                inductionHypothesis ready' run transfer later
              rw [State.setBytes_bytes] at proper isPte
              rw [toUInt64_eq_ofNat] at reached isPte
              rw [same.reached_iff isMapped inside] at reached
              rw [left] at bound
              refine ⟨(bytesToCopy va maxlen copied).toNat + first, by omega,
                ⟨reached, fun other before => ?_⟩, ?_⟩
              · by_cases isFirst : other < (bytesToCopy va maxlen copied).toNat
                · exact turn.proper other isFirst (Or.inl rfl)
                · obtain ⟨rest, rfl⟩ :=
                    Nat.exists_eq_add_of_le (Nat.not_lt.mp isFirst)
                  rw [← kept rest (by omega) (reached _ (by omega))]
                  exact proper rest (by omega)
              · rw [isPte, same.ptes, ofNat_add_assoc]
      · rw [copyStrLoop, if_neg more] at run
        split at run
        · obtain ⟨_, _, _, run⟩ := Program.runs_bind.mp run
          obtain ⟨rfl, _⟩ := Program.runs_pure.mp run
          nofun
        · obtain ⟨rfl, _⟩ := Program.runs_pure.mp run
          nofun

/-- Some number of turns of `uvm_copyin_str` gets to a byte that is reached. -/
theorem copyStrLoop_reaches
    {index : Nat} (bound : index < maxlen.toNat - copied.toNat)
    (reached : StrReached mem (root r) va index) :
    ∃ fuel trace mem',
      (copyStrLoop (root r) maxlen fuel va dst copied).Runs mem trace mem' ∧
      ∃ transfer ∈ trace, transfer.pte =
        pteAt mem.bytes (root r) (va + UInt64.ofNat index) := by
  induction index using Nat.strong_induction_on generalizing mem va dst
    copied with
  | h index inductionHypothesis =>
      have more : copied < maxlen := by
        rw [UInt32.lt_iff_toNat_lt]
        omega
      obtain ⟨some, fits, inside⟩ := bytesToCopy_toNat va more
      obtain ⟨_, left⟩ := left_after va more
      have isMapped := reached.1 0 (Nat.zero_le index)
      rw [show UInt64.ofNat 0 = 0 from rfl, UInt64.add_zero] at isMapped
      obtain ⟨count, ended, isTurn, turn⟩ := ready.exists_turn more isMapped
      have atMost := turn.bound
      by_cases isFirst : index < count.toNat
      · refine ⟨1, _, mem.setBytes (turnBytes false mem.bytes (root r) va dst
          count.toNat), (copyStrLoop_turn ready.tables present more isTurn).mpr
            ⟨isMapped, [], rfl, ?_⟩, _, List.mem_cons_self, ?_⟩
        · cases ended <;> exact Program.runs_pure.mpr ⟨rfl, rfl⟩
        · exact pteAt_congr (pageOf_in_page isMapped.1 (by omega)).symm
      · cases ended with
        | true =>
            obtain ⟨last, isLast, isNull⟩ := turn.last rfl
            exact absurd isNull (reached.2 last (by omega))
        | false =>
            have isWhole := UInt32.toNat_inj.mp (turn.whole rfl)
            rw [isWhole] at isTurn isFirst
            obtain ⟨rest, rfl⟩ :=
              Nat.exists_eq_add_of_le (Nat.not_lt.mp isFirst)
            obtain ⟨same, ready', kept⟩ := ready.turn more isMapped
            obtain ⟨fuel, trace, mem', run, transfer, member, isPte⟩ :=
              inductionHypothesis rest (by omega) ready' (by omega) (by
                rw [toUInt64_eq_ofNat]
                refine ⟨(same.reached_iff isMapped inside rest).mpr reached.1,
                  fun other before => ?_⟩
                rw [State.setBytes_bytes, ← toUInt64_eq_ofNat,
                  kept other (by omega) (reached.1 _ (by omega))]
                exact reached.2 _ (by omega))
            refine ⟨fuel + 1, _, mem', (copyStrLoop_turn ready.tables present
              more isTurn).mpr ⟨isMapped, trace, rfl, run⟩, transfer,
              List.mem_cons_of_mem _ member, ?_⟩
            rw [isPte, State.setBytes_bytes, same.ptes, toUInt64_eq_ofNat,
              ofNat_add_assoc]

end StrLoop

/-! ## Flags of the entries -/

/-- An entry has all of some flags. -/
def HasFlags (flags pte : UInt64) : Prop := pte &&& flags = flags

instance (flags pte : UInt64) : Decidable (HasFlags flags pte) :=
  inferInstanceAs (Decidable (pte &&& flags = flags))

/-- Each turn of a copy goes through a valid entry with some flags, for any
number of turns before the copy ends or panics. -/
def Respects (flags : UInt64) (turns : Nat → MemM (List Transfer))
    (mem : State) : Prop :=
  ∀ fuel trace mem', (turns fuel).Runs mem trace mem' → ∀ transfer ∈ trace,
    isValid transfer.pte = true ∧ HasFlags flags transfer.pte

/-- The first turns of `uvm_copyin`. -/
def copyinTurns (pgtbl dst src : UInt64) (len : UInt32) (fuel : Nat) :
    MemM (List Transfer) :=
  copyLoop "uvm_copyin: invalid virtual address" false pgtbl len fuel src dst 0

/-- The first turns of `uvm_copyout`. -/
def copyoutTurns (pgtbl dst src : UInt64) (len : UInt32) (fuel : Nat) :
    MemM (List Transfer) :=
  copyLoop "uvm_copyout: invalid virtual address" true pgtbl len fuel dst src 0

/-- The first turns of `uvm_copyin_str`. -/
def copyinStrTurns (pgtbl dst src : UInt64) (maxlen : UInt32) (fuel : Nat) :
    MemM (List Transfer) :=
  if maxlen = 0 then
    return []
  else
    copyStrLoop pgtbl maxlen fuel src dst 0

/-- The copies are all of their turns. -/
theorem copies_eq_turns (pgtbl dst src : UInt64) (len : UInt32) :
    uvmCopyin pgtbl dst src len = copyinTurns pgtbl dst src len len.toNat ∧
      uvmCopyout pgtbl dst src len = copyoutTurns pgtbl dst src len len.toNat ∧
      uvmCopyinStr pgtbl dst src len =
        copyinStrTurns pgtbl dst src len (len.toNat + 1) :=
  ⟨uvmCopyin_eq pgtbl src dst len, uvmCopyout_eq pgtbl dst src len, rfl⟩

section Flags

variable {u k : UInt64} {len : UInt32} {flags : UInt64}

/-- A copy whose turns start at the bytes that it reaches. -/
theorem respects_iff
    {turns : Nat → MemM (List Transfer)} {pgtbl : UInt64} {total : Nat}
    {reached : Nat → Prop}
    (isReached : ∀ fuel trace mem', (turns fuel).Runs mem trace mem' →
      ∀ transfer ∈ trace, ∃ index < total, reached index ∧
        transfer.pte = pteAt mem.bytes pgtbl (u + UInt64.ofNat index))
    (reaches : ∀ index < total, reached index → ∃ fuel trace mem',
      (turns fuel).Runs mem trace mem' ∧ ∃ transfer ∈ trace,
        transfer.pte = pteAt mem.bytes pgtbl (u + UInt64.ofNat index))
    (mapped : ∀ index, reached index →
      IsMapped mem.bytes pgtbl (u + UInt64.ofNat index)) :
    Respects flags turns mem ↔ ∀ index < total, reached index →
      HasFlags flags (pteAt mem.bytes pgtbl (u + UInt64.ofNat index)) := by
  constructor
  · intro respects index bound isAt
    obtain ⟨fuel, trace, mem', run, transfer, member, isPte⟩ :=
      reaches index bound isAt
    rw [← isPte]
    exact (respects fuel trace mem' run transfer member).2
  · intro permitted fuel trace mem' run transfer member
    obtain ⟨index, bound, isAt, isPte⟩ :=
      isReached fuel trace mem' run transfer member
    rw [isPte]
    exact ⟨(mapped index isAt).2, permitted index bound isAt⟩

theorem copyLoop_respects_iff
    {message : String} {out : Bool}
    (ready : CopyReady root r out len mem free u k 0) (present : root r ≠ 0) :
    Respects flags (fun fuel => copyLoop message out (root r) len fuel u k 0)
        mem ↔
      ∀ index < len.toNat, Reached mem (root r) u index →
        HasFlags flags (pteAt mem.bytes (root r) (u + UInt64.ofNat index)) := by
  refine respects_iff (fun fuel trace mem' run transfer member => ?_)
    (fun index bound reached => copyLoop_reaches ready present bound reached)
    fun index reached => reached index (Nat.le_refl index)
  obtain ⟨moved, turns, _⟩ := copyLoop_turns ready present run
  obtain ⟨first, last, some, isVa, isPte⟩ := turns.transfers transfer member
  have bound : moved ≤ len.toNat := turns.bound
  refine ⟨first, by omega, fun other atMost => turns.mapped other (by omega),
    ?_⟩
  rw [isPte, isVa]

theorem copyinStr_respects_iff
    (ready : StrReady root r len mem free u k 0) (present : root r ≠ 0) :
    Respects flags (copyinStrTurns (root r) k u len) mem ↔
      ∀ index < len.toNat, StrReached mem (root r) u index →
        HasFlags flags (pteAt mem.bytes (root r) (u + UInt64.ofNat index)) := by
  by_cases none : len = 0
  · refine ⟨fun _ index bound => ?_, fun _ fuel trace mem' run => ?_⟩
    · rw [none] at bound
      exact absurd bound (Nat.not_lt_zero index)
    · unfold copyinStrTurns at run
      rw [if_pos none] at run
      obtain ⟨rfl, _⟩ := Program.runs_pure.mp run
      nofun
  · have turns : copyinStrTurns (root r) k u len =
        fun fuel => copyStrLoop (root r) len fuel u k 0 :=
      funext fun fuel => if_neg none
    rw [turns]
    exact respects_iff
      (fun fuel trace mem' run => copyStrLoop_reached ready present run)
      (fun index bound reached => copyStrLoop_reaches ready present bound
        reached)
      fun index reached => reached.1 index (Nat.le_refl index)

/-- The copies respect the permissions of a process if and only if the pages
that they reach have them: nothing but `PTE_V` is looked at. -/
theorem copies_respect_iff (present : root r ≠ 0) :
    (CopyReady root r true len mem free u k 0 →
      (Respects (pteU ||| pteW) (copyoutTurns (root r) u k len) mem ↔
        ∀ index < len.toNat, Reached mem (root r) u index →
          HasFlags (pteU ||| pteW)
            (pteAt mem.bytes (root r) (u + UInt64.ofNat index)))) ∧
    (CopyReady root r false len mem free u k 0 →
      (Respects pteU (copyinTurns (root r) k u len) mem ↔
        ∀ index < len.toNat, Reached mem (root r) u index →
          HasFlags pteU
            (pteAt mem.bytes (root r) (u + UInt64.ofNat index)))) ∧
    (StrReady root r len mem free u k 0 →
      (Respects pteU (copyinStrTurns (root r) k u len) mem ↔
        ∀ index < len.toNat, StrReached mem (root r) u index →
          HasFlags pteU
            (pteAt mem.bytes (root r) (u + UInt64.ofNat index)))) :=
  ⟨fun ready => copyLoop_respects_iff ready present,
    fun ready => copyLoop_respects_iff ready present,
    fun ready => copyinStr_respects_iff ready present⟩

end Flags

/-- The copies to and from a page of a process are allowed. -/
theorem copies_respect_iff_onePage :
    ∃ mem, Respects (pteU ||| pteW)
        (copyoutTurns 0x80100000 0x1004 0x80400000 8) mem ∧
      Respects pteU (copyinTurns 0x80100000 0x80400000 0x1004 8) mem ∧
      Respects pteU (copyinStrTurns 0x80100000 0x80400000 0x1004 8) mem := by
  obtain ⟨mem, free, onePage⟩ := OnePage.of_exec 0x1000 (by decide)
    (by decide) (by decide +kernel)
  have tables := onePage.mapped.tables
  have present : twoRoots false ≠ 0 := by decide
  have kernel : (0x80400000 : UInt64).toNat = 0x80400000 := rfl
  have ready := onePage.copyRange.ready tables present
  have isPage : ∀ index < 8, pteAt mem.bytes (twoRoots false)
      (0x1004 + UInt64.ofNat index) = leafPte 0x80300000 userFlags :=
    fun index bound => onePage.mapped.inside 0 Nat.one_pos _
      (pages_onePage index bound).1
  have respects := @copies_respect_iff Bool twoRoots false mem free 0x1004
    0x80400000 8 present
  refine ⟨mem, (respects.1 (ready true)).mpr fun index bound _ => ?_,
    (respects.2.1 (ready false)).mpr fun index bound _ => ?_,
    (respects.2.2 ⟨ready false, fun index bound other bound' _ => ?_⟩).mpr
      fun index bound _ => ?_⟩
  · rw [isPage index bound]
    decide
  · rw [isPage index bound]
    decide
  · rw [onePage.physical_eq bound']
    change index < 8 at bound
    change other < 8 at bound'
    omega
  · rw [isPage index bound]
    decide

/-! ## The pages of a new process -/

/-- The pages that `proc_pgtbl_init` maps: the trampoline and the trapframe. -/
structure NewProcess (mem : State) (free : Bool → List UInt64) : Prop where
  tables : Tables mem.bytes (fun _ : Unit => 0x80100000) free
  trampoline : pteAt mem.bytes 0x80100000 trampolineVa =
    leafPte 0x80001000 (pteR ||| pteX)
  trapframe : pteAt mem.bytes 0x80100000 trapframeVa =
    leafPte 0x80200000 (pteR ||| pteW)
  off : ∀ address, 0x80107000 ≤ address →
    OffTables mem.bytes (fun _ : Unit => 0x80100000) address

theorem exists_newProcess :
    ∃ mem₁ mem free,
      (vmMappages 0x80100000 trampolineVa 0x80001000 4096
        (pteR ||| pteX)).Runs fewPages () mem₁ ∧
      (vmMappages 0x80100000 trapframeVa 0x80200000 4096
        (pteR ||| pteW)).Runs mem₁ () mem ∧
      NewProcess mem free := by
  have enough : Enough fewPages.bytes 0x80100000 fewPagesFree
      (tablesOf trampolineVa 1 ∪ tablesOf trapframeVa 1) := by
    unfold Enough
    decide +kernel
  have along : ∀ level < 2, pathTo trampolineVa level ∈
      tablesOf trampolineVa 1 ∪ tablesOf trapframeVa 1 := by
    decide
  have along' : ∀ level < 2, pathTo trapframeVa level ∈
      tablesOf trampolineVa 1 ∪ tablesOf trapframeVa 1 := by
    decide
  have present : (fun _ : Unit => (0x80100000 : UInt64)) () ≠ 0 := by decide
  obtain ⟨mem₁, free₁, maps, mapped, enough₁⟩ := Filled.vmMappages_enough
    (r := ()) tables_fewPages freeLists_fewPages present (by decide) (by decide)
    0x80001000 (pteR ||| pteX) along enough
  obtain ⟨mem, free, maps', mapped', _⟩ := Filled.vmMappages_enough
    (r := ()) mapped.tables mapped.lists present (by decide) (by decide)
    0x80200000 (pteR ||| pteW) along' enough₁
  refine ⟨mem₁, mem, free, maps, maps', mapped'.tables, ?_, ?_,
    fun address above => ?_⟩
  · rw [mapped'.outside () trampolineVa fun inside =>
      absurd inside.2.2 (by decide)]
    exact mapped.inside 0 Nat.one_pos trampolineVa rfl
  · exact mapped'.inside 0 Nat.one_pos trapframeVa rfl
  · have low : ∀ page : UInt64, page ≤ 0x80106000 → ¬InPage address page := by
      rintro page order ⟨_, below⟩
      have order' := UInt64.le_iff_toNat_le.mp order
      rw [show (0x80106000 : UInt64).toNat = 0x80106000 from rfl] at order'
      omega
    refine (mapped.toGrown.trans mapped'.toGrown).offTables
      (offTables_empty (fun _ => empty_fewPages) fun _ => low _ (by decide))
      fun page member => low page ?_
    have small : ∀ page ∈ fewPagesFree true, page ≤ 0x80106000 :=
      forall_of_all (by decide +kernel)
    exact small page member

section NewProcess

variable {pa perm : UInt64} (process : NewProcess mem free)
  (isPte : pteAt mem.bytes 0x80100000 va = leafPte pa perm)
  (inPage : va < vaMax ∧ va.toNat % 4096 = 0)

include isPte inPage

omit process in
/-- The first bytes of a page. -/
theorem physical_first {index : Nat} (bound : index < 8) :
    physical mem.bytes 0x80100000 (va + UInt64.ofNat index) =
        (pteToPa (leafPte pa perm)).toNat + index ∧
      IsMapped mem.bytes 0x80100000 (va + UInt64.ofNat index) := by
  obtain ⟨isPhysical, isMapped⟩ := @physical_in_page va mem.bytes 0x80100000
    inPage.1 index (by omega)
  refine ⟨?_, isMapped.mpr ⟨inPage.1, ?_⟩⟩
  · rw [isPhysical]
    unfold physical
    rw [isPte, inPage.2, Nat.add_zero]
  · rw [isPte]
    exact isValid_leafPte pa perm

include process

theorem NewProcess.ready
    (out : Bool)
    (off : out = true → 0x80107000 ≤ (pteToPa (leafPte pa perm)).toNat) :
    CopyReady (fun _ : Unit => 0x80100000) () out 8 mem free va 0x80400000
      0 := by
  have kernel : (0x80400000 : UInt64).toNat = 0x80400000 := rfl
  refine ⟨process.tables, by decide, fun index bound _ =>
    process.off _ ?_⟩
  cases out with
  | true =>
      have atLeast := off rfl
      change 0x80107000 ≤ physical mem.bytes 0x80100000 _
      rw [(physical_first isPte inPage bound).1]
      omega
  | false =>
      change 0x80107000 ≤ (0x80400000 : UInt64).toNat + index
      omega

/-- A copy to or from a page without the flags. -/
theorem NewProcess.not_respects
    {message : String} {out : Bool} {flags : UInt64}
    (off : out = true → 0x80107000 ≤ (pteToPa (leafPte pa perm)).toNat)
    (lacks : ¬HasFlags flags (leafPte pa perm)) :
    ¬Respects flags
      (fun fuel => copyLoop message out 0x80100000 8 fuel va 0x80400000 0)
      mem := by
  intro respects
  have ready := process.ready isPte inPage out off
  have permitted := (copyLoop_respects_iff ready (by decide)).mp respects 0
    (by decide) fun other atMost => (physical_first isPte inPage (by omega)).2
  rw [show UInt64.ofNat 0 = 0 from rfl, UInt64.add_zero] at permitted
  exact lacks (isPte ▸ permitted)

theorem NewProcess.not_respects_str
    {flags : UInt64}
    (apart : (pteToPa (leafPte pa perm)).toNat + 8 ≤ 0x80400000)
    (lacks : ¬HasFlags flags (leafPte pa perm)) :
    ¬Respects flags (copyinStrTurns 0x80100000 0x80400000 va 8) mem := by
  intro respects
  have kernel : (0x80400000 : UInt64).toNat = 0x80400000 := rfl
  have ready : StrReady (fun _ : Unit => 0x80100000) () 8 mem free va
      0x80400000 0 := by
    refine ⟨process.ready isPte inPage false nofun,
      fun index bound other bound' _ => ?_⟩
    change other < 8 at bound'
    rw [(physical_first isPte inPage bound').1]
    omega
  have permitted := (copyinStr_respects_iff ready (by decide)).mp respects 0
    (by decide) ⟨fun other atMost => (physical_first isPte inPage
      (by omega)).2, nofun⟩
  rw [show UInt64.ofNat 0 = 0 from rfl, UInt64.add_zero] at permitted
  exact lacks (isPte ▸ permitted)

end NewProcess

/-- The copies also write to the trapframe and read it and the trampoline. -/
theorem copies_use_kernel_pages :
    ∃ mem₁ mem,
      (vmMappages 0x80100000 trampolineVa 0x80001000 4096
        (pteR ||| pteX)).Runs fewPages () mem₁ ∧
      (vmMappages 0x80100000 trapframeVa 0x80200000 4096
        (pteR ||| pteW)).Runs mem₁ () mem ∧
      ¬Respects (pteU ||| pteW)
        (copyoutTurns 0x80100000 trapframeVa 0x80400000 8) mem ∧
      ¬Respects pteU (copyinTurns 0x80100000 0x80400000 trapframeVa 8) mem ∧
      ¬Respects pteU
        (copyinStrTurns 0x80100000 0x80400000 trampolineVa 8) mem := by
  obtain ⟨mem₁, mem, free, maps, maps', process⟩ := exists_newProcess
  refine ⟨mem₁, mem, maps, maps', ?_, ?_, ?_⟩
  · exact process.not_respects process.trapframe (by decide)
      (fun _ => by decide) (by decide)
  · exact process.not_respects process.trapframe (by decide) nofun (by decide)
  · exact process.not_respects_str process.trampoline (by decide) (by decide)
      (by decide)

end Mem
end WhuOs
