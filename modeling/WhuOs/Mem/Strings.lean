import WhuOs.Mem.Permissions

/-!
# Strings of a process

`uvm_copyin_str` copies a string up to its end, or the first bytes of a longer
one, whose last byte it replaces by the end of a string.
-/

namespace WhuOs
namespace Mem

open Library
open Library.Bytes
open Program (Runs)

variable {ρ : Type} {root : ρ → UInt64} {r : ρ} {mem mem' : State}
  {free : Bool → List UInt64} {va dst : UInt64} {maxlen copied : UInt32}
  {count : Nat} {ended : Bool}

/-- Where a copy of a string stops: after its end, or at the limit. -/
structure StrEnds (bytes : Bytes) (root va : UInt64) (limit count : Nat)
    (ended : Bool) : Prop where
  bound : count ≤ limit
  whole : ended = false → count = limit
  mapped : ∀ index < count, IsMapped bytes root (va + UInt64.ofNat index)
  proper : ∀ index < count, ended = false ∨ index + 1 < count →
    byteOf bytes root va index ≠ 0
  last : ended = true → ∃ last, count = last + 1 ∧ byteOf bytes root va last = 0

namespace StrEnds

variable {bytes : Bytes} {pgtbl : UInt64} {limit : Nat}

/-- A turn that finds the end of the string is the last one. -/
theorem eq_of_ended
    {turnLimit size : Nat} (ends : StrEnds bytes pgtbl va limit count ended)
    (turn : StrTurn bytes pgtbl va turnLimit size true) (fits : size ≤ limit) :
    ended = true ∧ count = size := by
  obtain ⟨last, isLast, isNull⟩ := turn.last rfl
  cases ended with
  | false =>
      have whole := ends.whole rfl
      exact absurd isNull (ends.proper last (by omega) (Or.inl rfl))
  | true =>
      obtain ⟨last', isLast', isNull'⟩ := ends.last rfl
      refine ⟨rfl, ?_⟩
      rcases Nat.lt_trichotomy last last' with before | same | after
      · exact absurd isNull (ends.proper last (by omega) (Or.inr (by omega)))
      · omega
      · exact absurd isNull' (turn.proper last' (by omega) (Or.inr (by omega)))

/-- A turn without the end of the string is followed by another one. -/
theorem le_of_not_ended
    {turnLimit size : Nat} (ends : StrEnds bytes pgtbl va limit count ended)
    (turn : StrTurn bytes pgtbl va turnLimit size false) (fits : size ≤ limit) :
    size ≤ count := by
  cases ended with
  | false =>
      have whole := ends.whole rfl
      omega
  | true =>
      obtain ⟨last, isLast, isNull⟩ := ends.last rfl
      by_contra less
      exact turn.proper last (by omega) (Or.inl rfl) isNull

end StrEnds

/-- What is left of a string after a turn. -/
theorem StrReady.ends_next
    (ready : StrReady root r maxlen mem free va dst copied)
    (more : copied < maxlen) (isMapped : IsMapped mem.bytes (root r) va)
    (ends : StrEnds mem.bytes (root r) va (maxlen.toNat - copied.toNat) count
      ended)
    (atLeast : (bytesToCopy va maxlen copied).toNat ≤ count)
    (notLast : ended = true → (bytesToCopy va maxlen copied).toNat < count) :
    StrEnds (mem.setBytes (turnBytes false mem.bytes (root r) va dst
        (bytesToCopy va maxlen copied).toNat)).bytes (root r)
      (va + (bytesToCopy va maxlen copied).toUInt64)
      (maxlen.toNat - (copied + bytesToCopy va maxlen copied).toNat)
      (count - (bytesToCopy va maxlen copied).toNat) ended := by
  obtain ⟨same, _, kept⟩ := ready.turn more isMapped
  obtain ⟨_, fits, _⟩ := bytesToCopy_toNat va more
  obtain ⟨_, left⟩ := left_after va more
  have bound := ends.bound
  rw [State.setBytes_bytes]
  have bytesKept : ∀ index,
      (bytesToCopy va maxlen copied).toNat + index < count →
      byteOf (turnBytes false mem.bytes (root r) va dst
          (bytesToCopy va maxlen copied).toNat) (root r)
        (va + (bytesToCopy va maxlen copied).toUInt64) index =
      byteOf mem.bytes (root r) va
        ((bytesToCopy va maxlen copied).toNat + index) :=
    fun index inside => kept index (by omega) (ends.mapped _ inside)
  refine ⟨by omega, fun notEnded => ?_, fun index inside => ?_,
    fun index inside notEnd => ?_, fun isEnded => ?_⟩
  · rw [left, ends.whole notEnded]
  · rw [same.isMapped_iff, toUInt64_eq_ofNat, ofNat_add_assoc]
    exact ends.mapped _ (by omega)
  · rw [bytesKept index (by omega)]
    refine ends.proper _ (by omega) ?_
    rcases notEnd with notEnded | before
    · exact Or.inl notEnded
    · exact Or.inr (by omega)
  · obtain ⟨last, isLast, isNull⟩ := ends.last isEnded
    have after := notLast isEnded
    refine ⟨last - (bytesToCopy va maxlen copied).toNat, by omega, ?_⟩
    rw [bytesKept _ (by omega), Nat.add_sub_of_le (by omega)]
    exact isNull

/-- The bytes of a string and of its copy are apart. -/
theorem StrReady.apart_places
    (ready : StrReady root r maxlen mem free va dst copied)
    (ends : StrEnds mem.bytes (root r) va (maxlen.toNat - copied.toNat) count
      ended) :
    Apart (place false mem.bytes (root r) va dst)
      (place true mem.bytes (root r) va dst) count := by
  have bound := ends.bound
  refine ⟨fun index inside other inside' => ?_, fun _ _ _ _ same =>
    Nat.add_left_cancel same⟩
  exact (ready.apart index (by omega) other (by omega)
    (ends.mapped other inside')).symm

/-- The memory after the loop: the end of a string is stored over the last byte
of a copy that found none. -/
def closeStr (ended : Bool) (last : UInt64) (mem : State) : State :=
  if ended then mem else mem.setBytes (setByte mem.bytes last 0)

/-- What the turns of a copy of a string do. -/
structure StrTurns (root : ρ → UInt64) (r : ρ) (va dst : UInt64) (count : Nat)
    (mem mem' : State) (trace : List Transfer) : Prop where
  frame : mem' = mem.setBytes mem'.bytes
  moved : Moved (place false mem.bytes (root r) va dst)
    (place true mem.bytes (root r) va dst) count mem.bytes mem'.bytes
  lookups : ∀ transfer ∈ trace, ∃ first < count,
    transfer.va = va + UInt64.ofNat first

/-- Turns that follow a turn without the end of the string. -/
theorem StrTurns.next
    {first more : Nat} {pte : UInt64} {size : UInt32} {trace : List Transfer}
    (same : SameTables root free mem.bytes
      (turnBytes false mem.bytes (root r) va dst first))
    (room : dst.toNat + (first + more) ≤ 2 ^ 64) (low : va < vaMax)
    (inside : va.toNat % 4096 + first ≤ 4096) (some : 0 < first)
    (apart : Apart (place false mem.bytes (root r) va dst)
      (place true mem.bytes (root r) va dst) (first + more))
    (turns : StrTurns root r (va + UInt64.ofNat first)
      (dst + UInt64.ofNat first) more
      (mem.setBytes (turnBytes false mem.bytes (root r) va dst first)) mem'
      trace) :
    StrTurns root r va dst (first + more) mem mem' (⟨va, pte, size⟩ :: trace) := by
  have places := same.places_next room
  have moves := turns.moved
  rw [State.setBytes_bytes] at moves
  have moves' := moves.congr
    (fun index bound => (places false index (by omega)).symm)
    (fun index bound => (places true index (by omega)).symm)
  have turn := turnBytes_moved low inside (by omega)
    (apart.mono (Nat.le_add_right first more))
  refine ⟨?_, turn.trans moves' apart, fun transfer member => ?_⟩
  · rw [turns.frame]
    rfl
  · rcases List.mem_cons.mp member with rfl | later
    · exact ⟨0, by omega, (UInt64.add_zero va).symm⟩
    · obtain ⟨index, before, isVa⟩ := turns.lookups transfer later
      refine ⟨first + index, by omega, ?_⟩
      rw [isVa, ofNat_add_assoc]

theorem copyStrLoop_ends
    {fuel : Nat} (present : root r ≠ 0)
    (ready : StrReady root r maxlen mem free va dst copied)
    (atMost : copied ≤ maxlen)
    (ends : StrEnds mem.bytes (root r) va (maxlen.toNat - copied.toNat) count
      ended) (enough : maxlen.toNat - copied.toNat < fuel) :
    ∃ trace mem', (copyStrLoop (root r) maxlen fuel va dst copied).Runs mem
        trace (closeStr ended (dst + UInt64.ofNat count - 1) mem') ∧
      StrTurns root r va dst count mem mem' trace := by
  induction fuel generalizing mem va dst copied count with
  | zero => exact absurd enough (Nat.not_lt_zero _)
  | succ fuel inductionHypothesis =>
      have bound := ends.bound
      have apart := ready.apart_places ends
      by_cases more : copied < maxlen
      · obtain ⟨some, fits, inside⟩ := bytesToCopy_toNat va more
        obtain ⟨isNext, left⟩ := left_after va more
        have room := ready.room
        have some' : 0 < count := by
          cases ended with
          | false =>
              have whole := ends.whole rfl
              omega
          | true =>
              obtain ⟨last, isLast, _⟩ := ends.last rfl
              omega
        have isMapped := ends.mapped 0 some'
        rw [show UInt64.ofNat 0 = 0 from rfl, UInt64.add_zero] at isMapped
        obtain ⟨size, ended', isTurn, turn⟩ := ready.exists_turn more isMapped
        have atMost' := turn.bound
        cases ended' with
        | true =>
            obtain ⟨rfl, isCount⟩ := ends.eq_of_ended turn (by omega)
            rw [isCount] at apart ⊢
            refine ⟨_, mem.setBytes (turnBytes false mem.bytes (root r) va dst
              size.toNat), (copyStrLoop_turn ready.tables present more
                isTurn).mpr ⟨isMapped, [], rfl, Program.runs_pure.mpr
                  ⟨rfl, rfl⟩⟩, rfl, turnBytes_moved isMapped.1 (by omega)
                    (by omega) apart, fun transfer member => ?_⟩
            obtain rfl := List.mem_singleton.mp member
            exact ⟨0, turn.some, (UInt64.add_zero va).symm⟩
        | false =>
            have isWhole := UInt32.toNat_inj.mp (turn.whole rfl)
            rw [isWhole] at isTurn turn
            have atLeast := ends.le_of_not_ended turn (by omega)
            have notLast : ended = true →
                (bytesToCopy va maxlen copied).toNat < count := by
              intro isEnded
              obtain ⟨last, isLast, isNull⟩ := ends.last isEnded
              by_contra less
              exact turn.proper last (by omega) (Or.inl rfl) isNull
            obtain ⟨same, ready', _⟩ := ready.turn more isMapped
            have ends' := ready.ends_next more isMapped ends atLeast notLast
            obtain ⟨rest, mem', run, turns⟩ := inductionHypothesis ready'
              (UInt32.le_iff_toNat_le.mpr (by omega)) ends' (by omega)
            have isLast : dst + (bytesToCopy va maxlen copied).toUInt64 +
                UInt64.ofNat (count - (bytesToCopy va maxlen copied).toNat) =
                  dst + UInt64.ofNat count := by
              rw [toUInt64_eq_ofNat, ofNat_add_assoc,
                Nat.add_sub_of_le atLeast]
            rw [isLast] at run
            rw [toUInt64_eq_ofNat] at turns
            have isTotal := Nat.add_sub_of_le atLeast
            rw [← isTotal] at apart
            have turns' := @StrTurns.next _ _ _ _ _ _ _ _ _ _
              (pteAt mem.bytes (root r) va) (bytesToCopy va maxlen copied) _
              same (by omega) isMapped.1 inside some apart turns
            rw [isTotal] at turns'
            have turned := (@copyStrLoop_turn _ _ _ _ _ _ _ _ _ _ fuel _
              ready.tables present more _ _ isTurn).mpr
                ⟨isMapped, rest, rfl, run⟩
            exact ⟨_, mem', turned, turns'⟩
      · have isAll : copied = maxlen :=
          UInt32.le_antisymm atMost (UInt32.not_lt.mp more)
        have none : maxlen.toNat - copied.toNat = 0 := by
          rw [isAll, Nat.sub_self]
        have isNone : count = 0 := by omega
        subst isNone
        cases ended with
        | true =>
            obtain ⟨last, isLast, _⟩ := ends.last rfl
            omega
        | false =>
            refine ⟨[], mem, ?_, rfl, .refl, nofun⟩
            rw [copyStrLoop, if_neg more, if_pos isAll,
              show UInt64.ofNat 0 = 0 from rfl, UInt64.add_zero]
            exact Program.runs_bind.mpr ⟨(), _, Program.runs_modify.mpr rfl,
              Program.runs_pure.mpr ⟨rfl, rfl⟩⟩

/-! ## Copies of strings -/

/-- A kernel buffer apart from the tables and from the pages of a process. -/
structure StrBuffer (root : ρ → UInt64) (r : ρ) (mem : State) (dst : UInt64)
    (maxlen : UInt32) : Prop where
  room : dst.toNat + maxlen.toNat ≤ 2 ^ 64
  off : ∀ index < maxlen.toNat, OffTables mem.bytes root (dst.toNat + index)
  apart : ∀ va, IsMapped mem.bytes (root r) va → ∀ index < maxlen.toNat,
    physical mem.bytes (root r) va ≠ dst.toNat + index

theorem StrBuffer.ready
    (tables : Tables mem.bytes root free)
    (buffer : StrBuffer root r mem dst maxlen) (u : UInt64) :
    StrReady root r maxlen mem free u dst 0 := by
  have zero : (0 : UInt32).toNat = 0 := rfl
  refine ⟨⟨tables, ?_, fun index bound _ => ?_⟩,
    fun index bound other bound' mapped => ?_⟩
  · rw [zero]
    exact buffer.room
  · exact buffer.off index bound
  · exact buffer.apart _ mapped index bound

/-- The bytes that a process has from an address on. -/
def UserByte (mem : State) (pgtbl u : UInt64) (index : Nat) (value : UInt8) :
    Prop :=
  u + UInt64.ofNat index < vaMax ∧ ∃ pa flags,
    translate mem.bytes pgtbl (u + UInt64.ofNat index) = some (pa, flags) ∧
      mem.bytes pa.toNat = value

theorem UserByte.mapped
    (tables : Tables mem.bytes root free) (present : root r ≠ 0)
    {u : UInt64} {index : Nat} {value : UInt8}
    (byte : UserByte mem (root r) u index value) :
    IsMapped mem.bytes (root r) (u + UInt64.ofNat index) ∧
      byteOf mem.bytes (root r) u index = value := by
  obtain ⟨low, pa, flags, found, isByte⟩ := byte
  have isMapped : IsMapped mem.bytes (root r) (u + UInt64.ofNat index) := by
    refine (isMapped_iff_translate tables present).mpr ⟨low, ?_⟩
    rw [found]
    exact Option.some_ne_none _
  obtain ⟨pa', found', isPhysical⟩ := isMapped.translate tables present
  obtain ⟨rfl, _⟩ := Prod.mk.inj (Option.some.inj (found.symm.trans found'))
  refine ⟨isMapped, ?_⟩
  unfold byteOf
  rw [← isPhysical, isByte]

/-- A copy of the first bytes of a process that looks at no page beyond that of
the last byte that it copies. -/
structure CopiedBytes (mem : State) (u dst : UInt64) (count : Nat)
    (value : Nat → UInt8) (trace : List Transfer) (mem' : State) : Prop where
  frame : mem' = mem.setBytes mem'.bytes
  copied : ∀ index < count, mem'.bytes (dst.toNat + index) = value index
  others : ∀ address, (∀ index < count, dst.toNat + index ≠ address) →
    mem'.bytes address = mem.bytes address
  lookups : ∀ transfer ∈ trace, ∃ first < count,
    transfer.va = u + UInt64.ofNat first

/-- The bytes of a string whose last byte is replaced by its end. -/
def cutString (limit : Nat) (value : Nat → UInt8) : Nat → UInt8 :=
  fun index => if index + 1 = limit then 0 else value index

section Copies

variable {u : UInt64} {trace : List Transfer} {value : Nat → UInt8}

/-- The turns store the bytes of the process. -/
theorem StrTurns.copiedBytes
    (turns : StrTurns root r u dst count mem mem' trace)
    (isByte : ∀ index < count, byteOf mem.bytes (root r) u index = value index) :
    CopiedBytes mem u dst count value trace mem' := by
  refine ⟨turns.frame, fun index bound => ?_, fun address outside => ?_,
    turns.lookups⟩
  · rw [← isByte index bound]
    exact turns.moved.moved index bound
  · exact turns.moved.others address outside

/-- The end of a string that is stored over the last byte of a copy. -/
theorem CopiedBytes.close
    {limit : Nat} (copies : CopiedBytes mem u dst limit value trace mem')
    (some : 0 < limit) (room : dst.toNat + limit ≤ 2 ^ 64) :
    CopiedBytes mem u dst limit (cutString limit value) trace
      (closeStr false (dst + UInt64.ofNat limit - 1) mem') := by
  have last : (dst + UInt64.ofNat limit - 1).toNat = dst.toNat + (limit - 1) := by
    have small := dst.toNat_lt
    rw [UInt64.toNat_sub, UInt64.toNat_add, UInt64.toNat_ofNat',
      show (1 : UInt64).toNat = 1 from rfl]
    omega
  have stored : ∀ address,
      (closeStr false (dst + UInt64.ofNat limit - 1) mem').bytes address =
        if address = dst.toNat + (limit - 1) then 0 else mem'.bytes address := by
    intro address
    rw [← last]
    rfl
  refine ⟨?_, fun index bound => ?_, fun address outside => ?_,
    copies.lookups⟩
  · unfold closeStr
    rw [if_neg Bool.false_ne_true, copies.frame]
    rfl
  · rw [stored]
    unfold cutString
    by_cases isLast : index + 1 = limit
    · rw [if_pos (by omega), if_pos isLast]
    · rw [if_neg (by omega), if_neg isLast]
      exact copies.copied index bound
  · have before := outside (limit - 1) (by omega)
    rw [stored, if_neg before.symm]
    exact copies.others address outside

/-- A string that ends below the limit is copied up to its end, and a longer one
up to its last byte, which becomes the end. -/
theorem uvmCopyinStr_copies
    (tables : Tables mem.bytes root free) (present : root r ≠ 0)
    (some : 1 ≤ maxlen) (buffer : StrBuffer root r mem dst maxlen) :
    (∀ n < maxlen.toNat,
      (∀ index ≤ n, UserByte mem (root r) u index (value index)) →
      (∀ index < n, value index ≠ 0) → value n = 0 →
      ∃ trace mem', (uvmCopyinStr (root r) dst u maxlen).Runs mem trace mem' ∧
        CopiedBytes mem u dst (n + 1) value trace mem') ∧
    ((∀ index < maxlen.toNat,
        UserByte mem (root r) u index (value index) ∧ value index ≠ 0) →
      ∃ trace mem', (uvmCopyinStr (root r) dst u maxlen).Runs mem trace mem' ∧
        CopiedBytes mem u dst maxlen.toNat (cutString maxlen.toNat value) trace
          mem') := by
  have positive : 1 ≤ maxlen.toNat := UInt32.le_iff_toNat_le.mp some
  have zero : maxlen.toNat - (0 : UInt32).toNat = maxlen.toNat := rfl
  have more : maxlen ≠ 0 := by
    intro none
    rw [none] at positive
    exact absurd positive (by decide)
  have ready := buffer.ready tables u
  unfold uvmCopyinStr
  rw [if_neg more]
  constructor
  · intro n below bytes proper isNull
    have ends : StrEnds mem.bytes (root r) u
        (maxlen.toNat - (0 : UInt32).toNat) (n + 1) true := by
      refine ⟨by omega, nofun, fun index bound => ?_,
        fun index _ notEnd => ?_, fun _ => ⟨n, rfl, ?_⟩⟩
      · exact ((bytes index (by omega)).mapped tables present).1
      · have inner : index < n := by
          rcases notEnd with ended | before
          · cases ended
          · omega
        rw [((bytes index (by omega)).mapped tables present).2]
        exact proper index inner
      · rw [((bytes n (Nat.le_refl n)).mapped tables present).2]
        exact isNull
    obtain ⟨trace, mem', run, turns⟩ := copyStrLoop_ends present ready
      (UInt32.zero_le) ends (by omega : _ < maxlen.toNat + 1)
    exact ⟨trace, mem', run, turns.copiedBytes fun index bound =>
      ((bytes index (by omega)).mapped tables present).2⟩
  · intro bytes
    have ends : StrEnds mem.bytes (root r) u
        (maxlen.toNat - (0 : UInt32).toNat) maxlen.toNat false := by
      refine ⟨Nat.le_refl _, fun _ => rfl, fun index bound => ?_,
        fun index bound _ => ?_, nofun⟩
      · exact ((bytes index bound).1.mapped tables present).1
      · rw [((bytes index bound).1.mapped tables present).2]
        exact (bytes index bound).2
    obtain ⟨trace, mem', run, turns⟩ := copyStrLoop_ends present ready
      (UInt32.zero_le) ends (by omega : _ < maxlen.toNat + 1)
    have copies := turns.copiedBytes fun index bound =>
      ((bytes index bound).1.mapped tables present).2
    exact ⟨trace, _, run, copies.close positive buffer.room⟩

end Copies

/-- A string of one letter in the middle of a page is copied. -/
theorem uvmCopyinStr_copies_letter :
    ∃ mem trace mem', (uvmCopyinStr 0x80100000 0x80400000 0x1004 8).Runs mem
        trace mem' ∧
      CopiedBytes mem 0x1004 0x80400000 2 (fun index => if index = 0 then 97 else 0)
        trace mem' := by
  obtain ⟨mem, free, onePage⟩ := OnePage.of_exec 0x1000 (by decide)
    (by decide) (by decide +kernel)
  have tables := onePage.mapped.tables
  have present : twoRoots false ≠ 0 := by decide
  -- the letter and the end are stored in the page of the process
  let letter : Bytes := fun address =>
    if address = 0x80300004 then 97
    else if address = 0x80300005 then 0 else mem.bytes address
  have same : SameTables twoRoots free mem.bytes letter := by
    refine SameTables.of_offTables tables fun address changed => ?_
    refine onePage.offTables ?_
    by_contra below
    refine changed ?_
    change (if _ then _ else if _ then _ else _) = _
    rw [if_neg (by omega), if_neg (by omega)]
  have ready : Tables (mem.setBytes letter).bytes twoRoots free := same.tables
  have bytes : ∀ index ≤ 1, UserByte (mem.setBytes letter) (twoRoots false)
      0x1004 index (if index = 0 then 97 else 0) := by
    intro index bound
    have isMapped : IsMapped letter (twoRoots false)
        (0x1004 + UInt64.ofNat index) :=
      (same.isMapped_iff _ _).mpr (onePage.isMapped (by omega))
    obtain ⟨pa, found, isPhysical⟩ := @IsMapped.translate _ _ _
      (mem.setBytes letter) _ _ ready present isMapped
    refine ⟨isMapped.1, pa, _, found, ?_⟩
    rw [State.setBytes_bytes] at isPhysical ⊢
    rw [isPhysical, same.physical_eq, onePage.physical_eq (by omega)]
    interval_cases index <;> rfl
  have kernel : (0x80400000 : UInt64).toNat = 0x80400000 := rfl
  have buffer : StrBuffer twoRoots false (mem.setBytes letter) 0x80400000 8 := by
    refine ⟨by decide, fun index _ => (same.offTables_iff _).mpr
      (onePage.offTables (by omega)), fun va isMapped index _ => ?_⟩
    have mapped := (same.isMapped_iff false va).mp isMapped
    have samePage := (onePage.valid_iff va).mp mapped.2
    have isPage : pteToPa (leafPte 0x80300000 userFlags) = 0x80300000 := by
      decide
    rw [State.setBytes_bytes, same.physical_eq]
    unfold physical
    rw [onePage.mapped.inside 0 Nat.one_pos _ samePage, isPage,
      show (0x80300000 : UInt64).toNat = 0x80300000 from rfl]
    omega
  obtain ⟨trace, mem', run, copies⟩ := (uvmCopyinStr_copies ready present
    (by decide) buffer).1 1 (by decide) bytes
      (fun index first => by
        rw [if_pos (by omega)]
        decide) rfl
  exact ⟨_, trace, mem', run, copies⟩

end Mem
end WhuOs
