import WhuOs.Mem.Copying
import WhuOs.Mem.Transfers

/-!
# What is copied, and from which pages

A copy moves the bytes that the walk of the hardware would find, whether or not
the process may access them.
-/

namespace WhuOs
namespace Mem

open Library
open Library.Bytes
open Program (Runs)

variable {ρ : Type} {root : ρ → UInt64} {r : ρ} {mem mem' : State}
  {free : Bool → List UInt64} {va : UInt64}

/-! ## Addresses -/

section Translated

variable {u k : UInt64} {len : UInt32} {trace : List Transfer}

theorem canonical_of_lt (low : va < vaMax) : Canonical va := by
  rw [UInt64.lt_iff_toNat_lt, vaMax_eq] at low
  exact Or.inl low

/-- A byte that is mapped is where the walk finds it. -/
theorem IsMapped.translate
    (tables : Tables mem.bytes root free) (present : root r ≠ 0)
    (isMapped : IsMapped mem.bytes (root r) va) :
    ∃ pa, translate mem.bytes (root r) va =
        some (pa, pteFlags (pteAt mem.bytes (root r) va)) ∧
      pa.toNat = physical mem.bytes (root r) va := by
  have room := (aligned_pteToPa (pteAt mem.bytes (root r) va)).room
  refine ⟨pteToPa (pteAt mem.bytes (root r) va) + va % 4096, ?_, ?_⟩
  · rw [translate_eq tables present, if_pos (canonical_of_lt isMapped.1), leafOf,
      if_pos isMapped.2]
  · unfold physical
    rw [UInt64.toNat_add, UInt64.toNat_mod,
      show (4096 : UInt64).toNat = 4096 from rfl]
    omega

theorem isMapped_iff_translate
    (tables : Tables mem.bytes root free) (present : root r ≠ 0) :
    IsMapped mem.bytes (root r) va ↔
      va < vaMax ∧ translate mem.bytes (root r) va ≠ none := by
  refine and_congr_right fun low => ?_
  rw [Ne, translate_eq_none_iff tables present (canonical_of_lt low),
    Bool.not_eq_false]

/-- The address of a byte of a process. -/
def ByteAt (bytes : Bytes) (pgtbl u : UInt64) (index address : Nat) : Prop :=
  ∃ pa flags, translate bytes pgtbl (u + UInt64.ofNat index) =
    some (pa, flags) ∧ pa.toNat = address

theorem IsMapped.byteAt_iff
    (tables : Tables mem.bytes root free) (present : root r ≠ 0) {index : Nat}
    (isMapped : IsMapped mem.bytes (root r) (u + UInt64.ofNat index))
    (address : Nat) :
    ByteAt mem.bytes (root r) u index address ↔
      physical mem.bytes (root r) (u + UInt64.ofNat index) = address := by
  obtain ⟨pa, found, isPhysical⟩ := isMapped.translate tables present
  unfold ByteAt
  rw [found, ← isPhysical]
  constructor
  · rintro ⟨_, _, same, rfl⟩
    cases same
    rfl
  · rintro rfl
    exact ⟨pa, _, rfl, rfl⟩

/-- The user range of a copy, the kernel range and the tables are apart. -/
structure CopyRange (root : ρ → UInt64) (r : ρ) (mem : State) (u k : UInt64)
    (len : UInt32) : Prop where
  room : k.toNat + len.toNat ≤ 2 ^ 64
  kernelOff : ∀ index < len.toNat, OffTables mem.bytes root (k.toNat + index)
  userOff : ∀ index < len.toNat, ∀ address,
    ByteAt mem.bytes (root r) u index address →
    OffTables mem.bytes root address ∧
      ∀ other < len.toNat, address ≠ k.toNat + other

/-- All bytes of a user range are mapped. -/
def RangeMapped (mem : State) (pgtbl u : UInt64) (len : UInt32) : Prop :=
  ∀ index < len.toNat, u + UInt64.ofNat index < vaMax ∧
    translate mem.bytes pgtbl (u + UInt64.ofNat index) ≠ none

/-- Different pages of a user range lie in different physical pages. -/
def PagesDistinct (mem : State) (pgtbl u : UInt64) (len : UInt32) : Prop :=
  ∀ index < len.toNat, ∀ other < len.toNat, ∀ address address',
    ByteAt mem.bytes pgtbl u index address →
    ByteAt mem.bytes pgtbl u other address' →
    pageOf (u + UInt64.ofNat index) ≠ pageOf (u + UInt64.ofNat other) →
    address / 4096 ≠ address' / 4096

variable (tables : Tables mem.bytes root free) (present : root r ≠ 0)
  (range : CopyRange root r mem u k len)

include tables present range

theorem CopyRange.ready (out : Bool) :
    CopyReady root r out len mem free u k 0 := by
  have zero : (0 : UInt32).toNat = 0 := rfl
  refine ⟨tables, ?_, fun index bound mapped => ?_⟩
  · rw [zero]
    exact range.room
  · rw [zero] at bound
    cases out with
    | true =>
        have isMapped := mapped index (Nat.le_refl index)
        exact (range.userOff index bound _
          ((isMapped.byteAt_iff tables present _).mpr rfl)).1
    | false => exact range.kernelOff index bound

/-- The bytes of the process and those of the kernel are apart. -/
theorem CopyRange.apart
    (mapped : RangeMapped mem (root r) u len) (out : Bool)
    (distinct : out = true → PagesDistinct mem (root r) u len) :
    Apart (place out mem.bytes (root r) u k)
      (place (!out) mem.bytes (root r) u k) len.toNat := by
  have isMapped : ∀ index < len.toNat,
      IsMapped mem.bytes (root r) (u + UInt64.ofNat index) :=
    fun index bound => (isMapped_iff_translate tables present).mpr
      (mapped index bound)
  have byteAt : ∀ index < len.toNat, ByteAt mem.bytes (root r) u index
      (physical mem.bytes (root r) (u + UInt64.ofNat index)) :=
    fun index bound => ((isMapped index bound).byteAt_iff tables present _).mpr
      rfl
  cases out with
  | true =>
      refine ⟨fun index bound other bound' => (range.userOff index bound _
        (byteAt index bound)).2 other bound', fun index bound other bound'
        same => ?_⟩
      have low := UInt64.lt_iff_toNat_lt.mp (isMapped index bound).1
      have low' := UInt64.lt_iff_toNat_lt.mp (isMapped other bound').1
      rw [vaMax_eq] at low low'
      have samePage : pageOf (u + UInt64.ofNat index) =
          pageOf (u + UInt64.ofNat other) := by
        by_contra differs
        exact distinct rfl index bound other bound' _ _ (byteAt index bound)
          (byteAt other bound') differs (congrArg (· / 4096) same)
      have sameVa : u + UInt64.ofNat index = u + UInt64.ofNat other := by
        have same' : physical mem.bytes (root r) (u + UInt64.ofNat index) =
            physical mem.bytes (root r) (u + UInt64.ofNat other) := same
        unfold physical at same'
        rw [pteAt_congr samePage] at same'
        unfold pageOf at samePage
        apply UInt64.toNat.inj
        omega
      have sameIndex := congrArg UInt64.toNat (add_left_cancel sameVa)
      have lenBound := len.toNat_lt
      rw [UInt64.toNat_ofNat', UInt64.toNat_ofNat'] at sameIndex
      omega
  | false =>
      refine ⟨fun index bound other bound' => ((range.userOff other bound' _
        (byteAt other bound')).2 index bound).symm, fun index bound other
        bound' same => ?_⟩
      exact Nat.add_left_cancel same

/-- `uvm_copyin` and `uvm_copyout` of a mapped range. -/
theorem copyLoop_translated
    (message : String) (mapped : RangeMapped mem (root r) u len) (out : Bool)
    (distinct : out = true → PagesDistinct mem (root r) u len) :
    ∃ trace mem', (copyLoop message out (root r) len len.toNat u k 0).Runs mem
        trace mem' ∧
      mem' = mem.setBytes mem'.bytes ∧
      SameTables root free mem.bytes mem'.bytes ∧
      Moved (place out mem.bytes (root r) u k)
        (place (!out) mem.bytes (root r) u k) len.toNat mem.bytes
        mem'.bytes := by
  have ready := range.ready tables present out
  have isMapped : ∀ index < len.toNat - (0 : UInt32).toNat,
      IsMapped mem.bytes (root r) (u + UInt64.ofNat index) :=
    fun index bound => (isMapped_iff_translate tables present).mpr
      (mapped index bound)
  obtain ⟨trace, mem', run⟩ := copyLoop_total ready present isMapped
  obtain ⟨moved, turns, all⟩ := copyLoop_turns ready present run
  have isAll : moved = len.toNat := all (Nat.le_refl _)
  subst isAll
  exact ⟨trace, mem', run, turns.frame, turns.same,
    turns.moves (range.apart tables present mapped out distinct)⟩

/-- A copy of a range with a byte that is not mapped. -/
theorem copyLoop_unmapped
    {message : String} {out : Bool} {index : Nat} (bound : index < len.toNat)
    (unmapped : ¬IsMapped mem.bytes (root r) (u + UInt64.ofNat index)) :
    (copyLoop message out (root r) len len.toNat u k 0).Panics mem ∧
      ∀ fuel trace mem', (copyLoop message out (root r) len fuel u k 0).Runs mem
          trace mem' →
        (∀ transfer ∈ trace, ∃ first,
          first + transfer.count.toNat ≤ index ∧
          transfer.va = u + UInt64.ofNat first) ∧
        ∀ address, (∀ other < index,
            IsMapped mem.bytes (root r) (u + UInt64.ofNat other) →
            place out mem.bytes (root r) u k other ≠ address) →
          mem'.bytes address = mem.bytes address := by
  have ready := range.ready tables present out
  have limit : ∀ moved, (∀ other < moved,
      IsMapped mem.bytes (root r) (u + UInt64.ofNat other)) →
      moved ≤ index := by
    intro moved mapped
    by_contra above
    exact unmapped (mapped index (Nat.not_le.mp above))
  refine ⟨Program.panics_iff.mpr ?_, fun fuel trace mem' run => ?_⟩
  · rintro ⟨trace, mem', run⟩
    obtain ⟨moved, turns, all⟩ := copyLoop_turns ready present run
    have isAll : moved = len.toNat := all (Nat.le_refl _)
    have atMost := limit moved turns.mapped
    omega
  · obtain ⟨moved, turns, _⟩ := copyLoop_turns ready present run
    have atMost := limit moved turns.mapped
    refine ⟨fun transfer member => ?_, fun address outside =>
      turns.others address fun other bound => outside other (by omega)
        (turns.mapped other bound)⟩
    obtain ⟨first, last, _, isVa, _⟩ := turns.transfers transfer member
    exact ⟨first, by omega, isVa⟩

omit range in
/-- Memory with the same tables has the same translations. -/
theorem SameTables.translate_eq
    {bytes : Bytes} (same : SameTables root free mem.bytes bytes)
    (va : UInt64) :
    translate bytes (root r) va = translate mem.bytes (root r) va := by
  have walk : translate (mem.setBytes bytes).bytes (root r) va = _ :=
    Mem.translate_eq same.tables present va
  rw [Mem.translate_eq tables present, ← same.ptes]
  exact walk

omit tables present range in
theorem uvmCopyin_eq (pgtbl u k : UInt64) (len : UInt32) :
    uvmCopyin pgtbl k u len = copyLoop "uvm_copyin: invalid virtual address"
      false pgtbl len len.toNat u k 0 := by
  unfold uvmCopyin
  split
  · next none =>
      subst none
      rfl
  · rfl

omit tables present range in
theorem uvmCopyout_eq (pgtbl u k : UInt64) (len : UInt32) :
    uvmCopyout pgtbl u k len = copyLoop "uvm_copyout: invalid virtual address"
      true pgtbl len len.toNat u k 0 := by
  unfold uvmCopyout
  split
  · next none =>
      subst none
      rfl
  · rfl

/-! ## Whole copies -/

/-- The kernel bytes are those of the process, and nothing else changed. -/
structure CopiedIn (mem : State) (pgtbl u k : UInt64) (len : UInt32)
    (mem' : State) : Prop where
  moved : ∀ index < len.toNat, ∀ address,
    ByteAt mem.bytes pgtbl u index address →
    mem'.bytes (k.toNat + index) = mem.bytes address
  others : ∀ address, ¬(k.toNat ≤ address ∧ address < k.toNat + len.toNat) →
    mem'.bytes address = mem.bytes address
  frame : mem' = mem.setBytes mem'.bytes

/-- The bytes of the process are those of the kernel, and nothing else
changed. -/
structure CopiedOut (mem : State) (pgtbl u k : UInt64) (len : UInt32)
    (mem' : State) : Prop where
  moved : ∀ index < len.toNat, ∀ address,
    ByteAt mem.bytes pgtbl u index address →
    mem'.bytes address = mem.bytes (k.toNat + index)
  others : ∀ address, (∀ index < len.toNat,
      ¬ByteAt mem.bytes pgtbl u index address) →
    mem'.bytes address = mem.bytes address
  frame : mem' = mem.setBytes mem'.bytes

/-- No number of turns of a copy gets to a byte or to one after it: it looks at
bytes before it only, and it writes only those. -/
def StopsBefore (message : String) (out : Bool) (mem : State)
    (pgtbl u k : UInt64) (len : UInt32) (index : Nat) : Prop :=
  ∀ fuel trace mem', (copyLoop message out pgtbl len fuel u k 0).Runs mem trace
      mem' →
    (∀ transfer ∈ trace, ∃ first, first + transfer.count.toNat ≤ index ∧
      transfer.va = u + UInt64.ofNat first) ∧
    ∀ address, (∀ other < index,
        if out then ¬ByteAt mem.bytes pgtbl u other address
        else k.toNat + other ≠ address) →
      mem'.bytes address = mem.bytes address

theorem CopyRange.stopsBefore
    {message : String} {out : Bool} {index : Nat} (bound : index < len.toNat)
    (unmapped : ¬IsMapped mem.bytes (root r) (u + UInt64.ofNat index)) :
    StopsBefore message out mem (root r) u k len index := by
  intro fuel trace mem' run
  obtain ⟨earlier, others⟩ := (copyLoop_unmapped tables present range bound
    unmapped).2 fuel trace mem' run
  refine ⟨earlier, fun address outside => others address fun other before
    isMapped => ?_⟩
  have apart := outside other before
  cases out with
  | true =>
      rw [if_pos rfl, isMapped.byteAt_iff tables present] at apart
      exact apart
  | false => exact apart

theorem CopyRange.copiedIn (mapped : RangeMapped mem (root r) u len) :
    ∃ trace mem', (uvmCopyin (root r) k u len).Runs mem trace mem' ∧
      CopiedIn mem (root r) u k len mem' := by
  obtain ⟨trace, mem', run, frame, _, moved⟩ := copyLoop_translated tables
    present range "uvm_copyin: invalid virtual address" mapped false nofun
  refine ⟨trace, mem', ?_, fun index bound address isAt => ?_,
    fun address outside => ?_, frame⟩
  · rw [uvmCopyin_eq]
    exact run
  · have isMapped := (isMapped_iff_translate tables present).mpr
      (mapped index bound)
    rw [isMapped.byteAt_iff tables present] at isAt
    rw [← isAt]
    exact moved.moved index bound
  · refine moved.others address fun index bound same => outside ?_
    change k.toNat + index = address at same
    omega

theorem CopyRange.copiedOut
    (mapped : RangeMapped mem (root r) u len)
    (distinct : PagesDistinct mem (root r) u len) :
    ∃ trace mem', (uvmCopyout (root r) u k len).Runs mem trace mem' ∧
      CopiedOut mem (root r) u k len mem' ∧
      ∃ trace', (uvmCopyin (root r) k u len).Runs mem' trace' mem' := by
  obtain ⟨trace, mem', run, frame, same, moved⟩ := copyLoop_translated tables
    present range "uvm_copyout: invalid virtual address" mapped true
      fun _ => distinct
  have isMapped : ∀ index < len.toNat,
      IsMapped mem.bytes (root r) (u + UInt64.ofNat index) :=
    fun index bound => (isMapped_iff_translate tables present).mpr
      (mapped index bound)
  have translated := same.translate_eq tables present
  refine ⟨trace, mem', ?_, ⟨fun index bound address isAt => ?_,
    fun address outside => ?_, frame⟩, ?_⟩
  · rw [uvmCopyout_eq]
    exact run
  · rw [(isMapped index bound).byteAt_iff tables present] at isAt
    rw [← isAt]
    exact moved.moved index bound
  · refine moved.others address fun index bound atPlace => outside index bound ?_
    rw [(isMapped index bound).byteAt_iff tables present]
    exact atPlace
  · -- the tables are the same, so the copy back finds the same addresses
    have byteAt : ∀ index address, ByteAt mem'.bytes (root r) u index address ↔
        ByteAt mem.bytes (root r) u index address := by
      intro index address
      unfold ByteAt
      rw [translated]
    have range' : CopyRange root r mem' u k len := by
      refine ⟨range.room, fun index bound => ?_, fun index bound address isAt =>
        ?_⟩
      · rw [same.offTables_iff]
        exact range.kernelOff index bound
      · rw [byteAt] at isAt
        rw [same.offTables_iff]
        exact range.userOff index bound address isAt
    have mapped' : RangeMapped mem' (root r) u len := by
      intro index bound
      rw [translated]
      exact mapped index bound
    obtain ⟨trace', mem'', run', frame', _, back⟩ := copyLoop_translated
      same.tables present range' "uvm_copyin: invalid virtual address" mapped'
      false nofun
    have places : ∀ user index, place user mem'.bytes (root r) u k index =
        place user mem.bytes (root r) u k index := by
      intro user index
      unfold place
      rw [same.physical_eq]
    have isSame := moved.back (back.congr
      (fun index _ => (places false index).symm)
      (fun index _ => (places true index).symm))
      (range.apart tables present mapped true fun _ => distinct)
    refine ⟨trace', ?_⟩
    rw [uvmCopyin_eq]
    rw [isSame] at frame'
    rw [frame'] at run'
    exact run'

/-- `uvm_copyin` and `uvm_copyout` copy byte by byte between the addresses the
walk finds, a copy back changes nothing, and a page that is not mapped stops
them before it. -/
theorem copies_translate :
    (RangeMapped mem (root r) u len →
      ∃ trace mem', (uvmCopyin (root r) k u len).Runs mem trace mem' ∧
        CopiedIn mem (root r) u k len mem') ∧
    (RangeMapped mem (root r) u len → PagesDistinct mem (root r) u len →
      ∃ trace mem', (uvmCopyout (root r) u k len).Runs mem trace mem' ∧
        CopiedOut mem (root r) u k len mem' ∧
        ∃ trace', (uvmCopyin (root r) k u len).Runs mem' trace' mem') ∧
    ∀ index < len.toNat, ¬(u + UInt64.ofNat index < vaMax ∧
        translate mem.bytes (root r) (u + UInt64.ofNat index) ≠ none) →
      (uvmCopyin (root r) k u len).Panics mem ∧
      (uvmCopyout (root r) u k len).Panics mem ∧
      StopsBefore "uvm_copyin: invalid virtual address" false mem (root r) u k
        len index ∧
      StopsBefore "uvm_copyout: invalid virtual address" true mem (root r) u k
        len index := by
  refine ⟨range.copiedIn tables present, range.copiedOut tables present,
    fun index bound unmapped => ?_⟩
  rw [← isMapped_iff_translate tables present] at unmapped
  rw [uvmCopyin_eq, uvmCopyout_eq]
  exact ⟨(copyLoop_unmapped tables present range bound unmapped).1,
    (copyLoop_unmapped tables present range bound unmapped).1,
    range.stopsBefore tables present bound unmapped,
    range.stopsBefore tables present bound unmapped⟩

end Translated

/-! ## A page of a process -/

/-- A growth takes its tables from the free pages of the kernel. -/
theorem Grown.offTables
    {free' : Bool → List UInt64} {address : Nat}
    (grown : Grown root mem free mem' free')
    (off : OffTables mem.bytes root address)
    (notFree : ∀ page ∈ free true, ¬InPage address page) :
    OffTables mem'.bytes root address := by
  intro r path bound present
  rcases grown.placed r path bound with same | ⟨_, fromKernel⟩
  · rw [same] at present ⊢
    exact off r path bound present
  · exact notFree _ fromKernel

theorem offTables_empty
    {bytes : Bytes} {address : Nat}
    (empty : ∀ r index, entryOf bytes (root r) index = 0)
    (off : ∀ r, ¬InPage address (root r)) : OffTables bytes root address := by
  intro r path _ present
  by_cases atRoot : path = []
  · subst atRoot
    exact off r
  · exact absurd (tableAt_empty (empty r) atRoot) present

/-- The addresses that follow the pages of the kernel. -/
theorem OnePage.offTables
    {va : UInt64} {address : Nat} (onePage : OnePage va mem free)
    (above : 0x80201000 ≤ address) : OffTables mem.bytes twoRoots address := by
  have low : ∀ page : UInt64, page ≤ 0x80200000 → ¬InPage address page := by
    rintro page order ⟨_, below⟩
    have order' := UInt64.le_iff_toNat_le.mp order
    rw [show (0x80200000 : UInt64).toNat = 0x80200000 from rfl] at order'
    omega
  refine onePage.mapped.toGrown.offTables
    (offTables_empty empty_twoRoots fun r => low _ ?_) fun page member =>
      low page ?_
  · cases r <;> decide
  · have small : ∀ page ∈ fewPagesFree true, page ≤ 0x80200000 :=
      forall_of_all (by decide +kernel)
    exact small page member

/-- Eight addresses in the middle of the page. -/
theorem pages_onePage :
    ∀ index < 8, pageOf (0x1004 + UInt64.ofNat index) = pageOf 0x1000 ∧
      (0x1004 + UInt64.ofNat index).toNat % 4096 = 4 + index ∧
      0x1004 + UInt64.ofNat index < vaMax := by
  decide

namespace OnePage

variable (onePage : OnePage 0x1000 mem free)

include onePage

theorem isMapped {index : Nat} (bound : index < 8) :
    IsMapped mem.bytes (twoRoots false) (0x1004 + UInt64.ofNat index) := by
  obtain ⟨samePage, _, low⟩ := pages_onePage index bound
  exact ⟨low, (onePage.valid_iff _).mpr samePage⟩

theorem physical_eq {index : Nat} (bound : index < 8) :
    physical mem.bytes (twoRoots false) (0x1004 + UInt64.ofNat index) =
      0x80300000 + (4 + index) := by
  obtain ⟨samePage, offset, _⟩ := pages_onePage index bound
  have isPage : pteToPa (leafPte 0x80300000 userFlags) = 0x80300000 := by
    decide
  unfold physical
  rw [onePage.mapped.inside 0 Nat.one_pos _ samePage, isPage, offset]
  rfl

theorem copyRange : CopyRange twoRoots false mem 0x1004 0x80400000 8 := by
  have kernel : (0x80400000 : UInt64).toNat = 0x80400000 := rfl
  refine ⟨by decide, fun index _ => onePage.offTables (by omega),
    fun index bound byte isAt => ?_⟩
  change index < 8 at bound
  rw [(onePage.isMapped bound).byteAt_iff onePage.mapped.tables (by decide),
    onePage.physical_eq bound] at isAt
  exact ⟨onePage.offTables (by omega), fun other bound' => by omega⟩

end OnePage

/-- Bytes in the middle of a page are copied out and in. -/
theorem copies_translate_onePage :
    ∃ mem trace mem' trace', (uvmCopyout 0x80100000 0x1004 0x80400000 8).Runs
        mem trace mem' ∧
      CopiedOut mem 0x80100000 0x1004 0x80400000 8 mem' ∧
      (uvmCopyin 0x80100000 0x80400000 0x1004 8).Runs mem' trace' mem' := by
  obtain ⟨mem, free, onePage⟩ := OnePage.of_exec 0x1000 (by decide)
    (by decide) (by decide +kernel)
  have tables := onePage.mapped.tables
  have present : twoRoots false ≠ 0 := by decide
  have mapped : RangeMapped mem (twoRoots false) 0x1004 8 :=
    fun index bound => (isMapped_iff_translate tables present).mp
      (onePage.isMapped bound)
  have distinct : PagesDistinct mem (twoRoots false) 0x1004 8 := by
    intro index bound other bound' _ _ _ _ differs
    exact absurd ((pages_onePage index bound).1.trans
      (pages_onePage other bound').1.symm) differs
  obtain ⟨trace, mem', run, copied, trace', back⟩ :=
    (copies_translate tables present onePage.copyRange).2.1 mapped distinct
  exact ⟨mem, trace, mem', trace', run, copied, back⟩

end Mem
end WhuOs
