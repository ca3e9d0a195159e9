import WhuOs.Library.Moves
import WhuOs.Mem.Sv39

/-!
# Copies between the kernel and a process

`uvm_copyin` and `uvm_copyout` copy page by page, and `uvm_copyin_str` up to the
end of a string.  Each turn looks up the entry of its user address and copies
the bytes up to the end of the page.  The turns do not look at the permissions
of the entries.
-/

namespace WhuOs
namespace Mem

open Library
open Library.Bytes
open Program (Runs)

variable {ρ : Type} {root : ρ → UInt64} {r : ρ} {mem mem' : State}
  {free : Bool → List UInt64} {va : UInt64}

/-! ## Bytes of a turn -/

theorem setByte_self (bytes : Bytes) (address : UInt64) (value : UInt8) :
    setByte bytes address value address.toNat = value :=
  if_pos rfl

theorem setByte_of_ne
    (bytes : Bytes) {address : UInt64} (value : UInt8) {index : Nat}
    (differs : index ≠ address.toNat) :
    setByte bytes address value index = bytes index :=
  if_neg differs

theorem next_address
    {address : UInt64} {count : Nat} (some : 0 < count)
    (room : address.toNat + (count + 1) ≤ 2 ^ 64) :
    (address + 1).toNat = address.toNat + 1 := by
  rw [UInt64.toNat_add, show (1 : UInt64).toNat = 1 from rfl]
  omega

/-- Only the bytes at the destination change. -/
theorem copyBytes_others
    {dst : UInt64} (src : UInt64) {count address : Nat}
    (room : dst.toNat + count ≤ 2 ^ 64)
    (outside : ¬(dst.toNat ≤ address ∧ address < dst.toNat + count))
    (bytes : Bytes) : copyBytes count dst src bytes address = bytes address := by
  induction count generalizing dst src bytes with
  | zero => rfl
  | succ count inductionHypothesis =>
      unfold copyBytes
      cases Nat.eq_zero_or_pos count with
      | inl none =>
          subst none
          exact setByte_of_ne bytes _ (by omega)
      | inr some =>
          have next := next_address some room
          rw [inductionHypothesis (src + 1) (by omega) (by omega)]
          exact setByte_of_ne bytes _ (by omega)

/-- The byte loop moves bytes between addresses that are apart. -/
theorem copyBytes_moved
    {dst src : UInt64} {count : Nat} (room : dst.toNat + count ≤ 2 ^ 64)
    (room' : src.toNat + count ≤ 2 ^ 64)
    (disjoint : dst.toNat + count ≤ src.toNat ∨
      src.toNat + count ≤ dst.toNat ∨ count = 0) (bytes : Bytes) :
    Moved (dst.toNat + ·) (src.toNat + ·) count bytes
      (copyBytes count dst src bytes) := by
  induction count generalizing dst src bytes with
  | zero => exact .refl
  | succ count inductionHypothesis =>
      refine ⟨fun index bound => ?_, fun address outside =>
        copyBytes_others src room (fun inside => outside (address - dst.toNat)
          (by omega) (by omega)) bytes⟩
      unfold copyBytes
      cases Nat.eq_zero_or_pos count with
      | inl none =>
          subst none
          obtain rfl := Nat.lt_one_iff.mp bound
          exact setByte_self _ _ _
      | inr some =>
          have next := next_address some room
          have next' := next_address some room'
          cases index with
          | zero =>
              rw [copyBytes_others _ (by omega) (by omega)]
              exact setByte_self _ _ _
          | succ index =>
              have rest := (@inductionHypothesis (dst + 1) (src + 1) (by omega)
                (by omega) (by omega)
                (setByte bytes dst (bytes src.toNat))).moved index (by omega)
              rw [next, next', Nat.add_right_comm,
                Nat.add_right_comm src.toNat] at rest
              exact rest.trans (setByte_of_ne _ _ (by omega))

/-- The byte loop of a string: what it reads, and what it writes. -/
structure StrCopied (count : Nat) (dst src : UInt64) (bytes : Bytes)
    (result : Bytes × Nat × Bool) : Prop where
  some : 0 < count → 0 < result.2.1
  bound : result.2.1 ≤ count
  whole : result.2.2 = false → result.2.1 = count
  others : ∀ address, ¬(dst.toNat ≤ address ∧ address < dst.toNat + count) →
    result.1 address = bytes address
  proper : ∀ index < result.2.1, result.2.2 = false ∨ index + 1 < result.2.1 →
    bytes (src.toNat + index) ≠ 0
  ended : result.2.2 = true → ∃ last, result.2.1 = last + 1 ∧
    bytes (src.toNat + last) = 0

theorem copyStrBytes_copied
    {dst src : UInt64} {count : Nat} (room : dst.toNat + count ≤ 2 ^ 64)
    (room' : src.toNat + count ≤ 2 ^ 64)
    (disjoint : dst.toNat + count ≤ src.toNat ∨
      src.toNat + count ≤ dst.toNat ∨ count = 0) (bytes : Bytes) :
    StrCopied count dst src bytes (copyStrBytes count dst src bytes) := by
  induction count generalizing dst src bytes with
  | zero =>
      exact ⟨fun none => none, Nat.le_refl 0, fun _ => rfl, fun _ _ => rfl,
        fun _ none => absurd none (Nat.not_lt_zero _), nofun⟩
  | succ count inductionHypothesis =>
      have same : setByte bytes dst (bytes src.toNat) src.toNat =
          bytes src.toNat := by
        by_cases atDst : src.toNat = dst.toNat
        · rw [atDst]
          exact setByte_self _ _ _
        · exact setByte_of_ne _ _ atDst
      unfold copyStrBytes
      dsimp only
      rw [same]
      by_cases isEnd : bytes src.toNat = 0
      · rw [if_pos isEnd]
        refine ⟨fun _ => Nat.one_pos, Nat.succ_pos count, nofun,
          fun address outside => setByte_of_ne _ _ (by omega),
          fun index bound proper => ?_, fun _ => ⟨0, rfl, isEnd⟩⟩
        rcases proper with impossible | less
        · cases impossible
        · change index + 1 < 1 at less
          omega
      · rw [if_neg isEnd]
        cases Nat.eq_zero_or_pos count with
        | inl none =>
            subst none
            refine ⟨fun _ => Nat.one_pos, Nat.le_refl 1, fun _ => rfl,
              fun address outside => setByte_of_ne _ _ (by omega),
              fun index bound _ => ?_, nofun⟩
            obtain rfl := Nat.lt_one_iff.mp bound
            exact isEnd
        | inr some =>
            have next := next_address some room
            have next' := next_address some room'
            have rest := @inductionHypothesis (dst + 1) (src + 1) (by omega)
              (by omega) (by omega) (setByte bytes dst (bytes src.toNat))
            have kept : ∀ index < count,
                setByte bytes dst (bytes src.toNat)
                    ((src + 1).toNat + index) =
                  bytes (src.toNat + (index + 1)) := by
              intro index bound
              rw [next', Nat.add_right_comm]
              exact setByte_of_ne _ _ (by omega)
            refine ⟨fun _ => Nat.succ_pos _, Nat.succ_le_succ rest.bound,
              fun whole => congrArg (· + 1) (rest.whole whole),
              fun address outside => ?_, fun index bound proper => ?_,
              fun ended => ?_⟩
            · rw [rest.others address (by omega)]
              exact setByte_of_ne _ _ (by omega)
            · cases index with
              | zero => exact isEnd
              | succ index =>
                  have isRead := Nat.lt_of_succ_lt_succ bound
                  rw [← kept index (Nat.lt_of_lt_of_le isRead rest.bound)]
                  exact rest.proper index isRead
                    (proper.imp_right Nat.lt_of_succ_lt_succ)
            · obtain ⟨last, isLast, isNull⟩ := rest.ended ended
              have read := rest.bound
              rw [kept last (by omega)] at isNull
              exact ⟨last + 1, congrArg (· + 1) isLast, isNull⟩

/-! ## Turns -/

/-- The physical address of a byte of a process. -/
def physical (bytes : Bytes) (root va : UInt64) : Nat :=
  (pteToPa (pteAt bytes root va)).toNat + va.toNat % 4096

/-- A user address whose page is mapped. -/
def IsMapped (bytes : Bytes) (root va : UInt64) : Prop :=
  va < vaMax ∧ isValid (pteAt bytes root va) = true

/-- An address outside of all tables. -/
def OffTables (bytes : Bytes) (root : ρ → UInt64) (address : Nat) : Prop :=
  ∀ r path, path.length ≤ 2 → tableAt bytes (root r) path ≠ 0 →
    ¬InPage address (tableAt bytes (root r) path)

/-- Memory with the same tables. -/
structure SameTables (root : ρ → UInt64) (free : Bool → List UInt64)
    (bytes bytes' : Bytes) : Prop where
  tables : Tables bytes' root free
  ptes : ∀ r va, pteAt bytes' (root r) va = pteAt bytes (root r) va
  places : ∀ r path, path.length ≤ 2 →
    tableAt bytes' (root r) path = tableAt bytes (root r) path

namespace SameTables

variable {bytes bytes' bytes'' : Bytes}

theorem refl (tables : Tables bytes root free) :
    SameTables root free bytes bytes :=
  ⟨tables, fun _ _ => rfl, fun _ _ _ => rfl⟩

theorem trans
    (first : SameTables root free bytes bytes')
    (second : SameTables root free bytes' bytes'') :
    SameTables root free bytes bytes'' :=
  ⟨second.tables, fun r va => (second.ptes r va).trans (first.ptes r va),
    fun r path bound =>
      (second.places r path bound).trans (first.places r path bound)⟩

/-- Writes outside of the tables. -/
theorem of_offTables
    (tables : Tables bytes root free)
    (changed : ∀ address, bytes' address ≠ bytes address →
      OffTables bytes root address) :
    SameTables root free bytes bytes' := by
  have kept : ∀ r path index, path.length ≤ 2 →
      tableAt bytes (root r) path ≠ 0 →
      entryOf bytes' (tableAt bytes (root r) path) index =
        entryOf bytes (tableAt bytes (root r) path) index := by
    intro r path index bound present
    refine read64_congr fun offset inside => ?_
    by_contra differs
    refine changed _ differs r path bound present ?_
    have low := index.isLt
    exact ⟨by omega, by omega⟩
  have above : ∀ r path index, path.length < 2 →
      tableAt bytes (root r) path ≠ 0 →
      entryOf bytes' (tableAt bytes (root r) path) index =
        entryOf bytes (tableAt bytes (root r) path) index :=
    fun r path index short => kept r path index (Nat.le_of_lt short)
  have places := tableAt_of_kept above
  refine ⟨tables.of_kept above fun _ _ taken _ => taken, fun r va => ?_, places⟩
  have length : (pathTo va 0).length ≤ 2 := Nat.le_refl 2
  unfold pteAt
  rw [places r _ length]
  split
  · rfl
  · next present => exact kept r _ _ length present

variable (same : SameTables root free bytes bytes')

include same

theorem isMapped_iff (r : ρ) (va : UInt64) :
    IsMapped bytes' (root r) va ↔ IsMapped bytes (root r) va := by
  unfold IsMapped
  rw [same.ptes]

theorem physical_eq (r : ρ) (va : UInt64) :
    physical bytes' (root r) va = physical bytes (root r) va := by
  unfold physical
  rw [same.ptes]

theorem offTables_iff (address : Nat) :
    OffTables bytes' root address ↔ OffTables bytes root address := by
  unfold OffTables
  constructor
  · intro off r path bound
    have here := off r path bound
    rw [same.places r path bound] at here
    exact here
  · intro off r path bound
    rw [same.places r path bound]
    exact off r path bound

end SameTables

theorem and_4095_toNat (va : UInt64) : (va &&& 4095).toNat = va.toNat % 4096 := by
  have mask : (4095 : UInt64).toNat = 2 ^ 12 - 1 := rfl
  rw [UInt64.toNat_and, mask, Nat.and_two_pow_sub_one_eq_mod]

/-- A turn copies at least a byte and stays in one page. -/
theorem bytesToCopy_toNat
    (va : UInt64) {len copied : UInt32} (more : copied < len) :
    0 < (bytesToCopy va len copied).toNat ∧
      (bytesToCopy va len copied).toNat ≤ len.toNat - copied.toNat ∧
      va.toNat % 4096 + (bytesToCopy va len copied).toNat ≤ 4096 := by
  have order := UInt32.lt_iff_toNat_lt.mp more
  have offset := and_4095_toNat va
  have below : va &&& 4095 ≤ 4096 := by
    rw [UInt64.le_iff_toNat_le, offset, show (4096 : UInt64).toNat = 4096 from rfl]
    omega
  have inPage : (4096 - (va &&& 4095)).toUInt32.toNat =
      4096 - va.toNat % 4096 := by
    rw [UInt64.toNat_toUInt32, UInt64.toNat_sub_of_le _ _ below, offset,
      show (4096 : UInt64).toNat = 4096 from rfl]
    omega
  have left : (len - copied).toNat = len.toNat - copied.toNat :=
    UInt32.toNat_sub_of_le _ _ (UInt32.le_of_lt more)
  unfold bytesToCopy
  dsimp only
  split
  · next less =>
      rw [UInt32.lt_iff_toNat_lt, inPage, left] at less
      rw [left]
      omega
  · next notLess =>
      rw [UInt32.not_lt, UInt32.le_iff_toNat_le, inPage, left] at notLess
      rw [inPage]
      omega

theorem vaMax_eq : vaMax.toNat = 2 ^ 38 := rfl

theorem ofNat_add_assoc (va : UInt64) (count index : Nat) :
    va + UInt64.ofNat count + UInt64.ofNat index =
      va + UInt64.ofNat (count + index) := by
  rw [UInt64.ofNat_add, UInt64.add_assoc]

theorem add_ofNat_toNat
    {address : UInt64} {index : Nat} (room : address.toNat + index < 2 ^ 64) :
    (address + UInt64.ofNat index).toNat = address.toNat + index := by
  rw [UInt64.toNat_add, UInt64.toNat_ofNat']
  omega

theorem pageOf_in_page
    (low : va < vaMax) {index : Nat}
    (inside : va.toNat % 4096 + index < 4096) :
    pageOf (va + UInt64.ofNat index) = pageOf va := by
  rw [UInt64.lt_iff_toNat_lt, vaMax_eq] at low
  unfold pageOf
  rw [@add_ofNat_toNat va index (by omega)]
  omega

/-- The bytes of one page. -/
theorem physical_in_page
    (bytes : Bytes) (root : UInt64) (low : va < vaMax) {index : Nat}
    (inside : va.toNat % 4096 + index < 4096) :
    physical bytes root (va + UInt64.ofNat index) =
        physical bytes root va + index ∧
      (IsMapped bytes root (va + UInt64.ofNat index) ↔
        IsMapped bytes root va) := by
  have samePage := pageOf_in_page low inside
  rw [UInt64.lt_iff_toNat_lt, vaMax_eq] at low
  have sum := @add_ofNat_toNat va index (by omega)
  have both : va + UInt64.ofNat index < vaMax ↔ va < vaMax := by
    rw [UInt64.lt_iff_toNat_lt, UInt64.lt_iff_toNat_lt, sum, vaMax_eq]
    omega
  unfold physical IsMapped
  rw [pteAt_congr samePage, sum, both]
  refine ⟨by omega, Iff.rfl⟩

/-- The pointer of a turn. -/
theorem pa_toNat (bytes : Bytes) (root va : UInt64) :
    (pteToPa (pteAt bytes root va) + (va &&& 4095)).toNat =
        physical bytes root va ∧
      physical bytes root va + (4096 - va.toNat % 4096) ≤ 2 ^ 64 := by
  have room := (aligned_pteToPa (pteAt bytes root va)).room
  have offset := and_4095_toNat va
  unfold physical
  rw [UInt64.toNat_add, offset]
  omega

/-- Where a byte of a copy lies on the side of the process or of the kernel. -/
def place (user : Bool) (bytes : Bytes) (root va kernel : UInt64)
    (index : Nat) : Nat :=
  if user then physical bytes root (va + UInt64.ofNat index)
  else kernel.toNat + index

theorem place_next
    (user : Bool) (bytes : Bytes) (root va : UInt64) {kernel : UInt64}
    {count index : Nat} (room : kernel.toNat + (count + index) < 2 ^ 64) :
    place user bytes root (va + UInt64.ofNat count)
        (kernel + UInt64.ofNat count) index =
      place user bytes root va kernel (count + index) := by
  unfold place
  rw [ofNat_add_assoc, add_ofNat_toNat (by omega), Nat.add_assoc]

/-- The memory after a turn. -/
def turnBytes (out : Bool) (bytes : Bytes) (root va kernel : UInt64)
    (count : Nat) : Bytes :=
  let pa := pteToPa (pteAt bytes root va) + (va &&& 4095)
  if out then copyBytes count pa kernel bytes
  else copyBytes count kernel pa bytes

section TurnBytes

variable {out : Bool} {bytes : Bytes} {kernel : UInt64} {count : Nat}
  (low : va < vaMax) (inside : va.toNat % 4096 + count ≤ 4096)
  (room : kernel.toNat + count ≤ 2 ^ 64)

include low inside room

/-- A turn changes bytes at its targets only. -/
theorem turnBytes_others
    {root : UInt64} {address : Nat}
    (outside : ∀ index < count,
      place out bytes root va kernel index ≠ address) :
    turnBytes out bytes root va kernel count address = bytes address := by
  obtain ⟨isPa, paRoom⟩ := pa_toNat bytes root va
  unfold turnBytes
  cases out with
  | true =>
      refine copyBytes_others kernel (by omega) (fun both => ?_) bytes
      refine outside (address - physical bytes root va) (by omega) ?_
      unfold place
      rw [if_pos rfl, (physical_in_page bytes root low (by omega)).1]
      omega
  | false =>
      refine copyBytes_others _ room (fun both => ?_) bytes
      refine outside (address - kernel.toNat) (by omega) ?_
      unfold place
      rw [if_neg (by decide)]
      omega

theorem turnBytes_moved
    {root : UInt64} (apart : Apart (place out bytes root va kernel)
      (place (!out) bytes root va kernel) count) :
    Moved (place out bytes root va kernel) (place (!out) bytes root va kernel)
      count bytes (turnBytes out bytes root va kernel count) := by
  obtain ⟨isPa, paRoom⟩ := pa_toNat bytes root va
  have users : ∀ index < count, place true bytes root va kernel index =
      (pteToPa (pteAt bytes root va) + (va &&& 4095)).toNat + index := by
    intro index bound
    unfold place
    rw [if_pos rfl, (physical_in_page bytes root low (by omega)).1, isPa]
  have kernels : ∀ index < count, place false bytes root va kernel index =
      kernel.toNat + index := fun _ _ => rfl
  have differs : ∀ index < count, ∀ other < count,
      (pteToPa (pteAt bytes root va) + (va &&& 4095)).toNat + index ≠
        kernel.toNat + other := by
    intro index bound other bound' same
    rw [← users index bound, ← kernels other bound'] at same
    cases out with
    | true => exact apart.disjoint index bound other bound' same
    | false => exact apart.disjoint other bound' index bound same.symm
  have disjoint := ranges_apart differs
  unfold turnBytes
  cases out with
  | true =>
      exact (copyBytes_moved (by omega) room disjoint bytes).congr users kernels
  | false =>
      exact (copyBytes_moved room (by omega) (by omega) bytes).congr kernels
        users

/-- The bytes of a turn to a process are stored one after the other. -/
theorem turnBytes_put
    {root : UInt64} (disjoint : ∀ index < count, ∀ other < count,
      place true bytes root va kernel index ≠ kernel.toNat + other) :
    turnBytes true bytes root va kernel count =
      put bytes (place true bytes root va kernel)
        (fun index => bytes (kernel.toNat + index)) count := by
  have injective : ∀ index < count, ∀ other < count,
      place true bytes root va kernel index =
        place true bytes root va kernel other → index = other := by
    intro index bound other bound' same
    unfold place at same
    rw [if_pos rfl, if_pos rfl, (physical_in_page bytes root low
      (by omega)).1, (physical_in_page bytes root low (by omega)).1] at same
    exact Nat.add_left_cancel same
  have moved : Moved (place true bytes root va kernel)
      (place false bytes root va kernel) count bytes
      (turnBytes true bytes root va kernel count) :=
    turnBytes_moved low inside room ⟨disjoint, injective⟩
  funext address
  by_cases target : ∃ index < count, place true bytes root va kernel index =
      address
  · obtain ⟨index, bound, rfl⟩ := target
    rw [moved.moved index bound, put_target injective bound]
    rfl
  · have outside : ∀ index < count,
        place true bytes root va kernel index ≠ address :=
      fun index bound same => target ⟨index, bound, same⟩
    rw [moved.others address outside, put_of_ne outside]

end TurnBytes

/-! ## Loops -/

/-- What a number of turns has done. -/
structure Turns (root : ρ → UInt64) (r : ρ) (out : Bool) (va kernel : UInt64)
    (total : Nat) (mem : State) (free : Bool → List UInt64)
    (trace : List Transfer) (mem' : State) (moved : Nat) : Prop where
  bound : moved ≤ total
  mapped : ∀ index < moved,
    IsMapped mem.bytes (root r) (va + UInt64.ofNat index)
  transfers : ∀ transfer ∈ trace, ∃ first,
    first + transfer.count.toNat ≤ moved ∧ 0 < transfer.count.toNat ∧
    transfer.va = va + UInt64.ofNat first ∧
    transfer.pte = pteAt mem.bytes (root r) transfer.va
  frame : mem' = mem.setBytes mem'.bytes
  same : SameTables root free mem.bytes mem'.bytes
  others : ∀ address, (∀ index < moved,
      place out mem.bytes (root r) va kernel index ≠ address) →
    mem'.bytes address = mem.bytes address
  moves : Apart (place out mem.bytes (root r) va kernel)
      (place (!out) mem.bytes (root r) va kernel) total →
    Moved (place out mem.bytes (root r) va kernel)
      (place (!out) mem.bytes (root r) va kernel) moved mem.bytes mem'.bytes

theorem Turns.refl
    (tables : Tables mem.bytes root free) (out : Bool) (va kernel : UInt64)
    (total : Nat) : Turns root r out va kernel total mem free [] mem 0 where
  bound := Nat.zero_le total
  mapped _ none := absurd none (Nat.not_lt_zero _)
  transfers := nofun
  frame := rfl
  same := .refl tables
  others _ _ := rfl
  moves _ := .refl

/-- A turn that writes outside of the tables. -/
theorem sameTables_turn
    {out : Bool} {kernel : UInt64} {count : Nat}
    (tables : Tables mem.bytes root free)
    (isMapped : IsMapped mem.bytes (root r) va)
    (inside : va.toNat % 4096 + count ≤ 4096)
    (room : kernel.toNat + count ≤ 2 ^ 64)
    (off : ∀ index < count,
      OffTables mem.bytes root (place out mem.bytes (root r) va kernel index)) :
    SameTables root free mem.bytes
      (turnBytes out mem.bytes (root r) va kernel count) := by
  refine .of_offTables tables fun address changed => ?_
  by_contra onTables
  refine changed (turnBytes_others isMapped.1 inside room ?_)
  rintro index bound rfl
  exact onTables (off index bound)

/-- The places of the bytes that follow a turn. -/
theorem SameTables.places_next
    {out : Bool} {kernel : UInt64} {count total : Nat}
    (same : SameTables root free mem.bytes
      (turnBytes out mem.bytes (root r) va kernel count))
    (room : kernel.toNat + total ≤ 2 ^ 64) (user : Bool) :
    ∀ index < total - count,
      place user (turnBytes out mem.bytes (root r) va kernel count) (root r)
        (va + UInt64.ofNat count) (kernel + UInt64.ofNat count) index =
      place user mem.bytes (root r) va kernel (count + index) := by
  intro index bound
  rw [← place_next user mem.bytes (root r) va (by omega)]
  unfold place
  rw [same.physical_eq]

/-- One turn, and the turns that follow it. -/
theorem Turns.cons
    {out : Bool} {kernel : UInt64} {total count moved : Nat} {size : UInt32}
    {trace : List Transfer} (isMapped : IsMapped mem.bytes (root r) va)
    (some : 0 < count) (isSize : size.toNat = count)
    (inside : va.toNat % 4096 + count ≤ 4096) (within : count ≤ total)
    (room : kernel.toNat + total ≤ 2 ^ 64)
    (same : SameTables root free mem.bytes
      (turnBytes out mem.bytes (root r) va kernel count))
    (turns : Turns root r out (va + UInt64.ofNat count)
      (kernel + UInt64.ofNat count) (total - count) (mem.setBytes
        (turnBytes out mem.bytes (root r) va kernel count)) free trace mem'
      moved) :
    Turns root r out va kernel total mem free
      (⟨va, pteAt mem.bytes (root r) va, size⟩ :: trace) mem'
      (count + moved) := by
  have within' := turns.bound
  have places := same.places_next room
  refine ⟨by omega, fun index bound => ?_, fun transfer member => ?_, ?_,
    same.trans turns.same, fun address outside => ?_, fun apart => ?_⟩
  · by_cases isFirst : index < count
    · exact (physical_in_page mem.bytes (root r) isMapped.1 (by omega)).2.mpr
        isMapped
    · obtain ⟨other, rfl⟩ := Nat.exists_eq_add_of_le (Nat.not_lt.mp isFirst)
      rw [← ofNat_add_assoc, ← same.isMapped_iff]
      exact turns.mapped other (by omega)
  · rcases List.mem_cons.mp member with rfl | later
    · refine ⟨0, ?_, ?_, (UInt64.add_zero va).symm, rfl⟩
      · dsimp only
        omega
      · dsimp only
        omega
    · obtain ⟨first, last, proper, isVa, isPte⟩ := turns.transfers transfer later
      refine ⟨count + first, by omega, proper, ?_, ?_⟩
      · rw [← ofNat_add_assoc]
        exact isVa
      · rw [isPte]
        exact same.ptes r transfer.va
  · rw [turns.frame]
    rfl
  · have kept := turns.others address fun index bound => by
      rw [State.setBytes_bytes, places out index (by omega)]
      exact outside _ (by omega)
    rw [kept]
    exact turnBytes_others isMapped.1 inside (by omega) fun index bound =>
      outside index (by omega)
  · have apart₂ : Apart
        (fun index => place out mem.bytes (root r) va kernel (count + index))
        (fun index => place (!out) mem.bytes (root r) va kernel
          (count + index)) (total - count) :=
      (apart.mono (Nat.le_of_eq (Nat.add_sub_cancel' within))).later
    have moves := (turns.moves (apart₂.congr (places out) (places !out))).congr
      (fun index bound => (places out index (by omega)).symm)
      (fun index bound => (places (!out) index (by omega)).symm)
    exact (turnBytes_moved isMapped.1 inside (by omega)
      (apart.mono within)).trans moves (apart.mono (by omega))

/-- The lookup of a copy loop. -/
theorem lookup_checked
    {α : Type} (tables : Tables mem.bytes root free) (present : root r ≠ 0)
    {message : String} {body : UInt64 → MemM α} {result : α} :
    (do
      let entry ← vmGetpte (root r) va false
      Program.assert (entry ≠ 0) message
      let pte ← load entry
      Program.assert (isValid pte) message
      body pte : MemM α).Runs mem result mem' ↔
    IsMapped mem.bytes (root r) va ∧
      (body (pteAt mem.bytes (root r) va)).Runs mem result mem' := by
  have isRoot : rootOf mem (root r) = root r := if_neg present
  simp only [Program.runs_bind, vmGetpte_lookup tables isRoot present,
    Program.runs_assert, decide_eq_true_eq]
  constructor
  · rintro ⟨_, _, ⟨low, rfl, rfl⟩, _, _, ⟨proper, rfl⟩, pte, _, loads, _, _,
      ⟨valid, rfl⟩, run⟩
    have below := mt (entryPointer_eq_zero tables).mpr proper
    obtain ⟨rfl, rfl⟩ := (load_entryPointer tables below).deterministic loads
    exact ⟨⟨low, valid⟩, run⟩
  · rintro ⟨⟨low, valid⟩, run⟩
    have below := tableAt_of_isValid valid
    exact ⟨_, mem, ⟨low, rfl, rfl⟩, (), mem,
      ⟨(entryPointer_of_present tables below).2, rfl⟩, _, mem,
      load_entryPointer tables below, (), mem, ⟨valid, rfl⟩, run⟩

section CopyLoop

variable {message : String} {out : Bool} {len copied : UInt32}
  {kernel : UInt64} {fuel : Nat} {trace : List Transfer}

/-- One turn of the loop of `uvm_copyin` and `uvm_copyout`. -/
theorem copyLoop_turn
    (tables : Tables mem.bytes root free) (present : root r ≠ 0)
    (more : copied < len) :
    (copyLoop message out (root r) len (fuel + 1) va kernel copied).Runs mem
        trace mem' ↔
      IsMapped mem.bytes (root r) va ∧ ∃ rest,
        trace = ⟨va, pteAt mem.bytes (root r) va,
          bytesToCopy va len copied⟩ :: rest ∧
        (copyLoop message out (root r) len fuel
            (va + (bytesToCopy va len copied).toUInt64)
            (kernel + (bytesToCopy va len copied).toUInt64)
            (copied + bytesToCopy va len copied)).Runs
          (mem.setBytes (turnBytes out mem.bytes (root r) va kernel
            (bytesToCopy va len copied).toNat)) rest mem' := by
  rw [copyLoop, if_pos more, lookup_checked tables present]
  refine and_congr_right fun _ => ?_
  simp only [Program.runs_bind, Program.runs_modify, Program.runs_pure]
  constructor
  · rintro ⟨_, _, rfl, rest, _, run, rfl, rfl⟩
    exact ⟨rest, rfl, run⟩
  · rintro ⟨rest, rfl, run⟩
    exact ⟨(), _, rfl, rest, mem', run, rfl, rfl⟩

theorem copyLoop_done
    {pgtbl : UInt64} (done : ¬copied < len) :
    (copyLoop message out pgtbl len fuel va kernel copied).Runs mem trace mem' ↔
      trace = [] ∧ mem' = mem := by
  cases fuel with
  | zero => simp [copyLoop, eq_comm]
  | succ fuel => simp [copyLoop, done, eq_comm]

/-- The bytes that are left after a turn. -/
theorem left_after
    (va : UInt64) (more : copied < len) :
    (copied + bytesToCopy va len copied).toNat =
        copied.toNat + (bytesToCopy va len copied).toNat ∧
      len.toNat - (copied + bytesToCopy va len copied).toNat =
        len.toNat - copied.toNat - (bytesToCopy va len copied).toNat := by
  have order := UInt32.lt_iff_toNat_lt.mp more
  have bound := len.toNat_lt
  obtain ⟨_, fits, _⟩ := bytesToCopy_toNat va more
  rw [UInt32.toNat_add]
  omega

theorem toUInt64_eq_ofNat (count : UInt32) :
    count.toUInt64 = UInt64.ofNat count.toNat := by
  apply UInt64.toNat.inj
  have bound := count.toNat_lt
  rw [UInt32.toNat_toUInt64, UInt64.toNat_ofNat']
  omega

/-- A copy whose targets are outside of the tables, as far as the pages of the
process are mapped, and that does not go around the end of the addresses of the
kernel. -/
structure CopyReady (root : ρ → UInt64) (r : ρ) (out : Bool) (len : UInt32)
    (mem : State) (free : Bool → List UInt64) (va kernel : UInt64)
    (copied : UInt32) : Prop where
  tables : Tables mem.bytes root free
  room : kernel.toNat + (len.toNat - copied.toNat) ≤ 2 ^ 64
  off : ∀ index < len.toNat - copied.toNat,
    (∀ other ≤ index,
      IsMapped mem.bytes (root r) (va + UInt64.ofNat other)) →
    OffTables mem.bytes root (place out mem.bytes (root r) va kernel index)

variable (ready : CopyReady root r out len mem free va kernel copied)
  (present : root r ≠ 0)

include ready

/-- A copy is ready for the turn after the next one. -/
theorem CopyReady.turn
    (more : copied < len) (isMapped : IsMapped mem.bytes (root r) va) :
    SameTables root free mem.bytes (turnBytes out mem.bytes (root r) va kernel
        (bytesToCopy va len copied).toNat) ∧
      CopyReady root r out len (mem.setBytes (turnBytes out mem.bytes (root r)
          va kernel (bytesToCopy va len copied).toNat)) free
        (va + (bytesToCopy va len copied).toUInt64)
        (kernel + (bytesToCopy va len copied).toUInt64)
        (copied + bytesToCopy va len copied) := by
  obtain ⟨some, fits, inside⟩ := bytesToCopy_toNat va more
  obtain ⟨_, left⟩ := left_after va more
  rw [toUInt64_eq_ofNat]
  generalize bytesToCopy va len copied = size at *
  have room := ready.room
  have inPage : ∀ index < size.toNat,
      IsMapped mem.bytes (root r) (va + UInt64.ofNat index) :=
    fun index bound => (physical_in_page mem.bytes (root r) isMapped.1
      (by omega)).2.mpr isMapped
  have off : ∀ index < size.toNat, OffTables mem.bytes root
      (place out mem.bytes (root r) va kernel index) :=
    fun index bound => ready.off index (by omega) fun other atMost =>
      inPage other (by omega)
  have same := sameTables_turn ready.tables isMapped inside (by omega) off
  refine ⟨same, same.tables, ?_, fun index bound before => ?_⟩
  · rw [UInt64.toNat_add, UInt64.toNat_ofNat']
    omega
  · rw [left] at bound
    rw [State.setBytes_bytes] at before ⊢
    rw [same.offTables_iff, same.places_next room out index bound]
    refine ready.off (size.toNat + index) (by omega) fun other atMost => ?_
    by_cases isFirst : other < size.toNat
    · exact inPage other isFirst
    · obtain ⟨rest, rfl⟩ := Nat.exists_eq_add_of_le (Nat.not_lt.mp isFirst)
      rw [← ofNat_add_assoc, ← same.isMapped_iff]
      exact before rest (by omega)

include present

/-- The loop of `uvm_copyin` and `uvm_copyout`, for any number of turns. -/
theorem copyLoop_turns
    (run : (copyLoop message out (root r) len fuel va kernel copied).Runs mem
      trace mem') :
    ∃ moved, Turns root r out va kernel (len.toNat - copied.toNat) mem free
        trace mem' moved ∧
      (len.toNat - copied.toNat ≤ fuel → moved = len.toNat - copied.toNat) := by
  induction fuel generalizing mem va kernel copied trace with
  | zero =>
      obtain ⟨rfl, rfl⟩ := Program.runs_pure.mp run
      exact ⟨0, .refl ready.tables _ _ _ _, by omega⟩
  | succ fuel inductionHypothesis =>
      by_cases more : copied < len
      · obtain ⟨some, fits, inside⟩ := bytesToCopy_toNat va more
        obtain ⟨_, left⟩ := left_after va more
        rw [copyLoop_turn ready.tables present more] at run
        obtain ⟨isMapped, rest, rfl, run⟩ := run
        obtain ⟨same, ready'⟩ := ready.turn more isMapped
        obtain ⟨moved, turns, all⟩ := inductionHypothesis ready' run
        rw [left, toUInt64_eq_ofNat] at turns
        rw [left] at all
        refine ⟨(bytesToCopy va len copied).toNat + moved, turns.cons isMapped
          some rfl inside fits ready.room same, fun fueled => ?_⟩
        rw [all (by omega)]
        omega
      · obtain ⟨rfl, rfl⟩ := (copyLoop_done more).mp run
        rw [UInt32.not_lt, UInt32.le_iff_toNat_le] at more
        exact ⟨0, .refl ready.tables _ _ _ _, by omega⟩

/-- The loop ends if all bytes that are left are mapped. -/
theorem copyLoop_total
    (mapped : ∀ index < len.toNat - copied.toNat,
      IsMapped mem.bytes (root r) (va + UInt64.ofNat index)) :
    ∃ trace mem', (copyLoop message out (root r) len fuel va kernel copied).Runs
      mem trace mem' := by
  induction fuel generalizing mem va kernel copied with
  | zero => exact ⟨[], mem, Program.runs_pure.mpr ⟨rfl, rfl⟩⟩
  | succ fuel inductionHypothesis =>
      by_cases more : copied < len
      · obtain ⟨some, fits, _⟩ := bytesToCopy_toNat va more
        obtain ⟨_, left⟩ := left_after va more
        have isMapped := mapped 0 (by omega)
        rw [show UInt64.ofNat 0 = 0 from rfl, UInt64.add_zero] at isMapped
        obtain ⟨same, ready'⟩ := ready.turn more isMapped
        obtain ⟨rest, mem', run⟩ := inductionHypothesis ready'
          (fun index bound => by
            rw [State.setBytes_bytes, same.isMapped_iff, toUInt64_eq_ofNat,
              ofNat_add_assoc]
            exact mapped _ (by omega))
        exact ⟨_, mem', (copyLoop_turn ready.tables present more).mpr
          ⟨isMapped, rest, rfl, run⟩⟩
      · exact ⟨[], mem, (copyLoop_done more).mpr ⟨rfl, rfl⟩⟩

/-- Some number of turns gets to a byte if all bytes up to it are mapped. -/
theorem copyLoop_reaches
    {index : Nat} (bound : index < len.toNat - copied.toNat)
    (mapped : ∀ other ≤ index,
      IsMapped mem.bytes (root r) (va + UInt64.ofNat other)) :
    ∃ fuel trace mem', (copyLoop message out (root r) len fuel va kernel
        copied).Runs mem trace mem' ∧
      ∃ transfer ∈ trace, transfer.pte =
        pteAt mem.bytes (root r) (va + UInt64.ofNat index) := by
  induction index using Nat.strong_induction_on generalizing mem va kernel
    copied with
  | h index inductionHypothesis =>
      have more : copied < len := by
        rw [UInt32.lt_iff_toNat_lt]
        omega
      obtain ⟨some, fits, inside⟩ := bytesToCopy_toNat va more
      obtain ⟨_, left⟩ := left_after va more
      have isMapped := mapped 0 (Nat.zero_le index)
      rw [show UInt64.ofNat 0 = 0 from rfl, UInt64.add_zero] at isMapped
      by_cases isFirst : index < (bytesToCopy va len copied).toNat
      · refine ⟨1, _, _, (copyLoop_turn ready.tables present more).mpr
          ⟨isMapped, [], rfl, Program.runs_pure.mpr ⟨rfl, rfl⟩⟩, _,
          List.mem_cons_self, ?_⟩
        exact pteAt_congr (pageOf_in_page isMapped.1 (by omega)).symm
      · obtain ⟨same, ready'⟩ := ready.turn more isMapped
        obtain ⟨fuel, rest, mem', run, transfer, member, isPte⟩ :=
          inductionHypothesis (index - (bytesToCopy va len copied).toNat)
            (by omega) ready' (by omega) (fun other atMost => by
              rw [State.setBytes_bytes, same.isMapped_iff, toUInt64_eq_ofNat,
                ofNat_add_assoc]
              exact mapped _ (by omega))
        refine ⟨fuel + 1, _, mem', (copyLoop_turn ready.tables present
          more).mpr ⟨isMapped, rest, rfl, run⟩, transfer,
          List.mem_cons_of_mem _ member, ?_⟩
        rw [isPte, State.setBytes_bytes, same.ptes, toUInt64_eq_ofNat,
          ofNat_add_assoc, Nat.add_sub_cancel' (Nat.not_lt.mp isFirst)]

omit ready in
/-- A whole copy to a process stores one byte after the other. -/
theorem copyLoop_put
    (ready : CopyReady root r true len mem free va kernel copied)
    (enough : len.toNat - copied.toNat ≤ fuel)
    (mapped : ∀ index < len.toNat - copied.toNat,
      IsMapped mem.bytes (root r) (va + UInt64.ofNat index))
    (disjoint : ∀ index < len.toNat - copied.toNat,
      ∀ other < len.toNat - copied.toNat,
        place true mem.bytes (root r) va kernel index ≠
          kernel.toNat + other) :
    ∃ trace, (copyLoop message true (root r) len fuel va kernel copied).Runs
      mem trace (mem.setBytes (put mem.bytes
        (place true mem.bytes (root r) va kernel)
        (fun index => mem.bytes (kernel.toNat + index))
        (len.toNat - copied.toNat))) := by
  induction fuel generalizing mem va kernel copied with
  | zero =>
      rw [Nat.le_zero.mp enough]
      exact ⟨[], Program.runs_pure.mpr ⟨rfl, rfl⟩⟩
  | succ fuel inductionHypothesis =>
      by_cases more : copied < len
      · obtain ⟨some, fits, inside⟩ := bytesToCopy_toNat va more
        obtain ⟨_, left⟩ := left_after va more
        have room := ready.room
        have isMapped := mapped 0 (by omega)
        rw [show UInt64.ofNat 0 = 0 from rfl, UInt64.add_zero] at isMapped
        obtain ⟨same, ready'⟩ := ready.turn more isMapped
        have places := same.places_next room
        have turn := turnBytes_put isMapped.1 inside (by omega)
          fun index bound other bound' => disjoint index (by omega) other
            (by omega)
        have targets : ∀ index < len.toNat -
              (copied + bytesToCopy va len copied).toNat,
            place true (turnBytes true mem.bytes (root r) va kernel
                (bytesToCopy va len copied).toNat) (root r)
              (va + (bytesToCopy va len copied).toUInt64)
              (kernel + (bytesToCopy va len copied).toUInt64) index =
            place true mem.bytes (root r) va kernel
              ((bytesToCopy va len copied).toNat + index) := by
          intro index bound
          rw [toUInt64_eq_ofNat]
          exact places true index (by omega)
        have kernels : ∀ index < len.toNat -
              (copied + bytesToCopy va len copied).toNat,
            (kernel + (bytesToCopy va len copied).toUInt64).toNat + index =
              kernel.toNat + ((bytesToCopy va len copied).toNat + index) := by
          intro index bound
          rw [toUInt64_eq_ofNat, add_ofNat_toNat (by omega), Nat.add_assoc]
        obtain ⟨rest, run⟩ := inductionHypothesis ready' (by omega)
          (fun index bound => by
            rw [State.setBytes_bytes, same.isMapped_iff, toUInt64_eq_ofNat,
              ofNat_add_assoc]
            exact mapped _ (by omega))
          (fun index bound other bound' => by
            rw [State.setBytes_bytes, targets index bound,
              kernels other bound']
            exact disjoint _ (by omega) _ (by omega))
        refine ⟨_, (copyLoop_turn ready.tables present more).mpr
          ⟨isMapped, rest, rfl, ?_⟩⟩
        rw [show len.toNat - copied.toNat =
          (bytesToCopy va len copied).toNat + (len.toNat -
            (copied + bytesToCopy va len copied).toNat) by omega, put_add]
        have twice : ∀ bytes bytes', (mem.setBytes bytes).setBytes bytes' =
            mem.setBytes bytes' := fun _ _ => rfl
        rw [twice, State.setBytes_bytes] at run
        convert run using 2
        funext address
        symm
        apply put_congr (congrFun turn address) targets
        intro index bound
        rw [kernels index bound]
        exact turnBytes_others isMapped.1 inside (by omega)
          fun other bound' => disjoint other (by omega) _ (by omega)
      · have none : len.toNat - copied.toNat = 0 :=
          Nat.sub_eq_zero_of_le (Nat.le_of_not_lt fun less =>
            more (UInt32.lt_iff_toNat_lt.mpr less))
        rw [none]
        exact ⟨[], (copyLoop_done more).mpr ⟨rfl, rfl⟩⟩

end CopyLoop

end Mem
end WhuOs
