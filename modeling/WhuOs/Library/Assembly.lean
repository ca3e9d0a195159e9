import Mathlib.Data.List.Nodup
import Mathlib.Logic.Function.Basic
import WhuOs.Library.Bytes

/-!
# Straight-line assembly code

Code without jumps works on registers, control registers and the bytes of
memory.  Whether the code can be fetched, where an access goes and which bits of
a control register can be written is decided by a platform, which looks at the
control registers and at memory.  Routines that save registers in a frame and
load them again are lists of slots of the frame.
-/

namespace Library
namespace Assembly

open Bytes

variable {ρ κ : Type*}

/-! ## Code -/

/-- An instruction that is no jump, on registers `ρ` and control registers
`κ`. -/
inductive Instr (ρ κ : Type*)
  | sd (source : ρ) (offset : UInt64) (base : ρ)
  | ld (target : ρ) (offset : UInt64) (base : ρ)
  | addi (target source : ρ) (immediate : UInt64)
  | add (target left right : ρ)
  | li (target : ρ) (immediate : UInt64)
  | csrr (target : ρ) (csr : κ)
  | csrw (csr : κ) (source : ρ)
  | csrrw (target : ρ) (csr : κ) (source : ρ)
  | sfenceVma

/-- The registers of a core, and memory. -/
@[ext] structure Core (ρ κ : Type*) where
  regs : ρ → UInt64
  csrs : κ → UInt64
  bytes : Bytes

/-- Whether a core can fetch its code, where its loads and stores go, and what
a control register holds after a write. -/
structure Platform (κ : Type*) where
  fetches : (κ → UInt64) → Bytes → Bool
  reaches : (κ → UInt64) → Bytes → (write : Bool) → UInt64 → Option UInt64
  written : κ → (before value : UInt64) → UInt64

variable [DecidableEq ρ] [DecidableEq κ]

namespace Core

def setReg (core : Core ρ κ) (register : ρ) (value : UInt64) : Core ρ κ :=
  { core with regs := Function.update core.regs register value }

def setCsr (core : Core ρ κ) (csr : κ) (value : UInt64) : Core ρ κ :=
  { core with csrs := Function.update core.csrs csr value }

omit [DecidableEq ρ] [DecidableEq κ] in
def setBytes (core : Core ρ κ) (bytes : Bytes) : Core ρ κ :=
  { core with bytes := bytes }

end Core

/-- One instruction, unless an access faults. -/
def Instr.exec (platform : Platform κ) :
    Instr ρ κ → Core ρ κ → Option (Core ρ κ)
  | .sd source offset base, core =>
      let va := core.regs base + offset
      (platform.reaches core.csrs core.bytes true va).map fun address =>
        core.setBytes (write64 core.bytes address.toNat (core.regs source))
  | .ld target offset base, core =>
      let va := core.regs base + offset
      (platform.reaches core.csrs core.bytes false va).map fun address =>
        core.setReg target (read64 core.bytes address.toNat)
  | .addi target source immediate, core =>
      some (core.setReg target (core.regs source + immediate))
  | .add target left right, core =>
      some (core.setReg target (core.regs left + core.regs right))
  | .li target immediate, core => some (core.setReg target immediate)
  | .csrr target csr, core => some (core.setReg target (core.csrs csr))
  | .csrw csr source, core => some (core.setCsr csr
      (platform.written csr (core.csrs csr) (core.regs source)))
  | .csrrw target csr source, core =>
      some ((core.setReg target (core.csrs csr)).setCsr csr
        (platform.written csr (core.csrs csr) (core.regs source)))
  | .sfenceVma, core => some core

/-- Code, unless an instruction cannot be fetched or faults. -/
def run (platform : Platform κ) :
    List (Instr ρ κ) → Core ρ κ → Option (Core ρ κ)
  | [], core => some core
  | instr :: code, core =>
      if platform.fetches core.csrs core.bytes then
        (instr.exec platform core).bind (run platform code)
      else
        none

theorem run_append
    (platform : Platform κ) (first second : List (Instr ρ κ))
    (core : Core ρ κ) :
    run platform (first ++ second) core =
      (run platform first core).bind (run platform second) := by
  induction first generalizing core with
  | nil => rfl
  | cons instr code inductionHypothesis =>
      rw [List.cons_append, run, run]
      split
      · cases instr.exec platform core with
        | none => rfl
        | some next => exact inductionHypothesis next
      · rfl

theorem run_cons
    {platform : Platform κ} {instr : Instr ρ κ} {code : List (Instr ρ κ)}
    {core next : Core ρ κ}
    (fetched : platform.fetches core.csrs core.bytes = true)
    (executed : instr.exec platform core = some next) :
    run platform (instr :: code) core = run platform code next := by
  rw [run, if_pos fetched, executed]
  rfl

/-! ## Frames -/

/-- The bytes outside of a range are the same. -/
def SameOutside (start size : Nat) (bytes bytes' : Bytes) : Prop :=
  ∀ address, ¬(start ≤ address ∧ address < start + size) →
    bytes' address = bytes address

namespace SameOutside

variable {start size : Nat} {bytes bytes' bytes'' : Bytes}

theorem refl : SameOutside start size bytes bytes := fun _ _ => rfl

theorem trans
    (first : SameOutside start size bytes bytes')
    (second : SameOutside start size bytes' bytes'') :
    SameOutside start size bytes bytes'' := by
  intro address outside
  rw [second address outside, first address outside]

theorem write64
    {address : Nat} (low : start ≤ address) (high : address + 8 ≤ start + size)
    (value : UInt64) :
    SameOutside start size bytes (Bytes.write64 bytes address value) := by
  intro other outside
  apply memmove_of_not_mem
  omega

end SameOutside

/-- The bytes from `pa` on, as seen from `va` on.  They can be written without
cutting the code or themselves off. -/
structure Frame (platform : Platform κ) (csrs : κ → UInt64) (bytes : Bytes)
    (va pa : UInt64) (size : Nat) : Prop where
  room : pa.toNat + size < 2 ^ 64
  fetches : ∀ bytes', SameOutside pa.toNat size bytes bytes' →
    platform.fetches csrs bytes' = true
  reaches : ∀ bytes' write offset, SameOutside pa.toNat size bytes bytes' →
    offset.toNat + 8 ≤ size → offset.toNat % 8 = 0 →
    platform.reaches csrs bytes' write (va + offset) = some (pa + offset)

section Frames

variable {platform : Platform κ} {csrs : κ → UInt64} {bytes bytes' : Bytes}
  {va pa : UInt64} {size : Nat}

omit [DecidableEq κ] in
theorem Frame.congr
    (frame : Frame platform csrs bytes va pa size)
    (same : SameOutside pa.toNat size bytes bytes') :
    Frame platform csrs bytes' va pa size :=
  ⟨frame.room, fun bytes'' same' => frame.fetches bytes'' (same.trans same'),
    fun bytes'' write offset same' =>
      frame.reaches bytes'' write offset (same.trans same')⟩

omit [DecidableEq κ] in
theorem Frame.fetched (frame : Frame platform csrs bytes va pa size) :
    platform.fetches csrs bytes = true :=
  frame.fetches bytes .refl

omit [DecidableEq κ] in
/-- The address of a field of the frame. -/
theorem Frame.field_toNat
    (frame : Frame platform csrs bytes va pa size) {offset : UInt64}
    (inside : offset.toNat + 8 ≤ size) :
    (pa + offset).toNat = pa.toNat + offset.toNat := by
  have room := frame.room
  rw [UInt64.toNat_add]
  omega

omit [DecidableEq κ] in
theorem Frame.reach
    (frame : Frame platform csrs bytes va pa size) {offset : UInt64}
    (inside : offset.toNat + 8 ≤ size) (aligned : offset.toNat % 8 = 0)
    (write : Bool) :
    platform.reaches csrs bytes write (va + offset) = some (pa + offset) :=
  frame.reaches bytes write offset .refl inside aligned

end Frames

/-! ## Slots of a frame -/

/-- Slots lie in a frame, at different offsets that are multiples of 8. -/
structure Slots (size : Nat) (slots : List (ρ × UInt64)) : Prop where
  inside : ∀ slot ∈ slots, slot.2.toNat + 8 ≤ size ∧ slot.2.toNat % 8 = 0
  offsets : (slots.map Prod.snd).Nodup
  registers : (slots.map Prod.fst).Nodup

/-- Save registers in their slots. -/
def saves (base : ρ) (slots : List (ρ × UInt64)) : List (Instr ρ κ) :=
  slots.map fun slot => .sd slot.1 slot.2 base

/-- Load registers from their slots. -/
def loads (base : ρ) (slots : List (ρ × UInt64)) : List (Instr ρ κ) :=
  slots.map fun slot => .ld slot.1 slot.2 base

/-- Memory after registers were saved in a frame. -/
def savedBytes (pa : UInt64) (regs : ρ → UInt64) :
    List (ρ × UInt64) → Bytes → Bytes
  | [], bytes => bytes
  | slot :: slots, bytes => savedBytes pa regs slots
      (write64 bytes (pa.toNat + slot.2.toNat) (regs slot.1))

/-- The registers after some were loaded from a frame. -/
def loadedRegs (pa : UInt64) (bytes : Bytes) :
    List (ρ × UInt64) → (ρ → UInt64) → ρ → UInt64
  | [], regs => regs
  | slot :: slots, regs => loadedRegs pa bytes slots (Function.update regs
      slot.1 (read64 bytes (pa.toNat + slot.2.toNat)))

section Slots

variable {size : Nat} {slot : ρ × UInt64} {slots : List (ρ × UInt64)}
  {pa : UInt64} {regs : ρ → UInt64} {bytes : Bytes}

omit [DecidableEq ρ] in
theorem Slots.tail (fits : Slots size (slot :: slots)) : Slots size slots :=
  ⟨fun other member => fits.inside other (List.mem_cons_of_mem slot member),
    (List.nodup_cons.mp fits.offsets).2,
    (List.nodup_cons.mp fits.registers).2⟩

omit [DecidableEq ρ] in
theorem savedBytes_append
    (pa : UInt64) (regs : ρ → UInt64) (first second : List (ρ × UInt64))
    (bytes : Bytes) :
    savedBytes pa regs (first ++ second) bytes =
      savedBytes pa regs second (savedBytes pa regs first bytes) := by
  induction first generalizing bytes with
  | nil => rfl
  | cons slot first inductionHypothesis => exact inductionHypothesis _

omit [DecidableEq ρ] in
theorem savedBytes_congr
    {regs' : ρ → UInt64} (same : ∀ slot ∈ slots, regs' slot.1 = regs slot.1)
    (bytes : Bytes) :
    savedBytes pa regs' slots bytes = savedBytes pa regs slots bytes := by
  induction slots generalizing bytes with
  | nil => rfl
  | cons slot slots inductionHypothesis =>
      rw [savedBytes, savedBytes, same slot List.mem_cons_self]
      exact inductionHypothesis (fun other member =>
        same other (List.mem_cons_of_mem slot member)) _

omit [DecidableEq ρ] in
theorem savedBytes_sameOutside
    (fits : Slots size slots) (regs : ρ → UInt64) (bytes : Bytes) :
    SameOutside pa.toNat size bytes (savedBytes pa regs slots bytes) := by
  induction slots generalizing bytes with
  | nil => exact .refl
  | cons slot slots inductionHypothesis =>
      have inside := fits.inside slot List.mem_cons_self
      exact (SameOutside.write64 (Nat.le_add_right _ _) (by omega) _).trans
        (inductionHypothesis fits.tail _)

omit [DecidableEq ρ] in
/-- Fields of other slots are not written. -/
theorem read64_savedBytes_of_not_mem
    (fits : Slots size slots) {offset : Nat} (aligned : offset % 8 = 0)
    (other : ∀ slot ∈ slots, slot.2.toNat ≠ offset) :
    read64 (savedBytes pa regs slots bytes) (pa.toNat + offset) =
      read64 bytes (pa.toNat + offset) := by
  induction slots generalizing bytes with
  | nil => rfl
  | cons slot slots inductionHypothesis =>
      have inside := fits.inside slot List.mem_cons_self
      have differs := other slot List.mem_cons_self
      rw [savedBytes, inductionHypothesis fits.tail fun slot member =>
        other slot (List.mem_cons_of_mem _ member)]
      apply read64_memmove_of_disjoint
      omega

omit [DecidableEq ρ] in
/-- A register that was saved is found in its slot. -/
theorem read64_savedBytes
    (fits : Slots size slots) (member : slot ∈ slots) :
    read64 (savedBytes pa regs slots bytes) (pa.toNat + slot.2.toNat) =
      regs slot.1 := by
  induction slots generalizing bytes with
  | nil => cases member
  | cons first slots inductionHypothesis =>
      rw [savedBytes]
      rcases List.mem_cons.mp member with rfl | member
      · have fresh := (List.nodup_cons.mp fits.offsets).1
        have inside := fits.inside slot List.mem_cons_self
        rw [read64_savedBytes_of_not_mem fits.tail inside.2]
        · exact read64_write64 _ _ _
        · intro other isOther same
          apply fresh
          rw [← UInt64.toNat_inj.mp same]
          exact List.mem_map_of_mem isOther
      · exact inductionHypothesis fits.tail member

theorem loadedRegs_of_not_mem
    {register : ρ} (other : ∀ slot ∈ slots, slot.1 ≠ register) :
    loadedRegs pa bytes slots regs register = regs register := by
  induction slots generalizing regs with
  | nil => rfl
  | cons slot slots inductionHypothesis =>
      rw [loadedRegs, inductionHypothesis fun slot member =>
        other slot (List.mem_cons_of_mem _ member)]
      exact Function.update_of_ne
        (other slot List.mem_cons_self).symm _ _

/-- A register that was loaded has the value of its slot. -/
theorem loadedRegs_of_mem
    (fits : Slots size slots) (member : slot ∈ slots) :
    loadedRegs pa bytes slots regs slot.1 =
      read64 bytes (pa.toNat + slot.2.toNat) := by
  induction slots generalizing regs with
  | nil => cases member
  | cons first slots inductionHypothesis =>
      rw [loadedRegs]
      rcases List.mem_cons.mp member with rfl | member
      · have fresh := (List.nodup_cons.mp fits.registers).1
        rw [loadedRegs_of_not_mem]
        · exact Function.update_self _ _ _
        · intro other isOther same
          apply fresh
          rw [← same]
          exact List.mem_map_of_mem isOther
      · exact inductionHypothesis fits.tail member

end Slots

/-! ## Saving and loading -/

section Runs

variable {platform : Platform κ} {core : Core ρ κ} {base : ρ} {pa : UInt64}
  {size : Nat} {slots : List (ρ × UInt64)}

/-- A register is stored in a frame. -/
theorem run_sd
    {source : ρ} {offset : UInt64} (code : List (Instr ρ κ))
    (frame : Frame platform core.csrs core.bytes (core.regs base) pa size)
    (inside : offset.toNat + 8 ≤ size) (aligned : offset.toNat % 8 = 0) :
    run platform (.sd source offset base :: code) core =
      run platform code (core.setBytes (write64 core.bytes
        (pa.toNat + offset.toNat) (core.regs source))) := by
  apply run_cons frame.fetched
  rw [Instr.exec, frame.reach inside aligned, ← frame.field_toNat inside]
  rfl

/-- A register is loaded from a frame. -/
theorem run_ld
    {target : ρ} {offset : UInt64} (code : List (Instr ρ κ))
    (frame : Frame platform core.csrs core.bytes (core.regs base) pa size)
    (inside : offset.toNat + 8 ≤ size) (aligned : offset.toNat % 8 = 0) :
    run platform (.ld target offset base :: code) core =
      run platform code (core.setReg target
        (read64 core.bytes (pa.toNat + offset.toNat))) := by
  apply run_cons frame.fetched
  rw [Instr.exec, frame.reach inside aligned, ← frame.field_toNat inside]
  rfl

/-- Code that saves registers in a frame and goes on. -/
theorem run_saves
    (fits : Slots size slots) (code : List (Instr ρ κ))
    (frame : Frame platform core.csrs core.bytes (core.regs base) pa size) :
    run platform (saves base slots ++ code) core =
      run platform code
        (core.setBytes (savedBytes pa core.regs slots core.bytes)) := by
  induction slots generalizing core with
  | nil => rfl
  | cons slot slots inductionHypothesis =>
      rcases fits.inside slot List.mem_cons_self with ⟨inside, aligned⟩
      have same : SameOutside pa.toNat size core.bytes (write64 core.bytes
          (pa.toNat + slot.2.toNat) (core.regs slot.1)) :=
        .write64 (Nat.le_add_right _ _) (by omega) _
      calc run platform (saves base (slot :: slots) ++ code) core
        _ = run platform (saves base slots ++ code) (core.setBytes (write64
              core.bytes (pa.toNat + slot.2.toNat) (core.regs slot.1))) :=
          run_sd _ frame inside aligned
        _ = _ := inductionHypothesis fits.tail (frame.congr same)

/-- Code that loads registers from a frame and goes on.  The register that
leads to the frame may be among them if its slot has its value. -/
theorem run_loads
    (fits : Slots size slots) (code : List (Instr ρ κ))
    (frame : Frame platform core.csrs core.bytes (core.regs base) pa size)
    (kept : ∀ slot ∈ slots, slot.1 = base →
      read64 core.bytes (pa.toNat + slot.2.toNat) = core.regs base) :
    run platform (loads base slots ++ code) core =
      run platform code
        { core with regs := loadedRegs pa core.bytes slots core.regs } := by
  induction slots generalizing core with
  | nil => rfl
  | cons slot slots inductionHypothesis =>
      rcases fits.inside slot List.mem_cons_self with ⟨inside, aligned⟩
      have sameBase : (core.setReg slot.1 (read64 core.bytes
          (pa.toNat + slot.2.toNat))).regs base = core.regs base := by
        change Function.update core.regs slot.1 _ base = _
        rw [Function.update_apply]
        split
        · next same => exact kept slot List.mem_cons_self same.symm
        · rfl
      have frame' : Frame platform core.csrs core.bytes
          ((core.setReg slot.1 (read64 core.bytes
            (pa.toNat + slot.2.toNat))).regs base) pa size := by
        rw [sameBase]
        exact frame
      calc run platform (loads base (slot :: slots) ++ code) core
        _ = run platform (loads base slots ++ code) (core.setReg slot.1
              (read64 core.bytes (pa.toNat + slot.2.toNat))) :=
          run_ld _ frame inside aligned
        _ = _ := by
          apply inductionHypothesis fits.tail frame'
          intro other member isBase
          rw [sameBase]
          exact kept other (List.mem_cons_of_mem _ member) isBase

end Runs

end Assembly
end Library
