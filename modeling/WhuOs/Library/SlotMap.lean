import Mathlib.Data.List.Basic
import Mathlib.Logic.Function.Basic

/-!
# Finite maps in slots

A table has slots that are empty or hold a key with its value.  As long as no
key is in two slots, the table is a finite map.  The map can also be told from
the history of its changes: the value of a key is the one last added under it
and not removed since.
-/

namespace Library
namespace SlotMap

universe u v w

variable {ι : Type u} {κ : Type v} {ν : Type w}

/-- No key is in two slots. -/
def Distinct (slots : ι → Option (κ × ν)) : Prop :=
  ∀ slot slot' key value value', slots slot = some (key, value) →
    slots slot' = some (key, value') → slot = slot'

/-- The slots hold the entries of a map. -/
def Represents (slots : ι → Option (κ × ν)) (map : κ → Option ν) : Prop :=
  ∀ key value, map key = some value ↔ ∃ slot, slots slot = some (key, value)

/-! ## Changes of the slots -/

section Slots

variable {slots : ι → Option (κ × ν)} {map : κ → Option ν} {slot : ι}
  {key : κ} {value : ν}

theorem Represents.eq_none_iff (represents : Represents slots map) :
    map key = none ↔ ∀ slot value, slots slot ≠ some (key, value) := by
  constructor
  · intro absent slot value holds
    rw [(represents key value).mpr ⟨slot, holds⟩] at absent
    cases absent
  · intro absent
    cases found : map key with
    | none => rfl
    | some value =>
        obtain ⟨slot, holds⟩ := (represents key value).mp found
        exact absurd holds (absent slot value)

variable [DecidableEq ι]

/-- A new key in a free slot. -/
theorem Distinct.put
    (distinct : Distinct slots)
    (absent : ∀ slot value, slots slot ≠ some (key, value)) :
    Distinct (Function.update slots slot (some (key, value))) := by
  have isNew : ∀ other key' value' value'', slots other = some (key', value') →
      Function.update slots slot (some (key, value)) slot ≠
        some (key', value'') := by
    intro other key' value' value'' holds same
    rw [Function.update_self] at same
    obtain ⟨rfl, _⟩ := Prod.mk.inj (Option.some.inj same)
    exact absent other value' holds
  intro first second key' value' value'' holds holds'
  by_cases isFirst : first = slot <;> by_cases isSecond : second = slot
  · rw [isFirst, isSecond]
  · rw [Function.update_of_ne isSecond] at holds'
    rw [isFirst] at holds
    exact absurd holds (isNew second key' value'' value' holds')
  · rw [Function.update_of_ne isFirst] at holds
    rw [isSecond] at holds'
    exact absurd holds' (isNew first key' value' value'' holds)
  · rw [Function.update_of_ne isFirst] at holds
    rw [Function.update_of_ne isSecond] at holds'
    exact distinct first second key' value' value'' holds holds'

theorem Represents.put
    [DecidableEq κ] (represents : Represents slots map)
    (free : slots slot = none) (absent : map key = none) :
    Represents (Function.update slots slot (some (key, value)))
      (Function.update map key (some value)) := by
  intro key' value'
  by_cases same : key' = key
  · subst same
    rw [Function.update_self]
    constructor
    · intro isValue
      refine ⟨slot, ?_⟩
      rw [Function.update_self, Option.some.inj isValue]
    · rintro ⟨other, holds⟩
      by_cases isSlot : other = slot
      · rw [isSlot, Function.update_self] at holds
        rw [(Prod.mk.inj (Option.some.inj holds)).2]
      · rw [Function.update_of_ne isSlot] at holds
        exact absurd holds (represents.eq_none_iff.mp absent other value')
  · rw [Function.update_of_ne same, represents key' value']
    constructor
    · rintro ⟨other, holds⟩
      refine ⟨other, ?_⟩
      rw [Function.update_of_ne]
      · exact holds
      · rintro rfl
        rw [free] at holds
        cases holds
    · rintro ⟨other, holds⟩
      by_cases isSlot : other = slot
      · rw [isSlot, Function.update_self] at holds
        exact absurd (Prod.mk.inj (Option.some.inj holds)).1.symm same
      · rw [Function.update_of_ne isSlot] at holds
        exact ⟨other, holds⟩

/-- A slot is emptied. -/
theorem Distinct.clear (distinct : Distinct slots) :
    Distinct (Function.update slots slot none) := by
  have kept : ∀ other entry,
      Function.update slots slot none other = some entry →
      slots other = some entry := by
    intro other entry holds
    by_cases isSlot : other = slot
    · rw [isSlot, Function.update_self] at holds
      cases holds
    · rwa [Function.update_of_ne isSlot] at holds
  exact fun first second key' value' value'' holds holds' =>
    distinct first second key' value' value'' (kept first _ holds)
      (kept second _ holds')

theorem Represents.clear
    [DecidableEq κ] (represents : Represents slots map)
    (distinct : Distinct slots) (holds : slots slot = some (key, value)) :
    Represents (Function.update slots slot none)
      (Function.update map key none) := by
  intro key' value'
  by_cases same : key' = key
  · subst same
    rw [Function.update_self]
    constructor
    · exact nofun
    · rintro ⟨other, holds'⟩
      by_cases isSlot : other = slot
      · rw [isSlot, Function.update_self] at holds'
        cases holds'
      · rw [Function.update_of_ne isSlot] at holds'
        exact absurd (distinct other slot _ _ _ holds' holds) isSlot
  · rw [Function.update_of_ne same, represents key' value']
    constructor
    · rintro ⟨other, holds'⟩
      refine ⟨other, ?_⟩
      rw [Function.update_of_ne]
      · exact holds'
      · rintro rfl
        rw [holds] at holds'
        exact same (Prod.mk.inj (Option.some.inj holds')).1.symm
    · rintro ⟨other, holds'⟩
      by_cases isSlot : other = slot
      · rw [isSlot, Function.update_self] at holds'
        cases holds'
      · rw [Function.update_of_ne isSlot] at holds'
        exact ⟨other, holds'⟩

end Slots

/-! ## Histories -/

/-- A change of a map. -/
inductive Change (κ : Type v) (ν : Type w)
  | added (key : κ) (value : ν)
  | removed (key : κ)

variable [DecidableEq κ]

/-- The value last added under a key and not removed since.  The latest change
comes first. -/
def value : List (Change κ ν) → κ → Option ν
  | [], _ => none
  | .added key value' :: rest, key' =>
      if key' = key then some value' else value rest key'
  | .removed key :: rest, key' =>
      if key' = key then none else value rest key'

theorem value_added (history : List (Change κ ν)) (key : κ) (added : ν) :
    value (.added key added :: history) =
      Function.update (value history) key (some added) := by
  funext key'
  rw [Function.update_apply]
  rfl

theorem value_removed (history : List (Change κ ν)) (key : κ) :
    value (.removed key :: history) =
      Function.update (value history) key none := by
  funext key'
  rw [Function.update_apply]
  rfl

/-- The history of slots that were filled and never emptied. -/
def filled (slots : ι → Option (κ × ν)) (order : List ι) :
    List (Change κ ν) :=
  (order.filterMap slots).map fun entry => .added entry.1 entry.2

theorem value_filled
    {slots : ι → Option (κ × ν)} (distinct : Distinct slots) (order : List ι)
    (key : κ) (held : ν) :
    value (filled slots order) key = some held ↔
      ∃ slot ∈ order, slots slot = some (key, held) := by
  induction order with
  | nil => exact iff_of_false nofun fun ⟨_, member, _⟩ => nomatch member
  | cons slot rest inductionHypothesis =>
      cases isEntry : slots slot with
      | none =>
          have same : filled slots (slot :: rest) = filled slots rest := by
            unfold filled
            rw [List.filterMap_cons_none isEntry]
          rw [same, inductionHypothesis]
          constructor
          · rintro ⟨other, member, holds⟩
            exact ⟨other, List.mem_cons_of_mem slot member, holds⟩
          · rintro ⟨other, member, holds⟩
            rcases List.mem_cons.mp member with rfl | member
            · rw [isEntry] at holds
              cases holds
            · exact ⟨other, member, holds⟩
      | some entry =>
          have first : filled slots (slot :: rest) =
              .added entry.1 entry.2 :: filled slots rest := by
            unfold filled
            rw [List.filterMap_cons_some isEntry, List.map_cons]
          rw [first, value_added]
          by_cases same : key = entry.1
          · rw [same, Function.update_self]
            constructor
            · intro isValue
              refine ⟨slot, List.mem_cons_self, ?_⟩
              rw [isEntry, ← Option.some.inj isValue]
            · rintro ⟨other, _, holds⟩
              have isSlot := distinct other slot entry.1 held entry.2 holds
                isEntry
              rw [isSlot, isEntry] at holds
              rw [Option.some.inj holds]
          · rw [Function.update_of_ne same, inductionHypothesis]
            constructor
            · rintro ⟨other, member, holds⟩
              exact ⟨other, List.mem_cons_of_mem slot member, holds⟩
            · rintro ⟨other, member, holds⟩
              rcases List.mem_cons.mp member with rfl | member
              · rw [isEntry] at holds
                exact absurd (congrArg Prod.fst (Option.some.inj holds)).symm
                  same
              · exact ⟨other, member, holds⟩

/-- Slots that are all in the order hold what its history tells. -/
theorem represents_filled
    {slots : ι → Option (κ × ν)} (distinct : Distinct slots) {order : List ι}
    (complete : ∀ slot, slot ∈ order) :
    Represents slots (value (filled slots order)) := by
  intro key held
  rw [value_filled distinct]
  constructor
  · rintro ⟨slot, _, holds⟩
    exact ⟨slot, holds⟩
  · rintro ⟨slot, holds⟩
    exact ⟨slot, complete slot, holds⟩

end SlotMap
end Library
