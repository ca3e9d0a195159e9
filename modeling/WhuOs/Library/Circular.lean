import Mathlib.Data.Fin.Basic
import Mathlib.Data.Nat.ModEq

/-!
# Circular buffers

A list stored in consecutive slots of a circular array.  Positions are
unbounded and reduced to slots, so a producer and a consumer that count modulo
different multiples of the capacity describe the same window.
-/

namespace Library
namespace Circular

variable {n : Nat} [NeZero n] {α : Type*}

/-- The slots from position `start` on hold the items in order. -/
def Window (ring : Fin n → α) (start : Nat) (items : List α) : Prop :=
  ∀ offset item, items[offset]? = some item →
    ring (Fin.ofNat n (start + offset)) = item

/-- Two positions share a slot when they are equal modulo the capacity. -/
theorem ofNat_eq_iff {position other : Nat} :
    Fin.ofNat n position = Fin.ofNat n other ↔ position ≡ other [MOD n] := by
  rw [Fin.ext_iff]
  rfl

theorem Window.nil (ring : Fin n → α) (start : Nat) :
    Window ring start [] := by
  intro offset item found
  simp at found

/-- The first item is in the slot of the start position. -/
theorem Window.head
    {ring : Fin n → α} {start : Nat} {item : α} {items : List α}
    (window : Window ring start (item :: items)) :
    ring (Fin.ofNat n start) = item :=
  window 0 item rfl

/-- Removing the first item advances the start. -/
theorem Window.tail
    {ring : Fin n → α} {start : Nat} {item : α} {items : List α}
    (window : Window ring start (item :: items)) :
    Window ring (start + 1) items := by
  intro offset other found
  have shifted := window (offset + 1) other (by simpa using found)
  rwa [show start + 1 + offset = start + (offset + 1) by omega]

/-- The start only matters modulo the capacity. -/
theorem Window.congr_start
    {ring : Fin n → α} {start start' : Nat} {items : List α}
    (window : Window ring start items)
    (same : start ≡ start' [MOD n]) :
    Window ring start' items := by
  intro offset item found
  rw [← window offset item found]
  congr 1
  exact ofNat_eq_iff.mpr (same.symm.add_right offset)

/-- Writing the slot after the last item appends, as long as the buffer is not
full. -/
theorem Window.push
    {ring : Fin n → α} {start position : Nat} {items : List α}
    (window : Window ring start items)
    (room : items.length < n)
    (last : position ≡ start + items.length [MOD n]) (item : α) :
    Window (Function.update ring (Fin.ofNat n position) item) start
      (items ++ [item]) := by
  intro offset other found
  rw [ofNat_eq_iff.mpr last]
  by_cases inside : offset < items.length
  · rw [List.getElem?_append_left inside] at found
    rw [Function.update_of_ne, window offset other found]
    rw [Ne, ofNat_eq_iff]
    intro same
    have equal := Nat.ModEq.eq_of_lt_of_lt (Nat.ModEq.add_left_cancel' start same)
      (by omega) room
    omega
  · rw [List.getElem?_append_right (by omega)] at found
    have position : offset = items.length := by
      have := (List.getElem?_eq_some_iff.mp found).1
      simp only [List.length_singleton] at this
      omega
    subst position
    rw [Function.update_self]
    simpa using found

end Circular
end Library
