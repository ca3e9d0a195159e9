import Mathlib.Data.List.Basic
import Mathlib.Data.UInt

/-!
# `printint`

The digits are stored into a buffer of 20 bytes from the last to the first,
followed by the sign, and the buffer is then printed backwards.
-/

namespace WhuOs
namespace Lib

/-- `#define BACKSPACE 0x100` -/
def BACKSPACE : Int32 := 0x100

/-- `WriteReg(THR, c)` in `uart_putc_sync`. -/
def uartPutcSync (c : Int32) : List UInt8 :=
  [c.toUInt32.toUInt8]

/-- `consputc`.  The result is what the UART sends. -/
def consputc (c : Int32) : List UInt8 :=
  if c = BACKSPACE then
    uartPutcSync 8 ++ uartPutcSync 32 ++ uartPutcSync 8
  else
    uartPutcSync c

/-- `static char digits[] = "0123456789abcdef";` -/
def digits : List Char :=
  ['0', '1', '2', '3', '4', '5', '6', '7', '8', '9', 'a', 'b', 'c', 'd', 'e',
    'f', '\x00']

/-- `char buf[20]` -/
abbrev DigitBuf := Vector UInt8 20

/-- `buf[i] = c`, undefined outside of the buffer. -/
def DigitBuf.store (buf : DigitBuf) (i : Nat) (c : UInt8) : Option DigitBuf :=
  if bound : i < 20 then some (buf.set i c bound) else none

/-- The loop that stores the digits.  The result is the buffer and `i`. -/
def storeDigits (base : UInt64) (buf : DigitBuf) (i : Nat) (x : UInt64) :
    Option (DigitBuf × Nat) :=
  if bound : i < 20 then do
    let digit ← digits[(x % base).toNat]?
    let buf := buf.set i digit.toUInt8 bound
    if x / base ≠ 0 then
      storeDigits base buf (i + 1) (x / base)
    else
      some (buf, i + 1)
  else
    none
termination_by 20 - i

/-- `while(--i >= 0) consputc(buf[i]);` -/
def printBackwards (buf : DigitBuf) : (i : Nat) → Option (List UInt8)
  | 0 => some []
  | i + 1 => do
      let c ← buf[i]?
      let rest ← printBackwards buf i
      some (consputc c.toUInt32.toInt32 ++ rest)

/-- `printint`, with any contents of the new buffer.  The result is what the
UART sends, and `none` if an access is outside of the buffer or the table. -/
def printint (buf : DigitBuf) (xx : Int64) (base sign : Int32) :
    Option (List UInt8) := do
  let negative := sign ≠ 0 ∧ xx < 0
  let x := if negative then (-xx).toUInt64 else xx.toUInt64
  let (buf, i) ← storeDigits base.toInt64.toUInt64 buf 0 x
  if negative then
    let buf ← buf.store i '-'.toUInt8
    printBackwards buf (i + 1)
  else
    printBackwards buf i

/-! ## The number that is printed -/

/-- The number that the arguments stand for. -/
def argument (xx : Int64) (sign : Int32) : Int :=
  if sign ≠ 0 then xx.toInt else xx.toUInt64.toNat

/-- The text of a number: its digits after its sign. -/
def canonical (base : Nat) (number : Int) : List Char :=
  (if number < 0 then ['-'] else []) ++ Nat.toDigits base number.natAbs

/-- Only the text of zero starts with the digit zero. -/
theorem toDigits_head
    {base number : Nat} (baseLarge : 1 < base) {rest : List Char}
    (leading : Nat.toDigits base number = '0' :: rest) : number = 0 := by
  induction number using Nat.strong_induction_on generalizing rest with
  | h number inductionHypothesis =>
      by_cases small : number < base
      · rw [Nat.toDigits_of_lt_base small] at leading
        exact Nat.digitChar_eq_zero.mp (List.cons.inj leading).1
      · have large : base ≤ number := Nat.le_of_not_lt small
        have smaller : number / base < number :=
          Nat.div_lt_self (by omega) baseLarge
        rw [Nat.toDigits_of_base_le baseLarge large,
          List.append_eq_cons_iff] at leading
        rcases leading with ⟨empty, _⟩ | ⟨front, starts, _⟩
        · exact absurd empty Nat.toDigits_ne_nil
        · have zero := inductionHypothesis _ smaller starts
          have positive : 0 < number / base :=
            Nat.div_pos large (by omega)
          omega

/-! ## The buffer -/

/-- A stored byte follows those already stored. -/
theorem take_set
    (buf : DigitBuf) {i : Nat} (bound : i < 20) (c : UInt8) :
    (buf.set i c bound).toList.take (i + 1) = buf.toList.take i ++ [c] := by
  have length : buf.toList.length = 20 := buf.length_toList
  rw [Vector.toList_set, List.take_add_one, List.take_set_of_le le_rfl,
    List.getElem?_set_self (by omega)]
  rfl

theorem consputc_byte (c : UInt8) : consputc c.toUInt32.toInt32 = [c] := by
  have other : c.toUInt32.toInt32 ≠ BACKSPACE := by
    intro same
    have equal := congrArg (fun word => word.toUInt32.toNat) same
    have bound := c.toNat_lt
    simp only [UInt32.toUInt32_toInt32, UInt8.toNat_toUInt32, BACKSPACE] at equal
    change c.toNat = 256 at equal
    omega
  rw [consputc, if_neg other, uartPutcSync, UInt32.toUInt32_toInt32,
    UInt8.toUInt8_toUInt32]

theorem printBackwards_eq
    (buf : DigitBuf) {i : Nat} (bound : i ≤ 20) :
    printBackwards buf i = some (buf.toList.take i).reverse := by
  induction i with
  | zero => rfl
  | succ i inductionHypothesis =>
      have stored : buf.toList[i]? = buf[i]? := by
        rw [Vector.getElem?_toList]
      obtain ⟨c, present⟩ : ∃ c, buf[i]? = some c :=
        ⟨buf[i], Vector.getElem?_eq_getElem (by omega)⟩
      rw [printBackwards, List.take_add_one, stored, present,
        inductionHypothesis (by omega), List.reverse_append]
      simp only [Option.bind_eq_bind, Option.bind_some, consputc_byte]
      rfl

/-! ## The digits -/

theorem digits_of_lt {digit : Nat} (bound : digit < 16) :
    digits[digit]? = some digit.digitChar := by
  revert digit
  decide

/-- The loop stores all digits if there is room for them. -/
theorem storeDigits_eq
    {base : UInt64} (baseLarge : 1 < base.toNat) (baseSmall : base.toNat ≤ 16)
    (number : Nat) {buf : DigitBuf} {i : Nat} {x : UInt64}
    (same : x.toNat = number)
    (fits : i + (Nat.toDigits base.toNat number).length ≤ 20) :
    ∃ after : DigitBuf,
      storeDigits base buf i x =
        some (after, i + (Nat.toDigits base.toNat number).length) ∧
      after.toList.take (i + (Nat.toDigits base.toNat number).length) =
        buf.toList.take i ++
          (Nat.toDigits base.toNat number).reverse.map Char.toUInt8 := by
  induction number using Nat.strong_induction_on generalizing buf i x with
  | h number inductionHypothesis =>
      have positive : 0 < (Nat.toDigits base.toNat number).length :=
        Nat.length_toDigits_pos
      have bound : i < 20 := by omega
      have digit : digits[(x % base).toNat]? =
          some (number % base.toNat).digitChar := by
        rw [UInt64.toNat_mod, same]
        exact digits_of_lt (lt_of_lt_of_le (Nat.mod_lt _ (by omega)) baseSmall)
      have quotient : (x / base).toNat = number / base.toNat := by
        rw [UInt64.toNat_div, same]
      rw [storeDigits, dif_pos bound, digit]
      simp only [Option.bind_eq_bind, Option.bind_some]
      by_cases small : number < base.toNat
      · -- This is the first digit of the number.
        have last : x / base = 0 := by
          apply UInt64.toNat_inj.mp
          rw [quotient, Nat.div_eq_of_lt small]
          rfl
        rw [if_neg (not_not.mpr last), Nat.mod_eq_of_lt small,
          Nat.toDigits_of_lt_base small]
        exact ⟨_, rfl, take_set buf bound _⟩
      · have large : base.toNat ≤ number := Nat.le_of_not_lt small
        have more : x / base ≠ 0 := by
          intro zero
          have positive : 0 < number / base.toNat :=
            Nat.div_pos large (by omega)
          rw [← quotient, zero] at positive
          exact absurd positive (Nat.lt_irrefl 0)
        have smaller : number / base.toNat < number :=
          Nat.div_lt_self (by omega) baseLarge
        rw [Nat.toDigits_of_base_le baseLarge large, List.length_append,
          List.length_singleton] at fits ⊢
        rw [if_pos more]
        obtain ⟨after, run, stored⟩ := @inductionHypothesis _ smaller
          (buf.set i (number % base.toNat).digitChar.toUInt8 bound)
          (i + 1) (x / base) quotient (by omega)
        refine ⟨after, ?_, ?_⟩
        · rw [run]
          congr 2
          omega
        · rw [← Nat.add_assoc, Nat.add_right_comm, stored, take_set,
            List.reverse_append, List.map_append, List.append_assoc]
          rfl

/-! ## The number -/

theorem toInt_eq (xx : Int64) :
    xx.toInt = if 2 * xx.toUInt64.toNat < 2 ^ 64 then
      (xx.toUInt64.toNat : Int) else (xx.toUInt64.toNat : Int) - 2 ^ 64 :=
  BitVec.toInt_eq_toNat_cond xx.toBitVec

theorem toNat_of_nonneg {xx : Int64} (nonneg : ¬xx < 0) :
    (xx.toUInt64.toNat : Int) = xx.toInt := by
  have atLeast : 0 ≤ xx.toInt := by
    rw [Int64.lt_iff_toInt_lt] at nonneg
    exact Int.not_lt.mp nonneg
  have equal := toInt_eq xx
  have bound := xx.toUInt64.toNat_lt
  omega

theorem toNat_neg {xx : Int64} (negative : xx < 0) :
    ((-xx).toUInt64.toNat : Int) = -xx.toInt := by
  have below : xx.toInt < 0 := Int64.lt_iff_toInt_lt.mp negative
  have equal := toInt_eq xx
  have bound := xx.toUInt64.toNat_lt
  rw [Int64.toUInt64_neg, UInt64.toNat_neg]
  change (((2 ^ 64 - xx.toUInt64.toNat) % 2 ^ 64 : Nat) : Int) = _
  omega

/-- The digits of a number that leaves room for them. -/
theorem storeDigits_start
    {base : UInt64} (baseLarge : 10 ≤ base.toNat) (baseSmall : base.toNat ≤ 16)
    (buf : DigitBuf) {x : UInt64} {number room : Nat}
    (same : x.toNat = number) (positive : 0 < room) (enough : room ≤ 20)
    (bound : number < 10 ^ room) :
    (Nat.toDigits base.toNat number).length ≤ room ∧
      ∃ after : DigitBuf,
        storeDigits base buf 0 x =
          some (after, (Nat.toDigits base.toNat number).length) ∧
        after.toList.take (Nat.toDigits base.toNat number).length =
          (Nat.toDigits base.toNat number).reverse.map Char.toUInt8 := by
  have fits : (Nat.toDigits base.toNat number).length ≤ room :=
    (Nat.length_toDigits_le_iff (by omega) positive).mpr
      (lt_of_lt_of_le bound (Nat.pow_le_pow_left baseLarge room))
  have stores := @storeDigits_eq base (by omega) baseSmall number buf 0 x same
    (by omega)
  rw [Nat.zero_add, List.take_zero, List.nil_append] at stores
  exact ⟨fits, stores⟩

/-- `printint` prints the text of its number, which has no leading zero. -/
theorem printint_prints
    (buf : DigitBuf) (xx : Int64) {base : Int32} (sign : Int32)
    (bases : base = 10 ∨ base = 16) :
    printint buf xx base sign =
        some ((canonical base.toInt.toNat (argument xx sign)).map
          Char.toUInt8) ∧
      ∀ rest, Nat.toDigits base.toInt.toNat (argument xx sign).natAbs =
        '0' :: rest → argument xx sign = 0 := by
  obtain ⟨atLeast, atMost, same⟩ : 10 ≤ base.toInt64.toUInt64.toNat ∧
      base.toInt64.toUInt64.toNat ≤ 16 ∧
      base.toInt64.toUInt64.toNat = base.toInt.toNat := by
    rcases bases with rfl | rfl <;> decide
  have bound := xx.toUInt64.toNat_lt
  rw [← same, printint]
  refine ⟨?_, fun rest leading =>
    Int.natAbs_eq_zero.mp (toDigits_head (by omega) leading)⟩
  by_cases negative : sign ≠ 0 ∧ xx < 0
  · have below : xx.toInt < 0 := Int64.lt_iff_toInt_lt.mp negative.2
    have least := Int64.le_toInt xx
    have value : argument xx sign = xx.toInt := if_pos negative.1
    have opposite := toNat_neg negative.2
    -- The sign needs the last byte.
    obtain ⟨fits, after, run, stored⟩ := storeDigits_start atLeast atMost buf
      (show (-xx).toUInt64.toNat = xx.toInt.natAbs by omega)
      (show 0 < 19 by decide) (by decide) (by omega)
    have inside : (Nat.toDigits base.toInt64.toUInt64.toNat
      xx.toInt.natAbs).length < 20 := by omega
    simp only [if_pos negative, run, Option.bind_eq_bind, Option.bind_some,
      DigitBuf.store, dif_pos inside]
    rw [printBackwards_eq _ (by omega), take_set, stored, value, canonical,
      if_pos below]
    simp
  · have value : (argument xx sign).natAbs = xx.toUInt64.toNat ∧
        ¬argument xx sign < 0 := by
      unfold argument
      by_cases signed : sign = 0
      · rw [if_neg (not_not.mpr signed)]
        omega
      · have nonneg := toNat_of_nonneg fun below => negative ⟨signed, below⟩
        rw [if_pos signed]
        omega
    obtain ⟨fits, after, run, stored⟩ := storeDigits_start atLeast atMost buf
      value.1.symm (show 0 < 20 by decide) (by decide) (by omega)
    simp only [if_neg negative, run, Option.bind_eq_bind, Option.bind_some]
    rw [printBackwards_eq _ fits, stored, canonical, if_neg value.2]
    simp

/-- The least number takes the whole buffer. -/
theorem printint_prints_least :
    printint (Vector.replicate 20 0) (-9223372036854775808) 10 1 =
      some ((canonical 10 (-9223372036854775808)).map Char.toUInt8) ∧
      (canonical 10 (-9223372036854775808)).length = 20 :=
  ⟨(printint_prints _ _ 1 (Or.inl rfl)).1, by decide +kernel⟩

end Lib
end WhuOs
