import WhuOs.Library.Bytes

/-!
# Bytes that are moved

A move is given by the addresses its bytes go to and the addresses they come
from.  Moves that follow each other make up one move.
-/

namespace Library
namespace Bytes

variable {target source : Nat → Nat} {count more : Nat}
  {bytes bytes' bytes'' : Bytes}

/-- The bytes of a move have reached their targets, and no other byte has
changed. -/
structure Moved (target source : Nat → Nat) (count : Nat)
    (bytes bytes' : Bytes) : Prop where
  moved : ∀ index < count, bytes' (target index) = bytes (source index)
  others : ∀ address, (∀ index < count, target index ≠ address) →
    bytes' address = bytes address

/-- No byte of a move goes to where another one comes from or goes to. -/
structure Apart (target source : Nat → Nat) (count : Nat) : Prop where
  disjoint : ∀ index < count, ∀ other < count, target index ≠ source other
  injective : ∀ index < count, ∀ other < count,
    target index = target other → index = other

theorem Apart.mono
    (apart : Apart target source count) (fewer : more ≤ count) :
    Apart target source more :=
  ⟨fun index bound other bound' => apart.disjoint index
      (Nat.lt_of_lt_of_le bound fewer) other (Nat.lt_of_lt_of_le bound' fewer),
    fun index bound other bound' => apart.injective index
      (Nat.lt_of_lt_of_le bound fewer) other (Nat.lt_of_lt_of_le bound' fewer)⟩

/-- The addresses of a move after its first bytes. -/
theorem Apart.later
    (apart : Apart target source (count + more)) :
    Apart (fun index => target (count + index))
      (fun index => source (count + index)) more := by
  refine ⟨fun index bound other bound' =>
    apart.disjoint _ (by omega) _ (by omega), fun index bound other bound'
      same => ?_⟩
  have equal := apart.injective _ (by omega) _ (by omega) same
  omega

theorem Apart.congr
    {target' source' : Nat → Nat} (apart : Apart target source count)
    (targets : ∀ index < count, target' index = target index)
    (sources : ∀ index < count, source' index = source index) :
    Apart target' source' count := by
  constructor
  · intro index bound other bound'
    rw [targets index bound, sources other bound']
    exact apart.disjoint index bound other bound'
  · intro index bound other bound'
    rw [targets index bound, targets other bound']
    exact apart.injective index bound other bound'

/-- Ranges without a common address lie one after the other. -/
theorem ranges_apart
    {start start' count : Nat}
    (differs : ∀ index < count, ∀ other < count,
      start + index ≠ start' + other) :
    start + count ≤ start' ∨ start' + count ≤ start ∨ count = 0 := by
  by_contra overlap
  simp only [not_or, Nat.not_le] at overlap
  by_cases order : start' ≤ start
  · exact differs 0 (by omega) (start - start') (by omega) (by omega)
  · exact differs (start' - start) (by omega) 0 (by omega) (by omega)

theorem Moved.refl : Moved target source 0 bytes bytes where
  moved _ none := absurd none (Nat.not_lt_zero _)
  others _ _ := rfl

/-- A move that is continued. -/
theorem Moved.trans
    (first : Moved target source count bytes bytes')
    (second : Moved (fun index => target (count + index))
      (fun index => source (count + index)) more bytes' bytes'')
    (apart : Apart target source (count + more)) :
    Moved target source (count + more) bytes bytes'' := by
  constructor
  · intro index bound
    by_cases isFirst : index < count
    · rw [second.others, first.moved index isFirst]
      intro other bound' same
      have equal := apart.injective _ (by omega) index bound same
      omega
    · obtain ⟨other, rfl⟩ := Nat.exists_eq_add_of_le (Nat.not_lt.mp isFirst)
      rw [second.moved other (by omega)]
      refine first.others _ fun index' bound' => ?_
      exact apart.disjoint index' (by omega) _ bound
  · intro address outside
    rw [second.others address fun index bound => outside _ (by omega),
      first.others address fun index bound => outside _ (by omega)]

/-- Moving bytes back to where they came from changes nothing. -/
theorem Moved.back
    (out : Moved target source count bytes bytes')
    (back : Moved source target count bytes' bytes'')
    (apart : Apart target source count) : bytes'' = bytes' := by
  funext address
  by_cases inside : ∃ index < count, source index = address
  · obtain ⟨index, bound, rfl⟩ := inside
    rw [back.moved index bound, out.moved index bound]
    refine (out.others _ fun other bound' => ?_).symm
    exact apart.disjoint other bound' index bound
  · exact back.others address fun index bound same =>
      inside ⟨index, bound, same⟩

theorem Moved.congr
    {target' source' : Nat → Nat}
    (moved : Moved target source count bytes bytes')
    (targets : ∀ index < count, target' index = target index)
    (sources : ∀ index < count, source' index = source index) :
    Moved target' source' count bytes bytes' := by
  constructor
  · intro index bound
    rw [targets index bound, sources index bound]
    exact moved.moved index bound
  · intro address outside
    refine moved.others address fun index bound => ?_
    rw [← targets index bound]
    exact outside index bound

/-- Only the first bytes of the source are moved. -/
theorem memmove_congr
    {data source source' : Bytes} {start : Nat}
    (same : ∀ index < count, source index = source' index) :
    memmove data start source count = memmove data start source' count := by
  funext address
  by_cases inside : start ≤ address ∧ address < start + count
  · rw [memmove_of_mem _ _ inside, memmove_of_mem _ _ inside]
    exact same _ (by omega)
  · rw [memmove_of_not_mem _ _ inside, memmove_of_not_mem _ _ inside]

/-! ## Stores that follow each other -/

/-- Store values to addresses, one after the other. -/
def put (bytes : Bytes) (target : Nat → Nat) (value : Nat → UInt8) :
    (count : Nat) → Bytes
  | 0 => bytes
  | count + 1 =>
      Function.update (put bytes target value count) (target count)
        (value count)

theorem put_of_ne
    {value : Nat → UInt8} {address : Nat}
    (outside : ∀ index < count, target index ≠ address) :
    put bytes target value count address = bytes address := by
  induction count with
  | zero => rfl
  | succ count inductionHypothesis =>
      unfold put
      rw [Function.update_of_ne (outside count (Nat.lt_succ_self _)).symm]
      exact inductionHypothesis fun index bound =>
        outside index (Nat.lt_succ_of_lt bound)

/-- What stores leave at an address depends on what was there before. -/
theorem put_congr
    {target' : Nat → Nat} {value value' : Nat → UInt8} {address : Nat}
    (start : bytes address = bytes' address)
    (targets : ∀ index < count, target index = target' index)
    (values : ∀ index < count, value index = value' index) :
    put bytes target value count address =
      put bytes' target' value' count address := by
  induction count with
  | zero => exact start
  | succ count inductionHypothesis =>
      have before := inductionHypothesis
        (fun index bound => targets index (Nat.lt_succ_of_lt bound))
        fun index bound => values index (Nat.lt_succ_of_lt bound)
      have last := Nat.lt_succ_self count
      unfold put
      rw [targets count last, values count last]
      by_cases here : address = target' count
      · rw [here, Function.update_self, Function.update_self]
      · rw [Function.update_of_ne here, Function.update_of_ne here, before]

theorem put_add
    (bytes : Bytes) (target : Nat → Nat) (value : Nat → UInt8)
    (count more : Nat) :
    put bytes target value (count + more) =
      put (put bytes target value count) (fun index => target (count + index))
        (fun index => value (count + index)) more := by
  induction more with
  | zero => rfl
  | succ more inductionHypothesis =>
      rw [← Nat.add_assoc]
      unfold put
      rw [inductionHypothesis]

/-- Stores to different addresses are a move. -/
theorem put_target
    {value : Nat → UInt8}
    (injective : ∀ index < count, ∀ other < count,
      target index = target other → index = other)
    {index : Nat} (bound : index < count) :
    put bytes target value count (target index) = value index := by
  induction count with
  | zero => exact absurd bound (Nat.not_lt_zero _)
  | succ count inductionHypothesis =>
      unfold put
      by_cases last : target index = target count
      · rw [last, Function.update_self]
        rw [injective index bound count (Nat.lt_succ_self _) last]
      · have earlier : index < count := by
          refine Nat.lt_of_le_of_ne (Nat.le_of_lt_succ bound) fun same => ?_
          exact last (congrArg target same)
        rw [Function.update_of_ne last]
        exact inductionHypothesis (fun index bound other bound' =>
          injective index (Nat.lt_succ_of_lt bound) other
            (Nat.lt_succ_of_lt bound')) earlier

end Bytes
end Library
