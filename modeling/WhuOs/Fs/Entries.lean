import WhuOs.Fs.Runs

/-!
# Entries of a directory block

A directory block is a table of names and inode numbers.  Looking a name up,
finding an unused entry, storing an entry and clearing one are stated over the
entries in use.
-/

namespace WhuOs
namespace Fs

open Library
open Library.Bytes

variable {data : Block} {entry other : EntryIndex}

/-- A name that fits into an entry. -/
structure CString.Fits (name : CString) : Prop where
  notEmpty : name.bytes ≠ []
  short : name.bytes.length < dirNameLen

theorem CString.Fits.take_eq {name : CString} (fits : name.Fits) :
    name.bytes.take dirNameLen = name.bytes :=
  List.take_of_length_le (Nat.le_of_lt fits.short)

/-- The name and the inode number of an entry in use. -/
def entryOf (data : Block) (entry : EntryIndex) :
    Option (List UInt8 × UInt16) :=
  if entryName data entry = [] then none
  else some (entryName data entry, entryInode data entry)

theorem entryOf_eq_none :
    entryOf data entry = none ↔ entryName data entry = [] := by
  unfold entryOf
  split
  · next unused => exact ⟨fun _ => unused, fun _ => rfl⟩
  · next used => exact ⟨fun absent => (nomatch absent), fun unused =>
      absurd unused used⟩

theorem entryOf_eq_some {name : List UInt8} {inodeNum : UInt16} :
    entryOf data entry = some (name, inodeNum) ↔
      name ≠ [] ∧ entryName data entry = name ∧
        entryInode data entry = inodeNum := by
  unfold entryOf
  split
  · next unused =>
      constructor
      · intro absent
        cases absent
      · rintro ⟨notEmpty, rfl, _⟩
        exact absurd unused notEmpty
  · next used =>
      constructor
      · intro same
        obtain ⟨rfl, rfl⟩ := Prod.mk.inj (Option.some.inj same)
        exact ⟨used, rfl, rfl⟩
      · rintro ⟨_, rfl, rfl⟩
        rfl

/-- An entry depends on its bytes only. -/
theorem entryOf_congr {data' : Block}
    (same : ∀ index < 32, data' (32 * entry + index) =
      data (32 * entry + index)) :
    entryOf data' entry = entryOf data entry := by
  have sameName : entryName data' entry = entryName data entry := by
    unfold entryName
    congr 1
    apply List.map_congr_left
    intro index member
    have small : index < 30 := List.mem_range.mp member
    rw [Nat.add_assoc]
    exact same (2 + index) (by omega)
  have sameInode : entryInode data' entry = entryInode data entry :=
    read16_congr fun index small => same index (by omega)
  unfold entryOf
  rw [sameName, sameInode]

/-! ## Searching -/

section Search

variable {name : CString} (fits : name.Fits)

include fits

theorem matchesName_iff :
    matchesName data name entry = true ↔
      entryOf data entry = some (name.bytes, entryInode data entry) := by
  rw [entryOf_eq_some]
  simp only [matchesName, fits.take_eq, decide_eq_true_eq]
  constructor
  · rintro ⟨_, same⟩
    exact ⟨fits.notEmpty, same, trivial⟩
  · rintro ⟨notEmpty, same, _⟩
    exact ⟨same ▸ notEmpty, same⟩

/-- The entry a name is found at. -/
theorem entryOf_of_findEntry (found : findEntry data name = some entry) :
    entryOf data entry = some (name.bytes, entryInode data entry) :=
  (matchesName_iff fits).mp (List.find?_some found)

theorem findEntry_eq_none :
    findEntry data name = none ↔
      ∀ entry inodeNum, entryOf data entry ≠ some (name.bytes, inodeNum) := by
  unfold findEntry
  rw [List.find?_eq_none]
  constructor
  · intro none entry inodeNum listed
    refine none entry (List.mem_finRange entry) ((matchesName_iff fits).mpr ?_)
    rw [listed, (entryOf_eq_some.mp listed).2.2]
  · intro none entry _ same
    exact none entry _ ((matchesName_iff fits).mp same)

/-- A name that occurs once is found where it occurs. -/
theorem findEntry_of_unique {inodeNum : UInt16}
    (listed : entryOf data entry = some (name.bytes, inodeNum))
    (unique : ∀ other inodeNum',
      entryOf data other = some (name.bytes, inodeNum') → other = entry) :
    findEntry data name = some entry := by
  cases found : findEntry data name with
  | none => exact absurd listed ((findEntry_eq_none fits).mp found _ _)
  | some other => rw [unique other _ (entryOf_of_findEntry fits found)]

end Search

/-- The first unused entry. -/
theorem entryOf_of_freeEntry (free : freeEntry data = some entry) :
    entryOf data entry = none :=
  entryOf_eq_none.mpr (by simpa using List.find?_some free)

theorem freeEntry_eq_none :
    freeEntry data = none ↔ ∀ entry, entryOf data entry ≠ none := by
  unfold freeEntry
  rw [List.find?_eq_none]
  constructor
  · intro none entry unused
    exact none entry (List.mem_finRange entry)
      (by simpa using entryOf_eq_none.mp unused)
  · intro used entry _ unused
    exact used entry (entryOf_eq_none.mpr (by simpa using unused))

/-! ## Changes -/

theorem storeEntry_index (entry : EntryIndex) (inodeNum : UInt16)
    (name : CString) {index : Nat}
    (outside : index < 32 * entry.val ∨ 32 * entry.val + 32 ≤ index) :
    storeEntry data entry inodeNum name index = data index := by
  unfold storeEntry write16
  simp only [direntSize, dirNameLen]
  rw [memmove_of_not_mem _ _ (by omega), memmove_of_not_mem _ _ (by omega)]

theorem clearEntry_index (entry : EntryIndex) {index : Nat}
    (outside : index < 32 * entry.val ∨ 32 * entry.val + 32 ≤ index) :
    clearEntry data entry index = data index := by
  unfold clearEntry write16
  simp only [direntSize]
  rw [memmove_of_not_mem _ _ (by omega), memmove_of_not_mem _ _ (by omega)]

/-- Changes within one entry leave the others alone. -/
theorem entryOf_of_ne {data' : Block} (differs : other ≠ entry)
    (outside : ∀ index, (index < 32 * entry.val ∨
      32 * entry.val + 32 ≤ index) → data' index = data index) :
    entryOf data' other = entryOf data other := by
  have apart : other.val ≠ entry.val := fun same => differs (Fin.ext same)
  exact entryOf_congr fun index small => outside _ (by omega)

theorem entryOf_storeEntry_of_ne (differs : other ≠ entry)
    (inodeNum : UInt16) (name : CString) :
    entryOf (storeEntry data entry inodeNum name) other =
      entryOf data other :=
  entryOf_of_ne differs fun _ => storeEntry_index entry inodeNum name

theorem entryOf_clearEntry_of_ne (differs : other ≠ entry) :
    entryOf (clearEntry data entry) other = entryOf data other :=
  entryOf_of_ne differs fun _ => clearEntry_index entry

/-- The bytes of a string before its terminating zero. -/
theorem takeWhile_ne_zero {bytes : List UInt8} {size : Nat}
    {source : Nat → UInt8} (noNul : 0 ∉ bytes) (short : bytes.length < size)
    (spelled : ∀ index (inside : index < bytes.length),
      source index = bytes[index])
    (ends : source bytes.length = 0) :
    ((List.range size).map source).takeWhile (· ≠ 0) = bytes := by
  obtain ⟨rest, rfl⟩ : ∃ rest, size = bytes.length + (rest + 1) :=
    ⟨size - bytes.length - 1, by omega⟩
  have front : (List.range bytes.length).map source = bytes :=
    List.ext_getElem (by simp) fun index _ inside => by
      simpa using spelled index inside
  rw [List.range_add, List.map_append, front, List.takeWhile_append_of_pos]
  · rw [List.range_succ_eq_map]
    simp [ends]
  · intro byte member
    simp only [ne_eq, decide_eq_true_eq]
    rintro rfl
    exact noNul member

theorem entryOf_storeEntry_self {name : CString} (fits : name.Fits)
    (inodeNum : UInt16) :
    entryOf (storeEntry data entry inodeNum name) entry =
      some (name.bytes, inodeNum) := by
  have size : dirNameLen = 30 := rfl
  have short := fits.short
  have stored : ∀ index < dirNameLen,
      storeEntry data entry inodeNum name (direntSize * entry + 2 + index) =
        if index = dirNameLen - 1 then 0 else name.bytes.getD index 0 := by
    intro index small
    unfold storeEntry
    rw [memmove_of_mem _ _ ⟨by omega, by omega⟩, Nat.add_sub_cancel_left]
  refine entryOf_eq_some.mpr ⟨fits.notEmpty, ?_, ?_⟩
  · refine takeWhile_ne_zero name.noNul fits.short (fun index inside => ?_) ?_
    · rw [stored index (by omega), if_neg (by omega),
        List.getD_eq_getElem _ _ inside]
    · rw [stored _ fits.short]
      split
      · rfl
      · exact List.getD_eq_default _ _ le_rfl
  · unfold entryInode storeEntry
    rw [read16_memmove_of_disjoint _ _ (by omega)]
    apply read16_of_byteOf
    intro index small
    unfold write16
    rw [memmove_of_mem _ _ ⟨by omega, by omega⟩, Nat.add_sub_cancel_left]

theorem entryOf_clearEntry_self :
    entryOf (clearEntry data entry) entry = none := by
  rw [entryOf_eq_none]
  have first : clearEntry data entry (direntSize * entry + 2 + 0) = 0 := by
    unfold clearEntry write16
    rw [memmove_of_not_mem _ _ (by omega), memmove_of_mem _ _
      ⟨by omega, by omega⟩]
  unfold entryName
  rw [List.range_succ_eq_map, List.map_cons, first]
  rfl

/-! ## Adding a name -/

section AddName

variable {name : CString} {inodeNum : UInt16}

/-- A name that is there already is not added. -/
theorem addName_of_found (found : lookupName data name ≠ inodeNumUnused) :
    addName data inodeNum name = data := by
  unfold addName
  rw [if_pos found, ite_self]

theorem addName_of_free
    (fits : name.Fits) (absent : findEntry data name = none)
    (free : freeEntry data = some entry) :
    addName data inodeNum name = storeEntry data entry inodeNum name := by
  have unlisted : lookupName data name = inodeNumUnused := by
    unfold lookupName
    rw [absent]
    rfl
  unfold addName
  rw [if_neg (Nat.not_le.mpr fits.short), if_neg (not_not.mpr unlisted), free]

/-- Entries in use stay. -/
theorem entryOf_addName
    {used : List UInt8 × UInt16} (listed : entryOf data entry = some used) :
    entryOf (addName data inodeNum name) entry = some used := by
  unfold addName
  split
  · exact listed
  · split
    · exact listed
    · split
      · next free found =>
        have differs : entry ≠ free := by
          rintro rfl
          rw [entryOf_of_freeEntry found] at listed
          cases listed
        rw [entryOf_storeEntry_of_ne differs, listed]
      · exact listed

end AddName

/-! ## New directories -/

/-- The only entries are those a directory has for itself and its parent. -/
structure OwnEntries (data : Block) (node above : UInt16) : Prop where
  own : ∀ entry used, entryOf data entry = some used →
    used = (dot.bytes, node) ∨ used = (dotDot.bytes, above)
  once : ∀ entry entry' used, entryOf data entry = some used →
    entryOf data entry' = some used → entry = entry'

/-- A directory has its two entries and no others. -/
structure EmptyDirectory (data : Block) (node above : UInt16) : Prop
    extends OwnEntries data node above where
  self : ∃ entry, entryOf data entry = some (dot.bytes, node)
  up : ∃ entry, entryOf data entry = some (dotDot.bytes, above)

theorem dot_fits : dot.Fits := ⟨by decide, by decide⟩

theorem dotDot_fits : dotDot.Fits := ⟨by decide, by decide⟩

theorem dot_ne_dotDot : dot.bytes ≠ dotDot.bytes := by decide

/-- One name is added to entries a directory may have. -/
theorem OwnEntries.addName
    {node above inodeNum : UInt16} {name : CString}
    (entries : OwnEntries data node above) (fits : name.Fits)
    (isOwn : (name.bytes, inodeNum) = (dot.bytes, node) ∨
      (name.bytes, inodeNum) = (dotDot.bytes, above))
    (used : inodeNum ≠ inodeNumUnused) :
    OwnEntries (addName data inodeNum name) node above ∧
      ∃ entry, entryOf (Fs.addName data inodeNum name) entry =
        some (name.bytes, inodeNum) := by
  have same : ∀ entry number,
      entryOf data entry = some (name.bytes, number) → number = inodeNum := by
    intro entry number listed
    have apart := dot_ne_dotDot
    rcases entries.own entry _ listed with one | two <;>
      rcases isOwn with one' | two' <;> simp_all [Prod.mk.injEq]
  cases found : findEntry data name with
  | some entry =>
      have listed := entryOf_of_findEntry fits found
      have number := same entry _ listed
      have isListed : lookupName data name ≠ inodeNumUnused := by
        unfold lookupName
        rw [found]
        show entryInode data entry ≠ inodeNumUnused
        rwa [number]
      rw [addName_of_found isListed]
      exact ⟨entries, entry, by rw [listed, number]⟩
  | none =>
      have absent := (findEntry_eq_none fits).mp found
      cases free : freeEntry data with
      | none =>
          -- Three entries in use cannot all be different.
          have full := freeEntry_eq_none.mp free
          obtain ⟨zero, isZero⟩ := Option.ne_none_iff_exists'.mp (full 0)
          obtain ⟨one, isOne⟩ := Option.ne_none_iff_exists'.mp (full 1)
          obtain ⟨two, isTwo⟩ := Option.ne_none_iff_exists'.mp (full 2)
          exfalso
          have apart01 : zero ≠ one := by
            rintro rfl
            exact absurd (entries.once 0 1 _ isZero isOne) (by decide)
          have apart02 : zero ≠ two := by
            rintro rfl
            exact absurd (entries.once 0 2 _ isZero isTwo) (by decide)
          have apart12 : one ≠ two := by
            rintro rfl
            exact absurd (entries.once 1 2 _ isOne isTwo) (by decide)
          rcases entries.own 0 _ isZero with rfl | rfl <;>
            rcases entries.own 1 _ isOne with rfl | rfl <;>
            rcases entries.own 2 _ isTwo with rfl | rfl <;> contradiction
      | some entry =>
          rw [addName_of_free fits found free]
          have added : entryOf (storeEntry data entry inodeNum name) entry =
              some (name.bytes, inodeNum) :=
            entryOf_storeEntry_self fits inodeNum
          have others : ∀ other, other ≠ entry →
              entryOf (storeEntry data entry inodeNum name) other =
                entryOf data other :=
            fun other differs => entryOf_storeEntry_of_ne differs _ _
          refine ⟨⟨fun other used' listed => ?_,
            fun other other' used' listed listed' => ?_⟩, entry, added⟩
          · by_cases here : other = entry
            · rw [here, added] at listed
              rw [← Option.some.inj listed]
              exact isOwn
            · rw [others other here] at listed
              exact entries.own other used' listed
          · by_cases here : other = entry
            · by_cases here' : other' = entry
              · rw [here, here']
              · rw [here, added] at listed
                rw [others other' here', ← listed] at listed'
                exact absurd listed' (absent other' _)
            · by_cases here' : other' = entry
              · rw [here', added] at listed'
                rw [others other here, ← listed'] at listed
                exact absurd listed (absent other _)
              · rw [others other here] at listed
                rw [others other' here'] at listed'
                exact entries.once other other' used' listed listed'

/-- Adding its two entries makes a block an empty directory exactly when it has
no other entries. -/
theorem emptyDirectory_iff
    {node above : UInt16} (node_ne : node ≠ inodeNumUnused)
    (above_ne : above ≠ inodeNumUnused) :
    EmptyDirectory (addName (addName data node dot) above dotDot) node above ↔
      OwnEntries data node above := by
  constructor
  · intro empty
    have kept : ∀ entry used, entryOf data entry = some used →
        entryOf (addName (addName data node dot) above dotDot) entry =
          some used :=
      fun entry used listed => entryOf_addName (entryOf_addName listed)
    exact ⟨fun entry used listed => empty.own entry used
        (kept entry used listed),
      fun entry entry' used listed listed' => empty.once entry entry' used
        (kept entry used listed) (kept entry' used listed')⟩
  · intro entries
    obtain ⟨entries₁, entry, listed⟩ :=
      entries.addName dot_fits (Or.inl rfl) node_ne
    obtain ⟨entries₂, up⟩ :=
      entries₁.addName dotDot_fits (Or.inr rfl) above_ne
    exact ⟨entries₂, ⟨entry, entryOf_addName listed⟩, up⟩

end Fs
end WhuOs
