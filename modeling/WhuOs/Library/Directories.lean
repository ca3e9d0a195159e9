import Mathlib.Data.Set.Card

/-!
# Directory trees

Directories have places for entries, each with a name and a node.  Every
directory has an entry for itself and one for its parent; a directory other than
the root has one further entry, in its parent; a file may have any number of
entries.  The number of links of a file is that of its entries, and the number
of links of a directory is one more than that of its child directories.  Adding
and removing files and directories keeps this.
-/

namespace Library

/-- Directories with the number of links of each node. -/
@[ext] structure Directories (ι ν σ : Type*) where
  entries : ι → σ → Option (ν × ι)
  isDir : ι → Prop
  links : ι → Nat

namespace Directories

variable {ι ν σ : Type*}

/-- The places of the entries for a node. -/
def places (dirs : Directories ι ν σ) (node : ι) : Set (ι × σ) :=
  {place | ∃ name, dirs.entries place.1 place.2 = some (name, node)}

/-- The directories below a directory. -/
def children (dotDot : ν) (root : ι) (dirs : Directories ι ν σ) (dir : ι) :
    Set ι :=
  {child | dirs.isDir child ∧ child ≠ root ∧
    ∃ place, dirs.entries child place = some (dotDot, dir)}

/-- The entries form a tree of directories with files at its leaves, and the
numbers of links are right. -/
structure Consistent (dot dotDot : ν) (root : ι) (dirs : Directories ι ν σ) :
    Prop where
  inDir : ∀ {dir place entry}, dirs.entries dir place = some entry →
    dirs.isDir dir
  rootDir : dirs.isDir root
  self : ∀ {dir}, dirs.isDir dir →
    ∃ place, dirs.entries dir place = some (dot, dir)
  parent : ∀ {dir}, dirs.isDir dir → ∃ place above,
    dirs.entries dir place = some (dotDot, above) ∧ dirs.isDir above
  rootParent : ∀ {place above},
    dirs.entries root place = some (dotDot, above) → above = root
  unique : ∀ {dir place place' name node node'},
    dirs.entries dir place = some (name, node) →
    dirs.entries dir place' = some (name, node') → place = place'
  alive : ∀ {dir place name node},
    dirs.entries dir place = some (name, node) → dirs.links node ≠ 0
  below : ∀ {dir place name child},
    dirs.entries dir place = some (name, child) → name ≠ dot →
    name ≠ dotDot → dirs.isDir child →
    child ≠ root ∧ ∃ up, dirs.entries child up = some (dotDot, dir)
  single : ∀ {dir place place' name name' child},
    dirs.entries dir place = some (name, child) → name ≠ dot →
    name ≠ dotDot → dirs.entries dir place' = some (name', child) →
    name' ≠ dot → name' ≠ dotDot → dirs.isDir child → place = place'
  named : ∀ {child}, dirs.isDir child → child ≠ root →
    ∃ dir place name, dirs.entries dir place = some (name, child) ∧
      name ≠ dot ∧ name ≠ dotDot
  fileLinks : ∀ {node}, ¬dirs.isDir node →
    dirs.links node = (dirs.places node).ncard
  dirLinks : ∀ {dir}, dirs.isDir dir →
    dirs.links dir = 1 + (dirs.children dotDot root dir).ncard

variable {dot dotDot : ν} {root : ι} {dirs dirs' : Directories ι ν σ}

/-- A root without other entries is a tree. -/
theorem Consistent.ofRoot
    {selfPlace upPlace : σ} (differ : dot ≠ dotDot)
    (places : ∀ {dir place entry}, dirs.entries dir place = some entry ↔
      dir = root ∧ (place = selfPlace ∧ entry = (dot, root) ∨
        place = upPlace ∧ entry = (dotDot, root)))
    (isDir : ∀ {dir}, dirs.isDir dir ↔ dir = root)
    (linksRoot : dirs.links root = 1)
    (linksOther : ∀ {node}, node ≠ root → dirs.links node = 0) :
    Consistent dot dotDot root dirs where
  inDir listed := isDir.mpr (places.mp listed).1
  rootDir := isDir.mpr rfl
  self := by
    intro dir isRoot
    obtain rfl := isDir.mp isRoot
    exact ⟨selfPlace, places.mpr ⟨rfl, Or.inl ⟨rfl, rfl⟩⟩⟩
  parent := by
    intro dir isRoot
    obtain rfl := isDir.mp isRoot
    exact ⟨upPlace, dir, places.mpr ⟨rfl, Or.inr ⟨rfl, rfl⟩⟩, isRoot⟩
  rootParent := by
    intro place above listed
    obtain ⟨-, ⟨-, same⟩ | ⟨-, same⟩⟩ := places.mp listed <;>
      exact (Prod.mk.inj same).2
  unique := by
    intro dir place place' name node node' listed listed'
    obtain ⟨-, ⟨rfl, same⟩ | ⟨rfl, same⟩⟩ := places.mp listed <;>
      obtain ⟨-, ⟨rfl, same'⟩ | ⟨rfl, same'⟩⟩ := places.mp listed'
    · rfl
    · exact absurd ((Prod.mk.inj same).1.symm.trans (Prod.mk.inj same').1)
        differ
    · exact absurd ((Prod.mk.inj same').1.symm.trans (Prod.mk.inj same).1)
        differ
    · rfl
  alive := by
    intro dir place name node listed
    have isRoot : node = root := by
      obtain ⟨-, ⟨-, same⟩ | ⟨-, same⟩⟩ := places.mp listed <;>
        exact (Prod.mk.inj same).2
    rw [isRoot, linksRoot]
    decide
  below := by
    intro dir place name child listed notDot notDotDot
    obtain ⟨-, ⟨-, same⟩ | ⟨-, same⟩⟩ := places.mp listed
    · exact absurd (Prod.mk.inj same).1 notDot
    · exact absurd (Prod.mk.inj same).1 notDotDot
  single := by
    intro dir place place' name name' child listed notDot notDotDot
    obtain ⟨-, ⟨-, same⟩ | ⟨-, same⟩⟩ := places.mp listed
    · exact absurd (Prod.mk.inj same).1 notDot
    · exact absurd (Prod.mk.inj same).1 notDotDot
  named isRoot other := absurd (isDir.mp isRoot) other
  fileLinks := by
    intro node isFile
    have other : node ≠ root := fun same => isFile (isDir.mpr same)
    have empty : dirs.places node = ∅ := by
      rw [Set.eq_empty_iff_forall_notMem]
      rintro ⟨dir, place⟩ ⟨name, listed⟩
      obtain ⟨-, ⟨-, same⟩ | ⟨-, same⟩⟩ := places.mp listed <;>
        exact other (Prod.mk.inj same).2
    rw [linksOther other, empty, Set.ncard_empty]
  dirLinks := by
    intro dir isRoot
    obtain rfl := isDir.mp isRoot
    have empty : dirs.children dotDot dir dir = ∅ := by
      rw [Set.eq_empty_iff_forall_notMem]
      rintro child ⟨isChild, other, -⟩
      exact other (isDir.mp isChild)
    rw [linksRoot, empty, Set.ncard_empty]

namespace Consistent

variable (consistent : Consistent dot dotDot root dirs)

include consistent

/-- A directory has one parent. -/
theorem parent_unique
    {dir above above' : ι} {place place' : σ}
    (up : dirs.entries dir place = some (dotDot, above))
    (up' : dirs.entries dir place' = some (dotDot, above')) :
    above = above' := by
  obtain rfl := consistent.unique up up'
  rw [up] at up'
  cases up'
  rfl

/-- The directories below a directory are those that it lists. -/
theorem mem_children
    {dir child : ι} :
    child ∈ dirs.children dotDot root dir ↔
      dirs.isDir child ∧ ∃ place name,
        dirs.entries dir place = some (name, child) ∧ name ≠ dot ∧
          name ≠ dotDot := by
  constructor
  · rintro ⟨isDir, notRoot, up, isUp⟩
    obtain ⟨above, place, name, listed, notDot, notDotDot⟩ :=
      consistent.named isDir notRoot
    obtain ⟨_, up', isUp'⟩ :=
      consistent.below listed notDot notDotDot isDir
    rw [consistent.parent_unique isUp isUp']
    exact ⟨isDir, place, name, listed, notDot, notDotDot⟩
  · rintro ⟨isDir, place, name, listed, notDot, notDotDot⟩
    exact ⟨isDir, consistent.below listed notDot notDotDot isDir⟩

/-- A new name is not one that every directory has. -/
theorem ne_of_fresh
    {dir : ι} {name : ν} (isDir : dirs.isDir dir)
    (fresh : ∀ place node, dirs.entries dir place ≠ some (name, node)) :
    name ≠ dot ∧ name ≠ dotDot := by
  refine ⟨?_, ?_⟩
  · rintro rfl
    obtain ⟨place, self⟩ := consistent.self isDir
    exact fresh place dir self
  · rintro rfl
    obtain ⟨place, above, up, _⟩ := consistent.parent isDir
    exact fresh place above up

/-- A node without links has no entries. -/
theorem not_named_of_links_zero
    {node : ι} (unlinked : dirs.links node = 0) (dir : ι) (place : σ)
    (name : ν) : dirs.entries dir place ≠ some (name, node) :=
  fun entry => consistent.alive entry unlinked

end Consistent

/-! ## Files -/

/-- An entry for a file is added. -/
structure AddsFile (dirs dirs' : Directories ι ν σ) (dir : ι) (place : σ)
    (name : ν) (file : ι) : Prop where
  isDir : dirs.isDir dir
  free : dirs.entries dir place = none
  fresh : ∀ place' node, dirs.entries dir place' ≠ some (name, node)
  isFile : ¬dirs.isDir file
  added : dirs'.entries dir place = some (name, file)
  kept : ∀ dir' place', (dir', place') ≠ (dir, place) →
    dirs'.entries dir' place' = dirs.entries dir' place'
  sameDirs : ∀ node, dirs'.isDir node ↔ dirs.isDir node
  linked : dirs'.links file = dirs.links file + 1
  links : ∀ node, node ≠ file → dirs'.links node = dirs.links node

section AddsFile

variable {dir file : ι} {place : σ} {name : ν}
  (adds : AddsFile dirs dirs' dir place name file)

include adds

/-- The entries of the new listing. -/
theorem AddsFile.entries_iff
    {dir' node : ι} {place' : σ} {name' : ν} :
    dirs'.entries dir' place' = some (name', node) ↔
      dirs.entries dir' place' = some (name', node) ∨
        ((dir', place') = (dir, place) ∧ name' = name ∧ node = file) := by
  by_cases here : (dir', place') = (dir, place)
  · obtain ⟨rfl, rfl⟩ := Prod.mk.inj here
    rw [adds.added, adds.free]
    constructor
    · intro same
      obtain ⟨rfl, rfl⟩ := Prod.mk.inj (Option.some.inj same)
      exact Or.inr ⟨rfl, rfl, rfl⟩
    · rintro (absent | ⟨_, rfl, rfl⟩)
      · cases absent
      · rfl
  · rw [adds.kept dir' place' here]
    constructor
    · exact Or.inl
    · rintro (old | ⟨same, _⟩)
      · exact old
      · exact absurd same here

theorem AddsFile.places
    [Finite (ι × σ)] :
    (dirs'.places file).ncard = (dirs.places file).ncard + 1 := by
  have grown : dirs'.places file = insert (dir, place) (dirs.places file) := by
    ext ⟨dir', place'⟩
    rw [Set.mem_insert_iff]
    constructor
    · rintro ⟨name', entry⟩
      rcases adds.entries_iff.mp entry with old | ⟨here, _⟩
      · exact Or.inr ⟨name', old⟩
      · exact Or.inl here
    · rintro (here | ⟨name', old⟩)
      · exact ⟨name, adds.entries_iff.mpr (Or.inr ⟨here, rfl, rfl⟩)⟩
      · exact ⟨name', adds.entries_iff.mpr (Or.inl old)⟩
  rw [grown, Set.ncard_insert_of_notMem]
  rintro ⟨name', old⟩
  rw [adds.free] at old
  cases old

theorem AddsFile.places_of_ne
    {node : ι} (differs : node ≠ file) :
    dirs'.places node = dirs.places node := by
  ext ⟨dir', place'⟩
  constructor
  · rintro ⟨name', entry⟩
    rcases adds.entries_iff.mp entry with old | ⟨_, _, same⟩
    · exact ⟨name', old⟩
    · exact absurd same differs
  · rintro ⟨name', old⟩
    exact ⟨name', adds.entries_iff.mpr (Or.inl old)⟩

theorem Consistent.addFile
    [Finite (ι × σ)] (consistent : Consistent dot dotDot root dirs) :
    Consistent dot dotDot root dirs' := by
  obtain ⟨notDot, notDotDot⟩ := consistent.ne_of_fresh adds.isDir adds.fresh
  -- An entry with one of the two special names, or for a directory, is old.
  have oldDot : ∀ {dir' place' node}, dirs'.entries dir' place' =
      some (dotDot, node) → dirs.entries dir' place' = some (dotDot, node) := by
    intro dir' place' node entry
    rcases adds.entries_iff.mp entry with old | ⟨_, same, _⟩
    · exact old
    · exact absurd same.symm notDotDot
  have oldDir : ∀ {dir' place' name' child}, dirs.isDir child →
      dirs'.entries dir' place' = some (name', child) →
      dirs.entries dir' place' = some (name', child) := by
    intro dir' place' name' child isDir entry
    rcases adds.entries_iff.mp entry with old | ⟨_, _, rfl⟩
    · exact old
    · exact absurd isDir adds.isFile
  have keep : ∀ {dir' place' entry}, dirs.entries dir' place' = some entry →
      dirs'.entries dir' place' = some entry :=
    fun old => adds.entries_iff.mpr (Or.inl old)
  have children : ∀ dir', dirs'.children dotDot root dir' =
      dirs.children dotDot root dir' := by
    intro dir'
    ext child
    exact and_congr (adds.sameDirs child) (and_congr_right fun _ =>
      exists_congr fun up => ⟨oldDot, keep⟩)
  refine
    { inDir := ?_, rootDir := (adds.sameDirs root).mpr consistent.rootDir,
      self := ?_, parent := ?_, rootParent := ?_, unique := ?_, alive := ?_,
      below := ?_, single := ?_, named := ?_, fileLinks := ?_,
      dirLinks := ?_ }
  · rintro dir' place' ⟨name', node⟩ entry
    rw [adds.sameDirs]
    rcases adds.entries_iff.mp entry with old | ⟨here, _⟩
    · exact consistent.inDir old
    · rw [(Prod.mk.inj here).1]
      exact adds.isDir
  · intro dir' isDir
    obtain ⟨place', self⟩ := consistent.self ((adds.sameDirs dir').mp isDir)
    exact ⟨place', keep self⟩
  · intro dir' isDir
    obtain ⟨place', above, up, aboveDir⟩ :=
      consistent.parent ((adds.sameDirs dir').mp isDir)
    exact ⟨place', above, keep up, (adds.sameDirs above).mpr aboveDir⟩
  · intro place' above up
    exact consistent.rootParent (oldDot up)
  · intro dir' place' place'' name' node node' entry entry'
    rcases adds.entries_iff.mp entry with old | ⟨here, rfl, rfl⟩ <;>
      rcases adds.entries_iff.mp entry' with old' | ⟨here', isName, rfl⟩
    · exact consistent.unique old old'
    · rw [(Prod.mk.inj here').1, isName] at old
      exact absurd old (adds.fresh _ _)
    · rw [(Prod.mk.inj here).1] at old'
      exact absurd old' (adds.fresh _ _)
    · exact (Prod.mk.inj here).2.trans (Prod.mk.inj here').2.symm
  · intro dir' place' name' node entry
    rcases adds.entries_iff.mp entry with old | ⟨_, _, rfl⟩
    · by_cases same : node = file
      · subst same
        rw [adds.linked]
        exact Nat.succ_ne_zero _
      · rw [adds.links node same]
        exact consistent.alive old
    · rw [adds.linked]
      exact Nat.succ_ne_zero _
  · intro dir' place' name' child entry properName properName' isDir
    rw [adds.sameDirs] at isDir
    obtain ⟨notRoot, up, isUp⟩ := consistent.below (oldDir isDir entry)
      properName properName' isDir
    exact ⟨notRoot, up, keep isUp⟩
  · intro dir' place' place'' name' name'' child entry one two entry' one'
      two' isDir
    rw [adds.sameDirs] at isDir
    exact consistent.single (oldDir isDir entry) one two
      (oldDir isDir entry') one' two' isDir
  · intro child isDir notRoot
    obtain ⟨dir', place', name', entry, proper⟩ :=
      consistent.named ((adds.sameDirs child).mp isDir) notRoot
    exact ⟨dir', place', name', keep entry, proper⟩
  · intro node isFile
    rw [adds.sameDirs] at isFile
    by_cases same : node = file
    · subst same
      rw [adds.linked, adds.places, consistent.fileLinks isFile]
    · rw [adds.links node same, adds.places_of_ne same,
        consistent.fileLinks isFile]
  · intro dir' isDir
    rw [adds.sameDirs] at isDir
    have differs : dir' ≠ file := by
      rintro rfl
      exact adds.isFile isDir
    rw [adds.links dir' differs, children, consistent.dirLinks isDir]

end AddsFile

/-- An entry for a file is removed. -/
structure RemovesFile (dirs dirs' : Directories ι ν σ) (dir : ι) (place : σ)
    (file : ι) : Prop where
  entry : ∃ name, dirs.entries dir place = some (name, file)
  isFile : ¬dirs.isDir file
  removed : dirs'.entries dir place = none
  kept : ∀ dir' place', (dir', place') ≠ (dir, place) →
    dirs'.entries dir' place' = dirs.entries dir' place'
  sameDirs : ∀ node, dirs'.isDir node ↔ dirs.isDir node
  linked : dirs'.links file + 1 = dirs.links file
  links : ∀ node, node ≠ file → dirs'.links node = dirs.links node

section RemovesFile

variable {dir file : ι} {place : σ}
  (removes : RemovesFile dirs dirs' dir place file)

include removes

theorem RemovesFile.entries_iff
    {dir' : ι} {place' : σ} {entry : ν × ι} :
    dirs'.entries dir' place' = some entry ↔
      dirs.entries dir' place' = some entry ∧
        (dir', place') ≠ (dir, place) := by
  by_cases here : (dir', place') = (dir, place)
  · obtain ⟨rfl, rfl⟩ := Prod.mk.inj here
    rw [removes.removed]
    constructor
    · intro absent
      cases absent
    · rintro ⟨_, differs⟩
      exact absurd rfl differs
  · rw [removes.kept dir' place' here]
    exact ⟨fun old => ⟨old, here⟩, And.left⟩

theorem RemovesFile.places
    [Finite (ι × σ)] :
    (dirs'.places file).ncard + 1 = (dirs.places file).ncard := by
  obtain ⟨name, entry⟩ := removes.entry
  have member : (dir, place) ∈ dirs.places file := ⟨name, entry⟩
  have fewer : dirs'.places file = dirs.places file \ {(dir, place)} := by
    ext ⟨dir', place'⟩
    constructor
    · rintro ⟨name', entry'⟩
      obtain ⟨old, differs⟩ := removes.entries_iff.mp entry'
      exact ⟨⟨name', old⟩, differs⟩
    · rintro ⟨⟨name', old⟩, differs⟩
      exact ⟨name', removes.entries_iff.mpr ⟨old, differs⟩⟩
  rw [fewer]
  exact Set.ncard_sdiff_singleton_add_one member (Set.toFinite _)

theorem RemovesFile.places_of_ne
    {node : ι} (differs : node ≠ file) :
    dirs'.places node = dirs.places node := by
  obtain ⟨name, entry⟩ := removes.entry
  ext ⟨dir', place'⟩
  constructor
  · rintro ⟨name', entry'⟩
    exact ⟨name', (removes.entries_iff.mp entry').1⟩
  · rintro ⟨name', old⟩
    refine ⟨name', removes.entries_iff.mpr ⟨old, fun here => ?_⟩⟩
    obtain ⟨rfl, rfl⟩ := Prod.mk.inj here
    rw [entry] at old
    exact differs (Prod.mk.inj (Option.some.inj old)).2.symm

theorem Consistent.removeFile
    [Finite (ι × σ)] (consistent : Consistent dot dotDot root dirs) :
    Consistent dot dotDot root dirs' := by
  obtain ⟨name, entry⟩ := removes.entry
  have old : ∀ {dir' place' entry'}, dirs'.entries dir' place' = some entry' →
      dirs.entries dir' place' = some entry' :=
    fun entry' => (removes.entries_iff.mp entry').1
  -- The entry of a directory is not the one that is removed.
  have keepDir : ∀ {dir' place' name' node}, dirs.isDir node →
      dirs.entries dir' place' = some (name', node) →
      dirs'.entries dir' place' = some (name', node) := by
    intro dir' place' name' node isDir entry'
    refine removes.entries_iff.mpr ⟨entry', fun here => ?_⟩
    obtain ⟨rfl, rfl⟩ := Prod.mk.inj here
    rw [entry] at entry'
    obtain ⟨_, rfl⟩ := Prod.mk.inj (Option.some.inj entry')
    exact removes.isFile isDir
  have fileLinks : ∀ {node}, ¬dirs'.isDir node →
      dirs'.links node = (dirs'.places node).ncard := by
    intro node isFile
    rw [removes.sameDirs] at isFile
    by_cases same : node = file
    · subst same
      have linked := removes.linked
      have fewer := removes.places
      rw [consistent.fileLinks isFile] at linked
      omega
    · rw [removes.links node same, removes.places_of_ne same,
        consistent.fileLinks isFile]
  refine
    { inDir := ?_, rootDir := (removes.sameDirs root).mpr consistent.rootDir,
      self := ?_, parent := ?_, rootParent := ?_, unique := ?_, alive := ?_,
      below := ?_, single := ?_, named := ?_, fileLinks := fileLinks,
      dirLinks := ?_ }
  · intro dir' place' entry' listed
    exact (removes.sameDirs dir').mpr (consistent.inDir (old listed))
  · intro dir' isDir
    have isDir := (removes.sameDirs dir').mp isDir
    obtain ⟨place', self⟩ := consistent.self isDir
    exact ⟨place', keepDir isDir self⟩
  · intro dir' isDir
    obtain ⟨place', above, up, aboveDir⟩ :=
      consistent.parent ((removes.sameDirs dir').mp isDir)
    exact ⟨place', above, keepDir aboveDir up,
      (removes.sameDirs above).mpr aboveDir⟩
  · intro place' above up
    exact consistent.rootParent (old up)
  · intro dir' place' place'' name' node node' first second
    exact consistent.unique (old first) (old second)
  · intro dir' place' name' node listed
    by_cases same : node = file
    · subst same
      rw [fileLinks (fun isDir =>
        removes.isFile ((removes.sameDirs node).mp isDir))]
      have member : (dir', place') ∈ dirs'.places node := ⟨name', listed⟩
      exact Set.ncard_ne_zero_of_mem member (Set.toFinite _)
    · rw [removes.links node same]
      exact consistent.alive (old listed)
  · intro dir' place' name' child listed one two isDir
    rw [removes.sameDirs] at isDir
    obtain ⟨notRoot, up, isUp⟩ := consistent.below (old listed) one two isDir
    exact ⟨notRoot, up, keepDir (consistent.inDir (old listed)) isUp⟩
  · intro dir' place' place'' name' name'' child first one two second one'
      two' isDir
    rw [removes.sameDirs] at isDir
    exact consistent.single (old first) one two (old second) one' two' isDir
  · intro child isDir notRoot
    have isDir := (removes.sameDirs child).mp isDir
    obtain ⟨dir', place', name', listed, proper⟩ :=
      consistent.named isDir notRoot
    exact ⟨dir', place', name', keepDir isDir listed, proper⟩
  · intro dir' isDir
    have isDir := (removes.sameDirs dir').mp isDir
    have differs : dir' ≠ file := by
      rintro rfl
      exact removes.isFile isDir
    have children : dirs'.children dotDot root dir' =
        dirs.children dotDot root dir' := by
      ext child
      exact and_congr (removes.sameDirs child) (and_congr_right fun _ =>
        exists_congr fun up => ⟨old, keepDir isDir⟩)
    rw [removes.links dir' differs, children, consistent.dirLinks isDir]

end RemovesFile

/-! ## Directories -/

/-- A directory with its two entries is added. -/
structure AddsDir (dot dotDot : ν) (root : ι) (dirs dirs' : Directories ι ν σ)
    (dir : ι) (place : σ) (name : ν) (child : ι) (selfPlace upPlace : σ) :
    Prop where
  isDir : dirs.isDir dir
  free : dirs.entries dir place = none
  fresh : ∀ place' node, dirs.entries dir place' ≠ some (name, node)
  isNew : ¬dirs.isDir child
  unlinked : dirs.links child = 0
  notRoot : child ≠ root
  added : dirs'.entries dir place = some (name, child)
  self : dirs'.entries child selfPlace = some (dot, child)
  up : dirs'.entries child upPlace = some (dotDot, dir)
  empty : ∀ place', place' ≠ selfPlace → place' ≠ upPlace →
    dirs'.entries child place' = none
  kept : ∀ dir' place', dir' ≠ child → (dir', place') ≠ (dir, place) →
    dirs'.entries dir' place' = dirs.entries dir' place'
  moreDirs : ∀ node, dirs'.isDir node ↔ node = child ∨ dirs.isDir node
  linked : dirs'.links child = 1
  above : dirs'.links dir = dirs.links dir + 1
  links : ∀ node, node ≠ child → node ≠ dir →
    dirs'.links node = dirs.links node

section AddsDir

variable {dir child : ι} {place selfPlace upPlace : σ} {name : ν}
  (adds : AddsDir dot dotDot root dirs dirs' dir place name child selfPlace
    upPlace)
  (distinct : dot ≠ dotDot) (consistent : Consistent dot dotDot root dirs)

include adds consistent

theorem AddsDir.entries_iff
    {dir' node : ι} {place' : σ} {name' : ν} :
    dirs'.entries dir' place' = some (name', node) ↔
      dirs.entries dir' place' = some (name', node) ∨
      ((dir', place') = (dir, place) ∧ name' = name ∧ node = child) ∨
      (dir' = child ∧ place' = selfPlace ∧ name' = dot ∧ node = child) ∨
      (dir' = child ∧ place' = upPlace ∧ name' = dotDot ∧ node = dir) := by
  have apart : dir ≠ child := by
    rintro rfl
    exact adds.isNew adds.isDir
  have noEntry : ∀ place' entry, dirs.entries child place' ≠ some entry :=
    fun place' entry listed => adds.isNew (consistent.inDir listed)
  by_cases inChild : dir' = child
  · subst inChild
    have elsewhere : (dir', place') ≠ (dir, place) := fun here =>
      apart (Prod.mk.inj here).1.symm
    constructor
    · intro listed
      by_cases isSelf : place' = selfPlace
      · subst isSelf
        rw [adds.self] at listed
        obtain ⟨rfl, rfl⟩ := Prod.mk.inj (Option.some.inj listed)
        exact Or.inr (Or.inr (Or.inl ⟨rfl, rfl, rfl, rfl⟩))
      · by_cases isUp : place' = upPlace
        · subst isUp
          rw [adds.up] at listed
          obtain ⟨rfl, rfl⟩ := Prod.mk.inj (Option.some.inj listed)
          exact Or.inr (Or.inr (Or.inr ⟨rfl, rfl, rfl, rfl⟩))
        · rw [adds.empty place' isSelf isUp] at listed
          cases listed
    · rintro (old | ⟨here, _⟩ | ⟨_, rfl, rfl, rfl⟩ | ⟨_, rfl, rfl, rfl⟩)
      · exact absurd old (noEntry _ _)
      · exact absurd here elsewhere
      · exact adds.self
      · exact adds.up
  · by_cases here : (dir', place') = (dir, place)
    · obtain ⟨rfl, rfl⟩ := Prod.mk.inj here
      rw [adds.added, adds.free]
      constructor
      · intro same
        obtain ⟨rfl, rfl⟩ := Prod.mk.inj (Option.some.inj same)
        exact Or.inr (Or.inl ⟨rfl, rfl, rfl⟩)
      · rintro (absent | ⟨_, rfl, rfl⟩ | ⟨same, _⟩ | ⟨same, _⟩)
        · cases absent
        · rfl
        · exact absurd same inChild
        · exact absurd same inChild
    · rw [adds.kept dir' place' inChild here]
      constructor
      · exact Or.inl
      · rintro (old | ⟨same, _⟩ | ⟨same, _⟩ | ⟨same, _⟩)
        · exact old
        · exact absurd same here
        · exact absurd same inChild
        · exact absurd same inChild

include distinct

/-- The child directories after the addition. -/
theorem AddsDir.mem_children
    {dir' below : ι} :
    below ∈ dirs'.children dotDot root dir' ↔
      below ∈ dirs.children dotDot root dir' ∨
        (below = child ∧ dir' = dir) := by
  obtain ⟨notDot, notDotDot⟩ := consistent.ne_of_fresh adds.isDir adds.fresh
  constructor
  · rintro ⟨isDir, notRoot, up, listed⟩
    rcases (adds.entries_iff consistent).mp listed with
      old | ⟨_, same, _⟩ | ⟨_, _, same, _⟩ | ⟨rfl, _, _, rfl⟩
    · exact Or.inl ⟨consistent.inDir old, notRoot, up, old⟩
    · exact absurd same.symm notDotDot
    · exact absurd same.symm distinct
    · exact Or.inr ⟨rfl, rfl⟩
  · rintro (⟨isDir, notRoot, up, old⟩ | ⟨rfl, rfl⟩)
    · exact ⟨(adds.moreDirs below).mpr (Or.inr isDir), notRoot, up,
        (adds.entries_iff consistent).mpr (Or.inl old)⟩
    · exact ⟨(adds.moreDirs below).mpr (Or.inl rfl), adds.notRoot, upPlace,
        adds.up⟩

theorem Consistent.addDir
    [Finite ι] : Consistent dot dotDot root dirs' := by
  obtain ⟨notDot, notDotDot⟩ := consistent.ne_of_fresh adds.isDir adds.fresh
  have apart : dir ≠ child := by
    rintro rfl
    exact adds.isNew adds.isDir
  have cases := @AddsDir.entries_iff _ _ _ _ _ _ _ _ _ _ _ _ _ _ adds
    consistent
  have notNamed := consistent.not_named_of_links_zero adds.unlinked
  have keep : ∀ {dir' place' entry}, dirs.entries dir' place' = some entry →
      dirs'.entries dir' place' = some entry :=
    fun old => cases.mpr (Or.inl old)
  refine
    { inDir := ?_, rootDir := (adds.moreDirs root).mpr
        (Or.inr consistent.rootDir),
      self := ?_, parent := ?_, rootParent := ?_, unique := ?_, alive := ?_,
      below := ?_, single := ?_, named := ?_, fileLinks := ?_,
      dirLinks := ?_ }
  · rintro dir' place' ⟨name', node⟩ listed
    rw [adds.moreDirs]
    rcases cases.mp listed with old | ⟨here, _⟩ | ⟨same, _⟩ | ⟨same, _⟩
    · exact Or.inr (consistent.inDir old)
    · rw [(Prod.mk.inj here).1]
      exact Or.inr adds.isDir
    · exact Or.inl same
    · exact Or.inl same
  · intro dir' isDir
    rcases (adds.moreDirs dir').mp isDir with rfl | isDir
    · exact ⟨selfPlace, adds.self⟩
    · obtain ⟨place', self⟩ := consistent.self isDir
      exact ⟨place', keep self⟩
  · intro dir' isDir
    rcases (adds.moreDirs dir').mp isDir with rfl | isDir
    · exact ⟨upPlace, dir, adds.up,
        (adds.moreDirs dir).mpr (Or.inr adds.isDir)⟩
    · obtain ⟨place', above, up, aboveDir⟩ := consistent.parent isDir
      exact ⟨place', above, keep up,
        (adds.moreDirs above).mpr (Or.inr aboveDir)⟩
  · intro place' above listed
    rcases cases.mp listed with old | ⟨_, same, _⟩ | ⟨same, _⟩ | ⟨same, _⟩
    · exact consistent.rootParent old
    · exact absurd same.symm notDotDot
    · exact absurd same.symm adds.notRoot
    · exact absurd same.symm adds.notRoot
  · intro dir' place' place'' name' node node' first second
    have oldNotChild : ∀ {place' entry},
        dirs.entries child place' ≠ some entry :=
      fun listed => adds.isNew (consistent.inDir listed)
    rcases cases.mp first with
        old | ⟨here, one, _⟩ | ⟨inChild, at1, one, _⟩ |
          ⟨inChild, at1, one, _⟩ <;>
      rcases cases.mp second with
        old' | ⟨here', two, _⟩ | ⟨inChild', at2, two, _⟩ |
          ⟨inChild', at2, two, _⟩
    · exact consistent.unique old old'
    · rw [(Prod.mk.inj here').1, two] at old
      exact absurd old (adds.fresh _ _)
    · rw [inChild'] at old
      exact absurd old oldNotChild
    · rw [inChild'] at old
      exact absurd old oldNotChild
    · rw [(Prod.mk.inj here).1, one] at old'
      exact absurd old' (adds.fresh _ _)
    · exact (Prod.mk.inj here).2.trans (Prod.mk.inj here').2.symm
    · exact absurd ((Prod.mk.inj here).1.symm.trans inChild') apart
    · exact absurd ((Prod.mk.inj here).1.symm.trans inChild') apart
    · rw [inChild] at old'
      exact absurd old' oldNotChild
    · exact absurd ((Prod.mk.inj here').1.symm.trans inChild) apart
    · exact at1.trans at2.symm
    · exact absurd (one.symm.trans two) distinct
    · rw [inChild] at old'
      exact absurd old' oldNotChild
    · exact absurd ((Prod.mk.inj here').1.symm.trans inChild) apart
    · exact absurd (two.symm.trans one) distinct
    · exact at1.trans at2.symm
  · intro dir' place' name' node listed
    rcases cases.mp listed with
      old | ⟨_, _, rfl⟩ | ⟨_, _, _, rfl⟩ | ⟨_, _, _, rfl⟩
    · have differs : node ≠ child := by
        rintro rfl
        exact notNamed _ _ _ old
      by_cases same : node = dir
      · subst same
        rw [adds.above]
        exact Nat.succ_ne_zero _
      · rw [adds.links node differs same]
        exact consistent.alive old
    · rw [adds.linked]
      exact Nat.one_ne_zero
    · rw [adds.linked]
      exact Nat.one_ne_zero
    · rw [adds.above]
      exact Nat.succ_ne_zero _
  · intro dir' place' name' below listed one two isDir
    rcases cases.mp listed with
      old | ⟨here, _, rfl⟩ | ⟨_, _, same, _⟩ | ⟨_, _, same, _⟩
    · have differs : below ≠ child := by
        rintro rfl
        exact notNamed _ _ _ old
      obtain ⟨notRoot, up, isUp⟩ := consistent.below old one two
        (((adds.moreDirs below).mp isDir).resolve_left differs)
      exact ⟨notRoot, up, keep isUp⟩
    · rw [(Prod.mk.inj here).1]
      exact ⟨adds.notRoot, upPlace, adds.up⟩
    · exact absurd same one
    · exact absurd same two
  · intro dir' place' place'' name' name'' below first one two second one'
      two' isDir
    rcases cases.mp first with
        old | ⟨here, _, isNew⟩ | ⟨_, _, same, _⟩ | ⟨_, _, same, _⟩
    · have differs : below ≠ child := by
        rintro rfl
        exact notNamed _ _ _ old
      have isOld := ((adds.moreDirs below).mp isDir).resolve_left differs
      rcases cases.mp second with
        old' | ⟨_, _, isNew⟩ | ⟨_, _, same, _⟩ | ⟨_, _, same, _⟩
      · exact consistent.single old one two old' one' two' isOld
      · exact absurd isNew differs
      · exact absurd same one'
      · exact absurd same two'
    · subst isNew
      rcases cases.mp second with
        old' | ⟨here', _, _⟩ | ⟨_, _, same, _⟩ | ⟨_, _, same, _⟩
      · exact absurd old' (notNamed _ _ _)
      · exact (Prod.mk.inj here).2.trans (Prod.mk.inj here').2.symm
      · exact absurd same one'
      · exact absurd same two'
    · exact absurd same one
    · exact absurd same two
  · intro below isDir notRoot
    rcases (adds.moreDirs below).mp isDir with rfl | isDir
    · exact ⟨dir, place, name, adds.added, notDot, notDotDot⟩
    · obtain ⟨dir', place', name', listed, proper⟩ :=
        consistent.named isDir notRoot
      exact ⟨dir', place', name', keep listed, proper⟩
  · intro node isFile
    rw [adds.moreDirs, not_or] at isFile
    have notDir : node ≠ dir := by
      rintro rfl
      exact isFile.2 adds.isDir
    have places : dirs'.places node = dirs.places node := by
      ext ⟨dir', place'⟩
      constructor
      · rintro ⟨name', listed⟩
        rcases cases.mp listed with
          old | ⟨_, _, same⟩ | ⟨_, _, _, same⟩ | ⟨_, _, _, same⟩
        · exact ⟨name', old⟩
        · exact absurd same isFile.1
        · exact absurd same isFile.1
        · exact absurd same notDir
      · rintro ⟨name', old⟩
        exact ⟨name', keep old⟩
    rw [adds.links node isFile.1 notDir, places,
      consistent.fileLinks isFile.2]
  · intro dir' isDir
    have members := fun below => @AddsDir.mem_children _ _ _ _ _ _ _ _ _ _ _
      _ _ _ adds distinct consistent dir' below
    by_cases isNew : dir' = child
    · subst isNew
      have none : dirs'.children dotDot root dir' = ∅ := by
        ext below
        rw [members]
        constructor
        · rintro (⟨_, _, up, old⟩ | ⟨_, same⟩)
          · exact absurd old (notNamed _ _ _)
          · exact absurd same.symm apart
        · intro absent
          exact absurd absent (Set.notMem_empty _)
      rw [adds.linked, none, Set.ncard_empty]
    · have isOld := ((adds.moreDirs dir').mp isDir).resolve_left isNew
      by_cases same : dir' = dir
      · subst same
        have more : dirs'.children dotDot root dir' =
            insert child (dirs.children dotDot root dir') := by
          ext below
          rw [members, Set.mem_insert_iff, or_comm]
          exact or_congr_left ⟨And.left, fun isChild => ⟨isChild, rfl⟩⟩
        rw [adds.above, more, Set.ncard_insert_of_notMem
          (fun old => adds.isNew old.1) (Set.toFinite _),
          consistent.dirLinks isOld, Nat.add_assoc]
      · have sameChildren : dirs'.children dotDot root dir' =
            dirs.children dotDot root dir' := by
          ext below
          rw [members]
          exact ⟨fun either => either.resolve_right fun added =>
            same added.2, Or.inl⟩
        rw [adds.links dir' isNew same, sameChildren,
          consistent.dirLinks isOld]

end AddsDir

/-- A directory that has only its two entries is removed. -/
structure RemovesDir (dot dotDot : ν) (dirs dirs' : Directories ι ν σ)
    (dir : ι) (place : σ) (child : ι) : Prop where
  entry : ∃ name, name ≠ dot ∧ name ≠ dotDot ∧
    dirs.entries dir place = some (name, child)
  isDir : dirs.isDir child
  leaf : ∀ place' name node, dirs.entries child place' = some (name, node) →
    name = dot ∨ name = dotDot
  removed : dirs'.entries dir place = none
  emptied : ∀ place', dirs'.entries child place' = none
  kept : ∀ dir' place', dir' ≠ child → (dir', place') ≠ (dir, place) →
    dirs'.entries dir' place' = dirs.entries dir' place'
  fewerDirs : ∀ node, dirs'.isDir node ↔ node ≠ child ∧ dirs.isDir node
  unlinked : dirs'.links child = 0
  above : dirs'.links dir + 1 = dirs.links dir
  links : ∀ node, node ≠ child → node ≠ dir →
    dirs'.links node = dirs.links node

/-- No directory is below one that has only its two entries. -/
theorem Consistent.children_of_leaf
    {child : ι} (consistent : Consistent dot dotDot root dirs)
    (leaf : ∀ place name node, dirs.entries child place = some (name, node) →
      name = dot ∨ name = dotDot) :
    dirs.children dotDot root child = ∅ := by
  ext below
  simp only [Set.mem_empty_iff_false, iff_false]
  rintro ⟨isDir, notRoot, up, listed⟩
  obtain ⟨dir, place, name, named, notDot, notDotDot⟩ :=
    consistent.named isDir notRoot
  obtain ⟨_, up', isUp⟩ := consistent.below named notDot notDotDot isDir
  obtain rfl := consistent.parent_unique listed isUp
  exact (leaf place name below named).elim notDot notDotDot

/-- A directory that has only its two entries has one link. -/
theorem Consistent.links_of_leaf
    {child : ι} (consistent : Consistent dot dotDot root dirs)
    (isDir : dirs.isDir child)
    (leaf : ∀ place name node, dirs.entries child place = some (name, node) →
      name = dot ∨ name = dotDot) :
    dirs.links child = 1 := by
  rw [consistent.dirLinks isDir, consistent.children_of_leaf leaf,
    Set.ncard_empty]

section RemovesDir

variable {dir child : ι} {place : σ}
  (removes : RemovesDir dot dotDot dirs dirs' dir place child)
  (consistent : Consistent dot dotDot root dirs)

include removes

/-- The entries that remain were there before. -/
theorem RemovesDir.entries_iff
    {dir' : ι} {place' : σ} {entry : ν × ι} :
    dirs'.entries dir' place' = some entry ↔
      dirs.entries dir' place' = some entry ∧ dir' ≠ child ∧
        (dir', place') ≠ (dir, place) := by
  by_cases inChild : dir' = child
  · subst inChild
    simp [removes.emptied]
  · by_cases here : (dir', place') = (dir, place)
    · obtain ⟨rfl, rfl⟩ := Prod.mk.inj here
      simp [removes.removed]
    · rw [removes.kept dir' place' inChild here]
      exact ⟨fun old => ⟨old, inChild, here⟩, And.left⟩

/-- The two entries every directory has remain in the other directories. -/
theorem RemovesDir.keep
    {dir' node : ι} {place' : σ} {name : ν}
    (every : name = dot ∨ name = dotDot) (other : dir' ≠ child)
    (listed : dirs.entries dir' place' = some (name, node)) :
    dirs'.entries dir' place' = some (name, node) := by
  refine removes.entries_iff.mpr ⟨listed, other, fun here => ?_⟩
  obtain ⟨name', notDot, notDotDot, entry⟩ := removes.entry
  obtain ⟨rfl, rfl⟩ := Prod.mk.inj here
  rw [entry] at listed
  obtain ⟨rfl, _⟩ := Prod.mk.inj (Option.some.inj listed)
  exact every.elim notDot notDotDot

include consistent

/-- The directory above the one that is removed. -/
theorem RemovesDir.up :
    child ≠ root ∧ ∃ place', dirs.entries child place' = some (dotDot, dir) := by
  obtain ⟨_, notDot, notDotDot, entry⟩ := removes.entry
  exact consistent.below entry notDot notDotDot removes.isDir

/-- No entry for the directory remains. -/
theorem RemovesDir.not_named
    {dir' : ι} {place' : σ} {name : ν} :
    dirs'.entries dir' place' ≠ some (name, child) := by
  intro listed
  obtain ⟨old, other, elsewhere⟩ := removes.entries_iff.mp listed
  obtain ⟨notRoot, up, isUp⟩ := removes.up consistent
  by_cases isDot : name = dot
  · subst isDot
    obtain ⟨self, isSelf⟩ := consistent.self (consistent.inDir old)
    obtain rfl := consistent.unique old isSelf
    rw [isSelf] at old
    exact other (Prod.mk.inj (Option.some.inj old)).2
  · by_cases isDotDot : name = dotDot
    · subst isDotDot
      by_cases isRoot : dir' = root
      · subst isRoot
        exact notRoot (consistent.rootParent old)
      · have isChild : dir' ∈ dirs.children name root child :=
          ⟨consistent.inDir old, isRoot, place', old⟩
        rw [consistent.children_of_leaf removes.leaf] at isChild
        exact absurd isChild (Set.notMem_empty _)
    · obtain ⟨name', notDot, notDotDot, entry⟩ := removes.entry
      obtain ⟨_, up', isUp'⟩ :=
        consistent.below old isDot isDotDot removes.isDir
      obtain rfl := consistent.parent_unique isUp isUp'
      exact elsewhere (Prod.ext rfl (consistent.single old isDot isDotDot
        entry notDot notDotDot removes.isDir))

/-- What the directory lists are directories. -/
theorem RemovesDir.lists_dirs
    {place' : σ} {name : ν} {node : ι}
    (listed : dirs.entries child place' = some (name, node)) :
    dirs.isDir node := by
  rcases removes.leaf place' name node listed with rfl | rfl
  · obtain ⟨self, isSelf⟩ := consistent.self removes.isDir
    obtain rfl := consistent.unique listed isSelf
    rw [isSelf] at listed
    rw [← (Prod.mk.inj (Option.some.inj listed)).2]
    exact removes.isDir
  · obtain ⟨up, above, isUp, aboveDir⟩ := consistent.parent removes.isDir
    rwa [consistent.parent_unique listed isUp]

theorem Consistent.removeDir
    [Finite ι] : Consistent dot dotDot root dirs' := by
  obtain ⟨name, notDot, notDotDot, entry⟩ := removes.entry
  obtain ⟨notRoot, up, isUp⟩ := removes.up consistent
  have inDir : dirs.isDir dir := consistent.inDir entry
  have apart : dir ≠ child := by
    rintro rfl
    exact (removes.leaf place name dir entry).elim notDot notDotDot
  have old : ∀ {dir' place' entry'}, dirs'.entries dir' place' = some entry' →
      dirs.entries dir' place' = some entry' :=
    fun listed => (removes.entries_iff.mp listed).1
  have isChild : child ∈ dirs.children dotDot root dir :=
    ⟨removes.isDir, notRoot, up, isUp⟩
  refine
    { inDir := ?_, rootDir := (removes.fewerDirs root).mpr
        ⟨notRoot.symm, consistent.rootDir⟩,
      self := ?_, parent := ?_, rootParent := ?_, unique := ?_, alive := ?_,
      below := ?_, single := ?_, named := ?_, fileLinks := ?_,
      dirLinks := ?_ }
  · intro dir' place' entry' listed
    obtain ⟨listed, other, _⟩ := removes.entries_iff.mp listed
    exact (removes.fewerDirs dir').mpr ⟨other, consistent.inDir listed⟩
  · intro dir' isDir
    obtain ⟨other, isDir⟩ := (removes.fewerDirs dir').mp isDir
    obtain ⟨place', self⟩ := consistent.self isDir
    exact ⟨place', removes.keep (Or.inl rfl) other self⟩
  · intro dir' isDir
    obtain ⟨other, isDir⟩ := (removes.fewerDirs dir').mp isDir
    obtain ⟨place', above, listed, aboveDir⟩ := consistent.parent isDir
    have kept := removes.keep (Or.inr rfl) other listed
    refine ⟨place', above, kept, (removes.fewerDirs above).mpr ⟨?_, aboveDir⟩⟩
    rintro rfl
    exact removes.not_named consistent kept
  · intro place' above listed
    exact consistent.rootParent (old listed)
  · intro dir' place' place'' name' node node' first second
    exact consistent.unique (old first) (old second)
  · intro dir' place' name' node listed
    have differs : node ≠ child := by
      rintro rfl
      exact removes.not_named consistent listed
    by_cases same : node = dir
    · subst same
      have more := removes.above
      rw [consistent.dirLinks inDir] at more
      have some := Set.ncard_ne_zero_of_mem isChild (Set.toFinite _)
      omega
    · rw [removes.links node differs same]
      exact consistent.alive (old listed)
  · intro dir' place' name' node listed one two isDir
    obtain ⟨other, isDir⟩ := (removes.fewerDirs node).mp isDir
    obtain ⟨proper, up', isUp'⟩ := consistent.below (old listed) one two isDir
    exact ⟨proper, up', removes.keep (Or.inr rfl) other isUp'⟩
  · intro dir' place' place'' name' name'' node first one two second one'
      two' isDir
    exact consistent.single (old first) one two (old second) one' two'
      ((removes.fewerDirs node).mp isDir).2
  · intro node isDir proper
    obtain ⟨other, isDir⟩ := (removes.fewerDirs node).mp isDir
    obtain ⟨dir', place', name', listed, one, two⟩ :=
      consistent.named isDir proper
    refine ⟨dir', place', name', removes.entries_iff.mpr
      ⟨listed, ?_, fun here => ?_⟩, one, two⟩
    · rintro rfl
      exact (removes.leaf place' name' node listed).elim one two
    · obtain ⟨rfl, rfl⟩ := Prod.mk.inj here
      rw [entry] at listed
      exact other (Prod.mk.inj (Option.some.inj listed)).2.symm
  · intro node isFile
    by_cases same : node = child
    · subst same
      have none : dirs'.places node = ∅ := by
        ext ⟨dir', place'⟩
        simp only [Set.mem_empty_iff_false, iff_false]
        rintro ⟨name', listed⟩
        exact removes.not_named consistent listed
      rw [removes.unlinked, none, Set.ncard_empty]
    · have isFile : ¬dirs.isDir node := fun isDir =>
        isFile ((removes.fewerDirs node).mpr ⟨same, isDir⟩)
      have notDir : node ≠ dir := by
        rintro rfl
        exact isFile inDir
      have places : dirs'.places node = dirs.places node := by
        ext ⟨dir', place'⟩
        refine exists_congr fun name' => ⟨old, fun listed =>
          removes.entries_iff.mpr ⟨listed, ?_, fun here => ?_⟩⟩
        · intro inChild
          change dir' = child at inChild
          subst inChild
          exact isFile (removes.lists_dirs consistent listed)
        · obtain ⟨rfl, rfl⟩ := Prod.mk.inj here
          rw [entry] at listed
          exact same (Prod.mk.inj (Option.some.inj listed)).2.symm
      rw [removes.links node same notDir, places,
        consistent.fileLinks isFile]
  · intro dir' isDir
    obtain ⟨other, isDir⟩ := (removes.fewerDirs dir').mp isDir
    have members : ∀ below, below ∈ dirs'.children dotDot root dir' ↔
        below ∈ dirs.children dotDot root dir' ∧ below ≠ child := by
      intro below
      constructor
      · rintro ⟨isDir, proper, up', listed⟩
        obtain ⟨other, isDir⟩ := (removes.fewerDirs below).mp isDir
        exact ⟨⟨isDir, proper, up', old listed⟩, other⟩
      · rintro ⟨⟨isDir, proper, up', listed⟩, other⟩
        exact ⟨(removes.fewerDirs below).mpr ⟨other, isDir⟩, proper, up',
          removes.keep (Or.inr rfl) other listed⟩
    by_cases same : dir' = dir
    · subst same
      have fewer : dirs'.children dotDot root dir' =
          dirs.children dotDot root dir' \ {child} := Set.ext members
      have more := removes.above
      have counted := Set.ncard_sdiff_singleton_add_one isChild
        (Set.toFinite _)
      rw [consistent.dirLinks inDir, ← counted] at more
      rw [fewer]
      omega
    · have sameChildren : dirs'.children dotDot root dir' =
          dirs.children dotDot root dir' := by
        ext below
        rw [members]
        refine ⟨And.left, fun listed => ⟨listed, ?_⟩⟩
        rintro rfl
        obtain ⟨_, _, up', isUp'⟩ := listed
        exact same (consistent.parent_unique isUp' isUp)
      rw [removes.links dir' other same, sameChildren,
        consistent.dirLinks isDir]

end RemovesDir

end Directories
end Library
