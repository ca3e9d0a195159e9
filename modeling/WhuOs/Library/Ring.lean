import Mathlib.Data.List.Nodup
import Mathlib.Logic.Function.Basic

/-!
# Circular doubly linked lists

Nodes carry a `next` and a `prev` pointer, either of which may be null.  A
ring with a distinguished head visits a list of further nodes and returns to
the head, and `prev` inverts `next` along the way.  The operations are the two
pointer surgeries of an intrusive list: taking a node out of its position and
splicing it in between two neighbours.
-/

namespace Library

variable {Node : Type*}

/-- The two pointers of every node; `none` is the null pointer. -/
@[ext] structure Links (Node : Type*) where
  /-- Successor pointers. -/
  next : Node → Option Node
  /-- Predecessor pointers. -/
  prev : Node → Option Node

namespace Links

section Pointers

variable [DecidableEq Node]

/-- Store a successor pointer. -/
def setNext (links : Links Node) (node : Node) (target : Option Node) :
    Links Node :=
  { links with next := Function.update links.next node target }

/-- Store a predecessor pointer. -/
def setPrev (links : Links Node) (node : Node) (target : Option Node) :
    Links Node :=
  { links with prev := Function.update links.prev node target }

@[simp] theorem setNext_next
    (links : Links Node) (node : Node) (target : Option Node) (other : Node) :
    (links.setNext node target).next other =
      if other = node then target else links.next other :=
  Function.update_apply _ _ _ _

@[simp] theorem setNext_prev
    (links : Links Node) (node : Node) (target : Option Node) :
    (links.setNext node target).prev = links.prev := rfl

@[simp] theorem setPrev_prev
    (links : Links Node) (node : Node) (target : Option Node) (other : Node) :
    (links.setPrev node target).prev other =
      if other = node then target else links.prev other :=
  Function.update_apply _ _ _ _

@[simp] theorem setPrev_next
    (links : Links Node) (node : Node) (target : Option Node) :
    (links.setPrev node target).next = links.next := rfl

end Pointers

/-- One link of the list: the pointers of two neighbours name each other. -/
def Adjacent (links : Links Node) (left right : Node) : Prop :=
  links.next left = some right ∧ links.prev right = some left

/-- Walking `next` from `start` visits exactly the listed nodes and then
arrives at `finish`, with `prev` inverting every step. -/
def Path (links : Links Node) : Node → List Node → Node → Prop
  | start, [], finish => links.Adjacent start finish
  | start, node :: nodes, finish =>
      links.Adjacent start node ∧ links.Path node nodes finish

/-- Two paths meeting at a node are one path through that node. -/
theorem path_append_cons
    (links : Links Node)
    (start middle finish : Node)
    (front back : List Node) :
    links.Path start (front ++ middle :: back) finish ↔
      links.Path start front middle ∧ links.Path middle back finish := by
  induction front generalizing start with
  | nil => rfl
  | cons node front inductionHypothesis =>
      simp only [List.cons_append, Path, inductionHypothesis, and_assoc]

/-- A path depends only on the successors it leaves and the predecessors it
enters. -/
theorem Path.congr
    {links other : Links Node}
    {start finish : Node}
    {nodes : List Node}
    (path : links.Path start nodes finish)
    (sameNext : ∀ node ∈ start :: nodes, other.next node = links.next node)
    (samePrev : ∀ node ∈ nodes ++ [finish],
      other.prev node = links.prev node) :
    other.Path start nodes finish := by
  induction nodes generalizing start with
  | nil =>
      obtain ⟨forward, backward⟩ := path
      exact ⟨by rw [sameNext start (by simp), forward],
        by rw [samePrev finish (by simp), backward]⟩
  | cons node nodes inductionHypothesis =>
      obtain ⟨⟨forward, backward⟩, rest⟩ := path
      refine ⟨⟨by rw [sameNext start (by simp), forward],
        by rw [samePrev node (by simp), backward]⟩, ?_⟩
      apply inductionHypothesis rest
      · intro later member
        exact sameNext later (List.mem_cons_of_mem start member)
      · intro later member
        exact samePrev later (by simp_all)

/-- The last node a path visits before its end. -/
theorem Path.exists_last
    {links : Links Node}
    {start finish : Node}
    {nodes : List Node}
    (path : links.Path start nodes finish) :
    ∃ last ∈ start :: nodes, links.Adjacent last finish := by
  induction nodes generalizing start with
  | nil => exact ⟨start, by simp, path⟩
  | cons node nodes inductionHypothesis =>
      obtain ⟨last, member, adjacent⟩ := inductionHypothesis path.2
      exact ⟨last, List.mem_cons_of_mem start member, adjacent⟩

/-- The first node a path visits after its start. -/
theorem Path.exists_first
    {links : Links Node}
    {start finish : Node}
    {nodes : List Node}
    (path : links.Path start nodes finish) :
    ∃ first ∈ nodes ++ [finish], links.Adjacent start first := by
  cases nodes with
  | nil => exact ⟨finish, by simp, path⟩
  | cons node nodes => exact ⟨node, by simp, path.1⟩

/-- Redirecting the end of a path: storing a new successor in its last node
and the matching predecessor in the new end. -/
theorem Path.redirect_finish [DecidableEq Node]
    {links : Links Node}
    {start finish last : Node}
    {nodes : List Node}
    (path : links.Path start nodes finish)
    (newFinish : Node)
    (adjacent : links.Adjacent last finish)
    (lastVisited : last ∈ start :: nodes)
    (distinct : (start :: nodes).Nodup)
    (finishFresh : finish ∉ nodes)
    (newFresh : newFinish ∉ nodes) :
    ((links.setPrev newFinish (some last)).setNext last
      (some newFinish)).Path start nodes newFinish := by
  induction nodes generalizing start with
  | nil =>
      obtain rfl : last = start := by simpa using lastVisited
      exact ⟨by simp, by simp⟩
  | cons node nodes inductionHypothesis =>
      obtain ⟨⟨forward, backward⟩, rest⟩ := path
      have startNotLast : start ≠ last := by
        rintro rfl
        have : node = finish := by
          rw [adjacent.1] at forward
          exact (Option.some.inj forward).symm
        exact finishFresh (by simp [this])
      have nodeNotNew : node ≠ newFinish := by
        rintro rfl
        exact newFresh (by simp)
      refine ⟨⟨by simp [startNotLast, forward],
        by simp [nodeNotNew, backward]⟩, ?_⟩
      apply inductionHypothesis rest
      · rcases List.mem_cons.mp lastVisited with equal | inTail
        · exact absurd equal.symm startNotLast
        · exact inTail
      · exact (List.nodup_cons.mp distinct).2
      · exact fun member => finishFresh (List.mem_cons_of_mem node member)
      · exact fun member => newFresh (List.mem_cons_of_mem node member)

/-- A ring: from the head through the listed nodes and back, every node once. -/
structure Ring (links : Links Node) (head : Node) (nodes : List Node) :
    Prop where
  /-- The pointers visit exactly the listed nodes. -/
  path : links.Path head nodes head
  /-- No node is visited twice. -/
  distinct : (head :: nodes).Nodup

namespace Ring

variable {links : Links Node} {head : Node} {nodes : List Node}

/-- The head is not one of the listed nodes. -/
theorem head_not_mem (ring : links.Ring head nodes) : head ∉ nodes :=
  (List.nodup_cons.mp ring.distinct).1

/-- The listed nodes are pairwise distinct. -/
theorem nodup (ring : links.Ring head nodes) : nodes.Nodup :=
  (List.nodup_cons.mp ring.distinct).2

/-- The head alone, pointing at itself, is the empty ring. -/
theorem empty
    (forward : links.next head = some head)
    (backward : links.prev head = some head) :
    links.Ring head [] :=
  ⟨⟨forward, backward⟩, by simp⟩

/-- The successor of the head is the first listed node, if there is one. -/
theorem next_head (ring : links.Ring head nodes) :
    links.next head = some (nodes.headD head) := by
  cases nodes with
  | nil => exact ring.path.1
  | cons node nodes => exact ring.path.1.1

/-- The predecessor of the head is the last listed node, if there is one. -/
theorem prev_head (ring : links.Ring head nodes) :
    links.prev head = some (nodes.getLastD head) := by
  rcases List.eq_nil_or_concat nodes with rfl | ⟨front, last, rfl⟩
  · exact ring.path.2
  · have path := ring.path
    rw [List.concat_eq_append, path_append_cons] at path
    rw [List.concat_eq_append, List.getLastD_concat]
    exact path.2.2

variable [DecidableEq Node]

/-- Take a node out of the ring by joining its two neighbours. -/
def unlink (links : Links Node) (node : Node) : Links Node :=
  match links.next node, links.prev node with
  | some after, some before =>
      (links.setPrev after (some before)).setNext before (some after)
  | _, _ => links

/-- Unlinking a visited node leaves the ring of the remaining nodes. -/
theorem unlink_ring
    {front back : List Node} {node : Node}
    (ring : links.Ring head (front ++ node :: back)) :
    (unlink links node).Ring head (front ++ back) := by
  have distinct := ring.distinct
  obtain ⟨toNode, fromNode⟩ :=
    (links.path_append_cons head node head front back).mp ring.path
  obtain ⟨before, beforeMember, beforeAdjacent⟩ := toNode.exists_last
  obtain ⟨after, afterMember, afterAdjacent⟩ := fromNode.exists_first
  have unlinked : unlink links node =
      (links.setPrev after (some before)).setNext before (some after) := by
    simp [unlink, afterAdjacent.1, beforeAdjacent.2]
  have facts := distinct
  simp only [List.nodup_cons, List.mem_append, List.mem_cons, not_or,
    List.nodup_append] at facts
  refine ⟨?_, ?_⟩
  · rw [unlinked]
    have afterFresh : after ∉ front := by
      intro member
      rcases List.mem_append.mp afterMember with inBack | isHead
      · exact (facts.2.2.2 after member after (Or.inr inBack)) rfl
      · exact facts.1.1 (by simp_all)
    have toAfter := toNode.redirect_finish after
      beforeAdjacent beforeMember
      (by simp only [List.nodup_cons]; exact ⟨facts.1.1, facts.2.1⟩)
      (fun member => facts.2.2.2 node member node (Or.inl rfl) rfl)
      afterFresh
    cases back with
    | nil =>
        obtain rfl : after = head := by simpa using afterMember
        simpa using toAfter
    | cons first back =>
        obtain rfl : after = first := by
          have := fromNode.1.1
          rw [afterAdjacent.1] at this
          exact Option.some.inj this
        rw [path_append_cons]
        refine ⟨toAfter, fromNode.2.congr ?_ ?_⟩
        · intro other member
          have : other ≠ before := by
            rintro rfl
            rcases List.mem_cons.mp beforeMember with isHead | inFront
            · exact facts.1.2.2 (by rw [← isHead]; exact member)
            · exact facts.2.2.2 other inFront other (Or.inr member) rfl
          simp [this]
        · intro other member
          have : other ≠ after := by
            rintro rfl
            rcases List.mem_append.mp member with inBack | isHead
            · exact (List.nodup_cons.mp
                facts.2.2.1.2).1 inBack
            · exact facts.1.2.2 (by simp_all)
          simp [this]
  · refine List.Nodup.sublist ?_ distinct
    exact ((List.sublist_cons_self node back).append_left front).cons_cons head

/-- Splice a node in directly after the head.  The result is `none` when the
head has no successor to relink. -/
def linkFirst (links : Links Node) (head node : Node) :
    Option (Links Node) :=
  let links := links.setPrev node (some head)
  let links := links.setNext node (links.next head)
  match links.next head with
  | some first =>
      some ((links.setPrev first (some node)).setNext head (some node))
  | none => none

/-- Splice a node in directly before the head.  The result is `none` when the
head has no predecessor to relink. -/
def linkLast (links : Links Node) (head node : Node) :
    Option (Links Node) :=
  let links := links.setNext node (some head)
  let links := links.setPrev node (links.prev head)
  match links.prev head with
  | some last =>
      some ((links.setNext last (some node)).setPrev head (some node))
  | none => none

/-- A node outside the ring can be spliced in at the front. -/
theorem linkFirst_ring
    {node : Node}
    (ring : links.Ring head nodes)
    (fresh : node ∉ head :: nodes) :
    ∃ result, linkFirst links head node = some result ∧
      result.Ring head (node :: nodes) := by
  have headNotNode : head ≠ node := by
    rintro rfl
    simp at fresh
  have nodeNotNodes : node ∉ nodes := fun member => fresh (by simp [member])
  have headNotNodes := ring.head_not_mem
  have computed := ring.next_head
  refine ⟨(((links.setPrev node (some head)).setNext node
    (some (nodes.headD head))).setPrev (nodes.headD head) (some node)).setNext
      head (some node), by simp [linkFirst, headNotNode, computed], ?_, ?_⟩
  · cases nodes with
    | nil => simp [Path, Adjacent, headNotNode.symm]
    | cons first nodes =>
        simp only [List.mem_cons, not_or] at nodeNotNodes headNotNodes
        refine ⟨⟨by simp, ?_⟩, ⟨?_, ?_⟩, ring.path.2.congr ?_ ?_⟩
        · simp [nodeNotNodes.1]
        · simp [headNotNode.symm]
        · simp
        · intro other member
          have notHead : other ≠ head := by
            rintro rfl
            rcases List.mem_cons.mp member with equal | inTail
            · exact headNotNodes.1 equal
            · exact headNotNodes.2 inTail
          have notNode : other ≠ node := by
            rintro rfl
            rcases List.mem_cons.mp member with equal | inTail
            · exact nodeNotNodes.1 equal
            · exact nodeNotNodes.2 inTail
          simp [notHead, notNode]
        · intro other member
          have firstFresh : first ∉ nodes :=
            (List.nodup_cons.mp ring.nodup).1
          have notFirst : other ≠ first := by
            rintro rfl
            rcases List.mem_append.mp member with inTail | isHead
            · exact firstFresh inTail
            · exact headNotNodes.1 (by simp_all)
          have notNode : other ≠ node := by
            rintro rfl
            rcases List.mem_append.mp member with inTail | isHead
            · exact nodeNotNodes.2 inTail
            · exact headNotNode (by simp_all)
          simp [notFirst, notNode]
  · simp only [List.nodup_cons, List.mem_cons, not_or]
    exact ⟨⟨headNotNode, headNotNodes⟩, nodeNotNodes, ring.nodup⟩

/-- A node outside the ring can be spliced in at the back; successors outside
the ring are kept. -/
theorem linkLast_ring
    {node : Node}
    (ring : links.Ring head nodes)
    (fresh : node ∉ head :: nodes) :
    ∃ result, linkLast links head node = some result ∧
      result.Ring head (nodes ++ [node]) ∧
      ∀ other ∉ node :: head :: nodes,
        result.next other = links.next other := by
  have headNotNode : head ≠ node := by
    rintro rfl
    simp at fresh
  have nodeNotNodes : node ∉ nodes := fun member => fresh (by simp [member])
  have headNotNodes := ring.head_not_mem
  have computed := ring.prev_head
  obtain ⟨last, lastMember, lastAdjacent⟩ := ring.path.exists_last
  have lastEqual : nodes.getLastD head = last := by
    have := lastAdjacent.2
    rw [computed] at this
    exact Option.some.inj this
  rw [lastEqual] at computed
  have lastNotNode : last ≠ node := by
    rintro rfl
    exact fresh lastMember
  refine ⟨(((links.setNext node (some head)).setPrev node
    (some last)).setNext last (some node)).setPrev head (some node),
    by simp [linkLast, headNotNode, computed], ⟨?_, ?_⟩, ?_⟩
  · rw [path_append_cons]
    constructor
    · have redirected := ring.path.redirect_finish node
        lastAdjacent lastMember ring.distinct headNotNodes nodeNotNodes
      refine redirected.congr ?_ ?_
      · intro other member
        have notNode : other ≠ node := by
          rintro rfl
          exact fresh member
        simp [notNode]
      · intro other member
        have notHead : other ≠ head := by
          rintro rfl
          rcases List.mem_append.mp member with inNodes | isNode
          · exact headNotNodes inNodes
          · exact headNotNode (by simp_all)
        by_cases isNode : other = node
        · simp [isNode, headNotNode.symm]
        · simp [isNode, notHead]
    · exact ⟨by simp [lastNotNode.symm], by simp⟩
  · simp only [List.nodup_cons, List.mem_append, List.mem_singleton, not_or]
    refine ⟨⟨headNotNodes, headNotNode⟩, ?_⟩
    exact List.nodup_append.mpr ⟨ring.nodup, by simp, by
      intro first member second isNode
      rw [List.mem_singleton] at isNode
      rintro rfl
      exact nodeNotNodes (isNode ▸ member)⟩
  · intro other outside
    have notNode : other ≠ node := by
      rintro rfl
      simp at outside
    have notLast : other ≠ last := by
      rintro rfl
      exact outside (List.mem_cons_of_mem node lastMember)
    simp [notNode, notLast]

end Ring
end Links
end Library
