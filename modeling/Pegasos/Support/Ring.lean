import Mathlib.Data.List.Nodup
import Mathlib.Logic.Function.Basic
import Mathlib.Tactic.Common

/-!
# Circular doubly linked lists

Nodes are linked in both directions by two maps, and a ring is the closed walk
that visits a list of nodes in order.  A ring may be read from any of its nodes;
inserting before the first node and removing a node are edits of four and two
links.  `null` is written `none`.
-/

namespace Pegasos.Support

universe u

variable {Node : Type u}

/-- `left` and `right` are neighbours in both directions. -/
def Link (next prev : Node → Option Node) (left right : Node) : Prop :=
  next left = some right ∧ prev right = some left

/-- The links lead from `start` through `nodes` to `stop`. -/
def LinkPath (next prev : Node → Option Node) : Node → List Node → Node → Prop
  | start, [], stop => Link next prev start stop
  | start, node :: nodes, stop => Link next prev start node ∧ LinkPath next prev node nodes stop

/-- The links lead through `nodes` and back to the first one. -/
def LinkRing (next prev : Node → Option Node) : List Node → Prop
  | [] => True
  | node :: nodes => LinkPath next prev node nodes node

variable {next prev next' prev' : Node → Option Node} {start middle stop node : Node}
variable {nodes front rest : List Node}

theorem path_append :
    LinkPath next prev start (front ++ middle :: rest) stop ↔
      LinkPath next prev start front middle ∧ LinkPath next prev middle rest stop := by
  induction front generalizing start with
  | nil => rfl
  | cons first front ih => simp only [List.cons_append, LinkPath, ih, and_assoc]

/-- A path depends on the links out of all but its end, and into all but its start. -/
theorem LinkPath.congr (path : LinkPath next prev start nodes stop)
    (sameNext : ∀ node ∈ start :: nodes, next' node = next node)
    (samePrev : ∀ node ∈ nodes ++ [stop], prev' node = prev node) :
    LinkPath next' prev' start nodes stop := by
  induction nodes generalizing start with
  | nil =>
      exact ⟨(sameNext start (by simp)).trans path.1, (samePrev stop (by simp)).trans path.2⟩
  | cons first rest ih =>
      obtain ⟨link, after⟩ := path
      refine ⟨⟨(sameNext start (by simp)).trans link.1,
        (samePrev first (by simp)).trans link.2⟩, ih after ?_ ?_⟩
      · exact fun node member => sameNext node (List.mem_cons_of_mem _ member)
      · exact fun node member => samePrev node (List.mem_cons_of_mem _ member)

theorem LinkRing.congr (ring : LinkRing next prev nodes)
    (sameNext : ∀ node ∈ nodes, next' node = next node)
    (samePrev : ∀ node ∈ nodes, prev' node = prev node) : LinkRing next' prev' nodes := by
  cases nodes with
  | nil => trivial
  | cons first rest =>
      refine LinkPath.congr ring sameNext fun node member => samePrev node ?_
      simpa [or_comm] using member

/-- A ring may be read from its second node. -/
theorem ring_rotate :
    LinkRing next prev (node :: nodes) ↔ LinkRing next prev (nodes ++ [node]) := by
  cases nodes with
  | nil => rfl
  | cons second rest =>
      change Link next prev node second ∧ LinkPath next prev second rest node ↔
        LinkPath next prev second (rest ++ [node]) second
      rw [path_append]
      exact and_comm

/-- A ring may be read from any of its nodes. -/
theorem ring_append_comm :
    LinkRing next prev (front ++ rest) ↔ LinkRing next prev (rest ++ front) := by
  induction front generalizing rest with
  | nil => simp
  | cons first front ih =>
      rw [List.cons_append, ring_rotate, List.append_assoc, ih]
      simp

/-- The neighbours of the first node of a ring. -/
theorem LinkRing.next_first (ring : LinkRing next prev (node :: nodes)) :
    next node = (nodes ++ [node]).head? := by
  cases nodes with
  | nil => exact ring.1
  | cons second rest => exact ring.1.1

theorem LinkRing.prev_first (ring : LinkRing next prev (node :: nodes)) :
    prev node = (node :: nodes).getLast? := by
  rcases List.eq_nil_or_concat nodes with rfl | ⟨middle, last, rfl⟩
  · exact ring.2
  · rw [List.concat_eq_append] at ring ⊢
    have closing := (path_append.mp ring).2
    rw [← List.cons_append, List.getLast?_concat]
    exact closing.2

section Edit

variable {first last : Node}

/-- A path along the whole ring survives edits of the links that close the ring. -/
theorem LinkPath.keep (path : LinkPath next prev first nodes last)
    (distinct : (first :: nodes ++ [last]).Nodup)
    (sameNext : ∀ other ∈ first :: nodes ++ [last], other ≠ last → next' other = next other)
    (samePrev : ∀ other ∈ first :: nodes ++ [last], other ≠ first → prev' other = prev other) :
    LinkPath next' prev' first nodes last := by
  refine path.congr ?_ ?_
  · intro other member
    refine sameNext other (List.mem_append_left _ member) ?_
    rintro rfl
    exact (List.nodup_append.mp distinct).2.2 _ member _ (by simp) rfl
  · intro other member
    refine samePrev other (List.mem_cons_of_mem _ member) ?_
    rintro rfl
    exact (List.nodup_cons.mp distinct).1 member

/-- Linking a new node in between the last and the first node of a ring. -/
theorem LinkRing.insert (ring : LinkRing next prev (first :: nodes))
    (distinct : (first :: nodes).Nodup)
    (isLast : (first :: nodes).getLast? = some last)
    (nextLast : next' last = some node) (prevNode : prev' node = some last)
    (nextNode : next' node = some first) (prevFirst : prev' first = some node)
    (sameNext : ∀ other ∈ first :: nodes, other ≠ last → next' other = next other)
    (samePrev : ∀ other ∈ first :: nodes, other ≠ first → prev' other = prev other) :
    LinkRing next' prev' (first :: nodes ++ [node]) := by
  have closing : Link next' prev' node first := ⟨nextNode, prevFirst⟩
  rcases List.eq_nil_or_concat nodes with rfl | ⟨before, final, rfl⟩
  · obtain rfl : first = last := Option.some.inj isLast
    exact ⟨⟨nextLast, prevNode⟩, closing⟩
  · rw [List.concat_eq_append, ← List.cons_append] at ring isLast distinct sameNext samePrev
    obtain rfl : final = last := by
      rw [List.getLast?_concat] at isLast
      exact Option.some.inj isLast
    have whole := (path_append.mp ring).1.keep distinct sameNext samePrev
    rw [List.concat_eq_append, ← List.cons_append, List.append_assoc]
    exact path_append.mpr ⟨whole, ⟨nextLast, prevNode⟩, closing⟩

/-- Unlinking a node of a ring by joining its two neighbours. -/
theorem LinkRing.remove (ring : LinkRing next prev (node :: first :: nodes))
    (distinct : (first :: nodes).Nodup) (isLast : (first :: nodes).getLast? = some last)
    (nextLast : next' last = some first) (prevFirst : prev' first = some last)
    (sameNext : ∀ other ∈ first :: nodes, other ≠ last → next' other = next other)
    (samePrev : ∀ other ∈ first :: nodes, other ≠ first → prev' other = prev other) :
    LinkRing next' prev' (first :: nodes) := by
  have closing : Link next' prev' last first := ⟨nextLast, prevFirst⟩
  obtain ⟨-, path⟩ := ring
  rcases List.eq_nil_or_concat nodes with rfl | ⟨before, final, rfl⟩
  · obtain rfl : first = last := Option.some.inj isLast
    exact closing
  · rw [List.concat_eq_append, ← List.cons_append] at isLast distinct sameNext samePrev
    rw [List.concat_eq_append] at path
    obtain rfl : final = last := by
      rw [List.getLast?_concat] at isLast
      exact Option.some.inj isLast
    have whole := (path_append.mp path).1.keep distinct sameNext samePrev
    rw [List.concat_eq_append]
    exact path_append.mpr ⟨whole, closing⟩

end Edit

/-! ## Null-terminated lists -/

/-- The next links lead from `head` through `nodes` to `null`. -/
def NextList (next : Node → Option Node) : Option Node → List Node → Prop
  | head, [] => head = none
  | head, node :: nodes => head = some node ∧ NextList next (next node) nodes

theorem NextList.congr {head : Option Node} (list : NextList next head nodes)
    (same : ∀ node ∈ nodes, next' node = next node) : NextList next' head nodes := by
  induction nodes generalizing head with
  | nil => exact list
  | cons first rest ih =>
      refine ⟨list.1, ?_⟩
      rw [same first (by simp)]
      exact ih list.2 fun node member => same node (List.mem_cons_of_mem _ member)

/-- The next links lead from `head` through `nodes` to `stop`. -/
def NextSegment (next : Node → Option Node) : Option Node → List Node → Option Node → Prop
  | head, [], stop => head = stop
  | head, node :: nodes, stop => head = some node ∧ NextSegment next (next node) nodes stop

namespace NextSegment

variable {head stop value : Option Node} {last : Node}

theorem congr (segment : NextSegment next head nodes stop)
    (same : ∀ node ∈ nodes, next' node = next node) : NextSegment next' head nodes stop := by
  induction nodes generalizing head with
  | nil => exact segment
  | cons first rest ih =>
      refine ⟨segment.1, ?_⟩
      rw [same first (by simp)]
      exact ih segment.2 fun node member => same node (List.mem_cons_of_mem _ member)

theorem append (segment : NextSegment next head front stop)
    (segment' : NextSegment next stop rest value) : NextSegment next head (front ++ rest) value := by
  induction front generalizing head with
  | nil =>
      obtain rfl := segment
      exact segment'
  | cons first front ih => exact ⟨segment.1, ih segment.2⟩

theorem head_eq (segment : NextSegment next head nodes none) : head = nodes.head? := by
  cases nodes with
  | nil => exact segment
  | cons first rest => exact segment.1

/-- The last node leads to where the segment stops. -/
theorem stop_eq (segment : NextSegment next head nodes stop) (isLast : nodes.getLast? = some last) :
    next last = stop := by
  induction nodes generalizing head with
  | nil => simp at isLast
  | cons first rest ih =>
      cases rest with
      | nil =>
          obtain rfl : first = last := by simpa using isLast
          exact segment.2
      | cons second rest =>
          rw [List.getLast?_cons_cons] at isLast
          exact ih segment.2 isLast

variable [DecidableEq Node]

/-- The last node of a segment is linked elsewhere. -/
theorem set_last (segment : NextSegment next head nodes stop) (distinct : nodes.Nodup)
    (isLast : nodes.getLast? = some last) (value : Option Node) :
    NextSegment (Function.update next last value) head nodes value := by
  induction nodes generalizing head with
  | nil => simp at isLast
  | cons first rest ih =>
      cases rest with
      | nil =>
          obtain rfl : first = last := by simpa using isLast
          exact ⟨segment.1, Function.update_self _ _ _⟩
      | cons second rest =>
          rw [List.getLast?_cons_cons] at isLast
          obtain ⟨absent, distinct⟩ := List.nodup_cons.mp distinct
          have notLast : first ≠ last := by
            rintro rfl
            exact absent (List.mem_of_getLast? isLast)
          refine ⟨segment.1, ?_⟩
          rw [Function.update_of_ne notLast]
          exact ih segment.2 distinct isLast

end NextSegment

end Pegasos.Support
