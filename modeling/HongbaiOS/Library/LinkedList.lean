import Mathlib.Data.List.Induction
import Mathlib.Data.List.Iterate
import Mathlib.Logic.Function.Basic
import Mathlib.Tactic.Common

/-!
# Doubly linked lists in memory

A node is a pair of words: its predecessor at the address of the node and its successor
four bytes further.  `Linked` says that a memory links nodes in the order of a list, first
and last node included; inserting before the last node and taking out an inner node do to
the list what their names say.
-/

namespace HongbaiOS.Library

/-- A memory of words, by address. -/
abbrev Words := Nat → Nat

/-- Two nodes do not share a byte. -/
def NodesApart (first second : Nat) : Prop := first + 8 ≤ second ∨ second + 8 ≤ first

theorem NodesApart.ne {node other : Nat} (apart : NodesApart node other) :
    node ≠ other := by
  unfold NodesApart at apart
  omega

theorem NodesApart.symm {node other : Nat} (apart : NodesApart node other) :
    NodesApart other node :=
  Or.symm apart

namespace Words

def prev (word : Words) (node : Nat) : Nat := word node

def next (word : Words) (node : Nat) : Nat := word (node + 4)

def setPrev (word : Words) (node value : Nat) : Words := Function.update word node value

def setNext (word : Words) (node value : Nat) : Words := Function.update word (node + 4) value

/-- Four stores that put `elem` in front of `before`. -/
def insertBefore (word : Words) (before elem : Nat) : Words :=
  let word := word.setPrev elem (word.prev before)
  let word := word.setNext elem before
  let word := word.setNext (word.prev before) elem
  word.setPrev before elem

/-- Two stores that take `elem` out. -/
def removeNode (word : Words) (elem : Nat) : Words :=
  let word := word.setNext (word.prev elem) (word.next elem)
  word.setPrev (word.next elem) (word.prev elem)

/-- Each node and the one behind it refer to each other. -/
def Linked (word : Words) : List Nat → Prop
  | first :: second :: rest =>
      word.next first = second ∧ word.prev second = first ∧ word.Linked (second :: rest)
  | _ => True

variable {word word' : Words} {nodes : List Nat} {node other value : Nat}

theorem prev_setPrev_of_ne (different : node ≠ other) :
    (word.setPrev other value).prev node = word.prev node :=
  Function.update_of_ne different _ _

theorem prev_setPrev (word : Words) (node value : Nat) :
    (word.setPrev node value).prev node = value :=
  Function.update_self _ _ _

theorem next_setNext (word : Words) (node value : Nat) :
    (word.setNext node value).next node = value :=
  Function.update_self _ _ _

theorem next_setNext_of_ne (different : node ≠ other) :
    (word.setNext other value).next node = word.next node :=
  Function.update_of_ne (by omega) _ _

theorem prev_setNext (apart : NodesApart node other ∨ node = other) :
    (word.setNext other value).prev node = word.prev node := by
  refine Function.update_of_ne ?_ _ _
  rcases apart with apart | same
  · unfold NodesApart at apart
    omega
  · omega

theorem next_setPrev (apart : NodesApart node other ∨ node = other) :
    (word.setPrev other value).next node = word.next node := by
  refine Function.update_of_ne ?_ _ _
  rcases apart with apart | same
  · unfold NodesApart at apart
    omega
  · omega

theorem Linked.congr (linked : word.Linked nodes)
    (same : ∀ node ∈ nodes, word'.prev node = word.prev node ∧ word'.next node = word.next node) :
    word'.Linked nodes := by
  induction nodes with
  | nil => trivial
  | cons first rest inductionHypothesis =>
    cases rest with
    | nil => trivial
    | cons second rest =>
      obtain ⟨forth, back, linked⟩ := linked
      refine ⟨?_, ?_, inductionHypothesis linked fun node isNode =>
        same node (List.mem_cons_of_mem _ isNode)⟩
      · rw [(same first List.mem_cons_self).2, forth]
      · rw [(same second (List.mem_cons_of_mem _ List.mem_cons_self)).1, back]

theorem linked_append {front back : List Nat} :
    word.Linked (front ++ node :: back) ↔
      word.Linked (front ++ [node]) ∧ word.Linked (node :: back) := by
  induction front with
  | nil => exact (and_iff_right trivial).symm
  | cons first front inductionHypothesis =>
    cases front with
    | nil =>
      simp only [List.cons_append, List.nil_append, Linked, and_true, and_assoc]
    | cons second front =>
      simp only [List.cons_append, Linked, and_assoc] at inductionHypothesis ⊢
      rw [inductionHypothesis]

/-- The last node is entered only through its predecessor. -/
theorem Linked.congr_front {front : List Nat} (linked : word.Linked (front ++ [node]))
    (same : ∀ other ∈ front, word'.prev other = word.prev other ∧
      word'.next other = word.next other)
    (samePrev : word'.prev node = word.prev node) : word'.Linked (front ++ [node]) := by
  induction front with
  | nil => trivial
  | cons first front inductionHypothesis =>
    obtain ⟨sameFirst, same⟩ := List.forall_mem_cons.mp same
    cases front with
    | nil =>
      obtain ⟨forth, back, -⟩ := linked
      exact ⟨sameFirst.2.trans forth, samePrev.trans back, trivial⟩
    | cons second front =>
      obtain ⟨forth, back, linked⟩ := linked
      have sameSecond := same second List.mem_cons_self
      exact ⟨sameFirst.2.trans forth, sameSecond.1.trans back, inductionHypothesis linked same⟩

/-- The first node is left only through its successor. -/
theorem Linked.congr_back {back : List Nat} (linked : word.Linked (node :: back))
    (same : ∀ other ∈ back, word'.prev other = word.prev other ∧
      word'.next other = word.next other)
    (sameNext : word'.next node = word.next node) : word'.Linked (node :: back) := by
  cases back with
  | nil => trivial
  | cons second back =>
    obtain ⟨forth, isPrev, linked⟩ := linked
    have sameSecond := same second List.mem_cons_self
    exact ⟨sameNext.trans forth, sameSecond.1.trans isPrev, linked.congr same⟩

theorem Linked.prev_last {before : List Nat} {beforeLast last : Nat}
    (linked : word.Linked (before ++ [beforeLast, last])) : word.prev last = beforeLast :=
  (linked_append.mp linked).2.2.1

theorem Linked.iterate_next {first : Nat} {rest : List Nat}
    (linked : word.Linked (first :: rest)) :
    List.iterate word.next first (rest.length + 1) = first :: rest := by
  induction rest generalizing first with
  | nil => rfl
  | cons second rest inductionHypothesis =>
    obtain ⟨forth, -, linked⟩ := linked
    rw [List.length_cons, List.iterate, forth, inductionHypothesis linked]

theorem Linked.iterate_prev {front : List Nat} {last : Nat}
    (linked : word.Linked (front ++ [last])) :
    List.iterate word.prev last (front.length + 1) = last :: front.reverse := by
  induction front using List.reverseRecOn generalizing last with
  | nil => rfl
  | append_singleton front beforeLast inductionHypothesis =>
    rw [List.append_assoc] at linked
    have frontLinked : word.Linked (front ++ [beforeLast]) := (linked_append.mp linked).1
    rw [List.length_append, List.length_singleton, List.iterate, linked.prev_last,
      inductionHypothesis frontLinked, List.reverse_append]
    rfl

section InsertBefore

variable {beforeLast last elem : Nat}

/-- The third store reads a predecessor that the first two have not changed. -/
theorem insertBefore_eq (isPrev : word.prev last = beforeLast)
    (second : NodesApart elem last) :
    word.insertBefore last elem = (((word.setPrev elem beforeLast).setNext elem last).setNext
      beforeLast elem).setPrev last elem := by
  have readBack : ((word.setPrev elem beforeLast).setNext elem last).prev last = beforeLast := by
    rw [prev_setNext (.inl second.symm), prev_setPrev_of_ne second.symm.ne, isPrev]
  simp only [insertBefore, isPrev, readBack]

/-- What the four stores leave in the nodes they are about, and in all others. -/
theorem insertBefore_spec (isPrev : word.prev last = beforeLast)
    (first : NodesApart beforeLast elem) (second : NodesApart elem last)
    (third : NodesApart beforeLast last) :
    (word.insertBefore last elem).prev elem = beforeLast ∧
      (word.insertBefore last elem).next elem = last ∧
      (word.insertBefore last elem).next beforeLast = elem ∧
      (word.insertBefore last elem).prev last = elem ∧
      (word.insertBefore last elem).prev beforeLast = word.prev beforeLast := by
  rw [insertBefore_eq isPrev second]
  refine ⟨?_, ?_, ?_, prev_setPrev _ _ _, ?_⟩
  · rw [prev_setPrev_of_ne second.ne, prev_setNext (.inl first.symm), prev_setNext (.inr rfl),
      prev_setPrev]
  · rw [next_setPrev (.inl second), next_setNext_of_ne first.symm.ne, next_setNext]
  · rw [next_setPrev (.inl third), next_setNext]
  · rw [prev_setPrev_of_ne third.ne, prev_setNext (.inr rfl), prev_setNext (.inl first),
      prev_setPrev_of_ne first.ne]

theorem insertBefore_other (isPrev : word.prev last = beforeLast)
    (second : NodesApart elem last) (apartElem : NodesApart node elem)
    (apartLast : NodesApart node last) (apartBefore : NodesApart node beforeLast) :
    (word.insertBefore last elem).prev node = word.prev node ∧
      (word.insertBefore last elem).next node = word.next node := by
  rw [insertBefore_eq isPrev second]
  constructor
  · rw [prev_setPrev_of_ne apartLast.ne, prev_setNext (.inl apartBefore),
      prev_setNext (.inl apartElem), prev_setPrev_of_ne apartElem.ne]
  · rw [next_setPrev (.inl apartLast), next_setNext_of_ne apartBefore.ne,
      next_setNext_of_ne apartElem.ne, next_setPrev (.inl apartElem)]

theorem insertBefore_next (isPrev : word.prev last = beforeLast)
    (second : NodesApart elem last) (third : NodesApart beforeLast last) :
    (word.insertBefore last elem).next last = word.next last := by
  rw [insertBefore_eq isPrev second]
  rw [next_setPrev (.inr rfl), next_setNext_of_ne third.symm.ne,
    next_setNext_of_ne second.symm.ne, next_setPrev (.inl second.symm)]

end InsertBefore

/-- A node goes in front of another one that has a predecessor. -/
theorem Linked.insertBefore {front back : List Nat} {previous before elem : Nat}
    (linked : word.Linked (front ++ previous :: before :: back))
    (apart : (front ++ previous :: elem :: before :: back).Pairwise NodesApart) :
    (word.insertBefore before elem).Linked (front ++ previous :: elem :: before :: back) := by
  obtain ⟨frontLinked, forth, isPrev, backLinked⟩ := linked_append.mp linked
  obtain ⟨-, ends, frontApart⟩ := List.pairwise_append.mp apart
  obtain ⟨previousApart, ends⟩ := List.pairwise_cons.mp ends
  obtain ⟨elemApart, ends⟩ := List.pairwise_cons.mp ends
  obtain ⟨beforeApart, -⟩ := List.pairwise_cons.mp ends
  have first := previousApart elem (by simp)
  have second := elemApart before (by simp)
  have third := previousApart before (by simp)
  obtain ⟨prevElem, nextElem, nextPrevious, prevBefore, prevPrevious⟩ :=
    insertBefore_spec isPrev first second third
  refine linked_append.mpr ⟨frontLinked.congr_front (fun node isNode => ?_) prevPrevious,
    nextPrevious, prevElem, nextElem, prevBefore, backLinked.congr_back (fun node isNode => ?_) ?_⟩
  · exact insertBefore_other isPrev second (frontApart node isNode elem (by simp))
      (frontApart node isNode before (by simp)) (frontApart node isNode previous (by simp))
  · exact insertBefore_other isPrev second (elemApart node (by simp [isNode])).symm
      (beforeApart node isNode).symm (previousApart node (by simp [isNode])).symm
  · exact insertBefore_next isPrev second third

section RemoveNode

variable {previous elem behind : Nat}

/-- What the two stores leave in the nodes they are about; the node taken out keeps what it
holds. -/
theorem removeNode_spec (isPrev : word.prev elem = previous) (isNext : word.next elem = behind)
    (first : NodesApart previous elem) (second : NodesApart elem behind)
    (third : NodesApart previous behind) :
    (word.removeNode elem).next previous = behind ∧
      (word.removeNode elem).prev behind = previous ∧
      (word.removeNode elem).prev elem = previous ∧ (word.removeNode elem).next elem = behind ∧
      (word.removeNode elem).prev previous = word.prev previous ∧
      (word.removeNode elem).next behind = word.next behind := by
  have readBack : (word.setNext previous behind).next elem = behind := by
    rw [next_setNext_of_ne first.symm.ne, isNext]
  have readBack' : (word.setNext previous behind).prev elem = previous := by
    rw [prev_setNext (.inl first.symm), isPrev]
  simp only [removeNode, isPrev, isNext, readBack, readBack']
  refine ⟨?_, prev_setPrev _ _ _, ?_, ?_, ?_, ?_⟩
  · rw [next_setPrev (.inl third), next_setNext]
  · rw [prev_setPrev_of_ne second.ne, readBack']
  · rw [next_setPrev (.inl second), readBack]
  · rw [prev_setPrev_of_ne third.ne, prev_setNext (.inr rfl)]
  · rw [next_setPrev (.inr rfl), next_setNext_of_ne third.symm.ne]

theorem removeNode_other (isPrev : word.prev elem = previous)
    (isNext : word.next elem = behind) (first : NodesApart previous elem)
    (apartPrevious : NodesApart node previous) (apartBehind : NodesApart node behind) :
    (word.removeNode elem).prev node = word.prev node ∧
      (word.removeNode elem).next node = word.next node := by
  have readBack : (word.setNext previous behind).next elem = behind := by
    rw [next_setNext_of_ne first.symm.ne, isNext]
  simp only [removeNode, isPrev, isNext, readBack]
  constructor
  · rw [prev_setPrev_of_ne apartBehind.ne, prev_setNext (.inl apartPrevious)]
  · rw [next_setPrev (.inl apartBehind), next_setNext_of_ne apartPrevious.ne]

/-- The node that is taken out still refers to its neighbours. -/
theorem Linked.removed (front : List Nat) {back : List Nat}
    (linked : word.Linked (front ++ previous :: elem :: behind :: back))
    (apart : (front ++ previous :: elem :: behind :: back).Pairwise NodesApart) :
    (word.removeNode elem).prev elem = previous ∧ (word.removeNode elem).next elem = behind := by
  obtain ⟨-, -, isPrev, isNext, -⟩ := linked_append.mp linked
  obtain ⟨-, ends, -⟩ := List.pairwise_append.mp apart
  obtain ⟨previousApart, ends⟩ := List.pairwise_cons.mp ends
  obtain ⟨elemApart, -⟩ := List.pairwise_cons.mp ends
  obtain ⟨-, -, keptPrev, keptNext, -⟩ := removeNode_spec isPrev isNext
    (previousApart elem (by simp)) (elemApart behind (by simp)) (previousApart behind (by simp))
  exact ⟨keptPrev, keptNext⟩

end RemoveNode

theorem Linked.removeNode {front back : List Nat} {previous elem behind : Nat}
    (linked : word.Linked (front ++ previous :: elem :: behind :: back))
    (apart : (front ++ previous :: elem :: behind :: back).Pairwise NodesApart) :
    (word.removeNode elem).Linked (front ++ previous :: behind :: back) := by
  obtain ⟨frontLinked, -, isPrev, isNext, -, backLinked⟩ := linked_append.mp linked
  obtain ⟨-, ends, frontApart⟩ := List.pairwise_append.mp apart
  obtain ⟨previousApart, ends⟩ := List.pairwise_cons.mp ends
  obtain ⟨elemApart, ends⟩ := List.pairwise_cons.mp ends
  obtain ⟨behindApart, -⟩ := List.pairwise_cons.mp ends
  have first := previousApart elem (by simp)
  obtain ⟨nextPrevious, prevBehind, -, -, prevPrevious, nextBehind⟩ := removeNode_spec isPrev
    isNext first (elemApart behind (by simp)) (previousApart behind (by simp))
  refine linked_append.mpr ⟨frontLinked.congr_front (fun node isNode => ?_) prevPrevious,
    nextPrevious, prevBehind, backLinked.congr_back (fun node isNode => ?_) nextBehind⟩
  · exact removeNode_other isPrev isNext first (frontApart node isNode previous (by simp))
      (frontApart node isNode behind (by simp))
  · exact removeNode_other isPrev isNext first (previousApart node (by simp [isNode])).symm
      (behindApart node isNode).symm

end Words

end HongbaiOS.Library
