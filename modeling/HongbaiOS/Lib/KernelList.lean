import HongbaiOS.Kernel.Debug
import HongbaiOS.Library.LinkedList
import Mathlib.Data.Finset.Card
import Mathlib.Data.Finset.Range

/-!
# The lists of the kernel

The functions of `list.c` on the words of a memory.  A list is two nodes, its head and its
tail; what is in it lies between them.  `Objects.Run` says what a sequence of calls makes of
finite sequences of nodes, and `lists_refine` that the memory follows: each list is linked
in the order of its sequence, and the functions that walk over it return what the sequence
says.
-/

namespace HongbaiOS.Lib.KernelList

open HongbaiOS.Library HongbaiOS.Kernel

/-- What the functions change: the words of the nodes and the interrupt flag. -/
structure ListMemory where
  word : Words
  intrOn : Bool

/-- `&plist->head` -/
def head (plist : Nat) : Nat := plist

/-- `&plist->tail` -/
def tail (plist : Nat) : Nat := plist + 8

/-- `intr_disable()` -/
def intrDisable (s : ListMemory) : Bool × ListMemory := (s.intrOn, { s with intrOn := false })

/-- `intr_set_status(status)` -/
def intrSetStatus (status : Bool) (s : ListMemory) : ListMemory := { s with intrOn := status }

/-- `list_init(plist)` -/
def listInit (plist : Nat) (s : ListMemory) : ListMemory :=
  let word := s.word.setPrev (head plist) 0
  let word := word.setNext (head plist) (tail plist)
  let word := word.setPrev (tail plist) (head plist)
  { s with word := word.setNext (tail plist) 0 }

/-- `list_insert_before(before, elem)` -/
def listInsertBefore (before elem : Nat) (s : ListMemory) : ListMemory :=
  let (oldStatus, s) := intrDisable s
  intrSetStatus oldStatus { s with word := s.word.insertBefore before elem }

/-- `list_push(plist, elem)` -/
def listPush (plist elem : Nat) (s : ListMemory) : ListMemory :=
  listInsertBefore (s.word.next (head plist)) elem s

/-- `list_append(plist, elem)` -/
def listAppend (plist elem : Nat) (s : ListMemory) : ListMemory :=
  listInsertBefore (tail plist) elem s

/-- `list_remove(pelem)` -/
def listRemove (pelem : Nat) (s : ListMemory) : ListMemory :=
  let (oldStatus, s) := intrDisable s
  intrSetStatus oldStatus { s with word := s.word.removeNode pelem }

/-- `list_pop(plist)` -/
def listPop (plist : Nat) (s : ListMemory) : Except Halt (Nat × ListMemory) := do
  check .listPop (s.word.next (head plist) ≠ tail plist)
  let elem := s.word.next (head plist)
  return (elem, listRemove elem s)

/-- `list_empty(plist)` -/
def listEmpty (word : Words) (plist : Nat) : Bool := word.next (head plist) = tail plist

section Loops

variable (word : Words) (last : Nat)

/-- The loop of `elem_find`; `none` is a loop that is still running after `fuel` rounds. -/
def findFrom (objElem : Nat) : (fuel elem : Nat) → Option Bool
  | 0, _ => none
  | fuel + 1, elem =>
      if elem = last then some false
      else if elem = objElem then some true
      else findFrom objElem fuel (word.next elem)

/-- The loop of `list_traversal`.  The callback `func` may change what `σ` holds. -/
def traverseFrom {σ : Type} (func : Nat → Int → StateM σ Bool) (arg : Int) :
    (fuel elem : Nat) → σ → Option (Option Nat × σ)
  | 0, _, _ => none
  | fuel + 1, elem, t =>
      if elem = last then some (none, t)
      else
        match func elem arg t with
        | (true, t) => some (some elem, t)
        | (false, t) => traverseFrom func arg fuel (word.next elem) t

/-- The loop of `list_len`. -/
def lenFrom : (fuel elem : Nat) → UInt32 → Option UInt32
  | 0, _, _ => none
  | fuel + 1, elem, len =>
      if elem = last then some len else lenFrom fuel (word.next elem) (len + 1)

end Loops

/-- `elem_find(plist, obj_elem)` -/
def elemFind (word : Words) (fuel plist objElem : Nat) : Option Bool :=
  findFrom word (tail plist) objElem fuel (word.next (head plist))

/-- `list_traversal(plist, func, arg)` -/
def listTraversal {σ : Type} (word : Words) (fuel plist : Nat) (func : Nat → Int → StateM σ Bool)
    (arg : Int) (t : σ) : Option (Option Nat × σ) :=
  let elem := word.next (head plist)
  if listEmpty word plist then some (none, t)
  else traverseFrom word (tail plist) func arg fuel elem t

/-- `list_len(plist)` -/
def listLen (word : Words) (fuel plist : Nat) : Option UInt32 :=
  lenFrom word (tail plist) fuel (word.next (head plist)) 0

/-- The calls that change lists. -/
inductive ListOp where
  | init (plist : Nat)
  | push (plist elem : Nat)
  | append (plist elem : Nat)
  | insertBefore (before elem : Nat)
  | remove (pelem : Nat)
  | pop (plist : Nat)

def listStep (s : ListMemory) : ListOp → Except Halt ListMemory
  | .init plist => .ok (listInit plist s)
  | .push plist elem => .ok (listPush plist elem s)
  | .append plist elem => .ok (listAppend plist elem s)
  | .insertBefore before elem => .ok (listInsertBefore before elem s)
  | .remove pelem => .ok (listRemove pelem s)
  | .pop plist => do
      let (_, s) ← listPop plist s
      return s

/-- The lists and nodes of a program, no two of which share a byte. -/
structure Objects where
  isList : Nat → Prop
  isElem : Nat → Prop
  lists : ∀ plist other, isList plist → isList other → plist ≠ other →
    plist + 16 ≤ other ∨ other + 16 ≤ plist
  elems : ∀ elem other, isElem elem → isElem other → elem ≠ other → NodesApart elem other
  apart : ∀ plist elem, isList plist → isElem elem → plist + 16 ≤ elem ∨ elem + 8 ≤ plist
  inSpace : ∀ elem, isElem elem → elem + 8 ≤ 2 ^ 32

/-- The sequences that the lists stand for; `none` is a list before its `list_init`. -/
abbrev Lists := Nat → Option (List Nat)

/-- No list contains the node. -/
def Lists.Free (lists : Lists) (elem : Nat) : Prop :=
  ∀ plist seq, lists plist = some seq → elem ∉ seq

/-- A call turns the sequence of the list `plist` into `seq`.  A node goes in only if it is
in no list, and comes out only if it is in one. -/
inductive Objects.Effect (objects : Objects) (lists : Lists) : ListOp → Nat → List Nat → Prop
  | init {plist : Nat} (isList : objects.isList plist) :
      objects.Effect lists (.init plist) plist []
  | push {plist elem : Nat} {seq : List Nat} (isSeq : lists plist = some seq)
      (isElem : objects.isElem elem) (free : lists.Free elem) :
      objects.Effect lists (.push plist elem) plist (elem :: seq)
  | append {plist elem : Nat} {seq : List Nat} (isSeq : lists plist = some seq)
      (isElem : objects.isElem elem) (free : lists.Free elem) :
      objects.Effect lists (.append plist elem) plist (seq ++ [elem])
  | insertBefore {plist before elem : Nat} {front back : List Nat}
      (isSeq : lists plist = some (front ++ before :: back))
      (isElem : objects.isElem elem) (free : lists.Free elem) :
      objects.Effect lists (.insertBefore before elem) plist (front ++ elem :: before :: back)
  | insertBeforeTail {plist elem : Nat} {seq : List Nat} (isSeq : lists plist = some seq)
      (isElem : objects.isElem elem) (free : lists.Free elem) :
      objects.Effect lists (.insertBefore (tail plist) elem) plist (seq ++ [elem])
  | remove {plist elem : Nat} {front back : List Nat}
      (isSeq : lists plist = some (front ++ elem :: back)) :
      objects.Effect lists (.remove elem) plist (front ++ back)
  | pop {plist elem : Nat} {rest : List Nat} (isSeq : lists plist = some (elem :: rest)) :
      objects.Effect lists (.pop plist) plist rest

/-- What a sequence of calls makes of the lists. -/
inductive Objects.Run (objects : Objects) : Lists → List ListOp → Lists → Prop
  | nil (lists : Lists) : objects.Run lists [] lists
  | cons {lists lists' : Lists} {op : ListOp} {rest : List ListOp} {plist : Nat} {seq : List Nat}
      (first : objects.Effect lists op plist seq)
      (others : objects.Run (Function.update lists plist (some seq)) rest lists') :
      objects.Run lists (op :: rest) lists'

/-- The first node, the sequence and the last node. -/
def nodesOf (plist : Nat) (seq : List Nat) : List Nat := head plist :: (seq ++ [tail plist])

section Nodes

variable {objects : Objects} {lists : Lists} {plist other elem : Nat} {seq seq' : List Nat}

theorem Objects.ends_apart (objects : Objects) (isList : objects.isList plist)
    (isElem : objects.isElem elem) :
    NodesApart (head plist) elem ∧ NodesApart elem (tail plist) := by
  have apart := objects.apart plist elem isList isElem
  simp only [NodesApart, head, tail]
  omega

theorem Objects.nodes_apart (isList : objects.isList plist)
    (isElem : ∀ elem ∈ seq, objects.isElem elem) (nodup : seq.Nodup) :
    (nodesOf plist seq).Pairwise NodesApart := by
  refine List.pairwise_cons.mpr ⟨fun node isNode => ?_, List.pairwise_append.mpr
    ⟨?_, List.pairwise_singleton _ _, fun node isNode last isLast => ?_⟩⟩
  · rcases List.mem_append.mp isNode with inSeq | isTail
    · exact (objects.ends_apart isList (isElem node inSeq)).1
    · rw [List.mem_singleton.mp isTail]
      exact .inl (Nat.le_refl _)
  · exact List.Pairwise.imp_of_mem (fun isFirst isSecond different =>
      objects.elems _ _ (isElem _ isFirst) (isElem _ isSecond) different) nodup
  · rw [List.mem_singleton.mp isLast]
    exact (objects.ends_apart isList (isElem node isNode)).2

theorem Objects.nodes_apart_nodes (isList : objects.isList plist) (isOther : objects.isList other)
    (different : other ≠ plist) (isElem : ∀ elem ∈ seq, objects.isElem elem)
    (isElem' : ∀ elem ∈ seq', objects.isElem elem) (disjoint : seq'.Disjoint seq)
    {node node' : Nat} (isNode : node ∈ nodesOf other seq') (isNode' : node' ∈ nodesOf plist seq) :
    NodesApart node node' := by
  have ends := objects.lists other plist isOther isList different
  simp only [nodesOf, List.mem_cons, List.mem_append, List.not_mem_nil, or_false] at isNode isNode'
  rcases isNode with rfl | inSeq | rfl <;> rcases isNode' with rfl | inSeq' | rfl
  · simp only [NodesApart]; omega
  · exact (objects.ends_apart isOther (isElem node' inSeq')).1
  · simp only [NodesApart, tail]; omega
  · exact (objects.ends_apart isList (isElem' node inSeq)).1.symm
  · exact objects.elems _ _ (isElem' node inSeq) (isElem node' inSeq') fun same =>
      disjoint inSeq (same ▸ inSeq')
  · exact (objects.ends_apart isList (isElem' node inSeq)).2
  · simp only [NodesApart, tail]; omega
  · exact (objects.ends_apart isOther (isElem node' inSeq')).2.symm
  · simp only [NodesApart, tail]; omega

/-- There is not room for `2 ^ 32` nodes. -/
theorem Objects.length_lt (isElem : ∀ elem ∈ seq, objects.isElem elem) (nodup : seq.Nodup) :
    seq.length < 2 ^ 32 := by
  have inRange : seq.toFinset ⊆ Finset.range (2 ^ 32 - 1) := fun elem member =>
    Finset.mem_range.mpr (by
      have inSpace := objects.inSpace elem (isElem elem (List.mem_toFinset.mp member))
      omega)
  have bound := Finset.card_le_card inRange
  rw [List.toFinset_card_of_nodup nodup, Finset.card_range] at bound
  omega

end Nodes

/-- Each list is linked in the order of its sequence, and no node is in two lists. -/
structure Objects.Refines (objects : Objects) (word : Words) (lists : Lists) : Prop where
  isList : ∀ plist seq, lists plist = some seq → objects.isList plist
  isElem : ∀ plist seq, lists plist = some seq → ∀ elem ∈ seq, objects.isElem elem
  nodup : ∀ plist seq, lists plist = some seq → seq.Nodup
  disjoint : ∀ plist other seq seq', lists plist = some seq → lists other = some seq' →
    other ≠ plist → seq'.Disjoint seq
  linked : ∀ plist seq, lists plist = some seq → word.Linked (nodesOf plist seq)

/-- A list has the same nodes, and they hold the same words. -/
def Unchanged (word word' : Words) (plist : Nat) (seq : List Nat) : Prop :=
  ∀ node ∈ nodesOf plist seq, word'.prev node = word.prev node ∧ word'.next node = word.next node

namespace Objects.Refines

variable {objects : Objects} {lists : Lists} {word word' : Words} {plist before elem : Nat}
  {seq seq' touched front back : List Nat}

theorem update (refines : objects.Refines word lists) (isList : objects.isList plist)
    (isElem : ∀ elem ∈ touched, objects.isElem elem) (sublist : seq'.Sublist touched)
    (nodup : touched.Nodup)
    (disjoint : ∀ other seq, lists other = some seq → other ≠ plist → seq.Disjoint touched)
    (linked : word'.Linked (nodesOf plist seq'))
    (same : ∀ node, (∀ node' ∈ nodesOf plist touched, NodesApart node node') →
      word'.prev node = word.prev node ∧ word'.next node = word.next node) :
    objects.Refines word' (Function.update lists plist (some seq')) ∧
      ∀ other seq, lists other = some seq → other ≠ plist → Unchanged word word' other seq := by
  have others : ∀ other seq, lists other = some seq → other ≠ plist →
      Unchanged word word' other seq := fun other seq isSeq different node isNode =>
    same node fun node' isNode' => objects.nodes_apart_nodes isList
      (refines.isList other seq isSeq) different isElem (refines.isElem other seq isSeq)
      (disjoint other seq isSeq different) isNode isNode'
  have cases' : ∀ other seq, Function.update lists plist (some seq') other = some seq →
      other = plist ∧ seq = seq' ∨ other ≠ plist ∧ lists other = some seq := by
    intro other seq isSeq
    by_cases same : other = plist
    · subst same
      rw [Function.update_self, Option.some.injEq] at isSeq
      exact .inl ⟨rfl, isSeq.symm⟩
    · rw [Function.update_of_ne same] at isSeq
      exact .inr ⟨same, isSeq⟩
  refine ⟨⟨?_, ?_, ?_, ?_, ?_⟩, others⟩
  · intro other seq isSeq
    rcases cases' other seq isSeq with ⟨rfl, rfl⟩ | ⟨-, isSeq⟩
    · exact isList
    · exact refines.isList other seq isSeq
  · intro other seq isSeq
    rcases cases' other seq isSeq with ⟨rfl, rfl⟩ | ⟨-, isSeq⟩
    · exact fun elem member => isElem elem (sublist.subset member)
    · exact refines.isElem other seq isSeq
  · intro other seq isSeq
    rcases cases' other seq isSeq with ⟨rfl, rfl⟩ | ⟨-, isSeq⟩
    · exact nodup.sublist sublist
    · exact refines.nodup other seq isSeq
  · intro first second seq seq'' isSeq isSeq' different
    rcases cases' first seq isSeq with ⟨rfl, rfl⟩ | ⟨notFirst, isFirst⟩ <;>
      rcases cases' second seq'' isSeq' with ⟨rfl, rfl⟩ | ⟨notSecond, isSecond⟩
    · exact absurd rfl different
    · exact fun elem member member' =>
        disjoint second seq'' isSecond notSecond member (sublist.subset member')
    · exact fun elem member member' =>
        disjoint first seq isFirst notFirst member' (sublist.subset member)
    · exact refines.disjoint first second seq seq'' isFirst isSecond different
  · intro other seq isSeq
    rcases cases' other seq isSeq with ⟨rfl, rfl⟩ | ⟨different, isSeq⟩
    · exact linked
    · exact (refines.linked other seq isSeq).congr (others other seq isSeq different)

theorem init {s : ListMemory} (refines : objects.Refines s.word lists)
    (isList : objects.isList plist) :
    objects.Refines (listInit plist s).word (Function.update lists plist (some [])) ∧
      ∀ other seq, lists other = some seq → other ≠ plist →
        Unchanged s.word (listInit plist s).word other seq := by
  have ends : NodesApart (head plist) (tail plist) := .inl (Nat.le_refl _)
  refine refines.update isList (fun _ member => absurd member List.not_mem_nil) (List.Sublist.refl [])
    List.nodup_nil (fun other seq _ _ => List.disjoint_nil_right seq)
    ⟨?_, ?_, trivial⟩ fun node apart => ?_
  · simp only [listInit]
    rw [Words.next_setNext_of_ne ends.ne, Words.next_setPrev (.inl ends), Words.next_setNext]
  · simp only [listInit]
    rw [Words.prev_setNext (.inr rfl), Words.prev_setPrev]
  · have apartHead := apart (head plist) (by simp [nodesOf])
    have apartTail := apart (tail plist) (by simp [nodesOf])
    simp only [listInit]
    constructor
    · rw [Words.prev_setNext (.inl apartTail), Words.prev_setPrev_of_ne apartTail.ne,
        Words.prev_setNext (.inl apartHead), Words.prev_setPrev_of_ne apartHead.ne]
    · rw [Words.next_setNext_of_ne apartTail.ne, Words.next_setPrev (.inl apartTail),
        Words.next_setNext_of_ne apartHead.ne, Words.next_setPrev (.inl apartHead)]

/-- A node goes in at any place of the sequence. -/
theorem insert (front back : List Nat) (refines : objects.Refines word lists)
    (isSeq : lists plist = some (front ++ back)) (isElem : objects.isElem elem)
    (free : lists.Free elem) (isBefore : (back ++ [tail plist]).head? = some before) :
    objects.Refines (word.insertBefore before elem)
        (Function.update lists plist (some (front ++ elem :: back))) ∧
      ∀ other seq, lists other = some seq → other ≠ plist →
        Unchanged word (word.insertBefore before elem) other seq := by
  obtain ⟨front', previous, splitFront⟩ : ∃ front' previous,
      head plist :: front = front' ++ [previous] :=
    ⟨_, _, (List.dropLast_append_getLast (List.cons_ne_nil _ _)).symm⟩
  obtain ⟨back', splitBack⟩ : ∃ back', back ++ [tail plist] = before :: back' :=
    List.head?_eq_some_iff.mp isBefore
  have nodes : nodesOf plist (front ++ back) = front' ++ previous :: before :: back' := by
    rw [nodesOf, List.append_assoc, splitBack, ← List.cons_append, splitFront, List.append_assoc]
    rfl
  have nodes' : nodesOf plist (front ++ elem :: back) =
      front' ++ previous :: elem :: before :: back' := by
    rw [nodesOf, List.append_assoc, List.cons_append, splitBack, ← List.cons_append, splitFront,
      List.append_assoc]
    rfl
  have isList := refines.isList plist _ isSeq
  have isElem' : ∀ node ∈ front ++ elem :: back, objects.isElem node := by
    intro node member
    rcases List.mem_cons.mp (List.perm_middle.mem_iff.mp member) with rfl | member
    · exact isElem
    · exact refines.isElem plist _ isSeq node member
  have nodup : (front ++ elem :: back).Nodup :=
    List.nodup_middle.mpr (List.nodup_cons.mpr ⟨free plist _ isSeq, refines.nodup plist _ isSeq⟩)
  have apart := objects.nodes_apart isList isElem' nodup
  have linked := refines.linked plist _ isSeq
  rw [nodes'] at apart
  rw [nodes] at linked
  refine refines.update isList isElem' (List.Sublist.refl _) nodup ?_ ?_ ?_
  · intro other seq isOther different node member member'
    rcases List.mem_cons.mp (List.perm_middle.mem_iff.mp member') with rfl | member'
    · exact free other seq isOther member
    · exact refines.disjoint plist other _ seq isSeq isOther different member member'
  · rw [nodes']
    exact linked.insertBefore apart
  · intro node apartNodes
    rw [nodes'] at apartNodes
    obtain ⟨-, -, isPrev, -⟩ := Words.linked_append.mp linked
    obtain ⟨-, ends, -⟩ := List.pairwise_append.mp apart
    obtain ⟨-, ends⟩ := List.pairwise_cons.mp ends
    exact Words.insertBefore_other isPrev ((List.pairwise_cons.mp ends).1 before (by simp))
      (apartNodes elem (by simp)) (apartNodes before (by simp)) (apartNodes previous (by simp))

/-- A node comes out from any place of the sequence. -/
theorem remove (front back : List Nat) (refines : objects.Refines word lists)
    (isSeq : lists plist = some (front ++ elem :: back)) :
    objects.Refines (word.removeNode elem)
        (Function.update lists plist (some (front ++ back))) ∧
      ∀ other seq, lists other = some seq → other ≠ plist →
        Unchanged word (word.removeNode elem) other seq := by
  obtain ⟨front', previous, splitFront⟩ : ∃ front' previous,
      head plist :: front = front' ++ [previous] :=
    ⟨_, _, (List.dropLast_append_getLast (List.cons_ne_nil _ _)).symm⟩
  obtain ⟨behind, back', splitBack⟩ : ∃ behind back', back ++ [tail plist] = behind :: back' :=
    List.exists_cons_of_ne_nil (by simp)
  have nodes : nodesOf plist (front ++ elem :: back) =
      front' ++ previous :: elem :: behind :: back' := by
    rw [nodesOf, List.append_assoc, List.cons_append, splitBack, ← List.cons_append, splitFront,
      List.append_assoc]
    rfl
  have nodes' : nodesOf plist (front ++ back) = front' ++ previous :: behind :: back' := by
    rw [nodesOf, List.append_assoc, splitBack, ← List.cons_append, splitFront, List.append_assoc]
    rfl
  have isList := refines.isList plist _ isSeq
  have isElem := refines.isElem plist _ isSeq
  have nodup := refines.nodup plist _ isSeq
  have apart := objects.nodes_apart isList isElem nodup
  have linked := refines.linked plist _ isSeq
  rw [nodes] at apart linked
  refine refines.update isList isElem
    ((List.Sublist.refl front).append (List.sublist_cons_self elem back)) nodup
    (fun other seq isOther different => refines.disjoint plist other _ seq isSeq isOther different)
    ?_ ?_
  · rw [nodes']
    exact linked.removeNode apart
  · intro node apartNodes
    rw [nodes] at apartNodes
    obtain ⟨-, -, isPrev, isNext, -⟩ := Words.linked_append.mp linked
    obtain ⟨-, ends, -⟩ := List.pairwise_append.mp apart
    exact Words.removeNode_other isPrev isNext ((List.pairwise_cons.mp ends).1 elem (by simp))
      (apartNodes previous (by simp)) (apartNodes behind (by simp))

theorem next_head (refines : objects.Refines word lists) (isSeq : lists plist = some seq) :
    (seq ++ [tail plist]).head? = some (word.next (head plist)) := by
  have linked := refines.linked plist seq isSeq
  rw [nodesOf] at linked
  cases seq with
  | nil => exact congrArg some linked.1.symm
  | cons first rest => exact congrArg some linked.1.symm

theorem ne_tail (refines : objects.Refines word lists) (isSeq : lists plist = some seq)
    (member : elem ∈ seq) : elem ≠ tail plist :=
  (objects.ends_apart (refines.isList plist seq isSeq)
    (refines.isElem plist seq isSeq elem member)).2.ne

theorem listPop_eq {s : ListMemory} (refines : objects.Refines s.word lists)
    (isSeq : lists plist = some (elem :: back)) :
    listPop plist s = .ok (elem, listRemove elem s) := by
  have isFirst : elem = s.word.next (head plist) := Option.some.inj (refines.next_head isSeq)
  have notTail := refines.ne_tail isSeq List.mem_cons_self
  rw [listPop, ← isFirst, decide_eq_true notTail]
  rfl

theorem listPop_empty {s : ListMemory} (refines : objects.Refines s.word lists)
    (isSeq : lists plist = some []) : listPop plist s = .error (.panic .listPop) := by
  have isFirst : tail plist = s.word.next (head plist) := Option.some.inj (refines.next_head isSeq)
  rw [listPop, ← isFirst, decide_eq_false (not_not.mpr rfl)]
  rfl

theorem step {s : ListMemory} {op : ListOp} (refines : objects.Refines s.word lists)
    (effect : objects.Effect lists op plist seq) :
    ∃ s', listStep s op = .ok s' ∧ s'.intrOn = s.intrOn ∧
      objects.Refines s'.word (Function.update lists plist (some seq)) ∧
      ∀ other seq, lists other = some seq → other ≠ plist →
        Unchanged s.word s'.word other seq := by
  cases effect with
  | init isList => exact ⟨_, rfl, rfl, refines.init isList⟩
  | @push _ elem seq isSeq isElem free =>
    exact ⟨_, rfl, rfl, refines.insert [] seq isSeq isElem free (refines.next_head isSeq)⟩
  | @append _ elem seq isSeq isElem free =>
    rw [← List.append_nil seq] at isSeq
    exact ⟨_, rfl, rfl, refines.insert seq [] isSeq isElem free rfl⟩
  | @insertBefore _ before elem front back isSeq isElem free =>
    exact ⟨_, rfl, rfl, refines.insert front (before :: back) isSeq isElem free rfl⟩
  | @insertBeforeTail _ elem seq isSeq isElem free =>
    rw [← List.append_nil seq] at isSeq
    exact ⟨_, rfl, rfl, refines.insert seq [] isSeq isElem free rfl⟩
  | @remove _ elem front back isSeq =>
    exact ⟨_, rfl, rfl, refines.remove front back isSeq⟩
  | @pop _ elem rest isSeq =>
    refine ⟨listRemove elem s, ?_, rfl, refines.remove [] seq isSeq⟩
    rw [listStep, refines.listPop_eq isSeq]
    rfl

/-- The same for a sequence of calls. -/
theorem run {s : ListMemory} {ops : List ListOp} {lists lists' : Lists}
    (refines : objects.Refines s.word lists) (run : objects.Run lists ops lists') :
    ∃ s', ops.foldlM listStep s = .ok s' ∧ s'.intrOn = s.intrOn ∧
      objects.Refines s'.word lists' := by
  induction run generalizing s with
  | nil lists => exact ⟨s, rfl, rfl, refines⟩
  | cons first _ inductionHypothesis =>
    obtain ⟨s', stepped, sameIntr, refines', -⟩ := refines.step first
    obtain ⟨s'', ran, sameIntr', refines''⟩ := inductionHypothesis refines'
    refine ⟨s'', ?_, sameIntr'.trans sameIntr, refines''⟩
    rw [List.foldlM_cons, stepped]
    exact ran

end Objects.Refines

theorem Objects.refines_none (objects : Objects) (word : Words) :
    objects.Refines word fun _ => none where
  isList := nofun
  isElem := nofun
  nodup := nofun
  disjoint := nofun
  linked := nofun

section Walks

variable {word : Words} {node last : Nat} {seq : List Nat} {fuel : Nat}

theorem findFrom_eq (objElem : Nat) (linked : word.Linked (node :: (seq ++ [last])))
    (notLast : last ∉ seq) (enough : seq.length < fuel) :
    findFrom word last objElem fuel (word.next node) = some (decide (objElem ∈ seq)) := by
  induction seq generalizing node fuel with
  | nil =>
    obtain ⟨fuel, rfl⟩ := Nat.exists_eq_succ_of_ne_zero (Nat.ne_zero_of_lt enough)
    rw [linked.1, findFrom, if_pos rfl]
    simp
  | cons elem rest inductionHypothesis =>
    obtain ⟨fuel, rfl⟩ := Nat.exists_eq_succ_of_ne_zero (Nat.ne_zero_of_lt enough)
    obtain ⟨isNext, -, linked⟩ := linked
    obtain ⟨different, notLast⟩ := not_or.mp (mt List.mem_cons.mpr notLast)
    rw [isNext, findFrom, if_neg (Ne.symm different)]
    split
    next same => simp [same]
    next notSame =>
      rw [inductionHypothesis linked notLast (Nat.lt_of_succ_lt_succ enough)]
      simp [Ne.symm notSame]

theorem lenFrom_eq (len : UInt32) (linked : word.Linked (node :: (seq ++ [last])))
    (notLast : last ∉ seq) (enough : seq.length < fuel) :
    lenFrom word last fuel (word.next node) len = some (len + UInt32.ofNat seq.length) := by
  induction seq generalizing node fuel len with
  | nil =>
    obtain ⟨fuel, rfl⟩ := Nat.exists_eq_succ_of_ne_zero (Nat.ne_zero_of_lt enough)
    rw [linked.1, lenFrom, if_pos rfl]
    simp
  | cons elem rest inductionHypothesis =>
    obtain ⟨fuel, rfl⟩ := Nat.exists_eq_succ_of_ne_zero (Nat.ne_zero_of_lt enough)
    obtain ⟨isNext, -, linked⟩ := linked
    obtain ⟨different, notLast⟩ := not_or.mp (mt List.mem_cons.mpr notLast)
    rw [isNext, lenFrom, if_neg (Ne.symm different),
      inductionHypothesis (len + 1) linked notLast (Nat.lt_of_succ_lt_succ enough),
      List.length_cons, Nat.add_comm, UInt32.ofNat_add, UInt32.add_assoc]
    rfl

theorem traverseFrom_eq {σ : Type} (func : Nat → Int → StateM σ Bool) (arg : Int) (t : σ)
    (linked : word.Linked (node :: (seq ++ [last])))
    (notLast : last ∉ seq) (enough : seq.length < fuel) :
    traverseFrom word last func arg fuel (word.next node) t =
      some ((seq.findM? fun elem => func elem arg).run t) := by
  induction seq generalizing node fuel t with
  | nil =>
    obtain ⟨fuel, rfl⟩ := Nat.exists_eq_succ_of_ne_zero (Nat.ne_zero_of_lt enough)
    rw [linked.1, traverseFrom, if_pos rfl]
    rfl
  | cons elem rest inductionHypothesis =>
    obtain ⟨fuel, rfl⟩ := Nat.exists_eq_succ_of_ne_zero (Nat.ne_zero_of_lt enough)
    obtain ⟨isNext, -, linked⟩ := linked
    obtain ⟨different, notLast⟩ := not_or.mp (mt List.mem_cons.mpr notLast)
    rw [isNext, traverseFrom, if_neg (Ne.symm different), List.findM?, StateT.run_bind]
    rcases found : func elem arg t with ⟨answer, t'⟩
    have ran : (func elem arg).run t = pure (answer, t') := found
    rw [ran, pure_bind]
    cases answer with
    | false => exact inductionHypothesis t' linked notLast (Nat.lt_of_succ_lt_succ enough)
    | true => rfl

end Walks

/-- What the memory says of a list whose sequence is `seq`.  The walks need one round more
than there are nodes. -/
structure Answers (s : ListMemory) (plist : Nat) (seq : List Nat) : Prop where
  nodup : seq.Nodup
  forth : List.iterate s.word.next (head plist) (seq.length + 2) =
    head plist :: (seq ++ [tail plist])
  back : List.iterate s.word.prev (tail plist) (seq.length + 2) =
    tail plist :: (seq.reverse ++ [head plist])
  find : ∀ objElem fuel, seq.length < fuel →
    elemFind s.word fuel plist objElem = some (decide (objElem ∈ seq))
  len : ∀ fuel, seq.length < fuel →
    ∃ len, listLen s.word fuel plist = some len ∧ len.toNat = seq.length
  empty : listEmpty s.word plist = decide (seq = [])
  traversal : ∀ {σ : Type} (func : Nat → Int → StateM σ Bool) (arg : Int) (t : σ) (fuel : Nat),
    seq.length < fuel → listTraversal s.word fuel plist func arg t =
      some ((seq.findM? fun elem => func elem arg).run t)
  pop : ∀ elem rest, seq = elem :: rest → ∃ s', listPop plist s = .ok (elem, s')
  popEmpty : seq = [] → listPop plist s = .error (.panic .listPop)

theorem Objects.Refines.listEmpty_eq {objects : Objects} {lists : Lists} {word : Words}
    {plist : Nat} {seq : List Nat} (refines : objects.Refines word lists)
    (isSeq : lists plist = some seq) : listEmpty word plist = decide (seq = []) := by
  have isFirst := refines.next_head isSeq
  cases seq with
  | nil =>
    rw [listEmpty, ← Option.some.inj isFirst]
    simp
  | cons elem rest =>
    have notTail := refines.ne_tail isSeq List.mem_cons_self
    rw [listEmpty, ← Option.some.inj isFirst, decide_eq_false notTail]
    simp

theorem Objects.Refines.answers {objects : Objects} {lists : Lists} {s : ListMemory}
    {plist : Nat} {seq : List Nat} (refines : objects.Refines s.word lists)
    (isSeq : lists plist = some seq) : Answers s plist seq := by
  have linked := refines.linked plist seq isSeq
  have notLast : tail plist ∉ seq := fun member => refines.ne_tail isSeq member rfl
  refine ⟨refines.nodup plist seq isSeq, ?_, ?_, fun objElem fuel enough => ?_,
    fun fuel enough => ?_, refines.listEmpty_eq isSeq, fun func arg t fuel enough => ?_, ?_, ?_⟩
  · have forth := linked.iterate_next
    rw [List.length_append, List.length_singleton] at forth
    exact forth
  · have ends : s.word.Linked ((head plist :: seq) ++ [tail plist]) := linked
    have back := ends.iterate_prev
    rw [List.length_cons, List.reverse_cons] at back
    exact back
  · exact findFrom_eq objElem linked notLast enough
  · have short := objects.length_lt (refines.isElem plist seq isSeq) (refines.nodup plist seq isSeq)
    refine ⟨_, lenFrom_eq 0 linked notLast enough, ?_⟩
    rw [UInt32.zero_add, UInt32.toNat_ofNat']
    exact Nat.mod_eq_of_lt short
  · rw [listTraversal, refines.listEmpty_eq isSeq]
    cases seq with
    | nil => rfl
    | cons elem rest => exact traverseFrom_eq func arg t linked notLast enough
  · rintro elem rest rfl
    exact ⟨_, refines.listPop_eq isSeq⟩
  · rintro rfl
    exact refines.listPop_empty isSeq

/-- Whatever the memory holds at first and whatever calls are made, lists over shared nodes
stay what their sequences say, and a call changes no list but its own. -/
theorem lists_refine (objects : Objects) (s : ListMemory) {ops : List ListOp} {lists : Lists}
    (run : objects.Run (fun _ => none) ops lists) :
    ∃ s', ops.foldlM listStep s = .ok s' ∧ s'.intrOn = s.intrOn ∧
      (∀ plist seq, lists plist = some seq → Answers s' plist seq) ∧
      (∀ plist other seq seq', lists plist = some seq → lists other = some seq' →
        other ≠ plist → seq'.Disjoint seq) ∧
      ∀ op plist seq, objects.Effect lists op plist seq →
        ∃ s'', listStep s' op = .ok s'' ∧ Answers s'' plist seq ∧
          ∀ other seq', lists other = some seq' → other ≠ plist →
            Answers s'' other seq' ∧ Unchanged s'.word s''.word other seq' := by
  obtain ⟨s', ran, sameIntr, refines⟩ := (objects.refines_none s.word).run run
  refine ⟨s', ran, sameIntr, fun plist seq isSeq => refines.answers isSeq, refines.disjoint,
    fun op plist seq effect => ?_⟩
  obtain ⟨s'', stepped, -, refines', others⟩ := refines.step effect
  refine ⟨s'', stepped, refines'.answers (Function.update_self _ _ _),
    fun other seq' isSeq different => ⟨refines'.answers ?_, others other seq' isSeq different⟩⟩
  rw [Function.update_of_ne different, isSeq]

/-- Two lists and three nodes. -/
def twoLists : Objects where
  isList plist := plist = 0x100 ∨ plist = 0x200
  isElem elem := elem = 0x310 ∨ elem = 0x320 ∨ elem = 0x330
  lists := by omega
  elems := by
    unfold NodesApart
    omega
  apart := by omega
  inSpace := by omega

/-- All three nodes go into the first list, and two of them on to the second. -/
def moves : List ListOp :=
  [.init 0x100, .init 0x200, .push 0x100 0x310, .append 0x100 0x320, .insertBefore 0x320 0x330,
    .pop 0x100, .append 0x200 0x310, .remove 0x320, .insertBefore (tail 0x200) 0x320]

theorem moves_run : ∃ lists, twoLists.Run (fun _ => none) moves lists ∧
    lists 0x100 = some [0x330] ∧ lists 0x200 = some [0x310, 0x320] := by
  refine ⟨_, .cons (.init (.inl rfl)) (.cons (.init (.inr rfl))
    (.cons (@Objects.Effect.push _ _ 0x100 0x310 [] rfl (.inl rfl) ?_)
    (.cons (@Objects.Effect.append _ _ 0x100 0x320 [0x310] rfl (.inr (.inl rfl)) ?_)
    (.cons (@Objects.Effect.insertBefore _ _ 0x100 0x320 0x330 [0x310] [] rfl (.inr (.inr rfl)) ?_)
    (.cons (@Objects.Effect.pop _ _ 0x100 0x310 [0x330, 0x320] rfl)
    (.cons (@Objects.Effect.append _ _ 0x200 0x310 [] rfl (.inl rfl) ?_)
    (.cons (@Objects.Effect.remove _ _ 0x100 0x320 [0x330] [] rfl)
    (.cons (@Objects.Effect.insertBeforeTail _ _ 0x200 0x320 [0x310] rfl (.inr (.inl rfl)) ?_)
    (.nil _))))))))), rfl, rfl⟩
  all_goals
    intro plist seq isSeq
    simp only [Function.update_apply] at isSeq
    grind

/-- The memory follows. -/
theorem moves_refine : ∃ s', moves.foldlM listStep ⟨fun _ => 0xffffffff, true⟩ = .ok s' ∧
    Answers s' 0x100 [0x330] ∧ Answers s' 0x200 [0x310, 0x320] := by
  obtain ⟨lists, run, isFirst, isSecond⟩ := moves_run
  obtain ⟨s', ran, -, answers, -⟩ := lists_refine twoLists ⟨fun _ => 0xffffffff, true⟩ run
  exact ⟨s', ran, answers _ _ isFirst, answers _ _ isSecond⟩

end HongbaiOS.Lib.KernelList
