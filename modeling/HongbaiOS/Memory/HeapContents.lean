import HongbaiOS.Library.LinkedList
import HongbaiOS.Memory.Directories
import HongbaiOS.Memory.Exhaustion

/-!
# What a new block contains

`sys_malloc` over the pages and free lists of `Heap.lean` and the words that the running
task sees at its addresses, with the links that `list.c` keeps in free blocks.  A request
that gets pages of its own finds them cleared; a block from a free list still has the links
it had there, also when its arena is new.
-/

namespace HongbaiOS.Memory

open HongbaiOS.Library HongbaiOS.Kernel HongbaiOS.Lib HongbaiOS.Thread

/-- The memory manager and the words of the current address space. -/
structure HeapMemory where
  mem : Mem
  word : Words

/-- `memset(dst, value, size)` for whole words -/
def memset (dst value size : Nat) (word : Words) : Words := fun a =>
  if dst ≤ a ∧ a < dst + size then value % 256 * 0x01010101 else word a

/-- Newly mapped pages show what their frames held. -/
def mapFresh (fresh : Words) (a pgCnt : Nat) (word : Words) : Words := fun addr =>
  if a ≤ addr ∧ addr < a + pgCnt * pgSize then fresh addr else word addr

/-- Write the `struct arena` at `a`: the descriptor, `large` and `cnt`. -/
def storeArena (a desc large cnt : Nat) (word : Words) : Words :=
  Function.update (Function.update (Function.update word a desc) (a + 4) large) (a + 8) cnt

/-- The two ends of `free_list` in the descriptor at `desc`. -/
def listHead (desc : Nat) : Nat := desc + 8
def listTail (desc : Nat) : Nat := desc + 16

section SysMalloc

-- where the descriptors lie, and what the frames hold that get mapped
variable (descAddr : DescRef → Nat) (fresh : Words)

/-- The loop that cuts a new arena into blocks, with `list_append`. -/
def cutArena (ref : DescRef) (a : Address) : (left blockIdx : Nat) → HeapMemory →
    Except Halt HeapMemory
  | 0, _, s => .ok s
  | left + 1, blockIdx, s => do
      let b := arena2block s.mem ref a blockIdx
      check .sysMalloc (b ∉ (s.mem.desc ref).freeList)
      cutArena ref a left (blockIdx + 1)
        ⟨s.mem.setFreeList ref ((s.mem.desc ref).freeList ++ [b]),
          s.word.insertBefore (listTail (descAddr ref)) b⟩

/-- The branch of `sys_malloc` for an empty free list. -/
def supplyArena (s : HeapMemory) (ref : DescRef) : Except Halt (Bool × HeapMemory) := do
  match ← mallocPage s.mem s.mem.ownFlags 1 with
  | (none, m) => return (false, ⟨m, s.word⟩)
  | (some a, m) =>
      let m ← memsetPages 1 a m
      let word := memset a 0 pgSize (mapFresh fresh a 1 s.word)
      let blockPerArena := (m.desc ref).blockPerArena
      let m ← m.writeArena a ⟨some ref, false, UInt32.ofNat blockPerArena⟩
      let word := storeArena a (descAddr ref) 0 blockPerArena word
      let s ← cutArena descAddr ref a blockPerArena 0 ⟨m, word⟩
      return (true, s)

/-- The end of `sys_malloc` for a small block: `list_pop`, `memset(b, block_size, 0)` and
the count of the arena. -/
def takeBlock (s : HeapMemory) (ref : DescRef) : Except Halt (Address × HeapMemory) := do
  let blockSize := (s.mem.desc ref).blockSize
  let (b, m) ← popBlock s.mem ref
  let word := memset b blockSize 0 (s.word.removeNode b)
  let cnt := block2arena b + 8
  return (b, ⟨m, Function.update word cnt (wrapSub (word cnt) 1)⟩)

/-- `sys_malloc(size)` for `size > 1024`, with the lock held. -/
def takePages (s : HeapMemory) (size : Nat) : Except Halt (Option Address × HeapMemory) := do
  let pageCnt := divRoundUp (wrap (size + arenaSize)) pgSize
  match ← mallocPage s.mem s.mem.ownFlags pageCnt with
  | (some a, m) =>
      let m ← memsetPages pageCnt a m
      let word := memset a 0 (wrap (pageCnt * pgSize)) (mapFresh fresh a pageCnt s.word)
      let m ← m.writeArena a ⟨none, true, UInt32.ofNat pageCnt⟩
      return (some (wrap (a + arenaSize)), ⟨m, storeArena a 0 1 pageCnt word⟩)
  | (none, m) => return (none, ⟨← releasePool m m.ownFlags, s.word⟩)

/-- `sys_malloc(size)` for smaller sizes, with the lock held. -/
def takeSmall (s : HeapMemory) (size : Nat) : Except Halt (Option Address × HeapMemory) :=
  match findDesc s.mem size with
  | none => .error .outOfBounds
  | some descIdx => do
      let ref := s.mem.ownDesc descIdx
      let (supplied, s) ←
        if (s.mem.desc ref).freeList = [] then supplyArena descAddr fresh s ref
        else pure (true, s)
      if !supplied then
        return (none, ⟨← releasePool s.mem s.mem.ownFlags, s.word⟩)
      let (b, s) ← takeBlock s ref
      return (some b, ⟨← releasePool s.mem s.mem.ownFlags, s.word⟩)

/-- `sys_malloc(size)` -/
def sysMallocWords (s : HeapMemory) (size : Nat) :
    Except Halt (Option Address × HeapMemory) := do
  let poolSize := (s.mem.pool s.mem.ownFlags).poolSize
  if !(size > 0 && size < poolSize) then
    return (none, s)
  let m ← acquirePool s.mem s.mem.ownFlags
  if size > 1024 then takePages fresh ⟨m, s.word⟩ size
  else takeSmall descAddr fresh ⟨m, s.word⟩ size

end SysMalloc

section Erasure

variable (descAddr : DescRef → Nat) (fresh : Words) (s : HeapMemory) (ref : DescRef)

theorem map_bind {ε α β γ : Type} (run : Except ε α) (f : α → Except ε β) (g : β → γ) :
    (run >>= f).map g = run >>= fun a => (f a).map g := by
  cases run <;> rfl

theorem cutArena_mem (a left blockIdx : Nat) :
    (cutArena descAddr ref a left blockIdx s).map HeapMemory.mem =
      appendBlocks ref a left blockIdx s.mem := by
  induction left generalizing blockIdx s with
  | zero => rfl
  | succ left inductionHypothesis =>
    simp only [cutArena, appendBlocks, map_bind, inductionHypothesis]

theorem supplyArena_mem :
    (supplyArena descAddr fresh s ref).map (fun r => (r.1, r.2.mem)) = newArena s.mem ref := by
  rw [supplyArena, newArena, map_bind]
  congr 1
  funext got
  match got with
  | (none, m) => rfl
  | (some a, m) =>
    simp only [map_bind]
    congr 1
    funext cleared
    congr 1
    funext headed
    have cut := cutArena_mem descAddr ⟨headed, storeArena a (descAddr ref) 0
      (cleared.desc ref).blockPerArena (memset a 0 pgSize (mapFresh fresh a 1 s.word))⟩ ref a
      (cleared.desc ref).blockPerArena 0
    rw [← cut]
    cases cutArena descAddr ref a (cleared.desc ref).blockPerArena 0 _ <;> rfl

theorem takeBlock_mem :
    (takeBlock s ref).map (fun r => (r.1, r.2.mem)) = popBlock s.mem ref := by
  rw [takeBlock, map_bind]
  cases popBlock s.mem ref <;> rfl

theorem takePages_mem (size : Nat) :
    (takePages fresh s size).map (fun r => (r.1, r.2.mem)) = mallocLarge s.mem size := by
  rw [takePages, mallocLarge, map_bind]
  congr 1
  funext got
  match got with
  | (none, m) =>
    simp only [map_bind]
    rfl
  | (some a, m) =>
    simp only [map_bind]
    rfl

theorem takeSmall_rest (supplied : Bool) :
    (if !supplied then do
        return (none, ⟨← releasePool s.mem s.mem.ownFlags, s.word⟩)
      else do
        let (b, s) ← takeBlock s ref
        return (some b, ⟨← releasePool s.mem s.mem.ownFlags, s.word⟩) :
        Except Halt (Option Address × HeapMemory)).map (fun r => (r.1, r.2.mem)) =
      if !supplied then do return (none, ← releasePool s.mem s.mem.ownFlags)
      else do
        let (b, m) ← popBlock s.mem ref
        return (some b, ← releasePool m m.ownFlags) := by
  cases supplied with
  | false =>
    simp only [Bool.not_false, if_true, map_bind]
    rfl
  | true =>
    simp only [Bool.not_true, Bool.false_eq_true, if_false, map_bind, ← takeBlock_mem]
    cases takeBlock s ref <;> rfl

theorem takeSmall_mem (size : Nat) :
    (takeSmall descAddr fresh s size).map (fun r => (r.1, r.2.mem)) =
      mallocSmall s.mem size := by
  unfold takeSmall mallocSmall
  cases findDesc s.mem size with
  | none => rfl
  | some descIdx =>
    dsimp only
    split
    · rw [← supplyArena_mem descAddr fresh]
      cases supplyArena descAddr fresh s (s.mem.ownDesc descIdx) with
      | error reason => rfl
      | ok supplied => exact takeSmall_rest supplied.2 _ supplied.1
    · exact takeSmall_rest s _ true

/-- The words change nothing about the pages and blocks that are handed out. -/
theorem sysMallocWords_mem (size : Nat) :
    (sysMallocWords descAddr fresh s size).map (fun r => (r.1, r.2.mem)) =
      sysMalloc s.mem size := by
  unfold sysMallocWords sysMalloc
  dsimp only
  split
  · rfl
  · rw [map_bind]
    congr 1
    funext held
    split
    · exact takePages_mem fresh ⟨held, s.word⟩ size
    · exact takeSmall_mem descAddr fresh ⟨held, s.word⟩ size

end Erasure

/-- The descriptors of the kernel lie in its image, those of a task in its PCB. -/
structure DescPlaces (descAddr : DescRef → Nat) : Prop where
  low : ∀ ref, 0xc0000000 ≤ descAddr ref
  kernel : ∀ descIdx, descAddr (.kernel descIdx) + 24 ≤ kHeapStart

/-- A free list between the ends that `list.c` keeps. -/
def freeNodes (descAddr : DescRef → Nat) (m : Mem) (ref : DescRef) : List Nat :=
  listHead (descAddr ref) :: (m.desc ref).freeList ++ [listTail (descAddr ref)]

/-- The links of a free list are those of its blocks, which lie behind arena headers. -/
structure Stocked (descAddr : DescRef → Nat) (s : HeapMemory) (ref : DescRef) : Prop where
  linked : s.word.Linked (freeNodes descAddr s.mem ref)
  apart : (freeNodes descAddr s.mem ref).Pairwise NodesApart
  behind : ∀ b ∈ (s.mem.desc ref).freeList, arenaSize ≤ b % pgSize

/-- A state of the heap as the running task uses it. -/
structure HeapReady (descAddr : DescRef → Nat) (book : Book) (s : HeapMemory) : Prop where
  owned : Owned book s.mem
  places : DescPlaces descAddr
  sizes : ∀ descIdx, (s.mem.desc (s.mem.ownDesc descIdx)).blockSize = blockSizeAt descIdx ∧
    (s.mem.desc (s.mem.ownDesc descIdx)).blockPerArena =
      (pgSize - arenaSize) / blockSizeAt descIdx
  stocked : ∀ descIdx, Stocked descAddr s (s.mem.ownDesc descIdx)

section Small

variable {descAddr : DescRef → Nat} {fresh : Words} {s s' : HeapMemory} {ref : DescRef}
  {b : Address}

theorem memset_nothing (dst value : Nat) (word : Words) : memset dst value 0 word = word := by
  funext a
  exact if_neg (by omega)

theorem ne_counter {block : Nat} (behind : arenaSize ≤ block % pgSize) :
    block ≠ block2arena block + 8 := by
  simp only [block2arena, pgSize, arenaSize] at behind ⊢
  omega

theorem Stocked.takeBlock (stocked : Stocked descAddr s ref)
    (ran : takeBlock s ref = .ok (b, s')) : s'.word b = listHead (descAddr ref) := by
  obtain ⟨⟨popped, m⟩, pop, result⟩ := except_bind_eq_ok.mp ran
  simp only [pure_eq_ok, Except.ok.injEq, Prod.mk.injEq] at result
  obtain ⟨rfl, rfl⟩ := result
  obtain ⟨rest, -, list, -, -⟩ := popBlock_eq_ok pop
  have linked := stocked.linked
  have apart := stocked.apart
  have behind := stocked.behind popped (by rw [list]; exact List.mem_cons_self)
  rw [freeNodes, list, List.cons_append, List.cons_append] at linked apart
  have kept : (s.word.removeNode popped).prev popped = listHead (descAddr ref) := by
    cases rest with
    | nil => exact (Words.Linked.removed [] linked apart).1
    | cons second rest => exact (Words.Linked.removed [] linked apart).1
  have counter : popped ≠ block2arena popped + 8 := ne_counter behind
  simp only [memset_nothing, Function.update_of_ne counter]
  exact kept

theorem block_apart {page size blockCnt desc : Nat} (large : 16 ≤ size)
    (fits : arenaSize + blockCnt * size ≤ pgSize)
    (outside : desc + 24 ≤ page * pgSize ∨ page * pgSize + pgSize ≤ desc) :
    (listHead desc :: (List.range blockCnt).map (fun i => page * pgSize + arenaSize + i * size) ++
      [listTail desc]).Pairwise NodesApart := by
  have inside : ∀ i < blockCnt, arenaSize + i * size + size ≤ pgSize := by
    intro i small
    have le : (i + 1) * size ≤ blockCnt * size := Nat.mul_le_mul_right _ small
    rw [Nat.succ_mul] at le
    omega
  rw [List.cons_append, List.pairwise_cons, List.pairwise_append, List.pairwise_map]
  refine ⟨?_, ?_, List.pairwise_singleton _ _, ?_⟩
  · intro node isNode
    rcases List.mem_append.mp isNode with isBlock | isTail
    · obtain ⟨i, inRange, rfl⟩ := List.mem_map.mp isBlock
      have fits := inside i (List.mem_range.mp inRange)
      simp only [NodesApart, listHead]
      omega
    · rw [List.mem_singleton.mp isTail]
      simp only [NodesApart, listHead, listTail]
      omega
  · refine List.pairwise_lt_range.imp fun {i j} less => .inl ?_
    have le : (i + 1) * size ≤ j * size := Nat.mul_le_mul_right _ less
    rw [Nat.succ_mul] at le
    omega
  · intro node isNode last isLast
    obtain ⟨i, inRange, rfl⟩ := List.mem_map.mp isNode
    rw [List.mem_singleton.mp isLast]
    have fits := inside i (List.mem_range.mp inRange)
    simp only [NodesApart, listTail]
    omega

theorem append_linked {list : List Nat} {head last elem : Nat} {word : Words}
    (linked : word.Linked (head :: list ++ [last]))
    (apart : (head :: (list ++ [elem]) ++ [last]).Pairwise NodesApart) :
    (word.insertBefore last elem).Linked (head :: (list ++ [elem]) ++ [last]) := by
  obtain ⟨before, beforeLast, split⟩ : ∃ before beforeLast,
      head :: list = before ++ [beforeLast] :=
    ⟨_, _, (List.dropLast_append_getLast (List.cons_ne_nil head list)).symm⟩
  have longer : head :: (list ++ [elem]) ++ [last] = before ++ [beforeLast, elem, last] := by
    rw [← List.cons_append, split]
    simp
  rw [split, List.append_assoc] at linked
  rw [longer] at apart ⊢
  exact linked.insertBefore apart

theorem cutArena_linked {page size left blockIdx : Nat}
    (ran : cutArena descAddr ref (page * pgSize) left blockIdx s = .ok s')
    (isSize : (s.mem.desc ref).blockSize = size) (large : 16 ≤ size) (small : page < 2 ^ 20)
    (fits : arenaSize + (blockIdx + left) * size ≤ pgSize)
    (outside : descAddr ref + 24 ≤ page * pgSize ∨ page * pgSize + pgSize ≤ descAddr ref)
    (list : (s.mem.desc ref).freeList = (List.range blockIdx).map fun i =>
      page * pgSize + arenaSize + i * size)
    (linked : s.word.Linked (freeNodes descAddr s.mem ref)) :
    (s'.mem.desc ref).freeList = ((List.range (blockIdx + left)).map fun i =>
      page * pgSize + arenaSize + i * size) ∧
    s'.word.Linked (freeNodes descAddr s'.mem ref) := by
  induction left generalizing blockIdx s with
  | zero =>
    cases ran
    exact ⟨list, linked⟩
  | succ left inductionHypothesis =>
    obtain ⟨_, -, ran⟩ := except_bind_eq_ok.mp ran
    have least : arenaSize + (blockIdx + 1) * size ≤ pgSize := by
      have le : (blockIdx + 1) * size ≤ (blockIdx + (left + 1)) * size :=
        Nat.mul_le_mul_right _ (by omega)
      omega
    let block := page * pgSize + arenaSize + blockIdx * size
    have block_eq : arena2block s.mem ref (page * pgSize) blockIdx = block := by
      rw [arena2block, isSize]
      apply Nat.mod_eq_of_lt
      rw [Nat.succ_mul] at least
      simp only [pgSize] at least ⊢
      omega
    rw [block_eq] at ran
    have desc := Mem.desc_setFreeList s.mem ref ((s.mem.desc ref).freeList ++ [block]) ref
    rw [if_pos rfl] at desc
    have sameList := congrArg MemBlockDesc.freeList desc
    have longer : (s.mem.desc ref).freeList ++ [block] = (List.range (blockIdx + 1)).map fun i =>
        page * pgSize + arenaSize + i * size := by
      rw [list, List.range_succ, List.map_append]
      rfl
    have apart := block_apart large least outside
    rw [← longer] at apart
    have rest := inductionHypothesis ran ((congrArg MemBlockDesc.blockSize desc).trans isSize)
      (by rw [Nat.add_assoc, Nat.add_comm 1 left]; exact fits) (sameList.trans longer)
      (by rw [freeNodes, sameList]; exact append_linked linked apart)
    rw [Nat.add_assoc, Nat.add_comm 1 left] at rest
    exact rest

theorem blockSizeAt_large (descIdx : Fin 7) : 16 ≤ blockSizeAt descIdx := by
  revert descIdx
  decide

theorem HeapReady.outside {book : Book} {page : Nat} (ready : HeapReady descAddr book s)
    (descIdx : Fin 7) (inRange : InRange s.mem.ownFlags page) :
    descAddr (s.mem.ownDesc descIdx) + 24 ≤ page * pgSize ∨
      page * pgSize + pgSize ≤ descAddr (s.mem.ownDesc descIdx) := by
  have low := ready.places.low (s.mem.ownDesc descIdx)
  by_cases thread : s.mem.pgdir = none
  · have flags : s.mem.ownFlags = .kernel := if_pos thread
    have ref : s.mem.ownDesc descIdx = .kernel descIdx := if_pos thread
    have high := ready.places.kernel descIdx
    rw [flags] at inRange
    have first := inRange.1
    rw [ref]
    simp only [kHeapStart, kHeapPage, pgSize] at high first ⊢
    omega
  · have flags : s.mem.ownFlags = .user := if_neg thread
    rw [flags] at inRange
    have last := inRange.2
    simp only [pgSize]
    omega

theorem arenaPage_outside {a desc large cnt addr : Nat} {word : Words}
    (outside : addr < a ∨ a + pgSize ≤ addr) :
    storeArena a desc large cnt (memset a 0 pgSize (mapFresh fresh a 1 word)) addr =
      word addr := by
  simp only [pgSize] at outside
  rw [storeArena, Function.update_of_ne (by omega), Function.update_of_ne (by omega),
    Function.update_of_ne (by omega), memset, if_neg (by simp only [pgSize]; omega), mapFresh,
    if_neg (by simp only [pgSize]; omega)]

theorem supplyArena_stocked {book : Book} {descIdx : Fin 7} {supplied : Bool}
    (ready : HeapReady descAddr book s)
    (empty : (s.mem.desc (s.mem.ownDesc descIdx)).freeList = [])
    (ran : supplyArena descAddr fresh s (s.mem.ownDesc descIdx) = .ok (supplied, s')) :
    Stocked descAddr s' (s.mem.ownDesc descIdx) := by
  have stocked := ready.stocked descIdx
  obtain ⟨isSize, isPerArena⟩ := ready.sizes descIdx
  have outside {page : Nat} (inRange : InRange s.mem.ownFlags page) :=
    ready.outside descIdx inRange
  generalize s.mem.ownDesc descIdx = ref at stocked isSize isPerArena outside empty ran ⊢
  obtain ⟨⟨got, mapped⟩, allocated, ran⟩ := except_bind_eq_ok.mp ran
  obtain ⟨page, book', rfl, isMapped⟩ := ready.owned.mallocPage allocated
  obtain ⟨cleared, clear, ran⟩ := except_bind_eq_ok.mp ran
  obtain ⟨headed, write, ran⟩ := except_bind_eq_ok.mp ran
  obtain ⟨last, cut, result⟩ := except_bind_eq_ok.mp ran
  simp only [pure_eq_ok, Except.ok.injEq, Prod.mk.injEq] at result
  obtain ⟨rfl, rfl⟩ := result
  have inRange := isMapped.inRange 0 Nat.one_pos
  rw [Nat.add_zero] at inRange
  have outside := outside inRange
  have clearedFrame := (mallocPage_frame allocated).trans (memsetPages_frame clear)
  have perArena : (cleared.desc ref).blockPerArena =
      (pgSize - arenaSize) / blockSizeAt descIdx := by
    rw [clearedFrame.desc, isPerArena]
  have desc : headed.desc ref = s.mem.desc ref :=
    congrFun (clearedFrame.trans (writeArena_frame write)).desc ref
  have fits : arenaSize + (pgSize - arenaSize) / blockSizeAt descIdx * blockSizeAt descIdx ≤
      pgSize := by
    have le := Nat.div_mul_le_self (pgSize - arenaSize) (blockSizeAt descIdx)
    simp only [pgSize, arenaSize] at le ⊢
    omega
  have large := blockSizeAt_large descIdx
  rw [perArena] at cut
  have small : page < 2 ^ 20 := Nat.lt_trans inRange.lt (by decide)
  obtain ⟨list, linked⟩ := cutArena_linked cut (desc ▸ isSize) large small
    (by rwa [Nat.zero_add]) outside (desc ▸ empty) (by
      have same : freeNodes descAddr headed ref = freeNodes descAddr s.mem ref := by
        rw [freeNodes, freeNodes, desc]
      rw [same]
      refine stocked.linked.congr fun node isNode => ?_
      rw [freeNodes, empty] at isNode
      have isEnd : node = listHead (descAddr ref) ∨ node = listTail (descAddr ref) := by
        simpa using isNode
      have apart : ∀ offset, offset < 8 →
          node + offset < page * pgSize ∨ page * pgSize + pgSize ≤ node + offset := by
        simp only [listHead, listTail] at isEnd
        omega
      exact ⟨arenaPage_outside (apart 0 (by omega)), arenaPage_outside (apart 4 (by omega))⟩)
  rw [Nat.zero_add] at list
  refine ⟨linked, ?_, ?_⟩
  · rw [freeNodes, list]
    exact block_apart large fits outside
  · intro b isBlock
    rw [list] at isBlock
    obtain ⟨i, inRange, rfl⟩ := List.mem_map.mp isBlock
    have le : (i + 1) * blockSizeAt descIdx ≤
        (pgSize - arenaSize) / blockSizeAt descIdx * blockSizeAt descIdx :=
      Nat.mul_le_mul_right _ (List.mem_range.mp inRange)
    rw [Nat.succ_mul] at le
    simp only [pgSize, arenaSize] at fits le ⊢
    omega

theorem Stocked.takeRest {supplied : Bool} {result : Option Address}
    (stocked : Stocked descAddr s ref) (isSupplied : supplied = true)
    (ran : (if !supplied then do
        return (none, ⟨← releasePool s.mem s.mem.ownFlags, s.word⟩)
      else do
        let (b, s) ← Memory.takeBlock s ref
        return (some b, ⟨← releasePool s.mem s.mem.ownFlags, s.word⟩) :
        Except Halt (Option Address × HeapMemory)) = .ok (result, s')) :
    ∃ b, result = some b ∧ s'.word b = listHead (descAddr ref) := by
  subst isSupplied
  simp only [Bool.not_true, Bool.false_eq_true, if_false] at ran
  obtain ⟨⟨b, taken⟩, take, ran⟩ := except_bind_eq_ok.mp ran
  obtain ⟨last, -, result⟩ := except_bind_eq_ok.mp ran
  simp only [pure_eq_ok, Except.ok.injEq, Prod.mk.injEq] at result
  obtain ⟨rfl, rfl⟩ := result
  have link := stocked.takeBlock take
  exact ⟨b, rfl, link⟩

/-- A small block is never cleared. -/
theorem HeapReady.takeSmall {book : Book} {size : Nat} {result : Option Address}
    (ready : HeapReady descAddr book s)
    (ran : takeSmall descAddr fresh s size = .ok (result, s')) :
    ∃ b descIdx, result = some b ∧ findDesc s.mem size = some descIdx ∧
      s'.word b = listHead (descAddr (s.mem.ownDesc descIdx)) := by
  unfold Memory.takeSmall at ran
  split at ran
  next => cases ran
  next descIdx found =>
    dsimp only at ran
    split at ran
    next empty =>
      obtain ⟨⟨supplied, filled⟩, created, ran⟩ := except_bind_eq_ok.mp ran
      have stocked := supplyArena_stocked ready empty created
      have memCreated := supplyArena_mem descAddr fresh s (s.mem.ownDesc descIdx)
      rw [created] at memCreated
      obtain ⟨b, isResult, link⟩ := stocked.takeRest (newArena_eq_ok memCreated.symm).1 ran
      exact ⟨b, descIdx, isResult, found, link⟩
    next =>
      obtain ⟨b, isResult, link⟩ := (ready.stocked descIdx).takeRest rfl ran
      exact ⟨b, descIdx, isResult, found, link⟩

end Small

section Large

variable {descAddr : DescRef → Nat} {fresh : Words} {s s' : HeapMemory} {book : Book}
  {size : Nat} {result : Option Address}

def AllZero (word : Words) (block bytes : Nat) : Prop :=
  ∀ k, 4 * k < bytes → word (block + 4 * k) = 0

theorem arenaPages_zero {a desc large cnt bytes : Nat} (word : Words) :
    AllZero (storeArena a desc large cnt (memset a 0 bytes word)) (a + arenaSize)
      (bytes - arenaSize) := by
  intro k inside
  simp only [arenaSize] at inside ⊢
  rw [storeArena, Function.update_of_ne (by omega), Function.update_of_ne (by omega),
    Function.update_of_ne (by omega), memset, if_pos (by omega)]

/-- A request for pages is served with cleared ones. -/
theorem HeapReady.takePages (ready : HeapReady descAddr book s)
    (ran : takePages fresh s size = .ok (result, s')) :
    ∃ block, result = some block ∧ AllZero s'.word block
      (divRoundUp (wrap (size + arenaSize)) pgSize * pgSize - arenaSize) := by
  obtain ⟨⟨got, mapped⟩, allocated, ran⟩ := except_bind_eq_ok.mp ran
  obtain ⟨positive, few, -⟩ := mallocPage_eq_ok allocated
  obtain ⟨page, book', rfl, isMapped⟩ := ready.owned.mallocPage allocated
  obtain ⟨cleared, -, ran⟩ := except_bind_eq_ok.mp ran
  obtain ⟨headed, -, result⟩ := except_bind_eq_ok.mp ran
  simp only [pure_eq_ok, Except.ok.injEq, Prod.mk.injEq] at result
  obtain ⟨rfl, rfl⟩ := result
  have inRange := (isMapped.inRange 0 positive).lt
  have block : wrap (page * 4096 + arenaSize) = page * 4096 + arenaSize := by
    apply Nat.mod_eq_of_lt
    simp only [arenaSize]
    omega
  have bytes : wrap (divRoundUp (wrap (size + arenaSize)) pgSize * pgSize) =
      divRoundUp (wrap (size + arenaSize)) pgSize * pgSize := by
    apply Nat.mod_eq_of_lt
    simp only [pgSize] at few ⊢
    omega
  refine ⟨_, rfl, ?_⟩
  rw [block, bytes]
  exact arenaPages_zero _

end Large

section Returned

variable {descAddr : DescRef → Nat} {fresh : Words} {s s' : HeapMemory} {book : Book}
  {size block : Nat}

/-- The bytes of the block for a request: all of its pages behind the header, or those of its
size class. -/
def usableBytes (m : Mem) (size : Nat) : Nat :=
  if size > 1024 then divRoundUp (wrap (size + arenaSize)) pgSize * pgSize - arenaSize
  else match findDesc m size with
    | some descIdx => (m.desc (m.ownDesc descIdx)).blockSize
    | none => 0

theorem HeapReady.setLock (ready : HeapReady descAddr book s) (pf : PoolFlags) (plock : Lock) :
    HeapReady descAddr book ⟨s.mem.setLock pf plock, s.word⟩ := by
  have owned := (ready.owned.setLock pf plock pf 0).owned
  cases pf with
  | kernel =>
    refine ⟨owned, ready.places, ready.sizes, fun descIdx => ?_⟩
    have stocked := ready.stocked descIdx
    exact ⟨stocked.linked, stocked.apart, stocked.behind⟩
  | user =>
    refine ⟨owned, ready.places, ready.sizes, fun descIdx => ?_⟩
    have stocked := ready.stocked descIdx
    exact ⟨stocked.linked, stocked.apart, stocked.behind⟩

theorem findDesc_setLock (m : Mem) (pf : PoolFlags) (plock : Lock) :
    findDesc (m.setLock pf plock) size = findDesc m size := by
  cases pf <;> rfl

theorem ownDesc_setLock (m : Mem) (pf : PoolFlags) (plock : Lock) (descIdx : Fin 7) :
    (m.setLock pf plock).ownDesc descIdx = m.ownDesc descIdx := by
  cases pf <;> rfl

theorem HeapReady.sysMallocWords (ready : HeapReady descAddr book s) {result : Option Address}
    (ran : sysMallocWords descAddr fresh s size = .ok (result, s')) :
    result = none ∨ ∃ block, result = some block ∧
      (1024 < size ∧ AllZero s'.word block (usableBytes s.mem size) ∨
        size ≤ 1024 ∧ ¬ AllZero s'.word block (usableBytes s.mem size)) := by
  unfold Memory.sysMallocWords at ran
  dsimp only at ran
  split at ran
  next =>
    simp only [pure_eq_ok, Except.ok.injEq, Prod.mk.injEq] at ran
    exact .inl ran.1.symm
  next =>
    obtain ⟨held, acquired, ran⟩ := except_bind_eq_ok.mp ran
    obtain ⟨plock, -, isHeld⟩ := except_bind_eq_ok.mp acquired
    obtain rfl := Except.ok.inj isHeld
    have readyHeld := ready.setLock s.mem.ownFlags plock
    split at ran
    next large =>
      obtain ⟨block, rfl, zero⟩ := readyHeld.takePages ran
      rw [usableBytes, if_pos large]
      exact .inr ⟨block, rfl, .inl ⟨large, zero⟩⟩
    next small =>
      obtain ⟨block, descIdx, rfl, found, link⟩ := readyHeld.takeSmall ran
      rw [findDesc_setLock] at found
      rw [ownDesc_setLock] at link
      refine .inr ⟨block, rfl, .inr ⟨Nat.le_of_not_lt small, fun zero => ?_⟩⟩
      rw [usableBytes, if_neg small, found] at zero
      dsimp only at zero
      rw [(ready.sizes descIdx).1] at zero
      have first := zero 0 (Nat.lt_of_lt_of_le (by decide) (blockSizeAt_large descIdx))
      rw [Nat.mul_zero, Nat.add_zero, link, listHead] at first
      omega

/-- `sys_malloc` returns a cleared block exactly for requests that get their own pages. -/
theorem returnedBlock_zero_iff (ready : HeapReady descAddr book s)
    (ran : sysMallocWords descAddr fresh s size = .ok (some block, s')) :
    AllZero s'.word block (usableBytes s.mem size) ↔ 1024 < size := by
  rcases ready.sysMallocWords ran with null | ⟨taken, isResult, ⟨large, zero⟩ | ⟨small, notZero⟩⟩
  · cases null
  · obtain rfl := Option.some.inj isResult
    exact iff_of_true zero large
  · obtain rfl := Option.some.inj isResult
    exact iff_of_false notZero (Nat.not_lt.mpr small)

end Returned

/-- `list_init(&desc->free_list)` -/
def listInit (desc : Nat) (word : Words) : Words :=
  (((word.setPrev (listHead desc) 0).setNext (listHead desc) (listTail desc)).setPrev
    (listTail desc) (listHead desc)).setNext (listTail desc) 0

/-- The descriptors of the kernel and of the main thread. -/
def bootDescAddr : DescRef → Nat
  | .kernel descIdx => 0xc0009000 + 24 * descIdx
  | .user _ descIdx => mainThread + 0x80 + 24 * descIdx

/-- The heap of a machine with 32 MB, which the first requests find filled with ones. -/
def bootHeap : HeapMemory where
  mem := boot powerOn 0x2000000
  word := (List.finRange 7).foldl (fun word descIdx =>
    listInit (bootDescAddr (.kernel descIdx)) word) fun _ => 0xffffffff

theorem bootHeap_links : ∀ descIdx : Fin 7,
    bootHeap.word.next (listHead (bootDescAddr (.kernel descIdx))) =
        listTail (bootDescAddr (.kernel descIdx)) ∧
      bootHeap.word.prev (listTail (bootDescAddr (.kernel descIdx))) =
        listHead (bootDescAddr (.kernel descIdx)) := by
  decide +kernel

theorem bootHeap_ready : HeapReady bootDescAddr Book.boot bootHeap where
  owned := boot_owned powerOn 0x2000000
  places := {
    low := by
      rintro (descIdx | ⟨task, descIdx⟩) <;> simp only [bootDescAddr, mainThread] <;> omega
    kernel := by
      intro descIdx
      have bound := descIdx.isLt
      simp only [bootDescAddr, kHeapStart]
      omega }
  sizes descIdx := ⟨rfl, rfl⟩
  stocked descIdx := {
    linked := ⟨(bootHeap_links descIdx).1, (bootHeap_links descIdx).2, trivial⟩
    apart := by
      have ends : NodesApart (listHead (bootDescAddr (.kernel descIdx)))
          (listTail (bootDescAddr (.kernel descIdx))) := .inl (Nat.le_refl _)
      exact List.pairwise_pair.mpr ends
    behind := fun b isBlock => nomatch isBlock }

/-- The main thread asks for a block or for a page right after boot. -/
theorem bootHeap_returns {fresh : Words} (size : UInt32) (isSize : size = 100 ∨ size = 2000) :
    ∃ block s', sysMallocWords bootDescAddr fresh bootHeap size.toNat = .ok (some block, s') := by
  obtain ⟨result, m', ran⟩ := boot_returns size isSize
  have erased := sysMallocWords_mem bootDescAddr fresh bootHeap size.toNat
  have ran : sysMalloc bootHeap.mem size.toNat = .ok (result, m') := ran
  rw [ran] at erased
  cases words : sysMallocWords bootDescAddr fresh bootHeap size.toNat with
  | error reason =>
    rw [words] at erased
    cases erased
  | ok after =>
    obtain ⟨got, s'⟩ := after
    rw [words] at erased
    obtain ⟨rfl, rfl⟩ := Prod.mk.inj (Except.ok.inj erased)
    cases got with
    | some block => exact ⟨block, s', rfl⟩
    | none =>
      have inPool : 0 < size.toNat ∧
          size.toNat < (bootHeap.mem.pool bootHeap.mem.ownFlags).poolSize := by
        rcases isSize with rfl | rfl <;> decide
      exact absurd ran (sysMalloc_ne_null inPool.1 inPool.2)

/-- A block of 128 bytes right after boot has links in it, although its page was clear. -/
theorem firstBlock_notZero : ∃ block s',
    sysMallocWords bootDescAddr (fun _ => 0) bootHeap 100 = .ok (some block, s') ∧
      ¬ AllZero s'.word block (usableBytes bootHeap.mem 100) := by
  obtain ⟨block, s', ran⟩ := bootHeap_returns 100 (.inl rfl)
  rcases bootHeap_ready.sysMallocWords ran with null | ⟨taken, isResult, ⟨large, -⟩ | ⟨-, notZero⟩⟩
  · cases null
  · exact absurd large (by decide)
  · obtain rfl := Option.some.inj isResult
    exact ⟨block, s', ran, notZero⟩

theorem returnedBlock_zero_iff_page : ∃ block s',
    sysMallocWords bootDescAddr (fun _ => 0xffffffff) bootHeap 2000 = .ok (some block, s') ∧
      AllZero s'.word block (usableBytes bootHeap.mem 2000) := by
  obtain ⟨block, s', ran⟩ := bootHeap_returns 2000 (.inr rfl)
  exact ⟨block, s', ran, (returnedBlock_zero_iff bootHeap_ready ran).mpr (by decide)⟩

end HongbaiOS.Memory
