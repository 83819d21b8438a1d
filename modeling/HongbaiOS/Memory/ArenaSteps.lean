import HongbaiOS.Memory.Arenas

/-!
# Steps of the heap

What storing a header or a free list, the loops over the blocks of an arena, and taking a
block do to the chunks of the heap.
-/

namespace HongbaiOS.Memory

open HongbaiOS.Library HongbaiOS.Kernel HongbaiOS.Lib HongbaiOS.Thread

/-- An assertion of `sys_malloc`, `sys_free` or `mfree_page` has failed, or there is no block to
take. -/
inductive HeapAssertion : Halt → Prop
  | sysMalloc : HeapAssertion (.panic .sysMalloc)
  | sysFree : HeapAssertion (.panic .sysFree)
  | listPop : HeapAssertion (.panic .listPop)
  | mfreePage : HeapAssertion (.panic .mfreePage)

theorem heapAssertion_upper : UpperLevel HeapAssertion := by
  rintro _ (_ | _ | _ | _)
  · exact ⟨.sysMalloc, by decide, rfl⟩
  · exact ⟨.sysFree, by decide, rfl⟩
  · exact ⟨.listPop, by decide, rfl⟩
  · exact ⟨.mfreePage, by decide, rfl⟩

section Stores

variable {b : Book} {m m' : Mem} {o : Owner} {ref : DescRef} {page frame : Nat}

/-- Nothing that the page tables, the pools and the ranges consist of has changed. -/
theorem Owned.unseen (owned : Owned b m) (fixed : m'.fixed = m.fixed) (words : m'.words = m.words)
    (pools : m'.pool = m.pool) (pf : PoolFlags) (page : Nat) : Mapped b m pf page 0 b m' := by
  have inPools : m'.InPool = m.InPool := by
    funext pf' phyaddr
    unfold Mem.InPool Mem.frames Mem.start
    rw [pools]
  exact (owned.mark fixed words fun _ _ taken => inPools ▸ taken).mapped_none fixed
    (b.held_of_words words) (fun page' _ => kernelEntry_of_words words page') pf page

theorem Owned.setFreeList (owned : Owned b m) (ref : DescRef) (list : List Address)
    (pf : PoolFlags) (page : Nat) : Mapped b m pf page 0 b (m.setFreeList ref list) := by
  refine owned.unseen (setFreeList_frame m ref list).fixed ?_ ?_ pf page
  · cases ref <;> rfl
  · cases ref <;> rfl

theorem Owned.setArena (owned : Owned b m) (frame : Nat) (ar : Arena) (pf : PoolFlags)
    (page : Nat) : Mapped b m pf page 0 b (m.setArena frame ar) := by
  have fixed : (m.setArena frame ar).fixed = m.fixed := rfl
  have words : (m.setArena frame ar).words = m.words := rfl
  have pools : (m.setArena frame ar).pool = m.pool := rfl
  exact owned.unseen fixed words pools pf page

@[simp]
theorem setFreeList_setFreeList (m : Mem) (ref : DescRef) (list list' : List Address) :
    (m.setFreeList ref list).setFreeList ref list' = m.setFreeList ref list' := by
  cases ref with
  | kernel descIdx => simp [Mem.setFreeList]
  | user t descIdx => simp [Mem.setFreeList, Mem.setTask]

@[simp]
theorem setFreeList_self (m : Mem) (ref : DescRef) :
    m.setFreeList ref (m.desc ref).freeList = m := by
  cases ref with
  | kernel descIdx => simp [Mem.setFreeList, Mem.desc]
  | user t descIdx => simp [Mem.setFreeList, Mem.setTask, Mem.desc]

theorem setFreeList_arena (m : Mem) (ref : DescRef) (list : List Address) :
    (m.setFreeList ref list).arena = m.arena := by
  cases ref <;> rfl

theorem Owned.translate_heap (owned : Owned b m) (isOwner : m.owner = o)
    (holds : b.held m (o.place page) = some (o.flags, frame)) :
    m.translate (page * pgSize) = .ok frame := by
  rw [← isOwner, ← place_owner] at holds
  have inRange := owned.inRange_of_uses (Book.held_eq_some.mp holds).1
  obtain ⟨small, isPage⟩ := inRange.address (by decide : 0 < 4096)
  rw [Nat.add_zero] at small isPage
  exact owned.translate_eq inRange small isPage holds

theorem Owned.page_lt (owned : Owned b m)
    (holds : b.held m (o.place page) = some (o.flags, frame)) : page < 2 ^ 20 := by
  have used := (Book.held_eq_some.mp holds).1
  cases o with
  | kernel =>
      have inRange : InRange .kernel page := owned.inRange page used
      have below := inRange.lt
      omega
  | process t dir =>
      obtain ⟨⟨-, -, high, -⟩, -⟩ := used
      have below : page / 1024 < 768 := high
      omega

theorem Owned.readArena_heap (owned : Owned b m) (isOwner : m.owner = o)
    (holds : b.held m (o.place page) = some (o.flags, frame)) :
    m.readArena (page * pgSize) = .ok (m.arena frame) := by
  rw [Mem.readArena, owned.translate_heap isOwner holds]
  rfl

theorem Owned.writeArena_heap (owned : Owned b m) (isOwner : m.owner = o)
    (holds : b.held m (o.place page) = some (o.flags, frame)) (ar : Arena) :
    m.writeArena (page * pgSize) ar = .ok (m.setArena frame ar) := by
  rw [Mem.writeArena, owned.translate_heap isOwner holds]
  rfl

end Stores

section Loops

variable {m : Mem} {ref : DescRef} {descIdx : Fin 7} {page left start : Nat}

theorem arena2block_eq {k : Nat} (isSize : (m.desc ref).blockSize = blockSizeAt descIdx)
    (small : page < 2 ^ 20) (inside : k < blocksPer descIdx) :
    arena2block m ref (page * pgSize) k = blockAt descIdx page k := by
  have isInside : page * pgSize + arenaSize ≤ blockAt descIdx page k ∧
      blockAt descIdx page k + blockSizeAt descIdx ≤ page * pgSize + pgSize :=
    blockAt_inside inside
  have large := blockSizeAt_large descIdx
  rw [arena2block, isSize]
  apply Nat.mod_eq_of_lt
  change blockAt descIdx page k < 2 ^ 32
  simp only [pgSize] at isInside
  omega

/-- The blocks of a range of indices. -/
def blocksFrom (descIdx : Fin 7) (page start left : Nat) : List Nat :=
  (List.range' start left).map (blockAt descIdx page)

theorem blocksFrom_all (descIdx : Fin 7) (page : Nat) :
    blocksFrom descIdx page 0 (blocksPer descIdx) = blocksOf descIdx page := by
  rw [blocksFrom, blocksOf, List.range_eq_range']

theorem blocksFrom_succ (descIdx : Fin 7) (page start left : Nat) :
    blocksFrom descIdx page start (left + 1) =
      blockAt descIdx page start :: blocksFrom descIdx page (start + 1) left := rfl

theorem mem_blocksFrom {x : Nat} : x ∈ blocksFrom descIdx page start left ↔
    ∃ k, start ≤ k ∧ k < start + left ∧ x = blockAt descIdx page k := by
  simp [blocksFrom, List.mem_range'_1, and_assoc, eq_comm]

theorem appendBlocks_eq (isSize : (m.desc ref).blockSize = blockSizeAt descIdx)
    (small : page < 2 ^ 20) (inside : start + left ≤ blocksPer descIdx)
    (fresh : ∀ x ∈ blocksFrom descIdx page start left, x ∉ (m.desc ref).freeList) :
    appendBlocks ref (page * pgSize) left start m =
      .ok (m.setFreeList ref
        ((m.desc ref).freeList ++ blocksFrom descIdx page start left)) := by
  induction left generalizing start m with
  | zero =>
      rw [blocksFrom, List.range'_zero, List.map_nil, List.append_nil, setFreeList_self]
      rfl
  | succ left inductionHypothesis =>
      have isBlock := arena2block_eq isSize small (k := start) (by omega)
      rw [blocksFrom_succ] at fresh ⊢
      have notFree := fresh _ List.mem_cons_self
      have desc := Mem.desc_setFreeList m ref
        ((m.desc ref).freeList ++ [blockAt descIdx page start]) ref
      rw [if_pos rfl] at desc
      rw [appendBlocks, isBlock, decide_eq_true notFree, check_true, ok_bind,
        inductionHypothesis ?_ (by omega) ?_, desc, setFreeList_setFreeList]
      · simp
      · rw [desc]
        exact isSize
      · intro x isLater isFree
        rw [desc] at isFree
        rcases List.mem_append.mp isFree with old | isFirst
        · exact fresh x (List.mem_cons_of_mem _ isLater) old
        · obtain ⟨k, later, -, rfl⟩ := mem_blocksFrom.mp isLater
          have same := blockAt_inj (List.mem_singleton.mp isFirst)
          omega

theorem removeBlocks_eq (isSize : (m.desc ref).blockSize = blockSizeAt descIdx)
    (small : page < 2 ^ 20) (inside : start + left ≤ blocksPer descIdx)
    (free : ∀ x ∈ blocksFrom descIdx page start left, x ∈ (m.desc ref).freeList) :
    removeBlocks ref (page * pgSize) left start m =
      .ok (m.setFreeList ref
        ((m.desc ref).freeList.diff (blocksFrom descIdx page start left))) := by
  induction left generalizing start m with
  | zero =>
      rw [blocksFrom, List.range'_zero, List.map_nil, List.diff_nil, setFreeList_self]
      rfl
  | succ left inductionHypothesis =>
      have isBlock := arena2block_eq isSize small (k := start) (by omega)
      rw [blocksFrom_succ] at free ⊢
      have isFree := free _ List.mem_cons_self
      have desc := Mem.desc_setFreeList m ref
        ((m.desc ref).freeList.erase (blockAt descIdx page start)) ref
      rw [if_pos rfl] at desc
      rw [removeBlocks, isBlock, decide_eq_true isFree, check_true, ok_bind,
        inductionHypothesis ?_ (by omega) ?_, desc, setFreeList_setFreeList, List.diff_cons]
      · rw [desc]
        exact isSize
      · intro x isLater
        rw [desc]
        refine (List.mem_erase_of_ne ?_).mpr (free x (List.mem_cons_of_mem _ isLater))
        obtain ⟨k, later, -, rfl⟩ := mem_blocksFrom.mp isLater
        intro same
        have sameIdx := blockAt_inj same
        omega

end Loops

section Chunks

variable {b b' : Book} {m m' : Mem} {o : Owner} {chunks : Nat → Option Chunk} {page frame cnt : Nat}
  {descIdx : Fin 7}

theorem Arenas.plain (arenas : Arenas b m o chunks) (owned : Owned b m) (isOwner : m.owner = o)
    {c : Chunk} (isChunk : chunks page = some c) : b.Plain m o.flags page c.pageCnt := by
  subst isOwner
  intro i inside
  obtain ⟨frame, holds, notDir⟩ := arenas.held page c isChunk i inside
  rw [← place_owner] at holds
  exact ⟨owned.inRange_of_uses (Book.held_eq_some.mp holds).1, frame, holds, notDir⟩

theorem Arenas.first (arenas : Arenas b m o chunks) {c : Chunk} (isChunk : chunks page = some c) :
    ∃ frame, b.held m (o.place page) = some (o.flags, frame) ∧ frame ∉ b.dirs :=
  arenas.held page c isChunk 0 (arenas.pageCnt_pos isChunk)

theorem Owned.place_inj (owned : Owned b m) {p q : Place} {pf pf' : PoolFlags}
    (holds : b.held m p = some (pf, frame)) (holds' : b.held m q = some (pf', frame)) : p = q := by
  have inPool : m.InPool pf frame := owned.owns.taken p _ holds
  have inPool' : m.InPool pf' frame := owned.owns.taken q _ holds'
  obtain rfl := inPool.pool_eq inPool' owned.layout
  exact owned.owns.once _ _ _ holds holds'

theorem headerAt_setArena (owned : Owned b m) {ar : Arena}
    (holds : b.held m (o.place page) = some (o.flags, frame)) {page' frame' : Nat}
    (holds' : b.held m (o.place page') = some (o.flags, frame')) :
    (m.setArena frame ar).headerAt o page' = if page' = page then ar else m.headerAt o page' := by
  have kept : b.held (m.setArena frame ar) (o.place page') = some (o.flags, frame') := holds'
  rw [headerAt_eq kept, headerAt_eq holds']
  split
  next same =>
    subst same
    obtain rfl : frame' = frame := (Prod.mk.inj (Option.some.inj (holds'.symm.trans holds))).2
    exact Function.update_self _ _ _
  next other =>
    refine Function.update_of_ne (fun same => other ?_) _ _
    subst same
    exact Owner.place_inj (owned.place_inj holds' holds)

theorem setFreeList_setArena (m : Mem) (ref : DescRef) (list : List Address) (frame : Nat)
    (ar : Arena) :
    (m.setArena frame ar).setFreeList ref list = (m.setFreeList ref list).setArena frame ar := by
  cases ref <;> rfl

theorem setFreeList_words (m : Mem) (ref : DescRef) (list : List Address) :
    (m.setFreeList ref list).words = m.words := by
  cases ref <;> rfl

@[simp]
theorem desc_setArena (m : Mem) (frame : Nat) (ar : Arena) :
    (m.setArena frame ar).desc = m.desc := by
  funext ref
  cases ref <;> rfl

theorem headerAt_setFreeList (m : Mem) (ref : DescRef) (list : List Address) (o : Owner)
    (page : Nat) : (m.setFreeList ref list).headerAt o page = m.headerAt o page := by
  have entry : (m.setFreeList ref list).entry (o.place page) = m.entry (o.place page) := by
    cases o <;> simp only [Owner.place, Mem.entry, setFreeList_words]
  rw [Mem.headerAt, entry, setFreeList_arena]
  rfl

theorem Arenas.restock (arenas : Arenas b m o chunks) (owned : Owned b m)
    (isArena : chunks page = some (.arena descIdx))
    (holds : b.held m (o.place page) = some (o.flags, frame)) {list : List Nat} {cnt : UInt32}
    (slabs : Slabs (· / pgSize) (blocksOf descIdx) {page | chunks page = some (.arena descIdx)}
      list fun page' => if page' = page then cnt.toNat else (m.headerAt o page').cnt.toNat) :
    Arenas b ((m.setFreeList (o.desc descIdx) list).setArena frame
      ⟨some (o.desc descIdx), false, cnt⟩) o chunks := by
  have listed := owned.setFreeList (o.desc descIdx) list .kernel 0
  generalize isNext : (m.setFreeList (o.desc descIdx) list).setArena frame
    ⟨some (o.desc descIdx), false, cnt⟩ = m'
  have words : m'.words = m.words := by
    rw [← isNext]
    exact setFreeList_words m _ list
  have held : b.held m' = b.held m := b.held_of_words words
  have header : ∀ page' c, chunks page' = some c → m'.headerAt o page' =
      if page' = page then ⟨some (o.desc descIdx), false, cnt⟩ else m.headerAt o page' := by
    intro page' c isChunk
    obtain ⟨frame', holds', -⟩ := arenas.first isChunk
    rw [← isNext, headerAt_setArena listed.owned (listed.keeps _ _ holds) (listed.keeps _ _ holds'),
      headerAt_setFreeList]
  have desc : ∀ descIdx', m'.desc (o.desc descIdx') =
      if descIdx' = descIdx then { m.desc (o.desc descIdx) with freeList := list }
      else m.desc (o.desc descIdx') := by
    intro descIdx'
    rw [← isNext, desc_setArena, Mem.desc_setFreeList]
    exact if_congr ⟨Owner.desc_inj, congrArg o.desc⟩ rfl rfl
  refine ⟨?_, arenas.apart, ?_, ?_, ?_, ?_⟩
  · rw [held]
    exact arenas.held
  · intro page' descIdx' isChunk
    rw [header page' _ isChunk]
    split
    next same =>
      subst same
      obtain rfl := Chunk.arena.inj (Option.some.inj (isChunk.symm.trans isArena))
      exact ⟨rfl, rfl⟩
    next => exact arenas.arena page' descIdx' isChunk
  · intro page' cnt' isChunk
    have other : page' ≠ page := by
      rintro rfl
      cases isChunk.symm.trans isArena
    rw [header page' _ isChunk, if_neg other]
    exact arenas.pages page' cnt' isChunk
  · intro descIdx'
    rw [desc]
    split
    next same =>
      subst same
      refine slabs.congr fun page' isChunk => ?_
      rw [header page' _ isChunk]
      split <;> rfl
    next other =>
      refine (arenas.slabs descIdx').congr fun page' isChunk => ?_
      have notHere : page' ≠ page := by
        rintro rfl
        exact other (Chunk.arena.inj (Option.some.inj (isChunk.symm.trans isArena)))
      rw [header page' _ isChunk, if_neg notHere]
  · intro descIdx'
    rw [desc]
    split
    next same =>
      subst same
      exact arenas.sizes descIdx'
    next => exact arenas.sizes descIdx'

def Mem.freeLists (m : Mem) (o : Owner) (descIdx : Fin 7) : List Address :=
  (m.desc (o.desc descIdx)).freeList

theorem freeLists_setFreeList (m : Mem) (o : Owner) (descIdx : Fin 7) (list : List Address) :
    (m.setFreeList (o.desc descIdx) list).freeLists o =
      Function.update (m.freeLists o) descIdx list := by
  funext descIdx'
  rw [Mem.freeLists, Mem.desc_setFreeList]
  by_cases same : descIdx' = descIdx
  · subst same
    rw [if_pos rfl, Function.update_self]
  · rw [if_neg fun sameRef => same (Owner.desc_inj sameRef), Function.update_of_ne same]
    rfl

theorem freeLists_setArena (m : Mem) (o : Owner) (frame : Nat) (ar : Arena) :
    (m.setArena frame ar).freeLists o = m.freeLists o := by
  funext descIdx
  rw [Mem.freeLists, desc_setArena]
  rfl

theorem freeLists_congr (desc : m'.desc = m.desc) (o : Owner) : m'.freeLists o = m.freeLists o := by
  funext descIdx
  rw [Mem.freeLists, desc]
  rfl

def Owner.Covers (o : Owner) (chunks : Nat → Option Chunk) (p : Place) : Prop :=
  ∃ page c, chunks page = some c ∧ ∃ i < c.pageCnt, p = o.place (page + i)

/-- What is not part of a heap stays as it is, and does not become part of it. -/
structure KeepsOthers (b : Book) (m : Mem) (o : Owner) (chunks : Nat → Option Chunk) (b' : Book)
    (m' : Mem) (chunks' : Nat → Option Chunk) : Prop where
  dirs : b'.dirs = b.dirs
  held : ∀ p r, b.held m p = some r → ¬ o.Covers chunks p →
    b'.held m' p = some r ∧ m'.arena r.2 = m.arena r.2 ∧ ¬ o.Covers chunks' p
  desc : ∀ ref, (∀ descIdx, ref ≠ o.desc descIdx) → m'.desc ref = m.desc ref

theorem KeepsOthers.trans {b'' : Book} {m'' : Mem} {chunks' chunks'' : Nat → Option Chunk}
    (first : KeepsOthers b m o chunks b' m' chunks')
    (second : KeepsOthers b' m' o chunks' b'' m'' chunks'') :
    KeepsOthers b m o chunks b'' m'' chunks'' := by
  refine ⟨second.dirs.trans first.dirs, fun p r holds outside => ?_, fun ref other => ?_⟩
  · obtain ⟨holds', same, outside'⟩ := first.held p r holds outside
    obtain ⟨holds'', same', outside''⟩ := second.held p r holds' outside'
    exact ⟨holds'', same'.trans same, outside''⟩
  · exact (second.desc ref other).trans (first.desc ref other)

/-- Only the header of a chunk and a free list of the heap are written. -/
theorem KeepsOthers.write (owned : Owned b m)
    (holds : b.held m (o.place page) = some (o.flags, frame)) {c : Chunk}
    (isChunk : chunks page = some c) (positive : 0 < c.pageCnt) (words : m'.words = m.words)
    (arena : ∀ frame', frame' ≠ frame → m'.arena frame' = m.arena frame')
    (desc : ∀ ref, (∀ descIdx, ref ≠ o.desc descIdx) → m'.desc ref = m.desc ref) :
    KeepsOthers b m o chunks b m' chunks := by
  refine ⟨rfl, fun p r holds' outside => ⟨?_, arena _ fun same => outside ?_, outside⟩, desc⟩
  · rw [b.held_of_words words, holds']
  · obtain ⟨pf, frame'⟩ := r
    obtain rfl : frame' = frame := same
    exact ⟨page, c, isChunk, 0, positive, owned.place_inj holds' holds⟩

theorem desc_setFreeList_of_ne {ref ref' : DescRef} (other : ref' ≠ ref) (m : Mem)
    (list : List Address) : (m.setFreeList ref list).desc ref' = m.desc ref' := by
  rw [Mem.desc_setFreeList, if_neg other]

/-- The chunks and the free lists that a call of the heap leaves. -/
structure HeapChange (b : Book) (m : Mem) (o : Owner) (chunks : Nat → Option Chunk) (b' : Book)
    (m' : Mem) (chunks' : Nat → Option Chunk) (lists : Fin 7 → List Nat) : Prop where
  owned : Owned b' m'
  arenas : Arenas b' m' o chunks'
  fixed : m'.fixed = m.fixed
  lists : m'.freeLists o = lists
  others : KeepsOthers b m o chunks b' m' chunks'

theorem Arenas.free_block (arenas : Arenas b m o chunks) {x : Nat}
    (isFree : x ∈ m.freeLists o descIdx) : chunks (x / pgSize) = some (.arena descIdx) ∧
      x ∈ blocksOf descIdx (x / pgSize) :=
  (arenas.slabs descIdx).belongs x isFree

theorem Arenas.popBlock (arenas : Arenas b m o chunks) (owned : Owned b m) (isOwner : m.owner = o)
    {x : Nat} (ran : Memory.popBlock m (o.desc descIdx) = .ok (x, m')) :
    ∃ rest, m.freeLists o descIdx = x :: rest ∧
      HeapChange b m o chunks b m' chunks (Function.update (m.freeLists o) descIdx rest) := by
  have fixed := (popBlock_frame ran).fixed
  obtain ⟨rest, ar, list, read, write⟩ := popBlock_eq_ok ran
  have first : x ∈ m.freeLists o descIdx := by
    rw [Mem.freeLists, list]
    exact List.mem_cons_self
  obtain ⟨isArena, -⟩ := arenas.free_block first
  obtain ⟨phyaddr, holds, notDir⟩ := arenas.first isArena
  have listed := owned.setFreeList (o.desc descIdx) rest .kernel 0
  have sameOwner := (owner_congr listed.fixed).trans isOwner
  have holds' := listed.keeps _ _ holds
  have header := arenas.arena _ _ isArena
  rw [headerAt_eq holds] at header
  change (m.setFreeList (o.desc descIdx) rest).readArena (x / pgSize * pgSize) = _ at read
  change (m.setFreeList (o.desc descIdx) rest).writeArena (x / pgSize * pgSize) _ = _ at write
  rw [listed.owned.readArena_heap sameOwner holds', setFreeList_arena] at read
  rw [listed.owned.writeArena_heap sameOwner holds'] at write
  obtain rfl := Except.ok.inj read
  obtain rfl := Except.ok.inj write
  rw [header.1, header.2] at fixed ⊢
  have slabs := arenas.slabs descIdx
  rw [list] at slabs
  have counted := slabs.counted _ isArena
  rw [List.countP_cons, if_pos (by simp), headerAt_eq holds] at counted
  refine ⟨rest, list, ?_, ?_, fixed, ?_, ?_⟩
  · exact (listed.owned.setArena phyaddr _ .kernel 0).owned
  · refine arenas.restock owned isArena holds (slabs.pop fun page' isSlab => ?_)
    split
    next same =>
      subst same
      rw [headerAt_eq holds, UInt32.toNat_sub_of_le _ _ (UInt32.le_iff_toNat_le.mpr ?_)]
      · simp only [UInt32.reduceToNat]
        omega
      · simp only [UInt32.reduceToNat]
        omega
    next => rfl
  · rw [freeLists_setArena, freeLists_setFreeList]
  · refine KeepsOthers.write owned holds isArena Nat.one_pos ?_ (fun frame' other => ?_)
      fun ref other => ?_
    · exact setFreeList_words m _ rest
    · refine (Function.update_of_ne other _ _).trans ?_
      rw [setFreeList_arena]
    · rw [desc_setArena]
      exact desc_setFreeList_of_ne (other descIdx) m rest

theorem desc_setLock (m : Mem) (pf : PoolFlags) (plock : Lock) :
    (m.setLock pf plock).desc = m.desc := by
  funext ref
  cases pf <;> cases ref <;> rfl

theorem Arenas.setLock (arenas : Arenas b m o chunks) (owned : Owned b m) (pf : PoolFlags)
    (plock : Lock) :
    HeapChange b m o chunks b (m.setLock pf plock) chunks (m.freeLists o) := by
  have locked := owned.setLock pf plock .kernel 0
  have desc := desc_setLock m pf plock
  refine ⟨locked.owned, ?_, locked.fixed, freeLists_congr desc o, rfl, ?_, ?_⟩
  · refine arenas.congr (fun _ _ _ _ _ frame holds notDir =>
      ⟨locked.keeps _ _ holds, ?_, notDir⟩) fun descIdx => ?_
    · rw [setLock_arena]
    · rw [desc]
  · intro p r holds outside
    exact ⟨locked.keeps p r holds, by rw [setLock_arena], outside⟩
  · intro ref _
    rw [desc]

theorem HeapChange.trans {b'' : Book} {m'' : Mem} {chunks' chunks'' : Nat → Option Chunk}
    {lists lists' : Fin 7 → List Nat} (first : HeapChange b m o chunks b' m' chunks' lists)
    (second : HeapChange b' m' o chunks' b'' m'' chunks'' lists') :
    HeapChange b m o chunks b'' m'' chunks'' lists' :=
  ⟨second.owned, second.arenas, second.fixed.trans first.fixed, second.lists,
    first.others.trans second.others⟩

theorem Arenas.acquirePool (arenas : Arenas b m o chunks) (owned : Owned b m) {pf : PoolFlags}
    (ran : Memory.acquirePool m pf = .ok m') :
    HeapChange b m o chunks b m' chunks (m.freeLists o) := by
  obtain ⟨plock, -, result⟩ := except_bind_eq_ok.mp ran
  rw [← Except.ok.inj result]
  exact arenas.setLock owned pf plock

theorem Arenas.releasePool (arenas : Arenas b m o chunks) (owned : Owned b m) {pf : PoolFlags}
    (ran : Memory.releasePool m pf = .ok m') :
    HeapChange b m o chunks b m' chunks (m.freeLists o) := by
  obtain ⟨plock, -, result⟩ := except_bind_eq_ok.mp ran
  rw [← Except.ok.inj result]
  exact arenas.setLock owned pf plock

end Chunks

end HongbaiOS.Memory
