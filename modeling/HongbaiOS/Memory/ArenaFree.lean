import HongbaiOS.Memory.PageReturns

/-!
# Chunks that are taken away

What a returning `sys_free` does to a heap: a block goes back to its free list, and the pages
of a chunk without blocks in use are given back.
-/

namespace HongbaiOS.Memory

open HongbaiOS.Library HongbaiOS.Kernel HongbaiOS.Lib HongbaiOS.Thread

section Removal

variable {b b' : Book} {m m' m'' : Mem} {o : Owner} {chunks : Nat → Option Chunk}
  {page frame cnt : Nat} {descIdx : Fin 7} {pf : PoolFlags}

/-- Pages are given back after something else than the page tables has changed. -/
theorem Unmapped.from (unmapped : Unmapped b m' pf page cnt b' m'') (fixed : m'.fixed = m.fixed)
    (words : m'.words = m.words) : Unmapped b m pf page cnt b' m'' := by
  have place := place_congr fixed pf
  refine ⟨unmapped.owned, unmapped.dirs, unmapped.fixed.trans fixed, ?_, ?_, ?_⟩
  · intro page' inRange other
    rw [unmapped.kernelEntry page' inRange fun i inside => (place (page + i)).symm ▸ other i inside,
      kernelEntry_of_words words]
  · intro i inside
    rw [← place]
    exact unmapped.gone i inside
  · intro p other
    rw [unmapped.others p fun i inside => (place (page + i)).symm ▸ other i inside,
      b.held_of_words words]

theorem arenas_update_none (chunks : Nat → Option Chunk) (page : Nat) (c : Chunk) :
    {page' | Function.update chunks page none page' = some c} =
      {page' | chunks page' = some c} \ {page} := by
  ext page'
  by_cases same : page' = page
  · simp [same]
  · simp [same]

theorem Arenas.remove (arenas : Arenas b m o chunks) (isOwner : m.owner = o) {c : Chunk}
    (isChunk : chunks page = some c) (unmapped : Unmapped b m o.flags page c.pageCnt b' m')
    (sameArena : m'.arena = m.arena)
    (slabs : ∀ descIdx, Slabs (· / pgSize) (blocksOf descIdx)
      {page' | Function.update chunks page none page' = some (.arena descIdx)}
      (m'.freeLists o descIdx) fun page' => (m.headerAt o page').cnt.toNat) :
    Arenas b' m' o (Function.update chunks page none) := by
  subst isOwner
  have old : ∀ {page' c'}, Function.update chunks page none page' = some c' →
      page' ≠ page ∧ chunks page' = some c' := by
    intro page' c' isChunk'
    by_cases same : page' = page
    · subst same
      rw [Function.update_self] at isChunk'
      cases isChunk'
    · rw [Function.update_of_ne same] at isChunk'
      exact ⟨same, isChunk'⟩
  have kept : ∀ page' c', Function.update chunks page none page' = some c' → ∀ i < c'.pageCnt,
      b'.held m' (m.owner.place (page' + i)) = b.held m (m.owner.place (page' + i)) := by
    intro page' c' isChunk' i inside
    obtain ⟨different, was⟩ := old isChunk'
    refine unmapped.others _ fun j inside' same => ?_
    rw [place_owner] at same
    have samePage := Owner.place_inj same
    rcases Nat.le_total page page' with below | above
    · exact different (arenas.apart page c page' c' isChunk was below (by omega))
    · exact different (arenas.apart page' c' page c was isChunk above (by omega)).symm
  have headers : ∀ page' c', Function.update chunks page none page' = some c' →
      m'.headerAt m.owner page' = m.headerAt m.owner page' := by
    intro page' c' isChunk'
    obtain ⟨-, was⟩ := old isChunk'
    obtain ⟨frame, holds, -⟩ := arenas.first was
    have holds' := kept page' c' isChunk' 0 (arenas.pageCnt_pos was)
    rw [Nat.add_zero, holds] at holds'
    rw [headerAt_eq holds', headerAt_eq holds, sameArena]
  refine ⟨?_, ?_, ?_, ?_, fun descIdx => ?_, ?_⟩
  · intro page' c' isChunk' i inside
    rw [kept page' c' isChunk' i inside, unmapped.dirs]
    exact arenas.held page' c' (old isChunk').2 i inside
  · intro page₁ c₁ page₂ c₂ isChunk₁ isChunk₂
    exact arenas.apart page₁ c₁ page₂ c₂ (old isChunk₁).2 (old isChunk₂).2
  · intro page' descIdx isArena
    rw [headers page' _ isArena]
    exact arenas.arena page' descIdx (old isArena).2
  · intro page' cnt isPages
    rw [headers page' _ isPages]
    exact arenas.pages page' cnt (old isPages).2
  · exact (slabs descIdx).congr
      fun page' isArena => congrArg (fun ar => ar.cnt.toNat) (headers page' _ isArena)
  · intro descIdx
    have size := congrFun (congrArg Fixed.blockSize unmapped.fixed) (m.owner.desc descIdx)
    have perArena := congrFun (congrArg Fixed.blockPerArena unmapped.fixed) (m.owner.desc descIdx)
    simp only [Mem.fixed] at size perArena
    rw [size, perArena]
    exact arenas.sizes descIdx

/-- Only pages of the chunk leave the book. -/
theorem Unmapped.others_kept {c : Chunk} (unmapped : Unmapped b m o.flags page c.pageCnt b' m')
    (isOwner : m.owner = o) (isChunk : chunks page = some c) (sameArena : m'.arena = m.arena)
    (desc : ∀ ref, (∀ descIdx, ref ≠ o.desc descIdx) → m'.desc ref = m.desc ref) :
    KeepsOthers b m o chunks b' m' (Function.update chunks page none) := by
  subst isOwner
  refine ⟨unmapped.dirs, fun p r holds outside => ⟨?_, congrFun sameArena _, ?_⟩, desc⟩
  · rw [unmapped.others, holds]
    intro i inside same
    rw [place_owner] at same
    exact outside ⟨page, c, isChunk, i, inside, same⟩
  · rintro ⟨page', c', isChunk', i, inside, isPlace⟩
    by_cases same : page' = page
    · subst same
      rw [Function.update_self] at isChunk'
      cases isChunk'
    · rw [Function.update_of_ne same] at isChunk'
      exact outside ⟨page', c', isChunk', i, inside, isPlace⟩

/-- What a returning call of the branch for a small block has done. -/
theorem freeBlock_eq_ok {ref : DescRef} {a x : Address} (ran : freeBlock m ref a x = .ok m') :
    ∃ ar counted, (m.setFreeList ref ((m.desc ref).freeList ++ [x])).readArena a = .ok ar ∧
      (m.setFreeList ref ((m.desc ref).freeList ++ [x])).writeArena a
        { ar with cnt := ar.cnt + 1 } = .ok counted ∧
      ((ar.cnt + 1).toNat ≠ (counted.desc ref).blockPerArena ∧ m' = counted ∨
        (ar.cnt + 1).toNat = (counted.desc ref).blockPerArena ∧ ∃ emptied,
          removeBlocks ref a (counted.desc ref).blockPerArena 0 counted = .ok emptied ∧
          mfreePage emptied emptied.ownFlags a 1 = .ok m') := by
  obtain ⟨ar, read, ran⟩ := except_bind_eq_ok.mp ran
  obtain ⟨counted, write, ran⟩ := except_bind_eq_ok.mp ran
  refine ⟨ar, counted, read, write, ?_⟩
  dsimp only at ran
  split at ran
  next isFull =>
    obtain ⟨emptied, remove, freed⟩ := except_bind_eq_ok.mp ran
    exact .inr ⟨isFull, emptied, remove, freed⟩
  next notFull => exact .inl ⟨notFull, (Except.ok.inj ran).symm⟩

theorem Arenas.countBlock (arenas : Arenas b m o chunks) (owned : Owned b m) (isOwner : m.owner = o)
    {x : Nat} (isArena : chunks page = some (.arena descIdx)) (isBlock : x ∈ blocksOf descIdx page)
    (taken : x ∉ m.freeLists o descIdx) {ar : Arena}
    (read : (m.setFreeList (o.desc descIdx) (m.freeLists o descIdx ++ [x])).readArena
      (page * pgSize) = .ok ar)
    (write : (m.setFreeList (o.desc descIdx) (m.freeLists o descIdx ++ [x])).writeArena
      (page * pgSize) { ar with cnt := ar.cnt + 1 } = .ok m') :
    SamePages m m' ∧ HeapChange b m o chunks b m' chunks
        (Function.update (m.freeLists o) descIdx (m.freeLists o descIdx ++ [x])) ∧
      ((ar.cnt + 1).toNat = blocksPer descIdx ↔
        ∀ y ∈ blocksOf descIdx page, y ∈ m.freeLists o descIdx ++ [x]) := by
  have cut := cut_blocksOf descIdx
  obtain ⟨phyaddr, holds, -⟩ := arenas.first isArena
  have listed := owned.setFreeList (o.desc descIdx) (m.freeLists o descIdx ++ [x]) .kernel 0
  have sameOwner := (owner_congr listed.fixed).trans isOwner
  have holds' := listed.keeps _ _ holds
  have header := arenas.arena _ _ isArena
  rw [headerAt_eq holds] at header
  rw [listed.owned.readArena_heap sameOwner holds', setFreeList_arena] at read
  rw [listed.owned.writeArena_heap sameOwner holds'] at write
  obtain rfl := Except.ok.inj read
  rw [header.1, header.2] at write
  have pushed : Slabs (· / pgSize) (blocksOf descIdx)
      {page | chunks page = some (.arena descIdx)} (m.freeLists o descIdx ++ [x])
      fun page' => (m.headerAt o page').cnt.toNat + if page' = page then 1 else 0 :=
    (arenas.slabs descIdx).push cut isArena isBlock taken fun _ _ => rfl
  have count := pushed.count_le isArena
  have full := pushed.full_iff cut isArena
  simp only [if_true, length_blocksOf, headerAt_eq holds] at count full
  have bound := (blocksPer_pos descIdx).2
  have next : ((m.arena phyaddr).cnt + 1).toNat = (m.arena phyaddr).cnt.toNat + 1 := by
    rw [UInt32.toNat_add]
    exact Nat.mod_eq_of_lt (by simp only [UInt32.reduceToNat]; omega)
  rw [next]
  refine ⟨?_, ⟨?_, ?_, ?_, ?_, ?_⟩, full⟩
  · rw [← Except.ok.inj write]
    exact (SamePages.setFreeList m _ _).trans (.setArena _ _ _)
  · rw [← Except.ok.inj write]
    exact (listed.owned.setArena phyaddr _ .kernel 0).owned
  · rw [← Except.ok.inj write]
    refine arenas.restock owned isArena holds (pushed.congr fun page' _ => ?_)
    split
    next same =>
      subst same
      rw [headerAt_eq holds, next]
    next => rfl
  · rw [← Except.ok.inj write]
    exact listed.fixed
  · rw [← Except.ok.inj write, freeLists_setArena, freeLists_setFreeList]
  · rw [← Except.ok.inj write]
    refine KeepsOthers.write owned holds isArena Nat.one_pos ?_ (fun frame' other => ?_)
      fun ref other => ?_
    · exact setFreeList_words m _ _
    · refine (Function.update_of_ne other _ _).trans ?_
      rw [setFreeList_arena]
    · rw [desc_setArena]
      exact desc_setFreeList_of_ne (other descIdx) m _

theorem Arenas.giveUp (arenas : Arenas b m o chunks) (owned : Owned b m) (isOwner : m.owner = o)
    (isArena : chunks page = some (.arena descIdx))
    (all : ∀ y ∈ blocksOf descIdx page, y ∈ m.freeLists o descIdx) {emptied : Mem}
    (remove : removeBlocks (o.desc descIdx) (page * pgSize) (blocksPer descIdx) 0 m = .ok emptied)
    (freed : mfreePage emptied emptied.ownFlags (page * pgSize) 1 = .ok m') :
    SamePages m emptied ∧ emptied.ownFlags = o.flags ∧ ∃ b',
      HeapChange b m o chunks b' m' (Function.update chunks page none)
        (Function.update (m.freeLists o) descIdx
          ((m.freeLists o descIdx).diff (blocksOf descIdx page))) := by
  obtain ⟨phyaddr, holds, -⟩ := arenas.first isArena
  have size := (arenas.sizes descIdx).1
  rw [removeBlocks_eq size (owned.page_lt holds) (Nat.zero_add _).le
    (by rw [blocksFrom_all]; exact all), blocksFrom_all] at remove
  generalize isList : (m.desc (o.desc descIdx)).freeList.diff (blocksOf descIdx page) = list
    at remove
  obtain rfl := Except.ok.inj remove
  have samePages := SamePages.setFreeList m (o.desc descIdx) list
  have unlisted := owned.setFreeList (o.desc descIdx) list o.flags page
  have isFlags : (m.setFreeList (o.desc descIdx) list).ownFlags = o.flags :=
    (ownFlags_eq _).trans (congrArg Owner.flags ((owner_congr unlisted.fixed).trans isOwner))
  refine ⟨samePages, isFlags, ?_⟩
  rw [isFlags] at freed
  have plain := (arenas.plain owned isOwner isArena).congr unlisted
  obtain ⟨b', unmapped⟩ := unlisted.owned.mfreePage plain freed
  have unmapped' := unmapped.from samePages.fixed samePages.words
  have lists : m'.freeLists o = Function.update (m.freeLists o) descIdx list := by
    rw [freeLists_congr (mfreePage_frame freed).desc, freeLists_setFreeList]
  have sameArena : m'.arena = m.arena :=
    (mfreePage_arena freed).trans (setFreeList_arena m (o.desc descIdx) list)
  refine ⟨b', unmapped'.owned, ?_, unmapped'.fixed, ?_, ?_⟩
  · refine arenas.remove isOwner isArena unmapped' sameArena fun descIdx' => ?_
    rw [lists]
    by_cases same : descIdx' = descIdx
    · subst same
      have removed := (arenas.slabs descIdx').remove (cut_blocksOf descIdx') page
      rw [Function.update_self, ← isList, arenas_update_none]
      exact removed
    · have elsewhere : page ∉ {page' | chunks page' = some (.arena descIdx')} := by
        intro alsoArena
        exact same (Chunk.arena.inj (Option.some.inj (alsoArena.symm.trans isArena)))
      rw [Function.update_of_ne same, arenas_update_none, Set.sdiff_singleton_eq_self elsewhere]
      exact arenas.slabs descIdx'
  · rw [lists, ← isList]
    rfl
  · refine unmapped'.others_kept isOwner isArena sameArena fun ref other => ?_
    rw [(mfreePage_frame freed).desc]
    exact desc_setFreeList_of_ne (other descIdx) m list

/-- `sys_free` of a small block: the arena stays if another block of it is in use, and else
its page is given back. -/
theorem Arenas.freeBlock (arenas : Arenas b m o chunks) (owned : Owned b m) (isOwner : m.owner = o)
    {x : Nat} (isArena : chunks page = some (.arena descIdx)) (isBlock : x ∈ blocksOf descIdx page)
    (taken : x ∉ m.freeLists o descIdx)
    (ran : Memory.freeBlock m (o.desc descIdx) (page * pgSize) x = .ok m') :
    (¬ ∀ y ∈ blocksOf descIdx page, y ∈ m.freeLists o descIdx ++ [x]) ∧ SamePages m m' ∧
        HeapChange b m o chunks b m' chunks
          (Function.update (m.freeLists o) descIdx (m.freeLists o descIdx ++ [x])) ∨
      (∀ y ∈ blocksOf descIdx page, y ∈ m.freeLists o descIdx ++ [x]) ∧ ∃ b' emptied,
        SamePages m emptied ∧ mfreePage emptied o.flags (page * pgSize) 1 = .ok m' ∧
        HeapChange b m o chunks b' m' (Function.update chunks page none)
          (Function.update (m.freeLists o) descIdx
            ((m.freeLists o descIdx ++ [x]).diff (blocksOf descIdx page))) := by
  obtain ⟨ar, counted, read, write, rest⟩ := freeBlock_eq_ok ran
  obtain ⟨samePages, change, full⟩ :=
    arenas.countBlock owned isOwner isArena isBlock taken read write
  rw [(change.arenas.sizes descIdx).2] at rest
  rcases rest with ⟨notFull, rfl⟩ | ⟨isFull, emptied, remove, freed⟩
  · exact .inl ⟨fun all => notFull (full.mpr all), samePages, change⟩
  · have all := full.mp isFull
    have here : counted.freeLists o descIdx = m.freeLists o descIdx ++ [x] := by
      rw [change.lists, Function.update_self]
    have sameOwner := (owner_congr change.fixed).trans isOwner
    obtain ⟨unlisted, isFlags, b', gone⟩ := change.arenas.giveUp change.owned sameOwner isArena
      (by rw [here]; exact all) remove freed
    rw [here, change.lists, Function.update_idem] at gone
    rw [isFlags] at freed
    exact .inr ⟨all, b', emptied, samePages.trans unlisted, freed, change.trans gone⟩

theorem Arenas.freePages (arenas : Arenas b m o chunks) (owned : Owned b m) (isOwner : m.owner = o)
    (isPages : chunks page = some (.pages cnt))
    (freed : mfreePage m o.flags (page * pgSize) cnt = .ok m') :
    ∃ b', HeapChange b m o chunks b' m' (Function.update chunks page none) (m.freeLists o) := by
  obtain ⟨b', unmapped⟩ := owned.mfreePage (arenas.plain owned isOwner isPages) freed
  have lists := freeLists_congr (mfreePage_frame freed).desc o
  refine ⟨b', unmapped.owned, ?_, unmapped.fixed, lists,
    unmapped.others_kept isOwner isPages (mfreePage_arena freed)
      fun ref _ => by rw [(mfreePage_frame freed).desc]⟩
  refine arenas.remove isOwner isPages unmapped (mfreePage_arena freed) fun descIdx => ?_
  have elsewhere : page ∉ {page' | chunks page' = some (.arena descIdx)} := by
    intro isArena
    cases isPages.symm.trans isArena
  rw [lists, arenas_update_none, Set.sdiff_singleton_eq_self elsewhere]
  exact arenas.slabs descIdx

end Removal

end HongbaiOS.Memory
