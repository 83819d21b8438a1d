import HongbaiOS.Memory.ArenaSteps

/-!
# Chunks that are added

What a returning `sys_malloc` does to a heap: it takes a block of an arena, of a new one if
the free list of the class is empty, or adds a run of pages.
-/

namespace HongbaiOS.Memory

open HongbaiOS.Library HongbaiOS.Kernel HongbaiOS.Lib HongbaiOS.Thread

variable {b b' : Book} {m m' : Mem} {o : Owner} {chunks : Nat → Option Chunk} {page frame cnt : Nat}
  {descIdx : Fin 7}

/-- Pages that nothing used are there for a new chunk. -/
structure Supplied (b : Book) (m : Mem) (o : Owner) (page cnt : Nat) (b' : Book) (m' : Mem) :
    Prop where
  owned : Owned b' m'
  dirs : b'.dirs = b.dirs
  frame : PageFrame m m'
  pages : ∀ i < cnt, ∃ phyaddr, b'.held m' (o.place (page + i)) = some (o.flags, phyaddr) ∧
    phyaddr ∉ b'.dirs
  keeps : ∀ p r, b.held m p = some r → b'.held m' p = some r ∧ m'.arena r.2 = m.arena r.2 ∧
    ∀ j < cnt, p ≠ o.place (page + j)

theorem Owned.supply (owned : Owned b m) (isOwner : m.owner = o) {start : Option Address}
    {address : Nat} {mapped : Mem}
    (allocated : Memory.mallocPage m o.flags cnt = .ok (start, mapped))
    (isStart : start = some address) (clear : Memory.memsetPages cnt address mapped = .ok m') :
    ∃ page b', address = page * pgSize ∧ Supplied b m o page cnt b' m' := by
  subst isOwner
  have keepsArenas := owned.mallocPage_arenas allocated
  have frame := (mallocPage_frame allocated).trans (memsetPages_frame clear)
  obtain ⟨page, b', isPage, taken⟩ := owned.mallocPage allocated
  obtain rfl := Option.some.inj (isStart.symm.trans isPage)
  have plain := taken.plain owned
  have cleared := taken.owned.memsetPages plain clear 0
  refine ⟨page, b', rfl, cleared.owned, taken.dirs, frame, ?_, ?_⟩
  · intro i inside
    obtain ⟨-, phyaddr, holds, notDir⟩ := plain i inside
    rw [place_congr taken.fixed, place_owner] at holds
    exact ⟨phyaddr, cleared.keeps _ _ holds, notDir⟩
  · rintro p ⟨pool, phyaddr⟩ holds
    have kept := taken.keeps _ _ holds
    have other : ∀ j < cnt, p ≠ m.owner.place (page + j) := by
      rintro j inside rfl
      have fresh := taken.fresh j inside
      rw [place_owner, holds] at fresh
      cases fresh
    refine ⟨cleared.keeps _ _ kept, ?_, other⟩
    rw [← keepsArenas _ _ holds]
    refine taken.owned.memsetPages_arenas plain clear kept fun j inside same => ?_
    rw [place_congr taken.fixed, place_owner] at same
    exact other j inside same

namespace Supplied

variable (supplied : Supplied b m o page cnt b' m')

include supplied

theorem arenas (arenas : Arenas b m o chunks) : Arenas b' m' o chunks := by
  refine arenas.congr (fun page' c isChunk i inside phyaddr holds notDir => ?_) fun descIdx => ?_
  · obtain ⟨kept, same, -⟩ := supplied.keeps _ _ holds
    rw [← supplied.dirs] at notDir
    exact ⟨kept, same, notDir⟩
  · rw [supplied.frame.desc]

theorem apart (arenas : Arenas b m o chunks) : ∀ page' c, chunks page' = some c →
    ∀ i < c.pageCnt, ∀ j < cnt, page' + i ≠ page + j := by
  intro page' c isChunk i inside j inside' same
  obtain ⟨phyaddr, holds, -⟩ := arenas.held page' c isChunk i inside
  exact (supplied.keeps _ _ holds).2.2 j inside' (congrArg o.place same)

theorem isNew (arenas : Arenas b m o chunks) (positive : 0 < cnt) : chunks page = none := by
  by_contra isChunk
  obtain ⟨c, isChunk⟩ := Option.ne_none_iff_exists'.mp isChunk
  exact supplied.apart arenas page c isChunk 0 (arenas.pageCnt_pos isChunk) 0 positive rfl

/-- The chunk is set up: only its header and the free lists are written. -/
theorem others {c : Chunk} {m'' : Mem} (isCnt : c.pageCnt = cnt)
    (holds : b'.held m' (o.place page) = some (o.flags, frame)) (positive : 0 < cnt)
    (words : m''.words = m'.words)
    (arena : ∀ frame', frame' ≠ frame → m''.arena frame' = m'.arena frame')
    (desc : ∀ ref, (∀ descIdx, ref ≠ o.desc descIdx) → m''.desc ref = m'.desc ref) :
    KeepsOthers b m o chunks b' m'' (Function.update chunks page (some c)) := by
  refine ⟨supplied.dirs, fun p r holds' outside => ?_, fun ref other => ?_⟩
  · obtain ⟨kept, same, apart⟩ := supplied.keeps p r holds'
    refine ⟨?_, ?_, ?_⟩
    · rw [b'.held_of_words words, kept]
    · obtain ⟨pf, frame'⟩ := r
      refine (arena frame' ?_).trans same
      rintro rfl
      exact apart 0 positive (supplied.owned.place_inj kept holds)
    · rintro ⟨page', c', isChunk, i, inside, isPlace⟩
      by_cases samePage : page' = page
      · subst samePage
        rw [Function.update_self] at isChunk
        obtain rfl := Option.some.inj isChunk
        exact apart i (isCnt ▸ inside) isPlace
      · rw [Function.update_of_ne samePage] at isChunk
        exact outside ⟨page', c', isChunk, i, inside, isPlace⟩
  · rw [desc ref other, supplied.frame.desc]

end Supplied

def Chunk.header (o : Owner) : Chunk → Arena
  | arena descIdx => ⟨some (o.desc descIdx), false, UInt32.ofNat (blocksPer descIdx)⟩
  | pages cnt => ⟨none, true, UInt32.ofNat cnt⟩

theorem Arenas.insert (arenas : Arenas b m o chunks) {c : Chunk} (held : b.held m' = b.held m)
    (pages : ∀ i < c.pageCnt, ∃ phyaddr, b.held m (o.place (page + i)) = some (o.flags, phyaddr) ∧
      phyaddr ∉ b.dirs)
    (bounds : 0 < c.pageCnt ∧ c.pageCnt < 3840)
    (apart : ∀ page' c', chunks page' = some c' → ∀ i < c'.pageCnt, ∀ j < c.pageCnt,
      page' + i ≠ page + j)
    (headers : ∀ page' c', chunks page' = some c' → m'.headerAt o page' = m.headerAt o page')
    (header : m'.headerAt o page = c.header o)
    (slabs : ∀ descIdx, Slabs (· / pgSize) (blocksOf descIdx)
      {page' | Function.update chunks page (some c) page' = some (.arena descIdx)}
      (m'.freeLists o descIdx) fun page' => (m'.headerAt o page').cnt.toNat)
    (sizes : m'.fixed = m.fixed) :
    Arenas b m' o (Function.update chunks page (some c)) := by
  have old : ∀ {page' c'}, Function.update chunks page (some c) page' = some c' →
      page' = page ∧ c' = c ∨ page' ≠ page ∧ chunks page' = some c' := by
    intro page' c' isChunk
    by_cases same : page' = page
    · subst same
      rw [Function.update_self] at isChunk
      exact .inl ⟨rfl, (Option.some.inj isChunk).symm⟩
    · rw [Function.update_of_ne same] at isChunk
      exact .inr ⟨same, isChunk⟩
  refine ⟨?_, ?_, ?_, ?_, slabs, ?_⟩
  · rw [held]
    intro page' c' isChunk
    rcases old isChunk with ⟨rfl, rfl⟩ | ⟨-, isChunk⟩
    · exact pages
    · exact arenas.held page' c' isChunk
  · intro page₁ c₁ page₂ c₂ isChunk₁ isChunk₂ le less
    rcases old isChunk₁ with ⟨rfl, rfl⟩ | ⟨-, before₁⟩
    · rcases old isChunk₂ with ⟨rfl, -⟩ | ⟨-, before₂⟩
      · rfl
      · exact absurd (by omega) (apart page₂ c₂ before₂ 0 (arenas.pageCnt_pos before₂)
          (page₂ - page₁) (by omega))
    · rcases old isChunk₂ with ⟨rfl, rfl⟩ | ⟨-, before₂⟩
      · exact absurd (by omega) (apart page₁ c₁ before₁ (page₂ - page₁) (by omega) 0 bounds.1)
      · exact arenas.apart page₁ c₁ page₂ c₂ before₁ before₂ le less
  · intro page' descIdx isArena
    rcases old isArena with ⟨rfl, rfl⟩ | ⟨-, isArena⟩
    · rw [header]
      exact ⟨rfl, rfl⟩
    · rw [headers page' _ isArena]
      exact arenas.arena page' descIdx isArena
  · intro page' cnt' isPages
    rcases old isPages with ⟨rfl, rfl⟩ | ⟨-, isPages⟩
    · rw [header]
      exact ⟨rfl, bounds⟩
    · rw [headers page' _ isPages]
      exact arenas.pages page' cnt' isPages
  · intro descIdx
    have size := congrFun (congrArg Fixed.blockSize sizes) (o.desc descIdx)
    have perArena := congrFun (congrArg Fixed.blockPerArena sizes) (o.desc descIdx)
    simp only [Mem.fixed] at size perArena
    rw [size, perArena]
    exact arenas.sizes descIdx

/-- The arenas of a class, after a chunk has been added. -/
theorem update_eq_some_iff (isNew : chunks page = none) {c c' : Chunk} {page' : Nat} :
    Function.update chunks page (some c) page' = some c' ↔
      page' = page ∧ c' = c ∨ chunks page' = some c' := by
  by_cases same : page' = page
  · subst same
    simp [isNew, eq_comm]
  · simp [same]

theorem Arenas.addArena (arenas : Arenas b m o chunks) (descIdx : Fin 7) (owned : Owned b m)
    (holds : b.held m (o.place page) = some (o.flags, frame)) (notDir : frame ∉ b.dirs)
    (apart : ∀ page' c, chunks page' = some c → ∀ i < c.pageCnt, page' + i ≠ page) :
    chunks page = none ∧
      Arenas b ((m.setFreeList (o.desc descIdx)
        (m.freeLists o descIdx ++ blocksOf descIdx page)).setArena frame
        (Chunk.header o (.arena descIdx))) o
        (Function.update chunks page (some (.arena descIdx))) := by
  have isNew : chunks page = none := by
    by_contra isChunk
    obtain ⟨c, isChunk⟩ := Option.ne_none_iff_exists'.mp isChunk
    exact apart page c isChunk 0 (arenas.pageCnt_pos isChunk) rfl
  refine ⟨isNew, ?_⟩
  have listed := owned.setFreeList (o.desc descIdx)
    (m.freeLists o descIdx ++ blocksOf descIdx page) .kernel 0
  generalize isNext : (m.setFreeList (o.desc descIdx)
    (m.freeLists o descIdx ++ blocksOf descIdx page)).setArena frame
    (Chunk.header o (.arena descIdx)) = m'
  have held : b.held m' = b.held m := by
    rw [← isNext]
    exact b.held_of_words (setFreeList_words m _ _)
  have header : m'.headerAt o page = Chunk.header o (.arena descIdx) := by
    have kept := listed.keeps _ _ holds
    rw [← isNext, headerAt_setArena listed.owned kept kept, if_pos rfl]
  have headers : ∀ page' c, chunks page' = some c → m'.headerAt o page' = m.headerAt o page' := by
    intro page' c isChunk
    obtain ⟨frame', holds', -⟩ := arenas.first isChunk
    have other : page' ≠ page := by
      rintro rfl
      cases isNew.symm.trans isChunk
    rw [← isNext, headerAt_setArena listed.owned (listed.keeps _ _ holds) (listed.keeps _ _ holds'),
      if_neg other, headerAt_setFreeList]
  have lists : m'.freeLists o = Function.update (m.freeLists o) descIdx
      (m.freeLists o descIdx ++ blocksOf descIdx page) := by
    rw [← isNext, freeLists_setArena, freeLists_setFreeList]
  refine arenas.insert held ?_ ⟨Nat.one_pos, Nat.one_lt_ofNat⟩ ?_ headers header
    (fun descIdx' => ?_) (isNext ▸ listed.fixed)
  · intro i inside
    obtain rfl := Nat.lt_one_iff.mp inside
    exact ⟨frame, holds, notDir⟩
  · intro page' c isChunk i inside j inside'
    obtain rfl := Nat.lt_one_iff.mp inside'
    exact apart page' c isChunk i inside
  · rw [lists]
    simp only [update_eq_some_iff isNew, Chunk.arena.injEq]
    by_cases same : descIdx' = descIdx
    · subst same
      have notSlab : page ∉ {page | chunks page = some (.arena descIdx')} := by
        simp [isNew]
      have full : (m'.headerAt o page).cnt.toNat = (blocksOf descIdx' page).length := by
        rw [header, length_blocksOf]
        exact UInt32.toNat_ofNat_of_lt' (blocksPer_pos descIdx').2
      have added := (arenas.slabs descIdx').add (cut_blocksOf descIdx') notSlab
        (fun page' isArena => congrArg (fun ar => ar.cnt.toNat) (headers page' _ isArena)) full
      rw [Function.update_self]
      simpa [Set.insert_def, Mem.freeLists] using added
    · rw [Function.update_of_ne same]
      simpa [same, Mem.freeLists] using (arenas.slabs descIdx').congr
        fun page' isArena => congrArg (fun ar => ar.cnt.toNat) (headers page' _ isArena)

theorem Arenas.appendBlocks_eq (arenas : Arenas b m o chunks) (descIdx : Fin 7)
    (owned : Owned b m) (isOwner : m.owner = o)
    (holds : b.held m (o.place page) = some (o.flags, frame)) (isNew : chunks page = none)
    {ar : Arena} (write : m.writeArena (page * pgSize) ar = .ok m') :
    appendBlocks (o.desc descIdx) (page * pgSize) (blocksPer descIdx) 0 m' =
      .ok ((m.setFreeList (o.desc descIdx)
        (m.freeLists o descIdx ++ blocksOf descIdx page)).setArena frame ar) := by
  have unlisted : ∀ x ∈ blocksOf descIdx page, x ∉ m.freeLists o descIdx := by
    intro x isBlock isFree
    have isArena := (arenas.free_block isFree).1
    have isHome : x / pgSize = page := (cut_blocksOf descIdx).home page x isBlock
    rw [isHome, isNew] at isArena
    cases isArena
  rw [owned.writeArena_heap isOwner holds] at write
  obtain rfl := Except.ok.inj write
  rw [Memory.appendBlocks_eq (by rw [desc_setArena]; exact (arenas.sizes descIdx).1)
    (owned.page_lt holds) (Nat.zero_add _).le
    (by rw [blocksFrom_all, desc_setArena]; exact unlisted), blocksFrom_all, setFreeList_setArena,
    desc_setArena]
  rfl

/-- `sys_malloc` creates an arena. -/
theorem Arenas.newArena (arenas : Arenas b m o chunks) (owned : Owned b m) (isOwner : m.owner = o)
    {supplied : Bool} (ran : Memory.newArena m (o.desc descIdx) = .ok (supplied, m')) :
    ∃ page b', chunks page = none ∧
      HeapChange b m o chunks b' m' (Function.update chunks page (some (.arena descIdx)))
        (Function.update (m.freeLists o) descIdx
          (m.freeLists o descIdx ++ blocksOf descIdx page)) := by
  have fixed := (newArena_frame ran).fixed
  obtain ⟨-, start, mapped, cleared, headed, allocated, clear, write, append⟩ := newArena_eq_ok ran
  have isFlags : m.ownFlags = o.flags := (ownFlags_eq m).trans (congrArg Owner.flags isOwner)
  rw [isFlags] at allocated
  obtain ⟨page, b', rfl, supplied⟩ := owned.supply isOwner allocated rfl clear
  have arenas' := supplied.arenas arenas
  obtain ⟨phyaddr, holds, notDir⟩ := supplied.pages 0 Nat.one_pos
  rw [Nat.add_zero] at holds
  have sameOwner := (owner_congr supplied.frame.fixed).trans isOwner
  obtain ⟨isNew, added⟩ := arenas'.addArena descIdx supplied.owned holds notDir
    fun page' c isChunk i inside => supplied.apart arenas page' c isChunk i inside 0 Nat.one_pos
  rw [(arenas'.sizes descIdx).2] at write append
  rw [arenas'.appendBlocks_eq descIdx supplied.owned sameOwner holds isNew write] at append
  have isNext := Except.ok.inj append
  change (cleared.setFreeList (o.desc descIdx) (cleared.freeLists o descIdx ++
    blocksOf descIdx page)).setArena phyaddr (Chunk.header o (.arena descIdx)) = m' at isNext
  have listed := supplied.owned.setFreeList (o.desc descIdx)
    (cleared.freeLists o descIdx ++ blocksOf descIdx page) .kernel 0
  rw [isNext] at added
  refine ⟨page, b', isNew, ?_, added, fixed, ?_, ?_⟩
  · rw [← isNext]
    exact (listed.owned.setArena _ _ .kernel 0).owned
  · rw [← isNext, freeLists_setArena, freeLists_setFreeList, freeLists_congr supplied.frame.desc]
  · rw [← isNext]
    refine supplied.others rfl holds Nat.one_pos ?_ (fun frame' other => ?_) fun ref other => ?_
    · exact setFreeList_words cleared _ _
    · refine (Function.update_of_ne other _ _).trans ?_
      rw [setFreeList_arena]
    · rw [desc_setArena]
      exact desc_setFreeList_of_ne (other descIdx) cleared _

/-- The first class with blocks that are large enough. -/
theorem Arenas.findDesc (arenas : Arenas b m o chunks) (isOwner : m.owner = o) {size : Nat}
    (found : Memory.findDesc m size = some descIdx) : size ≤ blockSizeAt descIdx := by
  have fits := List.find?_some found
  rw [ownDesc_eq, isOwner, (arenas.sizes descIdx).1] at fits
  exact of_decide_eq_true fits

/-- The blocks that `sys_malloc` takes the first of. -/
def Mem.available (m : Mem) (o : Owner) (descIdx : Fin 7) (page : Nat) : List Nat :=
  if m.freeLists o descIdx = [] then blocksOf descIdx page else m.freeLists o descIdx

theorem Arenas.mallocSmall (arenas : Arenas b m o chunks) (owned : Owned b m)
    (isOwner : m.owner = o) {size : Nat} {result : Option Address}
    (ran : Memory.mallocSmall m size = .ok (result, m')) :
    ∃ x descIdx rest b', result = some x ∧ Memory.findDesc m size = some descIdx ∧
      m.available o descIdx (x / pgSize) = x :: rest ∧
      (m.freeLists o descIdx = [] → chunks (x / pgSize) = none) ∧
      HeapChange b m o chunks b' m' (if m.freeLists o descIdx = []
          then Function.update chunks (x / pgSize) (some (.arena descIdx)) else chunks)
        (Function.update (m.freeLists o) descIdx rest) := by
  obtain ⟨descIdx, supplied, x, popped, found, supply, pop, rfl, release⟩ := mallocSmall_eq_ok ran
  rw [ownDesc_eq, isOwner] at supply pop
  change m.freeLists o descIdx ≠ [] ∧ _ ∨ m.freeLists o descIdx = [] ∧ _ at supply
  unfold Mem.available
  rcases supply with ⟨stocked, rfl⟩ | ⟨empty, created⟩
  · obtain ⟨rest, list, change⟩ := arenas.popBlock owned isOwner pop
    have released := change.arenas.releasePool change.owned release
    rw [change.lists] at released
    refine ⟨x, descIdx, rest, b, rfl, found, ?_, fun empty => absurd empty stocked, ?_⟩
    · rw [if_neg stocked, list]
    · rw [if_neg stocked]
      exact change.trans released
  · obtain ⟨page, b', isNew, grown⟩ := arenas.newArena owned isOwner created
    have sameOwner := (owner_congr grown.fixed).trans isOwner
    obtain ⟨rest, list, change⟩ := grown.arenas.popBlock grown.owned sameOwner pop
    have released := change.arenas.releasePool change.owned release
    rw [change.lists, grown.lists, Function.update_idem] at released
    rw [grown.lists, Function.update_self, empty, List.nil_append] at list
    have isBlock : x ∈ blocksOf descIdx page := by
      rw [list]
      exact List.mem_cons_self
    obtain rfl : x / pgSize = page := (cut_blocksOf descIdx).home page x isBlock
    refine ⟨x, descIdx, rest, b', rfl, found, ?_, fun _ => isNew, ?_⟩
    · rw [if_pos empty, list]
    · rw [if_pos empty]
      exact (grown.trans change).trans released

/-- The pages of a request above 1024 bytes. -/
def largePages (size : Nat) : Nat := divRoundUp (wrap (size + arenaSize)) pgSize

theorem mallocLarge_eq_ok {size : Nat} {result : Option Address}
    (ran : Memory.mallocLarge m size = .ok (result, m')) :
    ∃ start mapped cleared, mallocPage m m.ownFlags (largePages size) = .ok (some start, mapped) ∧
      memsetPages (largePages size) start mapped = .ok cleared ∧
      cleared.writeArena start ⟨none, true, UInt32.ofNat (largePages size)⟩ = .ok m' ∧
      result = some (wrap (start + arenaSize)) := by
  obtain ⟨⟨got, mapped⟩, allocated, ran⟩ := except_bind_eq_ok.mp ran
  obtain ⟨-, -, bitIdx, btmp, -, rfl, -⟩ := mallocPage_eq_ok allocated
  obtain ⟨cleared, clear, ran⟩ := except_bind_eq_ok.mp ran
  obtain ⟨headed, write, ran⟩ := except_bind_eq_ok.mp ran
  simp only [pure_eq_ok, Except.ok.injEq, Prod.mk.injEq] at ran
  obtain ⟨rfl, rfl⟩ := ran
  exact ⟨_, mapped, cleared, allocated, clear, write, rfl⟩

theorem Arenas.mallocLarge (arenas : Arenas b m o chunks) (owned : Owned b m)
    (isOwner : m.owner = o) {size : Nat} {result : Option Address}
    (ran : Memory.mallocLarge m size = .ok (result, m')) :
    ∃ page b', result = some (page * pgSize + arenaSize) ∧
      (0 < largePages size ∧ largePages size < 3840) ∧ chunks page = none ∧
      HeapChange b m o chunks b' m'
        (Function.update chunks page (some (.pages (largePages size))))
        (m.freeLists o) := by
  have fixed := (mallocLarge_frame ran).fixed
  obtain ⟨start, mapped, cleared, allocated, clear, write, rfl⟩ := mallocLarge_eq_ok ran
  obtain ⟨positive, below, -⟩ := mallocPage_eq_ok allocated
  have isFlags : m.ownFlags = o.flags := (ownFlags_eq m).trans (congrArg Owner.flags isOwner)
  rw [isFlags] at allocated
  obtain ⟨page, b', rfl, supplied⟩ := owned.supply isOwner allocated rfl clear
  have arenas' := supplied.arenas arenas
  have owned' := supplied.owned
  obtain ⟨phyaddr, holds, -⟩ := supplied.pages 0 positive
  rw [Nat.add_zero] at holds
  have sameOwner := (owner_congr supplied.frame.fixed).trans isOwner
  rw [owned'.writeArena_heap sameOwner holds] at write
  have isNext := Except.ok.inj write
  change cleared.setArena phyaddr (Chunk.header o (.pages (largePages size))) = m' at isNext
  have isNew := supplied.isNew arenas positive
  have small := owned'.page_lt holds
  have address : wrap (page * pgSize + arenaSize) = page * pgSize + arenaSize := by
    refine Nat.mod_eq_of_lt ?_
    simp only [pgSize, arenaSize]
    omega
  have headers : ∀ page' c', chunks page' = some c' →
      m'.headerAt o page' = cleared.headerAt o page' := by
    intro page' c' isChunk
    obtain ⟨frame', holds', -⟩ := arenas'.first isChunk
    have other : page' ≠ page := by
      rintro rfl
      cases isNew.symm.trans isChunk
    rw [← isNext, headerAt_setArena owned' holds holds', if_neg other]
  have lists : m'.freeLists o = m.freeLists o := by
    rw [← isNext, freeLists_setArena, freeLists_congr supplied.frame.desc]
  refine ⟨page, b', congrArg some address, ⟨positive, below⟩, isNew, ?_, ?_, fixed, lists, ?_⟩
  · rw [← isNext]
    exact (owned'.setArena phyaddr _ .kernel 0).owned
  · refine arenas'.insert (by rw [← isNext]; rfl) supplied.pages ⟨positive, below⟩
      (supplied.apart arenas) headers ?_ (fun descIdx => ?_) (by rw [← isNext]; rfl)
    · rw [← isNext, headerAt_setArena owned' holds holds, if_pos rfl]
    · rw [lists, ← freeLists_congr supplied.frame.desc]
      simp only [update_eq_some_iff isNew, reduceCtorEq, and_false, false_or]
      exact (arenas'.slabs descIdx).congr
        fun page' isArena => congrArg (fun ar => ar.cnt.toNat) (headers page' _ isArena)
  · rw [← isNext]
    refine supplied.others rfl holds positive rfl (fun frame' other => ?_) fun ref _ => ?_
    · exact Function.update_of_ne other _ _
    · rw [desc_setArena]

end HongbaiOS.Memory
