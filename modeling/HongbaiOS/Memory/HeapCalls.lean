import HongbaiOS.Memory.HeapAccounts
import HongbaiOS.Memory.HeapAsserts

/-!
# Calls of one task

A task requests memory and gives back what it has got.  What `sys_malloc` and `sys_free` do
to its memory, to the chunks of its heap and to its allocations, as one step each.
-/

namespace HongbaiOS.Memory

open HongbaiOS.Library HongbaiOS.Kernel HongbaiOS.Lib HongbaiOS.Thread

def Mem.mapped (m : Mem) (page : Nat) : Bool := (m.translate (page * pgSize)).toBool

/-- A task that uses its heap: with the memory, the chunks of the heap and the sizes of the
allocations in use. -/
structure HeapUse where
  mem : Mem
  chunks : Nat → Option Chunk
  live : Address → Option Nat

namespace HeapUse

/-- The chunks after a request for `size` bytes that `ptr` is the result of. -/
def chunksAfter (s : HeapUse) (size : Nat) (ptr : Address) : Nat → Option Chunk :=
  if 1024 < size then Function.update s.chunks (ptr / pgSize) (some (.pages (largePages size)))
  else
    match findDesc s.mem size with
    | none => s.chunks
    | some descIdx =>
        if (s.mem.desc (s.mem.ownDesc descIdx)).freeList = [] then
          Function.update s.chunks (ptr / pgSize) (some (.arena descIdx))
        else s.chunks

/-- `sys_malloc(size)` has returned. -/
def allocated (s : HeapUse) (size : Nat) (m' : Mem) : Option Address → HeapUse
  | none => { s with mem := m' }
  | some ptr => ⟨m', s.chunksAfter size ptr, Function.update s.live ptr (some size)⟩

/-- `sys_free(ptr)` has returned. -/
def freed (s : HeapUse) (ptr : Address) (m' : Mem) : HeapUse where
  mem := m'
  chunks := Function.update s.chunks (ptr / pgSize)
    (if m'.mapped (ptr / pgSize) then s.chunks (ptr / pgSize) else none)
  live := Function.update s.live ptr none

end HeapUse

structure HeapSound (b : Book) (s : HeapUse) : Prop where
  owned : Owned b s.mem
  sized : (s.mem.pool s.mem.ownFlags).poolSize ≤ 2 ^ 28
  arenas : Arenas b s.mem s.mem.owner s.chunks
  accounted : Accounted s.chunks (s.mem.freeLists s.mem.owner) s.live

/-- What a returning call of the heap has done, in its own memory and elsewhere. -/
structure HeapStep (b : Book) (s : HeapUse) (b' : Book) (s' : HeapUse) : Prop where
  sound : HeapSound b' s'
  fixed : s'.mem.fixed = s.mem.fixed
  others : KeepsOthers b s.mem s.mem.owner s.chunks b' s'.mem s'.chunks

section Calls

variable {b b' : Book} {s : HeapUse} {m' held : Mem} {ptr size page : Nat} {descIdx : Fin 7}
  {chunks' : Nat → Option Chunk} {lists' : Fin 7 → List Nat} {live' : Address → Option Nat}

theorem HeapSound.step_refl (sound : HeapSound b s) : HeapStep b s b s :=
  ⟨sound, rfl, rfl, fun _ _ holds outside => ⟨holds, rfl, outside⟩, fun _ _ => rfl⟩

theorem HeapChange.step (change : HeapChange b s.mem s.mem.owner s.chunks b' m' chunks' lists')
    (sound : HeapSound b s) (accounted : Accounted chunks' lists' live') :
    HeapStep b s b' ⟨m', chunks', live'⟩ := by
  have owner : m'.owner = s.mem.owner := owner_congr change.fixed
  have flags : m'.ownFlags = s.mem.ownFlags := by
    rw [ownFlags_eq, ownFlags_eq, owner]
  have size := congrFun (congrArg Fixed.poolSize change.fixed) s.mem.ownFlags
  refine ⟨⟨change.owned, ?_, ?_, ?_⟩, change.fixed, change.others⟩
  · change (m'.pool m'.ownFlags).poolSize ≤ 2 ^ 28
    rw [flags]
    exact size.le.trans sound.sized
  · change Arenas b' m' m'.owner chunks'
    rw [owner]
    exact change.arenas
  · change Accounted chunks' (m'.freeLists m'.owner) live'
    rw [owner, change.lists]
    exact accounted

/-- The pages of a large request hold the header and as many bytes as were asked for. -/
theorem largePages_fits (small : size < 2 ^ 28) :
    size + arenaSize ≤ largePages size * pgSize := by
  have first : wrap (size + arenaSize) = size + arenaSize :=
    Nat.mod_eq_of_lt (by simp only [arenaSize]; omega)
  have second : wrap (size + arenaSize + pgSize - 1) = size + arenaSize + pgSize - 1 :=
    Nat.mod_eq_of_lt (by simp only [arenaSize, pgSize]; omega)
  rw [largePages, divRoundUp, first, second]
  simp only [arenaSize, pgSize]
  omega

theorem HeapSound.mallocLarge {result : Option Address} (sound : HeapSound b s)
    (large : 1024 < size) (below : size < (s.mem.pool s.mem.ownFlags).poolSize)
    (acquired : acquirePool s.mem s.mem.ownFlags = .ok held)
    (ran : Memory.mallocLarge held size = .ok (result, m')) :
    (∃ b', HeapStep b s b' (s.allocated size m' result)) ∧
      ∀ ptr, result = some ptr → s.live ptr = none := by
  have taken := sound.arenas.acquirePool sound.owned acquired
  have owner : held.owner = s.mem.owner := owner_congr taken.fixed
  obtain ⟨page, b', rfl, -, isNew, change⟩ := taken.arenas.mallocLarge taken.owned owner ran
  rw [taken.lists] at change
  have accounted := sound.accounted.addPages isNew large
    (largePages_fits (below.trans_le sound.sized))
  refine ⟨⟨b', ?_⟩, ?_⟩
  · have step := (taken.trans change).step sound accounted
    rw [HeapUse.allocated, HeapUse.chunksAfter, if_pos large, behindHeader_home]
    exact step
  · rintro ptr ⟨⟩
    refine sound.accounted.not_live ?_
    rw [behindHeader_home]
    exact isNew

theorem HeapSound.mallocSmall {result : Option Address} (sound : HeapSound b s)
    (small : size ≤ 1024) (acquired : acquirePool s.mem s.mem.ownFlags = .ok held)
    (ran : Memory.mallocSmall held size = .ok (result, m')) :
    (∃ b', HeapStep b s b' (s.allocated size m' result)) ∧
      ∀ ptr, result = some ptr → s.live ptr = none := by
  have taken := sound.arenas.acquirePool sound.owned acquired
  have owner : held.owner = s.mem.owner := owner_congr taken.fixed
  obtain ⟨x, descIdx, rest, b', rfl, found, list, isNew, change⟩ :=
    taken.arenas.mallocSmall taken.owned owner ran
  have fits := taken.arenas.findDesc owner found
  obtain ⟨plock, -, isHeld⟩ := except_bind_eq_ok.mp acquired
  rw [← Except.ok.inj isHeld, findDesc_setLock] at found
  have isList : (s.mem.desc (s.mem.ownDesc descIdx)).freeList =
      s.mem.freeLists s.mem.owner descIdx := by
    rw [ownDesc_eq]
    rfl
  have after : s.chunksAfter size x = if s.mem.freeLists s.mem.owner descIdx = [] then
      Function.update s.chunks (x / pgSize) (some (.arena descIdx)) else s.chunks := by
    rw [HeapUse.chunksAfter, if_neg (Nat.not_lt.mpr small), found]
    simp only [isList]
  rw [taken.lists] at change isNew
  rw [Mem.available, taken.lists] at list
  have cut := cut_blocksOf descIdx
  have dead : s.live x = none ∧ Accounted (s.chunksAfter size x)
      (Function.update (s.mem.freeLists s.mem.owner) descIdx rest)
      (Function.update s.live x (some size)) := by
    rw [after]
    by_cases empty : s.mem.freeLists s.mem.owner descIdx = []
    · rw [if_pos empty] at list ⊢
      have isBlock : x ∈ blocksOf descIdx (x / pgSize) := by
        rw [list]
        exact List.mem_cons_self
      have grown := sound.accounted.addArena descIdx (isNew empty)
      rw [empty, List.nil_append, list] at grown
      have nodup := cut.nodup (x / pgSize)
      rw [list] at nodup
      have served := grown.take (Function.update_self _ _ _) nodup (Function.update_self _ _ _)
        isBlock small fits
      rw [Function.update_idem] at served
      exact ⟨sound.accounted.not_live (isNew empty), served⟩
    · rw [if_neg empty] at list ⊢
      have isFree : x ∈ s.mem.freeLists s.mem.owner descIdx := by
        rw [list]
        exact List.mem_cons_self
      obtain ⟨isArena, isBlock⟩ := sound.arenas.free_block isFree
      have nodup := (sound.arenas.slabs descIdx).nodup
      change (s.mem.freeLists s.mem.owner descIdx).Nodup at nodup
      rw [list] at nodup
      exact ⟨(sound.accounted.blocks _ _ isArena x isBlock).mp isFree,
        sound.accounted.take list nodup isArena isBlock small fits⟩
  rw [← after] at change
  refine ⟨⟨b', (taken.trans change).step sound dead.2⟩, ?_⟩
  rintro ptr ⟨⟩
  exact dead.1

theorem HeapSound.sysMalloc {result : Option Address} (sound : HeapSound b s)
    (ran : Memory.sysMalloc s.mem size = .ok (result, m')) :
    (∃ b', HeapStep b s b' (s.allocated size m' result)) ∧
      ∀ ptr, result = some ptr → s.live ptr = none := by
  rcases sysMalloc_eq_ok ran with ⟨-, rfl, rfl⟩ | ⟨⟨-, below⟩, held, acquired, served⟩
  · exact ⟨⟨b, sound.step_refl⟩, nofun⟩
  · rcases served with ⟨large, served⟩ | ⟨small, served⟩
    · exact sound.mallocLarge large below acquired served
    · exact sound.mallocSmall small acquired served

/-- What is in use of the pages after a `sys_free`. -/
structure FreedRight (s : HeapUse) (ptr size : Nat) (m' : Mem) : Prop where
  large : 1024 < size → Returned s.mem s.mem.ownFlags (ptr / pgSize) (largePages size) m'
  inUse : size ≤ 1024 → (∃ other, other ≠ ptr ∧ other / pgSize = ptr / pgSize ∧
    s.live other ≠ none) → Returned s.mem s.mem.ownFlags (ptr / pgSize) 0 m'
  last : size ≤ 1024 → (∀ other, other ≠ ptr → other / pgSize = ptr / pgSize →
    s.live other = none) → Returned s.mem s.mem.ownFlags (ptr / pgSize) 1 m' ∧
      ∀ descIdx, ∀ x ∈ m'.freeLists m'.owner descIdx, x / pgSize ≠ ptr / pgSize

theorem Returned.not_mapped {m : Mem} {pf : PoolFlags} {cnt : Nat}
    (returned : Returned m pf page cnt m') (isHeap : page ∈ heapPages) (positive : 0 < cnt) :
    m'.mapped page = false := by
  rw [← Bool.not_eq_true]
  intro mapped
  unfold Mem.mapped at mapped
  cases isFrame : m'.translate (page * pgSize) with
  | error reason =>
      rw [isFrame] at mapped
      cases mapped
  | ok frame => exact ((returned.maps page isHeap frame).mp isFrame).2 ⟨le_rfl, by omega⟩

theorem HeapUse.freed_gone (s : HeapUse) {m' : Mem} (gone : m'.mapped (ptr / pgSize) = false) :
    s.freed ptr m' = ⟨m', Function.update s.chunks (ptr / pgSize) none,
      Function.update s.live ptr none⟩ := by
  rw [HeapUse.freed, gone]
  rfl

theorem HeapUse.freed_kept (s : HeapUse) {m' : Mem} (kept : m'.mapped (ptr / pgSize) = true) :
    s.freed ptr m' = ⟨m', s.chunks, Function.update s.live ptr none⟩ := by
  rw [HeapUse.freed, kept, if_pos rfl, Function.update_eq_self]

theorem HeapSound.chunk_heap {c : Chunk} (sound : HeapSound b s)
    (isChunk : s.chunks page = some c) : page ∈ heapPages := by
  obtain ⟨inRange, -⟩ := sound.arenas.plain sound.owned rfl isChunk 0
    (sound.arenas.pageCnt_pos isChunk)
  exact ⟨_, inRange⟩

/-- What the page tables say stays as it is. -/
theorem SamePages.mapped {m : Mem} (same : SamePages m m') (owned : Owned b m) (pf : PoolFlags)
    (page : Nat) : Mapped b m pf page 0 b m' :=
  (owned.mark same.fixed same.words fun _ _ taken => (same.inPool _ _).mpr taken).mapped_none
    same.fixed (b.held_of_words same.words) (fun page' _ => kernelEntry_of_words same.words page')
    pf page

theorem HeapSound.freePages {worked : Mem} (sound : HeapSound b s)
    (isPages : s.chunks page = some (.pages (largePages size)))
    (acquired : acquirePool s.mem s.mem.ownFlags = .ok held)
    (freed : mfreePage held s.mem.ownFlags (page * pgSize) (largePages size) = .ok worked)
    (released : releasePool worked worked.ownFlags = .ok m') :
    (∃ b', HeapStep b s b' (s.freed (page * pgSize + arenaSize) m')) ∧
      Returned s.mem s.mem.ownFlags page (largePages size) m' := by
  have taken := sound.arenas.acquirePool sound.owned acquired
  have owner : held.owner = s.mem.owner := owner_congr taken.fixed
  rw [ownFlags_eq] at freed ⊢
  have plain := taken.arenas.plain taken.owned owner isPages
  have returned := ((taken.owned.returned plain freed).from (.acquirePool acquired)).to
    (.releasePool released)
  refine ⟨?_, returned⟩
  obtain ⟨b', change⟩ := taken.arenas.freePages taken.owned owner isPages freed
  have after := (taken.trans change).trans (change.arenas.releasePool change.owned released)
  have gone := returned.not_mapped (sound.chunk_heap isPages)
    (sound.arenas.pages page _ isPages).2.1
  rw [change.lists, taken.lists] at after
  have isHome := behindHeader_home page
  rw [s.freed_gone (by rw [isHome]; exact gone), isHome]
  have dropped := sound.accounted.drop isPages
  refine ⟨b', after.step sound (dropped.remove (fun ptr isHome => ?_) fun _ _ _ => Iff.rfl)⟩
  by_contra isLive
  obtain ⟨size', isLive⟩ := Option.ne_none_iff_exists'.mp isLive
  rw [dropped.alone isPages isHome isLive, Function.update_self] at isLive
  cases isLive

theorem HeapSound.freeBlock {worked : Mem} (sound : HeapSound b s)
    (isArena : s.chunks page = some (.arena descIdx)) (isBlock : ptr ∈ blocksOf descIdx page)
    (isLive : s.live ptr ≠ none) (acquired : acquirePool s.mem s.mem.ownFlags = .ok held)
    (freed : Memory.freeBlock held (s.mem.owner.desc descIdx) (page * pgSize) ptr = .ok worked)
    (released : releasePool worked worked.ownFlags = .ok m') :
    (∃ b', HeapStep b s b' (s.freed ptr m')) ∧
      (¬ (∀ other, other ≠ ptr → other / pgSize = page → s.live other = none) ∧
          Returned s.mem s.mem.ownFlags page 0 m' ∨
        (∀ other, other ≠ ptr → other / pgSize = page → s.live other = none) ∧
          Returned s.mem s.mem.ownFlags page 1 m' ∧ m'.mapped page = false) := by
  have taken := sound.arenas.acquirePool sound.owned acquired
  have owner : held.owner = s.mem.owner := owner_congr taken.fixed
  obtain rfl : ptr / pgSize = page := (cut_blocksOf descIdx).home page ptr isBlock
  have notFree : ptr ∉ held.freeLists s.mem.owner descIdx := by
    rw [taken.lists]
    exact fun isFree => isLive ((sound.accounted.blocks _ _ isArena ptr isBlock).mp isFree)
  have given := sound.accounted.give isArena isBlock
  have all := sound.accounted.all_free_iff ptr isArena
  have samePages := SamePages.acquirePool acquired
  have released' := SamePages.releasePool released
  have cases := taken.arenas.freeBlock taken.owned owner isArena isBlock notFree freed
  rw [taken.lists, all] at cases
  rcases cases with ⟨notAll, same, change⟩ | ⟨dead, b', emptied, same, freed, change⟩
  · have after := (taken.trans change).trans (change.arenas.releasePool change.owned released)
    rw [change.lists] at after
    have samePages' := (samePages.trans same).trans released'
    have kept : m'.mapped (ptr / pgSize) = true := by
      obtain ⟨frame, holds, -⟩ := after.arenas.first isArena
      rw [Mem.mapped, after.owned.translate_heap (owner_congr after.fixed) holds]
      rfl
    refine ⟨⟨b, ?_⟩, .inl ⟨notAll, samePages'.returned _ _⟩⟩
    rw [s.freed_kept kept]
    exact after.step sound given
  · have after := (taken.trans change).trans (change.arenas.releasePool change.owned released)
    rw [change.lists] at after
    have unlisted := same.mapped taken.owned s.mem.owner.flags (ptr / pgSize)
    have plain := (taken.arenas.plain taken.owned owner isArena).congr unlisted
    have returned := (((unlisted.owned.returned plain freed).from same).from samePages).to released'
    have gone := returned.not_mapped (sound.chunk_heap isArena) Nat.one_pos
    rw [ownFlags_eq]
    refine ⟨⟨b', ?_⟩, .inr ⟨dead, returned, gone⟩⟩
    rw [s.freed_gone gone]
    refine after.step sound (given.remove (fun other isHome => ?_) fun descIdx' x elsewhere => ?_)
    · by_cases isThis : other = ptr
      · rw [isThis, Function.update_self]
      · rw [Function.update_of_ne isThis]
        exact dead other isThis isHome
    · by_cases sameClass : descIdx' = descIdx
      · subst sameClass
        rw [Function.update_self, Function.update_self]
        refine ⟨fun isFree => List.diff_subset _ _ isFree, fun isFree => ?_⟩
        refine List.mem_diff_of_mem isFree fun isBlock' => elsewhere ?_
        exact (cut_blocksOf descIdx').home _ x isBlock'
      · rw [Function.update_of_ne sameClass, Function.update_of_ne sameClass]

theorem HeapSound.sysFree (sound : HeapSound b s) (isLive : s.live ptr = some size)
    (ran : Memory.sysFree s.mem ptr = .ok m') :
    (∃ b', HeapStep b s b' (s.freed ptr m')) ∧ FreedRight s ptr size m' := by
  obtain ⟨-, -, held, ar, worked, acquired, read, freed, released⟩ := sysFree_eq_ok ran
  have taken := sound.arenas.acquirePool sound.owned acquired
  have owner : held.owner = s.mem.owner := owner_congr taken.fixed
  have flags : held.ownFlags = s.mem.ownFlags := by
    rw [ownFlags_eq, ownFlags_eq, owner]
  rw [flags] at freed
  cases sound.accounted.lives ptr size isLive with
  | @block page descIdx isArena isBlock small fits =>
      obtain rfl : ptr / pgSize = page := (cut_blocksOf descIdx).home page ptr isBlock
      obtain ⟨frame, holds, -⟩ := taken.arenas.first isArena
      have header := taken.arenas.arena _ _ isArena
      rw [headerAt_eq holds] at header
      rw [block2arena, taken.owned.readArena_heap owner holds] at read
      obtain rfl := Except.ok.inj read
      rw [header.1, header.2] at freed
      rcases freed with ⟨ref, isRef, -, freed⟩ | ⟨impossible, -⟩
      · obtain rfl := Option.some.inj isRef
        obtain ⟨step, after⟩ := sound.freeBlock isArena isBlock
          (isLive ▸ Option.some_ne_none size) acquired freed released
        refine ⟨step, fun large => absurd large (Nat.not_lt.mpr small), ?_, ?_⟩
        · rintro - ⟨other, notThis, isHome, isLive'⟩
          rcases after with ⟨-, returned⟩ | ⟨dead, -⟩
          · exact returned
          · exact absurd (dead other notThis isHome) isLive'
        · intro _ dead
          rcases after with ⟨notDead, -⟩ | ⟨-, returned, gone⟩
          · exact absurd dead notDead
          · refine ⟨returned, fun descIdx' x isFree isHome => ?_⟩
            obtain ⟨b', step⟩ := step
            rw [s.freed_gone gone] at step
            have isArena' := (step.sound.arenas.free_block isFree).1
            simp only [isHome, Function.update_self] at isArena'
            cases isArena'
      · simp at impossible
  | @pages page isPages isStart large fits =>
      subst isStart
      have isHome := behindHeader_home page
      obtain ⟨frame, holds, -⟩ := taken.arenas.first isPages
      obtain ⟨header, -, below⟩ := taken.arenas.pages _ _ isPages
      rw [headerAt_eq holds] at header
      rw [block2arena, isHome, taken.owned.readArena_heap owner holds, header] at read
      obtain rfl := Except.ok.inj read
      rcases freed with ⟨ref, isRef, -⟩ | ⟨-, freed⟩
      · cases isRef
      · rw [block2arena, isHome, UInt32.toNat_ofNat_of_lt' (by simp only [UInt32.size]; omega)]
          at freed
        obtain ⟨step, returned⟩ := sound.freePages isPages acquired freed released
        refine ⟨step, fun _ => isHome.symm ▸ returned, fun small => ?_, fun small => ?_⟩
        · exact absurd large (Nat.not_lt.mpr small)
        · exact absurd large (Nat.not_lt.mpr small)

/-- No assertion of the heap fails where an allocation in use is given back. -/
theorem HeapSound.avoids_sysFree (sound : HeapSound b s) (isLive : s.live ptr = some size) :
    Avoids HeapAssertion (Memory.sysFree s.mem ptr) := by
  have allocated := sound.accounted.lives ptr size isLive
  obtain ⟨page, len, -, -, behind, isHome⟩ := allocated.cell
  obtain ⟨c, isChunk⟩ := allocated.isChunk
  obtain ⟨inRange, -⟩ := sound.arenas.plain sound.owned rfl isChunk 0
    (sound.arenas.pageCnt_pos isChunk)
  rw [Nat.add_zero, isHome, ← ownFlags_eq] at inRange
  have notNull : ptr ≠ 0 := by
    simp only [arenaSize] at behind
    omega
  have inHeap : s.mem.pgdir ≠ none ∨ ptr ≥ kHeapStart := by
    refine or_iff_not_imp_left.mpr fun kernel => ?_
    rw [not_not] at kernel
    rw [Mem.ownFlags, if_pos kernel] at inRange
    have low : 0xc0100 ≤ page := inRange.1
    change 0xc0100000 ≤ ptr
    simp only [pgSize] at behind
    omega
  refine Avoids.bind (avoids_check fun _ => decide_eq_true notNull) fun _ _ => ?_
  refine Avoids.bind (avoids_check fun _ => decide_eq_true inHeap) fun _ _ => ?_
  refine (heapAssertion_upper.acquirePool s.mem _).bind fun held acquired => ?_
  have taken := sound.arenas.acquirePool sound.owned acquired
  have owner : held.owner = s.mem.owner := owner_congr taken.fixed
  refine heapAssertion_upper.readArena.bind fun ar read => ?_
  have release : ∀ worked : Mem, Avoids HeapAssertion (releasePool worked worked.ownFlags) :=
    fun worked => heapAssertion_upper.releasePool worked _
  cases allocated with
  | @block page descIdx isArena isBlock small fits =>
      obtain rfl : ptr / pgSize = page := (cut_blocksOf descIdx).home page ptr isBlock
      obtain ⟨frame, holds, -⟩ := taken.arenas.first isArena
      have header := taken.arenas.arena _ _ isArena
      rw [headerAt_eq holds] at header
      rw [block2arena, taken.owned.readArena_heap owner holds] at read
      obtain rfl := Except.ok.inj read
      rw [header.1, header.2]
      refine Avoids.bind ?_ fun worked _ => release worked
      refine taken.arenas.avoids_freeBlock taken.owned owner isArena isBlock ?_
      rw [taken.lists]
      intro isFree
      cases isLive.symm.trans ((sound.accounted.blocks _ _ isArena ptr isBlock).mp isFree)
  | @pages page isPages isStart large fits =>
      subst isStart
      have isHome := behindHeader_home page
      obtain ⟨frame, holds, -⟩ := taken.arenas.first isPages
      obtain ⟨header, positive, below⟩ := taken.arenas.pages _ _ isPages
      rw [headerAt_eq holds] at header
      rw [block2arena, isHome, taken.owned.readArena_heap owner holds, header] at read
      obtain rfl := Except.ok.inj read
      refine Avoids.bind ?_ fun worked _ => release worked
      dsimp only
      rw [block2arena, isHome, UInt32.toNat_ofNat_of_lt' (by simp only [UInt32.size]; omega),
        ownFlags_eq, owner]
      exact taken.owned.avoids_giveBack (taken.arenas.plain taken.owned owner isPages) positive

end Calls

end HongbaiOS.Memory
