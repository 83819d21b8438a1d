import HongbaiOS.Memory.ArenaAlloc

/-!
# Allocations

The allocations in use, and how they go with the chunks and the free lists of the heap: what
`sys_malloc` and `sys_free` do to the account, as facts about these three alone.
-/

namespace HongbaiOS.Memory

open HongbaiOS.Library HongbaiOS.Kernel HongbaiOS.Lib HongbaiOS.Thread

/-- The chunk that an allocation of `size` bytes is in. -/
inductive AllocatedIn (chunks : Nat → Option Chunk) (ptr size : Nat) : Prop
  | block {page : Nat} {descIdx : Fin 7} (isArena : chunks page = some (.arena descIdx))
      (isBlock : ptr ∈ blocksOf descIdx page) (small : size ≤ 1024)
      (fits : size ≤ blockSizeAt descIdx)
  | pages {page : Nat} (isPages : chunks page = some (.pages (largePages size)))
      (isStart : ptr = page * pgSize + arenaSize) (large : 1024 < size)
      (fits : size + arenaSize ≤ largePages size * pgSize)

/-- Each live allocation has its chunk, and of the blocks of an arena exactly those are on the
free list that are not live. -/
structure Accounted (chunks : Nat → Option Chunk) (lists : Fin 7 → List Nat)
    (live : Address → Option Nat) : Prop where
  lives : ∀ ptr size, live ptr = some size → AllocatedIn chunks ptr size
  blocks : ∀ page descIdx, chunks page = some (.arena descIdx) →
    ∀ x ∈ blocksOf descIdx page, x ∈ lists descIdx ↔ live x = none

section Accounts

variable {chunks chunks' : Nat → Option Chunk} {lists : Fin 7 → List Nat}
  {live : Address → Option Nat} {page ptr size x : Nat} {descIdx : Fin 7} {rest : List Nat}

/-- Where the pages of a large request start. -/
theorem behindHeader_home (page : Nat) : (page * pgSize + arenaSize) / pgSize = page :=
  Nat.div_eq_of_lt_le (by simp only [pgSize, arenaSize]; omega)
    (by simp only [pgSize, arenaSize]; omega)

theorem AllocatedIn.mono (allocated : AllocatedIn chunks ptr size)
    (kept : ∀ page c, ptr / pgSize = page → chunks page = some c → chunks' page = some c) :
    AllocatedIn chunks' ptr size := by
  cases allocated with
  | block isArena isBlock small fits =>
      have isHome := (cut_blocksOf _).home _ _ isBlock
      exact .block (kept _ _ isHome isArena) isBlock small fits
  | @pages page isPages isStart large fits =>
      subst isStart
      exact .pages (kept page _ (behindHeader_home page) isPages) rfl large fits

theorem AllocatedIn.isChunk (allocated : AllocatedIn chunks ptr size) :
    ∃ c, chunks (ptr / pgSize) = some c := by
  cases allocated with
  | block isArena isBlock small fits =>
      exact ⟨_, ((cut_blocksOf _).home _ _ isBlock).symm ▸ isArena⟩
  | @pages page isPages isStart large fits =>
      subst isStart
      exact ⟨_, (behindHeader_home page).symm ▸ isPages⟩

theorem Accounted.not_live (accounted : Accounted chunks lists live)
    (isNew : chunks (ptr / pgSize) = none) : live ptr = none := by
  by_contra isLive
  obtain ⟨size, isLive⟩ := Option.ne_none_iff_exists'.mp isLive
  obtain ⟨c, isChunk⟩ := (accounted.lives ptr size isLive).isChunk
  cases isNew.symm.trans isChunk

theorem Accounted.addArena (accounted : Accounted chunks lists live) (descIdx : Fin 7)
    (isNew : chunks page = none) :
    Accounted (Function.update chunks page (some (.arena descIdx)))
      (Function.update lists descIdx (lists descIdx ++ blocksOf descIdx page)) live := by
  refine ⟨fun ptr size isLive => ?_, fun page' descIdx' isArena x isBlock => ?_⟩
  · refine (accounted.lives ptr size isLive).mono fun page' c _ isChunk => ?_
    exact (update_eq_some_iff isNew).mpr (.inr isChunk)
  · have isHome : x / pgSize = page' := (cut_blocksOf descIdx').home page' x isBlock
    rcases (update_eq_some_iff isNew).mp isArena with ⟨rfl, isClass⟩ | before
    · obtain rfl := Chunk.arena.inj isClass
      have dead : live x = none := accounted.not_live (isHome ▸ isNew)
      rw [Function.update_self]
      exact iff_of_true (List.mem_append_right _ isBlock) dead
    · rw [← accounted.blocks page' descIdx' before x isBlock]
      by_cases same : descIdx' = descIdx
      · subst same
        rw [Function.update_self, List.mem_append]
        refine or_iff_left fun isBlock' => ?_
        obtain rfl : page' = page :=
          isHome.symm.trans ((cut_blocksOf descIdx').home page x isBlock')
        cases isNew.symm.trans before
      · rw [Function.update_of_ne same]

theorem Accounted.addPages (accounted : Accounted chunks lists live) (isNew : chunks page = none)
    (large : 1024 < size) (fits : size + arenaSize ≤ largePages size * pgSize) :
    Accounted (Function.update chunks page (some (.pages (largePages size)))) lists
      (Function.update live (page * pgSize + arenaSize) (some size)) := by
  have kept : ∀ page' c, chunks page' = some c →
      Function.update chunks page (some (.pages (largePages size))) page' = some c :=
    fun page' c isChunk => (update_eq_some_iff isNew).mpr (.inr isChunk)
  refine ⟨fun ptr size' isLive => ?_, fun page' descIdx' isArena x isBlock => ?_⟩
  · by_cases same : ptr = page * pgSize + arenaSize
    · subst same
      rw [Function.update_self] at isLive
      obtain rfl := Option.some.inj isLive
      exact .pages (Function.update_self _ _ _) rfl large fits
    · rw [Function.update_of_ne same] at isLive
      exact (accounted.lives ptr size' isLive).mono fun page' c _ => kept page' c
  · rcases (update_eq_some_iff isNew).mp isArena with ⟨-, isPages⟩ | isArena
    · cases isPages
    · have isHome : x / pgSize = page' := (cut_blocksOf descIdx').home page' x isBlock
      have other : x ≠ page * pgSize + arenaSize := by
        rintro rfl
        rw [behindHeader_home] at isHome
        subst isHome
        cases isNew.symm.trans isArena
      rw [Function.update_of_ne other]
      exact accounted.blocks page' descIdx' isArena x isBlock

theorem Accounted.take (accounted : Accounted chunks lists live) (list : lists descIdx = x :: rest)
    (nodup : (x :: rest).Nodup) (isArena : chunks page = some (.arena descIdx))
    (isBlock : x ∈ blocksOf descIdx page) (small : size ≤ 1024)
    (fits : size ≤ blockSizeAt descIdx) :
    Accounted chunks (Function.update lists descIdx rest) (Function.update live x (some size)) := by
  refine ⟨fun ptr size' isLive => ?_, fun page' descIdx' isArena' y isBlock' => ?_⟩
  · by_cases same : ptr = x
    · subst same
      rw [Function.update_self] at isLive
      obtain rfl := Option.some.inj isLive
      exact .block isArena isBlock small fits
    · rw [Function.update_of_ne same] at isLive
      exact accounted.lives ptr size' isLive
  · have isHome := (cut_blocksOf descIdx).home page x isBlock
    have isHome' := (cut_blocksOf descIdx').home page' y isBlock'
    have old := accounted.blocks page' descIdx' isArena' y isBlock'
    by_cases same : y = x
    · subst same
      obtain rfl : page' = page := isHome'.symm.trans isHome
      obtain rfl := Chunk.arena.inj (Option.some.inj (isArena'.symm.trans isArena))
      rw [Function.update_self, Function.update_self]
      exact iff_of_false (List.nodup_cons.mp nodup).1 (Option.some_ne_none size)
    · rw [Function.update_of_ne same, ← old]
      by_cases sameClass : descIdx' = descIdx
      · subst sameClass
        rw [Function.update_self, list, List.mem_cons, or_iff_right same]
      · rw [Function.update_of_ne sameClass]

theorem Accounted.give (accounted : Accounted chunks lists live)
    (isArena : chunks page = some (.arena descIdx)) (isBlock : x ∈ blocksOf descIdx page) :
    Accounted chunks (Function.update lists descIdx (lists descIdx ++ [x]))
      (Function.update live x none) := by
  refine ⟨fun ptr size' isLive => ?_, fun page' descIdx' isArena' y isBlock' => ?_⟩
  · by_cases same : ptr = x
    · subst same
      rw [Function.update_self] at isLive
      cases isLive
    · rw [Function.update_of_ne same] at isLive
      exact accounted.lives ptr size' isLive
  · have isHome := (cut_blocksOf descIdx).home page x isBlock
    have isHome' := (cut_blocksOf descIdx').home page' y isBlock'
    by_cases same : y = x
    · subst same
      obtain rfl : page' = page := isHome'.symm.trans isHome
      obtain rfl := Chunk.arena.inj (Option.some.inj (isArena'.symm.trans isArena))
      rw [Function.update_self, Function.update_self]
      exact iff_of_true (by simp) rfl
    · rw [Function.update_of_ne same, ← accounted.blocks page' descIdx' isArena' y isBlock']
      by_cases sameClass : descIdx' = descIdx
      · subst sameClass
        rw [Function.update_self, List.mem_append, List.mem_singleton, or_iff_left same]
      · rw [Function.update_of_ne sameClass]

/-- The pages of a large request are no longer in use. -/
theorem Accounted.drop {cnt : Nat} (accounted : Accounted chunks lists live)
    (isPages : chunks page = some (.pages cnt)) :
    Accounted chunks lists (Function.update live (page * pgSize + arenaSize) none) := by
  refine ⟨fun ptr size isLive => ?_, fun page' descIdx isArena x isBlock => ?_⟩
  · by_cases same : ptr = page * pgSize + arenaSize
    · subst same
      rw [Function.update_self] at isLive
      cases isLive
    · rw [Function.update_of_ne same] at isLive
      exact accounted.lives ptr size isLive
  · have isHome : x / pgSize = page' := (cut_blocksOf descIdx).home page' x isBlock
    rw [Function.update_of_ne, accounted.blocks page' descIdx isArena x isBlock]
    rintro rfl
    rw [behindHeader_home] at isHome
    subst isHome
    cases isArena.symm.trans isPages

/-- A run of pages holds one allocation only. -/
theorem Accounted.alone {cnt : Nat} (accounted : Accounted chunks lists live)
    (isPages : chunks page = some (.pages cnt)) (isHome : ptr / pgSize = page)
    (isLive : live ptr = some size) : ptr = page * pgSize + arenaSize := by
  cases accounted.lives ptr size isLive with
  | @block page' descIdx isArena isBlock small fits =>
      obtain rfl := isHome.symm.trans ((cut_blocksOf descIdx).home page' ptr isBlock)
      cases isArena.symm.trans isPages
  | @pages page' isPages' isStart large fits =>
      rw [isStart, behindHeader_home] at isHome
      rw [isStart, isHome]

theorem Accounted.all_free_iff (accounted : Accounted chunks lists live) (x : Nat)
    (isArena : chunks page = some (.arena descIdx)) :
    (∀ y ∈ blocksOf descIdx page, y ∈ lists descIdx ++ [x]) ↔
      ∀ other, other ≠ x → other / pgSize = page → live other = none := by
  constructor
  · intro all other notThis isHome
    by_contra isLive
    obtain ⟨size, isLive⟩ := Option.ne_none_iff_exists'.mp isLive
    cases accounted.lives other size isLive with
    | @block page' descIdx' isArena' isBlock small fits =>
        obtain rfl := isHome.symm.trans ((cut_blocksOf descIdx').home page' other isBlock)
        obtain rfl := Chunk.arena.inj (Option.some.inj (isArena'.symm.trans isArena))
        rcases List.mem_append.mp (all other isBlock) with isFree | isThis
        · cases isLive.symm.trans ((accounted.blocks _ _ isArena other isBlock).mp isFree)
        · exact notThis (List.mem_singleton.mp isThis)
    | @pages page' isPages isStart large fits =>
        rw [isStart, behindHeader_home] at isHome
        subst isHome
        cases isArena.symm.trans isPages
  · intro dead y isBlock
    by_cases same : y = x
    · exact List.mem_append_right _ (List.mem_singleton.mpr same)
    · have isHome := (cut_blocksOf descIdx).home page y isBlock
      exact List.mem_append_left _
        ((accounted.blocks page descIdx isArena y isBlock).mpr (dead y same isHome))

theorem Accounted.remove {lists' : Fin 7 → List Nat} (accounted : Accounted chunks lists live)
    (dead : ∀ ptr, ptr / pgSize = page → live ptr = none)
    (others : ∀ descIdx x, x / pgSize ≠ page → (x ∈ lists' descIdx ↔ x ∈ lists descIdx)) :
    Accounted (Function.update chunks page none) lists' live := by
  refine ⟨fun ptr size isLive => ?_, fun page' descIdx' isArena x isBlock => ?_⟩
  · refine (accounted.lives ptr size isLive).mono fun page' c isHome isChunk => ?_
    rw [Function.update_of_ne, isChunk]
    rintro rfl
    cases (dead ptr isHome).symm.trans isLive
  · by_cases same : page' = page
    · subst same
      rw [Function.update_self] at isArena
      cases isArena
    · rw [Function.update_of_ne same] at isArena
      have isHome : x / pgSize = page' := (cut_blocksOf descIdx').home page' x isBlock
      rw [others descIdx' x (isHome ▸ same)]
      exact accounted.blocks page' descIdx' isArena x isBlock

end Accounts

/-- Two runs of bytes do not overlap. -/
def Apart (start len start' len' : Nat) : Prop := start + len ≤ start' ∨ start' + len' ≤ start

theorem Apart.mono {start len len₁ start' len' len₁' : Nat} (apart : Apart start len start' len')
    (le : len₁ ≤ len) (le' : len₁' ≤ len') : Apart start len₁ start' len₁' := by
  unfold Apart at apart ⊢
  omega

/-- What a heap consists of: the headers of the chunks, the blocks and the larger areas. -/
inductive Cell (chunks : Nat → Option Chunk) (page : Nat) : (start len : Nat) → Prop
  | header {c : Chunk} (isChunk : chunks page = some c) : Cell chunks page (page * pgSize) arenaSize
  | block {k : Nat} {descIdx : Fin 7} (isArena : chunks page = some (.arena descIdx))
      (inside : k < blocksPer descIdx) :
      Cell chunks page (blockAt descIdx page k) (blockSizeAt descIdx)
  | pages {cnt : Nat} (isPages : chunks page = some (.pages cnt)) :
      Cell chunks page (page * pgSize + arenaSize) (cnt * pgSize - arenaSize)

section Cells

variable {chunks : Nat → Option Chunk} {page page' start start' len len' ptr size : Nat} {c : Chunk}

theorem Cell.inside (cell : Cell chunks page start len)
    (positive : ∀ page c, chunks page = some c → 0 < c.pageCnt) :
    ∃ c, chunks page = some c ∧ page * pgSize ≤ start ∧
      start + len ≤ (page + c.pageCnt) * pgSize := by
  cases cell with
  | @header c isChunk =>
      have one : pgSize ≤ c.pageCnt * pgSize := Nat.le_mul_of_pos_left _ (positive page c isChunk)
      refine ⟨c, isChunk, le_rfl, ?_⟩
      rw [Nat.add_mul]
      simp only [arenaSize, pgSize] at one ⊢
      omega
  | @block k descIdx isArena inside =>
      have isInside : page * pgSize + arenaSize ≤ blockAt descIdx page k ∧
          blockAt descIdx page k + blockSizeAt descIdx ≤ page * pgSize + pgSize :=
        blockAt_inside inside
      refine ⟨_, isArena, by omega, ?_⟩
      rw [Chunk.pageCnt, Nat.add_mul, Nat.one_mul]
      exact isInside.2
  | @pages cnt isPages =>
      have one : pgSize ≤ cnt * pgSize := Nat.le_mul_of_pos_left _ (positive page _ isPages)
      refine ⟨_, isPages, Nat.le_add_right _ _, ?_⟩
      rw [Chunk.pageCnt, Nat.add_mul]
      simp only [arenaSize, pgSize] at one ⊢
      omega

theorem blockAt_apart {descIdx : Fin 7} {k k' : Nat} (other : k ≠ k') :
    Apart (blockAt descIdx page k) (blockSizeAt descIdx) (blockAt descIdx page k')
      (blockSizeAt descIdx) := by
  unfold Apart blockAt
  rcases Nat.lt_or_gt_of_ne other with less | less
  · have le : (k + 1) * blockSizeAt descIdx ≤ k' * blockSizeAt descIdx :=
      Nat.mul_le_mul_right _ less
    rw [Nat.succ_mul] at le
    exact .inl (by omega)
  · have le : (k' + 1) * blockSizeAt descIdx ≤ k * blockSizeAt descIdx :=
      Nat.mul_le_mul_right _ less
    rw [Nat.succ_mul] at le
    exact .inr (by omega)

theorem Cell.apart_here (cell : Cell chunks page start len) (cell' : Cell chunks page start' len')
    (other : start ≠ start') : Apart start len start' len' := by
  cases cell with
  | header isChunk =>
      cases cell' with
      | header => exact absurd rfl other
      | block isArena inside => exact .inl (blockAt_inside inside).1
      | pages isPages => exact .inl le_rfl
  | block isArena inside =>
      cases cell' with
      | header => exact .inr (blockAt_inside inside).1
      | block isArena' inside' =>
          obtain rfl := Chunk.arena.inj (Option.some.inj (isArena.symm.trans isArena'))
          exact blockAt_apart fun same => other (congrArg _ same)
      | pages isPages => cases isArena.symm.trans isPages
  | pages isPages =>
      cases cell' with
      | header => exact .inr le_rfl
      | block isArena => cases isArena.symm.trans isPages
      | pages => exact absurd rfl other

theorem Cell.apart (cell : Cell chunks page start len) (cell' : Cell chunks page' start' len')
    (positive : ∀ page c, chunks page = some c → 0 < c.pageCnt)
    (chunksApart : ∀ page c page' c', chunks page = some c → chunks page' = some c' →
      page ≤ page' → page' < page + c.pageCnt → page' = page)
    (other : start ≠ start') : Apart start len start' len' := by
  obtain ⟨c, isChunk, low, high⟩ := cell.inside positive
  obtain ⟨c', isChunk', low', high'⟩ := cell'.inside positive
  by_cases same : page' = page
  · subst same
    exact cell.apart_here cell' other
  · rcases Nat.le_total page page' with below | above
    · have behind : page + c.pageCnt ≤ page' :=
        Nat.le_of_not_lt fun less => same (chunksApart page c page' c' isChunk isChunk' below less)
      exact .inl (high.trans ((Nat.mul_le_mul_right _ behind).trans low'))
    · have behind : page' + c'.pageCnt ≤ page := Nat.le_of_not_lt
        fun less => same (chunksApart page' c' page c isChunk' isChunk above less).symm
      exact .inr (high'.trans ((Nat.mul_le_mul_right _ behind).trans low))

theorem AllocatedIn.cell (allocated : AllocatedIn chunks ptr size) :
    ∃ page len, Cell chunks page ptr len ∧ size ≤ len ∧ page * pgSize + arenaSize ≤ ptr ∧
      ptr / pgSize = page := by
  cases allocated with
  | @block page descIdx isArena isBlock small fits =>
      obtain ⟨k, inside, rfl⟩ := mem_blocksOf.mp isBlock
      exact ⟨page, _, .block isArena inside, fits, (blockAt_inside inside).1, blockAt_home inside⟩
  | @pages page isPages isStart large fits =>
      subst isStart
      exact ⟨page, _, .pages isPages, Nat.le_sub_of_add_le fits, le_rfl, behindHeader_home page⟩

end Cells

end HongbaiOS.Memory
