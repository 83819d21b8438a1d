import HongbaiOS.Library.Slabs
import HongbaiOS.Memory.HeapContents
import HongbaiOS.Memory.ThreadPages

/-!
# The arenas of a heap

A heap belongs to the kernel or to a process.  It consists of chunks: arenas, which are
pages cut into blocks of one class, and runs of pages for larger requests.  Each starts with
a header, and the free blocks of all arenas of a class are on one list.
-/

namespace HongbaiOS.Memory

open HongbaiOS.Library HongbaiOS.Kernel HongbaiOS.Lib HongbaiOS.Thread

/-- Who allocates: all kernel threads together, or a process in its address space. -/
inductive Owner where
  | kernel
  | process (t : Tid) (dir : Nat)
  deriving DecidableEq

namespace Owner

def flags : Owner → PoolFlags
  | kernel => .kernel
  | process _ _ => .user

def desc : Owner → Fin 7 → DescRef
  | kernel => .kernel
  | process t _ => .user t

def place : Owner → Nat → Place
  | kernel => .kernelPage
  | process _ dir => .userPage dir

theorem desc_inj {o : Owner} {descIdx descIdx' : Fin 7} (same : o.desc descIdx = o.desc descIdx') :
    descIdx = descIdx' := by
  cases o with
  | kernel => exact DescRef.kernel.inj same
  | process t dir => exact (DescRef.user.inj same).2

@[simp]
theorem pool_place (o : Owner) (page : Nat) : (o.place page).pool = o.flags := by
  cases o <;> rfl

theorem place_inj {o : Owner} {page page' : Nat} (same : o.place page = o.place page') :
    page = page' := by
  cases o with
  | kernel => exact Place.kernelPage.inj same
  | process t dir => exact (Place.userPage.inj same).2

end Owner

/-- The heap that the running task uses. -/
def Mem.owner (m : Mem) : Owner :=
  if m.pgdir = none then .kernel else .process m.runningThread m.cr3

section Owners

variable {m m' : Mem}

theorem ownFlags_eq (m : Mem) : m.ownFlags = m.owner.flags := by
  unfold Mem.ownFlags Mem.owner
  split <;> rfl

theorem ownDesc_eq (m : Mem) (descIdx : Fin 7) : m.ownDesc descIdx = m.owner.desc descIdx := by
  unfold Mem.ownDesc Mem.owner
  split <;> rfl

theorem place_owner (m : Mem) (page : Nat) : m.place m.owner.flags page = m.owner.place page := by
  unfold Mem.owner
  split <;> rfl

theorem owner_congr (fixed : m'.fixed = m.fixed) : m'.owner = m.owner := by
  have running : m'.runningThread = m.runningThread := Coherent.running_congr fixed
  have cr3 : m'.cr3 = m.cr3 := congrArg Fixed.cr3 fixed
  rw [Mem.owner, Mem.owner, pgdir_congr fixed, running, cr3]

end Owners

/-- The number of blocks of an arena of a class. -/
def blocksPer (descIdx : Fin 7) : Nat := (pgSize - arenaSize) / blockSizeAt descIdx

/-- Block `k` of an arena. -/
def blockAt (descIdx : Fin 7) (page k : Nat) : Nat :=
  page * pgSize + arenaSize + k * blockSizeAt descIdx

def blocksOf (descIdx : Fin 7) (page : Nat) : List Nat :=
  (List.range (blocksPer descIdx)).map (blockAt descIdx page)

section Blocks

variable {descIdx : Fin 7} {page k : Nat}

theorem blocksPer_pos (descIdx : Fin 7) : 0 < blocksPer descIdx ∧ blocksPer descIdx < 2 ^ 32 := by
  revert descIdx
  decide

theorem blocksPer_fits (descIdx : Fin 7) :
    arenaSize + blocksPer descIdx * blockSizeAt descIdx ≤ pgSize := by
  revert descIdx
  decide

theorem blockAt_inside (inside : k < blocksPer descIdx) :
    page * pgSize + arenaSize ≤ blockAt descIdx page k ∧
      blockAt descIdx page k + blockSizeAt descIdx ≤ page * pgSize + pgSize := by
  have fits := blocksPer_fits descIdx
  have le : (k + 1) * blockSizeAt descIdx ≤ blocksPer descIdx * blockSizeAt descIdx :=
    Nat.mul_le_mul_right _ inside
  rw [Nat.succ_mul] at le
  unfold blockAt
  exact ⟨Nat.le_add_right _ _, by omega⟩

theorem blockAt_home (inside : k < blocksPer descIdx) : blockAt descIdx page k / pgSize = page := by
  have isInside : page * pgSize + arenaSize ≤ blockAt descIdx page k ∧
      blockAt descIdx page k + blockSizeAt descIdx ≤ page * pgSize + pgSize :=
    blockAt_inside inside
  have large := blockSizeAt_large descIdx
  refine Nat.div_eq_of_lt_le ?_ ?_
  · exact (Nat.le_add_right _ _).trans isInside.1
  · rw [Nat.succ_mul]
    omega

theorem mem_blocksOf {x : Nat} :
    x ∈ blocksOf descIdx page ↔ ∃ k < blocksPer descIdx, x = blockAt descIdx page k := by
  simp [blocksOf, eq_comm]

@[simp]
theorem length_blocksOf (descIdx : Fin 7) (page : Nat) :
    (blocksOf descIdx page).length = blocksPer descIdx := by
  simp [blocksOf]

theorem blockAt_inj {k' : Nat} (same : blockAt descIdx page k = blockAt descIdx page k') :
    k = k' := by
  have large := blockSizeAt_large descIdx
  exact Nat.eq_of_mul_eq_mul_right (by omega) (Nat.add_left_cancel same)

theorem cut_blocksOf (descIdx : Fin 7) : CutInto (· / pgSize) (blocksOf descIdx) where
  nodup := fun page => List.nodup_range.map fun _ _ same => blockAt_inj same
  home := by
    intro page x isBlock
    obtain ⟨k, inside, rfl⟩ := mem_blocksOf.mp isBlock
    exact blockAt_home inside

end Blocks

/-- What starts at a page of the heap. -/
inductive Chunk where
  | arena (descIdx : Fin 7)
  | pages (cnt : Nat)

def Chunk.pageCnt : Chunk → Nat
  | arena _ => 1
  | pages cnt => cnt

/-- The `struct arena` at the start of a page. -/
def Mem.headerAt (m : Mem) (o : Owner) (page : Nat) : Arena :=
  m.arena (entryFrame (m.entry (o.place page)))

/-- The chunks lie in pages of their own, their headers say what they are, and the free lists
and the counters agree. -/
structure Arenas (b : Book) (m : Mem) (o : Owner) (chunks : Nat → Option Chunk) : Prop where
  held : ∀ page c, chunks page = some c → ∀ i < c.pageCnt,
    ∃ phyaddr, b.held m (o.place (page + i)) = some (o.flags, phyaddr) ∧ phyaddr ∉ b.dirs
  apart : ∀ page c page' c', chunks page = some c → chunks page' = some c' → page ≤ page' →
    page' < page + c.pageCnt → page' = page
  arena : ∀ page descIdx, chunks page = some (.arena descIdx) →
    (m.headerAt o page).desc = some (o.desc descIdx) ∧ (m.headerAt o page).large = false
  pages : ∀ page cnt, chunks page = some (.pages cnt) →
    m.headerAt o page = ⟨none, true, UInt32.ofNat cnt⟩ ∧ 0 < cnt ∧ cnt < 3840
  slabs : ∀ descIdx, Slabs (· / pgSize) (blocksOf descIdx)
    {page | chunks page = some (.arena descIdx)} (m.desc (o.desc descIdx)).freeList
    fun page => (m.headerAt o page).cnt.toNat
  sizes : ∀ descIdx, (m.desc (o.desc descIdx)).blockSize = blockSizeAt descIdx ∧
    (m.desc (o.desc descIdx)).blockPerArena = blocksPer descIdx

section Arenas

variable {b b' : Book} {m m' : Mem} {o : Owner} {chunks : Nat → Option Chunk} {page cnt : Nat}
  {descIdx : Fin 7}

theorem Arenas.pageCnt_pos (arenas : Arenas b m o chunks) {c : Chunk}
    (isChunk : chunks page = some c) : 0 < c.pageCnt := by
  cases c with
  | arena descIdx => exact Nat.one_pos
  | pages cnt => exact (arenas.pages page cnt isChunk).2.1

theorem headerAt_eq {pf : PoolFlags} {frame : Nat}
    (holds : b.held m (o.place page) = some (pf, frame)) : m.headerAt o page = m.arena frame := by
  have isFrame := (Prod.mk.inj (Book.held_eq_some.mp holds).2).2
  rw [Mem.headerAt, isFrame]

/-- A step that leaves the pages, the headers and the lists of the heap alone. -/
theorem Arenas.congr (arenas : Arenas b m o chunks)
    (held : ∀ page c, chunks page = some c → ∀ i < c.pageCnt, ∀ frame,
      b.held m (o.place (page + i)) = some (o.flags, frame) → frame ∉ b.dirs →
      b'.held m' (o.place (page + i)) = some (o.flags, frame) ∧ m'.arena frame = m.arena frame ∧
        frame ∉ b'.dirs)
    (desc : ∀ descIdx, m'.desc (o.desc descIdx) = m.desc (o.desc descIdx)) :
    Arenas b' m' o chunks := by
  have headers : ∀ page c, chunks page = some c → m'.headerAt o page = m.headerAt o page := by
    intro page c isChunk
    have positive := arenas.pageCnt_pos isChunk
    obtain ⟨frame, holds, notDir⟩ := arenas.held page c isChunk 0 positive
    obtain ⟨holds', same, -⟩ := held page c isChunk 0 positive frame holds notDir
    rw [Nat.add_zero] at holds holds'
    rw [headerAt_eq holds', headerAt_eq holds, same]
  refine ⟨?_, arenas.apart, ?_, ?_, ?_, ?_⟩
  · intro page c isChunk i inside
    obtain ⟨frame, holds, notDir⟩ := arenas.held page c isChunk i inside
    obtain ⟨holds', -, notDir'⟩ := held page c isChunk i inside frame holds notDir
    exact ⟨frame, holds', notDir'⟩
  · intro page descIdx isChunk
    rw [headers page _ isChunk]
    exact arenas.arena page descIdx isChunk
  · intro page cnt isChunk
    rw [headers page _ isChunk]
    exact arenas.pages page cnt isChunk
  · intro descIdx
    rw [desc]
    exact (arenas.slabs descIdx).congr fun page isChunk => by rw [headers page _ isChunk]
  · intro descIdx
    rw [desc]
    exact arenas.sizes descIdx

/-- A heap that is not in use has no chunks. -/
theorem Arenas.start (b : Book) (fresh : ∀ descIdx, m.desc (o.desc descIdx) = blockInit descIdx) :
    Arenas b m o fun _ => none := by
  refine ⟨nofun, nofun, nofun, nofun, ?_, ?_⟩
  · intro descIdx
    rw [fresh]
    exact ⟨List.nodup_nil, fun _ impossible => absurd impossible List.not_mem_nil, nofun⟩
  · intro descIdx
    rw [fresh]
    exact ⟨rfl, rfl⟩

end Arenas

end HongbaiOS.Memory
