import HongbaiOS.Memory.Frames
import Mathlib.Order.CompletePartialOrder

/-!
# How `mem_pool_init` divides memory

The two pools and the three bitmaps, for every size of the memory that the source says the
system supports.  The number of free pages is kept in a `uint16_t`, so that above 258 MB
a multiple of `2 ^ 16` pages is left out.
-/

namespace HongbaiOS.Memory

open HongbaiOS.Library HongbaiOS.Kernel HongbaiOS.Lib HongbaiOS.Thread

/-- `MEM_BITMAP_BASE` -/
def memBitmapBase : Address := 0xc009a000

/-- The `btmp_bits` that `mem_pool_init` gives to the bitmaps of the pools. -/
def Mem.poolBits (m : Mem) : PoolFlags → Nat
  | .kernel => memBitmapBase
  | .user => wrap (memBitmapBase + m.kernelPool.poolBitmap.btmpBytesLen)

/-- The `btmp_bits` of `kernel_vaddr.vaddr_bitmap`. -/
def Mem.kernelVaddrBits (m : Mem) : Nat :=
  wrap (memBitmapBase + m.kernelPool.poolBitmap.btmpBytesLen +
    m.userPool.poolBitmap.btmpBytesLen)

/-- The bytes of an object of `len` bytes at `start`. -/
def span (start len : Nat) : Set Nat := {a | start ≤ a ∧ a < start + len}

/-- The frames of a pool, whether its bitmap reaches them or not. -/
def Mem.poolSpan (m : Mem) (pf : PoolFlags) : Set Nat :=
  span (m.pool pf).phyAddrStart (m.pool pf).poolSize

/-- All free frames are in the two pools, each bit of a bitmap stands for a frame of its own
pool, and the bitmaps fit below the PCB of the main thread. -/
structure Divided (m : Mem) (allMem : Nat) : Prop where
  frames : ∃ kernelFrames userFrames, kernelFrames + userFrames = (allMem - 0x200000) / 4096 ∧
    m.kernelPool.poolSize = kernelFrames * 4096 ∧ m.userPool.poolSize = userFrames * 4096 ∧
    m.kernelPool.poolBitmap.btmpBytesLen = kernelFrames / 8 ∧
    m.userPool.poolBitmap.btmpBytesLen = userFrames / 8
  disjoint : Disjoint (m.poolSpan .kernel) (m.poolSpan .user)
  inside : ∀ pf, m.poolSpan pf ⊆ {a | 0x200000 ≤ a ∧ a < allMem}
  ownFrame : ∀ pf, ∀ i < (m.pool pf).poolBitmap.bitLen,
    span ((m.pool pf).phyAddrStart + i * 4096) 4096 ⊆ m.poolSpan pf ∧
      pfree m (wrap ((m.pool pf).phyAddrStart + i * pgSize)) =
        .ok (m.setPoolBitmap pf ((m.pool pf).poolBitmap.put i false))
  bitmaps : m.poolBits .kernel = memBitmapBase ∧
    m.poolBits .kernel + m.kernelPool.poolBitmap.btmpBytesLen ≤ m.poolBits .user ∧
    m.poolBits .user + m.userPool.poolBitmap.btmpBytesLen ≤ m.kernelVaddrBits ∧
    m.kernelVaddrBits + m.kernelVaddr.vaddrBitmap.btmpBytesLen ≤ mainThread

section

variable {m : Mem} {allMem : Nat}

/-- The pages that the `uint16_t` counts. -/
def countedPages (allMem : Nat) : Nat := (allMem - 0x200000) / 4096 % 2 ^ 16

/-- What `mem_pool_init` stores, for a size that leaves memory and fits in 32 bits. -/
structure PoolsSet (m : Mem) (pages : Nat) : Prop where
  kernelStart : m.kernelPool.phyAddrStart = 0x200000
  userStart : m.userPool.phyAddrStart = 0x200000 + pages / 2 * 4096
  kernelSize : m.kernelPool.poolSize = pages / 2 * 4096
  userSize : m.userPool.poolSize = (pages - pages / 2) * 4096
  kernelLen : m.kernelPool.poolBitmap.btmpBytesLen = pages / 2 / 8
  userLen : m.userPool.poolBitmap.btmpBytesLen = (pages - pages / 2) / 8
  heapLen : m.kernelVaddr.vaddrBitmap.btmpBytesLen = pages / 2 / 8

theorem memPoolInit_sets (m : Mem) (above : 0x200000 ≤ allMem) (small : allMem < 2 ^ 32) :
    PoolsSet (memPoolInit m allMem) (countedPages allMem) := by
  let used := 256 * pgSize + 0x100000
  let pages := wrapSub allMem used / pgSize % 2 ^ 16
  have kernel : (memPoolInit m allMem).kernelPool =
      ⟨⟨pages / 2 / 8, Bytes.fill 0⟩, lockInit, used, pages / 2 * pgSize⟩ := rfl
  have user : (memPoolInit m allMem).userPool =
      ⟨⟨(pages - pages / 2) / 8, Bytes.fill 0⟩, lockInit, wrap (used + pages / 2 * pgSize),
        (pages - pages / 2) * pgSize⟩ := rfl
  have heap : (memPoolInit m allMem).kernelVaddr =
      ⟨⟨pages / 2 / 8, Bytes.fill 0⟩, kHeapStart⟩ := rfl
  have used_eq : used = 0x200000 := rfl
  have counted : pages = countedPages allMem := by
    have free : wrapSub allMem used = allMem - 0x200000 := by
      change (allMem + (2 ^ 32 - used % 2 ^ 32)) % 2 ^ 32 = _
      rw [used_eq]
      omega
    change wrapSub allMem used / 4096 % 2 ^ 16 = _
    rw [free, countedPages]
  have few : countedPages allMem < 2 ^ 16 := Nat.mod_lt _ (by decide)
  have size : pgSize = 4096 := rfl
  clear_value used pages
  subst used_eq counted
  refine ⟨?_, ?_, ?_, ?_, ?_, ?_, ?_⟩
  · rw [kernel]
  · rw [user, size]
    exact Nat.mod_eq_of_lt (by omega)
  · rw [kernel, size]
  · rw [user, size]
  · rw [kernel]
  · rw [user]
  · rw [heap]

theorem frame_index {start i : Nat} (small : start + i * 4096 < 2 ^ 32) :
    wrap (start + i * pgSize) = start + i * 4096 ∧
      wrapSub (start + i * 4096) start / pgSize = i := by
  refine ⟨Nat.mod_eq_of_lt small, ?_⟩
  change (start + i * 4096 + (2 ^ 32 - start % 2 ^ 32)) % 2 ^ 32 / 4096 = i
  omega

theorem PoolsSet.pfree_eq {pages i : Nat} {pf : PoolFlags} (sets : PoolsSet m pages)
    (counted : pages < 2 ^ 16) (inside : i < (m.pool pf).poolBitmap.bitLen) :
    pfree m (wrap ((m.pool pf).phyAddrStart + i * pgSize)) =
      .ok (m.setPoolBitmap pf ((m.pool pf).poolBitmap.put i false)) := by
  have place : ∃ start : Nat, (m.pool pf).phyAddrStart = start ∧ start + i * 4096 < 2 ^ 32 ∧
      (pf = .user ↔ 0x200000 + pages / 2 * 4096 ≤ start + i * 4096) := by
    cases pf with
    | kernel =>
        rw [Mem.pool, Bitmap.bitLen, sets.kernelLen] at inside
        refine ⟨0x200000, sets.kernelStart, by omega, ?_⟩
        simp only [reduceCtorEq, false_iff]
        omega
    | user =>
        rw [Mem.pool, Bitmap.bitLen, sets.userLen] at inside
        refine ⟨_, sets.userStart, by omega, ?_⟩
        simp only [true_iff]
        omega
  obtain ⟨start, isStart, small, isUser⟩ := place
  obtain ⟨noWrap, index⟩ := frame_index small
  have flags : (if start + i * 4096 ≥ m.userPool.phyAddrStart then PoolFlags.user
      else .kernel) = pf := by
    rw [sets.userStart]
    cases pf with
    | kernel => exact if_neg fun high => PoolFlags.noConfusion (isUser.mpr high)
    | user => exact if_pos (isUser.mp rfl)
  rw [isStart, noWrap, pfree]
  simp only [flags, isStart, index, bitmapSet_eq inside, ok_bind, pure_eq_ok]

theorem span_subset {start len start' len' : Nat} (low : start' ≤ start)
    (high : start + len ≤ start' + len') : span start len ⊆ span start' len' :=
  fun _ inside => ⟨low.trans inside.1, inside.2.trans_le high⟩

theorem PoolsSet.divided {pages : Nat} (sets : PoolsSet m pages) (counted : pages < 2 ^ 16)
    (all : pages = (allMem - 0x200000) / 4096) (above : 0x200000 < allMem) :
    Divided m allMem := by
  have kernelSpan : m.poolSpan .kernel = span 0x200000 (pages / 2 * 4096) := by
    rw [Mem.poolSpan, Mem.pool, sets.kernelStart, sets.kernelSize]
  have userSpan : m.poolSpan .user =
      span (0x200000 + pages / 2 * 4096) ((pages - pages / 2) * 4096) := by
    rw [Mem.poolSpan, Mem.pool, sets.userStart, sets.userSize]
  constructor
  · exact ⟨pages / 2, pages - pages / 2, by omega, sets.kernelSize, sets.userSize,
      sets.kernelLen, sets.userLen⟩
  · rw [kernelSpan, userSpan, Set.disjoint_left]
    intro a low high
    exact absurd low.2 (Nat.not_lt.mpr high.1)
  · intro pf a inside
    cases pf with
    | kernel =>
        rw [kernelSpan] at inside
        exact ⟨inside.1, inside.2.trans_le (by omega)⟩
    | user =>
        rw [userSpan] at inside
        exact ⟨(Nat.le_add_right _ _).trans inside.1, inside.2.trans_le (by omega)⟩
  · intro pf i inside
    refine ⟨?_, sets.pfree_eq counted inside⟩
    cases pf with
    | kernel =>
        rw [Mem.pool, Bitmap.bitLen, sets.kernelLen] at inside
        rw [kernelSpan, Mem.pool, sets.kernelStart]
        exact span_subset (by omega) (by omega)
    | user =>
        rw [Mem.pool, Bitmap.bitLen, sets.userLen] at inside
        rw [userSpan, Mem.pool, sets.userStart]
        exact span_subset (by omega) (by omega)
  · have base : memBitmapBase = 0xc009a000 := rfl
    have kernelBits : m.poolBits .kernel = 0xc009a000 := rfl
    have userBits : m.poolBits .user = 0xc009a000 + pages / 2 / 8 := by
      rw [Mem.poolBits, sets.kernelLen, base]
      exact Nat.mod_eq_of_lt (by omega)
    have heapBits : m.kernelVaddrBits =
        0xc009a000 + pages / 2 / 8 + (pages - pages / 2) / 8 := by
      rw [Mem.kernelVaddrBits, sets.kernelLen, sets.userLen, base]
      exact Nat.mod_eq_of_lt (by omega)
    rw [kernelBits, userBits, heapBits, sets.kernelLen, sets.userLen, sets.heapLen]
    refine ⟨rfl, le_rfl, le_rfl, ?_⟩
    change _ ≤ 0xc009e000
    omega

/-- Every free frame is in a pool exactly if their number fits in the `uint16_t`. -/
theorem divided_iff (m : Mem) (above : 0x200000 < allMem) (supported : allMem ≤ 0x20000000) :
    Divided (memPoolInit m allMem) allMem ↔ allMem < 0x10200000 := by
  have sets := memPoolInit_sets m above.le (supported.trans_lt (by decide))
  have counted : countedPages allMem < 2 ^ 16 := Nat.mod_lt _ (by decide)
  constructor
  · intro divided
    obtain ⟨kernelFrames, userFrames, all, kernelSize, userSize, -, -⟩ := divided.frames
    rw [sets.kernelSize] at kernelSize
    rw [sets.userSize] at userSize
    omega
  · intro fits
    refine sets.divided counted ?_ above
    exact Nat.mod_eq_of_lt (by omega)

/-- The 32 MB of the machine that the system is run on. -/
theorem divided_32MB : Divided (memPoolInit powerOn 0x2000000) 0x2000000 :=
  (divided_iff powerOn (by decide) (by decide)).mpr (by decide)

/-- With 512 MB only 65024 of the 130560 free frames are in a pool. -/
theorem not_divided_512MB : ¬ Divided (memPoolInit powerOn 0x20000000) 0x20000000 := by
  rw [divided_iff powerOn (by decide) le_rfl]
  decide

end

end HongbaiOS.Memory
