import HongbaiOS.Memory.Paging

/-!
# The heap

`sys_malloc` and `sys_free`.  A request above 1024 bytes gets pages of its own; a
smaller one gets a block of an arena, a page cut into blocks of one of seven
sizes.  Both start with a `struct arena`, which `sys_free` finds by rounding the
pointer down to a page.
-/

namespace HongbaiOS.Memory

open HongbaiOS.Library HongbaiOS.Kernel HongbaiOS.Lib HongbaiOS.Thread

/-- `block_size` in round `descIdx` of the loop of `block_init`, a `uint16_t`. -/
def blockSizeAt : Nat → Nat
  | 0 => 16
  | descIdx + 1 => blockSizeAt descIdx * 2 % 2 ^ 16

/-- `block_init(desc_array)` -/
def blockInit : Fin 7 → MemBlockDesc := fun descIdx =>
  ⟨blockSizeAt descIdx, (pgSize - arenaSize) / blockSizeAt descIdx, []⟩

/-- `arena2block(a, idx)` for an arena with descriptor `ref` -/
def arena2block (m : Mem) (ref : DescRef) (a : Address) (idx : Nat) : Address :=
  wrap (a + arenaSize + idx * (m.desc ref).blockSize)

/-- `block2arena(b)`, that is `b & 0xfffff000` -/
def block2arena (b : Address) : Address := b / pgSize * pgSize

namespace Mem

/-- `PF` and `mem_pool` in `sys_malloc` and `sys_free` -/
def ownFlags (m : Mem) : PoolFlags := if m.pgdir = none then .kernel else .user

/-- `&descs[desc_idx]` in `sys_malloc` -/
def ownDesc (m : Mem) (descIdx : Fin 7) : DescRef :=
  if m.pgdir = none then .kernel descIdx else .user m.runningThread descIdx

/-- Read the `struct arena` at `a`. -/
def readArena (m : Mem) (a : Address) : Except Halt Arena := do
  let frame ← m.translate a
  return m.arena frame

/-- Write the `struct arena` at `a`. -/
def writeArena (m : Mem) (a : Address) (ar : Arena) : Except Halt Mem := do
  let frame ← m.translate a
  return m.setArena frame ar

end Mem

/-- The loop of `sys_malloc` over the descriptors. -/
def findDesc (m : Mem) (size : Nat) : Option (Fin 7) :=
  (List.finRange 7).find? fun descIdx => size ≤ (m.desc (m.ownDesc descIdx)).blockSize

/-- The loop that cuts a new arena into blocks. -/
def appendBlocks (ref : DescRef) (a : Address) : (left blockIdx : Nat) → Mem →
    Except Halt Mem
  | 0, _, m => .ok m
  | left + 1, blockIdx, m => do
      let b := arena2block m ref a blockIdx
      check .sysMalloc (b ∉ (m.desc ref).freeList)
      appendBlocks ref a left (blockIdx + 1)
        (m.setFreeList ref ((m.desc ref).freeList ++ [b]))

/-- The branch of `sys_malloc` for an empty free list; `false` stands for `a == NULL`. -/
def newArena (m : Mem) (ref : DescRef) : Except Halt (Bool × Mem) := do
  match ← mallocPage m m.ownFlags 1 with
  | (none, m) => return (false, m)
  | (some a, m) =>
      let m ← memsetPages 1 a m
      let blockPerArena := (m.desc ref).blockPerArena
      let m ← m.writeArena a ⟨some ref, false, UInt32.ofNat blockPerArena⟩
      let m ← appendBlocks ref a blockPerArena 0 m
      return (true, m)

/-- The end of `sys_malloc` for a small block.  The `memset` of the block has its
last two arguments exchanged and writes nothing. -/
def popBlock (m : Mem) (ref : DescRef) : Except Halt (Address × Mem) :=
  match (m.desc ref).freeList with
  | [] => .error (.panic .listPop)
  | b :: rest => do
      let m := m.setFreeList ref rest
      let a := block2arena b
      let ar ← m.readArena a
      let m ← m.writeArena a { ar with cnt := ar.cnt - 1 }
      return (b, m)

/-- `sys_malloc(size)` for `size > 1024`, with the lock held.  Only the failure
releases it. -/
def mallocLarge (m : Mem) (size : Nat) : Except Halt (Option Address × Mem) := do
  let pageCnt := divRoundUp (wrap (size + arenaSize)) pgSize
  match ← mallocPage m m.ownFlags pageCnt with
  | (some a, m) =>
      let m ← memsetPages pageCnt a m
      let m ← m.writeArena a ⟨none, true, UInt32.ofNat pageCnt⟩
      return (some (wrap (a + arenaSize)), m)
  | (none, m) => return (none, ← releasePool m m.ownFlags)

/-- `sys_malloc(size)` for smaller sizes, with the lock held. -/
def mallocSmall (m : Mem) (size : Nat) : Except Halt (Option Address × Mem) :=
  match findDesc m size with
  | none => .error .outOfBounds
  | some descIdx => do
      let ref := m.ownDesc descIdx
      let (supplied, m) ←
        if (m.desc ref).freeList = [] then newArena m ref else pure (true, m)
      if !supplied then
        return (none, ← releasePool m m.ownFlags)
      let (b, m) ← popBlock m ref
      return (some b, ← releasePool m m.ownFlags)

/-- `sys_malloc(size)` -/
def sysMalloc (m : Mem) (size : Nat) : Except Halt (Option Address × Mem) := do
  let poolSize := (m.pool m.ownFlags).poolSize
  if !(size > 0 && size < poolSize) then
    return (none, m)
  let m ← acquirePool m m.ownFlags
  if size > 1024 then mallocLarge m size
  else mallocSmall m size

/-- The loop of `sys_free` that takes the blocks of an arena off the free list. -/
def removeBlocks (ref : DescRef) (a : Address) : (left blockIdx : Nat) → Mem →
    Except Halt Mem
  | 0, _, m => .ok m
  | left + 1, blockIdx, m => do
      let b := arena2block m ref a blockIdx
      check .sysFree (b ∈ (m.desc ref).freeList)
      removeBlocks ref a left (blockIdx + 1)
        (m.setFreeList ref ((m.desc ref).freeList.erase b))

/-- The branch of `sys_free` for a small block. -/
def freeBlock (m : Mem) (ref : DescRef) (a b : Address) : Except Halt Mem := do
  let m := m.setFreeList ref ((m.desc ref).freeList ++ [b])
  let ar ← m.readArena a
  let m ← m.writeArena a { ar with cnt := ar.cnt + 1 }
  let blockPerArena := (m.desc ref).blockPerArena
  if (ar.cnt + 1).toNat = blockPerArena then
    let m ← removeBlocks ref a blockPerArena 0 m
    mfreePage m m.ownFlags a 1
  else return m

/-- `sys_free(ptr)`.  `large` is a `_Bool`, so the assertion on its value holds. -/
def sysFree (m : Mem) (ptr : Address) : Except Halt Mem := do
  check .sysFree (ptr ≠ 0)
  check .sysFree (m.pgdir ≠ none ∨ ptr ≥ kHeapStart)
  let m ← acquirePool m m.ownFlags
  let a := block2arena ptr
  let ar ← m.readArena a
  let m ← match ar.desc, ar.large with
    | some ref, false => freeBlock m ref a ptr
    | _, _ => mfreePage m m.ownFlags a ar.cnt.toNat
  releasePool m m.ownFlags

end HongbaiOS.Memory
