import HongbaiOS.Lib.Bitmap
import HongbaiOS.Thread.Lock

/-!
# The state of the memory manager

Two pools of physical pages, one range of virtual pages for the kernel and one
for each process, and the contents of the frames.  A frame is seen in two ways:
as the 1024 words of a page directory or page table, and as the `struct arena`
at its start.  No frame is used in both ways at once (`Ownership.lean`).
Addresses are numbers below `2 ^ 32`; `wrap` is the reduction of `uint32_t`.
-/

namespace HongbaiOS.Memory

open HongbaiOS.Library HongbaiOS.Kernel HongbaiOS.Lib HongbaiOS.Thread

abbrev Address := Nat

/-- `PAGE_SIZE` -/
def pgSize : Nat := 4096

/-- `K_HEAP_START` -/
def kHeapStart : Address := 0xc0100000

/-- `USER_VADDR_START` -/
def userVaddrStart : Address := 0x8048000

/-- `sizeof(struct arena)` -/
def arenaSize : Nat := 12

/-- Arithmetic of `uint32_t`. -/
def wrap (n : Nat) : Nat := n % 2 ^ 32

/-- `a - b` as `uint32_t`. -/
def wrapSub (a b : Nat) : Nat := wrap (a + (2 ^ 32 - wrap b))

/-- `DIV_ROUND_UP(x, step)` as `uint32_t`. -/
def divRoundUp (x step : Nat) : Nat := wrap (x + step - 1) / step

/-- `enum pool_flags` -/
inductive PoolFlags where
  | kernel | user
  deriving DecidableEq, Repr

/-- `struct pool` -/
structure Pool where
  poolBitmap : Bitmap
  lock : Lock
  phyAddrStart : Address
  poolSize : Nat

/-- `struct virtual_addr` -/
structure VirtualAddr where
  vaddrBitmap : Bitmap
  vaddrStart : Address

/-- A pointer to a `struct mem_block_desc`: into `k_block_descs`, or into the
`u_block_desc` of a task. -/
inductive DescRef where
  | kernel (descIdx : Fin 7)
  | user (task : Tid) (descIdx : Fin 7)
  deriving DecidableEq

/-- `struct arena` -/
structure Arena where
  desc : Option DescRef
  large : Bool
  cnt : UInt32
  deriving DecidableEq

/-- An arena after `memset(a, 0, ..)`. -/
def Arena.cleared : Arena := ⟨none, false, 0⟩

/-- `struct mem_block_desc`; a free list is the sequence of blocks it links. -/
structure MemBlockDesc where
  blockSize : Nat
  blockPerArena : Nat
  freeList : List Address

/-- What the memory manager reads of `struct task_struct`. -/
structure Task where
  pgdir : Option Address
  userprogVaddr : VirtualAddr
  uBlockDesc : Fin 7 → MemBlockDesc

structure Mem where
  kernelPool : Pool
  userPool : Pool
  kernelVaddr : VirtualAddr
  kBlockDescs : Fin 7 → MemBlockDesc
  task : Tid → Task
  runningThread : Tid
  /-- The page directory in use. -/
  cr3 : Address
  /-- The words of the frame at a physical address. -/
  words : Address → Nat → UInt32
  /-- The frame at a physical address as an arena. -/
  arena : Address → Arena

namespace Mem

/-- `running_thread()->pgdir` -/
def pgdir (m : Mem) : Option Address := (m.task m.runningThread).pgdir

def pool (m : Mem) : PoolFlags → Pool
  | .kernel => m.kernelPool
  | .user => m.userPool

def setPool (m : Mem) (pf : PoolFlags) (p : Pool) : Mem :=
  match pf with
  | .kernel => { m with kernelPool := p }
  | .user => { m with userPool := p }

def setPoolBitmap (m : Mem) (pf : PoolFlags) (btmp : Bitmap) : Mem :=
  m.setPool pf { m.pool pf with poolBitmap := btmp }

def setLock (m : Mem) (pf : PoolFlags) (plock : Lock) : Mem :=
  m.setPool pf { m.pool pf with lock := plock }

def setTask (m : Mem) (t : Tid) (p : Task) : Mem :=
  { m with task := Function.update m.task t p }

/-- The virtual pages that a request to `pf` is served from: the kernel's, or those
of the running process. -/
def vaddrPool (m : Mem) : PoolFlags → VirtualAddr
  | .kernel => m.kernelVaddr
  | .user => (m.task m.runningThread).userprogVaddr

def setVaddrBitmap (m : Mem) (pf : PoolFlags) (btmp : Bitmap) : Mem :=
  match pf with
  | .kernel => { m with kernelVaddr := { m.kernelVaddr with vaddrBitmap := btmp } }
  | .user => m.setTask m.runningThread { m.task m.runningThread with
      userprogVaddr := { (m.task m.runningThread).userprogVaddr with vaddrBitmap := btmp } }

def setWord (m : Mem) (frame : Address) (idx : Nat) (word : UInt32) : Mem :=
  { m with
    words := Function.update m.words frame (Function.update (m.words frame) idx word) }

/-- `memset(.., 0, PG_SIZE)` on a frame. -/
def clearFrame (m : Mem) (frame : Address) : Mem :=
  { m with
    words := Function.update m.words frame (fun _ => 0)
    arena := Function.update m.arena frame Arena.cleared }

def setArena (m : Mem) (frame : Address) (a : Arena) : Mem :=
  { m with arena := Function.update m.arena frame a }

def desc (m : Mem) : DescRef → MemBlockDesc
  | .kernel descIdx => m.kBlockDescs descIdx
  | .user t descIdx => (m.task t).uBlockDesc descIdx

def setFreeList (m : Mem) (ref : DescRef) (list : List Address) : Mem :=
  match ref with
  | .kernel descIdx => { m with
      kBlockDescs := Function.update m.kBlockDescs descIdx
        { m.kBlockDescs descIdx with freeList := list } }
  | .user t descIdx => m.setTask t { m.task t with
      uBlockDesc := Function.update (m.task t).uBlockDesc descIdx
        { (m.task t).uBlockDesc descIdx with freeList := list } }

end Mem

end HongbaiOS.Memory
