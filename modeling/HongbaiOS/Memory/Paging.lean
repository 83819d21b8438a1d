import HongbaiOS.Memory.Pool

/-!
# Pages

`malloc_page`, `mfree_page` and what they are made of, over the page directory in
`cr3`.  The last entry of every page directory refers to the directory itself, so
`pde_ptr` always points to an entry of it and `pte_ptr` into the page table that
the entry names, if it is present.
-/

namespace HongbaiOS.Memory

open HongbaiOS.Library HongbaiOS.Kernel HongbaiOS.Lib HongbaiOS.Thread

/-- `PDE_INDEX(addr)` -/
def pdeIndex (vaddr : Address) : Nat := vaddr / 2 ^ 22 % 1024

/-- `PTE_INDEX(addr)` -/
def pteIndex (vaddr : Address) : Nat := vaddr / 2 ^ 12 % 1024

/-- `PG_P_1` -/
def pgP1 : UInt32 := 1

/-- `PG_RW_W` -/
def pgRwW : UInt32 := 2

/-- `PG_US_U` -/
def pgUsU : UInt32 := 4

/-- The entry `phyaddr | PG_US_U | PG_RW_W | PG_P_1`. -/
def pageEntry (phyaddr : Address) : UInt32 := UInt32.ofNat phyaddr ||| pgUsU ||| pgRwW ||| pgP1

/-- `entry & 0x00000001` -/
def isPresent (entry : UInt32) : Bool := entry &&& 1 != 0

/-- `entry & 0xfffff000` -/
def entryFrame (entry : UInt32) : Address := (entry &&& 0xfffff000).toNat

namespace Mem

/-- `*pde_ptr(vaddr)` -/
def pde (m : Mem) (vaddr : Address) : UInt32 := m.words m.cr3 (pdeIndex vaddr)

/-- The table that `pte_ptr(vaddr)` points into. -/
def pteTable (m : Mem) (vaddr : Address) : Address := entryFrame (m.pde vaddr)

/-- `*pte_ptr(vaddr)` -/
def pte (m : Mem) (vaddr : Address) : Except Halt UInt32 :=
  if isPresent (m.pde vaddr) then .ok (m.words (m.pteTable vaddr) (pteIndex vaddr))
  else .error .pageFault

/-- The frame that an access to `vaddr` reaches. -/
def translate (m : Mem) (vaddr : Address) : Except Halt Address := do
  let pte ← m.pte vaddr
  if isPresent pte then return entryFrame pte
  else .error .pageFault

end Mem

/-- The loops that store `value` in `left` bits of a map. -/
def bitmapSetRun (value : Bool) : (left bitIdx : Nat) → Bitmap → Except Halt Bitmap
  | 0, _, btmp => .ok btmp
  | left + 1, bitIdx, btmp => do
      let btmp ← bitmapSet btmp bitIdx value
      bitmapSetRun value left (bitIdx + 1) btmp

/-- `vaddr_get(pf, pg_cnt)`; `none` is `NULL`.  Both branches do the same on their
own range; only the one for a process checks the address. -/
def vaddrGet (m : Mem) (pf : PoolFlags) (pgCnt : Nat) :
    Except Halt (Option Address × Mem) := do
  let vpool := m.vaddrPool pf
  match ← bitmapScan .asserts vpool.vaddrBitmap pgCnt with
  | none => return (none, m)
  | some bitIdxStart =>
      let btmp ← bitmapSetRun true pgCnt bitIdxStart vpool.vaddrBitmap
      let vaddrStart := wrap (vpool.vaddrStart + bitIdxStart * pgSize)
      check .vaddrGet (pf = .kernel ∨ vaddrStart < 0xc0000000 - pgSize)
      return (some vaddrStart, m.setVaddrBitmap pf btmp)

/-- `palloc(m_pool)` -/
def palloc (m : Mem) (pf : PoolFlags) : Except Halt (Option Address × Mem) := do
  match ← bitmapScan .asserts (m.pool pf).poolBitmap 1 with
  | none => return (none, m)
  | some bitIdx =>
      let btmp ← bitmapSet (m.pool pf).poolBitmap bitIdx true
      return (some (wrap ((m.pool pf).phyAddrStart + bitIdx * pgSize)), m.setPoolBitmap pf btmp)

/-- The last step of both branches of `page_table_add`.  Behind the assertion the
branch for a present entry is never taken. -/
def setPte (m : Mem) (vaddr pagePhyaddr : Address) : Except Halt Mem := do
  check .pageTableAdd (!isPresent (m.words (m.pteTable vaddr) (pteIndex vaddr)))
  return m.setWord (m.pteTable vaddr) (pteIndex vaddr) (pageEntry pagePhyaddr)

/-- `page_table_add(_vaddr, _page_phyaddr)`.  A missing page table comes from the
kernel pool; the result of `palloc` is used without a check. -/
def pageTableAdd (m : Mem) (vaddr pagePhyaddr : Address) : Except Halt Mem :=
  if isPresent (m.pde vaddr) then setPte m vaddr pagePhyaddr
  else do
    let (pdePhyaddr, m) ← palloc m .kernel
    let m := m.setWord m.cr3 (pdeIndex vaddr) (pageEntry (pdePhyaddr.getD 0))
    let m := m.clearFrame (m.pteTable vaddr)
    setPte m vaddr pagePhyaddr

/-- The loop of `malloc_page`; `false` is the return of `NULL` inside the loop. -/
def mapPages (pf : PoolFlags) : (cnt : Nat) → (vaddr : Address) → Mem →
    Except Halt (Bool × Mem)
  | 0, _, m => .ok (true, m)
  | cnt + 1, vaddr, m => do
      match ← palloc m pf with
      | (none, m) => return (false, m)
      | (some pagePhyaddr, m) =>
          let m ← pageTableAdd m vaddr pagePhyaddr
          mapPages pf cnt (wrap (vaddr + pgSize)) m

/-- `malloc_page(pf, pg_cnt)` -/
def mallocPage (m : Mem) (pf : PoolFlags) (pgCnt : Nat) :
    Except Halt (Option Address × Mem) := do
  check .mallocPage (pgCnt > 0 ∧ pgCnt < 3840)
  match ← vaddrGet m pf pgCnt with
  | (none, m) => return (none, m)
  | (some vaddrStart, m) =>
      let (mapped, m) ← mapPages pf pgCnt vaddrStart m
      return (if mapped then some vaddrStart else none, m)

/-- `memset(vaddr, 0, pg_cnt * PG_SIZE)` -/
def memsetPages : (cnt : Nat) → (vaddr : Address) → Mem → Except Halt Mem
  | 0, _, m => .ok m
  | cnt + 1, vaddr, m => do
      let frame ← m.translate vaddr
      memsetPages cnt (wrap (vaddr + pgSize)) (m.clearFrame frame)

/-- `get_kernel_pages(pg_cnt)` -/
def getKernelPages (m : Mem) (pgCnt : Nat) : Except Halt (Option Address × Mem) := do
  match ← mallocPage m .kernel pgCnt with
  | (none, m) => return (none, m)
  | (some vaddr, m) =>
      let m ← memsetPages pgCnt vaddr m
      return (some vaddr, m)

/-- `lock_acquire(&mem_pool->lock)` -/
def acquirePool (m : Mem) (pf : PoolFlags) : Except Halt Mem := do
  let plock ← lockAcquire m.runningThread (m.pool pf).lock
  return m.setLock pf plock

/-- `lock_release(&mem_pool->lock)` -/
def releasePool (m : Mem) (pf : PoolFlags) : Except Halt Mem := do
  let plock ← lockRelease m.runningThread (m.pool pf).lock
  return m.setLock pf plock

/-- `get_user_page(pg_cnt)` -/
def getUserPage (m : Mem) (pgCnt : Nat) : Except Halt (Option Address × Mem) := do
  let m ← acquirePool m .user
  match ← mallocPage m .user pgCnt with
  | (none, m) => return (none, ← releasePool m .user)
  | (some vaddr, m) =>
      let m ← memsetPages pgCnt vaddr m
      return (some vaddr, ← releasePool m .user)

/-- `get_a_page(pf, vaddr)`.  The return of `NULL` keeps the lock. -/
def getAPage (m : Mem) (pf : PoolFlags) (vaddr : Address) :
    Except Halt (Option Address × Mem) := do
  let m ← acquirePool m pf
  check .getAPage ((m.pgdir ≠ none ∧ pf = .user) ∨ (m.pgdir = none ∧ pf = .kernel))
  let vpool := m.vaddrPool pf
  let bitIdx := wrapSub vaddr vpool.vaddrStart / pgSize
  check .getAPage (bitIdx > 0)
  let btmp ← bitmapSet vpool.vaddrBitmap bitIdx true
  match ← palloc (m.setVaddrBitmap pf btmp) pf with
  | (none, m) => return (none, m)
  | (some pagePhyaddr, m) =>
      let m ← pageTableAdd m vaddr pagePhyaddr
      return (some vaddr, ← releasePool m pf)

/-- `addr_v2p(vaddr)` -/
def addrV2p (m : Mem) (vaddr : Address) : Except Halt Address := do
  let pte ← m.pte vaddr
  return wrap (entryFrame pte + vaddr % pgSize)

/-- `pfree(pg_phy_addr)` -/
def pfree (m : Mem) (pgPhyAddr : Address) : Except Halt Mem := do
  let pf := if pgPhyAddr ≥ m.userPool.phyAddrStart then PoolFlags.user else .kernel
  let bitIdx := wrapSub pgPhyAddr (m.pool pf).phyAddrStart / pgSize
  let btmp ← bitmapSet (m.pool pf).poolBitmap bitIdx false
  return m.setPoolBitmap pf btmp

/-- `page_table_pte_remove(vaddr)`: only the present bit is cleared. -/
def pageTablePteRemove (m : Mem) (vaddr : Address) : Except Halt Mem := do
  let pte ← m.pte vaddr
  return m.setWord (m.pteTable vaddr) (pteIndex vaddr) (pte &&& ~~~pgP1)

/-- `vaddr_remove(pf, _vaddr, pg_cnt)` -/
def vaddrRemove (m : Mem) (pf : PoolFlags) (vaddr : Address) (pgCnt : Nat) :
    Except Halt Mem := do
  let vpool := m.vaddrPool pf
  let bitIdxStart := wrapSub vaddr vpool.vaddrStart / pgSize
  let btmp ← bitmapSetRun false pgCnt bitIdxStart vpool.vaddrBitmap
  return m.setVaddrBitmap pf btmp

/-- The two loops of `mfree_page`; `inPool` is the address check of each of them. -/
def freePages (inPool : Address → Bool) : (cnt : Nat) → (vaddr : Address) → Mem →
    Except Halt Mem
  | 0, _, m => .ok m
  | cnt + 1, vaddr, m => do
      let pgPhyAddr ← addrV2p m vaddr
      check .mfreePage (inPool pgPhyAddr && pgPhyAddr % pgSize == 0)
      let m ← pfree m pgPhyAddr
      let m ← pageTablePteRemove m vaddr
      freePages inPool cnt (wrap (vaddr + pgSize)) m

/-- `mfree_page(pf, _vaddr, pg_cnt)` -/
def mfreePage (m : Mem) (pf : PoolFlags) (vaddr : Address) (pgCnt : Nat) :
    Except Halt Mem := do
  check .mfreePage (pgCnt ≥ 1 ∧ vaddr % pgSize = 0)
  let pgPhyAddr ← addrV2p m vaddr
  check .mfreePage (pgPhyAddr ≥ 0x102000 ∧ pgPhyAddr % pgSize = 0)
  let kernelStart := m.kernelPool.phyAddrStart
  let userStart := m.userPool.phyAddrStart
  let m ← if pgPhyAddr ≥ userStart then
      freePages (fun a => a ≥ userStart) pgCnt vaddr m
    else freePages (fun a => a ≥ kernelStart && a < userStart) pgCnt vaddr m
  vaddrRemove m pf vaddr pgCnt

/-- `mem_pool_init(all_mem)` over whatever memory holds at that time. -/
def memPoolInit (m : Mem) (allMem : Nat) : Mem :=
  let pageTableSize := 256 * pgSize
  let usedMem := pageTableSize + 0x100000
  let freeMem := wrapSub allMem usedMem
  let allFreePages := freeMem / pgSize % 2 ^ 16
  let kernelFreePages := allFreePages / 2
  let userFreePages := allFreePages - kernelFreePages
  let kbmLen := kernelFreePages / 8
  let ubmLen := userFreePages / 8
  let kpStart := usedMem
  let upStart := wrap (kpStart + kernelFreePages * pgSize)
  { m with
    kernelPool := ⟨⟨kbmLen, Bytes.fill 0⟩, lockInit, kpStart, kernelFreePages * pgSize⟩
    userPool := ⟨⟨ubmLen, Bytes.fill 0⟩, lockInit, upStart, userFreePages * pgSize⟩
    kernelVaddr := ⟨⟨kbmLen, Bytes.fill 0⟩, kHeapStart⟩ }

end HongbaiOS.Memory
