import HongbaiOS.Memory.HeapCalls
import HongbaiOS.Library.Run

/-!
# The heap over whole runs

A task, a kernel thread or a process, whose heap is not in use yet requests memory and gives it
back in any order.  In every state its allocations lie apart in memory that is mapped for them,
and the headers, the free lists and the pages agree.
-/

namespace HongbaiOS.Memory

open HongbaiOS.Library HongbaiOS.Kernel HongbaiOS.Lib HongbaiOS.Thread

inductive HeapCall where
  | sysMalloc (size : UInt32)
  | sysFree (ptr : Address)

/-- Only what was returned and not yet given back is given back. -/
def HeapCall.Allowed (s : HeapUse) : HeapCall → Prop
  | sysMalloc _ => True
  | sysFree ptr => s.live ptr ≠ none

namespace HeapUse

def call (s : HeapUse) : HeapCall → Except Halt HeapUse
  | .sysMalloc size => do
      let (result, m') ← sysMalloc s.mem size.toNat
      return s.allocated size.toNat m' result
  | .sysFree ptr => do
      let m' ← sysFree s.mem ptr
      return s.freed ptr m'

/-- A heap without chunks. -/
def start (m : Mem) : HeapUse := ⟨m, fun _ => none, fun _ => none⟩

def HasPage (s : HeapUse) (page : Nat) : Prop :=
  ∃ first c, s.chunks first = some c ∧ first ≤ page ∧ page < first + c.pageCnt

/-- `free_list` of a descriptor of the task -/
def freeList (s : HeapUse) (descIdx : Fin 7) : List Address :=
  (s.mem.desc (s.mem.ownDesc descIdx)).freeList

end HeapUse

/-- The allocations, the headers, the free lists and the pages of a heap agree. -/
structure HeapValid (s : HeapUse) : Prop where
  disjoint : ∀ p size q size', s.live p = some size → s.live q = some size' → p ≠ q →
    Apart p size q size'
  inside : ∀ p size, s.live p = some size → ∃ page c, s.chunks page = some c ∧
    page * pgSize + arenaSize ≤ p ∧ p + size ≤ (page + c.pageCnt) * pgSize
  behindHeaders : ∀ page c p size, s.chunks page = some c → s.live p = some size →
    Apart (page * pgSize) arenaSize p size
  pages : ∀ page, s.HasPage page → ∃ frame, s.mem.Maps page frame ∧
    s.mem.InPool s.mem.ownFlags frame ∧ ∀ page', s.HasPage page' → s.mem.Maps page' frame →
      page' = page
  chunksApart : ∀ page c page' c', s.chunks page = some c → s.chunks page' = some c' →
    page ≤ page' → page' < page + c.pageCnt → page' = page
  arenas : ∀ page descIdx, s.chunks page = some (.arena descIdx) → ∃ cnt : UInt32,
    s.mem.readArena (page * pgSize) = .ok ⟨some (s.mem.ownDesc descIdx), false, cnt⟩ ∧
      cnt.toNat = (s.freeList descIdx).countP (· / pgSize = page)
  areas : ∀ page cnt, s.chunks page = some (.pages cnt) →
    s.mem.readArena (page * pgSize) = .ok ⟨none, true, UInt32.ofNat cnt⟩
  nodup : ∀ descIdx, (s.freeList descIdx).Nodup
  listed : ∀ descIdx, ∀ x ∈ s.freeList descIdx, s.chunks (x / pgSize) = some (.arena descIdx) ∧
    x ∈ blocksOf descIdx (x / pgSize) ∧
      ∀ p size, s.live p = some size → Apart x (blockSizeAt descIdx) p size

/-- The heap is as it should be, and so is whatever the next call does. -/
structure HeapRight (s : HeapUse) : Prop where
  valid : HeapValid s
  asserts : ∀ call : HeapCall, call.Allowed s → Avoids HeapAssertion (s.call call)
  fresh : ∀ (size : UInt32) ptr m', sysMalloc s.mem size.toNat = .ok (some ptr, m') →
    s.live ptr = none
  freed : ∀ ptr size m', s.live ptr = some size → sysFree s.mem ptr = .ok m' →
    FreedRight s ptr size m'

section Soundness

variable {b : Book} {s s' : HeapUse} {page frame : Nat} {descIdx : Fin 7}

theorem HeapSound.holds (sound : HeapSound b s) (hasPage : s.HasPage page) :
    ∃ frame, b.held s.mem (s.mem.owner.place page) = some (s.mem.owner.flags, frame) := by
  obtain ⟨first, c, isChunk, low, high⟩ := hasPage
  obtain ⟨i, rfl⟩ := Nat.exists_eq_add_of_le low
  obtain ⟨frame, holds, -⟩ := sound.arenas.held first c isChunk i (by omega)
  exact ⟨frame, holds⟩

theorem HeapSound.pages (sound : HeapSound b s) (hasPage : s.HasPage page) :
    ∃ frame, s.mem.Maps page frame ∧ s.mem.InPool s.mem.ownFlags frame ∧
      ∀ page', s.HasPage page' → s.mem.Maps page' frame → page' = page := by
  obtain ⟨frame, holds⟩ := sound.holds hasPage
  have translated := sound.owned.translate_heap rfl holds
  have inPool := (sound.owned.inPool holds).1
  rw [Owner.pool_place, ← ownFlags_eq] at inPool
  refine ⟨frame, translated, inPool, fun page' hasPage' maps => ?_⟩
  obtain ⟨frame', holds'⟩ := sound.holds hasPage'
  have translated' := sound.owned.translate_heap rfl holds'
  obtain rfl := Except.ok.inj (translated'.symm.trans maps)
  exact Owner.place_inj (sound.owned.place_inj holds' holds)

theorem freeList_eq (s : HeapUse) (descIdx : Fin 7) :
    s.freeList descIdx = s.mem.freeLists s.mem.owner descIdx := by
  rw [HeapUse.freeList, ownDesc_eq]
  rfl

theorem HeapSound.valid (sound : HeapSound b s) : HeapValid s := by
  have positive : ∀ page c, s.chunks page = some c → 0 < c.pageCnt :=
    fun page c isChunk => sound.arenas.pageCnt_pos isChunk
  have apart := sound.arenas.apart
  have lives := sound.accounted.lives
  refine ⟨?_, ?_, ?_, fun page hasPage => sound.pages hasPage, apart, ?_, ?_, ?_, ?_⟩
  · intro p size q size' isLive isLive' other
    obtain ⟨page, len, cell, fits, -⟩ := (lives p size isLive).cell
    obtain ⟨page', len', cell', fits', -⟩ := (lives q size' isLive').cell
    exact (cell.apart cell' positive apart other).mono fits fits'
  · intro p size isLive
    obtain ⟨page, len, cell, fits, behind, -⟩ := (lives p size isLive).cell
    obtain ⟨c, isChunk, -, high⟩ := cell.inside positive
    exact ⟨page, c, isChunk, behind, (Nat.add_le_add_left fits p).trans high⟩
  · intro page c p size isChunk isLive
    obtain ⟨page', len, cell, fits, behind, isHome⟩ := (lives p size isLive).cell
    refine ((Cell.header isChunk).apart cell positive apart ?_).mono le_rfl fits
    rintro rfl
    rw [Nat.mul_div_cancel page (by decide : 0 < pgSize)] at isHome
    subst isHome
    simp only [arenaSize] at behind
    omega
  · intro page descIdx isArena
    obtain ⟨frame, holds, -⟩ := sound.arenas.first isArena
    have header := sound.arenas.arena page descIdx isArena
    have counted := (sound.arenas.slabs descIdx).counted page isArena
    rw [headerAt_eq holds] at header
    rw [headerAt_eq holds] at counted
    refine ⟨(s.mem.arena frame).cnt, ?_, ?_⟩
    · rw [sound.owned.readArena_heap rfl holds, ownDesc_eq, ← header.1, ← header.2]
    · rw [freeList_eq, counted]
      rfl
  · intro page cnt isPages
    obtain ⟨frame, holds, -⟩ := sound.arenas.first isPages
    have header := (sound.arenas.pages page cnt isPages).1
    rw [headerAt_eq holds] at header
    rw [sound.owned.readArena_heap rfl holds, header]
  · intro descIdx
    rw [freeList_eq]
    exact (sound.arenas.slabs descIdx).nodup
  · intro descIdx x isFree
    rw [freeList_eq] at isFree
    obtain ⟨isArena, isBlock⟩ := sound.arenas.free_block isFree
    refine ⟨isArena, isBlock, fun p size isLive => ?_⟩
    obtain ⟨k, inside, isPlace⟩ := mem_blocksOf.mp isBlock
    have cell := Cell.block isArena inside
    rw [← isPlace] at cell
    obtain ⟨page', len, cell', fits, -⟩ := (lives p size isLive).cell
    refine (cell.apart cell' positive apart ?_).mono le_rfl fits
    rintro rfl
    cases ((sound.accounted.blocks _ _ isArena x isBlock).mp isFree).symm.trans isLive

theorem HeapSound.step {call : HeapCall} (sound : HeapSound b s) (allowed : call.Allowed s)
    (ran : s.call call = .ok s') : ∃ b', HeapSound b' s' := by
  cases call with
  | sysMalloc size =>
      obtain ⟨⟨result, m'⟩, served, ran⟩ := except_bind_eq_ok.mp ran
      obtain rfl := Except.ok.inj ran
      obtain ⟨⟨b', step⟩, -⟩ := sound.sysMalloc served
      exact ⟨b', step.sound⟩
  | sysFree ptr =>
      obtain ⟨m', freed, ran⟩ := except_bind_eq_ok.mp ran
      obtain rfl := Except.ok.inj ran
      obtain ⟨size, isLive⟩ := Option.ne_none_iff_exists'.mp allowed
      obtain ⟨⟨b', step⟩, -⟩ := sound.sysFree isLive freed
      exact ⟨b', step.sound⟩

theorem HeapSound.right (sound : HeapSound b s) : HeapRight s := by
  refine ⟨sound.valid, ?_, fun size ptr m' ran => (sound.sysMalloc ran).2 ptr rfl,
    fun ptr size m' isLive ran => (sound.sysFree isLive ran).2⟩
  intro call allowed
  cases call with
  | sysMalloc size =>
      exact (sound.arenas.avoids_sysMalloc sound.owned rfl).bind fun _ _ => avoids_ok _
  | sysFree ptr =>
      obtain ⟨size, isLive⟩ := Option.ne_none_iff_exists'.mp allowed
      exact (sound.avoids_sysFree isLive).bind fun _ _ => avoids_ok _

end Soundness

/-- No heap is in use yet, and the pools are as large as a `uint16_t` of pages allows. -/
structure FreshHeaps (m : Mem) : Prop where
  sized : ∀ pf, (m.pool pf).poolSize ≤ 2 ^ 28
  kernel : ∀ descIdx, m.kBlockDescs descIdx = blockInit descIdx
  users : ∀ t, (m.task t).pgdir ≠ none →
    ∀ descIdx, (m.task t).uBlockDesc descIdx = blockInit descIdx

section Fresh

variable {b : Book} {m m' : Mem} {s s' : PageState} {t : Tid} {p : Task} {pgCnt : Nat}
  {vaddr : Address} {pf : PoolFlags} {result : Option Address}

theorem FreshHeaps.congr (fresh : FreshHeaps m) (fixed : m'.fixed = m.fixed)
    (desc : m'.desc = m.desc) : FreshHeaps m' := by
  refine ⟨fun pf => ?_, fun descIdx => ?_, fun t isProcess descIdx => ?_⟩
  · have size := congrFun (congrArg Fixed.poolSize fixed) pf
    exact size.le.trans (fresh.sized pf)
  · exact (congrFun desc (.kernel descIdx)).trans (fresh.kernel descIdx)
  · have pgdir := congrFun (congrArg Fixed.pgdir fixed) t
    refine (congrFun desc (.user t descIdx)).trans (fresh.users t ?_ descIdx)
    exact fun none => isProcess (pgdir.trans none)

theorem FreshHeaps.frame (fresh : FreshHeaps m) (frame : PageFrame m m') : FreshHeaps m' :=
  fresh.congr frame.fixed frame.desc

/-- A PCB is filled in. -/
theorem FreshHeaps.setTask (fresh : FreshHeaps m)
    (isFresh : p.pgdir ≠ none → ∀ descIdx, p.uBlockDesc descIdx = blockInit descIdx) :
    FreshHeaps (m.setTask t p) := by
  refine ⟨fun pf => ?_, fresh.kernel, fun t' isProcess descIdx => ?_⟩
  · cases pf with
    | kernel => exact fresh.sized .kernel
    | user => exact fresh.sized .user
  · by_cases same : t' = t
    · subst same
      have isTask : (m.setTask t' p).task t' = p := Function.update_self _ _ _
      rw [isTask] at isProcess ⊢
      exact isFresh isProcess descIdx
    · have isTask : (m.setTask t p).task t' = m.task t' := Function.update_of_ne same _ _
      rw [isTask] at isProcess ⊢
      exact fresh.users t' isProcess descIdx

theorem getKernelPages_frame (ran : getKernelPages m pgCnt = .ok (result, m')) :
    PageFrame m m' := by
  obtain ⟨⟨start, mapped⟩, allocated, ran⟩ := except_bind_eq_ok.mp ran
  cases start with
  | none =>
      simp only [pure_eq_ok, Except.ok.injEq, Prod.mk.injEq] at ran
      exact ran.2 ▸ mallocPage_frame allocated
  | some start =>
      obtain ⟨cleared, clear, ran⟩ := except_bind_eq_ok.mp ran
      simp only [pure_eq_ok, Except.ok.injEq, Prod.mk.injEq] at ran
      exact ran.2 ▸ (mallocPage_frame allocated).trans (memsetPages_frame clear)

theorem FreshHeaps.acquirePool (fresh : FreshHeaps m) (ran : acquirePool m pf = .ok m') :
    FreshHeaps m' := by
  obtain ⟨plock, -, result⟩ := except_bind_eq_ok.mp ran
  rw [← Except.ok.inj result]
  exact fresh.congr (setLock_fixed m pf plock) (desc_setLock m pf plock)

theorem FreshHeaps.releasePool (fresh : FreshHeaps m) (ran : releasePool m pf = .ok m') :
    FreshHeaps m' := by
  obtain ⟨plock, -, result⟩ := except_bind_eq_ok.mp ran
  rw [← Except.ok.inj result]
  exact fresh.congr (setLock_fixed m pf plock) (desc_setLock m pf plock)

theorem FreshHeaps.getAPage (fresh : FreshHeaps m) (ran : getAPage m pf vaddr = .ok (result, m')) :
    FreshHeaps m' := by
  obtain ⟨held, btmp, phyaddr, taken, added, acquired, -, -, set, allocated, add, -, released⟩ :=
    getAPage_eq_ok ran
  obtain ⟨-, rfl⟩ := bitmapSet_eq_ok.mp set
  obtain ⟨bitIdx, -, -, -, rfl⟩ := palloc_eq_ok allocated
  have frame := ((PageFrame.setVaddrBitmap held pf (Bitmap.put_btmpBytesLen _ true)).trans
    (PageFrame.setPoolBitmap _ pf (Bitmap.put_btmpBytesLen bitIdx true))).trans
    (pageTableAdd_frame add)
  exact ((fresh.acquirePool acquired).frame frame).releasePool released

theorem FreshHeaps.threadStart {thread : Tid} (fresh : FreshHeaps m)
    (ran : threadStart m = .ok (thread, m')) : FreshHeaps m' := by
  obtain ⟨⟨page, m₁⟩, got, ran⟩ := except_bind_eq_ok.mp ran
  simp only [pure_eq_ok, Except.ok.injEq, Prod.mk.injEq] at ran
  rw [← ran.2]
  exact (fresh.frame (getKernelPages_frame got)).setTask fun isProcess => absurd rfl isProcess

theorem FreshHeaps.createUserVaddrBitmap (fresh : FreshHeaps m)
    (ran : createUserVaddrBitmap m t = .ok m') : FreshHeaps m' := by
  obtain ⟨⟨page, m₁⟩, got, ran⟩ := except_bind_eq_ok.mp ran
  rw [← Except.ok.inj ran]
  have fresh₁ := fresh.frame (getKernelPages_frame got)
  exact fresh₁.setTask fun isProcess => fresh₁.users t isProcess

theorem FreshHeaps.createPageDir (fresh : FreshHeaps m)
    (ran : createPageDir m = .ok (result, m')) : FreshHeaps m' := by
  obtain ⟨⟨page, m₁⟩, got, ran⟩ := except_bind_eq_ok.mp ran
  have fresh₁ := fresh.frame (getKernelPages_frame got)
  cases page with
  | none =>
      simp only [pure_eq_ok, Except.ok.injEq, Prod.mk.injEq] at ran
      exact ran.2 ▸ fresh₁
  | some page =>
      obtain ⟨m₂, copied, ran⟩ := except_bind_eq_ok.mp ran
      obtain ⟨_, -, copied⟩ := except_bind_eq_ok.mp copied
      obtain ⟨_, -, copied⟩ := except_bind_eq_ok.mp copied
      obtain ⟨_, -, ran⟩ := except_bind_eq_ok.mp ran
      obtain ⟨_, -, ran⟩ := except_bind_eq_ok.mp ran
      simp only [pure_eq_ok, Except.ok.injEq, Prod.mk.injEq] at ran
      rw [← ran.2, ← Except.ok.inj copied]
      exact fresh₁.congr rfl rfl

theorem FreshHeaps.processExecute {thread : Tid} (fresh : FreshHeaps m)
    (ran : processExecute m = .ok (thread, m')) : FreshHeaps m' := by
  obtain ⟨⟨page, m₁⟩, got, ran⟩ := except_bind_eq_ok.mp ran
  obtain ⟨m₂, bitmap, ran⟩ := except_bind_eq_ok.mp ran
  obtain ⟨⟨pgdir, m₃⟩, dir, ran⟩ := except_bind_eq_ok.mp ran
  simp only [pure_eq_ok, Except.ok.injEq, Prod.mk.injEq] at ran
  rw [← ran.2]
  have fresh₁ := (fresh.frame (getKernelPages_frame got)).setTask (t := page.getD 0)
    (p := initThread) fun isProcess => absurd rfl isProcess
  exact ((fresh₁.createUserVaddrBitmap bitmap).createPageDir dir).setTask fun _ _ => rfl

theorem FreshHeaps.schedule {next : Tid} (fresh : FreshHeaps m)
    (ran : schedule m next = .ok m') : FreshHeaps m' := by
  obtain ⟨m₁, activated, ran⟩ := except_bind_eq_ok.mp ran
  rw [← Except.ok.inj ran]
  have same : m₁ = { m with cr3 := m₁.cr3 } := by
    unfold pageDirActivate at activated
    split at activated
    next => rw [← Except.ok.inj activated]
    next =>
      obtain ⟨_, -, activated⟩ := except_bind_eq_ok.mp activated
      rw [← Except.ok.inj activated]
  rw [same]
  exact ⟨fresh.sized, fresh.kernel, fresh.users⟩

theorem FreshHeaps.step (fresh : FreshHeaps s.mem) (step : Step s s') : FreshHeaps s'.mem := by
  cases step with
  | mallocPage ran => exact fresh.frame (mallocPage_frame ran)
  | getAPage ran => exact fresh.getAPage ran
  | mfreePage owns ran => exact fresh.frame (mfreePage_frame ran)
  | threadStart ran => exact fresh.threadStart ran
  | processExecute ran => exact fresh.processExecute ran
  | schedule isThread ran => exact fresh.schedule ran

theorem FreshHeaps.boot (m : Mem) (memBytesTotal : Nat) :
    FreshHeaps (Memory.boot m memBytesTotal) := by
  refine ⟨fun pf => ?_, fun _ => rfl, fun t isProcess => absurd rfl isProcess⟩
  let pages := wrapSub memBytesTotal (256 * pgSize + 0x100000) / pgSize % 2 ^ 16
  have few : pages < 2 ^ 16 := Nat.mod_lt _ (by decide)
  cases pf with
  | kernel =>
      change pages / 2 * 4096 ≤ 2 ^ 28
      omega
  | user =>
      change (pages - pages / 2) * 4096 ≤ 2 ^ 28
      omega

theorem FreshHeaps.run (fresh : FreshHeaps s.mem) (ran : Relation.ReflTransGen Step s s') :
    FreshHeaps s'.mem := by
  induction ran with
  | refl => exact fresh
  | tail _ last inductionHypothesis => exact inductionHypothesis.step last

theorem HeapSound.start (owned : Owned b m) (fresh : FreshHeaps m) :
    HeapSound b (HeapUse.start m) := by
  have desc : ∀ descIdx, m.desc (m.owner.desc descIdx) = blockInit descIdx := by
    intro descIdx
    rw [← ownDesc_eq, Mem.ownDesc]
    split
    next => exact fresh.kernel descIdx
    next isProcess => exact fresh.users m.runningThread isProcess descIdx
  exact ⟨owned, fresh.sized m.ownFlags, .start b desc, ⟨nofun, nofun⟩⟩

end Fresh

instance (s : HeapUse) (call : HeapCall) : Decidable (call.Allowed s) :=
  match call with
  | .sysMalloc _ => inferInstanceAs (Decidable True)
  | .sysFree ptr => inferInstanceAs (Decidable (s.live ptr ≠ none))

/-- Over a whole run of one task, whatever pages were handed out and whatever tasks were created
before it: the heap is right in every state, as long as the requests for pages are met. -/
theorem heapRight_run (m : Mem) (memBytesTotal : Nat) {s : PageState} {calls : List HeapCall}
    {states : List HeapUse} (reached : Relation.ReflTransGen Step (.boot m memBytesTotal) s)
    (ran : trace HeapUse.call (.start s.mem) calls = .ok states)
    (allowed : ∀ p ∈ ((.start s.mem) :: states).zip calls, p.2.Allowed p.1) :
    ∀ s' ∈ (.start s.mem) :: states, HeapRight s' := by
  obtain ⟨b, coherent, -⟩ := (Coherent.boot m memBytesTotal).run reached
  have fresh := (FreshHeaps.boot m memBytesTotal).run reached
  have start : ∃ b, HeapSound b (.start s.mem) := ⟨b, .start coherent.owned fresh⟩
  have preserved : ∀ (s : HeapUse) (call : HeapCall) (s' : HeapUse), (∃ b, HeapSound b s) →
      call.Allowed s → s.call call = .ok s' → ∃ b, HeapSound b s' := by
    rintro s call s' ⟨b, sound⟩ isAllowed ran
    exact sound.step isAllowed ran
  intro s' isState
  obtain ⟨b', sound⟩ := invariant_of_allowed_trace preserved start ran allowed s' isState
  exact sound.right

/-- The main thread right after boot: a block and a page, and both given back. -/
theorem heapRight_run_boot : ∃ states,
    trace HeapUse.call (.start (boot powerOn 0x2000000))
      [.sysMalloc 100, .sysMalloc 2000, .sysFree 0xc010000c, .sysFree 0xc010100c] = .ok states ∧
      ∀ s' ∈ (.start (boot powerOn 0x2000000)) :: states, HeapRight s' := by
  let start : HeapUse := .start (boot powerOn 0x2000000)
  let calls : List HeapCall :=
    [.sysMalloc 100, .sysMalloc 2000, .sysFree 0xc010000c, .sysFree 0xc010100c]
  have returns : (trace HeapUse.call start calls).toOption.any fun states =>
      ((start :: states).zip calls).all fun p => decide (p.2.Allowed p.1) := by
    decide +kernel
  cases ran : trace HeapUse.call start calls with
  | error reason =>
      rw [ran] at returns
      cases returns
  | ok states =>
      rw [ran] at returns
      refine ⟨states, rfl, heapRight_run powerOn 0x2000000 .refl ran fun p inRun => ?_⟩
      exact of_decide_eq_true (List.all_eq_true.mp returns p inRun)

end HongbaiOS.Memory
