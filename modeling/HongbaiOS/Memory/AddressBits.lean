import HongbaiOS.Memory.Directories

/-!
# Address bitmaps and page tables

A bit of an address bitmap stands for a virtual page.  `malloc_page` and `get_a_page` set
the bits first and map the pages then; `mfree_page` unmaps them first.  Between two calls a
bit is set exactly if its page is mapped.
-/

namespace HongbaiOS.Memory

open HongbaiOS.Library HongbaiOS.Kernel HongbaiOS.Lib HongbaiOS.Thread

namespace Mem

/-- The virtual pages that a pool serves while a task runs. -/
def rangeOf (m : Mem) (t : Tid) : PoolFlags → VirtualAddr
  | .kernel => m.kernelVaddr
  | .user => (m.task t).userprogVaddr

/-- The number of the first page of a range. -/
def firstPage (m : Mem) (t : Tid) (pf : PoolFlags) : Nat := (m.rangeOf t pf).vaddrStart / pgSize

def pageBit (m : Mem) (t : Tid) (pf : PoolFlags) (i : Nat) : Bool :=
  (m.rangeOf t pf).vaddrBitmap.bit i

/-- The number of pages of a range. -/
def pageCnt (m : Mem) (t : Tid) (pf : PoolFlags) : Nat := (m.rangeOf t pf).vaddrBitmap.bitLen

theorem rangeOf_running (m : Mem) (pf : PoolFlags) :
    m.rangeOf m.runningThread pf = m.vaddrPool pf := by
  cases pf <;> rfl

end Mem

/-- The range that a request of the running task to a pool is about. -/
def Mem.Requests (m : Mem) (t : Tid) (pf pf' : PoolFlags) : Prop :=
  pf = pf' ∧ (pf' = .user → t = m.runningThread)

instance (m : Mem) (t : Tid) (pf pf' : PoolFlags) : Decidable (m.Requests t pf pf') :=
  inferInstanceAs (Decidable (pf = pf' ∧ (pf' = .user → t = m.runningThread)))

section Ranges

variable {m m' : Mem} {t : Tid} {pf : PoolFlags}

theorem firstPage_congr (fixed : m'.fixed = m.fixed) (t : Tid) (pf : PoolFlags) :
    m'.firstPage t pf = m.firstPage t pf := by
  cases pf with
  | kernel => exact congrArg (fun members => members.kernelVaddrStart / pgSize) fixed
  | user => exact congrArg (fun members => members.vaddrStart t / pgSize) fixed

theorem Mem.Requests.rangeOf {pf' : PoolFlags} (requests : m.Requests t pf pf') :
    m.rangeOf t pf = m.vaddrPool pf' := by
  obtain ⟨rfl, isRunning⟩ := requests
  cases pf with
  | kernel => rfl
  | user => rw [isRunning rfl, Mem.rangeOf_running]

theorem pageCnt_congr (fixed : m'.fixed = m.fixed) (t : Tid) (pf : PoolFlags) :
    m'.pageCnt t pf = m.pageCnt t pf := by
  cases pf with
  | kernel => exact congrArg (fun members => members.kernelVaddrLen * 8) fixed
  | user => exact congrArg (fun members => members.vaddrLen t * 8) fixed

theorem Layout.firstPage_kernel (layout : Layout m) (t : Tid) :
    m.firstPage t .kernel = kHeapPage := by
  rw [Mem.firstPage, Mem.rangeOf, layout.kernelVaddr]
  rfl

/-- Ranges start at a whole page, and end well below `2 ^ 32`. -/
theorem Layout.range (layout : Layout m) (t : Tid) (pf : PoolFlags) {i : Nat}
    (inside : i < m.pageCnt t pf) :
    (m.rangeOf t pf).vaddrStart = m.firstPage t pf * 4096 ∧
      InRange pf (m.firstPage t pf + i) := by
  cases pf with
  | kernel =>
      have high : m.pageCnt t .kernel ≤ 32760 := layout.kernelPages
      rw [layout.firstPage_kernel t]
      refine ⟨layout.kernelVaddr, Nat.le_add_right _ _, ?_⟩
      exact Nat.add_lt_add_left (inside.trans_le high) kHeapPage
  | user =>
      rcases layout.userPages t with none | ⟨start, len⟩
      · rw [Mem.pageCnt, Mem.rangeOf, none] at inside
        exact absurd inside (Nat.not_lt_zero i)
      · have first : m.firstPage t .user = 0x8048 := by
          rw [Mem.firstPage, Mem.rangeOf, start]
          rfl
        rw [Mem.pageCnt, Mem.rangeOf, len, userPageCnt] at inside
        rw [first]
        exact ⟨start, by omega, by omega⟩

theorem Layout.page_of_bit (layout : Layout m) {vaddr : Nat} (small : vaddr < 2 ^ 32)
    (inside : wrapSub vaddr (m.vaddrPool pf).vaddrStart / pgSize <
      (m.vaddrPool pf).vaddrBitmap.bitLen) :
    m.firstPage m.runningThread pf + wrapSub vaddr (m.vaddrPool pf).vaddrStart / pgSize =
      vaddr / 4096 := by
  have size : pgSize = 4096 := rfl
  rw [← m.rangeOf_running] at inside ⊢
  obtain ⟨start, inRange⟩ := layout.range m.runningThread pf inside
  have below := inRange.lt
  rw [start, size] at below ⊢
  simp only [wrapSub, wrap] at below ⊢
  omega

theorem Layout.taken_run {pgCnt bitIdx : Nat} {btmp : Bitmap} (layout : Layout m)
    (positive : 0 < pgCnt) (taken : VaddrTaken m pf pgCnt bitIdx btmp) :
    (∀ i < pgCnt, bitIdx + i < m.pageCnt m.runningThread pf) ∧
      (∀ i < pgCnt, InRange pf (m.firstPage m.runningThread pf + bitIdx + i)) ∧
      wrap ((m.vaddrPool pf).vaddrStart + bitIdx * pgSize) =
        (m.firstPage m.runningThread pf + bitIdx) * 4096 := by
  have fits := taken.fits
  rw [← m.rangeOf_running] at fits ⊢
  have inside : ∀ i < pgCnt, bitIdx + i < m.pageCnt m.runningThread pf := by
    intro i less
    exact Nat.lt_of_lt_of_le (Nat.add_lt_add_left less bitIdx) fits
  have inRange : ∀ i < pgCnt, InRange pf (m.firstPage m.runningThread pf + bitIdx + i) := by
    intro i less
    rw [Nat.add_assoc]
    exact (layout.range m.runningThread pf (inside i less)).2
  refine ⟨inside, inRange, ?_⟩
  have start := (layout.range m.runningThread pf (inside 0 positive)).1
  have below := (inRange 0 positive).lt
  rw [start]
  change (m.firstPage m.runningThread pf * 4096 + bitIdx * 4096) % 2 ^ 32 = _
  omega

end Ranges

/-- No address bitmap is touched. -/
structure KeepsBits (m m' : Mem) : Prop where
  kernelVaddr : m'.kernelVaddr = m.kernelVaddr
  task : m'.task = m.task

namespace KeepsBits

variable {m m' m'' : Mem} {pf : PoolFlags} {vaddr phyaddr : Nat} {result : Option Address}

theorem refl (m : Mem) : KeepsBits m m := ⟨rfl, rfl⟩

theorem trans (first : KeepsBits m m') (second : KeepsBits m' m'') : KeepsBits m m'' :=
  ⟨second.kernelVaddr.trans first.kernelVaddr, second.task.trans first.task⟩

theorem rangeOf (keeps : KeepsBits m m') (t : Tid) (pf : PoolFlags) :
    m'.rangeOf t pf = m.rangeOf t pf := by
  cases pf with
  | kernel => exact keeps.kernelVaddr
  | user => exact congrArg (fun task => (task t).userprogVaddr) keeps.task

theorem setPoolBitmap (m : Mem) (pf : PoolFlags) (btmp : Bitmap) :
    KeepsBits m (m.setPoolBitmap pf btmp) := by
  cases pf <;> exact ⟨rfl, rfl⟩

theorem setLock (m : Mem) (pf : PoolFlags) (plock : Lock) : KeepsBits m (m.setLock pf plock) := by
  cases pf <;> exact ⟨rfl, rfl⟩

theorem acquirePool (ran : acquirePool m pf = .ok m') : KeepsBits m m' := by
  obtain ⟨plock, -, result⟩ := except_bind_eq_ok.mp ran
  rw [← Except.ok.inj result]
  exact setLock m pf plock

theorem releasePool (ran : releasePool m pf = .ok m') : KeepsBits m m' := by
  obtain ⟨plock, -, result⟩ := except_bind_eq_ok.mp ran
  rw [← Except.ok.inj result]
  exact setLock m pf plock

theorem palloc (ran : palloc m pf = .ok (result, m')) : KeepsBits m m' := by
  obtain ⟨bitIdx, -, -, -, rfl⟩ := palloc_eq_ok ran
  exact setPoolBitmap m pf _

theorem setPte (ran : setPte m vaddr phyaddr = .ok m') : KeepsBits m m' := by
  obtain ⟨-, rfl⟩ := setPte_eq_ok.mp ran
  exact ⟨rfl, rfl⟩

theorem pageTableAdd (ran : pageTableAdd m vaddr phyaddr = .ok m') : KeepsBits m m' := by
  rcases pageTableAdd_eq_ok ran with ⟨-, added⟩ | ⟨-, bitIdx, -, -, added⟩
  · exact setPte added
  · have linked : KeepsBits m ((m.setPoolBitmap .kernel (m.kernelPool.poolBitmap.put bitIdx
        true)).withTable vaddr (wrap (m.kernelPool.phyAddrStart + bitIdx * pgSize))) := ⟨rfl, rfl⟩
    exact linked.trans (setPte added)

theorem mapPages {cnt : Nat} {mapped : Bool} (ran : mapPages pf cnt vaddr m = .ok (mapped, m')) :
    KeepsBits m m' := by
  induction cnt generalizing vaddr m with
  | zero =>
      simp only [Memory.mapPages, Except.ok.injEq, Prod.mk.injEq] at ran
      rw [ran.2]
      exact refl m'
  | succ cnt inductionHypothesis =>
      obtain ⟨bitIdx, -, -, next, added, ran⟩ := mapPages_succ_eq_ok ran
      have taken := setPoolBitmap m pf ((m.pool pf).poolBitmap.put bitIdx true)
      exact (taken.trans (pageTableAdd added)).trans (inductionHypothesis ran)

theorem memsetPages {cnt : Nat} (ran : memsetPages cnt vaddr m = .ok m') : KeepsBits m m' := by
  induction cnt generalizing vaddr m with
  | zero =>
      cases ran
      exact refl _
  | succ cnt inductionHypothesis =>
      obtain ⟨frame, -, ran⟩ := except_bind_eq_ok.mp ran
      have cleared : KeepsBits m (m.clearFrame frame) := ⟨rfl, rfl⟩
      exact cleared.trans (inductionHypothesis ran)

theorem pfree (ran : pfree m phyaddr = .ok m') : KeepsBits m m' := by
  obtain ⟨btmp, -, result⟩ := except_bind_eq_ok.mp ran
  rw [← Except.ok.inj result]
  exact setPoolBitmap m _ btmp

theorem pageTablePteRemove (ran : pageTablePteRemove m vaddr = .ok m') : KeepsBits m m' := by
  obtain ⟨pte, -, result⟩ := except_bind_eq_ok.mp ran
  rw [← Except.ok.inj result]
  exact ⟨rfl, rfl⟩

theorem freePages {inPool : Address → Bool} {cnt : Nat}
    (ran : freePages inPool cnt vaddr m = .ok m') : KeepsBits m m' := by
  induction cnt generalizing vaddr m with
  | zero =>
      cases ran
      exact refl _
  | succ cnt inductionHypothesis =>
      obtain ⟨phyaddr, -, ran⟩ := except_bind_eq_ok.mp ran
      obtain ⟨_, -, ran⟩ := except_bind_eq_ok.mp ran
      obtain ⟨freed, free, ran⟩ := except_bind_eq_ok.mp ran
      obtain ⟨removed, remove, ran⟩ := except_bind_eq_ok.mp ran
      exact ((pfree free).trans (pageTablePteRemove remove)).trans (inductionHypothesis ran)

end KeepsBits

/-- The bits of a run of pages are stored as `value`; all other bits of all ranges are as
before. -/
def Marked (m : Mem) (pf : PoolFlags) (page cnt : Nat) (value : Bool) (m' : Mem) : Prop :=
  ∀ t pf' i, m'.pageBit t pf' i =
    if m.Requests t pf' pf ∧ page ≤ m.firstPage t pf' + i ∧ m.firstPage t pf' + i < page + cnt
    then value else m.pageBit t pf' i

namespace Marked

variable {m m' m'' : Mem} {pf : PoolFlags} {page cnt vaddr pgCnt : Nat} {value : Bool}
  {result : Option Address}

theorem keeps_left (first : KeepsBits m m') (fixed : m'.fixed = m.fixed)
    (second : Marked m' pf page cnt value m'') : Marked m pf page cnt value m'' := by
  intro t pf' i
  have running : m'.runningThread = m.runningThread := congrArg Fixed.runningThread fixed
  have requests : m'.Requests t pf' pf ↔ m.Requests t pf' pf := by
    unfold Mem.Requests
    rw [running]
  rw [second t pf' i, firstPage_congr fixed]
  simp only [requests, Mem.pageBit, first.rangeOf]

theorem keeps_right (first : Marked m pf page cnt value m') (second : KeepsBits m' m'') :
    Marked m pf page cnt value m'' := by
  intro t pf' i
  rw [Mem.pageBit, second.rangeOf]
  exact first t pf' i

theorem setVaddrBitmap {btmp : Bitmap} {bitIdx : Nat}
    (bits : ∀ j, btmp.bit j = if bitIdx ≤ j ∧ j < bitIdx + cnt then value
      else (m.vaddrPool pf).vaddrBitmap.bit j) :
    Marked m pf (m.firstPage m.runningThread pf + bitIdx) cnt value
      (m.setVaddrBitmap pf btmp) := by
  intro t pf' i
  by_cases requests : m.Requests t pf' pf
  · have stored : ((m.setVaddrBitmap pf btmp).rangeOf t pf').vaddrBitmap = btmp := by
      obtain ⟨rfl, isRunning⟩ := requests
      cases pf' with
      | kernel => rfl
      | user =>
          obtain rfl := isRunning rfl
          simp [Mem.setVaddrBitmap, Mem.rangeOf, Mem.setTask]
    have first : m.firstPage t pf' = m.firstPage m.runningThread pf := by
      rw [Mem.firstPage, Mem.firstPage, requests.rangeOf, m.rangeOf_running]
    rw [Mem.pageBit, stored, bits, first, Mem.pageBit, requests.rangeOf]
    congr 1
    simp only [requests, true_and, eq_iff_iff]
    omega
  · rw [if_neg fun both => requests both.1]
    cases pf with
    | kernel =>
        cases pf' with
        | kernel => exact absurd ⟨rfl, fun impossible => absurd impossible (by decide)⟩ requests
        | user => rfl
    | user =>
        cases pf' with
        | kernel => rfl
        | user =>
            have other : t ≠ m.runningThread := fun same => requests ⟨rfl, fun _ => same⟩
            simp [Mem.setVaddrBitmap, Mem.pageBit, Mem.rangeOf, Mem.setTask,
              Function.update_of_ne other]

theorem mallocPage (layout : Layout m)
    (ran : mallocPage m pf pgCnt = .ok (some (page * 4096), m')) :
    Marked m pf page pgCnt true m' := by
  obtain ⟨positive, -, bitIdx, btmp, taken, isResult, mapped⟩ := mallocPage_eq_ok ran
  obtain ⟨-, -, start⟩ := layout.taken_run positive taken
  have isPage : page = m.firstPage m.runningThread pf + bitIdx :=
    Nat.eq_of_mul_eq_mul_right (by decide) ((Option.some.inj isResult).trans start)
  rw [isPage]
  exact (setVaddrBitmap taken.bits).keeps_right (.mapPages mapped)

theorem getKernelPages (layout : Layout m)
    (ran : getKernelPages m pgCnt = .ok (some (page * 4096), m')) :
    Marked m .kernel page pgCnt true m' := by
  obtain ⟨⟨vaddr, m₁⟩, allocated, ran⟩ := except_bind_eq_ok.mp ran
  obtain ⟨-, -, _, _, -, rfl, -⟩ := mallocPage_eq_ok allocated
  obtain ⟨m₂, cleared, ran⟩ := except_bind_eq_ok.mp ran
  simp only [pure_eq_ok, Except.ok.injEq, Prod.mk.injEq] at ran
  obtain ⟨isPage, rfl⟩ := ran
  rw [isPage] at allocated
  exact (mallocPage layout allocated).keeps_right (.memsetPages cleared)

theorem getUserPage (layout : Layout m)
    (ran : getUserPage m pgCnt = .ok (some (page * 4096), m')) :
    Marked m .user page pgCnt true m' := by
  obtain ⟨m₁, acquired, ran⟩ := except_bind_eq_ok.mp ran
  obtain ⟨⟨vaddr, m₂⟩, allocated, ran⟩ := except_bind_eq_ok.mp ran
  obtain ⟨-, -, _, _, -, rfl, -⟩ := mallocPage_eq_ok allocated
  obtain ⟨m₃, cleared, ran⟩ := except_bind_eq_ok.mp ran
  obtain ⟨m₄, released, ran⟩ := except_bind_eq_ok.mp ran
  simp only [pure_eq_ok, Except.ok.injEq, Prod.mk.injEq] at ran
  obtain ⟨isPage, rfl⟩ := ran
  rw [isPage] at allocated
  have fixed := (acquirePool_eq_ok acquired).1
  have marked := (mallocPage (layout.congr fixed) allocated).keeps_right (.memsetPages cleared)
  exact (marked.keeps_left (.acquirePool acquired) fixed).keeps_right (.releasePool released)

theorem getAPage (layout : Layout m) (small : vaddr < 2 ^ 32)
    (ran : getAPage m pf vaddr = .ok (result, m')) :
    Marked m pf (vaddr / 4096) 1 true m' := by
  obtain ⟨held, btmp, phyaddr, taken, added, acquired, -, -, set, allocated, add, -, released⟩ :=
    getAPage_eq_ok ran
  have fixed := (acquirePool_eq_ok acquired).1
  obtain ⟨inside, rfl⟩ := bitmapSet_eq_ok.mp set
  rw [← (layout.congr fixed).page_of_bit small inside]
  generalize wrapSub vaddr (held.vaddrPool pf).vaddrStart / pgSize = bitIdx at allocated ⊢
  have bits : ∀ j, ((held.vaddrPool pf).vaddrBitmap.put bitIdx true).bit j =
      if bitIdx ≤ j ∧ j < bitIdx + 1 then true else (held.vaddrPool pf).vaddrBitmap.bit j := by
    intro j
    rw [Bitmap.bit_put]
    congr 1
    simp only [eq_iff_iff]
    omega
  have worked := (setVaddrBitmap bits).keeps_right
    ((KeepsBits.palloc allocated).trans (.pageTableAdd add))
  exact (worked.keeps_left (.acquirePool acquired) fixed).keeps_right (.releasePool released)

/-- `vaddr_remove`, after the pages have been unmapped. -/
theorem mfreePage (layout : Layout m) (small : vaddr < 2 ^ 32)
    (ran : mfreePage m pf vaddr pgCnt = .ok m') :
    Marked m pf (vaddr / 4096) pgCnt false m' := by
  obtain ⟨bounds, inPool, m₁, freed, removed⟩ := mfreePage_eq_ok ran
  have keeps := KeepsBits.freePages freed
  have fixed := (freePages_frame freed).fixed
  obtain ⟨btmp, set, result⟩ := except_bind_eq_ok.mp removed
  rw [← Except.ok.inj result]
  obtain ⟨-, fits, bits⟩ := bitmapSetRun_eq_ok set
  have inside : wrapSub vaddr (m₁.vaddrPool pf).vaddrStart / pgSize <
      (m₁.vaddrPool pf).vaddrBitmap.bitLen := by
    have all := fits bounds.1
    have some := bounds.1
    omega
  rw [← (layout.congr fixed).page_of_bit small inside]
  exact (setVaddrBitmap bits).keeps_left keeps fixed

end Marked

section Released

variable {b : Book} {m m' : Mem} {page pgCnt : Nat}

theorem Owned.freePage_absent {m₁ m₂ : Mem} {phyaddr : Nat} (owned : Owned b m)
    (inRange : InRange .kernel page)
    (holds : b.held m (m.place .kernel page) = some (.kernel, phyaddr))
    (freed : Memory.pfree m phyaddr = .ok m₁)
    (removed : pageTablePteRemove m₁ (page * 4096) = .ok m₂) :
    isPresent (m₂.entry (.kernelPage page)) = false := by
  have below := inRange.lt
  have isPage : page * 4096 / 4096 = page := by omega
  have inPool := (owned.inPool holds).1
  rw [pool_place] at inPool
  obtain ⟨words, fixed, -⟩ := owned.pfree inPool freed
  have cr3 : m₁.cr3 = m.cr3 := congrArg Fixed.cr3 fixed
  obtain ⟨pte, -, result⟩ := except_bind_eq_ok.mp removed
  have table : m₁.pteTable (page * 4096) = kernelTable (page / 1024) := by
    have before := owned.pteTable_eq inRange (by omega) isPage
    simp only [Mem.pteTable, Mem.pde, words, cr3] at before ⊢
    exact before
  rw [table, pteIndex_eq, isPage] at result
  rw [← Except.ok.inj result, Mem.entry, Mem.words_setWord, if_pos ⟨rfl, rfl⟩]
  exact isPresent_and_not pte

theorem Owned.freePages_absent {inPool : Address → Bool} {cnt : Nat} (owned : Owned b m)
    (plain : b.Plain m .kernel page cnt)
    (ran : Memory.freePages inPool cnt (page * 4096) m = .ok m') :
    ∀ i < cnt, isPresent (m'.entry (.kernelPage (page + i))) = false := by
  induction cnt generalizing b m page with
  | zero => exact fun i impossible => absurd impossible (Nat.not_lt_zero i)
  | succ cnt inductionHypothesis =>
      obtain ⟨inRange, phyaddr, holds, notDir⟩ := plain 0 (Nat.succ_pos cnt)
      rw [Nat.add_zero] at inRange holds
      obtain ⟨phyaddr', isFrame, ran⟩ := except_bind_eq_ok.mp ran
      rw [owned.addrV2p_eq inRange holds] at isFrame
      obtain rfl := Except.ok.inj isFrame
      obtain ⟨_, -, ran⟩ := except_bind_eq_ok.mp ran
      obtain ⟨m₁, freed, ran⟩ := except_bind_eq_ok.mp ran
      obtain ⟨m₂, removed, ran⟩ := except_bind_eq_ok.mp ran
      have first := owned.freePage inRange holds notDir freed removed
      have absent := owned.freePage_absent inRange holds freed removed
      rw [inRange.wrap_next] at ran
      have plain' := first.plain plain
      rintro (_ | i) small
      · obtain ⟨b', rest⟩ := first.owned.freePages plain' ran
        rw [Nat.add_zero, rest.kernelEntry page inRange, absent]
        intro j _ same
        have sameIdx := Place.kernelPage.inj same
        omega
      · have later := inductionHypothesis first.owned plain' ran i (by omega)
        rwa [show page + 1 + i = page + (i + 1) by omega] at later

/-- The pages of a run are given back: their bits are clear and their entries are absent. -/
structure Withdrawn (b : Book) (m : Mem) (pf : PoolFlags) (page cnt : Nat) (b' : Book)
    (m' : Mem) : Prop extends Unmapped b m pf page cnt b' m' where
  marked : Marked m pf page cnt false m'
  absent : pf = .kernel → ∀ i < cnt, isPresent (m'.entry (.kernelPage (page + i))) = false

theorem Owned.withdrawn {pf : PoolFlags} (owned : Owned b m) (plain : b.Plain m pf page pgCnt)
    (ran : Memory.mfreePage m pf (page * 4096) pgCnt = .ok m') :
    ∃ b', Withdrawn b m pf page pgCnt b' m' := by
  obtain ⟨b', unmapped⟩ := owned.mfreePage plain ran
  obtain ⟨bounds, inPool, m₁, freed, removed⟩ := mfreePage_eq_ok ran
  have below := (plain 0 bounds.1).1.lt
  have marked := Marked.mfreePage owned.layout (by omega) ran
  have isPage : page * 4096 / 4096 = page := by omega
  rw [isPage] at marked
  refine ⟨b', unmapped, marked, ?_⟩
  rintro rfl i small
  obtain ⟨btmp, -, result⟩ := except_bind_eq_ok.mp removed
  rw [← Except.ok.inj result]
  exact owned.freePages_absent plain freed i small

/-- The pages of a run are handed out, and their bits are set. -/
structure Allotted (b : Book) (m : Mem) (pf : PoolFlags) (page cnt : Nat) (b' : Book)
    (m' : Mem) : Prop extends Mapped b m pf page cnt b' m' where
  marked : Marked m pf page cnt true m'

end Released

/-- The place of a page in the address space of a directory. -/
def placeIn (dir : Nat) (pf : PoolFlags) (page : Nat) : Place :=
  match pf with
  | .kernel => .kernelPage page
  | .user => .userPage dir page

/-- The page directory of a task. -/
def Book.DirOf (b : Book) (m : Mem) (t : Tid) (dir : Nat) : Prop :=
  match (m.task t).pgdir with
  | none => dir = pageDirTablePos
  | some v => b.held m (.kernelPage (v / 4096)) = some (.kernel, dir)

/-- A bit is set exactly if its page is in use, for every task in its own address space. -/
structure Tracked (b : Book) (m : Mem) (threads : Set Tid) : Prop where
  bits : ∀ t ∈ threads, ∀ dir, b.DirOf m t dir → ∀ pf, ∀ i < m.pageCnt t pf,
    (m.pageBit t pf i = true ↔ b.Uses m (placeIn dir pf (m.firstPage t pf + i)))
  noRange : ∀ t ∈ threads, (m.task t).pgdir = none → m.pageCnt t .user = 0
  once : ∀ t ∈ threads, ∀ t' ∈ threads, ∀ v, (m.task t).pgdir = some v →
    (m.task t').pgdir = some v → t = t'
  current : b.DirOf m m.runningThread m.cr3
  absent : ∀ i < m.kernelVaddr.vaddrBitmap.bitLen, kHeapPage + i ∉ b.kernelPages →
    isPresent (m.entry (.kernelPage (kHeapPage + i))) = false

section Tracked

variable {b b' : Book} {m m' : Mem} {granted : Set Place} {threads : Set Tid} {pf : PoolFlags}
  {page cnt : Nat}

theorem place_eq_placeIn (m : Mem) (pf : PoolFlags) (page : Nat) :
    m.place pf page = placeIn m.cr3 pf page := by
  cases pf <;> rfl

@[simp]
theorem pool_placeIn (dir : Nat) (pf : PoolFlags) (page : Nat) :
    (placeIn dir pf page).pool = pf := by
  cases pf <;> rfl

theorem Book.DirOf.unique {t : Tid} {dir dir' : Nat} (first : b.DirOf m t dir)
    (second : b.DirOf m t dir') : dir = dir' := by
  cases pgdir : (m.task t).pgdir with
  | none =>
      simp only [Book.DirOf, pgdir] at first second
      rw [first, second]
  | some v =>
      simp only [Book.DirOf, pgdir] at first second
      rw [first] at second
      injection second with samePair
      exact (Prod.mk.inj samePair).2

theorem Coherent.dirOf_of_pgdir (coherent : Coherent b m granted threads) {t : Tid}
    (pgdir : (m'.task t).pgdir = (m.task t).pgdir)
    (keeps : ∀ page, ∀ dir ∈ b.dirs, b.held m (.kernelPage page) = some (.kernel, dir) →
      b'.held m' (.kernelPage page) = some (.kernel, dir)) {dir : Nat} :
    b'.DirOf m' t dir ↔ b.DirOf m t dir := by
  cases isDir : (m.task t).pgdir with
  | none => simp only [Book.DirOf, pgdir, isDir]
  | some v =>
      obtain ⟨dirPage, dir₀, inBook, rfl, holds⟩ := coherent.pgdirs t v isDir
      have isPage : dirPage * 4096 / 4096 = dirPage := Nat.mul_div_cancel dirPage (by decide)
      simp only [Book.DirOf, pgdir, isDir, isPage, keeps dirPage dir₀ inBook holds, holds]

theorem Coherent.dirOf_iff (coherent : Coherent b m granted threads) (fixed : m'.fixed = m.fixed)
    (keeps : ∀ page, ∀ dir ∈ b.dirs, b.held m (.kernelPage page) = some (.kernel, dir) →
      b'.held m' (.kernelPage page) = some (.kernel, dir)) {t : Tid} {dir : Nat} :
    b'.DirOf m' t dir ↔ b.DirOf m t dir :=
  coherent.dirOf_of_pgdir (Coherent.pgdir_congr fixed t) keeps

/-- A process does not share its directory. -/
theorem Tracked.thread_eq (tracked : Tracked b m threads)
    (coherent : Coherent b m granted threads) {t t' : Tid} (isThread : t ∈ threads)
    (isThread' : t' ∈ threads) {dir : Nat} (isDir : b.DirOf m t dir) (isDir' : b.DirOf m t' dir)
    (hasRange : 0 < m.pageCnt t .user) : t = t' := by
  have four : 0 < 4096 := by decide
  cases pgdir : (m.task t).pgdir with
  | none => exact absurd (tracked.noRange t isThread pgdir) hasRange.ne'
  | some v =>
      obtain ⟨dirPage, -, -, rfl, -⟩ := coherent.pgdirs t v pgdir
      simp only [Book.DirOf, pgdir, Nat.mul_div_cancel dirPage four] at isDir
      cases pgdir' : (m.task t').pgdir with
      | none =>
          simp only [Book.DirOf, pgdir'] at isDir'
          have above := ((coherent.owned.inPool isDir).1.frame coherent.owned.layout).2.1
          have value : dir = 0x100000 := isDir'
          simp only [value] at above
          omega
      | some v' =>
          obtain ⟨dirPage', -, -, rfl, -⟩ := coherent.pgdirs t' v' pgdir'
          simp only [Book.DirOf, pgdir', Nat.mul_div_cancel dirPage' four] at isDir'
          have samePlace := coherent.owned.owns.once _ _ _ isDir isDir'
          obtain rfl := Place.kernelPage.inj samePlace
          exact tracked.once t isThread t' isThread' _ pgdir pgdir'

theorem Tracked.placeIn_eq_iff (tracked : Tracked b m threads)
    (coherent : Coherent b m granted threads) {t : Tid} (isThread : t ∈ threads) {dir : Nat}
    (isDir : b.DirOf m t dir) {pf' : PoolFlags} {i : Nat} (inside : i < m.pageCnt t pf')
    (page' : Nat) : placeIn dir pf' (m.firstPage t pf' + i) = m.place pf page' ↔
      m.Requests t pf' pf ∧ m.firstPage t pf' + i = page' := by
  cases pf with
  | kernel =>
      cases pf' with
      | kernel => simp [placeIn, Mem.place, Mem.Requests]
      | user => simp [placeIn, Mem.place, Mem.Requests]
  | user =>
      cases pf' with
      | kernel => simp [placeIn, Mem.place, Mem.Requests]
      | user =>
          have sameDir : dir = m.cr3 ↔ t = m.runningThread := by
            constructor
            · rintro rfl
              exact tracked.thread_eq coherent isThread coherent.running isDir tracked.current
                (Nat.zero_lt_of_lt inside)
            · rintro rfl
              exact isDir.unique tracked.current
          simp [placeIn, Mem.place, Mem.Requests, sameDir]

theorem Book.uses_iff {p : Place} : b.Uses m p ↔ ∃ r, b.held m p = some r := by
  rw [← not_iff_not, ← Book.held_eq_none, Option.eq_none_iff_forall_ne_some]
  exact not_exists.symm

/-- What is in use after pages have been handed out. -/
theorem Mapped.uses_iff (mapped : Mapped b m pf page cnt b' m') {p : Place}
    (notTable : ∀ dir idx, p ≠ .pageTable dir idx) :
    b'.Uses m' p ↔ b.Uses m p ∨ ∃ i < cnt, p = m.place pf (page + i) := by
  simp only [Book.uses_iff]
  constructor
  · rintro ⟨r, holds⟩
    rcases mapped.only p r holds with old | isNew | ⟨idx, isTable⟩
    · exact Or.inl ⟨r, old⟩
    · exact Or.inr isNew
    · exact absurd isTable (notTable _ _)
  · rintro (⟨r, holds⟩ | ⟨i, small, rfl⟩)
    · exact ⟨r, mapped.keeps p r holds⟩
    · obtain ⟨phyaddr, new⟩ := mapped.new i small
      exact ⟨_, new⟩

/-- What is in use after pages have been given back. -/
theorem Unmapped.uses_iff (unmapped : Unmapped b m pf page cnt b' m') {p : Place} :
    b'.Uses m' p ↔ b.Uses m p ∧ ∀ i < cnt, p ≠ m.place pf (page + i) := by
  simp only [Book.uses_iff]
  constructor
  · rintro ⟨r, holds⟩
    have other : ∀ i < cnt, p ≠ m.place pf (page + i) := by
      rintro i small rfl
      cases (unmapped.gone i small).symm.trans holds
    rw [unmapped.others p other] at holds
    exact ⟨⟨r, holds⟩, other⟩
  · rintro ⟨⟨r, holds⟩, other⟩
    exact ⟨r, (unmapped.others p other).trans holds⟩

theorem placeIn_ne_pageTable (dir page : Nat) (pf : PoolFlags) (dir' idx : Nat) :
    placeIn dir pf page ≠ .pageTable dir' idx := by
  cases pf <;> exact fun impossible => nomatch impossible

theorem Layout.kernel_inRange (layout : Layout m) {i : Nat}
    (inside : i < m.kernelVaddr.vaddrBitmap.bitLen) : InRange .kernel (kHeapPage + i) :=
  ⟨Nat.le_add_right _ _, Nat.add_lt_add_left (inside.trans_le layout.kernelPages) kHeapPage⟩

theorem Tracked.stored_iff (tracked : Tracked b m threads)
    (coherent : Coherent b m granted threads) {t : Tid} (isThread : t ∈ threads) {dir : Nat}
    (isDir : b.DirOf m t dir) {pf' : PoolFlags} {i : Nat} (inside : i < m.pageCnt t pf') :
    (∃ j < cnt, placeIn dir pf' (m.firstPage t pf' + i) = m.place pf (page + j)) ↔
      m.Requests t pf' pf ∧ page ≤ m.firstPage t pf' + i ∧
        m.firstPage t pf' + i < page + cnt := by
  simp only [tracked.placeIn_eq_iff coherent isThread isDir inside]
  constructor
  · rintro ⟨j, small, requests, samePage⟩
    exact ⟨requests, by omega, by omega⟩
  · rintro ⟨requests, low, high⟩
    exact ⟨m.firstPage t pf' + i - page, by omega, requests, by omega⟩

theorem Tracked.update (tracked : Tracked b m threads) (coherent : Coherent b m granted threads)
    (fixed : m'.fixed = m.fixed)
    (keeps : ∀ page, ∀ dir ∈ b.dirs, b.held m (.kernelPage page) = some (.kernel, dir) →
      b'.held m' (.kernelPage page) = some (.kernel, dir))
    (bits : ∀ t ∈ threads, ∀ dir, b.DirOf m t dir → ∀ pf, ∀ i < m.pageCnt t pf,
      (m'.pageBit t pf i = true ↔ b'.Uses m' (placeIn dir pf (m.firstPage t pf + i))))
    (absent : ∀ i < m.kernelVaddr.vaddrBitmap.bitLen, kHeapPage + i ∉ b'.kernelPages →
      isPresent (m'.entry (.kernelPage (kHeapPage + i))) = false) :
    Tracked b' m' threads where
  bits := by
    intro t isThread dir isDir pf i inside
    rw [coherent.dirOf_iff fixed keeps] at isDir
    rw [pageCnt_congr fixed] at inside
    rw [firstPage_congr fixed]
    exact bits t isThread dir isDir pf i inside
  noRange := by
    intro t isThread pgdir
    rw [Coherent.pgdir_congr fixed] at pgdir
    rw [pageCnt_congr fixed]
    exact tracked.noRange t isThread pgdir
  once := by
    intro t isThread t' isThread' v first second
    rw [Coherent.pgdir_congr fixed] at first second
    exact tracked.once t isThread t' isThread' v first second
  current := by
    have cr3 : m'.cr3 = m.cr3 := congrArg Fixed.cr3 fixed
    rw [coherent.dirOf_iff fixed keeps, Coherent.running_congr fixed, cr3]
    exact tracked.current
  absent := by
    have len : m'.kernelVaddr.vaddrBitmap.bitLen = m.kernelVaddr.vaddrBitmap.bitLen :=
      pageCnt_congr fixed m.runningThread .kernel
    rw [len]
    exact absent

theorem Tracked.allotted (tracked : Tracked b m threads) (coherent : Coherent b m granted threads)
    (allotted : Allotted b m pf page cnt b' m') : Tracked b' m' threads := by
  refine tracked.update coherent allotted.fixed (fun _ _ _ holds => allotted.keeps _ _ holds) ?_ ?_
  · intro t isThread dir isDir pf' i inside
    rw [allotted.marked t pf' i, allotted.toMapped.uses_iff (placeIn_ne_pageTable dir _ pf'),
      tracked.stored_iff coherent isThread isDir inside,
      ← tracked.bits t isThread dir isDir pf' i inside]
    split
    next stored => simp [stored]
    next untouched => simp [untouched]
  · intro i inside notUsed
    have inRange := coherent.owned.layout.kernel_inRange inside
    have uses := allotted.toMapped.uses_iff (p := .kernelPage (kHeapPage + i))
      fun dir idx => fun impossible => nomatch impossible
    have notNew : ¬ (kHeapPage + i ∈ b.kernelPages ∨
      ∃ j < cnt, Place.kernelPage (kHeapPage + i) = m.place pf (page + j)) :=
      fun used => notUsed (uses.mpr used)
    rw [allotted.kernelEntry _ inRange fun j small same => notNew (Or.inr ⟨j, small, same⟩)]
    exact tracked.absent i inside fun used => notNew (Or.inl used)

theorem Tracked.withdrawn (tracked : Tracked b m threads)
    (coherent : Coherent b m granted threads)
    (owns : ∀ i < cnt, m.place pf (page + i) ∈ granted)
    (withdrawn : Withdrawn b m pf page cnt b' m') : Tracked b' m' threads := by
  have keeps : ∀ page', ∀ dir ∈ b.dirs, b.held m (.kernelPage page') = some (.kernel, dir) →
      b'.held m' (.kernelPage page') = some (.kernel, dir) :=
    fun _ _ inBook holds => coherent.dir_kept owns withdrawn.toUnmapped inBook holds
  refine tracked.update coherent withdrawn.fixed keeps ?_ ?_
  · intro t isThread dir isDir pf' i inside
    have stored : (∃ j < cnt, placeIn dir pf' (m.firstPage t pf' + i) = m.place pf (page + j)) ↔
        _ := tracked.stored_iff coherent isThread isDir inside
    rw [withdrawn.marked t pf' i, withdrawn.toUnmapped.uses_iff,
      ← tracked.bits t isThread dir isDir pf' i inside]
    split
    next cleared =>
      obtain ⟨j, small, same⟩ := stored.mpr cleared
      simp only [Bool.false_eq_true, false_iff, not_and]
      exact fun _ others => others j small same
    next untouched =>
      refine (and_iff_left fun j small same => ?_).symm
      exact untouched (stored.mp ⟨j, small, same⟩)
  · intro i inside notUsed
    have inRange := coherent.owned.layout.kernel_inRange inside
    by_cases isFreed : ∃ j < cnt, Place.kernelPage (kHeapPage + i) = m.place pf (page + j)
    · obtain ⟨j, small, same⟩ := isFreed
      cases pf with
      | kernel =>
          rw [same]
          exact withdrawn.absent rfl j small
      | user => cases same
    · have other : ∀ j < cnt, Place.kernelPage (kHeapPage + i) ≠ m.place pf (page + j) :=
        fun j small same => isFreed ⟨j, small, same⟩
      rw [withdrawn.kernelEntry _ inRange other]
      refine tracked.absent i inside fun used => notUsed ?_
      exact (withdrawn.toUnmapped.uses_iff (p := .kernelPage (kHeapPage + i))).mpr ⟨used, other⟩

end Tracked

end HongbaiOS.Memory
