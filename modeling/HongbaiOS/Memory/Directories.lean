import HongbaiOS.Memory.ArenaPages
import HongbaiOS.Memory.Processes
import Mathlib.Logic.Relation

/-!
# One kernel half for all page directories

The loader fills the kernel half of the first page directory, and `create_page_dir` copies
it once.  Later changes would not be passed on, but there are none: the addresses of the
kernel's heap end long before entry 1023, and all entries that they reach are there from
the start.
-/

namespace HongbaiOS.Memory

open HongbaiOS.Library HongbaiOS.Kernel HongbaiOS.Lib HongbaiOS.Thread

/-- Nothing has been handed out. -/
def Book.boot : Book := ⟨∅, {(pageDirTablePos : Nat)}⟩

theorem boot_owned (m : Mem) (memBytesTotal : Nat) : Owned Book.boot (boot m memBytesTotal) := by
  have words : ∀ idx, (Memory.boot m memBytesTotal).words pageDirTablePos idx =
      if idx = 0 then pageEntry (kernelTable 768)
      else if idx < 768 then 0
      else if idx < 1023 then pageEntry (kernelTable idx)
      else pageEntry pageDirTablePos := by
    exact fun idx => rfl
  have unused : ∀ p, Book.boot.held (Memory.boot m memBytesTotal) p = none := by
    intro p
    have noTable : ∀ dir idx, ¬ Book.boot.HasTable (Memory.boot m memBytesTotal) dir idx := by
      rintro dir idx ⟨rfl, low, high, there⟩
      rw [words, if_neg (by omega), if_pos high] at there
      cases there
    rw [Book.held_eq_none]
    cases p with
    | kernelPage page => exact Set.notMem_empty page
    | pageTable dir idx => exact noTable dir idx
    | userPage dir page => exact fun used => noTable dir _ used.1
  refine ⟨boot_layout m memBytesTotal, ⟨?_, ?_⟩, rfl, rfl, ?_, ?_, ?_, ?_, ?_⟩
  · intro p r holds
    rw [unused] at holds
    cases holds
  · intro p q r holds
    rw [unused] at holds
    cases holds
  · rintro dir rfl pdeIdx low high
    rw [words, if_neg (by omega), if_neg (by omega), if_pos high]
  · rintro dir rfl
    rw [words]
    rfl
  · exact fun dir isDir => Or.inl isDir
  · exact fun page used => absurd used (Set.notMem_empty page)
  · exact fun page used => absurd used (Set.notMem_empty page)

section NewDirectory

variable {b : Book} {m m' : Mem} {page dir : Nat}

/-- A page of the kernel becomes a page directory once its kernel half is filled. -/
def Book.addDir (b : Book) (dir : Nat) : Book := { b with dirs := insert dir b.dirs }

/-- The contents of a directory without tables for a process. -/
def Mem.IsEmptyDir (m : Mem) (dir : Nat) : Prop :=
  (∀ idx < 768, m.words dir idx = 0) ∧
    (∀ idx, 768 ≤ idx → idx < 1023 → m.words dir idx = pageEntry (kernelTable idx)) ∧
    m.words dir 1023 = pageEntry dir

theorem Mem.IsEmptyDir.held_eq (empty : m.IsEmptyDir dir) : (b.addDir dir).held m = b.held m := by
  have hasTable : ∀ dir' idx, (b.addDir dir).HasTable m dir' idx ↔ b.HasTable m dir' idx := by
    intro dir' idx
    constructor
    · rintro ⟨isNew | old, low, high, there⟩
      · rw [isNew, empty.1 idx high] at there
        cases there
      · exact ⟨old, low, high, there⟩
    · rintro ⟨old, rest⟩
      exact ⟨Set.mem_insert_of_mem dir old, rest⟩
  funext p
  refine Book.held_congr ?_ fun _ => rfl
  cases p with
  | kernelPage page => exact Iff.rfl
  | pageTable dir' idx => exact hasTable dir' idx
  | userPage dir' page => exact and_congr_left fun _ => hasTable dir' (page / 1024)

theorem Owned.addDir (owned : Owned b m) (empty : m.IsEmptyDir dir)
    (holds : b.held m (.kernelPage page) = some (.kernel, dir)) : Owned (b.addDir dir) m := by
  have held : (b.addDir dir).held m = b.held m := empty.held_eq
  refine ⟨owned.layout, ?_, Set.mem_insert_of_mem dir owned.bootDir,
    Set.mem_insert_of_mem dir owned.current, ?_, ?_, ?_, owned.inRange, owned.present⟩
  · rw [held]
    exact owned.owns
  · rintro dir' (rfl | old) pdeIdx low high
    · exact empty.2.1 pdeIdx low high
    · exact owned.kernelHalf dir' old pdeIdx low high
  · rintro dir' (rfl | old)
    · exact empty.2.2
    · exact owned.selfMap dir' old
  · rw [held]
    rintro dir' (rfl | old)
    · exact Or.inr ⟨page, holds⟩
    · exact owned.dirFrame dir' old

/-- Directories are whole frames. -/
theorem Owned.dir_aligned (owned : Owned b m) (isDir : dir ∈ b.dirs) :
    dir % 4096 = 0 ∧ dir < 2 ^ 32 := by
  rcases owned.dirFrame dir isDir with isBoot | ⟨page, holds⟩
  · have value : dir = 0x100000 := isBoot
    omega
  · obtain ⟨aligned, -, below, -⟩ := (owned.inPool holds).1.frame owned.layout
    exact ⟨aligned, below⟩

/-- The last page of the address space is the directory in use. -/
theorem Owned.translate_self (owned : Owned b m) :
    m.translate (0xfffff000 + 0x300 * 4) = .ok m.cr3 := by
  have self : m.words m.cr3 1023 = pageEntry m.cr3 := owned.selfMap _ owned.current
  obtain ⟨aligned, below⟩ := owned.dir_aligned owned.current
  have frame : entryFrame (pageEntry m.cr3) = m.cr3 := entryFrame_pageEntry aligned below
  have isLast : pdeIndex (0xfffff000 + 0x300 * 4) = 1023 := by decide
  have isLast' : pteIndex (0xfffff000 + 0x300 * 4) = 1023 := by decide
  rw [Mem.translate, Mem.pte, Mem.pteTable, Mem.pde, isLast, self, if_pos (isPresent_pageEntry _),
    frame, isLast', self, ok_bind, if_pos (isPresent_pageEntry _), frame]
  rfl

theorem Owned.getKernelPage {result : Option Address} (owned : Owned b m)
    (ran : Memory.getKernelPages m 1 = .ok (result, m')) :
    ∃ page b' phyaddr, result = some (page * 4096) ∧ InRange .kernel page ∧
      Mapped b m .kernel page 1 b' m' ∧
      b'.held m' (.kernelPage page) = some (.kernel, phyaddr) ∧ phyaddr ∉ b'.dirs ∧
      ∀ idx, m'.words phyaddr idx = 0 := by
  obtain ⟨⟨result', m₁⟩, allocated, ran⟩ := except_bind_eq_ok.mp ran
  obtain ⟨page, b', rfl, mapped⟩ := owned.mallocPage allocated
  obtain ⟨m₂, cleared, ran⟩ := except_bind_eq_ok.mp ran
  simp only [pure_eq_ok, Except.ok.injEq, Prod.mk.injEq] at ran
  obtain ⟨rfl, rfl⟩ := ran
  have plain := mapped.plain owned
  have same := mapped.owned.memsetPages plain cleared (page + 1)
  obtain ⟨isKernel, phyaddr, holds, notDir⟩ := plain 0 Nat.one_pos
  rw [Nat.add_zero] at isKernel holds
  obtain ⟨frame, translated, ran⟩ := except_bind_eq_ok.mp cleared
  obtain rfl := Except.ok.inj ran
  obtain ⟨small, isPage⟩ := isKernel.address (by decide : 0 < 4096)
  rw [Nat.add_zero] at small isPage
  rw [mapped.owned.translate_eq isKernel small isPage holds] at translated
  obtain rfl := Except.ok.inj translated
  refine ⟨page, b', phyaddr, rfl, isKernel, mapped.trans same, same.keeps _ _ holds, ?_, ?_⟩
  · exact notDir
  · intro idx
    rw [Mem.words_clearFrame, if_pos rfl]

theorem Owned.createPageDir {result : Option Address} (owned : Owned b m)
    (ran : Memory.createPageDir m = .ok (result, m')) :
    ∃ page b' dir, result = some (page * 4096) ∧ Mapped b m .kernel page 1 b' m' ∧
      b'.held m' (.kernelPage page) = some (.kernel, dir) ∧ dir ∉ b'.dirs ∧
      m'.IsEmptyDir dir := by
  obtain ⟨⟨result', m₁⟩, allocated, ran⟩ := except_bind_eq_ok.mp ran
  obtain ⟨page, b', dir, rfl, inRange, mapped, holds, notDir, zero⟩ := owned.getKernelPage allocated
  have owned₁ := mapped.owned
  obtain ⟨small, isPage⟩ := inRange.address (by decide : 0 < 4096)
  rw [Nat.add_zero] at small isPage
  obtain ⟨smallEntry, isEntryPage⟩ := inRange.address (by decide : 0x300 * 4 < 4096)
  have atPlace : b'.held m₁ (m₁.place .kernel page) = some (.kernel, dir) := holds
  obtain ⟨m₂, copied, ran⟩ := except_bind_eq_ok.mp ran
  obtain ⟨source, isSource, copied⟩ := except_bind_eq_ok.mp copied
  rw [owned₁.translate_self] at isSource
  obtain rfl := Except.ok.inj isSource
  obtain ⟨target, isTarget, copied⟩ := except_bind_eq_ok.mp copied
  rw [owned₁.translate_eq inRange smallEntry isEntryPage atPlace] at isTarget
  obtain rfl := Except.ok.inj isTarget
  have words₂ : ∀ frame idx, m₂.words frame idx =
      if frame = dir then (if 0x300 ≤ idx ∧ idx < 0x300 + 1024 / 4 then m₁.words m₁.cr3 idx
        else m₁.words dir idx) else m₁.words frame idx := by
    intro frame idx
    rw [← Except.ok.inj copied]
    by_cases same : frame = dir
    · subst same
      simp only [Function.update_self, if_true]
    · simp only [Function.update_of_ne same, if_neg same]
  have same₂ : Mapped b' m₁ .kernel (page + 1) 0 b' m₂ := by
    have fixed : m₂.fixed = m₁.fixed := by
      rw [← Except.ok.inj copied]
      rfl
    have inPools : m₂.InPool = m₁.InPool := by
      rw [← Except.ok.inj copied]
      rfl
    refine owned₁.plainWrite atPlace notDir fixed inPools ?_ .kernel (page + 1)
    intro frame other idx
    rw [words₂, if_neg other]
  have holds₂ : b'.held m₂ (m₂.place .kernel page) = some (.kernel, dir) := same₂.keeps _ _ holds
  have owned₂ := same₂.owned
  obtain ⟨phyaddr, isFrame, ran⟩ := except_bind_eq_ok.mp ran
  rw [owned₂.addrV2p_eq inRange holds₂] at isFrame
  obtain rfl := Except.ok.inj isFrame
  obtain ⟨frame, isFrame, ran⟩ := except_bind_eq_ok.mp ran
  rw [owned₂.translate_eq inRange small isPage holds₂] at isFrame
  obtain rfl := Except.ok.inj isFrame
  simp only [pure_eq_ok, Except.ok.injEq, Prod.mk.injEq] at ran
  obtain ⟨rfl, isLast⟩ := ran
  have words₃ : ∀ frame idx, m'.words frame idx =
      if frame = dir ∧ idx = 1023 then pageEntry dir else m₂.words frame idx := by
    intro frame idx
    rw [← isLast, Mem.words_setWord]
  have same₃ : Mapped b' m₂ .kernel (page + 1) 0 b' m' := by
    have fixed : m'.fixed = m₂.fixed := by
      rw [← isLast]
      rfl
    have inPools : m'.InPool = m₂.InPool := by
      rw [← isLast]
      rfl
    refine owned₂.plainWrite holds₂ notDir fixed inPools ?_ .kernel (page + 1)
    intro frame other idx
    rw [words₃, if_neg fun both => other both.1]
  refine ⟨page, b', dir, rfl, mapped.trans (same₂.trans same₃), same₃.keeps _ _ holds₂, notDir,
    ?_, ?_, ?_⟩
  · intro idx small
    rw [words₃, if_neg (by omega), words₂, if_pos rfl, if_neg (by omega), zero]
  · intro idx low high
    rw [words₃, if_neg (by omega), words₂, if_pos rfl, if_pos (by omega)]
    exact owned₁.kernelHalf _ owned₁.current idx low high
  · rw [words₃, if_pos ⟨rfl, rfl⟩]

/-- The page of the new directory is the only one that is written. -/
theorem Owned.createPageDir_arenas {result : Option Address} (owned : Owned b m)
    (ran : Memory.createPageDir m = .ok (result, m')) : KeepsArenas b m m' := by
  obtain ⟨⟨start, m₁⟩, allocated, ran⟩ := except_bind_eq_ok.mp ran
  have first := owned.getKernelPages_arenas allocated
  obtain ⟨page, b', rfl, -⟩ := owned.getKernelPages allocated
  obtain ⟨m₂, copied, ran⟩ := except_bind_eq_ok.mp ran
  obtain ⟨source, -, copied⟩ := except_bind_eq_ok.mp copied
  obtain ⟨target, -, copied⟩ := except_bind_eq_ok.mp copied
  obtain ⟨phyaddr, -, ran⟩ := except_bind_eq_ok.mp ran
  obtain ⟨frame, -, ran⟩ := except_bind_eq_ok.mp ran
  simp only [pure_eq_ok, Except.ok.injEq, Prod.mk.injEq] at ran copied
  obtain ⟨-, rfl⟩ := ran
  subst copied
  exact first

end NewDirectory

theorem userBitmap_bitLen :
    (⟨(0xc0000000 - userVaddrStart) / pgSize / 8, Bytes.fill 0⟩ : Bitmap).bitLen = userPageCnt := by
  simp only [Bitmap.bitLen, userVaddrStart, pgSize, userPageCnt]

/-- The state of memory, the pages that were handed out and not given back, and the threads
that exist. -/
structure PageState where
  mem : Mem
  granted : Set Place
  threads : Set Tid

/-- The places of a run of pages in the address space in use. -/
def Mem.pages (m : Mem) (pf : PoolFlags) (vaddr : Option Address) (pgCnt : Nat) : Set Place :=
  {p | ∃ start ∈ vaddr, ∃ i < pgCnt, p = m.place pf (start / pgSize + i)}

theorem Mem.pages_some (m : Mem) (pf : PoolFlags) {page vaddr : Nat}
    (isPage : vaddr / pgSize = page) (cnt : Nat) :
    m.pages pf (some vaddr) cnt = {p | ∃ i < cnt, p = m.place pf (page + i)} := by
  simp [Mem.pages, isPage]

theorem page_address_div (page : Nat) : page * 4096 / pgSize = page :=
  Nat.mul_div_cancel page (by decide : 0 < 4096)

/-- What the running task, or the scheduler, does next.  Only pages that were handed out
are given back. -/
inductive Step : PageState → PageState → Prop
  | mallocPage {s : PageState} {pf : PoolFlags} {pgCnt : UInt32} {vaddr : Option Address}
      {m' : Mem} (ran : mallocPage s.mem pf pgCnt.toNat = .ok (vaddr, m')) :
      Step s ⟨m', s.granted ∪ s.mem.pages pf vaddr pgCnt.toNat, s.threads⟩
  | getAPage {s : PageState} {pf : PoolFlags} {vaddr : UInt32} {result : Option Address}
      {m' : Mem} (ran : getAPage s.mem pf vaddr.toNat = .ok (result, m')) :
      Step s ⟨m', s.granted ∪ s.mem.pages pf result 1, s.threads⟩
  | mfreePage {s : PageState} {pf : PoolFlags} {vaddr pgCnt : UInt32} {m' : Mem}
      (owns : s.mem.pages pf (some vaddr.toNat) pgCnt.toNat ⊆ s.granted)
      (ran : mfreePage s.mem pf vaddr.toNat pgCnt.toNat = .ok m') :
      Step s ⟨m', s.granted \ s.mem.pages pf (some vaddr.toNat) pgCnt.toNat, s.threads⟩
  | threadStart {s : PageState} {thread : Tid} {m' : Mem}
      (ran : threadStart s.mem = .ok (thread, m')) :
      Step s ⟨m', s.granted, insert thread s.threads⟩
  | processExecute {s : PageState} {thread : Tid} {m' : Mem}
      (ran : processExecute s.mem = .ok (thread, m')) :
      Step s ⟨m', s.granted, insert thread s.threads⟩
  | schedule {s : PageState} {next : Tid} {m' : Mem} (isThread : next ∈ s.threads)
      (ran : schedule s.mem next = .ok m') : Step s ⟨m', s.granted, s.threads⟩

/-- The state in which the main thread starts to serve requests. -/
def PageState.boot (m : Mem) (memBytesTotal : Nat) : PageState :=
  ⟨Memory.boot m memBytesTotal, ∅, {mainThread}⟩

/-- The directories of the tasks, as `page_dir_activate` finds them. -/
def Mem.directories (m : Mem) : Set Nat :=
  {dir | ∃ pthread m', pageDirActivate m pthread = .ok m' ∧ m'.cr3 = dir}

/-- The pages handed out are in use and are not page directories, the `pgdir` of each
process is the page of a directory, and the PCBs lie in pages that are not handed out. -/
structure Coherent (b : Book) (m : Mem) (granted : Set Place) (threads : Set Tid) : Prop where
  owned : Owned b m
  pgdirs : ∀ t v, (m.task t).pgdir = some v → ∃ page, ∃ dir ∈ b.dirs, v = page * 4096 ∧
    b.held m (.kernelPage page) = some (.kernel, dir)
  inUse : ∀ p ∈ granted, ∃ phyaddr, b.held m p = some (p.pool, phyaddr) ∧ phyaddr ∉ b.dirs
  pcbs : ∀ t ∈ threads, t = mainThread ∨
    ∃ page ∈ b.kernelPages, t = page * 4096 ∧ Place.kernelPage page ∉ granted
  running : m.runningThread ∈ threads

/-- The tables do not depend on what is kept of a task, apart from its range of addresses. -/
theorem Owned.setTask {b : Book} {m : Mem} (owned : Owned b m) (t : Tid) (task : Task)
    (vaddrs : task.userprogVaddr.vaddrBitmap.bitLen = 0 ∨
      task.userprogVaddr.vaddrStart = userVaddrStart ∧
        task.userprogVaddr.vaddrBitmap.bitLen = userPageCnt) : Owned b (m.setTask t task) := by
  have held : b.held (m.setTask t task) = b.held m := b.held_of_words rfl
  have tasks : ∀ t', (m.setTask t task).task t' = if t' = t then task else m.task t' :=
    fun t' => Function.update_apply _ _ _ _
  have layout : Layout (m.setTask t task) := by
    refine ⟨owned.layout.kernelStart, owned.layout.kernelEnd, owned.layout.userAligned,
      owned.layout.userEnd, owned.layout.kernelVaddr, owned.layout.kernelPages, fun t' => ?_⟩
    rw [tasks]
    split
    next => exact vaddrs
    next => exact owned.layout.userPages t'
  refine ⟨layout, ?_, owned.bootDir, owned.current, owned.kernelHalf, owned.selfMap, ?_,
    owned.inRange, owned.present⟩
  · rw [held]
    exact owned.owns
  · rw [held]
    exact owned.dirFrame

/-- No directory is given up, and the frames in use stay where they are and hold the arenas
they held. -/
structure Grows (b : Book) (m : Mem) (b' : Book) (m' : Mem) : Prop where
  dirs : b.dirs ⊆ b'.dirs
  held : ∀ p r, b.held m p = some r → b'.held m' p = some r ∧ m'.arena r.2 = m.arena r.2

namespace Grows

variable {b b' b'' : Book} {m m' m'' : Mem} {pf : PoolFlags} {page cnt dir : Nat}

theorem trans (first : Grows b m b' m') (second : Grows b' m' b'' m'') : Grows b m b'' m'' := by
  refine ⟨first.dirs.trans second.dirs, fun p r holds => ?_⟩
  obtain ⟨holds', same⟩ := first.held p r holds
  obtain ⟨holds'', same'⟩ := second.held p r holds'
  exact ⟨holds'', same'.trans same⟩

theorem of_mapped (mapped : Mapped b m pf page cnt b' m') (arenas : KeepsArenas b m m') :
    Grows b m b' m' :=
  ⟨mapped.dirs.ge, fun p r holds => ⟨mapped.keeps p r holds, arenas p r holds⟩⟩

/-- Nothing is written to a frame. -/
theorem of_eq (words : m'.words = m.words) (arena : m'.arena = m.arena) : Grows b m b m' :=
  ⟨le_rfl, fun p r holds => ⟨by rw [b.held_of_words words, holds], congrFun arena r.2⟩⟩

theorem setTask (b : Book) (m : Mem) (t : Tid) (task : Task) : Grows b m b (m.setTask t task) :=
  of_eq rfl rfl

theorem addDir (empty : m.IsEmptyDir dir) : Grows b m (b.addDir dir) m :=
  ⟨Set.subset_insert dir _, fun _ _ holds => ⟨by rw [empty.held_eq, holds], rfl⟩⟩

end Grows

namespace Coherent

variable {b b' : Book} {m m' : Mem} {granted : Set Place} {threads : Set Tid} {pf : PoolFlags}
  {page cnt : Nat}

theorem pgdir_congr (fixed : m'.fixed = m.fixed) (t : Tid) :
    (m'.task t).pgdir = (m.task t).pgdir :=
  congrArg (fun members => members.pgdir t) fixed

theorem running_congr (fixed : m'.fixed = m.fixed) : m'.runningThread = m.runningThread :=
  congrArg Fixed.runningThread fixed

theorem mapped (coherent : Coherent b m granted threads) (mapped : Mapped b m pf page cnt b' m') :
    Coherent b' m' granted threads := by
  refine ⟨mapped.owned, ?_, ?_, ?_, ?_⟩
  · intro t v isDir
    rw [pgdir_congr mapped.fixed] at isDir
    obtain ⟨dirPage, dir, inBook, isPage, holds⟩ := coherent.pgdirs t v isDir
    rw [← mapped.dirs] at inBook
    exact ⟨dirPage, dir, inBook, isPage, mapped.keeps _ _ holds⟩
  · intro p isGranted
    obtain ⟨phyaddr, holds, notDir⟩ := coherent.inUse p isGranted
    rw [← mapped.dirs] at notDir
    exact ⟨phyaddr, mapped.keeps _ _ holds, notDir⟩
  · intro t isThread
    rcases coherent.pcbs t isThread with isMain | ⟨pcb, used, isPage, notGranted⟩
    · exact Or.inl isMain
    · exact Or.inr ⟨pcb, mapped.kernelPages_subset used, isPage, notGranted⟩
  · rw [running_congr mapped.fixed]
    exact coherent.running

/-- The new pages may be handed out. -/
theorem grant (coherent : Coherent b m granted threads) (mapped : Mapped b m pf page cnt b' m') :
    Coherent b' m' (granted ∪ {p | ∃ i < cnt, p = m.place pf (page + i)}) threads := by
  have after := coherent.mapped mapped
  refine ⟨after.owned, after.pgdirs, ?_, ?_, after.running⟩
  rintro p (old | ⟨i, small, rfl⟩)
  · exact after.inUse p old
  · obtain ⟨-, phyaddr, holds, notDir⟩ := mapped.plain coherent.owned i small
    rw [place_congr mapped.fixed] at holds
    rw [pool_place]
    exact ⟨phyaddr, holds, notDir⟩
  · intro t isThread
    rcases coherent.pcbs t isThread with isMain | ⟨pcb, used, isPage, notGranted⟩
    · exact Or.inl isMain
    · refine Or.inr ⟨pcb, mapped.kernelPages_subset used, isPage, ?_⟩
      rintro (old | ⟨i, small, isNew⟩)
      · exact notGranted old
      · have fresh := mapped.fresh i small
        rw [← isNew] at fresh
        exact Book.held_eq_none.mp fresh used

/-- Pages handed out may be given back. -/
theorem plain (coherent : Coherent b m granted threads)
    (owns : ∀ i < cnt, m.place pf (page + i) ∈ granted) : b.Plain m pf page cnt := by
  intro i small
  obtain ⟨phyaddr, holds, notDir⟩ := coherent.inUse _ (owns i small)
  rw [pool_place] at holds
  exact ⟨coherent.owned.inRange_of_uses (Book.held_eq_some.mp holds).1, phyaddr, holds, notDir⟩

/-- The pages of the directories are not among those that are given back. -/
theorem dir_kept (coherent : Coherent b m granted threads)
    (owns : ∀ i < cnt, m.place pf (page + i) ∈ granted)
    (unmapped : Unmapped b m pf page cnt b' m') {dirPage dir : Nat} (inBook : dir ∈ b.dirs)
    (holds : b.held m (.kernelPage dirPage) = some (.kernel, dir)) :
    b'.held m' (.kernelPage dirPage) = some (.kernel, dir) := by
  rw [unmapped.others, holds]
  intro i small same
  obtain ⟨phyaddr, holds', notDir⟩ := coherent.inUse _ (owns i small)
  rw [← same, holds] at holds'
  injection holds' with samePair
  injection samePair with _ sameFrame
  exact notDir (sameFrame ▸ inBook)

theorem unmapped (coherent : Coherent b m granted threads)
    (owns : ∀ i < cnt, m.place pf (page + i) ∈ granted)
    (unmapped : Unmapped b m pf page cnt b' m') :
    Coherent b' m' (granted \ {p | ∃ i < cnt, p = m.place pf (page + i)}) threads := by
  refine ⟨unmapped.owned, ?_, ?_, ?_, ?_⟩
  · intro t v isDir
    rw [pgdir_congr unmapped.fixed] at isDir
    obtain ⟨dirPage, dir, inBook, isPage, holds⟩ := coherent.pgdirs t v isDir
    exact ⟨dirPage, dir, by rwa [unmapped.dirs], isPage,
      coherent.dir_kept owns unmapped inBook holds⟩
  · rintro p ⟨isGranted, notFreed⟩
    obtain ⟨phyaddr, holds, notDir⟩ := coherent.inUse p isGranted
    refine ⟨phyaddr, ?_, by rwa [unmapped.dirs]⟩
    rw [unmapped.others, holds]
    exact fun i small same => notFreed ⟨i, small, same⟩
  · intro t isThread
    rcases coherent.pcbs t isThread with isMain | ⟨pcb, used, isPage, notGranted⟩
    · exact Or.inl isMain
    · refine Or.inr ⟨pcb, ?_, isPage, fun still => notGranted still.1⟩
      have kept := unmapped.others (.kernelPage pcb)
        fun i small same => notGranted (same ▸ owns i small)
      have used' : b.held m (.kernelPage pcb) ≠ none := fun none => Book.held_eq_none.mp none used
      rw [← kept] at used'
      by_contra gone
      exact used' (Book.held_eq_none.mpr gone)
  · rw [running_congr unmapped.fixed]
    exact coherent.running

theorem setTask (coherent : Coherent b m granted threads) (t : Tid) (task : Task)
    (vaddrs : task.userprogVaddr.vaddrBitmap.bitLen = 0 ∨
      task.userprogVaddr.vaddrStart = userVaddrStart ∧
        task.userprogVaddr.vaddrBitmap.bitLen = userPageCnt)
    (pgdir : ∀ v, task.pgdir = some v → ∃ page, ∃ dir ∈ b.dirs, v = page * 4096 ∧
      b.held m (.kernelPage page) = some (.kernel, dir)) :
    Coherent b (m.setTask t task) granted threads := by
  obtain ⟨owned, pgdirs, isGranted, pcbs, running⟩ := coherent
  have held : b.held (m.setTask t task) = b.held m := b.held_of_words rfl
  have tasks : ∀ t', (m.setTask t task).task t' = if t' = t then task else m.task t' :=
    fun t' => Function.update_apply _ _ _ _
  refine ⟨owned.setTask t task vaddrs, ?_, ?_, pcbs, running⟩
  · intro t' v isDir
    rw [held]
    rw [tasks] at isDir
    split at isDir
    next => exact pgdir v isDir
    next => exact pgdirs t' v isDir
  · rw [held]
    exact isGranted

/-- Another task runs, in the address space of a directory. -/
theorem switch (coherent : Coherent b m granted threads) {dir : Nat} (isDir : dir ∈ b.dirs)
    {next : Tid} (isThread : next ∈ threads) :
    Coherent b { m with cr3 := dir, runningThread := next } granted threads := by
  obtain ⟨owned, pgdirs, isGranted, pcbs, -⟩ := coherent
  have held : b.held { m with cr3 := dir, runningThread := next } = b.held m :=
    b.held_of_words rfl
  have layout := owned.layout
  refine ⟨⟨⟨layout.kernelStart, layout.kernelEnd, layout.userAligned, layout.userEnd,
    layout.kernelVaddr, layout.kernelPages, layout.userPages⟩, ?_, owned.bootDir, isDir,
    owned.kernelHalf, owned.selfMap, ?_, owned.inRange, owned.present⟩, ?_, ?_, pcbs, isThread⟩
  · rw [held]
    exact owned.owns
  · rw [held]
    exact owned.dirFrame
  · rw [held]
    exact pgdirs
  · rw [held]
    exact isGranted

theorem pageDirActivate (coherent : Coherent b m granted threads) {pthread : Tid}
    (ran : Memory.pageDirActivate m pthread = .ok m') :
    ∃ dir ∈ b.dirs, m' = { m with cr3 := dir } := by
  unfold Memory.pageDirActivate at ran
  split at ran
  next =>
    exact ⟨pageDirTablePos, coherent.owned.bootDir, (Except.ok.inj ran).symm⟩
  next v isDir =>
    obtain ⟨page, dir, inBook, rfl, holds⟩ := coherent.pgdirs pthread v isDir
    have inRange := coherent.owned.inRange page (Book.held_eq_some.mp holds).1
    have atPlace : b.held m (m.place .kernel page) = some (.kernel, dir) := holds
    rw [coherent.owned.addrV2p_eq inRange atPlace] at ran
    exact ⟨dir, inBook, (Except.ok.inj ran).symm⟩

theorem schedule (coherent : Coherent b m granted threads) {next : Tid}
    (isThread : next ∈ threads) (ran : Memory.schedule m next = .ok m') :
    Coherent b m' granted threads := by
  obtain ⟨m₁, activated, ran⟩ := except_bind_eq_ok.mp ran
  obtain ⟨dir, inBook, rfl⟩ := coherent.pageDirActivate activated
  obtain rfl := Except.ok.inj ran
  exact coherent.switch inBook isThread

theorem directories_subset (coherent : Coherent b m granted threads) : m.directories ⊆ b.dirs := by
  rintro dir ⟨pthread, m', activated, rfl⟩
  obtain ⟨dir, inBook, rfl⟩ := coherent.pageDirActivate activated
  exact inBook

theorem getKernelPages (coherent : Coherent b m granted threads) {pgCnt : Nat}
    {result : Option Address}
    (ran : Memory.getKernelPages m pgCnt = .ok (result, m')) :
    ∃ b', Coherent b' m' granted threads ∧ Grows b m b' m' := by
  obtain ⟨page, b', -, mapped⟩ := coherent.owned.getKernelPages ran
  exact ⟨b', coherent.mapped mapped, .of_mapped mapped (coherent.owned.getKernelPages_arenas ran)⟩

theorem addDir (coherent : Coherent b m granted threads) {dir : Nat} (empty : m.IsEmptyDir dir)
    (holds : b.held m (.kernelPage page) = some (.kernel, dir))
    (notGranted : Place.kernelPage page ∉ granted) :
    Coherent (b.addDir dir) m granted threads := by
  obtain ⟨owned, pgdirs, isGranted, pcbs, running⟩ := coherent
  have held : (b.addDir dir).held m = b.held m := empty.held_eq
  refine ⟨owned.addDir empty holds, ?_, ?_, pcbs, running⟩
  · intro t v isDir
    obtain ⟨dirPage, dir', inBook, isPage, holds'⟩ := pgdirs t v isDir
    exact ⟨dirPage, dir', Set.mem_insert_of_mem dir inBook, isPage, by rw [held, holds']⟩
  · intro p isGranted'
    obtain ⟨phyaddr, holds', notDir'⟩ := isGranted p isGranted'
    refine ⟨phyaddr, by rw [held, holds'], ?_⟩
    rintro (isNew | old)
    · subst isNew
      have samePool := (owned.inPool holds').1.pool_eq (owned.inPool holds).1 owned.layout
      change p.pool = .kernel at samePool
      rw [samePool] at holds'
      have samePlace := owned.owns.once _ _ _ holds' holds
      exact notGranted (samePlace ▸ isGranted')
    · exact notDir' old

theorem fresh_notMem_granted (coherent : Coherent b m granted threads)
    (fresh : b.held m (.kernelPage page) = none) : Place.kernelPage page ∉ granted := by
  intro already
  obtain ⟨phyaddr, holds, -⟩ := coherent.inUse _ already
  cases fresh.symm.trans holds

theorem createPageDir (coherent : Coherent b m granted threads) {result : Option Address}
    (ran : Memory.createPageDir m = .ok (result, m')) :
    ∃ b' page, ∃ dir ∈ b'.dirs, Coherent b' m' granted threads ∧ Grows b m b' m' ∧
      result = some (page * 4096) ∧ b'.held m' (.kernelPage page) = some (.kernel, dir) := by
  obtain ⟨page, b', dir, isResult, mapped, holds, notDir, empty⟩ := coherent.owned.createPageDir ran
  have notGranted := coherent.fresh_notMem_granted (mapped.fresh 0 Nat.one_pos)
  have grows := Grows.of_mapped mapped (coherent.owned.createPageDir_arenas ran)
  refine ⟨b'.addDir dir, page, dir, Set.mem_insert dir _,
    (coherent.mapped mapped).addDir empty holds notGranted, grows.trans (.addDir empty),
    isResult, ?_⟩
  rw [empty.held_eq, holds]

theorem insertThread (coherent : Coherent b m granted threads) (used : page ∈ b.kernelPages)
    (notGranted : Place.kernelPage page ∉ granted) :
    Coherent b m granted (insert (page * 4096) threads) := by
  refine ⟨coherent.owned, coherent.pgdirs, coherent.inUse, ?_,
    Set.mem_insert_of_mem _ coherent.running⟩
  rintro t (rfl | old)
  · exact Or.inr ⟨page, used, rfl, notGranted⟩
  · exact coherent.pcbs t old

theorem notMem_threads (coherent : Coherent b m granted threads)
    (mapped : Mapped b m .kernel page 1 b' m') : page * 4096 ∉ threads := by
  have fresh := mapped.fresh 0 Nat.one_pos
  have low := (mapped.inRange 0 Nat.one_pos).1
  intro isThread
  rcases coherent.pcbs _ isThread with isMain | ⟨page', used, isPage, -⟩
  · have value : page * 4096 = 0xc009e000 := isMain
    simp only [kHeapPage] at low
    omega
  · obtain rfl : page = page' := Nat.eq_of_mul_eq_mul_right (by decide) isPage
    exact Book.held_eq_none.mp fresh used

theorem newThread (coherent : Coherent b m granted threads) {result : Option Address}
    (ran : Memory.getKernelPages m 1 = .ok (result, m')) :
    ∃ b', Coherent b' m' granted (insert (result.getD 0) threads) ∧ Grows b m b' m' ∧
      result.getD 0 ∉ threads := by
  have arenas := coherent.owned.getKernelPages_arenas ran
  obtain ⟨page, b', rfl, mapped⟩ := coherent.owned.getKernelPages ran
  obtain ⟨phyaddr, new⟩ := mapped.new 0 Nat.one_pos
  have notGranted := coherent.fresh_notMem_granted (mapped.fresh 0 Nat.one_pos)
  exact ⟨b', (coherent.mapped mapped).insertThread (Book.held_eq_some.mp new).1 notGranted,
    .of_mapped mapped arenas, coherent.notMem_threads mapped⟩

theorem threadStart (coherent : Coherent b m granted threads) {thread : Tid}
    (ran : Memory.threadStart m = .ok (thread, m')) :
    ∃ b', Coherent b' m' granted (insert thread threads) ∧ Grows b m b' m' ∧
      thread ∉ threads := by
  obtain ⟨⟨page, m₁⟩, allocated, ran⟩ := except_bind_eq_ok.mp ran
  obtain ⟨b', coherent', grows, isNew⟩ := coherent.newThread allocated
  simp only [pure_eq_ok, Except.ok.injEq, Prod.mk.injEq] at ran
  obtain ⟨rfl, rfl⟩ := ran
  exact ⟨b', coherent'.setTask _ _ (Or.inl rfl) (fun v isDir => nomatch isDir),
    grows.trans (.setTask b' m₁ _ initThread), isNew⟩

theorem createPageDir_new (coherent : Coherent b m granted threads) {v : Address}
    (ran : Memory.createPageDir m = .ok (some v, m')) (t : Tid) : (m'.task t).pgdir ≠ some v := by
  obtain ⟨page, b', dir, isResult, mapped, -⟩ := coherent.owned.createPageDir ran
  intro isDir
  rw [pgdir_congr mapped.fixed] at isDir
  obtain ⟨dirPage, dir', -, rfl, holds⟩ := coherent.pgdirs t v isDir
  obtain rfl : dirPage = page :=
    Nat.eq_of_mul_eq_mul_right (by decide : 0 < 4096) (Option.some.inj isResult)
  cases (mapped.fresh 0 Nat.one_pos).symm.trans holds

theorem processExecute (coherent : Coherent b m granted threads) {thread : Tid}
    (ran : Memory.processExecute m = .ok (thread, m')) :
    ∃ b', Coherent b' m' granted (insert thread threads) ∧ Grows b m b' m' ∧
      thread ∉ threads ∧
      ∀ t ∈ threads, ∀ v, (m'.task thread).pgdir = some v → (m'.task t).pgdir ≠ some v := by
  obtain ⟨⟨page, m₁⟩, allocated, ran⟩ := except_bind_eq_ok.mp ran
  obtain ⟨b₁, coherent₁, grows₁, isNew⟩ := coherent.newThread allocated
  have coherent₁ := coherent₁.setTask (page.getD 0) initThread (Or.inl rfl)
    fun v isDir => nomatch isDir
  obtain ⟨m₂, bitmap, ran⟩ := except_bind_eq_ok.mp ran
  obtain ⟨⟨bits, m₃⟩, allocated₂, bitmap⟩ := except_bind_eq_ok.mp bitmap
  obtain ⟨b₂, coherent₂, grows₂⟩ := coherent₁.getKernelPages allocated₂
  obtain rfl := Except.ok.inj bitmap
  have coherent₂ := coherent₂.setTask (page.getD 0) { m₃.task (page.getD 0) with
      userprogVaddr :=
        ⟨⟨(0xc0000000 - userVaddrStart) / pgSize / 8, Bytes.fill 0⟩, userVaddrStart⟩ }
    (Or.inr ⟨rfl, userBitmap_bitLen⟩) fun v isDir => coherent₂.pgdirs _ v isDir
  obtain ⟨⟨pgdir, m₄⟩, created, ran⟩ := except_bind_eq_ok.mp ran
  obtain ⟨b₃, dirPage, dir, inBook, coherent₃, grows₃, rfl, holds⟩ :=
    coherent₂.createPageDir created
  simp only [pure_eq_ok, Except.ok.injEq, Prod.mk.injEq] at ran
  obtain ⟨rfl, rfl⟩ := ran
  have grows := (grows₁.trans (.setTask b₁ m₁ _ initThread)).trans grows₂
  refine ⟨b₃, coherent₃.setTask _ _ (coherent₃.owned.layout.userPages _) ?_,
    (grows.trans (.setTask b₂ m₃ _ _)).trans (grows₃.trans (.setTask b₃ m₄ _ _)), isNew, ?_⟩
  · rintro v isDir
    cases isDir
    exact ⟨dirPage, dir, inBook, rfl, holds⟩
  · intro t isThread v isDir same
    have isTask : t ≠ page.getD 0 := fun isThis => isNew (isThis ▸ isThread)
    change (Function.update m₄.task (page.getD 0) _ (page.getD 0)).pgdir = some v at isDir
    change (Function.update m₄.task (page.getD 0) _ t).pgdir = some v at same
    rw [Function.update_self] at isDir
    rw [Function.update_of_ne isTask] at same
    cases isDir
    exact coherent₂.createPageDir_new created t same

/-- One step keeps the invariant, and no directory is given up. -/
theorem step {s s' : PageState} (coherent : Coherent b s.mem s.granted s.threads)
    (step : Step s s') :
    ∃ b', Coherent b' s'.mem s'.granted s'.threads ∧ b.dirs ⊆ b'.dirs := by
  cases step with
  | @mallocPage pf pgCnt vaddr m' ran =>
      obtain ⟨page, b', rfl, mapped⟩ := coherent.owned.mallocPage ran
      rw [s.mem.pages_some pf (page_address_div page)]
      exact ⟨b', coherent.grant mapped, mapped.dirs.ge⟩
  | @getAPage pf vaddr result m' ran =>
      obtain ⟨rfl, b', mapped⟩ := coherent.owned.getAPage vaddr.toNat_lt ran
      rw [s.mem.pages_some pf rfl]
      exact ⟨b', coherent.grant mapped, mapped.dirs.ge⟩
  | @mfreePage pf vaddr pgCnt m' owns ran =>
      rw [s.mem.pages_some pf rfl] at owns ⊢
      have owns' : ∀ i < pgCnt.toNat, s.mem.place pf (vaddr.toNat / 4096 + i) ∈ s.granted :=
        fun i small => owns ⟨i, small, rfl⟩
      obtain ⟨_, bounds, -⟩ := except_bind_eq_ok.mp ran
      simp only [check_eq_ok, decide_eq_true_eq] at bounds
      have aligned : vaddr.toNat % 4096 = 0 := bounds.2
      have whole : vaddr.toNat = vaddr.toNat / 4096 * 4096 := by omega
      rw [whole] at ran
      obtain ⟨b', unmapped⟩ := coherent.owned.mfreePage (coherent.plain owns') ran
      exact ⟨b', coherent.unmapped owns' unmapped, unmapped.dirs.ge⟩
  | threadStart ran =>
      obtain ⟨b', coherent', grows, -⟩ := coherent.threadStart ran
      exact ⟨b', coherent', grows.dirs⟩
  | processExecute ran =>
      obtain ⟨b', coherent', grows, -⟩ := coherent.processExecute ran
      exact ⟨b', coherent', grows.dirs⟩
  | schedule isThread ran => exact ⟨b, coherent.schedule isThread ran, le_refl _⟩

theorem run {s s' : PageState} (coherent : Coherent b s.mem s.granted s.threads)
    (ran : Relation.ReflTransGen Step s s') :
    ∃ b', Coherent b' s'.mem s'.granted s'.threads ∧ b.dirs ⊆ b'.dirs := by
  induction ran with
  | refl => exact ⟨b, coherent, le_refl _⟩
  | tail _ last inductionHypothesis =>
      obtain ⟨b₁, coherent₁, kept₁⟩ := inductionHypothesis
      obtain ⟨b₂, coherent₂, kept₂⟩ := coherent₁.step last
      exact ⟨b₂, coherent₂, kept₁.trans kept₂⟩

theorem boot (m : Mem) (memBytesTotal : Nat) :
    Coherent Book.boot (Memory.boot m memBytesTotal) ∅ {mainThread} :=
  ⟨boot_owned m memBytesTotal, (fun _ _ isDir => nomatch isDir),
    fun _ impossible => absurd impossible (Set.notMem_empty _), fun _ isMain => Or.inl isMain, rfl⟩

end Coherent

/-- The address space of a directory. -/
def Mem.under (m : Mem) (dir : Nat) : Mem := { m with cr3 := dir }

theorem Owned.translate_under {b : Book} {m : Mem} (owned : Owned b m) {dir dir' vaddr : Nat}
    (isDir : dir ∈ b.dirs) (isDir' : dir' ∈ b.dirs) (low : 768 ≤ pdeIndex vaddr)
    (high : pdeIndex vaddr < 1023) :
    (m.under dir).translate vaddr = (m.under dir').translate vaddr := by
  have same : (m.under dir).pde vaddr = (m.under dir').pde vaddr := by
    change m.words dir (pdeIndex vaddr) = m.words dir' (pdeIndex vaddr)
    rw [owned.kernelHalf dir isDir _ low high, owned.kernelHalf dir' isDir' _ low high]
  simp only [Mem.translate, Mem.pte, Mem.pteTable, same]
  rfl

/-- From boot on, whatever is allocated, released and created by whatever tasks: entries 768
to 1022 are the same in all directories and at all times, the last entry of each names its
own frame, and all of them map the kernel half to the same frames. -/
theorem kernelHalf_coherent (m : Mem) (memBytesTotal : Nat) {s s' : PageState}
    (ran : Relation.ReflTransGen Step (.boot m memBytesTotal) s)
    (goesOn : Relation.ReflTransGen Step s s') :
    (∀ dir ∈ s.mem.directories, ∀ dir' ∈ s'.mem.directories, ∀ pdeIdx, 768 ≤ pdeIdx →
      pdeIdx < 1023 → s'.mem.words dir pdeIdx = s.mem.words dir pdeIdx ∧
        s'.mem.words dir' pdeIdx = s.mem.words dir pdeIdx) ∧
    (∀ dir ∈ s.mem.directories ∪ s'.mem.directories,
      isPresent (s'.mem.words dir 1023) = true ∧ entryFrame (s'.mem.words dir 1023) = dir) ∧
    ∀ dir ∈ s.mem.directories ∪ s'.mem.directories,
      ∀ dir' ∈ s.mem.directories ∪ s'.mem.directories, ∀ vaddr,
      768 ≤ pdeIndex vaddr → pdeIndex vaddr < 1023 →
      (s'.mem.under dir).translate vaddr = (s'.mem.under dir').translate vaddr := by
  obtain ⟨b, coherent, -⟩ := (Coherent.boot m memBytesTotal).run ran
  obtain ⟨b', coherent', kept⟩ := coherent.run goesOn
  have before : s.mem.directories ⊆ b'.dirs := coherent.directories_subset.trans kept
  have after : s'.mem.directories ⊆ b'.dirs := coherent'.directories_subset
  have both := Set.union_subset before after
  refine ⟨?_, ?_, ?_⟩
  · intro dir isDir dir' isDir' pdeIdx low high
    rw [coherent.owned.kernelHalf dir (coherent.directories_subset isDir) pdeIdx low high,
      coherent'.owned.kernelHalf dir (before isDir) pdeIdx low high,
      coherent'.owned.kernelHalf dir' (after isDir') pdeIdx low high]
    exact ⟨rfl, rfl⟩
  · intro dir isDir
    obtain ⟨aligned, below⟩ := coherent'.owned.dir_aligned (both isDir)
    rw [coherent'.owned.selfMap dir (both isDir), isPresent_pageEntry,
      entryFrame_pageEntry aligned below]
    exact ⟨rfl, rfl⟩
  · intro dir isDir dir' isDir' vaddr low high
    exact coherent'.owned.translate_under (both isDir) (both isDir') low high

/-- The first process, right after boot. -/
theorem kernelHalf_coherent_firstProcess : ∃ thread m',
    processExecute (boot powerOn 0x2000000) = .ok (thread, m') ∧
      ∀ dir ∈ m'.directories, entryFrame (m'.words dir 1023) = dir := by
  have returns : (processExecute (boot powerOn 0x2000000)).toOption.isSome := by
    decide +kernel
  cases created : processExecute (boot powerOn 0x2000000) with
  | error reason =>
      rw [created] at returns
      cases returns
  | ok after =>
      obtain ⟨thread, m'⟩ := after
      have first : Step (.boot powerOn 0x2000000) ⟨m', ∅, {thread, mainThread}⟩ :=
        .processExecute created
      obtain ⟨-, self, -⟩ := kernelHalf_coherent powerOn 0x2000000 .refl (.single first)
      exact ⟨thread, m', rfl, fun dir isDir => (self dir (Or.inr isDir)).2⟩

end HongbaiOS.Memory
