import HongbaiOS.Memory.PageCalls

/-!
# Bits and pages of new threads

A new thread gets its PCB, and a process the pages for its address bitmap and its page
directory as well.  Its bits are clear and its directory has no tables, so that for it, too,
bits and pages agree.
-/

namespace HongbaiOS.Memory

open HongbaiOS.Library HongbaiOS.Kernel HongbaiOS.Lib HongbaiOS.Thread

section Threads

variable {b b' : Book} {m m' : Mem} {granted : Set Place} {threads : Set Tid} {pf : PoolFlags}
  {page cnt : Nat} {t : Tid}

theorem Book.dirOf_congr (words : m'.words = m.words) (task : m'.task t = m.task t) (dir : Nat) :
    b.DirOf m' t dir ↔ b.DirOf m t dir := by
  unfold Book.DirOf
  rw [task, b.held_of_words words]

theorem rangeOf_of_task (kernelVaddr : m'.kernelVaddr = m.kernelVaddr)
    (task : m'.task t = m.task t) (pf : PoolFlags) : m'.rangeOf t pf = m.rangeOf t pf := by
  cases pf with
  | kernel => exact kernelVaddr
  | user => exact congrArg Task.userprogVaddr task

/-- Only the tasks that exist count, and which of them runs. -/
theorem Tracked.tasks (tracked : Tracked b m threads) (words : m'.words = m.words)
    (kernelVaddr : m'.kernelVaddr = m.kernelVaddr) (task : ∀ t ∈ threads, m'.task t = m.task t)
    (current : b.DirOf m' m'.runningThread m'.cr3) : Tracked b m' threads where
  bits := by
    intro t isThread dir isDir pf i inside
    have range := rangeOf_of_task kernelVaddr (task t isThread) pf
    rw [Book.dirOf_congr words (task t isThread)] at isDir
    rw [Mem.pageCnt, range] at inside
    rw [Mem.pageBit, Mem.firstPage, range, Book.uses_iff, b.held_of_words words, ← Book.uses_iff]
    exact tracked.bits t isThread dir isDir pf i inside
  noRange := by
    intro t isThread pgdir
    rw [task t isThread] at pgdir
    rw [Mem.pageCnt, rangeOf_of_task kernelVaddr (task t isThread)]
    exact tracked.noRange t isThread pgdir
  once := by
    intro t isThread t' isThread' v first second
    rw [task t isThread] at first
    rw [task t' isThread'] at second
    exact tracked.once t isThread t' isThread' v first second
  current := current
  absent := by
    intro i inside notUsed
    rw [kernelVaddr] at inside
    rw [kernelEntry_of_words words]
    exact tracked.absent i inside notUsed

theorem Sound.setTask (sound : Sound b m granted threads) (isNew : t ∉ threads) (task : Task)
    (vaddrs : task.userprogVaddr.vaddrBitmap.bitLen = 0 ∨
      task.userprogVaddr.vaddrStart = userVaddrStart ∧
        task.userprogVaddr.vaddrBitmap.bitLen = userPageCnt)
    (pgdir : ∀ v, task.pgdir = some v → ∃ page, ∃ dir ∈ b.dirs, v = page * 4096 ∧
      b.held m (.kernelPage page) = some (.kernel, dir)) :
    Sound b (m.setTask t task) granted threads := by
  have others : ∀ t' ∈ threads, (m.setTask t task).task t' = m.task t' := by
    rintro t' isThread
    refine Function.update_of_ne ?_ _ _
    rintro rfl
    exact isNew isThread
  refine ⟨sound.coherent.setTask t task vaddrs pgdir, sound.tracked.tasks rfl rfl others ?_⟩
  have running := others _ sound.coherent.running
  have words : (m.setTask t task).words = m.words := rfl
  exact (Book.dirOf_congr words running m.cr3).mpr sound.tracked.current

theorem Coherent.pageDirActivate_iff (coherent : Coherent b m granted threads) {dir : Nat} :
    (∃ m', Memory.pageDirActivate m t = .ok m' ∧ m'.cr3 = dir) ↔ b.DirOf m t dir := by
  unfold Memory.pageDirActivate Book.DirOf
  cases isDir : (m.task t).pgdir with
  | none => simp [eq_comm]
  | some v =>
      obtain ⟨page, dir₀, inBook, rfl, holds⟩ := coherent.pgdirs t v isDir
      have inRange := coherent.owned.inRange page (Book.held_eq_some.mp holds).1
      have atPlace : b.held m (m.place .kernel page) = some (.kernel, dir₀) := holds
      have isPage : page * 4096 / 4096 = page := page_address_div page
      simp only [coherent.owned.addrV2p_eq inRange atPlace, isPage, holds]
      simp

theorem Sound.schedule (sound : Sound b m granted threads) {next : Tid}
    (isThread : next ∈ threads) (ran : Memory.schedule m next = .ok m') :
    Sound b m' granted threads := by
  refine ⟨sound.coherent.schedule isThread ran, ?_⟩
  obtain ⟨m₁, activated, ran⟩ := except_bind_eq_ok.mp ran
  have isDir := sound.coherent.pageDirActivate_iff.mp ⟨m₁, activated, rfl⟩
  obtain ⟨dir, -, rfl⟩ := sound.coherent.pageDirActivate activated
  obtain rfl := Except.ok.inj ran
  exact sound.tracked.tasks rfl rfl (fun _ _ => rfl) ((Book.dirOf_congr rfl rfl _).mpr isDir)

/-- The PCB of a thread to come: its page is in use and not handed out. -/
structure Pcb (b : Book) (granted : Set Place) (threads : Set Tid) (thread : Tid) : Prop where
  isNew : thread ∉ threads
  page : ∃ page ∈ b.kernelPages, thread = page * 4096 ∧ Place.kernelPage page ∉ granted

theorem Coherent.pcb (coherent : Coherent b m granted threads)
    (mapped : Mapped b m .kernel page 1 b' m') : Pcb b' granted threads (page * 4096) := by
  have fresh := mapped.fresh 0 Nat.one_pos
  obtain ⟨phyaddr, new⟩ := mapped.new 0 Nat.one_pos
  exact ⟨coherent.notMem_threads mapped, page, (Book.held_eq_some.mp new).1, rfl,
    coherent.fresh_notMem_granted fresh⟩

theorem Pcb.mono {thread : Tid} (pcb : Pcb b granted threads thread)
    (kept : b.kernelPages ⊆ b'.kernelPages) : Pcb b' granted threads thread := by
  obtain ⟨page, used, rest⟩ := pcb.page
  exact ⟨pcb.isNew, page, kept used, rest⟩

/-- A thread that has been set up begins to exist. -/
theorem Sound.insertThread (sound : Sound b m granted threads) (pcb : Pcb b granted threads t)
    (bits : ∀ dir, b.DirOf m t dir → ∀ i < m.pageCnt t .user,
      (m.pageBit t .user i = true ↔ b.Uses m (.userPage dir (m.firstPage t .user + i))))
    (noRange : (m.task t).pgdir = none → m.pageCnt t .user = 0)
    (once : ∀ t' ∈ threads, ∀ v, (m.task t').pgdir = some v → (m.task t).pgdir ≠ some v) :
    Sound b m granted (insert t threads) := by
  obtain ⟨isNew, page, used, rfl, notGranted⟩ := pcb
  have tracked := sound.tracked
  refine ⟨sound.coherent.insertThread used notGranted, ?_, ?_, ?_, tracked.current,
    tracked.absent⟩
  · rintro t (rfl | old) dir isDir pf i inside
    · cases pf with
      | kernel =>
          exact tracked.bits _ sound.coherent.running _ tracked.current .kernel i inside
      | user => exact bits dir isDir i inside
    · exact tracked.bits t old dir isDir pf i inside
  · rintro t (rfl | old) pgdir
    · exact noRange pgdir
    · exact tracked.noRange t old pgdir
  · rintro t (rfl | old) t' (rfl | old') v first second
    · rfl
    · exact absurd first (once t' old' v second)
    · exact absurd second (once t old v first)
    · exact tracked.once t old t' old' v first second

theorem Sound.getKernelPages (sound : Sound b m granted threads) (pgCnt : Nat) :
    Serves PageAssertion (Memory.getKernelPages m pgCnt) fun after =>
      ∃ page b', after.1 = some (page * 4096) ∧ Allotted b m .kernel page pgCnt b' after.2 := by
  refine ⟨sound.avoids_getKernelPages, fun after ran => ?_⟩
  exact sound.coherent.owned.allotted_getKernelPages ran

theorem Sound.threadStart (sound : Sound b m granted threads) :
    Serves PageAssertion (Memory.threadStart m) fun after =>
      ∃ b', Sound b' after.2 granted (insert after.1 threads) := by
  refine (sound.getKernelPages 1).bind ?_
  rintro ⟨_, m₁⟩ ⟨page, b', rfl, allotted⟩
  have pcb := sound.coherent.pcb allotted.toMapped
  have noDir : ∀ v, initThread.pgdir ≠ some v := fun v isDir => nomatch isDir
  have set := (sound.allotted allotted).setTask pcb.isNew initThread (Or.inl rfl)
    fun v isDir => absurd isDir (noDir v)
  suffices started : Sound b' (m₁.setTask (page * 4096) initThread) granted
      (insert (page * 4096) threads) from serves_ok ⟨b', started⟩
  have isTask : (m₁.setTask (page * 4096) initThread).task (page * 4096) = initThread :=
    Function.update_self _ _ _
  have noBits : (m₁.setTask (page * 4096) initThread).pageCnt (page * 4096) .user = 0 := by
    rw [Mem.pageCnt, Mem.rangeOf, isTask]
    rfl
  refine set.insertThread pcb ?_ (fun _ => noBits) ?_
  · intro dir _ i inside
    rw [noBits] at inside
    exact absurd inside (Nat.not_lt_zero i)
  · intro t' _ v _
    rw [isTask]
    exact noDir v

theorem Marked.createPageDir (layout : Layout m) {result : Option Address}
    (ran : Memory.createPageDir m = .ok (result, m')) (isPage : result = some (page * 4096)) :
    Marked m .kernel page 1 true m' := by
  obtain ⟨⟨_, m₁⟩, allocated, ran⟩ := except_bind_eq_ok.mp ran
  split at ran
  next none =>
    simp only [pure_eq_ok, Except.ok.injEq, Prod.mk.injEq] at ran
    rw [← ran.1] at isPage
    cases isPage
  next v m₁' some =>
    obtain ⟨rfl, rfl⟩ := Prod.mk.inj some
    obtain ⟨m₂, copied, ran⟩ := except_bind_eq_ok.mp ran
    obtain ⟨source, -, copied⟩ := except_bind_eq_ok.mp copied
    obtain ⟨target, -, copied⟩ := except_bind_eq_ok.mp copied
    obtain ⟨phyaddr, -, ran⟩ := except_bind_eq_ok.mp ran
    obtain ⟨frame, -, ran⟩ := except_bind_eq_ok.mp ran
    simp only [pure_eq_ok, Except.ok.injEq, Prod.mk.injEq] at ran copied
    obtain ⟨rfl, rfl⟩ := ran
    rw [isPage] at allocated
    have copies : KeepsBits m₁ m₂ := by
      rw [← copied]
      exact ⟨rfl, rfl⟩
    have last : KeepsBits m₂ (m₂.setWord frame 1023 (pageEntry phyaddr)) := ⟨rfl, rfl⟩
    exact (Marked.getKernelPages layout allocated).keeps_right (copies.trans last)

structure NewDir (b : Book) (m : Mem) (page dir : Nat) (b' : Book) (m' : Mem) : Prop
    extends Allotted b m .kernel page 1 b' m' where
  holds : b'.held m' (.kernelPage page) = some (.kernel, dir)
  empty : m'.IsEmptyDir dir

theorem Sound.createPageDir (sound : Sound b m granted threads) :
    Serves PageAssertion (Memory.createPageDir m) fun after =>
      ∃ page dir b', after.1 = some (page * 4096) ∧ NewDir b m page dir b' after.2 := by
  refine ⟨?_, ?_⟩
  · refine sound.avoids_getKernelPages.bind fun after _ => ?_
    obtain ⟨result, m₁⟩ := after
    cases result with
    | none => exact avoids_ok _
    | some v =>
        refine Avoids.bind ?_ fun m₂ _ => ?_
        · refine (pageAssertion_upper.translate m₁ _).bind fun _ _ => ?_
          exact (pageAssertion_upper.translate m₁ _).bind fun _ _ => avoids_ok _
        · refine (pageAssertion_upper.addrV2p m₂ _).bind fun _ _ => ?_
          exact (pageAssertion_upper.translate m₂ _).bind fun _ _ => avoids_ok _
  · rintro ⟨result, m'⟩ ran
    obtain ⟨page, b', dir, isPage, mapped, holds, -, empty⟩ :=
      sound.coherent.owned.createPageDir ran
    have marked := Marked.createPageDir sound.coherent.owned.layout ran isPage
    exact ⟨page, dir, b', isPage, ⟨mapped, marked⟩, holds, empty⟩

theorem Sound.addDir {dir : Nat} (sound : Sound b m granted threads)
    (newDir : NewDir b m page dir b' m') : Sound (b'.addDir dir) m' granted threads := by
  have held : (b'.addDir dir).held m' = b'.held m' := newDir.empty.held_eq
  have notGranted := sound.coherent.fresh_notMem_granted (newDir.fresh 0 Nat.one_pos)
  obtain ⟨coherent, tracked⟩ := sound.allotted newDir.toAllotted
  refine ⟨coherent.addDir newDir.empty newDir.holds notGranted, ?_, tracked.noRange,
    tracked.once, ?_, tracked.absent⟩
  · intro t isThread dir' isDir pf i inside
    unfold Book.DirOf at isDir
    rw [held] at isDir
    rw [Book.uses_iff, held, ← Book.uses_iff]
    exact tracked.bits t isThread dir' isDir pf i inside
  · unfold Book.DirOf
    rw [held]
    exact tracked.current

/-- The address range of a process in which nothing is allocated. -/
def userVaddrInit : VirtualAddr :=
  ⟨⟨(0xc0000000 - userVaddrStart) / pgSize / 8, Bytes.fill 0⟩, userVaddrStart⟩

/-- What is set up of a process before it has a directory. -/
structure Begun (b : Book) (m : Mem) (granted : Set Place) (threads : Set Tid) (t : Tid) : Prop
    extends Sound b m granted threads where
  pcb : Pcb b granted threads t
  noDir : (m.task t).pgdir = none
  vaddrs : (m.task t).userprogVaddr = userVaddrInit

theorem Sound.createUserVaddrBitmap (sound : Sound b m granted threads)
    (pcb : Pcb b granted threads t) (noDir : (m.task t).pgdir = none) :
    Serves PageAssertion (Memory.createUserVaddrBitmap m t) fun m' =>
      ∃ b', Begun b' m' granted threads t := by
  refine (sound.getKernelPages _).bind ?_
  rintro ⟨_, m₁⟩ ⟨page, b', -, allotted⟩
  have noDir₁ : (m₁.task t).pgdir = none := by
    rw [Coherent.pgdir_congr allotted.fixed, noDir]
  have set := (sound.allotted allotted).setTask pcb.isNew
    { m₁.task t with userprogVaddr := userVaddrInit } (Or.inr ⟨rfl, userBitmap_bitLen⟩)
    fun v isDir => absurd (noDir₁.symm.trans isDir) nofun
  have isTask : (m₁.setTask t { m₁.task t with userprogVaddr := userVaddrInit }).task t =
      { m₁.task t with userprogVaddr := userVaddrInit } := Function.update_self _ _ _
  refine serves_ok ⟨b', set, pcb.mono allotted.kernelPages_subset, ?_, ?_⟩
  · exact (congrArg Task.pgdir isTask).trans noDir₁
  · exact congrArg Task.userprogVaddr isTask

/-- The process begins to exist once it has its directory. -/
theorem Begun.process {dir : Nat} {descs : Fin 7 → MemBlockDesc}
    (begun : Begun b m granted threads t) (newDir : NewDir b m page dir b' m') :
    Sound (b'.addDir dir) (m'.setTask t { m'.task t with
      pgdir := some (page * 4096), uBlockDesc := descs }) granted (insert t threads) := by
  have sound := begun.toSound.addDir newDir
  have held : (b'.addDir dir).held m' = b'.held m' := newDir.empty.held_eq
  have holds : (b'.addDir dir).held m' (.kernelPage page) = some (.kernel, dir) := by
    rw [held, newDir.holds]
  have isPage : page * 4096 / 4096 = page := page_address_div page
  have pcb : Pcb (b'.addDir dir) granted threads t :=
    begun.pcb.mono newDir.kernelPages_subset
  have set := sound.setTask pcb.isNew
    { m'.task t with pgdir := some (page * 4096), uBlockDesc := descs }
    (sound.coherent.owned.layout.userPages t) ?_
  · have isTask : (m'.setTask t { m'.task t with
        pgdir := some (page * 4096), uBlockDesc := descs }).task t =
        { m'.task t with pgdir := some (page * 4096), uBlockDesc := descs } :=
      Function.update_self _ _ _
    generalize isNext : m'.setTask t { m'.task t with
      pgdir := some (page * 4096), uBlockDesc := descs } = next at set isTask ⊢
    have words : next.words = m'.words := by
      rw [← isNext]
      rfl
    refine set.insertThread pcb ?_ ?_ ?_
    · intro d isDir i _
      have bit : next.pageBit t .user i = false := by
        have unmarked := newDir.marked t .user i
        rw [if_neg fun both => nomatch both.1.1] at unmarked
        have sameBit : next.pageBit t .user i = m'.pageBit t .user i := by
          rw [Mem.pageBit, Mem.rangeOf, isTask]
          rfl
        rw [sameBit, unmarked, Mem.pageBit, Mem.rangeOf, begun.vaddrs]
        exact Bitmap.bit_fill_zero _ i
      rw [bit]
      simp only [Bool.false_eq_true, false_iff]
      rintro ⟨⟨-, -, high, there⟩, -⟩
      simp only [Book.DirOf, isTask, isPage, Book.held_of_words _ words, holds] at isDir
      obtain ⟨-, rfl⟩ := Prod.mk.inj (Option.some.inj isDir)
      rw [words, newDir.empty.1 _ high] at there
      cases there
    · intro noDir
      rw [isTask] at noDir
      cases noDir
    · intro t' isThread v isDir same
      have old : (m.task t').pgdir = some v := by
        rw [← Coherent.pgdir_congr newDir.fixed, ← isDir, ← isNext]
        refine congrArg Task.pgdir (Function.update_of_ne ?_ _ _).symm
        rintro rfl
        exact pcb.isNew isThread
      rw [isTask] at same
      obtain ⟨dirPage, dir', -, rfl, holds'⟩ := begun.coherent.pgdirs t' v old
      obtain rfl : page = dirPage :=
        Nat.eq_of_mul_eq_mul_right (by decide : 0 < 4096) (Option.some.inj same)
      cases (newDir.fresh 0 Nat.one_pos).symm.trans holds'
  · rintro v isDir
    cases isDir
    exact ⟨page, dir, Set.mem_insert dir _, rfl, holds⟩

theorem Sound.processExecute (sound : Sound b m granted threads) :
    Serves PageAssertion (Memory.processExecute m) fun after =>
      ∃ b', Sound b' after.2 granted (insert after.1 threads) := by
  refine (sound.getKernelPages 1).bind ?_
  rintro ⟨_, m₁⟩ ⟨page, b₁, rfl, allotted⟩
  have pcb := sound.coherent.pcb allotted.toMapped
  have set := (sound.allotted allotted).setTask pcb.isNew initThread (Or.inl rfl)
    fun v isDir => nomatch isDir
  have isTask : (m₁.setTask (page * 4096) initThread).task (page * 4096) = initThread :=
    Function.update_self _ _ _
  have noDir := congrArg Task.pgdir isTask
  refine (set.createUserVaddrBitmap pcb noDir).bind ?_
  rintro m₂ ⟨b₂, begun⟩
  refine begun.createPageDir.bind ?_
  rintro ⟨_, m₃⟩ ⟨dirPage, dir, b₃, rfl, newDir⟩
  exact serves_ok ⟨b₃.addDir dir, begun.process newDir⟩

end Threads

end HongbaiOS.Memory
