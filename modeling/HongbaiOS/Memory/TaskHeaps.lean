import HongbaiOS.Memory.HeapRuns

/-!
# The heaps of all tasks

All kernel threads together have one heap, and every process has one of its own.  They share
the pools, the book and the memory, but no page: a call for one heap leaves the chunks of all
others alone, and so does the creation of threads and processes.

A run is one of whole calls, one after the other.  `sys_malloc`, `sys_free` and `get_a_page` hold
the lock of their pool; `get_kernel_pages`, from which threads and processes are made, takes no
lock, and nothing is said of runs in which another call comes in between.
-/

namespace HongbaiOS.Memory

open HongbaiOS.Library HongbaiOS.Kernel HongbaiOS.Lib HongbaiOS.Thread

/-- The memory and the threads that exist, with the chunks and the sizes of the allocations of
every heap. -/
structure TaskHeaps where
  mem : Mem
  threads : List Tid
  chunks : Owner → Nat → Option Chunk
  live : Owner → Address → Option Nat

namespace TaskHeaps

/-- A heap, as the task sees it that uses it. -/
def heap (s : TaskHeaps) (o : Owner) : HeapUse := ⟨s.mem, s.chunks o, s.live o⟩

/-- A call for a heap has returned. -/
def setHeap (s : TaskHeaps) (o : Owner) (after : HeapUse) : TaskHeaps where
  mem := after.mem
  threads := s.threads
  chunks := Function.update s.chunks o after.chunks
  live := Function.update s.live o after.live

section SetHeap

variable (s : TaskHeaps) (after : HeapUse) {o o' : Owner}

theorem setHeap_chunks_self : (s.setHeap o after).chunks o = after.chunks :=
  Function.update_self _ _ _

theorem setHeap_live_self : (s.setHeap o after).live o = after.live :=
  Function.update_self _ _ _

theorem setHeap_chunks_of_ne (other : o' ≠ o) : (s.setHeap o after).chunks o' = s.chunks o' :=
  Function.update_of_ne other _ _

theorem setHeap_live_of_ne (other : o' ≠ o) : (s.setHeap o after).live o' = s.live o' :=
  Function.update_of_ne other _ _

/-- An allocation of another heap stays, and one of this heap if the call leaves it. -/
theorem setHeap_live_of_live {ptr size : Nat} (isLive : s.live o' ptr = some size)
    (kept : o' = o → after.live ptr = some size) : (s.setHeap o after).live o' ptr = some size := by
  by_cases same : o' = o
  · rw [same, setHeap_live_self]
    exact kept same
  · rw [setHeap_live_of_ne _ _ same, isLive]

end SetHeap

/-- The pages of the chunks of all heaps. -/
def places (s : TaskHeaps) : Set Place := {p | ∃ o : Owner, o.Covers (s.chunks o) p}

end TaskHeaps

/-- The heap is that of the kernel, or of a process that exists. -/
def Book.HasHeap (b : Book) (m : Mem) (threads : List Tid) : Owner → Prop
  | .kernel => True
  | .process t dir => t ∈ threads ∧ (m.task t).pgdir ≠ none ∧ b.DirOf m t dir

/-- The invariant of all heaps together. -/
structure HeapsSound (b : Book) (s : TaskHeaps) : Prop where
  coherent : Coherent b s.mem s.places {t | t ∈ s.threads}
  current : b.DirOf s.mem s.mem.runningThread s.mem.cr3
  sized : ∀ pf, (s.mem.pool pf).poolSize ≤ 2 ^ 28
  arenas : ∀ o, b.HasHeap s.mem s.threads o → Arenas b s.mem o (s.chunks o)
  accounted : ∀ o, b.HasHeap s.mem s.threads o →
    Accounted (s.chunks o) (s.mem.freeLists o) (s.live o)
  idle : ∀ o, ¬ b.HasHeap s.mem s.threads o →
    (s.chunks o = fun _ => none) ∧ s.live o = fun _ => none
  apart : ∀ (o o' : Owner) (p : Place), o.Covers (s.chunks o) p → o'.Covers (s.chunks o') p → o = o'

section Sound

variable {b b' : Book} {s : TaskHeaps} {m' : Mem} {o o' : Owner} {chunks' : Nat → Option Chunk}
  {live' : Address → Option Nat} {threads' : List Tid} {p : Place}

theorem HeapsSound.hasHeap_owner (sound : HeapsSound b s) :
    b.HasHeap s.mem s.threads s.mem.owner := by
  unfold Mem.owner
  split
  next => trivial
  next isProcess => exact ⟨sound.coherent.running, isProcess, sound.current⟩

/-- The running task uses its heap. -/
theorem HeapsSound.heap (sound : HeapsSound b s) : HeapSound b (s.heap s.mem.owner) :=
  ⟨sound.coherent.owned, sound.sized _, sound.arenas _ sound.hasHeap_owner,
    sound.accounted _ sound.hasHeap_owner⟩

theorem HeapsSound.hasHeap_of_covers (sound : HeapsSound b s) (covers : o.Covers (s.chunks o) p) :
    b.HasHeap s.mem s.threads o := by
  by_contra noHeap
  obtain ⟨page, c, isChunk, -⟩ := covers
  rw [(sound.idle o noHeap).1] at isChunk
  cases isChunk

theorem Arenas.held_of_covers {m : Mem} {chunks : Nat → Option Chunk}
    (arenas : Arenas b m o chunks) (covers : o.Covers chunks p) :
    ∃ phyaddr, b.held m p = some (p.pool, phyaddr) ∧ phyaddr ∉ b.dirs := by
  obtain ⟨page, c, isChunk, i, inside, rfl⟩ := covers
  rw [Owner.pool_place]
  exact arenas.held page c isChunk i inside

theorem HeapsSound.held (sound : HeapsSound b s) (covers : o.Covers (s.chunks o) p) :
    ∃ phyaddr, b.held s.mem p = some (p.pool, phyaddr) ∧ phyaddr ∉ b.dirs :=
  (sound.arenas o (sound.hasHeap_of_covers covers)).held_of_covers covers

theorem HeapsSound.dir_not_covered (sound : HeapsSound b s) {page dir : Nat} (inBook : dir ∈ b.dirs)
    (holds : b.held s.mem (.kernelPage page) = some (.kernel, dir)) :
    ¬ o.Covers (s.chunks o) (.kernelPage page) := by
  intro covers
  obtain ⟨phyaddr, holds', notDir⟩ := sound.held covers
  obtain ⟨-, rfl⟩ := Prod.mk.inj (Option.some.inj (holds'.symm.trans holds))
  exact notDir inBook

/-- Different heaps have different descriptors. -/
theorem Book.HasHeap.desc_ne (hasHeap : b.HasHeap s.mem s.threads o)
    (hasHeap' : b.HasHeap s.mem s.threads o') (other : o' ≠ o) (descIdx descIdx' : Fin 7) :
    o'.desc descIdx ≠ o.desc descIdx' := by
  intro same
  cases o with
  | kernel =>
      cases o' with
      | kernel => exact other rfl
      | process t' dir' => cases same
  | process t dir =>
      cases o' with
      | kernel => cases same
      | process t' dir' =>
          obtain ⟨rfl, -⟩ := DescRef.user.inj same
          obtain rfl : dir' = dir := hasHeap'.2.2.unique hasHeap.2.2
          exact other rfl

/-- The call of one heap, seen by all tasks. -/
theorem HeapsSound.coherent_after (sound : HeapsSound b s)
    (change : HeapChange b s.mem o (s.chunks o) b' m' chunks' (m'.freeLists o))
    (live' : Address → Option Nat) :
    Coherent b' m' (s.setHeap o ⟨m', chunks', live'⟩).places {t | t ∈ s.threads} := by
  have others := change.others
  refine ⟨change.owned, ?_, ?_, ?_, ?_⟩
  · intro t v isDir
    rw [Coherent.pgdir_congr change.fixed] at isDir
    obtain ⟨page, dir, inBook, isPage, holds⟩ := sound.coherent.pgdirs t v isDir
    obtain ⟨holds', -⟩ := others.held _ _ holds (sound.dir_not_covered inBook holds)
    rw [← others.dirs] at inBook
    exact ⟨page, dir, inBook, isPage, holds'⟩
  · rintro p ⟨o', covers⟩
    by_cases same : o' = o
    · subst same
      rw [TaskHeaps.setHeap_chunks_self] at covers
      exact change.arenas.held_of_covers covers
    · rw [TaskHeaps.setHeap_chunks_of_ne _ _ same] at covers
      obtain ⟨phyaddr, holds, notDir⟩ := sound.held covers
      obtain ⟨holds', -⟩ := others.held _ _ holds fun mine => same (sound.apart _ _ _ covers mine)
      rw [← others.dirs] at notDir
      exact ⟨phyaddr, holds', notDir⟩
  · intro t isThread
    rcases sound.coherent.pcbs t isThread with isMain | ⟨page, used, isPage, notHeap⟩
    · exact .inl isMain
    · have uses : b.Uses s.mem (.kernelPage page) := used
      have holds := Book.held_eq_some.mpr ⟨uses, rfl⟩
      obtain ⟨holds', -, outside⟩ := others.held _ _ holds fun covers => notHeap ⟨o, covers⟩
      refine .inr ⟨page, (Book.held_eq_some.mp holds').1, isPage, ?_⟩
      rintro ⟨o', covers⟩
      by_cases same : o' = o
      · subst same
        rw [TaskHeaps.setHeap_chunks_self] at covers
        exact outside covers
      · rw [TaskHeaps.setHeap_chunks_of_ne _ _ same] at covers
        exact notHeap ⟨o', covers⟩
  · rw [Coherent.running_congr change.fixed]
    exact sound.coherent.running

theorem HeapsSound.setHeap (sound : HeapsSound b s) (hasHeap : b.HasHeap s.mem s.threads o)
    (change : HeapChange b s.mem o (s.chunks o) b' m' chunks' (m'.freeLists o))
    (accounted : Accounted chunks' (m'.freeLists o) live') :
    HeapsSound b' (s.setHeap o ⟨m', chunks', live'⟩) := by
  have others := change.others
  have dirOf : ∀ t dir, b'.DirOf m' t dir ↔ b.DirOf s.mem t dir := by
    intro t dir
    refine sound.coherent.dirOf_iff change.fixed fun page dir inBook holds => ?_
    exact (others.held _ _ holds (sound.dir_not_covered inBook holds)).1
  have heaps : ∀ o', b'.HasHeap m' s.threads o' ↔ b.HasHeap s.mem s.threads o' := by
    intro o'
    cases o' with
    | kernel => exact Iff.rfl
    | process t dir =>
        rw [Book.HasHeap, Book.HasHeap, dirOf, Coherent.pgdir_congr change.fixed]
  have outside : ∀ o' p, o'.Covers (s.chunks o') p → o' ≠ o → ¬ o.Covers (s.chunks o) p :=
    fun o' p covers other mine => other (sound.apart o' o p covers mine)
  have kept : ∀ o' p, o'.Covers (s.chunks o') p → o' ≠ o → ¬ o.Covers chunks' p := by
    intro o' p covers other
    obtain ⟨phyaddr, holds, -⟩ := sound.held covers
    exact (others.held _ _ holds (outside o' p covers other)).2.2
  have desc : ∀ o', b.HasHeap s.mem s.threads o' → o' ≠ o → ∀ descIdx,
      m'.desc (o'.desc descIdx) = s.mem.desc (o'.desc descIdx) :=
    fun o' hasHeap' other descIdx => others.desc _ fun descIdx' =>
      hasHeap.desc_ne hasHeap' other descIdx descIdx'
  refine ⟨sound.coherent_after change live', ?_, ?_, ?_, ?_, ?_, ?_⟩
  · have running : m'.runningThread = s.mem.runningThread := Coherent.running_congr change.fixed
    have cr3 : m'.cr3 = s.mem.cr3 := congrArg Fixed.cr3 change.fixed
    change b'.DirOf m' m'.runningThread m'.cr3
    rw [running, cr3]
    exact (dirOf _ _).mpr sound.current
  · intro pf
    exact (congrFun (congrArg Fixed.poolSize change.fixed) pf).le.trans (sound.sized pf)
  · intro o' hasHeap'
    replace hasHeap' := (heaps o').mp hasHeap'
    by_cases same : o' = o
    · subst same
      rw [TaskHeaps.setHeap_chunks_self]
      exact change.arenas
    · rw [TaskHeaps.setHeap_chunks_of_ne _ _ same]
      refine (sound.arenas o' hasHeap').congr (fun page c isChunk i inside frame holds notDir => ?_)
        (desc o' hasHeap' same)
      have covers : o'.Covers (s.chunks o') (o'.place (page + i)) :=
        ⟨page, c, isChunk, i, inside, rfl⟩
      obtain ⟨holds', arena, -⟩ := others.held _ _ holds (outside o' _ covers same)
      rw [← others.dirs] at notDir
      exact ⟨holds', arena, notDir⟩
  · intro o' hasHeap'
    replace hasHeap' := (heaps o').mp hasHeap'
    by_cases same : o' = o
    · subst same
      rw [TaskHeaps.setHeap_chunks_self, TaskHeaps.setHeap_live_self]
      exact accounted
    · rw [TaskHeaps.setHeap_chunks_of_ne _ _ same, TaskHeaps.setHeap_live_of_ne _ _ same]
      have lists : m'.freeLists o' = s.mem.freeLists o' := by
        funext descIdx
        rw [Mem.freeLists, desc o' hasHeap' same]
        rfl
      change Accounted _ (m'.freeLists o') _
      rw [lists]
      exact sound.accounted o' hasHeap'
  · intro o' noHeap
    have noHeap' : ¬ b.HasHeap s.mem s.threads o' := fun had => noHeap ((heaps o').mpr had)
    have other : o' ≠ o := by
      rintro rfl
      exact noHeap' hasHeap
    rw [TaskHeaps.setHeap_chunks_of_ne _ _ other, TaskHeaps.setHeap_live_of_ne _ _ other]
    exact sound.idle o' noHeap'
  · intro o₁ o₂ p first second
    by_cases same₁ : o₁ = o
    · by_cases same₂ : o₂ = o
      · rw [same₁, same₂]
      · rw [same₁, TaskHeaps.setHeap_chunks_self] at first
        rw [TaskHeaps.setHeap_chunks_of_ne _ _ same₂] at second
        exact absurd first (kept o₂ p second same₂)
    · rw [TaskHeaps.setHeap_chunks_of_ne _ _ same₁] at first
      by_cases same₂ : o₂ = o
      · rw [same₂, TaskHeaps.setHeap_chunks_self] at second
        exact absurd second (kept o₁ p first same₁)
      · rw [TaskHeaps.setHeap_chunks_of_ne _ _ same₂] at second
        exact sound.apart o₁ o₂ p first second

theorem HeapStep.change {after : HeapUse} (step : HeapStep b (s.heap s.mem.owner) b' after) :
    HeapChange b s.mem s.mem.owner (s.chunks s.mem.owner) b' after.mem after.chunks
      (after.mem.freeLists s.mem.owner) := by
  have owner : after.mem.owner = s.mem.owner := owner_congr step.fixed
  exact ⟨step.sound.owned, owner ▸ step.sound.arenas, step.fixed, rfl, step.others⟩

theorem HeapsSound.heapStep {after : HeapUse} (sound : HeapsSound b s)
    (step : HeapStep b (s.heap s.mem.owner) b' after) :
    HeapsSound b' (s.setHeap s.mem.owner after) := by
  have owner : after.mem.owner = s.mem.owner := owner_congr step.fixed
  exact sound.setHeap sound.hasHeap_owner step.change (owner ▸ step.sound.accounted)

/-- The pools are as large as before, and the tasks have the descriptors and the directories
they had. -/
structure KeepsTasks (threads : List Tid) (m m' : Mem) : Prop where
  poolSize : ∀ pf, (m'.pool pf).poolSize = (m.pool pf).poolSize
  running : m'.runningThread = m.runningThread
  cr3 : m'.cr3 = m.cr3
  pgdir : ∀ t ∈ threads, (m'.task t).pgdir = (m.task t).pgdir
  kernel : m'.kBlockDescs = m.kBlockDescs
  users : ∀ t ∈ threads, (m'.task t).uBlockDesc = (m.task t).uBlockDesc

theorem KeepsTasks.trans {m m'' : Mem} (first : KeepsTasks threads' m m')
    (second : KeepsTasks threads' m' m'') : KeepsTasks threads' m m'' where
  poolSize := fun pf => (second.poolSize pf).trans (first.poolSize pf)
  running := second.running.trans first.running
  cr3 := second.cr3.trans first.cr3
  pgdir := fun t isThread => (second.pgdir t isThread).trans (first.pgdir t isThread)
  kernel := second.kernel.trans first.kernel
  users := fun t isThread => (second.users t isThread).trans (first.users t isThread)

theorem KeepsTasks.of_fixed {m : Mem} (threads : List Tid) (fixed : m'.fixed = m.fixed)
    (desc : m'.desc = m.desc) : KeepsTasks threads m m' where
  poolSize := fun pf => congrFun (congrArg Fixed.poolSize fixed) pf
  running := congrArg Fixed.runningThread fixed
  cr3 := congrArg Fixed.cr3 fixed
  pgdir := fun t _ => congrFun (congrArg Fixed.pgdir fixed) t
  kernel := funext fun descIdx => congrFun desc (.kernel descIdx)
  users := fun t _ => funext fun descIdx => congrFun desc (.user t descIdx)

theorem KeepsTasks.setTask {t : Tid} (isNew : t ∉ threads') (m : Mem) (task : Task) :
    KeepsTasks threads' m (m.setTask t task) := by
  have others : ∀ t' ∈ threads', (m.setTask t task).task t' = m.task t' := by
    intro t' isThread
    refine Function.update_of_ne ?_ _ _
    rintro rfl
    exact isNew isThread
  refine ⟨?_, rfl, rfl, fun t' isThread => by rw [others t' isThread], rfl,
    fun t' isThread => by rw [others t' isThread]⟩
  rintro (_ | _) <;> rfl

/-- Pages of the kernel and tasks are added. -/
theorem HeapsSound.grows (sound : HeapsSound b s)
    (coherent : Coherent b' m' s.places {t | t ∈ threads'}) (grows : Grows b s.mem b' m')
    (keeps : KeepsTasks s.threads s.mem m') (old : ∀ t ∈ s.threads, t ∈ threads')
    (new : ∀ t ∈ threads', t ∉ s.threads →
      (m'.task t).pgdir = none ∨ (m'.task t).uBlockDesc = blockInit) :
    HeapsSound b' { s with mem := m', threads := threads' } := by
  have dirOf : ∀ t ∈ s.threads, ∀ dir, b'.DirOf m' t dir ↔ b.DirOf s.mem t dir := by
    intro t isThread dir
    exact sound.coherent.dirOf_of_pgdir (keeps.pgdir t isThread)
      fun page dir _ holds => (grows.held _ _ holds).1
  have kept : ∀ o, b.HasHeap s.mem s.threads o → b'.HasHeap m' threads' o := by
    intro o hasHeap
    cases o with
    | kernel => trivial
    | process t dir =>
        obtain ⟨isThread, isProcess, isDir⟩ := hasHeap
        rw [← keeps.pgdir t isThread] at isProcess
        exact ⟨old t isThread, isProcess, (dirOf t isThread dir).mpr isDir⟩
  have desc : ∀ o, b.HasHeap s.mem s.threads o → ∀ descIdx,
      m'.desc (o.desc descIdx) = s.mem.desc (o.desc descIdx) := by
    intro o hasHeap descIdx
    cases o with
    | kernel => exact congrFun keeps.kernel descIdx
    | process t dir => exact congrFun (keeps.users t hasHeap.1) descIdx
  -- a heap that begins to exist is that of a new process
  have start : ∀ o, b'.HasHeap m' threads' o → ¬ b.HasHeap s.mem s.threads o → ∀ descIdx,
      m'.desc (o.desc descIdx) = blockInit descIdx := by
    intro o hasHeap noHeap descIdx
    cases o with
    | kernel => exact absurd trivial noHeap
    | process t dir =>
        obtain ⟨isThread, isProcess, isDir⟩ := hasHeap
        by_cases wasThread : t ∈ s.threads
        · refine absurd ⟨wasThread, ?_, (dirOf t wasThread dir).mp isDir⟩ noHeap
          rwa [← keeps.pgdir t wasThread]
        · exact congrFun ((new t isThread wasThread).resolve_left isProcess) descIdx
  refine ⟨coherent, ?_, ?_, ?_, ?_, ?_, sound.apart⟩
  · change b'.DirOf m' m'.runningThread m'.cr3
    rw [keeps.running, keeps.cr3]
    exact (dirOf _ sound.coherent.running _).mpr sound.current
  · exact fun pf => (keeps.poolSize pf).le.trans (sound.sized pf)
  · intro o hasHeap
    by_cases had : b.HasHeap s.mem s.threads o
    · refine (sound.arenas o had).congr (fun page c isChunk i inside frame holds _ => ?_)
        (desc o had)
      obtain ⟨holds', arena⟩ := grows.held _ _ holds
      obtain ⟨phyaddr, again, notDir⟩ := coherent.inUse _ ⟨o, page, c, isChunk, i, inside, rfl⟩
      obtain ⟨-, rfl⟩ := Prod.mk.inj (Option.some.inj (holds'.symm.trans again))
      exact ⟨holds', arena, notDir⟩
    · change Arenas b' m' o (s.chunks o)
      rw [(sound.idle o had).1]
      exact .start b' (start o hasHeap had)
  · intro o hasHeap
    by_cases had : b.HasHeap s.mem s.threads o
    · have lists : m'.freeLists o = s.mem.freeLists o := by
        funext descIdx
        rw [Mem.freeLists, desc o had]
        rfl
      change Accounted (s.chunks o) (m'.freeLists o) (s.live o)
      rw [lists]
      exact sound.accounted o had
    · change Accounted (s.chunks o) (m'.freeLists o) (s.live o)
      rw [(sound.idle o had).1, (sound.idle o had).2]
      refine ⟨fun ptr size isLive => ?_, fun page descIdx isArena => ?_⟩
      · cases isLive
      · cases isArena
  · exact fun o noHeap => sound.idle o fun had => noHeap (kept o had)

/-- Pages of the kernel, or of the running process, are handed out. -/
theorem HeapsSound.mapped {pf : PoolFlags} {page cnt : Nat} (sound : HeapsSound b s)
    (mapped : Mapped b s.mem pf page cnt b' m') (arenas : KeepsArenas b s.mem m')
    (desc : m'.desc = s.mem.desc) : HeapsSound b' { s with mem := m' } :=
  sound.grows (sound.coherent.mapped mapped) (.of_mapped mapped arenas)
    (.of_fixed s.threads mapped.fixed desc) (fun _ isThread => isThread)
    fun _ isThread isNew => absurd isThread isNew

theorem HeapsSound.schedule {next : Tid} (sound : HeapsSound b s) (isThread : next ∈ s.threads)
    (ran : Memory.schedule s.mem next = .ok m') : HeapsSound b { s with mem := m' } := by
  have coherent := sound.coherent.schedule isThread ran
  obtain ⟨m₁, activated, ran⟩ := except_bind_eq_ok.mp ran
  have isDir := sound.coherent.pageDirActivate_iff.mp ⟨m₁, activated, rfl⟩
  obtain ⟨dir, -, rfl⟩ := sound.coherent.pageDirActivate activated
  obtain rfl := Except.ok.inj ran
  have held : b.held { s.mem with cr3 := dir, runningThread := next } = b.held s.mem :=
    b.held_of_words rfl
  have dirOf : ∀ t dir', b.DirOf { s.mem with cr3 := dir, runningThread := next } t dir' ↔
      b.DirOf s.mem t dir' := fun t dir' => Book.dirOf_congr rfl rfl dir'
  have heaps : ∀ o, b.HasHeap { s.mem with cr3 := dir, runningThread := next } s.threads o ↔
      b.HasHeap s.mem s.threads o := by
    intro o
    cases o with
    | kernel => exact Iff.rfl
    | process t dir' => exact and_congr_right fun _ => and_congr_right fun _ => dirOf t dir'
  refine ⟨coherent, (dirOf _ _).mpr isDir, sound.sized, ?_, ?_, ?_, sound.apart⟩
  · intro o hasHeap
    refine (sound.arenas o ((heaps o).mp hasHeap)).congr (fun page c _ i _ frame holds notDir => ?_)
      fun descIdx => ?_
    · exact ⟨by rw [held, holds], rfl, notDir⟩
    · cases o <;> rfl
  · exact fun o hasHeap => sound.accounted o ((heaps o).mp hasHeap)
  · exact fun o noHeap => sound.idle o fun had => noHeap ((heaps o).mpr had)

theorem threadStart_keeps {m : Mem} {thread : Tid} (isNew : thread ∉ threads')
    (ran : Memory.threadStart m = .ok (thread, m')) :
    KeepsTasks threads' m m' ∧ (m'.task thread).pgdir = none := by
  obtain ⟨⟨page, m₁⟩, got, ran⟩ := except_bind_eq_ok.mp ran
  simp only [pure_eq_ok, Except.ok.injEq, Prod.mk.injEq] at ran
  obtain ⟨rfl, rfl⟩ := ran
  have frame := getKernelPages_frame got
  have isTask : (m₁.setTask (page.getD 0) initThread).task (page.getD 0) = initThread :=
    Function.update_self _ _ _
  refine ⟨(KeepsTasks.of_fixed threads' frame.fixed frame.desc).trans (.setTask isNew m₁ _), ?_⟩
  rw [isTask]
  rfl

/-- The new task is set up, and the page directory in use copied. -/
theorem createPageDir_keeps {m : Mem} {result : Option Address} (threads : List Tid)
    (ran : Memory.createPageDir m = .ok (result, m')) : KeepsTasks threads m m' := by
  obtain ⟨⟨page, m₁⟩, got, ran⟩ := except_bind_eq_ok.mp ran
  have frame := getKernelPages_frame got
  have first := KeepsTasks.of_fixed threads frame.fixed frame.desc
  cases page with
  | none =>
      simp only [pure_eq_ok, Except.ok.injEq, Prod.mk.injEq] at ran
      exact ran.2 ▸ first
  | some page =>
      obtain ⟨m₂, copied, ran⟩ := except_bind_eq_ok.mp ran
      obtain ⟨_, -, copied⟩ := except_bind_eq_ok.mp copied
      obtain ⟨_, -, copied⟩ := except_bind_eq_ok.mp copied
      obtain ⟨_, -, ran⟩ := except_bind_eq_ok.mp ran
      obtain ⟨_, -, ran⟩ := except_bind_eq_ok.mp ran
      simp only [pure_eq_ok, Except.ok.injEq, Prod.mk.injEq] at ran
      rw [← ran.2, ← Except.ok.inj copied]
      exact first.trans (.of_fixed threads rfl rfl)

theorem processExecute_keeps {m : Mem} {thread : Tid} (isNew : thread ∉ threads')
    (ran : Memory.processExecute m = .ok (thread, m')) :
    KeepsTasks threads' m m' ∧ (m'.task thread).uBlockDesc = blockInit := by
  obtain ⟨⟨page, m₁⟩, got, ran⟩ := except_bind_eq_ok.mp ran
  obtain ⟨m₂, bitmap, ran⟩ := except_bind_eq_ok.mp ran
  obtain ⟨⟨bits, m₃⟩, got', bitmap⟩ := except_bind_eq_ok.mp bitmap
  obtain rfl := Except.ok.inj bitmap
  obtain ⟨⟨pgdir, m₄⟩, dir, ran⟩ := except_bind_eq_ok.mp ran
  simp only [pure_eq_ok, Except.ok.injEq, Prod.mk.injEq] at ran
  obtain ⟨rfl, rfl⟩ := ran
  have frame := getKernelPages_frame got
  have frame' := getKernelPages_frame got'
  have pcb := (KeepsTasks.of_fixed threads' frame.fixed frame.desc).trans
    (.setTask isNew m₁ initThread)
  have range := pcb.trans (.of_fixed threads' frame'.fixed frame'.desc)
  have last := createPageDir_keeps threads' dir
  refine ⟨(range.trans (.setTask isNew m₃ _)).trans (last.trans (.setTask isNew m₄ _)), ?_⟩
  change (Function.update m₄.task (page.getD 0) _ (page.getD 0)).uBlockDesc = blockInit
  rw [Function.update_self]

end Sound

/-- What the running task does next, to the end, or the scheduler. -/
inductive TaskCall where
  | getKernelPages (pgCnt : UInt32)
  | getAPage (pf : PoolFlags) (vaddr : UInt32)
  | threadStart
  | processExecute
  | schedule (next : Tid)
  | sysMalloc (size : UInt32)
  | sysFree (ptr : Address)

namespace TaskHeaps

/-- A call that returns.  A task gives back what it has got and not given back yet. -/
def call (s : TaskHeaps) : TaskCall → Except Halt TaskHeaps
  | .getKernelPages pgCnt => do
      let (_, m) ← getKernelPages s.mem pgCnt.toNat
      return { s with mem := m }
  | .getAPage pf vaddr => do
      let (_, m) ← getAPage s.mem pf vaddr.toNat
      return { s with mem := m }
  | .threadStart => do
      let (thread, m) ← threadStart s.mem
      return { s with mem := m, threads := thread :: s.threads }
  | .processExecute => do
      let (thread, m) ← processExecute s.mem
      return { s with mem := m, threads := thread :: s.threads }
  | .schedule next =>
      if next ∈ s.threads then do
        let m ← schedule s.mem next
        return { s with mem := m }
      else .error .disabled
  | .sysMalloc size => do
      let (result, m) ← sysMalloc s.mem size.toNat
      return s.setHeap s.mem.owner ((s.heap s.mem.owner).allocated size.toNat m result)
  | .sysFree ptr =>
      if s.live s.mem.owner ptr ≠ none then do
        let m ← sysFree s.mem ptr
        return s.setHeap s.mem.owner ((s.heap s.mem.owner).freed ptr m)
      else .error .disabled

/-- No heap is in use yet. -/
def boot (m : Mem) (memBytesTotal : Nat) : TaskHeaps where
  mem := Memory.boot m memBytesTotal
  threads := [mainThread]
  chunks := fun _ _ => none
  live := fun _ _ => none

end TaskHeaps

section Runs

variable {b : Book} {s s' : TaskHeaps}

theorem desc_of_getAPage {m m' : Mem} {pf : PoolFlags} {vaddr : Address} {result : Option Address}
    (ran : getAPage m pf vaddr = .ok (result, m')) : m'.desc = m.desc := by
  obtain ⟨held, btmp, phyaddr, taken, added, acquired, -, -, set, allocated, add, -, released⟩ :=
    getAPage_eq_ok ran
  obtain ⟨plock, -, acquired⟩ := except_bind_eq_ok.mp acquired
  obtain rfl := Except.ok.inj acquired
  obtain ⟨plock', -, released⟩ := except_bind_eq_ok.mp released
  obtain rfl := Except.ok.inj released
  obtain ⟨-, rfl⟩ := bitmapSet_eq_ok.mp set
  obtain ⟨bitIdx, -, -, -, rfl⟩ := palloc_eq_ok allocated
  have frame := ((PageFrame.setVaddrBitmap (m.setLock pf plock) pf
    (Bitmap.put_btmpBytesLen _ true)).trans
    (PageFrame.setPoolBitmap _ pf (Bitmap.put_btmpBytesLen bitIdx true))).trans
    (pageTableAdd_frame add)
  rw [desc_setLock, frame.desc, desc_setLock]

theorem HeapsSound.call {call : TaskCall} (sound : HeapsSound b s) (ran : s.call call = .ok s') :
    ∃ b', HeapsSound b' s' := by
  cases call with
  | getKernelPages pgCnt =>
      obtain ⟨⟨result, m'⟩, got, ran⟩ := except_bind_eq_ok.mp ran
      obtain rfl := Except.ok.inj ran
      obtain ⟨page, b', -, mapped⟩ := sound.coherent.owned.getKernelPages got
      exact ⟨b', sound.mapped mapped (sound.coherent.owned.getKernelPages_arenas got)
        (getKernelPages_frame got).desc⟩
  | getAPage pf vaddr =>
      obtain ⟨⟨result, m'⟩, got, ran⟩ := except_bind_eq_ok.mp ran
      obtain rfl := Except.ok.inj ran
      obtain ⟨-, b', mapped⟩ := sound.coherent.owned.getAPage vaddr.toNat_lt got
      exact ⟨b', sound.mapped mapped (sound.coherent.owned.getAPage_arenas vaddr.toNat_lt got)
        (desc_of_getAPage got)⟩
  | threadStart =>
      obtain ⟨⟨thread, m'⟩, started, ran⟩ := except_bind_eq_ok.mp ran
      obtain rfl := Except.ok.inj ran
      obtain ⟨b', coherent, grows, isNew⟩ := sound.coherent.threadStart started
      obtain ⟨keeps, noDir⟩ := threadStart_keeps isNew started
      refine ⟨b', sound.grows ?_ grows keeps (fun _ => List.mem_cons_of_mem thread) ?_⟩
      · simpa [Set.insert_def] using coherent
      · intro t isThread wasNew
        obtain rfl := (List.mem_cons.mp isThread).resolve_right wasNew
        exact .inl noDir
  | processExecute =>
      obtain ⟨⟨thread, m'⟩, started, ran⟩ := except_bind_eq_ok.mp ran
      obtain rfl := Except.ok.inj ran
      obtain ⟨b', coherent, grows, isNew, -⟩ := sound.coherent.processExecute started
      obtain ⟨keeps, descs⟩ := processExecute_keeps isNew started
      refine ⟨b', sound.grows ?_ grows keeps (fun _ => List.mem_cons_of_mem thread) ?_⟩
      · simpa [Set.insert_def] using coherent
      · intro t isThread wasNew
        obtain rfl := (List.mem_cons.mp isThread).resolve_right wasNew
        exact .inr descs
  | schedule next =>
      rw [TaskHeaps.call] at ran
      split at ran
      next isThread =>
        obtain ⟨m', switched, ran⟩ := except_bind_eq_ok.mp ran
        obtain rfl := Except.ok.inj ran
        exact ⟨b, sound.schedule isThread switched⟩
      next => cases ran
  | sysMalloc size =>
      obtain ⟨⟨result, m'⟩, served, ran⟩ := except_bind_eq_ok.mp ran
      obtain rfl := Except.ok.inj ran
      obtain ⟨⟨b', step⟩, -⟩ := sound.heap.sysMalloc served
      exact ⟨b', sound.heapStep step⟩
  | sysFree ptr =>
      rw [TaskHeaps.call] at ran
      split at ran
      next isLive =>
        obtain ⟨m', freed, ran⟩ := except_bind_eq_ok.mp ran
        obtain rfl := Except.ok.inj ran
        obtain ⟨size, isLive⟩ := Option.ne_none_iff_exists'.mp isLive
        obtain ⟨⟨b', step⟩, -⟩ := sound.heap.sysFree isLive freed
        exact ⟨b', sound.heapStep step⟩
      next => cases ran

theorem HeapUse.allocated_live {s : HeapUse} {ptr size size' : Nat} {m' : Mem}
    {result : Option Address} (isLive : s.live ptr = some size)
    (isNew : ∀ ptr', result = some ptr' → s.live ptr' = none) :
    (s.allocated size' m' result).live ptr = some size := by
  cases result with
  | none => exact isLive
  | some ptr' =>
      refine (Function.update_of_ne ?_ _ _).trans isLive
      rintro rfl
      cases (isNew ptr rfl).symm.trans isLive

/-- An allocation stays until the task that uses the heap gives it back. -/
theorem HeapsSound.call_live {call : TaskCall} {o : Owner} {ptr size : Nat} (sound : HeapsSound b s)
    (ran : s.call call = .ok s') (isLive : s.live o ptr = some size)
    (kept : call = .sysFree ptr → o ≠ s.mem.owner) : s'.live o ptr = some size := by
  cases call with
  | getKernelPages | getAPage | threadStart | processExecute =>
      obtain ⟨_, -, ran⟩ := except_bind_eq_ok.mp ran
      obtain rfl := Except.ok.inj ran
      exact isLive
  | schedule next =>
      rw [TaskHeaps.call] at ran
      split at ran
      next =>
        obtain ⟨_, -, ran⟩ := except_bind_eq_ok.mp ran
        obtain rfl := Except.ok.inj ran
        exact isLive
      next => cases ran
  | sysMalloc size' =>
      obtain ⟨⟨result, m'⟩, served, ran⟩ := except_bind_eq_ok.mp ran
      obtain rfl := Except.ok.inj ran
      refine TaskHeaps.setHeap_live_of_live _ _ isLive fun same => ?_
      subst same
      exact HeapUse.allocated_live isLive (sound.heap.sysMalloc served).2
  | sysFree freed =>
      rw [TaskHeaps.call] at ran
      split at ran
      next =>
        obtain ⟨m', -, ran⟩ := except_bind_eq_ok.mp ran
        obtain rfl := Except.ok.inj ran
        refine TaskHeaps.setHeap_live_of_live _ _ isLive fun same => ?_
        have other : ptr ≠ freed := by
          rintro rfl
          exact kept rfl same
        subst same
        exact (Function.update_of_ne other _ _).trans isLive
      next => cases ran

theorem HeapsSound.boot (m : Mem) (memBytesTotal : Nat) :
    HeapsSound Book.boot (TaskHeaps.boot m memBytesTotal) := by
  have fresh := FreshHeaps.boot m memBytesTotal
  have coherent := Coherent.boot m memBytesTotal
  have noPlaces : (TaskHeaps.boot m memBytesTotal).places = ∅ := by
    refine Set.eq_empty_of_forall_notMem ?_
    rintro p ⟨o, page, c, isChunk, -⟩
    cases isChunk
  have onlyKernel : ∀ o, Book.boot.HasHeap (Memory.boot m memBytesTotal) [mainThread] o →
      o = .kernel := by
    intro o hasHeap
    cases o with
    | kernel => rfl
    | process t dir => exact absurd rfl hasHeap.2.1
  refine ⟨?_, rfl, fresh.sized, ?_, ?_, fun _ _ => ⟨rfl, rfl⟩, ?_⟩
  · rw [noPlaces]
    have threads : {t | t ∈ [mainThread]} = {mainThread} := by
      ext t
      simp
    change Coherent Book.boot (Memory.boot m memBytesTotal) ∅ {t | t ∈ [mainThread]}
    rw [threads]
    exact coherent
  · intro o hasHeap
    obtain rfl := onlyKernel o hasHeap
    exact .start Book.boot fresh.kernel
  · exact fun o _ => ⟨nofun, nofun⟩
  · rintro o o' p ⟨page, c, isChunk, -⟩ -
    cases isChunk

end Runs

end HongbaiOS.Memory
