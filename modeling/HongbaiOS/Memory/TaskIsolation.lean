import HongbaiOS.Memory.PageHistory
import HongbaiOS.Memory.TaskHeaps

/-!
# Tasks do not share memory

All tasks take memory from the two pools, in any order and between the creation of others, one
whole call after the other.  A byte that one of them has allocated belongs to no other allocation,
and what a task reaches from 0x8000000 up to the kernel's half is not memory of another one.
Below, the first directory maps the first page table of the kernel's half a second time.
-/

namespace HongbaiOS.Memory

open HongbaiOS.Library HongbaiOS.Kernel HongbaiOS.Lib HongbaiOS.Thread

/-- The byte of memory that an access to `vaddr` reaches. -/
def Mem.physical (m : Mem) (vaddr : Address) : Except Halt Address := do
  let frame ← m.translate vaddr
  return frame + vaddr % pgSize

/-- `vaddr` lies in the allocation at `ptr` of the task that runs in `m`. -/
def TaskHeaps.Allocated (s : TaskHeaps) (m : Mem) (ptr vaddr : Address) : Prop :=
  ∃ size, s.live m.owner ptr = some size ∧ ptr ≤ vaddr ∧ vaddr < ptr + size

/-- What is to hold of any two threads when they run next. -/
structure TasksApart (s : TaskHeaps) : Prop where
  runs : ∀ t ∈ s.threads, ∃ m, schedule s.mem t = .ok m
  heaps : ∀ t ∈ s.threads, ∀ m, schedule s.mem t = .ok m →
    HeapRight ⟨m, s.chunks m.owner, s.live m.owner⟩
  mapped : ∀ t ∈ s.threads, ∀ m, schedule s.mem t = .ok m → ∀ ptr vaddr,
    s.Allocated m ptr vaddr → ∃ byte, m.physical vaddr = .ok byte
  apart : ∀ t ∈ s.threads, ∀ m, schedule s.mem t = .ok m →
    ∀ t' ∈ s.threads, ∀ m', schedule s.mem t' = .ok m' → ∀ ptr vaddr ptr' vaddr' byte,
    s.Allocated m ptr vaddr → s.Allocated m' ptr' vaddr' → m.physical vaddr = .ok byte →
    m'.physical vaddr' = .ok byte → m.owner = m'.owner ∧ ptr = ptr' ∧ vaddr = vaddr'
  /-- Whatever a task does with the addresses where processes have their memory. -/
  reached : ∀ t ∈ s.threads, ∀ m, schedule s.mem t = .ok m →
    ∀ t' ∈ s.threads, ∀ m', schedule s.mem t' = .ok m' → ∀ vaddr ptr' vaddr' byte,
    0x8000000 ≤ vaddr → vaddr < 0xc0000000 → s.Allocated m' ptr' vaddr' →
    m.physical vaddr = .ok byte → m'.physical vaddr' = .ok byte → t = t' ∧ vaddr = vaddr'

/-- The invariant of all heaps, and no two tasks have one page directory. -/
structure TasksSound (b : Book) (s : TaskHeaps) : Prop where
  heaps : HeapsSound b s
  once : ∀ t ∈ s.threads, ∀ t' ∈ s.threads, ∀ v, (s.mem.task t).pgdir = some v →
    (s.mem.task t').pgdir = some v → t = t'

section Calls

variable {b : Book} {s s' : TaskHeaps}

theorem TasksSound.once_of_fixed (sound : TasksSound b s) (threads : s'.threads = s.threads)
    (fixed : s'.mem.fixed = s.mem.fixed) :
    ∀ t ∈ s'.threads, ∀ t' ∈ s'.threads, ∀ v, (s'.mem.task t).pgdir = some v →
      (s'.mem.task t').pgdir = some v → t = t' := by
  intro t isThread t' isThread' v isDir isDir'
  rw [threads] at isThread isThread'
  rw [Coherent.pgdir_congr fixed] at isDir isDir'
  exact sound.once t isThread t' isThread' v isDir isDir'

theorem TasksSound.once_insert {m' : Mem} {thread : Tid} (sound : TasksSound b s)
    (keeps : KeepsTasks s.threads s.mem m')
    (new : ∀ t ∈ s.threads, ∀ v, (m'.task thread).pgdir = some v → (m'.task t).pgdir ≠ some v) :
    ∀ t ∈ thread :: s.threads, ∀ t' ∈ thread :: s.threads, ∀ v, (m'.task t).pgdir = some v →
      (m'.task t').pgdir = some v → t = t' := by
  intro t isThread t' isThread' v isDir isDir'
  rcases List.mem_cons.mp isThread with rfl | old
  · rcases List.mem_cons.mp isThread' with rfl | old'
    · rfl
    · exact absurd isDir' (new t' old' v isDir)
  · rcases List.mem_cons.mp isThread' with rfl | old'
    · exact absurd isDir (new t old v isDir')
    · rw [keeps.pgdir t old] at isDir
      rw [keeps.pgdir t' old'] at isDir'
      exact sound.once t old t' old' v isDir isDir'

theorem TasksSound.call {call : TaskCall} (sound : TasksSound b s) (ran : s.call call = .ok s') :
    ∃ b', TasksSound b' s' := by
  obtain ⟨b', heaps⟩ := sound.heaps.call ran
  refine ⟨b', heaps, ?_⟩
  cases call with
  | getKernelPages pgCnt =>
      obtain ⟨⟨result, m'⟩, got, ran⟩ := except_bind_eq_ok.mp ran
      obtain rfl := Except.ok.inj ran
      exact sound.once_of_fixed rfl (getKernelPages_frame got).fixed
  | getAPage pf vaddr =>
      obtain ⟨⟨result, m'⟩, got, ran⟩ := except_bind_eq_ok.mp ran
      obtain rfl := Except.ok.inj ran
      obtain ⟨-, _, mapped⟩ := sound.heaps.coherent.owned.getAPage vaddr.toNat_lt got
      exact sound.once_of_fixed rfl mapped.fixed
  | threadStart =>
      obtain ⟨⟨thread, m'⟩, started, ran⟩ := except_bind_eq_ok.mp ran
      obtain rfl := Except.ok.inj ran
      obtain ⟨_, -, -, isNew⟩ := sound.heaps.coherent.threadStart started
      obtain ⟨keeps, noDir⟩ := threadStart_keeps isNew started
      refine sound.once_insert keeps fun t _ v isDir => ?_
      cases noDir.symm.trans isDir
  | processExecute =>
      obtain ⟨⟨thread, m'⟩, started, ran⟩ := except_bind_eq_ok.mp ran
      obtain rfl := Except.ok.inj ran
      obtain ⟨_, -, -, isNew, new⟩ := sound.heaps.coherent.processExecute started
      exact sound.once_insert (processExecute_keeps isNew started).1 new
  | schedule next =>
      rw [TaskHeaps.call] at ran
      split at ran
      next =>
        obtain ⟨m', switched, ran⟩ := except_bind_eq_ok.mp ran
        obtain rfl := Except.ok.inj ran
        obtain ⟨m₁, activated, switched⟩ := except_bind_eq_ok.mp switched
        obtain ⟨dir, -, rfl⟩ := sound.heaps.coherent.pageDirActivate activated
        obtain rfl := Except.ok.inj switched
        exact sound.once
      next => cases ran
  | sysMalloc size =>
      obtain ⟨⟨result, m'⟩, served, ran⟩ := except_bind_eq_ok.mp ran
      obtain rfl := Except.ok.inj ran
      obtain ⟨⟨_, step⟩, -⟩ := sound.heaps.heap.sysMalloc served
      exact sound.once_of_fixed rfl step.fixed
  | sysFree ptr =>
      rw [TaskHeaps.call] at ran
      split at ran
      next isLive =>
        obtain ⟨m', freed, ran⟩ := except_bind_eq_ok.mp ran
        obtain rfl := Except.ok.inj ran
        obtain ⟨size, isLive⟩ := Option.ne_none_iff_exists'.mp isLive
        obtain ⟨⟨_, step⟩, -⟩ := sound.heaps.heap.sysFree isLive freed
        exact sound.once_of_fixed rfl step.fixed
      next => cases ran

theorem TasksSound.boot (m : Mem) (memBytesTotal : Nat) :
    TasksSound Book.boot (.boot m memBytesTotal) := by
  refine ⟨.boot m memBytesTotal, fun t _ t' _ v isDir _ => ?_⟩
  cases isDir

end Calls

section Sees

variable {b : Book} {s : TaskHeaps} {m m' : Mem} {t t' : Tid} {ptr ptr' vaddr vaddr' byte : Nat}

theorem TasksSound.runs (sound : TasksSound b s) (t : Tid) : ∃ m, schedule s.mem t = .ok m := by
  have coherent := sound.heaps.coherent
  have hasDir : ∃ dir, b.DirOf s.mem t dir := by
    unfold Book.DirOf
    cases isDir : (s.mem.task t).pgdir with
    | none => exact ⟨_, rfl⟩
    | some v =>
        obtain ⟨page, dir, -, rfl, holds⟩ := coherent.pgdirs t v isDir
        refine ⟨dir, ?_⟩
        have isPage : page * 4096 / 4096 = page := page_address_div page
        change b.held s.mem (.kernelPage (page * 4096 / 4096)) = some (.kernel, dir)
        rw [isPage, holds]
  obtain ⟨dir, isDir⟩ := hasDir
  obtain ⟨m₁, activated, -⟩ := coherent.pageDirActivate_iff.mpr isDir
  refine ⟨{ m₁ with runningThread := t }, ?_⟩
  rw [schedule, activated]
  rfl

theorem TasksSound.switched (sound : TasksSound b s) (ran : schedule s.mem t = .ok m) :
    ∃ dir, b.DirOf s.mem t dir ∧ m = { s.mem with cr3 := dir, runningThread := t } := by
  obtain ⟨m₁, activated, ran⟩ := except_bind_eq_ok.mp ran
  have isDir := sound.heaps.coherent.pageDirActivate_iff.mp ⟨m₁, activated, rfl⟩
  obtain ⟨dir, -, rfl⟩ := sound.heaps.coherent.pageDirActivate activated
  exact ⟨dir, isDir, (Except.ok.inj ran).symm⟩

theorem frame_aligned {p : Place} {r : PoolFlags × Nat} (holds : b.held m p = some r) :
    r.2 % 4096 = 0 := by
  rw [← (Book.held_eq_some.mp holds).2]
  exact (entryFrame_eq _).symm ▸ Nat.mul_mod_left _ _

theorem HeapsSound.allocated (sound : HeapsSound b { s with mem := m })
    (allocated : s.Allocated m ptr vaddr) : ∃ frame,
      b.held m (m.owner.place (vaddr / 4096)) = some (m.owner.flags, frame) ∧
        m.owner.Covers (s.chunks m.owner) (m.owner.place (vaddr / 4096)) ∧
        m.physical vaddr = .ok (frame + vaddr % 4096) := by
  obtain ⟨size, isLive, low, high⟩ := allocated
  replace low : (ptr : Nat) ≤ vaddr := low
  replace high : (vaddr : Nat) < ptr + size := high
  have heap : HeapSound b ⟨m, s.chunks m.owner, s.live m.owner⟩ := sound.heap
  obtain ⟨page, c, isChunk, first, last⟩ := heap.valid.inside ptr size isLive
  have whole : pgSize = 4096 := rfl
  have header : arenaSize = 12 := rfl
  rw [whole, header] at first
  replace last : (ptr : Nat) + size ≤ (page + c.pageCnt) * 4096 := last
  have start : page ≤ vaddr / 4096 := by omega
  have inside : vaddr / 4096 < page + c.pageCnt := by omega
  obtain ⟨i, isPage⟩ := Nat.exists_eq_add_of_le start
  obtain ⟨frame, holds⟩ := heap.holds ⟨page, c, isChunk, start, inside⟩
  refine ⟨frame, holds, ⟨page, c, isChunk, i, by omega, by rw [isPage]⟩, ?_⟩
  have small : vaddr < 2 ^ 32 := by
    have inRange := heap.owned.page_lt holds
    omega
  have atPlace : b.held m (m.place m.owner.flags (vaddr / 4096)) = some (m.owner.flags, frame) := by
    rw [place_owner]
    exact holds
  have inRange := heap.owned.inRange_of_uses (Book.held_eq_some.mp atPlace).1
  rw [Mem.physical, heap.owned.translate_eq inRange small rfl atPlace]
  rfl

/-- Bytes of frames are the same only if the frames are. -/
theorem byte_inj {frame frame' offset offset' : Nat} (aligned : frame % 4096 = 0)
    (aligned' : frame' % 4096 = 0)
    (same : frame + offset % 4096 = frame' + offset' % 4096) :
    frame = frame' ∧ offset % 4096 = offset' % 4096 := by
  omega

/-- Whoever runs, the frames are where they are. -/
theorem TasksSound.held_switched (sound : TasksSound b s) (ran : schedule s.mem t = .ok m) :
    b.held m = b.held s.mem := by
  obtain ⟨dir, -, rfl⟩ := sound.switched ran
  exact b.held_of_words rfl

theorem TasksSound.apart (sound : TasksSound b s) (isThread : t ∈ s.threads)
    (ran : schedule s.mem t = .ok m) (isThread' : t' ∈ s.threads)
    (ran' : schedule s.mem t' = .ok m') (allocated : s.Allocated m ptr vaddr)
    (allocated' : s.Allocated m' ptr' vaddr') (reaches : m.physical vaddr = .ok byte)
    (reaches' : m'.physical vaddr' = .ok byte) :
    m.owner = m'.owner ∧ ptr = ptr' ∧ vaddr = vaddr' := by
  have sees := sound.heaps.schedule isThread ran
  have sees' := sound.heaps.schedule isThread' ran'
  obtain ⟨frame, holds, covers, isByte⟩ := sees.allocated allocated
  obtain ⟨frame', holds', covers', isByte'⟩ := sees'.allocated allocated'
  have same : frame + vaddr % 4096 = frame' + vaddr' % 4096 := by
    rw [isByte] at reaches
    rw [isByte'] at reaches'
    exact (Except.ok.inj reaches).trans (Except.ok.inj reaches').symm
  obtain ⟨rfl, sameOffset⟩ := byte_inj (frame_aligned holds) (frame_aligned holds') same
  rw [sound.held_switched ran] at holds
  rw [sound.held_switched ran'] at holds'
  have samePlace := sound.heaps.coherent.owned.place_inj holds holds'
  have sameOwner : m.owner = m'.owner := sound.heaps.apart _ _ _ covers (samePlace ▸ covers')
  rw [← sameOwner] at samePlace
  have samePage := Owner.place_inj samePlace
  obtain rfl : vaddr = vaddr' := by omega
  refine ⟨sameOwner, ?_, rfl⟩
  obtain ⟨size, isLive, low, high⟩ := allocated
  obtain ⟨size', isLive', low', high'⟩ := allocated'
  rw [← sameOwner] at isLive'
  have heap : HeapSound b ⟨m, s.chunks m.owner, s.live m.owner⟩ := sees.heap
  by_contra other
  rcases heap.valid.disjoint ptr size ptr' size' isLive isLive' other with before | after
  · exact absurd (Nat.lt_of_lt_of_le high before) (Nat.not_lt.mpr low')
  · exact absurd (Nat.lt_of_lt_of_le high' after) (Nat.not_lt.mpr low)

/-- An address in the range of processes that is mapped is a page of the directory in use. -/
theorem Owned.userPage_held (owned : Owned b m) {frame : Nat} (low : 0x8000000 ≤ vaddr)
    (high : vaddr < 0xc0000000) (maps : m.translate vaddr = .ok frame) :
    b.held m (.userPage m.cr3 (vaddr / 4096)) = some (.user, frame) := by
  obtain ⟨there, present, rfl⟩ := translate_eq_ok.mp maps
  have pde : pdeIndex vaddr = vaddr / 4096 / 1024 := by
    unfold pdeIndex
    omega
  have pte : pteIndex vaddr = vaddr / 4096 % 1024 := rfl
  rw [Mem.pde, pde] at there
  rw [Mem.pteTable, Mem.pde, pde, pte] at present ⊢
  exact Book.held_eq_some.mpr
    ⟨⟨⟨owned.current, by omega, by omega, there⟩, present⟩, rfl⟩

theorem TasksSound.dirOf_inj (sound : TasksSound b s) (isThread : t ∈ s.threads)
    (isThread' : t' ∈ s.threads) {dir : Nat} (isDir : b.DirOf s.mem t dir)
    (isDir' : b.DirOf s.mem t' dir) (isProcess : (s.mem.task t').pgdir ≠ none) : t = t' := by
  have coherent := sound.heaps.coherent
  obtain ⟨v', hasDir'⟩ := Option.ne_none_iff_exists'.mp isProcess
  obtain ⟨page', _, -, rfl, -⟩ := coherent.pgdirs t' v' hasDir'
  unfold Book.DirOf at isDir isDir'
  rw [hasDir'] at isDir'
  cases hasDir : (s.mem.task t).pgdir with
  | none =>
      rw [hasDir] at isDir
      have above := ((coherent.owned.inPool isDir').1.frame coherent.owned.layout).2.1
      have first : dir = 0x100000 := isDir
      simp only at above
      omega
  | some v =>
      rw [hasDir] at isDir
      obtain ⟨page, _, -, rfl, -⟩ := coherent.pgdirs t v hasDir
      have isPage : ∀ n : Nat, n * 4096 / 4096 = n := fun n => page_address_div n
      simp only [isPage] at isDir isDir'
      obtain rfl := Place.kernelPage.inj (coherent.owned.place_inj isDir isDir')
      exact sound.once t isThread t' isThread' _ hasDir hasDir'

theorem TasksSound.reached (sound : TasksSound b s) (isThread : t ∈ s.threads)
    (ran : schedule s.mem t = .ok m) (isThread' : t' ∈ s.threads)
    (ran' : schedule s.mem t' = .ok m') (low : 0x8000000 ≤ vaddr) (high : vaddr < 0xc0000000)
    (allocated' : s.Allocated m' ptr' vaddr') (reaches : m.physical vaddr = .ok byte)
    (reaches' : m'.physical vaddr' = .ok byte) : t = t' ∧ vaddr = vaddr' := by
  have sees := sound.heaps.schedule isThread ran
  have sees' := sound.heaps.schedule isThread' ran'
  obtain ⟨frame', holds', -, isByte'⟩ := sees'.allocated allocated'
  obtain ⟨frame, maps, isByte⟩ := except_bind_eq_ok.mp reaches
  have holds := sees.coherent.owned.userPage_held low high maps
  have same : frame + vaddr % 4096 = frame' + vaddr' % 4096 := by
    rw [isByte'] at reaches'
    exact (Except.ok.inj isByte).trans (Except.ok.inj reaches').symm
  obtain ⟨rfl, sameOffset⟩ := byte_inj (frame_aligned holds) (frame_aligned holds') same
  rw [sound.held_switched ran] at holds
  rw [sound.held_switched ran'] at holds'
  have samePlace := sound.heaps.coherent.owned.place_inj holds holds'
  by_cases isKernel : m'.pgdir = none
  · rw [Mem.owner, if_pos isKernel] at samePlace
    cases samePlace
  · rw [Mem.owner, if_neg isKernel] at samePlace
    obtain ⟨sameDir, samePage⟩ := Place.userPage.inj samePlace
    refine ⟨?_, by omega⟩
    obtain ⟨dir, isDir, rfl⟩ := sound.switched ran
    obtain ⟨dir', isDir', rfl⟩ := sound.switched ran'
    obtain rfl : dir = dir' := sameDir
    exact sound.dirOf_inj isThread isThread' isDir isDir' isKernel

theorem TasksSound.tasksApart (sound : TasksSound b s) : TasksApart s where
  runs t _ := sound.runs t
  heaps _ isThread _ ran := (sound.heaps.schedule isThread ran).heap.right
  mapped _ isThread _ ran ptr vaddr allocated := by
    obtain ⟨frame, -, -, isByte⟩ := (sound.heaps.schedule isThread ran).allocated allocated
    exact ⟨_, isByte⟩
  apart _ isThread _ ran _ isThread' _ ran' _ _ _ _ _ allocated allocated' reaches reaches' :=
    sound.apart isThread ran isThread' ran' allocated allocated' reaches reaches'
  reached _ isThread _ ran _ isThread' _ ran' _ _ _ _ low high allocated' reaches reaches' :=
    sound.reached isThread ran isThread' ran' low high allocated' reaches reaches'

end Sees

/-- From boot on, whatever the tasks request, create and give back in whatever order, one whole
call after the other: all heaps are as they should be, no byte belongs to two allocations, and no
task reaches a byte of another's, or of the kernel's heap, at the addresses from 0x8000000 to
3 GB. -/
theorem tasks_apart (m : Mem) (memBytesTotal : Nat) (calls : List TaskCall)
    {states : List TaskHeaps}
    (ran : trace TaskHeaps.call (.boot m memBytesTotal) calls = .ok states) :
    ∀ s ∈ TaskHeaps.boot m memBytesTotal :: states, TasksApart s := by
  have preserved : ∀ s call s', (∃ b, TasksSound b s) → True →
      TaskHeaps.call s call = .ok s' → ∃ b, TasksSound b s' := by
    rintro s call s' ⟨b, sound⟩ - called
    exact sound.call called
  intro s isState
  obtain ⟨b, sound⟩ := invariant_of_allowed_trace preserved ⟨_, .boot m memBytesTotal⟩ ran
    (fun _ _ => trivial) s isState
  exact sound.tasksApart

/-- Two processes and the main thread, each with an allocation at the same time. -/
theorem tasks_apart_boot : ∃ states,
    trace TaskHeaps.call (.boot powerOn 0x2000000)
      [.processExecute, .processExecute, .schedule 0xc0100000, .sysMalloc 100,
        .schedule 0xc0119000, .sysMalloc 2000, .schedule mainThread, .sysMalloc 100] =
        .ok states ∧
      ∀ s ∈ TaskHeaps.boot powerOn 0x2000000 :: states, TasksApart s := by
  let calls : List TaskCall :=
    [.processExecute, .processExecute, .schedule 0xc0100000, .sysMalloc 100,
      .schedule 0xc0119000, .sysMalloc 2000, .schedule mainThread, .sysMalloc 100]
  have returns : (trace TaskHeaps.call (.boot powerOn 0x2000000) calls).toOption.isSome := by
    decide +kernel
  cases ran : trace TaskHeaps.call (.boot powerOn 0x2000000) calls with
  | error reason =>
      rw [ran] at returns
      cases returns
  | ok states => exact ⟨states, rfl, tasks_apart powerOn 0x2000000 calls ran⟩

end HongbaiOS.Memory
