import HongbaiOS.Fs.Inode
import HongbaiOS.Library.Run
import HongbaiOS.Memory.SharedHeap

/-!
# The memory of open inodes

All tasks share the inodes on `open_inodes`.  `inode_open` allocates them and `inode_close` frees
them with the `pgdir` of the running task set to `NULL`, in the heap of the kernel.  `file_create`
allocates the new inode as any other memory: if a process calls it, in the heap of the process.
-/

namespace HongbaiOS.Fs

open HongbaiOS.Library HongbaiOS.Kernel HongbaiOS.Memory HongbaiOS.Thread

/-- How far an inode in memory has come. -/
inductive InodeStage where
  /-- A thread has allocated it in `inode_open` and waits for the disk. -/
  | opening (thread : Tid)
  /-- A thread has allocated it in `file_create`, and the file is not there yet. -/
  | creating (thread : Tid)
  /-- It is on `open_inodes`. -/
  | listed (iOpenCnts : UInt32)
  deriving DecidableEq

/-- The heaps of all tasks, with the inodes in them and the threads in `inode_open` to which
`sys_malloc` has returned `NULL`. -/
structure InodeHeaps where
  heaps : TaskHeaps
  inodes : Owner → Address → Option InodeStage
  refused : List Tid

namespace InodeHeaps

/-- The inode at `ptr` of a heap goes on to a stage, or is given up. -/
def setStage (s : InodeHeaps) (o : Owner) (ptr : Address) (stage : Option InodeStage) :
    InodeHeaps :=
  { s with inodes := Function.update s.inodes o (Function.update (s.inodes o) ptr stage) }

/-- `open_inodes` is empty. -/
def boot (m : Mem) (memBytesTotal : Nat) : InodeHeaps :=
  ⟨.boot m memBytesTotal, fun _ _ => none, []⟩

end InodeHeaps

/-- The steps of the tasks.  A call for a heap is one of them: it has the lock of the pool. -/
inductive InodeAction where
  /-- Anything else that uses the memory. -/
  | task (call : TaskCall)
  /-- `inode_open` has found nothing and allocates the inode. -/
  | inodeOpen
  /-- The end of `inode_open`: the inode is listed. -/
  | openInsert (ptr : Address)
  /-- The end of `inode_open` without an inode: what lies at `NULL` is listed. -/
  | openInsertNull
  /-- `inode_open` has found the inode on the list. -/
  | openAgain (o : Owner) (ptr : Address)
  /-- `file_create` allocates the inode. -/
  | fileCreate
  /-- The end of `file_create`: the inode is listed. -/
  | createInsert (ptr : Address)
  /-- `file_create` fails and frees the inode. -/
  | rollback (ptr : Address)
  /-- `inode_close` -/
  | inodeClose (o : Owner) (ptr : Address)

/-- The call does not give back the memory of an inode. -/
def Spares (s : InodeHeaps) : TaskCall → Bool
  | .sysFree ptr => s.inodes s.heaps.mem.owner ptr = none
  | _ => true

/-- `inode_open` goes on with what `sys_malloc` returns, without a check: it writes the inode to
`NULL` if that is mapped. -/
def inodeStep (s : InodeHeaps) : InodeAction → Except Halt InodeHeaps
  | .task call =>
      if Spares s call then do
        let heaps ← s.heaps.call call
        return { s with heaps := heaps }
      else .error .disabled
  | .inodeOpen => do
      let kernel := s.heaps.kernelHeap
      let (inodeFound, m) ← sysMalloc kernel.mem inodeSize
      let s' := { s with
        heaps := s.heaps.setKernelHeap (kernel.allocated inodeSize m inodeFound) }
      match inodeFound with
      | none => return { s' with refused := s.heaps.mem.runningThread :: s.refused }
      | some ptr => return s'.setStage .kernel ptr (some (.opening s.heaps.mem.runningThread))
  | .openInsert ptr =>
      if s.inodes .kernel ptr = some (.opening s.heaps.mem.runningThread) then
        .ok (s.setStage .kernel ptr (some (.listed 1)))
      else .error .disabled
  | .openInsertNull =>
      if s.heaps.mem.runningThread ∈ s.refused then do
        let _ ← s.heaps.mem.translate 0
        let s' := { s with refused := s.refused.erase s.heaps.mem.runningThread }
        return s'.setStage .kernel 0 (some (.listed 1))
      else .error .disabled
  | .openAgain o ptr =>
      match s.inodes o ptr with
      | some (.listed cnts) => .ok (s.setStage o ptr (some (.listed (cnts + 1))))
      | _ => .error .disabled
  | .fileCreate => do
      let own := s.heaps.mem.owner
      let (newFileInode, m) ← sysMalloc s.heaps.mem inodeSize
      let s' := { s with
        heaps := s.heaps.setHeap own ((s.heaps.heap own).allocated inodeSize m newFileInode) }
      match newFileInode with
      | none => return s'
      | some ptr => return s'.setStage own ptr (some (.creating s.heaps.mem.runningThread))
  | .createInsert ptr =>
      if s.inodes s.heaps.mem.owner ptr = some (.creating s.heaps.mem.runningThread) then
        .ok (s.setStage s.heaps.mem.owner ptr (some (.listed 1)))
      else .error .disabled
  | .rollback ptr => do
      let own := s.heaps.mem.owner
      if s.inodes own ptr = some (.creating s.heaps.mem.runningThread) then
        let m ← sysFree s.heaps.mem ptr
        let s' := { s with heaps := s.heaps.setHeap own ((s.heaps.heap own).freed ptr m) }
        return s'.setStage own ptr none
      else .error .disabled
  | .inodeClose o ptr =>
      match s.inodes o ptr with
      | some (.listed cnts) =>
          if cnts - 1 = 0 then do
            let kernel := s.heaps.kernelHeap
            let m ← sysFree kernel.mem ptr
            let s' := { s with heaps := s.heaps.setKernelHeap (kernel.freed ptr m) }
            return s'.setStage o ptr none
          else .ok (s.setStage o ptr (some (.listed (cnts - 1))))
      | _ => .error .disabled

/-- The block is back on the free list of its descriptor, or, with the last block of its arena,
its page in the pool. -/
def GivenBack (m : Mem) (ptr : Address) (descIdx : Fin 7) (m' : Mem) : Prop :=
  Returned m .kernel (ptr / pgSize) 0 m' ∧ ptr ∈ (m'.kBlockDescs descIdx).freeList ∨
    Returned m .kernel (ptr / pgSize) 1 m'

/-- The inode is in the heap of the kernel, in an arena of a frame of the kernel's pool, and
freeing it with `pgdir` set to `NULL` fails no assertion and gives it back to where it came
from. -/
structure InodeRight (m : Mem) (ptr : Address) : Prop where
  kernelHeap : kHeapStart ≤ ptr
  asserts : Avoids HeapAssertion (sysFree (m.setPgdir none) ptr)
  arena : ∃ frame descIdx cnt, m.Maps (ptr / pgSize) frame ∧ m.InPool .kernel frame ∧
    m.arena frame = ⟨some (.kernel descIdx), false, cnt⟩ ∧
    ∀ m', sysFree (m.setPgdir none) ptr = .ok m' → GivenBack (m.setPgdir none) ptr descIdx m'

/-- All inodes on `open_inodes` are so. -/
def InodesRight (s : InodeHeaps) : Prop :=
  ∀ o ptr cnts, s.inodes o ptr = some (.listed cnts) → InodeRight s.heaps.mem ptr

/-- `file_create` lists an inode that it has allocated for a process, or `inode_open` the `NULL`
that it has got instead of an inode. -/
def InodeAction.ListsOutside (s : InodeHeaps) : InodeAction → Prop
  | .createInsert _ => s.heaps.mem.pgdir ≠ none
  | .openInsertNull => True
  | _ => False

instance (s : InodeHeaps) (action : InodeAction) : Decidable (action.ListsOutside s) :=
  match action with
  | .createInsert _ => inferInstanceAs (Decidable (s.heaps.mem.pgdir ≠ none))
  | .openInsertNull => inferInstanceAs (Decidable True)
  | .task _ | .inodeOpen | .openInsert _ | .openAgain _ _ | .fileCreate | .rollback _
  | .inodeClose _ _ => inferInstanceAs (Decidable False)

section Right

variable {b : Book} {heaps : TaskHeaps} {ptr size : Nat}

theorem inodeRight_of_kernel (sound : HeapsSound b heaps)
    (isLive : heaps.live .kernel ptr = some inodeSize) : InodeRight heaps.mem ptr := by
  have kernel := sound.kernelHeap
  have owner : heaps.kernelHeap.mem.owner = .kernel := owner_setPgdir_none heaps.mem
  have flags : heaps.kernelHeap.mem.ownFlags = .kernel := by
    rw [ownFlags_eq, owner]
    rfl
  have arenas := sound.arenas .kernel trivial
  have owned := sound.coherent.owned
  cases kernel.accounted.lives ptr inodeSize isLive with
  | @pages page isPages isStart large fits => exact absurd large (by decide)
  | @block page descIdx isArena isBlock small fits =>
      obtain rfl : ptr / pgSize = page := (cut_blocksOf descIdx).home page ptr isBlock
      obtain ⟨frame, holds, -⟩ := arenas.first isArena
      have inRange := owned.inRange _ (Book.held_eq_some.mp holds).1
      have isPlace : b.held heaps.mem (heaps.mem.place .kernel (ptr / pgSize)) =
          some (.kernel, frame) := holds
      have maps : heaps.mem.Maps (ptr / pgSize) frame := owned.maps_of_held isPlace
      have header := arenas.arena _ _ isArena
      rw [headerAt_eq holds] at header
      refine ⟨?_, kernel.avoids_sysFree isLive, frame, descIdx, (heaps.mem.arena frame).cnt, maps,
        (owned.inPool holds).1, ?_, fun m' freed => ?_⟩
      · have low : 0xc0100 ≤ ptr / 4096 := inRange.1
        change 0xc0100000 ≤ ptr
        omega
      · exact congrArg₂ (Arena.mk · · _) header.1 header.2
      · obtain ⟨⟨b', step⟩, right⟩ := kernel.sysFree isLive freed
        by_cases inUse : ∃ other, other ≠ ptr ∧ other / pgSize = ptr / pgSize ∧
            heaps.live .kernel other ≠ none
        · have returned := right.inUse small inUse
          rw [flags] at returned
          have stays : m'.translate (ptr / pgSize * pgSize) = .ok frame :=
            (returned.maps _ ⟨_, inRange⟩ frame).mpr ⟨maps, fun gone => by omega⟩
          have mapped : m'.mapped (ptr / pgSize) = true := by
            rw [Mem.mapped, stays]
            rfl
          rw [HeapUse.freed_kept _ mapped] at step
          have after : m'.owner = .kernel := (owner_congr step.fixed).trans owner
          have blocks := step.sound.accounted.blocks _ descIdx isArena ptr isBlock
          rw [after] at blocks
          exact .inl ⟨returned, blocks.mpr (Function.update_self _ _ _)⟩
        · push Not at inUse
          have returned := (right.last small inUse).1
          rw [flags] at returned
          exact .inr returned

theorem process_below {t : Tid} {dir : Nat} (sound : HeapsSound b heaps)
    (isLive : heaps.live (.process t dir) ptr = some size) : ptr < kHeapStart := by
  have hasHeap : b.HasHeap heaps.mem heaps.threads (.process t dir) := by
    by_contra noHeap
    rw [(sound.idle _ noHeap).2] at isLive
    cases isLive
  obtain ⟨c, isChunk⟩ := ((sound.accounted _ hasHeap).lives ptr size isLive).isChunk
  obtain ⟨frame, holds, -⟩ := (sound.arenas _ hasHeap).first isChunk
  obtain ⟨⟨-, -, high, -⟩, -⟩ := (Book.held_eq_some.mp holds).1
  have below : ptr / 4096 / 1024 < 768 := high
  change ptr < 0xc0100000
  omega

end Right

/-- Every inode is an allocation of its own. -/
structure InodesSound (b : Book) (s : InodeHeaps) : Prop where
  heaps : HeapsSound b s.heaps
  live : ∀ o ptr stage, s.inodes o ptr = some stage → s.heaps.live o ptr = some inodeSize

/-- The inodes on `open_inodes` are in the heap of the kernel. -/
def InodeHeaps.AllKernel (s : InodeHeaps) : Prop :=
  ∀ o ptr cnts, s.inodes o ptr = some (.listed cnts) → o = .kernel

section Steps

variable {b b' : Book} {s s' : InodeHeaps} {heaps' : TaskHeaps} {o : Owner} {ptr : Address}
  {stage : Option InodeStage}

theorem inodes_setStage (s : InodeHeaps) (o : Owner) (ptr : Address) (stage : Option InodeStage)
    (o' : Owner) (ptr' : Address) : (s.setStage o ptr stage).inodes o' ptr' =
      if o' = o ∧ ptr' = ptr then stage else s.inodes o' ptr' := by
  simp only [InodeHeaps.setStage, Function.update_apply]
  by_cases same : o' = o
  · subst same
    simp [Function.update_apply]
  · simp [same]

theorem InodesSound.right_iff (sound : InodesSound b s) : InodesRight s ↔ s.AllKernel := by
  constructor
  · intro right o ptr cnts isListed
    cases o with
    | kernel => rfl
    | process t dir =>
        have below := process_below sound.heaps (sound.live _ ptr _ isListed)
        exact absurd (right _ ptr cnts isListed).kernelHeap (Nat.not_le.mpr below)
  · intro all o ptr cnts isListed
    obtain rfl := all o ptr cnts isListed
    exact inodeRight_of_kernel sound.heaps (sound.live _ ptr _ isListed)

theorem InodesSound.setStage (sound : InodesSound b s) (heaps : HeapsSound b' heaps')
    (kept : ∀ o' ptr', ¬ (o' = o ∧ ptr' = ptr) → s.heaps.live o' ptr' = some inodeSize →
      heaps'.live o' ptr' = some inodeSize)
    (isLive : stage ≠ none → heaps'.live o ptr = some inodeSize) :
    InodesSound b' (({ s with heaps := heaps' } : InodeHeaps).setStage o ptr stage) := by
  refine ⟨heaps, fun o' ptr' stage' isStage => ?_⟩
  rw [inodes_setStage] at isStage
  split at isStage
  next same =>
    obtain ⟨rfl, rfl⟩ := same
    exact isLive (isStage ▸ Option.some_ne_none stage')
  next other => exact kept o' ptr' other (sound.live o' ptr' stage' isStage)

theorem InodesSound.changed {after : HeapUse} {size : Option Nat} (sound : InodesSound b s)
    (heaps : HeapsSound b' (s.heaps.setHeap o after))
    (changed : after.live = Function.update (s.heaps.live o) ptr size)
    (isSize : stage ≠ none → size = some inodeSize) :
    InodesSound b'
      (({ s with heaps := s.heaps.setHeap o after } : InodeHeaps).setStage o ptr stage) := by
  refine sound.setStage heaps (fun o' ptr' other isLive => ?_) fun isStage => ?_
  · refine TaskHeaps.setHeap_live_of_live _ _ isLive fun same => ?_
    subst same
    rw [changed, Function.update_of_ne fun isThis => other ⟨rfl, isThis⟩, isLive]
  · rw [TaskHeaps.setHeap_live_self, changed, Function.update_self, isSize isStage]

/-- A call for a heap has allocated nothing. -/
theorem InodesSound.unchanged {after : HeapUse} (sound : InodesSound b s) (refused : List Tid)
    (heaps : HeapsSound b' (s.heaps.setHeap o after)) (unchanged : after.live = s.heaps.live o) :
    InodesSound b' { s with heaps := s.heaps.setHeap o after, refused := refused } := by
  refine ⟨heaps, fun o' ptr' stage isStage => ?_⟩
  have isLive := sound.live o' ptr' stage isStage
  refine TaskHeaps.setHeap_live_of_live _ _ isLive fun same => ?_
  subst same
  rw [unchanged, isLive]

theorem InodeHeaps.AllKernel.setStage (all : s.AllKernel)
    (isKernel : ∀ cnts, stage = some (.listed cnts) → o = .kernel) :
    (({ s with heaps := heaps' } : InodeHeaps).setStage o ptr stage).AllKernel := by
  intro o' ptr' cnts isListed
  rw [inodes_setStage] at isListed
  split at isListed
  next same => exact same.1.trans (isKernel cnts isListed)
  next => exact all o' ptr' cnts isListed

theorem InodesSound.step {action : InodeAction} (sound : InodesSound b s) (right : InodesRight s)
    (inside : ¬ action.ListsOutside s) (ran : inodeStep s action = .ok s') :
    (∃ b', InodesSound b' s') ∧ s'.AllKernel := by
  have all := sound.right_iff.mp right
  cases action with
  | task call =>
      rw [inodeStep] at ran
      split at ran
      next spares =>
        obtain ⟨heaps', called, ran⟩ := except_bind_eq_ok.mp ran
        obtain rfl := Except.ok.inj ran
        obtain ⟨b', heaps⟩ := sound.heaps.call called
        refine ⟨⟨b', heaps, fun o ptr stage isStage => ?_⟩, all⟩
        refine sound.heaps.call_live called (sound.live o ptr stage isStage) ?_
        rintro rfl rfl
        have noInode : s.inodes _ ptr = none := of_decide_eq_true spares
        rw [noInode] at isStage
        cases isStage
      next => cases ran
  | inodeOpen =>
      obtain ⟨⟨inodeFound, m'⟩, served, ran⟩ := except_bind_eq_ok.mp ran
      obtain ⟨⟨b', step⟩, -⟩ := sound.heaps.kernelHeap.sysMalloc served
      have heaps := sound.heaps.kernelStep step
      cases inodeFound with
      | none =>
          obtain rfl := Except.ok.inj ran
          exact ⟨⟨b', sound.unchanged _ heaps rfl⟩, all⟩
      | some ptr =>
          obtain rfl := Except.ok.inj ran
          exact ⟨⟨b', sound.changed heaps rfl fun _ => rfl⟩,
            all.setStage fun _ isListed => by cases isListed⟩
  | openInsert ptr =>
      rw [inodeStep] at ran
      split at ran
      next isOpening =>
        obtain rfl := Except.ok.inj ran
        exact ⟨⟨b, sound.setStage sound.heaps (fun _ _ _ isLive => isLive)
          fun _ => sound.live _ _ _ isOpening⟩, all.setStage fun _ _ => rfl⟩
      next => cases ran
  | openInsertNull => exact absurd trivial inside
  | openAgain o ptr =>
      rw [inodeStep] at ran
      split at ran
      next cnts isListed =>
        obtain rfl := Except.ok.inj ran
        exact ⟨⟨b, sound.setStage sound.heaps (fun _ _ _ isLive => isLive)
          fun _ => sound.live _ _ _ isListed⟩, all.setStage fun _ _ => all o ptr cnts isListed⟩
      next => cases ran
  | fileCreate =>
      obtain ⟨⟨newFileInode, m'⟩, served, ran⟩ := except_bind_eq_ok.mp ran
      obtain ⟨⟨b', step⟩, -⟩ := sound.heaps.heap.sysMalloc served
      have heaps := sound.heaps.heapStep step
      cases newFileInode with
      | none =>
          obtain rfl := Except.ok.inj ran
          exact ⟨⟨b', sound.unchanged _ heaps rfl⟩, all⟩
      | some ptr =>
          obtain rfl := Except.ok.inj ran
          exact ⟨⟨b', sound.changed heaps rfl fun _ => rfl⟩,
            all.setStage fun _ isListed => by cases isListed⟩
  | createInsert ptr =>
      rw [inodeStep] at ran
      split at ran
      next isCreating =>
        obtain rfl := Except.ok.inj ran
        refine ⟨⟨b, sound.setStage sound.heaps (fun _ _ _ isLive => isLive)
          fun _ => sound.live _ _ _ isCreating⟩, all.setStage fun _ _ => ?_⟩
        rw [Mem.owner, if_pos (not_ne_iff.mp inside)]
      next => cases ran
  | rollback ptr =>
      rw [inodeStep] at ran
      split at ran
      next isCreating =>
        obtain ⟨m', freed, ran⟩ := except_bind_eq_ok.mp ran
        obtain rfl := Except.ok.inj ran
        obtain ⟨⟨b', step⟩, -⟩ := sound.heaps.heap.sysFree (sound.live _ _ _ isCreating) freed
        have heaps := sound.heaps.heapStep step
        exact ⟨⟨b', sound.changed heaps rfl fun given => absurd rfl given⟩,
          all.setStage fun _ isListed => by cases isListed⟩
      next => cases ran
  | inodeClose o ptr =>
      rw [inodeStep] at ran
      split at ran
      next cnts isListed =>
        obtain rfl := all o ptr cnts isListed
        have isLive := sound.live _ _ _ isListed
        split at ran
        next =>
          obtain ⟨m', freed, ran⟩ := except_bind_eq_ok.mp ran
          obtain rfl := Except.ok.inj ran
          obtain ⟨⟨b', step⟩, -⟩ := sound.heaps.kernelHeap.sysFree isLive freed
          have heaps := sound.heaps.kernelStep step
          exact ⟨⟨b', sound.changed heaps rfl fun given => absurd rfl given⟩,
            all.setStage fun _ isListed => by cases isListed⟩
        next =>
          obtain rfl := Except.ok.inj ran
          exact ⟨⟨b, sound.setStage sound.heaps (fun _ _ _ isLive => isLive) fun _ => isLive⟩,
            all.setStage fun _ _ => rfl⟩
      next => cases ran

end Steps

theorem InodesSound.boot (m : Mem) (memBytesTotal : Nat) :
    InodesSound Book.boot (.boot m memBytesTotal) :=
  ⟨.boot m memBytesTotal, nofun⟩

end HongbaiOS.Fs
