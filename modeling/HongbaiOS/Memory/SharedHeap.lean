import HongbaiOS.Memory.TaskHeaps

/-!
# The kernel's heap in the hands of a process

A process that sets its `pgdir` to `NULL` around `sys_malloc` or `sys_free` works on the heap
of the kernel, in its own address space: the kernel half is the same in all of them.
-/

namespace HongbaiOS.Memory

open HongbaiOS.Library HongbaiOS.Kernel HongbaiOS.Lib HongbaiOS.Thread

/-- `running_thread()->pgdir = pgdir` -/
def Mem.setPgdir (m : Mem) (pgdir : Option Address) : Mem :=
  m.setTask m.runningThread { m.task m.runningThread with pgdir := pgdir }

section SetPgdir

variable {b b' : Book} {m m' : Mem} {pgdir : Option Address} {o : Owner}
  {chunks chunks' : Nat → Option Chunk}

theorem task_setPgdir (m : Mem) (pgdir : Option Address) (t : Tid) :
    (m.setPgdir pgdir).task t = if t = m.runningThread then { m.task t with pgdir := pgdir }
      else m.task t := by
  refine (Function.update_apply _ _ _ _).trans ?_
  split
  next same => rw [same]
  next => rfl

theorem pgdir_setPgdir (m : Mem) (pgdir : Option Address) : (m.setPgdir pgdir).pgdir = pgdir := by
  have isTask := task_setPgdir m pgdir m.runningThread
  rw [if_pos rfl] at isTask
  exact congrArg Task.pgdir isTask

theorem desc_setPgdir (m : Mem) (pgdir : Option Address) : (m.setPgdir pgdir).desc = m.desc := by
  funext ref
  cases ref with
  | kernel descIdx => rfl
  | user t descIdx =>
      rw [Mem.desc, Mem.desc, task_setPgdir]
      split <;> rfl

theorem fixed_setPgdir (m : Mem) (pgdir : Option Address) : (m.setPgdir pgdir).fixed =
    { m.fixed with pgdir := Function.update m.fixed.pgdir m.runningThread pgdir } := by
  have range : ∀ t, ((m.setPgdir pgdir).task t).userprogVaddr = (m.task t).userprogVaddr := by
    intro t
    rw [task_setPgdir]
    split <;> rfl
  have pgdirs : (fun t => ((m.setPgdir pgdir).task t).pgdir) =
      Function.update m.fixed.pgdir m.runningThread pgdir := by
    funext t
    rw [task_setPgdir, Function.update_apply]
    split <;> rfl
  simp only [Mem.fixed, range, pgdirs, desc_setPgdir]
  rfl

theorem held_setPgdir (b : Book) (m : Mem) (pgdir : Option Address) :
    b.held (m.setPgdir pgdir) = b.held m := b.held_of_words rfl

theorem Arenas.setPgdir (arenas : Arenas b m o chunks) (pgdir : Option Address) :
    Arenas b (m.setPgdir pgdir) o chunks := by
  refine arenas.congr (fun page c _ i _ frame holds notDir => ?_) fun descIdx => ?_
  · exact ⟨by rw [held_setPgdir, holds], rfl, notDir⟩
  · rw [desc_setPgdir]

theorem KeepsOthers.setPgdir {pgdir' : Option Address}
    (others : KeepsOthers b (m.setPgdir pgdir) o chunks b' m' chunks') :
    KeepsOthers b m o chunks b' (m'.setPgdir pgdir') chunks' := by
  refine ⟨others.dirs, fun p r holds outside => ?_, fun ref other => ?_⟩
  · rw [← held_setPgdir b m pgdir] at holds
    obtain ⟨holds', arena, outside'⟩ := others.held p r holds outside
    exact ⟨by rw [held_setPgdir, holds'], arena, outside'⟩
  · rw [desc_setPgdir, others.desc ref other, desc_setPgdir]

end SetPgdir

/-- The heap of the kernel, while `pgdir` is `NULL`. -/
def TaskHeaps.kernelHeap (s : TaskHeaps) : HeapUse :=
  ⟨s.mem.setPgdir none, s.chunks .kernel, s.live .kernel⟩

/-- The call has returned, and `pgdir` is what it was. -/
def TaskHeaps.setKernelHeap (s : TaskHeaps) (after : HeapUse) : TaskHeaps :=
  s.setHeap .kernel { after with mem := after.mem.setPgdir s.mem.pgdir }

section KernelHeap

variable {b b' : Book} {s : TaskHeaps} {after : HeapUse}

theorem owner_setPgdir_none (m : Mem) : (m.setPgdir none).owner = .kernel := by
  rw [Mem.owner, if_pos (pgdir_setPgdir m none)]

theorem HeapsSound.kernelHeap (sound : HeapsSound b s) : HeapSound b s.kernelHeap := by
  have owner : s.kernelHeap.mem.owner = .kernel := owner_setPgdir_none s.mem
  refine ⟨?_, sound.sized _, ?_, ?_⟩
  · exact sound.coherent.owned.setTask _ _ (sound.coherent.owned.layout.userPages _)
  · rw [owner]
    exact (sound.arenas .kernel trivial).setPgdir none
  · rw [owner]
    exact sound.accounted .kernel trivial

theorem HeapsSound.kernelStep (sound : HeapsSound b s) (step : HeapStep b s.kernelHeap b' after) :
    HeapsSound b' (s.setKernelHeap after) := by
  have owner : after.mem.owner = .kernel :=
    (owner_congr step.fixed).trans (owner_setPgdir_none s.mem)
  have fixed : (after.mem.setPgdir s.mem.pgdir).fixed = s.mem.fixed := by
    have before := step.fixed
    have running : after.mem.runningThread = s.mem.runningThread :=
      congrArg Fixed.runningThread before
    rw [TaskHeaps.kernelHeap, fixed_setPgdir] at before
    rw [fixed_setPgdir, before, running]
    simp only [Function.update_idem]
    rw [show s.mem.pgdir = s.mem.fixed.pgdir s.mem.runningThread from rfl, Function.update_eq_self]
  have arenas := step.sound.arenas
  have accounted := step.sound.accounted
  have others := step.others
  rw [owner] at arenas accounted
  rw [show s.kernelHeap.mem.owner = .kernel from owner_setPgdir_none s.mem] at others
  have lists : (after.mem.setPgdir s.mem.pgdir).freeLists .kernel = after.mem.freeLists .kernel :=
    freeLists_congr (desc_setPgdir _ _) .kernel
  refine sound.setHeap trivial ⟨?_, arenas.setPgdir _, fixed, rfl, others.setPgdir⟩ ?_
  · refine step.sound.owned.setTask _ _ (step.sound.owned.layout.userPages _)
  · rw [lists]
    exact accounted

end KernelHeap

end HongbaiOS.Memory
