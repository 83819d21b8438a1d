import HongbaiOS.Kernel.Debug
import Mathlib.Algebra.Group.Nat.Defs
import Mathlib.Logic.Function.Basic
import Mathlib.Tactic.Simps.Basic

/-!
# The thread system

Threads, the ready list, `schedule` and the operations of `thread.c`, `sync.c`
and `timer.c` that change a thread's status.  A switch leaves the old thread
somewhere inside a kernel function; `Suspended` records where, and `resume`
runs that function on to its end or to the next switch.

Lists of `general_tag` nodes are modelled by the sequence of threads they link;
`Readiness.lean` shows that no node is ever put into two lists, which is what
that reading needs.
-/

namespace HongbaiOS.Thread

open HongbaiOS.Kernel

/-- A thread is named by the address of its PCB page. -/
abbrev Tid := Nat

abbrev SemaId := Nat

inductive ThreadStatus where
  | running | ready | blocked | waiting | hanging | died
  deriving DecidableEq, Repr

/-- The statuses `thread_block` may give and `thread_unblock` may take away. -/
def ThreadStatus.isBlocked : ThreadStatus → Bool
  | .blocked | .waiting | .hanging => true
  | .running | .ready | .died => false

/-- The scheduling fields of `struct task_struct`. -/
structure TaskStruct where
  status : ThreadStatus
  priority : Nat
  ticks : Nat
  elapsedTicks : Nat
  stackMagic : Nat
  deriving DecidableEq

/-- Where a thread stands when it is not running its own code: the frames a
later `switch_to` returns into, with the interrupt status they will restore. -/
inductive Suspended where
  /-- Never dispatched: `kernel_thread` will turn interrupts on. -/
  | fresh
  /-- In the `schedule` of `intr_timer_handler`; `iretd` turns interrupts on. -/
  | inTimer
  /-- In a `thread_block` called by the thread's own code. -/
  | inBlock (oldStatus : Bool)
  | inYield (oldStatus : Bool)
  /-- In the `thread_block` of `sema_down`, about to test the value again. -/
  | inDown (k : SemaId) (oldStatus : Bool)
  deriving DecidableEq

structure Semaphore where
  value : Nat
  waiters : List Tid
  deriving DecidableEq

structure Sched where
  /-- The PCB pages that exist. -/
  task : Tid → Option TaskStruct
  /-- PCBs initialised by `init_thread` but not yet put into the ready list. -/
  building : List Tid
  threadReadyList : List Tid
  threadAllList : List Tid
  runningThread : Tid
  idleThread : Tid
  sema : SemaId → Semaphore
  suspended : Tid → Option Suspended
  /-- The interrupt flag of the CPU. -/
  intrOn : Bool
  /-- Timer ticks since boot. -/
  ticks : Nat

namespace Sched

def status (s : Sched) (t : Tid) : Option ThreadStatus := (s.task t).map (·.status)

/-- Apply `f` to the PCB of `t`. -/
@[simps]
def onTask (s : Sched) (t : Tid) (f : TaskStruct → TaskStruct) : Sched :=
  { s with task := Function.update s.task t ((s.task t).map f) }

def setStatus (s : Sched) (t : Tid) (status : ThreadStatus) : Sched :=
  s.onTask t fun p => { p with status := status }

@[simps]
def addTask (s : Sched) (t : Tid) (p : TaskStruct) : Sched :=
  { s with task := Function.update s.task t (some p) }

@[simps]
def setBuilding (s : Sched) (list : List Tid) : Sched := { s with building := list }

@[simps]
def setReadyList (s : Sched) (list : List Tid) : Sched :=
  { s with threadReadyList := list }

@[simps]
def setSema (s : Sched) (k : SemaId) (sem : Semaphore) : Sched :=
  { s with sema := Function.update s.sema k sem }

@[simps]
def setIntr (s : Sched) (on : Bool) : Sched := { s with intrOn := on }

@[simps]
def switchTo (s : Sched) (next : Tid) : Sched := { s with runningThread := next }

@[simps]
def suspend (s : Sched) (t : Tid) (frame : Option Suspended) : Sched :=
  { s with suspended := Function.update s.suspended t frame }

end Sched

/-- `thread_unblock(pthread)`; it leaves the interrupt flag as it was. -/
def threadUnblock (pthread : Tid) (s : Sched) : Except Halt Sched :=
  match s.task pthread with
  | none => .error .pageFault
  | some p =>
      if p.status.isBlocked then
        if pthread ∈ s.threadReadyList then .error (.panic .threadUnblock)
        else .ok ((s.setReadyList (pthread :: s.threadReadyList)).setStatus pthread .ready)
      else .error (.panic .threadUnblock)

/-- First part of `schedule`: a thread that is still running goes to the end of
the ready list with a new time slice. -/
def requeue (s : Sched) : Except Halt Sched :=
  if s.status s.runningThread = some .running then
    if s.runningThread ∈ s.threadReadyList then .error (.panic .schedule)
    else .ok ((s.setReadyList (s.threadReadyList ++ [s.runningThread])).onTask
      s.runningThread fun p => { p with status := .ready, ticks := p.priority })
  else .ok s

/-- Second part of `schedule`: an empty ready list wakes the idle thread. -/
def wakeIdle (s : Sched) : Except Halt Sched :=
  if s.threadReadyList = [] then threadUnblock s.idleThread s else .ok s

/-- Last part of `schedule`: pop the next thread and `switch_to` it. -/
def dispatch (s : Sched) : Except Halt Sched :=
  match s.threadReadyList with
  | [] => .error (.panic .listPop)
  | next :: rest =>
      .ok (((s.setReadyList rest).setStatus next .running).switchTo next)

/-- `schedule`.  The thread that gives the CPU away will go on from `frame` when
it is switched to again. -/
def schedule (frame : Suspended) (s : Sched) : Except Halt Sched :=
  if s.intrOn then .error (.panic .schedule)
  else
    match requeue (s.suspend s.runningThread (some frame)) with
    | .error h => .error h
    | .ok s₁ =>
        match wakeIdle s₁ with
        | .error h => .error h
        | .ok s₂ => dispatch s₂

/-- `thread_block(stat)`, called where a return will go on with `frame`. -/
def threadBlock (stat : ThreadStatus) (frame : Suspended) (s : Sched) :
    Except Halt Sched :=
  if stat.isBlocked then
    schedule frame ((s.setIntr false).setStatus s.runningThread stat)
  else .error (.panic .threadBlock)

/-- `thread_yield`: the status is set to `TASK_READY` and `schedule` is called;
nothing here puts the thread into the ready list. -/
def threadYield (s : Sched) : Except Halt Sched :=
  if s.runningThread ∈ s.threadReadyList then .error (.panic .threadYield)
  else
    schedule (.inYield s.intrOn) ((s.setIntr false).setStatus s.runningThread .ready)

/-- One round of the `while` loop of `sema_down` and what follows it, with
interrupts off; `oldStatus` is the status to restore at the end. -/
def semaDownLoop (k : SemaId) (oldStatus : Bool) (s : Sched) : Except Halt Sched :=
  let sem := s.sema k
  if sem.value = 0 then
    if s.runningThread ∈ sem.waiters then .error (.panic .semaDown)
    else
      threadBlock .blocked (.inDown k oldStatus)
        (s.setSema k ⟨sem.value, sem.waiters ++ [s.runningThread]⟩)
  else if sem.value - 1 = 0 then
    .ok ((s.setSema k ⟨sem.value - 1, sem.waiters⟩).setIntr oldStatus)
  else .error (.panic .semaDown)

def semaDown (k : SemaId) (s : Sched) : Except Halt Sched :=
  semaDownLoop k s.intrOn (s.setIntr false)

/-- `sema_up`; it leaves the interrupt flag as it was. -/
def semaUp (k : SemaId) (s : Sched) : Except Halt Sched :=
  let sem := s.sema k
  if sem.value = 0 then
    match sem.waiters with
    | [] => .ok (s.setSema k ⟨sem.value + 1, []⟩)
    | t :: rest =>
        match threadUnblock t (s.setSema k ⟨sem.value, rest⟩) with
        | .error h => .error h
        | .ok s' => .ok (s'.setSema k ⟨sem.value + 1, rest⟩)
  else .error (.panic .semaUp)

/-- `intr_timer_handler`, entered through an interrupt gate. -/
def intrTimerHandler (s : Sched) : Except Halt Sched :=
  match s.task s.runningThread with
  | none => .error .pageFault
  | some p =>
      if p.stackMagic = 0x20250325 then
        let s₁ := { s with ticks := (s.ticks + 1) % 2 ^ 32 }.onTask s.runningThread
          fun p => { p with elapsedTicks := (p.elapsedTicks + 1) % 2 ^ 32 }
        if p.ticks = 0 then schedule .inTimer (s₁.setIntr false)
        else .ok (s₁.onTask s.runningThread fun p => { p with ticks := p.ticks - 1 })
      else .error (.panic .intrTimerHandler)

/-- The PCB `init_thread` writes for a thread other than the main thread. -/
def initThread (prio : Nat) : TaskStruct where
  status := .ready
  priority := prio % 2 ^ 8
  ticks := prio % 2 ^ 8
  elapsedTicks := 0
  stackMagic := 0x20250325

/-- The running thread goes on where it was switched away from. -/
def resume (s : Sched) : Except Halt Sched :=
  let own := s.suspend s.runningThread none
  match s.suspended s.runningThread with
  | none => .error .disabled
  | some .fresh => .ok (own.setIntr true)
  | some .inTimer => .ok (own.setIntr true)
  | some (.inBlock oldStatus) => .ok (own.setIntr oldStatus)
  | some (.inYield oldStatus) => .ok (own.setIntr oldStatus)
  | some (.inDown k oldStatus) => semaDownLoop k oldStatus own

/-- What the running thread, or an interrupt on top of it, can do next. -/
inductive Action where
  /-- `get_kernel_pages` and `init_thread` inside `thread_start` or
  `process_execute`: the PCB page `t` comes into being. -/
  | initThread (t : Tid) (prio : Nat)
  /-- The `list_append` of the same functions to `thread_ready_list`. -/
  | readyAppend (t : Tid)
  /-- Their `list_append` to `thread_all_list`. -/
  | allAppend (t : Tid)
  | timerTick
  | threadBlock (stat : ThreadStatus)
  | threadUnblock (t : Tid)
  | threadYield
  | semaDown (k : SemaId)
  | semaUp (k : SemaId)
  /-- `intr_enable` or `intr_disable` in the thread's own code. -/
  | intrSetStatus (on : Bool)
  | resume
  deriving DecidableEq

/-- The thread runs its own code, so any of the operations can be called. -/
def ownCode (s : Sched) (a : Action) : Except Halt Sched :=
  match a with
  | .initThread t prio =>
      if s.task t = none then
        .ok (((s.addTask t (initThread prio)).suspend t (some .fresh)).setBuilding
          (t :: s.building))
      else .error .disabled
  | .readyAppend t =>
      if t ∈ s.building then
        if t ∈ s.threadReadyList then .error (.panic .threadStart)
        else .ok ((s.setBuilding (s.building.erase t)).setReadyList
          (s.threadReadyList ++ [t]))
      else .error .disabled
  | .allAppend t =>
      if t ∈ s.building then .error .disabled
      else if t ∈ s.threadAllList then .error (.panic .threadStart)
      else .ok { s with threadAllList := s.threadAllList ++ [t] }
  | .timerTick => if s.intrOn then intrTimerHandler s else .error .disabled
  | .threadBlock stat => threadBlock stat (.inBlock s.intrOn) s
  | .threadUnblock t =>
      -- only `ioq_wait`'s waiters are woken directly, never one of a semaphore
      match s.suspended t with
      | some (.inDown _ _) => .error .disabled
      | _ => threadUnblock t s
  | .threadYield =>
      if s.runningThread = s.idleThread then .error .disabled else threadYield s
  | .semaDown k =>
      if s.runningThread = s.idleThread then .error .disabled else semaDown k s
  | .semaUp k => semaUp k s
  | .intrSetStatus on => .ok (s.setIntr on)
  | .resume => .error .disabled

/-- One step of the system.  A thread that has just been switched to first runs
the suspended function on. -/
def step (s : Sched) (a : Action) : Except Halt Sched :=
  match s.suspended s.runningThread with
  | none => ownCode s a
  | some _ => if a = .resume then resume s else .error .disabled

/-- The state `thread_init` leaves: the main thread runs with interrupts off and
the idle thread waits in the ready list.  `value` gives what `sema_init` stores
in each semaphore. -/
def threadInit (mainThread idleThread : Tid) (value : SemaId → Nat) : Sched where
  task := Function.update
    (Function.update (fun _ => none) mainThread
      (some { initThread 31 with status := .running }))
    idleThread (some (initThread 10))
  building := []
  threadReadyList := [idleThread]
  threadAllList := [mainThread, idleThread]
  runningThread := mainThread
  idleThread := idleThread
  sema := fun k => ⟨value k, []⟩
  suspended := Function.update (fun _ => none) idleThread (some .fresh)
  intrOn := false
  ticks := 0

end HongbaiOS.Thread
