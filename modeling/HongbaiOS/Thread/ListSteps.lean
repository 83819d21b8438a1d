import HongbaiOS.Thread.ListNodes

/-!
# Runs of the scheduler on list nodes

Each function on list nodes agrees with the one on sequences: it stops for the same reason, or
the words it leaves hold the sequences the other leaves.
-/

namespace HongbaiOS.Thread

open HongbaiOS.Library HongbaiOS.Kernel HongbaiOS.Lib HongbaiOS.Lib.KernelList

section Functions

variable {layout : ListLayout} {s : Sched} {word : Words} {t : Tid} {k : SemaId}

theorem represents (holds : HoldsLists layout word s) :
    layout.Represents (s.onNodes word) s := ⟨word, rfl, holds⟩

theorem schedule_eq (frame : Suspended) (s : Sched) :
    schedule frame s = if s.intrOn then .error (.panic .schedule)
      else requeue (s.suspend s.runningThread (some frame)) >>=
        fun s₁ => wakeIdle s₁ >>= dispatch := by
  rw [schedule]
  congr 1
  cases requeue (s.suspend s.runningThread (some frame)) with
  | error reason => rfl
  | ok s₁ =>
      simp only [ok_bind]
      cases wakeIdle s₁ <;> rfl

namespace HoldsLists

theorem setIntr (holds : HoldsLists layout word s) (on : Bool) :
    HoldsLists layout word (s.setIntr on) :=
  holds.congr (fun _ => id) rfl rfl fun _ => rfl

theorem threadUnblock (holds : HoldsLists layout word s)
    (notWaiting : ∀ k ∈ layout.semas, t ∉ (s.sema k).waiters) :
    Agrees layout.Represents (NodeSched.threadUnblock layout t (s.onNodes word))
      (threadUnblock t s) := by
  have same : (s.onNodes word).task t = s.task t := rfl
  rw [NodeSched.threadUnblock, Thread.threadUnblock, same, holds.elemFind_ready]
  cases found : s.task t with
  | none => exact .error _
  | some p =>
      have isPcb := holds.tasks t (by simp [found])
      simp only [ok_bind, decide_eq_true_eq]
      split
      · split
        · exact .error _
        next notReady =>
          obtain ⟨word', pushed, holds'⟩ := holds.listPush_ready isPcb notReady notWaiting s.intrOn
          have lists : (s.onNodes word).lists = ⟨word, s.intrOn⟩ := rfl
          rw [lists, pushed]
          exact .ok (represents (holds'.onTask t _))
      · exact .error _

theorem requeue (holds : HoldsLists layout word s)
    (notWaiting : s.status s.runningThread = some .running →
      ∀ k ∈ layout.semas, s.runningThread ∉ (s.sema k).waiters) :
    Agrees layout.Represents (NodeSched.requeue layout (s.onNodes word)) (requeue s) := by
  have same : (s.onNodes word).status (s.onNodes word).runningThread =
      s.status s.runningThread := rfl
  have running : (s.onNodes word).runningThread = s.runningThread := rfl
  rw [NodeSched.requeue, Thread.requeue, same, running, holds.elemFind_ready]
  simp only [ok_bind, decide_eq_true_eq]
  split
  next isRunning =>
    split
    · exact .error _
    next notReady =>
      have isPcb := holds.tasks s.runningThread fun none => by
        simp [Sched.status, none] at isRunning
      obtain ⟨word', appended, holds'⟩ :=
        holds.listAppend_ready isPcb notReady (notWaiting isRunning) s.intrOn
      have lists : (s.onNodes word).lists = ⟨word, s.intrOn⟩ := rfl
      rw [lists, appended]
      exact .ok (represents (holds'.onTask _ _))
  · exact .ok (represents holds)

theorem wakeIdle (holds : HoldsLists layout word s)
    (notWaiting : ∀ k ∈ layout.semas, s.idleThread ∉ (s.sema k).waiters) :
    Agrees layout.Represents (NodeSched.wakeIdle layout (s.onNodes word)) (wakeIdle s) := by
  have empty : listEmpty (s.onNodes word).lists.word layout.threadReadyList =
      decide (s.threadReadyList = []) := by
    refine (holds.refines.listEmpty_eq (layout.seqs_ready s)).trans ?_
    simp only [List.map_eq_nil_iff]
  rw [NodeSched.wakeIdle, Thread.wakeIdle, empty]
  simp only [decide_eq_true_eq]
  split
  · exact holds.threadUnblock notWaiting
  · exact .ok (represents holds)

theorem dispatch (holds : HoldsLists layout word s) :
    Agrees layout.Represents (NodeSched.dispatch layout (s.onNodes word)) (dispatch s) := by
  have lists : (s.onNodes word).lists = ⟨word, s.intrOn⟩ := rfl
  rw [NodeSched.dispatch, Thread.dispatch, lists]
  cases isReady : s.threadReadyList with
  | nil =>
      have isSeq := layout.seqs_ready s
      rw [isReady] at isSeq
      have refines : layout.objects.Refines (ListMemory.mk word s.intrOn).word (layout.seqs s) :=
        holds.refines
      rw [refines.listPop_empty isSeq]
      exact .error _
  | cons next rest =>
      obtain ⟨word', popped, holds'⟩ := holds.listPop_ready isReady s.intrOn
      have isPcb := holds.ready next (by simp [isReady])
      rw [popped, ok_bind]
      simp only [pageOf_generalTag isPcb]
      refine .ok ⟨word', rfl, ?_⟩
      exact (holds'.onTask next _).congr (fun _ => id) rfl rfl fun _ => rfl

theorem schedule (holds : HoldsLists layout word s) (frame : Suspended)
    (notWaiting : s.status s.runningThread = some .running →
      ∀ k ∈ layout.semas, s.runningThread ∉ (s.sema k).waiters)
    (idleNotWaiting : ∀ k ∈ layout.semas, s.idleThread ∉ (s.sema k).waiters) :
    Agrees layout.Represents (NodeSched.schedule layout frame (s.onNodes word))
      (schedule frame s) := by
  have same : (s.onNodes word).lists.intrOn = s.intrOn := rfl
  rw [NodeSched.schedule, schedule_eq, same]
  split
  · exact .error _
  · have suspended : HoldsLists layout word (s.suspend s.runningThread (some frame)) :=
      holds.congr (fun _ => id) rfl rfl fun _ => rfl
    refine (suspended.requeue notWaiting).bind ?_
    rintro _ s₁ requeued ⟨word₁, rfl, holds₁⟩
    have kept : s₁.idleThread = s.idleThread ∧ s₁.sema = s.sema := by
      obtain ⟨-, -, rfl⟩ | ⟨-, rfl⟩ := requeue_cases requeued <;> exact ⟨rfl, rfl⟩
    refine (holds₁.wakeIdle (by rw [kept.1, kept.2]; exact idleNotWaiting)).bind ?_
    rintro _ s₂ - ⟨word₂, rfl, holds₂⟩
    exact holds₂.dispatch

theorem threadBlock (holds : HoldsLists layout word s) (stat : ThreadStatus) (frame : Suspended)
    (idleNotWaiting : ∀ k ∈ layout.semas, s.idleThread ∉ (s.sema k).waiters) :
    Agrees layout.Represents (NodeSched.threadBlock layout stat frame (s.onNodes word))
      (threadBlock stat frame s) := by
  rw [NodeSched.threadBlock, Thread.threadBlock]
  split
  next blocked =>
    have unmarked : HoldsLists layout word ((s.setIntr false).setStatus s.runningThread stat) :=
      (holds.setIntr false).onTask s.runningThread _
    refine unmarked.schedule frame (fun isRunning => ?_) idleNotWaiting
    have notRunning : stat ≠ .running := by
      rintro rfl
      cases blocked
    rw [Sched.status_setStatus, Sched.setStatus_runningThread, Sched.setIntr_runningThread,
      if_pos rfl] at isRunning
    obtain ⟨old, -, isStat⟩ := Option.map_eq_some_iff.mp isRunning
    exact absurd isStat notRunning
  · exact .error _

theorem threadYield (holds : HoldsLists layout word s)
    (idleNotWaiting : ∀ k ∈ layout.semas, s.idleThread ∉ (s.sema k).waiters) :
    Agrees layout.Represents (NodeSched.threadYield layout (s.onNodes word)) (threadYield s) := by
  have running : (s.onNodes word).runningThread = s.runningThread := rfl
  rw [NodeSched.threadYield, Thread.threadYield, running, holds.elemFind_ready]
  simp only [ok_bind, decide_eq_true_eq]
  split
  · exact .error _
  · have unmarked : HoldsLists layout word ((s.setIntr false).setStatus s.runningThread .ready) :=
      (holds.setIntr false).onTask s.runningThread _
    refine unmarked.schedule (.inYield s.intrOn) (fun isRunning => ?_) idleNotWaiting
    rw [Sched.status_setStatus, Sched.setStatus_runningThread, Sched.setIntr_runningThread,
      if_pos rfl] at isRunning
    obtain ⟨old, -, isReady⟩ := Option.map_eq_some_iff.mp isRunning
    cases isReady

end HoldsLists

end Functions

section Semaphores

variable {layout : ListLayout} {s : Sched} {word : Words} {k : SemaId}

theorem onNodes_setSema (s : Sched) (k : SemaId) (sem : Semaphore) (word : Words) :
    (s.setSema k sem).onNodes word = (s.onNodes word).setValue k sem.value := by
  have values : (fun j => ((s.setSema k sem).sema j).value) =
      Function.update (fun j => (s.sema j).value) k sem.value := by
    funext j
    by_cases same : j = k
    · subst same
      simp
    · simp [Function.update_of_ne same]
  simp only [Sched.onNodes, values]
  rfl

theorem HoldsLists.setValue (holds : HoldsLists layout word s) (k : SemaId) (value : Nat) :
    HoldsLists layout word (s.setSema k ⟨value, (s.sema k).waiters⟩) := by
  refine holds.congr (fun _ => id) rfl rfl fun j => ?_
  by_cases same : j = k
  · subst same
    simp
  · simp [Function.update_of_ne same]

namespace HoldsLists

theorem semaDownLoop (holds : HoldsLists layout word s) (steady : Steady s)
    (notIdle : s.runningThread ≠ s.idleThread) (inUse : k ∈ layout.semas) (oldStatus : Bool) :
    Agrees layout.Represents (NodeSched.semaDownLoop layout k oldStatus (s.onNodes word))
      (semaDownLoop k oldStatus s) := by
  have value : (s.onNodes word).value k = (s.sema k).value := rfl
  have running : (s.onNodes word).runningThread = s.runningThread := rfl
  have lists : (s.onNodes word).lists = ⟨word, s.intrOn⟩ := rfl
  rw [NodeSched.semaDownLoop, Thread.semaDownLoop, value, running, lists,
    holds.elemFind_eq (layout.seqs_waiters s inUse) generalTag_injective]
  simp only [ok_bind, decide_eq_true_eq]
  split
  · split
    · exact .error _
    · obtain ⟨p, found, -⟩ := steady.task
      have isPcb := holds.tasks s.runningThread (by simp [found])
      obtain ⟨word', appended, holds'⟩ := holds.listAppend_waiters inUse isPcb steady.not_queued
        (fun j _ => steady.not_waiting j) (s.sema k).value s.intrOn
      have kept : (s.onNodes word').setValue k (s.sema k).value = s.onNodes word' := by
        rw [NodeSched.setValue]
        congr 1
        exact Function.update_eq_self k _
      have after := onNodes_setSema s k ⟨(s.sema k).value, (s.sema k).waiters ++ [s.runningThread]⟩
        word'
      rw [kept] at after
      have idleNotWaiting : ∀ j ∈ layout.semas, s.idleThread ∉ ((s.setSema k
          ⟨(s.sema k).value, (s.sema k).waiters ++ [s.runningThread]⟩).sema j).waiters := by
        intro j _ waits
        have before := steady.linked.idle_not_waiting j
        by_cases same : j = k
        · subst same
          rw [Sched.setSema_sema, Function.update_self] at waits
          rcases List.mem_append.mp waits with inWaiters | isLast
          · exact before inWaiters
          · exact notIdle (List.mem_singleton.mp isLast).symm
        · rw [Sched.setSema_sema, Function.update_of_ne same] at waits
          exact before waits
      have blocks := holds'.threadBlock .blocked (.inDown k oldStatus) idleNotWaiting
      rw [after] at blocks
      rw [appended]
      exact blocks
  · split
    · have holds' := holds.setValue k ((s.sema k).value - 1)
      refine .ok ⟨word, ?_, holds'.setIntr oldStatus⟩
      rw [← onNodes_setSema s k ⟨(s.sema k).value - 1, (s.sema k).waiters⟩ word]
      rfl
    · exact .error _

theorem semaUp (holds : HoldsLists layout word s) (steady : Steady s)
    (inUse : k ∈ layout.semas) :
    Agrees layout.Represents (NodeSched.semaUp layout k (s.onNodes word)) (semaUp k s) := by
  have value : (s.onNodes word).value k = (s.sema k).value := rfl
  have lists : (s.onNodes word).lists = ⟨word, s.intrOn⟩ := rfl
  have empty : listEmpty word (layout.waiters k) = decide ((s.sema k).waiters = []) := by
    refine (holds.refines.listEmpty_eq (layout.seqs_waiters s inUse)).trans ?_
    simp only [List.map_eq_nil_iff]
  rw [NodeSched.semaUp, Thread.semaUp, value, lists]
  simp only [empty, decide_eq_true_eq]
  split
  next isZero =>
    cases waits : (s.sema k).waiters with
    | nil =>
        have holds' := holds.setValue k ((s.sema k).value + 1)
        rw [waits] at holds'
        refine .ok ⟨word, ?_, holds'⟩
        exact (onNodes_setSema s k ⟨(s.sema k).value + 1, []⟩ word).symm
    | cons t rest =>
        obtain ⟨word', popped, holds'⟩ :=
          holds.listPop_waiters inUse waits (s.sema k).value s.intrOn
        have isPcb := holds.waiting k t (by simp [waits])
        have kept : (s.onNodes word').setValue k (s.sema k).value = s.onNodes word' := by
          rw [NodeSched.setValue]
          congr 1
          exact Function.update_eq_self k _
        have after := onNodes_setSema s k ⟨(s.sema k).value, rest⟩ word'
        rw [kept] at after
        have unblocks := holds'.threadUnblock fun j _ =>
          (steady.popWaiter waits (s.sema k).value).2 j
        rw [after] at unblocks
        rw [if_neg (List.cons_ne_nil t rest), popped, ok_bind]
        simp only [pageOf_generalTag isPcb]
        have sides : (s.onNodes word).setLists ⟨word', s.intrOn⟩ = s.onNodes word' := rfl
        rw [sides]
        cases ran : Thread.threadUnblock t (s.setSema k ⟨(s.sema k).value, rest⟩) with
        | error reason =>
            rw [ran] at unblocks
            generalize NodeSched.threadUnblock layout t (s.onNodes word') = m at unblocks
            cases unblocks
            exact .error reason
        | ok s' =>
            rw [ran] at unblocks
            generalize NodeSched.threadUnblock layout t (s.onNodes word') = m at unblocks
            cases unblocks with
            | ok related =>
                obtain ⟨word'', rfl, holds''⟩ := related
                have same : s'.sema k = ⟨(s.sema k).value, rest⟩ := by
                  obtain ⟨p, -, -, -, rfl⟩ := threadUnblock_cases ran
                  exact Function.update_self k _ s.sema
                have holds''' := holds''.setValue k ((s.sema k).value + 1)
                rw [same] at holds'''
                refine .ok ⟨word'', ?_, holds'''⟩
                rw [onNodes_setSema]
                have isValue : (s'.onNodes word'').value k = (s.sema k).value := by
                  show (s'.sema k).value = _
                  rw [same]
                rw [isValue]
  · exact .error _

theorem intrTimerHandler (holds : HoldsLists layout word s) (steady : Steady s) :
    Agrees layout.Represents (NodeSched.intrTimerHandler layout (s.onNodes word))
      (intrTimerHandler s) := by
  have same : (s.onNodes word).task (s.onNodes word).runningThread = s.task s.runningThread := rfl
  rw [NodeSched.intrTimerHandler, Thread.intrTimerHandler, same]
  cases s.task s.runningThread with
  | none => exact .error _
  | some p =>
      have ticked : HoldsLists layout word { s with ticks := (s.ticks + 1) % 2 ^ 32 } :=
        holds.congr (fun _ => id) rfl rfl fun _ => rfl
      have counted := ticked.onTask s.runningThread
        fun p => { p with elapsedTicks := (p.elapsedTicks + 1) % 2 ^ 32 }
      simp only
      split
      · split
        · exact (counted.setIntr false).schedule .inTimer (fun _ j _ => steady.not_waiting j)
            fun j _ => steady.linked.idle_not_waiting j
        · exact .ok (represents (counted.onTask s.runningThread _))
      · exact .error _

theorem resume (holds : HoldsLists layout word s) (steady : Steady s)
    (inUse : ∀ k oldStatus, s.suspended s.runningThread = some (.inDown k oldStatus) →
      k ∈ layout.semas) :
    Agrees layout.Represents (NodeSched.resume layout (s.onNodes word)) (resume s) := by
  have same : (s.onNodes word).suspended (s.onNodes word).runningThread =
      s.suspended s.runningThread := rfl
  have own : HoldsLists layout word (s.suspend s.runningThread none) :=
    holds.congr (fun _ => id) rfl rfl fun _ => rfl
  have goesOn (on : Bool) : Agrees layout.Represents
      (.ok (((s.onNodes word).suspend s.runningThread none).setIntr on) : Except Halt NodeSched)
      (.ok ((s.suspend s.runningThread none).setIntr on)) :=
    .ok ⟨word, rfl, own.setIntr on⟩
  rw [NodeSched.resume, Thread.resume, same]
  cases frame : s.suspended s.runningThread with
  | none => exact .error _
  | some frame' =>
      cases frame' with
      | fresh => exact goesOn true
      | inTimer => exact goesOn true
      | inBlock oldStatus => exact goesOn oldStatus
      | inYield oldStatus => exact goesOn oldStatus
      | inDown k oldStatus =>
          have notIdle : s.runningThread ≠ s.idleThread := by
            intro isIdle
            rw [isIdle] at frame
            exact steady.linked.idleFree k oldStatus frame
          exact own.semaDownLoop steady.unsuspend notIdle (inUse k oldStatus frame) oldStatus

end HoldsLists

end Semaphores

/-- What a step needs of the layout: new PCBs are pages for PCBs, and the semaphores are those
that have been set up. -/
def ListLayout.Fits (layout : ListLayout) : Action → Prop
  | .initThread t _ => layout.isPcb t
  | .allAppend t => layout.isPcb t
  | .semaDown k => k ∈ layout.semas
  | .semaUp k => k ∈ layout.semas
  | _ => True

/-- No thread sleeps on a semaphore that has not been set up. -/
structure Settled (layout : ListLayout) (s : Sched) : Prop where
  steady : Steady s
  downs : ∀ t k oldStatus, s.suspended t = some (.inDown k oldStatus) → k ∈ layout.semas

section Runs

variable {layout : ListLayout} {s s' : Sched} {word : Words} {a : Action}

theorem Settled.step (settled : Settled layout s) (fits : layout.Fits a)
    (ran : Thread.step s a = .ok s') : Settled layout s' := by
  refine ⟨settled.steady.step ran, fun t k oldStatus frame => ?_⟩
  by_contra notInUse
  have notUp : a ≠ .semaUp k := by
    rintro rfl
    exact notInUse fits
  have notDown : a ≠ .semaDown k := by
    rintro rfl
    exact notInUse fits
  have untouched := step_untouched notUp notDown
    (fun oldStatus own => notInUse (settled.downs _ k oldStatus own)) ran
  exact notInUse (settled.downs t k oldStatus (untouched.frames t oldStatus frame))

/-- Each operation of a thread does to the nodes what it does to the sequences. -/
theorem HoldsLists.ownCode (holds : HoldsLists layout word s) (steady : Steady s)
    (fits : layout.Fits a) :
    Agrees layout.Represents (NodeSched.ownCode layout (s.onNodes word) a) (ownCode s a) := by
  have lists : (s.onNodes word).lists = ⟨word, s.intrOn⟩ := rfl
  have running : (s.onNodes word).runningThread = s.runningThread := rfl
  have idle : (s.onNodes word).idleThread = s.idleThread := rfl
  have building : (s.onNodes word).building = s.building := rfl
  have idleNotWaiting : ∀ k ∈ layout.semas, s.idleThread ∉ (s.sema k).waiters :=
    fun k _ => steady.linked.idle_not_waiting k
  cases a with
  | initThread t prio =>
      have task : (s.onNodes word).task t = s.task t := rfl
      simp only [NodeSched.ownCode, Thread.ownCode, task]
      split
      · refine .ok ⟨word, rfl, holds.refines, fun u exists' => ?_, holds.ready, holds.all,
          holds.waiting⟩
        by_cases same : u = t
        · exact same ▸ fits
        · refine holds.tasks u ?_
          simpa [Sched.setBuilding, Sched.suspend, Sched.addTask, same] using exists'
      · exact .error _
  | readyAppend t =>
      simp only [NodeSched.ownCode, Thread.ownCode, holds.elemFind_ready, ok_bind,
        decide_eq_true_eq, building, lists]
      split
      next isBuilding =>
        split
        · exact .error _
        next notReady =>
          have isReady := (steady.linked.buildingFree t isBuilding).2
          have isPcb := holds.tasks t fun none => by simp [Sched.status, none] at isReady
          obtain ⟨word', appended, holds'⟩ := holds.listAppend_ready isPcb notReady
            (fun k _ => steady.linked.not_waiting isReady (by decide) k) s.intrOn
          rw [appended]
          exact .ok ⟨word', rfl, holds'.congr (fun _ => id) rfl rfl fun _ => rfl⟩
      · exact .error _
  | allAppend t =>
      simp only [NodeSched.ownCode, Thread.ownCode, building, lists,
        holds.elemFind_eq (layout.seqs_all s) allListTag_injective, ok_bind, decide_eq_true_eq]
      split
      · exact .error _
      · split
        · exact .error _
        next notAll =>
          obtain ⟨word', appended, holds'⟩ := holds.listAppend_all fits notAll s.intrOn
          rw [appended]
          exact .ok ⟨word', rfl, holds'⟩
  | timerTick =>
      simp only [NodeSched.ownCode, Thread.ownCode, lists]
      split
      · exact holds.intrTimerHandler steady
      · exact .error _
  | threadBlock stat => exact holds.threadBlock stat (.inBlock s.intrOn) idleNotWaiting
  | threadUnblock t =>
      have frame : (s.onNodes word).suspended t = s.suspended t := rfl
      have unblocks (notDown : ∀ k oldStatus, s.suspended t ≠ some (.inDown k oldStatus)) :=
        holds.threadUnblock fun k _ waits => by
          obtain ⟨-, oldStatus, inDown⟩ := steady.linked.waiting k t waits
          exact notDown k oldStatus inDown
      simp only [NodeSched.ownCode, Thread.ownCode, frame]
      cases inside : s.suspended t with
      | none => exact unblocks (by simp [inside])
      | some frame' =>
          cases frame' with
          | inDown k oldStatus => exact .error _
          | fresh | inTimer | inBlock _ | inYield _ => exact unblocks (by simp [inside])
  | threadYield =>
      simp only [NodeSched.ownCode, Thread.ownCode, running, idle]
      split
      · exact .error _
      · exact holds.threadYield idleNotWaiting
  | semaDown k =>
      simp only [NodeSched.ownCode, Thread.ownCode, running, idle]
      split
      · exact .error _
      next notIdle =>
        have steady' : Steady (s.setIntr false) :=
          steady.of_same (fun _ => rfl) rfl rfl (fun _ => rfl) rfl rfl rfl
        exact (holds.setIntr false).semaDownLoop steady' notIdle fits s.intrOn
  | semaUp k => exact holds.semaUp steady fits
  | intrSetStatus on => exact .ok ⟨word, rfl, holds.setIntr on⟩
  | resume => exact .error _

theorem HoldsLists.step (holds : HoldsLists layout word s) (settled : Settled layout s)
    (fits : layout.Fits a) :
    Agrees layout.Represents (NodeSched.step layout (s.onNodes word) a) (Thread.step s a) := by
  have frame : (s.onNodes word).suspended (s.onNodes word).runningThread =
      s.suspended s.runningThread := rfl
  rw [NodeSched.step, Thread.step, frame]
  cases own : s.suspended s.runningThread with
  | none => exact holds.ownCode settled.steady fits
  | some _ =>
      simp only
      split
      · exact holds.resume settled.steady fun k oldStatus => settled.downs _ k oldStatus
      · exact .error _

end Runs

section Boot

variable {layout : ListLayout}

theorem foldl_listInit (semas : List SemaId) (inUse : ∀ k ∈ semas, k ∈ layout.semas)
    {lists : ListMemory} {seqs : Lists} (refines : layout.objects.Refines lists.word seqs) :
    (semas.foldl (fun lists k => listInit (layout.waiters k) lists) lists).intrOn = lists.intrOn ∧
      layout.objects.Refines
        (semas.foldl (fun lists k => listInit (layout.waiters k) lists) lists).word
        fun plist => if plist ∈ semas.map layout.waiters then some [] else seqs plist := by
  induction semas generalizing lists seqs with
  | nil => exact ⟨rfl, by simpa using refines⟩
  | cons k rest inductionHypothesis =>
      obtain ⟨first, others⟩ := List.forall_mem_cons.mp inUse
      have isList : layout.objects.isList (layout.waiters k) :=
        List.mem_cons_of_mem _ (List.mem_cons_of_mem _ (List.mem_map_of_mem first))
      obtain ⟨same, refines'⟩ := inductionHypothesis others (refines.init isList).1
      refine ⟨same, ?_⟩
      have lists : (fun plist => if plist ∈ rest.map layout.waiters then some []
            else Function.update seqs (layout.waiters k) (some []) plist) =
          fun plist => if plist ∈ (k :: rest).map layout.waiters then some []
            else seqs plist := by
        funext plist
        by_cases isWaiters : plist = layout.waiters k
        · subst isWaiters
          simp
        · simp [isWaiters]
      exact lists ▸ refines'

theorem listInits (layout : ListLayout) (word : Words) (on : Bool) {s : Sched}
    (ready : s.threadReadyList = []) (all : s.threadAllList = [])
    (waiters : ∀ k, (s.sema k).waiters = []) :
    ∃ word', layout.semas.foldl (fun lists k => listInit (layout.waiters k) lists)
        (listInit layout.threadAllList (listInit layout.threadReadyList ⟨word, on⟩)) =
          ⟨word', on⟩ ∧ layout.objects.Refines word' (layout.seqs s) := by
  have readyInit := ((layout.objects.refines_none word).init (s := ⟨word, on⟩)
    (by exact List.mem_cons_self : layout.objects.isList layout.threadReadyList)).1
  have allInit := (readyInit.init
    (by exact List.mem_cons_of_mem _ List.mem_cons_self :
      layout.objects.isList layout.threadAllList)).1
  obtain ⟨same, refines⟩ := foldl_listInit layout.semas (fun _ => id) allInit
  generalize layout.semas.foldl (fun lists k => listInit (layout.waiters k) lists)
    (listInit layout.threadAllList (listInit layout.threadReadyList ⟨word, on⟩)) = after
    at same refines ⊢
  obtain ⟨word', on'⟩ := after
  obtain rfl : on' = on := same
  refine ⟨word', rfl, ?_⟩
  have lists : layout.seqs s = fun plist =>
      if plist ∈ layout.semas.map layout.waiters then some []
      else Function.update (Function.update (fun _ => none) layout.threadReadyList (some []))
        layout.threadAllList (some []) plist := by
    funext plist
    by_cases isWaiters : plist ∈ layout.semas.map layout.waiters
    · obtain ⟨k, inUse, rfl⟩ := List.mem_map.mp isWaiters
      rw [layout.seqs_waiters s inUse, waiters, if_pos isWaiters]
      rfl
    · have none : layout.semas.find? (layout.waiters · = plist) = none := by
        refine List.find?_eq_none.mpr fun k inUse same => isWaiters ?_
        exact List.mem_map.mpr ⟨k, inUse, by simpa using same⟩
      rw [if_neg isWaiters, ListLayout.seqs, none, ready, all]
      by_cases isAll : plist = layout.threadAllList
      · subst isAll
        rw [if_neg layout.all_ne_ready, if_pos rfl, Function.update_self]
        rfl
      · rw [Function.update_of_ne isAll, if_neg isAll]
        by_cases isReady : plist = layout.threadReadyList
        · subst isReady
          rw [if_pos rfl, Function.update_self]
          rfl
        · rw [if_neg isReady, Function.update_of_ne isReady]
          rfl
  exact lists ▸ refines

variable {mainThread idleThread : Tid}

theorem threadInit_represents (different : mainThread ≠ idleThread)
    (isMain : layout.isPcb mainThread) (isIdle : layout.isPcb idleThread)
    (value : SemaId → Nat) (word : Words) :
    layout.Represents (NodeSched.threadInit layout mainThread idleThread value word)
      (threadInit mainThread idleThread value) := by
  let start : Sched := { threadInit mainThread idleThread value with
    threadReadyList := [], threadAllList := [] }
  obtain ⟨word₀, inits, refines⟩ := listInits layout word false (s := start) rfl rfl fun _ => rfl
  have holds : HoldsLists layout word₀ start := by
    refine ⟨refines, fun t exists' => ?_, fun t member => absurd member List.not_mem_nil,
      fun t member => absurd member List.not_mem_nil,
      fun k t member => absurd member List.not_mem_nil⟩
    by_cases isIdle' : t = idleThread
    · exact isIdle' ▸ isIdle
    · by_cases isMain' : t = mainThread
      · exact isMain' ▸ isMain
      · simp [start, threadInit, Function.update_of_ne isIdle', Function.update_of_ne isMain']
          at exists'
  obtain ⟨word₁, main, holds₁⟩ := holds.listAppend_all isMain List.not_mem_nil false
  obtain ⟨word₂, idle, holds₂⟩ :=
    holds₁.listAppend_ready isIdle List.not_mem_nil (fun _ _ => List.not_mem_nil) false
  obtain ⟨word₃, idle', holds₃⟩ := holds₂.listAppend_all isIdle
    (fun member => different (List.mem_singleton.mp member).symm) false
  refine ⟨word₃, ?_, holds₃⟩
  simp only [NodeSched.threadInit, inits, main, idle, idle']
  rfl

end Boot

/-- What the nodes, and the functions that walk over them, say of a state. -/
structure ShowsLists (layout : ListLayout) (n : NodeSched) (s : Sched) : Prop where
  rest : n = s.onNodes n.lists.word
  ready : Answers n.lists layout.threadReadyList (s.threadReadyList.map generalTag)
  all : Answers n.lists layout.threadAllList (s.threadAllList.map allListTag)
  waiters : ∀ k ∈ layout.semas,
    Answers n.lists (layout.waiters k) ((s.sema k).waiters.map generalTag)

theorem ListLayout.Represents.shows {layout : ListLayout} {n : NodeSched} {s : Sched}
    (represents : layout.Represents n s) : ShowsLists layout n s := by
  obtain ⟨word, rfl, holds⟩ := represents
  have refines : layout.objects.Refines (ListMemory.mk word s.intrOn).word (layout.seqs s) :=
    holds.refines
  exact ⟨rfl, refines.answers (layout.seqs_ready s), refines.answers (layout.seqs_all s),
    fun k inUse => refines.answers (layout.seqs_waiters s inUse)⟩

theorem trace_stepWalking {layout : ListLayout} {n : NodeSched}
    {actions : List (Action × Option Halt)}
    (together : ∀ p ∈ actions, p.2 = none) :
    trace (NodeSched.stepWalking layout) n actions =
      trace (NodeSched.step layout) n (actions.map Prod.fst) := by
  induction actions generalizing n with
  | nil => rfl
  | cons p rest inductionHypothesis =>
      obtain ⟨first, others⟩ := List.forall_mem_cons.mp together
      have same : NodeSched.stepWalking layout n p = NodeSched.step layout n p.1 := by
        rw [NodeSched.stepWalking, first]
      rw [List.map_cons, trace, trace, same]
      cases NodeSched.step layout n p.1 with
      | error reason => rfl
      | ok next => simp only [inductionHypothesis others]

theorem none_astray {layout : ListLayout} {n : NodeSched} {actions : List (Action × Option Halt)}
    {nodes : List NodeSched} (ran : trace (NodeSched.stepWalking layout) n actions = .ok nodes) :
    ∀ p ∈ actions, p.2 = none := by
  induction actions generalizing n nodes with
  | nil => exact fun _ member => absurd member List.not_mem_nil
  | cons p rest inductionHypothesis =>
      obtain ⟨next, tail, stepped, goesOn, -⟩ := trace_cons_eq_ok.mp ran
      refine List.forall_mem_cons.mpr ⟨?_, inductionHypothesis goesOn⟩
      cases own : p.2 with
      | none => rfl
      | some reason =>
          rw [NodeSched.stepWalking, own] at stepped
          cases stepped

/-- In every run the kernel's functions on list nodes reach the states that those of
`Scheduler.lean` reach: walked over in either direction, each list holds the tags of its
sequence.  If no walk of `thread_start` goes astray they also stop where those stop, for the same
reason. -/
theorem scheduler_lists_refine (layout : ListLayout) {mainThread idleThread : Tid}
    (different : mainThread ≠ idleThread) (isMain : layout.isPcb mainThread)
    (isIdle : layout.isPcb idleThread) (value : SemaId → Nat) (word : Words)
    {actions : List (Action × Option Halt)} (fits : ∀ p ∈ actions, layout.Fits p.1) :
    ShowsLists layout (NodeSched.threadInit layout mainThread idleThread value word)
        (threadInit mainThread idleThread value) ∧
      (∀ nodes, trace (NodeSched.stepWalking layout)
          (NodeSched.threadInit layout mainThread idleThread value word) actions = .ok nodes →
        ∃ states, trace step (threadInit mainThread idleThread value) (actions.map Prod.fst) =
          .ok states ∧ List.Forall₂ (ShowsLists layout) nodes states) ∧
      ((∀ p ∈ actions, p.2 = none) → Agrees (List.Forall₂ (ShowsLists layout))
        (trace (NodeSched.stepWalking layout)
          (NodeSched.threadInit layout mainThread idleThread value word) actions)
        (trace step (threadInit mainThread idleThread value) (actions.map Prod.fst))) := by
  have start := threadInit_represents different isMain isIdle value word
  have settled : Settled layout (threadInit mainThread idleThread value) := by
    refine ⟨threadInit_steady different value, fun t k oldStatus frame => ?_⟩
    by_cases isIdle' : t = idleThread
    · simp [threadInit, isIdle'] at frame
    · simp [threadInit, Function.update_of_ne isIdle'] at frame
  have together : Agrees (List.Forall₂ (ShowsLists layout))
      (trace (NodeSched.step layout)
        (NodeSched.threadInit layout mainThread idleThread value word) (actions.map Prod.fst))
      (trace step (threadInit mainThread idleThread value) (actions.map Prod.fst)) := by
    have fits' : ∀ a ∈ actions.map Prod.fst, layout.Fits a := by
      intro a member
      obtain ⟨p, inActions, rfl⟩ := List.mem_map.mp member
      exact fits p inActions
    refine Agrees.imp (fun _ _ all => all.imp fun _ _ related => related.shows)
      (agrees_trace (fun _ _ _ settled fits ran => settled.step fits ran) ?_ settled start fits')
    rintro _ s a settled ⟨word', rfl, holds⟩ fits
    exact holds.step settled fits
  refine ⟨start.shows, fun nodes ran => ?_, fun none => ?_⟩
  · rw [trace_stepWalking (none_astray ran)] at ran
    rw [ran] at together
    generalize trace step (threadInit mainThread idleThread value) (actions.map Prod.fst) = m
      at together
    cases together with
    | ok related => exact ⟨_, rfl, related⟩
  · rw [trace_stepWalking none]
    exact together

def twoThreads : ListLayout where
  threadReadyList := 0xc0008000
  threadAllList := 0xc0008010
  semas := [0]
  waiters := fun k => 0xc0008020 + 16 * k
  isPcb := fun t => t = 0xc009e000 ∨ t = 0xc0100000
  pcbPage := by rintro t (rfl | rfl) <;> decide
  listsApart := by simp [ListsApart]
  pcbsApart := by
    rintro plist isList t (rfl | rfl) <;> simp at isList <;> omega

/-- The main thread sleeps on the semaphore: its tag is the only node among the waiters. -/
theorem scheduler_lists_refine_sleeper : ∃ nodes,
    trace (NodeSched.stepWalking twoThreads)
        (NodeSched.threadInit twoThreads 0xc009e000 0xc0100000 (fun _ => 0) fun _ => 0xffffffff)
        [(.semaDown 0, none), (.resume, none)] = .ok nodes ∧
      ∃ n ∈ nodes, Answers n.lists 0xc0008020 [0xc009e044] ∧ Answers n.lists 0xc0008000 [] := by
  have result : (trace step (threadInit 0xc009e000 0xc0100000 fun _ => 0)
      [.semaDown 0, .resume]).toOption.map
        (fun states => states.map fun s => ((s.sema 0).waiters, s.threadReadyList)) =
      some [([0xc009e000], []), ([0xc009e000], [])] := by
    decide +kernel
  have fits : ∀ p ∈ [(Action.semaDown 0, (none : Option Halt)), (.resume, none)],
      twoThreads.Fits p.1 := by simp [ListLayout.Fits, twoThreads]
  obtain ⟨-, -, stops⟩ := scheduler_lists_refine twoThreads (by decide) (.inl rfl) (.inr rfl)
    (fun _ => 0) (fun _ => 0xffffffff) fits
  have agrees := stops (by simp)
  rw [List.map_cons, List.map_cons, List.map_nil] at agrees
  generalize trace step (threadInit 0xc009e000 0xc0100000 fun _ => 0) [.semaDown 0, .resume] = m
    at agrees result
  generalize trace (NodeSched.stepWalking twoThreads) _ _ = m' at agrees
  cases agrees with
  | error reason => cases result
  | @ok nodes states related =>
      have lists := Option.some.inj result
      cases related with
      | nil => cases lists
      | @cons n s nodes states shows others =>
          obtain ⟨isFirst, -⟩ := List.cons.inj lists
          obtain ⟨waiters, ready⟩ := Prod.mk.inj isFirst
          have atWaiters := shows.waiters 0 (by decide)
          have atReady := shows.ready
          rw [waiters] at atWaiters
          rw [ready] at atReady
          exact ⟨_, rfl, n, List.mem_cons_self, atWaiters, atReady⟩

end HongbaiOS.Thread
