import HongbaiOS.Thread.Effects
import HongbaiOS.Lib.KernelList
import Mathlib.Data.List.Pairwise

/-!
# The scheduler on list nodes

`thread.c` and `sync.c` with their lists as the kernel keeps them.  A PCB is linked through
`general_tag` into `thread_ready_list` or the waiters of a semaphore, and through `all_list_tag`
into `thread_all_list`; `list_pop` returns a node, whose page is the PCB.
-/

namespace HongbaiOS.Thread

open HongbaiOS.Library HongbaiOS.Kernel HongbaiOS.Lib HongbaiOS.Lib.KernelList

/-- `&pthread->general_tag` -/
def generalTag (pthread : Nat) : Nat := pthread + 68

/-- `&pthread->all_list_tag` -/
def allListTag (pthread : Nat) : Nat := pthread + 76

/-- `tag & 0xfffff000` -/
def pageOf (tag : Nat) : Nat := tag / 4096 * 4096

/-- Two lists do not share a byte. -/
def ListsApart (plist other : Nat) : Prop := plist + 16 ≤ other ∨ other + 16 ≤ plist

instance : Std.Symm ListsApart := ⟨fun _ _ => Or.symm⟩

/-- Where the lists lie, and which pages may become PCBs. -/
structure ListLayout where
  threadReadyList : Nat
  threadAllList : Nat
  semas : List SemaId
  /-- `&psema->waiters` -/
  waiters : SemaId → Nat
  isPcb : Tid → Prop
  pcbPage : ∀ t : Nat, isPcb t → t % 4096 = 0 ∧ t + 4096 ≤ 2 ^ 32
  listsApart : (threadReadyList :: threadAllList :: semas.map waiters).Pairwise ListsApart
  pcbsApart : ∀ plist ∈ threadReadyList :: threadAllList :: semas.map waiters,
    ∀ t : Nat, isPcb t → plist + 16 ≤ t ∨ t + 4096 ≤ plist

/-- What `Scheduler.lean` keeps in sequences is in the words of `lists`. -/
structure NodeSched where
  task : Tid → Option TaskStruct
  building : List Tid
  /-- The words of all nodes, and the interrupt flag of the CPU. -/
  lists : ListMemory
  runningThread : Tid
  idleThread : Tid
  value : SemaId → Nat
  suspended : Tid → Option Suspended
  ticks : Nat

namespace NodeSched

def status (n : NodeSched) (t : Tid) : Option ThreadStatus := (n.task t).map (·.status)

def onTask (n : NodeSched) (t : Tid) (f : TaskStruct → TaskStruct) : NodeSched :=
  { n with task := Function.update n.task t ((n.task t).map f) }

def setStatus (n : NodeSched) (t : Tid) (status : ThreadStatus) : NodeSched :=
  n.onTask t fun p => { p with status := status }

def setLists (n : NodeSched) (lists : ListMemory) : NodeSched := { n with lists := lists }

def setIntr (n : NodeSched) (on : Bool) : NodeSched :=
  n.setLists (KernelList.intrSetStatus on n.lists)

def setValue (n : NodeSched) (k : SemaId) (value : Nat) : NodeSched :=
  { n with value := Function.update n.value k value }

def suspend (n : NodeSched) (t : Tid) (frame : Option Suspended) : NodeSched :=
  { n with suspended := Function.update n.suspended t frame }

/-- `elem_find(plist, tag)`; a walk that takes more rounds than there are addresses has left
the list. -/
def elemFind (plist tag : Nat) (n : NodeSched) : Except Halt Bool :=
  match KernelList.elemFind n.lists.word (2 ^ 32) plist tag with
  | some found => .ok found
  | none => .error .outOfBounds

section Functions

variable (layout : ListLayout)

/-- `thread_unblock(pthread)` -/
def threadUnblock (pthread : Tid) (n : NodeSched) : Except Halt NodeSched :=
  match n.task pthread with
  | none => .error .pageFault
  | some p =>
      if p.status.isBlocked then do
        let found ← n.elemFind layout.threadReadyList (generalTag pthread)
        if found then .error (.panic .threadUnblock)
        else
          return (n.setLists (listPush layout.threadReadyList (generalTag pthread)
            n.lists)).setStatus pthread .ready
      else .error (.panic .threadUnblock)

/-- First part of `schedule`. -/
def requeue (n : NodeSched) : Except Halt NodeSched :=
  if n.status n.runningThread = some .running then do
    let found ← n.elemFind layout.threadReadyList (generalTag n.runningThread)
    if found then .error (.panic .schedule)
    else
      return (n.setLists (listAppend layout.threadReadyList (generalTag n.runningThread)
        n.lists)).onTask n.runningThread fun p => { p with status := .ready, ticks := p.priority }
  else .ok n

/-- Second part of `schedule`. -/
def wakeIdle (n : NodeSched) : Except Halt NodeSched :=
  if listEmpty n.lists.word layout.threadReadyList then threadUnblock layout n.idleThread n
  else .ok n

/-- Last part of `schedule`. -/
def dispatch (n : NodeSched) : Except Halt NodeSched := do
  let (threadTag, lists) ← listPop layout.threadReadyList n.lists
  let next := pageOf threadTag
  return { (n.setLists lists).setStatus next .running with runningThread := next }

/-- `schedule()`; the thread that gives the CPU away will go on from `frame`. -/
def schedule (frame : Suspended) (n : NodeSched) : Except Halt NodeSched :=
  if n.lists.intrOn then .error (.panic .schedule)
  else do
    let n ← requeue layout (n.suspend n.runningThread (some frame))
    let n ← wakeIdle layout n
    dispatch layout n

/-- `thread_block(stat)` -/
def threadBlock (stat : ThreadStatus) (frame : Suspended) (n : NodeSched) :
    Except Halt NodeSched :=
  if stat.isBlocked then
    schedule layout frame ((n.setIntr false).setStatus n.runningThread stat)
  else .error (.panic .threadBlock)

/-- `thread_yield()` -/
def threadYield (n : NodeSched) : Except Halt NodeSched := do
  let found ← n.elemFind layout.threadReadyList (generalTag n.runningThread)
  if found then .error (.panic .threadYield)
  else
    schedule layout (.inYield n.lists.intrOn)
      ((n.setIntr false).setStatus n.runningThread .ready)

/-- One round of the loop of `sema_down` and what follows it. -/
def semaDownLoop (k : SemaId) (oldStatus : Bool) (n : NodeSched) : Except Halt NodeSched :=
  if n.value k = 0 then do
    let found ← n.elemFind (layout.waiters k) (generalTag n.runningThread)
    if found then .error (.panic .semaDown)
    else
      threadBlock layout .blocked (.inDown k oldStatus)
        (n.setLists (listAppend (layout.waiters k) (generalTag n.runningThread) n.lists))
  else if n.value k - 1 = 0 then .ok ((n.setValue k (n.value k - 1)).setIntr oldStatus)
  else .error (.panic .semaDown)

/-- `sema_down(psema)` -/
def semaDown (k : SemaId) (n : NodeSched) : Except Halt NodeSched :=
  semaDownLoop layout k n.lists.intrOn (n.setIntr false)

/-- `sema_up(psema)` -/
def semaUp (k : SemaId) (n : NodeSched) : Except Halt NodeSched :=
  if n.value k = 0 then do
    let woken ←
      if listEmpty n.lists.word (layout.waiters k) then pure n
      else do
        let (tag, lists) ← listPop (layout.waiters k) n.lists
        threadUnblock layout (pageOf tag) (n.setLists lists)
    return woken.setValue k (woken.value k + 1)
  else .error (.panic .semaUp)

/-- `intr_timer_handler()` -/
def intrTimerHandler (n : NodeSched) : Except Halt NodeSched :=
  match n.task n.runningThread with
  | none => .error .pageFault
  | some p =>
      if p.stackMagic = 0x20250325 then
        let ticked := { n with ticks := (n.ticks + 1) % 2 ^ 32 }.onTask n.runningThread
          fun p => { p with elapsedTicks := (p.elapsedTicks + 1) % 2 ^ 32 }
        if p.ticks = 0 then schedule layout .inTimer (ticked.setIntr false)
        else .ok (ticked.onTask n.runningThread fun p => { p with ticks := p.ticks - 1 })
      else .error (.panic .intrTimerHandler)

/-- The running thread goes on where it was switched away from. -/
def resume (n : NodeSched) : Except Halt NodeSched :=
  let own := n.suspend n.runningThread none
  match n.suspended n.runningThread with
  | none => .error .disabled
  | some .fresh => .ok (own.setIntr true)
  | some .inTimer => .ok (own.setIntr true)
  | some (.inBlock oldStatus) => .ok (own.setIntr oldStatus)
  | some (.inYield oldStatus) => .ok (own.setIntr oldStatus)
  | some (.inDown k oldStatus) => semaDownLoop layout k oldStatus own

/-- The thread runs its own code. -/
def ownCode (n : NodeSched) (a : Action) : Except Halt NodeSched :=
  match a with
  | .initThread t prio =>
      if n.task t = none then
        .ok { n with
          task := Function.update n.task t (some (initThread prio))
          suspended := Function.update n.suspended t (some .fresh)
          building := t :: n.building }
      else .error .disabled
  | .readyAppend t =>
      if t ∈ n.building then do
        let found ← n.elemFind layout.threadReadyList (generalTag t)
        if found then .error (.panic .threadStart)
        else
          return { n with
            building := n.building.erase t
            lists := listAppend layout.threadReadyList (generalTag t) n.lists }
      else .error .disabled
  | .allAppend t =>
      if t ∈ n.building then .error .disabled
      else do
        let found ← n.elemFind layout.threadAllList (allListTag t)
        if found then .error (.panic .threadStart)
        else return n.setLists (listAppend layout.threadAllList (allListTag t) n.lists)
  | .timerTick => if n.lists.intrOn then intrTimerHandler layout n else .error .disabled
  | .threadBlock stat => threadBlock layout stat (.inBlock n.lists.intrOn) n
  | .threadUnblock t =>
      match n.suspended t with
      | some (.inDown _ _) => .error .disabled
      | _ => threadUnblock layout t n
  | .threadYield =>
      if n.runningThread = n.idleThread then .error .disabled else threadYield layout n
  | .semaDown k =>
      if n.runningThread = n.idleThread then .error .disabled else semaDown layout k n
  | .semaUp k => semaUp layout k n
  | .intrSetStatus on => .ok (n.setIntr on)
  | .resume => .error .disabled

def step (n : NodeSched) (a : Action) : Except Halt NodeSched :=
  match n.suspended n.runningThread with
  | none => ownCode layout n a
  | some _ => if a = .resume then resume layout n else .error .disabled

/-- The walks of `thread_start` over the lists, which do not switch interrupts off. -/
def walks : Action → Bool
  | .readyAppend _ => true
  | .allAppend _ => true
  | _ => false

/-- One step in which a walk may go astray: with interrupts on another thread may move the node
that the walk has come to into the waiters of a semaphore, and the walk goes on there, to a
failing assertion, to an address that is not mapped or without an end.  A walk that gets through
has not found the tag, which is in no list then. -/
def stepWalking (n : NodeSched) (p : Action × Option Halt) : Except Halt NodeSched :=
  match p.2 with
  | none => step layout n p.1
  | some reason => .error (if n.lists.intrOn && walks p.1 then reason else .disabled)

/-- `thread_init()` and the `sema_init` of the semaphores, on memory with any words. -/
def threadInit (mainThread idleThread : Tid) (value : SemaId → Nat) (word : Words) :
    NodeSched where
  task := Function.update
    (Function.update (fun _ => none) mainThread
      (some { initThread 31 with status := .running }))
    idleThread (some (initThread 10))
  building := []
  lists :=
    let lists := listInit layout.threadAllList (listInit layout.threadReadyList ⟨word, false⟩)
    let lists := layout.semas.foldl (fun lists k => listInit (layout.waiters k) lists) lists
    let lists := listAppend layout.threadAllList (allListTag mainThread) lists
    let lists := listAppend layout.threadReadyList (generalTag idleThread) lists
    listAppend layout.threadAllList (allListTag idleThread) lists
  runningThread := mainThread
  idleThread := idleThread
  value := value
  suspended := Function.update (fun _ => none) idleThread (some .fresh)
  ticks := 0

end Functions

end NodeSched

namespace ListLayout

def plists (layout : ListLayout) : List Nat :=
  layout.threadReadyList :: layout.threadAllList :: layout.semas.map layout.waiters

/-- The nodes are the tags of PCBs. -/
def IsTag (layout : ListLayout) (elem : Nat) : Prop :=
  ∃ t, layout.isPcb t ∧ (elem = generalTag t ∨ elem = allListTag t)

theorem IsTag.apart {layout : ListLayout} {elem other : Nat} (isElem : layout.IsTag elem)
    (isOther : layout.IsTag other) (different : elem ≠ other) : NodesApart elem other := by
  obtain ⟨t, isPcb, isTag⟩ := isElem
  obtain ⟨u, isPcb', isTag'⟩ := isOther
  have page := layout.pcbPage t isPcb
  have page' := layout.pcbPage u isPcb'
  simp only [generalTag, allListTag, NodesApart] at *
  omega

theorem IsTag.apart_list {layout : ListLayout} {plist elem : Nat} (isList : plist ∈ layout.plists)
    (isElem : layout.IsTag elem) : plist + 16 ≤ elem ∨ elem + 8 ≤ plist := by
  obtain ⟨t, isPcb, isTag⟩ := isElem
  have apart := layout.pcbsApart plist isList t isPcb
  simp only [generalTag, allListTag] at isTag
  omega

theorem IsTag.inSpace {layout : ListLayout} {elem : Nat} (isElem : layout.IsTag elem) :
    elem + 8 ≤ 2 ^ 32 := by
  obtain ⟨t, isPcb, isTag⟩ := isElem
  have page := layout.pcbPage t isPcb
  simp only [generalTag, allListTag] at isTag
  omega

theorem lists_apart {layout : ListLayout} {plist other : Nat} (isList : plist ∈ layout.plists)
    (isOther : other ∈ layout.plists) (different : plist ≠ other) : ListsApart plist other :=
  layout.listsApart.forall isList isOther different

/-- The lists and nodes of the scheduler. -/
def objects (layout : ListLayout) : Objects where
  isList plist := plist ∈ layout.plists
  isElem := layout.IsTag
  lists _ _ isList isOther different := lists_apart isList isOther different
  elems _ _ isElem isOther different := isElem.apart isOther different
  apart _ _ isList isElem := isElem.apart_list isList
  inSpace _ isElem := isElem.inSpace

/-- The sequences of `Scheduler.lean` as nodes. -/
def seqs (layout : ListLayout) (s : Sched) : Lists := fun plist =>
  if plist = layout.threadReadyList then some (s.threadReadyList.map generalTag)
  else if plist = layout.threadAllList then some (s.threadAllList.map allListTag)
  else (layout.semas.find? (layout.waiters · = plist)).map fun k =>
    (s.sema k).waiters.map generalTag

end ListLayout

/-- The lists are in the words, and only PCBs are in the lists. -/
structure HoldsLists (layout : ListLayout) (word : Words) (s : Sched) : Prop where
  refines : layout.objects.Refines word (layout.seqs s)
  tasks : ∀ t, s.task t ≠ none → layout.isPcb t
  ready : ∀ t ∈ s.threadReadyList, layout.isPcb t
  all : ∀ t ∈ s.threadAllList, layout.isPcb t
  waiting : ∀ k, ∀ t ∈ (s.sema k).waiters, layout.isPcb t

/-- A state with its lists in the words of a memory. -/
def Sched.onNodes (s : Sched) (word : Words) : NodeSched where
  task := s.task
  building := s.building
  lists := ⟨word, s.intrOn⟩
  runningThread := s.runningThread
  idleThread := s.idleThread
  value := fun k => (s.sema k).value
  suspended := s.suspended
  ticks := s.ticks

def ListLayout.Represents (layout : ListLayout) (n : NodeSched) (s : Sched) : Prop :=
  ∃ word, n = s.onNodes word ∧ HoldsLists layout word s

section Sequences

variable {layout : ListLayout} {s : Sched} {word : Words} {t : Tid} {k : SemaId}

theorem generalTag_injective : Function.Injective generalTag := fun _ _ => Nat.add_right_cancel

theorem allListTag_injective : Function.Injective allListTag := fun _ _ => Nat.add_right_cancel

theorem pageOf_generalTag (isPcb : layout.isPcb t) : pageOf (generalTag t) = t := by
  have page := layout.pcbPage t isPcb
  simp only [pageOf, generalTag]
  omega

theorem generalTag_ne_allListTag {u : Tid} (isPcb : layout.isPcb t) (isPcb' : layout.isPcb u) :
    generalTag t ≠ allListTag u := by
  have page := layout.pcbPage t isPcb
  have page' := layout.pcbPage u isPcb'
  simp only [generalTag, allListTag]
  omega

namespace ListLayout

theorem all_ne_ready (layout : ListLayout) : layout.threadAllList ≠ layout.threadReadyList := by
  have apart := (List.pairwise_cons.mp layout.listsApart).1 layout.threadAllList (by simp)
  unfold ListsApart at apart
  omega

theorem waiters_ne (inUse : k ∈ layout.semas) :
    layout.waiters k ≠ layout.threadReadyList ∧ layout.waiters k ≠ layout.threadAllList := by
  obtain ⟨ready, others⟩ := List.pairwise_cons.mp layout.listsApart
  obtain ⟨all, -⟩ := List.pairwise_cons.mp others
  have isWaiters : layout.waiters k ∈ layout.semas.map layout.waiters := List.mem_map_of_mem inUse
  have fromReady := ready _ (List.mem_cons_of_mem _ isWaiters)
  have fromAll := all _ isWaiters
  unfold ListsApart at fromReady fromAll
  omega

theorem waiters_injective {j : SemaId} (inUse : j ∈ layout.semas) (inUse' : k ∈ layout.semas)
    (same : layout.waiters j = layout.waiters k) : j = k := by
  obtain ⟨-, others⟩ := List.pairwise_cons.mp layout.listsApart
  obtain ⟨-, apart⟩ := List.pairwise_cons.mp others
  have nodup : (layout.semas.map layout.waiters).Nodup := apart.imp fun apart => by
    unfold ListsApart at apart
    omega
  exact List.inj_on_of_nodup_map nodup inUse inUse' same

theorem find_waiters (inUse : k ∈ layout.semas) :
    layout.semas.find? (layout.waiters · = layout.waiters k) = some k := by
  cases found : layout.semas.find? (layout.waiters · = layout.waiters k) with
  | none => simpa using List.find?_eq_none.mp found k inUse
  | some j =>
      have same : layout.waiters j = layout.waiters k := by simpa using List.find?_some found
      rw [layout.waiters_injective (List.mem_of_find?_eq_some found) inUse same]

theorem seqs_ready (layout : ListLayout) (s : Sched) :
    layout.seqs s layout.threadReadyList = some (s.threadReadyList.map generalTag) := if_pos rfl

theorem seqs_all (layout : ListLayout) (s : Sched) :
    layout.seqs s layout.threadAllList = some (s.threadAllList.map allListTag) := by
  rw [seqs, if_neg layout.all_ne_ready, if_pos rfl]

theorem seqs_waiters (s : Sched) (inUse : k ∈ layout.semas) :
    layout.seqs s (layout.waiters k) = some ((s.sema k).waiters.map generalTag) := by
  obtain ⟨notReady, notAll⟩ := layout.waiters_ne inUse
  rw [seqs, if_neg notReady, if_neg notAll, layout.find_waiters inUse]
  rfl

theorem update_ready (layout : ListLayout) (s : Sched) (list : List Tid) :
    Function.update (layout.seqs s) layout.threadReadyList (some (list.map generalTag)) =
      layout.seqs (s.setReadyList list) := by
  funext plist
  by_cases isReady : plist = layout.threadReadyList
  · subst isReady
    rw [Function.update_self, seqs_ready]
    rfl
  · rw [Function.update_of_ne isReady, seqs, seqs, if_neg isReady, if_neg isReady]
    rfl

theorem update_all (layout : ListLayout) (s : Sched) (list : List Tid) :
    Function.update (layout.seqs s) layout.threadAllList (some (list.map allListTag)) =
      layout.seqs { s with threadAllList := list } := by
  funext plist
  by_cases isAll : plist = layout.threadAllList
  · subst isAll
    rw [Function.update_self, seqs_all]
  · rw [Function.update_of_ne isAll, seqs, seqs, if_neg isAll, if_neg isAll]

theorem update_waiters (s : Sched) (inUse : k ∈ layout.semas) (value : Nat) (list : List Tid) :
    Function.update (layout.seqs s) (layout.waiters k) (some (list.map generalTag)) =
      layout.seqs (s.setSema k ⟨value, list⟩) := by
  funext plist
  by_cases isWaiters : plist = layout.waiters k
  · subst isWaiters
    rw [Function.update_self, seqs_waiters _ inUse]
    simp
  · rw [Function.update_of_ne isWaiters, seqs, seqs]
    have other : (layout.semas.find? (layout.waiters · = plist)).map
          (fun j => (s.sema j).waiters.map generalTag) =
        (layout.semas.find? (layout.waiters · = plist)).map
          fun j => ((s.setSema k ⟨value, list⟩).sema j).waiters.map generalTag := by
      cases found : layout.semas.find? (layout.waiters · = plist) with
      | none => rfl
      | some j =>
          have isList : layout.waiters j = plist := by simpa using List.find?_some found
          have different : j ≠ k := by
            rintro rfl
            exact isWaiters isList.symm
          simp [Function.update_of_ne different]
    rw [other]
    rfl

theorem seqs_cases {plist : Nat} {seq : List Nat} (isSeq : layout.seqs s plist = some seq) :
    seq = s.threadReadyList.map generalTag ∨ seq = s.threadAllList.map allListTag ∨
      ∃ k ∈ layout.semas, seq = (s.sema k).waiters.map generalTag := by
  unfold seqs at isSeq
  split at isSeq
  next => exact .inl (Option.some.inj isSeq).symm
  next =>
    split at isSeq
    next => exact .inr (.inl (Option.some.inj isSeq).symm)
    next =>
      obtain ⟨k, found, isWaiters⟩ := Option.map_eq_some_iff.mp isSeq
      exact .inr (.inr ⟨k, List.mem_of_find?_eq_some found, isWaiters.symm⟩)

end ListLayout

namespace HoldsLists

/-- Nothing but the lists and the PCBs matters. -/
theorem congr {s' : Sched} (holds : HoldsLists layout word s)
    (tasks : ∀ t, s'.task t ≠ none → s.task t ≠ none)
    (ready : s'.threadReadyList = s.threadReadyList) (all : s'.threadAllList = s.threadAllList)
    (waiters : ∀ k, (s'.sema k).waiters = (s.sema k).waiters) : HoldsLists layout word s' := by
  have same : layout.seqs s' = layout.seqs s := by
    funext plist
    simp only [ListLayout.seqs, ready, all, waiters]
  refine ⟨same ▸ holds.refines, fun t exists' => holds.tasks t (tasks t exists'), ?_, ?_, ?_⟩
  · rw [ready]
    exact holds.ready
  · rw [all]
    exact holds.all
  · intro k
    rw [waiters]
    exact holds.waiting k

theorem onTask (holds : HoldsLists layout word s) (t : Tid) (f : TaskStruct → TaskStruct) :
    HoldsLists layout word (s.onTask t f) := by
  refine holds.congr (fun u exists' => ?_) rfl rfl fun _ => rfl
  by_cases same : u = t
  · subst same
    simpa [Sched.onTask] using exists'
  · simpa [Sched.onTask, Function.update_of_ne same] using exists'

theorem general_free (holds : HoldsLists layout word s) (isPcb : layout.isPcb t)
    (notReady : t ∉ s.threadReadyList) (notWaiting : ∀ k ∈ layout.semas, t ∉ (s.sema k).waiters) :
    (layout.seqs s).Free (generalTag t) := by
  intro plist seq isSeq member
  rcases layout.seqs_cases isSeq with rfl | rfl | ⟨k, inUse, rfl⟩
  · exact notReady ((List.mem_map_of_injective generalTag_injective).mp member)
  · obtain ⟨u, inAll, same⟩ := List.mem_map.mp member
    exact generalTag_ne_allListTag isPcb (holds.all u inAll) same.symm
  · exact notWaiting k inUse ((List.mem_map_of_injective generalTag_injective).mp member)

theorem allList_free (holds : HoldsLists layout word s) (isPcb : layout.isPcb t)
    (notAll : t ∉ s.threadAllList) : (layout.seqs s).Free (allListTag t) := by
  intro plist seq isSeq member
  rcases layout.seqs_cases isSeq with rfl | rfl | ⟨k, inUse, rfl⟩
  · obtain ⟨u, inReady, same⟩ := List.mem_map.mp member
    exact generalTag_ne_allListTag (holds.ready u inReady) isPcb same
  · exact notAll ((List.mem_map_of_injective allListTag_injective).mp member)
  · obtain ⟨u, waits, same⟩ := List.mem_map.mp member
    exact generalTag_ne_allListTag (holds.waiting k u waits) isPcb same

end HoldsLists

end Sequences

section Calls

variable {layout : ListLayout} {s : Sched} {word : Words} {t : Tid} {k : SemaId}

namespace HoldsLists

theorem call (holds : HoldsLists layout word s) {op : ListOp} {plist : Nat} {seq : List Nat}
    (effect : layout.objects.Effect (layout.seqs s) op plist seq) (on : Bool) :
    ∃ word', listStep ⟨word, on⟩ op = .ok ⟨word', on⟩ ∧
      layout.objects.Refines word' (Function.update (layout.seqs s) plist (some seq)) := by
  have refines : layout.objects.Refines (ListMemory.mk word on).word (layout.seqs s) :=
    holds.refines
  obtain ⟨⟨word', on'⟩, stepped, same, refines', -⟩ := refines.step effect
  obtain rfl : on' = on := same
  exact ⟨word', stepped, refines'⟩

theorem listPush_ready (holds : HoldsLists layout word s) (isPcb : layout.isPcb t)
    (notReady : t ∉ s.threadReadyList) (notWaiting : ∀ k ∈ layout.semas, t ∉ (s.sema k).waiters)
    (on : Bool) :
    ∃ word', listPush layout.threadReadyList (generalTag t) ⟨word, on⟩ = ⟨word', on⟩ ∧
      HoldsLists layout word' (s.setReadyList (t :: s.threadReadyList)) := by
  obtain ⟨word', stepped, refines⟩ := holds.call (.push (layout.seqs_ready s)
    ⟨t, isPcb, .inl rfl⟩ (holds.general_free isPcb notReady notWaiting)) on
  rw [← List.map_cons, layout.update_ready] at refines
  exact ⟨word', Except.ok.inj stepped, refines, holds.tasks,
    List.forall_mem_cons.mpr ⟨isPcb, holds.ready⟩, holds.all, holds.waiting⟩

theorem listAppend_ready (holds : HoldsLists layout word s) (isPcb : layout.isPcb t)
    (notReady : t ∉ s.threadReadyList) (notWaiting : ∀ k ∈ layout.semas, t ∉ (s.sema k).waiters)
    (on : Bool) :
    ∃ word', listAppend layout.threadReadyList (generalTag t) ⟨word, on⟩ = ⟨word', on⟩ ∧
      HoldsLists layout word' (s.setReadyList (s.threadReadyList ++ [t])) := by
  obtain ⟨word', stepped, refines⟩ := holds.call (.append (layout.seqs_ready s)
    ⟨t, isPcb, .inl rfl⟩ (holds.general_free isPcb notReady notWaiting)) on
  have snoc : s.threadReadyList.map generalTag ++ [generalTag t] =
      (s.threadReadyList ++ [t]).map generalTag := by simp
  rw [snoc, layout.update_ready] at refines
  refine ⟨word', Except.ok.inj stepped, refines, holds.tasks, fun u member => ?_, holds.all,
    holds.waiting⟩
  rcases List.mem_append.mp member with inReady | isLast
  · exact holds.ready u inReady
  · exact List.mem_singleton.mp isLast ▸ isPcb

theorem listAppend_all (holds : HoldsLists layout word s) (isPcb : layout.isPcb t)
    (notAll : t ∉ s.threadAllList) (on : Bool) :
    ∃ word', listAppend layout.threadAllList (allListTag t) ⟨word, on⟩ = ⟨word', on⟩ ∧
      HoldsLists layout word' { s with threadAllList := s.threadAllList ++ [t] } := by
  obtain ⟨word', stepped, refines⟩ := holds.call (.append (layout.seqs_all s)
    ⟨t, isPcb, .inr rfl⟩ (holds.allList_free isPcb notAll)) on
  have snoc : s.threadAllList.map allListTag ++ [allListTag t] =
      (s.threadAllList ++ [t]).map allListTag := by simp
  rw [snoc, layout.update_all] at refines
  refine ⟨word', Except.ok.inj stepped, refines, holds.tasks, holds.ready, fun u member => ?_,
    holds.waiting⟩
  rcases List.mem_append.mp member with inAll | isLast
  · exact holds.all u inAll
  · exact List.mem_singleton.mp isLast ▸ isPcb

theorem listAppend_waiters (holds : HoldsLists layout word s) (inUse : k ∈ layout.semas)
    (isPcb : layout.isPcb t) (notReady : t ∉ s.threadReadyList)
    (notWaiting : ∀ j ∈ layout.semas, t ∉ (s.sema j).waiters) (value : Nat) (on : Bool) :
    ∃ word', listAppend (layout.waiters k) (generalTag t) ⟨word, on⟩ = ⟨word', on⟩ ∧
      HoldsLists layout word' (s.setSema k ⟨value, (s.sema k).waiters ++ [t]⟩) := by
  obtain ⟨word', stepped, refines⟩ := holds.call (.append (layout.seqs_waiters s inUse)
    ⟨t, isPcb, .inl rfl⟩ (holds.general_free isPcb notReady notWaiting)) on
  have snoc : (s.sema k).waiters.map generalTag ++ [generalTag t] =
      ((s.sema k).waiters ++ [t]).map generalTag := by simp
  rw [snoc, layout.update_waiters s inUse value] at refines
  refine ⟨word', Except.ok.inj stepped, refines, holds.tasks, holds.ready, holds.all,
    fun j u member => ?_⟩
  by_cases same : j = k
  · subst same
    rw [Sched.setSema_sema, Function.update_self] at member
    rcases List.mem_append.mp member with waits | isLast
    · exact holds.waiting j u waits
    · exact List.mem_singleton.mp isLast ▸ isPcb
  · rw [Sched.setSema_sema, Function.update_of_ne same] at member
    exact holds.waiting j u member

theorem listPop_ready (holds : HoldsLists layout word s) {rest : List Tid}
    (isReady : s.threadReadyList = t :: rest) (on : Bool) :
    ∃ word', listPop layout.threadReadyList ⟨word, on⟩ = .ok (generalTag t, ⟨word', on⟩) ∧
      HoldsLists layout word' (s.setReadyList rest) := by
  have isSeq := layout.seqs_ready s
  rw [isReady, List.map_cons] at isSeq
  have refines : layout.objects.Refines (ListMemory.mk word on).word (layout.seqs s) :=
    holds.refines
  have popped := refines.listPop_eq isSeq
  obtain ⟨word', stepped, refines'⟩ := holds.call (.pop isSeq) on
  rw [listStep, popped] at stepped
  have after : listRemove (generalTag t) ⟨word, on⟩ = ⟨word', on⟩ := Except.ok.inj stepped
  rw [layout.update_ready] at refines'
  rw [after] at popped
  have ready := holds.ready
  rw [isReady] at ready
  exact ⟨word', popped, refines', holds.tasks, (List.forall_mem_cons.mp ready).2, holds.all,
    holds.waiting⟩

theorem listPop_waiters (holds : HoldsLists layout word s) (inUse : k ∈ layout.semas)
    {rest : List Tid} (waits : (s.sema k).waiters = t :: rest) (value : Nat) (on : Bool) :
    ∃ word', listPop (layout.waiters k) ⟨word, on⟩ = .ok (generalTag t, ⟨word', on⟩) ∧
      HoldsLists layout word' (s.setSema k ⟨value, rest⟩) := by
  have isSeq := layout.seqs_waiters s inUse
  rw [waits, List.map_cons] at isSeq
  have refines : layout.objects.Refines (ListMemory.mk word on).word (layout.seqs s) :=
    holds.refines
  have popped := refines.listPop_eq isSeq
  obtain ⟨word', stepped, refines'⟩ := holds.call (.pop isSeq) on
  rw [listStep, popped] at stepped
  have after : listRemove (generalTag t) ⟨word, on⟩ = ⟨word', on⟩ := Except.ok.inj stepped
  rw [layout.update_waiters s inUse value] at refines'
  rw [after] at popped
  refine ⟨word', popped, refines', holds.tasks, holds.ready, holds.all, fun j u member => ?_⟩
  by_cases same : j = k
  · subst same
    rw [Sched.setSema_sema, Function.update_self] at member
    exact holds.waiting j u (waits ▸ List.mem_cons_of_mem t member)
  · rw [Sched.setSema_sema, Function.update_of_ne same] at member
    exact holds.waiting j u member

theorem elemFind_eq (holds : HoldsLists layout word s) {plist : Nat} {list : List Tid}
    {tagOf : Nat → Nat} (isSeq : layout.seqs s plist = some (list.map tagOf))
    (injective : Function.Injective tagOf) (t : Tid) :
    (s.onNodes word).elemFind plist (tagOf t) = .ok (decide (t ∈ list)) := by
  have refines : layout.objects.Refines (ListMemory.mk word s.intrOn).word (layout.seqs s) :=
    holds.refines
  have short := layout.objects.length_lt (refines.isElem plist _ isSeq)
    (refines.nodup plist _ isSeq)
  have found := (refines.answers isSeq).find (tagOf t) (2 ^ 32) short
  rw [NodeSched.elemFind, Sched.onNodes, found]
  simp only [List.mem_map_of_injective injective]

theorem elemFind_ready (holds : HoldsLists layout word s) (t : Tid) :
    (s.onNodes word).elemFind layout.threadReadyList (generalTag t) =
      .ok (decide (t ∈ s.threadReadyList)) :=
  holds.elemFind_eq (layout.seqs_ready s) generalTag_injective t

end HoldsLists

end Calls

end HongbaiOS.Thread
