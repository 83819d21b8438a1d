import HongbaiOS.Kernel.Entry
import HongbaiOS.Memory.Frames
import HongbaiOS.Userprog.StartProcess
import Mathlib.Data.List.Basic
import Mathlib.Logic.Relation

/-!
# The switch between kernel stacks

`switch_to` of `switch.S` and the stack `thread_create` fills, over the registers and the
memory of words that the entry stubs use.  The threads share them: what a thread finds when
it is switched to again depends on what all others have done to its page since, and others do
write there: the status and the tags of a PCB change while its thread waits.
-/

namespace HongbaiOS.Thread

open HongbaiOS.Kernel HongbaiOS.Library HongbaiOS.Userprog

/-- A call with the arguments `cur` and `next`. -/
def callSwitchTo (cur next returnAddress : Word) (m : Machine) : Machine :=
  ((m.push next).push cur).push returnAddress

/-- The first half of `switch_to`: the context of `cur` goes to its stack. -/
def backupContext (m : Machine) : Machine :=
  let m := m.push m.regs.esi
  let m := m.push m.regs.edi
  let m := m.push m.regs.ebx
  let m := m.push m.regs.ebp
  let m := { m with regs.eax := m.slot 5 }
  { m with memory := Function.update m.memory m.regs.eax m.regs.esp }

/-- The second half, with its `ret`: that of `next` is taken from there. -/
def restoreContext (m : Machine) : Machine :=
  let m := { m with regs.eax := m.slot 6 }
  let m := { m with regs.esp := m.memory m.regs.eax }
  let m := { m with regs.ebp := m.slot 0, regs.esp := wordAddress m.regs.esp 1 }
  let m := { m with regs.ebx := m.slot 0, regs.esp := wordAddress m.regs.esp 1 }
  let m := { m with regs.edi := m.slot 0, regs.esp := wordAddress m.regs.esp 1 }
  let m := { m with regs.esi := m.slot 0, regs.esp := wordAddress m.regs.esp 1 }
  { m with regs.eip := m.slot 0, regs.esp := wordAddress m.regs.esp 1 }

def switchTo (m : Machine) : Machine := restoreContext (backupContext m)

/-- `running_thread()`; the word below is the return address of its call. -/
def runningThread (m : Machine) : Word := (m.regs.esp - 4) &&& 0xfffff000

/-- The end of `init_thread(pthread, ..)` that sets `self_kstack`, and
`thread_create(pthread, function, func_arg)`. -/
def threadCreate (kernelThread pthread function funcArg : Word) (m : Machine) : Machine :=
  let memory := Function.update m.memory pthread (pthread + BitVec.ofNat 32 pgSize)
  let memory := Function.update memory pthread
    (memory pthread - BitVec.ofNat 32 (4 * intrStackSize))
  let memory := Function.update memory pthread
    (memory pthread - BitVec.ofNat 32 (4 * threadStackSize))
  let kthreadStack := memory pthread
  let memory := Function.update memory (wordAddress kthreadStack 4) kernelThread
  let memory := Function.update memory (wordAddress kthreadStack 6) function
  let memory := Function.update memory (wordAddress kthreadStack 7) funcArg
  let memory := Function.update memory (wordAddress kthreadStack 2) 0
  let memory := Function.update memory (wordAddress kthreadStack 3) 0
  let memory := Function.update memory (wordAddress kthreadStack 1) 0
  let memory := Function.update memory (wordAddress kthreadStack 0) 0
  { m with memory := memory }

/-- The machine with the thread that runs on it and the PCB pages of all threads. -/
structure System where
  machine : Machine
  running : Word
  threads : List Word

/-- What the processor keeps of a thread between two calls of `switch_to`. -/
structure Context where
  ebp : Word
  ebx : Word
  edi : Word
  esi : Word
  esp : Word
  eip : Word
  deriving DecidableEq

def context (m : Machine) : Context where
  ebp := m.regs.ebp
  ebx := m.regs.ebx
  edi := m.regs.edi
  esi := m.regs.esi
  esp := m.regs.esp
  eip := m.regs.eip

/-- The words of a `struct task_struct`, `stack_magic` the last.  The stack grows down to it. -/
def taskStructWords : Nat := 68

/-- The words of a page that a thread needs to come back: `self_kstack` and the stack. -/
def OwnWord (index : Nat) : Prop := index < 1024 ∧ (index = 0 ∨ taskStructWords ≤ index)

instance (index : Nat) : Decidable (OwnWord index) := inferInstanceAs (Decidable (_ ∧ _))

/-- The words that a thread needs are the same; the other members of its PCB may differ. -/
def SameThread (page : Word) (memory memory' : Word → Word) : Prop :=
  ∀ index, OwnWord index → memory' (wordAddress page index) = memory (wordAddress page index)

/-- `esp` lies on the stack of `page`, with more than `room` words left below it. -/
def OnPage (page esp : Word) (room : Nat) : Prop :=
  ∃ index, taskStructWords + room < index ∧ index ≤ 1024 ∧ esp = wordAddress page index

/-- `switch_to(running_thread(), next)` in the code of the running thread. -/
def System.switch (s : System) (next returnAddress : Word) : System :=
  { s with
    machine := switchTo (callSwitchTo (runningThread s.machine) next returnAddress s.machine)
    running := next }

structure Switches (s : System) (next returnAddress : Word) (s' : System) : Prop where
  known : next ∈ s.threads
  room : OnPage s.running s.machine.regs.esp 7
  result : s' = s.switch next returnAddress

inductive Step (kernelThread : Word) : System → System → Prop where
  /-- The code of the running thread, with the interrupts on top of it: it keeps to its own
  stack, and of the PCB pages of others it writes to members behind `self_kstack` only, such as
  the status, the ticks and the tags. -/
  | code {s : System} {machine : Machine}
      (onStack : OnPage s.running machine.regs.esp 0)
      (others : ∀ u ∈ s.threads, u ≠ s.running →
        SameThread u s.machine.memory machine.memory) :
      Step kernelThread s { s with machine := machine }
  /-- `init_thread` and `thread_create` on a page of its own. -/
  | create {s : System} {pthread : Word} (function funcArg : Word)
      (isPage : pthread.toNat % 4096 = 0) (new : pthread ∉ s.threads) :
      Step kernelThread s { s with
        machine := threadCreate kernelThread pthread function funcArg s.machine
        threads := pthread :: s.threads }
  | switch {s s' : System} {next returnAddress : Word}
      (switches : Switches s next returnAddress s') : Step kernelThread s s'

/-- The first state from `s` on in which `thread` runs. -/
inductive Comeback (kernelThread thread : Word) : System → System → Prop where
  | runs {s : System} (running : s.running = thread) : Comeback kernelThread thread s s
  | later {s s' s'' : System} (other : s.running ≠ thread) (stepped : Step kernelThread s s')
      (rest : Comeback kernelThread thread s' s'') : Comeback kernelThread thread s s''

/-- `make_main_thread`: the code that boots the kernel becomes the first thread. -/
structure Booted (s : System) : Prop where
  threads : s.threads = [s.running]
  isPage : s.running.toNat % 4096 = 0
  onStack : OnPage s.running s.machine.regs.esp 0

theorem wordAddress_succ_sub (page : Word) (index : Nat) :
    wordAddress page (index + 1) - 4 = wordAddress page index := by
  simp only [wordAddress]
  bv_omega

theorem wordAddress_toNat {page : Word} (isPage : page.toNat % 4096 = 0) {index : Nat}
    (inside : index < 1024) : (wordAddress page index).toNat = page.toNat + 4 * index := by
  have small := page.isLt
  rw [wordAddress, BitVec.toNat_add, BitVec.toNat_ofNat, Nat.mod_eq_of_lt (a := 4 * index),
    Nat.mod_eq_of_lt]
  · omega
  · omega

theorem page_apart {page other : Word} (isPage : page.toNat % 4096 = 0)
    (otherIsPage : other.toNat % 4096 = 0) (different : page ≠ other) {index place : Nat}
    (inside : index < 1024) (within : place < 1024) :
    wordAddress page index ≠ wordAddress other place := by
  intro same
  have addresses := congrArg BitVec.toNat same
  rw [wordAddress_toNat isPage inside, wordAddress_toNat otherIsPage within] at addresses
  exact different (BitVec.eq_of_toNat_eq (by omega))

theorem runningThread_eq {m : Machine} {page : Word} (isPage : page.toNat % 4096 = 0)
    (onStack : OnPage page m.regs.esp 0) : runningThread m = page := by
  obtain ⟨index, positive, inside, esp⟩ := onStack
  obtain ⟨below, rfl⟩ : ∃ below, index = below + 1 := ⟨index - 1, by omega⟩
  have word : (wordAddress page below).toNat = page.toNat + 4 * below :=
    wordAddress_toNat isPage (by omega)
  rw [runningThread, esp, wordAddress_succ_sub]
  apply BitVec.eq_of_toNat_eq
  rw [BitVec.toNat_and]
  have masked : (wordAddress page below).toNat &&& (0xfffff000 : Word).toNat =
      (wordAddress page below).toNat / 4096 * 4096 :=
    Memory.toNat_and_high (k := 12) rfl (by decide) (UInt32.ofBitVec (wordAddress page below))
  rw [masked, word]
  omega

/-- The memory after writes to a page, given by their places. -/
def pageWrites (memory : Word → Word) (page : Word) (writes : List (Nat × Word)) :
    Word → Word :=
  writes.foldl (fun memory write =>
    Function.update memory (wordAddress page write.1) write.2) memory

section PageWrites

variable {memory : Word → Word} {page : Word} {writes : List (Nat × Word)}

theorem pageWrites_at (small : ∀ write ∈ writes, write.1 < 1024) {index : Nat}
    (inside : index < 1024) :
    pageWrites memory page writes (wordAddress page index) =
      writes.foldl (fun value write => if write.1 = index then write.2 else value)
        (memory (wordAddress page index)) :=
  foldl_update_wordAddress memory page writes
    (fun write member => Nat.lt_trans (small write member) (by decide))
    (Nat.lt_trans inside (by decide))

theorem sameThread_pageWrites (isPage : page.toNat % 4096 = 0)
    (small : ∀ write ∈ writes, write.1 < 1024) {other : Word}
    (otherIsPage : other.toNat % 4096 = 0) (different : other ≠ page) :
    SameThread other memory (pageWrites memory page writes) := by
  rintro index ⟨inside, -⟩
  induction writes generalizing memory with
  | nil => rfl
  | cons write rest inductionHypothesis =>
      obtain ⟨first, later⟩ := List.forall_mem_cons.mp small
      have apart := page_apart otherIsPage isPage different inside first
      exact (inductionHypothesis later).trans (Function.update_of_ne apart _ _)

end PageWrites

/-- The registers popped from a stack. -/
def popContext (memory : Word → Word) (esp : Word) : Context where
  ebp := memory (wordAddress esp 0)
  ebx := memory (wordAddress esp 1)
  edi := memory (wordAddress esp 2)
  esi := memory (wordAddress esp 3)
  esp := wordAddress esp 5
  eip := memory (wordAddress esp 4)

theorem restoreContext_memory (m : Machine) : (restoreContext m).memory = m.memory := rfl

theorem context_restoreContext (m : Machine) :
    context (restoreContext m) = popContext m.memory (m.memory (m.slot 6)) := by
  simp only [context, restoreContext, popContext, Machine.slot, wordAddress_wordAddress,
    Nat.reduceAdd, wordAddress_zero]

/-- `self_kstack` points to a whole context on the page of the thread. -/
def Rests (memory : Word → Word) (thread : Word) : Prop :=
  ∃ index, taskStructWords ≤ index ∧ index + 5 ≤ 1024 ∧ memory thread = wordAddress thread index

theorem SameThread.selfKstack {page : Word} {memory memory' : Word → Word}
    (same : SameThread page memory memory') : memory' page = memory page := by
  simpa only [wordAddress_zero] using same 0 ⟨by decide, Or.inl rfl⟩

theorem Rests.congr {thread : Word} {memory memory' : Word → Word}
    (rests : Rests memory thread) (same : SameThread thread memory memory') :
    Rests memory' thread ∧
      popContext memory' (memory' thread) = popContext memory (memory thread) := by
  obtain ⟨index, above, inside, selfKstack⟩ := rests
  have kept := same.selfKstack
  refine ⟨⟨index, above, inside, kept.trans selfKstack⟩, ?_⟩
  have popped : ∀ k < 5, memory' (wordAddress thread (index + k)) =
      memory (wordAddress thread (index + k)) := fun k few =>
    same _ ⟨by omega, Or.inr (by omega)⟩
  rw [kept, selfKstack]
  simp only [popContext, wordAddress_wordAddress]
  rw [popped 0 (by decide), popped 1 (by decide), popped 2 (by decide), popped 3 (by decide),
    popped 4 (by decide)]

/-- What the caller and `switch_to` push from the place `index` on, and the new
`self_kstack`. -/
def contextWrites (m : Machine) (cur next returnAddress : Word) (index : Nat) :
    List (Nat × Word) :=
  [(index + 6, next), (index + 5, cur), (index + 4, returnAddress), (index + 3, m.regs.esi),
    (index + 2, m.regs.edi), (index + 1, m.regs.ebx), (index, m.regs.ebp),
    (0, wordAddress cur index)]

theorem contextWrites_small (m : Machine) (cur next returnAddress : Word) {index : Nat}
    (inside : index + 7 ≤ 1024) :
    ∀ write ∈ contextWrites m cur next returnAddress index, write.1 < 1024 := by
  simp only [contextWrites, List.mem_cons, List.not_mem_nil, or_false, forall_eq_or_imp,
    forall_eq]
  omega

theorem backupContext_called {m : Machine} {cur : Word} (next returnAddress : Word)
    {index : Nat} (esp : m.regs.esp = wordAddress cur (index + 7))
    (inside : index + 7 ≤ 1024) :
    (backupContext (callSwitchTo cur next returnAddress m)).memory =
      pageWrites m.memory cur (contextWrites m cur next returnAddress index) ∧
    (backupContext (callSwitchTo cur next returnAddress m)).regs.esp =
      wordAddress cur index := by
  have e7 := wordAddress_succ_sub cur (index + 6)
  have e6 := wordAddress_succ_sub cur (index + 5)
  have e5 := wordAddress_succ_sub cur (index + 4)
  have e4 := wordAddress_succ_sub cur (index + 3)
  have e3 := wordAddress_succ_sub cur (index + 2)
  have e2 := wordAddress_succ_sub cur (index + 1)
  have e1 := wordAddress_succ_sub cur index
  simp only [Nat.add_assoc, Nat.reduceAdd] at e1 e2 e3 e4 e5 e6 e7
  -- the argument `cur` is found where the caller pushed it
  have slot : pageWrites m.memory cur
      ((contextWrites m cur next returnAddress index).dropLast) (wordAddress cur (index + 5)) =
        cur := by
    rw [pageWrites_at (by simp [contextWrites]; omega) (by omega)]
    simp [contextWrites]
  simp only [pageWrites, contextWrites, List.dropLast, List.foldl_cons, List.foldl_nil] at slot
  simp only [backupContext, callSwitchTo, Machine.push, Machine.slot, esp, e1, e2, e3, e4, e5,
    e6, e7, wordAddress_wordAddress, pageWrites, contextWrites, List.foldl_cons, List.foldl_nil,
    slot, wordAddress_zero, and_self]

/-- The context a thread is left with, as it will be popped: the caller removes the two
arguments itself. -/
def leftContext (m : Machine) (returnAddress : Word) : Context :=
  { context m with esp := m.regs.esp - 8, eip := returnAddress }

/-- The words of the stack from `esp` to the end of the page. -/
def SameStack (page esp : Word) (memory memory' : Word → Word) : Prop :=
  ∀ place index, esp = wordAddress page place → place ≤ index → index < 1024 →
    memory' (wordAddress page index) = memory (wordAddress page index)

/-- A switch writes to the page of the thread that is left only, and to that what it needs
to come back. -/
structure Leaves (s s' : System) (next returnAddress : Word) : Prop where
  running : s'.running = next
  threads : s'.threads = s.threads
  others : ∀ u, u.toNat % 4096 = 0 → u ≠ s.running →
    SameThread u s.machine.memory s'.machine.memory
  rests : Rests s'.machine.memory s.running
  left : popContext s'.machine.memory (s'.machine.memory s.running) =
    leftContext s.machine returnAddress
  stack : SameStack s.running s.machine.regs.esp s.machine.memory s'.machine.memory
  loaded : context s'.machine = popContext s'.machine.memory (s'.machine.memory next)

theorem OnPage.less {page esp : Word} {room : Nat} (onPage : OnPage page esp room) :
    OnPage page esp 0 := by
  obtain ⟨index, positive, inside, address⟩ := onPage
  exact ⟨index, by omega, inside, address⟩

theorem Switches.leaves {s s' : System} {next returnAddress : Word}
    (switches : Switches s next returnAddress s') (isPage : s.running.toNat % 4096 = 0) :
    Leaves s s' next returnAddress := by
  obtain ⟨-, room, rfl⟩ := switches
  rw [System.switch, runningThread_eq isPage room.less]
  obtain ⟨top, deep, inside, esp⟩ := room
  obtain ⟨index, rfl⟩ : ∃ index, top = index + 7 := ⟨top - 7, by omega⟩
  obtain ⟨memory, stack⟩ := backupContext_called next returnAddress esp inside
  have small := contextWrites_small s.machine s.running next returnAddress inside
  have place : ∀ {place : Nat}, place < 1024 →
      (switchTo (callSwitchTo s.running next returnAddress s.machine)).memory
        (wordAddress s.running place) =
      (contextWrites s.machine s.running next returnAddress index).foldl
        (fun value write => if write.1 = place then write.2 else value)
        (s.machine.memory (wordAddress s.running place)) := by
    intro place within
    rw [switchTo, restoreContext_memory, memory, pageWrites_at small within]
  have selfKstack : (switchTo (callSwitchTo s.running next returnAddress s.machine)).memory
      s.running = wordAddress s.running index := by
    have first := @place 0 (by decide)
    rw [wordAddress_zero] at first
    rw [first]
    simp [contextWrites]
  have above : taskStructWords ≤ index := by omega
  have notFirst : index ≠ 0 := by
    simp only [taskStructWords] at above
    omega
  have below : wordAddress s.running (index + 5) = s.machine.regs.esp - 8 := by
    rw [esp]
    simp only [wordAddress]
    bv_omega
  refine ⟨rfl, rfl, fun u uIsPage different => ?_, ⟨index, above, by omega, selfKstack⟩, ?_, ?_,
    ?_⟩
  · rw [switchTo, restoreContext_memory, memory]
    exact sameThread_pageWrites isPage small uIsPage different
  · rw [selfKstack]
    simp only [popContext, wordAddress_wordAddress, leftContext, context]
    rw [place (by omega), place (by omega), place (by omega), place (by omega),
      place (by omega), below]
    simp [contextWrites, notFirst.symm]
  · intro start place' address upwards within
    have same : start = index + 7 := by
      by_contra different
      exact wordAddress_ne (by omega) (by omega) different (address.symm.trans esp)
    rw [place within]
    have other : ∀ k, k < 7 → index + k ≠ place' := fun k few => by omega
    simp only [contextWrites, List.foldl_cons, List.foldl_nil]
    rw [if_neg (by omega), if_neg (by omega), if_neg (by omega), if_neg (by omega),
      if_neg (by omega), if_neg (by omega), if_neg (by omega), if_neg (by omega)]
  · have slot : (backupContext (callSwitchTo s.running next returnAddress s.machine)).slot 6 =
        next := by
      rw [Machine.slot, stack, wordAddress_wordAddress]
      rw [switchTo, restoreContext_memory] at place
      rw [place (by omega)]
      simp [contextWrites]
    rw [switchTo, context_restoreContext, restoreContext_memory, slot]

/-- What `thread_create` leaves of a page: the thread starts in `kernel_thread`, with the two
arguments behind an unused return address. -/
structure Created (kernelThread pthread function funcArg : Word) (memory : Word → Word) :
    Prop where
  rests : Rests memory pthread
  first : popContext memory (memory pthread) =
    ⟨0, 0, 0, 0, wordAddress pthread 921, kernelThread⟩
  function : memory (wordAddress (wordAddress pthread 921) 1) = function
  funcArg : memory (wordAddress (wordAddress pthread 921) 2) = funcArg

/-- The places of the page that `thread_create` writes to. -/
def threadWrites (kernelThread pthread function funcArg : Word) : List (Nat × Word) :=
  [(0, wordAddress pthread 916), (920, kernelThread), (922, function), (923, funcArg),
    (918, 0), (919, 0), (917, 0), (916, 0)]

theorem threadWrites_small (kernelThread pthread function funcArg : Word) :
    ∀ write ∈ threadWrites kernelThread pthread function funcArg, write.1 < 1024 := by
  simp [threadWrites]

theorem threadCreate_memory (kernelThread pthread function funcArg : Word) (m : Machine) :
    (threadCreate kernelThread pthread function funcArg m).memory =
      pageWrites m.memory pthread (threadWrites kernelThread pthread function funcArg) := by
  have stack : pthread + BitVec.ofNat 32 pgSize - BitVec.ofNat 32 (4 * intrStackSize) -
      BitVec.ofNat 32 (4 * threadStackSize) = wordAddress pthread 916 := by
    simp only [pgSize, intrStackSize, threadStackSize, wordAddress]
    bv_omega
  simp only [threadCreate, Function.update_self, Function.update_idem, stack,
    wordAddress_wordAddress, Nat.reduceAdd, pageWrites, threadWrites, List.foldl_cons,
    List.foldl_nil, wordAddress_zero]

theorem created (kernelThread pthread function funcArg : Word) (m : Machine) :
    Created kernelThread pthread function funcArg
      (threadCreate kernelThread pthread function funcArg m).memory := by
  have small : ∀ write ∈ threadWrites kernelThread pthread function funcArg, write.1 < 1024 :=
    threadWrites_small kernelThread pthread function funcArg
  have place : ∀ {place : Nat}, place < 1024 →
      pageWrites m.memory pthread (threadWrites kernelThread pthread function funcArg)
        (wordAddress pthread place) =
      (threadWrites kernelThread pthread function funcArg).foldl
        (fun value write => if write.1 = place then write.2 else value)
        (m.memory (wordAddress pthread place)) := pageWrites_at small
  rw [threadCreate_memory]
  have selfKstack := @place 0 (by decide)
  rw [wordAddress_zero] at selfKstack
  have selfKstack := selfKstack.trans (by simp [threadWrites] : _ = wordAddress pthread 916)
  refine ⟨⟨916, by decide, by decide, selfKstack⟩, ?_, ?_, ?_⟩
  · rw [selfKstack]
    simp only [popContext, wordAddress_wordAddress, Nat.reduceAdd]
    rw [place (by decide), place (by decide), place (by decide), place (by decide),
      place (by decide)]
    simp [threadWrites]
  · rw [wordAddress_wordAddress, place (by decide)]
    simp [threadWrites]
  · rw [wordAddress_wordAddress, place (by decide)]
    simp [threadWrites]

/-- The running thread is on its own stack, and all others left a context on theirs. -/
structure Sound (s : System) : Prop where
  isPage : ∀ u ∈ s.threads, u.toNat % 4096 = 0
  member : s.running ∈ s.threads
  onStack : OnPage s.running s.machine.regs.esp 0
  rests : ∀ u ∈ s.threads, u ≠ s.running → Rests s.machine.memory u

theorem Booted.sound {s : System} (booted : Booted s) : Sound s := by
  obtain ⟨threads, isPage, onStack⟩ := booted
  refine ⟨?_, by simp [threads], onStack, ?_⟩
  · simpa [threads] using isPage
  · intro u member other
    exact absurd (by simpa [threads] using member) other

section Runs

variable {kernelThread thread : Word} {s s' : System}

theorem Sound.step (sound : Sound s) (stepped : Step kernelThread s s') : Sound s' := by
  cases stepped with
  | code onStack others =>
      refine ⟨sound.isPage, sound.member, onStack, fun u member other => ?_⟩
      exact ((sound.rests u member other).congr (others u member other)).1
  | @create pthread function funcArg isPage new =>
      refine ⟨?_, List.mem_cons_of_mem _ sound.member, sound.onStack, ?_⟩
      · rintro u (_ | ⟨_, old⟩)
        · exact isPage
        · exact sound.isPage u old
      · rintro u (_ | ⟨_, old⟩) other
        · exact (created kernelThread _ function funcArg s.machine).rests
        · have different : u ≠ pthread := fun same => new (same ▸ old)
          refine ((sound.rests u old other).congr ?_).1
          rw [threadCreate_memory]
          exact sameThread_pageWrites isPage (threadWrites_small _ _ _ _) (sound.isPage u old)
            different
  | switch switches =>
      have leaves := switches.leaves (sound.isPage _ sound.member)
      have known := switches.known
      have resting : ∀ u ∈ s.threads, Rests s'.machine.memory u := by
        intro u member
        by_cases same : u = s.running
        · subst same
          exact leaves.rests
        · exact ((sound.rests u member same).congr
            (leaves.others u (sound.isPage u member) same)).1
      refine ⟨?_, ?_, ?_, fun u member _ => resting u (leaves.threads ▸ member)⟩
      · rw [leaves.threads]
        exact sound.isPage
      · rw [leaves.threads, leaves.running]
        exact known
      · obtain ⟨index, positive, inside, selfKstack⟩ := resting _ known
        have esp := congrArg Context.esp leaves.loaded
        simp only [context, popContext, selfKstack, wordAddress_wordAddress] at esp
        rw [leaves.running]
        exact ⟨index + 5, by omega, inside, esp⟩

theorem Sound.run (sound : Sound s) (ran : Relation.ReflTransGen (Step kernelThread) s s') :
    Sound s' := by
  induction ran with
  | refl => exact sound
  | tail _ stepped inductionHypothesis => exact inductionHypothesis.step stepped

/-- `next->status = TASK_RUNNING` in `schedule`, which writes to the PCB of another thread. -/
def System.markRunning (s : System) (next : Word) : System :=
  { s with machine.memory := Function.update s.machine.memory (wordAddress next 2) 0 }

theorem Sound.markRunning (sound : Sound s) {next : Word} (known : next ∈ s.threads) :
    Step kernelThread s (s.markRunning next) := by
  refine .code sound.onStack fun u member _ index own => ?_
  have inside := own.1
  refine Function.update_of_ne ?_ _ _
  by_cases same : u = next
  · have notStatus : index ≠ 2 := by
      rintro rfl
      exact absurd own (by decide)
    exact same ▸ wordAddress_ne (by omega) (by decide) notStatus
  · exact page_apart (sound.isPage u member) (sound.isPage next known) same inside (by decide)

/-- The page of `thread` is as in `memory`, which holds `saved`; when the thread runs again,
it runs with `saved`. -/
structure Keeps (thread : Word) (memory : Word → Word) (saved : Context) (s : System) :
    Prop where
  page : SameThread thread memory s.machine.memory
  member : thread ∈ s.threads
  away : s.running ≠ thread → popContext s.machine.memory (s.machine.memory thread) = saved
  back : s.running = thread → context s.machine = saved

theorem SameThread.trans {page : Word} {memory memory' memory'' : Word → Word}
    (first : SameThread page memory memory') (second : SameThread page memory' memory'') :
    SameThread page memory memory'' :=
  fun index inside => (second index inside).trans (first index inside)

theorem Keeps.step {memory : Word → Word} {saved : Context} (sound : Sound s)
    (keeps : Keeps thread memory saved s) (other : s.running ≠ thread)
    (stepped : Step kernelThread s s') : Keeps thread memory saved s' := by
  have rests := sound.rests thread keeps.member other.symm
  have popped := keeps.away other
  cases stepped with
  | code onStack others =>
      have same := others thread keeps.member other.symm
      exact ⟨keeps.page.trans same, keeps.member,
        fun _ => (rests.congr same).2.trans popped, fun runs => absurd runs other⟩
  | @create pthread function funcArg isPage new =>
      have different : thread ≠ pthread := fun same => new (same ▸ keeps.member)
      have same : SameThread thread s.machine.memory
          (threadCreate kernelThread pthread function funcArg s.machine).memory := by
        rw [threadCreate_memory]
        exact sameThread_pageWrites isPage (threadWrites_small _ _ _ _)
          (sound.isPage _ keeps.member) different
      exact ⟨keeps.page.trans same, List.mem_cons_of_mem _ keeps.member,
        fun _ => (rests.congr same).2.trans popped, fun runs => absurd runs other⟩
  | switch switches =>
      have leaves := switches.leaves (sound.isPage _ sound.member)
      have same := leaves.others thread (sound.isPage _ keeps.member) other.symm
      have found := (rests.congr same).2.trans popped
      refine ⟨keeps.page.trans same, leaves.threads ▸ keeps.member, fun _ => found,
        fun runs => ?_⟩
      have isNext := leaves.running.symm.trans runs
      subst isNext
      exact leaves.loaded.trans found

theorem Keeps.comeback {memory : Word → Word} {saved : Context} (sound : Sound s)
    (keeps : Keeps thread memory saved s) (comeback : Comeback kernelThread thread s s') :
    Keeps thread memory saved s' ∧ Sound s' ∧ s'.running = thread := by
  induction comeback with
  | runs running => exact ⟨keeps, sound, running⟩
  | later other stepped _ inductionHypothesis =>
      exact inductionHypothesis (sound.step stepped) (keeps.step sound other stepped)

end Runs

section Resume

variable {kernelThread next returnAddress pthread function funcArg : Word}
  {boot s left back : System}

/-- In every run of any number of threads, a thread that calls `switch_to` finds, when it is
switched to for the first time after that, the registers a C function keeps as it had them,
goes on behind its call, on the same stack with the same words from its stack pointer
upwards, and `running_thread` finds its own PCB. -/
theorem switch_to_resumes (booted : Booted boot)
    (ran : Relation.ReflTransGen (Step kernelThread) boot s)
    (leaves : Switches s next returnAddress left)
    (returns : Comeback kernelThread s.running left back) :
    context back.machine = leftContext s.machine returnAddress ∧
      SameStack s.running s.machine.regs.esp s.machine.memory back.machine.memory ∧
      runningThread back.machine = s.running := by
  have sound := booted.sound.run ran
  have left' := leaves.leaves (sound.isPage _ sound.member)
  have keeps : Keeps s.running left.machine.memory (leftContext s.machine returnAddress)
      left := by
    refine ⟨fun _ _ => rfl, left'.threads ▸ sound.member, fun _ => left'.left, fun same => ?_⟩
    have isNext := left'.running.symm.trans same
    rw [left'.loaded, isNext]
    exact left'.left
  have stepped : Step kernelThread s left := .switch leaves
  obtain ⟨kept, backSound, running⟩ := keeps.comeback (sound.step stepped) returns
  refine ⟨kept.back running, fun place index address upwards inside => ?_, ?_⟩
  · obtain ⟨top, deep, within, esp⟩ := leaves.room
    have same : place = top := by
      by_contra different
      exact wordAddress_ne (by omega) (by omega) different (address.symm.trans esp)
    exact (kept.page index ⟨inside, Or.inr (by omega)⟩).trans
      (left'.stack place index address upwards inside)
  · rw [← running]
    exact runningThread_eq (backSound.isPage _ backSound.member) backSound.onStack

/-- In every run, the first time a thread made by `thread_create` is switched to, it is in
`kernel_thread` with `function` and `func_arg` as its arguments. -/
theorem thread_create_starts (booted : Booted boot)
    (ran : Relation.ReflTransGen (Step kernelThread) boot s)
    (isPage : pthread.toNat % 4096 = 0) (new : pthread ∉ s.threads)
    (starts : Comeback kernelThread pthread
      { s with
        machine := threadCreate kernelThread pthread function funcArg s.machine
        threads := pthread :: s.threads } back) :
    back.machine.regs.eip = kernelThread ∧ back.machine.slot 1 = function ∧
      back.machine.slot 2 = funcArg ∧ runningThread back.machine = pthread := by
  have sound := booted.sound.run ran
  have fresh := created kernelThread pthread function funcArg s.machine
  have other : s.running ≠ pthread := fun same => new (same ▸ sound.member)
  have keeps : Keeps pthread (threadCreate kernelThread pthread function funcArg s.machine).memory
      ⟨0, 0, 0, 0, wordAddress pthread 921, kernelThread⟩
      { s with
        machine := threadCreate kernelThread pthread function funcArg s.machine
        threads := pthread :: s.threads } :=
    ⟨fun _ _ => rfl, List.mem_cons_self, fun _ => fresh.first, fun runs => absurd runs other⟩
  obtain ⟨kept, backSound, running⟩ :=
    keeps.comeback (sound.step (.create function funcArg isPage new)) starts
  have loaded := kept.back running
  have esp : back.machine.regs.esp = wordAddress pthread 921 := congrArg Context.esp loaded
  refine ⟨congrArg Context.eip loaded, ?_, ?_, ?_⟩
  · rw [Machine.slot, esp, wordAddress_wordAddress, kept.page _ (by decide),
      ← wordAddress_wordAddress]
    exact fresh.function
  · rw [Machine.slot, esp, wordAddress_wordAddress, kept.page _ (by decide),
      ← wordAddress_wordAddress]
    exact fresh.funcArg
  · rw [← running]
    exact runningThread_eq (backSound.isPage _ backSound.member) backSound.onStack

end Resume

/-- The main thread at the start of its stack. -/
def bootSystem : System where
  machine :=
    { regs :=
        { eax := 0, ecx := 0, edx := 0, ebx := 1, esp := 0xc009f000, ebp := 2, esi := 3, edi := 4
          ds := 0x10, es := 0x10, fs := 0, gs := 0x18, cs := 0x08, ss := 0x10
          eip := 0xc0001500, eflags := 0 }
      memory := fun _ => 0 }
  running := 0xc009e000
  threads := [0xc009e000]

theorem bootSystem_booted : Booted bootSystem :=
  ⟨rfl, by decide, 1024, by decide, by decide, by decide⟩

/-- With a second thread. -/
def pairSystem : System :=
  { bootSystem with
    machine := threadCreate 0xc0001600 0xc0105000 0xc0001700 5 bootSystem.machine
    threads := [0xc0105000, 0xc009e000] }

/-- As `schedule` switches. -/
def System.dispatch (s : System) (next returnAddress : Word) : System :=
  (s.markRunning next).switch next returnAddress

theorem pairSystem_sound : Sound pairSystem :=
  bootSystem_booted.sound.step
    (Step.create 0xc0001700 5 (by decide) (by decide) : Step 0xc0001600 bootSystem pairSystem)

/-- The two threads switch to each other. -/
theorem switch_to_resumes_pair :
    context ((pairSystem.dispatch 0xc0105000 0xc0001530).dispatch
      0xc009e000 0xc0001540).machine = leftContext pairSystem.machine 0xc0001530 := by
  have create : Step 0xc0001600 bootSystem pairSystem :=
    .create 0xc0001700 5 (by decide) (by decide)
  have mark : Step 0xc0001600 pairSystem (pairSystem.markRunning 0xc0105000) :=
    pairSystem_sound.markRunning (by decide)
  have away : Switches (pairSystem.markRunning 0xc0105000) 0xc0105000 0xc0001530
      (pairSystem.dispatch 0xc0105000 0xc0001530) :=
    ⟨by decide, ⟨1024, by decide, by decide, by decide⟩, rfl⟩
  have sound : Sound (pairSystem.dispatch 0xc0105000 0xc0001530) :=
    (pairSystem_sound.step mark).step (Step.switch away : Step 0xc0001600 _ _)
  have markBack : Step 0xc0001600 (pairSystem.dispatch 0xc0105000 0xc0001530)
      ((pairSystem.dispatch 0xc0105000 0xc0001530).markRunning 0xc009e000) :=
    sound.markRunning (by decide)
  have back : Switches ((pairSystem.dispatch 0xc0105000 0xc0001530).markRunning 0xc009e000)
      0xc009e000 0xc0001540
      ((pairSystem.dispatch 0xc0105000 0xc0001530).dispatch 0xc009e000 0xc0001540) :=
    ⟨by decide, ⟨921, by decide, by decide, by decide⟩, rfl⟩
  have ran : Relation.ReflTransGen (Step 0xc0001600) bootSystem
      (pairSystem.markRunning 0xc0105000) := .tail (.single create) mark
  exact (switch_to_resumes bootSystem_booted ran away
    (.later (by decide) markBack (.later (by decide) (.switch back) (.runs rfl)))).1

/-- The second thread starts with its argument 5. -/
theorem thread_create_starts_pair :
    (pairSystem.dispatch 0xc0105000 0xc0001530).machine.regs.eip = 0xc0001600 ∧
      (pairSystem.dispatch 0xc0105000 0xc0001530).machine.slot 1 = 0xc0001700 ∧
      (pairSystem.dispatch 0xc0105000 0xc0001530).machine.slot 2 = 5 ∧
      runningThread (pairSystem.dispatch 0xc0105000 0xc0001530).machine = 0xc0105000 := by
  have mark : Step 0xc0001600 pairSystem (pairSystem.markRunning 0xc0105000) :=
    pairSystem_sound.markRunning (by decide)
  have away : Switches (pairSystem.markRunning 0xc0105000) 0xc0105000 0xc0001530
      (pairSystem.dispatch 0xc0105000 0xc0001530) :=
    ⟨by decide, ⟨1024, by decide, by decide, by decide⟩, rfl⟩
  exact thread_create_starts bootSystem_booted .refl (by decide) (by decide)
    (.later (by decide) mark (.later (by decide) (.switch away) (.runs rfl)))

end HongbaiOS.Thread
