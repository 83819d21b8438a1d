import Mathlib.Tactic.Common

/-!
# The kernel stack of a new process

`self_kstack` from `init_thread` up to the frame that `start_process` hands to `intr_exit`.
`thread_create` and `start_process` move it by the sizes of structures, on a `uint32_t *`;
`switch_to` stores `esp` in it.  Addresses are numbers; how much of the stack the compiled
functions take between their calls is left open.
-/

namespace HongbaiOS.Userprog

/-- `PG_SIZE` -/
def pgSize : Nat := 4096

/-- `sizeof(struct intr_stack)`: 13 words pushed by the entry code, the error code and five
words pushed by the processor. -/
def intrStackSize : Nat := (13 + 1 + 5) * 4

/-- `sizeof(struct thread_stack)` -/
def threadStackSize : Nat := 8 * 4

/-- `p + n` for a `uint32_t *p` -/
def ptrAdd (p : Nat) (n : Nat) : Nat := p + 4 * n

/-- `p - n` for a `uint32_t *p` -/
def ptrSub (p : Nat) (n : Nat) : Nat := p - 4 * n

/-- `default_prio` -/
def defaultPrio : Nat := 31

/-- What switching uses of a PCB, which lies at the start of the page `pcb`, and the `esp`
of its thread. -/
structure KernelStack where
  pcb : Nat
  selfKstack : Nat
  priority : Nat
  ticks : Nat
  esp : Nat

/-- `init_thread(pthread, name, prio)`; the thread has not run. -/
def initThread (pcb : Nat) (prio : Nat) : KernelStack where
  pcb := pcb
  selfKstack := pcb + pgSize
  priority := prio
  ticks := prio
  esp := 0

namespace KernelStack

/-- `thread_create(pthread, function, func_arg)` -/
def threadCreate (t : KernelStack) : KernelStack :=
  { t with selfKstack := ptrSub (ptrSub t.selfKstack intrStackSize) threadStackSize }

/-- The second half of `switch_to`: four registers and the return address are popped. -/
def restore (t : KernelStack) : KernelStack := { t with esp := t.selfKstack + 4 * 4 + 4 }

/-- `switch_to(cur, next)` away from the thread, and at some time back to it; `esp` is that
of the caller before it pushes the two arguments. -/
def switchTo (t : KernelStack) : KernelStack :=
  let esp := t.esp - 2 * 4 - 4 - 4 * 4
  let back := restore { t with selfKstack := esp }
  { back with esp := back.esp + 2 * 4 }

/-- `schedule()`, called by the running thread; `frame` is what it takes of the stack. -/
def schedule (frame : Nat) (t : KernelStack) : KernelStack :=
  let t := { t with ticks := t.priority, esp := t.esp - 4 - frame }
  let t := t.switchTo
  { t with esp := t.esp + frame + 4 }

/-- A timer interrupt: the processor pushes three words, the entry code an error code, four
segment registers, eight registers, the vector and the return address. -/
def timerInterrupt (handlerFrame scheduleFrame : Nat) (t : KernelStack) : KernelStack :=
  let pushed := 3 * 4 + 4 + 4 * 4 + 8 * 4 + 4 + 4 + handlerFrame
  if t.ticks = 0 then
    { schedule scheduleFrame { t with esp := t.esp - pushed } with esp := t.esp }
  else { t with ticks := t.ticks - 1 }

end KernelStack

/-- What happens to the thread from one instruction to the next: its own code moves the
stack pointer, or the timer interrupts it. -/
inductive StackStep where
  | move (esp : Nat)
  | tick (handlerFrame scheduleFrame : Nat)

namespace StackStep

def run (t : KernelStack) : StackStep → KernelStack
  | .move esp => { t with esp := esp }
  | .tick handlerFrame scheduleFrame => t.timerInterrupt handlerFrame scheduleFrame

def isTick : StackStep → Bool
  | .move _ => false
  | .tick _ _ => true

/-- The code stays on the part of the stack below `top`. -/
def Below (top : Nat) : StackStep → Prop
  | .move esp => esp ≤ top
  | .tick _ _ => True

end StackStep

/-- The number of timer interrupts. -/
def tickCount (steps : List StackStep) : Nat := steps.countP StackStep.isTick

@[simp]
theorem tickCount_move (esp : Nat) (steps : List StackStep) :
    tickCount (.move esp :: steps) = tickCount steps :=
  List.countP_cons_of_neg (by simp [StackStep.isTick])

@[simp]
theorem tickCount_tick (handlerFrame scheduleFrame : Nat) (steps : List StackStep) :
    tickCount (.tick handlerFrame scheduleFrame :: steps) = tickCount steps + 1 :=
  List.countP_cons_of_pos rfl

/-- The thread when it is first dispatched, at the start of `kernel_thread`. -/
def dispatched (pcb : Nat) : KernelStack :=
  (initThread pcb defaultPrio).threadCreate.restore

/-- `cur->self_kstack += sizeof(struct thread_stack)` -/
def adjust (t : KernelStack) : KernelStack :=
  { t with selfKstack := ptrAdd t.selfKstack threadStackSize }

/-- `start_process` up to `proc_stack`: `before` happens between the first dispatch and the
statement that adjusts `self_kstack`, `between` from there to the one that reads it. -/
def procStack (pcb : Nat) (before between : List StackStep) : Nat :=
  (between.foldl StackStep.run
    (adjust (before.foldl StackStep.run (dispatched pcb)))).selfKstack

/-- The interrupt frame that `thread_create` reserves. -/
def reservedFrame (pcb : Nat) : Nat := ptrSub (pcb + pgSize) intrStackSize

/-- The end of the thread stack that `thread_create` fills, which is the first frame. -/
def stackTop (pcb : Nat) : Nat :=
  ptrSub (reservedFrame pcb) threadStackSize + threadStackSize

/-- The interrupt frame at `frame` is the reserved one, lies in the page of the PCB, and
overlaps neither the thread stack nor what is live of the stack when `esp` points to it. -/
structure FrameReserved (pcb frame esp : Nat) : Prop where
  reserved : frame = reservedFrame pcb
  inside : pcb ≤ frame ∧ frame + intrStackSize ≤ pcb + pgSize
  apart : frame + intrStackSize ≤ esp ∨ stackTop pcb ≤ frame

namespace KernelStack

variable {t : KernelStack} {top : Nat} {handlerFrame scheduleFrame : Nat}

/-- A tick within the time slice. -/
theorem timerInterrupt_early (more : t.ticks ≠ 0) :
    t.timerInterrupt handlerFrame scheduleFrame = { t with ticks := t.ticks - 1 } :=
  if_neg more

/-- A tick at its end: `self_kstack` is 104 bytes and the frames of two functions below the
stack pointer. -/
theorem timerInterrupt_last (last : t.ticks = 0) :
    (t.timerInterrupt handlerFrame scheduleFrame).selfKstack =
      t.esp - (72 + handlerFrame) - 4 - scheduleFrame - 28 := by
  rw [timerInterrupt, if_pos last]
  simp only [schedule, switchTo, restore]
  omega

theorem timerInterrupt_esp :
    (t.timerInterrupt handlerFrame scheduleFrame).esp = t.esp := by
  unfold timerInterrupt
  split <;> rfl

theorem run_onStack {steps : List StackStep} (onStack : t.esp ≤ top)
    (below : ∀ step ∈ steps, step.Below top) : (steps.foldl StackStep.run t).esp ≤ top := by
  induction steps generalizing t with
  | nil => exact onStack
  | cons step rest inductionHypothesis =>
      obtain ⟨first, later⟩ := List.forall_mem_cons.mp below
      cases step with
      | move esp => exact inductionHypothesis first later
      | tick handlerFrame scheduleFrame =>
          exact inductionHypothesis (Nat.le_trans (Nat.le_of_eq timerInterrupt_esp) onStack) later

/-- The stack below `top` is in use, and `self_kstack` is at most `low`. -/
structure Low (top low : Nat) (t : KernelStack) : Prop where
  esp : t.esp ≤ top
  selfKstack : t.selfKstack ≤ low

theorem Low.step {low : Nat} (isLow : t.Low top low) (room : top - 104 ≤ low)
    {step : StackStep} (below : step.Below top) : (step.run t).Low top low := by
  cases step with
  | move esp => exact ⟨below, isLow.selfKstack⟩
  | tick handlerFrame scheduleFrame =>
      refine ⟨Nat.le_trans (Nat.le_of_eq timerInterrupt_esp) isLow.esp, ?_⟩
      have onStack := isLow.esp
      rw [StackStep.run]
      by_cases last : t.ticks = 0
      · rw [timerInterrupt_last last]
        omega
      · rw [timerInterrupt_early last]
        exact isLow.selfKstack

theorem Low.run {low : Nat} {steps : List StackStep} (isLow : t.Low top low)
    (room : top - 104 ≤ low) (below : ∀ step ∈ steps, step.Below top) :
    (steps.foldl StackStep.run t).Low top low := by
  induction steps generalizing t with
  | nil => exact isLow
  | cons step rest inductionHypothesis =>
      obtain ⟨first, later⟩ := List.forall_mem_cons.mp below
      exact inductionHypothesis (isLow.step room first) later

/-- While the time slice lasts, only its rest gets shorter. -/
theorem run_early {steps : List StackStep} (few : tickCount steps ≤ t.ticks) :
    (steps.foldl StackStep.run t).selfKstack = t.selfKstack ∧
      (steps.foldl StackStep.run t).ticks = t.ticks - tickCount steps := by
  induction steps generalizing t with
  | nil => exact ⟨rfl, rfl⟩
  | cons step rest inductionHypothesis =>
      cases step with
      | move esp =>
          rw [tickCount_move] at few ⊢
          exact inductionHypothesis few
      | tick handlerFrame scheduleFrame =>
          rw [tickCount_tick] at few ⊢
          rw [List.foldl_cons, StackStep.run, timerInterrupt_early (by omega)]
          obtain ⟨sameStack, ticks⟩ := inductionHypothesis
            (t := { t with ticks := t.ticks - 1 }) (Nat.le_sub_one_of_lt few)
          refine ⟨sameStack, ticks.trans ?_⟩
          simp only
          omega

theorem run_switched {steps : List StackStep} (many : t.ticks < tickCount steps)
    (onStack : t.esp ≤ top) (below : ∀ step ∈ steps, step.Below top) :
    (steps.foldl StackStep.run t).Low top (top - 104) := by
  induction steps generalizing t with
  | nil => exact absurd many (Nat.not_lt_zero _)
  | cons step rest inductionHypothesis =>
      obtain ⟨first, later⟩ := List.forall_mem_cons.mp below
      cases step with
      | move esp =>
          rw [tickCount_move] at many
          exact inductionHypothesis many first later
      | tick handlerFrame scheduleFrame =>
          rw [tickCount_tick] at many
          rw [List.foldl_cons, StackStep.run]
          by_cases last : t.ticks = 0
          · refine Low.run ⟨Nat.le_trans (Nat.le_of_eq timerInterrupt_esp) onStack, ?_⟩
              (Nat.le_refl _) later
            rw [timerInterrupt_last last]
            omega
          · rw [timerInterrupt_early last]
            exact inductionHypothesis (by simp only; omega) onStack later

end KernelStack

theorem dispatched_eq (pcb : Nat) :
    dispatched pcb = ⟨pcb, pcb + 3664, 31, 31, pcb + 3684⟩ := by
  have stack : pcb + 4096 - 4 * 76 - 4 * 32 = pcb + 3664 := by omega
  simp only [dispatched, KernelStack.restore, KernelStack.threadCreate, initThread, ptrSub,
    intrStackSize, threadStackSize, pgSize, defaultPrio, Nat.reduceAdd, Nat.reduceMul, stack]

theorem adjust_selfKstack (t : KernelStack) : (adjust t).selfKstack = t.selfKstack + 128 := rfl

/-- `start_process` uses the frame that `thread_create` reserved exactly if the time slice
is not used up before `proc_stack` is read. -/
theorem frameReserved_iff (pcb esp : Nat) (before between : List StackStep)
    (belowBefore : ∀ step ∈ before, step.Below (dispatched pcb).esp)
    (belowBetween : ∀ step ∈ between, step.Below (dispatched pcb).esp) :
    FrameReserved pcb (procStack pcb before between) esp ↔
      tickCount before + tickCount between ≤ defaultPrio := by
  have reserved : reservedFrame pcb = pcb + 3792 := by
    simp only [reservedFrame, ptrSub, pgSize, intrStackSize]
    omega
  have top : stackTop pcb = pcb + 3696 := by
    simp only [stackTop, reserved, ptrSub, threadStackSize]
    omega
  have start := dispatched_eq pcb
  have slice : (dispatched pcb).ticks = 31 := by rw [start]
  have stack : (dispatched pcb).selfKstack = pcb + 3664 := by rw [start]
  have entry : (dispatched pcb).esp = pcb + 3684 := by rw [start]
  rw [defaultPrio, procStack]
  constructor
  · intro frame
    have isReserved := frame.reserved
    by_contra many
    have onStack := KernelStack.run_onStack (t := dispatched pcb) (Nat.le_refl _) belowBefore
    by_cases early : tickCount before ≤ 31
    · -- the switch comes between the adjustment and the read
      have inSlice : tickCount before ≤ (dispatched pcb).ticks := by omega
      obtain ⟨-, left⟩ := KernelStack.run_early inSlice
      have more : (adjust (before.foldl StackStep.run (dispatched pcb))).ticks <
          tickCount between := by
        rw [adjust, left]
        omega
      have stored := (KernelStack.run_switched more onStack belowBetween).selfKstack
      omega
    · -- what the switch stored is adjusted, or stored again
      have usedUp : (dispatched pcb).ticks < tickCount before := by omega
      have stored := KernelStack.run_switched usedUp (Nat.le_refl _) belowBefore
      have adjusted : (adjust (before.foldl StackStep.run (dispatched pcb))).Low
          (dispatched pcb).esp ((dispatched pcb).esp + 24) := by
        refine ⟨onStack, ?_⟩
        have low := stored.selfKstack
        rw [adjust_selfKstack]
        omega
      have low := (adjusted.run (by omega) belowBetween).selfKstack
      omega
  · intro few
    have inSlice : tickCount before ≤ (dispatched pcb).ticks := by omega
    obtain ⟨sameBefore, left⟩ := KernelStack.run_early inSlice
    have enough : tickCount between ≤
        (adjust (before.foldl StackStep.run (dispatched pcb))).ticks := by
      rw [adjust, left]
      omega
    obtain ⟨sameBetween, -⟩ := KernelStack.run_early enough
    have frame : (between.foldl StackStep.run
        (adjust (before.foldl StackStep.run (dispatched pcb)))).selfKstack = pcb + 3792 := by
      rw [sameBetween, adjust_selfKstack, sameBefore, stack]
    rw [frame]
    refine ⟨reserved.symm, ⟨by omega, ?_⟩, Or.inr (by omega)⟩
    rw [intrStackSize, pgSize]
    omega

/-- The whole time slice is used up on the way, at different instructions. -/
theorem frameReserved_iff_slice : FrameReserved 0xc0105000
    (procStack 0xc0105000 (.move 0xc0105e40 :: List.replicate 20 (.tick 24 40))
      (.move 0xc0105e10 :: List.replicate 11 (.tick 24 40))) 0xc0105e10 :=
  (frameReserved_iff 0xc0105000 0xc0105e10
    (.move 0xc0105e40 :: List.replicate 20 (.tick 24 40))
    (.move 0xc0105e10 :: List.replicate 11 (.tick 24 40))
    (by simp [StackStep.Below, dispatched_eq]) (by simp [StackStep.Below, dispatched_eq])).mpr
    (by decide)

/-- Thirty-two ticks on the way: the frame lies over what is live of the stack. -/
theorem frame_after_switch : ¬ FrameReserved 0xc0105000
    (procStack 0xc0105000 (.move 0xc0105e40 :: List.replicate 32 (.tick 24 40)) [])
    0xc0105e40 := by
  intro frame
  have apart := frame.apart
  revert apart
  decide

end HongbaiOS.Userprog
