import HongbaiOS.Device.Ide
import HongbaiOS.Thread.Scheduler

/-!
# Threads on an IDE channel

`ide_read` and `ide_write` of any number of threads on one channel, statement by statement,
over the scheduler, with the disk interrupt at any point.  Which of the two disks a call is
for only changes the byte that goes to `reg_dev`, and the data that moves is in `Ide.lean`;
neither is kept here.
-/

namespace HongbaiOS.Device

open HongbaiOS.Library HongbaiOS.Kernel HongbaiOS.Thread

/-- The semaphore of `channel->lock`. -/
def lockSema : SemaId := 0

/-- `channel->disk_done` -/
def diskDone : SemaId := 1

/-- The statement of `ide_read` or `ide_write` a thread executes next. -/
inductive IdePoint where
  /-- In the thread's own code. -/
  | outside
  /-- `ASSERT(lba <= max_lba)` -/
  | assertLba
  /-- `ASSERT(sec_cnt > 0)` -/
  | assertCnt
  /-- `if (plock->holder == running_thread())` -/
  | acquireTest
  /-- `plock->holder_repeat_nr++` -/
  | acquireAgain
  /-- `sema_down(&plock->semaphore)`, also after each wake-up -/
  | acquireDown
  /-- `plock->holder = running_thread()` -/
  | acquireHolder
  /-- `ASSERT(plock->holder_repeat_nr == 0)` -/
  | acquireAssert
  /-- `plock->holder_repeat_nr = 1` -/
  | acquireCount
  /-- `select_disk(hd)` -/
  | selectDisk
  /-- `while (secs_done < sec_cnt)` -/
  | loopTest
  /-- `select_sector(hd, lba + secs_done, secs_op)` -/
  | selectSector
  /-- `channel->expecting_intr = true` -/
  | expectIntr
  /-- `outb(reg_cmd(channel), cmd)` -/
  | cmdOut
  /-- `sema_down(&hd->my_channel->disk_done)`, also after each wake-up -/
  | semaDown
  /-- `uint16_t time_limit = 30 * 1000` -/
  | busyWait
  /-- `while (time_limit -= 10 >= 0)` and the test of `BIT_ALT_STAT_BSY` -/
  | busyTest
  /-- `return (inb(reg_status(channel)) & BIT_ALT_STAT_DRQ)` -/
  | busyReady
  /-- `while (ticks - start_tick < sleep_ticks)` and `thread_yield()` -/
  | sleepTest
  /-- `read_from_sector` or `write_to_sector` -/
  | transfer
  /-- `secs_done += secs_op` -/
  | advance
  /-- `ASSERT(plock->holder == running_thread())` -/
  | releaseAssert
  /-- `if (plock->holder_repeat_nr > 1)` -/
  | releaseTest
  /-- `plock->holder_repeat_nr--` -/
  | releaseAgain
  /-- `ASSERT(plock->holder_repeat_nr == 1)` -/
  | releaseLast
  /-- `plock->holder = NULL` -/
  | releaseHolder
  /-- `plock->holder_repeat_nr = 0` -/
  | releaseCount
  /-- `sema_up(&plock->semaphore)` -/
  | releaseUp
  deriving DecidableEq

/-- The arguments and locals of a call of `ide_read` or `ide_write`. -/
structure IdeCall where
  write : Bool
  lba : Nat
  secCnt : UInt8
  secsDone : Nat
  timeLimit : Nat
  startTick : Nat

namespace IdeCall

def fn (c : IdeCall) : Fn := if c.write then .ideWrite else .ideRead

def secsOp (c : IdeCall) : Nat :=
  if c.secCnt.toNat - c.secsDone ≥ 256 then 256 else c.secCnt.toNat - c.secsDone

end IdeCall

/-- The threads and `struct ide_channel`. -/
structure IdeUse where
  sched : Sched
  irqNo : UInt8
  holder : Option Tid
  holderRepeatNr : UInt32
  expectingIntr : Bool
  point : Tid → IdePoint
  call : Tid → IdeCall
  /-- Commands each thread has sent. -/
  issued : Tid → Nat
  /-- Returns of each thread from `sema_down(&disk_done)`. -/
  passed : Tid → Nat
  /-- Returns of all threads. -/
  downs : Nat
  /-- Interrupts that were expected. -/
  answers : Nat

namespace IdeUse

def goto (s : IdeUse) (t : Tid) (point : IdePoint) : IdeUse :=
  { s with point := Function.update s.point t point }

def setCall (s : IdeUse) (t : Tid) (c : IdeCall) : IdeUse :=
  { s with call := Function.update s.call t c }

def setSched (s : IdeUse) (sched : Sched) : IdeUse := { s with sched := sched }

/-- Where the thread goes on when `sema_down(k)` has let it through. -/
def afterDown (s : IdeUse) (cur : Tid) (k : SemaId) : IdeUse :=
  if k = lockSema then s.goto cur .acquireHolder
  else if k = diskDone then
    { s with
      passed := Function.update s.passed cur (s.passed cur + 1)
      downs := s.downs + 1 }.goto cur (if (s.call cur).write then .advance else .busyWait)
  else s

/-- The scheduler's part `a` of a `sema_down(k)`: at 0 the thread sleeps and will test the
value again. -/
def semaDown (s : IdeUse) (cur : Tid) (k : SemaId) (a : Action) : Except Halt IdeUse := do
  let sched ← Thread.step s.sched a
  if (s.sched.sema k).value = 0 then return s.setSched sched
  else return (s.setSched sched).afterDown cur k

/-- The running thread `cur` executes the statement it stands at; `status` is what `inb`
gets from `reg_status`. -/
def statement (s : IdeUse) (cur : Tid) (status : UInt8) : Except Halt IdeUse :=
  let c := s.call cur
  match s.point cur with
  | .outside => .error .disabled
  | .assertLba => do
      check c.fn (c.lba ≤ maxLba)
      return s.goto cur .assertCnt
  | .assertCnt => do
      check c.fn (c.secCnt > 0)
      return s.goto cur .acquireTest
  | .acquireTest =>
      .ok (s.goto cur (if s.holder = some cur then .acquireAgain else .acquireDown))
  | .acquireAgain =>
      .ok ({ s with holderRepeatNr := s.holderRepeatNr + 1 }.goto cur .selectDisk)
  | .acquireDown => s.semaDown cur lockSema (.semaDown lockSema)
  | .acquireHolder => .ok ({ s with holder := some cur }.goto cur .acquireAssert)
  | .acquireAssert => do
      check .lockAcquire (s.holderRepeatNr = 0)
      return s.goto cur .acquireCount
  | .acquireCount => .ok ({ s with holderRepeatNr := 1 }.goto cur .selectDisk)
  | .selectDisk => .ok ((s.setCall cur { c with secsDone := 0 }).goto cur .loopTest)
  | .loopTest =>
      .ok (s.goto cur (if c.secsDone < c.secCnt.toNat then .selectSector else .releaseAssert))
  | .selectSector => do
      selectSector (c.lba + c.secsDone)
      return s.goto cur .expectIntr
  | .expectIntr => .ok ({ s with expectingIntr := true }.goto cur .cmdOut)
  | .cmdOut =>
      .ok ({ s with issued := Function.update s.issued cur (s.issued cur + 1) }.goto cur
        (if c.write then .busyWait else .semaDown))
  | .semaDown => s.semaDown cur diskDone (.semaDown diskDone)
  | .busyWait => .ok ((s.setCall cur { c with timeLimit := 30 * 1000 }).goto cur .busyTest)
  | .busyTest =>
      -- `10 >= 0` is 1, so a round takes 1 from the limit
      if c.timeLimit - 1 = 0 then .error (.panic c.fn)
      else if status &&& 0x80 = 0 then
        .ok ((s.setCall cur { c with timeLimit := c.timeLimit - 1 }).goto cur .busyReady)
      else
        .ok ((s.setCall cur { c with
          timeLimit := c.timeLimit - 1, startTick := s.sched.ticks }).goto cur .sleepTest)
  | .busyReady =>
      if status &&& 0x8 = 0 then .error (.panic c.fn) else .ok (s.goto cur .transfer)
  | .sleepTest =>
      if (s.sched.ticks + 2 ^ 32 - c.startTick) % 2 ^ 32 < 1 then do
        let sched ← Thread.step s.sched .threadYield
        return s.setSched sched
      else .ok (s.goto cur .busyTest)
  | .transfer => .ok (s.goto cur (if c.write then .semaDown else .advance))
  | .advance =>
      .ok ((s.setCall cur { c with secsDone := c.secsDone + c.secsOp }).goto cur .loopTest)
  | .releaseAssert => do
      check .lockRelease (s.holder = some cur)
      return s.goto cur .releaseTest
  | .releaseTest =>
      .ok (s.goto cur (if s.holderRepeatNr > 1 then .releaseAgain else .releaseLast))
  | .releaseAgain =>
      .ok ({ s with holderRepeatNr := s.holderRepeatNr - 1 }.goto cur .outside)
  | .releaseLast => do
      check .lockRelease (s.holderRepeatNr = 1)
      return s.goto cur .releaseHolder
  | .releaseHolder => .ok ({ s with holder := none }.goto cur .releaseCount)
  | .releaseCount => .ok ({ s with holderRepeatNr := 0 }.goto cur .releaseUp)
  | .releaseUp => do
      let sched ← Thread.semaUp lockSema s.sched
      return (s.setSched sched).goto cur .outside

/-- `intr_hd_handler(irq_no)`, entered through an interrupt gate; the channel is the one with
this number. -/
def intrHdHandler (s : IdeUse) (irqNo : UInt8) : Except Halt IdeUse := do
  check .intrHdHandler (irqNo = 0x2e ∨ irqNo = 0x2f)
  check .intrHdHandler (s.irqNo = irqNo)
  if s.expectingIntr then
    let sched ← Thread.semaUp diskDone s.sched
    return { s with sched, expectingIntr := false, answers := s.answers + 1 }
  else return s

/-- A thread that has been switched to goes on where it left the CPU. -/
def resume (s : IdeUse) (cur : Tid) : Except Halt IdeUse :=
  match s.sched.suspended cur with
  | some (.inDown k _) => s.semaDown cur k .resume
  | _ => do
      let sched ← Thread.step s.sched .resume
      return s.setSched sched

end IdeUse

inductive IdeAction where
  /-- The running thread calls `ide_read` or `ide_write`. -/
  | call (write : Bool) (lba : Nat) (secCnt : UInt8)
  | statement (status : UInt8)
  | hdInterrupt
  | resume
  /-- Another interrupt, or the own code of a thread outside the driver. -/
  | other (a : Action)
  deriving DecidableEq

namespace IdeUse

/-- Inside the driver only interrupts come in between; nobody else uses the two semaphores
of the channel. -/
def allows (s : IdeUse) : Action → Bool
  | .timerTick | .threadUnblock _ => true
  | .semaUp k => k ≠ lockSema ∧ k ≠ diskDone
  | .semaDown k => s.point s.sched.runningThread = .outside ∧ k ≠ lockSema ∧ k ≠ diskDone
  | .resume => false
  | _ => s.point s.sched.runningThread = .outside

def step (s : IdeUse) (a : IdeAction) : Except Halt IdeUse :=
  let cur := s.sched.runningThread
  match a with
  | .call write lba secCnt =>
      if s.sched.suspended cur = none ∧ s.point cur = .outside then
        .ok ((s.setCall cur ⟨write, lba, secCnt, 0, 0, 0⟩).goto cur .assertLba)
      else .error .disabled
  | .statement status =>
      if s.sched.suspended cur = none then s.statement cur status else .error .disabled
  | .hdInterrupt =>
      if s.sched.suspended cur = none ∧ s.sched.intrOn then s.intrHdHandler s.irqNo
      else .error .disabled
  | .resume => s.resume cur
  | .other a =>
      if s.allows a then do
        let sched ← Thread.step s.sched a
        return s.setSched sched
      else .error .disabled

/-- What `sema_init` stores in each semaphore; those that are not of the channel get `value`. -/
def semaInit (value : SemaId → Nat) (k : SemaId) : Nat :=
  if k = lockSema then 1 else if k = diskDone then 0 else value k

/-- The threads of `thread_init` and the channel that `ide_init` has set up. -/
def start (mainThread idleThread : Tid) (value : SemaId → Nat) (channelNo : Fin 2) : IdeUse where
  sched := threadInit mainThread idleThread (semaInit value)
  irqNo := if channelNo = 0 then 0x20 + 14 else 0x20 + 15
  holder := none
  holderRepeatNr := 0
  expectingIntr := false
  point := fun _ => .outside
  call := fun _ => ⟨false, 0, 0, 0, 0, 0⟩
  issued := fun _ => 0
  passed := fun _ => 0
  downs := 0
  answers := 0

end IdeUse

end HongbaiOS.Device
