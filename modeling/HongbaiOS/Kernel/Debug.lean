import HongbaiOS.Library.Except

/-!
# How kernel code stops

`ASSERT` and `PANIC` end in `panic_spin`, which turns interrupts off and loops;
a page fault ends in `general_intr_handler`.  Neither ever returns to the caller.
-/

namespace HongbaiOS.Kernel

open HongbaiOS.Library

/-- The functions that contain an `ASSERT` or a `PANIC`. -/
inductive Fn where
  | bitmapScan | bitmapScanTest | bitmapSet
  | listPop
  | schedule | threadBlock | threadUnblock | threadYield | intrTimerHandler
  | threadStart
  | semaDown | semaUp | lockAcquire | lockRelease
  | vaddrGet | pageTableAdd | mallocPage | getAPage | mfreePage
  | sysMalloc | sysFree
  | ideRead | ideWrite | selectSector | intrHdHandler
  | inodeLocate | inodeSync | createDirEntry | syncDirEntry
  | mountPartition
  | ioqWait | wakeUp | ioqEmpty | ioqFull | ioqGetchar | ioqPutchar
  | partitionScan | ideInit
  | searchFile | sysOpen
  | strlen | strcat | strrchr | pathDepthCnt | vsprintf
  | mtimeSleep
  deriving DecidableEq, Repr

/-- Why a computation of the kernel does not return. -/
inductive Halt where
  /-- `panic_spin` called from `fn`. -/
  | panic (fn : Fn)
  /-- An access to a virtual address without a present translation. -/
  | pageFault
  /-- The running thread went to sleep on a lock another thread holds. -/
  | blocked
  /-- The step is not one the running code can take in this state. -/
  | disabled
  /-- An access behind the end of an array. -/
  | outOfBounds
  /-- An access behind the limit of a segment. -/
  | generalProtection
  deriving DecidableEq, Repr

/-- `ASSERT(condition)` inside `fn`. -/
def check (fn : Fn) (condition : Bool) : Except Halt Unit :=
  if condition then .ok () else .error (.panic fn)

@[simp]
theorem check_true (fn : Fn) : check fn true = .ok () := rfl

@[simp]
theorem check_false (fn : Fn) : check fn false = .error (.panic fn) := rfl

@[simp]
theorem check_eq_ok {fn : Fn} {condition : Bool} {u : Unit} :
    check fn condition = .ok u ↔ condition = true := by
  cases condition <;> simp [check]

/-- An assertion stops the kernel in its own function, and only if it does not hold. -/
theorem avoids_check {bad : Halt → Prop} {fn : Fn} {condition : Bool}
    (holds : bad (.panic fn) → condition = true) : Avoids bad (check fn condition) := by
  cases condition with
  | true => exact avoids_ok ()
  | false => exact avoids_error fun isBad => Bool.false_ne_true (holds isBad)

end HongbaiOS.Kernel
