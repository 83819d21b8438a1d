import HongbaiOS.Library.Except
import HongbaiOS.Thread.Scheduler

/-!
# Locks

`lock_acquire` and `lock_release` as the calling thread sees them: the call
returns, or the thread goes to sleep on the semaphore.  What the scheduler does
with a sleeping or a woken thread is in `Scheduler.lean`.
-/

namespace HongbaiOS.Thread

open HongbaiOS.Library HongbaiOS.Kernel

/-- `struct lock` -/
structure Lock where
  semaphore : Semaphore
  holder : Option Tid
  holderRepeatNr : UInt32

/-- `lock_init(plock)` -/
def lockInit : Lock := ⟨⟨1, []⟩, none, 0⟩

/-- `sema_down(psema)`: with the value at 0 the caller sleeps. -/
def Semaphore.down (cur : Tid) (psema : Semaphore) : Except Halt Semaphore :=
  if psema.value = 0 then do
    check .semaDown (cur ∉ psema.waiters)
    .error .blocked
  else do
    check .semaDown (psema.value - 1 = 0)
    return { psema with value := psema.value - 1 }

/-- `sema_up(psema)`: the first waiter leaves the list. -/
def Semaphore.up (psema : Semaphore) : Except Halt Semaphore := do
  check .semaUp (psema.value = 0)
  return ⟨psema.value + 1, psema.waiters.tail⟩

/-- `lock_acquire(plock)` called by `cur`. -/
def lockAcquire (cur : Tid) (plock : Lock) : Except Halt Lock :=
  if plock.holder = some cur then
    .ok { plock with holderRepeatNr := plock.holderRepeatNr + 1 }
  else do
    let semaphore ← plock.semaphore.down cur
    check .lockAcquire (plock.holderRepeatNr = 0)
    return ⟨semaphore, some cur, 1⟩

/-- `lock_release(plock)` called by `cur`. -/
def lockRelease (cur : Tid) (plock : Lock) : Except Halt Lock := do
  check .lockRelease (plock.holder = some cur)
  if plock.holderRepeatNr > 1 then
    return { plock with holderRepeatNr := plock.holderRepeatNr - 1 }
  else
    check .lockRelease (plock.holderRepeatNr = 1)
    let semaphore ← plock.semaphore.up
    return ⟨semaphore, none, 0⟩

/-- A lock that is held has been acquired at least once. -/
def Lock.Valid (plock : Lock) : Prop := plock.holder ≠ none → plock.holderRepeatNr ≠ 0

/-- Same holder, same number of acquisitions. -/
def Lock.SameHold (plock plock' : Lock) : Prop :=
  plock'.holder = plock.holder ∧ plock'.holderRepeatNr = plock.holderRepeatNr

variable {cur : Tid} {plock acquired released : Lock}

/-- What an acquisition that returns does: it counts one more, or takes a free lock. -/
theorem lockAcquire_cases (ran : lockAcquire cur plock = .ok acquired) :
    plock.holder = some cur ∧
        acquired = { plock with holderRepeatNr := plock.holderRepeatNr + 1 } ∨
      plock.holder ≠ some cur ∧ plock.semaphore.value = 1 ∧ plock.holderRepeatNr = 0 ∧
        acquired = ⟨{ plock.semaphore with value := 0 }, some cur, 1⟩ := by
  unfold lockAcquire at ran
  split at ran
  next own => exact Or.inl ⟨own, (Except.ok.inj ran).symm⟩
  next other =>
    obtain ⟨semaphore, down, ran⟩ := except_bind_eq_ok.mp ran
    obtain ⟨_, unused, result⟩ := except_bind_eq_ok.mp ran
    simp only [check_eq_ok, decide_eq_true_eq] at unused
    unfold Semaphore.down at down
    split at down
    next =>
      obtain ⟨_, -, asleep⟩ := except_bind_eq_ok.mp down
      cases asleep
    next up =>
      obtain ⟨_, one, taken⟩ := except_bind_eq_ok.mp down
      simp only [check_eq_ok, decide_eq_true_eq] at one
      rw [one] at taken
      rw [← Except.ok.inj taken] at result
      exact Or.inr ⟨other, by omega, unused, (Except.ok.inj result).symm⟩

/-- An acquisition never leaves the holder and the count as they were. -/
theorem lockAcquire_not_sameHold (ran : lockAcquire cur plock = .ok acquired) :
    ¬ plock.SameHold acquired := by
  rintro ⟨sameHolder, sameCount⟩
  rcases lockAcquire_cases ran with ⟨-, rfl⟩ | ⟨other, -, -, rfl⟩
  · have count := congrArg UInt32.toNat sameCount
    have bound := plock.holderRepeatNr.toNat_lt
    simp only [UInt32.toNat_add, UInt32.reduceToNat] at count
    omega
  · exact other sameHolder.symm

theorem lockRelease_cases (ran : lockRelease cur plock = .ok released) :
    plock.holder = some cur ∧
      (plock.holderRepeatNr > 1 ∧
          released = { plock with holderRepeatNr := plock.holderRepeatNr - 1 } ∨
        plock.holderRepeatNr = 1 ∧ plock.semaphore.value = 0 ∧
          released = ⟨⟨1, plock.semaphore.waiters.tail⟩, none, 0⟩) := by
  obtain ⟨_, own, ran⟩ := except_bind_eq_ok.mp ran
  simp only [check_eq_ok, decide_eq_true_eq] at own
  refine ⟨own, ?_⟩
  split at ran
  next nested => exact Or.inl ⟨nested, (Except.ok.inj ran).symm⟩
  next =>
    obtain ⟨_, one, ran⟩ := except_bind_eq_ok.mp ran
    obtain ⟨semaphore, up, result⟩ := except_bind_eq_ok.mp ran
    obtain ⟨_, zero, raised⟩ := except_bind_eq_ok.mp up
    simp only [check_eq_ok, decide_eq_true_eq] at one zero
    rw [zero] at raised
    rw [← Except.ok.inj raised] at result
    exact Or.inr ⟨one, zero, (Except.ok.inj result).symm⟩

/-- Releasing what was acquired restores the holder and the count, unless the lock
was held with a count of 0. -/
theorem sameHold_iff_valid (acquire : lockAcquire cur plock = .ok acquired)
    (release : lockRelease cur acquired = .ok released) :
    plock.SameHold released ↔ plock.Valid := by
  rcases lockAcquire_cases acquire with ⟨own, rfl⟩ | ⟨-, -, unused, rfl⟩
  · have held : plock.holder ≠ none := by
      rw [own]
      exact Option.some_ne_none cur
    rcases (lockRelease_cases release).2 with ⟨nested, rfl⟩ | ⟨one, -, rfl⟩
    · refine iff_of_true ⟨rfl, UInt32.add_sub_cancel _ _⟩ fun _ wrapped => ?_
      simp only [wrapped] at nested
      exact UInt32.lt_irrefl 1 nested
    · have wrapped : plock.holderRepeatNr = 0 := by simpa using one
      exact iff_of_false (fun same => held same.1.symm) (fun valid => valid held wrapped)
  · rcases (lockRelease_cases release).2 with ⟨nested, -⟩ | ⟨-, -, rfl⟩
    · exact absurd nested (UInt32.lt_irrefl 1)
    · constructor
      · exact fun same held => absurd same.1.symm held
      · intro valid
        have free : plock.holder = none := by
          by_contra held
          exact valid held unused
        exact ⟨free.symm, unused.symm⟩

end HongbaiOS.Thread
