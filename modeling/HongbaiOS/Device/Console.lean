import HongbaiOS.Thread.Sections
import HongbaiOS.Lib.Numerals

/-!
# The console

`console_put_str`, `console_put_char` and `console_put_int` call a routine of `print.S` between
`lock_acquire` and `lock_release` of `console_lock`.  The threads take turns between any two
characters.
-/

namespace HongbaiOS.Device

open HongbaiOS.Library HongbaiOS.Kernel HongbaiOS.Lib HongbaiOS.Thread

/-- A call with its argument; for a string that is the memory from its first byte on. -/
inductive ConsoleCall where
  | consolePutStr (str : List UInt8)
  | consolePutChar (charAscii : UInt8)
  | consolePutInt (num : Word)

namespace ConsoleCall

/-- What is called under the lock. -/
def routine : ConsoleCall → Routine
  | .consolePutStr _ => .putStr
  | .consolePutChar _ => .putChar
  | .consolePutInt _ => .putInt

/-- The argument is on the stack. -/
def Passed (textAt : Word → List UInt8) (c : Console) : ConsoleCall → Prop
  | .consolePutStr str => textAt (c.machine.slot 1) = str
  | .consolePutChar charAscii => clOf (c.machine.slot 1) = charAscii
  | .consolePutInt num => c.machine.slot 1 = num

/-- The characters that get to `put_char`. -/
def text : ConsoleCall → List UInt8
  | .consolePutStr str => str.takeWhile (· ≠ 0)
  | .consolePutChar charAscii => [charAscii]
  | .consolePutInt num => Console.skipPrefix0 (Console.storeDigits 8 num [])

end ConsoleCall

/-- `console_lock` guards the screen. -/
def consoleCode : SectionCode Screen UInt8 ConsoleCall where
  pieces := ConsoleCall.text
  apply := Screen.putChar

section Routines

variable {c : Console} {words : List Word}

/-- `.goon` prints the characters in front of the zero. -/
theorem goon_screen (afterCall : Word) (text : List UInt8) (onStack : c.machine.OnStack words)
    (short : words.length < 28) :
    (c.goon afterCall text).map Console.screen =
      (text.takeWhile (· ≠ 0)).foldlM Screen.putChar c.screen := by
  induction text generalizing c with
  | nil => rfl
  | cons cl text inductionHypothesis =>
      by_cases ends : cl = 0
      · subst ends
        rfl
      · have screen := @callPutChar_screen
          { c with machine.regs.ecx := withCl c.machine.regs.ecx cl } words afterCall onStack short
        rw [clOf_withCl] at screen
        rw [List.takeWhile_cons_of_pos (by simpa using ends), List.foldlM_cons, ← screen,
          goon_cons text ends]
        by_cases writable : Writable c.screen.cursor cl
        · obtain ⟨c', ran, kept, -⟩ := @printed_cl c words afterCall cl onStack short writable
          rw [ran]
          exact @inductionHypothesis { c' with machine.regs.ebx := c'.machine.regs.ebx + 1 }
            kept.onStack
        · rw [fault_cl cl onStack short writable]
          rfl

theorem putStr_screen (afterCall : Word) (textAt : Word → List UInt8) (c : Console) :
    (c.putStr afterCall textAt).map Console.screen =
      ((textAt (c.machine.slot 1)).takeWhile (· ≠ 0)).foldlM Screen.putChar c.screen := by
  have pushed := ((call_onStack c).push (by simp) c.machine.regs.ebx).push (by simp)
    c.machine.regs.ecx
  let m := (c.machine.push c.machine.regs.ebx).push c.machine.regs.ecx
  have argument : m.slot 3 = c.machine.slot 1 := pushed.slot 3 rfl
  have screen := @goon_screen ⟨{ m with regs.ecx := 0, regs.ebx := m.slot 3 }, c.screen⟩ _
    afterCall (textAt (m.slot 3)) pushed (by simp)
  rw [← argument, ← screen, Console.putStr]
  generalize Console.goon afterCall (textAt (m.slot 3)) _ = ran
  cases ran <;> rfl

/-- The digits of a number are its value in base 16, and begin with a zero only for `0`. -/
theorem consolePutInt_text (num : Word) :
    Canonical (ConsoleCall.consolePutInt num).text ∧
      decode 16 (ConsoleCall.consolePutInt num).text = some num.toNat := by
  have canonical := canonical_skipPrefix0 (Console.storeDigits 8 num [])
  have below : num.toNat < 16 ^ 8 := num.isLt
  refine ⟨canonical, decode_of canonical.1 ?_⟩
  rw [ConsoleCall.text, decode_skipPrefix0, decode_storeDigits, decodeFrom,
    Nat.mod_eq_of_lt below]

theorem routine_screen (afterCall : Word) (textAt : Word → List UInt8) (c : Console)
    {call : ConsoleCall} (passed : call.Passed textAt c) :
    (call.routine.run afterCall textAt c).map Console.screen =
      call.text.foldlM consoleCode.apply c.screen := by
  cases call with
  | consolePutStr str =>
      obtain rfl : textAt (c.machine.slot 1) = str := passed
      exact putStr_screen afterCall textAt c
  | consolePutChar charAscii =>
      obtain rfl : clOf (c.machine.slot 1) = charAscii := passed
      rw [ConsoleCall.text, List.foldlM_cons]
      refine (putChar_screen (call_onStack c) (by decide)).trans ?_
      exact (bind_pure _).symm
  | consolePutInt num =>
      obtain rfl : c.machine.slot 1 = num := passed
      obtain ⟨canonical, isNumber⟩ := consolePutInt_text (c.machine.slot 1)
      exact putInt_screen afterCall c canonical (decode_eq_some isNumber).2

end Routines

section Runs

variable {screen screen' : Screen}

/-- A character is printed where the cursor is, if it is not a backspace in the first cell. -/
theorem putChar_or (onScreen : screen.cursor.toNat < 2000) (c : UInt8) :
    (∃ screen', screen.putChar c = .ok screen' ∧ CharRight screen screen' c) ∨
      (c = 0x8 ∧ screen.cursor.toNat = 0) ∧ screen.putChar c = .error .generalProtection := by
  by_cases origin : c = 0x8 ∧ screen.cursor.toNat = 0
  · refine .inr ⟨origin, ?_⟩
    rw [origin.1]
    exact Screen.putChar_backspace_origin origin.2
  · exact .inl ((Screen.putChar_spec screen c onScreen).mpr origin)

theorem printed_inside (onScreen : screen.cursor.toNat < 2000) {text : List UInt8}
    (printed : text.foldlM Screen.putChar screen = .ok screen') :
    WritesBelow 4000 screen screen' ∧ screen'.cursor.toNat < 2000 := by
  induction text generalizing screen with
  | nil =>
      obtain rfl := Except.ok.inj printed
      exact ⟨WritesBelow.refl 4000 screen, onScreen⟩
  | cons c text inductionHypothesis =>
      rw [List.foldlM_cons] at printed
      obtain ⟨next, ran, printed⟩ := except_bind_eq_ok.mp printed
      rcases putChar_or onScreen c with ⟨right, went, isRight⟩ | ⟨-, faults⟩
      · obtain rfl := Except.ok.inj (went.symm.trans ran)
        obtain ⟨writes, inside⟩ := inductionHypothesis isRight.onScreen printed
        exact ⟨isRight.inside.trans writes, inside⟩
      · cases faults.symm.trans ran

/-- In every run of threads that print, the screen shows one call after the other, each thread's
in the order in which it made them and nothing of another in between; all is written within the
25 lines, and only a backspace in the first cell can stop a call. -/
theorem console_whole_calls {threads : List Tid} (nodup : threads.Nodup)
    (onScreen : screen.cursor.toNat < 2000) {actions : List (SectionAction ConsoleCall)}
    {states : List (SectionUse Screen UInt8 ConsoleCall)}
    (ran : trace (SectionUse.step consoleCode) (.start threads screen) actions = .ok states) :
    ∀ s ∈ SectionUse.start threads screen :: states,
      s.Serial consoleCode screen ∧
      (WritesBelow 4000 screen s.shared ∧ s.shared.cursor.toNat < 2000) ∧
      ∀ a, (∃ s', s.step consoleCode a = .ok s') ∨ s.step consoleCode a = .error .disabled ∨
        s.step consoleCode a = .error .generalProtection ∧ s.shared.cursor.toNat = 0 ∧
          ∃ cur left, s.point cur = .inside (0x8 :: left) := by
  intro s member
  have sound := SectionUse.run_sound nodup ran s member
  obtain ⟨printed, left, -, shown, -⟩ := sound.serial.done
  have inside := printed_inside onScreen shown
  refine ⟨sound.serial, inside, fun a => ?_⟩
  rcases sound.step_or a with went | disabled | ⟨cur, piece, rest, here, same⟩
  · exact .inl went
  · exact .inr (.inl disabled)
  · rw [same]
    rcases putChar_or inside.2 piece with ⟨next, went, -⟩ | ⟨⟨isBackspace, origin⟩, faults⟩
    · refine .inl ⟨{ s with shared := next }.goto cur (.inside rest), ?_⟩
      simp only [consoleCode, went]
      rfl
    · subst isBackspace
      refine .inr (.inr ⟨?_, origin, cur, rest, here⟩)
      simp only [consoleCode, faults]
      rfl

/-- The first thread is interrupted in the middle of its text, and the second one waits. -/
def interrupted : List (SectionAction ConsoleCall) :=
  [.dispatch 1, .call (.consolePutStr [0x68, 0x69, 0])] ++ List.replicate 6 .statement ++
    [.preempt, .dispatch 2, .call (.consolePutInt 0xc0)] ++ List.replicate 2 .statement ++
    [.dispatch 1] ++ List.replicate 8 .statement ++ [.preempt, .dispatch 2] ++
    List.replicate 6 .statement

theorem console_whole_calls_interrupted : ∃ states,
    trace (SectionUse.step consoleCode) (.start [1, 2] ⟨fun _ => 0, 0, []⟩) interrupted =
        .ok states ∧
      [0, 2, 4, 6].map (states.getLastD (.start [1, 2] ⟨fun _ => 0, 0, []⟩)).shared.video =
        [0x68, 0x69, 0x43, 0x30] ∧
      ∀ s ∈ SectionUse.start [1, 2] ⟨fun _ => 0, 0, []⟩ :: states,
        s.Serial consoleCode ⟨fun _ => 0, 0, []⟩ := by
  have result : (trace (SectionUse.step consoleCode) (.start [1, 2] ⟨fun _ => 0, 0, []⟩)
      interrupted).toOption.map (fun states => [0, 2, 4, 6].map
        (states.getLastD (.start [1, 2] ⟨fun _ => 0, 0, []⟩)).shared.video) =
      some [0x68, 0x69, 0x43, 0x30] := by
    decide +kernel
  cases ran : trace (SectionUse.step consoleCode) (.start [1, 2] ⟨fun _ => 0, 0, []⟩)
      interrupted with
  | error reason =>
      rw [ran] at result
      cases result
  | ok states =>
      rw [ran] at result
      exact ⟨states, rfl, Option.some.inj result, fun s member =>
        (console_whole_calls (by decide) (by decide) ran s member).1⟩

end Runs

end HongbaiOS.Device
