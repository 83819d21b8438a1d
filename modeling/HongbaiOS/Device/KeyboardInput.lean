import HongbaiOS.Device.IoQueue
import HongbaiOS.Device.Keyboard

/-!
# From the keys to the readers

The keyboard's interrupts fill `kbd_buf`, any number of threads empty it.  `ioq_putchar` is
called by the handler only, and only where it found room, so it never waits.
-/

namespace HongbaiOS.Device

open HongbaiOS.Library HongbaiOS.Kernel HongbaiOS.Thread

namespace Typing

/-- The bytes the keyboard sends for a session. -/
def sessionBytes (typing : Typing) : List KeyEvent → List Nat
  | [] => []
  | event :: rest => typing.bytes event ++ (typing.after event).sessionBytes rest

def sessionMeant (typing : Typing) : List KeyEvent → List UInt8
  | [] => []
  | event :: rest => typing.meant event ++ (typing.after event).sessionMeant rest

end Typing

namespace Keyboard

variable {kbd : Keyboard} {typing : Typing}

theorem Linked.enqueuedBy_session (linked : kbd.Linked typing) {events : List KeyEvent}
    (gentle : typing.GentleAll events) :
    kbd.enqueuedBy (typing.sessionBytes events) = typing.sessionMeant events := by
  induction events generalizing kbd typing with
  | nil => rfl
  | cons event rest inductionHypothesis =>
      obtain ⟨first, others⟩ := gentle
      rw [Typing.sessionBytes, Typing.sessionMeant, enqueuedBy_append,
        ((follows_iff linked).mpr first).characters,
        inductionHypothesis (linked.step first) others]

theorem handler_flags (full : Bool) (kbd : Keyboard) (byte : Nat) :
    (kbd.intrKeyboardHandler full byte).1 = (kbd.intrKeyboardHandler false byte).1 := by
  simp only [intrKeyboardHandler]
  split_ifs <;> rfl

theorem handler_full (kbd : Keyboard) (byte : Nat) :
    (kbd.intrKeyboardHandler true byte).2.enqueued = [] := by
  simp only [intrKeyboardHandler, if_true]
  split_ifs <;> rfl

end Keyboard

namespace IoUse

/-- What the keyboard handler does to the queue. -/
def respond (s : IoUse) : Response → Except Halt IoUse
  | .putchar curChar => s.storeChar curChar
  | _ => .ok s

end IoUse

/-- The users of `kbd_buf` and the keyboard's driver. -/
structure KbdUse where
  use : IoUse
  kbd : Keyboard
  /-- The bytes of all interrupts so far. -/
  received : List Nat
  /-- Characters that found the queue full. -/
  lost : Nat

inductive KbdAction where
  /-- `intr_keyboard_handler` reads a byte, on top of whatever runs. -/
  | interrupt (byte : Nat)
  | thread (a : IoAction)

namespace KbdUse

def reads : IoAction → Bool
  | .keyPress _ | .ioqPutchar _ => false
  | _ => true

def step (s : KbdUse) : KbdAction → Except Halt KbdUse
  | .interrupt byte =>
      if s.use.InOwnCode then do
        let full := s.use.ioq.full
        let (kbd, response) := s.kbd.intrKeyboardHandler full byte
        let use ← s.use.respond response
        let typed := (s.kbd.intrKeyboardHandler false byte).2.enqueued
        return { use, kbd, received := s.received ++ [byte],
                 lost := s.lost + if full then typed.length else 0 }
      else .error .disabled
  | .thread a =>
      if reads a then do
        let use ← s.use.step a
        return { s with use }
      else .error .disabled

/-- After `keyboard_init()`. -/
def start (threads : List Tid) (buf : Nat → UInt8) : KbdUse where
  use := IoUse.start threads buf
  kbd := Keyboard.start
  received := []
  lost := 0

end KbdUse

namespace IoUse

/-- Nobody is inside `ioq_putchar`, and these characters have been stored so far. -/
structure OnlyReads (accepted : List UInt8) (s : IoUse) : Prop where
  accepted : s.accepted = accepted
  locking : ∀ t call, s.frame t = some (.locking call) → call = .getchar
  waiting : ∀ t call, s.frame t = some (.waiting call) → call = .getchar

variable {s s' : IoUse} {cur : Tid} {accepted : List UInt8}

namespace OnlyReads

theorem congr (only : OnlyReads accepted s) (same : s'.accepted = s.accepted)
    (frames : s'.frame = s.frame) : OnlyReads accepted s' where
  accepted := same.trans only.accepted
  locking := frames ▸ only.locking
  waiting := frames ▸ only.waiting

/-- A step of the scheduler. -/
theorem setCpu (only : OnlyReads accepted s) {m : Except Halt Cpu}
    (ran : (m >>= fun cpu => .ok { s with cpu }) = .ok s') : OnlyReads accepted s' := by
  obtain ⟨cpu, -, ran⟩ := except_bind_eq_ok.mp ran
  cases ran
  exact only.congr rfl rfl

theorem setFrame (only : OnlyReads accepted s) {frame : Option IoFrame}
    (reads : ∀ call, frame = some (.locking call) ∨ frame = some (.waiting call) →
      call = .getchar) : OnlyReads accepted (s.setFrame cur frame) where
  accepted := only.accepted
  locking t call inside := by
    by_cases here : t = cur
    · subst here
      exact reads call (.inl (by simpa [IoUse.setFrame] using inside))
    · exact only.locking t call (by simpa [IoUse.setFrame, here] using inside)
  waiting t call inside := by
    by_cases here : t = cur
    · subst here
      exact reads call (.inr (by simpa [IoUse.setFrame] using inside))
    · exact only.waiting t call (by simpa [IoUse.setFrame, here] using inside)

theorem wakeWaiter (only : OnlyReads accepted s) {side : Side}
    (ran : s.wakeWaiter side = .ok s') : OnlyReads accepted s' := by
  unfold IoUse.wakeWaiter at ran
  split at ran
  next someone =>
    unfold wakeUp at ran
    split at ran
    next => cases ran
    next t isWaiter =>
      obtain ⟨cpu, -, ran⟩ := except_bind_eq_ok.mp ran
      cases ran
      exact only.congr rfl rfl
  next nobody =>
    cases ran
    exact only

theorem takeChar (only : OnlyReads accepted s) (ran : s.takeChar = .ok s') :
    OnlyReads accepted s' := by
  refine OnlyReads.wakeWaiter ?_ ran
  exact only.congr rfl rfl

theorem storeChar (only : OnlyReads accepted s) {byte : UInt8}
    (ran : s.storeChar byte = .ok s') : OnlyReads (accepted ++ [byte]) s' := by
  refine OnlyReads.wakeWaiter ?_ ran
  exact ⟨congrArg (· ++ [byte]) only.accepted, only.locking, only.waiting⟩

theorem afterLock (only : OnlyReads accepted s) {taken : Bool}
    (ran : s.afterLock cur .getchar taken = .ok s') : OnlyReads accepted s' := by
  unfold IoUse.afterLock at ran
  split at ran
  next =>
    obtain ⟨-, -, ran⟩ := except_bind_eq_ok.mp ran
    obtain ⟨cpu, -, ran⟩ := except_bind_eq_ok.mp ran
    cases ran
    refine OnlyReads.setFrame ?_ fun call inside => by simpa [eq_comm] using inside
    exact only.congr rfl rfl
  next =>
    cases ran
    exact only.setFrame fun call inside => by simpa [eq_comm] using inside

theorem loop (only : OnlyReads accepted s) (ran : s.loop cur .getchar = .ok s') :
    OnlyReads accepted s' := by
  unfold IoUse.loop at ran
  split at ran
  next =>
    obtain ⟨⟨taken, lock, cpu⟩, -, ran⟩ := except_bind_eq_ok.mp ran
    refine OnlyReads.afterLock ?_ ran
    exact only.congr rfl rfl
  next => exact only.takeChar ran

theorem resume (only : OnlyReads accepted s) (ran : s.resume cur = .ok s') :
    OnlyReads accepted s' := by
  unfold IoUse.resume at ran
  split at ran
  next => cases ran
  next call inside =>
    obtain rfl := only.locking cur call inside
    obtain ⟨⟨taken, lock, cpu⟩, -, ran⟩ := except_bind_eq_ok.mp ran
    refine OnlyReads.afterLock ?_ ran
    exact only.congr rfl rfl
  next call inside =>
    obtain rfl := only.waiting cur call inside
    obtain ⟨⟨lock, cpu⟩, -, ran⟩ := except_bind_eq_ok.mp ran
    refine OnlyReads.loop (OnlyReads.setFrame ?_ fun call inside => by simp at inside) ran
    exact only.congr rfl rfl

/-- One case for each action a thread can take. -/
theorem step (only : OnlyReads accepted s) {a : IoAction} (reads : KbdUse.reads a = true)
    (ran : s.step a = .ok s') : OnlyReads accepted s' := by
  unfold IoUse.step at ran
  split at ran
  next chosen runs => exact only.setCpu ran
  next cur runs => exact only.resume ran
  next => cases reads
  next cur runs =>
    split at ran
    next => exact only.setCpu ran
    next => cases ran
  next cur runs =>
    split at ran
    next => exact only.loop ran
    next => cases ran
  next => cases reads
  next cur runs =>
    split at ran
    next => exact only.setCpu ran
    next => cases ran
  next t cur runs =>
    split at ran
    next => exact only.setCpu ran
    next => cases ran
  next => cases ran

end OnlyReads

end IoUse

namespace IoUse

variable {s : IoUse} {accepted : List UInt8}

theorem respond_eq_ok {response : Response} (none : response.enqueued = []) :
    s.respond response = .ok s := by
  cases response with
  | putchar curChar => cases none
  | quiet | unknownKey => rfl

/-- The handler puts the character, if there is one and there is room. -/
theorem Ordered.respond (ordered : s.Ordered) (only : OnlyReads accepted s) (kbd : Keyboard)
    (byte : Nat) :
    ∃ s', s.respond (kbd.intrKeyboardHandler s.ioq.full byte).2 = .ok s' ∧ s'.Ordered ∧
      OnlyReads (accepted ++ if s.ioq.full then [] else
        (kbd.intrKeyboardHandler false byte).2.enqueued) s' := by
  cases room : s.ioq.full with
  | true =>
      refine ⟨s, respond_eq_ok (kbd.handler_full byte), ordered, ?_⟩
      rwa [if_pos rfl, List.append_nil]
  | false =>
      rw [if_neg Bool.false_ne_true]
      cases (kbd.intrKeyboardHandler false byte).2 with
      | putchar curChar =>
          obtain ⟨s', ran, kept, -⟩ := ordered.storeChar room curChar
          exact ⟨s', ran, kept, only.storeChar ran⟩
      | quiet | unknownKey =>
          refine ⟨s, rfl, ordered, ?_⟩
          change OnlyReads (accepted ++ []) s
          rwa [List.append_nil]

end IoUse

namespace KbdUse

/-- The characters of all bytes so far. -/
def typed (s : KbdUse) : List UInt8 := Keyboard.start.enqueuedBy s.received

structure Sound (s : KbdUse) : Prop where
  ordered : s.use.Ordered
  only : s.use.OnlyReads s.use.accepted
  flags : s.kbd = Keyboard.start.afterBytes s.received
  kept : s.use.accepted.Sublist s.typed
  counted : s.use.accepted.length + s.lost = s.typed.length

namespace Sound

variable {s s' : KbdUse}

theorem start {threads : List Tid} (nodup : threads.Nodup) (buf : Nat → UInt8) :
    (start threads buf).Sound where
  ordered := IoUse.start_ordered nodup buf
  only := ⟨rfl, fun _ _ inside => absurd inside.symm (Option.some_ne_none _),
    fun _ _ inside => absurd inside.symm (Option.some_ne_none _)⟩
  flags := rfl
  kept := List.Sublist.refl _
  counted := rfl

theorem interrupt (sound : s.Sound) (byte : Nat) (own : s.use.InOwnCode) :
    ∃ s', s.step (.interrupt byte) = .ok s' ∧ s'.Sound := by
  obtain ⟨use, responded, ordered, only⟩ := sound.ordered.respond sound.only s.kbd byte
  have more : Keyboard.start.enqueuedBy (s.received ++ [byte]) =
      s.typed ++ (s.kbd.intrKeyboardHandler false byte).2.enqueued := by
    rw [Keyboard.enqueuedBy_append, ← sound.flags, Keyboard.enqueuedBy, Keyboard.enqueuedBy,
      List.append_nil, typed]
  have ran : s.step (.interrupt byte) = .ok {
      use
      kbd := (s.kbd.intrKeyboardHandler s.use.ioq.full byte).1
      received := s.received ++ [byte]
      lost := s.lost + if s.use.ioq.full then
        (s.kbd.intrKeyboardHandler false byte).2.enqueued.length else 0 } := by
    simp only [step, own, if_true, responded, ok_bind, pure_eq_ok]
  refine ⟨_, ran, ?_⟩
  constructor
  case ordered => exact ordered
  case only => rwa [only.accepted]
  case flags =>
    change (s.kbd.intrKeyboardHandler s.use.ioq.full byte).1 =
      Keyboard.start.afterBytes (s.received ++ [byte])
    rw [Keyboard.handler_flags, Keyboard.afterBytes_append, ← sound.flags]
    rfl
  case kept =>
    change use.accepted.Sublist (Keyboard.start.enqueuedBy (s.received ++ [byte]))
    rw [only.accepted, more]
    refine sound.kept.append ?_
    split
    · exact List.nil_sublist _
    · exact List.Sublist.refl _
  case counted =>
    have counted := sound.counted
    change use.accepted.length + (s.lost + _) =
      (Keyboard.start.enqueuedBy (s.received ++ [byte])).length
    rw [only.accepted, more, List.length_append, List.length_append]
    split
    · rw [List.length_nil]
      omega
    · omega

theorem thread (sound : s.Sound) {a : IoAction} (reads : KbdUse.reads a = true) {use : IoUse}
    (ran : s.use.step a = .ok use) (ordered : use.Ordered) : Sound { s with use } := by
  have only := sound.only.step reads ran
  have same := only.accepted
  constructor
  case ordered => exact ordered
  case only => exact same ▸ only
  case flags => exact sound.flags
  case kept => exact same ▸ sound.kept
  case counted => exact same ▸ sound.counted

/-- Every step goes through without an assertion or is not possible at all. -/
theorem step (sound : s.Sound) (a : KbdAction) :
    s.step a = .error .disabled ∨ ∃ s', s.step a = .ok s' ∧ s'.Sound := by
  cases a with
  | interrupt byte =>
      by_cases own : s.use.InOwnCode
      · exact .inr (sound.interrupt byte own)
      · exact .inl (if_neg own)
  | thread a =>
      by_cases reads : KbdUse.reads a = true
      · rcases sound.ordered.step a with disabled | ⟨use, ran, ordered, -⟩
        · left
          simp only [KbdUse.step, reads, if_true, disabled, error_bind]
        · right
          exact ⟨_, by simp only [KbdUse.step, reads, if_true, ran, ok_bind, pure_eq_ok],
            sound.thread reads ran ordered⟩
      · exact .inl (if_neg reads)

theorem of_step (sound : s.Sound) {a : KbdAction} (stepped : s.step a = .ok s') : s'.Sound := by
  rcases sound.step a with disabled | ⟨next, went, kept⟩
  · rw [disabled] at stepped
    cases stepped
  · rw [went] at stepped
    exact Except.ok.inj stepped ▸ kept

theorem run (sound : s.Sound) {actions : List KbdAction} {states : List KbdUse}
    (ran : trace KbdUse.step s actions = .ok states) : ∀ s' ∈ s :: states, s'.Sound :=
  invariant_of_guarded_trace (fun _ _ _ sound _ stepped => sound.of_step stepped) sound ran
    fun _ _ => trivial

/-- A character is lost only while the queue holds as many as it can. -/
theorem lost_full (sound : s.Sound) {byte : Nat} (stepped : s.step (.interrupt byte) = .ok s') :
    s'.lost = s.lost ∨ s.use.ioq.contents.length = bufsize - 1 := by
  obtain ⟨head, tail, -⟩ := sound.ordered.fifo
  cases room : s.use.ioq.full with
  | true =>
      right
      rw [IoQueue.contents, Ring.length_contents]
      exact Ring.count_full head tail (of_decide_eq_true room)
  | false =>
      left
      rw [KbdUse.step] at stepped
      split at stepped
      next own =>
        obtain ⟨use, -, ran⟩ := except_bind_eq_ok.mp stepped
        cases ran
        simp [room]
      next => cases stepped

end Sound

/-- In every run of the threads and the keyboard, what the threads have read and what the queue
still holds is what the typist meant, in its order and without a character twice; only what was
typed while the queue was full is missing. -/
theorem keys_reach_readers {threads : List Tid} (nodup : threads.Nodup) {buf : Nat → UInt8}
    {actions : List KbdAction} {states : List KbdUse}
    (ran : trace step (start threads buf) actions = .ok states) {s : KbdUse}
    (reached : s ∈ start threads buf :: states) {events : List KeyEvent}
    (gentle : Typing.start.GentleAll events)
    (sent : s.received = Typing.start.sessionBytes events) :
    (s.use.returned ++ s.use.ioq.contents).Sublist (Typing.start.sessionMeant events) ∧
      (s.use.returned ++ s.use.ioq.contents).length + s.lost =
        (Typing.start.sessionMeant events).length ∧
      (∀ byte s', s.step (.interrupt byte) = .ok s' →
        s'.lost = s.lost ∨ s.use.ioq.contents.length = bufsize - 1) ∧
      ∀ a fn, s.step a ≠ .error (.panic fn) := by
  have sound := (Sound.start nodup buf).run ran s reached
  have meant : s.typed = Typing.start.sessionMeant events := by
    rw [typed, sent]
    exact Keyboard.linked_start.enqueuedBy_session gentle
  rw [← meant, ← sound.ordered.fifo.order]
  refine ⟨sound.kept, sound.counted, fun byte s' => sound.lost_full, fun a fn panics => ?_⟩
  rcases sound.step a with disabled | ⟨s', went, -⟩
  · rw [disabled] at panics
    cases panics
  · rw [went] at panics
    cases panics

/-- A thread waits for the first character and gets it: shift is pressed, `h`, shift is
released, `i`. -/
def readsHi : List KbdAction :=
  [.thread (.dispatch 1), .thread .ioqGetchar, .interrupt 0x2a, .interrupt 0x23,
    .thread (.dispatch 1), .thread .resume, .interrupt 0xaa, .interrupt 0x17]

theorem keys_reach_readers_hi : ∃ states s events,
    trace step (start [1] fun _ => 0) readsHi = .ok states ∧ s ∈ states ∧
      s.received = Typing.start.sessionBytes events ∧ s.use.returned = [0x48] ∧
      (s.use.returned ++ s.use.ioq.contents).Sublist (Typing.start.sessionMeant events) := by
  let shift : Key := .plain ⟨0x2a, by decide, by decide, by decide⟩
  let h : Key := .plain ⟨0x23, by decide, by decide, by decide⟩
  let i : Key := .plain ⟨0x17, by decide, by decide, by decide⟩
  obtain ⟨states, ran, s, reached, sent, returned⟩ : ∃ states,
      trace step (start [1] fun _ => 0) readsHi = .ok states ∧ ∃ s ∈ states,
        s.received = Typing.start.sessionBytes [.press shift, .press h, .release shift, .press i] ∧
          s.use.returned = [0x48] :=
    ⟨_, rfl, _, List.mem_of_getLast? rfl, rfl, rfl⟩
  have gentle : Typing.start.GentleAll [.press shift, .press h, .release shift, .press i] := by
    refine ⟨fun isV => absurd isV (by decide), fun isV => absurd isV (by decide), ?_,
      fun isV => absurd isV (by decide), trivial⟩
    intro modifier own
    cases modifier <;> rfl
  exact ⟨states, s, _, ran, reached, sent, returned,
    (keys_reach_readers (by decide) ran (.tail _ reached) gentle sent).1⟩

end KbdUse

end HongbaiOS.Device
