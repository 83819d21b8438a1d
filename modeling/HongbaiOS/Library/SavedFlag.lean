import HongbaiOS.Library.Except
import HongbaiOS.Library.Run
import Mathlib.Logic.Function.Basic

/-!
# A flag that functions save and restore

Threads share one processor and one flag, say the one that lets interrupts in.  A function
may clear the flag and put back what it was; a switch to another thread does not save it.
`Keeps` is a type system for such code: code that has a type returns with the flag as it
was at the call, whatever the threads and the interrupt handlers do in between.
-/

namespace HongbaiOS.Library.SavedFlag

/-- Code of a function, over threads `τ`, shared data `σ` and function names `φ`; `ε` says
why a statement does not return. -/
inductive Code (τ σ ε φ : Type) : Type
  /-- A statement.  It may look at the flag but does not change it. -/
  | act (statement : τ → Bool → σ → Except ε σ)
  /-- The flag goes to the function's local variable and is cleared. -/
  | disable
  /-- The flag is set to the local variable. -/
  | restore
  /-- The processor goes to another thread, or the same; only the stack is switched. -/
  | switch (next : σ → τ)
  | seq (first second : Code τ σ ε φ)
  /-- Code that depends on the data: a branch, or a call with computed arguments. -/
  | eval (code : τ → σ → Code τ σ ε φ)
  | loop (test : τ → σ → Bool) (body : Code τ σ ε φ)
  | call (name : φ) (body : Code τ σ ε φ)

structure Frame (τ σ ε φ : Type) where
  name : φ
  code : List (Code τ σ ε φ)
  local' : Bool
  atCall : Bool
  /-- The frame was pushed by an interrupt, and its return sets the flag. -/
  interrupt : Bool

structure State (τ σ ε φ : Type) where
  data : σ
  flag : Bool
  running : τ
  /-- The calls of each thread, innermost first; the empty list is the thread's own code. -/
  stack : τ → List (Frame τ σ ε φ)

inductive Event (σ γ ι : Type)
  /-- The running thread's own code changes the data and sets the flag. -/
  | own (data : σ) (flag : Bool)
  | call (function : γ)
  /-- The innermost function executes its next statement, or returns. -/
  | statement
  | interrupt (line : ι)

section Machine

variable {τ σ ε φ γ ι : Type} [DecidableEq τ]

namespace State

def setStack (s : State τ σ ε φ) (stack : List (Frame τ σ ε φ)) : State τ σ ε φ :=
  { s with stack := Function.update s.stack s.running stack }

def push (s : State τ σ ε φ) (name : φ) (body : Code τ σ ε φ) (interrupt : Bool) :
    State τ σ ε φ :=
  s.setStack (⟨name, [body], false, s.flag, interrupt⟩ :: s.stack s.running)

/-- The innermost frame `frame` goes on with `code`. -/
def goOn (s : State τ σ ε φ) (frame : Frame τ σ ε φ) (code : List (Code τ σ ε φ))
    (below : List (Frame τ σ ε φ)) : State τ σ ε φ :=
  s.setStack ({ frame with code } :: below)

/-- The next statement of the innermost frame. -/
def execute (s : State τ σ ε φ) (frame : Frame τ σ ε φ) (below : List (Frame τ σ ε φ)) :
    Except ε (State τ σ ε φ) :=
  match frame.code with
  | [] => .ok ({ s with flag := if frame.interrupt then true else s.flag }.setStack below)
  | .act statement :: rest => do
      let data ← statement s.running s.flag s.data
      return { s with data }.goOn frame rest below
  | .disable :: rest =>
      .ok ({ s with flag := false }.goOn { frame with local' := s.flag } rest below)
  | .restore :: rest => .ok ({ s with flag := frame.local' }.goOn frame rest below)
  | .switch next :: rest =>
      .ok { s.goOn frame rest below with running := next s.data }
  | .seq first second :: rest => .ok (s.goOn frame (first :: second :: rest) below)
  | .eval code :: rest => .ok (s.goOn frame (code s.running s.data :: rest) below)
  | .loop test body :: rest =>
      if test s.running s.data then
        .ok (s.goOn frame (body :: .loop test body :: rest) below)
      else .ok (s.goOn frame rest below)
  | .call name body :: rest => .ok ((s.goOn frame rest below).push name body false)

/-- One step of the machine.  An interrupt needs the flag and clears it. -/
def step (disabled : ε) (function : γ → φ × Code τ σ ε φ) (handler : ι → φ × Code τ σ ε φ)
    (s : State τ σ ε φ) : Event σ γ ι → Except ε (State τ σ ε φ)
  | .own data flag =>
      match s.stack s.running with
      | [] => .ok { s with data, flag }
      | _ :: _ => .error disabled
  | .call f =>
      match s.stack s.running with
      | [] => .ok (s.push (function f).1 (function f).2 false)
      | _ :: _ => .error disabled
  | .statement =>
      match s.stack s.running with
      | [] => .error disabled
      | frame :: below => s.execute frame below
  | .interrupt line =>
      if s.flag then
        .ok ({ s with flag := false }.push (handler line).1 (handler line).2 true)
      else .error disabled

end State

/-- What is known of the flag between two statements of a function. -/
inductive Mode where
  /-- It is as it was at the call. -/
  | same
  /-- It is cleared, and the local variable holds what it was at the call. -/
  | cleared

/-- Code that takes one mode to another.  `NeedsClear` are the functions that may only be
called with the flag cleared, and `inClear` says that the code is part of one of them. -/
inductive Keeps (NeedsClear : φ → Prop) : (inClear : Prop) → Mode → Code τ σ ε φ → Mode → Prop
  | act {inClear : Prop} (m : Mode) (statement : τ → Bool → σ → Except ε σ) :
      Keeps NeedsClear inClear m (.act statement) m
  | disable {inClear : Prop} : Keeps NeedsClear inClear .same .disable .cleared
  | restore {inClear : Prop} : Keeps NeedsClear inClear .cleared .restore .same
  | switch {inClear : Prop} {m : Mode} (next : σ → τ) (clear : m = .cleared ∨ inClear) :
      Keeps NeedsClear inClear m (.switch next) m
  | seq {inClear : Prop} {m m' m'' : Mode} {first second : Code τ σ ε φ}
      (before : Keeps NeedsClear inClear m first m')
      (after : Keeps NeedsClear inClear m' second m'') :
      Keeps NeedsClear inClear m (.seq first second) m''
  | eval {inClear : Prop} {m m' : Mode} {code : τ → σ → Code τ σ ε φ}
      (each : ∀ t data, Keeps NeedsClear inClear m (code t data) m') :
      Keeps NeedsClear inClear m (.eval code) m'
  | loop {inClear : Prop} {m : Mode} {test : τ → σ → Bool} {body : Code τ σ ε φ}
      (each : Keeps NeedsClear inClear m body m) :
      Keeps NeedsClear inClear m (.loop test body) m
  | call {inClear : Prop} {m : Mode} {name : φ} {body : Code τ σ ε φ}
      (keeps : Keeps NeedsClear (NeedsClear name) .same body .same)
      (clear : NeedsClear name → m = .cleared ∨ inClear) :
      Keeps NeedsClear inClear m (.call name body) m

/-- The rest of a function's body. -/
inductive KeepsAll (NeedsClear : φ → Prop) (inClear : Prop) :
    Mode → List (Code τ σ ε φ) → Prop
  | nil : KeepsAll NeedsClear inClear .same []
  | cons {m m' : Mode} {code : Code τ σ ε φ} {rest : List (Code τ σ ε φ)}
      (head : Keeps NeedsClear inClear m code m')
      (tail : KeepsAll NeedsClear inClear m' rest) :
      KeepsAll NeedsClear inClear m (code :: rest)

/-- The flag that a frame expects in a mode. -/
def Frame.expects (frame : Frame τ σ ε φ) : Mode → Bool
  | .same => frame.atCall
  | .cleared => false

/-- The frame stands in mode `m` of code that keeps the flag. -/
structure Frame.Typed (NeedsClear : φ → Prop) (frame : Frame τ σ ε φ) (m : Mode) : Prop where
  keeps : KeepsAll NeedsClear (NeedsClear frame.name) m frame.code
  saved : m = .cleared → frame.local' = frame.atCall
  clear : NeedsClear frame.name → frame.atCall = false
  masked : frame.interrupt = true → frame.atCall = false

/-- The frames of a stack fit each other, and the innermost expects the flag to be `flag`. -/
def StackTyped (NeedsClear : φ → Prop) : Bool → List (Frame τ σ ε φ) → Prop
  | _, [] => True
  | flag, frame :: below =>
      (∃ m, frame.Typed NeedsClear m ∧ flag = frame.expects m) ∧
        StackTyped NeedsClear (frame.interrupt || frame.atCall) below

/-- The running thread fits the flag, and the others expect it cleared, as they gave the
processor away. -/
structure State.Typed (NeedsClear : φ → Prop) (s : State τ σ ε φ) : Prop where
  running : StackTyped NeedsClear s.flag (s.stack s.running)
  others : ∀ t, t ≠ s.running → StackTyped NeedsClear false (s.stack t)

variable {NeedsClear : φ → Prop} {s s' : State τ σ ε φ} {frame : Frame τ σ ε φ}
  {below : List (Frame τ σ ε φ)}

omit [DecidableEq τ] in
theorem StackTyped.clear {flag : Bool} {frames : List (Frame τ σ ε φ)}
    (typed : StackTyped NeedsClear flag frames) {frame : Frame τ σ ε φ} (member : frame ∈ frames)
    (needs : NeedsClear frame.name) : frame.atCall = false := by
  induction frames generalizing flag with
  | nil => cases member
  | cons first rest inductionHypothesis =>
      obtain ⟨⟨_, frameTyped, -⟩, restTyped⟩ := typed
      rcases List.mem_cons.mp member with rfl | later
      · exact frameTyped.clear needs
      · exact inductionHypothesis restTyped later

namespace State

theorem typed_setStack {frames : List (Frame τ σ ε φ)}
    (others : ∀ t, t ≠ s.running → StackTyped NeedsClear false (s.stack t))
    (fits : StackTyped NeedsClear s.flag frames) : (s.setStack frames).Typed NeedsClear := by
  constructor
  · have top : (s.setStack frames).stack s.running = frames := Function.update_self ..
    change StackTyped NeedsClear s.flag ((s.setStack frames).stack s.running)
    rw [top]
    exact fits
  · intro t other
    have same : (s.setStack frames).stack t = s.stack t := Function.update_of_ne other ..
    rw [same]
    exact others t other

/-- A function that has just been called. -/
theorem push_typed {name : φ} {body : Code τ σ ε φ} {interrupt : Bool}
    (others : ∀ t, t ≠ s.running → StackTyped NeedsClear false (s.stack t))
    (keeps : Keeps NeedsClear (NeedsClear name) .same body .same)
    (clear : NeedsClear name → s.flag = false)
    (masked : interrupt = true → s.flag = false)
    (fits : StackTyped NeedsClear (interrupt || s.flag) (s.stack s.running)) :
    (s.push name body interrupt).Typed NeedsClear :=
  typed_setStack others
    ⟨⟨.same, ⟨.cons keeps .nil, (fun other => nomatch other), clear, masked⟩, rfl⟩, fits⟩

theorem goOn_typed {m : Mode} {code : List (Code τ σ ε φ)}
    (others : ∀ t, t ≠ s.running → StackTyped NeedsClear false (s.stack t))
    (frameTyped : Frame.Typed NeedsClear { frame with code } m)
    (flag : s.flag = frame.expects m)
    (belowTyped : StackTyped NeedsClear (frame.interrupt || frame.atCall) below) :
    (s.goOn frame code below).Typed NeedsClear :=
  typed_setStack others ⟨⟨m, frameTyped, by cases m <;> exact flag⟩, belowTyped⟩

/-- The processor is given away: the flag is cleared, and that is what any thread expects
that gets it. -/
theorem switch_typed {u : τ} (typed : s.Typed NeedsClear) (cleared : s.flag = false) :
    { s with running := u }.Typed NeedsClear := by
  have each : ∀ t, StackTyped NeedsClear false (s.stack t) := by
    intro t
    by_cases this : t = s.running
    · have own := typed.running
      rw [cleared] at own
      rw [this]
      exact own
    · exact typed.others t this
  constructor
  · change StackTyped NeedsClear s.flag (s.stack u)
    rw [cleared]
    exact each u
  · exact fun t _ => each t

/-- A statement of the innermost function. -/
theorem Typed.execute (typed : s.Typed NeedsClear) (atTop : s.stack s.running = frame :: below)
    (ran : s.execute frame below = .ok s') : s'.Typed NeedsClear := by
  obtain ⟨name, code, local', atCall, interrupt⟩ := frame
  have fits := typed.running
  rw [atTop] at fits
  obtain ⟨⟨m, ⟨keeps, saved, clear, masked⟩, flag⟩, belowTyped⟩ := fits
  have others := typed.others
  cases keeps with
  | nil =>
      -- the return: an interrupt puts the flag back itself
      obtain rfl := Except.ok.inj ran
      refine typed_setStack others ?_
      cases interrupt with
      | true => exact belowTyped
      | false =>
          change s.flag = atCall at flag
          change StackTyped NeedsClear s.flag below
          rw [flag]
          exact belowTyped
  | @cons m m' _ rest head tail =>
      cases head with
      | act _ statement =>
          obtain ⟨data, -, ran⟩ := except_bind_eq_ok.mp ran
          obtain rfl := Except.ok.inj ran
          exact goOn_typed others ⟨tail, saved, clear, masked⟩ flag belowTyped
      | disable =>
          obtain rfl := Except.ok.inj ran
          exact goOn_typed others ⟨tail, fun _ => flag, clear, masked⟩ rfl belowTyped
      | restore =>
          obtain rfl := Except.ok.inj ran
          exact goOn_typed others ⟨tail, (fun other => nomatch other), clear, masked⟩ (saved rfl)
            belowTyped
      | switch next allowed =>
          obtain rfl := Except.ok.inj ran
          refine switch_typed (goOn_typed others ⟨tail, saved, clear, masked⟩ flag belowTyped) ?_
          rcases allowed with rfl | inClear
          · exact flag
          · cases m with
            | same => exact flag.trans (clear inClear)
            | cleared => exact flag
      | seq before after =>
          obtain rfl := Except.ok.inj ran
          exact goOn_typed others ⟨.cons before (.cons after tail), saved, clear, masked⟩ flag
            belowTyped
      | eval each =>
          obtain rfl := Except.ok.inj ran
          exact goOn_typed others ⟨.cons (each _ _) tail, saved, clear, masked⟩ flag belowTyped
      | loop each =>
          simp only [State.execute] at ran
          split at ran
          · obtain rfl := Except.ok.inj ran
            exact goOn_typed others ⟨.cons each (.cons (.loop each) tail), saved, clear, masked⟩
              flag belowTyped
          · obtain rfl := Except.ok.inj ran
            exact goOn_typed others ⟨tail, saved, clear, masked⟩ flag belowTyped
      | call keeps allowed =>
          obtain rfl := Except.ok.inj ran
          have stays : (s.goOn ⟨name, _, local', atCall, interrupt⟩ rest below).Typed NeedsClear :=
            goOn_typed others ⟨tail, saved, clear, masked⟩ flag belowTyped
          refine push_typed stays.others keeps (fun needs => ?_) (fun other => nomatch other)
            stays.running
          rcases allowed needs with rfl | inClear
          · exact flag
          · cases m with
            | same => exact flag.trans (clear inClear)
            | cleared => exact flag

/-- What the machine may be built from: every function and every handler keeps the flag, and
the threads' own code calls none that needs it cleared. -/
structure Wellformed (NeedsClear : φ → Prop) (function : γ → φ × Code τ σ ε φ)
    (handler : ι → φ × Code τ σ ε φ) : Prop where
  function : ∀ f, Keeps NeedsClear (NeedsClear (function f).1) .same (function f).2 .same ∧
    ¬ NeedsClear (function f).1
  handler : ∀ line, Keeps NeedsClear (NeedsClear (handler line).1) .same (handler line).2 .same

theorem Typed.step {disabled : ε} {function : γ → φ × Code τ σ ε φ}
    {handler : ι → φ × Code τ σ ε φ} {event : Event σ γ ι} (typed : s.Typed NeedsClear)
    (wellformed : Wellformed NeedsClear function handler)
    (ran : s.step disabled function handler event = .ok s') : s'.Typed NeedsClear := by
  cases event with
  | own data flag =>
      simp only [State.step] at ran
      split at ran
      next inOwn =>
        obtain rfl := Except.ok.inj ran
        refine ⟨?_, typed.others⟩
        simp only [inOwn]
        trivial
      next => cases ran
  | call f =>
      simp only [State.step] at ran
      split at ran
      next inOwn =>
        obtain rfl := Except.ok.inj ran
        refine push_typed typed.others (wellformed.function f).1
          (fun needs => absurd needs (wellformed.function f).2) (fun other => nomatch other) ?_
        rw [inOwn]
        trivial
      next => cases ran
  | statement =>
      simp only [State.step] at ran
      split at ran
      next => cases ran
      next frame below atTop => exact typed.execute atTop ran
  | interrupt line =>
      simp only [State.step] at ran
      split at ran
      next on =>
        obtain rfl := Except.ok.inj ran
        refine push_typed typed.others (wellformed.handler line) (fun _ => rfl) (fun _ => rfl) ?_
        have fits := typed.running
        rw [on] at fits
        exact fits
      next => cases ran

/-- Before any thread has called a function. -/
def start (data : σ) (flag : Bool) (running : τ) : State τ σ ε φ :=
  ⟨data, flag, running, fun _ => []⟩

omit [DecidableEq τ] in
theorem start_typed (data : σ) (flag : Bool) (running : τ) :
    (start data flag running : State τ σ ε φ).Typed NeedsClear :=
  ⟨trivial, fun _ _ => trivial⟩

/-- In every state of a run, a function about to return has the flag as it was at the call,
and one that needs the flag cleared was called so. -/
theorem run_keeps {disabled : ε} {function : γ → φ × Code τ σ ε φ}
    {handler : ι → φ × Code τ σ ε φ} (wellformed : Wellformed NeedsClear function handler)
    {data : σ} {flag : Bool} {running : τ} {events : List (Event σ γ ι)}
    {states : List (State τ σ ε φ)}
    (ran : trace (State.step disabled function handler) (start data flag running) events =
      .ok states) :
    ∀ s ∈ states,
      (∀ frame below, s.stack s.running = frame :: below → frame.code = [] →
        s.flag = frame.atCall) ∧
      ∀ t, ∀ frame ∈ s.stack t, NeedsClear frame.name → frame.atCall = false := by
  intro s member
  have keepsTyped : ∀ s (event : Event σ γ ι) s', Typed NeedsClear s → True →
      State.step disabled function handler s event = .ok s' → Typed NeedsClear s' :=
    fun _ _ _ typed _ ran => typed.step wellformed ran
  have typed : s.Typed NeedsClear := invariant_of_trace keepsTyped
    (start_typed data flag running) (fun _ _ => trivial) ran s member
  constructor
  · rintro ⟨name, code, local', atCall, interrupt⟩ below atTop returns
    obtain rfl : code = [] := returns
    have fits := typed.running
    rw [atTop] at fits
    obtain ⟨⟨m, ⟨keeps, -, -, -⟩, flag⟩, -⟩ := fits
    cases keeps with
    | nil => exact flag
  · intro t frame inStack needs
    by_cases this : t = s.running
    · rw [this] at inStack
      exact typed.running.clear inStack needs
    · exact (typed.others t this).clear inStack needs

end State

end Machine

end HongbaiOS.Library.SavedFlag
