import HongbaiOS.Library.WordStack
import Mathlib.Tactic.Common

/-!
# Entry into the kernel and the way out

The stubs of `kernel.S` over the registers and a memory of words: what the processor and a
stub push, the call of a C function, and `intr_exit`, which pops blindly.  `eip` is
modelled where it is saved and loaded only.  Selectors are pushed as words whose upper half
depends on the processor.
-/

namespace HongbaiOS.Kernel

open HongbaiOS.Library

abbrev Word := BitVec 32

abbrev Selector := BitVec 16

structure Regs where
  eax : Word
  ecx : Word
  edx : Word
  ebx : Word
  esp : Word
  ebp : Word
  esi : Word
  edi : Word
  ds : Selector
  es : Selector
  fs : Selector
  gs : Selector
  cs : Selector
  ss : Selector
  eip : Word
  eflags : Word
  deriving DecidableEq

/-- The privilege level of code that runs with this `cs`. -/
def privilege (cs : Selector) : Nat := (cs &&& 3).toNat

/-- `SELECTOR_K_CODE`, `SELECTOR_U_CODE` and `SELECTOR_U_DATA` -/
def selectorKCode : Selector := 0x08
def selectorUCode : Selector := 0x2b
def selectorUData : Selector := 0x33

/-- The privilege level of a descriptor: user code and data are entries 5 and 6. -/
def descriptorDpl (selector : Selector) : Nat :=
  if selector >>> 3 = 5 ∨ selector >>> 3 = 6 then 3 else 0

/-- Code at a level may keep a selector in a data segment register. -/
def Usable (level : Nat) (selector : Selector) : Prop :=
  selector >>> 2 = 0 ∨ level ≤ descriptorDpl selector

instance (level : Nat) (selector : Selector) : Decidable (Usable level selector) :=
  inferInstanceAs (Decidable (_ ∨ _))

/-- What the stubs depend on besides their own code. -/
structure Processor where
  /-- `ss0` and `esp0` of the TSS -/
  ss0 : Selector
  esp0 : Word
  /-- The word a pushed selector leaves on the stack, given what was there before. -/
  selectorWord : Word → Selector → Word
  selectorWord_low : ∀ old selector, (selectorWord old selector).setWidth 16 = selector

structure Machine where
  regs : Regs
  memory : Word → Word

namespace Machine

def push (m : Machine) (word : Word) : Machine where
  regs := { m.regs with esp := m.regs.esp - 4 }
  memory := Function.update m.memory (m.regs.esp - 4) word

/-- `push` of a segment register -/
def pushSelector (cpu : Processor) (m : Machine) (selector : Selector) : Machine :=
  m.push (cpu.selectorWord (m.memory (m.regs.esp - 4)) selector)

/-- The word `index` places above `esp`. -/
def slot (m : Machine) (index : Nat) : Word := m.memory (wordAddress m.regs.esp index)

/-- `add esp, 4 * count` -/
def skip (m : Machine) (count : Nat) : Machine :=
  { m with regs.esp := wordAddress m.regs.esp count }

/-- `mov [esp + 4 * index], word` -/
def store (m : Machine) (index : Nat) (word : Word) : Machine :=
  { m with memory := Function.update m.memory (wordAddress m.regs.esp index) word }

def pushad (m : Machine) : Machine :=
  (((((((m.push m.regs.eax).push m.regs.ecx).push m.regs.edx).push m.regs.ebx).push
    m.regs.esp).push m.regs.ebp).push m.regs.esi).push m.regs.edi

/-- The stored `esp` is passed over. -/
def popad (m : Machine) : Machine :=
  { m with
    regs := { m.regs with
      edi := m.slot 0
      esi := m.slot 1
      ebp := m.slot 2
      ebx := m.slot 4
      edx := m.slot 5
      ecx := m.slot 6
      eax := m.slot 7
      esp := wordAddress m.regs.esp 8 } }

/-- `pop gs`, `pop fs`, `pop es`, `pop ds` -/
def popSegments (m : Machine) : Machine :=
  { m with
    regs := { m.regs with
      gs := (m.slot 0).setWidth 16
      fs := (m.slot 1).setWidth 16
      es := (m.slot 2).setWidth 16
      ds := (m.slot 3).setWidth 16
      esp := wordAddress m.regs.esp 4 } }

/-- What is left in a data segment register on the way to a less privileged level. -/
def keepUsable (level : Nat) (selector : Selector) : Selector :=
  if Usable level selector then selector else 0

/-- `iretd`; on the way to a less privileged level `esp` and `ss` are popped too. -/
def iretd (m : Machine) : Machine :=
  let cs := (m.slot 1).setWidth 16
  let regs := { m.regs with
    eip := m.slot 0
    cs := cs
    eflags := m.slot 2
    esp := wordAddress m.regs.esp 3 }
  if privilege m.regs.cs < privilege cs then
    { m with
      regs := { regs with
        esp := m.slot 3
        ss := (m.slot 4).setWidth 16
        ds := keepUsable (privilege cs) regs.ds
        es := keepUsable (privilege cs) regs.es
        fs := keepUsable (privilege cs) regs.fs
        gs := keepUsable (privilege cs) regs.gs } }
  else
    { m with regs := regs }

/-- The part of the frame that depends on the privilege level of the interrupted code. -/
def switchStack (cpu : Processor) (m : Machine) : Machine :=
  if 0 < privilege m.regs.cs then
    (pushSelector cpu { m with regs.ss := cpu.ss0, regs.esp := cpu.esp0 } m.regs.ss).push
      m.regs.esp
  else m

/-- Delivery of an interrupt through a gate of the kernel, which clears `TF`, `IF` and `NT`. -/
def interrupt (cpu : Processor) (errorCode : Option Word) (m : Machine) : Machine :=
  let pushed := ((switchStack cpu m).push m.regs.eflags |>.pushSelector cpu m.regs.cs).push
    m.regs.eip
  let pushed := match errorCode with
    | some code => pushed.push code
    | none => pushed
  { pushed with
    regs.cs := selectorKCode
    regs.eflags := m.regs.eflags &&& ~~~0x4300 }

end Machine

/-- A C function: it returns with its stack as it was, may have written to its arguments,
and keeps the `frame` words its caller has behind them.  The registers that a C function
keeps too are not needed. -/
structure Handler (arguments frame : Nat) where
  run : Machine → Machine
  esp : ∀ m, (run m).regs.esp = m.regs.esp + 4
  cs : ∀ m, (run m).regs.cs = m.regs.cs
  ss : ∀ m, (run m).regs.ss = m.regs.ss
  kept : ∀ m index, 1 + arguments ≤ index → index < 1 + arguments + frame →
    (run m).memory (wordAddress m.regs.esp index) = m.memory (wordAddress m.regs.esp index)

/-- A function that returns at once. -/
def Handler.ret {arguments frame : Nat} : Handler arguments frame where
  run m := { m with regs := { m.regs with esp := m.regs.esp + 4 } }
  esp _ := rfl
  cs _ := rfl
  ss _ := rfl
  kept _ _ _ _ := rfl

/-- The second argument of `VECTOR`. -/
inductive ErrorMacro where
  | errorCode | zero
  deriving DecidableEq

/-- The lines `VECTOR`. -/
def vectors : List (Nat × ErrorMacro) := [
  (0x00, .zero), (0x01, .zero), (0x02, .zero), (0x03, .zero), (0x04, .zero), (0x05, .zero),
  (0x06, .zero), (0x07, .zero), (0x08, .errorCode), (0x09, .zero), (0x0a, .errorCode),
  (0x0b, .errorCode), (0x0c, .errorCode), (0x0d, .errorCode), (0x0e, .errorCode),
  (0x0f, .zero), (0x10, .zero), (0x11, .errorCode), (0x12, .zero), (0x13, .zero),
  (0x14, .zero), (0x15, .zero), (0x16, .zero), (0x17, .zero), (0x18, .zero), (0x19, .zero),
  (0x1a, .zero), (0x1b, .zero), (0x1c, .zero), (0x1d, .zero), (0x1e, .errorCode),
  (0x1f, .zero), (0x20, .zero), (0x21, .zero), (0x22, .zero), (0x23, .zero), (0x24, .zero),
  (0x25, .zero), (0x26, .zero), (0x27, .zero), (0x28, .zero), (0x29, .zero), (0x2a, .zero),
  (0x2b, .zero), (0x2c, .zero), (0x2d, .zero), (0x2e, .zero), (0x2f, .zero)]

/-- The error code the processor pushes, exactly for the vectors declared so. -/
def ErrorMacro.pushed (code : Word) : ErrorMacro → Option Word
  | .errorCode => some code
  | .zero => none

/-- The words of the frame behind the vector number, for interrupted code with this `cs`. -/
def frameWords (cs : Selector) : Nat := if 0 < privilege cs then 18 else 16

namespace Machine

/-- `intr_exit` -/
def intrExit (m : Machine) : Machine := (m.skip 1 |>.popad.popSegments.skip 1).iretd

/-- The four segment registers and the general ones. -/
def saveContext (cpu : Processor) (m : Machine) : Machine :=
  (pushSelector cpu (pushSelector cpu (pushSelector cpu (pushSelector cpu m m.regs.ds)
    m.regs.es) m.regs.fs) m.regs.gs).pushad

/-- `mov al, 0x20` for the two interrupt controllers. -/
def sendEoi (m : Machine) : Machine :=
  { m with regs.eax := m.regs.eax &&& 0xffffff00 ||| 0x20 }

/-- `intrNNentry` up to the call of the C function; `returnAddress` is pushed by the call. -/
def intrEntry (cpu : Processor) (returnAddress : Word) (filler : ErrorMacro) (vector : Nat)
    (m : Machine) : Machine :=
  let m := match filler with
    | .errorCode => m
    | .zero => m.push 0
  ((m.saveContext cpu).sendEoi.push (BitVec.ofNat 32 vector)).push returnAddress

/-- `syscall_handler` up to the call of the C function. -/
def syscallEntry (cpu : Processor) (returnAddress : Word) (m : Machine) : Machine :=
  let m := ((m.push 0).saveContext cpu).push 0x80
  (((m.push m.regs.edx).push m.regs.ecx).push m.regs.ebx).push returnAddress

/-- The rest of `syscall_handler`. -/
def syscallReturn (m : Machine) : Machine :=
  let m := m.skip 3
  (m.store 8 m.regs.eax).intrExit

/-- `intrNNentry` -/
def intrStub (cpu : Processor) (returnAddress : Word) {frame : Nat}
    (idtTable : Nat → Handler 1 frame) (filler : ErrorMacro) (vector : Nat) (m : Machine) :
    Machine :=
  ((idtTable vector).run (m.intrEntry cpu returnAddress filler vector)).intrExit

/-- `syscall_handler` -/
def syscallHandler (cpu : Processor) (returnAddress : Word) {frame : Nat}
    (syscallTable : Word → Handler 3 frame) (m : Machine) : Machine :=
  let called := m.syscallEntry cpu returnAddress
  ((syscallTable called.regs.eax).run called).syscallReturn

end Machine

/-- `struct intr_stack` -/
structure IntrStack where
  vecNo : Word
  edi : Word
  esi : Word
  ebp : Word
  espDummy : Word
  ebx : Word
  edx : Word
  ecx : Word
  eax : Word
  gs : Word
  fs : Word
  es : Word
  ds : Word
  errCode : Word
  eip : Word
  cs : Word
  eflags : Word
  esp : Word
  ss : Word

namespace IntrStack

/-- The code segment the frame returns to. -/
def codeSelector (frame : IntrStack) : Selector := frame.cs.setWidth 16

/-- The frame in memory; the last two fields are there for less privileged code only. -/
def words (frame : IntrStack) : List Word :=
  [frame.vecNo, frame.edi, frame.esi, frame.ebp, frame.espDummy, frame.ebx, frame.edx,
    frame.ecx, frame.eax, frame.gs, frame.fs, frame.es, frame.ds, frame.errCode, frame.eip,
    frame.cs, frame.eflags] ++
    if 0 < privilege frame.codeSelector then [frame.esp, frame.ss] else []

/-- The registers with each loaded from the field of its name. -/
def loaded (frame : IntrStack) : Regs where
  eax := frame.eax
  ecx := frame.ecx
  edx := frame.edx
  ebx := frame.ebx
  esp := frame.esp
  ebp := frame.ebp
  esi := frame.esi
  edi := frame.edi
  ds := frame.ds.setWidth 16
  es := frame.es.setWidth 16
  fs := frame.fs.setWidth 16
  gs := frame.gs.setWidth 16
  cs := frame.codeSelector
  ss := frame.ss.setWidth 16
  eip := frame.eip
  eflags := frame.eflags

end IntrStack

/-- What code at its level can have in its data segment registers. -/
structure Regs.Valid (regs : Regs) : Prop where
  ds : Usable (privilege regs.cs) regs.ds
  es : Usable (privilege regs.cs) regs.es
  fs : Usable (privilege regs.cs) regs.fs
  gs : Usable (privilege regs.cs) regs.gs

namespace Machine

variable {m : Machine} {words : List Word} {frame : IntrStack}

def OnStack (m : Machine) (words : List Word) : Prop :=
  HoldsWords m.memory m.regs.esp words

theorem OnStack.slot (onStack : m.OnStack words) (index : Nat) {word : Word}
    (found : words[index]? = some word) : m.slot index = word :=
  onStack index word found

theorem slot_skip (m : Machine) (count index : Nat) :
    (m.skip count).slot index = m.slot (count + index) :=
  congrArg m.memory (wordAddress_wordAddress _ _ _)

theorem slot_popad (m : Machine) (index : Nat) : m.popad.slot index = m.slot (8 + index) :=
  congrArg m.memory (wordAddress_wordAddress _ _ _)

theorem slot_popSegments (m : Machine) (index : Nat) :
    m.popSegments.slot index = m.slot (4 + index) :=
  congrArg m.memory (wordAddress_wordAddress _ _ _)

/-- The registers in front of `iretd`, by the slots they come from. -/
theorem restored_regs (m : Machine) :
    (m.skip 1 |>.popad.popSegments.skip 1).regs =
      { m.regs with
        edi := m.slot 1
        esi := m.slot 2
        ebp := m.slot 3
        ebx := m.slot 5
        edx := m.slot 6
        ecx := m.slot 7
        eax := m.slot 8
        gs := (m.slot 9).setWidth 16
        fs := (m.slot 10).setWidth 16
        es := (m.slot 11).setWidth 16
        ds := (m.slot 12).setWidth 16
        esp := wordAddress m.regs.esp 14 } := by
  simp only [skip, popad, popSegments, slot, wordAddress_wordAddress, Nat.reduceAdd]

theorem slot_restored (m : Machine) (index : Nat) :
    (m.skip 1 |>.popad.popSegments.skip 1).slot index = m.slot (14 + index) := by
  rw [slot_skip, slot_popSegments, slot_popad, slot_skip]
  congr 1
  omega

theorem intrExit_outer (kernel : privilege m.regs.cs = 0) (onStack : m.OnStack frame.words)
    (outer : 0 < privilege frame.codeSelector) (valid : frame.loaded.Valid) :
    m.intrExit.regs = frame.loaded := by
  have slot := onStack.slot
  simp only [IntrStack.words, if_pos outer] at slot
  have cs : (m.slot 15).setWidth 16 = frame.codeSelector := by rw [slot 15 rfl]; rfl
  rw [intrExit, iretd]
  simp only [slot_restored, restored_regs, Nat.reduceAdd, cs, kernel, outer, if_true]
  rw [slot 1 rfl, slot 2 rfl, slot 3 rfl, slot 5 rfl, slot 6 rfl, slot 7 rfl, slot 8 rfl,
    slot 9 rfl, slot 10 rfl, slot 11 rfl, slot 12 rfl, slot 14 rfl, slot 16 rfl, slot 17 rfl,
    slot 18 rfl]
  have ds : keepUsable _ _ = _ := if_pos valid.ds
  have es : keepUsable _ _ = _ := if_pos valid.es
  have fs : keepUsable _ _ = _ := if_pos valid.fs
  have gs : keepUsable _ _ = _ := if_pos valid.gs
  simp only [IntrStack.loaded] at ds es fs gs
  rw [ds, es, fs, gs, IntrStack.loaded]

theorem intrExit_inner (onStack : m.OnStack frame.words)
    (inner : privilege frame.codeSelector = 0) :
    m.intrExit.regs =
      { frame.loaded with esp := wordAddress m.regs.esp 17, ss := m.regs.ss } := by
  have slot := onStack.slot
  simp only [IntrStack.words, inner, Nat.lt_irrefl, if_false, List.append_nil] at slot
  have cs : (m.slot 15).setWidth 16 = frame.codeSelector := by rw [slot 15 rfl]; rfl
  rw [intrExit, iretd]
  simp only [slot_restored, restored_regs, Nat.reduceAdd, cs, inner, Nat.not_lt_zero, if_false,
    wordAddress_wordAddress]
  rw [slot 1 rfl, slot 2 rfl, slot 3 rfl, slot 5 rfl, slot 6 rfl, slot 7 rfl, slot 8 rfl,
    slot 9 rfl, slot 10 rfl, slot 11 rfl, slot 12 rfl, slot 14 rfl, slot 16 rfl,
    IntrStack.loaded]

variable {cpu : Processor}

@[simp]
theorem push_regs (word : Word) :
    (m.push word).regs = { m.regs with esp := m.regs.esp - 4 } := rfl

@[simp]
theorem pushSelector_regs (selector : Selector) :
    (m.pushSelector cpu selector).regs = { m.regs with esp := m.regs.esp - 4 } := rfl

theorem OnStack.push (onStack : m.OnStack words) (short : words.length < 64) (word : Word) :
    (m.push word).OnStack (word :: words) :=
  HoldsWords.push onStack (by omega) word

theorem OnStack.sendEoi (onStack : m.OnStack words) : m.sendEoi.OnStack words := onStack

theorem OnStack.pushSelector (onStack : m.OnStack words) (cpu : Processor)
    (short : words.length < 64) (selector : Selector) :
    ∃ word, word.setWidth 16 = selector ∧
      (m.pushSelector cpu selector).OnStack (word :: words) :=
  ⟨_, cpu.selectorWord_low _ selector, onStack.push short _⟩

theorem switchStack_onStack (cpu : Processor) (m : Machine) :
    ∃ ss, ss.setWidth 16 = m.regs.ss ∧ (m.switchStack cpu).OnStack
      (if 0 < privilege m.regs.cs then [m.regs.esp, ss] else []) := by
  rw [switchStack]
  split
  · obtain ⟨ss, isSs, onStack⟩ := OnStack.pushSelector
      (m := { m with regs.ss := cpu.ss0, regs.esp := cpu.esp0 }) HoldsWords.nil cpu (by simp)
      m.regs.ss
    exact ⟨ss, isSs, onStack.push (by simp) m.regs.esp⟩
  · exact ⟨m.regs.ss.setWidth 32, by simp, HoldsWords.nil⟩

/-- An interrupt and the first line of its stub. -/
def withErrorCode (cpu : Processor) (filler : ErrorMacro) (code : Word) (m : Machine) :
    Machine :=
  match filler with
  | .errorCode => m.interrupt cpu (filler.pushed code)
  | .zero => (m.interrupt cpu (filler.pushed code)).push 0

theorem withErrorCode_onStack (cpu : Processor) (filler : ErrorMacro) (code : Word)
    (m : Machine) :
    ∃ ss cs errCode : Word, ss.setWidth 16 = m.regs.ss ∧ cs.setWidth 16 = m.regs.cs ∧
      (m.withErrorCode cpu filler code).OnStack
      (errCode :: m.regs.eip :: cs :: m.regs.eflags ::
        if 0 < privilege m.regs.cs then [m.regs.esp, ss] else []) := by
  obtain ⟨ss, isSs, switched⟩ := switchStack_onStack cpu m
  have short : (if 0 < privilege m.regs.cs then [m.regs.esp, ss] else []).length ≤ 2 := by
    split <;> simp
  obtain ⟨cs, isCs, pushed⟩ := (switched.push (by omega) m.regs.eflags).pushSelector cpu
    (by simp only [List.length_cons]; omega) m.regs.cs
  have pushed := pushed.push (by simp only [List.length_cons]; omega) m.regs.eip
  cases filler with
  | errorCode =>
    exact ⟨ss, cs, code, isSs, isCs, pushed.push (by simp only [List.length_cons]; omega) code⟩
  | zero =>
    exact ⟨ss, cs, 0, isSs, isCs, OnStack.push (m := m.interrupt cpu none) pushed
      (by simp only [List.length_cons]; omega) 0⟩

theorem saveContext_onStack (cpu : Processor) (onStack : m.OnStack words)
    (short : words.length < 50) :
    ∃ espDummy gs fs es ds, gs.setWidth 16 = m.regs.gs ∧ fs.setWidth 16 = m.regs.fs ∧
      es.setWidth 16 = m.regs.es ∧ ds.setWidth 16 = m.regs.ds ∧
      (m.saveContext cpu).OnStack (m.regs.edi :: m.regs.esi :: m.regs.ebp :: espDummy ::
        m.regs.ebx :: m.regs.edx :: m.regs.ecx :: m.regs.eax :: gs :: fs :: es :: ds ::
        words) := by
  obtain ⟨ds, isDs, onStack⟩ := onStack.pushSelector cpu (by omega) m.regs.ds
  obtain ⟨es, isEs, onStack⟩ := onStack.pushSelector cpu
    (by simp only [List.length_cons]; omega) m.regs.es
  obtain ⟨fs, isFs, onStack⟩ := onStack.pushSelector cpu
    (by simp only [List.length_cons]; omega) m.regs.fs
  obtain ⟨gs, isGs, onStack⟩ := onStack.pushSelector cpu
    (by simp only [List.length_cons]; omega) m.regs.gs
  have onStack := onStack.push (by simp only [List.length_cons]; omega) m.regs.eax
  have onStack := onStack.push (by simp only [List.length_cons]; omega) m.regs.ecx
  have onStack := onStack.push (by simp only [List.length_cons]; omega) m.regs.edx
  have onStack := onStack.push (by simp only [List.length_cons]; omega) m.regs.ebx
  have onStack := onStack.push (by simp only [List.length_cons]; omega)
    (m.regs.esp - 4 - 4 - 4 - 4)
  have onStack := onStack.push (by simp only [List.length_cons]; omega) m.regs.ebp
  have onStack := onStack.push (by simp only [List.length_cons]; omega) m.regs.esi
  have onStack := onStack.push (by simp only [List.length_cons]; omega) m.regs.edi
  exact ⟨_, gs, fs, es, ds, isGs, isFs, isEs, isDs, onStack⟩

theorem saveContext_regs (cpu : Processor) (m : Machine) :
    (m.saveContext cpu).regs = { m.regs with esp := m.regs.esp - 48 } := by
  simp only [saveContext, pushad, push_regs, pushSelector_regs, BitVec.sub_sub]
  rfl

theorem switchStack_regs (cpu : Processor) (m : Machine) :
    (m.switchStack cpu).regs =
      { m.regs with esp := (m.switchStack cpu).regs.esp, ss := (m.switchStack cpu).regs.ss } := by
  rw [switchStack]
  split <;> rfl

theorem withErrorCode_regs (cpu : Processor) (filler : ErrorMacro) (code : Word)
    (m : Machine) :
    (m.withErrorCode cpu filler code).regs = { m.regs with
      cs := selectorKCode
      eflags := m.regs.eflags &&& ~~~0x4300
      esp := (m.switchStack cpu).regs.esp - 16
      ss := (m.switchStack cpu).regs.ss } := by
  cases filler <;>
    simp only [withErrorCode, interrupt, ErrorMacro.pushed, push_regs, pushSelector_regs,
      BitVec.sub_sub] <;>
    rw [switchStack_regs] <;> rfl

/-- An entry stub up to the saved context: the frame is complete but for the vector. -/
theorem entered_onStack (cpu : Processor) (filler : ErrorMacro) (code : Word) (m : Machine) :
    ∃ frame : IntrStack, frame.loaded = m.regs ∧
      ((m.withErrorCode cpu filler code).saveContext cpu).OnStack frame.words.tail := by
  obtain ⟨ss, cs, errCode, isSs, isCs, onStack⟩ := withErrorCode_onStack cpu filler code m
  have short : (if 0 < privilege m.regs.cs then [m.regs.esp, ss] else []).length ≤ 2 := by
    split <;> simp
  obtain ⟨espDummy, gs, fs, es, ds, isGs, isFs, isEs, isDs, saved⟩ :=
    saveContext_onStack cpu onStack (by simp only [List.length_cons]; omega)
  simp only [withErrorCode_regs] at saved isGs isFs isEs isDs
  let r := m.regs
  let frame : IntrStack :=
    ⟨0, r.edi, r.esi, r.ebp, espDummy, r.ebx, r.edx, r.ecx, r.eax, gs, fs, es, ds, errCode,
      r.eip, cs, r.eflags, r.esp, ss⟩
  have registers : frame.loaded = m.regs := by
    simp only [frame, r, IntrStack.loaded, IntrStack.codeSelector, isGs, isFs, isEs, isDs,
      isCs, isSs]
  refine ⟨frame, registers, ?_⟩
  have selector : frame.codeSelector = m.regs.cs := isCs
  rw [IntrStack.words, selector]
  exact saved

end Machine

theorem Handler.returned {m : Machine} {arguments frame : Nat} (handler : Handler arguments frame)
    (passed : List Word) {rest : List Word} (onStack : m.OnStack (passed ++ rest))
    (passedLength : passed.length = 1 + arguments) (restLength : rest.length = frame) :
    HoldsWords (handler.run m).memory (wordAddress m.regs.esp (1 + arguments)) rest := by
  rw [← passedLength]
  refine HoldsWords.frame onStack fun index low high => handler.kept m index ?_ ?_ <;> omega

namespace Machine

variable {m : Machine} {words : List Word} {frame : IntrStack} {cpu : Processor}

theorem tail_length (frame : IntrStack) :
    frame.words.tail.length = frameWords frame.codeSelector := by
  rw [IntrStack.words, frameWords]
  split <;> rfl

theorem intrExit_restores {regs : Regs} (kernel : privilege m.regs.cs = 0)
    (onStack : m.OnStack frame.words) (saved : frame.loaded = regs) (valid : regs.Valid)
    (ownStack : privilege regs.cs = 0 →
      wordAddress m.regs.esp 17 = regs.esp ∧ m.regs.ss = regs.ss) :
    m.intrExit.regs = regs := by
  subst saved
  rcases Nat.eq_zero_or_pos (privilege frame.codeSelector) with inner | outer
  · rw [intrExit_inner onStack inner, (ownStack inner).1, (ownStack inner).2]
  · exact intrExit_outer kernel onStack outer valid

theorem switchStack_inner (inner : privilege m.regs.cs = 0) : m.switchStack cpu = m :=
  if_neg (by omega)

theorem intrEntry_eq (cpu : Processor) (returnAddress : Word) (filler : ErrorMacro)
    (vector : Nat) (code : Word) (m : Machine) :
    (m.interrupt cpu (filler.pushed code)).intrEntry cpu returnAddress filler vector =
      (((m.withErrorCode cpu filler code).saveContext cpu).sendEoi.push
        (BitVec.ofNat 32 vector)).push returnAddress := by
  cases filler <;> rfl

theorem intrEntry_onStack (cpu : Processor) (returnAddress : Word) (filler : ErrorMacro)
    (vector : Nat) (code : Word) (m : Machine) :
    ∃ frame : IntrStack, frame.loaded = m.regs ∧
      ((m.interrupt cpu (filler.pushed code)).intrEntry cpu returnAddress filler vector).OnStack
        (returnAddress :: BitVec.ofNat 32 vector :: frame.words.tail) := by
  obtain ⟨frame, saved, onStack⟩ := entered_onStack cpu filler code m
  have short : frame.words.tail.length ≤ 18 := by
    rw [tail_length, frameWords]
    split <;> omega
  rw [intrEntry_eq]
  have pushed := onStack.sendEoi.push (by omega) (BitVec.ofNat 32 vector)
  exact ⟨frame, saved, pushed.push (by simp only [List.length_cons]; omega) returnAddress⟩

theorem intrEntry_regs (cpu : Processor) (returnAddress : Word) (filler : ErrorMacro)
    (vector : Nat) (code : Word) (m : Machine) :
    let called := (m.interrupt cpu (filler.pushed code)).intrEntry cpu returnAddress filler vector
    called.regs.cs = selectorKCode ∧ called.regs.ss = (m.switchStack cpu).regs.ss ∧
      called.regs.esp = (m.switchStack cpu).regs.esp - 72 := by
  simp only [intrEntry_eq, push_regs, sendEoi, saveContext_regs, withErrorCode_regs,
    BitVec.sub_sub, true_and]
  rfl

theorem intrStub_restores (cpu : Processor) (returnAddress : Word) (filler : ErrorMacro)
    (vector : Nat) (code : Word) (m : Machine) (valid : m.regs.Valid)
    (idtTable : Nat → Handler 1 (frameWords m.regs.cs)) :
    ((m.interrupt cpu (filler.pushed code)).intrStub cpu returnAddress idtTable filler
      vector).regs = m.regs := by
  obtain ⟨frame, saved, onStack⟩ := intrEntry_onStack cpu returnAddress filler vector code m
  obtain ⟨cs, ss, esp⟩ := intrEntry_regs cpu returnAddress filler vector code m
  rw [intrStub]
  generalize (m.interrupt cpu (filler.pushed code)).intrEntry cpu returnAddress filler vector =
    called at onStack cs ss esp ⊢
  generalize idtTable vector = handler
  have selector : frame.codeSelector = m.regs.cs := congrArg Regs.cs saved
  have length : frame.words.tail.length = frameWords m.regs.cs := by
    rw [tail_length, selector]
  have rest := handler.returned (m := called) [returnAddress, BitVec.ofNat 32 vector] onStack rfl
    length
  have returned : (handler.run called).OnStack
      ((handler.run called).memory (handler.run called).regs.esp :: frame.words.tail) := by
    refine HoldsWords.cons ?_
    rw [handler.esp, show called.regs.esp + 4 = wordAddress called.regs.esp 1 from rfl,
      wordAddress_wordAddress]
    exact rest
  have returned : (handler.run called).OnStack { frame with vecNo := _ }.words := returned
  refine intrExit_restores (by rw [handler.cs, cs]; rfl) returned saved valid fun inner => ?_
  rw [handler.esp, handler.ss, ss, esp, switchStack_inner inner]
  refine ⟨?_, rfl⟩
  simp only [wordAddress]
  bv_omega

theorem syscallEntry_eq (cpu : Processor) (returnAddress : Word) (m : Machine) :
    (m.interrupt cpu none).syscallEntry cpu returnAddress =
      ((((((m.withErrorCode cpu .zero 0).saveContext cpu).push 0x80).push m.regs.edx).push
        m.regs.ecx).push m.regs.ebx).push returnAddress := by
  have saved := saveContext_regs cpu (m.withErrorCode cpu .zero 0)
  rw [withErrorCode_regs] at saved
  have edx := congrArg Regs.edx saved
  have ecx := congrArg Regs.ecx saved
  have ebx := congrArg Regs.ebx saved
  simp only at edx ecx ebx
  rw [← edx, ← ecx, ← ebx]
  rfl

theorem syscallEntry_onStack (cpu : Processor) (returnAddress : Word) (m : Machine) :
    ∃ frame : IntrStack, frame.loaded = m.regs ∧
      ((m.interrupt cpu none).syscallEntry cpu returnAddress).OnStack
        ([returnAddress, m.regs.ebx, m.regs.ecx, m.regs.edx] ++ 0x80 :: frame.words.tail) := by
  obtain ⟨frame, saved, onStack⟩ := entered_onStack cpu .zero 0 m
  have short : frame.words.tail.length ≤ 18 := by
    rw [tail_length, frameWords]
    split <;> omega
  have pushed := onStack.push (by omega) 0x80
  have pushed := pushed.push (by simp only [List.length_cons]; omega) m.regs.edx
  have pushed := pushed.push (by simp only [List.length_cons]; omega) m.regs.ecx
  have pushed := pushed.push (by simp only [List.length_cons]; omega) m.regs.ebx
  rw [syscallEntry_eq]
  exact ⟨frame, saved, pushed.push (by simp only [List.length_cons]; omega) returnAddress⟩

theorem syscallEntry_regs (cpu : Processor) (returnAddress : Word) (m : Machine) :
    let called := (m.interrupt cpu none).syscallEntry cpu returnAddress
    called.regs.cs = selectorKCode ∧ called.regs.ss = (m.switchStack cpu).regs.ss ∧
      called.regs.esp = (m.switchStack cpu).regs.esp - 84 := by
  simp only [syscallEntry_eq, push_regs, saveContext_regs, withErrorCode_regs, BitVec.sub_sub,
    true_and]
  rfl

theorem syscallHandler_restores (cpu : Processor) (returnAddress : Word) (m : Machine)
    (valid : m.regs.Valid) (syscallTable : Word → Handler 3 (frameWords m.regs.cs + 1)) :
    let called := (m.interrupt cpu none).syscallEntry cpu returnAddress
    ((m.interrupt cpu none).syscallHandler cpu returnAddress syscallTable).regs =
      { m.regs with eax := ((syscallTable m.regs.eax).run called).regs.eax } := by
  obtain ⟨frame, saved, onStack⟩ := syscallEntry_onStack cpu returnAddress m
  obtain ⟨cs, ss, esp⟩ := syscallEntry_regs cpu returnAddress m
  have eax : ((m.interrupt cpu none).syscallEntry cpu returnAddress).regs.eax = m.regs.eax := by
    simp only [syscallEntry_eq, push_regs, saveContext_regs, withErrorCode_regs]
  rw [syscallHandler, eax]
  generalize (m.interrupt cpu none).syscallEntry cpu returnAddress = called at onStack cs ss esp ⊢
  generalize syscallTable m.regs.eax = handler
  have selector : frame.codeSelector = m.regs.cs := congrArg Regs.cs saved
  have length : (0x80 :: frame.words.tail).length = frameWords m.regs.cs + 1 := by
    rw [List.length_cons, tail_length, selector]
  have rest := handler.returned (m := called) [returnAddress, m.regs.ebx, m.regs.ecx, m.regs.edx]
    onStack rfl length
  have stackPointer :
      ((handler.run called).skip 3).regs.esp = wordAddress called.regs.esp 4 := by
    rw [skip, handler.esp, show called.regs.esp + 4 = wordAddress called.regs.esp 1 from rfl,
      wordAddress_wordAddress]
  have skipped : ((handler.run called).skip 3).OnStack (0x80 :: frame.words.tail) := by
    rw [OnStack, stackPointer]
    exact rest
  let result := (handler.run called).regs.eax
  have stored : (((handler.run called).skip 3).store 8 result).OnStack
      { frame with vecNo := 0x80, eax := result }.words := by
    have slots : 8 < (0x80 :: frame.words.tail).length := by
      rw [length, frameWords]
      split <;> omega
    exact HoldsWords.store skipped (by rw [length, frameWords]; split <;> omega) slots result
  refine intrExit_restores (by rw [store, skip, handler.cs, cs]; rfl) stored
    (congrArg (fun regs => { regs with eax := result }) saved)
    ⟨valid.ds, valid.es, valid.fs, valid.gs⟩ fun inner => ?_
  rw [store, stackPointer, skip, handler.ss, ss, esp, switchStack_inner inner]
  refine ⟨?_, rfl⟩
  simp only [wordAddress]
  bv_omega

/-- The stores of `start_process` to its frame in their order, by the place of the field. -/
def startProcessFields (function stackPage : Word) : List (Nat × Word) := [
  (4, 0), (3, 0), (2, 0), (1, 0), (8, 0), (7, 0), (6, 0), (5, 0), (9, 0),
  (11, selectorUData.setWidth 32), (10, selectorUData.setWidth 32),
  (12, selectorUData.setWidth 32), (14, function), (15, selectorUCode.setWidth 32),
  (16, 0x202), (17, stackPage + 4096), (18, selectorUData.setWidth 32)]

/-- `start_process(filename_)` from its frame on, up to `jmp intr_exit`; `stackPage` is what
`get_a_page` returned. -/
def startProcess (procStack function stackPage : Word) (m : Machine) : Machine where
  regs := { m.regs with esp := procStack }
  memory := (startProcessFields function stackPage).foldl (fun memory write =>
    Function.update memory (wordAddress procStack write.1) write.2) m.memory

/-- The structure at an address. -/
def frameAt (memory : Word → Word) (pointer : Word) : IntrStack :=
  let field := fun index => memory (wordAddress pointer index)
  ⟨field 0, field 1, field 2, field 3, field 4, field 5, field 6, field 7, field 8, field 9,
    field 10, field 11, field 12, field 13, field 14, field 15, field 16, field 17, field 18⟩

theorem frameAt_holds (memory : Word → Word) (pointer : Word) :
    HoldsWords memory pointer (frameAt memory pointer).words := by
  rw [IntrStack.words]
  split
  · exact HoldsWords.self memory pointer 19
  · exact HoldsWords.self memory pointer 17

theorem frameAt_startProcess (procStack function stackPage : Word) (m : Machine) :
    frameAt (m.startProcess procStack function stackPage).memory procStack = {
      vecNo := m.memory (wordAddress procStack 0)
      edi := 0
      esi := 0
      ebp := 0
      espDummy := 0
      ebx := 0
      edx := 0
      ecx := 0
      eax := 0
      gs := 0
      fs := selectorUData.setWidth 32
      es := selectorUData.setWidth 32
      ds := selectorUData.setWidth 32
      errCode := m.memory (wordAddress procStack 13)
      eip := function
      cs := selectorUCode.setWidth 32
      eflags := 0x202
      esp := stackPage + 4096
      ss := selectorUData.setWidth 32 } := by
  have field {index : Nat} (inside : index < 2 ^ 30) :=
    foldl_update_wordAddress m.memory procStack (startProcessFields function stackPage)
      (by simp [startProcessFields]) inside
  simp (disch := decide) only [frameAt, startProcess, field]
  simp [startProcessFields]

theorem startProcess_loaded (procStack function stackPage : Word) (m : Machine)
    (kernel : privilege m.regs.cs = 0) :
    let filled := m.startProcess procStack function stackPage
    filled.intrExit.regs = (frameAt filled.memory procStack).loaded := by
  refine intrExit_outer kernel (frameAt_holds _ procStack) ?_ ?_
  · rw [frameAt_startProcess]
    exact (by decide : 0 < privilege selectorUCode)
  · rw [frameAt_startProcess]
    have usable : Usable (privilege selectorUCode) selectorUData := by decide
    have empty : Usable (privilege selectorUCode) 0 := by decide
    exact ⟨usable, usable, usable, empty⟩

/-- The three ways to a frame and the one way out: an interrupt leaves no trace, a system
call changes `eax` to the result of its function, a new process starts with the fields of its
frame. -/
theorem intrExit_inverts (cpu : Processor) (returnAddress code : Word) (m : Machine)
    (valid : m.regs.Valid) :
    (∀ line ∈ vectors, ∀ idtTable : Nat → Handler 1 (frameWords m.regs.cs),
      ((m.interrupt cpu (line.2.pushed code)).intrStub cpu returnAddress idtTable line.2
        line.1).regs = m.regs) ∧
    (∀ syscallTable : Word → Handler 3 (frameWords m.regs.cs + 1),
      let called := (m.interrupt cpu none).syscallEntry cpu returnAddress
      ((m.interrupt cpu none).syscallHandler cpu returnAddress syscallTable).regs =
        { m.regs with eax := ((syscallTable m.regs.eax).run called).regs.eax }) ∧
    ∀ kernelCode : Machine, privilege kernelCode.regs.cs = 0 →
      ∀ procStack function stackPage,
        let filled := kernelCode.startProcess procStack function stackPage
        filled.intrExit.regs = (frameAt filled.memory procStack).loaded :=
  ⟨fun line _ idtTable =>
      intrStub_restores cpu returnAddress line.2 line.1 code m valid idtTable,
    fun syscallTable => syscallHandler_restores cpu returnAddress m valid syscallTable,
    fun kernelCode kernel procStack function stackPage =>
      startProcess_loaded procStack function stackPage kernelCode kernel⟩

/-- Code of a process, with nothing in the general registers. -/
def userCode : Machine where
  regs := {
    eax := 0, ecx := 0, edx := 0, ebx := 0, esp := 0xbfffff00, ebp := 0, esi := 0, edi := 0,
    ds := selectorUData, es := selectorUData, fs := selectorUData, gs := 0,
    cs := selectorUCode, ss := selectorUData, eip := 0x08048000, eflags := 0x202 }
  memory := fun _ => 0

/-- A processor that pushes selectors as words, with a kernel stack. -/
def plainProcessor : Processor where
  ss0 := 0x10
  esp0 := 0xc009f000
  selectorWord := fun _ selector => selector.setWidth 32
  selectorWord_low := fun _ selector => by simp

theorem intrExit_inverts_timer :
    ((userCode.interrupt plainProcessor none).intrStub plainProcessor 0xc0001500
      (fun _ => (Handler.ret : Handler 1 (frameWords selectorUCode))) .zero 0x20).regs =
    userCode.regs :=
  (intrExit_inverts plainProcessor 0xc0001500 0 userCode (by
    constructor <;> decide)).1 (0x20, .zero) (by decide) fun _ => Handler.ret

end Machine

end HongbaiOS.Kernel
