import HongbaiOS.Kernel.Entry
import HongbaiOS.Lib.Print

/-!
# Calls of the print routines

The routines of `print.S` as C code calls them: which registers and how much of the stack they
give back.  `put_char` and `cls_screen` end by a jump to `set_cursor`, which therefore ends as
they have to, and `general_intr_handler` calls it as a function.
-/

namespace HongbaiOS.Kernel

open HongbaiOS.Library HongbaiOS.Lib

/-- `SELECTOR_VIDEO` -/
def selectorVideo : Selector := 0x18

/-- A byte loaded into `cl`. -/
def withCl (ecx : Word) (cl : UInt8) : Word := ecx.extractLsb' 8 24 ++ cl.toBitVec

/-- The byte in `cl`. -/
def clOf (ecx : Word) : UInt8 := UInt8.ofBitVec (ecx.setWidth 8)

/-- `ret` -/
def Machine.ret (m : Machine) : Machine :=
  { m with regs := { m.regs with eip := m.slot 0, esp := m.regs.esp + 4 } }

structure Console where
  machine : Machine
  screen : Screen

namespace Console

/-- `set_cursor` up to `ret`; the cursor comes from `bx`. -/
def setCursor (c : Console) : Console where
  machine := c.machine.popad.ret
  screen := c.screen.setCursor (UInt16.ofBitVec (c.machine.regs.ebx.setWidth 16))

/-- `put_char`; the registers it computes in are all loaded again by `popad`. -/
def putChar (c : Console) : Except Halt Console := do
  let m := c.machine.pushad
  let screen ← c.screen.putChar (clOf (m.slot 9))
  let ebx := m.regs.ebx.extractLsb' 16 16 ++ screen.cursor.toBitVec
  return setCursor ⟨{ m with regs.gs := selectorVideo, regs.ebx := ebx }, screen⟩

/-- `cls_screen` -/
def clsScreen (c : Console) : Except Halt Console := do
  let screen ← Screen.cls 2000 0 c.screen
  return setCursor
    ⟨{ c.machine.pushad with regs.gs := selectorVideo, regs.ebx := 0 }, screen⟩

/-- `push ecx`, `call put_char`, `add esp, 4` -/
def callPutChar (afterCall : Word) (c : Console) : Except Halt Console := do
  let c ← putChar { c with machine := (c.machine.push c.machine.regs.ecx).push afterCall }
  return { c with machine := c.machine.skip 1 }

/-- `.goon`, for the bytes from `ebx` on up to the zero. -/
def goon (afterCall : Word) : List UInt8 → Console → Except Halt Console
  | [], c => .ok { c with machine.regs.ecx := withCl c.machine.regs.ecx 0 }
  | cl :: text, c => do
      let c := { c with machine.regs.ecx := withCl c.machine.regs.ecx cl }
      if cl = 0 then return c
      let c ← callPutChar afterCall c
      goon afterCall text { c with machine.regs.ebx := c.machine.regs.ebx + 1 }

/-- `put_str`; strings do not lie on the free part of the stack. -/
def putStr (afterCall : Word) (textAt : Word → List UInt8) (c : Console) :
    Except Halt Console := do
  let m := (c.machine.push c.machine.regs.ebx).push c.machine.regs.ecx
  let ebx := m.slot 3
  let c ← goon afterCall (textAt ebx) ⟨{ m with regs.ecx := 0, regs.ebx := ebx }, c.screen⟩
  let m := c.machine
  let m := { m.skip 2 with
    regs := { (m.skip 2).regs with ecx := m.slot 0, ebx := m.slot 1 } }
  return { c with machine := m.ret }

/-- One round of `.16based_4bits` up to `.store`. -/
def hexDigit (edx : Word) : UInt8 :=
  let edx := edx &&& 0xf
  UInt8.ofBitVec ((if 9 < edx.toInt then edx - 10 + 0x41 else edx + 0x30).setWidth 8)

/-- `.16based_4bits`, which fills `put_int_buffer` from its end. -/
def storeDigits : (ecx : Nat) → (eax : Word) → (stored : List UInt8) → List UInt8
  | 0, _, stored => stored
  | ecx + 1, eax, stored => storeDigits ecx (eax >>> 4) (hexDigit eax :: stored)

/-- `.skip_prefix_0` and `.full0` -/
def skipPrefix0 : List UInt8 → List UInt8
  | [] => [0x30]
  | cl :: rest => if cl = 0x30 then skipPrefix0 rest else cl :: rest

/-- `.put_each_num` -/
def putEachNum (afterCall : Word) : List UInt8 → Console → Except Halt Console
  | [], c => .ok c
  | cl :: rest, c => do
      let c := { c with machine.regs.ecx := withCl c.machine.regs.ecx cl }
      let c ← callPutChar afterCall c
      putEachNum afterCall rest { c with machine.regs.edi := c.machine.regs.edi + 1 }

/-- `put_int`; the conversion works in registers that `popad` loads again. -/
def putInt (afterCall : Word) (c : Console) : Except Halt Console := do
  let m := c.machine.pushad
  let m := { m with regs.ebp := m.regs.esp, regs.ecx := 0 }
  let digits := skipPrefix0 (storeDigits 8 (m.slot 9) [])
  let c ← putEachNum afterCall digits ⟨m, c.screen⟩
  return { c with machine := c.machine.popad.ret }

end Console

/-- The routines C code can call. -/
inductive Routine where
  | putChar | putStr | putInt | setCursor | clsScreen
  deriving DecidableEq

section Calls

variable (afterCall : Word) (textAt : Word → List UInt8)

/-- A routine from its label on; the return address and the argument are on the stack. -/
def Routine.run : Routine → Console → Except Halt Console
  | .putChar, c => c.putChar
  | .putStr, c => c.putStr afterCall textAt
  | .putInt, c => c.putInt afterCall
  | .setCursor, c => .ok c.setCursor
  | .clsScreen, c => c.clsScreen

/-- A return as the caller expects it. -/
structure Returns (c c' : Console) : Prop where
  eip : c'.machine.regs.eip = c.machine.slot 0
  esp : c'.machine.regs.esp = c.machine.regs.esp + 4
  ebx : c'.machine.regs.ebx = c.machine.regs.ebx
  ebp : c'.machine.regs.ebp = c.machine.regs.ebp
  esi : c'.machine.regs.esi = c.machine.regs.esi
  edi : c'.machine.regs.edi = c.machine.regs.edi

/-- The routine returns, and has set the cursor if that is what it is for. -/
def RightCall (routine : Routine) (c : Console) : Prop :=
  ∃ c', routine.run afterCall textAt c = .ok c' ∧ Returns c c' ∧
    (routine = .setCursor → c'.screen.cursor.toNat = (c.machine.slot 1).toNat)

/-- What `general_intr_handler` prints. -/
structure Messages where
  begin : Word
  intrName : UInt8 → Word
  pageFault : Word
  theEnd : Word

/-- The calls in `general_intr_handler` before its final loop, if it does not return first. -/
def generalIntrHandler (messages : Messages) (cr2 : Word) (vecNr : UInt8) :
    Option (List (Routine × Word)) :=
  if vecNr = 0x27 ∨ vecNr = 0x2f then none
  else some <|
    [(.setCursor, 0)] ++ List.replicate 320 (.putChar, 0x20) ++
    [(.setCursor, 0), (.putStr, messages.begin), (.setCursor, 88),
      (.putStr, messages.intrName vecNr)] ++
    (if vecNr = 14 then [(.putStr, messages.pageFault), (.putInt, cr2)] else []) ++
    [(.putStr, messages.theEnd)]

/-- A call of C code, at the address before `returnAddress`. -/
def Console.called (c : Console) (argument returnAddress : Word) : Console :=
  { c with machine := (c.machine.push argument).push returnAddress }

/-- C code gets behind a row of calls if each returns; `site` is the address behind a call
by the number of calls that follow. -/
def Completes (site : Nat → Word) : List (Routine × Word) → Console → Prop
  | [], _ => True
  | (routine, argument) :: calls, c =>
      ∃ c', routine.run afterCall textAt (c.called argument (site calls.length)) = .ok c' ∧
        Returns (c.called argument (site calls.length)) c' ∧
        Completes site calls { c' with machine := c'.machine.skip 1 }

/-- The handler gets to its final loop. -/
def ReachesLoop (site : Nat → Word) (messages : Messages) (cr2 : Word) (vecNr : UInt8)
    (c : Console) : Prop :=
  ∃ calls, generalIntrHandler messages cr2 vecNr = some calls ∧
    Completes afterCall textAt site calls c

end Calls

/-- The cell of the character lies in the segment. -/
def Writable (cursor : UInt16) (c : UInt8) : Prop :=
  IsNewline c ∨ (if c = 0x8 then cursor - 1 else cursor).toNat % 0x8000 < 0x4000

instance (cursor : UInt16) (c : UInt8) : Decidable (Writable cursor c) :=
  inferInstanceAs (Decidable (_ ∨ _))

/-- The start of the next line, the last one at most. -/
def nextLine (cursor : UInt16) : UInt16 :=
  let next := cursor - cursor % 80 + 80
  if next.toInt16 < 2000 then next else 1920

/-- Where a character leaves the cursor, wherever it was. -/
def nextCursor (cursor : UInt16) (c : UInt8) : UInt16 :=
  if IsNewline c then nextLine cursor
  else if c = 0x8 then (cursor - 1) % 0x8000
  else if cursor.toNat % 0x8000 < 1999 then cursor % 0x8000 + 1
  else 1920

/-- Each character of a text up to its zero can be printed after the ones before it. -/
def TextWritable : UInt16 → List UInt8 → Prop
  | _, [] => True
  | cursor, c :: text => c = 0 ∨ Writable cursor c ∧ TextWritable (nextCursor cursor c) text

/-- The condition for a call to return. -/
def Routine.Printable (textAt : Word → List UInt8) : Routine → Console → Prop
  | .putChar, c => Writable c.screen.cursor (clOf (c.machine.slot 1))
  | .putStr, c => TextWritable c.screen.cursor (textAt (c.machine.slot 1))
  | .putInt, c => c.screen.cursor.toNat % 0x8000 < 0x4000
  | .setCursor, _ => False
  | .clsScreen, _ => True

section Printing

variable {s : Screen} {c : UInt8}

theorem nextLine_last {bx : UInt16} (low : 2000 ≤ bx.toNat) (high : bx.toNat ≤ 0x4000) :
    nextLine bx = 1920 := by
  have next := nextLine_toNat high
  refine if_neg fun less => ?_
  have := (@toInt16_lt_iff (bx - bx % 80 + 80) (by omega)).mp less
  omega

theorem isLineFeed_cursor (s : Screen) (bx : UInt16) :
    ∃ s', s.isLineFeed bx = .ok s' ∧ s'.cursor = nextLine bx := by
  by_cases less : (bx - bx % 80 + 80).toInt16 < 2000
  · exact ⟨s.setCursor (bx - bx % 80 + 80), if_pos less, (if_pos less).symm⟩
  · obtain ⟨s', ran, cursor, -, -⟩ := s.rollScreen_spec
    exact ⟨s', (if_neg less).trans ran, cursor.trans (if_neg less).symm⟩

theorem putChar_writable (writable : Writable s.cursor c) :
    ∃ s', s.putChar c = .ok s' ∧ s'.cursor = nextCursor s.cursor c := by
  by_cases isNewline : IsNewline c
  · obtain ⟨s', ran, cursor⟩ := isLineFeed_cursor s s.cursor
    exact ⟨s', (if_pos isNewline).trans ran, cursor.trans (if_pos isNewline).symm⟩
  have inside := writable.resolve_left isNewline
  by_cases backspace : c = 0x8
  · subst backspace
    rw [if_pos rfl] at inside
    exact ⟨_, Screen.putChar_backspace_eq inside, rfl⟩
  rw [if_neg backspace] at inside
  have low : (s.cursor % 0x8000).toNat = s.cursor.toNat % 0x8000 := UInt16.toNat_mod ..
  have next := @succ_toNat (s.cursor % 0x8000) (by omega)
  have compare := @toInt16_lt_iff (s.cursor % 0x8000 + 1) (by omega)
  rw [Screen.putChar_other_eq isNewline backspace inside, nextCursor, if_neg isNewline,
    if_neg backspace]
  by_cases fits : s.cursor.toNat % 0x8000 < 1999
  · rw [if_pos fits, if_pos (compare.mpr (by omega))]
    exact ⟨_, rfl, rfl⟩
  · have past : ¬ (s.cursor % 0x8000 + 1).toInt16 < 2000 := fun less => by
      have := compare.mp less
      omega
    obtain ⟨s', ran, cursor⟩ := isLineFeed_cursor
      (s.putCell (s.cursor.toNat % 0x8000) c) (s.cursor % 0x8000 + 1)
    rw [nextLine_last (by omega) (by omega)] at cursor
    rw [if_neg fits, if_neg past]
    exact ⟨s', ran, cursor⟩

theorem mov_behind {offset : Nat} (behind : videoLimit < offset) (value : UInt8) :
    s.mov offset value = .error .generalProtection :=
  if_neg (Nat.not_le.mpr behind)

theorem putChar_unwritable (behind : ¬ Writable s.cursor c) :
    s.putChar c = .error .generalProtection := by
  obtain ⟨notNewline, outside⟩ := not_or.mp behind
  have other : ¬ (c = 0xd ∨ c = 0xa) := notNewline
  by_cases backspace : c = 0x8
  · rw [if_pos backspace] at outside
    have fault := @mov_behind s ((s.cursor - 1) <<< 1).toNat
      (by rw [shiftLeft_toNat, videoLimit]; omega) 0x20
    simp only [Screen.putChar, if_neg other, if_pos backspace, fault]
    rfl
  · rw [if_neg backspace] at outside
    have fault := @mov_behind s (s.cursor <<< 1).toNat
      (by rw [shiftLeft_toNat, videoLimit]; omega) c
    simp only [Screen.putChar, if_neg other, if_neg backspace, fault]
    rfl

theorem nextCursor_onScreen {cursor : UInt16} (notNewline : ¬ IsNewline c)
    (notBackspace : c ≠ 0x8) : (nextCursor cursor c).toNat < 2000 := by
  rw [nextCursor, if_neg notNewline, if_neg notBackspace]
  split
  next fits =>
    have low : (cursor % 0x8000).toNat = cursor.toNat % 0x8000 := UInt16.toNat_mod ..
    rw [succ_toNat (by omega), low]
    omega
  next => decide

end Printing

section Stack

variable {m m' : Machine} {words : List Word} {back : Word}

/-- What `pushad` puts on the stack. -/
def Regs.saved (regs : Regs) : List Word :=
  [regs.edi, regs.esi, regs.ebp, regs.esp, regs.ebx, regs.edx, regs.ecx, regs.eax]

theorem pushad_onStack (onStack : m.OnStack words) (short : words.length < 32) :
    m.pushad.OnStack (m.regs.saved ++ words) := by
  have onStack := onStack.push (by omega) m.regs.eax
  have onStack := onStack.push (by simp only [List.length_cons]; omega) m.regs.ecx
  have onStack := onStack.push (by simp only [List.length_cons]; omega) m.regs.edx
  have onStack := onStack.push (by simp only [List.length_cons]; omega) m.regs.ebx
  have onStack := onStack.push (by simp only [List.length_cons]; omega) m.regs.esp
  have onStack := onStack.push (by simp only [List.length_cons]; omega) m.regs.ebp
  have onStack := onStack.push (by simp only [List.length_cons]; omega) m.regs.esi
  exact onStack.push (by simp only [List.length_cons]; omega) m.regs.edi

theorem pushad_regs (m : Machine) :
    m.pushad.regs = { m.regs with esp := m.regs.esp - 32 } := by
  simp only [Machine.pushad, Machine.push_regs, BitVec.sub_sub]
  rfl

theorem OnStack.skip (onStack : m.OnStack words) (count : Nat) :
    (m.skip count).OnStack (words.drop count) := by
  intro index word found
  rw [List.getElem?_drop] at found
  exact (wordAddress_wordAddress _ _ _).symm ▸ onStack (count + index) word found

theorem popad_ret (onStack : m'.OnStack (m.regs.saved ++ back :: words))
    (esp : m'.regs.esp = m.pushad.regs.esp) :
    m'.popad.ret.regs =
      { m.regs with
        ds := m'.regs.ds, es := m'.regs.es, fs := m'.regs.fs, gs := m'.regs.gs,
        cs := m'.regs.cs, ss := m'.regs.ss, eflags := m'.regs.eflags,
        eip := back, esp := m.regs.esp + 4 } ∧
      m'.popad.ret.OnStack words := by
  have slot := onStack.slot
  have returned : m'.popad.slot 0 = back := (Machine.slot_popad m' 0).trans (slot 8 rfl)
  have above : wordAddress m'.regs.esp 8 = m.regs.esp := by
    rw [esp, pushad_regs, wordAddress]
    bv_omega
  constructor
  · simp only [Machine.ret, returned]
    simp only [Machine.popad, above, slot 0 rfl, slot 1 rfl, slot 2 rfl, slot 4 rfl, slot 5 rfl,
      slot 6 rfl, slot 7 rfl]
  · have dropped := OnStack.skip onStack 9
    have next : wordAddress m'.regs.esp 9 = m'.popad.ret.regs.esp := by
      simp only [Machine.ret, Machine.popad, wordAddress]
      bv_omega
    rw [Machine.OnStack, ← next]
    exact dropped

variable {c : Console}

/-- A byte in `cl` is the one `put_char` finds. -/
@[simp]
theorem clOf_withCl (ecx : Word) (cl : UInt8) : clOf (withCl ecx cl) = cl := by
  rw [clOf, withCl, BitVec.setWidth_append_eq_right]

theorem Console.putChar_spec {character : Word}
    (onStack : c.machine.OnStack (back :: character :: words)) (short : words.length < 30)
    (writable : Writable c.screen.cursor (clOf character)) :
    ∃ c', c.putChar = .ok c' ∧
      c'.machine.regs = { c.machine.regs with
        gs := selectorVideo, eip := back, esp := c.machine.regs.esp + 4 } ∧
      c'.machine.OnStack (character :: words) ∧
      c'.screen.cursor = nextCursor c.screen.cursor (clOf character) := by
  have pushed := pushad_onStack onStack (by simp only [List.length_cons]; omega)
  have found : c.machine.pushad.slot 9 = character := pushed.slot 9 rfl
  obtain ⟨screen, ran, cursor⟩ := putChar_writable writable
  let inside : Machine := { c.machine.pushad with
    regs.gs := selectorVideo
    regs.ebx := c.machine.pushad.regs.ebx.extractLsb' 16 16 ++ screen.cursor.toBitVec }
  obtain ⟨regs, returned⟩ := @popad_ret c.machine inside _ back pushed rfl
  refine ⟨setCursor ⟨inside, screen⟩, ?_, ?_, returned, ?_⟩
  · rw [Console.putChar, found, ran]
    rfl
  · rw [setCursor, regs]
    simp only [inside, pushad_regs]
  · rw [← cursor]
    show UInt16.ofBitVec (inside.regs.ebx.setWidth 16) = screen.cursor
    simp only [inside, BitVec.setWidth_append_eq_right]

theorem Console.putChar_fault {character : Word}
    (onStack : c.machine.OnStack (back :: character :: words)) (short : words.length < 30)
    (behind : ¬ Writable c.screen.cursor (clOf character)) :
    c.putChar = .error .generalProtection := by
  have pushed := pushad_onStack onStack (by simp only [List.length_cons]; omega)
  have found : c.machine.pushad.slot 9 = character := pushed.slot 9 rfl
  rw [Console.putChar, found, putChar_unwritable behind]
  rfl

end Stack

section Loops

open Console

variable {c : Console} {words : List Word} {afterCall : Word}

/-- A loop leaves the stack and the registers behind it as they were. -/
structure KeepsFrame (words : List Word) (c c' : Console) : Prop where
  onStack : c'.machine.OnStack words
  esp : c'.machine.regs.esp = c.machine.regs.esp
  ebp : c'.machine.regs.ebp = c.machine.regs.ebp
  esi : c'.machine.regs.esi = c.machine.regs.esi

theorem callPutChar_spec (afterCall : Word) (onStack : c.machine.OnStack words)
    (short : words.length < 28)
    (writable : Writable c.screen.cursor (clOf c.machine.regs.ecx)) :
    ∃ c', c.callPutChar afterCall = .ok c' ∧
      c'.machine.regs = { c.machine.regs with gs := selectorVideo, eip := afterCall } ∧
      c'.machine.OnStack words ∧
      c'.screen.cursor = nextCursor c.screen.cursor (clOf c.machine.regs.ecx) := by
  have called := (onStack.push (by omega) c.machine.regs.ecx).push
    (by simp only [List.length_cons]; omega) afterCall
  obtain ⟨c', ran, regs, returned, cursor⟩ := @Console.putChar_spec words afterCall
    { c with machine := (c.machine.push c.machine.regs.ecx).push afterCall } _ called (by omega)
    writable
  refine ⟨{ c' with machine := c'.machine.skip 1 }, ?_, ?_, OnStack.skip returned 1, cursor⟩
  · rw [Console.callPutChar, ran]
    rfl
  · have esp : wordAddress c'.machine.regs.esp 1 = c.machine.regs.esp := by
      rw [regs]
      simp only [Machine.push_regs, wordAddress]
      bv_omega
    simp only [Machine.skip, esp]
    rw [regs]
    rfl

theorem callPutChar_fault (afterCall : Word) (onStack : c.machine.OnStack words)
    (short : words.length < 28)
    (behind : ¬ Writable c.screen.cursor (clOf c.machine.regs.ecx)) :
    c.callPutChar afterCall = .error .generalProtection := by
  have called := (onStack.push (by omega) c.machine.regs.ecx).push
    (by simp only [List.length_cons]; omega) afterCall
  have fault := @Console.putChar_fault words afterCall
    { c with machine := (c.machine.push c.machine.regs.ecx).push afterCall } _ called (by omega)
    behind
  rw [Console.callPutChar, fault]
  rfl

theorem printed_cl (cl : UInt8) (onStack : c.machine.OnStack words) (short : words.length < 28)
    (writable : Writable c.screen.cursor cl) :
    ∃ c', callPutChar afterCall { c with machine.regs.ecx := withCl c.machine.regs.ecx cl } =
        .ok c' ∧
      KeepsFrame words c c' ∧ c'.machine.regs.edi = c.machine.regs.edi ∧
      c'.screen.cursor = nextCursor c.screen.cursor cl := by
  obtain ⟨c', ran, regs, onStack', cursor⟩ := @callPutChar_spec
    { c with machine.regs.ecx := withCl c.machine.regs.ecx cl } words afterCall onStack short
    (by rw [clOf_withCl]; exact writable)
  rw [clOf_withCl] at cursor
  refine ⟨c', ran, ⟨onStack', ?_, ?_, ?_⟩, ?_, cursor⟩ <;> rw [regs]

theorem fault_cl (cl : UInt8) (onStack : c.machine.OnStack words) (short : words.length < 28)
    (behind : ¬ Writable c.screen.cursor cl) :
    callPutChar afterCall { c with machine.regs.ecx := withCl c.machine.regs.ecx cl } =
      .error .generalProtection :=
  @callPutChar_fault { c with machine.regs.ecx := withCl c.machine.regs.ecx cl } words afterCall
    onStack short (by rw [clOf_withCl]; exact behind)

theorem goon_cons {cl : UInt8} (text : List UInt8) (more : cl ≠ 0) :
    c.goon afterCall (cl :: text) = (do
      let c ← Console.callPutChar afterCall
        { c with machine.regs.ecx := withCl c.machine.regs.ecx cl }
      Console.goon afterCall text { c with machine.regs.ebx := c.machine.regs.ebx + 1 }) :=
  if_neg more

theorem goon_spec (text : List UInt8) (onStack : c.machine.OnStack words)
    (short : words.length < 28) (writable : TextWritable c.screen.cursor text) :
    ∃ c', c.goon afterCall text = .ok c' ∧ KeepsFrame words c c' ∧
      c'.machine.regs.edi = c.machine.regs.edi := by
  induction text generalizing c with
  | nil => exact ⟨_, rfl, ⟨onStack, rfl, rfl, rfl⟩, rfl⟩
  | cons cl text inductionHypothesis =>
      by_cases ends : cl = 0
      · exact ⟨_, if_pos ends, ⟨onStack, rfl, rfl, rfl⟩, rfl⟩
      · obtain ⟨here, later⟩ := writable.resolve_left ends
        obtain ⟨c₁, ran, kept₁, edi₁, cursor⟩ := printed_cl cl onStack short here
        obtain ⟨c₂, rest, kept, edi⟩ := @inductionHypothesis
          { c₁ with machine.regs.ebx := c₁.machine.regs.ebx + 1 } kept₁.onStack (cursor ▸ later)
        refine ⟨c₂, ?_, ⟨kept.onStack, kept.esp.trans kept₁.esp, kept.ebp.trans kept₁.ebp,
          kept.esi.trans kept₁.esi⟩, edi.trans edi₁⟩
        rw [goon_cons text ends, ran]
        exact rest

theorem goon_fault (text : List UInt8) (onStack : c.machine.OnStack words)
    (short : words.length < 28) (behind : ¬ TextWritable c.screen.cursor text) :
    c.goon afterCall text = .error .generalProtection := by
  induction text generalizing c with
  | nil => exact absurd trivial behind
  | cons cl text inductionHypothesis =>
      obtain ⟨more, behind⟩ := not_or.mp behind
      rw [goon_cons text more]
      by_cases here : Writable c.screen.cursor cl
      · obtain ⟨c₁, ran, kept₁, -, cursor⟩ := printed_cl cl onStack short here
        rw [ran]
        exact @inductionHypothesis { c₁ with machine.regs.ebx := c₁.machine.regs.ebx + 1 }
          kept₁.onStack fun later => behind ⟨here, cursor ▸ later⟩
      · rw [fault_cl cl onStack short here]
        rfl

/-- A character of a number. -/
def Plain (c : UInt8) : Prop := ¬ IsNewline c ∧ c ≠ 0x8

theorem hexDigit_plain (edx : Word) : Plain (hexDigit edx) := by
  have all : ∀ k < 16, ¬ IsNewline (hexDigit (BitVec.ofNat 32 k)) ∧
      hexDigit (BitVec.ofNat 32 k) ≠ 0x8 := by decide
  have masked : hexDigit edx = hexDigit (edx &&& 0xf) := by
    simp only [hexDigit, BitVec.and_assoc, BitVec.and_self]
  have low : (edx &&& 0xf).toNat < 16 := by
    rw [BitVec.toNat_and]
    exact Nat.lt_of_le_of_lt Nat.and_le_right (by decide)
  have isMasked : BitVec.ofNat 32 (edx &&& 0xf).toNat = edx &&& 0xf := BitVec.ofNat_toNat ..
  rw [masked, ← isMasked]
  exact all _ low

theorem storeDigits_plain {stored : List UInt8} (plain : ∀ c ∈ stored, Plain c) (ecx : Nat)
    (eax : Word) : ∀ c ∈ storeDigits ecx eax stored, Plain c := by
  induction ecx generalizing eax stored with
  | zero => exact plain
  | succ ecx inductionHypothesis =>
      refine inductionHypothesis (fun c isOne => ?_) (eax >>> 4)
      rcases List.mem_cons.mp isOne with rfl | before
      · exact hexDigit_plain eax
      · exact plain c before

theorem skipPrefix0_plain {buffer : List UInt8} (plain : ∀ c ∈ buffer, Plain c) :
    ∃ first rest, skipPrefix0 buffer = first :: rest ∧ ∀ c ∈ first :: rest, Plain c := by
  induction buffer with
  | nil =>
      refine ⟨0x30, [], rfl, fun c isOne => ?_⟩
      rw [List.mem_singleton.mp isOne]
      exact ⟨by decide, by decide⟩
  | cons cl buffer inductionHypothesis =>
      rw [skipPrefix0]
      split
      next => exact inductionHypothesis fun c isOne => plain c (List.mem_cons_of_mem _ isOne)
      next => exact ⟨cl, buffer, rfl, plain⟩

theorem plain_writable {cursor : UInt16} {cl : UInt8} (plain : Plain cl) :
    Writable cursor cl ↔ cursor.toNat % 0x8000 < 0x4000 := by
  rw [Writable, or_iff_right plain.1, if_neg plain.2]

theorem putEachNum_spec (digits : List UInt8) (plain : ∀ c ∈ digits, Plain c)
    (onStack : c.machine.OnStack words) (short : words.length < 28)
    (inside : c.screen.cursor.toNat % 0x8000 < 0x4000) :
    ∃ c', c.putEachNum afterCall digits = .ok c' ∧ KeepsFrame words c c' := by
  induction digits generalizing c with
  | nil => exact ⟨c, rfl, onStack, rfl, rfl, rfl⟩
  | cons cl digits inductionHypothesis =>
      have isPlain := plain cl List.mem_cons_self
      obtain ⟨c₁, ran, kept₁, -, cursor⟩ := printed_cl cl onStack short
        ((plain_writable isPlain).mpr inside)
      have onScreen := @nextCursor_onScreen cl c.screen.cursor isPlain.1 isPlain.2
      rw [← cursor] at onScreen
      obtain ⟨c₂, rest, kept⟩ := @inductionHypothesis
        { c₁ with machine.regs.edi := c₁.machine.regs.edi + 1 }
        (fun c isOne => plain c (List.mem_cons_of_mem _ isOne)) kept₁.onStack (by simp only; omega)
      refine ⟨c₂, ?_, kept.onStack, kept.esp.trans kept₁.esp, kept.ebp.trans kept₁.ebp,
        kept.esi.trans kept₁.esi⟩
      rw [putEachNum, ran]
      exact rest

theorem putEachNum_fault {cl : UInt8} (rest : List UInt8) (plain : Plain cl)
    (onStack : c.machine.OnStack words) (short : words.length < 28)
    (behind : ¬ c.screen.cursor.toNat % 0x8000 < 0x4000) :
    c.putEachNum afterCall (cl :: rest) = .error .generalProtection := by
  rw [putEachNum, fault_cl cl onStack short (mt (plain_writable plain).mp behind)]
  rfl

end Loops

section Returning

open Console

variable {c : Console} {words : List Word} {back : Word}

/-- The return address and the argument. -/
theorem call_onStack (c : Console) : c.machine.OnStack [c.machine.slot 0, c.machine.slot 1] :=
  HoldsWords.self c.machine.memory c.machine.regs.esp 2

theorem putChar_returns (c : Console) :
    (∃ c', c.putChar = .ok c' ∧ Returns c c') ↔
      Writable c.screen.cursor (clOf (c.machine.slot 1)) := by
  constructor
  · rintro ⟨c', ran, -⟩
    by_contra behind
    rw [putChar_fault (call_onStack c) (by decide) behind] at ran
    contradiction
  · intro writable
    obtain ⟨c', ran, regs, -, -⟩ := putChar_spec (call_onStack c) (by decide) writable
    refine ⟨c', ran, ?_, ?_, ?_, ?_, ?_, ?_⟩ <;> rw [regs]

theorem putStr_returns (afterCall : Word) (textAt : Word → List UInt8) (c : Console) :
    (∃ c', c.putStr afterCall textAt = .ok c' ∧ Returns c c') ↔
      TextWritable c.screen.cursor (textAt (c.machine.slot 1)) := by
  have pushed := ((call_onStack c).push (by simp) c.machine.regs.ebx).push (by simp)
    c.machine.regs.ecx
  let m := (c.machine.push c.machine.regs.ebx).push c.machine.regs.ecx
  have text : m.slot 3 = c.machine.slot 1 := pushed.slot 3 rfl
  let start : Console := ⟨{ m with regs.ecx := 0, regs.ebx := m.slot 3 }, c.screen⟩
  constructor
  · rintro ⟨c', ran, -⟩
    by_contra behind
    have fault := @goon_fault start _ afterCall (textAt (m.slot 3)) pushed (by simp)
      (by rw [text]; exact behind)
    have stuck : c.putStr afterCall textAt = .error .generalProtection :=
      congrArg (· >>= _) fault
    rw [stuck] at ran
    contradiction
  · intro writable
    obtain ⟨c₁, ran, kept, edi⟩ := @goon_spec start _ afterCall (textAt (m.slot 3)) pushed
      (by simp) (by rw [text]; exact writable)
    have slot := kept.onStack.slot
    have esp : wordAddress c₁.machine.regs.esp 2 = c.machine.regs.esp := by
      rw [kept.esp]
      simp only [start, m, Machine.push_regs, wordAddress]
      bv_omega
    have eip : (c₁.machine.skip 2).slot 0 = c.machine.slot 0 :=
      (Machine.slot_skip c₁.machine 2 0).trans (slot 2 rfl)
    refine ⟨_, congrArg (· >>= _) ran, eip, ?_, slot 1 rfl, kept.ebp, kept.esi, edi⟩
    exact congrArg (· + 4) esp

/-- `put_int` in front of its conversion. -/
def Console.enterPutInt (c : Console) : Console :=
  ⟨{ c.machine.pushad with regs.ebp := c.machine.pushad.regs.esp, regs.ecx := 0 }, c.screen⟩

theorem putInt_eq {digits : List UInt8} (afterCall : Word) (c : Console)
    (converted : skipPrefix0 (storeDigits 8 (c.enterPutInt.machine.slot 9) []) = digits) :
    c.putInt afterCall = (do
      let c ← putEachNum afterCall digits c.enterPutInt
      return { c with machine := c.machine.popad.ret }) := by
  rw [← converted]
  rfl

theorem putInt_returns (afterCall : Word) (c : Console) :
    (∃ c', c.putInt afterCall = .ok c' ∧ Returns c c') ↔
      c.screen.cursor.toNat % 0x8000 < 0x4000 := by
  have pushed := pushad_onStack (call_onStack c) (by simp)
  obtain ⟨first, rest, digits, plain⟩ := skipPrefix0_plain
    (@storeDigits_plain [] nofun 8 (c.enterPutInt.machine.slot 9))
  constructor
  · rintro ⟨c', ran, -⟩
    by_contra behind
    have fault := @putEachNum_fault c.enterPutInt _ afterCall first rest
      (plain _ List.mem_cons_self) pushed (by simp [Regs.saved]) behind
    rw [putInt_eq afterCall c digits, fault] at ran
    contradiction
  · intro inside
    obtain ⟨c₁, ran, kept⟩ := @putEachNum_spec c.enterPutInt _ afterCall (first :: rest) plain
      pushed (by simp [Regs.saved]) inside
    obtain ⟨regs, -⟩ := popad_ret kept.onStack kept.esp
    refine ⟨{ c₁ with machine := c₁.machine.popad.ret }, ?_, ?_, ?_, ?_, ?_, ?_, ?_⟩
    · rw [putInt_eq afterCall c digits, ran]
      rfl
    all_goals simp only [regs]

theorem clsScreen_returns (c : Console) : ∃ c', c.clsScreen = .ok c' ∧ Returns c c' := by
  have pushed := pushad_onStack (call_onStack c) (by simp)
  obtain ⟨screen, ran, -, -, -⟩ := @Screen.cls_spec 2000 0 rfl (by decide) c.screen
  let inside : Machine := { c.machine.pushad with regs.gs := selectorVideo, regs.ebx := 0 }
  obtain ⟨regs, -⟩ := @popad_ret c.machine inside _ _ pushed rfl
  refine ⟨setCursor ⟨inside, screen⟩, by rw [clsScreen, ran]; rfl, ?_, ?_, ?_, ?_, ?_, ?_⟩ <;>
    simp only [setCursor, regs]

/-- `set_cursor` gives back nine words instead of one. -/
theorem setCursor_strays (c : Console) : ¬ Returns c c.setCursor := by
  intro returns
  have esp : c.setCursor.machine.regs.esp = wordAddress c.machine.regs.esp 8 + 4 := rfl
  have same := returns.esp
  rw [esp, wordAddress] at same
  bv_omega

theorem rightCall_iff_printable (afterCall : Word) (textAt : Word → List UInt8)
    (routine : Routine) (c : Console) :
    RightCall afterCall textAt routine c ↔ routine.Printable textAt c := by
  have other (different : routine ≠ .setCursor) :
      RightCall afterCall textAt routine c ↔
        ∃ c', routine.run afterCall textAt c = .ok c' ∧ Returns c c' :=
    exists_congr fun c' => and_congr_right fun _ =>
      and_iff_left fun isSetCursor => absurd isSetCursor different
  cases routine with
  | putChar => exact (other nofun).trans (putChar_returns c)
  | putStr => exact (other nofun).trans (putStr_returns afterCall textAt c)
  | putInt => exact (other nofun).trans (putInt_returns afterCall c)
  | clsScreen => exact (other nofun).trans (iff_true_intro (clsScreen_returns c))
  | setCursor =>
      refine iff_of_false ?_ id
      rintro ⟨c', ran, returns, -⟩
      obtain rfl := Except.ok.inj ran
      exact setCursor_strays c returns

/-- The first call of the handler already strays. -/
theorem not_reachesLoop (afterCall : Word) (textAt : Word → List UInt8) (site : Nat → Word)
    (messages : Messages) (cr2 : Word) (vecNr : UInt8) (c : Console) :
    ¬ ReachesLoop afterCall textAt site messages cr2 vecNr c := by
  rintro ⟨calls, handler, completes⟩
  rw [generalIntrHandler] at handler
  split at handler
  next => contradiction
  next =>
    obtain rfl := Option.some.inj handler
    obtain ⟨c', ran, returns, -⟩ := completes
    obtain rfl := Except.ok.inj ran
    exact setCursor_strays _ returns

/-- Every routine but `set_cursor` returns as its caller expects wherever the characters it
prints have their cells; the handler of exceptions, which begins with `set_cursor`, never gets
to its loop. -/
theorem rightCall_iff (afterCall : Word) (textAt : Word → List UInt8) (routine : Routine)
    (site : Nat → Word) (messages : Messages) (cr2 : Word) (vecNr : UInt8) (c : Console) :
    (RightCall afterCall textAt routine c ↔ routine.Printable textAt c) ∧
      ¬ ReachesLoop afterCall textAt site messages cr2 vecNr c :=
  ⟨rightCall_iff_printable afterCall textAt routine c,
    not_reachesLoop afterCall textAt site messages cr2 vecNr c⟩

/-- `set_cursor(88)` -/
theorem setCursor_not_rightCall :
    ¬ RightCall 0xc0001500 (fun _ => []) .setCursor (Console.called
      ⟨⟨⟨0, 0, 0, 0, 0xc009f000, 0, 0, 0, 0x10, 0x10, 0x10, 0x18, 0x08, 0x10, 0, 2⟩, fun _ => 0⟩,
        ⟨fun _ => 0, 0, []⟩⟩ 88 0xc0001600) :=
  (rightCall_iff_printable ..).mp

end Returning

end HongbaiOS.Kernel
