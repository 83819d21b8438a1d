import Mathlib.Data.List.GetD
import Mathlib.Tactic.SplitIfs

/-!
# The keyboard driver

`intr_keyboard_handler` as a machine fed with the bytes of a set 1 keyboard, beside what a
typist does: keys of a US layout pressed and released in any order.  The driver keeps one
flag for both keys of a pair, its table has a wrong letter, and it does not know the
prefix `0xe1` of the pause key.
-/

namespace HongbaiOS.Device

/-- The flags of the driver. -/
structure Keyboard where
  ctrlStatus : Bool
  shiftStatus : Bool
  altStatus : Bool
  capsLockStatus : Bool
  extScancode : Bool
  deriving DecidableEq

def shiftLMake : Nat := 0x2a
def shiftRMake : Nat := 0x36
def altLMake : Nat := 0x38
def altRMake : Nat := 0xe038
def ctrlLMake : Nat := 0x1d
def ctrlRMake : Nat := 0xe01d
def capsLockMake : Nat := 0x3a

/-- `keymap`, as character codes. -/
def keymap : List (UInt8 × UInt8) := [
  (0x30, 0x30), (0x1b, 0x1b), (0x31, 0x21), (0x32, 0x40), (0x33, 0x23), (0x34, 0x24),
  (0x35, 0x25), (0x36, 0x5e), (0x37, 0x26), (0x38, 0x2a), (0x39, 0x28), (0x30, 0x29),
  (0x2d, 0x5f), (0x3d, 0x2b), (0x08, 0x08), (0x09, 0x09),
  -- from 0x10
  (0x71, 0x51), (0x77, 0x57), (0x65, 0x45), (0x72, 0x52), (0x74, 0x54), (0x79, 0x59),
  (0x75, 0x55), (0x69, 0x49), (0x6f, 0x4f), (0x70, 0x50), (0x5b, 0x7b), (0x5d, 0x7d),
  (0x0d, 0x0d), (0x00, 0x00), (0x61, 0x41), (0x73, 0x53),
  -- from 0x20
  (0x64, 0x44), (0x66, 0x46), (0x67, 0x47), (0x68, 0x48), (0x6a, 0x4a), (0x6b, 0x4b),
  (0x6c, 0x4c), (0x3b, 0x3a), (0x27, 0x22), (0x60, 0x7e), (0x00, 0x00), (0x5c, 0x7c),
  (0x7a, 0x5a), (0x78, 0x58), (0x63, 0x43), (0x76, 0x41),
  -- from 0x30
  (0x62, 0x42), (0x6e, 0x4e), (0x6d, 0x4d), (0x2c, 0x3c), (0x2e, 0x3e), (0x2f, 0x3f),
  (0x00, 0x00), (0x2a, 0x2a), (0x00, 0x00), (0x20, 0x20), (0x00, 0x00)]

/-- `keymap[index][shift]` -/
def keymapChar (index : Nat) (shift : Bool) : UInt8 :=
  let row := keymap.getD index (0, 0)
  if shift then row.2 else row.1

/-- The column of `keymap` a make code is read from. -/
def combinesShift (shiftDownLast capsDownLast : Bool) (scancode : Nat) : Bool :=
  if scancode < 0x0e ∨ scancode = 0x29 ∨ scancode = 0x1a ∨ scancode = 0x1b ∨
      scancode = 0x2b ∨ scancode = 0x27 ∨ scancode = 0x28 ∨ scancode = 0x33 ∨
      scancode = 0x34 ∨ scancode = 0x35 then
    shiftDownLast
  else if shiftDownLast && capsDownLast then
    false
  else
    shiftDownLast || capsDownLast

/-- What an interrupt does besides changing the flags. -/
inductive Response where
  | quiet
  /-- `ioq_putchar(&kbd_buf, cur_char)` -/
  | putchar (curChar : UInt8)
  /-- `put_str("Unknow key!\n")` -/
  | unknownKey
  deriving DecidableEq

def Response.enqueued : Response → List UInt8
  | .putchar curChar => [curChar]
  | _ => []

namespace Keyboard

/-- A break code, as the make code it was computed back to. -/
def released (kbd : Keyboard) (makeCode : Nat) : Keyboard :=
  if makeCode = ctrlLMake ∨ makeCode = ctrlRMake then { kbd with ctrlStatus := false }
  else if makeCode = shiftLMake ∨ makeCode = shiftRMake then { kbd with shiftStatus := false }
  else if makeCode = altLMake ∨ makeCode = altRMake then { kbd with altStatus := false }
  else kbd

/-- The make code of a key without a character; its prefix is already cut off. -/
def pressed (kbd : Keyboard) (scancode : Nat) : Keyboard :=
  if scancode = ctrlLMake ∨ scancode = ctrlRMake then { kbd with ctrlStatus := true }
  else if scancode = shiftLMake ∨ scancode = shiftRMake then { kbd with shiftStatus := true }
  else if scancode = altLMake ∨ scancode = altRMake then { kbd with altStatus := true }
  else if scancode = capsLockMake then { kbd with capsLockStatus := !kbd.capsLockStatus }
  else kbd

/-- `intr_keyboard_handler()` with the byte read from the port and the answer of
`ioq_full(&kbd_buf)`. -/
def intrKeyboardHandler (ioqFull : Bool) (kbd : Keyboard) (byte : Nat) : Keyboard × Response :=
  if byte = 0xe0 then
    ({ kbd with extScancode := true }, .quiet)
  else
    let scancode := if kbd.extScancode then 0xe000 ||| byte else byte
    let kbd := { kbd with extScancode := false }
    if 0x0080 &&& scancode ≠ 0 then
      (kbd.released (scancode &&& 0xff7f), .quiet)
    else if (0x00 < scancode ∧ scancode < 0x3b) ∨ scancode = altRMake ∨
        scancode = ctrlRMake then
      let shift := combinesShift kbd.shiftStatus kbd.capsLockStatus scancode
      let scancode := scancode &&& 0x00ff
      let curChar := keymapChar scancode shift
      if curChar ≠ 0 then
        (kbd, if ioqFull then .quiet else .putchar curChar)
      else
        (kbd.pressed scancode, .quiet)
    else
      (kbd, .unknownKey)

/-- The flags after some bytes, with room in the queue. -/
def afterBytes (kbd : Keyboard) (bytes : List Nat) : Keyboard :=
  bytes.foldl (fun kbd byte => (kbd.intrKeyboardHandler false byte).1) kbd

/-- The characters that some bytes put into the queue. -/
def enqueuedBy (kbd : Keyboard) : List Nat → List UInt8
  | [] => []
  | byte :: rest =>
      (kbd.intrKeyboardHandler false byte).2.enqueued ++
        (kbd.intrKeyboardHandler false byte).1.enqueuedBy rest

/-- The driver as it is loaded. -/
def start : Keyboard := ⟨false, false, false, false, false⟩

end Keyboard

/-- A code that a key can have: not one whose break code is the prefix. -/
structure KeyCode where
  value : Nat
  positive : 0 < value
  small : value < 0x80
  notPrefix : value ≠ 0x60
  deriving DecidableEq

inductive Key where
  | plain (code : KeyCode)
  | extended (code : KeyCode)
  | pause
  deriving DecidableEq

inductive Modifier where
  | ctrl | shift | alt
  deriving DecidableEq

/-- The pair a key belongs to. -/
def Key.modifier? : Key → Option Modifier
  | .plain code =>
      if code.value = 0x1d then some .ctrl
      else if code.value = 0x2a ∨ code.value = 0x36 then some .shift
      else if code.value = 0x38 then some .alt
      else none
  | .extended code =>
      if code.value = 0x1d then some .ctrl
      else if code.value = 0x38 then some .alt
      else none
  | .pause => none

/-- What is printed on a key. -/
inductive Legend where
  | letter (lower : UInt8)
  | symbol (plain shifted : UInt8)
  | own (character : UInt8)
  | silent

/-- The US layout by code; keys behind the list have no character. -/
def usLayout : List Legend := [
  .silent, .own 0x1b, .symbol 0x31 0x21, .symbol 0x32 0x40, .symbol 0x33 0x23,
  .symbol 0x34 0x24, .symbol 0x35 0x25, .symbol 0x36 0x5e, .symbol 0x37 0x26,
  .symbol 0x38 0x2a, .symbol 0x39 0x28, .symbol 0x30 0x29, .symbol 0x2d 0x5f,
  .symbol 0x3d 0x2b, .own 0x08, .own 0x09,
  .letter 0x71, .letter 0x77, .letter 0x65, .letter 0x72, .letter 0x74, .letter 0x79,
  .letter 0x75, .letter 0x69, .letter 0x6f, .letter 0x70, .symbol 0x5b 0x7b,
  .symbol 0x5d 0x7d, .own 0x0d, .silent, .letter 0x61, .letter 0x73,
  .letter 0x64, .letter 0x66, .letter 0x67, .letter 0x68, .letter 0x6a, .letter 0x6b,
  .letter 0x6c, .symbol 0x3b 0x3a, .symbol 0x27 0x22, .symbol 0x60 0x7e, .silent,
  .symbol 0x5c 0x7c, .letter 0x7a, .letter 0x78, .letter 0x63, .letter 0x76,
  .letter 0x62, .letter 0x6e, .letter 0x6d, .symbol 0x2c 0x3c, .symbol 0x2e 0x3e,
  .symbol 0x2f 0x3f, .silent, .symbol 0x2a 0x2a, .silent, .own 0x20, .silent]

/-- The character a key stands for; upper-case letters are 32 below the lower-case ones. -/
def Legend.typed (shift capsOn : Bool) : Legend → List UInt8
  | .letter lower => [if shift != capsOn then lower - 0x20 else lower]
  | .symbol plain shifted => [if shift then shifted else plain]
  | .own character => [character]
  | .silent => []

/-- What a typist has done so far. -/
structure Typing where
  held : List Key
  capsOn : Bool

inductive KeyEvent where
  /-- Also sent again while the key stays down. -/
  | press (key : Key)
  | release (key : Key)
  /-- The shift code some extended keys are wrapped in. -/
  | fakeShift (right up : Bool)

namespace Typing

def start : Typing := ⟨[], false⟩

/-- Some key of the pair is held. -/
def holds (typing : Typing) (modifier : Modifier) : Bool :=
  typing.held.any fun key => key.modifier? = some modifier

def isCapsLock : Key → Bool
  | .plain code => code.value = 0x3a
  | _ => false

def after (typing : Typing) : KeyEvent → Typing
  | .press key => ⟨key :: typing.held, typing.capsOn != isCapsLock key⟩
  | .release key => ⟨typing.held.filter (· ≠ key), typing.capsOn⟩
  | .fakeShift _ _ => typing

/-- The bytes a set 1 keyboard sends for an event. -/
def bytes (typing : Typing) : KeyEvent → List Nat
  | .press (.plain code) => [code.value]
  | .press (.extended code) => [0xe0, code.value]
  | .press .pause =>
      if typing.holds .ctrl then [0xe0, 0x46, 0xe0, 0xc6]
      else [0xe1, 0x1d, 0x45, 0xe1, 0x9d, 0xc5]
  | .release (.plain code) => [code.value + 0x80]
  | .release (.extended code) => [0xe0, code.value + 0x80]
  | .release .pause => []
  | .fakeShift right up => [0xe0, (if right then 0x36 else 0x2a) + (if up then 0x80 else 0)]

/-- The characters an event stands for.  The keys of the keypad have no rows in `keymap` and
count as silent. -/
def meant (typing : Typing) : KeyEvent → List UInt8
  | .press (.plain code) =>
      (usLayout.getD code.value .silent).typed (typing.holds .shift) typing.capsOn
  | _ => []

end Typing

namespace Keyboard

def status (kbd : Keyboard) : Modifier → Bool
  | .ctrl => kbd.ctrlStatus
  | .shift => kbd.shiftStatus
  | .alt => kbd.altStatus

/-- Each flag is true exactly when a key of its pair is held. -/
def Agrees (kbd : Keyboard) (typing : Typing) : Prop :=
  ∀ modifier, kbd.status modifier = typing.holds modifier

/-- The flags are right before and after each byte of an event, and the last byte of it
enqueues what the typist meant. -/
structure Follows (kbd : Keyboard) (typing : Typing) (event : KeyEvent) : Prop where
  midway : ∀ sent, sent <+: typing.bytes event → sent ≠ typing.bytes event →
    (kbd.afterBytes sent).Agrees typing ∧ kbd.enqueuedBy sent = []
  flags : (kbd.afterBytes (typing.bytes event)).Agrees (typing.after event)
  characters : kbd.enqueuedBy (typing.bytes event) = typing.meant event

/-- A whole session is followed. -/
def FollowsAll (kbd : Keyboard) (typing : Typing) : List KeyEvent → Prop
  | [] => True
  | event :: rest =>
      kbd.Follows typing event ∧
        (kbd.afterBytes (typing.bytes event)).FollowsAll (typing.after event) rest

end Keyboard

namespace Typing

/-- The events the driver copes with. -/
def Gentle (typing : Typing) : KeyEvent → Prop
  | .press (.plain code) => code.value = 0x2f → typing.holds .shift = typing.capsOn
  | .press .pause => typing.holds .ctrl = true
  | .release key => ∀ modifier, key.modifier? = some modifier →
      (typing.after (.release key)).holds modifier = false
  | _ => True

def GentleAll (typing : Typing) : List KeyEvent → Prop
  | [] => True
  | event :: rest => typing.Gentle event ∧ (typing.after event).GentleAll rest

end Typing

theorem code_masks : ∀ code : Fin 0x80,
    0x80 &&& code.val = 0 ∧ code.val &&& 0xff = code.val ∧
    0xe000 ||| code.val = 0xe000 + code.val ∧
    0x80 &&& (0xe000 + code.val) = 0 ∧ (0xe000 + code.val) &&& 0xff = code.val ∧
    0x80 &&& (code.val + 0x80) ≠ 0 ∧ (code.val + 0x80) &&& 0xff7f = code.val ∧
    0x80 &&& (0xe000 ||| (code.val + 0x80)) ≠ 0 ∧
    (0xe000 ||| (code.val + 0x80)) &&& 0xff7f = 0xe000 + code.val := by
  decide +kernel

/-- The keys without a character. -/
theorem keymapChar_eq_zero_iff : ∀ index : Fin 0x3b, ∀ shift,
    keymapChar index.val shift = 0 ↔
      index.val = 0x1d ∨ index.val = 0x2a ∨ index.val = 0x36 ∨ index.val = 0x38 ∨
        index.val = 0x3a := by
  decide +kernel

/-- The table and the choice of its column agree with the layout, up to the letter `v`. -/
theorem keymapChar_typed_iff : ∀ index : Fin 0x3b, ∀ shift capsOn, 0 < index.val →
    ((Response.enqueued (if keymapChar index.val (combinesShift shift capsOn index.val) ≠ 0
        then .putchar (keymapChar index.val (combinesShift shift capsOn index.val))
        else .quiet)) =
      (usLayout.getD index.val .silent).typed shift capsOn ↔
    (index.val = 0x2f → shift = capsOn)) := by
  decide +kernel

/-- The make code a key has in the handler. -/
def Key.makeCode : Key → Nat
  | .plain code => code.value
  | .extended code => 0xe000 + code.value
  | .pause => 0

namespace Keyboard

variable {kbd : Keyboard}

theorem handler_prefix (kbd : Keyboard) :
    kbd.intrKeyboardHandler false 0xe0 = ({ kbd with extScancode := true }, .quiet) := rfl

theorem handler_break (kbd : Keyboard) (code : KeyCode) :
    kbd.intrKeyboardHandler false (code.value + 0x80) =
      ({ kbd with extScancode := false }.released
        (if kbd.extScancode then 0xe000 + code.value else code.value), .quiet) := by
  have masks := code_masks ⟨code.value, code.small⟩
  have notPrefix : code.value + 0x80 ≠ 0xe0 := by
    have notPrefix := code.notPrefix
    omega
  rw [intrKeyboardHandler, if_neg notPrefix]
  cases kbd.extScancode with
  | true => simp [masks]
  | false => simp [masks]

theorem handler_plainMake (kbd : Keyboard) (code : KeyCode) (plain : kbd.extScancode = false) :
    kbd.intrKeyboardHandler false code.value =
      if code.value < 0x3b then
        if keymapChar code.value
            (combinesShift kbd.shiftStatus kbd.capsLockStatus code.value) ≠ 0 then
          (kbd, .putchar (keymapChar code.value
            (combinesShift kbd.shiftStatus kbd.capsLockStatus code.value)))
        else (kbd.pressed code.value, .quiet)
      else (kbd, .unknownKey) := by
  have masks := code_masks ⟨code.value, code.small⟩
  have notPrefix : code.value ≠ 0xe0 := by
    have small := code.small
    omega
  have single : ¬ (code.value = altRMake ∨ code.value = ctrlRMake) := by
    have small := code.small
    simp only [altRMake, ctrlRMake]
    omega
  have same : { kbd with extScancode := false } = kbd := by rw [← plain]
  rw [intrKeyboardHandler, if_neg notPrefix]
  simp only [plain, Bool.false_eq_true, if_false, same, masks, ne_eq, not_true_eq_false,
    code.positive, true_and, single, or_false]

theorem handler_extendedMake (kbd : Keyboard) (code : KeyCode)
    (extended : kbd.extScancode = true) :
    kbd.intrKeyboardHandler false code.value =
      if code.value = 0x38 ∨ code.value = 0x1d then
        ({ kbd with extScancode := false }.pressed code.value, .quiet)
      else ({ kbd with extScancode := false }, .unknownKey) := by
  have masks := code_masks ⟨code.value, code.small⟩
  have notPrefix : code.value ≠ 0xe0 := by
    have small := code.small
    omega
  rw [intrKeyboardHandler, if_neg notPrefix]
  simp only [extended, if_true, masks, ne_eq, not_true_eq_false, if_false]
  by_cases right : code.value = 0x38 ∨ code.value = 0x1d
  · rw [if_pos (by simp only [altRMake, ctrlRMake]; omega), if_pos right]
    have silent : ∀ shift, keymapChar code.value shift = 0 := fun shift =>
      (keymapChar_eq_zero_iff ⟨code.value, by omega⟩ shift).mpr (by simp only; omega)
    simp [silent]
  · rw [if_neg (by simp only [altRMake, ctrlRMake]; omega), if_neg right]

theorem status_released {key : Key} (coded : key ≠ .pause) (modifier : Modifier) :
    (kbd.released key.makeCode).status modifier =
      if key.modifier? = some modifier then false else kbd.status modifier := by
  simp only [released, ctrlLMake, ctrlRMake, shiftLMake, shiftRMake, altLMake, altRMake]
  cases key with
  | pause => exact absurd rfl coded
  | plain code =>
    have small := code.small
    simp only [Key.makeCode, Key.modifier?]
    cases modifier <;> simp only [status] <;> grind
  | extended code =>
    have small := code.small
    simp only [Key.makeCode, Key.modifier?]
    cases modifier <;> simp only [status] <;> grind

theorem released_rest (makeCode : Nat) :
    (kbd.released makeCode).capsLockStatus = kbd.capsLockStatus ∧
      (kbd.released makeCode).extScancode = kbd.extScancode := by
  unfold released
  split_ifs <;> exact ⟨rfl, rfl⟩

theorem status_pressed (code : KeyCode) (modifier : Modifier) :
    (kbd.pressed code.value).status modifier =
      if (Key.plain code).modifier? = some modifier then true else kbd.status modifier := by
  simp only [pressed, ctrlLMake, ctrlRMake, shiftLMake, shiftRMake, altLMake, altRMake,
    capsLockMake, Key.modifier?]
  have small := code.small
  cases modifier <;> simp only [status] <;> grind

theorem pressed_rest (code : KeyCode) :
    (kbd.pressed code.value).capsLockStatus =
        (kbd.capsLockStatus != Typing.isCapsLock (.plain code)) ∧
      (kbd.pressed code.value).extScancode = kbd.extScancode := by
  simp only [pressed, ctrlLMake, ctrlRMake, shiftLMake, shiftRMake, altLMake, altRMake,
    capsLockMake, Typing.isCapsLock]
  have small := code.small
  grind

end Keyboard

namespace Typing

variable {typing : Typing} {key : Key} {modifier : Modifier}

theorem holds_press :
    (typing.after (.press key)).holds modifier =
      if key.modifier? = some modifier then true else typing.holds modifier := by
  by_cases own : key.modifier? = some modifier <;> simp [holds, after, own]

theorem holds_release (other : key.modifier? ≠ some modifier) :
    (typing.after (.release key)).holds modifier = typing.holds modifier := by
  rw [Bool.eq_iff_iff]
  simp only [holds, after, List.any_eq_true, List.mem_filter, decide_eq_true_eq]
  constructor
  · rintro ⟨held, ⟨isHeld, -⟩, pair⟩
    exact ⟨held, isHeld, pair⟩
  · rintro ⟨held, isHeld, pair⟩
    exact ⟨held, ⟨isHeld, fun same => other (same ▸ pair)⟩, pair⟩

end Typing

namespace Keyboard

variable {kbd : Keyboard} {typing : Typing} {code : KeyCode} {key : Key} {event : KeyEvent}

/-- What holds between two events as long as the driver follows. -/
structure Linked (kbd : Keyboard) (typing : Typing) : Prop where
  agrees : kbd.Agrees typing
  capsOn : kbd.capsLockStatus = typing.capsOn
  plain : kbd.extScancode = false

theorem linked_start : start.Linked Typing.start where
  agrees modifier := by cases modifier <;> rfl
  capsOn := rfl
  plain := rfl

theorem Agrees.setExt (agrees : kbd.Agrees typing) (ext : Bool) :
    { kbd with extScancode := ext }.Agrees typing := by
  intro modifier
  rw [← agrees modifier]
  cases modifier <;> rfl

theorem Linked.resetExt (linked : kbd.Linked typing) :
    { kbd with extScancode := false } = kbd := by
  rw [← linked.plain]

theorem Linked.pressed (linked : kbd.Linked typing)
    (same : key.modifier? = (Key.plain code).modifier?)
    (sameLock : Typing.isCapsLock key = Typing.isCapsLock (.plain code)) :
    (kbd.pressed code.value).Linked (typing.after (.press key)) where
  agrees modifier := by
    rw [status_pressed, Typing.holds_press, same, linked.agrees]
  capsOn := by
    rw [(pressed_rest code).1, linked.capsOn, ← sameLock]
    rfl
  plain := by rw [(pressed_rest code).2, linked.plain]

theorem Linked.pressOther (linked : kbd.Linked typing) (other : key.modifier? = none)
    (noLock : Typing.isCapsLock key = false) : kbd.Linked (typing.after (.press key)) where
  agrees modifier := by
    rw [Typing.holds_press, other, linked.agrees]
    rfl
  capsOn := by simp [Typing.after, noLock, linked.capsOn]
  plain := linked.plain

theorem agrees_released_iff (linked : kbd.Linked typing) (coded : key ≠ .pause) :
    (kbd.released key.makeCode).Agrees (typing.after (.release key)) ↔
      typing.Gentle (.release key) := by
  constructor
  · intro agrees modifier own
    rw [← agrees modifier, status_released coded, if_pos own]
  · intro gentle modifier
    rw [status_released coded]
    split
    · next own => exact (gentle modifier own).symm
    · next other => rw [Typing.holds_release other, linked.agrees]

theorem Linked.released (linked : kbd.Linked typing) (coded : key ≠ .pause)
    (gentle : typing.Gentle (.release key)) :
    (kbd.released key.makeCode).Linked (typing.after (.release key)) where
  agrees := (agrees_released_iff linked coded).mpr gentle
  capsOn := (released_rest _).1.trans linked.capsOn
  plain := (released_rest _).2.trans linked.plain

theorem midway_single (linked : kbd.Linked typing) {byte : Nat} {sent : List Nat}
    (isPrefix : sent <+: [byte]) (incomplete : sent ≠ [byte]) :
    (kbd.afterBytes sent).Agrees typing ∧ kbd.enqueuedBy sent = [] := by
  rcases List.prefix_cons_iff.mp isPrefix with rfl | ⟨rest, rfl, restPrefix⟩
  · exact ⟨linked.agrees, rfl⟩
  · rw [List.prefix_nil.mp restPrefix] at incomplete
    exact absurd rfl incomplete

theorem midway_extended (linked : kbd.Linked typing) {byte : Nat} {sent : List Nat}
    (isPrefix : sent <+: [0xe0, byte]) (incomplete : sent ≠ [0xe0, byte]) :
    (kbd.afterBytes sent).Agrees typing ∧ kbd.enqueuedBy sent = [] := by
  rcases List.prefix_cons_iff.mp isPrefix with rfl | ⟨rest, rfl, restPrefix⟩
  · exact ⟨linked.agrees, rfl⟩
  · rcases List.prefix_cons_iff.mp restPrefix with rfl | ⟨last, rfl, lastPrefix⟩
    · exact ⟨linked.agrees.setExt true, rfl⟩
    · rw [List.prefix_nil.mp lastPrefix] at incomplete
      exact absurd rfl incomplete

theorem Linked.plainMake (linked : kbd.Linked typing) :
    (kbd.afterBytes [code.value]).Linked (typing.after (.press (.plain code))) := by
  have idle (other : ¬ (code.value = 0x1d ∨ code.value = 0x2a ∨ code.value = 0x36 ∨
      code.value = 0x38 ∨ code.value = 0x3a)) :
      kbd.Linked (typing.after (.press (.plain code))) := by
    simp only [not_or] at other
    exact linked.pressOther (by simp [Key.modifier?, other]) (by simp [Typing.isCapsLock, other])
  simp only [afterBytes, List.foldl, handler_plainMake kbd code linked.plain]
  split
  · next inTable =>
    have silent := keymapChar_eq_zero_iff ⟨code.value, inTable⟩
      (combinesShift kbd.shiftStatus kbd.capsLockStatus code.value)
    split
    · next hasChar => exact idle fun none => hasChar (silent.mpr none)
    · exact linked.pressed rfl rfl
  · exact idle (by omega)

theorem enqueuedBy_plainMake_iff (linked : kbd.Linked typing) :
    kbd.enqueuedBy [code.value] = typing.meant (.press (.plain code)) ↔
      typing.Gentle (.press (.plain code)) := by
  have shift : kbd.shiftStatus = typing.holds .shift := linked.agrees .shift
  simp only [enqueuedBy, List.append_nil, handler_plainMake kbd code linked.plain, Typing.meant,
    Typing.Gentle, shift, linked.capsOn]
  by_cases inTable : code.value < 0x3b
  · have typed := keymapChar_typed_iff ⟨code.value, inTable⟩ (typing.holds .shift)
      typing.capsOn code.positive
    rw [if_pos inTable, ← typed]
    split <;> rfl
  · have outside : usLayout.getD code.value .silent = .silent :=
      List.getD_eq_default _ _ (by simpa [usLayout] using inTable)
    rw [if_neg inTable, outside]
    exact ⟨fun _ isV => absurd isV (by omega), fun _ => rfl⟩

theorem extendedMake_eq (linked : kbd.Linked typing) (code : KeyCode) :
    kbd.afterBytes [0xe0, code.value] =
        (if code.value = 0x38 ∨ code.value = 0x1d then kbd.pressed code.value else kbd) ∧
      kbd.enqueuedBy [0xe0, code.value] = [] := by
  have make := handler_extendedMake { kbd with extScancode := true } code rfl
  have same : { kbd with extScancode := false } = kbd := linked.resetExt
  simp only [same] at make
  simp only [afterBytes, List.foldl, enqueuedBy, handler_prefix, make]
  split <;> exact ⟨rfl, rfl⟩

theorem Linked.extendedMake (linked : kbd.Linked typing) :
    (kbd.afterBytes [0xe0, code.value]).Linked (typing.after (.press (.extended code))) := by
  rw [(extendedMake_eq linked _).1]
  split
  · next right =>
    rcases right with right | right <;>
      exact linked.pressed (by simp [Key.modifier?, right]) (by simp [Typing.isCapsLock, right])
  · next other =>
    simp only [not_or] at other
    exact linked.pressOther (by simp [Key.modifier?, other]) rfl

theorem plainBreak_eq (linked : kbd.Linked typing) (code : KeyCode) :
    kbd.afterBytes [code.value + 0x80] = kbd.released (Key.plain code).makeCode ∧
      kbd.enqueuedBy [code.value + 0x80] = [] := by
  have released := handler_break kbd code
  simp only [linked.resetExt, linked.plain, Bool.false_eq_true, if_false] at released
  simp only [afterBytes, List.foldl, enqueuedBy, released]
  exact ⟨rfl, rfl⟩

theorem extendedBreak_eq (linked : kbd.Linked typing) (code : KeyCode) :
    kbd.afterBytes [0xe0, code.value + 0x80] = kbd.released (Key.extended code).makeCode ∧
      kbd.enqueuedBy [0xe0, code.value + 0x80] = [] := by
  have released := handler_break { kbd with extScancode := true } code
  have same : { kbd with extScancode := false } = kbd := linked.resetExt
  simp only [same, if_true] at released
  simp only [afterBytes, List.foldl, enqueuedBy, handler_prefix, released]
  exact ⟨rfl, rfl⟩

theorem afterBytes_append (kbd : Keyboard) (bytes more : List Nat) :
    kbd.afterBytes (bytes ++ more) = (kbd.afterBytes bytes).afterBytes more :=
  List.foldl_append

theorem enqueuedBy_append (kbd : Keyboard) (bytes more : List Nat) :
    kbd.enqueuedBy (bytes ++ more) =
      kbd.enqueuedBy bytes ++ (kbd.afterBytes bytes).enqueuedBy more := by
  induction bytes generalizing kbd with
  | nil => rfl
  | cons byte rest inductionHypothesis =>
    rw [List.cons_append, enqueuedBy, enqueuedBy, inductionHypothesis, List.append_assoc]
    rfl

/-- Behind the prefix the shift codes mean nothing. -/
theorem fakeShift_eq (linked : kbd.Linked typing) (right up : Bool) :
    kbd.afterBytes (typing.bytes (.fakeShift right up)) = kbd ∧
      kbd.enqueuedBy (typing.bytes (.fakeShift right up)) = [] := by
  cases right with
  | false =>
    let code : KeyCode := ⟨0x2a, by decide, by decide, by decide⟩
    cases up with
    | false => exact extendedMake_eq linked code
    | true => exact extendedBreak_eq linked code
  | true =>
    let code : KeyCode := ⟨0x36, by decide, by decide, by decide⟩
    cases up with
    | false => exact extendedMake_eq linked code
    | true => exact extendedBreak_eq linked code

/-- The first half of the pause key with ctrl, a make code. -/
theorem pauseMake_eq (linked : kbd.Linked typing) :
    kbd.afterBytes [0xe0, 0x46] = kbd ∧ kbd.enqueuedBy [0xe0, 0x46] = [] :=
  extendedMake_eq linked ⟨0x46, by decide, by decide, by decide⟩

theorem pauseBreak_eq (linked : kbd.Linked typing) :
    kbd.afterBytes [0xe0, 0x46, 0xe0, 0xc6] = kbd ∧
      kbd.enqueuedBy [0xe0, 0x46, 0xe0, 0xc6] = [] := by
  obtain ⟨made, madeNothing⟩ := pauseMake_eq linked
  have broken : kbd.afterBytes [0xe0, 0xc6] = kbd ∧ kbd.enqueuedBy [0xe0, 0xc6] = [] :=
    extendedBreak_eq linked ⟨0x46, by decide, by decide, by decide⟩
  have after := kbd.afterBytes_append [0xe0, 0x46] [0xe0, 0xc6]
  have enqueued := kbd.enqueuedBy_append [0xe0, 0x46] [0xe0, 0xc6]
  rw [made] at after enqueued
  exact ⟨after.trans broken.1, by rw [broken.2, madeNothing] at enqueued; exact enqueued⟩

theorem midway_pauseBreak (linked : kbd.Linked typing) {sent : List Nat}
    (isPrefix : sent <+: [0xe0, 0x46, 0xe0, 0xc6])
    (incomplete : sent ≠ [0xe0, 0x46, 0xe0, 0xc6]) :
    (kbd.afterBytes sent).Agrees typing ∧ kbd.enqueuedBy sent = [] := by
  rcases List.prefix_cons_iff.mp isPrefix with rfl | ⟨tail, rfl, tailPrefix⟩
  · exact ⟨linked.agrees, rfl⟩
  · rcases List.prefix_cons_iff.mp tailPrefix with rfl | ⟨rest, rfl, restPrefix⟩
    · exact ⟨linked.agrees.setExt true, rfl⟩
    · obtain ⟨made, madeNothing⟩ := pauseMake_eq linked
      have after := kbd.afterBytes_append [0xe0, 0x46] rest
      have enqueued := kbd.enqueuedBy_append [0xe0, 0x46] rest
      rw [made] at after enqueued
      rw [madeNothing] at enqueued
      have midway := midway_extended linked restPrefix fun all => incomplete (all ▸ rfl)
      exact ⟨after ▸ midway.1, enqueued.trans midway.2⟩

theorem pause_ctrlStatus (linked : kbd.Linked typing) :
    (kbd.afterBytes [0xe1, 0x1d]).ctrlStatus = true := by
  have ignored : kbd.afterBytes [0xe1] = kbd :=
    (plainBreak_eq linked ⟨0x61, by decide, by decide, by decide⟩).1
  have make := handler_plainMake kbd ⟨0x1d, by decide, by decide, by decide⟩ linked.plain
  have after := kbd.afterBytes_append [0xe1] [0x1d]
  rw [ignored] at after
  have silent := (keymapChar_eq_zero_iff ⟨0x1d, by decide⟩
    (combinesShift kbd.shiftStatus kbd.capsLockStatus 0x1d)).mpr (.inl rfl)
  simp only [silent, ne_eq, not_true_eq_false, if_false] at make
  have pressed : kbd.afterBytes [0x1d] = kbd.pressed 0x1d := congrArg Prod.fst make
  rw [List.singleton_append, pressed] at after
  rw [after]
  rfl

theorem follows_plainMake_iff (linked : kbd.Linked typing) :
    kbd.Follows typing (.press (.plain code)) ↔ typing.Gentle (.press (.plain code)) := by
  rw [← enqueuedBy_plainMake_iff linked]
  exact ⟨fun follows => follows.characters, fun characters =>
    ⟨fun _ isPrefix incomplete => midway_single linked isPrefix incomplete,
      linked.plainMake.agrees, characters⟩⟩

theorem follows_extendedMake (linked : kbd.Linked typing) :
    kbd.Follows typing (.press (.extended code)) where
  midway _ isPrefix incomplete := midway_extended linked isPrefix incomplete
  flags := linked.extendedMake.agrees
  characters := (extendedMake_eq linked _).2

theorem follows_plainBreak_iff (linked : kbd.Linked typing) :
    kbd.Follows typing (.release (.plain code)) ↔ typing.Gentle (.release (.plain code)) := by
  obtain ⟨after, characters⟩ := plainBreak_eq linked code
  rw [← agrees_released_iff linked (by simp), ← after]
  exact ⟨fun follows => follows.flags, fun agrees =>
    ⟨fun _ isPrefix incomplete => midway_single linked isPrefix incomplete, agrees,
      characters⟩⟩

theorem follows_extendedBreak_iff (linked : kbd.Linked typing) :
    kbd.Follows typing (.release (.extended code)) ↔
      typing.Gentle (.release (.extended code)) := by
  obtain ⟨after, characters⟩ := extendedBreak_eq linked code
  rw [← agrees_released_iff linked (by simp), ← after]
  exact ⟨fun follows => follows.flags, fun agrees =>
    ⟨fun _ isPrefix incomplete => midway_extended linked isPrefix incomplete, agrees,
      characters⟩⟩

theorem follows_fakeShift (linked : kbd.Linked typing) (right up : Bool) :
    kbd.Follows typing (.fakeShift right up) where
  midway _ isPrefix incomplete := midway_extended linked isPrefix incomplete
  flags := by
    rw [(fakeShift_eq linked right up).1]
    exact linked.agrees
  characters := (fakeShift_eq linked right up).2

theorem Linked.releasePause (linked : kbd.Linked typing) :
    kbd.Linked (typing.after (.release .pause)) where
  agrees modifier := by
    rw [Typing.holds_release (by simp [Key.modifier?]), linked.agrees]
  capsOn := linked.capsOn
  plain := linked.plain

theorem follows_releasePause (linked : kbd.Linked typing) :
    kbd.Follows typing (.release .pause) where
  midway _ isPrefix incomplete := absurd (List.prefix_nil.mp isPrefix) incomplete
  flags := linked.releasePause.agrees
  characters := rfl

/-- The second byte of the pause key passes for the left ctrl key. -/
theorem follows_pause_iff (linked : kbd.Linked typing) :
    kbd.Follows typing (.press .pause) ↔ typing.Gentle (.press .pause) := by
  cases ctrl : typing.holds .ctrl with
  | false =>
    have bytes : typing.bytes (.press .pause) = [0xe1, 0x1d, 0x45, 0xe1, 0x9d, 0xc5] := by
      simp [Typing.bytes, ctrl]
    refine ⟨fun follows => ?_, fun gentle => absurd (ctrl.symm.trans gentle) (by simp)⟩
    have midway := follows.midway [0xe1, 0x1d] (by rw [bytes]; exact ⟨_, rfl⟩)
      (by rw [bytes]; simp)
    exact (midway.1 .ctrl).symm.trans (pause_ctrlStatus linked)
  | true =>
    have bytes : typing.bytes (.press .pause) = [0xe0, 0x46, 0xe0, 0xc6] := by
      simp [Typing.bytes, ctrl]
    obtain ⟨after, characters⟩ := pauseBreak_eq linked
    refine ⟨fun _ => ctrl, fun _ => ⟨?_, ?_, ?_⟩⟩
    · intro sent isPrefix incomplete
      rw [bytes] at isPrefix incomplete
      exact midway_pauseBreak linked isPrefix incomplete
    · rw [bytes, after]
      exact (linked.pressOther rfl rfl).agrees
    · rw [bytes, characters]
      rfl

theorem follows_iff (linked : kbd.Linked typing) :
    kbd.Follows typing event ↔ typing.Gentle event := by
  match event with
  | .press (.plain code) => exact follows_plainMake_iff linked
  | .press (.extended code) => exact iff_of_true (follows_extendedMake linked) trivial
  | .press .pause => exact follows_pause_iff linked
  | .release (.plain code) => exact follows_plainBreak_iff linked
  | .release (.extended code) => exact follows_extendedBreak_iff linked
  | .release .pause =>
    exact iff_of_true (follows_releasePause linked) fun modifier own => by
      simp [Key.modifier?] at own
  | .fakeShift right up => exact iff_of_true (follows_fakeShift linked right up) trivial

theorem Linked.step (linked : kbd.Linked typing) (gentle : typing.Gentle event) :
    (kbd.afterBytes (typing.bytes event)).Linked (typing.after event) := by
  match event with
  | .press (.plain code) => exact linked.plainMake
  | .press (.extended code) => exact linked.extendedMake
  | .press .pause =>
    have bytes : typing.bytes (.press .pause) = [0xe0, 0x46, 0xe0, 0xc6] := if_pos gentle
    rw [bytes, (pauseBreak_eq linked).1]
    exact linked.pressOther rfl rfl
  | .release (.plain code) =>
    have after : kbd.afterBytes (typing.bytes (.release (.plain code))) =
      kbd.released (Key.plain code).makeCode := (plainBreak_eq linked _).1
    rw [after]
    exact linked.released (by simp) gentle
  | .release (.extended code) =>
    have after : kbd.afterBytes (typing.bytes (.release (.extended code))) =
      kbd.released (Key.extended code).makeCode := (extendedBreak_eq linked _).1
    rw [after]
    exact linked.released (by simp) gentle
  | .release .pause => exact linked.releasePause
  | .fakeShift right up =>
    rw [(fakeShift_eq linked right up).1]
    exact linked

theorem followsAll_iff_of_linked {events : List KeyEvent} (linked : kbd.Linked typing) :
    kbd.FollowsAll typing events ↔ typing.GentleAll events := by
  induction events generalizing kbd typing with
  | nil => exact Iff.rfl
  | cons event rest inductionHypothesis =>
    rw [FollowsAll, Typing.GentleAll, follows_iff linked]
    exact and_congr_right fun gentle => inductionHypothesis (linked.step gentle)

/-- The driver follows a session exactly when no key of a pair is released while the other
one is held, `v` is never to give a capital letter, and the pause key is pressed with
ctrl only. -/
theorem followsAll_iff (events : List KeyEvent) :
    start.FollowsAll Typing.start events ↔ Typing.start.GentleAll events :=
  followsAll_iff_of_linked linked_start

/-- Both shift keys are pressed and the left one released. -/
theorem not_followsAll_twoShifts : ¬ ∀ events, start.FollowsAll Typing.start events := by
  intro all
  let left : Key := .plain ⟨0x2a, by decide, by decide, by decide⟩
  let right : Key := .plain ⟨0x36, by decide, by decide, by decide⟩
  have follows := (all [.press left, .press right, .release left]).2.2.1.flags .shift
  exact absurd follows (by decide)

end Keyboard

end HongbaiOS.Device
