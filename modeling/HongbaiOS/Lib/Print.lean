import HongbaiOS.Kernel.Debug
import HongbaiOS.Library.Bytes
import Mathlib.Data.Nat.Bitwise

/-!
# The text screen

`put_char` of `print.S`: the character classes fall through into each other and into the code
that scrolls, all on a cursor of 16 bits that is compared as a signed number.
-/

namespace HongbaiOS.Lib

open HongbaiOS.Library HongbaiOS.Kernel

/-- The video memory, and the cursor registers of the CRT controller. -/
structure Screen where
  video : Bytes
  cursor : UInt16
  /-- The offsets of the bytes written, the last one first. -/
  written : List Nat

/-- The limit of the segment in `gs`, eight pages. -/
def videoLimit : Nat := 0x7fff

namespace Screen

/-- A byte is written. -/
def put (s : Screen) (offset : Nat) (value : UInt8) : Screen :=
  { s with video := Function.update s.video offset value, written := offset :: s.written }

/-- `mov byte [gs:offset], value` -/
def mov (s : Screen) (offset : Nat) (value : UInt8) : Except Halt Screen :=
  if offset ≤ videoLimit then .ok (s.put offset value) else .error .generalProtection

/-- `mov word [gs:offset], 0x0720` -/
def movBlank (s : Screen) (offset : Nat) : Except Halt Screen :=
  if offset + 1 ≤ videoLimit then .ok ((s.put offset 0x20).put (offset + 1) 0x07)
  else .error .generalProtection

/-- `movsd` with offsets into the video memory. -/
def movsd (s : Screen) (esi edi : Nat) : Screen :=
  (((s.put edi (s.video esi)).put (edi + 1) (s.video (esi + 1))).put (edi + 2)
    (s.video (esi + 2))).put (edi + 3) (s.video (esi + 3))

/-- `rep movsd` -/
def repMovsd : (ecx esi edi : Nat) → Screen → Screen
  | 0, _, _, s => s
  | ecx + 1, esi, edi, s => repMovsd ecx (esi + 4) (edi + 4) (s.movsd esi edi)

/-- The loop `.cls`. -/
def cls : (ecx ebx : Nat) → Screen → Except Halt Screen
  | 0, _, s => .ok s
  | ecx + 1, ebx, s => do
      let s ← s.movBlank ebx
      cls ecx (ebx + 2) s

/-- `set_cursor` from where the cursor is in `bx`. -/
def setCursor (s : Screen) (bx : UInt16) : Screen := { s with cursor := bx }

/-- `.roll_screen` -/
def rollScreen (s : Screen) : Except Halt Screen := do
  let s ← cls 80 3840 (repMovsd 960 160 0 s)
  return s.setCursor 1920

/-- `.is_line_feed` and `.is_carriage_return` -/
def isLineFeed (s : Screen) (bx : UInt16) : Except Halt Screen :=
  let dx := bx % 80
  let bx := bx - dx + 80
  if bx.toInt16 < 2000 then .ok (s.setCursor bx) else s.rollScreen

/-- `put_char`, for the character `cl`. -/
def putChar (s : Screen) (cl : UInt8) : Except Halt Screen :=
  let bx := s.cursor
  if cl = 0xd ∨ cl = 0xa then s.isLineFeed bx
  else if cl = 0x8 then do
    let bx := (bx - 1) <<< 1
    let s ← s.mov bx.toNat 0x20
    let bx := bx + 1
    let s ← s.mov bx.toNat 0x07
    return s.setCursor (bx >>> 1)
  else do
    let bx := bx <<< 1
    let s ← s.mov bx.toNat cl
    let bx := bx + 1
    let s ← s.mov bx.toNat 0x07
    let bx := (bx >>> 1) + 1
    if bx.toInt16 < 2000 then return s.setCursor bx
    else s.isLineFeed bx

end Screen

def IsNewline (c : UInt8) : Prop := c = 0xd ∨ c = 0xa

instance (c : UInt8) : Decidable (IsNewline c) := inferInstanceAs (Decidable (_ ∨ _))

/-- The character moves the cursor past the last line. -/
def Scrolls (cursor : Nat) (c : UInt8) : Prop :=
  if IsNewline c then 1920 ≤ cursor else c ≠ 0x8 ∧ cursor = 1999

instance (cursor : Nat) (c : UInt8) : Decidable (Scrolls cursor c) := by
  unfold Scrolls
  infer_instance

def cursorAfter (cursor : Nat) (c : UInt8) : Nat :=
  if Scrolls cursor c then 1920
  else if IsNewline c then (cursor / 80 + 1) * 80
  else if c = 0x8 then cursor - 1
  else cursor + 1

/-- A character with its attribute. -/
def setCell (video : Bytes) (cell : Nat) (c : UInt8) : Bytes := fun k =>
  if k = 2 * cell then c else if k = 2 * cell + 1 then 0x07 else video k

/-- The video memory with the character in it, before it scrolls. -/
def drawn (video : Bytes) (cursor : Nat) (c : UInt8) : Bytes :=
  if IsNewline c then video
  else if c = 0x8 then setCell video (cursor - 1) 0x20
  else setCell video cursor c

/-- All lines one up, and a blank one at the bottom. -/
def scrolled (video : Bytes) : Bytes := fun k =>
  if k < 3840 then video (k + 160)
  else if k < 4000 then (if k % 2 = 0 then 0x20 else 0x07)
  else video k

/-- All bytes written since lie below an offset. -/
def WritesBelow (bound : Nat) (s s' : Screen) : Prop :=
  ∃ offsets, s'.written = offsets ++ s.written ∧ ∀ offset ∈ offsets, offset < bound

/-- `put_char` has drawn the character and scrolled the screen if it had to, has written
nothing outside the 25 lines of 80 characters, and has left the cursor in them. -/
structure CharRight (s s' : Screen) (c : UInt8) : Prop where
  inside : WritesBelow 4000 s s'
  video : s'.video =
    if Scrolls s.cursor.toNat c then scrolled (drawn s.video s.cursor.toNat c)
    else drawn s.video s.cursor.toNat c
  cursor : s'.cursor.toNat = cursorAfter s.cursor.toNat c
  onScreen : s'.cursor.toNat < 2000

def TextRight (s : Screen) : List UInt8 → Prop
  | [] => True
  | c :: text => ∃ s', s.putChar c = .ok s' ∧ CharRight s s' c ∧ TextRight s' text

section Scrolling

variable {s s' s'' : Screen} {bound bound' : Nat}

theorem WritesBelow.refl (bound : Nat) (s : Screen) : WritesBelow bound s s := ⟨[], rfl, nofun⟩

theorem WritesBelow.trans (first : WritesBelow bound s s') (second : WritesBelow bound s' s'') :
    WritesBelow bound s s'' := by
  obtain ⟨offsets, same, below⟩ := first
  obtain ⟨offsets', same', below'⟩ := second
  refine ⟨offsets' ++ offsets, by rw [same', same, List.append_assoc], fun offset isOne => ?_⟩
  rcases List.mem_append.mp isOne with later | earlier
  · exact below' offset later
  · exact below offset earlier

theorem WritesBelow.put {offset : Nat} (writes : WritesBelow bound s s') (inside : offset < bound)
    (value : UInt8) : WritesBelow bound s (s'.put offset value) :=
  writes.trans ⟨[offset], rfl, fun _ isIt => List.mem_singleton.mp isIt ▸ inside⟩

theorem WritesBelow.mono (writes : WritesBelow bound s s') (le : bound ≤ bound') :
    WritesBelow bound' s s' := by
  obtain ⟨offsets, same, below⟩ := writes
  exact ⟨offsets, same, fun offset isOne => Nat.lt_of_lt_of_le (below offset isOne) le⟩

namespace Screen

theorem put_video (s : Screen) (offset : Nat) (value : UInt8) (k : Nat) :
    (s.put offset value).video k = if k = offset then value else s.video k :=
  Function.update_apply ..

theorem movsd_video (s : Screen) (edi k : Nat) :
    (s.movsd (edi + 160) edi).video k =
      if edi ≤ k ∧ k < edi + 4 then s.video (k + 160) else s.video k := by
  simp only [movsd, put_video]
  by_cases inside : edi ≤ k ∧ k < edi + 4
  · rw [if_pos inside]
    obtain rfl | rfl | rfl | rfl : k = edi ∨ k = edi + 1 ∨ k = edi + 2 ∨ k = edi + 3 := by omega
    · simp
    · simp [Nat.add_right_comm]
    · simp [Nat.add_right_comm]
    · simp [Nat.add_right_comm]
  · rw [if_neg inside, if_neg (by omega), if_neg (by omega), if_neg (by omega), if_neg (by omega)]

/-- The lines are moved up, from the first on. -/
theorem repMovsd_spec (ecx edi : Nat) (s : Screen) :
    (∀ k, (repMovsd ecx (edi + 160) edi s).video k =
      if edi ≤ k ∧ k < edi + 4 * ecx then s.video (k + 160) else s.video k) ∧
    WritesBelow (edi + 4 * ecx) s (repMovsd ecx (edi + 160) edi s) := by
  induction ecx generalizing edi s with
  | zero =>
      refine ⟨fun k => ?_, WritesBelow.refl _ s⟩
      rw [if_neg (by omega)]
      rfl
  | succ ecx inductionHypothesis =>
      obtain ⟨video, writes⟩ := inductionHypothesis (edi + 4) (s.movsd (edi + 160) edi)
      rw [repMovsd, Nat.add_right_comm edi 160 4]
      constructor
      · intro k
        rw [video, movsd_video, movsd_video]
        by_cases here : edi ≤ k ∧ k < edi + 4
        · rw [if_neg (by omega), if_pos here, if_pos (by omega)]
        · by_cases later : edi + 4 ≤ k ∧ k < edi + 4 + 4 * ecx
          · rw [if_pos later, if_neg (by omega), if_pos (by omega)]
          · rw [if_neg later, if_neg here, if_neg (by omega)]
      · have first : WritesBelow (edi + 4 * (ecx + 1)) s (s.movsd (edi + 160) edi) :=
          ((((WritesBelow.refl _ s).put (by omega) _).put (by omega) _).put (by omega) _).put
            (by omega) _
        exact first.trans (writes.mono (by omega))

/-- Cells are blanked within the limit of the segment. -/
theorem cls_spec {ecx ebx : Nat} (even : ebx % 2 = 0) (fits : ebx + 2 * ecx ≤ 0x8000)
    (s : Screen) :
    ∃ s', cls ecx ebx s = .ok s' ∧ s'.cursor = s.cursor ∧
      (∀ k, s'.video k = if ebx ≤ k ∧ k < ebx + 2 * ecx then
        (if k % 2 = 0 then 0x20 else 0x07) else s.video k) ∧
      WritesBelow (ebx + 2 * ecx) s s' := by
  induction ecx generalizing ebx s with
  | zero =>
      refine ⟨s, rfl, rfl, fun k => ?_, WritesBelow.refl _ s⟩
      rw [if_neg (by omega)]
  | succ ecx inductionHypothesis =>
      have blank : s.movBlank ebx = .ok ((s.put ebx 0x20).put (ebx + 1) 0x07) :=
        if_pos (by simp only [videoLimit]; omega)
      obtain ⟨s', ran, cursor, video, writes⟩ := @inductionHypothesis (ebx + 2) (by omega)
        (by omega) ((s.put ebx 0x20).put (ebx + 1) 0x07)
      refine ⟨s', by rw [cls, blank, ok_bind, ran], cursor, fun k => ?_, ?_⟩
      · rw [video, put_video, put_video]
        by_cases first : k = ebx
        · rw [if_neg (by omega), if_neg (by omega), if_pos first, if_pos (by omega),
            if_pos (by omega)]
        · by_cases second : k = ebx + 1
          · rw [if_neg (by omega), if_pos second, if_pos (by omega), if_neg (by omega)]
          · rw [if_neg second, if_neg first]
            by_cases later : ebx + 2 ≤ k ∧ k < ebx + 2 + 2 * ecx
            · have covered : ebx ≤ k ∧ k < ebx + 2 * (ecx + 1) := by omega
              rw [if_pos later, if_pos covered]
            · rw [if_neg later, if_neg (by omega)]
      · have first : WritesBelow (ebx + 2 * (ecx + 1)) s ((s.put ebx 0x20).put (ebx + 1) 0x07) :=
          ((WritesBelow.refl _ s).put (by omega) _).put (by omega) _
        exact first.trans (writes.mono (by omega))

theorem rollScreen_spec (s : Screen) :
    ∃ s', s.rollScreen = .ok s' ∧ s'.cursor = 1920 ∧ s'.video = scrolled s.video ∧
      WritesBelow 4000 s s' := by
  obtain ⟨moved, writes⟩ := repMovsd_spec 960 0 s
  obtain ⟨s', ran, -, blanked, writes'⟩ := @cls_spec 80 3840 rfl (by decide)
    (repMovsd 960 (0 + 160) 0 s)
  refine ⟨s'.setCursor 1920, ?_, rfl, ?_, ?_⟩
  · rw [rollScreen, ran, ok_bind]
    rfl
  · funext k
    rw [setCursor, blanked, moved, scrolled]
    by_cases upper : k < 3840
    · rw [if_neg (by omega), if_pos (by omega), if_pos upper]
    · by_cases last : k < 4000
      · rw [if_pos (by omega), if_neg upper, if_pos last]
      · rw [if_neg (by omega), if_neg (by omega), if_neg upper, if_neg last]
  · exact (writes.mono (by decide)).trans writes'

end Screen

end Scrolling

section Cursor

variable {bx : UInt16}

theorem toInt16_lt_iff (small : bx.toNat < 0x8000) : bx.toInt16 < 2000 ↔ bx.toNat < 2000 := by
  have same : bx.toInt16.toInt = (bx.toNat : Int) :=
    BitVec.toInt_eq_toNat_of_lt (by simpa using by omega)
  rw [Int16.lt_iff_toInt_lt, same]
  exact Int.ofNat_lt

theorem shiftLeft_toNat (bx : UInt16) : (bx <<< 1).toNat = 2 * (bx.toNat % 0x8000) := by
  rw [UInt16.toNat_shiftLeft, Nat.shiftLeft_eq]
  simp
  omega

theorem shiftRight_toNat (bx : UInt16) : (bx >>> 1).toNat = bx.toNat / 2 := by
  rw [UInt16.toNat_shiftRight, Nat.shiftRight_eq_div_pow]
  simp

theorem succ_toNat (small : bx.toNat < 0xffff) : (bx + 1).toNat = bx.toNat + 1 := by
  rw [UInt16.toNat_add]
  simp
  omega

theorem pred_toNat (pos : 0 < bx.toNat) : (bx - 1).toNat = bx.toNat - 1 :=
  UInt16.toNat_sub_of_le bx 1 (UInt16.le_iff_toNat_le.mpr pos)

/-- The cursor comes back out of the offset, without its highest bit. -/
theorem cell_cursor (bx : UInt16) : (bx <<< 1 + 1) >>> 1 = bx % 0x8000 := by
  have doubled := shiftLeft_toNat bx
  have half : ((bx <<< 1 + 1) >>> 1).toNat = bx.toNat % 0x8000 := by
    rw [shiftRight_toNat, succ_toNat (by omega), doubled]
    omega
  exact UInt16.toNat_inj.mp (half.trans (UInt16.toNat_mod bx 0x8000).symm)

theorem mod_small (small : bx.toNat < 0x8000) : bx % 0x8000 = bx :=
  UInt16.toNat_inj.mp ((UInt16.toNat_mod bx 0x8000).trans (Nat.mod_eq_of_lt small))

theorem nextLine_toNat (small : bx.toNat ≤ 0x4000) :
    (bx - bx % 80 + 80).toNat = (bx.toNat / 80 + 1) * 80 := by
  have rest : (bx % 80).toNat = bx.toNat % 80 := UInt16.toNat_mod bx 80
  have start : (bx - bx % 80).toNat = bx.toNat - bx.toNat % 80 := by
    rw [UInt16.toNat_sub_of_le _ _ (UInt16.le_iff_toNat_le.mpr (by omega)), rest]
  rw [UInt16.toNat_add, start]
  simp
  omega

end Cursor

namespace Screen

variable {s : Screen} {bx : UInt16}

theorem mov_ok {offset : Nat} (inside : offset < 0x8000) (value : UInt8) :
    s.mov offset value = .ok (s.put offset value) :=
  if_pos (Nat.le_of_lt_succ inside)

/-- A character and its attribute. -/
def putCell (s : Screen) (cell : Nat) (c : UInt8) : Screen :=
  (s.put (2 * cell) c).put (2 * cell + 1) 0x07

theorem putCell_video (s : Screen) (cell : Nat) (c : UInt8) :
    (s.putCell cell c).video = setCell s.video cell c := by
  funext k
  rw [putCell, put_video, put_video, setCell]
  by_cases first : k = 2 * cell
  · rw [if_neg (by omega), if_pos first, if_pos first]
  · rw [if_neg first, if_neg first]

theorem putCell_writesBelow {cell : Nat} (inside : cell < 2000) (c : UInt8) :
    WritesBelow 4000 s (s.putCell cell c) :=
  ((WritesBelow.refl _ s).put (by omega) _).put (by omega) _

theorem mov_cell (inside : bx.toNat % 0x8000 < 0x4000) (c : UInt8)
    (rest : Screen → Except Halt Screen) :
    (do
      let s ← s.mov (bx <<< 1).toNat c
      let s ← s.mov (bx <<< 1 + 1).toNat 0x07
      rest s) = rest (s.putCell (bx.toNat % 0x8000) c) := by
  have doubled := shiftLeft_toNat bx
  rw [succ_toNat (by omega), doubled, mov_ok (by omega), ok_bind, mov_ok (by omega), ok_bind,
    putCell]

theorem putChar_backspace_eq (inside : (s.cursor - 1).toNat % 0x8000 < 0x4000) :
    s.putChar 0x8 = .ok ((s.putCell ((s.cursor - 1).toNat % 0x8000) 0x20).setCursor
      ((s.cursor - 1) % 0x8000)) := by
  rw [← cell_cursor]
  exact mov_cell inside 0x20 fun s' => .ok (s'.setCursor (((s.cursor - 1) <<< 1 + 1) >>> 1))

theorem putChar_other_eq {c : UInt8} (notNewline : ¬ IsNewline c) (notBackspace : c ≠ 0x8)
    (inside : s.cursor.toNat % 0x8000 < 0x4000) :
    s.putChar c =
      if (s.cursor % 0x8000 + 1).toInt16 < 2000 then
        .ok ((s.putCell (s.cursor.toNat % 0x8000) c).setCursor (s.cursor % 0x8000 + 1))
      else (s.putCell (s.cursor.toNat % 0x8000) c).isLineFeed (s.cursor % 0x8000 + 1) := by
  rw [← cell_cursor]
  exact (if_neg notNewline).trans <| (if_neg notBackspace).trans <|
    mov_cell inside c fun s' =>
      if ((s.cursor <<< 1 + 1) >>> 1 + 1).toInt16 < 2000 then
        .ok (s'.setCursor ((s.cursor <<< 1 + 1) >>> 1 + 1))
      else s'.isLineFeed ((s.cursor <<< 1 + 1) >>> 1 + 1)

theorem isLineFeed_spec (s : Screen) (small : bx.toNat ≤ 2000) :
    ∃ s', s.isLineFeed bx = .ok s' ∧ WritesBelow 4000 s s' ∧
      s'.video = (if 1920 ≤ bx.toNat then scrolled s.video else s.video) ∧
      s'.cursor.toNat = (if 1920 ≤ bx.toNat then 1920 else (bx.toNat / 80 + 1) * 80) := by
  have next := @nextLine_toNat bx (by omega)
  have compare := @toInt16_lt_iff (bx - bx % 80 + 80) (by omega)
  by_cases last : 1920 ≤ bx.toNat
  · obtain ⟨s', ran, cursor, video, writes⟩ := rollScreen_spec s
    have past : ¬ (bx - bx % 80 + 80).toInt16 < 2000 := fun less => by
      have := compare.mp less
      omega
    refine ⟨s', (if_neg past).trans ran, writes, ?_, ?_⟩
    · rw [if_pos last, video]
    · rw [if_pos last, cursor]
      rfl
  · have fits : (bx - bx % 80 + 80).toInt16 < 2000 := compare.mpr (by omega)
    refine ⟨s.setCursor (bx - bx % 80 + 80), if_pos fits, WritesBelow.refl _ s, ?_, ?_⟩
    · rw [if_neg last]
      rfl
    · rw [if_neg last]
      exact next

theorem putChar_newline {c : UInt8} (isNewline : IsNewline c) (onScreen : s.cursor.toNat < 2000) :
    ∃ s', s.putChar c = .ok s' ∧ CharRight s s' c := by
  obtain ⟨s', ran, writes, video, cursor⟩ := isLineFeed_spec s (Nat.le_of_lt onScreen)
  have scrolls : Scrolls s.cursor.toNat c ↔ 1920 ≤ s.cursor.toNat := by
    rw [Scrolls, if_pos isNewline]
  have after : s'.cursor.toNat = cursorAfter s.cursor.toNat c := by
    simp only [cursorAfter, scrolls, if_pos isNewline, cursor]
  refine ⟨s', (if_pos isNewline).trans ran, writes, ?_, after, ?_⟩
  · simp only [scrolls, drawn, if_pos isNewline, video]
  · rw [cursor]
    split <;> omega

theorem putChar_backspace (pos : 0 < s.cursor.toNat) (onScreen : s.cursor.toNat < 2000) :
    ∃ s', s.putChar 0x8 = .ok s' ∧ CharRight s s' 0x8 := by
  have before := pred_toNat pos
  have notNewline : ¬ IsNewline 0x8 := by decide
  have stays : ¬ Scrolls s.cursor.toNat 0x8 := by
    rw [Scrolls, if_neg notNewline]
    exact fun scrolls => scrolls.1 rfl
  refine ⟨(s.putCell (s.cursor.toNat - 1) 0x20).setCursor (s.cursor - 1), ?_,
    putCell_writesBelow (by omega) _, ?_, ?_, ?_⟩
  · have cell : (s.cursor - 1).toNat % 0x8000 = s.cursor.toNat - 1 := by omega
    rw [putChar_backspace_eq (by omega), cell, mod_small (by omega)]
  · rw [if_neg stays, drawn, if_neg notNewline, if_pos rfl]
    exact putCell_video ..
  · rw [cursorAfter, if_neg stays, if_neg notNewline, if_pos rfl]
    exact before
  · show (s.cursor - 1).toNat < 2000
    omega

/-- Any other character. -/
theorem putChar_other {c : UInt8} (notNewline : ¬ IsNewline c) (notBackspace : c ≠ 0x8)
    (onScreen : s.cursor.toNat < 2000) : ∃ s', s.putChar c = .ok s' ∧ CharRight s s' c := by
  have next := @succ_toNat s.cursor (by omega)
  have compare := @toInt16_lt_iff (s.cursor + 1) (by omega)
  have scrolls : Scrolls s.cursor.toNat c ↔ s.cursor.toNat = 1999 := by
    rw [Scrolls, if_neg notNewline]
    exact and_iff_right notBackspace
  have drew : (s.putCell s.cursor.toNat c).video = drawn s.video s.cursor.toNat c := by
    rw [drawn, if_neg notNewline, if_neg notBackspace, putCell_video]
  have writes : WritesBelow 4000 s (s.putCell s.cursor.toNat c) := putCell_writesBelow onScreen c
  have ran : s.putChar c =
      if (s.cursor + 1).toInt16 < 2000 then
        .ok ((s.putCell s.cursor.toNat c).setCursor (s.cursor + 1))
      else (s.putCell s.cursor.toNat c).isLineFeed (s.cursor + 1) := by
    have cell : s.cursor.toNat % 0x8000 = s.cursor.toNat := Nat.mod_eq_of_lt (by omega)
    rw [putChar_other_eq notNewline notBackspace (by omega), cell, mod_small (by omega)]
  by_cases last : s.cursor.toNat = 1999
  · obtain ⟨s', fed, writes', video, cursor⟩ :=
      @isLineFeed_spec (s.cursor + 1) (s.putCell s.cursor.toNat c) (by omega)
    rw [if_pos (by omega)] at video cursor
    have past : ¬ (s.cursor + 1).toInt16 < 2000 := fun less => by
      have := compare.mp less
      omega
    refine ⟨s', by rw [ran, if_neg past, fed], writes.trans writes', ?_, ?_, by omega⟩
    · rw [if_pos (scrolls.mpr last), video, drew]
    · rw [cursorAfter, if_pos (scrolls.mpr last), cursor]
  · have stays : ¬ Scrolls s.cursor.toNat c := mt scrolls.mp last
    have fits : (s.cursor + 1).toInt16 < 2000 := compare.mpr (by omega)
    refine ⟨(s.putCell s.cursor.toNat c).setCursor (s.cursor + 1), by rw [ran, if_pos fits],
      writes, ?_, ?_, ?_⟩
    · rw [if_neg stays]
      exact drew
    · rw [cursorAfter, if_neg stays, if_neg notNewline, if_neg notBackspace]
      exact next
    · show (s.cursor + 1).toNat < 2000
      omega

/-- Before the first cell there is none: the doubled cursor lies behind the segment. -/
theorem putChar_backspace_origin (origin : s.cursor.toNat = 0) :
    s.putChar 0x8 = .error .generalProtection := by
  have zero : s.cursor = 0 := UInt16.toNat_inj.mp origin
  rw [putChar, zero]
  rfl

theorem putChar_spec (s : Screen) (c : UInt8) (onScreen : s.cursor.toNat < 2000) :
    (∃ s', s.putChar c = .ok s' ∧ CharRight s s' c) ↔ ¬ (c = 0x8 ∧ s.cursor.toNat = 0) := by
  constructor
  · rintro ⟨s', ran, -⟩ ⟨rfl, origin⟩
    rw [putChar_backspace_origin origin] at ran
    contradiction
  · intro notOrigin
    by_cases isNewline : IsNewline c
    · exact putChar_newline isNewline onScreen
    · by_cases backspace : c = 0x8
      · subst backspace
        exact putChar_backspace (Nat.pos_of_ne_zero fun origin => notOrigin ⟨rfl, origin⟩) onScreen
      · exact putChar_other isNewline backspace onScreen

end Screen

/-- A text is printed right exactly if it never goes back from the first cell. -/
theorem textRight_iff (s : Screen) (text : List UInt8) (onScreen : s.cursor.toNat < 2000) :
    TextRight s text ↔
      ∀ front back, text = front ++ 0x8 :: back →
        front.foldl cursorAfter s.cursor.toNat ≠ 0 := by
  induction text generalizing s with
  | nil => exact iff_of_true trivial fun front back same => by simp at same
  | cons c text inductionHypothesis =>
      constructor
      · rintro ⟨s', ran, right, rest⟩ front back same
        cases front with
        | nil =>
            obtain ⟨rfl, -⟩ := List.cons.inj same
            exact fun origin => (s.putChar_spec 0x8 onScreen).mp ⟨s', ran, right⟩ ⟨rfl, origin⟩
        | cons first front =>
            obtain ⟨rfl, later⟩ := List.cons.inj same
            have later := (inductionHypothesis s' right.onScreen).mp rest front back later
            rw [right.cursor] at later
            exact later
      · intro never
        obtain ⟨s', ran, right⟩ := (s.putChar_spec c onScreen).mpr fun ⟨isBackspace, origin⟩ =>
          never [] text (by rw [isBackspace, List.nil_append]) origin
        refine ⟨s', ran, right, (inductionHypothesis s' right.onScreen).mpr ?_⟩
        intro front back same
        rw [right.cursor]
        exact never (c :: front) back (by rw [same, List.cons_append])

/-- From the last cell: a letter, which scrolls, a backspace and a newline. -/
theorem textRight_lastCell : TextRight ⟨fun _ => 0x20, 1999, []⟩ [0x41, 0x8, 0xa] := by
  refine (textRight_iff ⟨fun _ => 0x20, 1999, []⟩ [0x41, 0x8, 0xa] (by decide)).mpr ?_
  intro front back same
  rcases front with _ | ⟨first, _ | ⟨second, _ | ⟨third, front⟩⟩⟩
  · simp at same
  · simp only [List.cons_append, List.cons.injEq] at same
    rw [← same.1]
    decide
  · simp at same
  · simp at same

/-- A backspace on an empty screen. -/
theorem putChar_faults : ¬ TextRight ⟨fun _ => 0, 0, []⟩ [0x8] := by
  rintro ⟨s', ran, -⟩
  have fault : Screen.putChar ⟨fun _ => 0, 0, []⟩ 0x8 = .error .generalProtection :=
    Screen.putChar_backspace_origin rfl
  rw [fault] at ran
  contradiction

end HongbaiOS.Lib
