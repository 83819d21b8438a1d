import HongbaiOS.Fs.DirInsert
import HongbaiOS.Fs.Format
import HongbaiOS.Library.Run
import Mathlib.Data.List.Nodup

/-!
# Runs of insertions into a directory

What a directory promises after every insertion, from the root directory that
`partition_format` writes: the entries are found, the size counts them, and no
block is orphaned.  The first insertion keeps the promise.  The second one makes
a second table, and the first table and the entry behind it are forgotten.
-/

namespace HongbaiOS.Fs

open HongbaiOS.Library HongbaiOS.Kernel HongbaiOS.Device HongbaiOS.Lib

/-- A block is reachable from the directory's inode by a direct pointer, as the
indirect table, or by a pointer in the table. -/
def Reachable (part : Partition) (inode : Inode) (lba : UInt32) : Prop :=
  lba ≠ 0 ∧ ((∃ k, inode.iSectors k = lba) ∨
    inode.iSectors 12 ≠ 0 ∧ ∃ k < 128,
      (part.myDisk.window (512 * (inode.iSectors 12).toNat)).word k = lba)

/-- The entry is found by its name, with its own inode number and type. -/
def EntryFound (part : Partition) (inode : Inode) (entry : DirEntry) : Prop :=
  ∀ junk buf, ∃ result,
    searchDirEntry part inode entry.name (some junk) buf = .ok (some result) ∧
      result.iNo = entry.iNo ∧ result.fType = entry.fType

/-- Every entry is found, and the size counts the entries. -/
structure DirCorrect (part : Partition) (inode : Inode) (entries : List DirEntry) : Prop where
  found : ∀ entry ∈ entries, EntryFound part inode entry
  size : inode.iSize.toNat = part.sb.dirEntrySize.toNat * entries.length

/-- The directory and its partition between two calls. -/
structure DirState where
  part : Partition
  inode : Inode

/-- A call of `sync_dir_entry`: the entry and the caller's buffer. -/
structure DirCall where
  entry : DirEntry
  ioBuf : Bytes

/-- One call that returns true. -/
def syncStep (full : FullScan) (s : DirState) (call : DirCall) : Except Halt DirState :=
  match syncDirEntry full s.part s.inode call.entry call.ioBuf with
  | .ok (true, inode, part) => .ok ⟨part, inode⟩
  | .ok (false, _, _) => .error .disabled
  | .error reason => .error reason

/-- After every call of the run the directory is correct, and no block that was
reachable before the call has become unreachable. -/
def EveryCallKeeps : DirState → List DirEntry → List DirCall → List DirState → Prop
  | s, entries, call :: calls, s' :: states =>
      DirCorrect s'.part s'.inode (entries ++ [call.entry]) ∧
        (∀ lba, Reachable s.part s.inode lba → Reachable s'.part s'.inode lba) ∧
        EveryCallKeeps s' (entries ++ [call.entry]) calls states
  | _, _, _, _ => True

/-- A search by the entry's name can come to it: a NUL ends the name, and the entry is not
taken for an empty slot. -/
structure DirEntry.Findable (entry : DirEntry) : Prop where
  terminated : entry.Terminated
  named : entry.name.chars = [] → entry.iNo = 0 ∧ entry.fType = 0

def entryNames (entries : List DirEntry) : List (List UInt8) :=
  entries.map fun entry => entry.name.chars

/-- The root directory has one direct block, the first one of the data area, with `"."` and
`".."`. -/
structure RootLayout (part : Partition) (inode : Inode) : Prop where
  mounted : part.Mounted
  pointers : ∀ k : Fin 13, k.val < 12 → inode.iSectors k = if k = 0 then part.sb.dataStartLba else 0
  dot : SlotHolds part.myDisk part.sb.dataStartLba 0 dotEntry
  dotDot : SlotHolds part.myDisk part.sb.dataStartLba 1 dotDotEntry
  blank : ∀ idx, 2 ≤ idx → idx < 21 → SlotBlank part.myDisk part.sb.dataStartLba idx

/-- The indirect table of the directory has one pointer, to a block with one entry. -/
structure TableHolds (part : Partition) (inode : Inode) (lba : UInt32) (entry : DirEntry) :
    Prop where
  table : inode.iSectors 12 ≠ 0
  tableAddressed : (inode.iSectors 12).toNat ≤ maxLba
  words : ∀ k < 128, (part.myDisk.window (512 * (inode.iSectors 12).toNat)).word k =
    if k = 0 then lba else 0
  used : lba ≠ 0
  addressed : lba.toNat ≤ maxLba
  holds : SlotHolds part.myDisk lba 0 entry
  blank : ∀ idx, 0 < idx → idx < 21 → SlotBlank part.myDisk lba idx

/-- The pointer array that `search_dir_entry` builds. -/
def searchTable (part : Partition) (inode : Inode) (junk : Nat → UInt32) : Bytes :=
  if inode.iSectors 12 ≠ 0 then
    readInto (Bytes.ofWords fun k => inode.directBlocks junk (k + 12)) part.myDisk
      (inode.iSectors 12)
  else Bytes.ofWords fun k => inode.directBlocks junk (k + 12)

section Search

variable {part : Partition} {inode : Inode} {entry : DirEntry} {lba : UInt32} {name : CString}

theorem searchDirEntry_eq (mounted : part.Mounted)
    (addressed : inode.iSectors 12 ≠ 0 → (inode.iSectors 12).toNat ≤ maxLba)
    (name : CString) (junk : Nat → UInt32) (buf : Bytes) :
    searchDirEntry part inode name (some junk) buf =
      searchBlocks part.myDisk
        (inode.directBlocks fun k => (searchTable part inode junk).word (k - 12))
        name 21 140 0 buf := by
  simp only [searchDirEntry, mounted.entriesPerBlock]
  by_cases hasTable : inode.iSectors 12 ≠ 0
  · simp only [searchTable, if_pos hasTable, readInto]
    rw [ideRead_eq (addressed hasTable) (by decide), ok_bind]
  · simp only [searchTable, if_neg hasTable, pure_eq_ok, ok_bind]

theorem searchTable_word (hasTable : inode.iSectors 12 ≠ 0) (junk : Nat → UInt32) {k : Nat}
    (small : k < 128) : (searchTable part inode junk).word k =
      (part.myDisk.window (512 * (inode.iSectors 12).toNat)).word k := by
  rw [searchTable, if_pos hasTable]
  refine Bytes.word_congr (fun a inside => ?_) (by omega : 4 * k + 4 ≤ 512)
  exact Bytes.splice_inside (Nat.zero_le a) (by simp only [UInt8.reduceToNat]; omega)

theorem entryName_short (entry : DirEntry) : strlen entry.name < dirEntrySize :=
  Nat.lt_of_le_of_lt entry.name_length_le (by decide)

theorem strcmp_readInto_iff {store disk : Bytes} {idx : Nat} (inBlock : idx < 21)
    (same : Bytes.SameHead dirEntrySize (slot (disk.window (512 * lba.toNat)) idx) store)
    (short : strlen name < dirEntrySize) (buf : Bytes) :
    strcmp (slot (readInto buf disk lba) idx) name = 0 ↔ strcmp store name = 0 :=
  strcmp_congr ((slot_readInto buf disk lba inBlock).trans same) short

/-- An empty slot has the empty name. -/
theorem strcmp_fill_iff (name : CString) : strcmp (Bytes.fill 0) name = 0 ↔ name.chars = [] := by
  rw [strcmp_eq_zero_iff]
  constructor
  · rintro ⟨same, -⟩
    by_contra some
    have first := same 0 (List.length_pos_iff.mpr some)
    exact name.noNul _ (List.get_mem _ _) first.symm
  · intro none
    simp [none]

/-- What stands in the slots of the root directory's first block. -/
def rootSlot (idx : Nat) : Bytes :=
  if idx = 0 then dotEntry.bytes else if idx = 1 then dotDotEntry.bytes else Bytes.fill 0

theorem strcmp_rootSlot_iff (idx : Nat) (name : CString) : strcmp (rootSlot idx) name = 0 ↔
    name.chars = if idx = 0 then [46] else if idx = 1 then [46, 46] else [] := by
  have dots : dotEntry.name.chars = [46] ∧ dotDotEntry.name.chars = [46, 46] := by decide
  unfold rootSlot
  split
  next =>
    rw [strcmp_stored_iff (by decide) (Bytes.SameHead.refl _ _), dots.1, eq_comm]
  next =>
    split
    next => rw [strcmp_stored_iff (by decide) (Bytes.SameHead.refl _ _), dots.2, eq_comm]
    next => exact strcmp_fill_iff name

/-- A name that stands in no slot of the root directory's first block. -/
def NotInRoot (name : CString) : Prop := ∀ idx < 21, strcmp (rootSlot idx) name ≠ 0

theorem notInRoot_iff {name : CString} :
    NotInRoot name ↔ name.chars ≠ [46] ∧ name.chars ≠ [46, 46] ∧ name.chars ≠ [] := by
  simp only [NotInRoot, Ne, strcmp_rootSlot_iff]
  constructor
  · intro all
    exact ⟨all 0 (by decide), all 1 (by decide), all 2 (by decide)⟩
  · rintro ⟨notDot, notDotDot, some⟩ idx -
    split
    next => exact notDot
    next =>
      split
      next => exact notDotDot
      next => exact some

namespace RootLayout

theorem slot (layout : RootLayout part inode) {idx : Nat} (inBlock : idx < 21) :
    Bytes.SameHead dirEntrySize
      (Fs.slot (part.myDisk.window (512 * part.sb.dataStartLba.toNat)) idx) (rootSlot idx) := by
  unfold rootSlot
  split
  next first =>
    rw [first]
    exact layout.dot
  next =>
    split
    next second =>
      rw [second]
      exact layout.dotDot
    next => exact layout.blank idx (by omega) inBlock

theorem dataStart_ne_zero (layout : RootLayout part inode) : part.sb.dataStartLba ≠ 0 := by
  intro zero
  have inodeTableSects := layout.mounted.dataStartLba
  rw [zero, UInt32.toNat_zero, Fs.inodeTableSects] at inodeTableSects
  omega

theorem directBlocks (layout : RootLayout part inode) (rest : Nat → UInt32) {k : Nat}
    (direct : k < 12) :
    inode.directBlocks rest k = if k = 0 then part.sb.dataStartLba else 0 := by
  rw [Inode.directBlocks, dif_pos direct, layout.pointers _ direct]
  simp only [Fin.mk_eq_zero]

theorem search_first (layout : RootLayout part inode)
    (addressed : inode.iSectors 12 ≠ 0 → (inode.iSectors 12).toNat ≤ maxLba) {idx : Nat}
    (inBlock : idx < 21) (short : strlen name < dirEntrySize)
    (before : ∀ i < idx, strcmp (rootSlot i) name ≠ 0) (here : strcmp (rootSlot idx) name = 0)
    (junk : Nat → UInt32) (buf : Bytes) :
    searchDirEntry part inode name (some junk) buf =
      .ok (some (DirEntry.ofBytes (rootSlot idx))) := by
  have pointer := layout.directBlocks (fun k => (searchTable part inode junk).word (k - 12))
    (by decide : 0 < 12)
  rw [if_pos rfl] at pointer
  rw [searchDirEntry_eq layout.mounted addressed]
  refine searchBlocks_eq_some (le_refl 0) (by decide) buf
    (fun i _ earlier => absurd earlier (Nat.not_lt_zero i)) ?_ ?_ fun buf => ?_
  · rw [pointer]
    exact layout.dataStart_ne_zero
  · rw [pointer]
    exact layout.mounted.onDisk
  · rw [pointer, searchBlock_eq_some (Nat.zero_le idx) (by omega)]
    · exact congrArg some (ofBytes_dirEntry_congr
        ((slot_readInto buf part.myDisk _ inBlock).trans (layout.slot inBlock)))
    · intro i _ earlier
      have inBlock' : i < 21 := by omega
      exact (strcmp_readInto_iff inBlock' (layout.slot inBlock') short buf).not.mpr
        (before i earlier)
    · exact (strcmp_readInto_iff inBlock (layout.slot inBlock) short buf).mpr here

theorem passed (layout : RootLayout part inode) (short : strlen name < dirEntrySize)
    (absent : NotInRoot name) (rest : Nat → UInt32) {i : Nat} (direct : i < 12) :
    inode.directBlocks rest i = 0 ∨ (inode.directBlocks rest i).toNat ≤ maxLba ∧
      ∀ buf, searchBlock (readInto buf part.myDisk (inode.directBlocks rest i)) name 21 0 =
        none := by
  rw [layout.directBlocks rest direct]
  by_cases first : i = 0
  · rw [if_pos first]
    refine Or.inr ⟨layout.mounted.onDisk, fun buf => searchBlock_eq_none fun idx _ inBlock => ?_⟩
    rw [Nat.zero_add] at inBlock
    exact (strcmp_readInto_iff inBlock (layout.slot inBlock) short buf).not.mpr
      (absent idx inBlock)
  · exact Or.inl (if_neg first)

end RootLayout

namespace TableHolds

variable (holds : TableHolds part inode lba entry)

include holds

theorem pointer (junk : Nat → UInt32) {i : Nat} (past : 12 ≤ i) (inArray : i < 140) :
    inode.directBlocks (fun k => (searchTable part inode junk).word (k - 12)) i =
      if i = 12 then lba else 0 := by
  rw [Inode.directBlocks, dif_neg (by omega), searchTable_word holds.table junk (by omega),
    holds.words _ (by omega)]
  by_cases first : i = 12
  · rw [if_pos first, if_pos (by omega)]
  · rw [if_neg first, if_neg (by omega)]

theorem strcmp_iff {idx : Nat} (inBlock : idx < 21) (short : strlen name < dirEntrySize)
    (buf : Bytes) : strcmp (Fs.slot (readInto buf part.myDisk lba) idx) name = 0 ↔
      if idx = 0 then strcmp entry.bytes name = 0 else name.chars = [] := by
  split
  next first =>
    subst first
    exact strcmp_readInto_iff inBlock holds.holds short buf
  next behind =>
    rw [strcmp_readInto_iff inBlock (holds.blank idx (by omega) inBlock) short buf,
      strcmp_fill_iff]

/-- A name that is not in the first block is looked up behind the table. -/
theorem search_eq (layout : RootLayout part inode) (short : strlen name < dirEntrySize)
    (absent : NotInRoot name) (junk : Nat → UInt32) (buf : Bytes) :
    searchDirEntry part inode name (some junk) buf =
      .ok (if strcmp entry.bytes name = 0 then some entry else none) := by
  have before := fun i (_ : 0 ≤ i) (direct : i < 12) => layout.passed short absent
    (fun k => (searchTable part inode junk).word (k - 12)) direct
  have pointer := holds.pointer junk (le_refl 12) (by decide)
  rw [if_pos rfl] at pointer
  rw [searchDirEntry_eq layout.mounted fun _ => holds.tableAddressed]
  split
  next named =>
    refine searchBlocks_eq_some (Nat.zero_le 12) (by decide) buf before ?_ ?_ fun buf => ?_
    · rw [pointer]
      exact holds.used
    · rw [pointer]
      exact holds.addressed
    · rw [pointer, searchBlock_eq_some (le_refl 0) (by decide)
        (fun i _ earlier => absurd earlier (Nat.not_lt_zero i))]
      · refine congrArg some ((ofBytes_dirEntry_congr
          ((slot_readInto buf part.myDisk lba (by decide)).trans holds.holds)).trans ?_)
        exact DirEntry.ofBytes_bytes entry
      · exact (holds.strcmp_iff (by decide) short buf).mpr (by rwa [if_pos rfl])
  next other =>
    have skipped : ∀ i, 0 ≤ i → i < 140 →
        inode.directBlocks (fun k => (searchTable part inode junk).word (k - 12)) i = 0 ∨
        (inode.directBlocks (fun k => (searchTable part inode junk).word (k - 12)) i).toNat ≤
          maxLba ∧ ∀ buf, searchBlock (readInto buf part.myDisk (inode.directBlocks
            (fun k => (searchTable part inode junk).word (k - 12)) i)) name 21 0 = none := by
      intro i low high
      by_cases direct : i < 12
      · exact before i low direct
      · rw [holds.pointer junk (by omega) high]
        split
        next =>
          refine Or.inr ⟨holds.addressed, fun buf => searchBlock_eq_none fun idx _ inBlock => ?_⟩
          rw [Nat.zero_add] at inBlock
          rw [Ne, holds.strcmp_iff inBlock short buf]
          split
          next => exact other
          next => exact (notInRoot_iff.mp absent).2.2
        next => exact Or.inl rfl
    obtain ⟨buf', ended⟩ := searchBlocks_skip (Nat.zero_le 140) (by decide : 140 ≤ 0 + 140) buf
      skipped
    rw [ended]
    rfl

end TableHolds

theorem word_slot (block : Bytes) (idx : Nat) :
    (slot block idx).word 5 = block.word (6 * idx + 5) := by
  have offset : 4 * (6 * idx + 5) = 24 * idx + 20 := by omega
  simp only [Bytes.word, slot, Bytes.window_apply, dirEntrySize, offset, Nat.add_assoc]

theorem searchBlocks_some {disk buf : Bytes} {pointer : Nat → UInt32} {left start : Nat}
    {found : DirEntry}
    (ran : searchBlocks disk pointer name 21 left start buf = .ok (some found)) :
    ∃ i idx buf', start ≤ i ∧ i < start + left ∧ pointer i ≠ 0 ∧ idx < 21 ∧
      strcmp (slot (readInto buf' disk (pointer i)) idx) name = 0 ∧
      found = DirEntry.ofBytes (slot (readInto buf' disk (pointer i)) idx) := by
  induction left generalizing start buf with
  | zero => cases ran
  | succ left inductionHypothesis =>
      have later := fun {buf} (ran : searchBlocks disk pointer name 21 left (start + 1) buf =
        .ok (some found)) => inductionHypothesis ran
      rw [searchBlocks] at ran
      split at ran
      next =>
        obtain ⟨i, idx, buf', low, high, rest⟩ := later ran
        exact ⟨i, idx, buf', by omega, by omega, rest⟩
      next used =>
        obtain ⟨_, read, ran⟩ := except_bind_eq_ok.mp ran
        obtain ⟨-, -, rfl⟩ := ideRead_eq_ok.mp read
        split at ran
        next entry inBlock =>
          cases ran
          obtain ⟨idx, -, inSlots, named, same⟩ := searchBlock_some_slot inBlock
          exact ⟨start, idx, buf, le_refl _, by omega, used, by omega, named, same⟩
        next =>
          obtain ⟨i, idx, buf', low, high, rest⟩ := later ran
          exact ⟨i, idx, buf', by omega, by omega, rest⟩

end Search

section Insert

variable {full : FullScan} {part part' : Partition} {inode inode' : Inode} {entry : DirEntry}
  {lba r : UInt32} {ioBuf : Bytes} {tableIdx bitIdx : Nat}

theorem SlotBlank.kept {disk disk' : Bytes} {idx : Nat} (blank : SlotBlank disk lba idx)
    (small : idx < 21) (kept : KeepsSector disk disk' lba) : SlotBlank disk' lba idx :=
  (kept.slot small).trans blank

/-- After an insertion the table leads to the new entry and to nothing else. -/
theorem TakesTwo.tableHolds (two : TakesTwo part tableIdx bitIdx) (mounted : part.Mounted)
    (inode : Inode) (entry : DirEntry) (ioBuf : Bytes) :
    TableHolds (indirectPart part tableIdx bitIdx entry ioBuf) (indirectInode part inode tableIdx)
      (part.sb.dataStartLba + UInt32.ofNat bitIdx) entry := by
  have table := indirectInode_iSectors_table part inode tableIdx
  constructor
  · rw [table]
    exact mounted.lba_ne_zero two.table.inside
  · rw [table]
    exact two.tableAddressed mounted
  · intro k small
    rw [table]
    exact two.indirectDisk_table mounted entry ioBuf small
  · exact mounted.lba_ne_zero two.inMap
  · exact two.addressed
  · exact newBlockImage_holds _ _ entry ioBuf
  · intro idx notFirst small
    exact newBlockImage_blank _ _ entry ioBuf notFirst small

theorem indirectPart_bit {i : Nat} (set : part.blockBitmap.bit i = true) (tableIdx bitIdx : Nat)
    (entry : DirEntry) (ioBuf : Bytes) :
    (indirectPart part tableIdx bitIdx entry ioBuf).blockBitmap.bit i = true := by
  change ((part.blockBitmap.put tableIdx true).put bitIdx true).bit i = true
  rw [Bitmap.bit_put, Bitmap.bit_put, set, ite_self, ite_self]

theorem RootLayout.insert (layout : RootLayout part inode)
    (rootTaken : part.blockBitmap.bit 0 = true) (two : TakesTwo part tableIdx bitIdx)
    (entry : DirEntry) (ioBuf : Bytes) :
    RootLayout (indirectPart part tableIdx bitIdx entry ioBuf)
      (indirectInode part inode tableIdx) := by
  have notTable : tableIdx ≠ 0 := by
    rintro rfl
    rw [two.table.free] at rootTaken
    cases rootTaken
  have next := two.next.1
  have kept : KeepsSector part.myDisk (indirectDisk part tableIdx bitIdx entry ioBuf)
      part.sb.dataStartLba :=
    two.keeps_indirectDisk layout.mounted entry ioBuf (le_refl _) (by omega) (by omega)
  constructor
  · exact indirectPart_mounted layout.mounted _ _ _ _
  · intro k direct
    rw [indirectInode_iSectors_direct part inode tableIdx direct]
    exact layout.pointers k direct
  · exact layout.dot.kept (by decide) kept
  · exact layout.dotDot.kept (by decide) kept
  · exact fun idx behind inBlock => (layout.blank idx behind inBlock).kept inBlock kept

theorem RootLayout.reachable_root (layout : RootLayout part inode) :
    Reachable part inode part.sb.dataStartLba := by
  refine ⟨layout.dataStart_ne_zero, Or.inl ⟨0, ?_⟩⟩
  rw [layout.pointers 0 (by decide), if_pos rfl]

theorem RootLayout.reachable_iff (layout : RootLayout part inode)
    (noTable : inode.iSectors 12 = 0) : Reachable part inode r ↔ r = part.sb.dataStartLba := by
  constructor
  · rintro ⟨some, ⟨k, rfl⟩ | ⟨table, -⟩⟩
    · by_cases direct : k.val < 12
      · rw [layout.pointers k direct] at some ⊢
        split
        next => rfl
        next other =>
          rw [if_neg other] at some
          exact absurd rfl some
      · obtain rfl : k = 12 := Fin.ext (by have small := k.isLt; omega)
        exact absurd noTable some
    · exact absurd noTable table
  · rintro rfl
    exact layout.reachable_root

theorem TableHolds.reachable_iff (holds : TableHolds part inode lba entry)
    (layout : RootLayout part inode) : Reachable part inode r ↔
      r = part.sb.dataStartLba ∨ r = inode.iSectors 12 ∨ r = lba := by
  constructor
  · rintro ⟨some, ⟨k, rfl⟩ | ⟨table, k, small, rfl⟩⟩
    · by_cases direct : k.val < 12
      · rw [layout.pointers k direct] at some ⊢
        split
        next => exact Or.inl rfl
        next other =>
          rw [if_neg other] at some
          exact absurd rfl some
      · obtain rfl : k = 12 := Fin.ext (by have small := k.isLt; omega)
        exact Or.inr (Or.inl rfl)
    · rw [holds.words k small] at some ⊢
      split
      next => exact Or.inr (Or.inr rfl)
      next other =>
        rw [if_neg other] at some
        exact absurd rfl some
  · rintro (rfl | rfl | rfl)
    · exact layout.reachable_root
    · exact ⟨holds.table, Or.inl ⟨12, rfl⟩⟩
    · refine ⟨holds.used, Or.inr ⟨holds.table, 0, by decide, ?_⟩⟩
      rw [holds.words 0 (by decide), if_pos rfl]

theorem RootLayout.found_dots (layout : RootLayout part inode)
    (addressed : inode.iSectors 12 ≠ 0 → (inode.iSectors 12).toNat ≤ maxLba) :
    EntryFound part inode dotEntry ∧ EntryFound part inode dotDotEntry := by
  have dot : DirEntry.ofBytes (rootSlot 0) = dotEntry := DirEntry.ofBytes_bytes dotEntry
  have dotDot : DirEntry.ofBytes (rootSlot 1) = dotDotEntry := DirEntry.ofBytes_bytes dotDotEntry
  constructor
  · intro junk buf
    refine ⟨dotEntry, ?_, rfl, rfl⟩
    rw [layout.search_first addressed (by decide : 0 < 21) (entryName_short _)
      (fun i earlier => absurd earlier (Nat.not_lt_zero i)) (by decide), dot]
  · intro junk buf
    refine ⟨dotDotEntry, ?_, rfl, rfl⟩
    rw [layout.search_first addressed (by decide : 1 < 21) (entryName_short _)
      (fun i earlier => ?_) (by decide), dotDot]
    obtain rfl : i = 0 := by omega
    decide

theorem DirEntry.terminated_of_empty (empty : entry.name.chars = []) : entry.Terminated := by
  have isZero := entry.filename_name_length (by rw [empty]; decide)
  simp only [empty, List.length_nil] at isZero
  rw [DirEntry.Terminated, empty]
  exact isZero

theorem TableHolds.found_iff (holds : TableHolds part inode lba entry)
    (layout : RootLayout part inode) (notDot : entry.name.chars ≠ [46])
    (notDotDot : entry.name.chars ≠ [46, 46]) : EntryFound part inode entry ↔ entry.Findable := by
  have addressed := holds.tableAddressed
  have short := entryName_short entry
  by_cases empty : entry.name.chars = []
  · -- the first empty slot of the root directory's first block is found instead
    have terminated := DirEntry.terminated_of_empty empty
    have before : ∀ i < 2, strcmp (rootSlot i) entry.name ≠ 0 := by
      intro i earlier
      rw [Ne, strcmp_rootSlot_iff, empty]
      split
      next => simp
      next => rw [if_pos (by omega)]; simp
    have here : strcmp (rootSlot 2) entry.name = 0 := (strcmp_rootSlot_iff 2 _).mpr empty
    have searched := fun junk buf => layout.search_first (fun _ => addressed) (by decide : 2 < 21)
      short before here junk buf
    constructor
    · intro found
      obtain ⟨result, ran, number, type⟩ := found (fun _ => 0) (Bytes.fill 0)
      cases (searched _ _).symm.trans ran
      exact ⟨terminated, fun _ => ⟨number.symm, type.symm⟩⟩
    · intro findable junk buf
      obtain ⟨number, type⟩ := findable.named empty
      exact ⟨_, searched junk buf, number.symm, type.symm⟩
  · have absent : NotInRoot entry.name := notInRoot_iff.mpr ⟨notDot, notDotDot, empty⟩
    have searched := holds.search_eq layout short absent
    have own : strcmp entry.bytes entry.name = 0 ↔ entry.Terminated := by
      rw [strcmp_eq_zero_iff, DirEntry.Terminated]
      exact and_iff_right fun i inside => entry.bytes_name inside
    constructor
    · intro found
      obtain ⟨result, ran, -⟩ := found (fun _ => 0) (Bytes.fill 0)
      rw [searched] at ran
      split at ran
      next named => exact ⟨own.mp named, fun none => absurd none empty⟩
      next => cases ran
    · intro findable junk buf
      refine ⟨entry, ?_, rfl, rfl⟩
      rw [searched, if_pos (own.mpr findable.terminated)]

end Insert

section Runs

variable {full : FullScan} {s s' : DirState} {call : DirCall} {calls : List DirCall}
  {states : List DirState}

theorem syncStep_eq_ok (ran : syncStep full s call = .ok s') :
    syncDirEntry full s.part s.inode call.entry call.ioBuf = .ok (true, s'.inode, s'.part) := by
  unfold syncStep at ran
  split at ran
  next inode part returned =>
    simp only [Except.ok.injEq] at ran
    rw [returned, ← ran]
  next => cases ran
  next => cases ran

/-- A call that returns true has taken two blocks. -/
theorem syncStep_done (mounted : s.part.Mounted) (ran : syncStep full s call = .ok s') :
    ∃ tableIdx bitIdx ioBuf, TakesTwo s.part tableIdx bitIdx ∧
      s' = ⟨indirectPart s.part tableIdx bitIdx call.entry ioBuf,
        indirectInode s.part s.inode tableIdx⟩ := by
  have done := syncDirEntry_done mounted (syncStep_eq_ok ran)
  obtain ⟨part, inode⟩ := s'
  cases done with
  | newTable two => exact ⟨_, _, _, two, rfl⟩

/-- Whatever was entered before, after a run the directory holds `"."`, `".."` and the last
entry. -/
theorem RootLayout.run (layout : RootLayout s.part s.inode)
    (rootTaken : s.part.blockBitmap.bit 0 = true) (some : calls ≠ [])
    (ran : trace (syncStep full) s calls = .ok states) :
    ∃ last lba, states.getLast? = Option.some last ∧ RootLayout last.part last.inode ∧
      TableHolds last.part last.inode lba (calls.getLast some).entry := by
  induction calls generalizing s states with
  | nil => exact absurd rfl some
  | cons call calls inductionHypothesis =>
      obtain ⟨s', tail, stepped, restRan, rfl⟩ := trace_cons_eq_ok.mp ran
      obtain ⟨tableIdx, bitIdx, ioBuf, two, same⟩ := syncStep_done layout.mounted stepped
      have layout' : RootLayout s'.part s'.inode := by
        rw [same]
        exact layout.insert rootTaken two call.entry ioBuf
      by_cases isLast : calls = []
      · subst isLast
        cases restRan
        refine ⟨s', s.part.sb.dataStartLba + UInt32.ofNat bitIdx, rfl, layout', ?_⟩
        rw [same]
        exact two.tableHolds layout.mounted s.inode call.entry ioBuf
      · have stillTaken : s'.part.blockBitmap.bit 0 = true := by
          rw [same]
          exact indirectPart_bit rootTaken tableIdx bitIdx call.entry ioBuf
        obtain ⟨last, lba, isEnd, lastLayout, holds⟩ :=
          inductionHypothesis layout' stillTaken isLast restRan
        refine ⟨last, lba, ?_, lastLayout, ?_⟩
        · rw [List.getLast?_cons, isEnd]
          rfl
        · rw [List.getLast_cons isLast]
          exact holds

theorem RootLayout.only_last_found (layout : RootLayout s.part s.inode)
    (rootTaken : s.part.blockBitmap.bit 0 = true) (some : calls ≠ [])
    (ran : trace (syncStep full) s calls = .ok states) {name : CString}
    (short : strlen name < maxFileNameLen) (absent : NotInRoot name)
    (other : (calls.getLast some).entry.name.chars ≠ name.chars) :
    ∃ last, states.getLast? = Option.some last ∧ ∀ junk buf,
      searchDirEntry last.part last.inode name (Option.some junk) buf = .ok none := by
  obtain ⟨last, lba, isEnd, lastLayout, holds⟩ := layout.run rootTaken some ran
  refine ⟨last, isEnd, fun junk buf => ?_⟩
  rw [holds.search_eq lastLayout (Nat.lt_trans short (by decide)) absent, if_neg]
  rw [strcmp_short_iff _ short, DirEntry.ofBytes_bytes]
  exact other

theorem RootLayout.first_keeps_iff (layout : RootLayout s.part s.inode)
    (noTable : s.inode.iSectors 12 = 0) (size : s.inode.iSize = 48)
    (rootTaken : s.part.blockBitmap.bit 0 = true) (notDot : call.entry.name.chars ≠ [46])
    (notDotDot : call.entry.name.chars ≠ [46, 46]) (ran : syncStep full s call = .ok s') :
    (DirCorrect s'.part s'.inode [dotEntry, dotDotEntry, call.entry] ∧
      ∀ lba, Reachable s.part s.inode lba → Reachable s'.part s'.inode lba) ↔
    call.entry.Findable := by
  obtain ⟨tableIdx, bitIdx, ioBuf, two, rfl⟩ := syncStep_done layout.mounted ran
  have layout' := layout.insert rootTaken two call.entry ioBuf
  have holds := two.tableHolds layout.mounted s.inode call.entry ioBuf
  have entry_iff := holds.found_iff layout' notDot notDotDot
  constructor
  · rintro ⟨correct, -⟩
    exact entry_iff.mp (correct.found call.entry (by simp))
  · intro findable
    refine ⟨⟨fun entry member => ?_, ?_⟩, fun lba before => ?_⟩
    · obtain ⟨dot, dotDot⟩ := layout'.found_dots fun _ => holds.tableAddressed
      rcases List.mem_cons.mp member with rfl | member
      · exact dot
      · rcases List.mem_cons.mp member with rfl | member
        · exact dotDot
        · rw [List.mem_singleton.mp member]
          exact entry_iff.mpr findable
    · have entrySize := layout.mounted.dirEntrySize
      change (s.inode.iSize + s.part.sb.dirEntrySize).toNat = s.part.sb.dirEntrySize.toNat * 3
      rw [size, entrySize]
      rfl
    · exact (holds.reachable_iff layout').mpr (Or.inl ((layout.reachable_iff noTable).mp before))

/-- Where the block of the root directory is marked as free, it becomes the table, and `"."`
is lost. -/
theorem RootLayout.first_overwrites (layout : RootLayout s.part s.inode)
    (rootFree : s.part.blockBitmap.bit 0 = false) (notDot : call.entry.name.chars ≠ [46])
    (ran : syncStep full s call = .ok s') : ¬ EntryFound s'.part s'.inode dotEntry := by
  obtain ⟨tableIdx, bitIdx, ioBuf, two, rfl⟩ := syncStep_done layout.mounted ran
  obtain rfl : tableIdx = 0 := Nat.le_zero.mp (two.table.le rootFree)
  have holds := two.tableHolds layout.mounted s.inode call.entry ioBuf
  intro found
  obtain ⟨result, searched, -, type⟩ := found (fun _ => 0) (Bytes.fill 0)
  rw [searchDirEntry_eq (indirectPart_mounted layout.mounted _ _ _ _)
    fun _ => holds.tableAddressed] at searched
  obtain ⟨i, idx, buf, -, inArray, used, inBlock, named, rfl⟩ := searchBlocks_some searched
  have short := entryName_short dotEntry
  rw [Nat.zero_add] at inArray
  by_cases direct : i < 12
  · -- the first block is the table now, and its words behind the first one are 0
    have first : i = 0 := by
      by_contra other
      refine used ?_
      rw [Inode.directBlocks, dif_pos direct, indirectInode_iSectors_direct _ _ _ direct,
        layout.pointers _ direct, if_neg fun zero => other (congrArg Fin.val zero)]
    subst first
    have pointer : (indirectInode s.part s.inode 0).directBlocks (fun k => (searchTable
        (indirectPart s.part 0 bitIdx call.entry ioBuf) (indirectInode s.part s.inode 0)
        fun _ => 0).word (k - 12)) 0 = (indirectInode s.part s.inode 0).iSectors 12 := by
      rw [Inode.directBlocks, dif_pos direct, indirectInode_iSectors_direct _ _ _ direct,
        layout.pointers _ direct, indirectInode_iSectors_table]
      exact (UInt32.add_zero _).symm
    change Bytes.word _ 5 = FileType.directory.code at type
    rw [word_slot_readInto inBlock, pointer, word_slot, holds.words _ (by omega),
      if_neg (by omega)] at type
    cases type
  · rw [holds.pointer _ (by omega) inArray] at used named
    split at used
    next here =>
      rw [if_pos here, holds.strcmp_iff inBlock short] at named
      split at named
      next =>
        refine notDot ?_
        have same := (strcmp_short_iff _ (by decide)).mp named
        rwa [DirEntry.ofBytes_bytes] at same
      next => cases named
    next => exact absurd rfl used

/-- The second insertion makes the table of the first one unreachable. -/
theorem RootLayout.second_orphans {s'' : DirState} {second : DirCall}
    (layout : RootLayout s.part s.inode) (rootTaken : s.part.blockBitmap.bit 0 = true)
    (ran : syncStep full s call = .ok s') (ranAgain : syncStep full s' second = .ok s'') :
    ¬ ∀ lba, Reachable s'.part s'.inode lba → Reachable s''.part s''.inode lba := by
  obtain ⟨tableIdx, bitIdx, ioBuf, two, same⟩ := syncStep_done layout.mounted ran
  have isTable : s'.inode.iSectors 12 = s'.part.sb.dataStartLba + UInt32.ofNat tableIdx := by
    rw [same]
    exact indirectInode_iSectors_table s.part s.inode tableIdx
  have layout' : RootLayout s'.part s'.inode := by
    rw [same]
    exact layout.insert rootTaken two call.entry ioBuf
  have rootTaken' : s'.part.blockBitmap.bit 0 = true := by
    rw [same]
    exact indirectPart_bit rootTaken tableIdx bitIdx call.entry ioBuf
  have inMap : tableIdx < s'.part.blockBitmap.bitLen := by
    rw [same]
    exact two.table.inside
  have taken : s'.part.blockBitmap.bit tableIdx = true := by
    rw [same]
    change ((s.part.blockBitmap.put tableIdx true).put bitIdx true).bit tableIdx = true
    rw [Bitmap.bit_put, Bitmap.bit_put_self, ite_self]
  have positive : tableIdx ≠ 0 := by
    rintro rfl
    rw [two.table.free] at rootTaken
    cases rootTaken
  clear same two
  have mounted := layout'.mounted
  have table : s'.inode.iSectors 12 ≠ 0 := by
    rw [isTable]
    exact mounted.lba_ne_zero inMap
  intro kept
  have stays := kept (s'.inode.iSectors 12) ⟨table, Or.inl ⟨12, rfl⟩⟩
  obtain ⟨newTable, newBlock, ioBuf', two, same⟩ := syncStep_done mounted ranAgain
  have holds := two.tableHolds mounted s'.inode second.entry ioBuf'
  rw [same] at stays
  -- a block that has just been taken was free, and the first table was not
  have isNew : ∀ {other}, s'.part.blockBitmap.bit other = false →
      other < s'.part.blockBitmap.bitLen →
      s'.part.sb.dataStartLba + UInt32.ofNat tableIdx ≠
        s'.part.sb.dataStartLba + UInt32.ofNat other := by
    intro other free otherInMap same
    have equal := congrArg UInt32.toNat same
    rw [mounted.lba_toNat inMap, mounted.lba_toNat otherInMap] at equal
    obtain rfl : tableIdx = other := by omega
    rw [taken] at free
    cases free
  rcases (holds.reachable_iff (layout'.insert rootTaken' two _ _)).mp stays with
    isRoot | sameTable | sameBlock
  · have equal := congrArg UInt32.toNat (isTable.symm.trans isRoot)
    rw [mounted.lba_toNat inMap] at equal
    change _ = s'.part.sb.dataStartLba.toNat at equal
    omega
  · rw [isTable, indirectInode_iSectors_table] at sameTable
    exact isNew two.table.free two.table.inside sameTable
  · rw [isTable] at sameBlock
    exact isNew two.next.2 two.inMap sameBlock

/-- A run from the root directory keeps everything if and only if it has at most one call,
whose entry can be found, and the block of the root directory is marked as taken. -/
theorem everyCallKeeps_iff (layout : RootLayout s.part s.inode)
    (noTable : s.inode.iSectors 12 = 0) (size : s.inode.iSize = 48)
    (distinct : (entryNames (dotEntry :: dotDotEntry :: calls.map DirCall.entry)).Nodup)
    (ran : trace (syncStep full) s calls = .ok states) :
    EveryCallKeeps s [dotEntry, dotDotEntry] calls states ↔ calls = [] ∨
      ∃ call, calls = [call] ∧ s.part.blockBitmap.bit 0 = true ∧ call.entry.Findable := by
  cases calls with
  | nil => simp [EveryCallKeeps]
  | cons call rest =>
      obtain ⟨s', tail, stepped, restRan, rfl⟩ := trace_cons_eq_ok.mp ran
      have dots : dotEntry.name.chars = [46] ∧ dotDotEntry.name.chars = [46, 46] := by decide
      simp only [entryNames, List.map_cons, List.nodup_cons, List.mem_cons, not_or] at distinct
      have notDot : call.entry.name.chars ≠ [46] := fun same =>
        distinct.1.2.1 (dots.1.trans same.symm)
      have notDotDot : call.entry.name.chars ≠ [46, 46] := fun same =>
        distinct.2.1.1 (dots.2.trans same.symm)
      simp only [EveryCallKeeps, List.cons_append, List.nil_append, reduceCtorEq, false_or,
        List.cons.injEq]
      cases rootBit : s.part.blockBitmap.bit 0 with
      | false =>
          refine iff_of_false (fun keeps => ?_) (by simp)
          exact layout.first_overwrites rootBit notDot stepped
            (keeps.1.found dotEntry List.mem_cons_self)
      | true =>
          have first := layout.first_keeps_iff noTable size rootBit notDot notDotDot stepped
          cases rest with
          | nil =>
              rw [EveryCallKeeps, and_true, first]
              simp
              all_goals simp
          | cons second rest =>
              obtain ⟨s'', tail, stepped', -, rfl⟩ := trace_cons_eq_ok.mp restRan
              refine iff_of_false (fun keeps => ?_) (by simp)
              rw [EveryCallKeeps] at keeps
              exact layout.second_orphans rootBit stepped stepped' keeps.2.2.2.1

end Runs

theorem rootBlock_slots : (∀ a < dirEntrySize, slot rootBlock 0 a = dotEntry.bytes a) ∧
    (∀ a < dirEntrySize, slot rootBlock 1 a = dotDotEntry.bytes a) ∧
    ∀ idx, 2 ≤ idx → idx < 21 → ∀ a < dirEntrySize, slot rootBlock idx a = 0 := by
  simp only [dirEntrySize]
  refine ⟨fun a small => ?_, fun a small => ?_, fun idx low high => ?_⟩
  · rw [slot, Bytes.window_apply, rootBlock, Bytes.splice_outside (by omega),
      Bytes.splice_inside (Nat.zero_le _) (by omega)]
    congr 1
    omega
  · rw [slot, Bytes.window_apply, rootBlock,
      Bytes.splice_inside (by simp only [dirEntrySize]; omega)
        (by simp only [dirEntrySize]; omega)]
    congr 1
    simp only [dirEntrySize]
    omega
  · intro a _
    rw [slot, Bytes.window_apply, rootBlock,
      Bytes.splice_outside (by simp only [dirEntrySize]; omega),
      Bytes.splice_outside (by simp only [dirEntrySize]; omega), Bytes.fill_apply]

theorem rootLayout {startLba secCnt : UInt32} {disk disk' : Bytes} {part part' : Partition}
    {memory memory' : Address → Inode} {found root : Address}
    {blockBuf inodeBuf buf : Bytes} (formatted : Formatted startLba secCnt disk disk')
    (room : 613 ≤ secCnt.toNat) (fits : startLba.toNat + secCnt.toNat < 2 ^ 32)
    (mountRan : mountPartition startLba secCnt disk' blockBuf inodeBuf = .ok part)
    (opened : inodeOpen part memory part.sb.rootInodeNo found buf = .ok (root, part', memory')) :
    RootLayout part' (memory' root) ∧ (memory' root).iSectors 12 = 0 ∧
      (memory' root).iSize = 48 ∧ part'.sb = formatSuperBlock startLba secCnt ∧
      ∀ i < 4096 * (formatSuperBlock startLba secCnt).blockBitmapSects.toUInt8.toNat,
        part'.blockBitmap.bit i = decide ((blockBitmapBitLen secCnt).toNat < i ∨
          i = 0 ∧ 8 ≤ (blockBitmapBitLen secCnt).toNat) := by
  obtain ⟨mount, ran, sameStart, sameCnt, sameDisk, noneOpen, sameSb, blockLen, inodeLen, bits⟩ :=
    formatted.mount_eq blockBuf inodeBuf
  obtain rfl : mount = part := Except.ok.inj (ran.symm.trans mountRan)
  have mounted := formatted.mounted room fits sameStart sameCnt sameSb blockLen inodeLen
  have rootNo : mount.sb.rootInodeNo = 0 := by rw [sameSb]; rfl
  rw [rootNo, inodeOpen_eq_of_miss mounted (by decide) (by simp [noneOpen])] at opened
  simp only [Except.ok.injEq, Prod.mk.injEq] at opened
  obtain ⟨rfl, rfl, rfl⟩ := opened
  have record : Inode.ofBytes (mount.inodeRecord (0 : UInt32).toNat) =
      rootInode (formatSuperBlock startLba secCnt) := by
    refine (Inode.ofBytes_congr ?_).trans (Inode.ofBytes_bytes _)
    rw [Partition.inodeRecord, Partition.inodeOffset, sameDisk, sameSb]
    exact formatted.rootInode
  obtain ⟨slotDot, slotDotDot, slotBlank⟩ := rootBlock_slots
  -- the slots of the root block on the disk
  have onDisk : ∀ idx < 21, Bytes.SameHead dirEntrySize
      (slot (mount.myDisk.window (512 * mount.sb.dataStartLba.toNat)) idx)
      (slot rootBlock idx) := by
    intro idx small a inside
    simp only [dirEntrySize] at inside
    rw [sameDisk, sameSb]
    exact formatted.rootBlock _ (by simp only [dirEntrySize]; omega)
  rw [Function.update_self, record]
  refine ⟨⟨mounted.setOpenInodes _, fun k _ => ?_, ?_, ?_, fun idx behind inBlock => ?_⟩, rfl, rfl,
    sameSb, fun i small => ?_⟩
  · rw [Partition.setOpenInodes_sb, sameSb]
    rfl
  · exact (onDisk 0 (by decide)).trans slotDot
  · exact (onDisk 1 (by decide)).trans slotDotDot
  · exact (onDisk idx inBlock).trans (slotBlank idx behind inBlock)
  · rw [Partition.setOpenInodes_blockBitmap, bits i small, formatted.bit_written small]

/-- From the root directory of a formatted partition, with names that differ from each other
and from `"."` and `".."`: every call keeps the directory correct and orphans no block exactly
if there is at most one call, its entry can be found, and the partition has 620 sectors. -/
theorem directory_kept_iff {startLba secCnt : UInt32} {mem : FormatMemory}
    {disk disk' blockBuf inodeBuf buf : Bytes} {part part' : Partition}
    {memory memory' : Address → Inode} {found root : Address} {full : FullScan}
    {calls : List DirCall} {states : List DirState}
    (room : 613 ≤ secCnt.toNat) (fits : startLba.toNat + secCnt.toNat < 2 ^ 32)
    (formatRan : partitionFormat startLba secCnt mem disk = .ok disk')
    (mountRan : mountPartition startLba secCnt disk' blockBuf inodeBuf = .ok part)
    (opened : inodeOpen part memory part.sb.rootInodeNo found buf = .ok (root, part', memory'))
    (distinct : (entryNames (dotEntry :: dotDotEntry :: calls.map DirCall.entry)).Nodup)
    (ran : trace (syncStep full) ⟨part', memory' root⟩ calls = .ok states) :
    EveryCallKeeps ⟨part', memory' root⟩ [dotEntry, dotDotEntry] calls states ↔ calls = [] ∨
      ∃ call, calls = [call] ∧ 620 ≤ secCnt.toNat ∧ call.entry.Findable := by
  have formatted := partitionFormat_formatted room (Nat.le_of_lt fits) formatRan
  obtain ⟨layout, noTable, size, -, bits⟩ := rootLayout formatted room fits mountRan opened
  have someSects : 0 < (formatSuperBlock startLba secCnt).blockBitmapSects.toUInt8.toNat :=
    formatted.someSects
  have bitLen := formatted.laidOut.bitLen
  have large : part'.blockBitmap.bit 0 = true ↔ 620 ≤ secCnt.toNat := by
    rw [bits 0 (by omega), decide_eq_true_eq]
    omega
  have kept := everyCallKeeps_iff layout noTable size distinct ran
  simp only [large] at kept
  exact kept

/-- Bits `low ..` of the block bitmap are free up to `high`, those before are set, and the
sectors can be addressed. -/
structure Spare (part : Partition) (low high : Nat) : Prop where
  inMap : high ≤ part.blockBitmap.bitLen
  addressed : part.sb.dataStartLba.toNat + high ≤ maxLba + 1
  taken : ∀ i < low, part.blockBitmap.bit i = true
  free : ∀ i, low ≤ i → i < high → part.blockBitmap.bit i = false

section Spare

variable {part : Partition} {low high : Nat}

theorem Spare.takesTwo (spare : Spare part low high) (mounted : part.Mounted)
    (room : low + 2 ≤ high) : TakesTwo part low (low + 1) := by
  have inMap := spare.inMap
  have addressed := spare.addressed
  refine ⟨⟨by omega, spare.free low (le_refl _) (by omega), spare.taken⟩,
    ⟨?_, ?_, fun j earlier => ?_⟩, ?_⟩
  · change low + 1 < part.blockBitmap.bitLen
    omega
  · rw [Bitmap.bit_put_of_ne (by omega)]
    exact spare.free _ (by omega) (by omega)
  · rw [Bitmap.bit_put]
    split
    next => rfl
    next => exact spare.taken j (by omega)
  · rw [mounted.lba_toNat (by omega)]
    omega

theorem Spare.indirectPart (spare : Spare part low high) (entry : DirEntry) (ioBuf : Bytes) :
    Spare (indirectPart part low (low + 1) entry ioBuf) (low + 2) high := by
  refine ⟨spare.inMap, spare.addressed, fun i earlier => ?_, fun i above below => ?_⟩
  · change ((part.blockBitmap.put low true).put (low + 1) true).bit i = true
    rw [Bitmap.bit_put, Bitmap.bit_put]
    split
    next => rfl
    next =>
      split
      next => rfl
      next => exact spare.taken i (by omega)
  · change ((part.blockBitmap.put low true).put (low + 1) true).bit i = false
    rw [Bitmap.bit_put_of_ne (by omega), Bitmap.bit_put_of_ne (by omega)]
    exact spare.free i (by omega) below

theorem Spare.run_returns {s : DirState} (full : FullScan) {calls : List DirCall}
    (mounted : s.part.Mounted) (size : s.inode.iSize.toNat % 24 = 0)
    (few : s.inode.iSize.toNat + 24 * calls.length < 2 ^ 32)
    (spare : Spare s.part low high) (room : low + 2 * calls.length ≤ high) :
    ∃ states, trace (syncStep full) s calls = .ok states := by
  induction calls generalizing s low with
  | nil => exact ⟨[], rfl⟩
  | cons call calls inductionHypothesis =>
      rw [List.length_cons] at room few
      have two := spare.takesTwo mounted (by omega)
      have entrySize := mounted.dirEntrySize
      have size₀ : s.inode.iSize % s.part.sb.dirEntrySize = 0 := by
        refine UInt32.toNat_inj.mp ?_
        rw [entrySize, UInt32.toNat_mod]
        exact size
      have stepped : syncStep full s call = .ok ⟨Fs.indirectPart s.part low (low + 1) call.entry
          call.ioBuf, indirectInode s.part s.inode low⟩ := by
        rw [syncStep, syncDirEntry_of_two mounted two size₀]
      have larger : (s.inode.iSize + s.part.sb.dirEntrySize).toNat = s.inode.iSize.toNat + 24 := by
        rw [entrySize, UInt32.toNat_add]
        exact Nat.mod_eq_of_lt (by simp only [UInt32.reduceToNat]; omega)
      obtain ⟨states, ran⟩ : ∃ states, trace (syncStep full) ⟨Fs.indirectPart s.part low (low + 1)
          call.entry call.ioBuf, indirectInode s.part s.inode low⟩ calls = .ok states :=
        inductionHypothesis (indirectPart_mounted mounted _ _ _ _)
          (by
            change (s.inode.iSize + s.part.sb.dirEntrySize).toNat % 24 = 0
            omega)
          (by
            change (s.inode.iSize + s.part.sb.dirEntrySize).toNat + _ < _
            omega)
          (spare.indirectPart call.entry call.ioBuf) (by omega)
      exact ⟨_, trace_cons_eq_ok.mpr ⟨_, states, stepped, ran, rfl⟩⟩

end Spare

/-- A regular file with a name of one letter. -/
def sampleCall (letter : UInt8) (iNo : UInt32) : DirCall :=
  ⟨⟨fun i => if i = 0 then letter else 0, iNo, FileType.regular.code⟩, Bytes.fill 0⟩

theorem sample_runs {calls : List DirCall} (few : calls.length ≤ 2) :
    ∃ disk' part root part' memory' states,
      partitionFormat 2048 8192 ampleMemory (Bytes.fill 0) = .ok disk' ∧
      mountPartition 2048 8192 disk' (Bytes.fill 0) (Bytes.fill 0) = .ok part ∧
      inodeOpen part (fun _ => inodeInit 0) part.sb.rootInodeNo 0xc0100000 (Bytes.fill 0) =
        .ok (root, part', memory') ∧
      RootLayout part' (memory' root) ∧ (memory' root).iSectors 12 = 0 ∧
      (memory' root).iSize = 48 ∧ part'.blockBitmap.bit 0 = true ∧
      trace (syncStep .asserts) ⟨part', memory' root⟩ calls = .ok states := by
  obtain ⟨disk', formatRan⟩ : ∃ disk',
      partitionFormat 2048 8192 ampleMemory (Bytes.fill 0) = .ok disk' := ⟨_, rfl⟩
  have formatted := partitionFormat_formatted (by decide) (by decide) formatRan
  obtain ⟨part, mountRan, sameStart, sameCnt, -, noneOpen, sameSb, blockLen, inodeLen, -⟩ :=
    formatted.mount_eq (Bytes.fill 0) (Bytes.fill 0)
  have mounted := formatted.mounted (by decide) (by decide) sameStart sameCnt sameSb blockLen
    inodeLen
  obtain ⟨part', memory', opened⟩ : ∃ part' memory',
      inodeOpen part (fun _ => inodeInit 0) part.sb.rootInodeNo 0xc0100000 (Bytes.fill 0) =
        .ok (0xc0100000, part', memory') :=
    ⟨_, _, inodeOpen_eq_of_miss mounted (by rw [sameSb]; decide) (by simp [noneOpen]) _ _⟩
  obtain ⟨layout, noTable, size, sb, bits⟩ :=
    rootLayout formatted (by decide) (by decide) mountRan opened
  have sects : (formatSuperBlock 2048 8192).blockBitmapSects.toUInt8.toNat = 2 ∧
      (formatSuperBlock 2048 8192).blockBitmapSects.toNat = 2 ∧
      (formatSuperBlock 2048 8192).dataStartLba.toNat = 2661 ∧
      (blockBitmapBitLen 8192).toNat = 7579 := by decide
  have spare : Spare part' 1 7579 := by
    refine ⟨?_, ?_, fun i low => ?_, fun i low high => ?_⟩
    · have mapLen := layout.mounted.blockBitmapLen
      rw [sb] at mapLen
      simp only [Bitmap.bitLen]
      omega
    · rw [sb]
      simp only [maxLba]
      omega
    · rw [bits i (by omega)]
      exact decide_eq_true (by omega)
    · rw [bits i (by omega)]
      exact decide_eq_false (by omega)
  obtain ⟨states, ran⟩ : ∃ states,
      trace (syncStep .asserts) ⟨part', memory' 0xc0100000⟩ calls = .ok states :=
    spare.run_returns .asserts layout.mounted (by rw [size]; decide)
      (by rw [size]; simp only [UInt32.reduceToNat]; omega) (by omega)
  exact ⟨disk', part, 0xc0100000, part', memory', states, formatRan, mountRan, opened, layout,
    noTable, size, spare.taken 0 (by decide), ran⟩

/-- The first file is kept. -/
theorem directory_kept_one :
    ∃ disk' part root part' memory' states,
      partitionFormat 2048 8192 ampleMemory (Bytes.fill 0) = .ok disk' ∧
      mountPartition 2048 8192 disk' (Bytes.fill 0) (Bytes.fill 0) = .ok part ∧
      inodeOpen part (fun _ => inodeInit 0) part.sb.rootInodeNo 0xc0100000 (Bytes.fill 0) =
        .ok (root, part', memory') ∧
      trace (syncStep .asserts) ⟨part', memory' root⟩ [sampleCall 97 1] = .ok states ∧
      EveryCallKeeps ⟨part', memory' root⟩ [dotEntry, dotDotEntry] [sampleCall 97 1] states := by
  obtain ⟨disk', part, root, part', memory', states, formatRan, mountRan, opened, -, -, -, -,
    ran⟩ := sample_runs (by decide : [sampleCall 97 1].length ≤ 2)
  refine ⟨disk', part, root, part', memory', states, formatRan, mountRan, opened, ran, ?_⟩
  exact (directory_kept_iff (by decide) (by decide) formatRan mountRan opened (by decide)
    ran).mpr (Or.inr ⟨_, rfl, by decide, by decide, by decide⟩)

/-- The second file makes the directory forget the table of the first one, `"a"`. -/
theorem directory_loses_first :
    ∃ disk' part root part' memory' states,
      partitionFormat 2048 8192 ampleMemory (Bytes.fill 0) = .ok disk' ∧
      mountPartition 2048 8192 disk' (Bytes.fill 0) (Bytes.fill 0) = .ok part ∧
      inodeOpen part (fun _ => inodeInit 0) part.sb.rootInodeNo 0xc0100000 (Bytes.fill 0) =
        .ok (root, part', memory') ∧
      trace (syncStep .asserts) ⟨part', memory' root⟩ [sampleCall 97 1, sampleCall 98 2] =
        .ok states ∧
      ¬ EveryCallKeeps ⟨part', memory' root⟩ [dotEntry, dotDotEntry]
        [sampleCall 97 1, sampleCall 98 2] states ∧
      ∃ last, states.getLast? = some last ∧ ∀ junk buf, searchDirEntry last.part last.inode
        (sampleCall 97 1).entry.name (some junk) buf = .ok none := by
  obtain ⟨disk', part, root, part', memory', states, formatRan, mountRan, opened, layout, noTable,
    size, rootTaken, ran⟩ := sample_runs (by decide : [sampleCall 97 1, sampleCall 98 2].length ≤ 2)
  refine ⟨disk', part, root, part', memory', states, formatRan, mountRan, opened, ran, ?_, ?_⟩
  · rw [everyCallKeeps_iff layout noTable size (by decide) ran]
    simp
  · exact layout.only_last_found rootTaken (by decide) ran (by decide)
      (notInRoot_iff.mpr (by decide)) (by decide)

end HongbaiOS.Fs
