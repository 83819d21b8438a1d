import HongbaiOS.Fs.Blocks
import HongbaiOS.Fs.DirEntry
import HongbaiOS.Fs.Inode

/-!
# Searching and extending a directory

`search_dir_entry` walks over twelve direct blocks and the 128 blocks of the
indirect table.  `sync_dir_entry` is meant to put an entry into the first empty
slot or into a new block, but its two loops share their counter: the second one
starts at pointer 12, which the first one has left at 0.
-/

namespace HongbaiOS.Fs

open HongbaiOS.Library HongbaiOS.Kernel HongbaiOS.Device HongbaiOS.Lib

namespace Inode

@[simps]
def setSector (inode : Inode) (k : Fin 13) (lba : UInt32) : Inode :=
  { inode with iSectors := Function.update inode.iSectors k lba }

/-- `i_size += size` -/
@[simps]
def grow (inode : Inode) (size : UInt32) : Inode := { inode with iSize := inode.iSize + size }

/-- The direct pointers, and what `rest` says from index 12 on. -/
def directBlocks (inode : Inode) (rest : Nat → UInt32) : Nat → UInt32 := fun k =>
  if direct : k < 12 then inode.iSectors ⟨k, by omega⟩ else rest k

end Inode

/-- Slot `idx` of a directory block. -/
def slot (block : Bytes) (idx : Nat) : Bytes := block.window (dirEntrySize * idx)

/-- The inner loop of `search_dir_entry`: entries `idx ..` of one block. -/
def searchBlock (buf : Bytes) (name : CString) : (left idx : Nat) → Option DirEntry
  | 0, _ => none
  | left + 1, idx =>
      if strcmp (slot buf idx) name = 0 then some (DirEntry.ofBytes (slot buf idx))
      else searchBlock buf name left (idx + 1)

/-- The outer loop: blocks `blockIdx ..`. -/
def searchBlocks (disk : Bytes) (allBlock : Nat → UInt32) (name : CString)
    (dirEntryCnt : Nat) : (left blockIdx : Nat) → Bytes → Except Halt (Option DirEntry)
  | 0, _, _ => .ok none
  | left + 1, blockIdx, buf =>
      if allBlock blockIdx = 0 then
        searchBlocks disk allBlock name dirEntryCnt left (blockIdx + 1) buf
      else do
        let buf ← ideRead disk (allBlock blockIdx).toNat buf 1
        match searchBlock buf name dirEntryCnt 0 with
        | some found => return some found
        | none =>
            searchBlocks disk allBlock name dirEntryCnt left (blockIdx + 1)
              (buf.splice 0 512 (Bytes.fill 0))

/-- `search_dir_entry(part, pdir, name, dir_e)`.  `allBlock` and `buf` are the two
buffers from `sys_malloc`, whose contents are unknown; `none` for `allBlock` is a
failed allocation. -/
def searchDirEntry (part : Partition) (inode : Inode) (name : CString)
    (allBlock : Option (Nat → UInt32)) (buf : Bytes) : Except Halt (Option DirEntry) :=
  match allBlock with
  | none => .ok none
  | some junk => do
      let allBlock := inode.directBlocks junk
      let table ←
        if inode.iSectors 12 ≠ 0 then
          ideRead part.myDisk (inode.iSectors 12).toNat
            (Bytes.ofWords fun k => allBlock (k + 12)) 1
        else pure (Bytes.ofWords fun k => allBlock (k + 12))
      let allBlock := inode.directBlocks fun k => table.word (k - 12)
      let dirEntryCnt := (512 / part.sb.dirEntrySize).toNat
      searchBlocks part.myDisk allBlock name dirEntryCnt 140 0 buf

/-- The inner loop of `sync_dir_entry`: the first entry from `idx` on whose
`f_type` is `FT_UNKNOWN`. -/
def freeSlot (buf : Bytes) : (left idx : Nat) → Option Nat
  | 0, _ => none
  | left + 1, idx =>
      if (slot buf idx).word 5 = FileType.unknown.code then some idx
      else freeSlot buf left (idx + 1)

/-- The end of the branch for a new block: the entry goes to its start. -/
def writeNewBlock (part : Partition) (inode : Inode) (entry : DirEntry) (lba : UInt32)
    (ioBuf : Bytes) : Except Halt (Bool × Inode × Partition) := do
  let ioBuf := (ioBuf.splice 0 512 (Bytes.fill 0)).splice 0 dirEntrySize entry.bytes
  let disk ← ideWrite part.myDisk lba.toNat ioBuf 1
  return (true, inode.grow part.sb.dirEntrySize, part.setDisk disk)

/-- `bitmap_sync` for the block just taken. -/
def syncTaken (part : Partition) (blockLba : UInt32) : Except Halt Partition := do
  let blockBitmapIdx := blockLba - part.sb.dataStartLba
  check .syncDirEntry (blockBitmapIdx ≠ 0xffffffff)
  bitmapSync part blockBitmapIdx .blockBitmap

/-- The branch of `sync_dir_entry` for a block pointer that is 0. -/
def syncNewBlock (full : FullScan) (part : Partition) (inode : Inode) (entry : DirEntry)
    (allBlock : Nat → UInt32) (blockIdx : Nat) (ioBuf : Bytes) :
    Except Halt (Bool × Inode × Partition) := do
  match ← blockBitmapAlloc full part with
  | (none, part) => return (false, inode, part)
  | (some blockLba, part) =>
      let part ← syncTaken part blockLba
      if direct : blockIdx < 12 then
        writeNewBlock part (inode.setSector ⟨blockIdx, by omega⟩ blockLba) entry blockLba ioBuf
      else if blockIdx = 12 then
        -- the sector taken becomes the table, and a second one is needed
        let inode := inode.setSector 12 blockLba
        match ← blockBitmapAlloc full part with
        | (none, part) =>
            let blockBitmapIdx := inode.iSectors 12 - part.sb.dataStartLba
            let btmp ← bitmapSet part.blockBitmap blockBitmapIdx.toNat false
            return (false, inode.setSector 12 0, part.setBlockBitmap btmp)
        | (some blockLba, part) =>
            let part ← syncTaken part blockLba
            let allBlock := Function.update allBlock 12 blockLba
            let disk ← ideWrite part.myDisk (inode.iSectors 12).toNat
              (Bytes.ofWords fun k => allBlock (k + 12)) 1
            writeNewBlock (part.setDisk disk) inode entry blockLba ioBuf
      else
        let allBlock := Function.update allBlock blockIdx blockLba
        let disk ← ideWrite part.myDisk (inode.iSectors 12).toNat
          (Bytes.ofWords fun k => allBlock (k + 12)) 1
        writeNewBlock (part.setDisk disk) inode entry blockLba ioBuf

/-- The loop of `sync_dir_entry` over the block pointers. -/
def syncBlocks (full : FullScan) (part : Partition) (inode : Inode) (entry : DirEntry)
    (allBlock : Nat → UInt32) (dirEntryPerSec : Nat) :
    (left blockIdx : Nat) → Bytes → Except Halt (Bool × Inode × Partition)
  | 0, _, _ => .ok (false, inode, part)
  | left + 1, blockIdx, ioBuf =>
      if allBlock blockIdx = 0 then
        syncNewBlock full part inode entry allBlock blockIdx ioBuf
      else do
        let ioBuf ← ideRead part.myDisk (allBlock blockIdx).toNat ioBuf 1
        match freeSlot ioBuf dirEntryPerSec 0 with
        | some idx =>
            let ioBuf := ioBuf.splice (dirEntrySize * idx) dirEntrySize entry.bytes
            let disk ← ideWrite part.myDisk (allBlock blockIdx).toNat ioBuf 1
            return (true, inode.grow part.sb.dirEntrySize, part.setDisk disk)
        | none =>
            syncBlocks full part inode entry allBlock dirEntryPerSec left (blockIdx + 1) ioBuf

/-- `sync_dir_entry(parent_dir, p_de, io_buf)`: the result, the directory's inode
and the partition afterwards. -/
def syncDirEntry (full : FullScan) (part : Partition) (inode : Inode) (entry : DirEntry)
    (ioBuf : Bytes) : Except Halt (Bool × Inode × Partition) := do
  check .syncDirEntry (inode.iSize % part.sb.dirEntrySize = 0)
  let dirEntryPerSec := (512 / part.sb.dirEntrySize).toNat
  -- block_idx is still 12 from the loop that has copied the direct pointers
  syncBlocks full part inode entry (inode.directBlocks fun _ => 0) dirEntryPerSec 128 12 ioBuf

/-- Slot `idx` of the block at `lba` holds `entry`. -/
def SlotHolds (disk : Bytes) (lba : UInt32) (idx : Nat) (entry : DirEntry) : Prop :=
  Bytes.SameHead dirEntrySize (slot (disk.window (512 * lba.toNat)) idx) entry.bytes

/-- Slot `idx` of the block at `lba` is unused or deleted. -/
def SlotFree (disk : Bytes) (lba : UInt32) (idx : Nat) : Prop :=
  (slot (disk.window (512 * lba.toNat)) idx).word 5 = FileType.unknown.code

/-- Slot `idx` of the block at `lba` has never been written. -/
def SlotBlank (disk : Bytes) (lba : UInt32) (idx : Nat) : Prop :=
  Bytes.SameHead dirEntrySize (slot (disk.window (512 * lba.toNat)) idx) (Bytes.fill 0)

/-- A buffer after a block has been read into it. -/
def readInto (buf disk : Bytes) (lba : UInt32) : Bytes :=
  buf.splice 0 (512 * (1 : UInt8).toNat) (disk.window (512 * lba.toNat))

theorem slot_readInto (buf disk : Bytes) (lba : UInt32) {idx : Nat} (small : idx < 21) :
    Bytes.SameHead dirEntrySize (slot (readInto buf disk lba) idx)
      (slot (disk.window (512 * lba.toNat)) idx) := by
  intro a inside
  simp only [dirEntrySize] at inside
  simp only [slot, readInto, Bytes.window_apply, dirEntrySize]
  exact Bytes.splice_inside (Nat.zero_le _) (by simp only [UInt8.reduceToNat]; omega)

/-- The file type `sync_dir_entry` tests. -/
theorem word_slot_readInto {buf disk : Bytes} {lba : UInt32} {idx : Nat} (small : idx < 21) :
    (slot (readInto buf disk lba) idx).word 5 =
      (slot (disk.window (512 * lba.toNat)) idx).word 5 :=
  Bytes.word_congr (slot_readInto buf disk lba small) (by decide)

theorem SlotHolds.word {disk : Bytes} {lba : UInt32} {idx : Nat} {entry : DirEntry}
    (holds : SlotHolds disk lba idx entry) :
    (slot (disk.window (512 * lba.toNat)) idx).word 5 = entry.fType := by
  rw [Bytes.word_congr holds (by decide)]
  exact congrArg DirEntry.fType (DirEntry.ofBytes_bytes entry)

/-- The sector at `lba` is the same on both disks. -/
def KeepsSector (disk disk' : Bytes) (lba : UInt32) : Prop :=
  Bytes.SameHead 512 (disk'.window (512 * lba.toNat)) (disk.window (512 * lba.toNat))

theorem keepsSector_splice {disk source : Bytes} {lba : UInt32} {sec offset length : Nat}
    (different : lba.toNat ≠ sec) (inSector : offset + length ≤ 512) :
    KeepsSector disk (disk.splice (512 * sec + offset) length source) lba :=
  Bytes.window_splice_apart (by omega)

theorem KeepsSector.trans {disk disk' disk'' : Bytes} {lba : UInt32}
    (first : KeepsSector disk disk' lba) (second : KeepsSector disk' disk'' lba) :
    KeepsSector disk disk'' lba :=
  Bytes.SameHead.trans second first

theorem KeepsSector.slot {disk disk' : Bytes} {lba : UInt32} {idx : Nat} (small : idx < 21)
    (kept : KeepsSector disk disk' lba) :
    Bytes.SameHead dirEntrySize (slot (disk'.window (512 * lba.toNat)) idx)
      (slot (disk.window (512 * lba.toNat)) idx) := by
  intro a inside
  simp only [dirEntrySize] at inside
  exact kept (dirEntrySize * idx + a) (by simp only [dirEntrySize]; omega)

theorem SlotHolds.kept {disk disk' : Bytes} {lba : UInt32} {idx : Nat} {entry : DirEntry}
    (holds : SlotHolds disk lba idx entry) (small : idx < 21)
    (kept : KeepsSector disk disk' lba) : SlotHolds disk' lba idx entry :=
  (kept.slot small).trans holds

theorem SlotFree.congr {disk disk' : Bytes} {lba : UInt32} {idx : Nat}
    (free : SlotFree disk lba idx)
    (same : Bytes.SameHead dirEntrySize (slot (disk'.window (512 * lba.toNat)) idx)
      (slot (disk.window (512 * lba.toNat)) idx)) : SlotFree disk' lba idx := by
  rw [SlotFree, Bytes.word_congr same (by decide)]
  exact free

theorem searchBlock_eq_some {buf : Bytes} {name : CString} {left start idx : Nat}
    (low : start ≤ idx) (high : idx < start + left)
    (before : ∀ i, start ≤ i → i < idx → strcmp (slot buf i) name ≠ 0)
    (here : strcmp (slot buf idx) name = 0) :
    searchBlock buf name left start = some (DirEntry.ofBytes (slot buf idx)) := by
  induction left generalizing start with
  | zero => omega
  | succ left inductionHypothesis =>
      rw [searchBlock]
      rcases Nat.eq_or_lt_of_le low with rfl | later
      · rw [if_pos here]
      · rw [if_neg (before start (le_refl _) later)]
        exact inductionHypothesis later (by omega) fun i above below => before i (by omega) below

theorem searchBlock_eq_none {buf : Bytes} {name : CString} {left start : Nat}
    (all : ∀ i, start ≤ i → i < start + left → strcmp (slot buf i) name ≠ 0) :
    searchBlock buf name left start = none := by
  induction left generalizing start with
  | zero => rfl
  | succ left inductionHypothesis =>
      rw [searchBlock, if_neg (all start (le_refl _) (by omega))]
      exact inductionHypothesis fun i above below => all i (by omega) (by omega)

theorem searchBlock_some_slot {buf : Bytes} {name : CString} {left start : Nat}
    {found : DirEntry} (ran : searchBlock buf name left start = some found) :
    ∃ idx, start ≤ idx ∧ idx < start + left ∧ strcmp (slot buf idx) name = 0 ∧
      found = DirEntry.ofBytes (slot buf idx) := by
  induction left generalizing start with
  | zero => cases ran
  | succ left inductionHypothesis =>
      rw [searchBlock] at ran
      split at ran
      next here =>
        exact ⟨start, le_refl _, by omega, here, (Option.some.inj ran).symm⟩
      next =>
        obtain ⟨idx, low, high, here, same⟩ := inductionHypothesis ran
        exact ⟨idx, by omega, by omega, here, same⟩

section Blocks

variable {disk : Bytes} {allBlock : Nat → UInt32} {name : CString} {cnt : Nat}

theorem searchBlocks_skip {left start target : Nat} (low : start ≤ target)
    (high : target ≤ start + left) (buf : Bytes)
    (before : ∀ i, start ≤ i → i < target → allBlock i = 0 ∨ (allBlock i).toNat ≤ maxLba ∧
      ∀ buf, searchBlock (readInto buf disk (allBlock i)) name cnt 0 = none) :
    ∃ buf', searchBlocks disk allBlock name cnt left start buf =
      searchBlocks disk allBlock name cnt (start + left - target) target buf' := by
  induction left generalizing start buf with
  | zero =>
      obtain rfl : start = target := by omega
      exact ⟨buf, by rw [Nat.add_zero, Nat.sub_self]⟩
  | succ left inductionHypothesis =>
      rcases Nat.eq_or_lt_of_le low with rfl | later
      · exact ⟨buf, by rw [Nat.add_sub_cancel_left]⟩
      · have rest := fun i (above : start + 1 ≤ i) => before i (by omega)
        have shift : start + (left + 1) - target = start + 1 + left - target := by omega
        rw [shift]
        rcases before start (le_refl _) later with empty | ⟨addressed, absent⟩
        · obtain ⟨buf', ran⟩ := inductionHypothesis later (by omega) buf rest
          exact ⟨buf', by rw [searchBlocks, if_pos empty, ran]⟩
        · by_cases empty : allBlock start = 0
          · obtain ⟨buf', ran⟩ := inductionHypothesis later (by omega) buf rest
            exact ⟨buf', by rw [searchBlocks, if_pos empty, ran]⟩
          · obtain ⟨buf', ran⟩ := inductionHypothesis later (by omega)
              ((readInto buf disk (allBlock start)).splice 0 512 (Bytes.fill 0)) rest
            refine ⟨buf', ?_⟩
            rw [searchBlocks, if_neg empty, ideRead_eq addressed (by decide), ok_bind]
            simp only [readInto] at absent ran
            rw [absent buf]
            exact ran

theorem searchBlocks_eq_some {left start target : Nat} {found : DirEntry}
    (low : start ≤ target) (high : target < start + left) (buf : Bytes)
    (before : ∀ i, start ≤ i → i < target → allBlock i = 0 ∨ (allBlock i).toNat ≤ maxLba ∧
      ∀ buf, searchBlock (readInto buf disk (allBlock i)) name cnt 0 = none)
    (nonzero : allBlock target ≠ 0) (addressed : (allBlock target).toNat ≤ maxLba)
    (here : ∀ buf, searchBlock (readInto buf disk (allBlock target)) name cnt 0 = some found) :
    searchBlocks disk allBlock name cnt left start buf = .ok (some found) := by
  obtain ⟨buf', ran⟩ := searchBlocks_skip low (by omega : target ≤ start + left) buf before
  obtain ⟨rest, split⟩ : ∃ rest, start + left - target = rest + 1 :=
    ⟨start + left - target - 1, by omega⟩
  rw [ran, split, searchBlocks, if_neg nonzero, ideRead_eq addressed (by decide), ok_bind]
  simp only [readInto] at here
  rw [here buf']
  rfl

end Blocks

section NewBlock

variable {full : FullScan} {part part' : Partition} {inode : Inode} {entry : DirEntry}

/-- A block that holds one entry and nothing else. -/
def newBlockImage (entry : DirEntry) (ioBuf : Bytes) : Bytes :=
  (ioBuf.splice 0 512 (Bytes.fill 0)).splice 0 dirEntrySize entry.bytes

/-- The indirect table with one pointer. -/
def newTableImage (lba : UInt32) : Bytes := Bytes.ofWords fun k => if k = 0 then lba else 0

theorem newBlockImage_holds (disk : Bytes) (lba : UInt32) (entry : DirEntry) (ioBuf : Bytes) :
    SlotHolds (disk.splice (512 * lba.toNat) 512 (newBlockImage entry ioBuf)) lba 0 entry := by
  intro a inside
  simp only [dirEntrySize] at inside
  simp only [slot, Bytes.window_apply, Nat.mul_zero, Nat.zero_add]
  rw [Bytes.splice_add (by omega), newBlockImage,
    Bytes.splice_inside (Nat.zero_le a) (by simp only [dirEntrySize]; omega), Nat.sub_zero]

theorem newBlockImage_blank (disk : Bytes) (lba : UInt32) (entry : DirEntry) (ioBuf : Bytes)
    {idx : Nat} (notFirst : 0 < idx) (small : idx < 21) :
    SlotBlank (disk.splice (512 * lba.toNat) 512 (newBlockImage entry ioBuf)) lba idx := by
  intro a inside
  simp only [dirEntrySize] at inside
  simp only [slot, Bytes.window_apply, dirEntrySize]
  rw [Bytes.splice_add (by omega), newBlockImage,
    Bytes.splice_outside (by simp only [dirEntrySize]; omega),
    Bytes.splice_inside (Nat.zero_le _) (by omega), Bytes.fill_apply, Bytes.fill_apply]

theorem writeNewBlock_eq {lba : UInt32} (addressed : lba.toNat ≤ maxLba) (ioBuf : Bytes) :
    writeNewBlock part inode entry lba ioBuf =
      .ok (true, inode.grow part.sb.dirEntrySize,
        part.setDisk (part.myDisk.splice (512 * lba.toNat) 512 (newBlockImage entry ioBuf))) := by
  rw [writeNewBlock, ideWrite_eq addressed (by decide)]
  rfl

theorem syncTaken_eq (mounted : part.Mounted) {bitIdx : Nat}
    (inMap : bitIdx < part.blockBitmap.bitLen) :
    syncTaken (part.setBlockBitmap (part.blockBitmap.put bitIdx true))
      (part.sb.dataStartLba + UInt32.ofNat bitIdx) = .ok (takeBlock part bitIdx) := by
  have index := mounted.lba_sub_toNat inMap
  have before := mounted.bitmap_before_data inMap
  have onDisk := mounted.onDisk
  have notMinusOne : part.sb.dataStartLba + UInt32.ofNat bitIdx - part.sb.dataStartLba ≠
      0xffffffff := by
    intro same
    have mapLen := mounted.blockBitmapLen
    have blockBitmapSects := mounted.inodeBitmapLba
    rw [same] at index
    simp only [maxLba, Bitmap.bitLen, UInt32.reduceToNat] at *
    omega
  have inMap' : (part.sb.dataStartLba + UInt32.ofNat bitIdx - part.sb.dataStartLba).toNat <
      (part.setBlockBitmap (part.blockBitmap.put bitIdx true)).blockBitmap.bitLen := by
    rw [index]
    exact inMap
  have synced := bitmapSync_block_eq
    (mounted.setBlockBitmap (Bitmap.put_btmpBytesLen bitIdx true)) inMap'
  rw [index] at synced
  simp only [syncTaken, Partition.setBlockBitmap_sb, notMinusOne, ne_eq, not_false_eq_true,
    decide_true, check_true, ok_bind]
  exact synced

end NewBlock

end HongbaiOS.Fs
