import HongbaiOS.Fs.Dir

/-!
# One insertion into a directory

The first pointer that `sync_dir_entry` looks at is number 12, and its own array
has 0 there.  So every call takes two free blocks, one for an indirect table and
one for the entry, and the table that the directory had is forgotten.
-/

namespace HongbaiOS.Fs

open HongbaiOS.Library HongbaiOS.Kernel HongbaiOS.Device HongbaiOS.Lib

/-- The two blocks that an insertion takes: the first free one for the table, the
next one for the entry.  The driver reaches both. -/
structure TakesTwo (part : Partition) (tableIdx bitIdx : Nat) : Prop where
  table : part.blockBitmap.LowestFree tableIdx
  block : (part.blockBitmap.put tableIdx true).LowestFree bitIdx
  addressed : (part.sb.dataStartLba + UInt32.ofNat bitIdx).toNat ≤ maxLba

/-- The disk after the table and the block behind it have been written. -/
def indirectDisk (part : Partition) (tableIdx bitIdx : Nat) (entry : DirEntry)
    (ioBuf : Bytes) : Bytes :=
  ((takeBlock (takeBlock part tableIdx) bitIdx).myDisk.splice
    (512 * (part.sb.dataStartLba + UInt32.ofNat tableIdx).toNat) 512
    (newTableImage (part.sb.dataStartLba + UInt32.ofNat bitIdx))).splice
    (512 * (part.sb.dataStartLba + UInt32.ofNat bitIdx).toNat) 512 (newBlockImage entry ioBuf)

def indirectPart (part : Partition) (tableIdx bitIdx : Nat) (entry : DirEntry)
    (ioBuf : Bytes) : Partition :=
  (takeBlock (takeBlock part tableIdx) bitIdx).setDisk
    (indirectDisk part tableIdx bitIdx entry ioBuf)

/-- The directory's inode after an insertion. -/
def indirectInode (part : Partition) (inode : Inode) (tableIdx : Nat) : Inode :=
  (inode.setSector 12 (part.sb.dataStartLba + UInt32.ofNat tableIdx)).grow part.sb.dirEntrySize

/-- What `sync_dir_entry` has done when it returns: the result, the directory's inode and
the partition. -/
inductive SyncDone (part : Partition) (inode : Inode) (entry : DirEntry) :
    Bool → Inode → Partition → Prop where
  | newTable {tableIdx bitIdx : Nat} {ioBuf : Bytes} (two : TakesTwo part tableIdx bitIdx) :
      SyncDone part inode entry true (indirectInode part inode tableIdx)
        (indirectPart part tableIdx bitIdx entry ioBuf)
  /-- No block was left. -/
  | refused (isFull : part.blockBitmap.freeCount = 0) : SyncDone part inode entry false inode part
  /-- One block was left. -/
  | halfway {tableIdx : Nat} (table : part.blockBitmap.LowestFree tableIdx)
      (last : part.blockBitmap.freeCount = 1) :
      SyncDone part inode entry false (inode.setSector 12 0)
        (part.setDisk (takeBlock part tableIdx).myDisk)

section Values

variable {part : Partition} {inode : Inode} {entry : DirEntry} {ioBuf : Bytes}
  {tableIdx bitIdx : Nat}

theorem indirectPart_mounted (mounted : part.Mounted) (tableIdx bitIdx : Nat) (entry : DirEntry)
    (ioBuf : Bytes) : (indirectPart part tableIdx bitIdx entry ioBuf).Mounted :=
  (takeBlock_mounted (takeBlock_mounted mounted)).setDisk _

@[simp]
theorem indirectInode_iSectors_table (part : Partition) (inode : Inode) (tableIdx : Nat) :
    (indirectInode part inode tableIdx).iSectors 12 =
      part.sb.dataStartLba + UInt32.ofNat tableIdx := by
  rw [indirectInode, Inode.grow_iSectors, Inode.setSector_iSectors, Function.update_self]

theorem indirectInode_iSectors_direct (part : Partition) (inode : Inode) (tableIdx : Nat)
    {k : Fin 13} (direct : k.val < 12) :
    (indirectInode part inode tableIdx).iSectors k = inode.iSectors k := by
  rw [indirectInode, Inode.grow_iSectors, Inode.setSector_iSectors]
  refine Function.update_of_ne (fun same => ?_) _ _
  exact absurd (congrArg Fin.val same) (Nat.ne_of_lt direct)

namespace TakesTwo

theorem inMap (two : TakesTwo part tableIdx bitIdx) : bitIdx < part.blockBitmap.bitLen :=
  two.block.inside

/-- The second block is another one, and was free from the start. -/
theorem next (two : TakesTwo part tableIdx bitIdx) :
    tableIdx < bitIdx ∧ part.blockBitmap.bit bitIdx = false :=
  two.table.next two.block

theorem lba_toNat (two : TakesTwo part tableIdx bitIdx) (mounted : part.Mounted) :
    (part.sb.dataStartLba + UInt32.ofNat tableIdx).toNat =
        part.sb.dataStartLba.toNat + tableIdx ∧
      (part.sb.dataStartLba + UInt32.ofNat bitIdx).toNat = part.sb.dataStartLba.toNat + bitIdx :=
  ⟨mounted.lba_toNat two.table.inside, mounted.lba_toNat two.inMap⟩

theorem freeCount_ne_one (two : TakesTwo part tableIdx bitIdx) :
    part.blockBitmap.freeCount ≠ 1 := by
  have left := Bitmap.freeCount_put_true two.table.inside two.table.free
  have second := Bitmap.freeCount_put_true two.block.inside two.block.free
  omega

theorem tableAddressed (two : TakesTwo part tableIdx bitIdx) (mounted : part.Mounted) :
    (part.sb.dataStartLba + UInt32.ofNat tableIdx).toNat ≤ maxLba := by
  have next := two.next.1
  have addressed := two.addressed
  obtain ⟨tableLba, lba⟩ := two.lba_toNat mounted
  omega

theorem indirectDisk_table (two : TakesTwo part tableIdx bitIdx) (mounted : part.Mounted)
    (entry : DirEntry) (ioBuf : Bytes) {k : Nat} (small : k < 128) :
    ((indirectDisk part tableIdx bitIdx entry ioBuf).window
      (512 * (part.sb.dataStartLba + UInt32.ofNat tableIdx).toNat)).word k =
        if k = 0 then part.sb.dataStartLba + UInt32.ofNat bitIdx else 0 := by
  have next := two.next.1
  obtain ⟨tableLba, lba⟩ := two.lba_toNat mounted
  have image : Bytes.SameHead 512 ((indirectDisk part tableIdx bitIdx entry ioBuf).window
      (512 * (part.sb.dataStartLba + UInt32.ofNat tableIdx).toNat))
      (newTableImage (part.sb.dataStartLba + UInt32.ofNat bitIdx)) :=
    Bytes.SameHead.trans (keepsSector_splice (by omega) (by decide : 0 + 512 ≤ 512))
      (Bytes.window_splice_same (le_refl _))
  rw [Bytes.word_congr image (by omega), newTableImage, Bytes.word_ofWords]

theorem keeps_indirectDisk (two : TakesTwo part tableIdx bitIdx) (mounted : part.Mounted)
    (entry : DirEntry) (ioBuf : Bytes) {lba : UInt32}
    (inData : part.sb.dataStartLba.toNat ≤ lba.toNat)
    (notTable : lba.toNat ≠ part.sb.dataStartLba.toNat + tableIdx)
    (notBlock : lba.toNat ≠ part.sb.dataStartLba.toNat + bitIdx) :
    KeepsSector part.myDisk (indirectDisk part tableIdx bitIdx entry ioBuf) lba := by
  have before := mounted.bitmap_before_data two.inMap
  obtain ⟨tableLba, isLba⟩ := two.lba_toNat mounted
  have taken : KeepsSector part.myDisk (takeBlock (takeBlock part tableIdx) bitIdx).myDisk lba := by
    intro a _
    rw [Bytes.window_apply, takeBlock_myDisk_of_data (takeBlock_mounted mounted) two.inMap
      (by rw [takeBlock_sb]; omega), takeBlock_myDisk_of_data mounted two.table.inside (by omega)]
    rfl
  exact (taken.trans (keepsSector_splice (by omega) (by decide : 0 + 512 ≤ 512))).trans
    (keepsSector_splice (by omega) (by decide : 0 + 512 ≤ 512))

end TakesTwo

end Values

section Sync

variable {full : FullScan} {part part' : Partition} {inode inode' : Inode} {entry : DirEntry}
  {ioBuf : Bytes} {ok : Bool} {tableIdx bitIdx : Nat}

theorem Partition.Mounted.entriesPerBlock (mounted : part.Mounted) :
    (512 / part.sb.dirEntrySize).toNat = 21 := by
  rw [mounted.dirEntrySize]
  rfl

theorem directBlocks_twelve (inode : Inode) : inode.directBlocks (fun _ => 0) 12 = 0 := rfl

theorem syncDirEntry_eq (size : inode.iSize % part.sb.dirEntrySize = 0) (full : FullScan)
    (entry : DirEntry) (ioBuf : Bytes) : syncDirEntry full part inode entry ioBuf =
      syncNewBlock full part inode entry (inode.directBlocks fun _ => 0) 12 ioBuf := by
  rw [syncDirEntry, decide_eq_true size, check_true, ok_bind, syncBlocks,
    if_pos (directBlocks_twelve inode)]

/-- The table as it is written: one pointer, and nothing of the array behind it. -/
theorem ofWords_newTable (inode : Inode) (lba : UInt32) :
    (Bytes.ofWords fun k => Function.update (inode.directBlocks fun _ => 0) 12 lba (k + 12)) =
      newTableImage lba := by
  unfold newTableImage
  congr 1
  funext k
  by_cases first : k = 0
  · simp [first]
  · simp [first, Inode.directBlocks, Function.update]

theorem syncDirEntry_of_two (mounted : part.Mounted) (two : TakesTwo part tableIdx bitIdx)
    (size : inode.iSize % part.sb.dirEntrySize = 0) (full : FullScan) (entry : DirEntry)
    (ioBuf : Bytes) : syncDirEntry full part inode entry ioBuf =
      .ok (true, indirectInode part inode tableIdx,
        indirectPart part tableIdx bitIdx entry ioBuf) := by
  have addressed := two.tableAddressed mounted
  have second : blockBitmapAlloc full (takeBlock part tableIdx) =
      .ok (some (part.sb.dataStartLba + UInt32.ofNat bitIdx), (takeBlock part
        tableIdx).setBlockBitmap ((takeBlock part tableIdx).blockBitmap.put bitIdx true)) :=
    blockBitmapAlloc_eq full two.block
  have synced : syncTaken ((takeBlock part tableIdx).setBlockBitmap
      ((takeBlock part tableIdx).blockBitmap.put bitIdx true))
      (part.sb.dataStartLba + UInt32.ofNat bitIdx) =
        .ok (takeBlock (takeBlock part tableIdx) bitIdx) :=
    syncTaken_eq (takeBlock_mounted mounted) two.block.inside
  rw [syncDirEntry_eq size, syncNewBlock, blockBitmapAlloc_eq full two.table]
  simp only [ok_bind, syncTaken_eq mounted two.table.inside, lt_irrefl, dif_neg, not_false_eq_true,
    if_true, second, synced, Inode.setSector_iSectors, Function.update_self,
    ideWrite_eq addressed (by decide : (1 : UInt8) > 0), writeNewBlock_eq two.addressed,
    ofWords_newTable]
  rfl

theorem syncDirEntry_of_full (isFull : part.blockBitmap.freeCount = 0)
    (size : inode.iSize % part.sb.dirEntrySize = 0) (entry : DirEntry) (ioBuf : Bytes) :
    syncDirEntry .returnsMinusOne part inode entry ioBuf = .ok (false, inode, part) := by
  rw [syncDirEntry_eq size, syncNewBlock, blockBitmapAlloc_of_full isFull]
  rfl

theorem syncDirEntry_of_one (mounted : part.Mounted) (table : part.blockBitmap.LowestFree tableIdx)
    (last : part.blockBitmap.freeCount = 1) (size : inode.iSize % part.sb.dirEntrySize = 0)
    (entry : DirEntry) (ioBuf : Bytes) :
    syncDirEntry .returnsMinusOne part inode entry ioBuf =
      .ok (false, inode.setSector 12 0, part.setDisk (takeBlock part tableIdx).myDisk) := by
  have left := Bitmap.freeCount_put_true table.inside table.free
  have none : (takeBlock part tableIdx).blockBitmap.freeCount = 0 := by
    rw [takeBlock_blockBitmap]
    omega
  have sectors : (inode.setSector 12 (part.sb.dataStartLba + UInt32.ofNat tableIdx)).setSector
      12 0 = inode.setSector 12 0 := by
    simp only [Inode.setSector, Function.update_idem]
  rw [syncDirEntry_eq size, syncNewBlock, blockBitmapAlloc_eq _ table]
  simp only [ok_bind, syncTaken_eq mounted table.inside, lt_irrefl, dif_neg, not_false_eq_true,
    if_true, blockBitmapAlloc_of_full none, Inode.setSector_iSectors, Function.update_self,
    takeBlock_sb, mounted.lba_sub_toNat table.inside]
  rw [takeBlock_blockBitmap, bitmapSet_put_cancel table.inside table.free, ok_bind, sectors]
  rfl

theorem blockBitmapAlloc_none {taken : Partition}
    (refused : blockBitmapAlloc full part = .ok (none, taken)) :
    part.blockBitmap.freeCount = 0 ∧ taken = part := by
  obtain ⟨-, all, same⟩ := blockBitmapAlloc_eq_none refused
  exact ⟨Bitmap.freeCount_eq_zero_iff.mpr all, same⟩

theorem blockBitmapAlloc_some {lba : UInt32} {taken : Partition}
    (allocated : blockBitmapAlloc full part = .ok (some lba, taken)) :
    ∃ bitIdx, part.blockBitmap.LowestFree bitIdx ∧
      lba = part.sb.dataStartLba + UInt32.ofNat bitIdx ∧
      taken = part.setBlockBitmap (part.blockBitmap.put bitIdx true) := by
  obtain ⟨found, inMap, free, -, -⟩ := blockBitmapAlloc_eq_some allocated
  have some : 0 < part.blockBitmap.freeCount :=
    Finset.card_pos.mpr ⟨found, Bitmap.mem_freeBits.mpr ⟨inMap, free⟩⟩
  obtain ⟨bitIdx, lowest⟩ := Bitmap.exists_lowestFree some
  rw [blockBitmapAlloc_eq full lowest] at allocated
  simp only [Except.ok.injEq, Prod.mk.injEq, Option.some.injEq] at allocated
  exact ⟨bitIdx, lowest, allocated.1.symm, allocated.2.symm⟩

theorem syncDirEntry_done (mounted : part.Mounted)
    (ran : syncDirEntry full part inode entry ioBuf = .ok (ok, inode', part')) :
    SyncDone part inode entry ok inode' part' := by
  have size : inode.iSize % part.sb.dirEntrySize = 0 := by
    obtain ⟨_, passed, -⟩ := except_bind_eq_ok.mp ran
    exact of_decide_eq_true (check_eq_ok.mp passed)
  have returned := ran
  rw [syncDirEntry_eq size] at ran
  obtain ⟨⟨allocated, taken⟩, first, rest⟩ := except_bind_eq_ok.mp ran
  cases allocated with
  | none =>
      obtain ⟨isFull, rfl⟩ := blockBitmapAlloc_none first
      cases rest
      exact .refused isFull
  | some lba =>
      obtain ⟨tableIdx, table, rfl, rfl⟩ := blockBitmapAlloc_some first
      simp only [syncTaken_eq mounted table.inside, ok_bind, lt_irrefl, dif_neg, not_false_eq_true,
        if_true] at rest
      obtain ⟨⟨allocated, taken⟩, second, rest⟩ := except_bind_eq_ok.mp rest
      cases allocated with
      | none =>
          obtain ⟨rfl, -, -⟩ := blockBitmapAlloc_eq_none second
          have left := Bitmap.freeCount_put_true table.inside table.free
          have none := (blockBitmapAlloc_none second).1
          rw [takeBlock_blockBitmap] at none
          have last : part.blockBitmap.freeCount = 1 := by omega
          cases (syncDirEntry_of_one mounted table last size entry ioBuf).symm.trans returned
          exact .halfway table last
      | some lba =>
          obtain ⟨bitIdx, block, rfl, rfl⟩ := blockBitmapAlloc_some second
          obtain ⟨_, -, rest⟩ := except_bind_eq_ok.mp rest
          obtain ⟨_, -, rest⟩ := except_bind_eq_ok.mp rest
          obtain ⟨_, wrote, -⟩ := except_bind_eq_ok.mp rest
          have two : TakesTwo part tableIdx bitIdx := ⟨table, block, (ideWrite_eq_ok.mp wrote).1⟩
          cases (syncDirEntry_of_two mounted two size full entry ioBuf).symm.trans returned
          exact .newTable two

theorem SyncDone.mounted (done : SyncDone part inode entry ok inode' part')
    (mounted : part.Mounted) : part'.Mounted ∧ part'.sb = part.sb ∧
      part'.inodeBitmap = part.inodeBitmap ∧ part'.openInodes = part.openInodes := by
  cases done with
  | newTable two => exact ⟨indirectPart_mounted mounted _ _ _ _, rfl, rfl, rfl⟩
  | refused => exact ⟨mounted, rfl, rfl, rfl⟩
  | halfway => exact ⟨mounted.setDisk _, rfl, rfl, rfl⟩

end Sync

end HongbaiOS.Fs
