import HongbaiOS.Fs.Mount
import HongbaiOS.Fs.CreateCases

/-!
# Sequences of creating calls

Calls of `file_create` and `sync_dir_entry` in any order on one partition, and what they do
to the copies of the two bitmaps on the disk.
-/

namespace HongbaiOS.Fs

open HongbaiOS.Library HongbaiOS.Kernel HongbaiOS.Device HongbaiOS.Lib

inductive FsCall where
  /-- `sync_dir_entry(parent_dir, p_de, io_buf)` -/
  | syncDirEntry (parent : Address) (entry : DirEntry) (ioBuf : Bytes)
  /-- `file_create(parent_dir, filename, flag)` called by `task`; the last three say what
  `sys_malloc` gives. -/
  | fileCreate (task : FileTask) (parent : Address) (filename : CString)
      (ioBuf newFileInode : Option Address) (buf : Bytes)

namespace FsCall

/-- The address of the inode of the directory. -/
def parent : FsCall → Address
  | syncDirEntry parent _ _ => parent
  | fileCreate _ parent _ _ _ _ => parent

def newInode : FsCall → Option Address
  | syncDirEntry .. => none
  | fileCreate _ _ _ _ newFileInode _ => newFileInode

/-- The directory is open, and `sys_malloc` does not give away the memory of an open
inode. -/
def Sound (call : FsCall) (fs : FileSystem) : Prop :=
  call.parent ∈ fs.curPart.openInodes ∧ ∀ q ∈ call.newInode, q ∉ fs.curPart.openInodes

instance (call : FsCall) (fs : FileSystem) : Decidable (call.Sound fs) :=
  inferInstanceAs (Decidable (_ ∧ ∀ q ∈ call.newInode, q ∉ fs.curPart.openInodes))

end FsCall

def fsStep (full : FullScan) (fs : FileSystem) (call : FsCall) : Except Halt FileSystem :=
  if call.Sound fs then
    match call with
    | .syncDirEntry parent entry ioBuf => do
        let (_, dirInode, part) ← syncDirEntry full fs.curPart (fs.inodeAt parent) entry ioBuf
        return (fs.setPart part).setInode parent dirInode
    | .fileCreate task parent filename ioBuf newFileInode buf => do
        let (_, fs, _) ← fileCreate full task parent filename ioBuf newFileInode buf fs
        return fs
  else .error .disabled

/-- The block bitmap on the disk is the one in memory. -/
def BlockMapSynced (part : Partition) : Prop :=
  Bytes.SameHead (512 * part.sb.blockBitmapSects.toNat)
    (part.myDisk.window (512 * part.sb.blockBitmapLba.toNat)) part.blockBitmap.btmpBits

/-- The inode bitmap on the disk is `btmp`. -/
def InodeMapSynced (part : Partition) (btmp : Bitmap) : Prop :=
  Bytes.SameHead (512 * part.sb.inodeBitmapSects.toNat)
    (part.myDisk.window (512 * part.sb.inodeBitmapLba.toNat)) btmp.btmpBits

/-- A remount sees the same free blocks and inodes. -/
structure Partition.BitmapsSynced (part : Partition) : Prop where
  blockMap : BlockMapSynced part
  inodeMap : InodeMapSynced part part.inodeBitmap

/-- The call gets to `sync_dir_entry` with a single block free, which is one too few. -/
def FsCall.FailsHalfway (fs : FileSystem) : FsCall → Prop
  | .syncDirEntry .. => fs.curPart.blockBitmap.freeCount = 1
  | .fileCreate _ _ _ ioBuf newFileInode _ =>
      (∃ fdIdx, ReachesDir fs ioBuf newFileInode fdIdx) ∧ fs.curPart.blockBitmap.freeCount = 1

section Steps

variable {part part' : Partition} {inode inode' : Inode} {entry : DirEntry} {ok : Bool}

theorem SyncDone.keeps_between (done : SyncDone part inode entry ok inode' part')
    (mounted : part.Mounted) {a : Nat} (low : 512 * part.sb.inodeBitmapLba.toNat ≤ a)
    (high : a < 512 * part.sb.dataStartLba.toNat) : part'.myDisk a = part.myDisk a := by
  cases done with
  | newTable two =>
      obtain ⟨tableLba, lba⟩ := two.lba_toNat mounted
      rw [indirectPart, Partition.setDisk_myDisk, indirectDisk, tableLba, lba,
        Bytes.splice_outside (by omega), Bytes.splice_outside (by omega),
        takeBlock_myDisk_of_data (takeBlock_mounted mounted) two.inMap low]
      exact takeBlock_myDisk_of_data mounted two.table.inside low
  | refused => rfl
  | halfway table => exact takeBlock_myDisk_of_data mounted table.inside low

theorem btmpBits_put_of_ne {btmp : Bitmap} {i a : Nat} (value : Bool) (different : a ≠ i / 8) :
    (btmp.put i value).btmpBits a = btmp.btmpBits a :=
  Function.update_of_ne different _ _

theorem takeBlock_blockMapSynced (synced : BlockMapSynced part) {bitIdx : Nat}
    (mounted : part.Mounted) (inMap : bitIdx < part.blockBitmap.bitLen) :
    BlockMapSynced (takeBlock part bitIdx) := by
  intro a small
  have before := mounted.bitmap_before_data inMap
  simp only [takeBlock, Partition.setDisk_myDisk, Partition.setDisk_blockBitmap,
    Partition.setBlockBitmap_blockBitmap, Partition.setDisk_sb, Partition.setBlockBitmap_sb,
    Bytes.window_apply] at small ⊢
  by_cases inSector : 512 * (bitIdx / 4096) ≤ a ∧ a < 512 * (bitIdx / 4096) + 512
  · rw [Bytes.splice_inside (by omega) (by omega), Bytes.window_apply]
    congr 1
    omega
  · rw [Bytes.splice_outside (by omega)]
    have same := synced a small
    rw [Bytes.window_apply] at same
    exact same.trans (btmpBits_put_of_ne true (by omega)).symm

theorem BlockMapSynced.of_disk {disk : Bytes} (synced : BlockMapSynced part)
    (mounted : part.Mounted)
    (kept : ∀ a < 512 * part.sb.inodeBitmapLba.toNat, disk a = part.myDisk a) :
    BlockMapSynced (part.setDisk disk) := by
  intro a small
  have inodeBitmapLba := mounted.inodeBitmapLba
  refine Eq.trans ?_ (synced a small)
  simp only [Partition.setDisk_sb] at small
  exact kept _ (by simp only [Partition.setDisk_sb]; omega)

theorem SyncDone.not_one (done : SyncDone part inode entry true inode' part') :
    part.blockBitmap.freeCount ≠ 1 := by
  cases done with
  | newTable two => exact two.freeCount_ne_one

/-- The copy of the block bitmap is right after every outcome but the half-way one. -/
theorem SyncDone.blockMap_iff (done : SyncDone part inode entry ok inode' part')
    (mounted : part.Mounted) (synced : BlockMapSynced part) :
    BlockMapSynced part' ↔ part.blockBitmap.freeCount ≠ 1 := by
  cases done with
  | newTable two =>
      have inodeTableLba := mounted.inodeTableLba
      have dataStartLba := mounted.dataStartLba
      obtain ⟨tableLba, lba⟩ := two.lba_toNat mounted
      have taken := takeBlock_blockMapSynced
        (takeBlock_blockMapSynced synced mounted two.table.inside)
        (takeBlock_mounted mounted) two.inMap
      refine iff_of_true (taken.of_disk (takeBlock_mounted (takeBlock_mounted mounted))
        fun a low => ?_) two.freeCount_ne_one
      rw [takeBlock_sb, takeBlock_sb] at low
      rw [indirectDisk, Bytes.splice_outside (by omega), Bytes.splice_outside (by omega)]
  | refused isFull =>
      refine iff_of_true synced ?_
      rw [isFull]
      decide
  | halfway table last =>
      refine iff_of_false (fun wrong => ?_) fun notOne => notOne last
      -- the bit is set in the sector on the disk
      rename_i tableIdx
      have inMap := table.inside
      have inByte : tableIdx / 8 < 512 * part.sb.blockBitmapSects.toNat := by
        have mapLen := mounted.blockBitmapLen
        rw [Bitmap.bitLen] at inMap
        omega
      have onDisk := takeBlock_blockMapSynced synced mounted inMap (tableIdx / 8) inByte
      have inMemory := wrong (tableIdx / 8) inByte
      have sameByte : (part.blockBitmap.put tableIdx true).btmpBits (tableIdx / 8) =
          part.blockBitmap.btmpBits (tableIdx / 8) := onDisk.symm.trans inMemory
      have set := part.blockBitmap.bit_put_self tableIdx true
      rw [Bitmap.bit_eq_testBit, sameByte, ← Bitmap.bit_eq_testBit, table.free] at set
      cases set

end Steps

section Commit

variable {part : Partition} {iNo : Nat} (dirInode fileInode : Inode)

theorem inodeMapSector_toNat (mounted : part.Mounted) (inside : iNo < part.inodeBitmap.bitLen) :
    (part.sb.inodeBitmapLba + UInt32.ofNat iNo / 4096).toNat =
        part.sb.inodeBitmapLba.toNat + iNo / 4096 ∧
      (UInt32.ofNat iNo / 4096 * 512).toNat = 512 * (iNo / 4096) := by
  have onDisk := mounted.onDisk
  have mapLen := mounted.inodeBitmapLen
  have inodeBitmapLba := mounted.inodeBitmapLba
  have inodeTableLba := mounted.inodeTableLba
  have dataStartLba := mounted.dataStartLba
  simp only [maxLba, inodeTableSects, Bitmap.bitLen] at *
  simp only [UInt32.toNat_add, UInt32.toNat_mul, UInt32.toNat_div, UInt32.toNat_ofNat',
    UInt32.reduceToNat]
  omega

theorem commitPart_mounted (mounted : part.Mounted) :
    (commitPart part dirInode fileInode iNo).Mounted := mounted.setDisk _

/-- The block bitmap lies before everything that is written. -/
theorem commitPart_low (mounted : part.Mounted) (inside : iNo < part.inodeBitmap.bitLen) {a : Nat}
    (low : a < 512 * part.sb.inodeBitmapLba.toNat) :
    (commitPart part dirInode fileInode iNo).myDisk a = part.myDisk a := by
  have inodeTableLba := mounted.inodeTableLba
  have sector := (inodeMapSector_toNat mounted inside).1
  rw [commitPart, Partition.setDisk_myDisk, Bytes.splice_outside (by omega),
    Bytes.splice_outside (by simp only [Partition.inodeOffset]; omega),
    Bytes.splice_outside (by simp only [Partition.inodeOffset]; omega)]

theorem commitPart_inodeMap (mounted : part.Mounted) (inside : iNo < part.inodeBitmap.bitLen)
    {old : Bitmap} (synced : InodeMapSynced part old)
    (numbered : part.inodeBitmap = old.put iNo true) :
    InodeMapSynced (commitPart part dirInode fileInode iNo) part.inodeBitmap := by
  intro a small
  have inodeTableLba := mounted.inodeTableLba
  have sects := mounted.inodeBitmapSects
  obtain ⟨sector, offset⟩ := inodeMapSector_toNat mounted inside
  change a < 512 * part.sb.inodeBitmapSects.toNat at small
  rw [commitPart, Partition.setDisk_sb, Bytes.window_apply, Partition.setDisk_myDisk, sector,
    offset]
  by_cases first : iNo / 4096 = 0
  · rw [first, Bytes.splice_inside (by omega) (by omega), Bytes.window_apply]
    congr 1
    omega
  · rw [Bytes.splice_outside (by omega),
      Bytes.splice_outside (by simp only [Partition.inodeOffset]; omega),
      Bytes.splice_outside (by simp only [Partition.inodeOffset]; omega), numbered,
      btmpBits_put_of_ne true (by omega)]
    exact synced a small

end Commit

section Create

variable {full : FullScan} {fs fs' : FileSystem}

theorem InodeMapSynced.of_done {part part' : Partition} {inode inode' : Inode} {entry : DirEntry}
    {ok : Bool} {btmp : Bitmap} (synced : InodeMapSynced part btmp) (mounted : part.Mounted)
    (done : SyncDone part inode entry ok inode' part') : InodeMapSynced part' btmp := by
  intro a small
  obtain ⟨-, sameSb, -, -⟩ := done.mounted mounted
  have inodeTableLba := mounted.inodeTableLba
  have dataStartLba := mounted.dataStartLba
  have sects := mounted.inodeBitmapSects
  simp only [inodeTableSects] at dataStartLba
  rw [sameSb] at small ⊢
  refine Eq.trans ?_ (synced a small)
  exact done.keeps_between mounted (by omega) (by omega)

/-- What a call that returns leaves behind. -/
structure FileSystem.After (fs fs' : FileSystem) (halfway : Prop) : Prop where
  mounted : fs'.curPart.Mounted
  synced_iff : fs.curPart.BitmapsSynced → (fs'.curPart.BitmapsSynced ↔ ¬ halfway)

theorem CreateDone.after {task task' : FileTask} {parent : Address} {filename : CString}
    {ioBuf newFileInode : Option Address} {fd : Option Nat}
    (done : CreateDone task fs parent filename ioBuf newFileInode fd fs' task')
    (mounted : fs.curPart.Mounted) :
    fs.After fs' ((∃ fdIdx, ReachesDir fs ioBuf newFileInode fdIdx) ∧
      fs.curPart.blockBitmap.freeCount = 1) := by
  -- the partition in which the number is taken has the same block map and data area
  have numbered : ∀ iNo, (numberedPart fs.curPart iNo).Mounted := fun iNo =>
    mounted.setInodeBitmap rfl
  cases done with
  | early unreached samePart others =>
      refine ⟨by rwa [samePart], fun synced => ?_⟩
      rw [samePart]
      exact iff_of_true synced fun halfway => unreached _ halfway.1.choose_spec
  | refused reaches newInode inside free done samePart dir others =>
      obtain ⟨mounted', sameSb, sameMap, sameOpen⟩ := done.mounted (numbered _)
      rename_i q iNo fdIdx entry dirInode part'
      refine ⟨?_, fun synced => ?_⟩
      · rw [samePart]
        refine mounted'.setInodeBitmap ?_
        rw [sameMap]
        rfl
      · have blockMap := done.blockMap_iff (numbered _) synced.blockMap
        have before : InodeMapSynced (numberedPart fs.curPart iNo) fs.curPart.inodeBitmap :=
          synced.inodeMap
        have inodeMap := before.of_done (numbered _) done
        rw [samePart]
        exact ⟨fun after halfway => blockMap.mp after.blockMap halfway.2,
          fun notHalfway => ⟨blockMap.mpr fun one => notHalfway ⟨⟨fdIdx, reaches⟩, one⟩, inodeMap⟩⟩
  | committed reaches newInode inside free named done samePart dir file others table =>
      obtain ⟨mounted', sameSb, sameMap, sameOpen⟩ := done.mounted (numbered _)
      rename_i q iNo fdIdx entry dirInode part'
      have inside' : iNo < part'.inodeBitmap.bitLen := by
        rw [sameMap]
        exact inside
      refine ⟨?_, fun synced => ?_⟩
      · rw [samePart]
        exact (commitPart_mounted _ _ mounted').setOpenInodes _
      · have blockMap := done.blockMap_iff (numbered _) synced.blockMap
        have low : ∀ a < 512 * part'.sb.inodeBitmapLba.toNat,
            (commitPart part' dirInode (inodeInit (UInt32.ofNat iNo)) iNo).myDisk a =
              part'.myDisk a := fun a => commitPart_low _ _ mounted' inside'
        have before : InodeMapSynced (numberedPart fs.curPart iNo) fs.curPart.inodeBitmap :=
          synced.inodeMap
        have inodeMap : InodeMapSynced (commitPart part' dirInode (inodeInit (UInt32.ofNat iNo))
            iNo) part'.inodeBitmap :=
          commitPart_inodeMap _ _ mounted' inside' (before.of_done (numbered _) done) sameMap
        rw [samePart]
        refine iff_of_true ⟨?_, inodeMap⟩ fun halfway => done.not_one halfway.2
        exact (blockMap.mpr done.not_one).of_disk mounted' low

theorem SyncDone.after {parent : Address} {entry : DirEntry} {ok : Bool} {dirInode : Inode}
    {part : Partition} (done : SyncDone fs.curPart (fs.inodeAt parent) entry ok dirInode part)
    (mounted : fs.curPart.Mounted) : fs.After ((fs.setPart part).setInode parent dirInode)
      (fs.curPart.blockBitmap.freeCount = 1) := by
  obtain ⟨mounted', sameSb, sameMap, sameOpen⟩ := done.mounted mounted
  refine ⟨mounted', fun synced => ?_⟩
  have blockMap := done.blockMap_iff mounted synced.blockMap
  have inodeMap := synced.inodeMap.of_done mounted done
  rw [← sameMap] at inodeMap
  exact ⟨fun after => blockMap.mp after.blockMap,
    fun notOne => ⟨blockMap.mpr notOne, inodeMap⟩⟩

/-- One call keeps the partition mounted, and keeps the copies right unless it fails
half-way. -/
theorem fsStep_after (mounted : fs.curPart.Mounted) {call : FsCall}
    (ran : fsStep full fs call = .ok fs') : fs.After fs' (call.FailsHalfway fs) := by
  unfold fsStep at ran
  split at ran
  next sound =>
    obtain ⟨isOpen, fresh⟩ := sound
    cases call with
    | syncDirEntry parent entry ioBuf =>
        obtain ⟨⟨ok, dirInode, part⟩, synced, result⟩ := except_bind_eq_ok.mp ran
        rw [← Except.ok.inj result]
        exact (syncDirEntry_done mounted synced).after mounted
    | fileCreate task parent filename ioBuf newFileInode buf =>
        obtain ⟨⟨fd, after, task'⟩, created, result⟩ := except_bind_eq_ok.mp ran
        rw [← Except.ok.inj result]
        have apart : newFileInode ≠ some parent := fun same => fresh parent same isOpen
        exact (fileCreate_done mounted apart created).after mounted
  next => cases ran

end Create

section Mount

variable {startLba secCnt : UInt32} {disk blockBuf inodeBuf : Bytes} {part : Partition}

/-- Too small a partition gets a block bitmap without sectors. -/
theorem room_of_blockBitmapSects
    (some : (formatSuperBlock startLba secCnt).blockBitmapSects.toUInt8 > 0) :
    613 ≤ secCnt.toNat := by
  by_contra small
  have free : (freeSects secCnt).toNat = (2 ^ 32 - 611 + secCnt.toNat) % 2 ^ 32 := by
    rw [freeSects, UInt32.toNat_sub, usedSects_toNat]
  have bitLen : (blockBitmapBitLen secCnt).toNat = (2 ^ 32 -
      ((freeSects secCnt).toNat + 4095) % 2 ^ 32 / 4096 + (freeSects secCnt).toNat) % 2 ^ 32 := by
    rw [blockBitmapBitLen, UInt32.toNat_sub, divRoundUp_4096_toNat]
  have sects : (formatSuperBlock startLba secCnt).blockBitmapSects.toNat =
      ((blockBitmapBitLen secCnt).toNat + 4095) % 2 ^ 32 / 4096 := divRoundUp_4096_toNat _
  have none : (formatSuperBlock startLba secCnt).blockBitmapSects.toNat = 0 := by
    by_cases underflow : secCnt.toNat < 611
    · have freeNat : (freeSects secCnt).toNat = 2 ^ 32 - 611 + secCnt.toNat := by omega
      omega
    · have freeNat : (freeSects secCnt).toNat = secCnt.toNat - 611 := by omega
      have bitLenNat : (blockBitmapBitLen secCnt).toNat =
          secCnt.toNat - 611 - (secCnt.toNat - 611 + 4095) / 4096 := by omega
      omega
  have isZero : (formatSuperBlock startLba secCnt).blockBitmapSects = 0 := UInt32.toNat_inj.mp none
  rw [isZero] at some
  revert some
  decide

/-- A partition of the disk that the driver supports, after it has been mounted. -/
structure FreshlyMounted (startLba secCnt : UInt32) (part : Partition) : Prop where
  mounted : part.Mounted
  sb : part.sb = formatSuperBlock startLba secCnt
  laidOut : LaidOut startLba secCnt
  room : 613 ≤ secCnt.toNat
  reached : part.sb.dataStartLba.toNat + (blockBitmapBitLen secCnt).toNat ≤ maxLba + 1
  fewSects : part.sb.blockBitmapSects.toNat ≤ 41
  synced : part.BitmapsSynced

theorem freshlyMounted (written : foundSuperBlock startLba disk = formatSuperBlock startLba secCnt)
    (onDisk : startLba.toNat + secCnt.toNat ≤ maxLba + 1)
    (ran : mountPartition startLba secCnt disk blockBuf inodeBuf = .ok part) :
    FreshlyMounted startLba secCnt part := by
  have sameStart := mountPartition_startLba ran
  obtain ⟨found, sameDisk, some, blockMap, inodeMap⟩ := mountPartition_eq_ok ran
  rw [written] at found
  rw [found] at some
  have room := room_of_blockBitmapSects some
  simp only [maxLba] at onDisk
  have areas := laidOut room (by omega) some
  have bitLen := areas.bitLen
  have sects := areas.sects
  have dataStartLba := areas.dataStartLba
  have mounted : part.Mounted := by
    refine areas.mounted ?_ room (by omega) sameStart.1 sameStart.2 found ?_ ?_
    · simp only [maxLba]
      omega
    · rw [blockMap, found]
    · rw [inodeMap, found]
  have truncated : part.sb.blockBitmapSects.toUInt8.toNat = part.sb.blockBitmapSects.toNat := by
    rw [UInt32.toNat_toUInt8, found]
    omega
  have inodeSects : part.sb.inodeBitmapSects = 1 := by
    rw [found]
    change divRoundUp 4096 4096 = 1
    decide
  refine ⟨mounted, found, areas, room, ?_, ?_, ⟨fun a small => ?_, fun a small => ?_⟩⟩
  · rw [found]
    simp only [maxLba]
    omega
  · rw [found]
    omega
  · rw [blockMap, sameDisk]
    dsimp only
    rw [truncated, Bytes.splice_inside (Nat.zero_le a) (by omega), Nat.sub_zero]
  · rw [inodeSects] at small
    rw [inodeMap, sameDisk, inodeSects]
    dsimp only
    have one : (1 : UInt32).toUInt8.toNat = 1 := rfl
    rw [one, Bytes.splice_inside (Nat.zero_le a) (by simpa using small), Nat.sub_zero]

/-- In a run of creating calls on a mounted partition both maps on the disk stay those in
memory if and only if no call fails at its second block allocation. -/
theorem bitmaps_synced_iff {full : FullScan} {fs : FileSystem} {dirs : List Address}
    {calls : List FsCall} {states : List FileSystem}
    (written : foundSuperBlock startLba disk = formatSuperBlock startLba secCnt)
    (onDisk : startLba.toNat + secCnt.toNat ≤ maxLba + 1)
    (mounting : mountPartition startLba secCnt disk blockBuf inodeBuf = .ok part)
    (current : fs.curPart = part.setOpenInodes dirs)
    (ran : trace (fsStep full) fs calls = .ok states) :
    (∀ s ∈ fs :: states, s.curPart.BitmapsSynced) ↔
      ∀ p ∈ (fs :: states).zip calls, ¬ p.2.FailsHalfway p.1 := by
  have fresh := freshlyMounted written onDisk mounting
  have mounted : fs.curPart.Mounted := by
    rw [current]
    exact fresh.mounted.setOpenInodes dirs
  have synced : fs.curPart.BitmapsSynced := by
    rw [current]
    exact ⟨fresh.synced.blockMap, fresh.synced.inodeMap⟩
  have preserved : ∀ (s : FileSystem) call s', s.curPart.Mounted → s.curPart.BitmapsSynced →
      fsStep full s call = .ok s' → (s'.curPart.BitmapsSynced → s'.curPart.Mounted) ∧
        (s'.curPart.BitmapsSynced ↔ ¬ call.FailsHalfway s) := by
    intro s call s' mounted synced stepped
    have after := fsStep_after mounted stepped
    exact ⟨fun _ => after.mounted, after.synced_iff synced⟩
  exact forall_trace_iff preserved mounted synced ran

end Mount

/-- The block bitmap of `nearlyFullDisk`: all taken but for the clear bits of `left`, which
stands for blocks 48 to 55. -/
def nearlyFullMap (left : UInt8) : Bytes := Function.update (Bytes.fill 0xff) 6 left

/-- A formatted partition of 700 sectors on which hardly any block is left. -/
def nearlyFullDisk (left : UInt8) : Bytes :=
  (((Bytes.fill 0).splice (512 * 2049) 512
    (Bytes.ofWords ((formatSuperBlock 2048 700).words fun _ => 0))).splice (512 * 2050) 512
    (nearlyFullMap left)).splice (512 * 2051) 512 (Function.update (Bytes.fill 0) 0 1)

/-- The partition mounted, with its root directory open. -/
def nearlyFull (part : Partition) : FileSystem where
  curPart := part.setOpenInodes [0xc0100000]
  inodeAt := fun _ => rootInode (formatSuperBlock 2048 700)
  fileTable := fun _ => File.cleared
  kernelHeap := {0xc0100000}

def createInNearlyFull : FsCall :=
  .fileCreate ⟨none, fun _ => -1⟩ 0xc0100000 ⟨[97], by simp⟩ (some 0xc0101000)
    (some 0xc0102000) (Bytes.fill 0)

section NearlyFull

variable {left : UInt8} {part : Partition}

theorem nearlyFullDisk_found (left : UInt8) :
    foundSuperBlock 2048 (nearlyFullDisk left) = formatSuperBlock 2048 700 := by
  refine (SuperBlock.ofBytes_congr ?_).trans (SuperBlock.ofBytes_words _ fun _ => 0)
  intro a small
  have sector : ((2048 : UInt32) + 1).toNat = 2049 := by decide
  rw [sector, Bytes.window_apply, nearlyFullDisk, Bytes.splice_outside (by omega),
    Bytes.splice_outside (by omega)]
  exact Bytes.splice_add small

theorem nearlyFull_mounts (left : UInt8) : ∃ part,
    mountPartition 2048 700 (nearlyFullDisk left) (Bytes.fill 0) (Bytes.fill 0) = .ok part :=
  mountPartition_of_found (nearlyFullDisk_found left) (by decide) (by decide) _ _

theorem nearlyFull_layout : (formatSuperBlock 2048 700).blockBitmapSects = 1 ∧
    (formatSuperBlock 2048 700).blockBitmapLba.toNat = 2050 ∧
    (formatSuperBlock 2048 700).inodeBitmapLba.toNat = 2051 ∧
    (formatSuperBlock 2048 700).dataStartLba = 2660 := by decide

section Mounted

variable (ran : mountPartition 2048 700 (nearlyFullDisk left) (Bytes.fill 0) (Bytes.fill 0) =
  .ok part)

include ran

theorem nearlyFull_maps : part.myDisk = nearlyFullDisk left ∧
    part.sb = formatSuperBlock 2048 700 ∧
    (∀ i < 4096, part.blockBitmap.bit i =
      if i / 8 = 6 then left.toNat.testBit (i % 8) else true) ∧
    part.blockBitmap.bitLen = 4096 ∧ part.inodeBitmap.bitLen = 4096 ∧
    part.inodeBitmap.bit 1 = false := by
  obtain ⟨found, sameDisk, -, blockMap, inodeMap⟩ := mountPartition_eq_ok ran
  rw [nearlyFullDisk_found] at found
  obtain ⟨one, bitmapLba, inodeLba, -⟩ := nearlyFull_layout
  refine ⟨sameDisk, found, fun i small => ?_, ?_, ?_, ?_⟩
  · rw [blockMap, found, one, bit_of_read _ _ (by simpa using small) _ 512, bitmapLba,
      Bitmap.bit_eq_testBit]
    dsimp only
    rw [nearlyFullDisk, Bytes.window_apply, Bytes.splice_outside (by omega),
      Bytes.splice_add (by omega), nearlyFullMap, Function.update_apply]
    split
    next => rfl
    next =>
      rw [Bytes.fill_apply]
      exact (eq_ff_iff 0xff).mp rfl _ (Nat.mod_lt _ (by decide))
  · rw [blockMap, found, one]
    rfl
  · rw [inodeMap, found, one]
    rfl
  · have sects : (formatSuperBlock 2048 700).inodeBitmapSects = 1 := by decide
    rw [inodeMap, found, sects, bit_of_read _ _ (by decide) _ 512, inodeLba, Bitmap.bit_eq_testBit]
    dsimp only
    rw [nearlyFullDisk, Bytes.window_apply, Bytes.splice_add (by omega)]
    decide

/-- A file with the name `a` can be created as far as the directory entry. -/
theorem nearlyFull_ready :
    ReachesDir (nearlyFull part) (some 0xc0101000) (some 0xc0102000) 3 ∧
    FreshBlocks (nearlyFull part) 0xc0100000 (some 0xc0101000) (some 0xc0102000) ∧
    CreateReady (nearlyFull part) 0xc0100000 ⟨[97], by simp⟩ := by
  obtain ⟨-, sameSb, -, -, inodeLen, inodeFree⟩ := nearlyFull_maps ran
  have fresh := freshlyMounted (nearlyFullDisk_found left) (by decide) ran
  refine ⟨⟨by decide, Finset.card_pos.mpr ⟨1, Bitmap.mem_freeBits.mpr ⟨?_, inodeFree⟩⟩,
    by decide, rfl⟩, ⟨?_, ?_⟩, fresh.mounted.setOpenInodes _, ?_, ?_, by decide⟩
  · change 1 < part.inodeBitmap.bitLen
    rw [inodeLen]
    decide
  · rintro p ⟨rfl⟩
    exact (by decide : 0xc0101000 ∉ ({0xc0100000} : Finset Address))
  · rintro q ⟨rfl⟩
    refine ⟨(by decide : 0xc0102000 ∉ ({0xc0100000} : Finset Address)), by decide, ?_⟩
    rintro p ⟨rfl⟩
    decide
  · exact Nat.le_trans fresh.fewSects (by decide)
  · change (rootInode (formatSuperBlock 2048 700)).iSize % 24 = 0
    decide

omit ran in
theorem nearlyFull_trace {r : Option Nat × FileSystem × FileTask}
    (created : fileCreate .returnsMinusOne ⟨none, fun _ => -1⟩ 0xc0100000 ⟨[97], by simp⟩
      (some 0xc0101000) (some 0xc0102000) (Bytes.fill 0) (nearlyFull part) = .ok r) :
    trace (fsStep .returnsMinusOne) (nearlyFull part) [createInNearlyFull] = .ok [r.2.1] := by
  have sound : createInNearlyFull.Sound (nearlyFull part) := by
    refine ⟨List.mem_singleton.mpr rfl, ?_⟩
    rintro q ⟨rfl⟩
    exact fun inList => absurd (List.mem_singleton.mp inList) (by decide)
  refine trace_cons_eq_ok.mpr ⟨r.2.1, [], ?_, rfl, rfl⟩
  unfold fsStep
  rw [if_pos sound]
  simp only [createInNearlyFull, created, ok_bind, pure_eq_ok]

end Mounted

/-- With blocks 50 and 51 left the file is created, and both maps stay right. -/
theorem bitmaps_synced_iff_twoLeft : ∃ part after,
    mountPartition 2048 700 (nearlyFullDisk 0xf3) (Bytes.fill 0) (Bytes.fill 0) = .ok part ∧
    trace (fsStep .returnsMinusOne) (nearlyFull part) [createInNearlyFull] = .ok [after] ∧
    ∀ s ∈ [nearlyFull part, after], s.curPart.BitmapsSynced := by
  obtain ⟨part, mounting⟩ := nearlyFull_mounts 0xf3
  obtain ⟨-, sb, bits, len, -⟩ := nearlyFull_maps mounting
  have values : ∀ k < 8, (0xf3 : UInt8).toNat.testBit k = decide (k ≠ 2 ∧ k ≠ 3) := by decide
  have free : ∀ i < 4096, part.blockBitmap.bit i = decide (i ≠ 50 ∧ i ≠ 51) := by
    intro i small
    rw [bits i small]
    split
    next =>
      rw [values _ (Nat.mod_lt _ (by decide))]
      exact decide_eq_decide.mpr (by omega)
    next => exact (decide_eq_true (by omega)).symm
  have two : TakesTwo (nearlyFull part).curPart 50 51 := by
    refine ⟨⟨?_, free 50 (by decide), fun j earlier => ?_⟩, ⟨?_, ?_, fun j earlier => ?_⟩, ?_⟩
    · change 50 < part.blockBitmap.bitLen
      omega
    · exact (free j (by omega)).trans (decide_eq_true (by omega))
    · change 51 < part.blockBitmap.bitLen
      omega
    · rw [Bitmap.bit_put_of_ne (by decide)]
      exact free 51 (by decide)
    · rw [Bitmap.bit_put]
      split
      next => rfl
      next => exact (free j (by omega)).trans (decide_eq_true (by omega))
    · change (part.sb.dataStartLba + UInt32.ofNat 51).toNat ≤ maxLba
      rw [sb, nearlyFull_layout.2.2.2]
      decide
  obtain ⟨reaches, fresh, ready⟩ := nearlyFull_ready mounting
  obtain ⟨after, created, -⟩ := reaches.created fresh ready two ⟨none, fun _ => -1⟩ (Bytes.fill 0)
  have ran := nearlyFull_trace created
  refine ⟨part, after, mounting, ran, (bitmaps_synced_iff (nearlyFullDisk_found _) (by decide)
    mounting rfl ran).mpr fun p inRun => ?_⟩
  obtain rfl : p = (nearlyFull part, createInNearlyFull) := by simpa using inRun
  exact fun halfway => two.freeCount_ne_one halfway.2

/-- With block 50 left the maps agree before the call, and no longer after it has returned
-1. -/
theorem bitmap_unsynced_by_failure : ∃ part after,
    mountPartition 2048 700 (nearlyFullDisk 0xfb) (Bytes.fill 0) (Bytes.fill 0) = .ok part ∧
    trace (fsStep .returnsMinusOne) (nearlyFull part) [createInNearlyFull] = .ok [after] ∧
    (nearlyFull part).curPart.BitmapsSynced ∧ ¬ after.curPart.BitmapsSynced := by
  obtain ⟨part, mounting⟩ := nearlyFull_mounts 0xfb
  obtain ⟨-, -, bits, len, -⟩ := nearlyFull_maps mounting
  have values : ∀ k < 8, (0xfb : UInt8).toNat.testBit k = decide (k ≠ 2) := by decide
  have only : part.blockBitmap.freeBits = {50} := by
    ext i
    rw [Bitmap.mem_freeBits, len, Finset.mem_singleton]
    constructor
    · rintro ⟨inMap, free⟩
      rw [bits i inMap] at free
      split at free
      next =>
        rw [values _ (Nat.mod_lt _ (by decide)), decide_eq_false_iff_not] at free
        omega
      next => cases free
    · rintro rfl
      refine ⟨by decide, ?_⟩
      rw [bits 50 (by decide)]
      decide
  have one : part.blockBitmap.freeCount = 1 := by
    rw [Bitmap.freeCount, only, Finset.card_singleton]
  obtain ⟨reaches, fresh, ready⟩ := nearlyFull_ready mounting
  obtain ⟨after, dirInode, disk, created, -⟩ := reaches.refused fresh ready
    (Nat.lt_of_le_of_lt (le_of_eq one) (by decide)) ⟨none, fun _ => -1⟩ (Bytes.fill 0)
  have ran := nearlyFull_trace created
  have mounted := freshlyMounted (nearlyFullDisk_found 0xfb) (by decide) mounting
  have synced : (nearlyFull part).curPart.BitmapsSynced :=
    ⟨mounted.synced.blockMap, mounted.synced.inodeMap⟩
  refine ⟨part, after, mounting, ran, synced, fun stays => ?_⟩
  obtain ⟨_, _, stepped, rest, same⟩ := trace_cons_eq_ok.mp ran
  cases rest
  cases same
  exact ((fsStep_after ready.mounted stepped).synced_iff synced).mp stays ⟨⟨3, reaches⟩, one⟩

end NearlyFull

end HongbaiOS.Fs
