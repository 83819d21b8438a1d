import HongbaiOS.Fs.Blocks
import HongbaiOS.Fs.DirEntry
import HongbaiOS.Fs.Inode

/-!
# Formatting and mounting a partition

`partition_format` computes the layout in `uint32_t` arithmetic and writes the
super block, both bitmaps, the inode table and the root directory;
`mount_partition` reads them back.  Its buffer comes zeroed, as every large
allocation of `sys_malloc` does, if it comes at all.
-/

namespace HongbaiOS.Fs

open HongbaiOS.Library HongbaiOS.Kernel HongbaiOS.Device HongbaiOS.Lib

/-- `DIV_ROUND_UP(X, STEP)` on `uint32_t`. -/
def divRoundUp (x step : UInt32) : UInt32 := (x + step - 1) / step

/-- `used_sects` -/
def usedSects : UInt32 := 1 + 1 + divRoundUp 4096 4096 + divRoundUp (76 * 4096) 512

/-- `free_sects` -/
def freeSects (secCnt : UInt32) : UInt32 := secCnt - usedSects

/-- `block_bitmap_bit_len` -/
def blockBitmapBitLen (secCnt : UInt32) : UInt32 :=
  freeSects secCnt - divRoundUp (freeSects secCnt) 4096

/-- The super block `partition_format` fills in. -/
def formatSuperBlock (startLba secCnt : UInt32) : SuperBlock :=
  let blockBitmapSects := divRoundUp (blockBitmapBitLen secCnt) 4096
  let inodeBitmapSects := divRoundUp 4096 4096
  let inodeTableSects := divRoundUp (76 * 4096) 512
  let blockBitmapLba := startLba + 2
  let inodeBitmapLba := blockBitmapLba + blockBitmapSects
  let inodeTableLba := inodeBitmapLba + inodeBitmapSects
  { magic := 0x20250325
    secCnt := secCnt
    inodeCnt := 4096
    partLbaBase := startLba
    blockBitmapLba := blockBitmapLba
    blockBitmapSects := blockBitmapSects
    inodeBitmapLba := inodeBitmapLba
    inodeBitmapSects := inodeBitmapSects
    inodeTableLba := inodeTableLba
    inodeTableSects := inodeTableSects
    dataStartLba := inodeTableLba + inodeTableSects
    rootInodeNo := 0
    dirEntrySize := 24 }

/-- The loop `while (bit_idx <= block_bitmap_last_bit)`: bits `0 .. n - 1` of the
byte are cleared after `n` passes. -/
def clearLowBits (byte : UInt8) : Nat → UInt8
  | 0 => byte
  | n + 1 => clearLowBits byte n &&& ~~~bitmapMask n

/-- What `partition_format` finds in memory: the words on the stack behind the fields of the
super block, and what `sys_malloc` does, which may stop the kernel, give `NULL`, or give a
block together with the number of bytes that are mapped from its start on. -/
structure FormatMemory where
  pad : Nat → UInt32
  sysMalloc : UInt32 → Except Halt (Option Nat)

/-- `buf_size` -/
def formatBufSize (sb : SuperBlock) : UInt32 :=
  let bufSize := if sb.blockBitmapSects ≥ sb.inodeBitmapSects then sb.blockBitmapSects
    else sb.inodeBitmapSects
  (if bufSize ≥ sb.inodeTableSects then bufSize else sb.inodeTableSects) * 512

/-- The end of the bytes of the buffer that the `memset` of the tail writes. -/
def tailEnd (bitLen : UInt32) : Nat :=
  (bitLen / 8).toNat + (512 - (bitLen / 8).toNat % 512)

/-- The allocation of the buffer and the `memset` of the tail.  `NULL` is given for sizes from
`pool_size` on, and nothing is mapped that far from address 0. -/
def formatBuffer (mem : FormatMemory) (startLba secCnt : UInt32) : Except Halt Unit := do
  match ← mem.sysMalloc (formatBufSize (formatSuperBlock startLba secCnt)) with
  | none => .error .pageFault
  | some mapped =>
      if tailEnd (blockBitmapBitLen secCnt) ≤ mapped then return () else .error .pageFault

/-- The buffer written as block bitmap. -/
def initBlockBitmap (bitLen : UInt32) : Bytes :=
  let buf : Bytes := Function.update (Bytes.fill 0) 0 ((0 : UInt8) ||| 0x01)
  let lastByte := (bitLen / 8).toNat
  let lastBit := (bitLen % 8).toUInt8
  let lastSize := 512 - lastByte % 512
  let buf := buf.splice lastByte lastSize (Bytes.fill 0xff)
  Function.update buf lastByte (clearLowBits (buf lastByte) (lastBit.toNat + 1))

def rootInode (sb : SuperBlock) : Inode where
  iNo := 0
  iSize := sb.dirEntrySize * 2
  iOpenCnts := 0
  writeDeny := false
  iSectors := fun k => if k = 0 then sb.dataStartLba else 0

/-- The entry `.` of the root directory. -/
def dotEntry : DirEntry where
  filename := fun k => if k = 0 then 46 else 0
  iNo := 0
  fType := FileType.directory.code

/-- The entry `..` of the root directory. -/
def dotDotEntry : DirEntry where
  filename := fun k => if k.val < 2 then 46 else 0
  iNo := 0
  fType := FileType.directory.code

/-- The sector of the root directory. -/
def rootBlock : Bytes :=
  ((Bytes.fill 0).splice 0 24 dotEntry.bytes).splice 24 24 dotDotEntry.bytes

/-- `partition_format(hd, part)` -/
def partitionFormat (startLba secCnt : UInt32) (mem : FormatMemory) (disk : Bytes) :
    Except Halt Bytes := do
  let sb := formatSuperBlock startLba secCnt
  let disk ← ideWrite disk (startLba + 1).toNat (Bytes.ofWords (sb.words mem.pad)) 1
  formatBuffer mem startLba secCnt
  let disk ← ideWrite disk sb.blockBitmapLba.toNat
    (initBlockBitmap (blockBitmapBitLen secCnt)) sb.blockBitmapSects.toUInt8
  let disk ← ideWrite disk sb.inodeBitmapLba.toNat
    (Function.update (Bytes.fill 0) 0 ((0 : UInt8) ||| 0x1)) sb.inodeBitmapSects.toUInt8
  let disk ← ideWrite disk sb.inodeTableLba.toNat
    ((Bytes.fill 0).splice 0 inodeSize (rootInode sb).bytes) sb.inodeTableSects.toUInt8
  ideWrite disk sb.dataStartLba.toNat rootBlock 1

/-- A heap that gives any buffer, mapped to its end. -/
def ampleMemory : FormatMemory where
  pad := fun _ => 0
  sysMalloc := fun size => .ok (some size.toNat)

/-- The super block as it lies on the disk. -/
def diskSuperBlock (startLba : UInt32) (disk : Bytes) : SuperBlock :=
  SuperBlock.ofBytes (disk.window (512 * (startLba.toNat + 1)))

/-- The block bitmap as it lies on the disk. -/
def diskBlockBitmap (sb : SuperBlock) (disk : Bytes) : Bitmap where
  btmpBytesLen := sb.blockBitmapSects.toNat * 512
  btmpBits := disk.window (512 * sb.blockBitmapLba.toNat)

theorem diskBlockBitmap_btmpBits (sb : SuperBlock) (disk : Bytes) (a : Nat) :
    (diskBlockBitmap sb disk).btmpBits a = disk (512 * sb.blockBitmapLba.toNat + a) := rfl

/-- `mount_partition`: the partition record made from the disk.  The buffers of
the two maps are `sys_malloc` memory with unknown contents. -/
def mountPartition (startLba secCnt : UInt32) (disk : Bytes) (blockBuf inodeBuf : Bytes) :
    Except Halt Partition := do
  let sbBuf ← ideRead disk (startLba + 1).toNat (Bytes.fill 0) 1
  let sb := SuperBlock.ofBytes sbBuf
  let blockBits ← ideRead disk sb.blockBitmapLba.toNat blockBuf sb.blockBitmapSects.toUInt8
  let inodeBits ← ideRead disk sb.inodeBitmapLba.toNat inodeBuf sb.inodeBitmapSects.toUInt8
  return {
    startLba := startLba
    secCnt := secCnt
    myDisk := disk
    sb := sb
    blockBitmap := ⟨sb.blockBitmapSects.toNat * 512, blockBits⟩
    inodeBitmap := ⟨sb.blockBitmapSects.toNat * 512, inodeBits⟩
    openInodes := [] }

theorem usedSects_toNat : usedSects.toNat = 611 := by decide

theorem divRoundUp_4096_toNat (x : UInt32) :
    (divRoundUp x 4096).toNat = (x.toNat + 4095) % 2 ^ 32 / 4096 := by
  simp only [divRoundUp, UInt32.toNat_div, UInt32.toNat_sub, UInt32.toNat_add,
    UInt32.reduceToNat]
  omega

/-- The sizes and places of all areas, once the block bitmap has a sector count
the driver accepts. -/
structure LaidOut (startLba secCnt : UInt32) : Prop where
  bitLen : (blockBitmapBitLen secCnt).toNat =
    secCnt.toNat - 611 - (secCnt.toNat - 611 + 4095) / 4096
  sects : (formatSuperBlock startLba secCnt).blockBitmapSects.toNat =
    ((blockBitmapBitLen secCnt).toNat + 4095) / 4096
  superBlockLba : (startLba + 1).toNat = startLba.toNat + 1
  blockBitmapLba : (formatSuperBlock startLba secCnt).blockBitmapLba.toNat = startLba.toNat + 2
  inodeBitmapLba : (formatSuperBlock startLba secCnt).inodeBitmapLba.toNat =
    startLba.toNat + 2 + (formatSuperBlock startLba secCnt).blockBitmapSects.toNat
  inodeTableLba : (formatSuperBlock startLba secCnt).inodeTableLba.toNat =
    startLba.toNat + 3 + (formatSuperBlock startLba secCnt).blockBitmapSects.toNat
  dataStartLba : (formatSuperBlock startLba secCnt).dataStartLba.toNat =
    startLba.toNat + 611 + (formatSuperBlock startLba secCnt).blockBitmapSects.toNat

theorem laidOut_of_places {startLba secCnt : UInt32} (room : 613 ≤ secCnt.toNat)
    (places : startLba.toNat + secCnt.toNat ≤ 2 ^ 32 ∨ startLba.toNat ≤ maxLba)
    (some : (formatSuperBlock startLba secCnt).blockBitmapSects.toUInt8 > 0) :
    LaidOut startLba secCnt := by
  have bound := secCnt.toNat_lt
  have freeNat : (freeSects secCnt).toNat = secCnt.toNat - 611 := by
    rw [freeSects, UInt32.toNat_sub, usedSects_toNat]
    omega
  have bitLenNat : (blockBitmapBitLen secCnt).toNat =
      secCnt.toNat - 611 - (secCnt.toNat - 611 + 4095) % 2 ^ 32 / 4096 := by
    rw [blockBitmapBitLen, UInt32.toNat_sub, divRoundUp_4096_toNat, freeNat]
    omega
  have sectsNat : (formatSuperBlock startLba secCnt).blockBitmapSects.toNat =
      ((blockBitmapBitLen secCnt).toNat + 4095) % 2 ^ 32 / 4096 :=
    divRoundUp_4096_toNat _
  have nonzero : (formatSuperBlock startLba secCnt).blockBitmapSects.toNat ≠ 0 := by
    intro zero
    have isZero : (formatSuperBlock startLba secCnt).blockBitmapSects = 0 :=
      UInt32.toNat_inj.mp zero
    rw [isZero] at some
    revert some
    decide
  -- the first rounding wraps only if the second does too, and then no sector is left
  have noWrap : secCnt.toNat - 611 + 4095 < 2 ^ 32 := by omega
  have sects : (formatSuperBlock startLba secCnt).blockBitmapSects.toNat =
      ((blockBitmapBitLen secCnt).toNat + 4095) / 4096 := by omega
  have fits : startLba.toNat + 611 +
      (formatSuperBlock startLba secCnt).blockBitmapSects.toNat < 2 ^ 32 := by
    have top : maxLba < 2 ^ 31 := by decide
    omega
  have bitmapLba : (formatSuperBlock startLba secCnt).blockBitmapLba.toNat =
      startLba.toNat + 2 := by
    simp only [formatSuperBlock, UInt32.toNat_add, UInt32.reduceToNat]
    omega
  have inodeBitmapLba : (formatSuperBlock startLba secCnt).inodeBitmapLba.toNat =
      startLba.toNat + 2 + (formatSuperBlock startLba secCnt).blockBitmapSects.toNat := by
    have sum : (formatSuperBlock startLba secCnt).inodeBitmapLba.toNat =
        ((formatSuperBlock startLba secCnt).blockBitmapLba.toNat +
          (formatSuperBlock startLba secCnt).blockBitmapSects.toNat) % 2 ^ 32 :=
      UInt32.toNat_add _ _
    omega
  have inodeTableLba : (formatSuperBlock startLba secCnt).inodeTableLba.toNat =
      startLba.toNat + 3 + (formatSuperBlock startLba secCnt).blockBitmapSects.toNat := by
    have sum : (formatSuperBlock startLba secCnt).inodeTableLba.toNat =
        ((formatSuperBlock startLba secCnt).inodeBitmapLba.toNat + 1) % 2 ^ 32 :=
      UInt32.toNat_add _ _
    omega
  have dataStartLba : (formatSuperBlock startLba secCnt).dataStartLba.toNat =
      startLba.toNat + 611 + (formatSuperBlock startLba secCnt).blockBitmapSects.toNat := by
    have sum : (formatSuperBlock startLba secCnt).dataStartLba.toNat =
        ((formatSuperBlock startLba secCnt).inodeTableLba.toNat + 608) % 2 ^ 32 :=
      UInt32.toNat_add _ _
    omega
  refine ⟨by omega, sects, ?_, bitmapLba, inodeBitmapLba, inodeTableLba, dataStartLba⟩
  simp only [UInt32.toNat_add, UInt32.reduceToNat]
  omega

theorem laidOut {startLba secCnt : UInt32} (room : 613 ≤ secCnt.toNat)
    (fits : startLba.toNat + secCnt.toNat ≤ 2 ^ 32)
    (some : (formatSuperBlock startLba secCnt).blockBitmapSects.toUInt8 > 0) :
    LaidOut startLba secCnt :=
  laidOut_of_places room (Or.inl fits) some

theorem LaidOut.mounted {startLba secCnt : UInt32} (areas : LaidOut startLba secCnt)
    (onDisk : (formatSuperBlock startLba secCnt).dataStartLba.toNat ≤ maxLba)
    (room : 613 ≤ secCnt.toNat) (fits : startLba.toNat + secCnt.toNat < 2 ^ 32)
    {part : Partition} (sameStart : part.startLba = startLba) (sameCnt : part.secCnt = secCnt)
    (sameSb : part.sb = formatSuperBlock startLba secCnt)
    (blockBitmapLen : part.blockBitmap.btmpBytesLen =
      (formatSuperBlock startLba secCnt).blockBitmapSects.toNat * 512)
    (inodeBitmapLen : part.inodeBitmap.btmpBytesLen =
      (formatSuperBlock startLba secCnt).blockBitmapSects.toNat * 512) :
    part.Mounted := by
  have bitLen := areas.bitLen
  have sects := areas.sects
  have bitmapLba := areas.blockBitmapLba
  have inodeBitmapLba := areas.inodeBitmapLba
  have inodeTableLba := areas.inodeTableLba
  have dataStartLba := areas.dataStartLba
  constructor
  · rw [sameStart, sameCnt]
    exact fits
  · rw [sameSb]
    exact onDisk
  · rw [sameSb, sameStart]
    exact bitmapLba
  · rw [sameSb]
    omega
  · rw [sameSb]
    change (divRoundUp 4096 4096).toNat = 1
    decide
  · rw [sameSb]
    omega
  · rw [sameSb]
    simp only [inodeTableSects]
    omega
  · rw [sameSb, sameStart, sameCnt]
    omega
  · rw [sameSb]
    rfl
  · rw [sameSb]
    exact blockBitmapLen
  · rw [sameSb]
    exact inodeBitmapLen

theorem testBit_clearLowBits (byte : UInt8) {n k : Nat} (small : n ≤ 8) (inside : k < 8) :
    (clearLowBits byte n).toNat.testBit k = (byte.toNat.testBit k && decide (n ≤ k)) := by
  induction n with
  | zero => simp [clearLowBits]
  | succ n inductionHypothesis =>
      rw [clearLowBits, testBit_and_not_bitmapMask (by omega) _ inside,
        inductionHypothesis (by omega), Bool.and_assoc]
      congr 1
      rw [← Bool.decide_and]
      exact decide_eq_decide.mpr (by omega)

/-- The bits of the buffer within the sectors of the map: 0 is taken, the others
are free up to the bit *after* the last block, and the rest is taken.  A map of
less than one byte loses bit 0 as well. -/
theorem initBlockBitmap_bit {bitLen : UInt32} (bytesLen : Nat) {i : Nat}
    (inSectors : i / 4096 ≤ bitLen.toNat / 4096) :
    (Bitmap.mk bytesLen (initBlockBitmap bitLen)).bit i =
      decide (bitLen.toNat < i ∨ i = 0 ∧ 8 ≤ bitLen.toNat) := by
  have lastByte : (bitLen / 8).toNat = bitLen.toNat / 8 := UInt32.toNat_div _ _
  have lastBit : (bitLen % 8).toUInt8.toNat = bitLen.toNat % 8 := by
    simp only [UInt32.toNat_toUInt8, UInt32.toNat_mod, UInt32.reduceToNat]
    omega
  have inByte : i % 8 < 8 := Nat.mod_lt _ (by decide)
  have allOnes : (0xff : UInt8).toNat.testBit (i % 8) = true :=
    (eq_ff_iff 0xff).mp rfl (i % 8) inByte
  rw [Bitmap.bit_eq_testBit]
  simp only [initBlockBitmap, lastByte, lastBit]
  by_cases last : i / 8 = bitLen.toNat / 8
  · rw [last, Function.update_self, testBit_clearLowBits _ (by omega) inByte,
      Bytes.splice_inside (le_refl _) (by omega), Bytes.fill_apply, allOnes, Bool.true_and]
    exact decide_eq_decide.mpr (by omega)
  · rw [Function.update_of_ne last]
    by_cases tail : bitLen.toNat / 8 ≤ i / 8
    · rw [Bytes.splice_inside tail (by omega), Bytes.fill_apply, allOnes]
      exact (decide_eq_true (by omega)).symm
    · rw [Bytes.splice_outside (by omega)]
      by_cases first : i / 8 = 0
      · have bitOne : ((0 : UInt8) ||| 0x01).toNat = 2 ^ 0 := by decide
        rw [first, Function.update_self, bitOne, Nat.testBit_two_pow]
        exact decide_eq_decide.mpr (by omega)
      · rw [Function.update_of_ne first, Bytes.fill_apply, UInt8.toNat_zero, Nat.zero_testBit]
        exact (decide_eq_false (by omega)).symm

/-- What lies on the disk after `partition_format`.  The sector counts go through
a `uint8_t`, so of the block bitmap only the first `block_bitmap_sects` modulo 256
sectors are written, and of the inode table the first 96. -/
structure Formatted (startLba secCnt : UInt32) (disk disk' : Bytes) : Prop where
  laidOut : LaidOut startLba secCnt
  onDisk : (formatSuperBlock startLba secCnt).dataStartLba.toNat ≤ maxLba
  someSects : (formatSuperBlock startLba secCnt).blockBitmapSects.toUInt8 > 0
  superBlock : diskSuperBlock startLba disk' = formatSuperBlock startLba secCnt
  written : ∀ a < 512 * (formatSuperBlock startLba secCnt).blockBitmapSects.toUInt8.toNat,
    (diskBlockBitmap (formatSuperBlock startLba secCnt) disk').btmpBits a =
      initBlockBitmap (blockBitmapBitLen secCnt) a
  kept : ∀ a,
    512 * (formatSuperBlock startLba secCnt).blockBitmapSects.toUInt8.toNat ≤ a →
    a < 512 * (formatSuperBlock startLba secCnt).blockBitmapSects.toNat →
    (diskBlockBitmap (formatSuperBlock startLba secCnt) disk').btmpBits a =
      (diskBlockBitmap (formatSuperBlock startLba secCnt) disk).btmpBits a
  rootInode : Bytes.SameHead inodeSize
    (disk'.window (512 * (formatSuperBlock startLba secCnt).inodeTableLba.toNat))
    (rootInode (formatSuperBlock startLba secCnt)).bytes
  rootBlock : Bytes.SameHead 512
    (disk'.window (512 * (formatSuperBlock startLba secCnt).dataStartLba.toNat)) rootBlock

theorem partitionFormat_formatted {startLba secCnt : UInt32} {mem : FormatMemory}
    {disk disk' : Bytes} (room : 613 ≤ secCnt.toNat)
    (fits : startLba.toNat + secCnt.toNat ≤ 2 ^ 32)
    (ran : partitionFormat startLba secCnt mem disk = .ok disk') :
    Formatted startLba secCnt disk disk' := by
  obtain ⟨_, first, ran⟩ := except_bind_eq_ok.mp ran
  obtain ⟨_, -, ran⟩ := except_bind_eq_ok.mp ran
  obtain ⟨_, second, ran⟩ := except_bind_eq_ok.mp ran
  obtain ⟨_, third, ran⟩ := except_bind_eq_ok.mp ran
  obtain ⟨_, fourth, fifth⟩ := except_bind_eq_ok.mp ran
  obtain ⟨-, -, rfl⟩ := ideWrite_eq_ok.mp first
  obtain ⟨-, some, rfl⟩ := ideWrite_eq_ok.mp second
  obtain ⟨-, -, rfl⟩ := ideWrite_eq_ok.mp third
  obtain ⟨-, -, rfl⟩ := ideWrite_eq_ok.mp fourth
  obtain ⟨onDisk, -, rfl⟩ := ideWrite_eq_ok.mp fifth
  have areas := laidOut room fits some
  have superBlockLba := areas.superBlockLba
  have blockBitmapLba := areas.blockBitmapLba
  have inodeBitmapLba := areas.inodeBitmapLba
  have inodeTableLba := areas.inodeTableLba
  have dataStartLba := areas.dataStartLba
  have inodeSects : (formatSuperBlock startLba secCnt).inodeBitmapSects.toUInt8.toNat = 1 := by
    change (divRoundUp 4096 4096).toUInt8.toNat = 1
    decide
  have tableSects : (formatSuperBlock startLba secCnt).inodeTableSects.toUInt8.toNat = 96 := by
    change (divRoundUp (76 * 4096) 512).toUInt8.toNat = 96
    decide
  have one : (1 : UInt8).toNat = 1 := rfl
  have truncated : (formatSuperBlock startLba secCnt).blockBitmapSects.toUInt8.toNat ≤
      (formatSuperBlock startLba secCnt).blockBitmapSects.toNat := by
    rw [UInt32.toNat_toUInt8]
    exact Nat.mod_le _ _
  simp only [superBlockLba, inodeSects, tableSects, one]
  refine ⟨areas, onDisk, some, ?_, ?_, ?_, ?_, ?_⟩
  · refine (SuperBlock.ofBytes_congr ?_).trans (SuperBlock.ofBytes_words _ mem.pad)
    intro a small
    rw [Bytes.window_apply, Bytes.splice_outside (by omega), Bytes.splice_outside (by omega),
      Bytes.splice_outside (by omega), Bytes.splice_outside (by omega)]
    exact Bytes.splice_add (by omega)
  · intro a small
    rw [diskBlockBitmap_btmpBits, Bytes.splice_outside (by omega),
      Bytes.splice_outside (by omega), Bytes.splice_outside (by omega)]
    exact Bytes.splice_add small
  · intro a low high
    rw [diskBlockBitmap_btmpBits, diskBlockBitmap_btmpBits, Bytes.splice_outside (by omega),
      Bytes.splice_outside (by omega),
      Bytes.splice_outside (by omega), Bytes.splice_outside (by omega),
      Bytes.splice_outside (by omega)]
  · intro a small
    simp only [inodeSize] at small
    rw [Bytes.window_apply, Bytes.splice_outside (by omega), Bytes.splice_add (by omega),
      Bytes.splice_inside (Nat.zero_le a) (by simp only [inodeSize]; omega), Nat.sub_zero]
  · intro a small
    exact Bytes.splice_add (by omega)

namespace Formatted

variable {startLba secCnt : UInt32} {disk disk' : Bytes}

theorem bit_written (formatted : Formatted startLba secCnt disk disk') {i : Nat}
    (small : i < 4096 * (formatSuperBlock startLba secCnt).blockBitmapSects.toUInt8.toNat) :
    (diskBlockBitmap (formatSuperBlock startLba secCnt) disk').bit i =
      decide ((blockBitmapBitLen secCnt).toNat < i ∨
        i = 0 ∧ 8 ≤ (blockBitmapBitLen secCnt).toNat) := by
  have sects := formatted.laidOut.sects
  have truncated := UInt32.toNat_toUInt8 (formatSuperBlock startLba secCnt).blockBitmapSects
  rw [← initBlockBitmap_bit 0
      (by omega : i / 4096 ≤ (blockBitmapBitLen secCnt).toNat / 4096),
    Bitmap.bit_eq_testBit, Bitmap.bit_eq_testBit, formatted.written (i / 8) (by omega)]

theorem bit_kept (formatted : Formatted startLba secCnt disk disk') {i : Nat}
    (low : 4096 * (formatSuperBlock startLba secCnt).blockBitmapSects.toUInt8.toNat ≤ i)
    (high : i < 4096 * (formatSuperBlock startLba secCnt).blockBitmapSects.toNat) :
    (diskBlockBitmap (formatSuperBlock startLba secCnt) disk').bit i =
      (diskBlockBitmap (formatSuperBlock startLba secCnt) disk).bit i := by
  rw [Bitmap.bit_eq_testBit, Bitmap.bit_eq_testBit,
    formatted.kept (i / 8) (by omega) (by omega)]

/-- `mount_partition` after `partition_format`: the super block is the one that was
computed, and the map in memory has the bits that lie on the disk. -/
theorem mount_eq (formatted : Formatted startLba secCnt disk disk')
    (blockBuf inodeBuf : Bytes) :
    ∃ part, mountPartition startLba secCnt disk' blockBuf inodeBuf = .ok part ∧
      part.startLba = startLba ∧ part.secCnt = secCnt ∧ part.myDisk = disk' ∧
      part.openInodes = [] ∧ part.sb = formatSuperBlock startLba secCnt ∧
      part.blockBitmap.btmpBytesLen =
        (formatSuperBlock startLba secCnt).blockBitmapSects.toNat * 512 ∧
      part.inodeBitmap.btmpBytesLen =
        (formatSuperBlock startLba secCnt).blockBitmapSects.toNat * 512 ∧
      ∀ i < 4096 * (formatSuperBlock startLba secCnt).blockBitmapSects.toUInt8.toNat,
        part.blockBitmap.bit i =
          (diskBlockBitmap (formatSuperBlock startLba secCnt) disk').bit i := by
  have onDisk := formatted.onDisk
  have superBlockLba := formatted.laidOut.superBlockLba
  have blockBitmapLba := formatted.laidOut.blockBitmapLba
  have inodeBitmapLba := formatted.laidOut.inodeBitmapLba
  have dataStartLba := formatted.laidOut.dataStartLba
  have readBack : SuperBlock.ofBytes ((Bytes.fill 0).splice 0 (512 * (1 : UInt8).toNat)
      (disk'.window (512 * (startLba + 1).toNat))) = formatSuperBlock startLba secCnt := by
    rw [← formatted.superBlock, diskSuperBlock, superBlockLba]
    apply SuperBlock.ofBytes_congr
    intro a small
    rw [Bytes.splice_inside (Nat.zero_le a) (by simp only [UInt8.reduceToNat]; omega),
      Nat.sub_zero]
  have inodeSects : (formatSuperBlock startLba secCnt).inodeBitmapSects.toUInt8 > 0 := by
    change (divRoundUp 4096 4096).toUInt8 > 0
    decide
  simp only [mountPartition]
  rw [ideRead_eq (by omega) (by decide)]
  simp only [ok_bind, readBack]
  rw [ideRead_eq (by omega) formatted.someSects]
  simp only [ok_bind]
  rw [ideRead_eq (by omega) inodeSects]
  refine ⟨_, rfl, rfl, rfl, rfl, rfl, rfl, rfl, rfl, ?_⟩
  intro i small
  rw [Bitmap.bit_eq_testBit, Bitmap.bit_eq_testBit]
  simp only [diskBlockBitmap]
  rw [Bytes.splice_inside (Nat.zero_le _) (by omega), Nat.sub_zero]

theorem mounted (formatted : Formatted startLba secCnt disk disk')
    (room : 613 ≤ secCnt.toNat) (fits : startLba.toNat + secCnt.toNat < 2 ^ 32)
    {part : Partition} (sameStart : part.startLba = startLba) (sameCnt : part.secCnt = secCnt)
    (sameSb : part.sb = formatSuperBlock startLba secCnt)
    (blockBitmapLen : part.blockBitmap.btmpBytesLen =
      (formatSuperBlock startLba secCnt).blockBitmapSects.toNat * 512)
    (inodeBitmapLen : part.inodeBitmap.btmpBytesLen =
      (formatSuperBlock startLba secCnt).blockBitmapSects.toNat * 512) :
    part.Mounted :=
  formatted.laidOut.mounted formatted.onDisk room fits sameStart sameCnt sameSb blockBitmapLen
    inodeBitmapLen

end Formatted

end HongbaiOS.Fs
