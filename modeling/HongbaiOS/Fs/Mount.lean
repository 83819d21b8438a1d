import HongbaiOS.Fs.Format
import HongbaiOS.Library.Run

/-!
# What mounting leaves in memory

The two bitmaps in memory against their buffers and their areas on the disk, and the inode
numbers and sectors that come out of them.
-/

namespace HongbaiOS.Fs

open HongbaiOS.Library HongbaiOS.Kernel HongbaiOS.Device HongbaiOS.Lib

/-- The inode bitmap as it lies on the disk. -/
def diskInodeBitmap (sb : SuperBlock) (disk : Bytes) : Bitmap where
  btmpBytesLen := sb.inodeBitmapSects.toNat * 512
  btmpBits := disk.window (512 * sb.inodeBitmapLba.toNat)

/-- The super block that `mount_partition` reads. -/
def foundSuperBlock (startLba : UInt32) (disk : Bytes) : SuperBlock :=
  SuperBlock.ofBytes (disk.window (512 * (startLba + 1).toNat))

/-- What is passed to `sys_malloc` for the buffer of a map of `sects` sectors. -/
def bitmapBufSize (sects : UInt32) : Nat := (sects * 512).toNat

/-- How many bytes `ide_read` puts into that buffer. -/
def bitmapReadSize (sects : UInt32) : Nat := 512 * sects.toUInt8.toNat

/-- A map in memory agrees with its buffer and with its area on the disk. -/
structure MapAgrees (btmp onDisk : Bitmap) (sects : UInt32) : Prop where
  bufSize : btmp.btmpBytesLen = bitmapBufSize sects
  readSize : btmp.btmpBytesLen = bitmapReadSize sects
  bits : ∀ i < btmp.bitLen, btmp.bit i = onDisk.bit i

inductive InodeMapCall where
  | inodeBitmapAlloc
  /-- For a number that an allocation has returned. -/
  | bitmapSync (iNo : Nat)
  deriving DecidableEq

structure InodeMapUse where
  part : Partition
  /-- The numbers returned by `inode_bitmap_alloc`, newest first. -/
  returned : List Nat
  /-- The sectors written by `bitmap_sync`, newest first. -/
  synced : List Nat

/-- The sector of the inode bitmap that `bitmap_sync` writes. -/
def inodeMapSector (part : Partition) (iNo : Nat) : Nat :=
  (part.sb.inodeBitmapLba + UInt32.ofNat iNo / 4096).toNat

namespace InodeMapUse

def start (part : Partition) : InodeMapUse := ⟨part, [], []⟩

def step (full : FullScan) (s : InodeMapUse) : InodeMapCall → Except Halt InodeMapUse
  | .inodeBitmapAlloc => do
      let (iNo, part) ← inodeBitmapAlloc full s.part
      return { s with part, returned := iNo.toList ++ s.returned }
  | .bitmapSync iNo =>
      if iNo ∈ s.returned then do
        let part ← bitmapSync s.part (UInt32.ofNat iNo) .inodeBitmap
        return { s with part, synced := inodeMapSector s.part iNo :: s.synced }
      else .error .disabled

/-- All numbers are in the inode table, all sectors in the area of the inode bitmap. -/
structure InBounds (sb : SuperBlock) (s : InodeMapUse) : Prop where
  numbers : ∀ iNo ∈ s.returned, iNo < sb.inodeCnt.toNat
  sectors : ∀ sector ∈ s.synced, sb.inodeBitmapLba.toNat ≤ sector ∧
    sector < sb.inodeBitmapLba.toNat + sb.inodeBitmapSects.toNat

end InodeMapUse

/-- What is asked of a freshly mounted partition. -/
structure Partition.MountAgrees (full : FullScan) (part : Partition) : Prop where
  blockMap : MapAgrees part.blockBitmap (diskBlockBitmap part.sb part.myDisk)
    part.sb.blockBitmapSects
  inodeMap : MapAgrees part.inodeBitmap (diskInodeBitmap part.sb part.myDisk)
    part.sb.inodeBitmapSects
  inBounds : ∀ calls states,
    trace (InodeMapUse.step full) (InodeMapUse.start part) calls = .ok states →
    ∀ s ∈ states, InodeMapUse.InBounds part.sb s

namespace InodeMapUse

variable {full : FullScan} {s s' : InodeMapUse}

/-- The map has as many bits as there are inodes, and they fill one sector. -/
structure OneSector (sb : SuperBlock) (s : InodeMapUse) : Prop where
  sameSb : s.part.sb = sb
  inodeMapLen : s.part.inodeBitmap.btmpBytesLen = 512
  inBounds : s.InBounds sb

theorem OneSector.step {sb : SuperBlock} (oneSector : s.OneSector sb)
    (inodeCnt : sb.inodeCnt = 4096) (inodeSects : sb.inodeBitmapSects = 1)
    {call : InodeMapCall} (ran : s.step full call = .ok s') : s'.OneSector sb := by
  obtain ⟨sameSb, inodeMapLen, inBounds⟩ := oneSector
  have cntNat : sb.inodeCnt.toNat = 4096 := by
    rw [inodeCnt]
    rfl
  have sectsNat : sb.inodeBitmapSects.toNat = 1 := by
    rw [inodeSects]
    rfl
  cases call with
  | inodeBitmapAlloc =>
      obtain ⟨⟨iNo, part⟩, allocated, ran⟩ := except_bind_eq_ok.mp ran
      rw [← Except.ok.inj ran]
      cases iNo with
      | none =>
          obtain ⟨-, -, rfl⟩ := inodeBitmapAlloc_eq_none allocated
          exact ⟨sameSb, inodeMapLen, inBounds⟩
      | some iNo =>
          obtain ⟨inside, -, rfl⟩ := inodeBitmapAlloc_eq_some allocated
          refine ⟨sameSb, inodeMapLen, ⟨fun other membership => ?_, inBounds.sectors⟩⟩
          rcases List.mem_cons.mp membership with rfl | earlier
          · rw [Bitmap.bitLen, inodeMapLen] at inside
            omega
          · exact inBounds.numbers other earlier
  | bitmapSync iNo =>
      by_cases known : iNo ∈ s.returned
      · rw [InodeMapUse.step, if_pos known] at ran
        obtain ⟨part, synced, ran⟩ := except_bind_eq_ok.mp ran
        obtain ⟨disk, -, written⟩ := except_bind_eq_ok.mp synced
        rw [← Except.ok.inj ran, ← Except.ok.inj written]
        refine ⟨sameSb, inodeMapLen, ⟨inBounds.numbers, fun sector membership => ?_⟩⟩
        rcases List.mem_cons.mp membership with rfl | earlier
        · have small := inBounds.numbers iNo known
          have noOffset : UInt32.ofNat iNo / 4096 = 0 := by
            apply UInt32.toNat_inj.mp
            simp only [UInt32.toNat_div, UInt32.toNat_ofNat', UInt32.reduceToNat]
            omega
          rw [inodeMapSector, noOffset, UInt32.add_zero, sameSb]
          omega
        · exact inBounds.sectors sector earlier
      · rw [InodeMapUse.step, if_neg known] at ran
        cases ran

end InodeMapUse

variable {startLba secCnt : UInt32} {disk disk' blockBuf inodeBuf : Bytes} {part : Partition}

theorem mountPartition_eq_ok
    (ran : mountPartition startLba secCnt disk blockBuf inodeBuf = .ok part) :
    part.sb = foundSuperBlock startLba disk ∧ part.myDisk = disk ∧
      part.sb.blockBitmapSects.toUInt8 > 0 ∧
      part.blockBitmap = ⟨part.sb.blockBitmapSects.toNat * 512,
        blockBuf.splice 0 (512 * part.sb.blockBitmapSects.toUInt8.toNat)
          (disk.window (512 * part.sb.blockBitmapLba.toNat))⟩ ∧
      part.inodeBitmap = ⟨part.sb.blockBitmapSects.toNat * 512,
        inodeBuf.splice 0 (512 * part.sb.inodeBitmapSects.toUInt8.toNat)
          (disk.window (512 * part.sb.inodeBitmapLba.toNat))⟩ := by
  obtain ⟨sbBuf, sbRead, ran⟩ := except_bind_eq_ok.mp ran
  obtain ⟨blockBits, blockRead, ran⟩ := except_bind_eq_ok.mp ran
  obtain ⟨inodeBits, inodeRead, ran⟩ := except_bind_eq_ok.mp ran
  obtain ⟨-, -, rfl⟩ := ideRead_eq_ok.mp sbRead
  obtain ⟨-, some, rfl⟩ := ideRead_eq_ok.mp blockRead
  obtain ⟨-, -, rfl⟩ := ideRead_eq_ok.mp inodeRead
  rw [← Except.ok.inj ran]
  refine ⟨SuperBlock.ofBytes_congr fun a small => ?_, rfl, some, rfl, rfl⟩
  rw [Bytes.splice_inside (Nat.zero_le a) (by simp only [UInt8.reduceToNat]; omega), Nat.sub_zero]

theorem mountPartition_startLba
    (ran : mountPartition startLba secCnt disk blockBuf inodeBuf = .ok part) :
    part.startLba = startLba ∧ part.secCnt = secCnt := by
  obtain ⟨sbBuf, -, ran⟩ := except_bind_eq_ok.mp ran
  obtain ⟨blockBits, -, ran⟩ := except_bind_eq_ok.mp ran
  obtain ⟨inodeBits, -, ran⟩ := except_bind_eq_ok.mp ran
  rw [← Except.ok.inj ran]
  exact ⟨rfl, rfl⟩

theorem bit_of_read (buf bits : Bytes) {sects i : Nat} (small : i < 4096 * sects)
    (len len' : Nat) :
    (Bitmap.mk len (buf.splice 0 (512 * sects) bits)).bit i = (Bitmap.mk len' bits).bit i := by
  rw [Bitmap.bit_eq_testBit, Bitmap.bit_eq_testBit]
  dsimp only
  rw [Bytes.splice_inside (Nat.zero_le _) (by omega), Nat.sub_zero]

theorem partitionFormat_found {mem : FormatMemory}
    (ran : partitionFormat startLba secCnt mem disk = .ok disk') :
    foundSuperBlock startLba disk' = formatSuperBlock startLba secCnt := by
  obtain ⟨_, first, ran⟩ := except_bind_eq_ok.mp ran
  obtain ⟨_, -, ran⟩ := except_bind_eq_ok.mp ran
  obtain ⟨_, second, ran⟩ := except_bind_eq_ok.mp ran
  obtain ⟨_, third, ran⟩ := except_bind_eq_ok.mp ran
  obtain ⟨_, fourth, fifth⟩ := except_bind_eq_ok.mp ran
  obtain ⟨onDisk, -, rfl⟩ := ideWrite_eq_ok.mp first
  obtain ⟨-, -, rfl⟩ := ideWrite_eq_ok.mp second
  obtain ⟨-, -, rfl⟩ := ideWrite_eq_ok.mp third
  obtain ⟨-, -, rfl⟩ := ideWrite_eq_ok.mp fourth
  obtain ⟨-, -, rfl⟩ := ideWrite_eq_ok.mp fifth
  simp only [maxLba] at onDisk
  have base : startLba + 2 = startLba + 1 + 1 := by
    rw [UInt32.add_assoc]
    rfl
  have sectsSmall : (formatSuperBlock startLba secCnt).blockBitmapSects.toNat < 2 ^ 20 := by
    have sects : (formatSuperBlock startLba secCnt).blockBitmapSects.toNat =
        ((blockBitmapBitLen secCnt).toNat + 4095) % 2 ^ 32 / 4096 := divRoundUp_4096_toNat _
    omega
  have bitmapLba : (formatSuperBlock startLba secCnt).blockBitmapLba.toNat =
      (startLba + 1).toNat + 1 := by
    change (startLba + 2).toNat = _
    rw [base, UInt32.toNat_add]
    simp only [UInt32.reduceToNat]
    omega
  have inodeBitmapLba : (formatSuperBlock startLba secCnt).inodeBitmapLba.toNat =
      ((formatSuperBlock startLba secCnt).blockBitmapLba.toNat +
        (formatSuperBlock startLba secCnt).blockBitmapSects.toNat) % 2 ^ 32 :=
    UInt32.toNat_add _ _
  have inodeTableLba : (formatSuperBlock startLba secCnt).inodeTableLba.toNat =
      ((formatSuperBlock startLba secCnt).inodeBitmapLba.toNat + 1) % 2 ^ 32 :=
    UInt32.toNat_add _ _
  have dataStartLba : (formatSuperBlock startLba secCnt).dataStartLba.toNat =
      ((formatSuperBlock startLba secCnt).inodeTableLba.toNat + 608) % 2 ^ 32 :=
    UInt32.toNat_add _ _
  refine (SuperBlock.ofBytes_congr ?_).trans (SuperBlock.ofBytes_words _ mem.pad)
  intro a small
  rw [Bytes.window_apply, Bytes.splice_outside (by omega), Bytes.splice_outside (by omega),
    Bytes.splice_outside (by omega), Bytes.splice_outside (by omega)]
  exact Bytes.splice_add (by simp only [UInt8.reduceToNat]; omega)

theorem mountPartition_of_found
    (written : foundSuperBlock startLba disk = formatSuperBlock startLba secCnt)
    (some : (formatSuperBlock startLba secCnt).blockBitmapSects.toUInt8 > 0)
    (onDisk : (startLba + 1).toNat ≤ maxLba ∧
      (formatSuperBlock startLba secCnt).blockBitmapLba.toNat ≤ maxLba ∧
      (formatSuperBlock startLba secCnt).inodeBitmapLba.toNat ≤ maxLba)
    (blockBuf inodeBuf : Bytes) :
    ∃ part, mountPartition startLba secCnt disk blockBuf inodeBuf = .ok part := by
  have readBack : SuperBlock.ofBytes ((Bytes.fill 0).splice 0 (512 * (1 : UInt8).toNat)
      (disk.window (512 * (startLba + 1).toNat))) = formatSuperBlock startLba secCnt := by
    rw [← written]
    refine SuperBlock.ofBytes_congr fun a small => ?_
    rw [Bytes.splice_inside (Nat.zero_le a) (by simp only [UInt8.reduceToNat]; omega),
      Nat.sub_zero]
  have inodeSects : (formatSuperBlock startLba secCnt).inodeBitmapSects.toUInt8 > 0 := by
    change (divRoundUp 4096 4096).toUInt8 > 0
    decide
  simp only [mountPartition]
  rw [ideRead_eq onDisk.1 (by decide)]
  simp only [ok_bind, readBack]
  rw [ideRead_eq onDisk.2.1 some]
  simp only [ok_bind]
  rw [ideRead_eq onDisk.2.2 inodeSects]
  exact ⟨_, rfl⟩

theorem blockBitmapSects_eq_one_iff (startLba secCnt : UInt32) :
    (formatSuperBlock startLba secCnt).blockBitmapSects.toNat = 1 ↔
      613 ≤ secCnt.toNat ∧ secCnt.toNat ≤ 4709 := by
  have bound := secCnt.toNat_lt
  have free : (freeSects secCnt).toNat = (2 ^ 32 - 611 + secCnt.toNat) % 2 ^ 32 := by
    rw [freeSects, UInt32.toNat_sub, usedSects_toNat]
  have bitLen : (blockBitmapBitLen secCnt).toNat = (2 ^ 32 -
      ((freeSects secCnt).toNat + 4095) % 2 ^ 32 / 4096 + (freeSects secCnt).toNat) % 2 ^ 32 := by
    rw [blockBitmapBitLen, UInt32.toNat_sub, divRoundUp_4096_toNat]
  have sects : (formatSuperBlock startLba secCnt).blockBitmapSects.toNat =
      ((blockBitmapBitLen secCnt).toNat + 4095) % 2 ^ 32 / 4096 := divRoundUp_4096_toNat _
  -- an overflow in either rounding, or in `free_sects`, ends in 0 sectors
  by_cases wraps : 2 ^ 32 ≤ (freeSects secCnt).toNat + 4095
  · omega
  · by_cases room : 611 ≤ secCnt.toNat
    · have freeNat : (freeSects secCnt).toNat = secCnt.toNat - 611 := by omega
      have bitLenNat : (blockBitmapBitLen secCnt).toNat =
          secCnt.toNat - 611 - (secCnt.toNat - 611 + 4095) / 4096 := by omega
      omega
    · omega

/-- A mounted partition has what is asked of it if and only if its block bitmap, from which
the size of the inode bitmap is taken, has the one sector that the inode bitmap has. -/
theorem mountAgrees_iff (full : FullScan)
    (written : foundSuperBlock startLba disk = formatSuperBlock startLba secCnt)
    (ran : mountPartition startLba secCnt disk blockBuf inodeBuf = .ok part) :
    part.MountAgrees full ↔ 613 ≤ secCnt.toNat ∧ secCnt.toNat ≤ 4709 := by
  obtain ⟨found, sameDisk, -, blockMap, inodeMap⟩ := mountPartition_eq_ok ran
  rw [written] at found
  have inodeSects : part.sb.inodeBitmapSects = 1 := by
    rw [found]
    change divRoundUp 4096 4096 = 1
    decide
  have blockSects := blockBitmapSects_eq_one_iff startLba secCnt
  rw [← found] at blockSects
  rw [← blockSects]
  constructor
  · intro agrees
    have size := agrees.inodeMap.bufSize
    rw [inodeMap, inodeSects] at size
    have oneSector : bitmapBufSize 1 = 512 := by decide
    simp only [oneSector] at size
    omega
  · intro one
    have isOne : part.sb.blockBitmapSects = 1 := UInt32.toNat_inj.mp one
    refine ⟨⟨?_, ?_, fun i inside => ?_⟩, ⟨?_, ?_, fun i inside => ?_⟩, ?_⟩
    · rw [blockMap, isOne]
      rfl
    · rw [blockMap, isOne]
      rfl
    · rw [blockMap, one] at inside
      rw [blockMap, isOne, sameDisk]
      exact bit_of_read _ _ inside _ _
    · rw [inodeMap, isOne, inodeSects]
      rfl
    · rw [inodeMap, isOne, inodeSects]
      rfl
    · rw [inodeMap, one] at inside
      rw [inodeMap, inodeSects, sameDisk]
      exact bit_of_read _ _ inside _ _
    · intro calls states ran s membership
      have inodeCnt : part.sb.inodeCnt = 4096 := by
        rw [found]
        rfl
      have started : (InodeMapUse.start part).OneSector part.sb := by
        refine ⟨rfl, ?_, ⟨by simp [InodeMapUse.start], by simp [InodeMapUse.start]⟩⟩
        rw [InodeMapUse.start, inodeMap, one]
      have preserved : ∀ s call s', InodeMapUse.OneSector part.sb s → True →
          s.step full call = .ok s' → InodeMapUse.OneSector part.sb s' :=
        fun s call s' oneSector _ stepped => oneSector.step inodeCnt inodeSects stepped
      exact (invariant_of_trace preserved started (fun _ _ => trivial) ran s membership).inBounds

theorem mountAgrees_small : ∃ disk' part,
    partitionFormat 2048 4709 ampleMemory (Bytes.fill 0) = .ok disk' ∧
    mountPartition 2048 4709 disk' (Bytes.fill 0) (Bytes.fill 0) = .ok part ∧
    part.MountAgrees .asserts := by
  obtain ⟨disk', formatted⟩ : ∃ disk',
      partitionFormat 2048 4709 ampleMemory (Bytes.fill 0) = .ok disk' := ⟨_, rfl⟩
  have written := partitionFormat_found formatted
  obtain ⟨part, ran⟩ := mountPartition_of_found written (by decide) (by decide)
    (Bytes.fill 0) (Bytes.fill 0)
  exact ⟨disk', part, formatted, ran, (mountAgrees_iff .asserts written ran).mpr (by decide)⟩

/-- With 8192 sectors the inode bitmap is said to be twice as long as its buffer. -/
theorem inode_map_too_long : ∃ disk' part,
    partitionFormat 2048 8192 ampleMemory (Bytes.fill 0) = .ok disk' ∧
    mountPartition 2048 8192 disk' (Bytes.fill 0) (Bytes.fill 0) = .ok part ∧
    part.inodeBitmap.btmpBytesLen = 1024 ∧
    bitmapBufSize part.sb.inodeBitmapSects = 512 ∧
    bitmapReadSize part.sb.inodeBitmapSects = 512 ∧ ¬ part.MountAgrees .asserts := by
  obtain ⟨disk', formatted⟩ : ∃ disk',
      partitionFormat 2048 8192 ampleMemory (Bytes.fill 0) = .ok disk' := ⟨_, rfl⟩
  have written := partitionFormat_found formatted
  obtain ⟨part, ran⟩ := mountPartition_of_found written (by decide) (by decide)
    (Bytes.fill 0) (Bytes.fill 0)
  obtain ⟨found, -, -, -, inodeMap⟩ := mountPartition_eq_ok ran
  have len : part.inodeBitmap.btmpBytesLen = 1024 := by
    rw [inodeMap, found, written]
    change (formatSuperBlock 2048 8192).blockBitmapSects.toNat * 512 = 1024
    decide
  have bufSize : bitmapBufSize part.sb.inodeBitmapSects = 512 := by
    rw [found, written]
    decide
  have readSize : bitmapReadSize part.sb.inodeBitmapSects = 512 := by
    rw [found, written]
    decide
  refine ⟨disk', part, formatted, ran, len, bufSize, readSize, fun agrees => ?_⟩
  have equal := agrees.inodeMap.bufSize
  rw [len, bufSize] at equal
  cases equal

end HongbaiOS.Fs
