import HongbaiOS.Fs.Format

/-!
# The layout of a formatted partition

When the areas of a freshly formatted partition are where they should be and its
block bitmap only offers sectors of the partition.  The loop that clears the tail
of the bitmap goes one bit too far; that bit is harmless only when the second
rounding of `block_bitmap_sects` has dropped a sector.
-/

namespace HongbaiOS.Fs

open HongbaiOS.Library HongbaiOS.Kernel HongbaiOS.Device HongbaiOS.Lib

/-- The second rounding drops a sector of the block bitmap. -/
theorem sects_shrink_iff {free : Nat} (room : 2 ≤ free) :
    (free - (free + 4095) / 4096 + 4095) / 4096 < (free + 4095) / 4096 ↔
      (free - 1) % 4096 ≤ (free - 1) / 4096 := by
  have split := Nat.div_add_mod (free - 1) 4096
  have small := Nat.mod_lt (free - 1) (by decide : 4096 > 0)
  have first : (free + 4095) / 4096 = (free - 1) / 4096 + 1 := by omega
  rw [first]
  generalize (free - 1) / 4096 = quotient at *
  generalize (free - 1) % 4096 = remainder at *
  have numerator : free - (quotient + 1) + 4095 = 4095 * quotient + remainder + 4095 := by
    omega
  rw [numerator]
  omega

/-- Super block, block bitmap, inode bitmap, inode table and data, each with its
first sector and its number of sectors. -/
def areas (startLba : UInt32) (sb : SuperBlock) (bitLen : Nat) : List (Nat × Nat) :=
  [(startLba.toNat + 1, 1),
    (sb.blockBitmapLba.toNat, sb.blockBitmapSects.toNat),
    (sb.inodeBitmapLba.toNat, sb.inodeBitmapSects.toNat),
    (sb.inodeTableLba.toNat, sb.inodeTableSects.toNat),
    (sb.dataStartLba.toNat, bitLen)]

/-- The partition that allocates from the block bitmap on the disk. -/
def diskPartition (startLba secCnt : UInt32) (disk : Bytes) : Partition where
  startLba := startLba
  secCnt := secCnt
  myDisk := disk
  sb := diskSuperBlock startLba disk
  blockBitmap := diskBlockBitmap (diskSuperBlock startLba disk) disk
  inodeBitmap := ⟨0, Bytes.fill 0⟩
  openInodes := []

/-- What `partition_format` is there to establish. -/
structure WellFormatted (startLba secCnt : UInt32) (disk : Bytes) : Prop where
  disjoint : (areas startLba (diskSuperBlock startLba disk)
    (blockBitmapBitLen secCnt).toNat).Pairwise
      fun first second => first.1 + first.2 ≤ second.1 ∨ second.1 + second.2 ≤ first.1
  inside : ∀ area ∈ areas startLba (diskSuperBlock startLba disk)
    (blockBitmapBitLen secCnt).toNat,
      startLba.toNat ≤ area.1 ∧ area.1 + area.2 ≤ startLba.toNat + secCnt.toNat
  rootTaken : (diskPartition startLba secCnt disk).blockBitmap.bit 0 = true
  blocksFree : ∀ i, 0 < i → i < (blockBitmapBitLen secCnt).toNat →
    (diskPartition startLba secCnt disk).blockBitmap.bit i = false
  freeInside : ∀ i < (diskPartition startLba secCnt disk).blockBitmap.bitLen,
    (diskPartition startLba secCnt disk).blockBitmap.bit i = false →
      (diskSuperBlock startLba disk).dataStartLba.toNat + i < startLba.toNat + secCnt.toNat
  allocInside : ∀ full n lbas,
    blockBitmapAllocs full n (diskPartition startLba secCnt disk) = .ok lbas →
      ∀ lba ∈ lbas, startLba.toNat ≤ lba.toNat ∧
        lba.toNat < startLba.toNat + secCnt.toNat

/-- The sectors of the block bitmap that `ide_write` leaves out, because it takes
their number modulo 256, already hold the right bits. -/
def LeftOutRight (startLba secCnt : UInt32) (disk : Bytes) : Prop :=
  ∀ i, 4096 * (formatSuperBlock startLba secCnt).blockBitmapSects.toUInt8.toNat ≤ i →
    i < 4096 * (formatSuperBlock startLba secCnt).blockBitmapSects.toNat →
    (i < (blockBitmapBitLen secCnt).toNat →
      (diskBlockBitmap (formatSuperBlock startLba secCnt) disk).bit i = false) ∧
    ((diskBlockBitmap (formatSuperBlock startLba secCnt) disk).bit i = false →
      (formatSuperBlock startLba secCnt).dataStartLba.toNat + i <
        startLba.toNat + secCnt.toNat)

/-- When the bit cleared too much does no harm. -/
def TailRight (startLba secCnt : UInt32) (disk : Bytes) : Prop :=
  (formatSuperBlock startLba secCnt).blockBitmapSects.toNat < 256 ∧
      (secCnt.toNat - 612) % 4096 ≤ (secCnt.toNat - 612) / 4096 ∨
    256 ≤ (formatSuperBlock startLba secCnt).blockBitmapSects.toNat ∧
      LeftOutRight startLba secCnt disk

namespace Formatted

variable {startLba secCnt : UInt32} {disk disk' : Bytes}

/-- The areas lie one after the other and end with the partition or before. -/
theorem areas_inside (formatted : Formatted startLba secCnt disk disk')
    (room : 613 ≤ secCnt.toNat) :
    (areas startLba (formatSuperBlock startLba secCnt)
      (blockBitmapBitLen secCnt).toNat).Pairwise
        (fun first second => first.1 + first.2 ≤ second.1 ∨ second.1 + second.2 ≤ first.1) ∧
    ∀ area ∈ areas startLba (formatSuperBlock startLba secCnt)
      (blockBitmapBitLen secCnt).toNat,
        startLba.toNat ≤ area.1 ∧ area.1 + area.2 ≤ startLba.toNat + secCnt.toNat := by
  have bitLen := formatted.laidOut.bitLen
  have sects := formatted.laidOut.sects
  have blockBitmapLba := formatted.laidOut.blockBitmapLba
  have inodeBitmapLba := formatted.laidOut.inodeBitmapLba
  have inodeTableLba := formatted.laidOut.inodeTableLba
  have dataStartLba := formatted.laidOut.dataStartLba
  have inodeBitmapSects :
      (formatSuperBlock startLba secCnt).inodeBitmapSects.toNat = 1 := by
    change (divRoundUp 4096 4096).toNat = 1
    decide
  have inodeTableSects :
      (formatSuperBlock startLba secCnt).inodeTableSects.toNat = 608 := by
    change (divRoundUp (76 * 4096) 512).toNat = 608
    decide
  constructor
  · simp only [areas, List.pairwise_cons, List.mem_cons, List.not_mem_nil, or_false,
      forall_eq_or_imp, forall_eq, List.Pairwise.nil, and_true, false_implies, implies_true]
    omega
  · simp only [areas, List.mem_cons, List.not_mem_nil, or_false, forall_eq_or_imp, forall_eq]
    omega

theorem alloc_inside (formatted : Formatted startLba secCnt disk disk')
    (freeInside : ∀ i < (diskPartition startLba secCnt disk').blockBitmap.bitLen,
      (diskPartition startLba secCnt disk').blockBitmap.bit i = false →
        (diskSuperBlock startLba disk').dataStartLba.toNat + i <
          startLba.toNat + secCnt.toNat)
    (fits : startLba.toNat + secCnt.toNat ≤ 2 ^ 32) {full : FullScan} {n : Nat}
    {lbas : List UInt32}
    (ran : blockBitmapAllocs full n (diskPartition startLba secCnt disk') = .ok lbas) :
    ∀ lba ∈ lbas, startLba.toNat ≤ lba.toNat ∧
      lba.toNat < startLba.toNat + secCnt.toNat := by
  intro lba membership
  obtain ⟨bitIdx, inMap, free, rfl⟩ := blockBitmapAllocs_free ran lba membership
  have dataStartLba := formatted.laidOut.dataStartLba
  have bound := freeInside bitIdx inMap free
  have sum : ((diskPartition startLba secCnt disk').sb.dataStartLba +
      UInt32.ofNat bitIdx).toNat =
      (diskSuperBlock startLba disk').dataStartLba.toNat + bitIdx := by
    simp only [diskPartition, UInt32.toNat_add, UInt32.toNat_ofNat']
    omega
  rw [sum]
  rw [formatted.superBlock] at bound ⊢
  omega

/-- Exactly when the formatted partition is as it should be. -/
theorem wellFormatted_iff (formatted : Formatted startLba secCnt disk disk')
    (room : 613 ≤ secCnt.toNat) (fits : startLba.toNat + secCnt.toNat ≤ 2 ^ 32) :
    WellFormatted startLba secCnt disk' ↔ TailRight startLba secCnt disk := by
  have bitLen := formatted.laidOut.bitLen
  have sects := formatted.laidOut.sects
  have dataStartLba := formatted.laidOut.dataStartLba
  have truncated := UInt32.toNat_toUInt8 (formatSuperBlock startLba secCnt).blockBitmapSects
  have positive : 0 < (formatSuperBlock startLba secCnt).blockBitmapSects.toUInt8.toNat :=
    formatted.someSects
  have superBlock := formatted.superBlock
  have shrinkIff : (formatSuperBlock startLba secCnt).blockBitmapSects.toNat <
      (secCnt.toNat - 611 + 4095) / 4096 ↔
        (secCnt.toNat - 612) % 4096 ≤ (secCnt.toNat - 612) / 4096 := by
    rw [sects, bitLen, sects_shrink_iff (by omega), Nat.sub_sub]
  have bitmapLen : (diskPartition startLba secCnt disk').blockBitmap.bitLen =
      4096 * (formatSuperBlock startLba secCnt).blockBitmapSects.toNat := by
    simp only [diskPartition, superBlock, diskBlockBitmap, Bitmap.bitLen]
    omega
  have bitmap : (diskPartition startLba secCnt disk').blockBitmap =
      diskBlockBitmap (formatSuperBlock startLba secCnt) disk' := by
    simp only [diskPartition, superBlock]
  constructor
  · intro wellFormatted
    have freeInside := wellFormatted.freeInside
    have blocksFree := wellFormatted.blocksFree
    rw [bitmapLen, bitmap, superBlock] at freeInside
    rw [bitmap] at blocksFree
    by_cases counted : (formatSuperBlock startLba secCnt).blockBitmapSects.toNat < 256
    · left
      refine ⟨counted, shrinkIff.mp ?_⟩
      -- the bit after the last block is free; where it is in the map it has to be harmless
      by_cases inMap : (blockBitmapBitLen secCnt).toNat <
          4096 * (formatSuperBlock startLba secCnt).blockBitmapSects.toNat
      · have free : (diskBlockBitmap (formatSuperBlock startLba secCnt) disk').bit
            (blockBitmapBitLen secCnt).toNat = false := by
          rw [formatted.bit_written (by omega)]
          exact decide_eq_false (by omega)
        have harmless := freeInside _ inMap free
        omega
      · omega
    · right
      refine ⟨by omega, fun i low high => ⟨fun inside => ?_, fun free => ?_⟩⟩
      · rw [← formatted.bit_kept low high]
        exact blocksFree i (by omega) inside
      · rw [← formatted.bit_kept low high] at free
        exact freeInside i high free
  · intro tailRight
    have freeInside : ∀ i < (diskPartition startLba secCnt disk').blockBitmap.bitLen,
        (diskPartition startLba secCnt disk').blockBitmap.bit i = false →
          (diskSuperBlock startLba disk').dataStartLba.toNat + i <
            startLba.toNat + secCnt.toNat := by
      rw [bitmapLen, bitmap, superBlock]
      intro i high free
      by_cases isWritten :
          i < 4096 * (formatSuperBlock startLba secCnt).blockBitmapSects.toUInt8.toNat
      · rw [formatted.bit_written isWritten, decide_eq_false_iff_not] at free
        rcases tailRight with ⟨-, shrinks⟩ | ⟨large, -⟩
        · have dropped := shrinkIff.mpr shrinks
          omega
        · omega
      · rw [formatted.bit_kept (by omega) high] at free
        rcases tailRight with ⟨small, -⟩ | ⟨-, leftOut⟩
        · omega
        · exact (leftOut i (by omega) high).2 free
    obtain ⟨disjoint, inside⟩ := formatted.areas_inside room
    refine ⟨?_, ?_, ?_, ?_, freeInside, fun full n lbas ran =>
      formatted.alloc_inside freeInside fits ran⟩
    · rw [superBlock]
      exact disjoint
    · rw [superBlock]
      exact inside
    · rw [bitmap, formatted.bit_written (by omega)]
      apply decide_eq_true
      rcases tailRight with ⟨-, shrinks⟩ | ⟨large, -⟩
      · have dropped := shrinkIff.mpr shrinks
        omega
      · omega
    · intro i nonzero small
      rw [bitmap]
      by_cases isWritten :
          i < 4096 * (formatSuperBlock startLba secCnt).blockBitmapSects.toUInt8.toNat
      · rw [formatted.bit_written isWritten]
        exact decide_eq_false (by omega)
      · rw [formatted.bit_kept (by omega) (by omega)]
        rcases tailRight with ⟨counted, -⟩ | ⟨-, leftOut⟩
        · omega
        · exact (leftOut i (by omega) (by omega)).1 small

end Formatted

/-- A partition that `partition_format` returns from is well formatted exactly if
the bit cleared after the last block is harmless. -/
theorem partitionFormat_wellFormatted_iff {startLba secCnt : UInt32} {mem : FormatMemory}
    {disk disk' : Bytes} (room : 613 ≤ secCnt.toNat)
    (fits : startLba.toNat + secCnt.toNat ≤ 2 ^ 32)
    (ran : partitionFormat startLba secCnt mem disk = .ok disk') :
    WellFormatted startLba secCnt disk' ↔ TailRight startLba secCnt disk :=
  (partitionFormat_formatted room fits ran).wellFormatted_iff room fits

/-- With 4708 sectors the second rounding drops a sector and all is well. -/
theorem partitionFormat_wellFormatted_4708 :
    ∃ disk', partitionFormat 2048 4708 ampleMemory (Bytes.fill 0) = .ok disk' ∧
      WellFormatted 2048 4708 disk' := by
  obtain ⟨disk', ran⟩ : ∃ disk',
      partitionFormat 2048 4708 ampleMemory (Bytes.fill 0) = .ok disk' := ⟨_, rfl⟩
  refine ⟨disk', ran, ?_⟩
  exact (partitionFormat_wellFormatted_iff (by decide) (by decide) ran).mpr
    (Or.inl (by decide))

/-- With 8192 sectors the map offers the first sector behind the partition. -/
theorem partitionFormat_tail_wrong_8192 :
    ∃ disk', partitionFormat 2048 8192 ampleMemory (Bytes.fill 0) = .ok disk' ∧
      ¬ WellFormatted 2048 8192 disk' := by
  obtain ⟨disk', ran⟩ : ∃ disk',
      partitionFormat 2048 8192 ampleMemory (Bytes.fill 0) = .ok disk' := ⟨_, rfl⟩
  refine ⟨disk', ran, ?_⟩
  have formatted := partitionFormat_formatted (by decide) (by decide) ran
  rw [formatted.wellFormatted_iff (by decide) (by decide)]
  rintro (⟨-, shrinks⟩ | ⟨large, -⟩)
  · revert shrinks
    decide
  · revert large
    decide

end HongbaiOS.Fs
