import HongbaiOS.Device.Transfer
import HongbaiOS.Fs.Format

/-!
# The sectors that formatting writes

`partition_format` as a list of transfers, of which those before the first failing
assertion reach the disk: where they lie for every size of a partition, and what the areas
hold when all of them were made.
-/

namespace HongbaiOS.Fs

open HongbaiOS.Library HongbaiOS.Kernel HongbaiOS.Device

/-- A call of `ide_write`. -/
structure SectorWrite where
  lba : Nat
  buf : Bytes
  secCnt : UInt8

namespace SectorWrite

def run (disk : Bytes) (write : SectorWrite) : Except Halt Bytes :=
  ideWrite disk write.lba write.buf write.secCnt

/-- The assertions of `ide_write`. -/
def Accepted (write : SectorWrite) : Prop := write.lba ≤ maxLba ∧ 0 < write.secCnt.toNat

instance (write : SectorWrite) : Decidable write.Accepted :=
  inferInstanceAs (Decidable (_ ∧ _))

/-- The sectors written are among the `secCnt` sectors from `startLba` on. -/
def Inside (startLba secCnt : UInt32) (write : SectorWrite) : Prop :=
  startLba.toNat ≤ write.lba ∧
    write.lba + write.secCnt.toNat ≤ startLba.toNat + secCnt.toNat

end SectorWrite

/-- The buffer written as inode bitmap. -/
def initInodeBitmap : Bytes := Function.update (Bytes.fill 0) 0 ((0 : UInt8) ||| 0x1)

/-- The buffer written as inode table. -/
def initInodeTable (sb : SuperBlock) : Bytes :=
  (Bytes.fill 0).splice 0 inodeSize (rootInode sb).bytes

/-- The calls of `ide_write` in `partition_format`. -/
def formatWrites (startLba secCnt : UInt32) (pad : Nat → UInt32) : List SectorWrite :=
  let sb := formatSuperBlock startLba secCnt
  [⟨(startLba + 1).toNat, Bytes.ofWords (sb.words pad), 1⟩,
    ⟨sb.blockBitmapLba.toNat, initBlockBitmap (blockBitmapBitLen secCnt),
      sb.blockBitmapSects.toUInt8⟩,
    ⟨sb.inodeBitmapLba.toNat, initInodeBitmap, sb.inodeBitmapSects.toUInt8⟩,
    ⟨sb.inodeTableLba.toNat, initInodeTable sb, sb.inodeTableSects.toUInt8⟩,
    ⟨sb.dataStartLba.toNat, rootBlock, 1⟩]

/-- The transfers that are made: those before the first that fails, and only the super block's
where there is no buffer for the others. -/
def performed (startLba secCnt : UInt32) (mem : FormatMemory) : List SectorWrite :=
  ((formatWrites startLba secCnt mem.pad).take
    (if formatBuffer mem startLba secCnt = .ok () then 5 else 1)).takeWhile
      fun write => write.Accepted

theorem partitionFormat_eq_foldlM (startLba secCnt : UInt32) (mem : FormatMemory)
    (disk : Bytes) : partitionFormat startLba secCnt mem disk =
      ((formatWrites startLba secCnt mem.pad).take 1).foldlM SectorWrite.run disk >>= fun disk =>
        formatBuffer mem startLba secCnt >>= fun _ =>
          ((formatWrites startLba secCnt mem.pad).drop 1).foldlM SectorWrite.run disk := by
  simp only [partitionFormat, formatWrites, List.take_succ_cons, List.take_zero,
    List.drop_succ_cons, List.drop_zero, List.foldlM_cons, List.foldlM_nil, SectorWrite.run,
    initInodeBitmap, initInodeTable, bind_pure]

theorem partitionFormat_eq_ok {startLba secCnt : UInt32} {mem : FormatMemory}
    {disk disk' : Bytes} : partitionFormat startLba secCnt mem disk = .ok disk' ↔
      formatBuffer mem startLba secCnt = .ok () ∧
        (formatWrites startLba secCnt mem.pad).foldlM SectorWrite.run disk = .ok disk' := by
  conv_rhs => rw [← List.take_append_drop 1 (formatWrites startLba secCnt mem.pad)]
  rw [partitionFormat_eq_foldlM, List.foldlM_append]
  constructor
  · intro ran
    obtain ⟨next, first, ran⟩ := except_bind_eq_ok.mp ran
    obtain ⟨_, given, ran⟩ := except_bind_eq_ok.mp ran
    exact ⟨given, by rw [first, ok_bind, ran]⟩
  · rintro ⟨given, ran⟩
    simpa only [given, ok_bind] using ran

theorem SectorWrite.run_eq {write : SectorWrite} {disk : Bytes} :
    (write.Accepted → write.run disk =
        .ok (disk.splice (512 * write.lba) (512 * write.secCnt.toNat) write.buf)) ∧
      (¬ write.Accepted → ∀ disk', write.run disk ≠ .ok disk') := by
  constructor
  · rintro ⟨addressed, some⟩
    exact ideWrite_eq addressed some
  · intro refused disk' ran
    obtain ⟨addressed, some, -⟩ := ideWrite_eq_ok.mp ran
    exact refused ⟨addressed, some⟩

section

variable {writes : List SectorWrite} {disk disk' : Bytes}

theorem SectorWrite.returns_iff {write : SectorWrite} :
    (∃ disk', write.run disk = .ok disk') ↔ write.Accepted := by
  constructor
  · rintro ⟨disk', ran⟩
    by_contra refused
    exact SectorWrite.run_eq.2 refused disk' ran
  · intro accepted
    exact ⟨_, SectorWrite.run_eq.1 accepted⟩

/-- All transfers are made exactly if none fails an assertion. -/
theorem writes_return_iff : (∃ disk', writes.foldlM SectorWrite.run disk = .ok disk') ↔
    ∀ write ∈ writes, write.Accepted :=
  foldlM_returns_iff (fun _ _ => True) SectorWrite.Accepted (fun _ _ _ _ _ _ => trivial)
    (fun _ _ _ _ => SectorWrite.returns_iff) trivial

/-- The bytes that no transfer covers are as they were. -/
theorem writes_frame {a : Nat} (ran : writes.foldlM SectorWrite.run disk = .ok disk')
    (missed : ∀ write ∈ writes,
      a < 512 * write.lba ∨ 512 * write.lba + 512 * write.secCnt.toNat ≤ a) :
    disk' a = disk a := by
  refine (foldlM_rest (fun rest now => (∀ write ∈ rest,
      a < 512 * write.lba ∨ 512 * write.lba + 512 * write.secCnt.toNat ≤ a) ∧ now a = disk a)
    ?_ ⟨missed, rfl⟩ ran).2
  rintro write rest now next ⟨missed, same⟩ step
  obtain ⟨missedNow, missedLater⟩ := List.forall_mem_cons.mp missed
  have accepted := SectorWrite.returns_iff.mp ⟨next, step⟩
  obtain rfl := Except.ok.inj ((SectorWrite.run_eq.1 accepted).symm.trans step)
  exact ⟨missedLater, (Bytes.splice_outside missedNow).trans same⟩

end

section Places

variable {startLba secCnt : UInt32} {mem : FormatMemory} {disk disk' : Bytes}

/-- Without room for the metadata the block bitmap is computed to have no sector. -/
theorem blockBitmapSects_eq_zero (startLba : UInt32) (small : secCnt.toNat < 613) :
    (formatSuperBlock startLba secCnt).blockBitmapSects.toNat = 0 := by
  have freeNat : (freeSects secCnt).toNat = (2 ^ 32 - 611 + secCnt.toNat) % 2 ^ 32 := by
    rw [freeSects, UInt32.toNat_sub, usedSects_toNat]
  have bitLenNat : (blockBitmapBitLen secCnt).toNat =
      (2 ^ 32 - ((freeSects secCnt).toNat + 4095) % 2 ^ 32 / 4096 + (freeSects secCnt).toNat) %
        2 ^ 32 := by
    rw [blockBitmapBitLen, UInt32.toNat_sub, divRoundUp_4096_toNat]
  have sectsNat : (formatSuperBlock startLba secCnt).blockBitmapSects.toNat =
      ((blockBitmapBitLen secCnt).toNat + 4095) % 2 ^ 32 / 4096 :=
    divRoundUp_4096_toNat _
  rcases (by omega : secCnt.toNat < 611 ∨ secCnt.toNat = 611 ∨ secCnt.toNat = 612) with
    wraps | none | one
  · -- the difference is near `2 ^ 32` and both rounded sums wrap
    have free : (freeSects secCnt).toNat = 2 ^ 32 - 611 + secCnt.toNat := by omega
    have rounded : ((freeSects secCnt).toNat + 4095) % 2 ^ 32 / 4096 = 0 := by omega
    have bitLen : (blockBitmapBitLen secCnt).toNat = (freeSects secCnt).toNat := by omega
    rw [sectsNat, bitLen, rounded]
  · have free : (freeSects secCnt).toNat = 0 := by omega
    have bitLen : (blockBitmapBitLen secCnt).toNat = 0 := by
      rw [bitLenNat, free]
      decide
    rw [sectsNat, bitLen]
    decide
  · have free : (freeSects secCnt).toNat = 1 := by omega
    have bitLen : (blockBitmapBitLen secCnt).toNat = 0 := by
      rw [bitLenNat, free]
      decide
    rw [sectsNat, bitLen]
    decide

/-- From 613 sectors on no subtraction wraps, and the areas end inside the partition. -/
theorem blockBitmapSects_le (startLba : UInt32) (room : 613 ≤ secCnt.toNat) :
    (formatSuperBlock startLba secCnt).blockBitmapSects.toNat + 612 ≤ secCnt.toNat := by
  have bound := secCnt.toNat_lt
  have freeNat : (freeSects secCnt).toNat = secCnt.toNat - 611 := by
    rw [freeSects, UInt32.toNat_sub, usedSects_toNat]
    omega
  have bitLenNat : (blockBitmapBitLen secCnt).toNat =
      secCnt.toNat - 611 - (secCnt.toNat - 611 + 4095) % 2 ^ 32 / 4096 := by
    rw [blockBitmapBitLen, UInt32.toNat_sub, divRoundUp_4096_toNat, freeNat]
    omega
  have sectsNat : (formatSuperBlock startLba secCnt).blockBitmapSects.toNat =
      ((blockBitmapBitLen secCnt).toNat + 4095) % 2 ^ 32 / 4096 :=
    divRoundUp_4096_toNat _
  omega

/-- The sector counts that are the same for every partition, as `ide_write` gets them. -/
theorem fixedSects (startLba secCnt : UInt32) :
    (formatSuperBlock startLba secCnt).inodeBitmapSects.toUInt8.toNat = 1 ∧
    (formatSuperBlock startLba secCnt).inodeBitmapSects.toNat = 1 ∧
    (formatSuperBlock startLba secCnt).inodeTableSects.toUInt8.toNat = 96 ∧
    (formatSuperBlock startLba secCnt).inodeTableSects.toNat = 608 := by
  change (divRoundUp 4096 4096).toUInt8.toNat = 1 ∧ (divRoundUp 4096 4096).toNat = 1 ∧
    (divRoundUp (76 * 4096) 512).toUInt8.toNat = 96 ∧ (divRoundUp (76 * 4096) 512).toNat = 608
  decide

/-- Where the areas begin, counted from the super block. -/
structure Placed (startLba secCnt : UInt32) : Prop where
  blockBitmapLba : (formatSuperBlock startLba secCnt).blockBitmapLba.toNat =
    (startLba + 1).toNat + 1
  inodeBitmapLba : (formatSuperBlock startLba secCnt).inodeBitmapLba.toNat =
    (startLba + 1).toNat + 1 + (formatSuperBlock startLba secCnt).blockBitmapSects.toNat
  inodeTableLba : (formatSuperBlock startLba secCnt).inodeTableLba.toNat =
    (startLba + 1).toNat + 2 + (formatSuperBlock startLba secCnt).blockBitmapSects.toNat
  dataStartLba : (formatSuperBlock startLba secCnt).dataStartLba.toNat =
    (startLba + 1).toNat + 610 + (formatSuperBlock startLba secCnt).blockBitmapSects.toNat

/-- Behind a super block that the driver reaches no address wraps. -/
theorem placed (secCnt : UInt32) (addressed : (startLba + 1).toNat ≤ maxLba) :
    Placed startLba secCnt := by
  have top : maxLba < 2 ^ 31 := by decide
  have few : (formatSuperBlock startLba secCnt).blockBitmapSects.toNat < 2 ^ 20 := by
    have sectsNat : (formatSuperBlock startLba secCnt).blockBitmapSects.toNat =
        ((blockBitmapBitLen secCnt).toNat + 4095) % 2 ^ 32 / 4096 :=
      divRoundUp_4096_toNat _
    omega
  have first : (startLba + 1).toNat = (startLba.toNat + 1) % 2 ^ 32 := UInt32.toNat_add _ _
  have blockBitmapLba : (formatSuperBlock startLba secCnt).blockBitmapLba.toNat =
      (startLba.toNat + 2) % 2 ^ 32 := UInt32.toNat_add _ _
  have inodeBitmapLba : (formatSuperBlock startLba secCnt).inodeBitmapLba.toNat =
      ((formatSuperBlock startLba secCnt).blockBitmapLba.toNat +
        (formatSuperBlock startLba secCnt).blockBitmapSects.toNat) % 2 ^ 32 :=
    UInt32.toNat_add _ _
  have inodeTableLba : (formatSuperBlock startLba secCnt).inodeTableLba.toNat =
      ((formatSuperBlock startLba secCnt).inodeBitmapLba.toNat + 1) % 2 ^ 32 :=
    UInt32.toNat_add _ _
  have dataStartLba : (formatSuperBlock startLba secCnt).dataStartLba.toNat =
      ((formatSuperBlock startLba secCnt).inodeTableLba.toNat + 608) % 2 ^ 32 :=
    UInt32.toNat_add _ _
  have bound := startLba.toNat_lt
  constructor <;> omega

end Places

/-- A partition with fewer sectors than boot sector, super block, both bitmaps, inode
table and root directory take. -/
def TooSmall (secCnt : UInt32) : Prop := secCnt.toNat < 613

/-- Formatting keeps to the partition, leaves a small one alone, and computes its sizes
without a wrap. -/
structure KeepsInside (startLba secCnt : UInt32) (mem : FormatMemory) (disk : Bytes) :
    Prop where
  writes : ∀ write ∈ performed startLba secCnt mem, write.Inside startLba secCnt
  leftAlone : TooSmall secCnt → partitionFormat startLba secCnt mem disk = .ok disk
  freeNoWrap : usedSects ≤ secCnt
  bitLenNoWrap : divRoundUp (freeSects secCnt) 4096 ≤ freeSects secCnt

section

variable {startLba secCnt : UInt32} {mem : FormatMemory} {disk disk' : Bytes}

theorem partitionFormat_tooSmall (small : TooSmall secCnt) :
    partitionFormat startLba secCnt mem disk ≠ .ok disk' := by
  intro ran
  obtain ⟨_, -, ran⟩ := except_bind_eq_ok.mp ran
  obtain ⟨_, -, ran⟩ := except_bind_eq_ok.mp ran
  obtain ⟨_, second, -⟩ := except_bind_eq_ok.mp ran
  obtain ⟨-, some, -⟩ := ideWrite_eq_ok.mp second
  have positive : 0 < (formatSuperBlock startLba secCnt).blockBitmapSects.toUInt8.toNat := some
  have none := blockBitmapSects_eq_zero startLba small
  rw [UInt32.toNat_toUInt8] at positive
  omega

theorem mem_performed {write : SectorWrite} (made : write ∈ performed startLba secCnt mem) :
    write ∈ formatWrites startLba secCnt mem.pad ∧ write.Accepted :=
  ⟨List.mem_of_mem_take ((List.takeWhile_sublist _).mem made),
    by simpa using List.mem_takeWhile_imp made⟩

/-- The first transfer. -/
def superBlockWrite (startLba secCnt : UInt32) (pad : Nat → UInt32) : SectorWrite :=
  ⟨(startLba + 1).toNat, Bytes.ofWords ((formatSuperBlock startLba secCnt).words pad), 1⟩

theorem take_formatWrites (startLba secCnt : UInt32) (mem : FormatMemory) :
    ∃ rest, (formatWrites startLba secCnt mem.pad).take
      (if formatBuffer mem startLba secCnt = .ok () then 5 else 1) =
        superBlockWrite startLba secCnt mem.pad :: rest := by
  split <;> exact ⟨_, rfl⟩

/-- Whether the super block is written depends on its own sector number only. -/
theorem superBlock_performed (addressed : (startLba + 1).toNat ≤ maxLba) :
    superBlockWrite startLba secCnt mem.pad ∈ performed startLba secCnt mem := by
  obtain ⟨rest, first⟩ := take_formatWrites startLba secCnt mem
  rw [performed, first, List.takeWhile_cons_of_pos]
  · exact List.mem_cons_self
  · exact decide_eq_true ⟨addressed, Nat.one_pos⟩

theorem performed_eq_nil (behind : ¬ (startLba + 1).toNat ≤ maxLba) :
    performed startLba secCnt mem = [] := by
  obtain ⟨rest, first⟩ := take_formatWrites startLba secCnt mem
  rw [performed, first, List.takeWhile_cons_of_neg]
  exact fun accepted => behind (of_decide_eq_true accepted).1

/-- Formatting a partition keeps to it exactly if the partition has room for the metadata
and does not start at the last sector number. -/
theorem keepsInside_iff (startLba secCnt : UInt32) (mem : FormatMemory) (disk : Bytes) :
    KeepsInside startLba secCnt mem disk ↔
      613 ≤ secCnt.toNat ∧ startLba.toNat ≠ 2 ^ 32 - 1 := by
  constructor
  · intro keeps
    refine ⟨?_, fun last => ?_⟩
    · by_contra small
      exact partitionFormat_tooSmall (Nat.lt_of_not_le small)
        (keeps.leftAlone (Nat.lt_of_not_le small))
    · -- the super block goes to sector 0
      have zero : (startLba + 1).toNat = 0 := by
        rw [UInt32.toNat_add, last]
        rfl
      have made := @superBlock_performed startLba secCnt mem (zero.trans_le (Nat.zero_le maxLba))
      have inside : startLba.toNat ≤ (startLba + 1).toNat := (keeps.writes _ made).1
      rw [zero, last] at inside
      cases inside
  · rintro ⟨room, notLast⟩
    have bound := secCnt.toNat_lt
    have first : (startLba + 1).toNat = startLba.toNat + 1 := by
      have startBound := startLba.toNat_lt
      have sum : (startLba + 1).toNat = (startLba.toNat + 1) % 2 ^ 32 := UInt32.toNat_add _ _
      omega
    have freeNat : (freeSects secCnt).toNat = secCnt.toNat - 611 := by
      rw [freeSects, UInt32.toNat_sub, usedSects_toNat]
      omega
    refine ⟨fun write made => ?_, fun small => absurd small (Nat.not_lt.mpr room), ?_, ?_⟩
    · have addressed : (startLba + 1).toNat ≤ maxLba := by
        by_contra behind
        rw [performed_eq_nil behind] at made
        cases made
      have places := placed secCnt addressed
      have blockBitmapLba := places.blockBitmapLba
      have inodeBitmapLba := places.inodeBitmapLba
      have inodeTableLba := places.inodeTableLba
      have dataStartLba := places.dataStartLba
      have truncated := UInt32.toNat_toUInt8
        (formatSuperBlock startLba secCnt).blockBitmapSects
      have sects := blockBitmapSects_le startLba room
      obtain ⟨inodeSects, -, tableSects, -⟩ := fixedSects startLba secCnt
      have one : (1 : UInt8).toNat = 1 := rfl
      have member := (mem_performed made).1
      simp only [formatWrites, List.mem_cons, List.not_mem_nil, or_false] at member
      rcases member with rfl | rfl | rfl | rfl | rfl
      all_goals
        simp only [SectorWrite.Inside]
        omega
    · rw [UInt32.le_iff_toNat_le, usedSects_toNat]
      omega
    · rw [UInt32.le_iff_toNat_le, divRoundUp_4096_toNat, freeNat]
      omega

end

/-- A partition of one sector: the super block goes to the sector behind it. -/
theorem oneSector_overwrites_neighbour :
    ¬ KeepsInside 2048 1 ampleMemory (Bytes.fill 0) ∧
      ∃ write ∈ performed 2048 1 ampleMemory, write.lba = 2049 := by
  have made := @superBlock_performed 2048 1 ampleMemory (by decide)
  refine ⟨fun keeps => ?_, _, made, rfl⟩
  have written := (keeps.writes _ made).2
  revert written
  decide

/-- Both bitmaps and the inode table are on the disk as they were prepared in `buf`. -/
structure Prepared (startLba secCnt : UInt32) (disk' : Bytes) : Prop where
  blockBitmap : Bytes.SameHead (512 * (formatSuperBlock startLba secCnt).blockBitmapSects.toNat)
    (disk'.window (512 * (formatSuperBlock startLba secCnt).blockBitmapLba.toNat))
    (initBlockBitmap (blockBitmapBitLen secCnt))
  inodeBitmap : Bytes.SameHead (512 * (formatSuperBlock startLba secCnt).inodeBitmapSects.toNat)
    (disk'.window (512 * (formatSuperBlock startLba secCnt).inodeBitmapLba.toNat))
    initInodeBitmap
  inodeTable : Bytes.SameHead (512 * (formatSuperBlock startLba secCnt).inodeTableSects.toNat)
    (disk'.window (512 * (formatSuperBlock startLba secCnt).inodeTableLba.toNat))
    (initInodeTable (formatSuperBlock startLba secCnt))

/-- The sectors that `ide_write` leaves out, because it takes their number modulo 256,
already hold what was prepared for them. -/
structure LeftOutHeld (startLba secCnt : UInt32) (disk : Bytes) : Prop where
  blockBitmap : ∀ a, 512 * (formatSuperBlock startLba secCnt).blockBitmapSects.toUInt8.toNat ≤ a →
    a < 512 * (formatSuperBlock startLba secCnt).blockBitmapSects.toNat →
    disk (512 * (formatSuperBlock startLba secCnt).blockBitmapLba.toNat + a) =
      initBlockBitmap (blockBitmapBitLen secCnt) a
  inodeTable : ∀ a, 512 * 96 ≤ a → a < 512 * 608 →
    disk (512 * (formatSuperBlock startLba secCnt).inodeTableLba.toNat + a) =
      initInodeTable (formatSuperBlock startLba secCnt) a

section

variable {startLba secCnt : UInt32} {mem : FormatMemory} {disk disk' : Bytes}

theorem partitionFormat_areas (ran : partitionFormat startLba secCnt mem disk = .ok disk') :
    (∀ a < 512 * (formatSuperBlock startLba secCnt).blockBitmapSects.toNat,
      disk' (512 * (formatSuperBlock startLba secCnt).blockBitmapLba.toNat + a) =
        if a < 512 * (formatSuperBlock startLba secCnt).blockBitmapSects.toUInt8.toNat then
          initBlockBitmap (blockBitmapBitLen secCnt) a
        else disk (512 * (formatSuperBlock startLba secCnt).blockBitmapLba.toNat + a)) ∧
    (∀ a < 512, disk' (512 * (formatSuperBlock startLba secCnt).inodeBitmapLba.toNat + a) =
      initInodeBitmap a) ∧
    ∀ a < 512 * 608, disk' (512 * (formatSuperBlock startLba secCnt).inodeTableLba.toNat + a) =
      if a < 512 * 96 then initInodeTable (formatSuperBlock startLba secCnt) a
      else disk (512 * (formatSuperBlock startLba secCnt).inodeTableLba.toNat + a) := by
  obtain ⟨_, first, ran⟩ := except_bind_eq_ok.mp ran
  obtain ⟨_, -, ran⟩ := except_bind_eq_ok.mp ran
  obtain ⟨_, second, ran⟩ := except_bind_eq_ok.mp ran
  obtain ⟨_, third, ran⟩ := except_bind_eq_ok.mp ran
  obtain ⟨_, fourth, fifth⟩ := except_bind_eq_ok.mp ran
  obtain ⟨addressed, -, rfl⟩ := ideWrite_eq_ok.mp first
  obtain ⟨-, -, rfl⟩ := ideWrite_eq_ok.mp second
  obtain ⟨-, -, rfl⟩ := ideWrite_eq_ok.mp third
  obtain ⟨-, -, rfl⟩ := ideWrite_eq_ok.mp fourth
  obtain ⟨-, -, rfl⟩ := ideWrite_eq_ok.mp fifth
  have places := placed secCnt addressed
  have blockBitmapLba := places.blockBitmapLba
  have inodeBitmapLba := places.inodeBitmapLba
  have inodeTableLba := places.inodeTableLba
  have dataStartLba := places.dataStartLba
  obtain ⟨inodeSects, -, tableSects, -⟩ := fixedSects startLba secCnt
  have one : (1 : UInt8).toNat = 1 := rfl
  have truncated : (formatSuperBlock startLba secCnt).blockBitmapSects.toUInt8.toNat ≤
      (formatSuperBlock startLba secCnt).blockBitmapSects.toNat := by
    rw [UInt32.toNat_toUInt8]
    exact Nat.mod_le _ _
  simp only [inodeSects, tableSects, one]
  refine ⟨fun a inArea => ?_, fun a inArea => ?_, fun a inArea => ?_⟩
  · rw [Bytes.splice_outside (by omega), Bytes.splice_outside (by omega),
      Bytes.splice_outside (by omega)]
    split
    next isWritten => exact Bytes.splice_add isWritten
    next isLeft => rw [Bytes.splice_outside (by omega), Bytes.splice_outside (by omega)]
  · rw [Bytes.splice_outside (by omega), Bytes.splice_outside (by omega)]
    exact Bytes.splice_add inArea
  · rw [Bytes.splice_outside (by omega)]
    split
    next isWritten => exact Bytes.splice_add isWritten
    next isLeft =>
      rw [Bytes.splice_outside (by omega), Bytes.splice_outside (by omega),
        Bytes.splice_outside (by omega), Bytes.splice_outside (by omega)]

theorem prepared_iff (ran : partitionFormat startLba secCnt mem disk = .ok disk') :
    Prepared startLba secCnt disk' ↔ LeftOutHeld startLba secCnt disk := by
  obtain ⟨bitmap, inodeBitmap, table⟩ := partitionFormat_areas ran
  obtain ⟨-, inodeSects, -, tableSects⟩ := fixedSects startLba secCnt
  constructor
  · intro prepared
    refine ⟨fun a low high => ?_, fun a low high => ?_⟩
    · rw [← prepared.blockBitmap a high, Bytes.window_apply, bitmap a high,
        if_neg (Nat.not_lt.mpr low)]
    · rw [← prepared.inodeTable a (by omega), Bytes.window_apply, table a high,
        if_neg (Nat.not_lt.mpr low)]
  · intro held
    refine ⟨fun a inArea => ?_, fun a inArea => ?_, fun a inArea => ?_⟩
    · rw [Bytes.window_apply, bitmap a inArea]
      split
      next => rfl
      next isLeft => exact held.blockBitmap a (Nat.le_of_not_lt isLeft) inArea
    · exact inodeBitmap a (by omega)
    · rw [Bytes.window_apply, table a (by omega)]
      split
      next => rfl
      next isLeft => exact held.inodeTable a (Nat.le_of_not_lt isLeft) (by omega)

end

/-- A transfer is complete exactly if its number of sectors fits into a byte, and the areas
of a formatted partition are as prepared exactly if the sectors left out were so before. -/
theorem transfers_iff (lba n : UInt32) :
    (TransfersAll lba n ↔ lba.toNat ≤ maxLba ∧ 0 < n.toNat ∧ n.toNat < 256) ∧
      ∀ startLba secCnt mem disk disk', partitionFormat startLba secCnt mem disk = .ok disk' →
        (Prepared startLba secCnt disk' ↔ LeftOutHeld startLba secCnt disk) :=
  ⟨transfersAll_iff, fun _ _ _ _ _ ran => prepared_iff ran⟩

/-- The inode table has 608 sectors, of which 96 are written: on a disk of ones the others
stay as they were. -/
theorem inodeTable_left_out : ¬ TransfersAll 2048 608 ∧
    ∃ disk', partitionFormat 2048 4708 ampleMemory (Bytes.fill 0xff) = .ok disk' ∧
      ¬ Prepared 2048 4708 disk' := by
  constructor
  · rw [transfersAll_iff]
    decide
  · obtain ⟨disk', ran⟩ : ∃ disk',
        partitionFormat 2048 4708 ampleMemory (Bytes.fill 0xff) = .ok disk' := ⟨_, rfl⟩
    refine ⟨disk', ran, fun prepared => ?_⟩
    have held := ((prepared_iff ran).mp prepared).inodeTable (512 * 96) (by decide) (by decide)
    rw [initInodeTable, Bytes.splice_outside (by decide)] at held
    cases held

end HongbaiOS.Fs
