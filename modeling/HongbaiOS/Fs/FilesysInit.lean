import HongbaiOS.Device.PartitionScan
import HongbaiOS.Fs.FormatWrites

/-!
# Searching for file systems

The loop of `filesys_init` over the partitions of all file disks: one without a super block
is formatted.  `part_idx` is set to 0 before the loops and not for each disk, so only the
partitions of the first disk are looked at.  Where partitions overlap, a formatting may take the
super block of another one away, or leave one that is found later.
-/

namespace HongbaiOS.Fs

open HongbaiOS.Library HongbaiOS.Kernel HongbaiOS.Device HongbaiOS.Lib

/-- `struct partition`, the members set by `ide_init`. -/
structure PartSlot where
  startLba : UInt32
  secCnt : UInt32

/-- The partitions of `channels[c].devices[1]`: four primary and eight logical ones. -/
structure FileDisk where
  primParts : Nat → PartSlot
  logicParts : Nat → PartSlot

/-- `*part` -/
def FileDisk.slot (hd : FileDisk) : PartTag → PartSlot
  | .prim i => hd.primParts i
  | .logic i => hd.logicParts i

/-- `part++` -/
def nextPart : PartTag → PartTag
  | .prim i => .prim (i + 1)
  | .logic i => .logic (i + 1)

/-- The slots in the order of the loop. -/
def allSlots : List PartTag :=
  [.prim 0, .prim 1, .prim 2, .prim 3, .logic 0, .logic 1, .logic 2, .logic 3, .logic 4,
    .logic 5, .logic 6, .logic 7]

/-- The super block of the partition has the magic number. -/
def HoldsFs (sectors : Bytes) (p : PartSlot) : Prop :=
  (SuperBlock.ofBytes (sectors.window (512 * (p.startLba + 1).toNat))).magic = 0x20250325

instance (sectors : Bytes) (p : PartSlot) : Decidable (HoldsFs sectors p) :=
  inferInstanceAs (Decidable (_ = _))

/-- A disk and the partitions formatted on it so far. -/
structure DiskSearch where
  sectors : Bytes
  formatted : List PartTag

/-- The body of the innermost loop. -/
def searchPart (mem : PartTag → FormatMemory) (hd : FileDisk) (s : DiskSearch)
    (part : PartTag) : Except Halt DiskSearch :=
  if (hd.slot part).secCnt ≠ 0 then do
    let sbBuf ← ideRead s.sectors ((hd.slot part).startLba + 1).toNat (Bytes.fill 0) 1
    if (SuperBlock.ofBytes sbBuf).magic = 0x20250325 then .ok s
    else do
      let sectors ← partitionFormat (hd.slot part).startLba (hd.slot part).secCnt (mem part)
        s.sectors
      return ⟨sectors, s.formatted ++ [part]⟩
  else .ok s

/-- The innermost loop, with `left` passes to go; `part_idx` outlives it. -/
def searchDisk (mem : PartTag → FormatMemory) (hd : FileDisk) :
    (left partIdx : Nat) → PartTag → DiskSearch → Except Halt (Nat × DiskSearch)
  | 0, partIdx, _, s => .ok (partIdx, s)
  | left + 1, partIdx, part, s => do
      let part := if partIdx = 4 then .logic 0 else part
      let s ← searchPart mem hd s part
      searchDisk mem hd left (partIdx + 1) (nextPart part) s

/-- The loop over the channels from `channelNo` on: the disks after it, and what was
formatted on them. -/
def searchChannels (mem : Nat → PartTag → FormatMemory) (hds : Nat → FileDisk) :
    (left channelNo partIdx : Nat) → (Nat → DiskSearch) → Except Halt (Nat → DiskSearch)
  | 0, _, _, s => .ok s
  | left + 1, channelNo, partIdx, s => do
      let (partIdx, t) ← searchDisk (mem channelNo) (hds channelNo) (12 - partIdx) partIdx
        (.prim 0) (s channelNo)
      searchChannels mem hds left (channelNo + 1) partIdx (Function.update s channelNo t)

/-- The search loop of `filesys_init`. -/
def filesysSearch (mem : Nat → PartTag → FormatMemory) (channelCnt : Nat)
    (hds : Nat → FileDisk) (sectors : Nat → Bytes) : Except Halt (Nat → DiskSearch) :=
  searchChannels mem hds channelCnt 0 0 fun channelNo => ⟨sectors channelNo, []⟩

/-- Formatting the partition writes the sector. -/
def WritesSector (p : PartSlot) (n : Nat) : Prop :=
  ∃ write ∈ formatWrites p.startLba p.secCnt fun _ => 0,
    write.lba ≤ n ∧ n < write.lba + write.secCnt.toNat

/-- The sector belongs to the partition. -/
def HasSector (p : PartSlot) (n : Nat) : Prop :=
  p.startLba.toNat ≤ n ∧ n < p.startLba.toNat + p.secCnt.toNat

/-- What the search is for: afterwards every partition has a file system, no sector of those
that had one before is written, and a second search formats nothing. -/
structure Searched (mem : Nat → PartTag → FormatMemory) (channelCnt : Nat)
    (hds : Nat → FileDisk) (sectors : Nat → Bytes) (s : Nat → DiskSearch) : Prop where
  ran : filesysSearch mem channelCnt hds sectors = .ok s
  holds : ∀ channelNo < channelCnt, ∀ part ∈ allSlots, ((hds channelNo).slot part).secCnt ≠ 0 →
    HoldsFs (s channelNo).sectors ((hds channelNo).slot part)
  kept : ∀ channelNo < channelCnt, ∀ part ∈ allSlots, ((hds channelNo).slot part).secCnt ≠ 0 →
    HoldsFs (sectors channelNo) ((hds channelNo).slot part) →
      part ∉ (s channelNo).formatted ∧ ∀ other ∈ (s channelNo).formatted, ∀ n,
        HasSector ((hds channelNo).slot part) n → ¬ WritesSector ((hds channelNo).slot other) n
  again : ∀ mem', filesysSearch mem' channelCnt hds (fun channelNo => (s channelNo).sectors) =
    .ok fun channelNo => ⟨(s channelNo).sectors, []⟩

/-- There is a buffer, and the assertions that `ide_write` makes for the areas behind the super
block hold. -/
structure Formattable (mem : FormatMemory) (p : PartSlot) : Prop where
  buffer : formatBuffer mem p.startLba p.secCnt = .ok ()
  someSects : (formatSuperBlock p.startLba p.secCnt).blockBitmapSects.toUInt8 > 0
  onDisk : (formatSuperBlock p.startLba p.secCnt).dataStartLba.toNat ≤ maxLba

section Partition

variable {p q : PartSlot} {mem : FormatMemory} {disk disk' : Bytes} {n : Nat}

/-- The sectors written do not depend on the words behind the super block. -/
theorem writesSector_iff (pad : Nat → UInt32) : WritesSector p n ↔
    ∃ write ∈ formatWrites p.startLba p.secCnt pad,
      write.lba ≤ n ∧ n < write.lba + write.secCnt.toNat := by
  simp only [WritesSector, formatWrites, List.exists_mem_cons_iff]

theorem partitionFormat_returns_iff (addressed : (p.startLba + 1).toNat ≤ maxLba) :
    (∃ disk', partitionFormat p.startLba p.secCnt mem disk = .ok disk') ↔ Formattable mem p := by
  have places := placed p.secCnt addressed
  have blockBitmapLba := places.blockBitmapLba
  have inodeBitmapLba := places.inodeBitmapLba
  have inodeTableLba := places.inodeTableLba
  have dataStartLba := places.dataStartLba
  obtain ⟨inodeSects, -, tableSects, -⟩ := fixedSects p.startLba p.secCnt
  simp only [partitionFormat_eq_ok, exists_and_left, writes_return_iff]
  simp only [formatWrites, List.forall_mem_cons, SectorWrite.Accepted, inodeSects, tableSects]
  constructor
  · rintro ⟨given, -, ⟨-, some⟩, -, -, ⟨onDisk, -⟩, -⟩
    exact ⟨given, some, onDisk⟩
  · rintro ⟨given, some, onDisk⟩
    exact ⟨given, ⟨addressed, Nat.one_pos⟩, ⟨by omega, some⟩, ⟨by omega, Nat.one_pos⟩,
      ⟨by omega, by omega⟩, ⟨onDisk, Nat.one_pos⟩, List.forall_mem_nil _⟩

theorem partitionFormat_frame (ran : partitionFormat p.startLba p.secCnt mem disk = .ok disk')
    (unwritten : ¬ WritesSector p n) {k : Nat} (small : k < 512) :
    disk' (512 * n + k) = disk (512 * n + k) := by
  rw [writesSector_iff mem.pad] at unwritten
  apply writes_frame (partitionFormat_eq_ok.mp ran).2
  intro write member
  have missed : ¬ (write.lba ≤ n ∧ n < write.lba + write.secCnt.toNat) := fun covered =>
    unwritten ⟨write, member, covered⟩
  omega

theorem holdsFs_of_format (ran : partitionFormat p.startLba p.secCnt mem disk = .ok disk') :
    HoldsFs disk' p := by
  obtain ⟨_, first, ran⟩ := except_bind_eq_ok.mp ran
  obtain ⟨_, -, ran⟩ := except_bind_eq_ok.mp ran
  obtain ⟨_, second, ran⟩ := except_bind_eq_ok.mp ran
  obtain ⟨_, third, ran⟩ := except_bind_eq_ok.mp ran
  obtain ⟨_, fourth, fifth⟩ := except_bind_eq_ok.mp ran
  obtain ⟨addressed, -, rfl⟩ := ideWrite_eq_ok.mp first
  obtain ⟨-, -, rfl⟩ := ideWrite_eq_ok.mp second
  obtain ⟨-, -, rfl⟩ := ideWrite_eq_ok.mp third
  obtain ⟨-, -, rfl⟩ := ideWrite_eq_ok.mp fourth
  obtain ⟨-, -, rfl⟩ := ideWrite_eq_ok.mp fifth
  have places := placed p.secCnt addressed
  have blockBitmapLba := places.blockBitmapLba
  have inodeBitmapLba := places.inodeBitmapLba
  have inodeTableLba := places.inodeTableLba
  have dataStartLba := places.dataStartLba
  have one : (1 : UInt8).toNat = 1 := rfl
  simp only [HoldsFs, one]
  refine congrArg SuperBlock.magic
    ((SuperBlock.ofBytes_congr ?_).trans
      (SuperBlock.ofBytes_words (formatSuperBlock p.startLba p.secCnt) mem.pad))
  intro a small
  rw [Bytes.window_apply, Bytes.splice_outside (by omega), Bytes.splice_outside (by omega),
    Bytes.splice_outside (by omega), Bytes.splice_outside (by omega)]
  exact Bytes.splice_add (by omega)

theorem holdsFs_congr {sectors sectors' : Bytes} {p : PartSlot}
    (same : ∀ a < 512, sectors' (512 * (p.startLba + 1).toNat + a) =
      sectors (512 * (p.startLba + 1).toNat + a)) :
    HoldsFs sectors' p ↔ HoldsFs sectors p := by
  have sameHead : Bytes.SameHead 512 (sectors'.window (512 * (p.startLba + 1).toNat))
      (sectors.window (512 * (p.startLba + 1).toNat)) := same
  rw [HoldsFs, HoldsFs, SuperBlock.ofBytes_congr sameHead]

theorem HoldsFs.first_byte {sectors : Bytes} (holds : HoldsFs sectors p) :
    sectors (512 * (p.startLba + 1).toNat) = 0x25 := by
  have value := congrArg UInt32.toNat holds
  simp only [SuperBlock.ofBytes, Bytes.word, Bytes.joinBytes, Bytes.window_apply, Nat.mul_zero,
    Nat.add_zero, UInt32.toNat_ofNat'] at value
  have b₀ := (sectors (512 * (p.startLba + 1).toNat)).toNat_lt
  apply UInt8.toNat_inj.mp
  change _ = 37
  change _ = 539296549 at value
  omega

/-- No byte of the block bitmap as it is written is 0x25: a set bit other than the first is
followed by set bits. -/
theorem initBlockBitmap_ne {bitLen : UInt32} {a : Nat} (inSectors : a / 512 ≤ bitLen.toNat / 4096) :
    initBlockBitmap bitLen a ≠ 0x25 := by
  intro same
  have bits : ∀ k < 8, (0x25 : UInt8).toNat.testBit k =
      decide (bitLen.toNat < 8 * a + k ∨ 8 * a + k = 0 ∧ 8 ≤ bitLen.toNat) := by
    intro k small
    rw [← initBlockBitmap_bit 0 (by omega : (8 * a + k) / 4096 ≤ bitLen.toNat / 4096),
      Bitmap.bit_eq_testBit]
    dsimp only
    rw [(by omega : (8 * a + k) / 8 = a), (by omega : (8 * a + k) % 8 = k), same]
  have second := of_decide_eq_true ((bits 2 (by decide)).symm.trans (by decide))
  have third := of_decide_eq_false ((bits 3 (by decide)).symm.trans (by decide))
  omega

theorem not_holdsFs_of_writes (ran : partitionFormat q.startLba q.secCnt mem disk = .ok disk')
    (other : q.startLba ≠ p.startLba) (written : WritesSector q (p.startLba + 1).toNat) :
    ¬ HoldsFs disk' p := by
  intro holds
  have byte := holds.first_byte
  generalize sector : (p.startLba + 1).toNat = n at written byte
  have superBlock : (q.startLba + 1).toNat ≠ n := fun same =>
    other (by simpa using UInt32.toNat_inj.mp (same.trans sector.symm))
  obtain ⟨_, first, ran⟩ := except_bind_eq_ok.mp ran
  obtain ⟨_, -, ran⟩ := except_bind_eq_ok.mp ran
  obtain ⟨_, second, ran⟩ := except_bind_eq_ok.mp ran
  obtain ⟨_, third, ran⟩ := except_bind_eq_ok.mp ran
  obtain ⟨_, fourth, fifth⟩ := except_bind_eq_ok.mp ran
  obtain ⟨addressed, -, rfl⟩ := ideWrite_eq_ok.mp first
  obtain ⟨-, -, rfl⟩ := ideWrite_eq_ok.mp second
  obtain ⟨-, -, rfl⟩ := ideWrite_eq_ok.mp third
  obtain ⟨-, -, rfl⟩ := ideWrite_eq_ok.mp fourth
  obtain ⟨-, -, rfl⟩ := ideWrite_eq_ok.mp fifth
  have places := placed q.secCnt addressed
  have blockBitmapLba := places.blockBitmapLba
  have inodeBitmapLba := places.inodeBitmapLba
  have inodeTableLba := places.inodeTableLba
  have dataStartLba := places.dataStartLba
  obtain ⟨inodeSects, -, tableSects, -⟩ := fixedSects q.startLba q.secCnt
  have one : (1 : UInt8).toNat = 1 := rfl
  have truncated : (formatSuperBlock q.startLba q.secCnt).blockBitmapSects.toUInt8.toNat ≤
      (formatSuperBlock q.startLba q.secCnt).blockBitmapSects.toNat := by
    rw [UInt32.toNat_toUInt8]
    exact Nat.mod_le _ _
  simp only [WritesSector, formatWrites, List.exists_mem_cons_iff, List.not_mem_nil, false_and,
    exists_false, or_false, inodeSects, tableSects, one] at written
  simp only [inodeSects, tableSects, one] at byte
  rcases written with inArea | inArea | inArea | inArea | inArea
  · omega
  · -- the block bitmap
    obtain ⟨j, rfl⟩ := Nat.exists_eq_add_of_le inArea.1
    have sectsNat : (formatSuperBlock q.startLba q.secCnt).blockBitmapSects.toNat =
        ((blockBitmapBitLen q.secCnt).toNat + 4095) % 2 ^ 32 / 4096 :=
      divRoundUp_4096_toNat _
    rw [Bytes.splice_outside (by omega), Bytes.splice_outside (by omega),
      Bytes.splice_outside (by omega), Nat.mul_add, Bytes.splice_add (by omega)] at byte
    exact initBlockBitmap_ne (by omega) byte
  · -- the inode bitmap
    obtain rfl : (formatSuperBlock q.startLba q.secCnt).inodeBitmapLba.toNat = n := by omega
    rw [Bytes.splice_outside (by omega), Bytes.splice_outside (by omega),
      Bytes.splice_inside (by omega) (by omega), Nat.sub_self, Function.update_self] at byte
    cases byte
  · -- the inode table
    obtain ⟨j, rfl⟩ := Nat.exists_eq_add_of_le inArea.1
    rw [Bytes.splice_outside (by omega), Nat.mul_add, Bytes.splice_add (by omega)] at byte
    by_cases start : j = 0
    · have iNo : (rootInode (formatSuperBlock q.startLba q.secCnt)).bytes 0 =
          Bytes.byteOf 0 0 := rfl
      rw [start, Bytes.splice_inside (by decide) (by decide), Nat.mul_zero, Nat.sub_self,
        iNo] at byte
      revert byte
      decide
    · rw [Bytes.splice_outside (by simp only [inodeSize]; omega)] at byte
      cases byte
  · obtain rfl : (formatSuperBlock q.startLba q.secCnt).dataStartLba.toNat = n := by omega
    rw [Bytes.splice_inside (by omega) (by omega), Nat.sub_self] at byte
    revert byte
    decide

theorem holdsFs_format_iff (ran : partitionFormat q.startLba q.secCnt mem disk = .ok disk') :
    HoldsFs disk' p ↔ q.startLba = p.startLba ∨
      ¬ WritesSector q (p.startLba + 1).toNat ∧ HoldsFs disk p := by
  by_cases same : q.startLba = p.startLba
  · have holds := holdsFs_of_format ran
    rw [HoldsFs, same] at holds
    exact iff_of_true holds (Or.inl same)
  · by_cases written : WritesSector q (p.startLba + 1).toNat
    · refine iff_of_false (not_holdsFs_of_writes ran same written) ?_
      rintro (equal | ⟨unwritten, -⟩)
      · exact same equal
      · exact unwritten written
    · rw [holdsFs_congr fun a small => partitionFormat_frame ran written small]
      exact ⟨fun holds => Or.inr ⟨written, holds⟩, fun either => (either.resolve_left same).2⟩

end Partition

/-- The test of the loop on the buffer of one sector. -/
theorem readMagic_iff (sectors : Bytes) (p : PartSlot) :
    (SuperBlock.ofBytes ((Bytes.fill 0).splice 0 (512 * (1 : UInt8).toNat)
      (sectors.window (512 * (p.startLba + 1).toNat)))).magic = 0x20250325 ↔
        HoldsFs sectors p := by
  have sameHead : Bytes.SameHead 512 ((Bytes.fill 0).splice 0 (512 * (1 : UInt8).toNat)
      (sectors.window (512 * (p.startLba + 1).toNat)))
      (sectors.window (512 * (p.startLba + 1).toNat)) := by
    intro a small
    rw [Bytes.splice_inside (Nat.zero_le a) (by simpa using small), Nat.sub_zero]
  rw [HoldsFs, SuperBlock.ofBytes_congr sameHead]

/-- The number of the slot in the order of the loop. -/
def slotNo : PartTag → Nat
  | .prim i => i
  | .logic i => i + 4

/-- The formatting of `q` writes something else over the super block of `p`. -/
def Overwrites (q p : PartSlot) : Prop :=
  q.startLba ≠ p.startLba ∧ WritesSector q (p.startLba + 1).toNat

/-- When the loop comes to slot `k` the magic number has just got to the super block sector of
`part`: it was there at the start, or the slot before is a partition that starts where `part`
does. -/
inductive MarkedAt (hd : FileDisk) (sectors : Bytes) (part : PartTag) : Nat → Prop
  | initially (holds : HoldsFs sectors (hd.slot part)) : MarkedAt hd sectors part 0
  | visited {earlier : PartTag} (known : earlier ∈ allSlots)
      (nonempty : (hd.slot earlier).secCnt ≠ 0)
      (same : (hd.slot earlier).startLba = (hd.slot part).startLba) :
      MarkedAt hd sectors part (slotNo earlier + 1)

/-- The loop finds no magic number in the super block sector of the partition: whenever it got
there before, a partition that was due in between has written over it. -/
def Due (hd : FileDisk) (sectors : Bytes) (part : PartTag) : Prop :=
  (hd.slot part).secCnt ≠ 0 ∧ ∀ k ≤ slotNo part, MarkedAt hd sectors part k →
    ∃ (between : PartTag) (_ : slotNo between < slotNo part), between ∈ allSlots ∧
      k ≤ slotNo between ∧ Due hd sectors between ∧
        Overwrites (hd.slot between) (hd.slot part)
termination_by slotNo part

/-- The table lets the loop do what it is for: the driver reaches every super block, the
partitions that are due can be formatted without a write into one that has a file system, and
every super block is marked at some time after which no formatting writes over it. -/
structure TableReady (mem : PartTag → FormatMemory) (hd : FileDisk) (sectors : Bytes) : Prop where
  addressed : ∀ part ∈ allSlots, (hd.slot part).secCnt ≠ 0 →
    ((hd.slot part).startLba + 1).toNat ≤ maxLba
  formattable : ∀ part ∈ allSlots, Due hd sectors part → Formattable (mem part) (hd.slot part)
  spared : ∀ part ∈ allSlots, (hd.slot part).secCnt ≠ 0 → HoldsFs sectors (hd.slot part) →
    ¬ Due hd sectors part ∧ ∀ other ∈ allSlots, Due hd sectors other → ∀ n,
      HasSector (hd.slot part) n → ¬ WritesSector (hd.slot other) n
  lasting : ∀ part ∈ allSlots, (hd.slot part).secCnt ≠ 0 → ∃ k, MarkedAt hd sectors part k ∧
    ∀ other ∈ allSlots, k ≤ slotNo other → Due hd sectors other →
      ¬ Overwrites (hd.slot other) (hd.slot part)

section Disk

variable {mem : PartTag → FormatMemory} {hd : FileDisk} {sectors : Bytes} {s t : DiskSearch}
  {part : PartTag} {rest : List PartTag} {n : Nat}

theorem searchPart_eq (some : (hd.slot part).secCnt ≠ 0)
    (addressed : ((hd.slot part).startLba + 1).toNat ≤ maxLba) :
    searchPart mem hd s part =
      if HoldsFs s.sectors (hd.slot part) then .ok s
      else partitionFormat (hd.slot part).startLba (hd.slot part).secCnt (mem part) s.sectors >>=
        fun sectors => .ok ⟨sectors, s.formatted ++ [part]⟩ := by
  unfold searchPart
  rw [if_pos some, ideRead_eq addressed (by decide), ok_bind]
  simp only [readMagic_iff, pure_eq_ok]

theorem searchPart_of_holds (ready : (hd.slot part).secCnt ≠ 0 →
      ((hd.slot part).startLba + 1).toNat ≤ maxLba ∧ HoldsFs s.sectors (hd.slot part)) :
    searchPart mem hd s part = .ok s := by
  by_cases empty : (hd.slot part).secCnt = 0
  · rw [searchPart, if_neg (not_not_intro empty)]
  · obtain ⟨addressed, holds⟩ := ready empty
    rw [searchPart_eq empty addressed, if_pos holds]

/-- What one pass does. -/
theorem searchPart_cases (ran : searchPart mem hd s part = .ok t) :
    (hd.slot part).secCnt = 0 ∧ t = s ∨
    (hd.slot part).secCnt ≠ 0 ∧ ((hd.slot part).startLba + 1).toNat ≤ maxLba ∧
      (HoldsFs s.sectors (hd.slot part) ∧ t = s ∨
        ¬ HoldsFs s.sectors (hd.slot part) ∧ t.formatted = s.formatted ++ [part] ∧
          partitionFormat (hd.slot part).startLba (hd.slot part).secCnt (mem part) s.sectors =
            .ok t.sectors) := by
  by_cases empty : (hd.slot part).secCnt = 0
  · rw [searchPart, if_neg (not_not_intro empty)] at ran
    exact Or.inl ⟨empty, (Except.ok.inj ran).symm⟩
  · have addressed : ((hd.slot part).startLba + 1).toNat ≤ maxLba := by
      rw [searchPart, if_pos empty] at ran
      obtain ⟨_, read, -⟩ := except_bind_eq_ok.mp ran
      exact (ideRead_eq_ok.mp read).1
    rw [searchPart_eq empty addressed] at ran
    refine Or.inr ⟨empty, addressed, ?_⟩
    split at ran
    next holds => exact Or.inl ⟨holds, (Except.ok.inj ran).symm⟩
    next lacks =>
      obtain ⟨sectors', formatted, ran⟩ := except_bind_eq_ok.mp ran
      obtain rfl := Except.ok.inj ran
      exact Or.inr ⟨lacks, rfl, formatted⟩

theorem searchPart_returns_iff : (∃ t, searchPart mem hd s part = .ok t) ↔
    ((hd.slot part).secCnt ≠ 0 → ((hd.slot part).startLba + 1).toNat ≤ maxLba ∧
      (¬ HoldsFs s.sectors (hd.slot part) → Formattable (mem part) (hd.slot part))) := by
  constructor
  · rintro ⟨t, ran⟩ some
    rcases searchPart_cases ran with ⟨empty, -⟩ | ⟨-, addressed, ⟨holds, -⟩ | ⟨-, -, formatted⟩⟩
    · exact absurd empty some
    · exact ⟨addressed, fun lacks => absurd holds lacks⟩
    · exact ⟨addressed, fun _ => (partitionFormat_returns_iff addressed).mp ⟨_, formatted⟩⟩
  · intro ready
    by_cases settled : (hd.slot part).secCnt ≠ 0 → HoldsFs s.sectors (hd.slot part)
    · exact ⟨s, searchPart_of_holds fun some => ⟨(ready some).1, settled some⟩⟩
    · obtain ⟨some, lacks⟩ := Classical.not_imp.mp settled
      obtain ⟨addressed, formattable⟩ := ready some
      obtain ⟨sectors', formatted⟩ :
          ∃ sectors', partitionFormat (hd.slot part).startLba (hd.slot part).secCnt (mem part)
            s.sectors = .ok sectors' :=
        (partitionFormat_returns_iff addressed).mpr (formattable lacks)
      rw [searchPart_eq some addressed, if_neg lacks, formatted]
      exact ⟨_, rfl⟩

/-- What holds of the disk when the loop comes to slot `n`. -/
structure Visited (hd : FileDisk) (sectors : Bytes) (n : Nat) (s : DiskSearch) : Prop where
  formatted : ∀ part, part ∈ s.formatted ↔
    part ∈ allSlots ∧ slotNo part < n ∧ Due hd sectors part
  holds : ∀ part, HoldsFs s.sectors (hd.slot part) ↔
    ∃ k ≤ n, MarkedAt hd sectors part k ∧ ∀ other ∈ allSlots, k ≤ slotNo other →
      slotNo other < n → Due hd sectors other → ¬ Overwrites (hd.slot other) (hd.slot part)

theorem slotNo_inj {other : PartTag} (known : part ∈ allSlots) (known' : other ∈ allSlots)
    (same : slotNo other = slotNo part) : other = part := by
  have distinct : (allSlots.map slotNo).Nodup := by decide
  exact List.inj_on_of_nodup_map distinct known' known same

theorem visited_start (hd : FileDisk) (sectors : Bytes) : Visited hd sectors 0 ⟨sectors, []⟩ where
  formatted part := iff_of_false List.not_mem_nil fun before => Nat.not_lt_zero _ before.2.1
  holds part := by
    constructor
    · intro holds
      exact ⟨0, le_refl 0, .initially holds, fun _ _ _ before => absurd before (Nat.not_lt_zero _)⟩
    · rintro ⟨k, first, marked, -⟩
      cases marked with
      | initially holds => exact holds
      | visited => omega

/-- A partition is due exactly if the loop finds no magic number there. -/
theorem Visited.due_iff (visited : Visited hd sectors (slotNo part) s) :
    Due hd sectors part ↔ (hd.slot part).secCnt ≠ 0 ∧ ¬ HoldsFs s.sectors (hd.slot part) := by
  rw [Due, visited.holds]
  refine and_congr_right fun _ => ?_
  push Not
  constructor
  · intro lost k before marked
    obtain ⟨between, earlier, known, behind, due, overwrites⟩ := lost k before marked
    exact ⟨between, known, behind, earlier, due, overwrites⟩
  · intro lost k before marked
    obtain ⟨between, known, behind, earlier, due, overwrites⟩ := lost k before marked
    exact ⟨between, earlier, known, behind, due, overwrites⟩

theorem markedAt_succ_iff (known : part ∈ allSlots) {other : PartTag} {k : Nat} :
    k ≤ slotNo part + 1 ∧ MarkedAt hd sectors other k ↔
      k ≤ slotNo part ∧ MarkedAt hd sectors other k ∨
        k = slotNo part + 1 ∧ (hd.slot part).secCnt ≠ 0 ∧
          (hd.slot part).startLba = (hd.slot other).startLba := by
  constructor
  · rintro ⟨before, marked⟩
    rcases Nat.le_or_eq_of_le_succ before with earlier | behind
    · exact Or.inl ⟨earlier, marked⟩
    · cases marked with
      | initially => omega
      | visited known' nonempty same =>
          obtain rfl := slotNo_inj known known' (Nat.succ.inj behind)
          exact Or.inr ⟨rfl, nonempty, same⟩
  · rintro (⟨earlier, marked⟩ | ⟨rfl, nonempty, same⟩)
    · exact ⟨Nat.le_succ_of_le earlier, marked⟩
    · exact ⟨le_refl _, .visited known nonempty same⟩

theorem Visited.passOver (visited : Visited hd sectors (slotNo part) s) (known : part ∈ allSlots)
    (notDue : ¬ Due hd sectors part) : Visited hd sectors (slotNo part + 1) s := by
  have before {other : PartTag} (member : other ∈ allSlots) (due : Due hd sectors other)
      (early : slotNo other < slotNo part + 1) : slotNo other < slotNo part := by
    rcases Nat.lt_succ_iff_lt_or_eq.mp early with earlier | here
    · exact earlier
    · exact absurd (slotNo_inj known member here ▸ due) notDue
  constructor
  · intro other
    rw [visited.formatted]
    exact ⟨fun ⟨member, early, due⟩ => ⟨member, Nat.lt_succ_of_lt early, due⟩,
      fun ⟨member, early, due⟩ => ⟨member, before member due early, due⟩⟩
  · intro other
    constructor
    · intro holds
      obtain ⟨k, early, marked, kept⟩ := (visited.holds other).mp holds
      exact ⟨k, Nat.le_succ_of_le early, marked, fun q member behind before' due =>
        kept q member behind (before member due before') due⟩
    · rintro ⟨k, early, marked, kept⟩
      rcases (markedAt_succ_iff known).mp ⟨early, marked⟩ with ⟨early, marked⟩ | ⟨-, some, same⟩
      · exact (visited.holds other).mpr ⟨k, early, marked, fun q member behind before' due =>
          kept q member behind (Nat.lt_succ_of_lt before') due⟩
      · have holds : HoldsFs s.sectors (hd.slot part) := by
          by_contra lacks
          exact notDue (visited.due_iff.mpr ⟨some, lacks⟩)
        rwa [HoldsFs, same] at holds

theorem Visited.format (visited : Visited hd sectors (slotNo part) s) (known : part ∈ allSlots)
    (due : Due hd sectors part) (list : t.formatted = s.formatted ++ [part])
    (made : partitionFormat (hd.slot part).startLba (hd.slot part).secCnt (mem part) s.sectors =
      .ok t.sectors) : Visited hd sectors (slotNo part + 1) t := by
  constructor
  · intro other
    rw [list, List.mem_append, List.mem_singleton, visited.formatted]
    constructor
    · rintro (⟨member, early, isDue⟩ | rfl)
      · exact ⟨member, Nat.lt_succ_of_lt early, isDue⟩
      · exact ⟨known, Nat.lt_succ_self _, due⟩
    · rintro ⟨member, early, isDue⟩
      rcases Nat.lt_succ_iff_lt_or_eq.mp early with earlier | here
      · exact Or.inl ⟨member, earlier, isDue⟩
      · exact Or.inr (slotNo_inj known member here)
  · intro other
    rw [holdsFs_format_iff made]
    constructor
    · rintro (same | ⟨unwritten, holds⟩)
      · exact ⟨_, le_refl _, .visited known (visited.due_iff.mp due).1 same,
          fun _ _ behind before => absurd before (Nat.not_lt.mpr behind)⟩
      · obtain ⟨k, early, marked, kept⟩ := (visited.holds other).mp holds
        refine ⟨k, Nat.le_succ_of_le early, marked, fun q member behind before isDue => ?_⟩
        rcases Nat.lt_succ_iff_lt_or_eq.mp before with earlier | here
        · exact kept q member behind earlier isDue
        · rw [slotNo_inj known member here]
          exact fun both => unwritten both.2
    · rintro ⟨k, early, marked, kept⟩
      rcases (markedAt_succ_iff known).mp ⟨early, marked⟩ with ⟨early, marked⟩ | ⟨-, -, same⟩
      · by_cases same : (hd.slot part).startLba = (hd.slot other).startLba
        · exact Or.inl same
        · have notOver := kept part known early (Nat.lt_succ_self _) due
          refine Or.inr ⟨fun written => notOver ⟨same, written⟩, ?_⟩
          exact (visited.holds other).mpr ⟨k, early, marked, fun q member behind before isDue =>
            kept q member behind (Nat.lt_succ_of_lt before) isDue⟩
      · exact Or.inl same

theorem Visited.pass (visited : Visited hd sectors (slotNo part) s) (known : part ∈ allSlots)
    (ran : searchPart mem hd s part = .ok t) : Visited hd sectors (slotNo part + 1) t := by
  rcases searchPart_cases ran with ⟨empty, rfl⟩ | ⟨some, -, ⟨holds, rfl⟩ | ⟨lacks, list, made⟩⟩
  · exact visited.passOver known fun due => (visited.due_iff.mp due).1 empty
  · exact visited.passOver known fun due => (visited.due_iff.mp due).2 holds
  · exact visited.format known (visited.due_iff.mpr ⟨some, lacks⟩) list made

/-- The slots that are left are the last ones. -/
theorem slotNo_of_suffix (suffix : part :: rest <:+ allSlots) :
    part ∈ allSlots ∧ slotNo part = 12 - (part :: rest).length := by
  have numbered : ∀ left ∈ allSlots.tails, ∀ first ∈ left.head?,
      first ∈ allSlots ∧ slotNo first = 12 - left.length := by decide
  exact numbered _ ((List.mem_tails _ _).mpr suffix) part rfl

theorem suffix_start (hd : FileDisk) (sectors : Bytes) : allSlots <:+ allSlots ∧
    Visited hd sectors (12 - allSlots.length) ⟨sectors, []⟩ := by
  have count : 12 - allSlots.length = 0 := by decide
  exact ⟨List.suffix_rfl, count ▸ visited_start hd sectors⟩

theorem suffix_pass (suffix : part :: rest <:+ allSlots)
    (visited : Visited hd sectors (12 - (part :: rest).length) s)
    (ran : searchPart mem hd s part = .ok t) : Visited hd sectors (12 - rest.length) t := by
  obtain ⟨known, number⟩ := slotNo_of_suffix suffix
  have few : (part :: rest).length ≤ 12 := suffix.length_le
  rw [List.length_cons] at few
  have next : 12 - rest.length = slotNo part + 1 := by
    rw [number, List.length_cons]
    omega
  rw [next]
  exact (number ▸ visited).pass known ran

/-- The search over one disk returns exactly if the driver reaches every super block and what
is due can be formatted. -/
theorem searchSlots_returns_iff :
    (∃ t, allSlots.foldlM (searchPart mem hd) ⟨sectors, []⟩ = .ok t) ↔
      ∀ part ∈ allSlots, (hd.slot part).secCnt ≠ 0 →
        ((hd.slot part).startLba + 1).toNat ≤ maxLba ∧
          (Due hd sectors part → Formattable (mem part) (hd.slot part)) := by
  refine foldlM_returns_iff (fun rest s => rest <:+ allSlots ∧
    Visited hd sectors (12 - rest.length) s) _ ?_ ?_ (suffix_start hd sectors)
  · rintro part rest s t ⟨suffix, visited⟩ ran
    exact ⟨(List.suffix_cons part rest).trans suffix, suffix_pass suffix visited ran⟩
  · rintro part rest s ⟨suffix, visited⟩
    obtain ⟨known, number⟩ := slotNo_of_suffix suffix
    rw [← number] at visited
    rw [searchPart_returns_iff]
    refine forall_congr' fun some => and_congr_right fun _ => ?_
    rw [visited.due_iff, and_iff_right some]

theorem searchSlots_visited (ran : allSlots.foldlM (searchPart mem hd) ⟨sectors, []⟩ = .ok t) :
    Visited hd sectors 12 t :=
  (foldlM_rest (fun rest s => rest <:+ allSlots ∧ Visited hd sectors (12 - rest.length) s)
    (fun part rest _ _ now ran => ⟨(List.suffix_cons part rest).trans now.1,
      suffix_pass now.1 now.2 ran⟩) (suffix_start hd sectors) ran).2

/-- Once every partition has a file system, another search does nothing. -/
theorem searchSlots_again (settled : ∀ part ∈ allSlots, (hd.slot part).secCnt ≠ 0 →
      ((hd.slot part).startLba + 1).toNat ≤ maxLba ∧ HoldsFs s.sectors (hd.slot part)) :
    allSlots.foldlM (searchPart mem hd) s = .ok s := by
  have stays : ∀ parts : List PartTag, (∀ part ∈ parts, part ∈ allSlots) →
      parts.foldlM (searchPart mem hd) s = .ok s := by
    intro parts
    induction parts with
    | nil => exact fun _ => rfl
    | cons part rest inductionHypothesis =>
        intro known
        obtain ⟨first, others⟩ := List.forall_mem_cons.mp known
        rw [List.foldlM_cons, searchPart_of_holds (settled part first), ok_bind]
        exact inductionHypothesis others
  exact stays allSlots fun _ member => member

end Disk

section Channels

variable {mem : Nat → PartTag → FormatMemory} {channelCnt : Nat} {hds : Nat → FileDisk}
  {sectors : Nat → Bytes} {s : Nat → DiskSearch}

theorem searchDisk_whole (mem : PartTag → FormatMemory) (hd : FileDisk) (s : DiskSearch) :
    searchDisk mem hd 12 0 (.prim 0) s =
      allSlots.foldlM (searchPart mem hd) s >>= fun t => .ok (12, t) := by
  simp only [searchDisk, allSlots, nextPart, List.foldlM_cons, List.foldlM_nil, bind_assoc,
    Nat.reduceAdd, Nat.reduceEqDiff, if_false, if_true, pure_eq_ok, ok_bind]

theorem searchChannels_exhausted (mem : Nat → PartTag → FormatMemory) (hds : Nat → FileDisk)
    (left channelNo : Nat) (s : Nat → DiskSearch) :
    searchChannels mem hds left channelNo 12 s = .ok s := by
  induction left generalizing channelNo with
  | zero => rfl
  | succ left inductionHypothesis =>
      simp only [searchChannels, searchDisk, Nat.sub_self, ok_bind, Function.update_eq_self]
      exact inductionHypothesis (channelNo + 1)

/-- The search reaches the first disk only. -/
theorem filesysSearch_eq (some : 0 < channelCnt) :
    filesysSearch mem channelCnt hds sectors =
      allSlots.foldlM (searchPart (mem 0) (hds 0)) ⟨sectors 0, []⟩ >>= fun t =>
        .ok (Function.update (fun channelNo => ⟨sectors channelNo, []⟩) 0 t) := by
  obtain ⟨left, rfl⟩ := Nat.exists_eq_succ_of_ne_zero (Nat.pos_iff_ne_zero.mp some)
  simp only [filesysSearch, searchChannels, Nat.sub_zero, searchDisk_whole, bind_assoc, ok_bind,
    searchChannels_exhausted]

/-- The partitions of the disks behind the first. -/
def LaterDisksHold (channelCnt : Nat) (hds : Nat → FileDisk) (sectors : Nat → Bytes) : Prop :=
  ∀ channelNo < channelCnt, channelNo ≠ 0 → ∀ part ∈ allSlots,
    ((hds channelNo).slot part).secCnt ≠ 0 → HoldsFs (sectors channelNo) ((hds channelNo).slot part)

theorem filesysSearch_later (some : 0 < channelCnt)
    (ran : filesysSearch mem channelCnt hds sectors = .ok s) {channelNo : Nat}
    (later : channelNo ≠ 0) : s channelNo = ⟨sectors channelNo, []⟩ := by
  rw [filesysSearch_eq some] at ran
  obtain ⟨t, -, ran⟩ := except_bind_eq_ok.mp ran
  rw [← Except.ok.inj ran, Function.update_of_ne later]

/-- With several disks the search does what it is for exactly if it does so for the first
disk alone and nothing is left to do on the others. -/
theorem searched_firstDisk (some : 0 < channelCnt) :
    Searched mem channelCnt hds sectors s ↔
      Searched mem 1 hds sectors s ∧ LaterDisksHold channelCnt hds sectors := by
  have sameSearch : ∀ mem sectors, filesysSearch mem channelCnt hds sectors =
      filesysSearch mem 1 hds sectors := fun mem sectors => by
    rw [filesysSearch_eq some, filesysSearch_eq Nat.one_pos]
  have firstOnly : ∀ channelNo, channelNo < 1 → channelNo < channelCnt := fun _ first =>
    Nat.lt_of_lt_of_le first some
  constructor
  · intro searched
    refine ⟨⟨(sameSearch mem sectors) ▸ searched.ran, fun channelNo first =>
      searched.holds channelNo (firstOnly channelNo first), fun channelNo first =>
      searched.kept channelNo (firstOnly channelNo first), fun mem' =>
      (sameSearch mem' _) ▸ searched.again mem'⟩, ?_⟩
    intro channelNo known later part member nonempty
    have holds := searched.holds channelNo known part member nonempty
    rw [filesysSearch_later some searched.ran later] at holds
    exact holds
  · rintro ⟨searched, later⟩
    refine ⟨(sameSearch mem sectors).trans searched.ran, ?_, ?_, fun mem' =>
      (sameSearch mem' _).trans (searched.again mem')⟩
    · intro channelNo known part member nonempty
      by_cases first : channelNo = 0
      · exact searched.holds channelNo (by omega) part member nonempty
      · rw [filesysSearch_later Nat.one_pos searched.ran first]
        exact later channelNo known first part member nonempty
    · intro channelNo known part member nonempty held
      by_cases first : channelNo = 0
      · exact searched.kept channelNo (by omega) part member nonempty held
      · rw [filesysSearch_later Nat.one_pos searched.ran first]
        exact ⟨List.not_mem_nil, fun _ written => absurd written List.not_mem_nil⟩

/-- The first disk. -/
theorem searched_one :
    (∃ s, Searched mem 1 hds sectors s) ↔ TableReady (mem 0) (hds 0) (sectors 0) := by
  have before : ∀ part ∈ allSlots, slotNo part < 12 := by decide
  constructor
  · rintro ⟨s, searched⟩
    have ran := searched.ran
    rw [filesysSearch_eq Nat.one_pos] at ran
    obtain ⟨t, slots, last⟩ := except_bind_eq_ok.mp ran
    obtain rfl := Except.ok.inj last
    have visited := searchSlots_visited slots
    have returned := searchSlots_returns_iff.mp ⟨t, slots⟩
    have holds := searched.holds 0 Nat.one_pos
    have kept := searched.kept 0 Nat.one_pos
    rw [Function.update_self] at holds kept
    refine ⟨fun part known some => (returned part known some).1, fun part known due => ?_, ?_, ?_⟩
    · have some : ((hds 0).slot part).secCnt ≠ 0 := by
        rw [Due] at due
        exact due.1
      exact (returned part known some).2 due
    · intro part known some held
      obtain ⟨notFormatted, untouched⟩ := kept part known some held
      refine ⟨fun due => notFormatted ((visited.formatted part).mpr ⟨known, before _ known, due⟩),
        fun other member due => untouched other
          ((visited.formatted other).mpr ⟨member, before _ member, due⟩)⟩
    · intro part known some
      obtain ⟨k, -, marked, unharmed⟩ := (visited.holds part).mp (holds part known some)
      exact ⟨k, marked, fun other member behind =>
        unharmed other member behind (before _ member)⟩
  · intro ready
    obtain ⟨t, ran⟩ : ∃ t, allSlots.foldlM (searchPart (mem 0) (hds 0)) ⟨sectors 0, []⟩ = .ok t :=
      searchSlots_returns_iff.mpr fun part known some =>
        ⟨ready.addressed part known some, ready.formattable part known⟩
    have visited := searchSlots_visited ran
    have holds : ∀ part ∈ allSlots, ((hds 0).slot part).secCnt ≠ 0 →
        HoldsFs t.sectors ((hds 0).slot part) := by
      intro part known some
      obtain ⟨k, marked, unharmed⟩ := ready.lasting part known some
      have early : k ≤ 12 := by
        cases marked with
        | initially => exact Nat.zero_le _
        | visited member => exact before _ member
      exact (visited.holds part).mpr ⟨k, early, marked, fun other member behind _ =>
        unharmed other member behind⟩
    refine ⟨Function.update (fun channelNo => ⟨sectors channelNo, []⟩) 0 t, ?_, ?_, ?_, ?_⟩
    · rw [filesysSearch_eq Nat.one_pos, ran, ok_bind]
    · intro channelNo first part known some
      obtain rfl : channelNo = 0 := by omega
      rw [Function.update_self]
      exact holds part known some
    · intro channelNo first part known some held
      obtain rfl : channelNo = 0 := by omega
      rw [Function.update_self]
      obtain ⟨notDue, untouched⟩ := ready.spared part known some held
      refine ⟨fun written => notDue ((visited.formatted part).mp written).2.2,
        fun other written => ?_⟩
      obtain ⟨member, -, due⟩ := (visited.formatted other).mp written
      exact untouched other member due
    · intro mem'
      have nothing : allSlots.foldlM (searchPart (mem' 0) (hds 0)) ⟨t.sectors, []⟩ =
          .ok ⟨t.sectors, []⟩ :=
        searchSlots_again fun part known some =>
          ⟨ready.addressed part known some, holds part known some⟩
      rw [filesysSearch_eq Nat.one_pos, Function.update_self, nothing, ok_bind]
      refine congrArg Except.ok (funext fun channelNo => ?_)
      by_cases first : channelNo = 0
      · rw [first, Function.update_self]
        rfl
      · rw [Function.update_of_ne first]

end Channels

/-- The search is right exactly if the table of the first disk lets it be and the other disks
have no partition without a file system. -/
theorem searched_iff {channelCnt : Nat} (some : 0 < channelCnt)
    (mem : Nat → PartTag → FormatMemory) (hds : Nat → FileDisk) (sectors : Nat → Bytes) :
    (∃ s, Searched mem channelCnt hds sectors s) ↔
      TableReady (mem 0) (hds 0) (sectors 0) ∧ LaterDisksHold channelCnt hds sectors := by
  rw [← searched_one, ← exists_and_right]
  exact exists_congr fun s => searched_firstDisk some

/-- A disk with one partition of 4708 sectors. -/
def oneSlotDisk : FileDisk where
  primParts i := if i = 0 then ⟨2048, 4708⟩ else ⟨0, 0⟩
  logicParts _ := ⟨0, 0⟩

/-- A disk without partitions. -/
def emptyDisk : FileDisk where
  primParts _ := ⟨0, 0⟩
  logicParts _ := ⟨0, 0⟩

theorem oneSlotDisk_only {part : PartTag} (known : part ∈ allSlots)
    (some : (oneSlotDisk.slot part).secCnt ≠ 0) : part = .prim 0 := by
  revert part
  decide

theorem searched_iff_oneSlot : ∃ s, Searched (fun _ _ => ampleMemory) 2
    (fun channelNo => if channelNo = 0 then oneSlotDisk else emptyDisk) (fun _ => Bytes.fill 0)
    s := by
  have only {part : PartTag} (due : Due oneSlotDisk (Bytes.fill 0) part) (known : part ∈ allSlots) :
      part = .prim 0 := by
    rw [Due] at due
    exact oneSlotDisk_only known due.1
  refine (searched_iff (by decide : 0 < 2) _ _ _).mpr ⟨⟨?_, ?_, ?_, ?_⟩, ?_⟩
  · intro part known some
    rw [oneSlotDisk_only known some]
    decide
  · intro part known due
    rw [only due known]
    exact ⟨rfl, by decide, by decide⟩
  · intro part known some held
    rw [oneSlotDisk_only known some] at held
    exact absurd held (by decide)
  · intro part known some
    obtain rfl := oneSlotDisk_only known some
    refine ⟨_, .visited known some rfl, fun other member behind due => ?_⟩
    rw [only due member] at behind
    exact absurd behind (by decide)
  · intro channelNo _ later part member nonempty
    simp only [if_neg later] at nonempty
    cases part <;> exact absurd rfl nonempty

/-- The second of two disks is never looked at. -/
theorem second_disk_unformatted : ¬ ∃ s, Searched (fun _ _ => ampleMemory) 2
    (fun channelNo => if channelNo = 0 then emptyDisk else oneSlotDisk) (fun _ => Bytes.fill 0)
    s := by
  rintro ⟨s, searched⟩
  have holds := ((searched_firstDisk (by decide)).mp searched).2 1 (by decide) (by decide)
    (.prim 0) (by decide) (by decide)
  revert holds
  decide

end HongbaiOS.Fs
