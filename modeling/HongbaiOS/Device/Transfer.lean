import HongbaiOS.Device.Ide

/-!
# Transfers in chunks

`ide_read` and `ide_write` with their loop and the registers of the drive.  The loop is
right for any number of sectors, but the number arrives in a `uint8_t`.
-/

namespace HongbaiOS.Device

open HongbaiOS.Library HongbaiOS.Kernel

/-- The registers of a drive that `select_sector` writes. -/
structure DriveRegs where
  sectCnt : UInt8
  lbaL : UInt8
  lbaM : UInt8
  lbaH : UInt8
  dev : UInt8

namespace DriveRegs

/-- The first sector of the transfer. -/
def lba (regs : DriveRegs) : Nat :=
  regs.lbaL.toNat + 2 ^ 8 * regs.lbaM.toNat + 2 ^ 16 * regs.lbaH.toNat +
    2 ^ 24 * (regs.dev &&& 0x0f).toNat

/-- The number of sectors of the transfer; 0 means 256. -/
def count (regs : DriveRegs) : Nat := if regs.sectCnt = 0 then 256 else regs.sectCnt.toNat

end DriveRegs

/-- `select_sector(hd, lba, sec_cnt)` with the registers as it leaves them; `slave` is
`BIT_DEV_DEV` or 0. -/
def writeRegs (slave : UInt32) (lba : UInt32) (secCnt : UInt8) : Except Halt DriveRegs := do
  selectSector lba.toNat
  return {
    sectCnt := secCnt
    lbaL := lba.toUInt8
    lbaM := (lba >>> 8).toUInt8
    lbaH := (lba >>> 16).toUInt8
    dev := ((0xa0 : UInt32) ||| (0x40 : UInt32) ||| slave ||| lba >>> 24).toUInt8 }

/-- `secs_op` -/
def secsOp (left : Nat) : Nat := if left ≥ 256 then 256 else left

theorem secsOp_le (left : Nat) : secsOp left ≤ left := by
  unfold secsOp
  split <;> omega

theorem secsOp_pos (left : Nat) (some : 0 < left) : 0 < secsOp left := by
  unfold secsOp
  split <;> omega

/-- The loop of `ide_write`. -/
def writeLoop (slave lba : UInt32) (buf : Bytes) (secCnt secsDone : Nat) (disk : Bytes) :
    Except Halt Bytes :=
  if secsDone < secCnt then do
    let op := secsOp (secCnt - secsDone)
    let regs ← writeRegs slave (lba + UInt32.ofNat secsDone) (UInt8.ofNat op)
    writeLoop slave lba buf secCnt (secsDone + op)
      (disk.splice (sectorSize * regs.lba) (sectorSize * regs.count)
        (buf.window (sectorSize * secsDone)))
  else .ok disk
termination_by secCnt - secsDone
decreasing_by
  have some := secsOp_pos (secCnt - secsDone) (by omega)
  omega

/-- The loop of `ide_read`. -/
def readLoop (slave lba : UInt32) (disk : Bytes) (secCnt secsDone : Nat) (buf : Bytes) :
    Except Halt Bytes :=
  if secsDone < secCnt then do
    let op := secsOp (secCnt - secsDone)
    let regs ← writeRegs slave (lba + UInt32.ofNat secsDone) (UInt8.ofNat op)
    readLoop slave lba disk secCnt (secsDone + op)
      (buf.splice (sectorSize * secsDone) (sectorSize * regs.count)
        (disk.window (sectorSize * regs.lba)))
  else .ok buf
termination_by secCnt - secsDone
decreasing_by
  have some := secsOp_pos (secCnt - secsDone) (by omega)
  omega

/-- `ide_write(hd, lba, buf, sec_cnt)`: the disk after the transfer. -/
def ideWriteChunks (slave : UInt32) (disk : Bytes) (lba : UInt32) (buf : Bytes)
    (secCnt : UInt8) : Except Halt Bytes := do
  check .ideWrite (lba.toNat ≤ maxLba)
  check .ideWrite (secCnt > 0)
  writeLoop slave lba buf secCnt.toNat 0 disk

/-- `ide_read(hd, lba, buf, sec_cnt)`: `buf` after the transfer. -/
def ideReadChunks (slave : UInt32) (disk : Bytes) (lba : UInt32) (buf : Bytes)
    (secCnt : UInt8) : Except Halt Bytes := do
  check .ideRead (lba.toNat ≤ maxLba)
  check .ideRead (secCnt > 0)
  readLoop slave lba disk secCnt.toNat 0 buf

section

variable {slave lba : UInt32} {disk buf : Bytes} {secCnt secsDone op : Nat}

/-- The drive gets the sector and the number that were asked for. -/
theorem writeRegs_eq (lba : UInt32) (secCnt : UInt8) (isSlave : slave = 0 ∨ slave = 0x10)
    (addressed : lba.toNat ≤ maxLba) :
    ∃ regs, writeRegs slave lba secCnt = .ok regs ∧ regs.lba = lba.toNat ∧
      regs.sectCnt = secCnt := by
  have bound : lba.toNat < 2 ^ 24 := Nat.lt_of_le_of_lt addressed (by decide)
  have noTop : lba >>> 24 = 0 := by
    apply UInt32.toNat_inj.mp
    rw [UInt32.toNat_shiftRight, Nat.shiftRight_eq_div_pow]
    exact Nat.div_eq_of_lt bound
  refine ⟨_, by rw [writeRegs, selectSector, decide_eq_true addressed]; rfl, ?_, rfl⟩
  have dev : (((0xa0 : UInt32) ||| (0x40 : UInt32) ||| slave ||| lba >>> 24).toUInt8 &&&
      0x0f).toNat = 0 := by
    rw [noTop]
    rcases isSlave with rfl | rfl <;> decide
  simp only [DriveRegs.lba, dev, UInt32.toNat_toUInt8, UInt32.toNat_shiftRight,
    Nat.shiftRight_eq_div_pow, UInt32.reduceToNat, Nat.reduceMod, Nat.reducePow]
  omega

/-- One chunk: as many sectors as asked for, at the place asked for. -/
theorem writeRegs_chunk (lba : UInt32) (isSlave : slave = 0 ∨ slave = 0x10)
    (more : secsDone < secCnt) (addressed : lba.toNat + secsDone ≤ maxLba) :
    ∃ regs, writeRegs slave (lba + UInt32.ofNat secsDone)
        (UInt8.ofNat (secsOp (secCnt - secsDone))) = .ok regs ∧
      regs.lba = lba.toNat + secsDone ∧ regs.count = secsOp (secCnt - secsDone) := by
  have top : maxLba < 2 ^ 32 := by decide
  have place : (lba + UInt32.ofNat secsDone).toNat = lba.toNat + secsDone := by
    rw [UInt32.toNat_add, UInt32.toNat_ofNat']
    omega
  obtain ⟨regs, select, atLba, count⟩ := writeRegs_eq (lba + UInt32.ofNat secsDone)
    (UInt8.ofNat (secsOp (secCnt - secsDone))) isSlave (by omega)
  refine ⟨regs, select, by omega, ?_⟩
  have some := secsOp_pos (secCnt - secsDone) (by omega)
  rw [DriveRegs.count, count]
  unfold secsOp at some ⊢
  split
  next =>
    rfl
  next small =>
    have notZero : UInt8.ofNat (secCnt - secsDone) ≠ 0 := by
      intro zero
      have isZero := congrArg UInt8.toNat zero
      rw [UInt8.toNat_ofNat', UInt8.toNat_zero] at isZero
      omega
    rw [if_neg notZero, UInt8.toNat_ofNat']
    omega

/-- How far the loop has come: to the end of a chunk. -/
def AtChunk (secCnt secsDone : Nat) : Prop :=
  secsDone ≤ secCnt ∧ (secsDone % 256 = 0 ∨ secsDone = secCnt)

theorem AtChunk.next (atChunk : AtChunk secCnt secsDone) :
    AtChunk secCnt (secsDone + secsOp (secCnt - secsDone)) := by
  have few := secsOp_le (secCnt - secsDone)
  obtain ⟨inside, aligned⟩ := atChunk
  refine ⟨by omega, ?_⟩
  unfold secsOp
  split <;> omega

theorem writeLoop_eq (lba : UInt32) (disk buf : Bytes)
    (isSlave : slave = 0 ∨ slave = 0x10) (atChunk : AtChunk secCnt secsDone)
    (addressed : lba.toNat + (secCnt - 1) / 256 * 256 ≤ maxLba) :
    writeLoop slave lba buf secCnt secsDone
        (disk.splice (512 * lba.toNat) (512 * secsDone) buf) =
      .ok (disk.splice (512 * lba.toNat) (512 * secCnt) buf) := by
  induction left : secCnt - secsDone using Nat.strong_induction_on generalizing secsDone with
  | h left inductionHypothesis =>
      rw [writeLoop]
      split
      next more =>
        have aligned := atChunk.2
        obtain ⟨regs, select, atLba, count⟩ := writeRegs_chunk lba isSlave more (by omega)
        have some := secsOp_pos (secCnt - secsDone) (by omega)
        have rest := inductionHypothesis (secCnt - (secsDone + secsOp (secCnt - secsDone)))
          (by omega) atChunk.next rfl
        simp only [select, ok_bind, atLba, count, sectorSize]
        rw [Nat.mul_add, Bytes.splice_append, ← Nat.mul_add]
        exact rest
      next done =>
        have atEnd : secsDone = secCnt := Nat.le_antisymm atChunk.1 (Nat.le_of_not_lt done)
        rw [atEnd]

theorem readLoop_eq (lba : UInt32) (disk buf : Bytes)
    (isSlave : slave = 0 ∨ slave = 0x10) (atChunk : AtChunk secCnt secsDone)
    (addressed : lba.toNat + (secCnt - 1) / 256 * 256 ≤ maxLba) :
    readLoop slave lba disk secCnt secsDone
        (buf.splice 0 (512 * secsDone) (disk.window (512 * lba.toNat))) =
      .ok (buf.splice 0 (512 * secCnt) (disk.window (512 * lba.toNat))) := by
  induction left : secCnt - secsDone using Nat.strong_induction_on generalizing secsDone with
  | h left inductionHypothesis =>
      rw [readLoop]
      split
      next more =>
        have aligned := atChunk.2
        obtain ⟨regs, select, atLba, count⟩ := writeRegs_chunk lba isSlave more (by omega)
        have some := secsOp_pos (secCnt - secsDone) (by omega)
        have rest := inductionHypothesis (secCnt - (secsDone + secsOp (secCnt - secsDone)))
          (by omega) atChunk.next rfl
        have append := Bytes.splice_append buf (disk.window (512 * lba.toNat)) 0
          (512 * secsDone) (512 * secsOp (secCnt - secsDone))
        rw [Nat.zero_add, Bytes.window_window, ← Nat.mul_add, ← Nat.mul_add] at append
        simp only [select, ok_bind, atLba, count, sectorSize]
        rw [append]
        exact rest
      next done =>
        have atEnd : secsDone = secCnt := Nat.le_antisymm atChunk.1 (Nat.le_of_not_lt done)
        rw [atEnd]

theorem ideWriteChunks_eq (isSlave : slave = 0 ∨ slave = 0x10) (secCnt : UInt8) :
    ideWriteChunks slave disk lba buf secCnt = ideWrite disk lba.toNat buf secCnt := by
  have small := secCnt.toNat_lt
  by_cases addressed : lba.toNat ≤ maxLba
  · have whole := writeLoop_eq lba disk buf isSlave
      (⟨Nat.zero_le secCnt.toNat, Or.inl rfl⟩ : AtChunk secCnt.toNat 0) (by omega)
    rw [Nat.mul_zero, Bytes.splice_zero_length] at whole
    simp only [ideWriteChunks, ideWrite, selectSector, addressed, whole, decide_true, check_true,
      ok_bind, sectorSize, pure_eq_ok]
  · simp [ideWriteChunks, ideWrite, addressed, check]

theorem ideReadChunks_eq (isSlave : slave = 0 ∨ slave = 0x10) (secCnt : UInt8) :
    ideReadChunks slave disk lba buf secCnt = ideRead disk lba.toNat buf secCnt := by
  have small := secCnt.toNat_lt
  by_cases addressed : lba.toNat ≤ maxLba
  · have whole := readLoop_eq lba disk buf isSlave
      (⟨Nat.zero_le secCnt.toNat, Or.inl rfl⟩ : AtChunk secCnt.toNat 0) (by omega)
    rw [Nat.mul_zero, Bytes.splice_zero_length] at whole
    simp only [ideReadChunks, ideRead, selectSector, addressed, whole, decide_true, check_true,
      ok_bind, sectorSize, pure_eq_ok]
  · simp [ideReadChunks, ideRead, addressed, check]

end

/-- Writing and reading `n` sectors at `lba` moves exactly these sectors, in order. -/
def TransfersAll (lba n : UInt32) : Prop :=
  ∀ slave, slave = 0 ∨ slave = 0x10 → ∀ disk buf,
    ideWriteChunks slave disk lba buf n.toUInt8 =
        .ok (disk.splice (512 * lba.toNat) (512 * n.toNat) buf) ∧
      ideReadChunks slave disk lba buf n.toUInt8 =
        .ok (buf.splice 0 (512 * n.toNat) (disk.window (512 * lba.toNat)))

/-- The sectors asked for are moved exactly if their number fits into the parameter. -/
theorem transfersAll_iff {lba n : UInt32} :
    TransfersAll lba n ↔ lba.toNat ≤ maxLba ∧ 0 < n.toNat ∧ n.toNat < 256 := by
  have truncated := UInt32.toNat_toUInt8 n
  constructor
  · intro moves
    obtain ⟨written, -⟩ := moves 0 (Or.inl rfl) (Bytes.fill 0) (Bytes.fill 1)
    rw [ideWriteChunks_eq (Or.inl rfl)] at written
    obtain ⟨addressed, some, same⟩ := ideWrite_eq_ok.mp written
    have positive : 0 < n.toUInt8.toNat := some
    refine ⟨addressed, by omega, Nat.lt_of_not_le fun many => ?_⟩
    -- the last sector asked for is not written
    have last := congrFun same (512 * lba.toNat + 512 * (n.toNat - 1))
    rw [Bytes.splice_add (by omega), Bytes.splice_outside (by omega)] at last
    cases last
  · rintro ⟨addressed, positive, small⟩ slave isSlave disk buf
    have whole : n.toUInt8.toNat = n.toNat := by omega
    have some : n.toUInt8 > 0 := UInt8.lt_iff_toNat_lt.mpr (by rw [whole]; exact positive)
    rw [ideWriteChunks_eq isSlave, ideReadChunks_eq isSlave, ideWrite_eq addressed some,
      ideRead_eq addressed some, whole]
    exact ⟨rfl, rfl⟩

end HongbaiOS.Device
