import HongbaiOS.Kernel.Debug
import HongbaiOS.Library.Bytes

/-!
# Sector transfers

The disk is one byte store; sector `lba` is its bytes from `512 * lba` on.  The
controller is taken to answer (`busy_wait` succeeds) and the channel lock to be
free.  `sec_cnt` is a `uint8_t`, so the loop over chunks of at most 256 sectors
in `ide_read` and `ide_write` runs exactly once.
-/

namespace HongbaiOS.Device

open HongbaiOS.Library HongbaiOS.Kernel

def sectorSize : Nat := 512

/-- `max_lba`: the driver supports disks of 80 MiB. -/
def maxLba : Nat := 80 * 1024 * 1024 / 512 - 1

/-- `select_sector`, as far as it can stop the transfer. -/
def selectSector (lba : Nat) : Except Halt Unit :=
  check .selectSector (lba ≤ maxLba)

/-- `ide_read(hd, lba, buf, sec_cnt)`: `buf` after the transfer. -/
def ideRead (disk : Bytes) (lba : Nat) (buf : Bytes) (secCnt : UInt8) :
    Except Halt Bytes := do
  check .ideRead (lba ≤ maxLba)
  check .ideRead (secCnt > 0)
  selectSector lba
  return buf.splice 0 (sectorSize * secCnt.toNat) (disk.window (sectorSize * lba))

/-- `ide_write(hd, lba, buf, sec_cnt)`: the disk after the transfer. -/
def ideWrite (disk : Bytes) (lba : Nat) (buf : Bytes) (secCnt : UInt8) :
    Except Halt Bytes := do
  check .ideWrite (lba ≤ maxLba)
  check .ideWrite (secCnt > 0)
  selectSector lba
  return disk.splice (sectorSize * lba) (sectorSize * secCnt.toNat) buf

variable {disk buf : Bytes} {lba : Nat} {secCnt : UInt8}

theorem ideRead_eq (addressed : lba ≤ maxLba) (some : secCnt > 0) :
    ideRead disk lba buf secCnt =
      .ok (buf.splice 0 (512 * secCnt.toNat) (disk.window (512 * lba))) := by
  simp [ideRead, selectSector, addressed, some, sectorSize]

theorem ideRead_eq_ok {buf' : Bytes} :
    ideRead disk lba buf secCnt = .ok buf' ↔
      lba ≤ maxLba ∧ secCnt > 0 ∧
        buf' = buf.splice 0 (512 * secCnt.toNat) (disk.window (512 * lba)) := by
  constructor
  · intro ran
    obtain ⟨_, addressed, ran⟩ := except_bind_eq_ok.mp ran
    obtain ⟨_, some, ran⟩ := except_bind_eq_ok.mp ran
    obtain ⟨_, -, ran⟩ := except_bind_eq_ok.mp ran
    simp only [check_eq_ok, decide_eq_true_eq] at addressed some
    exact ⟨addressed, some, (Except.ok.inj ran).symm⟩
  · rintro ⟨addressed, some, rfl⟩
    exact ideRead_eq addressed some

theorem ideWrite_eq (addressed : lba ≤ maxLba) (some : secCnt > 0) :
    ideWrite disk lba buf secCnt =
      .ok (disk.splice (512 * lba) (512 * secCnt.toNat) buf) := by
  simp [ideWrite, selectSector, addressed, some, sectorSize]

theorem ideWrite_eq_ok {disk' : Bytes} :
    ideWrite disk lba buf secCnt = .ok disk' ↔
      lba ≤ maxLba ∧ secCnt > 0 ∧ disk' = disk.splice (512 * lba) (512 * secCnt.toNat) buf := by
  constructor
  · intro ran
    obtain ⟨_, addressed, ran⟩ := except_bind_eq_ok.mp ran
    obtain ⟨_, some, ran⟩ := except_bind_eq_ok.mp ran
    obtain ⟨_, -, ran⟩ := except_bind_eq_ok.mp ran
    simp only [check_eq_ok, decide_eq_true_eq] at addressed some
    exact ⟨addressed, some, (Except.ok.inj ran).symm⟩
  · rintro ⟨addressed, some, rfl⟩
    exact ideWrite_eq addressed some

end HongbaiOS.Device
