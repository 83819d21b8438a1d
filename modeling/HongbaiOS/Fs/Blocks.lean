import HongbaiOS.Fs.SuperBlock

/-!
# Taking inodes and blocks

The allocation functions of `file.c` over the bitmaps of a mounted partition.
-/

namespace HongbaiOS.Fs

open HongbaiOS.Library HongbaiOS.Kernel HongbaiOS.Device HongbaiOS.Lib

/-- `enum bitmap_type` -/
inductive BitmapType where
  | inodeBitmap | blockBitmap
  deriving DecidableEq, Repr

/-- `inode_bitmap_alloc(part)`; `none` is the result `-1`. -/
def inodeBitmapAlloc (full : FullScan) (part : Partition) :
    Except Halt (Option Nat × Partition) := do
  match ← bitmapScan full part.inodeBitmap 1 with
  | none => return (none, part)
  | some bitIdx =>
      let btmp ← bitmapSet part.inodeBitmap bitIdx true
      return (some bitIdx, part.setInodeBitmap btmp)

/-- `block_bitmap_alloc(part)`: the LBA of the sector taken. -/
def blockBitmapAlloc (full : FullScan) (part : Partition) :
    Except Halt (Option UInt32 × Partition) := do
  match ← bitmapScan full part.blockBitmap 1 with
  | none => return (none, part)
  | some bitIdx =>
      let btmp ← bitmapSet part.blockBitmap bitIdx true
      return (some (part.sb.dataStartLba + UInt32.ofNat bitIdx), part.setBlockBitmap btmp)

/-- `bitmap_sync(part, bit_idx, btmp)`: the sector of the map that holds the bit. -/
def bitmapSync (part : Partition) (bitIdx : UInt32) (btmp : BitmapType) :
    Except Halt Partition := do
  let offSec := bitIdx / 4096
  let offSize := offSec * 512
  let (secLba, bits) := match btmp with
    | .inodeBitmap => (part.sb.inodeBitmapLba + offSec, part.inodeBitmap.btmpBits)
    | .blockBitmap => (part.sb.blockBitmapLba + offSec, part.blockBitmap.btmpBits)
  let disk ← ideWrite part.myDisk secLba.toNat (bits.window offSize.toNat) 1
  return part.setDisk disk

variable {full : FullScan} {part part' : Partition}

/-- A block allocation takes one free bit and gives the sector it stands for. -/
theorem blockBitmapAlloc_eq_some {lba : UInt32}
    (ran : blockBitmapAlloc full part = .ok (some lba, part')) :
    ∃ bitIdx < part.blockBitmap.bitLen, part.blockBitmap.bit bitIdx = false ∧
      lba = part.sb.dataStartLba + UInt32.ofNat bitIdx ∧
      part' = part.setBlockBitmap (part.blockBitmap.put bitIdx true) := by
  obtain ⟨scanned, scan, rest⟩ := except_bind_eq_ok.mp ran
  cases scanned with
  | none => simp at rest
  | some bitIdx =>
      obtain ⟨inside, free⟩ := bitmapScan_eq_some Nat.one_pos scan
      obtain ⟨btmp, set, result⟩ := except_bind_eq_ok.mp rest
      obtain ⟨-, rfl⟩ := bitmapSet_eq_ok.mp set
      simp only [pure_eq_ok, Except.ok.injEq, Prod.mk.injEq, Option.some.injEq] at result
      exact ⟨bitIdx, by omega, free bitIdx (le_refl _) (by omega), result.1.symm,
        result.2.symm⟩

/-- An allocation that fails found the map full and changed nothing. -/
theorem blockBitmapAlloc_eq_none (ran : blockBitmapAlloc full part = .ok (none, part')) :
    full = .returnsMinusOne ∧ (∀ i < part.blockBitmap.bitLen, part.blockBitmap.bit i = true) ∧
      part' = part := by
  obtain ⟨scanned, scan, rest⟩ := except_bind_eq_ok.mp ran
  cases scanned with
  | none =>
      obtain ⟨reading, all⟩ := bitmapScan_eq_none scan
      simp only [pure_eq_ok, Except.ok.injEq, Prod.mk.injEq, true_and] at rest
      exact ⟨reading, all, rest.symm⟩
  | some bitIdx =>
      obtain ⟨btmp, -, result⟩ := except_bind_eq_ok.mp rest
      simp at result

theorem inodeBitmapAlloc_eq_some {iNo : Nat}
    (ran : inodeBitmapAlloc full part = .ok (some iNo, part')) :
    iNo < part.inodeBitmap.bitLen ∧ part.inodeBitmap.bit iNo = false ∧
      part' = part.setInodeBitmap (part.inodeBitmap.put iNo true) := by
  obtain ⟨scanned, scan, rest⟩ := except_bind_eq_ok.mp ran
  cases scanned with
  | none => simp at rest
  | some bitIdx =>
      obtain ⟨inside, free⟩ := bitmapScan_eq_some Nat.one_pos scan
      obtain ⟨btmp, set, result⟩ := except_bind_eq_ok.mp rest
      obtain ⟨-, rfl⟩ := bitmapSet_eq_ok.mp set
      simp only [pure_eq_ok, Except.ok.injEq, Prod.mk.injEq, Option.some.injEq] at result
      obtain ⟨rfl, rfl⟩ := result
      exact ⟨by omega, free bitIdx (le_refl _) (by omega), rfl⟩

theorem inodeBitmapAlloc_eq_none (ran : inodeBitmapAlloc full part = .ok (none, part')) :
    full = .returnsMinusOne ∧ (∀ i < part.inodeBitmap.bitLen, part.inodeBitmap.bit i = true) ∧
      part' = part := by
  obtain ⟨scanned, scan, rest⟩ := except_bind_eq_ok.mp ran
  cases scanned with
  | none =>
      obtain ⟨reading, all⟩ := bitmapScan_eq_none scan
      simp only [pure_eq_ok, Except.ok.injEq, Prod.mk.injEq, true_and] at rest
      exact ⟨reading, all, rest.symm⟩
  | some bitIdx =>
      obtain ⟨btmp, -, result⟩ := except_bind_eq_ok.mp rest
      simp at result

namespace Partition.Mounted

theorem bitmap_before_data (mounted : part.Mounted) {bitIdx : Nat}
    (inMap : bitIdx < part.blockBitmap.bitLen) :
    part.sb.blockBitmapLba.toNat + bitIdx / 4096 < part.sb.inodeBitmapLba.toNat ∧
      part.sb.inodeBitmapLba.toNat + 609 = part.sb.dataStartLba.toNat := by
  have mapLen := mounted.blockBitmapLen
  have inodeBitmapLba := mounted.inodeBitmapLba
  have inodeTableLba := mounted.inodeTableLba
  have dataStartLba := mounted.dataStartLba
  simp only [Bitmap.bitLen] at inMap
  simp only [inodeTableSects] at dataStartLba
  omega

/-- No block number wraps around. -/
theorem lba_toNat (mounted : part.Mounted) {bitIdx : Nat}
    (inMap : bitIdx < part.blockBitmap.bitLen) :
    (part.sb.dataStartLba + UInt32.ofNat bitIdx).toNat =
      part.sb.dataStartLba.toNat + bitIdx := by
  have before := mounted.bitmap_before_data inMap
  have onDisk := mounted.onDisk
  simp only [maxLba] at onDisk
  simp only [UInt32.toNat_add, UInt32.toNat_ofNat']
  omega

/-- The index computed back from the sector of a block. -/
theorem lba_sub_toNat (mounted : part.Mounted) {bitIdx : Nat}
    (inMap : bitIdx < part.blockBitmap.bitLen) :
    (part.sb.dataStartLba + UInt32.ofNat bitIdx - part.sb.dataStartLba).toNat = bitIdx := by
  have sum := mounted.lba_toNat inMap
  rw [UInt32.toNat_sub_of_le _ _ (UInt32.le_iff_toNat_le.mpr (by omega)), sum]
  omega

theorem lba_ne_zero (mounted : part.Mounted) {bitIdx : Nat}
    (inMap : bitIdx < part.blockBitmap.bitLen) :
    part.sb.dataStartLba + UInt32.ofNat bitIdx ≠ 0 := by
  intro zero
  have sum := mounted.lba_toNat inMap
  have before := mounted.bitmap_before_data inMap
  rw [zero, UInt32.toNat_zero] at sum
  omega

end Partition.Mounted

theorem bitmapSync_block_eq (mounted : part.Mounted) {bitIdx : UInt32}
    (inMap : bitIdx.toNat < part.blockBitmap.bitLen) :
    bitmapSync part bitIdx .blockBitmap = .ok (part.setDisk (part.myDisk.splice
      (512 * (part.sb.blockBitmapLba.toNat + bitIdx.toNat / 4096)) 512
      (part.blockBitmap.btmpBits.window (512 * (bitIdx.toNat / 4096))))) := by
  have before := mounted.bitmap_before_data inMap
  have onDisk := mounted.onDisk
  have sector : (part.sb.blockBitmapLba + bitIdx / 4096).toNat =
      part.sb.blockBitmapLba.toNat + bitIdx.toNat / 4096 := by
    simp only [UInt32.toNat_add, UInt32.toNat_div, UInt32.reduceToNat]
    simp only [maxLba] at onDisk
    omega
  have offset : (bitIdx / 4096 * 512).toNat = 512 * (bitIdx.toNat / 4096) := by
    have bound := bitIdx.toNat_lt
    simp only [UInt32.toNat_mul, UInt32.toNat_div, UInt32.reduceToNat]
    omega
  simp only [bitmapSync, sector, offset]
  rw [ideWrite_eq (by omega) (by decide)]
  rfl

/-- The partition after a block has been taken and its bit has been synced. -/
def takeBlock (part : Partition) (bitIdx : Nat) : Partition :=
  let taken := part.setBlockBitmap (part.blockBitmap.put bitIdx true)
  taken.setDisk (taken.myDisk.splice (512 * (part.sb.blockBitmapLba.toNat + bitIdx / 4096)) 512
    (taken.blockBitmap.btmpBits.window (512 * (bitIdx / 4096))))

section TakeBlock

variable (part) (bitIdx : Nat)

@[simp]
theorem takeBlock_sb : (takeBlock part bitIdx).sb = part.sb := rfl

@[simp]
theorem takeBlock_blockBitmap :
    (takeBlock part bitIdx).blockBitmap = part.blockBitmap.put bitIdx true := rfl

@[simp]
theorem takeBlock_inodeBitmap : (takeBlock part bitIdx).inodeBitmap = part.inodeBitmap := rfl

@[simp]
theorem takeBlock_openInodes : (takeBlock part bitIdx).openInodes = part.openInodes := rfl

variable {part} {bitIdx}

theorem takeBlock_mounted (mounted : part.Mounted) : (takeBlock part bitIdx).Mounted :=
  (mounted.setBlockBitmap (Bitmap.put_btmpBytesLen bitIdx true)).setDisk _

theorem takeBlock_myDisk_of_data (mounted : part.Mounted)
    (inMap : bitIdx < part.blockBitmap.bitLen) {a : Nat}
    (inData : 512 * part.sb.inodeBitmapLba.toNat ≤ a) :
    (takeBlock part bitIdx).myDisk a = part.myDisk a := by
  have before := mounted.bitmap_before_data inMap
  exact Bytes.splice_outside (by omega)

end TakeBlock

theorem blockBitmapAlloc_eq (full : FullScan) {bitIdx : Nat}
    (lowest : part.blockBitmap.LowestFree bitIdx) :
    blockBitmapAlloc full part = .ok (some (part.sb.dataStartLba + UInt32.ofNat bitIdx),
      part.setBlockBitmap (part.blockBitmap.put bitIdx true)) := by
  rw [blockBitmapAlloc, bitmapScan_one_of_free full lowest.inside lowest.free lowest.before]
  simp only [ok_bind, bitmapSet_eq lowest.inside, pure_eq_ok]

theorem blockBitmapAlloc_of_full (none : part.blockBitmap.freeCount = 0) :
    blockBitmapAlloc .returnsMinusOne part = .ok (Option.none, part) := by
  rw [blockBitmapAlloc, bitmapScan_one_of_full (Bitmap.freeCount_eq_zero_iff.mp none)]
  rfl

/-- Any number of block allocations in a row: the sectors given. -/
def blockBitmapAllocs (full : FullScan) : Nat → Partition → Except Halt (List UInt32)
  | 0, _ => .ok []
  | n + 1, part => do
      let (lba, part) ← blockBitmapAlloc full part
      let rest ← blockBitmapAllocs full n part
      return match lba with
        | none => rest
        | some lba => lba :: rest

theorem blockBitmapAllocs_free {n : Nat} {lbas : List UInt32}
    (ran : blockBitmapAllocs full n part = .ok lbas) :
    ∀ lba ∈ lbas, ∃ bitIdx < part.blockBitmap.bitLen, part.blockBitmap.bit bitIdx = false ∧
      lba = part.sb.dataStartLba + UInt32.ofNat bitIdx := by
  induction n generalizing part lbas with
  | zero =>
      simp only [blockBitmapAllocs, Except.ok.injEq] at ran
      subst ran
      simp
  | succ n inductionHypothesis =>
      obtain ⟨⟨first, next⟩, allocated, ran⟩ := except_bind_eq_ok.mp ran
      obtain ⟨rest, restRan, result⟩ := except_bind_eq_ok.mp ran
      have later := inductionHypothesis restRan
      cases first with
      | none =>
          obtain ⟨-, -, rfl⟩ := blockBitmapAlloc_eq_none allocated
          simp only [pure_eq_ok, Except.ok.injEq] at result
          subst result
          exact later
      | some lba =>
          obtain ⟨bitIdx, inside, free, given, rfl⟩ := blockBitmapAlloc_eq_some allocated
          simp only [pure_eq_ok, Except.ok.injEq] at result
          subst result
          intro other membership
          rcases List.mem_cons.mp membership with rfl | membership
          · exact ⟨bitIdx, inside, free, given⟩
          · obtain ⟨otherIdx, otherInside, otherFree, otherGiven⟩ := later other membership
            refine ⟨otherIdx, otherInside, ?_, otherGiven⟩
            -- a bit taken meanwhile would be set
            simp only [Partition.setBlockBitmap_blockBitmap, Bitmap.bit_put] at otherFree
            split at otherFree
            next => cases otherFree
            next => exact otherFree

end HongbaiOS.Fs
