import HongbaiOS.Fs.SuperBlock
import Mathlib.Data.Fintype.Pi

/-!
# Inodes on disk and in memory

`inode.c`: where an inode lies in the table, writing it there and reading it
back.  An inode is 19 words; word 3 holds `write_deny`, the last two the links of
`inode_tag`, which are `NULL` in every image written to the disk.
-/

namespace HongbaiOS.Fs

open HongbaiOS.Library HongbaiOS.Kernel HongbaiOS.Device HongbaiOS.Lib

/-- The literals below 13 name the places of `i_sectors`. -/
instance sectorPlaces : NeZero 13 := ⟨by decide⟩

/-- `struct inode`; the list `open_inodes` stands for its `inode_tag`. -/
structure Inode where
  iNo : UInt32
  iSize : UInt32
  iOpenCnts : UInt32
  writeDeny : Bool
  iSectors : Fin 13 → UInt32

namespace Inode

def words (inode : Inode) : Nat → UInt32
  | 0 => inode.iNo
  | 1 => inode.iSize
  | 2 => inode.iOpenCnts
  | 3 => if inode.writeDeny then 1 else 0
  | k + 4 => if inside : k < 13 then inode.iSectors ⟨k, inside⟩ else 0

/-- The 76 bytes of an inode whose `inode_tag` is cleared. -/
def bytes (inode : Inode) : Bytes := Bytes.ofWords inode.words

def ofBytes (store : Bytes) : Inode where
  iNo := store.word 0
  iSize := store.word 1
  iOpenCnts := store.word 2
  writeDeny := store 12 != 0
  iSectors := fun k => store.word (k + 4)

/-- `pure_inode`: the members that only mean something in memory are cleared. -/
@[simps]
def pureInode (inode : Inode) : Inode := { inode with iOpenCnts := 0, writeDeny := false }

theorem ofBytes_congr {left right : Bytes} (same : Bytes.SameHead inodeSize left right) :
    ofBytes left = ofBytes right := by
  have sameWord : ∀ k < 19, left.word k = right.word k :=
    fun k small => Bytes.word_congr same (by simp only [inodeSize]; omega)
  have sameByte : left 12 = right 12 := same 12 (by decide)
  have sameSectors : (fun k : Fin 13 => left.word (k + 4)) =
      fun k : Fin 13 => right.word (k + 4) := by
    funext k
    exact sameWord (k + 4) (by omega)
  simp only [ofBytes, sameWord 0, sameWord 1, sameWord 2, sameByte, sameSectors, Nat.reduceLT]

@[simp]
theorem ofBytes_bytes (inode : Inode) : ofBytes inode.bytes = inode := by
  have deny : (inode.bytes 12 != 0) = inode.writeDeny := by
    change (Bytes.byteOf (if inode.writeDeny then 1 else 0) 0 != 0) = inode.writeDeny
    cases inode.writeDeny <;> decide
  have sectors : (fun k : Fin 13 => inode.bytes.word (k + 4)) = inode.iSectors := by
    funext k
    simp [bytes, words]
  have fields : inode.bytes.word 0 = inode.iNo ∧ inode.bytes.word 1 = inode.iSize ∧
      inode.bytes.word 2 = inode.iOpenCnts := by
    simp [bytes, words]
  simp only [ofBytes, deny, sectors, fields]

end Inode

/-- `struct inode_position` -/
structure InodePosition where
  twoSec : Bool
  secLba : UInt32
  offSize : UInt32

/-- `inode_locate(part, inode_no, inode_pos)` -/
def inodeLocate (part : Partition) (inodeNo : UInt32) : Except Halt InodePosition := do
  check .inodeLocate (inodeNo < 4096)
  let offSize := inodeNo * 76
  let offSec := offSize / 512
  let offSizeInSec := offSize % 512
  let leftInSec := 512 - offSizeInSec
  return {
    twoSec := leftInSec < 76
    secLba := part.sb.inodeTableLba + offSec
    offSize := offSizeInSec }

/-- How many sectors an inode at this position is read and written with. -/
def InodePosition.sects (inodePos : InodePosition) : UInt8 := if inodePos.twoSec then 2 else 1

/-- `inode_sync(part, inode, io_buf)`.  The number goes through a `uint8_t`. -/
def inodeSync (part : Partition) (inode : Inode) (ioBuf : Bytes) : Except Halt Partition := do
  let inodeNo : UInt8 := inode.iNo.toUInt8
  let inodePos ← inodeLocate part inodeNo.toUInt32
  check .inodeSync (inodePos.secLba ≤ part.startLba + part.secCnt)
  let inodeBuf ← ideRead part.myDisk inodePos.secLba.toNat ioBuf inodePos.sects
  let inodeBuf := inodeBuf.splice inodePos.offSize.toNat inodeSize
    inode.pureInode.bytes
  let disk ← ideWrite part.myDisk inodePos.secLba.toNat inodeBuf inodePos.sects
  return part.setDisk disk

/-- `inode_open(part, inode_no)`.  `memory` holds the in-memory inodes; `found`
and `inodeBuf` are what the two calls of `sys_malloc` give, the address of the
new inode and a buffer with unknown contents. -/
def inodeOpen (part : Partition) (memory : Address → Inode) (inodeNo : UInt32)
    (found : Address) (inodeBuf : Bytes) :
    Except Halt (Address × Partition × (Address → Inode)) :=
  match part.openInodes.find? fun a => (memory a).iNo = inodeNo with
  | some a =>
      let inode := memory a
      .ok (a, part,
        Function.update memory a { inode with iOpenCnts := inode.iOpenCnts + 1 })
  | none => do
      let inodePos ← inodeLocate part inodeNo
      let inodeBuf ← ideRead part.myDisk inodePos.secLba.toNat inodeBuf inodePos.sects
      let inode := Inode.ofBytes (inodeBuf.window inodePos.offSize.toNat)
      return (found, part.setOpenInodes (found :: part.openInodes),
        Function.update memory found { inode with iOpenCnts := 1 })

/-- The part of `inode_open` that reads inode `inode_no` from the disk into `inode_buf`. -/
def inodeRead (part : Partition) (inodeNo : UInt32) (inodeBuf : Bytes) : Except Halt Inode := do
  let inodePos ← inodeLocate part inodeNo
  let inodeBuf ← ideRead part.myDisk inodePos.secLba.toNat inodeBuf inodePos.sects
  return Inode.ofBytes (inodeBuf.window inodePos.offSize.toNat)

/-- `inode_init(inode_no, new_inode)` -/
def inodeInit (inodeNo : UInt32) : Inode where
  iNo := inodeNo
  iSize := 0
  iOpenCnts := 0
  writeDeny := false
  iSectors := fun _ => 0

/-- Where the record of inode `n` starts on the disk. -/
def Partition.inodeOffset (part : Partition) (n : Nat) : Nat :=
  512 * part.sb.inodeTableLba.toNat + inodeSize * n

@[simp]
theorem Partition.setDisk_inodeOffset (part : Partition) (disk : Bytes) (n : Nat) :
    (part.setDisk disk).inodeOffset n = part.inodeOffset n := rfl

/-- The record of inode `n` on the disk. -/
def Partition.inodeRecord (part : Partition) (n : Nat) : Bytes :=
  part.myDisk.window (part.inodeOffset n)

@[simp]
theorem InodePosition.sects_pos (inodePos : InodePosition) : inodePos.sects > 0 := by
  unfold InodePosition.sects
  split <;> decide

variable {part : Partition}

/-- The position found for an inode: its record starts there, and the sectors
read hold all of it. -/
theorem inodeLocate_eq (mounted : part.Mounted) {inodeNo : UInt32} (small : inodeNo < 4096) :
    ∃ inodePos, inodeLocate part inodeNo = .ok inodePos ∧
      512 * inodePos.secLba.toNat + inodePos.offSize.toNat = part.inodeOffset inodeNo.toNat ∧
      inodePos.offSize.toNat + inodeSize ≤ 512 * inodePos.sects.toNat ∧
      inodePos.secLba.toNat ≤ maxLba ∧
      inodePos.secLba ≤ part.startLba + part.secCnt := by
  have smallNat : inodeNo.toNat < 4096 := small
  have tableLow := mounted.inodeTableLba
  have tableHigh := mounted.dataStartLba
  have inside := mounted.dataInside
  have onDisk := mounted.onDisk
  have fits := mounted.fits
  simp only [inodeTableSects, maxLba] at tableHigh onDisk
  have offset : (inodeNo * 76).toNat = 76 * inodeNo.toNat := by
    rw [UInt32.toNat_mul, Nat.mul_comm]
    exact Nat.mod_eq_of_lt (by change 76 * inodeNo.toNat < 4294967296; omega)
  have quotient : (inodeNo * 76 / 512).toNat = 76 * inodeNo.toNat / 512 := by
    rw [UInt32.toNat_div, offset]
    rfl
  have remainder : (inodeNo * 76 % 512).toNat = 76 * inodeNo.toNat % 512 := by
    rw [UInt32.toNat_mod, offset]
    rfl
  have sector : (part.sb.inodeTableLba + inodeNo * 76 / 512).toNat =
      part.sb.inodeTableLba.toNat + 76 * inodeNo.toNat / 512 := by
    rw [UInt32.toNat_add, quotient]
    omega
  have last : (part.startLba + part.secCnt).toNat =
      part.startLba.toNat + part.secCnt.toNat := by
    rw [UInt32.toNat_add]
    omega
  have left : (512 - inodeNo * 76 % 512).toNat = 512 - 76 * inodeNo.toNat % 512 := by
    have small : inodeNo * 76 % 512 ≤ 512 := by
      rw [UInt32.le_iff_toNat_le, remainder]
      change _ ≤ 512
      omega
    rw [UInt32.toNat_sub_of_le _ _ small, remainder]
    rfl
  have straddles : 512 - inodeNo * 76 % 512 < 76 ↔ 512 - 76 * inodeNo.toNat % 512 < 76 := by
    rw [UInt32.lt_iff_toNat_lt, left]
    rfl
  refine ⟨_, by simp [inodeLocate, small]; rfl, ?_, ?_, ?_, ?_⟩
  · simp only [sector, remainder, Partition.inodeOffset, inodeSize]
    omega
  · simp only [InodePosition.sects, straddles, remainder, inodeSize, decide_eq_true_eq]
    split
    next => simp only [UInt8.reduceToNat]; omega
    next => simp only [UInt8.reduceToNat]; omega
  · simp only [sector, maxLba]
    omega
  · rw [UInt32.le_iff_toNat_le]
    simp only [sector, last]
    omega

theorem inodeSync_eq (mounted : part.Mounted) (inode : Inode) (ioBuf : Bytes) :
    inodeSync part inode ioBuf = .ok (part.setDisk (part.myDisk.splice
      (part.inodeOffset (inode.iNo.toNat % 256)) inodeSize inode.pureInode.bytes)) := by
  have truncated : inode.iNo.toUInt8.toUInt32.toNat = inode.iNo.toNat % 256 := by
    simp
  have small : inode.iNo.toUInt8.toUInt32 < 4096 := by
    rw [UInt32.lt_iff_toNat_lt, truncated]
    exact lt_trans (Nat.mod_lt _ (by decide)) (by decide : 256 < 4096)
  obtain ⟨inodePos, located, offset, fits, addressed, inPart⟩ := inodeLocate_eq mounted small
  rw [truncated] at offset
  simp only [inodeSync, located, ok_bind, inPart, decide_true, check_true,
    ideRead_eq addressed inodePos.sects_pos, ideWrite_eq addressed inodePos.sects_pos,
    Bytes.splice_read_modify_write fits, offset, pure_eq_ok]

theorem inodeRead_eq (mounted : part.Mounted) {inodeNo : UInt32} (small : inodeNo < 4096)
    (inodeBuf : Bytes) :
    inodeRead part inodeNo inodeBuf = .ok (Inode.ofBytes (part.inodeRecord inodeNo.toNat)) := by
  obtain ⟨inodePos, located, offset, fits, addressed, -⟩ := inodeLocate_eq mounted small
  have record : Inode.ofBytes ((inodeBuf.splice 0 (512 * inodePos.sects.toNat)
      (part.myDisk.window (512 * inodePos.secLba.toNat))).window inodePos.offSize.toNat) =
      Inode.ofBytes (part.inodeRecord inodeNo.toNat) := by
    apply Inode.ofBytes_congr
    intro a small
    rw [Bytes.window_apply, Bytes.splice_inside (Nat.zero_le _) (by omega),
      Partition.inodeRecord, ← offset, Nat.sub_zero]
    simp only [Bytes.window_apply, Nat.add_assoc]
  simp only [inodeRead, located, ok_bind, ideRead_eq addressed inodePos.sects_pos, record,
    pure_eq_ok]

theorem inodeOpen_of_miss {inodeNo : UInt32} {memory : Address → Inode}
    (missed : ∀ a ∈ part.openInodes, (memory a).iNo ≠ inodeNo) (found : Address)
    (inodeBuf : Bytes) :
    inodeOpen part memory inodeNo found inodeBuf = inodeRead part inodeNo inodeBuf >>= fun inode =>
      .ok (found, part.setOpenInodes (found :: part.openInodes),
        Function.update memory found { inode with iOpenCnts := 1 }) := by
  have notListed : part.openInodes.find? (fun a => (memory a).iNo = inodeNo) = none := by
    rw [List.find?_eq_none]
    intro a membership
    simpa using missed a membership
  simp only [inodeOpen, notListed, inodeRead, bind_assoc, pure_eq_ok, ok_bind]

theorem inodeOpen_eq_of_miss (mounted : part.Mounted) {inodeNo : UInt32}
    (small : inodeNo < 4096) {memory : Address → Inode}
    (missed : ∀ a ∈ part.openInodes, (memory a).iNo ≠ inodeNo)
    (found : Address) (inodeBuf : Bytes) :
    inodeOpen part memory inodeNo found inodeBuf =
      .ok (found, part.setOpenInodes (found :: part.openInodes),
        Function.update memory found
          { Inode.ofBytes (part.inodeRecord inodeNo.toNat) with iOpenCnts := 1 }) := by
  rw [inodeOpen_of_miss missed, inodeRead_eq mounted small, ok_bind]

/-- Every `inode_open` of the number that misses the list reads the inode back,
with the members that only mean something in memory reset. -/
def ReadsBack (part : Partition) (inode : Inode) : Prop :=
  ∀ (memory : Address → Inode) (found : Address) (inodeBuf : Bytes),
    (∀ a ∈ part.openInodes, (memory a).iNo ≠ inode.iNo) →
    ∃ part' memory', inodeOpen part memory inode.iNo found inodeBuf =
        .ok (found, part', memory') ∧
      memory' found = { inode with iOpenCnts := 1, writeDeny := false }

/-- Only bytes of the record of inode `n` differ between the two disks. -/
def ChangesOnlyRecord (part part' : Partition) (n : Nat) : Prop :=
  ∀ a, (a < part.inodeOffset n ∨ part.inodeOffset n + inodeSize ≤ a) →
    part'.myDisk a = part.myDisk a

/-- The record of inode `n` already holds what `inode_open` has to read back. -/
def RecordHolds (part : Partition) (n : Nat) (inode : Inode) : Prop :=
  { Inode.ofBytes (part.inodeRecord n) with iOpenCnts := 1 } =
    { inode with iOpenCnts := 1, writeDeny := false }

theorem readsBack_iff (mounted : part.Mounted) {inode : Inode} (small : inode.iNo < 4096) :
    ReadsBack part inode ↔ RecordHolds part inode.iNo.toNat inode := by
  constructor
  · intro readsBack
    -- an open list that misses: no inode in memory has this number
    obtain ⟨part', memory', ran, same⟩ := readsBack
      (fun _ => { inode with iNo := inode.iNo + 1 }) 0 (Bytes.fill 0) (by simp)
    rw [inodeOpen_eq_of_miss mounted small (by simp)] at ran
    simp only [Except.ok.injEq, Prod.mk.injEq, true_and] at ran
    rw [← ran.2, Function.update_self] at same
    exact same
  · intro holds memory found inodeBuf missed
    refine ⟨_, _, inodeOpen_eq_of_miss mounted small missed found inodeBuf, ?_⟩
    rw [Function.update_self]
    exact holds

theorem recordHolds_of_written {inode : Inode} {n : Nat}
    (written : Bytes.SameHead inodeSize (part.inodeRecord n) inode.pureInode.bytes) :
    RecordHolds part n inode := by
  rw [RecordHolds, Inode.ofBytes_congr written, Inode.ofBytes_bytes]
  rfl

theorem inodeRecord_splice_apart (disk : Bytes) {n m : Nat} (different : n ≠ m)
    (record : Bytes) :
    Bytes.SameHead inodeSize
      ((part.setDisk (disk.splice (part.inodeOffset m) inodeSize record)).inodeRecord n)
      (disk.window (part.inodeOffset n)) := by
  simp only [Partition.inodeRecord, Partition.setDisk_inodeOffset]
  apply Bytes.window_splice_apart
  simp only [Partition.inodeOffset, inodeSize]
  rcases Nat.lt_or_gt_of_ne different with less | greater
  · left
    omega
  · right
    omega

/-- After `inode_sync` the inode reads back and nothing else on the disk has
changed exactly if its number fits the `uint8_t` it goes through, or both the
record it belongs to and the one it is written to were already right. -/
theorem inodeSync_correct_iff (mounted : part.Mounted) {inode : Inode}
    (small : inode.iNo < 4096) (ioBuf : Bytes) :
    ∃ part', inodeSync part inode ioBuf = .ok part' ∧
      (ReadsBack part' inode ∧ ChangesOnlyRecord part part' inode.iNo.toNat ↔
        inode.iNo < 256 ∨
          RecordHolds part inode.iNo.toNat inode ∧
            Bytes.SameHead inodeSize (part.inodeRecord (inode.iNo.toNat % 256))
              inode.pureInode.bytes) := by
  refine ⟨_, inodeSync_eq mounted inode ioBuf, ?_⟩
  rw [readsBack_iff (mounted.setDisk _) small]
  by_cases fits : inode.iNo < 256
  · have sameSlot : inode.iNo.toNat % 256 = inode.iNo.toNat := Nat.mod_eq_of_lt fits
    simp only [fits, true_or, iff_true, sameSlot]
    constructor
    · apply recordHolds_of_written
      exact Bytes.window_splice_same (le_refl _)
    · intro a outside
      exact Bytes.splice_outside outside
  · have otherSlot : inode.iNo.toNat ≠ inode.iNo.toNat % 256 := by
      intro same
      apply fits
      rw [UInt32.lt_iff_toNat_lt, same]
      exact Nat.mod_lt _ (by decide)
    have untouched : Inode.ofBytes ((part.setDisk (part.myDisk.splice
        (part.inodeOffset (inode.iNo.toNat % 256)) inodeSize
          inode.pureInode.bytes)).inodeRecord inode.iNo.toNat) =
        Inode.ofBytes (part.inodeRecord inode.iNo.toNat) :=
      Inode.ofBytes_congr (inodeRecord_splice_apart part.myDisk otherSlot _)
    have apart : ∀ a < inodeSize,
        part.inodeOffset (inode.iNo.toNat % 256) + a < part.inodeOffset inode.iNo.toNat ∨
        part.inodeOffset inode.iNo.toNat + inodeSize ≤
          part.inodeOffset (inode.iNo.toNat % 256) + a := by
      simp only [Partition.inodeOffset, inodeSize]
      intro a inside
      omega
    simp only [RecordHolds, untouched, fits, false_or]
    refine and_congr_right fun holds => ?_
    constructor
    · intro unchanged a inside
      rw [Partition.inodeRecord, Bytes.window_apply, ← unchanged _ (apart a inside)]
      exact Bytes.splice_add inside
    · intro already a outside
      rw [Partition.setDisk_myDisk, Bytes.splice_eq_self already]

/-- A partition of 8192 sectors as `mount_partition` presents it. -/
def samplePartition : Partition where
  startLba := 2048
  secCnt := 8192
  myDisk := Bytes.fill 0
  sb := {
    magic := 0x20250325, secCnt := 8192, inodeCnt := 4096, partLbaBase := 2048
    blockBitmapLba := 2050, blockBitmapSects := 2
    inodeBitmapLba := 2052, inodeBitmapSects := 1
    inodeTableLba := 2053, inodeTableSects := 608
    dataStartLba := 2661, rootInodeNo := 0, dirEntrySize := 24 }
  blockBitmap := ⟨1024, Bytes.fill 1⟩
  inodeBitmap := ⟨1024, Bytes.fill 1⟩
  openInodes := []

theorem samplePartition_mounted : samplePartition.Mounted := by
  constructor <;> decide

/-- Inode 6 straddles two sectors and is written and read back. -/
theorem inodeSync_correct_straddling :
    (76 * 6 % 512 + 76 > 512) ∧
    ∃ part', inodeSync samplePartition (inodeInit 6) (Bytes.fill 0) = .ok part' ∧
      ReadsBack part' (inodeInit 6) ∧ ChangesOnlyRecord samplePartition part' 6 := by
  refine ⟨by decide, ?_⟩
  obtain ⟨part', ran, correct⟩ :=
    inodeSync_correct_iff samplePartition_mounted (by decide : (inodeInit 6).iNo < 4096)
      (Bytes.fill 0)
  exact ⟨part', ran, correct.mpr (Or.inl (by decide))⟩

/-- Inode 256 is written over inode 0 and does not read back. -/
theorem inodeSync_wrong_at_256 :
    ∃ part', inodeSync samplePartition (inodeInit 256) (Bytes.fill 0) = .ok part' ∧
      ¬ (ReadsBack part' (inodeInit 256) ∧ ChangesOnlyRecord samplePartition part' 256) := by
  refine ⟨_, inodeSync_eq samplePartition_mounted (inodeInit 256) (Bytes.fill 0), ?_⟩
  rintro ⟨readsBack, -⟩
  rw [readsBack_iff (samplePartition_mounted.setDisk _) (by decide)] at readsBack
  have wrongNumber := congrArg Inode.iNo readsBack
  revert wrongNumber
  decide

end HongbaiOS.Fs
