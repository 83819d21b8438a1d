import HongbaiOS.Device.Ide
import HongbaiOS.Lib.Bitmap
import Mathlib.Tactic.Simps.Basic

/-!
# Partitions

The super block, the partition record built from it when the partition is
mounted, and what holds of every mounted partition.
-/

namespace HongbaiOS.Fs

open HongbaiOS.Library HongbaiOS.Kernel HongbaiOS.Device HongbaiOS.Lib

/-- Address of an object in memory. -/
abbrev Address := Nat

/-- `sizeof(struct dir_entry)` -/
def dirEntrySize : Nat := 24

/-- `sizeof(struct inode)` -/
def inodeSize : Nat := 76

def inodeTableSects : Nat := 608

/-- `struct super_block` without its padding. -/
structure SuperBlock where
  magic : UInt32
  secCnt : UInt32
  inodeCnt : UInt32
  partLbaBase : UInt32
  blockBitmapLba : UInt32
  blockBitmapSects : UInt32
  inodeBitmapLba : UInt32
  inodeBitmapSects : UInt32
  inodeTableLba : UInt32
  inodeTableSects : UInt32
  dataStartLba : UInt32
  rootInodeNo : UInt32
  dirEntrySize : UInt32
  deriving DecidableEq

namespace SuperBlock

/-- The words of a super block; `pad` stands for whatever follows the fields. -/
def words (sb : SuperBlock) (pad : Nat → UInt32) : Nat → UInt32
  | 0 => sb.magic
  | 1 => sb.secCnt
  | 2 => sb.inodeCnt
  | 3 => sb.partLbaBase
  | 4 => sb.blockBitmapLba
  | 5 => sb.blockBitmapSects
  | 6 => sb.inodeBitmapLba
  | 7 => sb.inodeBitmapSects
  | 8 => sb.inodeTableLba
  | 9 => sb.inodeTableSects
  | 10 => sb.dataStartLba
  | 11 => sb.rootInodeNo
  | 12 => sb.dirEntrySize
  | k + 13 => pad k

def ofBytes (store : Bytes) : SuperBlock where
  magic := store.word 0
  secCnt := store.word 1
  inodeCnt := store.word 2
  partLbaBase := store.word 3
  blockBitmapLba := store.word 4
  blockBitmapSects := store.word 5
  inodeBitmapLba := store.word 6
  inodeBitmapSects := store.word 7
  inodeTableLba := store.word 8
  inodeTableSects := store.word 9
  dataStartLba := store.word 10
  rootInodeNo := store.word 11
  dirEntrySize := store.word 12

theorem ofBytes_congr {left right : Bytes} (same : Bytes.SameHead 512 left right) :
    ofBytes left = ofBytes right := by
  have sameWord : ∀ k < 13, left.word k = right.word k :=
    fun k small => Bytes.word_congr same (by omega)
  simp only [ofBytes, sameWord 0, sameWord 1, sameWord 2, sameWord 3, sameWord 4, sameWord 5,
    sameWord 6, sameWord 7, sameWord 8, sameWord 9, sameWord 10, sameWord 11, sameWord 12,
    Nat.reduceLT]

@[simp]
theorem ofBytes_words (sb : SuperBlock) (pad : Nat → UInt32) :
    ofBytes (Bytes.ofWords (sb.words pad)) = sb := by
  simp only [ofBytes, Bytes.word_ofWords]
  rfl

end SuperBlock

/-- `struct partition`, with the contents of the disk it lies on. -/
structure Partition where
  startLba : UInt32
  secCnt : UInt32
  myDisk : Bytes
  sb : SuperBlock
  blockBitmap : Bitmap
  inodeBitmap : Bitmap
  /-- The in-memory inodes linked by `open_inodes`, first to last. -/
  openInodes : List Address

namespace Partition

@[simps]
def setDisk (part : Partition) (disk : Bytes) : Partition := { part with myDisk := disk }

@[simps]
def setBlockBitmap (part : Partition) (btmp : Bitmap) : Partition :=
  { part with blockBitmap := btmp }

@[simps]
def setInodeBitmap (part : Partition) (btmp : Bitmap) : Partition :=
  { part with inodeBitmap := btmp }

@[simps]
def setOpenInodes (part : Partition) (list : List Address) : Partition :=
  { part with openInodes := list }

/-- The super block describes the areas one after the other, the driver reaches
the first data block, and the bitmaps in memory have the lengths that
`mount_partition` gives them. -/
structure Mounted (part : Partition) : Prop where
  fits : part.startLba.toNat + part.secCnt.toNat < 2 ^ 32
  onDisk : part.sb.dataStartLba.toNat ≤ maxLba
  blockBitmapLba : part.sb.blockBitmapLba.toNat = part.startLba.toNat + 2
  inodeBitmapLba : part.sb.inodeBitmapLba.toNat =
    part.sb.blockBitmapLba.toNat + part.sb.blockBitmapSects.toNat
  inodeBitmapSects : part.sb.inodeBitmapSects.toNat = 1
  inodeTableLba : part.sb.inodeTableLba.toNat = part.sb.inodeBitmapLba.toNat + 1
  dataStartLba : part.sb.dataStartLba.toNat =
    part.sb.inodeTableLba.toNat + Fs.inodeTableSects
  dataInside : part.sb.dataStartLba.toNat ≤ part.startLba.toNat + part.secCnt.toNat
  dirEntrySize : part.sb.dirEntrySize = 24
  blockBitmapLen : part.blockBitmap.btmpBytesLen = part.sb.blockBitmapSects.toNat * 512
  inodeBitmapLen : part.inodeBitmap.btmpBytesLen = part.sb.blockBitmapSects.toNat * 512

theorem Mounted.setDisk {part : Partition} (mounted : part.Mounted) (disk : Bytes) :
    (part.setDisk disk).Mounted := by
  constructor
  · exact mounted.fits
  · exact mounted.onDisk
  · exact mounted.blockBitmapLba
  · exact mounted.inodeBitmapLba
  · exact mounted.inodeBitmapSects
  · exact mounted.inodeTableLba
  · exact mounted.dataStartLba
  · exact mounted.dataInside
  · exact mounted.dirEntrySize
  · exact mounted.blockBitmapLen
  · exact mounted.inodeBitmapLen

theorem Mounted.setBlockBitmap {part : Partition} (mounted : part.Mounted) {btmp : Bitmap}
    (sameLen : btmp.btmpBytesLen = part.blockBitmap.btmpBytesLen) :
    (part.setBlockBitmap btmp).Mounted := by
  constructor
  · exact mounted.fits
  · exact mounted.onDisk
  · exact mounted.blockBitmapLba
  · exact mounted.inodeBitmapLba
  · exact mounted.inodeBitmapSects
  · exact mounted.inodeTableLba
  · exact mounted.dataStartLba
  · exact mounted.dataInside
  · exact mounted.dirEntrySize
  · exact sameLen.trans mounted.blockBitmapLen
  · exact mounted.inodeBitmapLen

theorem Mounted.setInodeBitmap {part : Partition} (mounted : part.Mounted) {btmp : Bitmap}
    (sameLen : btmp.btmpBytesLen = part.inodeBitmap.btmpBytesLen) :
    (part.setInodeBitmap btmp).Mounted := by
  constructor
  · exact mounted.fits
  · exact mounted.onDisk
  · exact mounted.blockBitmapLba
  · exact mounted.inodeBitmapLba
  · exact mounted.inodeBitmapSects
  · exact mounted.inodeTableLba
  · exact mounted.dataStartLba
  · exact mounted.dataInside
  · exact mounted.dirEntrySize
  · exact mounted.blockBitmapLen
  · exact sameLen.trans mounted.inodeBitmapLen

theorem Mounted.setOpenInodes {part : Partition} (mounted : part.Mounted)
    (list : List Address) : (part.setOpenInodes list).Mounted := by
  constructor
  · exact mounted.fits
  · exact mounted.onDisk
  · exact mounted.blockBitmapLba
  · exact mounted.inodeBitmapLba
  · exact mounted.inodeBitmapSects
  · exact mounted.inodeTableLba
  · exact mounted.dataStartLba
  · exact mounted.dataInside
  · exact mounted.dirEntrySize
  · exact mounted.blockBitmapLen
  · exact mounted.inodeBitmapLen

end Partition

end HongbaiOS.Fs
