import HongbaiOS.Fs.CreateRun
import HongbaiOS.Fs.DirRun
import HongbaiOS.Library.Ownership

/-!
# Who holds which block

The block numbers that stand in the inodes of a partition and in their indirect tables,
against the block bitmap in memory.
-/

namespace HongbaiOS.Fs

open HongbaiOS.Library HongbaiOS.Kernel HongbaiOS.Device HongbaiOS.Lib

inductive BlockPlace where
  /-- `i_sectors[k]` of the inode at `a`; number 12 is its indirect table. -/
  | sector (a : Address) (k : Fin 13)
  /-- Entry `j` of that table. -/
  | tableEntry (a : Address) (j : Fin 128)
  deriving DecidableEq

def BlockPlace.inode : BlockPlace → Address
  | sector a _ => a
  | tableEntry a _ => a

/-- Word `j` of the block at `lba`. -/
def blockWord (disk : Bytes) (lba : UInt32) (j : Nat) : UInt32 :=
  (disk.window (512 * lba.toNat)).word j

/-- The block number at a place of an open inode; 0 stands for none. -/
def blockAt (part : Partition) (inodeAt : Address → Inode) : BlockPlace → Option UInt32
  | .sector a k =>
      if a ∈ part.openInodes ∧ (inodeAt a).iSectors k ≠ 0 then some ((inodeAt a).iSectors k)
      else none
  | .tableEntry a j =>
      if a ∈ part.openInodes ∧ (inodeAt a).iSectors 12 ≠ 0 ∧
          blockWord part.myDisk ((inodeAt a).iSectors 12) j ≠ 0 then
        some (blockWord part.myDisk ((inodeAt a).iSectors 12) j)
      else none

/-- The bit of the block is set in memory. -/
def Partition.BlockTaken (part : Partition) (lba : UInt32) : Prop :=
  ∃ bitIdx < part.blockBitmap.bitLen, lba = part.sb.dataStartLba + UInt32.ofNat bitIdx ∧
    part.blockBitmap.bit bitIdx = true

/-- Every block number in an inode or a table has its bit set, and no block is referenced
from two places. -/
def FileSystem.BlocksOwned (fs : FileSystem) : Prop :=
  Owns fs.curPart.BlockTaken (blockAt fs.curPart fs.inodeAt)

section Places

variable {part part' : Partition} {inodeAt inodeAt' : Address → Inode} {a parent : Address}
  {k : Fin 13} {j : Fin 128} {r : UInt32}

theorem blockAt_sector : blockAt part inodeAt (.sector a k) = some r ↔
    a ∈ part.openInodes ∧ (inodeAt a).iSectors k = r ∧ r ≠ 0 := by
  rw [blockAt]
  split
  next held =>
    rw [Option.some.injEq]
    exact ⟨fun same => ⟨held.1, same, same ▸ held.2⟩, fun held => held.2.1⟩
  next none =>
    refine iff_of_false (by simp) fun held => none ⟨held.1, ?_⟩
    rw [held.2.1]
    exact held.2.2

theorem blockAt_tableEntry : blockAt part inodeAt (.tableEntry a j) = some r ↔
    a ∈ part.openInodes ∧ (inodeAt a).iSectors 12 ≠ 0 ∧
      blockWord part.myDisk ((inodeAt a).iSectors 12) j = r ∧ r ≠ 0 := by
  rw [blockAt]
  split
  next held =>
    rw [Option.some.injEq]
    exact ⟨fun same => ⟨held.1, held.2.1, same, same ▸ held.2.2⟩, fun held => held.2.2.1⟩
  next none =>
    refine iff_of_false (by simp) fun held => none ⟨held.1, held.2.1, ?_⟩
    rw [held.2.2.1]
    exact held.2.2.2

theorem KeepsSector.blockWord {disk disk' : Bytes} {lba : UInt32}
    (kept : KeepsSector disk disk' lba) {j : Nat} (small : j < 128) :
    blockWord disk' lba j = blockWord disk lba j :=
  Bytes.word_congr kept (by omega)

theorem Partition.BlockTaken.inData (taken : part.BlockTaken r) (mounted : part.Mounted) :
    part.sb.dataStartLba.toNat ≤ r.toNat := by
  obtain ⟨bitIdx, inMap, rfl, -⟩ := taken
  rw [mounted.lba_toNat inMap]
  exact Nat.le_add_right _ _

theorem Partition.Mounted.not_blockTaken (mounted : part.Mounted) {bitIdx : Nat}
    (inMap : bitIdx < part.blockBitmap.bitLen) (free : part.blockBitmap.bit bitIdx = false) :
    ¬ part.BlockTaken (part.sb.dataStartLba + UInt32.ofNat bitIdx) := by
  rintro ⟨other, otherInMap, same, set⟩
  have equal := congrArg UInt32.toNat same
  rw [mounted.lba_toNat inMap, mounted.lba_toNat otherInMap] at equal
  obtain rfl : bitIdx = other := by omega
  rw [free] at set
  cases set

theorem blockTaken_takeBlock {bitIdx : Nat} (inMap : bitIdx < part.blockBitmap.bitLen)
    (grown : part.BlockTaken r ∨ r = part.sb.dataStartLba + UInt32.ofNat bitIdx) :
    (takeBlock part bitIdx).BlockTaken r := by
  rcases grown with ⟨other, otherInMap, same, set⟩ | rfl
  · refine ⟨other, otherInMap, same, ?_⟩
    rw [takeBlock_blockBitmap, Bitmap.bit_put, set]
    split <;> rfl
  · exact ⟨bitIdx, inMap, rfl, Bitmap.bit_put_self bitIdx true⟩

/-- What stands at a place after the inode of one directory has changed and the tables of
the others have been kept. -/
theorem blockAt_update (part : Partition) {inode' : Inode} {p : BlockPlace}
    (held : blockAt part' (Function.update inodeAt parent inode') p = some r)
    (sameOpen : part'.openInodes = part.openInodes)
    (kept : ∀ a ∈ part.openInodes, a ≠ parent → (inodeAt a).iSectors 12 ≠ 0 →
      KeepsSector part.myDisk part'.myDisk ((inodeAt a).iSectors 12)) :
    p.inode ≠ parent ∧ blockAt part inodeAt p = some r ∨
    (∃ k, p = .sector parent k ∧ inode'.iSectors k = r ∧ r ≠ 0) ∨
    ∃ j, p = .tableEntry parent j ∧ inode'.iSectors 12 ≠ 0 ∧
      blockWord part'.myDisk (inode'.iSectors 12) j = r ∧ r ≠ 0 := by
  cases p with
  | sector a k =>
      obtain ⟨isOpen, same, some⟩ := blockAt_sector.mp held
      rw [sameOpen] at isOpen
      by_cases isParent : a = parent
      · subst isParent
        rw [Function.update_self] at same
        exact Or.inr (Or.inl ⟨k, rfl, same, some⟩)
      · rw [Function.update_of_ne isParent] at same
        exact Or.inl ⟨isParent, blockAt_sector.mpr ⟨isOpen, same, some⟩⟩
  | tableEntry a j =>
      obtain ⟨isOpen, table, same, some⟩ := blockAt_tableEntry.mp held
      rw [sameOpen] at isOpen
      by_cases isParent : a = parent
      · subst isParent
        rw [Function.update_self] at table same
        exact Or.inr (Or.inr ⟨j, rfl, table, same, some⟩)
      · rw [Function.update_of_ne isParent] at table same
        rw [(kept a isOpen isParent table).blockWord j.isLt] at same
        exact Or.inl ⟨isParent, blockAt_tableEntry.mpr ⟨isOpen, table, same, some⟩⟩

theorem blockAt_of_same (part : Partition) {p : BlockPlace}
    (held : blockAt part' inodeAt' p = some r)
    (opened : ∀ a ∈ part'.openInodes,
      a ∈ part.openInodes ∧ (inodeAt' a).iSectors = (inodeAt a).iSectors ∨
        (inodeAt' a).iSectors = fun _ => 0)
    (kept : ∀ a ∈ part.openInodes, (inodeAt a).iSectors 12 ≠ 0 →
      KeepsSector part.myDisk part'.myDisk ((inodeAt a).iSectors 12)) :
    blockAt part inodeAt p = some r := by
  cases p with
  | sector a k =>
      obtain ⟨isOpen, same, some⟩ := blockAt_sector.mp held
      rcases opened a isOpen with ⟨wasOpen, sectors⟩ | empty
      · exact blockAt_sector.mpr ⟨wasOpen, by rw [← sectors, same], some⟩
      · rw [empty] at same
        exact absurd same.symm some
  | tableEntry a j =>
      obtain ⟨isOpen, table, same, some⟩ := blockAt_tableEntry.mp held
      rcases opened a isOpen with ⟨wasOpen, sectors⟩ | empty
      · rw [sectors] at table same
        rw [(kept a wasOpen table).blockWord j.isLt] at same
        exact blockAt_tableEntry.mpr ⟨wasOpen, table, same, some⟩
      · rw [empty] at table
        exact absurd rfl table

end Places

section Sync

variable {part part' : Partition} {inode inode' : Inode} {inodeAt : Address → Inode}
  {entry : DirEntry} {ok : Bool} {parent : Address}

theorem TakesTwo.keeps_taken {tableIdx bitIdx : Nat} (two : TakesTwo part tableIdx bitIdx)
    (mounted : part.Mounted) {lba : UInt32} (taken : part.BlockTaken lba) (ioBuf : Bytes) :
    KeepsSector part.myDisk (indirectDisk part tableIdx bitIdx entry ioBuf) lba := by
  obtain ⟨tableLba, isLba⟩ := two.lba_toNat mounted
  refine two.keeps_indirectDisk mounted entry ioBuf (taken.inData mounted) (fun same => ?_)
    fun same => ?_
  · refine mounted.not_blockTaken two.table.inside two.table.free ?_
    exact UInt32.toNat_inj.mp (same.trans tableLba.symm) ▸ taken
  · refine mounted.not_blockTaken two.inMap two.next.2 ?_
    exact UInt32.toNat_inj.mp (same.trans isLba.symm) ▸ taken

theorem SyncDone.owned (done : SyncDone part inode entry ok inode' part') (mounted : part.Mounted)
    (sameInode : inodeAt parent = inode) (isOpen : parent ∈ part.openInodes)
    (owned : Owns part.BlockTaken (blockAt part inodeAt)) :
    Owns part'.BlockTaken (blockAt part' (Function.update inodeAt parent inode')) := by
  subst sameInode
  have tableTaken : ∀ a ∈ part.openInodes, (inodeAt a).iSectors 12 ≠ 0 →
      part.BlockTaken ((inodeAt a).iSectors 12) := fun a inList table =>
    owned.taken (.sector a 12) _ (blockAt_sector.mpr ⟨inList, rfl, table⟩)
  cases done with
  | newTable two =>
      rename_i tableIdx bitIdx ioBuf
      have kept : ∀ a ∈ part.openInodes, (inodeAt a).iSectors 12 ≠ 0 →
          KeepsSector part.myDisk (indirectDisk part tableIdx bitIdx entry ioBuf)
            ((inodeAt a).iSectors 12) := fun a inList table =>
        two.keeps_taken mounted (tableTaken a inList table) _
      -- the table goes to its pointer, and then the block goes to the table's first entry
      have withTable : Owns (takeBlock part tableIdx).BlockTaken fun p =>
          if p = .sector parent 12 then
            some (part.sb.dataStartLba + UInt32.ofNat tableIdx)
          else if ∃ j, p = .tableEntry parent j then none
          else blockAt part inodeAt p := by
        refine owned.take (.sector parent 12)
          (mounted.not_blockTaken two.table.inside two.table.free)
          (fun p r held => ?_) fun r grown => blockTaken_takeBlock two.table.inside grown
        split at held
        next here => exact Or.inr ⟨here, (Option.some.inj held).symm⟩
        next =>
          split at held
          next => cases held
          next => exact Or.inl held
      refine withTable.take (.tableEntry parent 0)
        ((takeBlock_mounted mounted).not_blockTaken two.inMap two.block.free) (fun p r held => ?_)
        fun r grown => blockTaken_takeBlock two.inMap grown
      rcases blockAt_update part held rfl (fun a inList _ => kept a inList) with
        ⟨notParent, old⟩ | ⟨i, rfl, same, some⟩ | ⟨j, rfl, table, same, some⟩
      · left
        rw [if_neg, if_neg]
        · exact old
        · rintro ⟨j, rfl⟩
          exact notParent rfl
        · rintro rfl
          exact notParent rfl
      · rw [indirectInode, Inode.grow_iSectors, Inode.setSector_iSectors,
          Function.update_apply] at same
        left
        split at same
        next here => rw [if_pos (by rw [here]), same]
        next other =>
          rw [if_neg (fun place => other (BlockPlace.sector.inj place).2), if_neg (by simp)]
          exact blockAt_sector.mpr ⟨isOpen, same, some⟩
      · rw [indirectInode_iSectors_table] at same
        have word := two.indirectDisk_table mounted entry ioBuf j.isLt
        have here : j = 0 ∧ r = part.sb.dataStartLba + UInt32.ofNat bitIdx := by
          have value := word.symm.trans same
          split at value
          next first => exact ⟨Fin.ext first, value.symm⟩
          next => exact absurd value.symm some
        exact Or.inr ⟨by rw [here.1], here.2⟩
  | refused =>
      rw [Function.update_eq_self]
      exact owned
  | halfway lowest last =>
      rename_i tableIdx
      have inMap := lowest.inside
      have kept : ∀ a ∈ part.openInodes, (inodeAt a).iSectors 12 ≠ 0 →
          KeepsSector part.myDisk (takeBlock part tableIdx).myDisk ((inodeAt a).iSectors 12) := by
        intro a inList table i _
        have inData := (tableTaken a inList table).inData mounted
        have before := mounted.bitmap_before_data inMap
        exact takeBlock_myDisk_of_data mounted inMap (by omega)
      refine owned.shrink (fun p r held => ?_) fun p r _ taken => taken
      rcases blockAt_update part held rfl (fun a inList _ => kept a inList) with
        ⟨notParent, old⟩ | ⟨i, rfl, same, some⟩ | ⟨j, rfl, table, same, some⟩
      · exact old
      · rw [Inode.setSector_iSectors, Function.update_apply] at same
        split at same
        next => exact absurd same.symm some
        next => exact blockAt_sector.mpr ⟨isOpen, same, some⟩
      · rw [Inode.setSector_iSectors, Function.update_self] at table
        exact absurd rfl table

end Sync

section Create

variable {full : FullScan} {fs fs' : FileSystem}

/-- The data area lies behind everything that is written at the end. -/
theorem commitPart_data {part : Partition} {iNo : Nat} (dirInode fileInode : Inode)
    (mounted : part.Mounted) (inside : iNo < part.inodeBitmap.bitLen)
    (fewSects : part.sb.blockBitmapSects.toNat ≤ 609) {lba : UInt32}
    (inData : part.sb.dataStartLba.toNat ≤ lba.toNat) :
    KeepsSector part.myDisk (commitPart part dirInode fileInode iNo).myDisk lba := by
  intro a small
  have inodeTableLba := mounted.inodeTableLba
  have dataStartLba := mounted.dataStartLba
  have mapLen := mounted.inodeBitmapLen
  have sector := (inodeMapSector_toNat mounted inside).1
  simp only [inodeTableSects, Bitmap.bitLen] at dataStartLba inside
  rw [commitPart, Bytes.window_apply, Partition.setDisk_myDisk, sector,
    Bytes.splice_outside (by omega),
    Bytes.splice_outside (by simp only [Partition.inodeOffset, inodeSize]; omega),
    Bytes.splice_outside (by simp only [Partition.inodeOffset, inodeSize]; omega)]
  rfl

/-- The invariant of a run: the inode bitmap ends before the data area, and the blocks are
owned. -/
structure FileSystem.HoldsBlocks (fs : FileSystem) : Prop where
  mounted : fs.curPart.Mounted
  fewSects : fs.curPart.sb.blockBitmapSects.toNat ≤ 609
  owned : fs.BlocksOwned

theorem FileSystem.HoldsBlocks.fileCreate (holds : fs.HoldsBlocks) {task task' : FileTask}
    {parent : Address} {filename : CString} {ioBuf newFileInode : Option Address}
    {fd : Option Nat} (isOpen : parent ∈ fs.curPart.openInodes)
    (fresh : ∀ q ∈ newFileInode, q ∉ fs.curPart.openInodes)
    (done : CreateDone task fs parent filename ioBuf newFileInode fd fs' task') :
    fs'.HoldsBlocks := by
  obtain ⟨mounted, fewSects, owned⟩ := holds
  have numbered : ∀ iNo, (numberedPart fs.curPart iNo).Mounted := fun iNo =>
    mounted.setInodeBitmap rfl
  cases done with
  | early unreached samePart others =>
      rw [← samePart] at mounted fewSects
      refine ⟨mounted, fewSects, owned.shrink (fun p r held => ?_) fun p r _ taken => ?_⟩
      · refine blockAt_of_same fs.curPart held (fun a inList => Or.inl ?_) fun a _ _ => ?_
        · rw [samePart] at inList
          refine ⟨inList, ?_⟩
          rw [others a fun same => fresh a same inList]
        · rw [samePart]
          exact Bytes.SameHead.refl _ _
      · rwa [samePart]
  | refused reaches newInode inside free done samePart dir others =>
      rename_i q iNo fdIdx entry dirInode part'
      obtain ⟨mounted', sameSb, sameMap, sameOpen⟩ := done.mounted (numbered iNo)
      have after := done.owned (numbered iNo) rfl isOpen owned
      refine ⟨?_, ?_, after.shrink (fun p r held => ?_) fun p r _ taken => ?_⟩
      · rw [samePart]
        refine mounted'.setInodeBitmap ?_
        rw [sameMap]
        rfl
      · rw [samePart]
        change part'.sb.blockBitmapSects.toNat ≤ 609
        rw [sameSb]
        exact fewSects
      · refine blockAt_of_same part' held (fun a inList => Or.inl ?_) fun a _ _ => ?_
        · rw [samePart] at inList
          refine ⟨inList, ?_⟩
          change a ∈ part'.openInodes at inList
          rw [sameOpen] at inList
          by_cases isParent : a = parent
          · rw [isParent, Function.update_self, dir]
          · rw [Function.update_of_ne isParent,
              others a isParent fun same => fresh q newInode (same ▸ inList)]
        · rw [samePart]
          exact Bytes.SameHead.refl _ _
      · rw [samePart]
        exact taken
  | committed reaches newInode inside free named done samePart dir file others table =>
      rename_i q iNo fdIdx entry dirInode part'
      obtain ⟨mounted', sameSb, sameMap, sameOpen⟩ := done.mounted (numbered iNo)
      have after := done.owned (numbered iNo) rfl isOpen owned
      have fewSects' : part'.sb.blockBitmapSects.toNat ≤ 609 := by
        rw [sameSb]
        exact fewSects
      have inside' : iNo < part'.inodeBitmap.bitLen := by
        rw [sameMap]
        exact inside
      refine ⟨?_, ?_, after.shrink (fun p r held => ?_) fun p r _ taken => ?_⟩
      · rw [samePart]
        exact (commitPart_mounted _ _ mounted').setOpenInodes _
      · rw [samePart]
        exact fewSects'
      · refine blockAt_of_same part' held (fun a inList => ?_) fun a inList table => ?_
        · rw [samePart] at inList
          rcases List.mem_cons.mp inList with isNew | isOld
          · right
            rw [isNew, file]
            rfl
          · left
            refine ⟨isOld, ?_⟩
            change a ∈ part'.openInodes at isOld
            rw [sameOpen] at isOld
            by_cases isParent : a = parent
            · rw [isParent, Function.update_self, dir]
            · rw [Function.update_of_ne isParent,
                others a isParent fun same => fresh q newInode (same ▸ isOld)]
        · rw [samePart]
          refine commitPart_data _ _ mounted' inside' fewSects' ?_
          exact (after.taken (.sector a 12) _
            (blockAt_sector.mpr ⟨inList, rfl, table⟩)).inData mounted'
      · rw [samePart]
        exact taken

theorem FileSystem.HoldsBlocks.step (holds : fs.HoldsBlocks) {call : FsCall}
    (ran : fsStep full fs call = .ok fs') : fs'.HoldsBlocks := by
  unfold fsStep at ran
  split at ran
  next sound =>
    obtain ⟨isOpen, fresh⟩ := sound
    cases call with
    | syncDirEntry parent entry ioBuf =>
        obtain ⟨⟨ok, dirInode, part⟩, synced, result⟩ := except_bind_eq_ok.mp ran
        rw [← Except.ok.inj result]
        have done := syncDirEntry_done holds.mounted synced
        obtain ⟨mounted', sameSb, -, -⟩ := done.mounted holds.mounted
        refine ⟨mounted', ?_, done.owned holds.mounted rfl isOpen holds.owned⟩
        change part.sb.blockBitmapSects.toNat ≤ 609
        rw [sameSb]
        exact holds.fewSects
    | fileCreate task parent filename ioBuf newFileInode buf =>
        obtain ⟨⟨fd, after, task'⟩, created, result⟩ := except_bind_eq_ok.mp ran
        rw [← Except.ok.inj result]
        have apart : newFileInode ≠ some parent := fun same => fresh parent same isOpen
        exact holds.fileCreate isOpen fresh (fileCreate_done holds.mounted apart created)
  next => cases ran

end Create

section Mount

variable {startLba secCnt : UInt32} {disk disk' blockBuf inodeBuf buf : Bytes}
  {part : Partition} {memory : Address → Inode} {found root : Address} {fs : FileSystem}

theorem root_opened (formatted : Formatted startLba secCnt disk disk')
    (mounting : mountPartition startLba secCnt disk' blockBuf inodeBuf = .ok part)
    (opened : inodeOpen part memory part.sb.rootInodeNo found buf =
      .ok (root, fs.curPart, fs.inodeAt)) : fs.curPart = part.setOpenInodes [root] := by
  obtain ⟨mount, ran, -, -, -, noneOpen, -⟩ := formatted.mount_eq blockBuf inodeBuf
  obtain rfl : mount = part := Except.ok.inj (ran.symm.trans mounting)
  unfold inodeOpen at opened
  rw [noneOpen, List.find?_nil] at opened
  obtain ⟨inodePos, -, opened⟩ := except_bind_eq_ok.mp opened
  obtain ⟨record, -, opened⟩ := except_bind_eq_ok.mp opened
  simp only [pure_eq_ok, Except.ok.injEq, Prod.mk.injEq] at opened
  rw [← opened.2.1, ← opened.1]

/-- The one block number in the memory of a newly formatted partition is that of the root
directory. -/
theorem blockAt_formatted (formatted : Formatted startLba secCnt disk disk')
    (room : 613 ≤ secCnt.toNat) (fits : startLba.toNat + secCnt.toNat < 2 ^ 32)
    (mounting : mountPartition startLba secCnt disk' blockBuf inodeBuf = .ok part)
    (opened : inodeOpen part memory part.sb.rootInodeNo found buf =
      .ok (root, fs.curPart, fs.inodeAt)) {p : BlockPlace} {r : UInt32} :
    blockAt fs.curPart fs.inodeAt p = some r ↔
      p = .sector root 0 ∧ r = fs.curPart.sb.dataStartLba := by
  obtain ⟨layout, noTable, -⟩ := rootLayout formatted room fits mounting opened
  have onlyRoot : fs.curPart.openInodes = [root] := by
    rw [root_opened formatted mounting opened, Partition.setOpenInodes_openInodes]
  have pointers : ∀ k, (fs.inodeAt root).iSectors k =
      if k = 0 then fs.curPart.sb.dataStartLba else 0 := by
    intro k
    rcases Nat.lt_or_ge k.val 12 with isDirect | isTable
    · exact layout.pointers k isDirect
    · obtain rfl : k = 12 := Fin.ext (by have small := k.isLt; omega)
      exact noTable
  have some := layout.dataStart_ne_zero
  cases p with
  | sector a k =>
      rw [blockAt_sector, onlyRoot, List.mem_singleton, BlockPlace.sector.injEq]
      constructor
      · rintro ⟨rfl, same, nonzero⟩
        rw [pointers] at same
        split at same
        next first => exact ⟨⟨rfl, first⟩, same.symm⟩
        next => exact absurd same.symm nonzero
      · rintro ⟨⟨rfl, rfl⟩, rfl⟩
        exact ⟨rfl, by rw [pointers, if_pos rfl], some⟩
  | tableEntry a j =>
      refine iff_of_false (fun held => ?_) (by simp)
      obtain ⟨isOpen, table, -⟩ := blockAt_tableEntry.mp held
      rw [onlyRoot, List.mem_singleton] at isOpen
      rw [isOpen, pointers] at table
      exact table rfl

/-- After formatting the bit of the root directory's block is set if and only if the block
bitmap has eight bits. -/
theorem blocksOwned_formatted_iff (formatted : Formatted startLba secCnt disk disk')
    (room : 613 ≤ secCnt.toNat) (fits : startLba.toNat + secCnt.toNat < 2 ^ 32)
    (mounting : mountPartition startLba secCnt disk' blockBuf inodeBuf = .ok part)
    (opened : inodeOpen part memory part.sb.rootInodeNo found buf =
      .ok (root, fs.curPart, fs.inodeAt)) :
    fs.BlocksOwned ↔ 8 ≤ (blockBitmapBitLen secCnt).toNat := by
  obtain ⟨layout, -, -, sb, bits⟩ := rootLayout formatted room fits mounting opened
  have someSects : 0 < (formatSuperBlock startLba secCnt).blockBitmapSects.toUInt8.toNat :=
    formatted.someSects
  have bitZero := bits 0 (by omega)
  have mapLen := layout.mounted.blockBitmapLen
  have inMap : 0 < fs.curPart.blockBitmap.bitLen := by
    have truncated := UInt32.toNat_toUInt8 (formatSuperBlock startLba secCnt).blockBitmapSects
    rw [sb] at mapLen
    simp only [Bitmap.bitLen]
    omega
  have held : ∀ {p r}, blockAt fs.curPart fs.inodeAt p = some r ↔
      p = .sector root 0 ∧ r = fs.curPart.sb.dataStartLba :=
    blockAt_formatted formatted room fits mounting opened
  constructor
  · intro owned
    obtain ⟨bitIdx, inside, same, set⟩ := owned.taken _ _ (held.mpr ⟨rfl, rfl⟩)
    have equal := congrArg UInt32.toNat same
    rw [layout.mounted.lba_toNat inside] at equal
    obtain rfl : bitIdx = 0 := by omega
    rw [bitZero, decide_eq_true_eq] at set
    omega
  · intro large
    constructor
    · intro p r there
      refine ⟨0, inMap, ?_, ?_⟩
      · rw [(held.mp there).2]
        exact (UInt32.add_zero _).symm
      · rw [bitZero]
        exact decide_eq_true (Or.inr ⟨rfl, large⟩)
    · intro p q r first second
      rw [(held.mp first).1, (held.mp second).1]

/-- Every call keeps the blocks owned, so that they are owned in a whole run if and only if
they are when it starts; on a newly formatted partition they are from 620 sectors on. -/
theorem blocks_owned_iff {full : FullScan} {dirs : List Address} {calls : List FsCall}
    {states : List FileSystem}
    (written : foundSuperBlock startLba disk = formatSuperBlock startLba secCnt)
    (onDisk : startLba.toNat + secCnt.toNat ≤ maxLba + 1)
    (mounting : mountPartition startLba secCnt disk blockBuf inodeBuf = .ok part)
    (current : fs.curPart = part.setOpenInodes dirs)
    (ran : trace (fsStep full) fs calls = .ok states) :
    ((∀ s ∈ fs :: states, s.BlocksOwned) ↔ fs.BlocksOwned) ∧
      ∀ mem blank memory found root buf, partitionFormat startLba secCnt mem blank = .ok disk →
        inodeOpen part memory part.sb.rootInodeNo found buf =
          .ok (root, fs.curPart, fs.inodeAt) →
        (fs.BlocksOwned ↔ 620 ≤ secCnt.toNat) := by
  have fresh := freshlyMounted written onDisk mounting
  have room := fresh.room
  simp only [maxLba] at onDisk
  constructor
  · refine ⟨fun all => all fs List.mem_cons_self, fun owned s inRun => ?_⟩
    have holds : fs.HoldsBlocks := by
      refine ⟨?_, ?_, owned⟩
      · rw [current]
        exact fresh.mounted.setOpenInodes dirs
      · rw [current]
        exact Nat.le_trans fresh.fewSects (by decide)
    rcases List.mem_cons.mp inRun with rfl | later
    · exact owned
    · exact (invariant_of_trace (fun _ _ _ holds _ stepped => holds.step stepped) holds
        (fun _ _ => trivial) ran s later).owned
  · intro mem blank memory found root buf formatRan opened
    have formatted := partitionFormat_formatted room (by omega) formatRan
    rw [blocksOwned_formatted_iff formatted room (by omega) mounting opened]
    have bitLen := fresh.laidOut.bitLen
    have few := fresh.fewSects
    rw [fresh.sb] at few
    omega

end Mount

/-- A partition of 8192 sectors is formatted and mounted, its root is opened and one file is
entered there. -/
theorem blocks_owned_iff_oneFile : ∃ disk part root last, ∃ fs : FileSystem,
    partitionFormat 2048 8192 ampleMemory (Bytes.fill 0) = .ok disk ∧
    mountPartition 2048 8192 disk (Bytes.fill 0) (Bytes.fill 0) = .ok part ∧
    inodeOpen part (fun _ => inodeInit 0) part.sb.rootInodeNo 0xc0100000 (Bytes.fill 0) =
      .ok (root, fs.curPart, fs.inodeAt) ∧
    trace (fsStep .asserts) fs [.syncDirEntry root (sampleCall 97 1).entry (Bytes.fill 0)] =
      .ok [last] ∧
    fs.BlocksOwned ∧ last.BlocksOwned := by
  obtain ⟨disk, part, root, part', memory', states, formatRan, mounting, opened, -, -, -, -, ran⟩ :=
    sample_runs (by decide : [sampleCall 97 1].length ≤ 2)
  have formatted := partitionFormat_formatted (by decide) (by decide) formatRan
  let fs : FileSystem := ⟨part', memory', fun _ => File.cleared, ∅⟩
  have current : fs.curPart = part.setOpenInodes [root] := root_opened formatted mounting opened
  obtain ⟨s, rest, stepped, ran, -⟩ := trace_cons_eq_ok.mp ran
  have rootOpen : root ∈ fs.curPart.openInodes := by
    rw [current]
    exact List.mem_singleton.mpr rfl
  have entered : fsStep .asserts fs (.syncDirEntry root (sampleCall 97 1).entry (Bytes.fill 0)) =
      .ok ((fs.setPart s.part).setInode root s.inode) := by
    unfold fsStep
    rw [if_pos ⟨rootOpen, fun q none => by cases none⟩]
    unfold syncStep at stepped
    split at stepped
    next inode part'' synced =>
      change syncDirEntry .asserts fs.curPart (fs.inodeAt root) (sampleCall 97 1).entry
        (Bytes.fill 0) = .ok (true, inode, part'') at synced
      rw [← Except.ok.inj stepped]
      simp only [synced, ok_bind, pure_eq_ok]
    next => cases stepped
    next => cases stepped
  have oneCall : trace (fsStep .asserts) fs
      [.syncDirEntry root (sampleCall 97 1).entry (Bytes.fill 0)] =
      .ok [(fs.setPart s.part).setInode root s.inode] :=
    trace_cons_eq_ok.mpr ⟨_, [], entered, rfl, rfl⟩
  obtain ⟨all, whenFormatted⟩ := blocks_owned_iff (partitionFormat_found formatRan) (by decide)
    mounting current oneCall
  have owned : fs.BlocksOwned :=
    (whenFormatted _ _ _ _ root _ formatRan opened).mpr (by decide)
  exact ⟨disk, part, root, _, fs, formatRan, mounting, opened, oneCall, owned,
    all.mpr owned _ (by simp)⟩

/-- On a partition of 616 sectors the bit of the root directory's block is clear. -/
theorem root_block_free : ∃ disk part root, ∃ fs : FileSystem,
    partitionFormat 2048 616 ampleMemory (Bytes.fill 0) = .ok disk ∧
    mountPartition 2048 616 disk (Bytes.fill 0) (Bytes.fill 0) = .ok part ∧
    inodeOpen part (fun _ => inodeInit 0) part.sb.rootInodeNo 0xc0100000 (Bytes.fill 0) =
      .ok (root, fs.curPart, fs.inodeAt) ∧
    ¬ fs.BlocksOwned := by
  obtain ⟨disk, formatRan⟩ : ∃ disk,
      partitionFormat 2048 616 ampleMemory (Bytes.fill 0) = .ok disk := ⟨_, rfl⟩
  have formatted := partitionFormat_formatted (by decide) (by decide) formatRan
  obtain ⟨part, mounting, sameStart, sameCnt, -, noneOpen, sameSb, blockLen, inodeLen, -⟩ :=
    formatted.mount_eq (Bytes.fill 0) (Bytes.fill 0)
  have mounted := formatted.mounted (by decide) (by decide) sameStart sameCnt sameSb blockLen
    inodeLen
  obtain ⟨part', memory', opened⟩ : ∃ part' memory',
      inodeOpen part (fun _ => inodeInit 0) part.sb.rootInodeNo 0xc0100000 (Bytes.fill 0) =
        .ok (0xc0100000, part', memory') :=
    ⟨_, _, inodeOpen_eq_of_miss mounted (by rw [sameSb]; decide) (by simp [noneOpen]) _ _⟩
  refine ⟨disk, part, 0xc0100000, ⟨part', memory', fun _ => File.cleared, ∅⟩, formatRan, mounting,
    opened, fun owned => ?_⟩
  exact absurd ((blocksOwned_formatted_iff formatted (by decide) (by decide) mounting opened).mp
    owned) (by decide)

end HongbaiOS.Fs
