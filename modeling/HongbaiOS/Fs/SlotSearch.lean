import HongbaiOS.Fs.DirRun
import HongbaiOS.Fs.Ownership

/-!
# Names in the slots of a directory

What `search_dir_entry` finds, slot by slot, for names that leave room for a NUL, and that it
finds an entry that `sync_dir_entry` has put into the directory.
-/

namespace HongbaiOS.Fs

open HongbaiOS.Library HongbaiOS.Kernel HongbaiOS.Device HongbaiOS.Lib

/-- `strcmp` takes the name in slot `idx` of the block at `lba` for `name`. -/
def SlotNamed (disk : Bytes) (lba : UInt32) (idx : Nat) (name : CString) : Prop :=
  strcmp (slot (disk.window (512 * lba.toNat)) idx) name = 0

/-- The block at `lba`, if it is one, can be read and does not have the name. -/
def BlockLacks (disk : Bytes) (lba : UInt32) (name : CString) : Prop :=
  lba = 0 ∨ lba.toNat ≤ maxLba ∧ ∀ idx < 21, ¬ SlotNamed disk lba idx name

section Slots

variable {disk disk' : Bytes} {lba : UInt32} {idx : Nat} {name : CString}

theorem short_of_maxFileNameLen (short : strlen name < maxFileNameLen) :
    strlen name < dirEntrySize := Nat.lt_trans short (by decide)

theorem strcmp_slot_readInto (buf : Bytes) (short : strlen name < maxFileNameLen)
    (inBlock : idx < 21) :
    strcmp (slot (readInto buf disk lba) idx) name = 0 ↔ SlotNamed disk lba idx name :=
  strcmp_congr (slot_readInto buf disk lba inBlock) (short_of_maxFileNameLen short)

theorem KeepsSector.slotNamed (kept : KeepsSector disk disk' lba)
    (short : strlen name < maxFileNameLen) (inBlock : idx < 21) :
    SlotNamed disk' lba idx name ↔ SlotNamed disk lba idx name :=
  strcmp_congr (kept.slot inBlock) (short_of_maxFileNameLen short)

theorem BlockLacks.kept (lacks : BlockLacks disk lba name)
    (short : strlen name < maxFileNameLen)
    (kept : lba ≠ 0 → KeepsSector disk disk' lba) : BlockLacks disk' lba name := by
  rcases lacks with zero | ⟨addressed, all⟩
  · exact Or.inl zero
  · by_cases zero : lba = 0
    · exact Or.inl zero
    · exact Or.inr ⟨addressed, fun idx inBlock =>
        ((kept zero).slotNamed short inBlock).not.mpr (all idx inBlock)⟩

theorem SlotHolds.slotNamed_iff {entry : DirEntry} (holds : SlotHolds disk lba idx entry)
    (terminated : entry.Terminated) : SlotNamed disk lba idx name ↔ entry.name.chars = name.chars :=
  strcmp_stored_iff terminated holds name

theorem BlockLacks.searchBlock (lacks : BlockLacks disk lba name)
    (short : strlen name < maxFileNameLen) :
    lba = 0 ∨ lba.toNat ≤ maxLba ∧
      ∀ buf, searchBlock (readInto buf disk lba) name 21 0 = none := by
  refine lacks.imp_right fun ⟨addressed, all⟩ => ⟨addressed, fun buf => ?_⟩
  apply searchBlock_eq_none
  intro idx _ inBlock
  exact (strcmp_slot_readInto buf short (by omega)).not.mpr (all idx (by omega))

end Slots

section Search

variable {part : Partition} {inode : Inode} {name : CString} {buf : Bytes}

theorem searchBlock_none_all {left start : Nat} (none : searchBlock buf name left start = none) :
    ∀ idx, start ≤ idx → idx < start + left → strcmp (slot buf idx) name ≠ 0 := by
  induction left generalizing start with
  | zero =>
      intro idx low high
      omega
  | succ left inductionHypothesis =>
      rw [searchBlock] at none
      split at none
      next => cases none
      next differs =>
        intro idx low high
        rcases Nat.eq_or_lt_of_le low with rfl | later
        · exact differs
        · exact inductionHypothesis none idx later (by omega)

/-- The blocks that a search has passed lack the name: it found none, or its result is not an
entry of one of these blocks. -/
theorem searchBlocks_passed {disk : Bytes} {pointer : Nat → UInt32} {left start bound : Nat}
    {result : Option DirEntry} (short : strlen name < maxFileNameLen)
    (ran : searchBlocks disk pointer name 21 left start buf = .ok result)
    (notHere : ∀ i, start ≤ i → i < bound → ∀ idx < 21, pointer i ≠ 0 → result ≠
      some (DirEntry.ofBytes (slot (disk.window (512 * (pointer i).toNat)) idx)))
    {i : Nat} (low : start ≤ i) (high : i < bound) (inArray : i < start + left) :
    BlockLacks disk (pointer i) name := by
  induction left generalizing start buf with
  | zero => omega
  | succ left inductionHypothesis =>
      rw [searchBlocks] at ran
      have later := fun {buf} (ran : searchBlocks disk pointer name 21 left (start + 1) buf =
        .ok result) (less : start + 1 ≤ i) => inductionHypothesis ran
          (fun k above => notHere k (by omega)) less (by omega)
      split at ran
      next unused =>
        rcases Nat.eq_or_lt_of_le low with rfl | less
        · exact Or.inl unused
        · exact later ran less
      next used =>
        obtain ⟨buf', read, ran⟩ := except_bind_eq_ok.mp ran
        obtain ⟨addressed, -, rfl⟩ := ideRead_eq_ok.mp read
        split at ran
        next found inBlock =>
          obtain ⟨idx, -, inSlots, -, rfl⟩ := searchBlock_some_slot inBlock
          cases ran
          refine absurd ?_ (notHere start (le_refl _) (by omega) idx (by omega) used)
          exact congrArg some
            (ofBytes_dirEntry_congr (slot_readInto buf disk (pointer start) (by omega)))
        next absent =>
          rcases Nat.eq_or_lt_of_le low with rfl | less
          · refine Or.inr ⟨addressed, fun idx inSlots named => ?_⟩
            have matched := (strcmp_slot_readInto buf short inSlots).mpr named
            exact searchBlock_none_all absent idx (Nat.zero_le _) (by omega) matched
          · exact later ran less

theorem searchDirEntry_eq_ok (mounted : part.Mounted) {junk : Nat → UInt32}
    {result : Option DirEntry}
    (ran : searchDirEntry part inode name (some junk) buf = .ok result) :
    ∃ rest, searchBlocks part.myDisk (inode.directBlocks rest) name 21 140 0 buf = .ok result := by
  simp only [searchDirEntry, mounted.entriesPerBlock] at ran
  split at ran
  next =>
    obtain ⟨table, -, ran⟩ := except_bind_eq_ok.mp ran
    exact ⟨_, ran⟩
  next => exact ⟨_, ran⟩

theorem searchDirEntry_found (mounted : part.Mounted)
    (tableAddressed : (inode.iSectors 12).toNat ≤ maxLba) (short : strlen name < maxFileNameLen)
    (junk : Nat → UInt32) {k idx : Nat} {lba : UInt32} (inArray : k < 140)
    (pointer : inode.directBlocks
      (fun k => (searchTable part inode junk).word (k - 12)) k = lba)
    (before : ∀ i < k, BlockLacks part.myDisk (inode.directBlocks
      (fun k => (searchTable part inode junk).word (k - 12)) i) name)
    (nonzero : lba ≠ 0) (addressed : lba.toNat ≤ maxLba) (inBlock : idx < 21)
    (beforeSlot : ∀ i < idx, ¬ SlotNamed part.myDisk lba i name)
    (here : SlotNamed part.myDisk lba idx name) (buf : Bytes) :
    searchDirEntry part inode name (some junk) buf =
      .ok (some (DirEntry.ofBytes (slot (part.myDisk.window (512 * lba.toNat)) idx))) := by
  rw [searchDirEntry_eq mounted fun _ => tableAddressed]
  refine searchBlocks_eq_some (Nat.zero_le k) (by omega) buf
    (fun i _ earlier => (before i earlier).searchBlock short) ?_ ?_ fun buf => ?_
  · rwa [pointer]
  · rwa [pointer]
  · have skips : ∀ i, 0 ≤ i → i < idx → _ := fun i _ earlier =>
      (strcmp_slot_readInto buf short (by omega)).not.mpr (beforeSlot i earlier)
    rw [pointer, searchBlock_eq_some (Nat.zero_le idx) (by omega) skips
      ((strcmp_slot_readInto buf short inBlock).mpr here)]
    exact congrArg some (ofBytes_dirEntry_congr (slot_readInto buf part.myDisk lba inBlock))

end Search

/-- The direct blocks of a directory are marked in the bitmap, so that none of them is
taken. -/
def DirectTaken (part : Partition) (inode : Inode) : Prop :=
  ∀ i < 12, inode.directBlocks (fun _ => 0) i ≠ 0 →
    part.BlockTaken (inode.directBlocks (fun _ => 0) i)

/-- Slot `idx` of the block at `lba` belongs to the directory, and it was empty or its block
was not in use before. -/
structure NewSlot (part : Partition) (part' : Partition) (inode' : Inode) (lba : UInt32)
    (idx : Nat) : Prop where
  inBlock : idx < 21
  reachable : Reachable part' inode' lba
  unused : SlotFree part.myDisk lba idx ∨ ¬ part.BlockTaken lba

/-- The entry is in the first slot of the block at `lba`, to which the table of the directory
leads; the direct blocks are as they were. -/
structure Inserted (part : Partition) (inode : Inode) (entry : DirEntry) (part' : Partition)
    (inode' : Inode) (lba : UInt32) : Prop extends TableHolds part' inode' lba entry where
  unused : ¬ part.BlockTaken lba
  before : ∀ i < 12, inode'.directBlocks (fun _ => 0) i = inode.directBlocks (fun _ => 0) i ∧
    (inode.directBlocks (fun _ => 0) i ≠ 0 →
      KeepsSector part.myDisk part'.myDisk (inode.directBlocks (fun _ => 0) i))

/-- Nothing changes in the data area. -/
structure SameData (part part' : Partition) : Prop where
  mounted : part'.Mounted
  sector : ∀ lba : UInt32, part.sb.dataStartLba.toNat ≤ lba.toNat →
    KeepsSector part.myDisk part'.myDisk lba

section Insert

variable {part part' last : Partition} {inode inode' : Inode} {entry : DirEntry}
  {name : CString}

theorem directBlocks_of_lt (inode : Inode) (rest rest' : Nat → UInt32) {i : Nat}
    (direct : i < 12) : inode.directBlocks rest i = inode.directBlocks rest' i := by
  rw [Inode.directBlocks, Inode.directBlocks, dif_pos direct, dif_pos direct]

theorem SyncDone.keepsDirect (done : SyncDone part inode entry true inode' part')
    (mounted : part.Mounted) (taken : DirectTaken part inode) {i : Nat} (direct : i < 12) :
    inode'.directBlocks (fun _ => 0) i = inode.directBlocks (fun _ => 0) i ∧
      (inode.directBlocks (fun _ => 0) i ≠ 0 →
        KeepsSector part.myDisk part'.myDisk (inode.directBlocks (fun _ => 0) i)) := by
  cases done with
  | newTable two =>
      refine ⟨?_, fun used => two.keeps_taken mounted (taken i direct used) _⟩
      simp only [Inode.directBlocks, dif_pos direct]
      exact indirectInode_iSectors_direct part inode _ direct

/-- The table and the block behind it are where they were when only other areas have been
written. -/
theorem TableHolds.after {lba : UInt32} (holds : TableHolds part' inode' lba entry)
    (after : SameData part' last)
    (tableInData : part'.sb.dataStartLba.toNat ≤ (inode'.iSectors 12).toNat)
    (inData : part'.sb.dataStartLba.toNat ≤ lba.toNat) : TableHolds last inode' lba entry := by
  have tableKept := after.sector _ tableInData
  have kept := after.sector _ inData
  refine ⟨holds.table, holds.tableAddressed, fun k small => ?_, holds.used, holds.addressed,
    holds.holds.kept (by decide) kept, fun idx behind inBlock =>
      (holds.blank idx behind inBlock).kept inBlock kept⟩
  rw [Bytes.word_congr tableKept (by omega)]
  exact holds.words k small

theorem SyncDone.inserted (done : SyncDone part inode entry true inode' part')
    (mounted : part.Mounted) (taken : DirectTaken part inode) (after : SameData part' last) :
    ∃ lba, Inserted part inode entry last inode' lba := by
  have direct := fun i (isDirect : i < 12) => done.keepsDirect mounted taken isDirect
  cases done with
  | newTable two =>
      rename_i tableIdx bitIdx ioBuf
      obtain ⟨isTable, isNew⟩ := two.lba_toNat mounted
      have holds := two.tableHolds mounted inode entry ioBuf
      refine ⟨_, holds.after after ?_ ?_, mounted.not_blockTaken two.inMap two.next.2,
        fun i isDirect => ?_⟩
      · rw [indirectInode_iSectors_table, isTable]
        exact Nat.le_add_right _ _
      · rw [isNew]
        exact Nat.le_add_right _ _
      · obtain ⟨same, kept⟩ := direct i isDirect
        refine ⟨same, fun used => (kept used).trans (after.sector _ ?_)⟩
        exact (taken i isDirect used).inData mounted

/-- Of the inodes only the pointers matter. -/
theorem Inserted.congr {lba : UInt32} {inode₂ inode₂' : Inode}
    (inserted : Inserted part inode entry last inode' lba)
    (same : inode₂.iSectors = inode.iSectors) (same' : inode₂'.iSectors = inode'.iSectors) :
    Inserted part inode₂ entry last inode₂' lba := by
  have blocks : inode₂.directBlocks = inode.directBlocks := by
    unfold Inode.directBlocks
    rw [same]
  have blocks' : inode₂'.directBlocks = inode'.directBlocks := by
    unfold Inode.directBlocks
    rw [same']
  obtain ⟨⟨table, tableAddressed, words, used, addressed, holds, blank⟩, unused, before⟩ :=
    inserted
  refine ⟨⟨?_, ?_, ?_, used, addressed, holds, blank⟩, unused, ?_⟩
  · rwa [same']
  · rwa [same']
  · rwa [same']
  · rwa [blocks, blocks']

theorem Inserted.newSlot {lba : UInt32} (inserted : Inserted part inode entry last inode' lba) :
    NewSlot part last inode' lba 0 := by
  refine ⟨by decide, ⟨inserted.used, Or.inr ⟨inserted.table, 0, by decide, ?_⟩⟩,
    Or.inr inserted.unused⟩
  rw [inserted.words 0 (by decide), if_pos rfl]

/-- The new pointers can be read too. -/
theorem SyncDone.pointers (done : SyncDone part inode entry true inode' part')
    (mounted : part.Mounted) (addressed : ∀ k, (inode.iSectors k).toNat ≤ maxLba) :
    ∀ k, (inode'.iSectors k).toNat ≤ maxLba := by
  cases done with
  | newTable two =>
      intro k
      rw [indirectInode, Inode.grow_iSectors, Inode.setSector_iSectors, Function.update_apply]
      split
      next => exact two.tableAddressed mounted
      next => exact addressed k

theorem Inserted.found {lba : UInt32} (inserted : Inserted part inode entry last inode' lba)
    (mounted : last.Mounted) (terminated : entry.Terminated)
    (named : entry.name.chars = name.chars) (short : strlen name < maxFileNameLen)
    (lacks : ∀ i < 12, BlockLacks part.myDisk (inode.directBlocks (fun _ => 0) i) name)
    (junk : Nat → UInt32) (buf : Bytes) :
    searchDirEntry last inode' name (some junk) buf = .ok (some entry) := by
  have entry_eq : DirEntry.ofBytes (slot (last.myDisk.window (512 * lba.toNat)) 0) = entry := by
    rw [ofBytes_dirEntry_congr inserted.holds, DirEntry.ofBytes_bytes]
  have pointer := (inserted.pointer junk (le_refl 12) (by decide)).trans (if_pos rfl)
  rw [searchDirEntry_found mounted inserted.tableAddressed short junk (by decide : 12 < 140)
    pointer (fun i earlier => ?_) inserted.used inserted.addressed (by decide : 0 < 21)
    (fun j earlier => absurd earlier (Nat.not_lt_zero j))
    ((inserted.holds.slotNamed_iff terminated).mpr named), entry_eq]
  obtain ⟨same, kept⟩ := inserted.before i earlier
  rw [directBlocks_of_lt inode' _ (fun _ => 0) earlier, same]
  exact (lacks i earlier).kept short kept

end Insert

end HongbaiOS.Fs
