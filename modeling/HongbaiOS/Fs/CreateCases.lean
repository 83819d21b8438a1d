import HongbaiOS.Fs.File

/-!
# The ways in which `file_create` returns

One inversion lemma: what a call that came back has done to the partition, to the inodes and
to the file table.
-/

namespace HongbaiOS.Fs

open HongbaiOS.Library HongbaiOS.Kernel HongbaiOS.Device HongbaiOS.Lib

/-- The partition after the inodes of the directory and of the file and the sector of the
inode bitmap have been written. -/
def commitPart (part : Partition) (dirInode fileInode : Inode) (iNo : Nat) : Partition :=
  part.setDisk (((part.myDisk.splice (part.inodeOffset (dirInode.iNo.toNat % 256)) inodeSize
    dirInode.pureInode.bytes).splice (part.inodeOffset (fileInode.iNo.toNat % 256)) inodeSize
    fileInode.pureInode.bytes).splice
    (512 * (part.sb.inodeBitmapLba + UInt32.ofNat iNo / 4096).toNat) 512
    (part.inodeBitmap.btmpBits.window (UInt32.ofNat iNo / 4096 * 512).toNat))

/-- The partition in which the number of the new file is taken. -/
def numberedPart (part : Partition) (iNo : Nat) : Partition :=
  part.setInodeBitmap (part.inodeBitmap.put iNo true)

/-- What `file_create` has done when it returns: the result, the file system and the task. -/
inductive CreateDone (task : FileTask) (fs : FileSystem) (parent : Address) (filename : CString)
    (ioBuf newFileInode : Option Address) :
    Option Nat → FileSystem → FileTask → Prop where
  /-- It failed before the directory entry. -/
  | early {fs' : FileSystem} (unreached : ∀ fdIdx, ¬ ReachesDir fs ioBuf newFileInode fdIdx)
      (part : fs'.curPart = fs.curPart)
      (others : ∀ a, newFileInode ≠ some a → fs'.inodeAt a = fs.inodeAt a) :
      CreateDone task fs parent filename ioBuf newFileInode none fs' task
  /-- The directory entry was refused. -/
  | refused {q : Address} {iNo fdIdx : Nat} {entry : DirEntry} {dirInode : Inode}
      {part' : Partition} {fs' : FileSystem}
      (reaches : ReachesDir fs ioBuf newFileInode fdIdx) (newInode : newFileInode = some q)
      (inside : iNo < fs.curPart.inodeBitmap.bitLen)
      (free : fs.curPart.inodeBitmap.bit iNo = false)
      (done : SyncDone (numberedPart fs.curPart iNo) (fs.inodeAt parent) entry false dirInode part')
      (part : fs'.curPart = part'.setInodeBitmap fs.curPart.inodeBitmap)
      (dir : fs'.inodeAt parent = dirInode)
      (others : ∀ a, a ≠ parent → a ≠ q → fs'.inodeAt a = fs.inodeAt a) :
      CreateDone task fs parent filename ioBuf newFileInode none fs' task
  /-- Everything was written. -/
  | committed {q : Address} {iNo fdIdx : Nat} {entry : DirEntry} {dirInode : Inode}
      {part' : Partition} {fs' : FileSystem}
      (reaches : ReachesDir fs ioBuf newFileInode fdIdx) (newInode : newFileInode = some q)
      (inside : iNo < fs.curPart.inodeBitmap.bitLen)
      (free : fs.curPart.inodeBitmap.bit iNo = false)
      (named : createDirEntry filename (UInt32.ofNat iNo) .regular ⟨fun _ => 0, 0, 0⟩ = .ok entry)
      (done : SyncDone (numberedPart fs.curPart iNo) (fs.inodeAt parent) entry true dirInode part')
      (part : fs'.curPart = (commitPart part' dirInode (inodeInit (UInt32.ofNat iNo)) iNo
        ).setOpenInodes (q :: part'.openInodes))
      (dir : fs'.inodeAt parent = dirInode)
      (file : fs'.inodeAt q = { inodeInit (UInt32.ofNat iNo) with iOpenCnts := 1 })
      (others : ∀ a, a ≠ parent → a ≠ q → fs'.inodeAt a = fs.inodeAt a)
      (table : fs'.fileTable = Function.update fs.fileTable fdIdx
        ⟨0, FileType.regular.code, some q⟩) :
      CreateDone task fs parent filename ioBuf newFileInode (pcbFdInstall task fdIdx).1 fs'
        (pcbFdInstall task fdIdx).2

section Create

variable {full : FullScan} {task task' : FileTask} {fs fs' : FileSystem} {parent p q : Address}
  {filename : CString} {ioBuf newFileInode : Option Address} {buf : Bytes} {iNo fdIdx : Nat}
  {fd : Option Nat}

/-- The end of a call that is undone. -/
theorem rollbackStep1_eq_ok (ran : rollbackStep1 task iNo p fs = .ok (fd, fs', task')) :
    fd = none ∧ task' = task ∧ fs'.curPart = fs.curPart.setInodeBitmap
      (fs.curPart.inodeBitmap.put iNo false) ∧ fs'.inodeAt = fs.inodeAt := by
  obtain ⟨btmp, set, result⟩ := except_bind_eq_ok.mp ran
  obtain ⟨-, rfl⟩ := bitmapSet_eq_ok.mp set
  cases result
  exact ⟨rfl, rfl, rfl, rfl⟩

theorem commitFile_eq_ok (mounted : fs.curPart.Mounted)
    (ran : commitFile task parent q p iNo fdIdx fs = .ok (fd, fs', task')) :
    fd = (pcbFdInstall task fdIdx).1 ∧ task' = (pcbFdInstall task fdIdx).2 ∧
      fs'.curPart = (commitPart fs.curPart (fs.inodeAt parent) (fs.inodeAt q) iNo).setOpenInodes
        (q :: fs.curPart.openInodes) ∧
      fs'.inodeAt = Function.update fs.inodeAt q { fs.inodeAt q with iOpenCnts := 1 } ∧
      fs'.fileTable = fs.fileTable := by
  rw [commitFile, inodeSync_eq mounted, ok_bind, inodeSync_eq (mounted.setDisk _), ok_bind] at ran
  obtain ⟨part, synced, result⟩ := except_bind_eq_ok.mp ran
  obtain ⟨disk, wrote, same⟩ := except_bind_eq_ok.mp synced
  obtain ⟨-, -, rfl⟩ := ideWrite_eq_ok.mp wrote
  cases same
  cases result
  exact ⟨rfl, rfl, rfl, rfl, rfl⟩

theorem numberedPart_put_cancel (free : fs.curPart.inodeBitmap.bit iNo = false) :
    (numberedPart fs.curPart iNo).setInodeBitmap
      ((numberedPart fs.curPart iNo).inodeBitmap.put iNo false) = fs.curPart := by
  rw [numberedPart, Partition.setInodeBitmap_inodeBitmap, Bitmap.put_put_cancel free]
  rfl

/-- The state of a call that has got its buffer, a number and the memory for the inode. -/
theorem createInode_done (mounted : fs.curPart.Mounted) (fresh : q ≠ parent)
    (inside : iNo < fs.curPart.inodeBitmap.bitLen) (free : fs.curPart.inodeBitmap.bit iNo = false)
    (ran : createInode full task parent filename q p iNo buf (((fs.allocated task p).setPart
      (numberedPart fs.curPart iNo)).allocated task q) = .ok (fd, fs', task')) :
    CreateDone task fs parent filename (some p) (some q) fd fs' task' := by
  have apart : parent ≠ q := fresh.symm
  unfold createInode at ran
  have sameTable : (((((fs.allocated task p).setPart (numberedPart fs.curPart
      iNo)).allocated task q).setInode q (inodeInit (UInt32.ofNat iNo))).fileTable) =
    fs.fileTable := rfl
  dsimp only at ran
  rw [sameTable] at ran
  cases slot : getFreeSlotInGlobal fs.fileTable with
  | none =>
      rw [slot] at ran
      obtain ⟨rfl, rfl, part, inodes⟩ := rollbackStep1_eq_ok ran
      refine .early (fun fdIdx reaches => ?_) (part.trans (numberedPart_put_cancel free))
        fun a different => ?_
      · cases slot.symm.trans reaches.slot
      · rw [inodes]
        have other : a ≠ _ := fun same => different (congrArg some same.symm)
        exact Function.update_of_ne other _ _
  | some fdIdx =>
      have reaches : ReachesDir fs (some p) (some q) fdIdx := by
        refine ⟨Option.some_ne_none p, ?_, Option.some_ne_none q, slot⟩
        exact Finset.card_pos.mpr ⟨iNo, Bitmap.mem_freeBits.mpr ⟨inside, free⟩⟩
      rw [slot] at ran
      obtain ⟨entry, named, ran⟩ := except_bind_eq_ok.mp ran
      obtain ⟨⟨installed, dirInode, part'⟩, synced, ran⟩ := except_bind_eq_ok.mp ran
      simp only [FileSystem.setInode_inodeAt, FileSystem.setFile_inodeAt,
        FileSystem.allocated_inodeAt, FileSystem.setPart_inodeAt,
        Function.update_of_ne apart] at synced
      have mounted' : (numberedPart fs.curPart iNo).Mounted := mounted.setInodeBitmap rfl
      have done := syncDirEntry_done mounted' synced
      obtain ⟨mounted'', -, sameMap, sameOpen⟩ := done.mounted mounted'
      cases installed with
      | false =>
          obtain ⟨rfl, rfl, part, inodes⟩ := rollbackStep1_eq_ok ran
          refine .refused reaches rfl inside free done ?_ ?_ fun a notDir notFile => ?_
          · refine part.trans ?_
            change part'.setInodeBitmap (part'.inodeBitmap.put iNo false) = _
            rw [sameMap, numberedPart, Partition.setInodeBitmap_inodeBitmap,
              Bitmap.put_put_cancel free]
          · rw [inodes]
            exact Function.update_self parent _ _
          · rw [inodes]
            simp [notDir, notFile]
      | true =>
          obtain ⟨rfl, rfl, part, inodes, table⟩ := commitFile_eq_ok mounted'' ran
          refine .committed reaches rfl inside free named done ?_ ?_ ?_
            (fun a notDir notFile => ?_) table
          · refine part.trans ?_
            simp [Function.update_of_ne apart.symm, inodeInit]
          · rw [inodes]
            simp [apart]
          · rw [inodes]
            simp [Function.update_of_ne apart.symm, inodeInit]
          · rw [inodes]
            simp [notDir, notFile]

/-- Every call of `file_create` that returns ends in one of the three ways. -/
theorem fileCreate_done (mounted : fs.curPart.Mounted) (fresh : newFileInode ≠ some parent)
    (ran : fileCreate full task parent filename ioBuf newFileInode buf fs =
      .ok (fd, fs', task')) :
    CreateDone task fs parent filename ioBuf newFileInode fd fs' task' := by
  unfold fileCreate at ran
  cases ioBuf with
  | none =>
      cases ran
      exact .early (fun fdIdx reaches => reaches.buffer rfl) rfl fun _ _ => rfl
  | some p =>
      obtain ⟨⟨number, numbered⟩, allocated, ran⟩ := except_bind_eq_ok.mp ran
      rw [FileSystem.allocated_curPart] at allocated
      cases number with
      | none =>
          obtain ⟨-, all, same⟩ := inodeBitmapAlloc_eq_none allocated
          cases ran
          refine .early (fun fdIdx reaches => ?_) same fun _ _ => rfl
          exact Nat.ne_of_gt reaches.number (Bitmap.freeCount_eq_zero_iff.mpr all)
      | some iNo =>
          obtain ⟨inside, free, same⟩ := inodeBitmapAlloc_eq_some allocated
          have samePart : numbered = numberedPart fs.curPart iNo := same
          rw [samePart] at ran
          cases newFileInode with
          | none =>
              obtain ⟨rfl, rfl, part, inodes⟩ := rollbackStep1_eq_ok ran
              exact .early (fun fdIdx reaches => reaches.inode rfl)
                (part.trans (numberedPart_put_cancel free)) fun a _ => congrFun inodes a
          | some q =>
              exact createInode_done mounted (fun same => fresh (congrArg some same)) inside free
                ran

end Create

end HongbaiOS.Fs
