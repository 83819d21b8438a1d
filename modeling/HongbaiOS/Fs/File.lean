import HongbaiOS.Fs.DirInsert

/-!
# Creating a file

`file_create` takes a buffer, an inode number, an inode and a slot of the file
table, inserts the directory entry, writes everything to the disk and installs
a descriptor.  A failure before the directory entry is undone step by step; the
last step has nothing left to undo with.
-/

namespace HongbaiOS.Fs

open HongbaiOS.Library HongbaiOS.Kernel HongbaiOS.Device HongbaiOS.Lib

/-- `struct file` -/
structure File where
  fdPos : UInt32
  fdFlag : UInt32
  fdInode : Option Address
  deriving DecidableEq

/-- A slot of the file table after `memset(.., 0, sizeof(struct file))`. -/
def File.cleared : File := ⟨0, 0, none⟩

/-- `MAX_FILE_OPEN` -/
def maxFileOpen : Nat := 32

/-- `MAX_FILES_OPEN_PER_PROC` -/
def maxFilesOpenPerProc : Nat := 8

/-- What the file system reads of `struct task_struct`. -/
structure FileTask where
  pgdir : Option Address
  fdTable : Nat → Int32

/-- What `file_create` can change outside the task: `cur_part`, the in-memory
inodes, `file_table` and the live allocations of the kernel heap. -/
structure FileSystem where
  curPart : Partition
  inodeAt : Address → Inode
  fileTable : Nat → File
  kernelHeap : Finset Address

namespace FileSystem

@[simps]
def setPart (fs : FileSystem) (part : Partition) : FileSystem := { fs with curPart := part }

@[simps]
def setInode (fs : FileSystem) (a : Address) (inode : Inode) : FileSystem :=
  { fs with inodeAt := Function.update fs.inodeAt a inode }

@[simps]
def setFile (fs : FileSystem) (fdIdx : Nat) (file : File) : FileSystem :=
  { fs with fileTable := Function.update fs.fileTable fdIdx file }

/-- `sys_malloc` has given `ptr`: a kernel thread's block comes from the kernel heap. -/
@[simps]
def allocated (fs : FileSystem) (task : FileTask) (ptr : Address) : FileSystem :=
  { fs with kernelHeap :=
      if task.pgdir = none then insert ptr fs.kernelHeap else fs.kernelHeap }

/-- `sys_free(ptr)` -/
@[simps]
def freed (fs : FileSystem) (task : FileTask) (ptr : Address) : FileSystem :=
  { fs with kernelHeap :=
      if task.pgdir = none then fs.kernelHeap.erase ptr else fs.kernelHeap }

end FileSystem

/-- The loop of `get_free_slot_in_global` from `fdIdx` on. -/
def freeSlotFrom (fileTable : Nat → File) : (left fdIdx : Nat) → Option Nat
  | 0, _ => none
  | left + 1, fdIdx =>
      if (fileTable fdIdx).fdInode = none then some fdIdx
      else freeSlotFrom fileTable left (fdIdx + 1)

/-- `get_free_slot_in_global()`; slots 0, 1 and 2 are reserved. -/
def getFreeSlotInGlobal (fileTable : Nat → File) : Option Nat :=
  freeSlotFrom fileTable (maxFileOpen - 3) 3

/-- The loop of `pcb_fd_install` from `localFdIdx` on. -/
def localSlotFrom (fdTable : Nat → Int32) : (left localFdIdx : Nat) → Option Nat
  | 0, _ => none
  | left + 1, localFdIdx =>
      if fdTable localFdIdx = -1 then some localFdIdx
      else localSlotFrom fdTable left (localFdIdx + 1)

/-- `pcb_fd_install(global_fd_idx)` -/
def pcbFdInstall (task : FileTask) (globalFdIdx : Nat) : Option Nat × FileTask :=
  match localSlotFrom task.fdTable (maxFilesOpenPerProc - 3) 3 with
  | none => (none, task)
  | some localFdIdx =>
      (some localFdIdx, { task with
        fdTable := Function.update task.fdTable localFdIdx (Int32.ofNat globalFdIdx) })

/-- Case 1 of the rollback switch and the code after the switch. -/
def rollbackStep1 (task : FileTask) (iNo : Nat) (ioBuf : Address) (fs : FileSystem) :
    Except Halt (Option Nat × FileSystem × FileTask) := do
  let btmp ← bitmapSet fs.curPart.inodeBitmap iNo false
  return (none, (fs.setPart (fs.curPart.setInodeBitmap btmp)).freed task ioBuf, task)

/-- Case 2, which falls through to case 1. -/
def rollbackStep2 (task : FileTask) (newFileInode : Address) (iNo : Nat) (ioBuf : Address)
    (fs : FileSystem) : Except Halt (Option Nat × FileSystem × FileTask) :=
  rollbackStep1 task iNo ioBuf (fs.freed task newFileInode)

/-- Case 3, which falls through to case 2. -/
def rollbackStep3 (task : FileTask) (fdIdx : Nat) (newFileInode : Address) (iNo : Nat)
    (ioBuf : Address) (fs : FileSystem) : Except Halt (Option Nat × FileSystem × FileTask) :=
  rollbackStep2 task newFileInode iNo ioBuf (fs.setFile fdIdx File.cleared)

/-- The part of `file_create` after the directory entry: both inodes and the inode
bitmap go to the disk, and the descriptor is installed.  The buffer is cleared
before each `inode_sync`. -/
def commitFile (task : FileTask) (parent newFileInode ioBuf : Address) (iNo fdIdx : Nat)
    (fs : FileSystem) : Except Halt (Option Nat × FileSystem × FileTask) := do
  let part ← inodeSync fs.curPart (fs.inodeAt parent) (Bytes.fill 0)
  let part ← inodeSync part (fs.inodeAt newFileInode) (Bytes.fill 0)
  let part ← bitmapSync part (UInt32.ofNat iNo) .inodeBitmap
  let fs := fs.setPart (part.setOpenInodes (newFileInode :: part.openInodes))
  let fs := fs.setInode newFileInode { fs.inodeAt newFileInode with iOpenCnts := 1 }
  let fs := fs.freed task ioBuf
  let (fd, task) := pcbFdInstall task fdIdx
  return (fd, fs, task)

/-- The part of `file_create` from the new inode on. -/
def createInode (full : FullScan) (task : FileTask) (parent : Address) (filename : CString)
    (newFileInode ioBuf : Address) (iNo : Nat) (buf : Bytes) (fs : FileSystem) :
    Except Halt (Option Nat × FileSystem × FileTask) := do
  let fs := fs.setInode newFileInode (inodeInit (UInt32.ofNat iNo))
  match getFreeSlotInGlobal fs.fileTable with
  | none => rollbackStep2 task newFileInode iNo ioBuf fs
  | some fdIdx =>
      let fs := fs.setFile fdIdx ⟨0, FileType.regular.code, some newFileInode⟩
      let fs := fs.setInode newFileInode
        { fs.inodeAt newFileInode with writeDeny := false }
      let newDirEntry ←
        createDirEntry filename (UInt32.ofNat iNo) .regular ⟨fun _ => 0, 0, 0⟩
      let (installed, dirInode, part) ←
        syncDirEntry full fs.curPart (fs.inodeAt parent) newDirEntry buf
      let fs := (fs.setPart part).setInode parent dirInode
      if installed then commitFile task parent newFileInode ioBuf iNo fdIdx fs
      else rollbackStep3 task fdIdx newFileInode iNo ioBuf fs

/-- `file_create(parent_dir, filename, flag)`; `flag` is not read.  `ioBuf` and
`newFileInode` are what the two calls of `sys_malloc` give, `buf` is what the
buffer contains. -/
def fileCreate (full : FullScan) (task : FileTask) (parent : Address) (filename : CString)
    (ioBuf newFileInode : Option Address) (buf : Bytes) (fs : FileSystem) :
    Except Halt (Option Nat × FileSystem × FileTask) :=
  match ioBuf with
  | none => .ok (none, fs, task)
  | some ioBuf => do
      let fs := fs.allocated task ioBuf
      match ← inodeBitmapAlloc full fs.curPart with
      | (none, part) => return (none, fs.setPart part, task)
      | (some iNo, part) =>
          let fs := fs.setPart part
          match newFileInode with
          | none => rollbackStep1 task iNo ioBuf fs
          | some newFileInode =>
              createInode full task parent filename newFileInode ioBuf iNo buf
                (fs.allocated task newFileInode)

/-- Everything that a failed `file_create` has to leave alone. -/
structure Unchanged (parent : Address) (fs fs' : FileSystem) : Prop where
  inodeBitmap : fs'.curPart.inodeBitmap = fs.curPart.inodeBitmap
  blockBitmap : fs'.curPart.blockBitmap = fs.curPart.blockBitmap
  openInodes : fs'.curPart.openInodes = fs.curPart.openInodes
  disk : fs'.curPart.myDisk = fs.curPart.myDisk
  parentInode : fs'.inodeAt parent = fs.inodeAt parent
  fileTable : fs'.fileTable = fs.fileTable
  kernelHeap : fs'.kernelHeap = fs.kernelHeap

theorem Unchanged.refl (parent : Address) (fs : FileSystem) : Unchanged parent fs fs :=
  ⟨rfl, rfl, rfl, rfl, rfl, rfl, rfl⟩

/-- The blocks that `sys_malloc` gives are not live yet. -/
structure FreshBlocks (fs : FileSystem) (parent : Address)
    (ioBuf newFileInode : Option Address) : Prop where
  buffer : ∀ p ∈ ioBuf, p ∉ fs.kernelHeap
  inode : ∀ q ∈ newFileInode, q ∉ fs.kernelHeap ∧ q ≠ parent ∧ ∀ p ∈ ioBuf, q ≠ p

/-- The call gets as far as the directory entry, with slot `fdIdx` of the table. -/
structure ReachesDir (fs : FileSystem) (ioBuf newFileInode : Option Address)
    (fdIdx : Nat) : Prop where
  buffer : ioBuf ≠ none
  number : 0 < fs.curPart.inodeBitmap.freeCount
  inode : newFileInode ≠ none
  slot : getFreeSlotInGlobal fs.fileTable = some fdIdx

/-- The sector of the block bitmap on the disk already has bit `bitIdx` set and
agrees with the map in memory otherwise. -/
def TakenOnDisk (part : Partition) (bitIdx : Nat) : Prop :=
  Bytes.SameHead 512
    (part.myDisk.window (512 * (part.sb.blockBitmapLba.toNat + bitIdx / 4096)))
    ((part.blockBitmap.put bitIdx true).btmpBits.window (512 * (bitIdx / 4096)))

/-- The states and outcomes of `sys_malloc` in which no failure of `file_create`
leaves a trace. -/
structure FailuresUndone (task : FileTask) (fs : FileSystem) (parent : Address)
    (ioBuf newFileInode : Option Address) : Prop where
  /-- The early return without an inode number keeps the buffer. -/
  noNumber : ioBuf ≠ none → fs.curPart.inodeBitmap.freeCount = 0 → task.pgdir ≠ none
  /-- A full descriptor table is found when everything is committed. -/
  descriptor : ∀ fdIdx tableIdx bitIdx, ReachesDir fs ioBuf newFileInode fdIdx →
    TakesTwo fs.curPart tableIdx bitIdx →
    ∃ fd, 3 ≤ fd ∧ fd < maxFilesOpenPerProc ∧ task.fdTable fd = -1
  /-- Step 3 of the rollback clears the slot of the file table. -/
  slot : ∀ fdIdx, ReachesDir fs ioBuf newFileInode fdIdx →
    fs.curPart.blockBitmap.freeCount < 2 → fs.fileTable fdIdx = File.cleared
  /-- `sync_dir_entry` has synced the bit of the one block it gives back. -/
  lastBlock : ∀ fdIdx bitIdx, ReachesDir fs ioBuf newFileInode fdIdx →
    fs.curPart.blockBitmap.freeCount = 1 → fs.curPart.blockBitmap.LowestFree bitIdx →
    (fs.inodeAt parent).iSectors 12 = 0 ∧ TakenOnDisk fs.curPart bitIdx

theorem localSlotFrom_eq_none_iff {fdTable : Nat → Int32} {left start : Nat} :
    localSlotFrom fdTable left start = none ↔
      ∀ fd, start ≤ fd → fd < start + left → fdTable fd ≠ -1 := by
  induction left generalizing start with
  | zero =>
      simp only [localSlotFrom, true_iff]
      intro fd low high
      omega
  | succ left inductionHypothesis =>
      rw [localSlotFrom]
      split
      next free =>
        simp only [reduceCtorEq, false_iff]
        exact fun all => all start (le_refl _) (by omega) free
      next used =>
        rw [inductionHypothesis]
        constructor
        · intro all fd low high
          rcases Nat.eq_or_lt_of_le low with rfl | later
          · exact used
          · exact all fd later (by omega)
        · exact fun all fd low high => all fd (by omega) (by omega)

/-- Installing a descriptor fails exactly if slots 3 to 7 are taken. -/
theorem pcbFdInstall_eq_none_iff {task : FileTask} {globalFdIdx : Nat} :
    (pcbFdInstall task globalFdIdx).1 = none ↔
      ¬ ∃ fd, 3 ≤ fd ∧ fd < maxFilesOpenPerProc ∧ task.fdTable fd = -1 := by
  have scan : localSlotFrom task.fdTable (maxFilesOpenPerProc - 3) 3 = none ↔
      ∀ fd, 3 ≤ fd → fd < maxFilesOpenPerProc → task.fdTable fd ≠ -1 :=
    localSlotFrom_eq_none_iff
  simp only [not_exists, not_and]
  rw [← scan, pcbFdInstall]
  cases localSlotFrom task.fdTable (maxFilesOpenPerProc - 3) 3 with
  | none => simp
  | some localFdIdx => simp

section Cases

variable {full : FullScan} {task : FileTask} {fs : FileSystem} {parent p q : Address}
  {filename : CString} {buf : Bytes} {iNo fdIdx : Nat}

/-- The state in which the inode's fields are filled in. -/
def withInode (task : FileTask) (fs : FileSystem) (p q : Address) (iNo : Nat) : FileSystem :=
  (((fs.allocated task p).setPart
    (fs.curPart.setInodeBitmap (fs.curPart.inodeBitmap.put iNo true))).allocated task q)

theorem heap_restored (task : FileTask) (notLive : p ∉ fs.kernelHeap) (notLive' : q ∉ fs.kernelHeap)
    (different : q ≠ p) :
    ((((fs.allocated task p).allocated task q).freed task q).freed task p).kernelHeap =
      fs.kernelHeap := by
  have notInserted : q ∉ insert p fs.kernelHeap := by simp [different, notLive']
  by_cases kernelThread : task.pgdir = none
  · simp [kernelThread, notInserted, notLive]
  · simp [kernelThread]

theorem heap_restored_one (notLive : p ∉ fs.kernelHeap) :
    ((fs.allocated task p).freed task p).kernelHeap = fs.kernelHeap := by
  by_cases kernelThread : task.pgdir = none
  · simp [kernelThread, notLive]
  · simp [kernelThread]

theorem inodeBitmapAlloc_of_full (none : fs.curPart.inodeBitmap.freeCount = 0) :
    inodeBitmapAlloc .returnsMinusOne fs.curPart = .ok (Option.none, fs.curPart) := by
  rw [inodeBitmapAlloc, bitmapScan_one_of_full (Bitmap.freeCount_eq_zero_iff.mp none)]
  rfl

theorem fileCreate_no_number (none : fs.curPart.inodeBitmap.freeCount = 0)
    (newFileInode : Option Address) :
    fileCreate .returnsMinusOne task parent filename (some p) newFileInode buf fs =
      .ok (Option.none, fs.allocated task p, task) := by
  rw [fileCreate, FileSystem.allocated_curPart, inodeBitmapAlloc_of_full none]
  rfl

theorem inodeBitmapAlloc_of_some (full : FullScan)
    (some : 0 < fs.curPart.inodeBitmap.freeCount) :
    ∃ iNo < fs.curPart.inodeBitmap.bitLen, fs.curPart.inodeBitmap.bit iNo = false ∧
      inodeBitmapAlloc full fs.curPart = .ok (Option.some iNo,
        fs.curPart.setInodeBitmap (fs.curPart.inodeBitmap.put iNo true)) := by
  classical
  have exists_free : ∃ i, i < fs.curPart.inodeBitmap.bitLen ∧
      fs.curPart.inodeBitmap.bit i = false := by
    obtain ⟨i, inside, free⟩ := Bitmap.exists_free_of_pos some
    exact ⟨i, inside, free⟩
  obtain ⟨inside, free⟩ := Nat.find_spec exists_free
  have first : ∀ j < Nat.find exists_free, fs.curPart.inodeBitmap.bit j = true := by
    intro j earlier
    have taken := Nat.find_min exists_free earlier
    by_contra clear
    exact taken ⟨by omega, by simpa using clear⟩
  refine ⟨Nat.find exists_free, inside, free, ?_⟩
  rw [inodeBitmapAlloc, bitmapScan_one_of_free full inside free first]
  simp only [ok_bind, bitmapSet_eq inside, pure_eq_ok]

/-- The call up to the second `sys_malloc`. -/
theorem fileCreate_eq
    (allocated : inodeBitmapAlloc full fs.curPart = .ok (some iNo,
      fs.curPart.setInodeBitmap (fs.curPart.inodeBitmap.put iNo true))) :
    fileCreate full task parent filename (some p) (some q) buf fs =
      createInode full task parent filename q p iNo buf (withInode task fs p q iNo) := by
  rw [fileCreate, FileSystem.allocated_curPart, allocated]
  rfl

theorem rollbackStep1_eq (inside : iNo < fs.curPart.inodeBitmap.bitLen) {last : FileSystem}
    (taken : last.curPart.inodeBitmap = fs.curPart.inodeBitmap.put iNo true)
    (free : fs.curPart.inodeBitmap.bit iNo = false) :
    rollbackStep1 task iNo p last = .ok (none,
      (last.setPart (last.curPart.setInodeBitmap fs.curPart.inodeBitmap)).freed task p, task) := by
  rw [rollbackStep1, taken, bitmapSet_put_cancel inside free]
  rfl

theorem fileCreate_no_memory (inside : iNo < fs.curPart.inodeBitmap.bitLen)
    (free : fs.curPart.inodeBitmap.bit iNo = false)
    (allocated : inodeBitmapAlloc full fs.curPart = .ok (some iNo,
      fs.curPart.setInodeBitmap (fs.curPart.inodeBitmap.put iNo true))) :
    fileCreate full task parent filename (some p) none buf fs =
      .ok (none, (fs.allocated task p).freed task p, task) := by
  rw [fileCreate, FileSystem.allocated_curPart, allocated]
  exact rollbackStep1_eq inside rfl free

theorem createInode_table_full (inside : iNo < fs.curPart.inodeBitmap.bitLen)
    (free : fs.curPart.inodeBitmap.bit iNo = false)
    (none : getFreeSlotInGlobal fs.fileTable = Option.none) :
    createInode full task parent filename q p iNo buf (withInode task fs p q iNo) =
      .ok (Option.none, ((((withInode task fs p q iNo).setInode q
        (inodeInit (UInt32.ofNat iNo))).freed task q).setPart fs.curPart).freed task p, task) := by
  rw [createInode]
  change (match getFreeSlotInGlobal fs.fileTable with
    | Option.none => _
    | some fdIdx => _) = _
  rw [none]
  exact rollbackStep1_eq inside rfl free

/-- The state in which the directory entry is about to be inserted. -/
def withFile (task : FileTask) (fs : FileSystem) (p q : Address) (iNo fdIdx : Nat) :
    FileSystem :=
  (((withInode task fs p q iNo).setInode q (inodeInit (UInt32.ofNat iNo))).setFile fdIdx
    ⟨0, FileType.regular.code, some q⟩).setInode q (inodeInit (UInt32.ofNat iNo))

theorem createInode_eq (full : FullScan) (task : FileTask) (p : Address) (iNo : Nat)
    (buf : Bytes) (slot : getFreeSlotInGlobal fs.fileTable = some fdIdx)
    (short : strlen filename ≤ maxFileNameLen) (apart : q ≠ parent) :
    ∃ entry, createInode full task parent filename q p iNo buf (withInode task fs p q iNo) =
      syncDirEntry full (fs.curPart.setInodeBitmap (fs.curPart.inodeBitmap.put iNo true))
        (fs.inodeAt parent) entry buf >>= fun result =>
          let last := ((withFile task fs p q iNo fdIdx).setPart result.2.2).setInode parent
            result.2.1
          if result.1 then commitFile task parent q p iNo fdIdx last
          else rollbackStep3 task fdIdx q iNo p last := by
  have parentKept : (withFile task fs p q iNo fdIdx).inodeAt parent = fs.inodeAt parent := by
    rw [withFile, FileSystem.setInode_inodeAt, Function.update_of_ne (Ne.symm apart)]
    exact Function.update_of_ne (Ne.symm apart) _ _
  obtain ⟨entry, created⟩ : ∃ entry, createDirEntry filename (UInt32.ofNat iNo) .regular
      ⟨fun _ => 0, 0, 0⟩ = .ok entry := by
    rw [createDirEntry, decide_eq_true short]
    exact ⟨_, rfl⟩
  have again : (((withInode task fs p q iNo).setInode q (inodeInit (UInt32.ofNat iNo))).setFile
      fdIdx ⟨0, FileType.regular.code, some q⟩).inodeAt q = inodeInit (UInt32.ofNat iNo) :=
    Function.update_self q _ _
  refine ⟨entry, ?_⟩
  rw [createInode]
  change (match getFreeSlotInGlobal fs.fileTable with
    | none => _
    | some fdIdx => _) = _
  rw [slot]
  simp only [again, created, ok_bind]
  rw [← parentKept]
  rfl

/-- When the directory entry is refused, all steps are undone except for what
`sync_dir_entry` did itself and the old contents of the slot. -/
theorem rollbackStep3_eq (task : FileTask) (fdIdx : Nat) (parent : Address)
    (inside : iNo < fs.curPart.inodeBitmap.bitLen)
    (free : fs.curPart.inodeBitmap.bit iNo = false)
    (notLive : p ∉ fs.kernelHeap) (notLive' : q ∉ fs.kernelHeap) (different : q ≠ p)
    (dirInode : Inode) (disk : Bytes) :
    ∃ last, rollbackStep3 task fdIdx q iNo p (((withFile task fs p q iNo fdIdx).setPart
        ((fs.curPart.setInodeBitmap (fs.curPart.inodeBitmap.put iNo true)).setDisk
          disk)).setInode parent dirInode) = .ok (none, last, task) ∧
      last.curPart = fs.curPart.setDisk disk ∧ last.inodeAt parent = dirInode ∧
      last.fileTable = Function.update fs.fileTable fdIdx File.cleared ∧
      last.kernelHeap = fs.kernelHeap := by
  refine ⟨_, rollbackStep1_eq inside rfl free, rfl, ?_, ?_, ?_⟩
  · exact Function.update_self parent _ _
  · exact Function.update_idem _ _ _
  · exact heap_restored task notLive notLive' different

/-- After the directory entry nothing fails but the descriptor. -/
theorem commitFile_eq (mounted : fs.curPart.Mounted)
    (inodeSector : fs.curPart.sb.inodeBitmapLba.toNat + iNo / 4096 ≤ maxLba) :
    ∃ last, commitFile task parent q p iNo fdIdx fs =
        .ok ((pcbFdInstall task fdIdx).1, last, (pcbFdInstall task fdIdx).2) ∧
      last.curPart.inodeBitmap = fs.curPart.inodeBitmap := by
  have sector : (fs.curPart.sb.inodeBitmapLba + UInt32.ofNat iNo / 4096).toNat ≤ maxLba := by
    have low : (UInt32.ofNat iNo / 4096).toNat ≤ iNo / 4096 := by
      rw [UInt32.toNat_div, UInt32.toNat_ofNat']
      exact Nat.div_le_div_right (Nat.mod_le _ _)
    simp only [maxLba] at inodeSector ⊢
    rw [UInt32.toNat_add]
    omega
  rw [commitFile, inodeSync_eq mounted, ok_bind, inodeSync_eq (mounted.setDisk _), ok_bind]
  simp only [bitmapSync, Partition.setDisk_sb]
  rw [ideWrite_eq sector (by decide)]
  exact ⟨_, rfl, rfl⟩

end Cases

section Main

variable {task : FileTask} {fs : FileSystem} {parent : Address} {filename : CString}
  {ioBuf newFileInode : Option Address} {buf : Bytes}

/-- What is known where `file_create` is called: a mounted partition whose inode bitmap
ends before the data area, a directory that passes the assertion on its size, and a name
of at most 16 characters. -/
structure CreateReady (fs : FileSystem) (parent : Address) (filename : CString) : Prop where
  mounted : fs.curPart.Mounted
  fewSects : fs.curPart.sb.blockBitmapSects.toNat ≤ 609
  size : (fs.inodeAt parent).iSize % 24 = 0
  short : strlen filename ≤ maxFileNameLen

theorem CreateReady.inodeSector (ready : CreateReady fs parent filename) {iNo : Nat}
    (inside : iNo < fs.curPart.inodeBitmap.bitLen) :
    fs.curPart.sb.inodeBitmapLba.toNat + iNo / 4096 ≤ maxLba := by
  have inodeLen := ready.mounted.inodeBitmapLen
  have onDisk := ready.mounted.onDisk
  have inodeTableLba := ready.mounted.inodeTableLba
  have dataStartLba := ready.mounted.dataStartLba
  have fewSects := ready.fewSects
  simp only [Bitmap.bitLen, inodeTableSects] at *
  omega

theorem CreateReady.sizeOk (ready : CreateReady fs parent filename) :
    (fs.inodeAt parent).iSize % fs.curPart.sb.dirEntrySize = 0 := by
  rw [ready.mounted.dirEntrySize]
  exact ready.size

/-- The call from the directory entry on, when it fails there. -/
theorem ReachesDir.refused {fdIdx : Nat} (reaches : ReachesDir fs ioBuf newFileInode fdIdx)
    (fresh : FreshBlocks fs parent ioBuf newFileInode) (ready : CreateReady fs parent filename)
    (few : fs.curPart.blockBitmap.freeCount < 2) (task : FileTask) (buf : Bytes) :
    ∃ last dirInode disk,
      fileCreate .returnsMinusOne task parent filename ioBuf newFileInode buf fs =
        .ok (none, last, task) ∧
      last.curPart = fs.curPart.setDisk disk ∧ last.inodeAt parent = dirInode ∧
      last.fileTable = Function.update fs.fileTable fdIdx File.cleared ∧
      last.kernelHeap = fs.kernelHeap ∧
      (fs.curPart.blockBitmap.freeCount = 0 ∧ dirInode = fs.inodeAt parent ∧
          disk = fs.curPart.myDisk ∨
        ∃ bitIdx, fs.curPart.blockBitmap.LowestFree bitIdx ∧
          fs.curPart.blockBitmap.freeCount = 1 ∧
          dirInode = (fs.inodeAt parent).setSector 12 0 ∧
          disk = (takeBlock fs.curPart bitIdx).myDisk) := by
  obtain ⟨p, rfl⟩ := Option.ne_none_iff_exists'.mp reaches.buffer
  obtain ⟨q, rfl⟩ := Option.ne_none_iff_exists'.mp reaches.inode
  obtain ⟨iNo, inside, free, allocated⟩ :=
    inodeBitmapAlloc_of_some .returnsMinusOne reaches.number
  obtain ⟨notLive', apart, differs⟩ := fresh.inode q rfl
  have notLive := fresh.buffer p rfl
  obtain ⟨entry, created⟩ :=
    createInode_eq .returnsMinusOne task p iNo buf reaches.slot ready.short apart
  have mounted' : (fs.curPart.setInodeBitmap (fs.curPart.inodeBitmap.put iNo true)).Mounted :=
    ready.mounted.setInodeBitmap rfl
  rw [fileCreate_eq allocated, created]
  have undone := rollbackStep3_eq task fdIdx parent inside free notLive notLive' (differs p rfl)
  rcases Nat.eq_zero_or_pos fs.curPart.blockBitmap.freeCount with none | some
  · have none' : (fs.curPart.setInodeBitmap
        (fs.curPart.inodeBitmap.put iNo true)).blockBitmap.freeCount = 0 := none
    rw [syncDirEntry_of_full none' ready.sizeOk]
    obtain ⟨last, ran, part, inode, table, heap⟩ :=
      undone (fs.inodeAt parent) fs.curPart.myDisk
    exact ⟨last, _, _, ran, part, inode, table, heap, Or.inl ⟨none, rfl, rfl⟩⟩
  · have one : fs.curPart.blockBitmap.freeCount = 1 := by omega
    obtain ⟨bitIdx, lowest⟩ := Bitmap.exists_lowestFree some
    rw [syncDirEntry_of_one mounted' lowest one ready.sizeOk]
    obtain ⟨last, ran, part, inode, table, heap⟩ :=
      undone ((fs.inodeAt parent).setSector 12 0) (takeBlock fs.curPart bitIdx).myDisk
    exact ⟨last, _, _, ran, part, inode, table, heap, Or.inr ⟨bitIdx, lowest, one, rfl, rfl⟩⟩

/-- The call from the directory entry on, when it succeeds there. -/
theorem ReachesDir.created {fdIdx tableIdx bitIdx : Nat}
    (reaches : ReachesDir fs ioBuf newFileInode fdIdx)
    (fresh : FreshBlocks fs parent ioBuf newFileInode) (ready : CreateReady fs parent filename)
    (two : TakesTwo fs.curPart tableIdx bitIdx) (task : FileTask) (buf : Bytes) :
    ∃ last, fileCreate .returnsMinusOne task parent filename ioBuf newFileInode buf fs =
        .ok ((pcbFdInstall task fdIdx).1, last, (pcbFdInstall task fdIdx).2) ∧
      ∃ iNo, fs.curPart.inodeBitmap.bit iNo = false ∧
        last.curPart.inodeBitmap = fs.curPart.inodeBitmap.put iNo true := by
  obtain ⟨p, rfl⟩ := Option.ne_none_iff_exists'.mp reaches.buffer
  obtain ⟨q, rfl⟩ := Option.ne_none_iff_exists'.mp reaches.inode
  obtain ⟨iNo, inside, free, allocated⟩ :=
    inodeBitmapAlloc_of_some .returnsMinusOne reaches.number
  obtain ⟨-, apart, -⟩ := fresh.inode q rfl
  obtain ⟨entry, created⟩ :=
    createInode_eq .returnsMinusOne task p iNo buf reaches.slot ready.short apart
  have mounted' : (fs.curPart.setInodeBitmap (fs.curPart.inodeBitmap.put iNo true)).Mounted :=
    ready.mounted.setInodeBitmap rfl
  have two' : TakesTwo (fs.curPart.setInodeBitmap (fs.curPart.inodeBitmap.put iNo true))
      tableIdx bitIdx := ⟨two.table, two.block, two.addressed⟩
  rw [fileCreate_eq allocated, created, syncDirEntry_of_two mounted' two' ready.sizeOk]
  obtain ⟨last, ran, bits⟩ : ∃ last, commitFile task parent q p iNo fdIdx
      (((withFile task fs p q iNo fdIdx).setPart (indirectPart (fs.curPart.setInodeBitmap
        (fs.curPart.inodeBitmap.put iNo true)) tableIdx bitIdx entry buf)).setInode parent
          (indirectInode fs.curPart (fs.inodeAt parent) tableIdx)) =
        .ok ((pcbFdInstall task fdIdx).1, last, (pcbFdInstall task fdIdx).2) ∧
      last.curPart.inodeBitmap = fs.curPart.inodeBitmap.put iNo true :=
    commitFile_eq (indirectPart_mounted mounted' tableIdx bitIdx entry buf)
      (ready.inodeSector inside)
  exact ⟨last, ran, iNo, free, bits⟩

/-- A call that comes back from the directory entry with two blocks free has taken them. -/
theorem ReachesDir.takesTwo {fdIdx : Nat} (reaches : ReachesDir fs ioBuf newFileInode fdIdx)
    (fresh : FreshBlocks fs parent ioBuf newFileInode) (ready : CreateReady fs parent filename)
    (many : 2 ≤ fs.curPart.blockBitmap.freeCount) {r : Option Nat × FileSystem × FileTask}
    (ran : fileCreate .returnsMinusOne task parent filename ioBuf newFileInode buf fs = .ok r) :
    ∃ tableIdx bitIdx, TakesTwo fs.curPart tableIdx bitIdx := by
  obtain ⟨p, rfl⟩ := Option.ne_none_iff_exists'.mp reaches.buffer
  obtain ⟨q, rfl⟩ := Option.ne_none_iff_exists'.mp reaches.inode
  obtain ⟨iNo, inside, free, allocated⟩ :=
    inodeBitmapAlloc_of_some .returnsMinusOne reaches.number
  obtain ⟨-, apart, -⟩ := fresh.inode q rfl
  obtain ⟨entry, created⟩ :=
    createInode_eq .returnsMinusOne task p iNo buf reaches.slot ready.short apart
  have mounted' : (fs.curPart.setInodeBitmap (fs.curPart.inodeBitmap.put iNo true)).Mounted :=
    ready.mounted.setInodeBitmap rfl
  rw [fileCreate_eq allocated, created] at ran
  obtain ⟨⟨ok, dirInode, part'⟩, synced, -⟩ := except_bind_eq_ok.mp ran
  cases syncDirEntry_done mounted' synced with
  | newTable two => exact ⟨_, _, two.table, two.block, two.addressed⟩
  | refused isFull =>
      have none : fs.curPart.blockBitmap.freeCount = 0 := isFull
      omega
  | halfway table last =>
      have one : fs.curPart.blockBitmap.freeCount = 1 := last
      omega

/-- A call that fails after the file table leaves no trace. -/
theorem FailuresUndone.of_reaches {fs' : FileSystem} {task' : FileTask} {fdIdx : Nat}
    (undone : FailuresUndone task fs parent ioBuf newFileInode)
    (fresh : FreshBlocks fs parent ioBuf newFileInode) (ready : CreateReady fs parent filename)
    (reaches : ReachesDir fs ioBuf newFileInode fdIdx)
    (ran : fileCreate .returnsMinusOne task parent filename ioBuf newFileInode buf fs =
      .ok (none, fs', task')) : Unchanged parent fs fs' := by
  rcases Nat.lt_or_ge fs.curPart.blockBitmap.freeCount 2 with few | many
  · obtain ⟨last, dirInode, disk, refused, part, inode, table, heap, outcome⟩ :=
      reaches.refused fresh ready few task buf
    obtain ⟨rfl, -⟩ : last = fs' ∧ task = task' := by
      simpa using Except.ok.inj (refused.symm.trans ran)
    have sameTable : last.fileTable = fs.fileTable := by
      rw [table, ← undone.slot fdIdx reaches few, Function.update_eq_self]
    obtain ⟨sameInode, sameDisk⟩ : dirInode = fs.inodeAt parent ∧ disk = fs.curPart.myDisk := by
      rcases outcome with ⟨-, sameInode, sameDisk⟩ | ⟨bitIdx, lowest, one, rfl, rfl⟩
      · exact ⟨sameInode, sameDisk⟩
      · obtain ⟨noTable, onDisk⟩ := undone.lastBlock fdIdx bitIdx reaches one lowest
        constructor
        · rw [Inode.setSector, ← noTable, Function.update_eq_self]
        · exact Bytes.splice_eq_self onDisk
    rw [sameDisk] at part
    constructor
    · rw [part]
      rfl
    · rw [part]
      rfl
    · rw [part]
      rfl
    · rw [part]
      rfl
    · exact inode.trans sameInode
    · exact sameTable
    · exact heap
  · obtain ⟨tableIdx, bitIdx, two⟩ := reaches.takesTwo fresh ready many ran
    obtain ⟨last, created, -⟩ := reaches.created fresh ready two task buf
    have installed : (pcbFdInstall task fdIdx).1 = none := by
      have same := Except.ok.inj (created.symm.trans ran)
      exact congrArg Prod.fst same
    exact absurd (undone.descriptor fdIdx tableIdx bitIdx reaches two)
      (pcbFdInstall_eq_none_iff.mp installed)

/-- A failed `file_create` leaves everything as it was exactly in the states that
`FailuresUndone` describes. -/
theorem fileCreate_atomic_iff (fresh : FreshBlocks fs parent ioBuf newFileInode)
    (ready : CreateReady fs parent filename) (buf : Bytes) :
    (∀ fs' task', fileCreate .returnsMinusOne task parent filename ioBuf newFileInode buf fs =
      .ok (none, fs', task') → Unchanged parent fs fs') ↔
    FailuresUndone task fs parent ioBuf newFileInode := by
  constructor
  · intro atomic
    constructor
    · intro buffer none kernelThread
      obtain ⟨p, rfl⟩ := Option.ne_none_iff_exists'.mp buffer
      have heap := (atomic _ _ (fileCreate_no_number none newFileInode)).kernelHeap
      rw [FileSystem.allocated_kernelHeap, if_pos kernelThread] at heap
      exact fresh.buffer p rfl (heap ▸ Finset.mem_insert_self p fs.kernelHeap)
    · intro fdIdx tableIdx bitIdx reaches two
      by_contra noSlot
      obtain ⟨last, ran, iNo, free, bits⟩ := reaches.created fresh ready two task buf
      rw [pcbFdInstall_eq_none_iff.mpr noSlot] at ran
      have same := (atomic _ _ ran).inodeBitmap
      rw [bits] at same
      have taken := fs.curPart.inodeBitmap.bit_put_self iNo true
      rw [same, free] at taken
      cases taken
    · intro fdIdx reaches few
      obtain ⟨last, dirInode, disk, ran, -, -, table, -, -⟩ :=
        reaches.refused fresh ready few task buf
      have same := (atomic _ _ ran).fileTable
      rw [← same, table, Function.update_self]
    · intro fdIdx bitIdx reaches one lowest
      obtain ⟨last, dirInode, disk, ran, part, inode, -, -, outcome⟩ :=
        reaches.refused fresh ready (by omega) task buf
      have unchanged := atomic _ _ ran
      rcases outcome with ⟨none, -, -⟩ | ⟨taken, lowest', -, rfl, rfl⟩
      · omega
      · obtain rfl : taken = bitIdx :=
          Nat.le_antisymm (lowest'.le lowest.free) (lowest.le lowest'.free)
        constructor
        · rw [← unchanged.parentInode, inode, Inode.setSector_iSectors, Function.update_self]
        · have sameDisk : (takeBlock fs.curPart taken).myDisk = fs.curPart.myDisk := by
            rw [← unchanged.disk, part]
            rfl
          exact Bytes.splice_eq_self_iff.mp sameDisk
  · intro undone fs' task' ran
    cases ioBuf with
    | none =>
        cases ran
        exact Unchanged.refl parent fs
    | some p =>
        rcases Nat.eq_zero_or_pos fs.curPart.inodeBitmap.freeCount with exhausted | number
        · rw [fileCreate_no_number exhausted] at ran
          cases ran
          have process := undone.noNumber (Option.some_ne_none p) exhausted
          have heap : (fs.allocated task p).kernelHeap = fs.kernelHeap := if_neg process
          exact ⟨rfl, rfl, rfl, rfl, rfl, rfl, heap⟩
        · obtain ⟨iNo, inside, free, allocated⟩ :=
            inodeBitmapAlloc_of_some .returnsMinusOne number
          cases newFileInode with
          | none =>
              rw [fileCreate_no_memory inside free allocated] at ran
              cases ran
              exact ⟨rfl, rfl, rfl, rfl, rfl, rfl, heap_restored_one (fresh.buffer p rfl)⟩
          | some q =>
              obtain ⟨notLive', apart, differs⟩ := fresh.inode q rfl
              cases slotFound : getFreeSlotInGlobal fs.fileTable with
              | none =>
                  rw [fileCreate_eq allocated, createInode_table_full inside free slotFound] at ran
                  cases ran
                  have heap := heap_restored task (fresh.buffer p rfl) notLive' (differs p rfl)
                  exact ⟨rfl, rfl, rfl, rfl, Function.update_of_ne (Ne.symm apart) _ _, rfl, heap⟩
              | some fdIdx =>
                  exact undone.of_reaches fresh ready
                    ⟨Option.some_ne_none p, number, Option.some_ne_none q, slotFound⟩ ran

/-- A file system on `samplePartition` whose root directory, at `0xc0100000`, is
empty; `slot` says what the slots of the file table hold. -/
def sampleFileSystem (slot : File) : FileSystem where
  curPart := samplePartition
  inodeAt := fun _ => inodeInit 0
  fileTable := fun _ => slot
  kernelHeap := {0xc0100000}

theorem sampleFileSystem_ready (slot : File) :
    CreateReady (sampleFileSystem slot) 0xc0100000 ⟨[97], by simp⟩ := by
  have size : (inodeInit 0).iSize % 24 = 0 := by decide
  have few : samplePartition.sb.blockBitmapSects.toNat ≤ 609 := by decide
  exact ⟨samplePartition_mounted, few, size, by decide⟩

theorem sampleFileSystem_fresh (slot : File) :
    FreshBlocks (sampleFileSystem slot) 0xc0100000 (some 0xc0101000) (some 0xc0102000) := by
  have notLive : 0xc0101000 ∉ ({0xc0100000} : Finset Address) ∧
      0xc0102000 ∉ ({0xc0100000} : Finset Address) := by decide
  constructor
  · rintro p ⟨rfl⟩
    exact notLive.1
  · rintro q ⟨rfl⟩
    refine ⟨notLive.2, by decide, ?_⟩
    rintro p ⟨rfl⟩
    decide

theorem sampleFileSystem_free (slot : File) :
    0 < (sampleFileSystem slot).curPart.inodeBitmap.freeCount := by
  have clear : 1 < samplePartition.inodeBitmap.bitLen ∧
      samplePartition.inodeBitmap.bit 1 = false := by decide
  exact Finset.card_pos.mpr ⟨1, Bitmap.mem_freeBits.mpr clear⟩

theorem samplePartition_takesTwo : TakesTwo samplePartition 1 2 :=
  ⟨⟨by decide, by decide, by decide⟩, ⟨by decide, by decide, by decide⟩, by decide⟩

/-- With every slot of the file table in use the inode and its number are given back. -/
theorem fileCreate_atomic_table_full :
    ∃ fs', fileCreate .returnsMinusOne ⟨none, fun _ => -1⟩ 0xc0100000 ⟨[97], by simp⟩
        (some 0xc0101000) (some 0xc0102000) (Bytes.fill 0)
        (sampleFileSystem ⟨0, 1, some 0xc0103000⟩) = .ok (none, fs', ⟨none, fun _ => -1⟩) ∧
      Unchanged 0xc0100000 (sampleFileSystem ⟨0, 1, some 0xc0103000⟩) fs' := by
  have noSlot : getFreeSlotInGlobal (fun _ => (⟨0, 1, some 0xc0103000⟩ : File)) = none := by
    decide
  have unreached : ∀ fdIdx, ¬ ReachesDir (sampleFileSystem ⟨0, 1, some 0xc0103000⟩)
      (some 0xc0101000) (some 0xc0102000) fdIdx := by
    intro fdIdx reaches
    cases noSlot.symm.trans reaches.slot
  have undone : FailuresUndone ⟨none, fun _ => -1⟩
      (sampleFileSystem ⟨0, 1, some 0xc0103000⟩) 0xc0100000 (some 0xc0101000)
      (some 0xc0102000) := by
    constructor
    · exact fun _ exhausted => absurd exhausted (Nat.pos_iff_ne_zero.mp (sampleFileSystem_free _))
    · exact fun fdIdx _ _ reaches => absurd reaches (unreached fdIdx)
    · exact fun fdIdx reaches => absurd reaches (unreached fdIdx)
    · exact fun fdIdx _ reaches => absurd reaches (unreached fdIdx)
  obtain ⟨iNo, inside, free, allocated⟩ := inodeBitmapAlloc_of_some .returnsMinusOne
    (sampleFileSystem_free ⟨0, 1, some 0xc0103000⟩)
  have fresh := sampleFileSystem_fresh ⟨0, 1, some 0xc0103000⟩
  have ready := sampleFileSystem_ready ⟨0, 1, some 0xc0103000⟩
  refine ⟨_, (fileCreate_eq allocated).trans (createInode_table_full inside free noSlot), ?_⟩
  apply (fileCreate_atomic_iff fresh ready (Bytes.fill 0)).mpr undone
  exact (fileCreate_eq allocated).trans (createInode_table_full inside free noSlot)

/-- With descriptors 3 to 7 in use everything is committed when the call fails. -/
theorem fileCreate_keeps_file :
    ∃ fs', fileCreate .returnsMinusOne ⟨none, fun _ => 5⟩ 0xc0100000 ⟨[97], by simp⟩
        (some 0xc0101000) (some 0xc0102000) (Bytes.fill 0) (sampleFileSystem File.cleared) =
          .ok (none, fs', ⟨none, fun _ => 5⟩) ∧
      ¬ Unchanged 0xc0100000 (sampleFileSystem File.cleared) fs' := by
  have reaches : ReachesDir (sampleFileSystem File.cleared) (some 0xc0101000)
      (some 0xc0102000) 3 := ⟨by decide, (sampleFileSystem_free _), by decide, rfl⟩
  obtain ⟨last, ran, iNo, free, bits⟩ := reaches.created (sampleFileSystem_fresh _)
    (sampleFileSystem_ready _) samplePartition_takesTwo ⟨none, fun _ => 5⟩ (Bytes.fill 0)
  refine ⟨last, ran, fun unchanged => ?_⟩
  have taken : last.curPart.inodeBitmap.bit iNo = true := by
    rw [bits, Bitmap.bit_put_self]
  rw [unchanged.inodeBitmap, free] at taken
  cases taken

end Main

end HongbaiOS.Fs
