import HongbaiOS.Fs.Format
import HongbaiOS.Fs.Search
import HongbaiOS.Fs.CreateCases

/-!
# Opening a file

`sys_open` takes over the directory that `search_file` holds and has to close it on each of
its ways out.  The exit for a file that exists and is not to be created does not.
-/

namespace HongbaiOS.Fs

open HongbaiOS.Library HongbaiOS.Kernel HongbaiOS.Device HongbaiOS.Lib

/-- `O_CREAT` -/
def oCreat : UInt8 := 4

/-- What a call of `sys_open` finds in memory that it has not written: the byte before the
path, the first bytes of the array `name` in the two calls of `path_depth_cnt` and the string
at address 1; and what `sys_malloc` gives `file_create`. -/
structure OpenEnv extends SearchEnv where
  before : UInt8
  name : UInt8
  name' : UInt8
  atOne : List UInt8
  ioBuf : Option Address
  newFileInode : Option Address
  createBuf : Bytes

/-- `strrchr(pathname, '/') + 1` -/
def createdName (atOne pathname : List UInt8) : CString :=
  match strrchr pathname slash with
  | some lastSlash => cstr lastSlash.tail
  | none => cstr atOne

/-- The part of `sys_open` behind the check that the whole path has been searched. -/
def openOrCreate (full : FullScan) (env : OpenEnv) (task : FileTask) (pathname : List UInt8)
    (flags : UInt8) (found : Bool) (parentDir : Dir) (s : FsState) :
    Except Halt (Option Nat × FsState × FileTask) :=
  if !found ∧ flags &&& oCreat = 0 then .ok (none, s.dirClose parentDir, task)
  else if found ∧ flags &&& oCreat ≠ 0 then .ok (none, s.dirClose parentDir, task)
  else if flags &&& oCreat ≠ 0 then
    if ∀ q ∈ env.newFileInode, q ∉ s.fs.kernelHeap ∧ q ∉ s.fs.curPart.openInodes then do
      let (fd, fs, task) ← fileCreate full task parentDir.inode (createdName env.atOne pathname)
        env.ioBuf env.newFileInode env.createBuf s.fs
      return (fd, { s with fs := fs }.dirClose parentDir, task)
    else .error .disabled
  else .ok (none, s, task)

/-- `sys_open(pathname, flags)`; `none` is `-1`. -/
def sysOpen (full : FullScan) (env : OpenEnv) (s : FsState) (task : FileTask)
    (pathname : CString) (flags : UInt8) : Except Halt (Option Nat × FsState × FileTask) :=
  if pathname.chars.getLast?.getD env.before = slash then .ok (none, s, task)
  else do
    check .sysOpen (flags ≤ 7)
    let pathnameDepth ← pathDepthCnt env.name pathname.chars
    let (iNo, searchRecord, s) ← searchFile env.toSearchEnv s pathname.chars
    if searchRecord.fileType = .directory then
      return (none, s.dirClose searchRecord.parentDir, task)
    else do
      let searchDepth ← pathDepthCnt env.name' searchRecord.searchedPath
      if searchDepth ≠ pathnameDepth then
        return (none, s.dirClose searchRecord.parentDir, task)
      else
        openOrCreate full env task pathname.chars flags (iNo ≠ notFound) searchRecord.parentDir s

/-- The inodes that were open before are open as often, and the live `struct dir` are the
same. -/
structure DirsClosed (s t : FsState) : Prop where
  dirs : t.dirs = s.dirs
  inodes : ∀ a ∈ s.fs.curPart.openInodes, a ∈ t.fs.curPart.openInodes ∧
    (t.fs.inodeAt a).iNo = (s.fs.inodeAt a).iNo ∧
    (t.fs.inodeAt a).iOpenCnts = (s.fs.inodeAt a).iOpenCnts

/-- The path leads through a directory entry to a regular file, with no name left. -/
structure FoundInOpened (s : FsState) (env : OpenEnv) (pathname : List UInt8) (iNo : UInt32)
    (there : WalkAt) : Prop where
  leads : s.PathLeads env.toSearchEnv pathname (.regular iNo) there
  opened : there.opened
  number : iNo ≠ notFound
  whole : pathDepthCnt env.name' there.searchedPath = .ok (components pathname).length

/-- `sys_open` comes to its last line with a directory open: the path does not end in a
slash, the file exists in a directory that had to be opened, and is not to be created. -/
structure LeavesDirOpen (s : FsState) (env : OpenEnv) (pathname : List UInt8) (flags : UInt8) :
    Prop where
  noSlash : pathname.getLast? ≠ some slash
  noCreate : flags &&& oCreat = 0
  found : ∃ iNo there, FoundInOpened s env pathname iNo there

/-- Closing `dir` gives the counts of `s`. -/
structure Closable (s : FsState) (dir : Dir) (t : FsState) : Prop where
  dirs : match dir.place with
    | none => t.dirs = s.dirs
    | some p => p ∉ s.dirs ∧ t.dirs = insert p s.dirs
  inodes : ∀ a ∈ s.fs.curPart.openInodes, a ∈ t.fs.curPart.openInodes ∧
    (t.fs.inodeAt a).iNo = (s.fs.inodeAt a).iNo ∧
    (t.fs.inodeAt a).iOpenCnts =
      if dir.place ≠ none ∧ a = dir.inode then (s.fs.inodeAt a).iOpenCnts + 1
      else (s.fs.inodeAt a).iOpenCnts
  listed : dir.inode ∈ t.fs.curPart.openInodes

section Closing

variable {s t : FsState} {dir : Dir}

theorem Closable.dirClose (closable : Closable s dir t) (sound : s.Sound) :
    DirsClosed s (t.dirClose dir) := by
  obtain ⟨dirs, inodes, -⟩ := closable
  obtain ⟨place, i⟩ := dir
  cases place with
  | none =>
      refine ⟨dirs, fun a listed => ?_⟩
      have kept := inodes a listed
      rwa [if_neg fun both => both.1 rfl] at kept
  | some p =>
      refine ⟨?_, fun a listed => ?_⟩
      · change t.dirs.erase p = s.dirs
        rw [dirs.2, Finset.erase_insert dirs.1]
      · obtain ⟨still, number, count⟩ := inodes a listed
        change a ∈ (t.fs.inodeClose i).curPart.openInodes ∧
          ((t.fs.inodeClose i).inodeAt a).iNo = _ ∧ ((t.fs.inodeClose i).inodeAt a).iOpenCnts = _
        by_cases here : a = i
        · rw [if_pos ⟨Option.some_ne_none p, here⟩] at count
          subst here
          have back : (t.fs.inodeAt a).iOpenCnts - 1 = (s.fs.inodeAt a).iOpenCnts := by
            rw [count, UInt32.add_sub_cancel]
          rw [FileSystem.inodeClose, back]
          simp only [if_neg (sound.used a listed)]
          exact ⟨still, setCnts_iNo.trans number, setCnts_self⟩
        · rw [if_neg fun both => here both.2] at count
          rw [FileSystem.inodeClose]
          split
          next =>
            refine ⟨(List.mem_erase_of_ne here).mpr still, setCnts_iNo.trans number, ?_⟩
            rw [setCnts_of_ne here]
            exact count
          next =>
            refine ⟨still, setCnts_iNo.trans number, ?_⟩
            rw [setCnts_of_ne here]
            exact count

theorem Holding.closable (holding : Holding s dir t) (sound : s.Sound) : Closable s dir t := by
  cases holding with
  | root same =>
      refine ⟨same.dirs, fun a listed => ?_, ?_⟩
      · rw [same.inodes a listed, same.curPart]
        simp [listed, FsState.root]
      · rw [same.curPart]
        exact sound.rootListed
  | hit same fresh listed =>
      rename_i t p i
      refine ⟨⟨fresh, ?_⟩, fun a inList => ⟨?_, ?_, ?_⟩, ?_⟩
      · exact congrArg (insert p) same.dirs
      · rw [setCnts_curPart, same.curPart]
        exact inList
      · rw [setCnts_iNo, same.inodes a inList]
      · by_cases here : a = i
        · subst here
          rw [setCnts_self, same.inodes a inList, if_pos ⟨Option.some_ne_none p, rfl⟩]
        · rw [setCnts_of_ne here, same.inodes a inList, if_neg fun both => here both.2]
      · rw [setCnts_curPart, same.curPart]
        exact listed
  | miss inode same fresh notLive unlisted =>
      rename_i t p i
      refine ⟨⟨fresh, congrArg (insert p) same.dirs⟩, fun a inList => ?_, ?_⟩
      · have other : a ≠ i := ne_of_mem_of_not_mem inList unlisted
        rw [FileSystem.insertInode_inodeAt, Function.update_of_ne other, same.inodes a inList,
          if_neg fun both => other both.2]
        refine ⟨List.mem_cons_of_mem i ?_, rfl, rfl⟩
        rw [same.curPart]
        exact inList
      · exact List.mem_cons_self

theorem Holding.dirsClosed_iff (holding : Holding s dir t) (sound : s.Sound) :
    DirsClosed s t ↔ dir.place = none := by
  have closable := holding.closable sound
  constructor
  · intro closed
    have dirs := closable.dirs
    cases place : dir.place with
    | none => rfl
    | some p =>
        rw [place] at dirs
        have isNew : p ∈ t.dirs := by
          rw [dirs.2]
          exact Finset.mem_insert_self p s.dirs
        rw [closed.dirs] at isNew
        exact absurd isNew dirs.1
  · intro isRoot
    have closed := closable.dirClose sound
    rwa [FsState.dirClose, isRoot] at closed

theorem SyncDone.sameCounts {part part' : Partition} {inode inode' : Inode} {entry : DirEntry}
    {ok : Bool} (done : SyncDone part inode entry ok inode' part') :
    inode'.iNo = inode.iNo ∧ inode'.iOpenCnts = inode.iOpenCnts := by
  cases done <;> exact ⟨rfl, rfl⟩

theorem Closable.fileCreate (closable : Closable s dir t) (mounted : t.fs.curPart.Mounted)
    {task task' : FileTask} {filename : CString} {ioBuf newFileInode : Option Address}
    {fd : Option Nat} {fs' : FileSystem}
    (fresh : ∀ q ∈ newFileInode, q ∉ t.fs.curPart.openInodes)
    (done : CreateDone task t.fs dir.inode filename ioBuf newFileInode fd fs' task') :
    Closable s dir { t with fs := fs' } := by
  have keeps : ∀ a ∈ t.fs.curPart.openInodes, a ∈ fs'.curPart.openInodes ∧
      (fs'.inodeAt a).iNo = (t.fs.inodeAt a).iNo ∧
      (fs'.inodeAt a).iOpenCnts = (t.fs.inodeAt a).iOpenCnts := by
    intro a listed
    have numbered : ∀ iNo, (numberedPart t.fs.curPart iNo).Mounted :=
      fun iNo => mounted.setInodeBitmap rfl
    cases done with
    | early unreached part others =>
        rw [part, others a fun same => fresh a same listed]
        exact ⟨listed, rfl, rfl⟩
    | refused reaches newInode inside free done part parent others =>
        obtain ⟨-, -, -, sameList⟩ := done.mounted (numbered _)
        refine ⟨?_, ?_⟩
        · rw [part]
          exact sameList ▸ listed
        · by_cases here : a = dir.inode
          · rw [here, parent]
            exact done.sameCounts
          · rw [others a here fun same => fresh _ newInode (same ▸ listed)]
            exact ⟨rfl, rfl⟩
    | committed reaches newInode inside free named done part parent file others table =>
        obtain ⟨-, -, -, sameList⟩ := done.mounted (numbered _)
        refine ⟨?_, ?_⟩
        · rw [part]
          exact List.mem_cons_of_mem _ (sameList ▸ listed)
        · by_cases here : a = dir.inode
          · rw [here, parent]
            exact done.sameCounts
          · rw [others a here fun same => fresh _ newInode (same ▸ listed)]
            exact ⟨rfl, rfl⟩
  refine ⟨closable.dirs, fun a listed => ?_, (keeps _ closable.listed).1⟩
  obtain ⟨still, number, count⟩ := closable.inodes a listed
  obtain ⟨still', number', count'⟩ := keeps a still
  exact ⟨still', number'.trans number, count'.trans count⟩

end Closing

section Exits

variable {full : FullScan} {env : OpenEnv} {s t t' : FsState} {task task' : FileTask}
  {pathname : List UInt8} {flags : UInt8} {fd : Option Nat}

theorem DirsClosed.refl (s : FsState) : DirsClosed s s :=
  ⟨rfl, fun _ listed => ⟨listed, rfl, rfl⟩⟩

theorem PathLeads.names {last : WalkEnd} {there : WalkAt}
    (leads : s.PathLeads env.toSearchEnv pathname last there) (notDirectory : last ≠ .directory) :
    components pathname ≠ [] := by
  intro none
  rw [FsState.PathLeads, none] at leads
  cases leads
  exact notDirectory rfl

theorem Walk.single {senv : SearchEnv} {left : Nat} {here there : WalkAt} {name : List UInt8}
    {iNo : UInt32} (walk : Walk senv s left here [name] (.regular iNo) there) :
    there.opened = here.opened := by
  cases walk with
  | regular => rfl
  | enter _ _ next => cases next
  | pass _ _ next => cases next

theorem LeavesDirOpen.not_rootNames (leaves : LeavesDirOpen s env pathname flags) :
    pathname ∉ rootNames := by
  intro isRoot
  obtain ⟨noSlash, -, iNo, there, found⟩ := leaves
  have leads := found.leads
  simp only [rootNames, List.mem_cons, List.not_mem_nil, or_false] at isRoot
  rcases isRoot with rfl | rfl | rfl
  · exact noSlash rfl
  · have one : components [slash, 46] = [[46]] := by decide
    rw [FsState.PathLeads, one] at leads
    exact Bool.noConfusion (found.opened.symm.trans leads.single)
  · have one : components [slash, 46, 46] = [[46, 46]] := by decide
    rw [FsState.PathLeads, one] at leads
    exact Bool.noConfusion (found.opened.symm.trans leads.single)

/-- A file that was found keeps its directory open exactly if that is not the root
directory. -/
theorem openOrCreate_iff {last : WalkEnd} {there : WalkAt} {iNo : UInt32}
    {record : PathSearchRecord} (sound : s.Sound)
    (leads : s.PathLeads env.toSearchEnv pathname last there)
    (recorded : last.Recorded iNo record s there t) (notDirectory : last ≠ .directory)
    (noSlash : pathname.getLast? ≠ some slash)
    (whole : pathDepthCnt env.name' there.searchedPath = .ok (components pathname).length)
    (ran : openOrCreate full env task pathname flags (iNo ≠ notFound) record.parentDir t =
      .ok (fd, t', task')) :
    DirsClosed s t' ↔ ¬ LeavesDirOpen s env pathname flags := by
  have holding := recorded.holding
  have closed := (holding.closable sound).dirClose sound
  have isNumber : ∀ {number there'}, FoundInOpened s env pathname number there' →
      there' = there ∧ iNo = number := by
    intro number there' found
    obtain ⟨rfl, rfl⟩ := leads.unique found.leads
    exact ⟨rfl, recorded.outcome.1⟩
  unfold openOrCreate at ran
  split at ran
  next missed =>
    cases ran
    refine iff_of_true closed fun leaves => ?_
    obtain ⟨number, there', found⟩ := leaves.found
    have isMissing : iNo = notFound := by simpa using missed.1
    exact found.number ((isNumber found).2.symm.trans isMissing)
  next notMissed =>
    split at ran
    next create =>
      cases ran
      exact iff_of_true closed fun leaves => create.2 leaves.noCreate
    next notTwice =>
      split at ran
      next create =>
        refine iff_of_true ?_ fun leaves => create leaves.noCreate
        split at ran
        next fresh =>
          obtain ⟨⟨fd', fs', task''⟩, created, result⟩ := except_bind_eq_ok.mp ran
          cases result
          have closable := holding.closable sound
          have mounted : t.fs.curPart.Mounted := by
            rw [holding.curPart]
            exact sound.mounted.setOpenInodes _
          have notParent : env.newFileInode ≠ some record.parentDir.inode := fun same =>
            (fresh _ same).2 closable.listed
          exact (closable.fileCreate mounted (fun q given => (fresh q given).2)
            (fileCreate_done mounted notParent created)).dirClose sound
        next => cases ran
      next noCreate =>
        cases ran
        rw [holding.dirsClosed_iff sound, (recorded.atEnd notDirectory).2.1]
        have noCreate' : flags &&& oCreat = 0 := by simpa using noCreate
        have number : iNo ≠ notFound := by simpa [noCreate'] using notMissed
        constructor
        · intro isRoot leaves
          obtain ⟨number, there', found⟩ := leaves.found
          have opened := found.opened
          rw [(isNumber found).1, isRoot] at opened
          cases opened
        · intro closes
          by_contra isOpen
          apply closes
          cases last with
          | missing => exact absurd recorded.outcome.1 number
          | directory => exact absurd rfl notDirectory
          | regular i =>
              refine ⟨noSlash, noCreate', i, there, leads, ?_, ?_, whole⟩
              · simpa using isOpen
              · rw [← recorded.outcome.1]
                exact number

/-- `sys_open` closes the directories it has opened exactly if it does not find the file, in
a directory that had to be opened, while it is not to create it. -/
theorem dirs_closed_iff {path : CString} (sound : s.Sound)
    (ran : sysOpen full env s task path flags = .ok (fd, t, task')) :
    DirsClosed s t ↔ ¬ LeavesDirOpen s env path.chars flags := by
  unfold sysOpen at ran
  split at ran
  next endsInSlash =>
    cases ran
    refine iff_of_true (.refl s) fun leaves => ?_
    obtain ⟨number, there, found⟩ := leaves.found
    have some := List.getLast?_isSome.mpr
      (fun none => PathLeads.names found.leads (by nofun) (congrArg components none))
    obtain ⟨c, last⟩ := Option.isSome_iff_exists.mp some
    rw [last, Option.getD_some] at endsInSlash
    exact leaves.noSlash (endsInSlash ▸ last)
  next noSlash =>
    have noSlash' : path.chars.getLast? ≠ some slash := by
      intro last
      rw [last] at noSlash
      exact noSlash rfl
    obtain ⟨_, -, ran⟩ := except_bind_eq_ok.mp ran
    obtain ⟨depth, counted, ran⟩ := except_bind_eq_ok.mp ran
    obtain ⟨⟨iNo, record, t'⟩, searched, ran⟩ := except_bind_eq_ok.mp ran
    simp only at ran
    rcases searchFile_walk sound searched with
      ⟨isRoot, isDirectory, holding⟩ | ⟨last, there, leads, recorded⟩
    · rw [if_pos isDirectory] at ran
      cases ran
      exact iff_of_true ((holding.closable sound).dirClose sound)
        fun leaves => leaves.not_rootNames isRoot
    · have closed := (recorded.holding.closable sound).dirClose sound
      split at ran
      next isDirectory =>
        cases ran
        refine iff_of_true closed fun leaves => ?_
        obtain ⟨number, there', found⟩ := leaves.found
        obtain ⟨rfl, -⟩ := leads.unique found.leads
        cases isDirectory.symm.trans recorded.outcome.2
      next fileType =>
        have notDirectory : last ≠ .directory := by
          rintro rfl
          exact fileType recorded.outcome
        have names := PathLeads.names leads notDirectory
        obtain rfl := ((pathDepthCnt_eq_ok _ names).mp counted).2
        obtain ⟨searchDepth, counted', ran⟩ := except_bind_eq_ok.mp ran
        rw [(recorded.atEnd notDirectory).1] at counted'
        split at ran
        next notWhole =>
          cases ran
          refine iff_of_true closed fun leaves => ?_
          obtain ⟨number, there', found⟩ := leaves.found
          obtain ⟨-, rfl⟩ := leads.unique found.leads
          exact notWhole (Except.ok.inj (counted'.symm.trans found.whole))
        next whole =>
          rw [not_not.mp whole] at counted'
          exact openOrCreate_iff sound leads recorded notDirectory noSlash' counted' ran

/-- `"a"`, a regular file with inode 1. -/
def fileEntry : DirEntry where
  filename := fun k => if k = 0 then 97 else 0
  iNo := 1
  fType := FileType.regular.code

/-- The root directory holds `"."` and `"a"`. -/
def oneFileState : FsState where
  fs := {
    curPart := (samplePartition.setDisk (((Bytes.fill 0).splice (512 * 2661) dirEntrySize
      dotEntry.bytes).splice (512 * 2661 + dirEntrySize) dirEntrySize fileEntry.bytes)
      ).setOpenInodes [0xc0100000]
    inodeAt := fun _ => {
      iNo := 0, iSize := 48, iOpenCnts := 1, writeDeny := false
      iSectors := fun k => if k = 0 then 2661 else 0 }
    fileTable := fun _ => File.cleared
    kernelHeap := {0xc0100000} }
  rootDir := 0xc0100000
  dirs := ∅

theorem oneFileState_sound : oneFileState.Sound :=
  ⟨(samplePartition_mounted.setDisk _).setOpenInodes _, by decide, by decide⟩

def zeroEnv : OpenEnv where
  dirENo := 0
  behindName := fun _ => []
  allBlock := fun _ => some fun _ => 0
  buf := fun _ => Bytes.fill 0
  dir := fun left => 0xc0101000 + left
  inode := fun left => 0xc0102000 + left
  inodeBuf := fun _ => Bytes.fill 0
  before := 0
  name := 0
  name' := 0
  atOne := []
  ioBuf := some 0xc0103000
  newFileInode := some 0xc0104000
  createBuf := Bytes.fill 0

/-- `"/./a"` -/
def dotPath : CString := ⟨[slash, 46, slash, 97], by simp [slash]⟩

/-- The file exists, and is to be created. -/
theorem dirs_closed_iff_create : ∃ t,
    sysOpen .returnsMinusOne zeroEnv oneFileState ⟨none, fun _ => -1⟩ dotPath oCreat =
      .ok (none, t, ⟨none, fun _ => -1⟩) ∧ DirsClosed oneFileState t := by
  obtain ⟨t, ran⟩ : ∃ t, sysOpen .returnsMinusOne zeroEnv oneFileState ⟨none, fun _ => -1⟩
      dotPath oCreat = .ok (none, t, ⟨none, fun _ => -1⟩) := ⟨_, rfl⟩
  refine ⟨t, ran, (dirs_closed_iff oneFileState_sound ran).mpr fun leaves => ?_⟩
  exact absurd leaves.noCreate (by decide)

/-- The file exists, and is only to be opened: the root directory stays open a second time. -/
theorem directory_left_open : ∃ t,
    oneFileState.Sound ∧
    sysOpen .returnsMinusOne zeroEnv oneFileState ⟨none, fun _ => -1⟩ dotPath 0 =
      .ok (none, t, ⟨none, fun _ => -1⟩) ∧
    t.dirs ≠ oneFileState.dirs ∧
    (t.fs.inodeAt 0xc0100000).iOpenCnts ≠ (oneFileState.fs.inodeAt 0xc0100000).iOpenCnts := by
  refine ⟨_, oneFileState_sound, rfl, ?_, ?_⟩
  · decide
  · decide

end Exits

end HongbaiOS.Fs
