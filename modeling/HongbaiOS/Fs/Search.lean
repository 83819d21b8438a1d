import HongbaiOS.Fs.OpenInodes
import HongbaiOS.Fs.Path
import Mathlib.Data.List.Find

/-!
# Searching for a file

`search_file` walks along a path and holds one directory open at a time, which it hands to
its caller.  `Walk` says where a path leads in the directories as they are before the call.
-/

namespace HongbaiOS.Fs

open HongbaiOS.Library HongbaiOS.Kernel HongbaiOS.Device HongbaiOS.Lib

/-- `MAX_PATH_LEN` -/
def maxPathLen : Nat := 512

/-- `struct dir`: where it lies, `none` being `root_dir`, and its inode. -/
structure Dir where
  place : Option Address
  inode : Address
  deriving DecidableEq

/-- The file system with `root_dir.inode` and the live allocations of `struct dir`. -/
structure FsState where
  fs : FileSystem
  rootDir : Address
  dirs : Finset Address

/-- `&root_dir` -/
def FsState.root (s : FsState) : Dir := ⟨none, s.rootDir⟩

/-- What a call of `search_file` finds in memory that it has not written: `dir_e.i_no` and
what lies behind the array `name`; and what `sys_malloc` gives it, for the pass of the loop
that has so many passes before it. -/
structure SearchEnv where
  dirENo : UInt32
  behindName : Nat → List UInt8
  allBlock : Nat → Option (Nat → UInt32)
  buf : Nat → Bytes
  dir : Nat → Address
  inode : Nat → Address
  inodeBuf : Nat → Bytes

/-- `struct path_search_record` -/
structure PathSearchRecord where
  searchedPath : List UInt8
  parentDir : Dir
  fileType : FileType

/-- `-1` as an inode number. -/
def notFound : UInt32 := 0xffffffff

/-- The string at the start of `store`. -/
def cstr (store : List UInt8) : CString where
  chars := store.takeWhile (· ≠ 0)
  noNul := fun c membership => by simpa using List.mem_takeWhile_imp membership

theorem cstr_of_noNul {name : List UInt8} (noNul : ∀ c ∈ name, c ≠ 0) :
    (cstr name).chars = name := by
  refine List.takeWhile_eq_self_iff.mpr fun c inName => ?_
  exact decide_eq_true (noNul c inName)

/-- The string in the array `name` after `path_paser`.  A name that fills the array is not
terminated. -/
def nameRead (name behindName : List UInt8) : CString :=
  cstr (if name.length < maxFileNameLen then name else name ++ behindName)

/-- `strcat(searched_path, src)` -/
def strcatPath (searchedPath src : List UInt8) : Except Halt (List UInt8) :=
  if (searchedPath ++ src).length < maxPathLen then .ok (searchedPath ++ src)
  else .error .outOfBounds

/-- `inode_open(cur_part, inode_no)` -/
def FileSystem.inodeOpen (fs : FileSystem) (inodeNo : UInt32) (found : Address)
    (inodeBuf : Bytes) : Except Halt (Address × FileSystem) :=
  match fs.curPart.openInodes.find? fun a => (fs.inodeAt a).iNo = inodeNo with
  | some a => .ok (a, fs.setCnts a ((fs.inodeAt a).iOpenCnts + 1))
  | none =>
      if found ∉ fs.kernelHeap ∧ found ∉ fs.curPart.openInodes then do
        let inode ← inodeRead fs.curPart inodeNo inodeBuf
        return (found,
          { fs with kernelHeap := insert found fs.kernelHeap }.insertInode found inode)
      else .error .disabled

namespace FsState

/-- `dir_open(cur_part, inode_no)` -/
def dirOpen (s : FsState) (inodeNo : UInt32) (pdir found : Address) (inodeBuf : Bytes) :
    Except Halt (Dir × FsState) :=
  if pdir ∉ s.dirs then do
    let (inode, fs) ← s.fs.inodeOpen inodeNo found inodeBuf
    return (⟨some pdir, inode⟩, { s with fs := fs, dirs := insert pdir s.dirs })
  else .error .disabled

/-- `dir_close(dir)`; the root directory cannot be closed. -/
def dirClose (s : FsState) (dir : Dir) : FsState :=
  match dir.place with
  | none => s
  | some p => { s with fs := s.fs.inodeClose dir.inode, dirs := s.dirs.erase p }

end FsState

/-- The next name, which is empty where no subpath is left. -/
def nextName (subPath : List UInt8) : Except Halt (List UInt8 × List UInt8) :=
  if subPath = [] then .ok ([], []) else pathPaser subPath

/-- The loop of `search_file`; `left` bounds the passes. -/
def searchLoop (env : SearchEnv) : (left : Nat) → FsState → (parentDir : Dir) →
    (parentInodeNo dirENo : UInt32) → (searchedPath name subPath : List UInt8) →
    Except Halt (UInt32 × PathSearchRecord × FsState)
  | 0, _, _, _, _, _, _, _ => .error .disabled
  | left + 1, s, parentDir, parentInodeNo, dirENo, searchedPath, name, subPath =>
      if name = [] then do
        -- the last file is a directory, and its parent is opened for the caller
        let (dir, s) ← (s.dirClose parentDir).dirOpen parentInodeNo (env.dir left)
          (env.inode left) (env.inodeBuf left)
        return (dirENo, ⟨searchedPath, dir, .directory⟩, s)
      else do
        check .searchFile (searchedPath.length < maxPathLen)
        let read := nameRead name (env.behindName left)
        let searchedPath ← strcatPath searchedPath [slash]
        let searchedPath ← strcatPath searchedPath read.chars
        match ← searchDirEntry s.fs.curPart (s.fs.inodeAt parentDir.inode) read
          (env.allBlock left) (env.buf left) with
        | none => return (notFound, ⟨searchedPath, parentDir, .unknown⟩, s)
        | some dirE => do
            let (name, subPath) ← nextName subPath
            if dirE.fType = FileType.directory.code then do
              let parentInodeNo := (s.fs.inodeAt parentDir.inode).iNo
              let (dir, s) ← (s.dirClose parentDir).dirOpen dirE.iNo (env.dir left)
                (env.inode left) (env.inodeBuf left)
              searchLoop env left s dir parentInodeNo dirE.iNo searchedPath name subPath
            else if dirE.fType = FileType.regular.code then
              return (dirE.iNo, ⟨searchedPath, parentDir, .regular⟩, s)
            else searchLoop env left s parentDir parentInodeNo dirE.iNo searchedPath name subPath

/-- `"/"`, `"/."` and `"/.."` -/
def rootNames : List (List UInt8) := [[slash], [slash, 46], [slash, 46, 46]]

instance namesRoot (pathname : List UInt8) : Decidable (pathname ∈ rootNames) :=
  inferInstance

/-- `search_file(pathname, search_record)` with a cleared record. -/
def searchFile (env : SearchEnv) (s : FsState) (pathname : List UInt8) :
    Except Halt (UInt32 × PathSearchRecord × FsState) :=
  if pathname ∈ rootNames then .ok (0, ⟨[], s.root, .directory⟩, s)
  else do
    check .searchFile (pathname.length < maxPathLen)
    let (name, subPath) ← pathPaser pathname
    searchLoop env (pathname.length + 2) s s.root 0 env.dirENo [] name subPath

/-- The inode that opening number `no` gives, apart from its count. -/
def FsState.inodeNamed (s : FsState) (no : UInt32) : Inode :=
  match s.fs.curPart.openInodes.find? fun a => (s.fs.inodeAt a).iNo = no with
  | some a => s.fs.inodeAt a
  | none => Inode.ofBytes (s.fs.curPart.inodeRecord no.toNat)

/-- How far a walk has come: the inode of the directory it has reached, whether that has been
opened on the way, and the path up to there. -/
structure WalkAt where
  inode : Inode
  opened : Bool
  searchedPath : List UInt8

/-- How a walk ends: at a name without an entry, at a regular file, or behind the last
name. -/
inductive WalkEnd where
  | missing
  | regular (iNo : UInt32)
  | directory

def WalkAt.step (here : WalkAt) (read : CString) : WalkAt :=
  { here with searchedPath := here.searchedPath ++ slash :: read.chars }

/-- The walk along `names` through the directories of `s`. -/
inductive Walk (env : SearchEnv) (s : FsState) :
    (left : Nat) → WalkAt → (names : List (List UInt8)) → WalkEnd → WalkAt → Prop
  | directory {left : Nat} {here : WalkAt} : Walk env s left here [] .directory here
  | missing {left : Nat} {here : WalkAt} {name : List UInt8} {names : List (List UInt8)}
      (absent : searchDirEntry s.fs.curPart here.inode (nameRead name (env.behindName left))
        (env.allBlock left) (env.buf left) = .ok none) :
      Walk env s (left + 1) here (name :: names) .missing
        (here.step (nameRead name (env.behindName left)))
  | regular {left : Nat} {here : WalkAt} {name : List UInt8} {names : List (List UInt8)}
      {dirE : DirEntry}
      (found : searchDirEntry s.fs.curPart here.inode (nameRead name (env.behindName left))
        (env.allBlock left) (env.buf left) = .ok (some dirE))
      (isRegular : dirE.fType = FileType.regular.code) :
      Walk env s (left + 1) here (name :: names) (.regular dirE.iNo)
        (here.step (nameRead name (env.behindName left)))
  | enter {left : Nat} {here there : WalkAt} {name : List UInt8} {names : List (List UInt8)}
      {dirE : DirEntry} {last : WalkEnd}
      (found : searchDirEntry s.fs.curPart here.inode (nameRead name (env.behindName left))
        (env.allBlock left) (env.buf left) = .ok (some dirE))
      (isDirectory : dirE.fType = FileType.directory.code)
      (next : Walk env s left { here.step (nameRead name (env.behindName left)) with
        inode := s.inodeNamed dirE.iNo, opened := true } names last there) :
      Walk env s (left + 1) here (name :: names) last there
  | pass {left : Nat} {here there : WalkAt} {name : List UInt8} {names : List (List UInt8)}
      {dirE : DirEntry} {last : WalkEnd}
      (found : searchDirEntry s.fs.curPart here.inode (nameRead name (env.behindName left))
        (env.allBlock left) (env.buf left) = .ok (some dirE))
      (neither : dirE.fType ≠ FileType.directory.code ∧ dirE.fType ≠ FileType.regular.code)
      (next : Walk env s left (here.step (nameRead name (env.behindName left))) names last
        there) :
      Walk env s (left + 1) here (name :: names) last there

/-- The walk along a path from the root directory. -/
def FsState.PathLeads (s : FsState) (env : SearchEnv) (pathname : List UInt8) : WalkEnd →
    WalkAt → Prop :=
  Walk env s (pathname.length + 2) ⟨s.fs.inodeAt s.rootDir, false, []⟩ (components pathname)

section Walks

variable {env : SearchEnv} {s : FsState}

/-- A path leads to one place only. -/
theorem Walk.unique {left : Nat} {here there there' : WalkAt} {names : List (List UInt8)}
    {last last' : WalkEnd} (walk : Walk env s left here names last there)
    (walk' : Walk env s left here names last' there') : last = last' ∧ there = there' := by
  induction walk with
  | directory =>
      cases walk'
      exact ⟨rfl, rfl⟩
  | missing absent =>
      cases walk' with
      | missing => exact ⟨rfl, rfl⟩
      | regular found => cases absent.symm.trans found
      | enter found => cases absent.symm.trans found
      | pass found => cases absent.symm.trans found
  | regular found isRegular =>
      cases walk' with
      | missing absent => cases absent.symm.trans found
      | regular found' =>
          cases found.symm.trans found'
          exact ⟨rfl, rfl⟩
      | enter found' isDirectory =>
          cases found.symm.trans found'
          cases isRegular.symm.trans isDirectory
      | pass found' neither =>
          cases found.symm.trans found'
          exact absurd isRegular neither.2
  | enter found isDirectory _ inductionHypothesis =>
      cases walk' with
      | missing absent => cases absent.symm.trans found
      | regular found' isRegular =>
          cases found.symm.trans found'
          cases isRegular.symm.trans isDirectory
      | enter found' _ next =>
          cases found.symm.trans found'
          exact inductionHypothesis next
      | pass found' neither =>
          cases found.symm.trans found'
          exact absurd isDirectory neither.1
  | pass found neither _ inductionHypothesis =>
      cases walk' with
      | missing absent => cases absent.symm.trans found
      | regular found' isRegular =>
          cases found.symm.trans found'
          exact absurd isRegular neither.2
      | enter found' isDirectory =>
          cases found.symm.trans found'
          exact absurd isDirectory neither.1
      | pass found' _ next =>
          cases found.symm.trans found'
          exact inductionHypothesis next

theorem Walk.opened {left : Nat} {here there : WalkAt} {names : List (List UInt8)}
    {last : WalkEnd} (walk : Walk env s left here names last there) (isOpen : here.opened) :
    there.opened := by
  induction walk with
  | directory => exact isOpen
  | missing => exact isOpen
  | regular => exact isOpen
  | enter _ _ _ inductionHypothesis => exact inductionHypothesis rfl
  | pass _ _ _ inductionHypothesis => exact inductionHypothesis isOpen

end Walks

/-- A mounted partition whose root directory is open; the inodes on the list are in use. -/
structure FsState.Sound (s : FsState) : Prop where
  mounted : s.fs.curPart.Mounted
  rootListed : s.rootDir ∈ s.fs.curPart.openInodes
  used : ∀ a ∈ s.fs.curPart.openInodes, (s.fs.inodeAt a).iOpenCnts ≠ 0

/-- The two states differ in nothing but memory of inodes that are not on the list. -/
structure SameOpen (s t : FsState) : Prop where
  curPart : t.fs.curPart = s.fs.curPart
  fileTable : t.fs.fileTable = s.fs.fileTable
  kernelHeap : t.fs.kernelHeap = s.fs.kernelHeap
  rootDir : t.rootDir = s.rootDir
  dirs : t.dirs = s.dirs
  inodes : ∀ a ∈ s.fs.curPart.openInodes, t.fs.inodeAt a = s.fs.inodeAt a

theorem SameOpen.refl (s : FsState) : SameOpen s s :=
  ⟨rfl, rfl, rfl, rfl, rfl, fun _ _ => rfl⟩

/-- `dir` is the one directory that has been opened since `s`, or the root directory. -/
inductive Holding (s : FsState) : Dir → FsState → Prop
  | root {t : FsState} (same : SameOpen s t) : Holding s s.root t
  /-- Its inode was on the list. -/
  | hit {t : FsState} {p a : Address} (same : SameOpen s t) (fresh : p ∉ s.dirs)
      (listed : a ∈ s.fs.curPart.openInodes) :
      Holding s ⟨some p, a⟩ { t with
        fs := t.fs.setCnts a ((t.fs.inodeAt a).iOpenCnts + 1), dirs := insert p t.dirs }
  /-- Its inode has been read from the disk. -/
  | miss {t : FsState} {p a : Address} (inode : Inode) (same : SameOpen s t) (fresh : p ∉ s.dirs)
      (notLive : a ∉ s.fs.kernelHeap) (unlisted : a ∉ s.fs.curPart.openInodes) :
      Holding s ⟨some p, a⟩ { t with
        fs := { t.fs with kernelHeap := insert a t.fs.kernelHeap }.insertInode a inode
        dirs := insert p t.dirs }

section Holding

variable {s t t' : FsState} {dir : Dir}

/-- Closing a directory undoes opening it. -/
theorem Holding.dirClose (holding : Holding s dir t) (sound : s.Sound) :
    SameOpen s (t.dirClose dir) := by
  cases holding with
  | root same => exact same
  | hit same fresh listed =>
      rename_i t p a
      have count : (t.fs.inodeAt a).iOpenCnts + 1 - 1 = (s.fs.inodeAt a).iOpenCnts := by
        rw [same.inodes a listed, UInt32.add_sub_cancel]
      have closed : (t.fs.setCnts a ((t.fs.inodeAt a).iOpenCnts + 1)).inodeClose a =
          (t.fs.setCnts a ((t.fs.inodeAt a).iOpenCnts + 1)).setCnts a
            (s.fs.inodeAt a).iOpenCnts := by
        rw [FileSystem.inodeClose, setCnts_self, count]
        exact if_neg (sound.used a listed)
      refine ⟨?_, ?_, ?_, same.rootDir, ?_, fun b inList => ?_⟩
      · simp only [FsState.dirClose, closed]
        exact same.curPart
      · simp only [FsState.dirClose, closed]
        exact same.fileTable
      · simp only [FsState.dirClose, closed]
        exact same.kernelHeap
      · change (insert p t.dirs).erase p = s.dirs
        rw [same.dirs, Finset.erase_insert fresh]
      · simp only [FsState.dirClose, closed]
        by_cases here : b = a
        · subst here
          have old := same.inodes b inList
          simp only [FileSystem.setCnts, FileSystem.setInode_inodeAt, Function.update_self, old]
        · rw [setCnts_of_ne here, setCnts_of_ne here]
          exact same.inodes b inList
  | miss inode same fresh notLive unlisted =>
      rename_i t p a
      have closed : ((({ t.fs with kernelHeap := insert a t.fs.kernelHeap } :
          FileSystem).insertInode a inode).inodeAt a).iOpenCnts - 1 = 0 := by
        rw [FileSystem.insertInode_inodeAt, Function.update_self]
        exact UInt32.sub_self 1
      refine ⟨?_, ?_, ?_, same.rootDir, ?_, fun b inList => ?_⟩
      · simp only [FsState.dirClose, FileSystem.inodeClose, closed, if_true]
        simp only [setCnts_curPart, FileSystem.insertInode_curPart, same.curPart]
        simp [Partition.setOpenInodes]
      · simp only [FsState.dirClose, FileSystem.inodeClose, closed, if_true]
        exact same.fileTable
      · simp only [FsState.dirClose, FileSystem.inodeClose, closed, if_true]
        change (insert a t.fs.kernelHeap).erase a = s.fs.kernelHeap
        rw [same.kernelHeap, Finset.erase_insert notLive]
      · change (insert p t.dirs).erase p = s.dirs
        rw [same.dirs, Finset.erase_insert fresh]
      · have other : b ≠ a := ne_of_mem_of_not_mem inList unlisted
        simp only [FsState.dirClose, FileSystem.inodeClose, closed, if_true]
        rw [setCnts_of_ne other, FileSystem.insertInode_inodeAt, Function.update_of_ne other]
        exact same.inodes b inList

theorem inodeRead_eq_ok {part : Partition} (mounted : part.Mounted) {inodeNo : UInt32}
    {inodeBuf : Bytes} {inode : Inode} (ran : inodeRead part inodeNo inodeBuf = .ok inode) :
    inode = Inode.ofBytes (part.inodeRecord inodeNo.toNat) := by
  by_cases small : inodeNo < 4096
  · rw [inodeRead_eq mounted small] at ran
    exact (Except.ok.inj ran).symm
  · obtain ⟨_, located, -⟩ := except_bind_eq_ok.mp ran
    obtain ⟨_, inTable, -⟩ := except_bind_eq_ok.mp located
    exact absurd (of_decide_eq_true (check_eq_ok.mp inTable)) small

/-- Two inodes differ in nothing but the count of their opens. -/
def Inode.SameRecord (inode inode' : Inode) : Prop :=
  { inode with iOpenCnts := 0 } = { inode' with iOpenCnts := 0 }

theorem Inode.SameRecord.iSectors {inode inode' : Inode} (same : inode.SameRecord inode') :
    inode.iSectors = inode'.iSectors := by
  unfold SameRecord at same
  injection same

theorem SameOpen.dirOpen (same : SameOpen s t) (sound : s.Sound) {no : UInt32}
    {p found : Address} {inodeBuf : Bytes}
    (ran : t.dirOpen no p found inodeBuf = .ok (dir, t')) :
    Holding s dir t' ∧ dir.place = some p ∧
      (t'.fs.inodeAt dir.inode).SameRecord (s.inodeNamed no) := by
  unfold FsState.dirOpen at ran
  split at ran
  next fresh =>
    rw [same.dirs] at fresh
    obtain ⟨⟨a, fs⟩, opened, result⟩ := except_bind_eq_ok.mp ran
    cases result
    have sameFind : t.fs.curPart.openInodes.find? (fun a => (t.fs.inodeAt a).iNo = no) =
        s.fs.curPart.openInodes.find? (fun a => (s.fs.inodeAt a).iNo = no) := by
      rw [same.curPart]
      exact List.find?_congr fun b inList => by rw [same.inodes b inList]
    rw [FileSystem.inodeOpen, sameFind] at opened
    rw [FsState.inodeNamed]
    cases lookedUp : s.fs.curPart.openInodes.find? (fun a => (s.fs.inodeAt a).iNo = no) with
    | some b =>
        rw [lookedUp] at opened
        cases opened
        have listed := List.mem_of_find?_eq_some lookedUp
        refine ⟨.hit same fresh listed, rfl, ?_⟩
        have old := same.inodes a listed
        simp only [Inode.SameRecord, FileSystem.setCnts, FileSystem.setInode_inodeAt,
          Function.update_self, old]
    | none =>
        rw [lookedUp] at opened
        simp only at opened
        split at opened
        next free =>
          obtain ⟨inode, read, result⟩ := except_bind_eq_ok.mp opened
          cases result
          rw [same.kernelHeap, same.curPart] at free
          rw [same.curPart] at read
          refine ⟨.miss inode same fresh free.1 free.2, rfl, ?_⟩
          rw [Inode.SameRecord, FileSystem.insertInode_inodeAt, Function.update_self,
            inodeRead_eq_ok sound.mounted read]
        next => cases opened
  next => cases ran

/-- Holding a directory leaves the disk and the partition as they are. -/
theorem Holding.curPart (holding : Holding s dir t) :
    t.fs.curPart = s.fs.curPart.setOpenInodes t.fs.curPart.openInodes := by
  cases holding with
  | root same => rw [same.curPart]; rfl
  | hit same => rw [setCnts_curPart, same.curPart]; rfl
  | miss inode same => rw [FileSystem.insertInode_curPart, same.curPart]; rfl

theorem searchDirEntry_congr {part part' : Partition} {inode inode' : Inode} (name : CString)
    (allBlock : Option (Nat → UInt32)) (buf : Bytes) (sameDisk : part'.myDisk = part.myDisk)
    (sameSb : part'.sb = part.sb) (same : inode'.iSectors = inode.iSectors) :
    searchDirEntry part' inode' name allBlock buf =
      searchDirEntry part inode name allBlock buf := by
  have sameBlocks : inode'.directBlocks = inode.directBlocks := by
    unfold Inode.directBlocks
    rw [same]
  simp only [searchDirEntry, sameBlocks, same, sameDisk, sameSb]

theorem Holding.search (holding : Holding s dir t) {inode : Inode}
    (reads : (t.fs.inodeAt dir.inode).iSectors = inode.iSectors) (name : CString)
    (allBlock : Option (Nat → UInt32)) (buf : Bytes) :
    searchDirEntry t.fs.curPart (t.fs.inodeAt dir.inode) name allBlock buf =
      searchDirEntry s.fs.curPart inode name allBlock buf := by
  refine searchDirEntry_congr name allBlock buf ?_ ?_ reads
  · rw [holding.curPart]
    rfl
  · rw [holding.curPart]
    rfl

/-- The names still to be searched: the one in the array and those in the rest of the
path. -/
def namesLeft (name subPath : List UInt8) : List (List UInt8) :=
  if name = [] then [] else name :: components subPath

theorem namesLeft_parsed {path name subPath : List UInt8}
    (ran : pathPaser path = .ok (name, subPath)) : namesLeft name subPath = components path := by
  obtain ⟨-, -, ⟨rfl, -, none⟩ | ⟨some, first, -⟩⟩ := pathPaser_eq_ok ran
  · rw [namesLeft, if_pos rfl, none]
  · rw [namesLeft, if_neg some, first]

theorem namesLeft_next {path name subPath : List UInt8}
    (ran : nextName path = .ok (name, subPath)) : namesLeft name subPath = components path := by
  unfold nextName at ran
  split at ran
  next atEnd =>
    cases ran
    rw [atEnd]
    rfl
  next => exact namesLeft_parsed ran

/-- The record and the number that `search_file` gives back for each end of the walk. -/
structure WalkEnd.Recorded (last : WalkEnd) (iNo : UInt32) (record : PathSearchRecord) (s : FsState)
    (there : WalkAt) (t : FsState) : Prop where
  outcome : match last with
    | .missing => iNo = notFound ∧ record.fileType = .unknown
    | .regular number => iNo = number ∧ record.fileType = .regular
    | .directory => record.fileType = .directory
  holding : Holding s record.parentDir t
  atEnd : last ≠ .directory → record.searchedPath = there.searchedPath ∧
    (record.parentDir.place = none ↔ there.opened = false) ∧
    (t.fs.inodeAt record.parentDir.inode).iSectors = there.inode.iSectors

theorem searchLoop_walk {env : SearchEnv} {left : Nat} (here : WalkAt)
    {parentInodeNo dirENo iNo : UInt32} {name subPath : List UInt8} {record : PathSearchRecord}
    (sound : s.Sound) (holding : Holding s dir t)
    (isRoot : dir.place = none ↔ here.opened = false)
    (reads : (t.fs.inodeAt dir.inode).SameRecord here.inode)
    (ran : searchLoop env left t dir parentInodeNo dirENo here.searchedPath name subPath =
      .ok (iNo, record, t')) :
    ∃ last there, Walk env s left here (namesLeft name subPath) last there ∧
      last.Recorded iNo record s there t' ∧
      (last ≠ .directory → (t'.fs.inodeAt record.parentDir.inode).SameRecord there.inode) := by
  induction left generalizing t dir here parentInodeNo dirENo name subPath with
  | zero => cases ran
  | succ left inductionHypothesis =>
      rw [searchLoop] at ran
      split at ran
      next none =>
        obtain ⟨⟨dir', t''⟩, opened, result⟩ := except_bind_eq_ok.mp ran
        cases result
        refine ⟨.directory, here, by rw [namesLeft, if_pos none]; exact .directory, ?_⟩
        exact ⟨⟨rfl, ((holding.dirClose sound).dirOpen sound opened).1,
          fun wrong => absurd rfl wrong⟩, fun wrong => absurd rfl wrong⟩
      next some =>
        obtain ⟨_, -, ran⟩ := except_bind_eq_ok.mp ran
        obtain ⟨path, slashed, ran⟩ := except_bind_eq_ok.mp ran
        obtain ⟨path', named, ran⟩ := except_bind_eq_ok.mp ran
        have extended : path' = here.searchedPath ++
            slash :: (nameRead name (env.behindName left)).chars := by
          unfold strcatPath at slashed named
          split at slashed
          next =>
            cases slashed
            split at named
            next =>
              cases named
              rw [List.append_assoc]
              rfl
            next => cases named
          next => cases slashed
        subst extended
        obtain ⟨result, searched, ran⟩ := except_bind_eq_ok.mp ran
        rw [holding.search reads.iSectors] at searched
        rw [namesLeft, if_neg some]
        cases result with
        | none =>
            cases ran
            exact ⟨_, _, .missing searched, ⟨⟨rfl, rfl⟩, holding,
              fun _ => ⟨rfl, isRoot, reads.iSectors⟩⟩, fun _ => reads⟩
        | some dirE =>
            obtain ⟨⟨name', subPath'⟩, parsed, ran⟩ := except_bind_eq_ok.mp ran
            have rest := namesLeft_next parsed
            simp only at ran
            split at ran
            next isDirectory =>
              obtain ⟨⟨dir', t''⟩, opened, ran⟩ := except_bind_eq_ok.mp ran
              obtain ⟨holding', place, reads'⟩ := (holding.dirClose sound).dirOpen sound opened
              obtain ⟨last, there, walk, recorded⟩ := inductionHypothesis
                ⟨s.inodeNamed dirE.iNo, true, _⟩ holding'
                (iff_of_false (by rw [place]; exact Option.some_ne_none _) (by simp)) reads' ran
              rw [rest] at walk
              exact ⟨last, there, .enter searched isDirectory walk, recorded⟩
            next notDirectory =>
              split at ran
              next isRegular =>
                cases ran
                exact ⟨_, _, .regular searched isRegular, ⟨⟨rfl, rfl⟩, holding,
                  fun _ => ⟨rfl, isRoot, reads.iSectors⟩⟩, fun _ => reads⟩
              next notRegular =>
                obtain ⟨last, there, walk, recorded⟩ := inductionHypothesis
                  (here.step (nameRead name (env.behindName left))) holding isRoot reads ran
                rw [rest] at walk
                exact ⟨last, there, .pass searched ⟨notDirectory, notRegular⟩ walk, recorded⟩

theorem searchFile_walk_record {env : SearchEnv} {pathname : List UInt8} {iNo : UInt32}
    {record : PathSearchRecord} (sound : s.Sound)
    (ran : searchFile env s pathname = .ok (iNo, record, t)) :
    (pathname ∈ rootNames ∧ record.fileType = .directory ∧ Holding s record.parentDir t) ∨
      ∃ last there, s.PathLeads env pathname last there ∧ last.Recorded iNo record s there t ∧
        (last ≠ .directory → (t.fs.inodeAt record.parentDir.inode).SameRecord there.inode) := by
  unfold searchFile at ran
  split at ran
  next isRoot =>
    cases ran
    exact Or.inl ⟨isRoot, rfl, .root (.refl s)⟩
  next =>
    obtain ⟨_, -, ran⟩ := except_bind_eq_ok.mp ran
    obtain ⟨⟨name, subPath⟩, parsed, ran⟩ := except_bind_eq_ok.mp ran
    rw [FsState.PathLeads, ← namesLeft_parsed parsed]
    exact Or.inr (searchLoop_walk ⟨s.fs.inodeAt s.rootDir, false, []⟩ sound
      (.root (.refl s)) (iff_of_true rfl rfl) rfl ran)

theorem searchFile_walk {env : SearchEnv} {pathname : List UInt8} {iNo : UInt32}
    {record : PathSearchRecord} (sound : s.Sound)
    (ran : searchFile env s pathname = .ok (iNo, record, t)) :
    (pathname ∈ rootNames ∧ record.fileType = .directory ∧ Holding s record.parentDir t) ∨
      ∃ last there, s.PathLeads env pathname last there ∧ last.Recorded iNo record s there t := by
  rcases searchFile_walk_record sound ran with isRoot | ⟨last, there, leads, recorded, -⟩
  · exact Or.inl isRoot
  · exact Or.inr ⟨last, there, leads, recorded⟩

end Holding

end HongbaiOS.Fs
