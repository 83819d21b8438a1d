import HongbaiOS.Fs.Open
import HongbaiOS.Fs.SlotSearch

/-!
# The file that `sys_open` creates

`sys_open` names the new file by what stands behind the last slash of the path, and
`search_file` looks for the last of the names that `path_paser` takes off the path.
-/

namespace HongbaiOS.Fs

open HongbaiOS.Library HongbaiOS.Kernel HongbaiOS.Device HongbaiOS.Lib

/-- `"."` and `".."` -/
def dotNames : List (List UInt8) := [[46], [46, 46]]

namespace FsState

/-- `root_dir.inode` -/
def rootInode (s : FsState) : Inode := s.fs.inodeAt s.rootDir

/-- The root directory is open as inode 0, and its first block starts with `"."` and `".."`. -/
structure RootOpen (s : FsState) : Prop extends s.Sound where
  number : s.fs.curPart.openInodes.find? (fun a => (s.fs.inodeAt a).iNo = 0) = some s.rootDir
  pointers : ∀ k, (s.rootInode.iSectors k).toNat ≤ maxLba
  block : s.rootInode.iSectors 0 ≠ 0
  dot : SlotHolds s.fs.curPart.myDisk (s.rootInode.iSectors 0) 0 dotEntry
  dotDot : SlotHolds s.fs.curPart.myDisk (s.rootInode.iSectors 0) 1 dotDotEntry

end FsState

/-- What `sys_malloc` gives: memory, and no `struct dir` that is in use. -/
structure SearchEnv.Fits (env : SearchEnv) (dirs : Finset Address) : Prop where
  given : ∀ n, env.allBlock n ≠ none
  fresh : ∀ n, env.dir n ∉ dirs

/-- The path that has been searched up to the last of `names`. -/
def joined (names : List (List UInt8)) : List UInt8 := names.flatMap (slash :: ·)

section Names

variable {name path : List UInt8}

theorem nameRead_of_short (short : name.length < maxFileNameLen) (noNul : ∀ c ∈ name, c ≠ 0)
    (behindName : List UInt8) : (nameRead name behindName).chars = name := by
  rw [nameRead, if_pos short, cstr_of_noNul noNul]

theorem dotNames_short (isDot : name ∈ dotNames) : name.length < maxFileNameLen ∧ name ≠ [] ∧
    ∀ c ∈ name, c ≠ 0 ∧ isSlash c = false := by
  simp only [dotNames, List.mem_cons, List.not_mem_nil, or_false] at isDot
  rcases isDot with rfl | rfl <;> simp [maxFileNameLen, isSlash, slash]

theorem length_joined (names : List (List UInt8)) :
    (joined names).length = (names.map fun name => name.length + 1).sum := by
  rw [joined, List.length_flatMap]
  rfl

theorem length_joined_lt {front : List (List UInt8)} {last : List UInt8}
    (cut : components path = front ++ [last]) : (joined front).length ≤ path.length ∧
      (joined front).length + last.length ≤ path.length := by
  have bound : ((components path).map fun name => name.length + 1).sum ≤ _ :=
    sum_length_pieces_le path
  rw [cut, List.map_append, List.sum_append, ← length_joined] at bound
  simp only [List.map_cons, List.map_nil, List.sum_cons, List.sum_nil] at bound
  omega

theorem length_le_joined (names : List (List UInt8)) : names.length ≤ (joined names).length := by
  induction names with
  | nil => exact Nat.zero_le _
  | cons name names inductionHypothesis =>
      rw [joined, List.flatMap_cons, ← joined, List.length_append, List.length_cons,
        List.length_cons]
      omega

theorem joined_append (front : List (List UInt8)) (name : List UInt8) :
    joined (front ++ [name]) = joined front ++ slash :: name := by
  rw [joined, List.flatMap_append]
  simp [joined]

end Names

section Root

variable {s t : FsState} {dir : Dir}

theorem directBlocks_zero (inode : Inode) (rest : Nat → UInt32) :
    inode.directBlocks rest 0 = inode.iSectors 0 := dif_pos (by decide)

theorem FsState.RootOpen.search_dot (rootOpen : s.RootOpen) {name : CString}
    (isDot : name.chars ∈ dotNames) (junk : Nat → UInt32) (buf : Bytes) :
    ∃ dirE, searchDirEntry s.fs.curPart s.rootInode name (some junk) buf = .ok (some dirE) ∧
      dirE.iNo = 0 ∧ dirE.fType = FileType.directory.code := by
  have short : strlen name < maxFileNameLen := (dotNames_short isDot).1
  have terminated : dotEntry.Terminated ∧ dotDotEntry.Terminated := by decide
  have found : ∀ idx < 21,
      (∀ j < idx, ¬ SlotNamed s.fs.curPart.myDisk (s.rootInode.iSectors 0) j name) →
      SlotNamed s.fs.curPart.myDisk (s.rootInode.iSectors 0) idx name →
      searchDirEntry s.fs.curPart s.rootInode name (some junk) buf = .ok (some (DirEntry.ofBytes
        (slot (s.fs.curPart.myDisk.window (512 * (s.rootInode.iSectors 0).toNat)) idx))) :=
    fun idx inBlock before here => searchDirEntry_found rootOpen.mounted (rootOpen.pointers 12)
      short junk (by decide) (directBlocks_zero s.rootInode _)
      (fun i earlier => absurd earlier (Nat.not_lt_zero i)) rootOpen.block (rootOpen.pointers 0)
      inBlock before here buf
  simp only [dotNames, List.mem_cons, List.not_mem_nil, or_false] at isDot
  rcases isDot with isDot | isDotDot
  · refine ⟨_, found 0 (by decide) (fun j earlier => absurd earlier (Nat.not_lt_zero j)) ?_, ?_⟩
    · rw [rootOpen.dot.slotNamed_iff terminated.1, isDot]
      decide
    · rw [ofBytes_dirEntry_congr rootOpen.dot, DirEntry.ofBytes_bytes]
      exact ⟨rfl, rfl⟩
  · refine ⟨_, found 1 (by decide) (fun j earlier => ?_) ?_, ?_⟩
    · obtain rfl : j = 0 := by omega
      rw [rootOpen.dot.slotNamed_iff terminated.1, isDotDot]
      decide
    · rw [rootOpen.dotDot.slotNamed_iff terminated.2, isDotDot]
      decide
    · rw [ofBytes_dirEntry_congr rootOpen.dotDot, DirEntry.ofBytes_bytes]
      exact ⟨rfl, rfl⟩

/-- The root directory keeps its blocks when it is opened again. -/
theorem Holding.rootSectors (holding : Holding s dir t) (sound : s.Sound)
    (isRoot : dir.inode = s.rootDir) :
    (t.fs.inodeAt dir.inode).iSectors = s.rootInode.iSectors := by
  cases holding with
  | root same =>
      rw [FsState.rootInode, ← same.inodes _ sound.rootListed]
      rfl
  | hit same fresh listed =>
      rw [FsState.rootInode, ← isRoot, ← same.inodes _ listed]
      simp [FileSystem.setCnts]
  | miss inode same fresh notLive unlisted =>
      subst isRoot
      exact absurd sound.rootListed unlisted

theorem SameOpen.dirOpen_root (same : SameOpen s t) (rootOpen : s.RootOpen) {p : Address}
    (fresh : p ∉ s.dirs) (found : Address) (inodeBuf : Bytes) :
    ∃ t', t.dirOpen 0 p found inodeBuf = .ok (⟨some p, s.rootDir⟩, t') ∧
      Holding s ⟨some p, s.rootDir⟩ t' := by
  have lookedUp : t.fs.curPart.openInodes.find? (fun a => (t.fs.inodeAt a).iNo = 0) =
      some s.rootDir := by
    rw [same.curPart, ← rootOpen.number]
    exact List.find?_congr fun b inList => by rw [same.inodes b inList]
  have fresh' : p ∉ t.dirs := by
    rw [same.dirs]
    exact fresh
  rw [FsState.dirOpen, if_pos fresh', FileSystem.inodeOpen, lookedUp]
  exact ⟨_, rfl, .hit same fresh rootOpen.rootListed⟩

end Root

section Walking

variable {s t : FsState} {dir : Dir} {env : SearchEnv} {path name subPath last : List UInt8}
  {front : List (List UInt8)}

/-- A search that has come, through the root directory, to the last name of the path. -/
structure AtLast (env : SearchEnv) (s : FsState) (searchedPath last : List UInt8)
    (result : Except Halt (UInt32 × PathSearchRecord × FsState)) : Prop where
  reached : ∃ left t dir parentInodeNo dirENo subPath, Holding s dir t ∧ dir.inode = s.rootDir ∧
    namesLeft last subPath = [last] ∧
    result = searchLoop env (left + 1) t dir parentInodeNo dirENo searchedPath last subPath

theorem strcatPath_of_room {searchedPath src : List UInt8}
    (room : (searchedPath ++ src).length < maxPathLen) :
    strcatPath searchedPath src = .ok (searchedPath ++ src) := if_pos room

theorem nextName_of_short (subPath : List UInt8)
    (short : ∀ c ∈ components subPath, c.length ≤ maxFileNameLen) :
    ∃ name rest, nextName subPath = .ok (name, rest) ∧
      namesLeft name rest = components subPath := by
  by_cases none : subPath = []
  · refine ⟨[], [], if_pos none, ?_⟩
    rw [none]
    rfl
  · obtain ⟨name, rest, parsed⟩ := pathPaser_of_short short
    exact ⟨name, rest, (if_neg none).trans parsed, namesLeft_parsed parsed⟩

theorem searchLoop_dots (rootOpen : s.RootOpen) (fits : env.Fits s.dirs)
    (dots : ∀ c ∈ front, c ∈ dotNames) (some : last ≠ []) (short : last.length ≤ maxFileNameLen)
    {left : Nat} {parentInodeNo dirENo : UInt32} {searchedPath : List UInt8}
    (holding : Holding s dir t) (isRoot : dir.inode = s.rootDir)
    (names : namesLeft name subPath = front ++ [last]) (enough : front.length < left)
    (room : (searchedPath ++ joined front).length < maxPathLen) :
    AtLast env s (searchedPath ++ joined front) last
      (searchLoop env left t dir parentInodeNo dirENo searchedPath name subPath) := by
  induction front generalizing left t dir parentInodeNo dirENo searchedPath name subPath with
  | nil =>
      obtain ⟨left, rfl⟩ := Nat.exists_eq_succ_of_ne_zero (Nat.ne_of_gt enough)
      have isLast : name = last := by
        unfold namesLeft at names
        split at names
        next => cases names
        next => exact (List.cons.inj names).1
      subst isLast
      rw [joined, List.flatMap_nil, List.append_nil]
      exact ⟨left, t, dir, _, _, subPath, holding, isRoot, names, rfl⟩
  | cons c front inductionHypothesis =>
      obtain ⟨left, rfl⟩ := Nat.exists_eq_succ_of_ne_zero (Nat.ne_of_gt (Nat.zero_lt_of_lt enough))
      rw [List.forall_mem_cons] at dots
      obtain ⟨isShort, nonempty, clean⟩ := dotNames_short dots.1
      obtain ⟨rfl, rest⟩ : name = c ∧ components subPath = front ++ [last] := by
        unfold namesLeft at names
        split at names
        next => cases names
        next => exact List.cons.inj names
      have isRead := nameRead_of_short isShort (fun b inName => (clean b inName).1)
        (env.behindName left)
      have extended : searchedPath ++ joined (name :: front) =
          searchedPath ++ [slash] ++ name ++ joined front := by
        rw [joined, List.flatMap_cons, ← joined]
        simp
      rw [extended] at room ⊢
      have room' := room
      simp only [List.length_append] at room'
      obtain ⟨junk, given⟩ := Option.ne_none_iff_exists'.mp (fits.given left)
      obtain ⟨dirE, found, isZero, isDirectory⟩ := rootOpen.search_dot
        (by rw [isRead]; exact dots.1) junk (env.buf left)
      obtain ⟨name', subPath', parsed, names'⟩ := nextName_of_short subPath (by
        rw [rest]
        intro d inRest
        rcases List.mem_append.mp inRest with inFront | isLast
        · exact Nat.le_of_lt (dotNames_short (dots.2 d inFront)).1
        · rwa [List.mem_singleton.mp isLast])
      obtain ⟨t', opened, holding'⟩ := (holding.dirClose rootOpen.toSound).dirOpen_root rootOpen
        (fits.fresh left) (env.inode left) (env.inodeBuf left)
      rw [searchLoop, if_neg nonempty, decide_eq_true (by omega), check_true, ok_bind,
        strcatPath_of_room (by simp only [List.length_append]; omega), ok_bind, isRead,
        strcatPath_of_room (by simp only [List.length_append]; omega), ok_bind,
        holding.search (holding.rootSectors rootOpen.toSound isRoot), given, found, ok_bind]
      simp only [parsed, ok_bind, isDirectory, if_true, isZero, opened]
      exact inductionHypothesis dots.2 holding' rfl (names'.trans rest) (by
        simp only [List.length_cons] at enough
        omega) room

theorem searchFile_dots (rootOpen : s.RootOpen) (fits : env.Fits s.dirs)
    (cut : components path = front ++ [last]) (dots : ∀ c ∈ front, c ∈ dotNames)
    (notRoot : path ∉ rootNames) (pathShort : path.length < maxPathLen)
    (short : last.length ≤ maxFileNameLen) :
    AtLast env s (joined front) last (searchFile env s path) := by
  have some : last ≠ [] := mem_components (by rw [cut]; exact List.mem_append_right _ (by simp))
  have allShort : ∀ c ∈ components path, c.length ≤ maxFileNameLen := by
    intro c inPath
    rw [cut] at inPath
    rcases List.mem_append.mp inPath with inFront | isLast
    · exact Nat.le_of_lt (dotNames_short (dots c inFront)).1
    · rwa [List.mem_singleton.mp isLast]
  obtain ⟨name, subPath, parsed⟩ := pathPaser_of_short allShort
  have length := (length_joined_lt cut).1
  have count := length_le_joined front
  rw [searchFile, if_neg notRoot, decide_eq_true pathShort, check_true, ok_bind, parsed, ok_bind]
  have walked : AtLast env s ([] ++ joined front) last
      (searchLoop env (path.length + 2) s s.root 0 env.dirENo [] name subPath) := by
    refine searchLoop_dots rootOpen fits dots some short (.root (.refl s)) rfl
      ((namesLeft_parsed parsed).trans cut) ?_ ?_
    · omega
    · rw [List.nil_append]
      omega
  exact walked

theorem namesLeft_last (names : namesLeft last subPath = [last]) :
    last ≠ [] ∧ components subPath = [] := by
  unfold namesLeft at names
  split at names
  next => cases names
  next some => exact ⟨some, (List.cons.inj names).2⟩

theorem nextName_last (names : namesLeft last subPath = [last]) :
    ∃ rest, nextName subPath = .ok ([], rest) := by
  obtain ⟨name, rest, parsed, left⟩ := nextName_of_short subPath (by
    rw [(namesLeft_last names).2]
    simp)
  rw [(namesLeft_last names).2, namesLeft] at left
  split at left
  next none => exact ⟨rest, by rw [parsed, none]⟩
  next => cases left

theorem searchLoop_nil {left : Nat} {parentInodeNo dirENo iNo : UInt32}
    {searchedPath : List UInt8} {record : PathSearchRecord} {t' : FsState}
    (ran : searchLoop env left t dir parentInodeNo dirENo searchedPath [] subPath =
      .ok (iNo, record, t')) : record.fileType = .directory := by
  cases left with
  | zero => cases ran
  | succ left =>
      rw [searchLoop, if_pos rfl] at ran
      obtain ⟨⟨dir', t''⟩, -, result⟩ := except_bind_eq_ok.mp ran
      cases result
      rfl

theorem searchLoop_room {left : Nat} {parentInodeNo dirENo : UInt32} {searchedPath : List UInt8}
    {r : UInt32 × PathSearchRecord × FsState} (some : name ≠ [])
    (ran : searchLoop env (left + 1) t dir parentInodeNo dirENo searchedPath name subPath =
      .ok r) :
    (searchedPath ++ slash :: (nameRead name (env.behindName left)).chars).length <
      maxPathLen := by
  rw [searchLoop, if_neg some] at ran
  obtain ⟨_, -, ran⟩ := except_bind_eq_ok.mp ran
  obtain ⟨path, slashed, ran⟩ := except_bind_eq_ok.mp ran
  obtain ⟨path', named, -⟩ := except_bind_eq_ok.mp ran
  unfold strcatPath at slashed named
  split at slashed
  next =>
    cases slashed
    split at named
    next fits =>
      rw [List.append_assoc] at fits
      exact fits
    next => cases named
  next => cases slashed

theorem AtLast.regular {searchedPath : List UInt8}
    {result : Except Halt (UInt32 × PathSearchRecord × FsState)} {entry : DirEntry}
    (atLast : AtLast env s searchedPath last result) (rootOpen : s.RootOpen)
    (fits : env.Fits s.dirs) (short : last.length < maxFileNameLen) (noNul : ∀ c ∈ last, c ≠ 0)
    (room : (searchedPath ++ slash :: last).length < maxPathLen)
    (found : ∀ name : CString, name.chars = last → ∀ junk buf,
      searchDirEntry s.fs.curPart s.rootInode name (some junk) buf = .ok (some entry))
    (isRegular : entry.fType = FileType.regular.code) :
    ∃ record t, result = .ok (entry.iNo, record, t) ∧ record.fileType = .regular ∧
      record.searchedPath = searchedPath ++ slash :: last := by
  obtain ⟨left, t, dir, parentInodeNo, dirENo, subPath, holding, isRoot, names, rfl⟩ :=
    atLast.reached
  obtain ⟨rest, parsed⟩ := nextName_last names
  obtain ⟨junk, given⟩ := Option.ne_none_iff_exists'.mp (fits.given left)
  have isRead := nameRead_of_short short noNul (env.behindName left)
  have notDirectory : entry.fType ≠ FileType.directory.code := by
    rw [isRegular]
    decide
  have room' := room
  simp only [List.length_append, List.length_cons] at room'
  rw [searchLoop, if_neg (namesLeft_last names).1, decide_eq_true (by omega), check_true, ok_bind,
    strcatPath_of_room (by simp only [List.length_append, List.length_singleton]; omega), ok_bind,
    isRead, strcatPath_of_room (by
      simp only [List.length_append, List.length_singleton]
      omega), ok_bind, holding.search (holding.rootSectors rootOpen.toSound isRoot), given,
    found _ isRead, ok_bind]
  simp only [parsed, ok_bind, if_neg notDirectory, if_pos isRegular]
  refine ⟨_, _, rfl, rfl, ?_⟩
  rw [List.append_assoc]
  rfl

theorem AtLast.overflow {searchedPath : List UInt8}
    {result : Except Halt (UInt32 × PathSearchRecord × FsState)}
    (atLast : AtLast env s searchedPath last result) (long : last.length = maxFileNameLen)
    (noNul : ∀ c ∈ last, c ≠ 0)
    (behind : ∀ n, env.behindName n = List.replicate maxPathLen 1) :
    ∃ reason, result = .error reason := by
  obtain ⟨left, t, dir, parentInodeNo, dirENo, subPath, -, -, names, rfl⟩ := atLast.reached
  have isRead : (nameRead last (env.behindName left)).chars =
      last ++ List.replicate maxPathLen 1 := by
    rw [nameRead, if_neg (by omega), behind]
    apply cstr_of_noNul
    intro c inRead
    rcases List.mem_append.mp inRead with inName | inRest
    · exact noNul c inName
    · rw [List.eq_of_mem_replicate inRest]
      decide
  cases ran : searchLoop env (left + 1) t dir parentInodeNo dirENo searchedPath last subPath with
  | error reason => exact ⟨reason, rfl⟩
  | ok r =>
      have room := searchLoop_room (namesLeft_last names).1 ran
      simp only [isRead, List.length_append, List.length_cons, List.length_replicate] at room
      omega

theorem AtLast.ends {searchedPath : List UInt8} {iNo : UInt32} {record : PathSearchRecord}
    {t' : FsState} {result : Except Halt (UInt32 × PathSearchRecord × FsState)}
    (atLast : AtLast env s searchedPath last result) (rootOpen : s.RootOpen)
    (fits : env.Fits s.dirs) (ran : result = .ok (iNo, record, t'))
    (notDirectory : record.fileType ≠ .directory) :
    Holding s record.parentDir t' ∧ record.parentDir.inode = s.rootDir ∧
      ∃ left junk buf result,
        (searchedPath ++ slash :: (nameRead last (env.behindName left)).chars).length <
          maxPathLen ∧
        searchDirEntry s.fs.curPart s.rootInode (nameRead last (env.behindName left)) (some junk)
          buf = .ok result ∧
        ∀ entry ∈ result, iNo = entry.iNo := by
  obtain ⟨left, t, dir, parentInodeNo, dirENo, subPath, holding, isRoot, names, rfl⟩ :=
    atLast.reached
  obtain ⟨rest, parsed⟩ := nextName_last names
  obtain ⟨junk, given⟩ := Option.ne_none_iff_exists'.mp (fits.given left)
  have room := searchLoop_room (namesLeft_last names).1 ran
  rw [searchLoop, if_neg (namesLeft_last names).1] at ran
  obtain ⟨_, -, ran⟩ := except_bind_eq_ok.mp ran
  obtain ⟨path, -, ran⟩ := except_bind_eq_ok.mp ran
  obtain ⟨path', -, ran⟩ := except_bind_eq_ok.mp ran
  obtain ⟨result, searched, ran⟩ := except_bind_eq_ok.mp ran
  rw [holding.search (holding.rootSectors rootOpen.toSound isRoot), given] at searched
  cases result with
  | none =>
      cases ran
      exact ⟨holding, isRoot, left, junk, _, none, room, searched, by simp⟩
  | some entry =>
      simp only [parsed, ok_bind] at ran
      split at ran
      next =>
        obtain ⟨⟨dir', t''⟩, -, ran⟩ := except_bind_eq_ok.mp ran
        exact absurd (searchLoop_nil ran) notDirectory
      next =>
        split at ran
        next =>
          cases ran
          exact ⟨holding, isRoot, left, junk, _, some entry, room, searched, by simp⟩
        next => exact absurd (searchLoop_nil ran) notDirectory

end Walking

/-- A root directory in which files can be created: its entries have inode numbers, number 0
is taken, and the inode bitmap ends before the data area. -/
structure FsState.RootReady (s : FsState) : Prop extends s.RootOpen where
  numbers : ∀ k < 12, s.rootInode.directBlocks (fun _ => 0) k ≠ 0 → ∀ idx < 21,
    (DirEntry.ofBytes (slot (s.fs.curPart.myDisk.window
      (512 * (s.rootInode.directBlocks (fun _ => 0) k).toNat)) idx)).iNo ≠ notFound
  rootNumber : s.fs.curPart.inodeBitmap.bit 0 = true
  fewSects : s.fs.curPart.sb.blockBitmapSects.toNat ≤ 609

section Create

variable {s t : FsState} {dir : Dir} {task task' : FileTask} {fs' : FileSystem} {fd : Nat}

theorem pcbFdInstall_eq_some {fdIdx : Nat} (installed : (pcbFdInstall task fdIdx).1 = some fd) :
    (pcbFdInstall task fdIdx).2.fdTable fd = Int32.ofNat fdIdx := by
  unfold pcbFdInstall at *
  cases found : localSlotFrom task.fdTable (maxFilesOpenPerProc - 3) 3 with
  | none =>
      rw [found] at installed
      cases installed
  | some slot =>
      rw [found] at installed
      cases installed
      exact Function.update_self ..

/-- Closing the root directory restores its count and changes nothing else. -/
structure RootClosed (s : FsState) (fs' : FileSystem) (u : FsState) : Prop where
  curPart : u.fs.curPart = fs'.curPart
  fileTable : u.fs.fileTable = fs'.fileTable
  rootDir : u.rootDir = s.rootDir
  dirs : u.dirs = s.dirs
  inodes : ∀ a ≠ s.rootDir, u.fs.inodeAt a = fs'.inodeAt a
  root : u.fs.inodeAt s.rootDir =
    { fs'.inodeAt s.rootDir with iOpenCnts := (s.fs.inodeAt s.rootDir).iOpenCnts }

theorem Holding.closeRoot (holding : Holding s dir t) (sound : s.Sound)
    (isRoot : dir.inode = s.rootDir)
    (sameCount : (fs'.inodeAt s.rootDir).iOpenCnts = (t.fs.inodeAt s.rootDir).iOpenCnts) :
    RootClosed s fs' ({ t with fs := fs' }.dirClose dir) := by
  cases holding with
  | root same =>
      rw [same.inodes _ sound.rootListed] at sameCount
      refine ⟨rfl, rfl, same.rootDir, same.dirs, fun a _ => rfl, ?_⟩
      rw [← sameCount]
      rfl
  | hit same fresh listed =>
      rename_i t p a
      subst isRoot
      rw [setCnts_self, same.inodes _ listed] at sameCount
      have back : (fs'.inodeAt s.rootDir).iOpenCnts - 1 =
          (s.fs.inodeAt s.rootDir).iOpenCnts := by
        rw [sameCount, UInt32.add_sub_cancel]
      have closed : fs'.inodeClose s.rootDir =
          fs'.setCnts s.rootDir (s.fs.inodeAt s.rootDir).iOpenCnts := by
        rw [FileSystem.inodeClose, back]
        exact if_neg (sound.used _ listed)
      refine ⟨?_, ?_, same.rootDir, ?_, fun b other => ?_, ?_⟩
      · simp only [FsState.dirClose, closed, setCnts_curPart]
      · simp only [FsState.dirClose, closed]
        rfl
      · change (insert p t.dirs).erase p = s.dirs
        rw [same.dirs, Finset.erase_insert fresh]
      · simp only [FsState.dirClose, closed]
        exact setCnts_of_ne other
      · simp only [FsState.dirClose, closed]
        exact Function.update_self ..
  | miss inode same fresh notLive unlisted =>
      subst isRoot
      exact absurd sound.rootListed unlisted

theorem Holding.samePart (holding : Holding s dir t) (sound : s.Sound)
    (isRoot : dir.inode = s.rootDir) : t.fs.curPart = s.fs.curPart := by
  cases holding with
  | root same => exact same.curPart
  | hit same => exact same.curPart
  | miss inode same fresh notLive unlisted =>
      subst isRoot
      exact absurd sound.rootListed unlisted

/-- What a call that has created a file leaves: the root directory with one more entry, and
a descriptor that leads to the inode of the file. -/
structure Created (s u : FsState) (task : FileTask) (filename : CString) (fd : Nat)
    (iNo : UInt32) : Prop where
  root : u.RootOpen
  dirs : u.dirs = s.dirs
  number : iNo ≠ notFound
  entry : ∃ entry lba, createDirEntry filename iNo .regular ⟨fun _ => 0, 0, 0⟩ = .ok entry ∧
    Inserted s.fs.curPart s.rootInode entry u.fs.curPart u.rootInode lba
  descriptor : ∃ fdIdx q, task.fdTable fd = Int32.ofNat fdIdx ∧
    (u.fs.fileTable fdIdx).fdInode = some q ∧ q ∈ u.fs.curPart.openInodes ∧
    (u.fs.inodeAt q).iNo = iNo

theorem FsState.RootReady.newNumber (ready : s.RootReady) {iNo : Nat}
    (inside : iNo < s.fs.curPart.inodeBitmap.bitLen)
    (free : s.fs.curPart.inodeBitmap.bit iNo = false) :
    UInt32.ofNat iNo ≠ 0 ∧ UInt32.ofNat iNo ≠ notFound := by
  have mapLen := ready.mounted.inodeBitmapLen
  have few := ready.fewSects
  rw [Bitmap.bitLen, mapLen] at inside
  have value : (UInt32.ofNat iNo).toNat = iNo := UInt32.toNat_ofNat_of_lt' (by
    change iNo < 4294967296
    omega)
  constructor
  · intro zero
    rw [zero] at value
    have isZero : iNo = 0 := value.symm
    rw [isZero, ready.rootNumber] at free
    cases free
  · intro minusOne
    rw [minusOne, notFound] at value
    change 4294967295 = iNo at value
    omega

theorem SyncDone.keepsFirst {part part' last : Partition} {inode inode' : Inode}
    {entry old : DirEntry} (done : SyncDone part inode entry true inode' part')
    (mounted : part.Mounted) (taken : DirectTaken part inode) (after : SameData part' last)
    (block : inode.iSectors 0 ≠ 0) {idx : Nat} (inBlock : idx < 21)
    (holds : SlotHolds part.myDisk (inode.iSectors 0) idx old) :
    inode'.iSectors 0 = inode.iSectors 0 ∧
      SlotHolds last.myDisk (inode.iSectors 0) idx old := by
  have pointer := directBlocks_zero inode fun _ => 0
  have sameSb := (done.mounted mounted).2.1
  obtain ⟨same, kept⟩ := done.keepsDirect mounted taken (by decide : 0 < 12)
  have firstTaken := taken 0 (by decide) (by rwa [pointer])
  rw [pointer] at kept same firstTaken
  rw [directBlocks_zero] at same
  refine ⟨same, holds.kept inBlock ((kept block).trans (after.sector _ ?_))⟩
  rw [sameSb]
  exact firstTaken.inData mounted

/-- Taking a number changes neither the blocks nor their bitmap. -/
theorem Inserted.unnumbered {part last : Partition} {inode inode' : Inode} {entry : DirEntry}
    {n : Nat} {lba : UInt32}
    (inserted : Inserted (numberedPart part n) inode entry last inode' lba) :
    Inserted part inode entry last inode' lba :=
  ⟨inserted.toTableHolds, inserted.unused, inserted.before⟩

theorem DirectTaken.numbered {part : Partition} {inode inode₂ : Inode}
    (taken : DirectTaken part inode) (same : inode₂.iSectors = inode.iSectors) (n : Nat) :
    DirectTaken (numberedPart part n) inode₂ := by
  have blocks : inode₂.directBlocks = inode.directBlocks := by
    unfold Inode.directBlocks
    rw [same]
  intro i direct used
  rw [blocks] at used ⊢
  exact taken i direct used

/-- The inode of a file has come to the head of the list, the root directory has the block
numbers of `dirInode`, and the other inodes keep their numbers and counts. -/
structure RootGrown (s u : FsState) (q : Address) (iNo : UInt32) (dirInode : Inode) : Prop where
  rootDir : u.rootDir = s.rootDir
  list : u.fs.curPart.openInodes = q :: s.fs.curPart.openInodes
  root : u.rootInode.iSectors = dirInode.iSectors
  newInode : u.fs.inodeAt q = { inodeInit iNo with iOpenCnts := 1 }
  old : ∀ a ∈ s.fs.curPart.openInodes, (u.fs.inodeAt a).iNo = (s.fs.inodeAt a).iNo ∧
    (u.fs.inodeAt a).iOpenCnts = (s.fs.inodeAt a).iOpenCnts

theorem RootGrown.rootOpen {u : FsState} {q : Address} {iNo : UInt32} {dirInode : Inode}
    (grown : RootGrown s u q iNo dirInode) (rootOpen : s.RootOpen)
    (mounted : u.fs.curPart.Mounted) (notZero : iNo ≠ 0)
    (pointers : ∀ k, (dirInode.iSectors k).toNat ≤ maxLba) (block : dirInode.iSectors 0 ≠ 0)
    (dot : SlotHolds u.fs.curPart.myDisk (dirInode.iSectors 0) 0 dotEntry)
    (dotDot : SlotHolds u.fs.curPart.myDisk (dirInode.iSectors 0) 1 dotDotEntry) :
    u.RootOpen := by
  refine ⟨⟨mounted, ?_, ?_⟩, ?_, ?_, ?_, ?_, ?_⟩
  · rw [grown.rootDir, grown.list]
    exact List.mem_cons_of_mem q rootOpen.rootListed
  · intro a listed
    rw [grown.list] at listed
    rcases List.mem_cons.mp listed with rfl | old
    · rw [grown.newInode]
      exact (by decide : (1 : UInt32) ≠ 0)
    · rw [(grown.old a old).2]
      exact rootOpen.used a old
  · rw [grown.list, List.find?_cons_of_neg (by
      rw [grown.newInode]
      exact fun same => notZero (of_decide_eq_true same)),
      grown.rootDir, ← rootOpen.number]
    exact List.find?_congr fun a old => by rw [(grown.old a old).1]
  · rw [grown.root]
    exact pointers
  · rw [grown.root]
    exact block
  · rw [grown.root]
    exact dot
  · rw [grown.root]
    exact dotDot

/-- Closing the root directory after a commit. -/
theorem RootClosed.grown {u : FsState} {q : Address} {iNo : UInt32} {part' part : Partition}
    {entry : DirEntry} {dirInode : Inode} {installed : Bool} (closed : RootClosed s fs' u)
    (sound : s.Sound) (holding : Holding s dir t) (isRoot : dir.inode = s.rootDir)
    (fresh : q ∉ s.fs.curPart.openInodes)
    (done : SyncDone part (t.fs.inodeAt s.rootDir) entry installed dirInode part')
    (list : fs'.curPart.openInodes = q :: s.fs.curPart.openInodes)
    (parent : fs'.inodeAt s.rootDir = dirInode)
    (file : fs'.inodeAt q = { inodeInit iNo with iOpenCnts := 1 })
    (others : ∀ a, a ≠ s.rootDir → a ≠ q → fs'.inodeAt a = t.fs.inodeAt a) :
    RootGrown s u q iNo dirInode := by
  have notRoot : q ≠ s.rootDir := by
    rintro rfl
    exact fresh sound.rootListed
  refine ⟨closed.rootDir, closed.curPart ▸ list, ?_, (closed.inodes q notRoot).trans file,
    fun a listed => ?_⟩
  · rw [FsState.rootInode, closed.rootDir, closed.root, parent]
  · obtain ⟨-, number, count⟩ := (holding.closable sound).inodes a listed
    by_cases here : a = s.rootDir
    · rw [here, closed.root, parent]
      exact ⟨done.sameCounts.1.trans (here ▸ number), rfl⟩
    · have notNew : a ≠ q := ne_of_mem_of_not_mem listed fresh
      rw [if_neg fun both => here (both.2.trans isRoot)] at count
      rw [closed.inodes a here, others a here notNew]
      exact ⟨number, count⟩

theorem created_of_done {filename : CString} {ioBuf newFileInode : Option Address}
    (ready : s.RootReady) (taken : DirectTaken s.fs.curPart s.rootInode)
    (holding : Holding s dir t) (isRoot : dir.inode = s.rootDir)
    (fresh : ∀ q ∈ newFileInode, q ∉ t.fs.curPart.openInodes)
    (done : CreateDone task t.fs s.rootDir filename ioBuf newFileInode (some fd) fs' task') :
    ∃ iNo, Created s ({ t with fs := fs' }.dirClose dir) task' filename fd iNo := by
  have sound := ready.toSound
  have samePart := holding.samePart sound isRoot
  have sectors : (t.fs.inodeAt s.rootDir).iSectors = s.rootInode.iSectors :=
    isRoot ▸ holding.rootSectors sound isRoot
  generalize isFd : some fd = installed at done
  cases done with
  | early => cases isFd
  | refused => cases isFd
  | committed reaches newInode inside free named done part parent file others table =>
      rename_i q iNo fdIdx entry dirInode part'
      rw [samePart] at inside free done fresh
      obtain ⟨notZero, notMinusOne⟩ := ready.newNumber inside free
      have mounted : (numberedPart s.fs.curPart iNo).Mounted := sound.mounted.setInodeBitmap rfl
      obtain ⟨mounted', sameSb, sameMap, sameOpen⟩ := done.mounted mounted
      have taken' := taken.numbered sectors iNo
      have inside' : iNo < part'.inodeBitmap.bitLen := by
        rw [sameMap]
        exact inside
      have fewSects : part'.sb.blockBitmapSects.toNat ≤ 609 := by
        rw [sameSb]
        exact ready.fewSects
      have after : SameData part' fs'.curPart := by
        rw [part]
        exact ⟨(commitPart_mounted _ _ mounted').setOpenInodes _, fun lba inData =>
          commitPart_data _ _ mounted' inside' fewSects inData⟩
      have closed : RootClosed s fs' ({ t with fs := fs' }.dirClose dir) := by
        refine holding.closeRoot sound isRoot ?_
        rw [parent]
        exact done.sameCounts.2
      generalize { t with fs := fs' }.dirClose dir = u at closed
      have list : fs'.curPart.openInodes = q :: s.fs.curPart.openInodes := by
        rw [part]
        exact congrArg (q :: ·) sameOpen
      have grown := closed.grown sound holding isRoot (fresh _ newInode) done list parent file
        others
      have block : (t.fs.inodeAt s.rootDir).iSectors 0 ≠ 0 := by
        rw [sectors]
        exact ready.block
      have first := done.keepsFirst mounted taken' after block (by decide : 0 < 21)
        (by rw [sectors]; exact ready.dot)
      have second := done.keepsFirst mounted taken' after block (by decide : 1 < 21)
        (by rw [sectors]; exact ready.dotDot)
      have addressed : ∀ k, ((t.fs.inodeAt s.rootDir).iSectors k).toNat ≤ maxLba := by
        rw [sectors]
        exact ready.pointers
      refine ⟨UInt32.ofNat iNo, ⟨?_, closed.dirs, notMinusOne, ?_, ?_⟩⟩
      · refine grown.rootOpen ready.toRootOpen ?_ notZero (done.pointers mounted addressed)
          ?_ ?_ ?_
        · rw [closed.curPart]
          exact after.mounted
        · rw [first.1]
          exact block
        · rw [first.1, closed.curPart]
          exact first.2
        · rw [first.1, closed.curPart]
          exact second.2
      · obtain ⟨lba, inserted⟩ := done.inserted mounted taken' after
        refine ⟨entry, lba, named, ?_⟩
        rw [closed.curPart]
        exact (inserted.congr sectors.symm grown.root).unnumbered
      · refine ⟨fdIdx, q, pcbFdInstall_eq_some isFd.symm, ?_, ?_, ?_⟩
        · rw [closed.fileTable, table, Function.update_self]
        · rw [grown.list]
          exact List.mem_cons_self
        · rw [grown.newInode]
          rfl

end Create

/-- The file is there under the last name of the path: the entry written carries that name
and stands in a slot that was not in use, `search_file` finds the inode, the descriptor leads to
it, and the file cannot be created again. -/
structure FileCreated (full : FullScan) (env : OpenEnv) (s u : FsState) (task : FileTask)
    (path : CString) (fd : Nat) (iNo : UInt32) : Prop where
  entry : ∃ entry lba idx,
    createDirEntry (createdName env.atOne path.chars) iNo .regular ⟨fun _ => 0, 0, 0⟩ =
      .ok entry ∧
    entry.name.chars = lastComponent path.chars ∧
    NewSlot s.fs.curPart u.fs.curPart u.rootInode lba idx ∧
    SlotHolds u.fs.curPart.myDisk lba idx entry
  searched : ∀ senv : SearchEnv, senv.Fits u.dirs → ∃ record t,
    searchFile senv u path.chars = .ok (iNo, record, t) ∧ record.fileType = .regular
  descriptor : ∃ fdIdx q, task.fdTable fd = Int32.ofNat fdIdx ∧
    (u.fs.fileTable fdIdx).fdInode = some q ∧ q ∈ u.fs.curPart.openInodes ∧
    (u.fs.inodeAt q).iNo = iNo
  again : ∀ (env' : OpenEnv) (flags : UInt8) (task' : FileTask), env'.toSearchEnv.Fits u.dirs →
    flags ≤ 7 → flags &&& oCreat ≠ 0 →
    ∃ t, sysOpen full env' u task' path flags = .ok (none, t, task')

section Views

variable {full : FullScan} {env : OpenEnv} {s u : FsState} {task task' : FileTask}
  {path : CString} {flags : UInt8} {fd : Nat}

theorem cString_ext {a b : CString} (same : a.chars = b.chars) : a = b := by
  cases a
  cases b
  cases same
  rfl

/-- A call that has created a file has come to `file_create` with the directory that
`search_file` holds. -/
theorem sysOpen_some (create : flags &&& oCreat ≠ 0)
    (ran : sysOpen full env s task path flags = .ok (some fd, u, task')) :
    path.chars.getLast?.getD env.before ≠ slash ∧
    (∃ depth, pathDepthCnt env.name path.chars = .ok depth) ∧
    ∃ record t fs', searchFile env.toSearchEnv s path.chars = .ok (notFound, record, t) ∧
      record.fileType ≠ .directory ∧
      (∀ q ∈ env.newFileInode, q ∉ t.fs.kernelHeap ∧ q ∉ t.fs.curPart.openInodes) ∧
      fileCreate full task record.parentDir.inode (createdName env.atOne path.chars) env.ioBuf
        env.newFileInode env.createBuf t.fs = .ok (some fd, fs', task') ∧
      u = { t with fs := fs' }.dirClose record.parentDir := by
  unfold sysOpen at ran
  split at ran
  next => cases ran
  next noSlash =>
    obtain ⟨_, -, ran⟩ := except_bind_eq_ok.mp ran
    obtain ⟨depth, counted, ran⟩ := except_bind_eq_ok.mp ran
    obtain ⟨⟨iNo, record, t⟩, searched, ran⟩ := except_bind_eq_ok.mp ran
    simp only at ran
    split at ran
    next => cases ran
    next notDirectory =>
      obtain ⟨searchDepth, -, ran⟩ := except_bind_eq_ok.mp ran
      split at ran
      next => cases ran
      next =>
        rw [openOrCreate, if_neg fun both => create both.2] at ran
        split at ran
        next => cases ran
        next notTwice =>
          split at ran
          next fresh =>
            obtain ⟨⟨fd', fs', task''⟩, created, result⟩ := except_bind_eq_ok.mp ran
            cases result
            have isMissing : iNo = notFound := by simpa [create] using notTwice
            subst isMissing
            exact ⟨noSlash, ⟨depth, counted⟩, record, t, fs', searched, notDirectory, fresh,
              created, rfl⟩
          next => cases ran

theorem createDirEntry_name {filename : CString} {iNo : UInt32} {entry : DirEntry}
    (named : createDirEntry filename iNo .regular ⟨fun _ => 0, 0, 0⟩ = .ok entry) :
    entry.name.chars = filename.chars ∧ entry.iNo = iNo ∧
      entry.fType = FileType.regular.code ∧
      (strlen filename < maxFileNameLen → entry.Terminated) := by
  obtain ⟨_, fits, result⟩ := except_bind_eq_ok.mp named
  have short : filename.chars.length ≤ 16 := of_decide_eq_true (check_eq_ok.mp fits)
  cases result
  have isName : (List.ofFn fun k : Fin 16 => if inside : k.val < filename.chars.length then
      filename.chars.get ⟨k, inside⟩ else 0) =
      filename.chars ++ List.replicate (16 - filename.chars.length) 0 := by
    apply List.ext_getElem
    · simp
      omega
    · intro i inside inside'
      simp only [List.getElem_ofFn, List.getElem_append, List.getElem_replicate]
      split
      next => rfl
      next => rfl
  have chars : (DirEntry.name ⟨fun k : Fin 16 => if inside : k.val < filename.chars.length then
      filename.chars.get ⟨k, inside⟩ else 0, iNo, FileType.regular.code⟩).chars =
      filename.chars := by
    change List.takeWhile _ (List.ofFn _) = _
    rw [isName, List.takeWhile_append_of_pos fun c inName =>
      decide_eq_true (filename.noNul c inName)]
    cases 16 - filename.chars.length with
    | zero => simp
    | succ n => simp [List.replicate_succ]
  refine ⟨chars, rfl, rfl, fun room => ?_⟩
  have room' : filename.chars.length < 16 := room
  rw [DirEntry.Terminated, chars, DirEntry.bytes, dif_pos room']
  exact dif_neg (lt_irrefl _)

/-- What is known of a path for which a file has been created. -/
structure PathCut (s : FsState) (path : CString) (front : List (List UInt8)) : Prop where
  cut : components path.chars = front ++ [lastComponent path.chars]
  noSlash : ∀ before, path.chars.getLast?.getD before ≠ slash
  notRoot : path.chars ∉ rootNames
  pathShort : path.chars.length < maxPathLen
  fits : (lastComponent path.chars).length ≤ maxFileNameLen
  /-- A name that leaves room for a NUL was looked up as it is, and was not there. -/
  missed : (lastComponent path.chars).length < maxFileNameLen →
    (joined front ++ slash :: lastComponent path.chars).length < maxPathLen ∧
    ∀ name : CString, name.chars = lastComponent path.chars → ∀ i < 12,
      BlockLacks s.fs.curPart.myDisk (s.rootInode.directBlocks (fun _ => 0) i) name

theorem lastComponent_noNul (path : CString) : ∀ c ∈ lastComponent path.chars, c ≠ 0 := by
  intro c inLast
  refine path.noNul c ?_
  by_cases inPath : slash ∈ path.chars
  · obtain ⟨x, w, same, none⟩ := exists_last_slash inPath
    rw [same, lastComponent_append x none] at inLast
    rw [same]
    exact List.mem_append_right x (List.mem_cons_of_mem slash inLast)
  · rwa [lastComponent_of_none inPath] at inLast

/-- The file gets the last component for its name if that stands behind a slash, or at
address 1. -/
theorem createdName_iff {atOne : List UInt8} :
    (createdName atOne path.chars).chars = lastComponent path.chars ↔
      slash ∈ path.chars ∨ (cstr atOne).chars = path.chars := by
  unfold createdName
  by_cases inPath : slash ∈ path.chars
  · rw [strrchr_slash inPath]
    exact iff_of_true (cstr_of_noNul (lastComponent_noNul path)) (Or.inl inPath)
  · rw [strrchr_of_none inPath, lastComponent_of_none inPath]
    exact ⟨Or.inr, fun named => named.resolve_left inPath⟩

theorem FsState.RootReady.lacks (ready : s.RootReady) {name : CString} {junk : Nat → UInt32}
    {buf : Bytes} {result : Option DirEntry} (short : strlen name < maxFileNameLen)
    (ran : searchDirEntry s.fs.curPart s.rootInode name (some junk) buf = .ok result)
    (missing : ∀ entry ∈ result, notFound = entry.iNo) {i : Nat} (direct : i < 12) :
    BlockLacks s.fs.curPart.myDisk (s.rootInode.directBlocks (fun _ => 0) i) name := by
  obtain ⟨rest, ran⟩ := searchDirEntry_eq_ok ready.mounted ran
  rw [← directBlocks_of_lt s.rootInode rest (fun _ => 0) direct]
  refine searchBlocks_passed short ran (fun k _ direct idx inBlock used found => ?_)
    (Nat.zero_le i) direct (by omega)
  rw [directBlocks_of_lt s.rootInode rest (fun _ => 0) direct] at used found
  exact ready.numbers k direct used idx inBlock (missing _ found).symm

theorem sysOpen_created (ready : s.RootReady) (fits : env.toSearchEnv.Fits s.dirs)
    (dots : ∀ c ∈ (components path.chars).dropLast, c ∈ dotNames)
    (taken : DirectTaken s.fs.curPart s.rootInode) (create : flags &&& oCreat ≠ 0)
    (ran : sysOpen full env s task path flags = .ok (some fd, u, task')) :
    ∃ front iNo, (∀ c ∈ front, c ∈ dotNames) ∧ PathCut s path front ∧
      Created s u task' (createdName env.atOne path.chars) fd iNo := by
  obtain ⟨noSlash, ⟨depth, counted⟩, record, t, fs', searched, notDirectory, fresh, created, rfl⟩ :=
    sysOpen_some create ran
  have notRoot : path.chars ∉ rootNames := by
    intro isRoot
    rw [searchFile, if_pos isRoot] at searched
    cases searched
  have pathShort : path.chars.length < maxPathLen := by
    rw [searchFile, if_neg notRoot] at searched
    obtain ⟨_, short, -⟩ := except_bind_eq_ok.mp searched
    exact of_decide_eq_true (check_eq_ok.mp short)
  have nonempty : path.chars ≠ [] := by
    intro none
    rw [none] at searched
    obtain ⟨_, -, ran⟩ := except_bind_eq_ok.mp searched
    exact notDirectory (searchLoop_nil ran)
  rw [List.getLast?_eq_some_getLast nonempty, Option.getD_some] at noSlash
  obtain ⟨some, front, cut⟩ := components_last nonempty noSlash
  have dots' : ∀ c ∈ front, c ∈ dotNames := by
    rw [cut, List.dropLast_concat] at dots
    exact dots
  have notEmpty : components path.chars ≠ [] := by
    rw [cut]
    simp
  have short : (lastComponent path.chars).length ≤ maxFileNameLen :=
    ((pathDepthCnt_eq_ok _ notEmpty).mp counted).1 _ (by rw [cut]; simp)
  have atLast := searchFile_dots ready.toRootOpen fits cut dots' notRoot pathShort short
  obtain ⟨holding, isRoot, left, junk, buf, result, room, looked, missing⟩ :=
    atLast.ends ready.toRootOpen fits searched notDirectory
  have mounted : t.fs.curPart.Mounted := by
    rw [holding.curPart]
    exact ready.mounted.setOpenInodes _
  have listed := (holding.closable ready.toSound).listed
  have done := fileCreate_done mounted (fun same => (fresh _ same).2 listed) created
  rw [isRoot] at done
  obtain ⟨iNo, wrote⟩ := created_of_done ready taken holding isRoot
    (fun q given => (fresh q given).2) done
  refine ⟨front, iNo, dots', ⟨cut, fun before => ?_, notRoot, pathShort, short, fun room' => ?_⟩,
    wrote⟩
  · rw [List.getLast?_eq_some_getLast nonempty, Option.getD_some]
    exact noSlash
  · have isRead := nameRead_of_short room' (lastComponent_noNul path)
      (env.toSearchEnv.behindName left)
    rw [isRead] at room
    refine ⟨room, fun name same i direct => ?_⟩
    have isName : name = nameRead (lastComponent path.chars) (env.toSearchEnv.behindName left) :=
      cString_ext (same.trans isRead.symm)
    rw [← isName] at looked
    exact ready.lacks (by rw [strlen, same]; exact room') looked missing direct

theorem components_joined {names : List (List UInt8)}
    (inPath : ∀ c ∈ names, c ∈ components path.chars) : components (joined names) = names :=
  pieces_flatMap (by decide) fun c inNames => ⟨mem_components (inPath c inNames),
    fun a inName => (mem_of_mem_pieces (inPath c inNames) a inName).2⟩

theorem Created.searchFile {filename : CString} {iNo : UInt32} {front : List (List UInt8)}
    (created : Created s u task filename fd iNo) (isCut : PathCut s path front)
    (dots : ∀ c ∈ front, c ∈ dotNames) (named : filename.chars = lastComponent path.chars)
    (short : (lastComponent path.chars).length < maxFileNameLen) {senv : SearchEnv}
    (fits : senv.Fits u.dirs) : ∃ record t,
      Fs.searchFile senv u path.chars = .ok (iNo, record, t) ∧ record.fileType = .regular ∧
      record.searchedPath = joined (front ++ [lastComponent path.chars]) := by
  obtain ⟨room, lacks⟩ := isCut.missed short
  obtain ⟨entry, lba, made, inserted⟩ := created.entry
  obtain ⟨isName, rfl, isRegular, terminated⟩ := createDirEntry_name made
  have atLast := searchFile_dots created.root fits isCut.cut dots isCut.notRoot
    isCut.pathShort isCut.fits
  rw [joined_append]
  refine atLast.regular created.root fits short (lastComponent_noNul path) room
    (fun name same junk buf => ?_) isRegular
  refine inserted.found created.root.mounted (terminated ?_) ?_ ?_ (lacks name same) junk buf
  · rwa [strlen, named]
  · rw [isName, named, same]
  · rwa [strlen, same]

/-- With a path through `"."` and `".."` only, and the blocks of the root directory marked in
the bitmap: the views of the path agree exactly if the path has a slash, or stands at address 1
as well, and its last component leaves room for a NUL. -/
theorem created_iff (ready : s.RootReady) (fits : env.toSearchEnv.Fits s.dirs)
    (dots : ∀ c ∈ (components path.chars).dropLast, c ∈ dotNames)
    (taken : DirectTaken s.fs.curPart s.rootInode) (create : flags &&& oCreat ≠ 0)
    (ran : sysOpen full env s task path flags = .ok (some fd, u, task')) :
    (∃ iNo, FileCreated full env s u task' path fd iNo) ↔
      (slash ∈ path.chars ∨ (cstr env.atOne).chars = path.chars) ∧
        (lastComponent path.chars).length < maxFileNameLen := by
  rw [← createdName_iff]
  obtain ⟨front, iNo, dots', isCut, created⟩ :=
    sysOpen_created ready fits dots taken create ran
  constructor
  · rintro ⟨iNo', file⟩
    obtain ⟨entry, lba, idx, made, isLast, -⟩ := file.entry
    have isName := (createDirEntry_name made).1
    refine ⟨isName.symm.trans isLast, Nat.lt_of_le_of_ne isCut.fits fun long => ?_⟩
    -- with other bytes behind the name the search does not come back
    obtain ⟨p, fresh⟩ := Infinite.exists_notMem_finset u.dirs
    have fits' : SearchEnv.Fits { env.toSearchEnv with
        behindName := fun _ => List.replicate maxPathLen 1
        allBlock := fun _ => some fun _ => 0
        dir := fun _ => p } u.dirs := ⟨fun _ => Option.some_ne_none _, fun _ => fresh⟩
    have atLast := searchFile_dots created.root fits' isCut.cut dots' isCut.notRoot
      isCut.pathShort isCut.fits
    obtain ⟨reason, stops⟩ := atLast.overflow long (lastComponent_noNul path) fun _ => rfl
    obtain ⟨record, t, found, -⟩ := file.searched _ fits'
    cases stops.symm.trans found
  · rintro ⟨named, short⟩
    have searched := fun {senv : SearchEnv} (fits' : senv.Fits u.dirs) =>
      created.searchFile isCut dots' named short fits'
    refine ⟨iNo, ?_, fun senv fits' => ?_, created.descriptor, ?_⟩
    · obtain ⟨entry, lba, made, inserted⟩ := created.entry
      exact ⟨entry, lba, 0, made, (createDirEntry_name made).1.trans named, inserted.newSlot,
        inserted.holds⟩
    · obtain ⟨record, t, found, isRegular, -⟩ := searched fits'
      exact ⟨record, t, found, isRegular⟩
    · intro env' flags' task'' fits' inRange create'
      obtain ⟨record, t, found, isRegular, isPath⟩ := searched fits'
      have allShort : ∀ c ∈ components path.chars, c.length ≤ maxFileNameLen := by
        intro c inPath
        rw [isCut.cut] at inPath
        rcases List.mem_append.mp inPath with inFront | isLast
        · exact Nat.le_of_lt (dotNames_short (dots' c inFront)).1
        · rw [List.mem_singleton.mp isLast]
          exact isCut.fits
      have names : components record.searchedPath = components path.chars := by
        rw [isPath, ← isCut.cut]
        exact components_joined fun c inPath => inPath
      have some : components path.chars ≠ [] := by
        rw [isCut.cut]
        simp
      have depth := (pathDepthCnt_eq_ok env'.name some).mpr ⟨allShort, rfl⟩
      have searchDepth := (pathDepthCnt_eq_ok env'.name' (names ▸ some)).mpr
        ⟨names ▸ allShort, rfl⟩
      rw [names] at searchDepth
      have notDirectory : record.fileType ≠ .directory := by
        rw [isRegular]
        decide
      refine ⟨t.dirClose record.parentDir, ?_⟩
      rw [sysOpen, if_neg (isCut.noSlash env'.before), decide_eq_true inRange, check_true,
        ok_bind, depth, ok_bind, found, ok_bind]
      simp only [if_neg notDirectory, searchDepth, ok_bind]
      rw [if_neg (not_not.mpr rfl), openOrCreate, if_neg fun both => create' both.2,
        if_pos ⟨decide_eq_true created.number, create'⟩]

/-- The root directory holds `"."` and `".."`. -/
def twoDotsState : FsState where
  fs := {
    curPart := (samplePartition.setDisk ((Bytes.fill 0).splice (512 * 2661) 512 rootBlock)
      ).setOpenInodes [0xc0100000]
    inodeAt := fun _ => {
      iNo := 0, iSize := 48, iOpenCnts := 1, writeDeny := false
      iSectors := fun k => if k = 0 then 2661 else 0 }
    fileTable := fun _ => File.cleared
    kernelHeap := {0xc0100000} }
  rootDir := 0xc0100000
  dirs := ∅

theorem twoDotsState_slot {idx : Nat} (inBlock : idx < 21) : Bytes.SameHead dirEntrySize
    (slot (twoDotsState.fs.curPart.myDisk.window (512 * (2661 : UInt32).toNat)) idx)
    (slot rootBlock idx) := by
  intro a inside
  simp only [dirEntrySize] at inside
  exact Bytes.splice_add (by simp only [dirEntrySize]; omega)

theorem twoDotsState_ready : twoDotsState.RootReady := by
  obtain ⟨isDot, isDotDot, -⟩ := rootBlock_slots
  have sound : twoDotsState.Sound :=
    ⟨(samplePartition_mounted.setDisk _).setOpenInodes _, by decide, by decide⟩
  refine ⟨⟨sound, by decide, by decide, by decide, ?_, ?_⟩, by decide, by decide, by decide⟩
  · exact (twoDotsState_slot (by decide)).trans isDot
  · exact (twoDotsState_slot (by decide)).trans isDotDot

theorem twoDotsState_taken : DirectTaken twoDotsState.fs.curPart twoDotsState.rootInode := by
  intro i direct used
  have first : i = 0 := by
    revert used
    revert i
    decide
  subst first
  exact ⟨0, by decide, by decide, by decide⟩

theorem zeroEnv_fits : zeroEnv.toSearchEnv.Fits twoDotsState.dirs :=
  ⟨fun _ => Option.some_ne_none _, fun _ => Finset.notMem_empty _⟩

set_option maxRecDepth 4000 in
/-- With its slash, the name is the last component. -/
theorem created_iff_slash : ∃ u task', sysOpen .returnsMinusOne zeroEnv twoDotsState
      ⟨none, fun _ => -1⟩ ⟨[slash, 98], by simp [slash]⟩ oCreat = .ok (some 3, u, task') ∧
    ∃ iNo, FileCreated .returnsMinusOne zeroEnv twoDotsState u task'
      ⟨[slash, 98], by simp [slash]⟩ 3 iNo := by
  obtain ⟨u, task', ran⟩ : ∃ u task', sysOpen .returnsMinusOne zeroEnv twoDotsState
      ⟨none, fun _ => -1⟩ ⟨[slash, 98], by simp [slash]⟩ oCreat = .ok (some 3, u, task') :=
    ⟨_, _, rfl⟩
  refine ⟨u, task', ran, (created_iff twoDotsState_ready zeroEnv_fits (by decide)
    twoDotsState_taken (by decide) ran).mpr (by decide)⟩

/-- Without a slash, the file gets the name that stands at address 1. -/
theorem created_under_other_name : ∃ u task', twoDotsState.RootReady ∧
    sysOpen .returnsMinusOne zeroEnv twoDotsState ⟨none, fun _ => -1⟩ ⟨[98], by simp⟩ oCreat =
      .ok (some 3, u, task') ∧
    ¬ ∃ iNo, FileCreated .returnsMinusOne zeroEnv twoDotsState u task' ⟨[98], by simp⟩ 3
      iNo := by
  refine ⟨_, _, twoDotsState_ready, rfl, ?_⟩
  rintro ⟨iNo, file⟩
  obtain ⟨entry, lba, idx, made, isLast, -⟩ := file.entry
  have isEmpty := (createDirEntry_name made).1
  rw [isLast] at isEmpty
  exact absurd isEmpty (by decide)

end Views

end HongbaiOS.Fs
