import HongbaiOS.Fs.Open
import HongbaiOS.Fs.PathBounds

/-!
# Comparing depths

`sys_open` learns from two counts of names, of the path and of the part of it that
`search_file` has put together, how far the search came.  Here the counts are compared with
the resolution of the path name by name.
-/

namespace HongbaiOS.Fs

open HongbaiOS.Library HongbaiOS.Kernel HongbaiOS.Device HongbaiOS.Lib

/-- What `search_dir_entry` finds under a name in the directory with this inode.  `left` says
in which pass of `search_file` its buffers are allocated. -/
def FsState.lookup (s : FsState) (env : SearchEnv) (left : Nat) (inode : Inode)
    (name : List UInt8) : Except Halt (Option DirEntry) :=
  searchDirEntry s.fs.curPart inode (cstr name) (env.allBlock left) (env.buf left)

/-- Each of the names is the entry of a directory in the one before it; the last of these
directories, and the pass in which it is searched. -/
def FsState.resolve (s : FsState) (env : SearchEnv) : (left : Nat) → Inode →
    (names : List (List UInt8)) → Option (Nat × Inode)
  | left, inode, [] => some (left, inode)
  | 0, _, _ :: _ => none
  | left + 1, inode, name :: names =>
      match s.lookup env left inode name with
      | .ok (some dirE) =>
          if dirE.fType = FileType.directory.code then
            s.resolve env left (s.inodeNamed dirE.iNo) names
          else none
      | _ => none

/-- The entries found on the way are of regular files and of directories. -/
def FsState.Typed (s : FsState) (env : SearchEnv) (left : Nat) (inode : Inode)
    (names : List (List UInt8)) : Prop :=
  ∀ front name rest, names = front ++ name :: rest → ∀ left' inode',
    s.resolve env left inode front = some (left' + 1, inode') →
      ∀ dirE, s.lookup env left' inode' name = .ok (some dirE) →
        dirE.fType = FileType.directory.code ∨ dirE.fType = FileType.regular.code

section Resolve

variable {s t : FsState} {env : SearchEnv}

/-- How a search ends in the directory with this inode. -/
structure EndsAt (s : FsState) (env : SearchEnv) (left : Nat) (inode : Inode)
    (name : List UInt8) (last : WalkEnd) : Prop where
  found : match last with
    | .missing => s.lookup env left inode name = .ok none
    | .regular iNo => ∃ dirE, s.lookup env left inode name = .ok (some dirE) ∧
        dirE.fType = FileType.regular.code ∧ dirE.iNo = iNo
    | .directory => False

theorem nameRead_eq_cstr {name : List UInt8} (short : name.length < maxFileNameLen)
    (behindName : List UInt8) : nameRead name behindName = cstr name := by
  rw [nameRead, if_pos short]

/-- A walk that does not end behind the last name visits some names: all but the last of
them are directories, and the last one is missing or a regular file. -/
theorem Walk.visited {left : Nat} {here there : WalkAt} {names : List (List UInt8)}
    {last : WalkEnd} (walk : Walk env s left here names last there)
    (typed : s.Typed env left here.inode names)
    (short : ∀ name ∈ names, name.length < maxFileNameLen ∧ NoNul name)
    (notDirectory : last ≠ .directory) :
    ∃ front name rest left', names = front ++ name :: rest ∧
      there.searchedPath = here.searchedPath ++ (front ++ [name]).flatMap (slash :: ·) ∧
      s.resolve env left here.inode front = some (left' + 1, there.inode) ∧
      EndsAt s env left' there.inode name last := by
  induction walk with
  | directory => exact absurd rfl notDirectory
  | @missing left here name names absent =>
      obtain ⟨fits, noNul⟩ := short name List.mem_cons_self
      rw [nameRead_eq_cstr fits] at absent ⊢
      refine ⟨[], name, names, left, rfl, ?_, rfl, ⟨absent⟩⟩
      simp [WalkAt.step, cstr_of_noNul noNul]
  | @regular left here name names dirE found isRegular =>
      obtain ⟨fits, noNul⟩ := short name List.mem_cons_self
      rw [nameRead_eq_cstr fits] at found ⊢
      refine ⟨[], name, names, left, rfl, ?_, rfl, ⟨dirE, found, isRegular, rfl⟩⟩
      simp [WalkAt.step, cstr_of_noNul noNul]
  | @enter left here there name names dirE last found isDirectory next inductionHypothesis =>
      obtain ⟨fits, noNul⟩ := short name List.mem_cons_self
      rw [nameRead_eq_cstr fits] at found inductionHypothesis
      have lookedUp : s.lookup env left here.inode name = .ok (some dirE) := found
      have enters : ∀ front, s.resolve env (left + 1) here.inode (name :: front) =
          s.resolve env left (s.inodeNamed dirE.iNo) front := by
        intro front
        simp only [FsState.resolve, lookedUp, if_pos isDirectory]
      have typed' : s.Typed env left (s.inodeNamed dirE.iNo) names := by
        intro front name' rest cut left' inode' resolved
        exact typed (name :: front) name' rest (congrArg (name :: ·) cut) left' inode'
          ((enters front).trans resolved)
      obtain ⟨front, name', rest, left', rfl, path, resolved, ends⟩ := inductionHypothesis typed'
        (fun name' inRest => short name' (List.mem_cons_of_mem name inRest)) notDirectory
      refine ⟨name :: front, name', rest, left', rfl, ?_, ?_, ends⟩
      · rw [path]
        simp [WalkAt.step, cstr_of_noNul noNul]
      · rw [enters]
        exact resolved
  | @pass left here there name names dirE last found neither next =>
      obtain ⟨fits, -⟩ := short name List.mem_cons_self
      rw [nameRead_eq_cstr fits] at found
      rcases typed [] name names rfl left here.inode rfl dirE found with isDirectory | isRegular
      · exact absurd isDirectory neither.1
      · exact absurd isRegular neither.2

end Resolve

section Depths

variable {s t : FsState} {env : OpenEnv} {path : CString} {iNo : UInt32}
  {record : PathSearchRecord}

end Depths

end HongbaiOS.Fs
