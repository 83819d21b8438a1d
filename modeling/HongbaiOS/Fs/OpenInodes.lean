import HongbaiOS.Fs.File
import HongbaiOS.Library.RefCount
import HongbaiOS.Library.Run

/-!
# Opening and closing inodes at the same time

`inode_open` looks the number up in `open_inodes`; where it is missing it allocates an inode,
sleeps until the disk has been read and then puts the inode on the list, whatever has
happened there in between.  The calls of all threads are steps here, split where a thread
can lose the processor.
-/

namespace HongbaiOS.Fs

open HongbaiOS.Library HongbaiOS.Kernel HongbaiOS.Device HongbaiOS.Lib

namespace FileSystem

/-- `i_open_cnts` of the inode at `a` becomes `cnts`. -/
def setCnts (fs : FileSystem) (a : Address) (cnts : UInt32) : FileSystem :=
  fs.setInode a { fs.inodeAt a with iOpenCnts := cnts }

/-- The part of `inode_open` behind the disk: the inode is listed, opened once. -/
@[simps]
def insertInode (fs : FileSystem) (found : Address) (inode : Inode) : FileSystem :=
  { fs with
    curPart := fs.curPart.setOpenInodes (found :: fs.curPart.openInodes)
    inodeAt := Function.update fs.inodeAt found { inode with iOpenCnts := 1 } }

/-- `inode_close(inode)`; the memory goes back to the kernel heap. -/
def inodeClose (fs : FileSystem) (a : Address) : FileSystem :=
  let cnts := (fs.inodeAt a).iOpenCnts - 1
  let fs := fs.setCnts a cnts
  if cnts = 0 then
    { fs with
      curPart := fs.curPart.setOpenInodes (fs.curPart.openInodes.erase a)
      kernelHeap := fs.kernelHeap.erase a }
  else fs

end FileSystem

/-- A call of `inode_open` or `dir_open` that has come back and has not been closed; `dir` is
the address of the `struct dir` of the latter. -/
structure Open where
  no : UInt32
  dir : Option Address
  inode : Address
  deriving DecidableEq

/-- A thread inside `inode_open`, asleep or about to be: before the look-up, after a look-up
that found nothing, or with an inode allocated and the disk at work. -/
inductive Pending where
  | entered (no : UInt32) (dir : Option Address)
  | missed (no : UInt32) (dir : Option Address)
  | reading (no : UInt32) (dir : Option Address) (inode : Address)
  deriving DecidableEq

/-- The inode that a thread has allocated. -/
def Pending.inode : Pending → Option Address
  | reading _ _ inode => some inode
  | _ => none

/-- The file system with the threads inside and between the four functions; `dirs` are the
live `struct dir`. -/
structure OpenState where
  fs : FileSystem
  dirs : Finset Address
  opens : List Open
  pending : List Pending

/-- What a thread does up to the next point where it can lose the processor. -/
inductive OpenAction where
  /-- `inode_open(part, no)` is called. -/
  | inodeOpen (no : UInt32)
  /-- `dir_open(part, no)` is called, and `sys_malloc` gives it `dir`. -/
  | dirOpen (no : UInt32) (dir : Address)
  /-- The list is searched. -/
  | lookUp (no : UInt32) (dir : Option Address)
  /-- `sys_malloc` gives the memory for the inode. -/
  | malloc (no : UInt32) (dir : Option Address) (inode : Address)
  /-- `ide_read` comes back, and the inode is put on the list. -/
  | insert (no : UInt32) (dir : Option Address) (inode : Address) (inodeBuf : Bytes)
  /-- `inode_close`, or `dir_close` of a directory other than the root. -/
  | close (opened : Open)
  /-- `dir_close(&root_dir)` -/
  | closeRoot

namespace OpenState

/-- A thread goes on from `before` to `after`. -/
@[simps]
def goOn (s : OpenState) (before after : Pending) : OpenState :=
  { s with pending := after :: s.pending.erase before }

/-- A thread comes back from `before` with `opened`. -/
@[simps]
def comeBack (s : OpenState) (before : Pending) (opened : Open) : OpenState :=
  { s with pending := s.pending.erase before, opens := opened :: s.opens }

end OpenState

def openStep (s : OpenState) : OpenAction → Except Halt OpenState
  | .inodeOpen no => .ok { s with pending := .entered no none :: s.pending }
  | .dirOpen no dir =>
      if dir ∉ s.dirs then
        .ok { s with dirs := insert dir s.dirs, pending := .entered no (some dir) :: s.pending }
      else .error .disabled
  | .lookUp no dir =>
      if .entered no dir ∈ s.pending then
        match s.fs.curPart.openInodes.find? fun a => (s.fs.inodeAt a).iNo = no with
        | some a =>
            .ok ({ s with fs := s.fs.setCnts a ((s.fs.inodeAt a).iOpenCnts + 1) }
              |>.comeBack (.entered no dir) ⟨no, dir, a⟩)
        | none => do
            let _ ← inodeLocate s.fs.curPart no
            return s.goOn (.entered no dir) (.missed no dir)
      else .error .disabled
  | .malloc no dir a =>
      if .missed no dir ∈ s.pending ∧ a ∉ s.fs.kernelHeap then
        .ok ({ s with fs := { s.fs with kernelHeap := insert a s.fs.kernelHeap } }
          |>.goOn (.missed no dir) (.reading no dir a))
      else .error .disabled
  | .insert no dir a inodeBuf =>
      if .reading no dir a ∈ s.pending then do
        let inode ← inodeRead s.fs.curPart no inodeBuf
        return { s with fs := s.fs.insertInode a inode }.comeBack (.reading no dir a) ⟨no, dir, a⟩
      else .error .disabled
  | .close opened =>
      if opened ∈ s.opens then
        .ok { s with
          fs := s.fs.inodeClose opened.inode
          dirs := match opened.dir with
            | some dir => s.dirs.erase dir
            | none => s.dirs
          opens := s.opens.erase opened }
      else .error .disabled
  | .closeRoot => .ok s

/-- At most one inode of each number is on `open_inodes`, and `i_open_cnts` says how often
its number occurs in `users`. -/
def FileSystem.Counts (fs : FileSystem) (users : List UInt32) : Prop :=
  Counted fs.curPart.openInodes (fun a => (fs.inodeAt a).iNo)
    (fun a => (fs.inodeAt a).iOpenCnts.toNat) users

/-- The inodes on the list count the opens that have not been closed, and none of these has
its inode freed. -/
structure OpenState.OpensCounted (s : OpenState) : Prop where
  counted : s.fs.Counts (s.opens.map Open.no)
  live : ∀ o ∈ s.opens, o.inode ∈ s.fs.kernelHeap

/-- Number `no` is on the list. -/
def OpenState.Listed (s : OpenState) (no : UInt32) : Prop :=
  ∃ a ∈ s.fs.curPart.openInodes, (s.fs.inodeAt a).iNo = no

/-- An inode comes from the disk with another number than it was opened by, or its number
has been listed meanwhile; or an inode is opened for the 2^32-th time. -/
def OpenAction.Collides (s : OpenState) : OpenAction → Prop
  | .lookUp no _ => ∃ a ∈ s.fs.curPart.openInodes,
      (s.fs.inodeAt a).iNo = no ∧ (s.fs.inodeAt a).iOpenCnts.toNat = 2 ^ 32 - 1
  | .insert no _ _ _ =>
      (Inode.ofBytes (s.fs.curPart.inodeRecord no.toNat)).iNo ≠ no ∨ s.Listed no
  | _ => False

instance (s : OpenState) : DecidablePred (OpenAction.Collides s)
  | .lookUp _ _ => inferInstanceAs (Decidable (∃ a ∈ s.fs.curPart.openInodes, _))
  | .insert _ _ _ _ => inferInstanceAs (Decidable (_ ∨ ∃ a ∈ s.fs.curPart.openInodes, _))
  | .inodeOpen _ | .dirOpen _ _ | .malloc _ _ _ | .close _ | .closeRoot =>
      inferInstanceAs (Decidable False)

/-- The other facts that hold as long as all inodes are counted. -/
structure OpenState.Ordered (s : OpenState) : Prop where
  mounted : s.fs.curPart.Mounted
  held : ∀ o ∈ s.opens, o.inode ∈ s.fs.curPart.openInodes ∧ (s.fs.inodeAt o.inode).iNo = o.no
  owned : (s.fs.curPart.openInodes ++ s.pending.filterMap Pending.inode).Nodup
  allocated : ∀ a ∈ s.fs.curPart.openInodes ++ s.pending.filterMap Pending.inode,
    a ∈ s.fs.kernelHeap

section Cnts

variable {fs : FileSystem} {a b : Address} {cnts : UInt32}

@[simp]
theorem setCnts_curPart : (fs.setCnts a cnts).curPart = fs.curPart := rfl

@[simp]
theorem setCnts_kernelHeap : (fs.setCnts a cnts).kernelHeap = fs.kernelHeap := rfl

@[simp]
theorem setCnts_self : ((fs.setCnts a cnts).inodeAt a).iOpenCnts = cnts := by
  simp [FileSystem.setCnts]

theorem setCnts_of_ne (other : b ≠ a) : (fs.setCnts a cnts).inodeAt b = fs.inodeAt b :=
  Function.update_of_ne other _ _

@[simp]
theorem setCnts_iNo : ((fs.setCnts a cnts).inodeAt b).iNo = (fs.inodeAt b).iNo := by
  by_cases here : b = a
  · rw [here, FileSystem.setCnts, FileSystem.setInode_inodeAt, Function.update_self]
  · rw [setCnts_of_ne here]

end Cnts

namespace FileSystem.Counts

variable {fs : FileSystem} {users : List UInt32} {a : Address}

theorem hit_iff (counts : fs.Counts users) (listed : a ∈ fs.curPart.openInodes) :
    (fs.setCnts a ((fs.inodeAt a).iOpenCnts + 1)).Counts ((fs.inodeAt a).iNo :: users) ↔
      (fs.inodeAt a).iOpenCnts.toNat ≠ 2 ^ 32 - 1 := by
  have bound := (fs.inodeAt a).iOpenCnts.toNat_lt
  refine (Counted.hit_iff _ counts listed (fun _ _ => setCnts_iNo) fun f _ other => ?_).trans ?_
  · rw [setCnts_of_ne other]
  · rw [setCnts_self, UInt32.toNat_add, UInt32.toNat_one]
    omega

theorem insert_iff (no : UInt32) (inode : Inode) (counts : fs.Counts users)
    (fresh : a ∉ fs.curPart.openInodes)
    (present : ∀ k ∈ users, ∃ f ∈ fs.curPart.openInodes, (fs.inodeAt f).iNo = k) :
    (fs.insertInode a inode).Counts (no :: users) ↔
      inode.iNo = no ∧ ∀ f ∈ fs.curPart.openInodes, (fs.inodeAt f).iNo ≠ no := by
  have mine : (fs.insertInode a inode).inodeAt a = { inode with iOpenCnts := 1 } :=
    Function.update_self ..
  have others : ∀ f ∈ fs.curPart.openInodes, (fs.insertInode a inode).inodeAt f = fs.inodeAt f :=
    fun f listed => Function.update_of_ne (ne_of_mem_of_not_mem listed fresh) _ _
  refine (Counted.insert_iff counts fresh present (fun f listed => ?_) (fun f listed => ?_)
    ?_).trans ?_
  · rw [others f listed]
  · rw [others f listed]
  · rw [mine]
    rfl
  · rw [mine]

theorem close (counts : fs.Counts users) (listed : a ∈ fs.curPart.openInodes)
    (used : (fs.inodeAt a).iNo ∈ users) :
    (fs.inodeClose a).Counts (users.erase (fs.inodeAt a).iNo) ∧
      (fs.inodeClose a = fs.setCnts a ((fs.inodeAt a).iOpenCnts - 1) ∨
        (fs.inodeAt a).iNo ∉ users.erase (fs.inodeAt a).iNo ∧
          (fs.inodeClose a).curPart =
            fs.curPart.setOpenInodes (fs.curPart.openInodes.erase a) ∧
          (fs.inodeClose a).kernelHeap = fs.kernelHeap.erase a) := by
  have some := List.count_pos_iff.mpr used
  have count := counts.counted a listed
  have fewer : ((fs.inodeAt a).iOpenCnts - 1).toNat + 1 = (fs.inodeAt a).iOpenCnts.toNat := by
    have low : (1 : UInt32) ≤ (fs.inodeAt a).iOpenCnts := by
      rw [UInt32.le_iff_toNat_le, UInt32.toNat_one]
      omega
    rw [UInt32.toNat_sub_of_le _ _ low, UInt32.toNat_one]
    omega
  unfold inodeClose
  dsimp only
  split
  next zero =>
    refine ⟨?_, Or.inr ⟨?_, rfl, rfl⟩⟩
    · refine Counted.leave_last counts listed (fun _ _ => setCnts_iNo) fun f _ other => ?_
      rw [setCnts_of_ne other]
    · rw [← List.count_eq_zero, List.count_erase_self]
      rw [zero, UInt32.toNat_zero] at fewer
      omega
  next =>
    refine ⟨?_, Or.inl rfl⟩
    refine Counted.leave counts listed (fun _ _ => setCnts_iNo) (fun f _ other => ?_) ?_
    · rw [setCnts_of_ne other]
    · rw [setCnts_self]
      exact fewer

theorem inodeClose_iNo {b : Address} : ((fs.inodeClose a).inodeAt b).iNo = (fs.inodeAt b).iNo := by
  unfold inodeClose
  dsimp only
  split <;> exact setCnts_iNo

end FileSystem.Counts

section Steps

variable {s s' : OpenState} {no : UInt32} {dir : Option Address} {a : Address}

/-- Where a thread inside `inode_open` goes on, its inode stays or becomes its own. -/
theorem pending_perm {p : Pending} (waiting : p ∈ s.pending) :
    (s.pending.filterMap Pending.inode).Perm
      (p.inode.toList ++ (s.pending.erase p).filterMap Pending.inode) := by
  have same := (List.perm_cons_erase waiting).filterMap Pending.inode
  cases inode : p.inode with
  | none => simpa [inode] using same
  | some a => simpa [inode] using same

theorem opens_perm {o : Open} (isOpen : o ∈ s.opens) :
    ((s.opens.map Open.no).erase o.no).Perm ((s.opens.erase o).map Open.no) := by
  have same := (List.perm_cons_erase isOpen).map Open.no
  rw [List.map_cons] at same
  have erased := same.erase o.no
  rwa [List.erase_cons_head] at erased

namespace OpenState.Ordered

/-- An inode that a thread has allocated is not on the list. -/
theorem reading_fresh (ordered : s.Ordered) (waiting : .reading no dir a ∈ s.pending) :
    a ∉ s.fs.curPart.openInodes := by
  intro listed
  have inPending : a ∈ s.pending.filterMap Pending.inode :=
    List.mem_filterMap.mpr ⟨_, waiting, rfl⟩
  exact (List.nodup_append.mp ordered.owned).2.2 a listed a inPending rfl

theorem users_listed (ordered : s.Ordered) : ∀ no ∈ s.opens.map Open.no, s.Listed no := by
  intro no used
  obtain ⟨o, isOpen, rfl⟩ := List.mem_map.mp used
  exact ⟨o.inode, ordered.held o isOpen⟩

theorem hit (ordered : s.Ordered) (good : s.OpensCounted)
    (waiting : .entered no dir ∈ s.pending) (listed : a ∈ s.fs.curPart.openInodes)
    (number : (s.fs.inodeAt a).iNo = no)
    (after : ({ s with fs := s.fs.setCnts a ((s.fs.inodeAt a).iOpenCnts + 1) }.comeBack
      (.entered no dir) ⟨no, dir, a⟩) = s') :
    (s'.OpensCounted → s'.Ordered) ∧
      (s'.OpensCounted ↔ ¬ OpenAction.Collides s (.lookUp no dir)) := by
  subst after
  have pending := (pending_perm waiting).append_left s.fs.curPart.openInodes
  have grows := good.counted.hit_iff listed
  rw [number] at grows
  refine ⟨fun _ => ⟨ordered.mounted, fun o isOpen => ?_, ?_, fun b inList => ?_⟩, ?_, ?_⟩
  · rcases List.mem_cons.mp isOpen with rfl | old
    · exact ⟨listed, setCnts_iNo.trans number⟩
    · exact ⟨(ordered.held o old).1, setCnts_iNo.trans (ordered.held o old).2⟩
  · exact pending.nodup_iff.mp ordered.owned
  · exact ordered.allocated b (pending.mem_iff.mpr inList)
  · rintro ⟨counted, -⟩ ⟨b, listed', number', full⟩
    obtain rfl := good.counted.single b listed' a listed (number'.trans number.symm)
    exact grows.mp counted full
  · intro room
    refine ⟨grows.mpr fun full => room ⟨a, listed, number, full⟩, fun o isOpen => ?_⟩
    rcases List.mem_cons.mp isOpen with rfl | old
    · exact ordered.allocated a (List.mem_append_left _ listed)
    · exact good.live o old

/-- The thread brings an inode from the disk. -/
theorem insert (ordered : s.Ordered) (good : s.OpensCounted)
    (waiting : .reading no dir a ∈ s.pending) {inode : Inode} (buf : Bytes)
    (record : (Inode.ofBytes (s.fs.curPart.inodeRecord no.toNat)).iNo = inode.iNo)
    (after : ({ s with fs := s.fs.insertInode a inode }.comeBack (.reading no dir a)
      ⟨no, dir, a⟩) = s') :
    (s'.OpensCounted → s'.Ordered) ∧
      (s'.OpensCounted ↔ ¬ OpenAction.Collides s (.insert no dir a buf)) := by
  subst after
  have fresh := ordered.reading_fresh waiting
  have number : ((s.fs.insertInode a inode).inodeAt a).iNo = inode.iNo := by
    simp [FileSystem.insertInode]
  have others : ∀ f ∈ s.fs.curPart.openInodes,
      (s.fs.insertInode a inode).inodeAt f = s.fs.inodeAt f :=
    fun f listed => Function.update_of_ne (ne_of_mem_of_not_mem listed fresh) _ _
  have pending : (s.fs.curPart.openInodes ++ s.pending.filterMap Pending.inode).Perm
      ((a :: s.fs.curPart.openInodes) ++
        (s.pending.erase (.reading no dir a)).filterMap Pending.inode) :=
    ((pending_perm waiting).append_left _).trans List.perm_middle
  have live : a ∈ s.fs.kernelHeap := ordered.allocated a
    (pending.mem_iff.mpr (List.mem_append_left _ List.mem_cons_self))
  have comes := good.counted.insert_iff no inode fresh ordered.users_listed
  refine ⟨fun good' => ⟨ordered.mounted.setOpenInodes _, fun o isOpen => ?_, ?_,
    fun b inList => ?_⟩, ?_, ?_⟩
  · rcases List.mem_cons.mp isOpen with rfl | old
    · exact ⟨List.mem_cons_self, number.trans (comes.mp good'.counted).1⟩
    · obtain ⟨listed, number'⟩ := ordered.held o old
      exact ⟨List.mem_cons_of_mem a listed, (congrArg Inode.iNo (others _ listed)).trans number'⟩
  · exact pending.nodup_iff.mp ordered.owned
  · exact ordered.allocated b (pending.mem_iff.mpr inList)
  · rintro ⟨counted, -⟩ collides
    obtain ⟨same, apart⟩ := comes.mp counted
    rcases collides with wrong | ⟨f, listed, same'⟩
    · exact wrong (record.trans same)
    · exact apart f listed same'
  · intro fine
    have same : inode.iNo = no := by
      by_contra wrong
      exact fine (Or.inl fun same => wrong (record.symm.trans same))
    refine ⟨comes.mpr ⟨same, fun f listed same => fine (Or.inr ⟨f, listed, same⟩)⟩,
      fun o isOpen => ?_⟩
    rcases List.mem_cons.mp isOpen with rfl | old
    · exact live
    · exact good.live o old

/-- An open inode is closed; the last one to do so takes it off the list and frees it. -/
theorem close (ordered : s.Ordered) (good : s.OpensCounted) {o : Open} (isOpen : o ∈ s.opens)
    (sameOpens : s'.opens = s.opens.erase o) (samePending : s'.pending = s.pending)
    (sameFs : s'.fs = s.fs.inodeClose o.inode) : s'.OpensCounted ∧ s'.Ordered := by
  obtain ⟨listed, number⟩ := ordered.held o isOpen
  have used : (s.fs.inodeAt o.inode).iNo ∈ s.opens.map Open.no := by
    rw [number]
    exact List.mem_map_of_mem isOpen
  obtain ⟨counted, left⟩ := good.counted.close listed used
  have erased := opens_perm isOpen
  have stay : ∀ o' ∈ s'.opens, o' ∈ s.opens := fun o' inList => by
    rw [sameOpens] at inList
    exact List.mem_of_mem_erase inList
  have numbers : ∀ f, (s'.fs.inodeAt f).iNo = (s.fs.inodeAt f).iNo := fun f => by
    rw [sameFs]
    exact FileSystem.Counts.inodeClose_iNo
  have counted' : s'.fs.Counts (s'.opens.map Open.no) := by
    rw [sameFs, sameOpens]
    rw [number] at counted
    exact Counted.perm counted erased
  rcases left with others | ⟨lastOne, sameList, sameHeap⟩
  · rw [others] at sameFs
    have samePart : s'.fs.curPart = s.fs.curPart := by rw [sameFs]; rfl
    have sameHeap : s'.fs.kernelHeap = s.fs.kernelHeap := by rw [sameFs]; rfl
    refine ⟨⟨counted', fun o' inList => ?_⟩, ?_, fun o' inList => ?_, ?_, fun b inList => ?_⟩
    · rw [sameHeap]
      exact good.live o' (stay o' inList)
    · rw [samePart]
      exact ordered.mounted
    · rw [samePart, numbers]
      exact ordered.held o' (stay o' inList)
    · rw [samePart, samePending]
      exact ordered.owned
    · rw [samePart, samePending] at inList
      rw [sameHeap]
      exact ordered.allocated b inList
  · rw [← sameFs] at sameList sameHeap
    -- no other open of the number is left, so nothing else refers to the inode
    have apart : ∀ o' ∈ s'.opens, o'.inode ≠ o.inode := by
      intro o' inList same
      have sameNo := (ordered.held o' (stay o' inList)).2
      rw [same, number] at sameNo
      rw [number, erased.mem_iff, ← sameOpens] at lastOne
      exact lastOne (sameNo ▸ List.mem_map_of_mem inList)
    have sublist : (s'.fs.curPart.openInodes ++ s'.pending.filterMap Pending.inode).Sublist
        (s.fs.curPart.openInodes ++ s.pending.filterMap Pending.inode) := by
      rw [sameList, samePending]
      exact List.erase_sublist.append_right _
    refine ⟨⟨counted', fun o' inList => ?_⟩, ?_, fun o' inList => ?_, ?_, fun b inList => ?_⟩
    · rw [sameHeap]
      exact Finset.mem_erase.mpr ⟨apart o' inList, good.live o' (stay o' inList)⟩
    · rw [sameList]
      exact ordered.mounted.setOpenInodes _
    · obtain ⟨listed', number'⟩ := ordered.held o' (stay o' inList)
      rw [sameList]
      exact ⟨(List.mem_erase_of_ne (apart o' inList)).mpr listed', (numbers _).trans number'⟩
    · exact ordered.owned.sublist sublist
    · rw [sameHeap]
      refine Finset.mem_erase.mpr ⟨?_, ordered.allocated b (sublist.subset inList)⟩
      rw [sameList, samePending] at inList
      rcases List.mem_append.mp inList with inOpen | inPending
      · rintro rfl
        exact good.counted.nodup.not_mem_erase inOpen
      · rintro rfl
        exact (List.nodup_append.mp ordered.owned).2.2 _ listed _ inPending rfl

theorem moved (ordered : s.Ordered) (good : s.OpensCounted)
    (samePart : s'.fs.curPart = s.fs.curPart) (sameInodes : s'.fs.inodeAt = s.fs.inodeAt)
    (sameOpens : s'.opens = s.opens) (grown : s.fs.kernelHeap ⊆ s'.fs.kernelHeap)
    (owned : (s.fs.curPart.openInodes ++ s'.pending.filterMap Pending.inode).Nodup)
    (allocated : ∀ b ∈ s'.pending.filterMap Pending.inode, b ∈ s'.fs.kernelHeap) :
    s'.OpensCounted ∧ s'.Ordered := by
  refine ⟨⟨?_, fun o isOpen => ?_⟩, ?_, fun o isOpen => ?_, ?_, fun b inList => ?_⟩
  · rw [FileSystem.Counts, samePart, sameInodes, sameOpens]
    exact good.counted
  · rw [sameOpens] at isOpen
    exact grown (good.live o isOpen)
  · rw [samePart]
    exact ordered.mounted
  · rw [sameOpens] at isOpen
    rw [samePart, sameInodes]
    exact ordered.held o isOpen
  · rw [samePart]
    exact owned
  · rw [samePart] at inList
    rcases List.mem_append.mp inList with listed | inPending
    · exact grown (ordered.allocated b (List.mem_append_left _ listed))
    · exact allocated b inPending

/-- The same where the threads keep the inodes that they have allocated. -/
theorem moved_same (ordered : s.Ordered) (good : s.OpensCounted) (sameFs : s'.fs = s.fs)
    (sameOpens : s'.opens = s.opens)
    (same : (s'.pending.filterMap Pending.inode).Perm (s.pending.filterMap Pending.inode)) :
    s'.OpensCounted ∧ s'.Ordered := by
  refine ordered.moved good (by rw [sameFs]) (by rw [sameFs]) sameOpens (by rw [sameFs]) ?_ ?_
  · exact (same.append_left _).nodup_iff.mpr ordered.owned
  · intro b inList
    rw [sameFs]
    exact ordered.allocated b (List.mem_append_right _ (same.mem_iff.mp inList))

theorem step (ordered : s.Ordered) (good : s.OpensCounted) {action : OpenAction}
    (ran : openStep s action = .ok s') :
    (s'.OpensCounted → s'.Ordered) ∧ (s'.OpensCounted ↔ ¬ action.Collides s) := by
  have fine : s'.OpensCounted ∧ s'.Ordered → ¬ action.Collides s →
      (s'.OpensCounted → s'.Ordered) ∧ (s'.OpensCounted ↔ ¬ action.Collides s) :=
    fun both none => ⟨fun _ => both.2, fun _ => none, fun _ => both.1⟩
  cases action with
  | inodeOpen no =>
      obtain rfl := Except.ok.inj ran
      exact fine (ordered.moved_same good rfl rfl (List.Perm.refl _)) id
  | dirOpen no dir =>
      rw [openStep] at ran
      split at ran
      next =>
        obtain rfl := Except.ok.inj ran
        exact fine (ordered.moved_same good rfl rfl (List.Perm.refl _)) id
      next => cases ran
  | lookUp no dir =>
      rw [openStep] at ran
      split at ran
      next waiting =>
        split at ran
        next a found =>
          have number : (s.fs.inodeAt a).iNo = no := by simpa using List.find?_some found
          exact ordered.hit good waiting (List.mem_of_find?_eq_some found) number
            (Except.ok.inj ran)
        next missed =>
          obtain ⟨inodePos, -, result⟩ := except_bind_eq_ok.mp ran
          obtain rfl := Except.ok.inj result
          refine fine (ordered.moved_same good rfl rfl (pending_perm waiting).symm) ?_
          rintro ⟨a, listed, number, -⟩
          exact List.find?_eq_none.mp missed a listed (by simpa using number)
      next => cases ran
  | malloc no dir a =>
      rw [openStep] at ran
      split at ran
      next ready =>
        obtain ⟨waiting, fresh⟩ := ready
        obtain rfl := Except.ok.inj ran
        have before := pending_perm waiting
        have free : a ∉ s.fs.curPart.openInodes ++ s.pending.filterMap Pending.inode :=
          fun inList => fresh (ordered.allocated a inList)
        have after : (s.fs.curPart.openInodes ++ (a ::
            (s.pending.erase (.missed no dir)).filterMap Pending.inode)).Perm
            (a :: (s.fs.curPart.openInodes ++ s.pending.filterMap Pending.inode)) :=
          List.perm_middle.trans ((before.symm.append_left _).cons a)
        refine fine (ordered.moved good rfl rfl rfl (Finset.subset_insert _ _) ?_ ?_) id
        · exact after.nodup_iff.mpr (List.nodup_cons.mpr ⟨free, ordered.owned⟩)
        · intro b inList
          rcases List.mem_cons.mp inList with rfl | old
          · exact Finset.mem_insert_self _ _
          · exact Finset.mem_insert_of_mem
              (ordered.allocated b (List.mem_append_right _ (before.symm.subset old)))
      next => cases ran
  | insert no dir a buf =>
      rw [openStep] at ran
      split at ran
      next waiting =>
        obtain ⟨inode, read, result⟩ := except_bind_eq_ok.mp ran
        refine ordered.insert good waiting buf ?_ (Except.ok.inj result)
        have small : no < 4096 := by
          obtain ⟨inodePos, located, -⟩ := except_bind_eq_ok.mp read
          obtain ⟨_, small, -⟩ := except_bind_eq_ok.mp located
          simpa using small
        rw [inodeRead_eq ordered.mounted small] at read
        rw [Except.ok.inj read]
      next => cases ran
  | close o =>
      rw [openStep] at ran
      split at ran
      next isOpen =>
        obtain rfl := Except.ok.inj ran
        exact fine (ordered.close good isOpen rfl rfl rfl) id
      next => cases ran
  | closeRoot =>
      obtain rfl := Except.ok.inj ran
      exact fine ⟨good, ordered⟩ id

end OpenState.Ordered

end Steps

/-- In a run on a newly mounted partition the inodes are counted in every state if and only
if no step collides. -/
theorem opens_counted_iff {s : OpenState} {actions : List OpenAction} {states : List OpenState}
    (mounted : s.fs.curPart.Mounted) (noneListed : s.fs.curPart.openInodes = [])
    (noneOpen : s.opens = []) (noneInside : s.pending = [])
    (ran : trace openStep s actions = .ok states) :
    (∀ s' ∈ s :: states, s'.OpensCounted) ↔
      ∀ p ∈ (s :: states).zip actions, ¬ p.2.Collides p.1 := by
  have ordered : s.Ordered := by
    refine ⟨mounted, ?_, ?_, ?_⟩ <;> simp [noneListed, noneOpen, noneInside]
  have good : s.OpensCounted := by
    refine ⟨⟨?_, ?_, ?_⟩, ?_⟩ <;> simp [noneListed, noneOpen]
  exact forall_trace_iff (fun _ _ _ ordered good stepped => ordered.step good stepped) ordered good
    ran

/-- A mounted partition whose inode 5 has been written, and nothing open. -/
def inodeFive : OpenState where
  fs := {
    curPart := samplePartition.setDisk
      ((Bytes.fill 0).splice (samplePartition.inodeOffset 5) inodeSize (inodeInit 5).bytes)
    inodeAt := fun _ => inodeInit 0
    fileTable := fun _ => File.cleared
    kernelHeap := ∅ }
  dirs := ∅
  opens := []
  pending := []

/-- One thread opens inode 5, another opens it as a directory, and both close it. -/
def oneAfterOther : List OpenAction :=
  [.inodeOpen 5, .lookUp 5 none, .malloc 5 none 0xc0100000,
    .insert 5 none 0xc0100000 (Bytes.fill 0),
    .dirOpen 5 0xc0101000, .lookUp 5 (some 0xc0101000), .close ⟨5, some 0xc0101000, 0xc0100000⟩,
    .close ⟨5, none, 0xc0100000⟩]

/-- Both threads look the inode up before one of them has put it on the list. -/
def bothAtOnce : List OpenAction :=
  [.inodeOpen 5, .inodeOpen 5, .lookUp 5 none, .lookUp 5 none, .malloc 5 none 0xc0100000,
    .malloc 5 none 0xc0101000, .insert 5 none 0xc0100000 (Bytes.fill 0),
    .insert 5 none 0xc0101000 (Bytes.fill 0)]

theorem opens_counted_oneAfterOther : ∃ states,
    trace openStep inodeFive oneAfterOther = .ok states ∧
      ∀ s ∈ inodeFive :: states, s.OpensCounted := by
  obtain ⟨states, ran, apart⟩ : ∃ states, trace openStep inodeFive oneAfterOther = .ok states ∧
      ∀ p ∈ (inodeFive :: states).zip oneAfterOther, ¬ p.2.Collides p.1 :=
    ⟨_, rfl, by decide +kernel⟩
  exact ⟨states, ran,
    (opens_counted_iff (samplePartition_mounted.setDisk _) rfl rfl rfl ran).mpr apart⟩

/-- The list then holds two inodes of number 5. -/
theorem inode_listed_twice : ∃ states last, trace openStep inodeFive bothAtOnce = .ok states ∧
    states.getLast? = some last ∧
    last.fs.curPart.openInodes = [0xc0101000, 0xc0100000] ∧
    (last.fs.inodeAt 0xc0101000).iNo = 5 ∧ (last.fs.inodeAt 0xc0100000).iNo = 5 ∧
    ¬ last.OpensCounted := by
  obtain ⟨states, last, ran, isLast, list, second, first⟩ : ∃ states last,
      trace openStep inodeFive bothAtOnce = .ok states ∧ states.getLast? = some last ∧
      last.fs.curPart.openInodes = [0xc0101000, 0xc0100000] ∧
      (last.fs.inodeAt 0xc0101000).iNo = 5 ∧ (last.fs.inodeAt 0xc0100000).iNo = 5 :=
    ⟨_, _, rfl, rfl, rfl, rfl, rfl⟩
  refine ⟨states, last, ran, isLast, list, second, first, fun good => ?_⟩
  have same := good.counted.single 0xc0101000 (by rw [list]; decide) 0xc0100000
    (by rw [list]; decide) (second.trans first.symm)
  revert same
  decide

end HongbaiOS.Fs
