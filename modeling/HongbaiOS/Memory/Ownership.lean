import HongbaiOS.Library.Ownership
import HongbaiOS.Memory.Frames
import HongbaiOS.Memory.Locks
import Mathlib.Data.Set.Insert

/-!
# Who owns which frame

A frame that a pool has handed out is a page of the kernel, a page of a process or a page
table, and only one of these.  The kernel's own page tables lie below the pools and hold
what memory held at power-on, so that which of its pages are in use is kept beside the
state, in a `Book`; for a process the tables tell.
-/

namespace HongbaiOS.Memory

open HongbaiOS.Library HongbaiOS.Kernel HongbaiOS.Lib HongbaiOS.Thread

/-- What a frame can be used for: as the page with a given number, or as the table behind
an entry of a directory. -/
inductive Place where
  | kernelPage (page : Nat)
  | pageTable (dir pdeIdx : Nat)
  | userPage (dir page : Nat)
  deriving DecidableEq

def Place.pool : Place → PoolFlags
  | .kernelPage _ => .kernel
  | .pageTable _ _ => .kernel
  | .userPage _ _ => .user

/-- The pages of the kernel that are in use, and the page directories. -/
structure Book where
  kernelPages : Set Nat
  dirs : Set Nat

namespace Mem

/-- The entry that names the frame of a place. -/
def entry (m : Mem) : Place → UInt32
  | .kernelPage page => m.words (kernelTable (page / 1024)) (page % 1024)
  | .pageTable dir pdeIdx => m.words dir pdeIdx
  | .userPage dir page => m.words (entryFrame (m.words dir (page / 1024))) (page % 1024)

/-- The place of a page in the address space in use. -/
def place (m : Mem) (pf : PoolFlags) (page : Nat) : Place :=
  match pf with
  | .kernel => .kernelPage page
  | .user => .userPage m.cr3 page

/-- The table that maps a page in the address space in use. -/
def tableOf (m : Mem) (pf : PoolFlags) (page : Nat) : Nat :=
  match pf with
  | .kernel => kernelTable (page / 1024)
  | .user => entryFrame (m.words m.cr3 (page / 1024))

end Mem

@[simp]
theorem pool_place (m : Mem) (pf : PoolFlags) (page : Nat) : (m.place pf page).pool = pf := by
  cases pf <;> rfl

theorem entry_place (m : Mem) (pf : PoolFlags) (page : Nat) :
    m.entry (m.place pf page) = m.words (m.tableOf pf page) (page % 1024) := by
  cases pf <;> rfl

namespace Book

variable (b : Book) (m : Mem)

/-- A table of the user half of a directory is there.  Entry 0 of the first directory is
left out: it names the first table of the kernel. -/
def HasTable (dir pdeIdx : Nat) : Prop :=
  dir ∈ b.dirs ∧ 32 ≤ pdeIdx ∧ pdeIdx < 768 ∧ isPresent (m.words dir pdeIdx) = true

def Uses : Place → Prop
  | .kernelPage page => page ∈ b.kernelPages
  | .pageTable dir pdeIdx => b.HasTable m dir pdeIdx
  | .userPage dir page => b.HasTable m dir (page / 1024) ∧
      isPresent (m.entry (.userPage dir page)) = true

open Classical in
/-- The frame at a place, with its pool. -/
noncomputable def held (p : Place) : Option (PoolFlags × Nat) :=
  if b.Uses m p then some (p.pool, entryFrame (m.entry p)) else none

def grant (pf : PoolFlags) (page : Nat) : Book :=
  match pf with
  | .kernel => { b with kernelPages := insert page b.kernelPages }
  | .user => b

/-- One less page of the kernel. -/
def revoke (pf : PoolFlags) (page : Nat) : Book :=
  match pf with
  | .kernel => { b with kernelPages := b.kernelPages \ {page} }
  | .user => b

variable {b m}

@[simp]
theorem held_eq_some {p : Place} {r : PoolFlags × Nat} :
    b.held m p = some r ↔ b.Uses m p ∧ (p.pool, entryFrame (m.entry p)) = r := by
  unfold held
  split
  next used => simp [used]
  next unused => simp [unused]

theorem held_eq_none {p : Place} : b.held m p = none ↔ ¬ b.Uses m p := by
  unfold held
  split
  next used => simp [used]
  next unused => simp [unused]

theorem held_congr {b' : Book} {m' : Mem} {p : Place} (uses : b'.Uses m' p ↔ b.Uses m p)
    (entry : b.Uses m p → m'.entry p = m.entry p) : b'.held m' p = b.held m p := by
  unfold held
  by_cases used : b.Uses m p
  · rw [if_pos used, if_pos (uses.mpr used), entry used]
  · rw [if_neg used, if_neg (fun used' => used (uses.mp used'))]

@[simp]
theorem dirs_grant (pf : PoolFlags) (page : Nat) : (b.grant pf page).dirs = b.dirs := by
  cases pf <;> rfl

@[simp]
theorem dirs_revoke (pf : PoolFlags) (page : Nat) : (b.revoke pf page).dirs = b.dirs := by
  cases pf <;> rfl

end Book

/-- The pages that a request to a pool can be about.  For a process they are those below
the directory entries that its address bitmap reaches. -/
def InRange : PoolFlags → Nat → Prop
  | .kernel, page => kHeapPage ≤ page ∧ page < kHeapPage + 32760
  | .user, page => 32 * 1024 ≤ page ∧ page < 768 * 1024

/-- The kernel half is the same in all directories, each directory refers to itself, and
no frame is at two places. -/
structure Owned (b : Book) (m : Mem) : Prop where
  layout : Layout m
  owns : Owns (fun r : PoolFlags × Nat => m.InPool r.1 r.2) (b.held m)
  bootDir : (pageDirTablePos : Nat) ∈ b.dirs
  current : (m.cr3 : Nat) ∈ b.dirs
  kernelHalf : ∀ dir ∈ b.dirs, ∀ pdeIdx, 768 ≤ pdeIdx → pdeIdx < 1023 →
    m.words dir pdeIdx = pageEntry (kernelTable pdeIdx)
  selfMap : ∀ dir ∈ b.dirs, m.words dir 1023 = pageEntry dir
  dirFrame : ∀ dir ∈ b.dirs, dir = pageDirTablePos ∨
    ∃ page, b.held m (.kernelPage page) = some (.kernel, dir)
  inRange : ∀ page ∈ b.kernelPages, InRange .kernel page
  present : ∀ page ∈ b.kernelPages, isPresent (m.entry (.kernelPage page)) = true

theorem kernelTable_eq {pdeIdx : Nat} (low : 768 ≤ pdeIdx) {table : Nat}
    (isTable : table = kernelTable pdeIdx) : table + 0x1000 * 768 = 0x101000 + 0x1000 * pdeIdx := by
  have value : table = 0x101000 + (pdeIdx - 768) * 0x1000 := isTable
  omega

theorem kernelTable_lt {pdeIdx : Nat} (low : 768 ≤ pdeIdx) (high : pdeIdx < 1023) {table : Nat}
    (isTable : table = kernelTable pdeIdx) :
    0x101000 ≤ table ∧ table < 0x200000 ∧ table % 4096 = 0 := by
  have value := kernelTable_eq low isTable
  omega

theorem kernelTable_inj {i j : Nat} (low : 768 ≤ i) (low' : 768 ≤ j) {table : Nat}
    (first : table = kernelTable i) (second : table = kernelTable j) : i = j := by
  have one := kernelTable_eq low first
  have other := kernelTable_eq low' second
  omega

theorem InRange.pdeIndex {pf : PoolFlags} {page : Nat} (inRange : InRange pf page) :
    match pf with
    | .kernel => 768 ≤ page / 1024 ∧ page / 1024 < 1023
    | .user => 32 ≤ page / 1024 ∧ page / 1024 < 768 := by
  cases pf with
  | kernel =>
      obtain ⟨low, high⟩ := inRange
      simp only [kHeapPage] at low high
      exact ⟨by omega, by omega⟩
  | user =>
      obtain ⟨low, high⟩ := inRange
      exact ⟨by omega, by omega⟩

namespace Owned

variable {b : Book} {m : Mem} (owned : Owned b m)

include owned

theorem inPool {p : Place} {r : PoolFlags × Nat} (holds : b.held m p = some r) :
    m.InPool p.pool r.2 ∧ r.1 = p.pool := by
  have pool : p.pool = r.1 := congrArg Prod.fst (Book.held_eq_some.mp holds).2
  rw [pool]
  exact ⟨owned.owns.taken p r holds, rfl⟩

/-- Page directories are not page tables of the kernel. -/
theorem dir_ne_kernelTable {dir pdeIdx : Nat} (isDir : dir ∈ b.dirs) (low : 768 ≤ pdeIdx)
    (high : pdeIdx < 1023) : dir ≠ kernelTable pdeIdx := by
  intro same
  have range := kernelTable_lt low high same
  rcases owned.dirFrame dir isDir with isBoot | ⟨page, holds⟩
  · have value : dir = 0x100000 := isBoot
    omega
  · have above := ((owned.inPool holds).1.frame owned.layout).2.1
    simp only at above
    omega

theorem table {dir pdeIdx table : Nat} (has : b.HasTable m dir pdeIdx)
    (isTable : table = entryFrame (m.words dir pdeIdx)) :
    b.held m (.pageTable dir pdeIdx) = some (.kernel, table) ∧ 0x200000 ≤ table ∧
      table ∉ b.dirs := by
  have holds : b.held m (.pageTable dir pdeIdx) = some (.kernel, table) :=
    Book.held_eq_some.mpr ⟨has, by rw [isTable]; rfl⟩
  have above := ((owned.inPool holds).1.frame owned.layout).2.1
  refine ⟨holds, above, fun isDir => ?_⟩
  rcases owned.dirFrame table isDir with isBoot | ⟨page, also⟩
  · have value : table = 0x100000 := isBoot
    simp only at above
    omega
  · cases owned.owns.once _ _ _ holds also

theorem table_inj {dir dir' pdeIdx pdeIdx' : Nat} (has : b.HasTable m dir pdeIdx)
    (has' : b.HasTable m dir' pdeIdx')
    (same : entryFrame (m.words dir pdeIdx) = entryFrame (m.words dir' pdeIdx')) :
    dir = dir' ∧ pdeIdx = pdeIdx' := by
  have first := (owned.table has rfl).1
  have second := (owned.table has' rfl).1
  rw [← same] at second
  have samePlace := owned.owns.once _ _ _ first second
  injection samePlace with sameDir sameIdx
  exact ⟨sameDir, sameIdx⟩

/-- The invariant after a change that leaves the layout and the kernel half alone. -/
theorem update {b' : Book} {m' : Mem} (fixed : m'.fixed = m.fixed) (dirs : b'.dirs = b.dirs)
    (words : ∀ dir ∈ b.dirs, ∀ idx, 768 ≤ idx → m'.words dir idx = m.words dir idx)
    (owns : Owns (fun r : PoolFlags × Nat => m'.InPool r.1 r.2) (b'.held m'))
    (dirFrame : ∀ page, ∀ dir ∈ b.dirs, b.held m (.kernelPage page) = some (.kernel, dir) →
      b'.held m' (.kernelPage page) = some (.kernel, dir))
    (inRange : ∀ page ∈ b'.kernelPages, InRange .kernel page)
    (present : ∀ page ∈ b'.kernelPages, isPresent (m'.entry (.kernelPage page)) = true) :
    Owned b' m' where
  layout := owned.layout.congr fixed
  owns := owns
  bootDir := by
    rw [dirs]
    exact owned.bootDir
  current := by
    have cr3 : m'.cr3 = m.cr3 := congrArg Fixed.cr3 fixed
    rw [dirs, cr3]
    exact owned.current
  kernelHalf := by
    intro dir isDir pdeIdx low high
    rw [dirs] at isDir
    rw [words dir isDir pdeIdx low]
    exact owned.kernelHalf dir isDir pdeIdx low high
  selfMap := by
    intro dir isDir
    rw [dirs] at isDir
    rw [words dir isDir 1023 (by decide)]
    exact owned.selfMap dir isDir
  dirFrame := by
    intro dir isDir
    rw [dirs] at isDir
    rcases owned.dirFrame dir isDir with isBoot | ⟨page, holds⟩
    · exact Or.inl isBoot
    · exact Or.inr ⟨page, dirFrame page dir isDir holds⟩
  inRange := inRange
  present := present

end Owned

/-- At most the entry of one page is changed, and only this page enters or leaves the book. -/
structure EntryWrite (b : Book) (m : Mem) (pf : PoolFlags) (page : Nat) (b' : Book)
    (m' : Mem) : Prop where
  fixed : m'.fixed = m.fixed
  inRange : InRange pf page
  hasTable : pf = .user → b.HasTable m m.cr3 (page / 1024)
  words : ∀ frame idx, ¬ (frame = m.tableOf pf page ∧ idx = page % 1024) →
    m'.words frame idx = m.words frame idx
  dirs : b'.dirs = b.dirs
  pages : ∀ page', Place.kernelPage page' ≠ m.place pf page →
    (page' ∈ b'.kernelPages ↔ page' ∈ b.kernelPages)

namespace EntryWrite

variable {b b' : Book} {m m' : Mem} {pf : PoolFlags} {page : Nat}

theorem dir_words (write : EntryWrite b m pf page b' m') (owned : Owned b m) {dir : Nat}
    (isDir : dir ∈ b.dirs) (idx : Nat) : m'.words dir idx = m.words dir idx := by
  apply write.words
  rintro ⟨isTable, -⟩
  cases pf with
  | kernel =>
      obtain ⟨low, high⟩ := write.inRange.pdeIndex
      exact owned.dir_ne_kernelTable isDir low high isTable
  | user => exact (owned.table (write.hasTable rfl) isTable).2.2 isDir

theorem hasTable_iff (write : EntryWrite b m pf page b' m') (owned : Owned b m)
    (dir pdeIdx : Nat) : b'.HasTable m' dir pdeIdx ↔ b.HasTable m dir pdeIdx := by
  unfold Book.HasTable
  rw [write.dirs]
  constructor
  · rintro ⟨isDir, low, high, present⟩
    rw [write.dir_words owned isDir] at present
    exact ⟨isDir, low, high, present⟩
  · rintro ⟨isDir, low, high, present⟩
    rw [← write.dir_words owned isDir] at present
    exact ⟨isDir, low, high, present⟩

/-- The entries of the other pages of the kernel stay the same. -/
theorem kernelEntry_eq (write : EntryWrite b m pf page b' m') (owned : Owned b m) {page' : Nat}
    (inRange : InRange .kernel page') (other : Place.kernelPage page' ≠ m.place pf page) :
    m'.entry (.kernelPage page') = m.entry (.kernelPage page') := by
  apply write.words
  rintro ⟨isTable, sameIdx⟩
  obtain ⟨low', high'⟩ := inRange.pdeIndex
  cases pf with
  | kernel =>
      have low := (write.inRange.pdeIndex).1
      have sameTable := kernelTable_inj low' low rfl isTable
      have samePage : page' = page := by
        clear isTable
        omega
      exact other (congrArg Place.kernelPage samePage)
  | user =>
      have below := (kernelTable_lt low' high' rfl).2.1
      have above := (owned.table (write.hasTable rfl) isTable).2.1
      omega

theorem held_eq (write : EntryWrite b m pf page b' m') (owned : Owned b m) {p : Place}
    (other : p ≠ m.place pf page) : b'.held m' p = b.held m p := by
  cases p with
  | kernelPage page' =>
      exact Book.held_congr (write.pages page' other)
        fun used => write.kernelEntry_eq owned (owned.inRange page' used) other
  | pageTable dir pdeIdx =>
      refine Book.held_congr (write.hasTable_iff owned dir pdeIdx) fun used => ?_
      exact write.dir_words owned used.1 pdeIdx
  | userPage dir page' =>
      have entry : b.HasTable m dir (page' / 1024) →
          m'.entry (.userPage dir page') = m.entry (.userPage dir page') := by
        intro has
        simp only [Mem.entry]
        rw [write.dir_words owned has.1]
        apply write.words
        rintro ⟨isTable, sameIdx⟩
        cases pf with
        | kernel =>
            obtain ⟨low, high⟩ := write.inRange.pdeIndex
            have below := (kernelTable_lt low high isTable).2.1
            have above := (owned.table has rfl).2.1
            omega
        | user =>
            obtain ⟨sameDir, samePde⟩ := owned.table_inj has (write.hasTable rfl) isTable
            have samePage : page' = page := by
              clear isTable
              omega
            apply other
            rw [sameDir, samePage]
            rfl
      refine Book.held_congr ?_ fun used => entry used.1
      constructor
      · rintro ⟨has, present⟩
        have has' := (write.hasTable_iff owned dir (page' / 1024)).mp has
        rw [entry has'] at present
        exact ⟨has', present⟩
      · rintro ⟨has, present⟩
        rw [← entry has] at present
        exact ⟨(write.hasTable_iff owned dir (page' / 1024)).mpr has, present⟩

theorem tableOf_eq (write : EntryWrite b m pf page b' m') (owned : Owned b m) :
    m'.tableOf pf page = m.tableOf pf page := by
  have cr3 : m'.cr3 = m.cr3 := congrArg Fixed.cr3 write.fixed
  cases pf with
  | kernel => rfl
  | user =>
      simp only [Mem.tableOf]
      rw [cr3, write.dir_words owned owned.current]

end EntryWrite

/-- Pages that were not in use have got frames of their pool; tables may be in use for
them.  All other places hold what they held, and the other entries of the kernel are the
same, also those that belong to no page in use. -/
structure Mapped (b : Book) (m : Mem) (pf : PoolFlags) (page cnt : Nat) (b' : Book)
    (m' : Mem) : Prop where
  owned : Owned b' m'
  dirs : b'.dirs = b.dirs
  fixed : m'.fixed = m.fixed
  inRange : ∀ i < cnt, InRange pf (page + i)
  absent : pf = .kernel → ∀ i < cnt, isPresent (m.entry (.kernelPage (page + i))) = false
  kernelEntry : ∀ page', InRange .kernel page' →
    (∀ i < cnt, Place.kernelPage page' ≠ m.place pf (page + i)) →
    m'.entry (.kernelPage page') = m.entry (.kernelPage page')
  fresh : ∀ i < cnt, b.held m (m.place pf (page + i)) = none
  new : ∀ i < cnt, ∃ phyaddr, b'.held m' (m.place pf (page + i)) = some (pf, phyaddr)
  keeps : ∀ p r, b.held m p = some r → b'.held m' p = some r
  only : ∀ p r, b'.held m' p = some r → b.held m p = some r ∨
    (∃ i < cnt, p = m.place pf (page + i)) ∨ ∃ pdeIdx, p = .pageTable m.cr3 pdeIdx

theorem place_congr {m m' : Mem} (fixed : m'.fixed = m.fixed) (pf : PoolFlags) (page : Nat) :
    m'.place pf page = m.place pf page := by
  have cr3 : m'.cr3 = m.cr3 := congrArg Fixed.cr3 fixed
  cases pf with
  | kernel => rfl
  | user => exact congrArg (Place.userPage · page) cr3

theorem place_inj {m : Mem} {pf : PoolFlags} {page page' : Nat}
    (same : m.place pf page = m.place pf page') : page = page' := by
  cases pf with
  | kernel => exact Place.kernelPage.inj same
  | user => exact (Place.userPage.inj same).2

theorem Owned.mapped_none {b : Book} {m m' : Mem} (owned : Owned b m')
    (fixed : m'.fixed = m.fixed) (held : b.held m' = b.held m)
    (kernelEntry : ∀ page', InRange .kernel page' →
      m'.entry (.kernelPage page') = m.entry (.kernelPage page'))
    (pf : PoolFlags) (page : Nat) : Mapped b m pf page 0 b m' where
  owned := owned
  dirs := rfl
  fixed := fixed
  inRange := fun _ impossible => absurd impossible (Nat.not_lt_zero _)
  absent := fun _ _ impossible => absurd impossible (Nat.not_lt_zero _)
  kernelEntry := fun page' inRange _ => kernelEntry page' inRange
  fresh := fun _ impossible => absurd impossible (Nat.not_lt_zero _)
  new := fun _ impossible => absurd impossible (Nat.not_lt_zero _)
  keeps := fun p r holds => by rw [held, holds]
  only := fun p r holds => Or.inl (by rw [← held, holds])

/-- Two runs of pages, one after the other. -/
theorem Mapped.trans {b b' b'' : Book} {m m' m'' : Mem} {pf : PoolFlags} {page cnt cnt' : Nat}
    (first : Mapped b m pf page cnt b' m') (second : Mapped b' m' pf (page + cnt) cnt' b'' m'') :
    Mapped b m pf page (cnt + cnt') b'' m'' := by
  have samePlace : ∀ i, m'.place pf i = m.place pf i := place_congr first.fixed pf
  have cr3 : m'.cr3 = m.cr3 := congrArg Fixed.cr3 first.fixed
  refine ⟨second.owned, second.dirs.trans first.dirs, second.fixed.trans first.fixed, ?_, ?_, ?_,
    ?_, ?_, ?_, ?_⟩
  · intro i small
    by_cases early : i < cnt
    · exact first.inRange i early
    · have inRange := second.inRange (i - cnt) (by omega)
      rwa [show page + cnt + (i - cnt) = page + i by omega] at inRange
  · rintro rfl i small
    by_cases early : i < cnt
    · exact first.absent rfl i early
    · have absent := second.absent rfl (i - cnt) (by omega)
      have inRange := second.inRange (i - cnt) (by omega)
      rw [show page + cnt + (i - cnt) = page + i by omega] at absent inRange
      rw [← first.kernelEntry _ inRange, absent]
      intro j _ same
      have sameIdx := Place.kernelPage.inj same
      omega
  · intro page' inRange other
    rw [second.kernelEntry page' inRange, first.kernelEntry page' inRange]
    · exact fun i small => other i (by omega)
    · intro i small
      rw [samePlace, Nat.add_assoc]
      exact other (cnt + i) (by omega)
  · intro i small
    by_cases early : i < cnt
    · exact first.fresh i early
    · have fresh := second.fresh (i - cnt) (by omega)
      rw [samePlace, show page + cnt + (i - cnt) = page + i by omega] at fresh
      by_contra holds
      obtain ⟨r, holds⟩ := Option.ne_none_iff_exists'.mp holds
      cases fresh.symm.trans (first.keeps _ r holds)
  · intro i small
    by_cases early : i < cnt
    · obtain ⟨phyaddr, new⟩ := first.new i early
      exact ⟨phyaddr, second.keeps _ _ new⟩
    · have new := second.new (i - cnt) (by omega)
      rwa [samePlace, show page + cnt + (i - cnt) = page + i by omega] at new
  · exact fun p r holds => second.keeps p r (first.keeps p r holds)
  · intro p r holds
    rcases second.only p r holds with old | ⟨i, small, isNew⟩ | ⟨idx, isTable⟩
    · rcases first.only p r old with older | ⟨i, small, isNew⟩ | isTable
      · exact Or.inl older
      · exact Or.inr (Or.inl ⟨i, by omega, isNew⟩)
      · exact Or.inr (Or.inr isTable)
    · rw [samePlace, Nat.add_assoc] at isNew
      exact Or.inr (Or.inl ⟨cnt + i, by omega, isNew⟩)
    · rw [cr3] at isTable
      exact Or.inr (Or.inr ⟨idx, isTable⟩)

theorem Mapped.kernelPages_subset {b b' : Book} {m m' : Mem} {pf : PoolFlags} {page cnt : Nat}
    (mapped : Mapped b m pf page cnt b' m') : b.kernelPages ⊆ b'.kernelPages := by
  intro page' used
  have uses : b.Uses m (.kernelPage page') := used
  have holds := Book.held_eq_some.mpr ⟨uses, rfl⟩
  exact (Book.held_eq_some.mp (mapped.keeps _ _ holds)).1

section Mapping

variable {b : Book} {m m' : Mem} {pf : PoolFlags} {page vaddr phyaddr : Nat}

theorem pde_eq (small : vaddr < 2 ^ 32) (isPage : vaddr / 4096 = page) :
    m.pde vaddr = m.words m.cr3 (page / 1024) := by
  rw [Mem.pde, pdeIndex_eq small, isPage]

theorem Owned.pteTable_eq (owned : Owned b m) (inRange : InRange pf page)
    (small : vaddr < 2 ^ 32) (isPage : vaddr / 4096 = page) :
    m.pteTable vaddr = m.tableOf pf page := by
  rw [Mem.pteTable, pde_eq small isPage]
  cases pf with
  | kernel =>
      obtain ⟨low, high⟩ := inRange.pdeIndex
      obtain ⟨-, below, aligned⟩ := kernelTable_lt low high rfl
      rw [owned.kernelHalf _ owned.current _ low high]
      exact entryFrame_pageEntry aligned (below.trans (by decide))
  | user => rfl

/-- The kernel half of every directory is complete. -/
theorem Owned.pde_present (owned : Owned b m) (inRange : InRange .kernel page)
    (small : vaddr < 2 ^ 32) (isPage : vaddr / 4096 = page) :
    isPresent (m.pde vaddr) = true := by
  obtain ⟨low, high⟩ := inRange.pdeIndex
  rw [pde_eq small isPage, owned.kernelHalf _ owned.current _ low high, isPresent_pageEntry]

theorem Owned.unused (owned : Owned b m)
    (absent : isPresent (m.words (m.tableOf pf page) (page % 1024)) = false) :
    ¬ b.Uses m (m.place pf page) := by
  intro used
  rw [← entry_place m pf page] at absent
  cases pf with
  | kernel =>
      have there : isPresent (m.entry (m.place .kernel page)) = true := owned.present page used
      cases there.symm.trans absent
  | user => cases used.2.symm.trans absent

theorem mem_grant_kernelPages {pf : PoolFlags} {page page' : Nat} :
    page' ∈ (b.grant pf page).kernelPages ↔
      page' ∈ b.kernelPages ∨ m.place pf page = .kernelPage page' := by
  cases pf with
  | kernel =>
      simp only [Book.grant, Set.mem_insert_iff, Mem.place, Place.kernelPage.injEq]
      exact ⟨fun either => either.symm.imp_right Eq.symm,
        fun either => either.symm.imp_left Eq.symm⟩
  | user => simp [Book.grant, Mem.place]

theorem mem_revoke_kernelPages {pf : PoolFlags} {page page' : Nat} :
    page' ∈ (b.revoke pf page).kernelPages ↔
      page' ∈ b.kernelPages ∧ m.place pf page ≠ .kernelPage page' := by
  cases pf with
  | kernel =>
      simp only [Book.revoke, Set.mem_sdiff, Set.mem_singleton_iff, Mem.place, ne_eq,
        Place.kernelPage.injEq, eq_comm]
  | user => simp [Book.revoke, Mem.place]

/-- The last step of `page_table_add`: a frame that nobody holds goes to a page. -/
theorem Owned.setPte (owned : Owned b m) (inRange : InRange pf page)
    (small : vaddr < 2 ^ 32) (isPage : vaddr / 4096 = page)
    (there : isPresent (m.pde vaddr) = true) (inPool : m.InPool pf phyaddr)
    (spare : ∀ p, b.held m p ≠ some (pf, phyaddr))
    (ran : setPte m vaddr phyaddr = .ok m') :
    Mapped b m pf page 1 (b.grant pf page) m' := by
  obtain ⟨absent, rfl⟩ := setPte_eq_ok.mp ran
  rw [owned.pteTable_eq inRange small isPage, pteIndex_eq, isPage] at absent ⊢
  have unused := owned.unused absent
  have write : EntryWrite b m pf page (b.grant pf page)
      (m.setWord (m.tableOf pf page) (page % 1024) (pageEntry phyaddr)) := by
    refine ⟨rfl, inRange, ?_, ?_, Book.dirs_grant pf page, ?_⟩
    · rintro rfl
      obtain ⟨low, high⟩ := inRange.pdeIndex
      rw [pde_eq small isPage] at there
      exact ⟨owned.current, low, high, there⟩
    · intro frame idx other
      rw [Mem.words_setWord, if_neg other]
    · intro page' other
      rw [mem_grant_kernelPages (m := m)]
      simp [Ne.symm other]
  generalize isNext :
    m.setWord (m.tableOf pf page) (page % 1024) (pageEntry phyaddr) = m' at write ⊢
  have entry : m'.entry (m.place pf page) = pageEntry phyaddr := by
    rw [← place_congr write.fixed, entry_place, write.tableOf_eq owned, ← isNext]
    rw [Mem.words_setWord, if_pos ⟨rfl, rfl⟩]
  obtain ⟨aligned, -, below, -⟩ := inPool.frame owned.layout
  have used : (b.grant pf page).Uses m' (m.place pf page) := by
    cases pf with
    | kernel => exact Set.mem_insert page b.kernelPages
    | user =>
        refine ⟨(write.hasTable_iff owned _ _).mpr (write.hasTable rfl), ?_⟩
        change isPresent (m'.entry (m.place .user page)) = true
        rw [entry, isPresent_pageEntry]
  have new : (b.grant pf page).held m' (m.place pf page) = some (pf, phyaddr) := by
    rw [Book.held_eq_some, entry, entryFrame_pageEntry aligned below, pool_place]
    exact ⟨used, rfl⟩
  have keeps : ∀ p r, b.held m p = some r → (b.grant pf page).held m' p = some r := by
    intro p r holds
    have other : p ≠ m.place pf page := by
      rintro rfl
      exact unused (Book.held_eq_some.mp holds).1
    rw [write.held_eq owned other, holds]
  have only : ∀ p r, (b.grant pf page).held m' p = some r →
      b.held m p = some r ∨ p = m.place pf page ∧ r = (pf, phyaddr) := by
    intro p r holds
    by_cases same : p = m.place pf page
    · subst same
      exact Or.inr ⟨rfl, Option.some.inj (holds.symm.trans new)⟩
    · rw [write.held_eq owned same] at holds
      exact Or.inl holds
  have pools : m'.InPool = m.InPool := by
    rw [← isNext]
    rfl
  refine ⟨owned.update write.fixed write.dirs ?_ ?_ ?_ ?_ ?_, write.dirs, write.fixed, ?_, ?_, ?_,
    ?_, ?_, keeps, ?_⟩
  · exact fun dir isDir idx _ => write.dir_words owned isDir idx
  · rw [pools]
    have isTaken : (fun r : PoolFlags × Nat => m.InPool r.1 r.2) (pf, phyaddr) := inPool
    exact owned.owns.claim (m.place pf page) isTaken spare only
  · exact fun page' dir _ holds => keeps _ _ holds
  · intro page' isPage'
    rcases (mem_grant_kernelPages (m := m)).mp isPage' with old | isNew
    · exact owned.inRange page' old
    · cases pf with
      | kernel =>
          cases isNew
          exact inRange
      | user => cases isNew
  · intro page' isPage'
    by_cases same : Place.kernelPage page' = m.place pf page
    · rw [same, entry, isPresent_pageEntry]
    · have old := (write.pages page' same).mp isPage'
      rw [write.kernelEntry_eq owned (owned.inRange page' old) same]
      exact owned.present page' old
  · intro i one
    obtain rfl := Nat.lt_one_iff.mp one
    exact inRange
  · rintro rfl i one
    obtain rfl := Nat.lt_one_iff.mp one
    exact absent
  · exact fun page' inRange' other => write.kernelEntry_eq owned inRange' (other 0 Nat.one_pos)
  · intro i one
    obtain rfl := Nat.lt_one_iff.mp one
    exact Book.held_eq_none.mpr unused
  · intro i one
    obtain rfl := Nat.lt_one_iff.mp one
    exact ⟨phyaddr, new⟩
  · intro p r holds
    rcases only p r holds with old | ⟨isNew, -⟩
    · exact Or.inl old
    · exact Or.inr (Or.inl ⟨0, Nat.one_pos, isNew⟩)

/-- A frame that nobody holds is not a page directory. -/
theorem Owned.spare_notMem_dirs (owned : Owned b m) (inPool : m.InPool .kernel phyaddr)
    (spare : ∀ p, b.held m p ≠ some (.kernel, phyaddr)) : phyaddr ∉ b.dirs := by
  intro isDir
  rcases owned.dirFrame phyaddr isDir with isBoot | ⟨page, holds⟩
  · have value : phyaddr = 0x100000 := isBoot
    have above := (inPool.frame owned.layout).2.1
    omega
  · exact spare _ holds

end Mapping

/-- A cleared frame that nobody held stands behind an entry of the directory in use. -/
structure TableLink (b : Book) (m : Mem) (page table : Nat) (m' : Mem) : Prop where
  fixed : m'.fixed = m.fixed
  inPools : m'.InPool = m.InPool
  inRange : InRange .user page
  missing : isPresent (m.words m.cr3 (page / 1024)) = false
  inPool : m.InPool .kernel table
  spare : ∀ p, b.held m p ≠ some (.kernel, table)
  words : ∀ frame idx, m'.words frame idx =
    if frame = table then 0
    else if frame = m.cr3 ∧ idx = page / 1024 then pageEntry table
    else m.words frame idx

namespace TableLink

variable {b : Book} {m m' : Mem} {page table : Nat}

theorem notMem_dirs (link : TableLink b m page table m') (owned : Owned b m) : table ∉ b.dirs :=
  owned.spare_notMem_dirs link.inPool link.spare

theorem dir_words (link : TableLink b m page table m') (owned : Owned b m) {dir : Nat}
    (isDir : dir ∈ b.dirs) {idx : Nat} (other : ¬ (dir = m.cr3 ∧ idx = page / 1024)) :
    m'.words dir idx = m.words dir idx := by
  have notTable : dir ≠ table := fun same => link.notMem_dirs owned (same ▸ isDir)
  rw [link.words, if_neg notTable, if_neg other]

theorem new_word (link : TableLink b m page table m') (owned : Owned b m) :
    m'.words m.cr3 (page / 1024) = pageEntry table := by
  have notTable : m.cr3 ≠ table := fun same => link.notMem_dirs owned (same ▸ owned.current)
  rw [link.words, if_neg notTable, if_pos ⟨rfl, rfl⟩]

theorem new_frame (link : TableLink b m page table m') (owned : Owned b m) :
    entryFrame (m'.words m.cr3 (page / 1024)) = table := by
  obtain ⟨aligned, -, below, -⟩ := link.inPool.frame owned.layout
  rw [link.new_word owned, entryFrame_pageEntry aligned below]

theorem hasTable_iff (link : TableLink b m page table m') (owned : Owned b m) {dir idx : Nat}
    (other : ¬ (dir = m.cr3 ∧ idx = page / 1024)) :
    b.HasTable m' dir idx ↔ b.HasTable m dir idx := by
  unfold Book.HasTable
  refine and_congr_right fun isDir => ?_
  rw [link.dir_words owned isDir other]

theorem unused (link : TableLink b m page table m') : ¬ b.HasTable m m.cr3 (page / 1024) := by
  rintro ⟨-, -, -, there⟩
  rw [link.missing] at there
  cases there

theorem kernelEntry_eq (link : TableLink b m page table m') (owned : Owned b m) {page' : Nat}
    (inRange : InRange .kernel page') :
    m'.entry (.kernelPage page') = m.entry (.kernelPage page') := by
  obtain ⟨low, high⟩ := inRange.pdeIndex
  have isLow := (kernelTable_lt low high rfl).2.1
  have notDir := owned.dir_ne_kernelTable owned.current low high
  have above := (link.inPool.frame owned.layout).2.1
  have notTable : (kernelTable (page' / 1024) : Nat) ≠ table := by
    intro same
    rw [same] at isLow
    exact absurd isLow (Nat.not_lt.mpr above)
  simp only [Mem.entry]
  rw [link.words, if_neg notTable, if_neg fun both => notDir both.1.symm]

theorem held_new (link : TableLink b m page table m') (owned : Owned b m) :
    b.held m' (.pageTable m.cr3 (page / 1024)) = some (.kernel, table) := by
  obtain ⟨low, high⟩ := link.inRange.pdeIndex
  rw [Book.held_eq_some]
  refine ⟨⟨owned.current, low, high, ?_⟩, ?_⟩
  · rw [link.new_word owned, isPresent_pageEntry]
  · simp only [Mem.entry, link.new_frame owned]
    rfl

theorem held_eq (link : TableLink b m page table m') (owned : Owned b m) {p : Place}
    (other : p ≠ .pageTable m.cr3 (page / 1024)) : b.held m' p = b.held m p := by
  cases p with
  | kernelPage page' =>
      exact Book.held_congr Iff.rfl
        fun used => link.kernelEntry_eq owned (owned.inRange page' used)
  | pageTable dir idx =>
      have elsewhere : ¬ (dir = m.cr3 ∧ idx = page / 1024) := by
        rintro ⟨rfl, rfl⟩
        exact other rfl
      exact Book.held_congr (link.hasTable_iff owned elsewhere)
        fun used => link.dir_words owned used.1 elsewhere
  | userPage dir page' =>
      by_cases below : dir = m.cr3 ∧ page' / 1024 = page / 1024
      · obtain ⟨rfl, samePde⟩ := below
        have unused : ¬ b.Uses m (.userPage m.cr3 page') := by
          rintro ⟨has, -⟩
          rw [samePde] at has
          exact link.unused has
        have unused' : ¬ b.Uses m' (.userPage m.cr3 page') := by
          rintro ⟨-, there⟩
          simp only [Mem.entry] at there
          rw [samePde, link.new_frame owned, link.words, if_pos rfl] at there
          cases there
        rw [Book.held_eq_none.mpr unused, Book.held_eq_none.mpr unused']
      · have entry : b.HasTable m dir (page' / 1024) →
            m'.entry (.userPage dir page') = m.entry (.userPage dir page') := by
          intro has
          obtain ⟨holds, -, notDir⟩ := owned.table has rfl
          have notTable : entryFrame (m.words dir (page' / 1024)) ≠ table := by
            intro isTable
            rw [isTable] at holds
            exact link.spare _ holds
          have notCurrent : entryFrame (m.words dir (page' / 1024)) ≠ m.cr3 :=
            fun isDir => notDir (isDir ▸ owned.current)
          simp only [Mem.entry]
          rw [link.dir_words owned has.1 below, link.words, if_neg notTable,
            if_neg fun both => notCurrent both.1]
        refine Book.held_congr ?_ fun used => entry used.1
        change b.HasTable m' dir (page' / 1024) ∧ _ ↔ b.HasTable m dir (page' / 1024) ∧ _
        rw [link.hasTable_iff owned below]
        exact and_congr_right fun has => by rw [entry has]

theorem owned (link : TableLink b m page table m') (owned : Owned b m) : Owned b m' := by
  refine owned.update link.fixed rfl ?_ ?_ ?_ owned.inRange ?_
  · intro dir isDir idx high
    have low := link.inRange.pdeIndex.2
    exact link.dir_words owned isDir (by omega)
  · rw [link.inPools]
    have isTaken : (fun r : PoolFlags × Nat => m.InPool r.1 r.2) (.kernel, table) := link.inPool
    refine owned.owns.claim (.pageTable m.cr3 (page / 1024)) isTaken link.spare
      fun p r holds => ?_
    by_cases same : p = .pageTable m.cr3 (page / 1024)
    · subst same
      exact Or.inr ⟨rfl, Option.some.inj (holds.symm.trans (link.held_new owned))⟩
    · rw [link.held_eq owned same] at holds
      exact Or.inl holds
  · intro page' dir _ holds
    rw [link.held_eq owned (by simp), holds]
  · intro page' used
    rw [link.kernelEntry_eq owned (owned.inRange page' used)]
    exact owned.present page' used

theorem mapped (link : TableLink b m page table m') (owned : Owned b m) :
    Mapped b m .user page 0 b m' := by
  refine ⟨link.owned owned, rfl, link.fixed,
    fun _ impossible => absurd impossible (Nat.not_lt_zero _),
    fun _ _ impossible => absurd impossible (Nat.not_lt_zero _),
    fun page' inRange _ => link.kernelEntry_eq owned inRange,
    fun _ impossible => absurd impossible (Nat.not_lt_zero _),
    fun _ impossible => absurd impossible (Nat.not_lt_zero _), ?_, ?_⟩
  · intro p r holds
    have other : p ≠ .pageTable m.cr3 (page / 1024) := by
      rintro rfl
      exact link.unused (Book.held_eq_some.mp holds).1
    rw [link.held_eq owned other, holds]
  · intro p r holds
    by_cases same : p = .pageTable m.cr3 (page / 1024)
    · exact Or.inr (Or.inr ⟨_, same⟩)
    · rw [link.held_eq owned same] at holds
      exact Or.inl holds

end TableLink

theorem Owned.withTable {b : Book} {m : Mem} {page vaddr table : Nat} (owned : Owned b m)
    (inRange : InRange .user page) (small : vaddr < 2 ^ 32) (isPage : vaddr / 4096 = page)
    (missing : isPresent (m.pde vaddr) = false) (inPool : m.InPool .kernel table)
    (spare : ∀ p, b.held m p ≠ some (.kernel, table)) :
    TableLink b m page table (m.withTable vaddr table) := by
  obtain ⟨aligned, -, below, -⟩ := inPool.frame owned.layout
  have notDir := owned.spare_notMem_dirs inPool spare
  have notCurrent : table ≠ m.cr3 := fun same => notDir (same ▸ owned.current)
  have linked : (m.setWord m.cr3 (pdeIndex vaddr) (pageEntry table)).pteTable vaddr = table := by
    have word := m.words_setWord m.cr3 (pdeIndex vaddr) (pageEntry table) m.cr3 (pdeIndex vaddr)
    rw [if_pos ⟨rfl, rfl⟩] at word
    change entryFrame ((m.setWord m.cr3 (pdeIndex vaddr) (pageEntry table)).words m.cr3
      (pdeIndex vaddr)) = table
    rw [word, entryFrame_pageEntry aligned below]
  refine ⟨(withTable_frame m vaddr table).fixed, rfl, inRange, ?_, inPool, spare, ?_⟩
  · rw [← pde_eq small isPage, missing]
  · intro frame idx
    change ((m.setWord m.cr3 (pdeIndex vaddr) (pageEntry table)).clearFrame
      ((m.setWord m.cr3 (pdeIndex vaddr) (pageEntry table)).pteTable vaddr)).words frame idx = _
    rw [linked, Mem.words_clearFrame, Mem.words_setWord, pdeIndex_eq small, isPage]

end HongbaiOS.Memory
