import HongbaiOS.Memory.ThreadPages

/-!
# All histories of the page operations

Kernel threads and processes allocate and release pages one after another.  The bitmaps, the
page tables and the frames agree in every state that is reached if they do at the start.
`mem_pool_init` clears the bitmaps, but nobody clears the page tables of the kernel: what
memory held there at power-on decides.
-/

namespace HongbaiOS.Memory

open HongbaiOS.Library HongbaiOS.Kernel HongbaiOS.Lib HongbaiOS.Thread

/-- What the running task, or the scheduler, does next. -/
inductive PageStep : PageState → PageState → Prop
  | call {s : PageState} {call : PageCall} {result : Option Address} {m' : Mem}
      (allowed : call.Allowed s) (ran : call.run s.mem = .ok (result, m')) :
      PageStep s ⟨m', call.grants s result, s.threads⟩
  | threadStart {s : PageState} {thread : Tid} {m' : Mem}
      (ran : threadStart s.mem = .ok (thread, m')) :
      PageStep s ⟨m', s.granted, insert thread s.threads⟩
  | processExecute {s : PageState} {thread : Tid} {m' : Mem}
      (ran : processExecute s.mem = .ok (thread, m')) :
      PageStep s ⟨m', s.granted, insert thread s.threads⟩
  | schedule {s : PageState} {next : Tid} {m' : Mem} (isThread : next ∈ s.threads)
      (ran : schedule s.mem next = .ok m') : PageStep s ⟨m', s.granted, s.threads⟩

/-- The directory that is loaded when a task is switched to. -/
def Mem.HasDir (m : Mem) (t : Tid) (dir : Nat) : Prop :=
  ∃ m', pageDirActivate m t = .ok m' ∧ m'.cr3 = dir

/-- The frame is the next that `palloc` hands out of some pool. -/
def Mem.HandsOut (m : Mem) (frame : Nat) : Prop :=
  ∃ pf m', palloc m pf = .ok (some frame, m')

namespace PageState

/-- Page `i` of a range of a thread is mapped to a frame: the entries of its directory and of
its page table are present. -/
def MapsTo (s : PageState) (t : Tid) (pf : PoolFlags) (i frame : Nat) : Prop :=
  t ∈ s.threads ∧ i < s.mem.pageCnt t pf ∧ ∃ dir, s.mem.HasDir t dir ∧
    (s.mem.under dir).translate ((s.mem.firstPage t pf + i) * pgSize) = .ok frame

/-- The frame is the page table of page `i` of a range of a thread. -/
def HasTable (s : PageState) (t : Tid) (pf : PoolFlags) (i frame : Nat) : Prop :=
  t ∈ s.threads ∧ i < s.mem.pageCnt t pf ∧ ∃ dir, s.mem.HasDir t dir ∧
    isPresent ((s.mem.under dir).pde ((s.mem.firstPage t pf + i) * pgSize)) = true ∧
    (s.mem.under dir).pteTable ((s.mem.firstPage t pf + i) * pgSize) = frame

end PageState

/-- The bitmaps, the page tables and the frames agree, and no call that is allowed fails an
assertion of `page_table_add` or `mfree_page`. -/
structure Consistent (s : PageState) : Prop where
  rightPool : ∀ t pf i frame, s.MapsTo t pf i frame → s.mem.InPool pf frame
  once : ∀ t pf i t' pf' i' frame, s.MapsTo t pf i frame → s.MapsTo t' pf' i' frame →
    pf = pf' ∧ i = i' ∧ (pf = .user → t = t')
  tables : ∀ t pf i frame, s.HasTable t pf i frame →
    ¬ s.mem.HandsOut frame ∧ ∀ t' pf' i', ¬ s.MapsTo t' pf' i' frame
  dirs : ∀ t ∈ s.threads, ∀ dir, s.mem.HasDir t dir →
    ¬ s.mem.HandsOut dir ∧ ∀ t' i, ¬ s.MapsTo t' .user i dir
  bits : ∀ t ∈ s.threads, ∀ pf, ∀ i < s.mem.pageCnt t pf,
    (s.mem.pageBit t pf i = true ↔ ∃ frame, s.MapsTo t pf i frame)
  calls : ∀ call : PageCall, call.Allowed s → Avoids PageAssertion (call.run s.mem)
  threadStart : Avoids PageAssertion (threadStart s.mem)
  processExecute : Avoids PageAssertion (processExecute s.mem)

/-- The number of pages that the address bitmap of the kernel stands for: one for each frame
of the kernel's pool, in whole bytes. -/
def kernelPageCnt (memBytesTotal : Nat) : Nat :=
  wrapSub memBytesTotal (256 * pgSize + 0x100000) / pgSize % 2 ^ 16 / 2 / 8 * 8

/-- At power-on the entries of all these pages are absent. -/
def Blank (m : Mem) (memBytesTotal : Nat) : Prop :=
  ∀ i < kernelPageCnt memBytesTotal,
    isPresent (m.words (kernelTable ((kHeapPage + i) / 1024)) ((kHeapPage + i) % 1024)) = false

theorem boot_kernelPageCnt (m : Mem) (memBytesTotal : Nat) :
    (boot m memBytesTotal).kernelVaddr.vaddrBitmap.bitLen = kernelPageCnt memBytesTotal := rfl

section Histories

variable {b : Book} {s s' : PageState}

theorem Sound.call {call : PageCall} {result : Option Address} {m' : Mem}
    (sound : Sound b s.mem s.granted s.threads) (allowed : call.Allowed s)
    (ran : call.run s.mem = .ok (result, m')) :
    ∃ b', Sound b' m' (call.grants s result) s.threads := by
  have owned := sound.coherent.owned
  cases call with
  | mallocPage pf pgCnt =>
      obtain ⟨page, b', rfl, allotted⟩ := owned.allotted_mallocPage ran
      rw [PageCall.grants, Mem.pages_some s.mem pf (page_address_div page)]
      exact ⟨b', sound.grant allotted⟩
  | getKernelPages pgCnt =>
      obtain ⟨page, b', rfl, allotted⟩ := owned.allotted_getKernelPages ran
      rw [PageCall.grants, Mem.pages_some s.mem .kernel (page_address_div page)]
      exact ⟨b', sound.grant allotted⟩
  | getUserPage pgCnt =>
      obtain ⟨page, b', rfl, allotted⟩ := owned.allotted_getUserPage ran
      rw [PageCall.grants, Mem.pages_some s.mem .user (page_address_div page)]
      exact ⟨b', sound.grant allotted⟩
  | getAPage pf vaddr =>
      obtain ⟨rfl, b', allotted⟩ := owned.allotted_getAPage vaddr.toNat_lt ran
      rw [PageCall.grants, Mem.pages_some s.mem pf rfl]
      exact ⟨b', sound.grant allotted⟩
  | mfreePage pf vaddr pgCnt =>
      obtain ⟨-, aligned, owns⟩ := allowed
      obtain ⟨m₁, freed, ran⟩ := except_bind_eq_ok.mp ran
      simp only [pure_eq_ok, Except.ok.injEq, Prod.mk.injEq] at ran
      obtain ⟨rfl, rfl⟩ := ran
      rw [PageCall.grants, Mem.pages_some s.mem pf rfl]
      rw [Mem.pages_some s.mem pf rfl] at owns
      have owns' : ∀ i < pgCnt.toNat, s.mem.place pf (vaddr.toNat / pgSize + i) ∈ s.granted :=
        fun i small => owns ⟨i, small, rfl⟩
      have whole : vaddr.toNat = vaddr.toNat / pgSize * 4096 :=
        (Nat.div_mul_cancel (Nat.dvd_of_mod_eq_zero aligned)).symm
      rw [whole] at freed
      obtain ⟨b', withdrawn⟩ := owned.withdrawn (sound.coherent.plain owns') freed
      exact ⟨b', sound.coherent.unmapped owns' withdrawn.toUnmapped,
        sound.tracked.withdrawn sound.coherent owns' withdrawn⟩

theorem Sound.step (sound : Sound b s.mem s.granted s.threads) (step : PageStep s s') :
    ∃ b', Sound b' s'.mem s'.granted s'.threads := by
  cases step with
  | call allowed ran => exact sound.call allowed ran
  | threadStart ran => exact sound.threadStart.2 _ ran
  | processExecute ran => exact sound.processExecute.2 _ ran
  | schedule isThread ran => exact ⟨b, sound.schedule isThread ran⟩

theorem Sound.run (sound : Sound b s.mem s.granted s.threads)
    (ran : Relation.ReflTransGen PageStep s s') :
    ∃ b', Sound b' s'.mem s'.granted s'.threads := by
  induction ran with
  | refl => exact ⟨b, sound⟩
  | tail _ last inductionHypothesis =>
      obtain ⟨b₁, sound₁⟩ := inductionHypothesis
      exact sound₁.step last

theorem Sound.avoids_call {call : PageCall} (sound : Sound b s.mem s.granted s.threads)
    (allowed : call.Allowed s) : Avoids PageAssertion (call.run s.mem) := by
  cases call with
  | mallocPage pf pgCnt => exact sound.tracked.avoids_mallocPage sound.coherent
  | getKernelPages pgCnt => exact sound.avoids_getKernelPages
  | getUserPage pgCnt => exact sound.avoids_getUserPage
  | getAPage pf vaddr =>
      obtain ⟨i, inside, -, clear, isPage⟩ := allowed
      exact sound.avoids_getAPage vaddr.toNat_lt inside clear isPage
  | mfreePage pf vaddr pgCnt =>
      obtain ⟨positive, aligned, owns⟩ := allowed
      rw [Mem.pages_some s.mem pf rfl] at owns
      have plain : b.Plain s.mem pf (vaddr.toNat / pgSize) pgCnt.toNat :=
        sound.coherent.plain fun i small => owns ⟨i, small, rfl⟩
      have whole : vaddr.toNat / pgSize * 4096 = vaddr.toNat :=
        Nat.div_mul_cancel (Nat.dvd_of_mod_eq_zero aligned)
      have avoids := sound.coherent.owned.avoids_mfreePage plain positive
      rw [whole] at avoids
      exact avoids.bind fun _ _ => avoids_ok _

/-- The loader stores nothing into the entries of the kernel's heap. -/
theorem boot_kernelEntry (m : Mem) (memBytesTotal : Nat) {page : Nat}
    (inRange : InRange .kernel page) :
    (boot m memBytesTotal).entry (.kernelPage page) =
      m.words (kernelTable (page / 1024)) (page % 1024) := by
  obtain ⟨low, high⟩ := inRange.pdeIndex
  have notDir : kernelTable (page / 1024) ≠ pageDirTablePos := by
    intro same
    have above := (kernelTable_lt low high rfl).1
    rw [same] at above
    exact absurd above (by decide)
  have notMapped : ¬ (kernelTable (page / 1024) = kernelTable 768 ∧ page % 1024 < 256) := by
    rintro ⟨same, lowIdx⟩
    have first := kernelTable_inj low (le_refl 768) rfl same
    have isHeap := inRange.1
    simp only [kHeapPage] at isHeap
    omega
  have words : (boot m memBytesTotal).words = (setupPage m).words := rfl
  simp only [Mem.entry, words, setupPage, if_neg notDir, if_neg notMapped]

/-- At boot no bit is set, and it depends on the tables of the kernel whether the entries
are absent. -/
theorem Sound.boot {m : Mem} {memBytesTotal : Nat} (blank : Blank m memBytesTotal) :
    Sound Book.boot (Memory.boot m memBytesTotal) ∅ {mainThread} := by
  refine ⟨Coherent.boot m memBytesTotal, ?_, fun t _ _ => rfl, ?_, rfl, ?_⟩
  · rintro t - dir - pf i inside
    cases pf with
    | kernel =>
        have clear : (Memory.boot m memBytesTotal).pageBit t .kernel i = false :=
          Bitmap.bit_fill_zero _ i
        rw [clear]
        simp only [Bool.false_eq_true, false_iff]
        exact Set.notMem_empty _
    | user => exact absurd inside (Nat.not_lt_zero i)
  · rintro t rfl t' rfl v - -
    rfl
  · intro i inside _
    rw [boot_kernelEntry m memBytesTotal ((boot_layout m memBytesTotal).kernel_inRange inside)]
    rw [boot_kernelPageCnt] at inside
    exact blank i inside

end Histories

section Consistency

variable {b : Book} {m : Mem} {granted : Set Place} {threads : Set Tid} {pf : PoolFlags}
  {dir page vaddr frame : Nat} {t : Tid}

theorem translate_eq_ok : m.translate vaddr = .ok frame ↔ isPresent (m.pde vaddr) = true ∧
    isPresent (m.words (m.pteTable vaddr) (pteIndex vaddr)) = true ∧
      entryFrame (m.words (m.pteTable vaddr) (pteIndex vaddr)) = frame := by
  unfold Mem.translate Mem.pte
  by_cases there : isPresent (m.pde vaddr) = true
  · by_cases present : isPresent (m.words (m.pteTable vaddr) (pteIndex vaddr)) = true
    · simp [there, present]
    · simp [there, present]
  · simp [there]

/-- The directories of the tasks are in the book. -/
theorem Coherent.dirOf_mem (coherent : Coherent b m granted threads) (isDir : b.DirOf m t dir) :
    dir ∈ b.dirs := by
  obtain ⟨m', activated, rfl⟩ := coherent.pageDirActivate_iff.mpr isDir
  exact coherent.directories_subset ⟨t, m', activated, rfl⟩

theorem Coherent.under (coherent : Coherent b m granted threads) (isDir : dir ∈ b.dirs) :
    Owned b (m.under dir) :=
  (coherent.switch isDir coherent.running).owned

theorem Owned.uses_of_present (owned : Owned b m) (inRange : InRange pf page)
    (kernel : pf = .kernel → page ∉ b.kernelPages →
      isPresent (m.entry (.kernelPage page)) = false)
    (there : isPresent (m.words m.cr3 (page / 1024)) = true)
    (present : isPresent (m.entry (m.place pf page)) = true) : b.Uses m (m.place pf page) := by
  cases pf with
  | kernel =>
      by_contra unused
      exact Bool.false_ne_true ((kernel rfl unused).symm.trans present)
  | user =>
      obtain ⟨low, high⟩ := inRange.pdeIndex
      exact ⟨⟨owned.current, low, high, there⟩, present⟩

theorem Sound.translate_iff (sound : Sound b m granted threads) (isDir : b.DirOf m t dir) {i : Nat}
    (inside : i < m.pageCnt t pf) :
    (m.under dir).translate ((m.firstPage t pf + i) * pgSize) = .ok frame ↔
      b.held m (placeIn dir pf (m.firstPage t pf + i)) = some (pf, frame) := by
  have layout := sound.coherent.owned.layout
  have owned := sound.coherent.under (sound.coherent.dirOf_mem isDir)
  have held : b.held (m.under dir) = b.held m := b.held_of_words rfl
  obtain ⟨-, inRange⟩ := layout.range t pf inside
  have kernel : pf = .kernel → m.firstPage t pf + i ∉ b.kernelPages →
      isPresent ((m.under dir).entry (.kernelPage (m.firstPage t pf + i))) = false := by
    rintro rfl notUsed
    rw [layout.firstPage_kernel] at notUsed ⊢
    exact sound.tracked.absent i inside notUsed
  generalize m.firstPage t pf + i = page at inRange kernel ⊢
  obtain ⟨small, isPage⟩ := inRange.address (by decide : 0 < 4096)
  rw [Nat.add_zero] at small isPage
  have place : (m.under dir).place pf page = placeIn dir pf page := place_eq_placeIn _ _ _
  rw [← held, ← place]
  change (m.under dir).translate (page * 4096) = _ ↔ _
  constructor
  · intro reached
    obtain ⟨there, present, rfl⟩ := translate_eq_ok.mp reached
    rw [pde_eq small isPage] at there
    rw [owned.pteTable_eq inRange small isPage, pteIndex_eq, isPage, ← entry_place] at present ⊢
    have used := owned.uses_of_present inRange kernel there present
    rw [Book.held_eq_some, pool_place]
    exact ⟨used, rfl⟩
  · exact owned.translate_eq inRange small isPage

/-- The frame is one of the kernel's: below the pools, or held from the kernel's pool. -/
def Book.KernelFrame (b : Book) (m : Mem) (frame : Nat) : Prop :=
  frame < 0x200000 ∨ ∃ p, b.held m p = some (.kernel, frame)

/-- Frames that are held are not handed out again. -/
theorem Owned.not_handsOut (owned : Owned b m) (kernel : b.KernelFrame m frame) :
    ¬ m.HandsOut frame := by
  rintro ⟨pf, m', ran⟩
  obtain ⟨phyaddr, isFrame, taken⟩ := owned.palloc ran
  obtain rfl := Option.some.inj isFrame
  have layout := taken.owned.layout
  rcases kernel with low | ⟨p, holds⟩
  · have above := (taken.inPool.frame layout).2.1
    omega
  · have old := taken.grown _ _ (owned.owns.taken p _ holds)
    obtain rfl := old.pool_eq taken.inPool layout
    rw [← taken.held] at holds
    exact taken.spare p holds

theorem Owned.not_user (owned : Owned b m) (kernel : b.KernelFrame m frame) (p : Place) :
    b.held m p ≠ some (.user, frame) := by
  intro holds
  have inPool := owned.owns.taken p _ holds
  rcases kernel with low | ⟨p', holds'⟩
  · have above := (inPool.frame owned.layout).2.1
    simp only at above
    omega
  · cases (owned.owns.taken p' _ holds').pool_eq inPool owned.layout

theorem Book.DirOf.kernelFrame (isDir : b.DirOf m t dir) : b.KernelFrame m dir := by
  unfold Book.DirOf at isDir
  split at isDir
  next =>
    have value : dir = 0x100000 := isDir
    exact Or.inl (by omega)
  next => exact Or.inr ⟨_, isDir⟩

theorem Coherent.exists_dirOf (coherent : Coherent b m granted threads) (t : Tid) :
    ∃ dir, b.DirOf m t dir := by
  unfold Book.DirOf
  cases isDir : (m.task t).pgdir with
  | none => exact ⟨_, rfl⟩
  | some v =>
      obtain ⟨page, dir, -, rfl, holds⟩ := coherent.pgdirs t v isDir
      have isPage : page * 4096 / 4096 = page := page_address_div page
      exact ⟨dir, by simpa only [isPage] using holds⟩

theorem Sound.table (sound : Sound b m granted threads) (isDir : b.DirOf m t dir) {i : Nat}
    (inside : i < m.pageCnt t pf)
    (there : isPresent ((m.under dir).pde ((m.firstPage t pf + i) * pgSize)) = true)
    (isTable : (m.under dir).pteTable ((m.firstPage t pf + i) * pgSize) = frame) :
    b.KernelFrame m frame ∧
      ∀ dir' pf' page', b.held m (placeIn dir' pf' page') ≠ some (pf', frame) := by
  have owned := sound.coherent.owned
  have owned' := sound.coherent.under (sound.coherent.dirOf_mem isDir)
  obtain ⟨-, inRange⟩ := owned.layout.range t pf inside
  generalize m.firstPage t pf + i = page at there isTable inRange
  obtain ⟨small, isPage⟩ := inRange.address (by decide : 0 < 4096)
  rw [Nat.add_zero] at small isPage
  change isPresent ((m.under dir).pde (page * 4096)) = true at there
  change (m.under dir).pteTable (page * 4096) = frame at isTable
  rw [owned'.pteTable_eq inRange small isPage] at isTable
  rw [pde_eq small isPage] at there
  cases pf with
  | kernel =>
      obtain ⟨low, high⟩ := inRange.pdeIndex
      have below := (kernelTable_lt low high isTable.symm).2.1
      refine ⟨Or.inl below, fun dir' pf' page' holds => ?_⟩
      have above := ((owned.owns.taken _ _ holds).frame owned.layout).2.1
      simp only at above
      omega
  | user =>
      obtain ⟨low, high⟩ := inRange.pdeIndex
      have has : b.HasTable m dir (page / 1024) :=
        ⟨sound.coherent.dirOf_mem isDir, low, high, there⟩
      have holds := (owned.table has isTable.symm).1
      refine ⟨Or.inr ⟨_, holds⟩, fun dir' pf' page' holds' => ?_⟩
      obtain rfl : pf' = .kernel :=
        (owned.owns.taken _ _ holds').pool_eq (owned.owns.taken _ _ holds) owned.layout
      cases owned.owns.once _ _ _ holds holds'

theorem Sound.mapsTo_iff {s : PageState} (sound : Sound b s.mem s.granted s.threads) {i : Nat} :
    s.MapsTo t pf i frame ↔ t ∈ s.threads ∧ i < s.mem.pageCnt t pf ∧ ∃ dir, b.DirOf s.mem t dir ∧
      b.held s.mem (placeIn dir pf (s.mem.firstPage t pf + i)) = some (pf, frame) := by
  refine and_congr_right fun _ => and_congr_right fun inside => exists_congr fun dir => ?_
  have activates : s.mem.HasDir t dir ↔ b.DirOf s.mem t dir := sound.coherent.pageDirActivate_iff
  rw [activates]
  exact and_congr_right fun isDir => sound.translate_iff isDir inside

theorem Sound.consistent {s : PageState} (sound : Sound b s.mem s.granted s.threads) :
    Consistent s := by
  have owned := sound.coherent.owned
  have tracked := sound.tracked
  refine ⟨?_, ?_, ?_, ?_, ?_, fun call allowed => sound.avoids_call allowed,
    sound.threadStart.1, sound.processExecute.1⟩
  · intro t pf i frame maps
    obtain ⟨-, -, dir, -, holds⟩ := sound.mapsTo_iff.mp maps
    exact owned.owns.taken _ _ holds
  · intro t pf i t' pf' i' frame maps maps'
    obtain ⟨isThread, inside, dir, isDir, holds⟩ := sound.mapsTo_iff.mp maps
    obtain ⟨isThread', -, dir', isDir', holds'⟩ := sound.mapsTo_iff.mp maps'
    obtain rfl : pf = pf' :=
      (owned.owns.taken _ _ holds).pool_eq (owned.owns.taken _ _ holds') owned.layout
    have samePlace := owned.owns.once _ _ _ holds holds'
    cases pf with
    | kernel =>
        have samePage := Nat.add_left_cancel (Place.kernelPage.inj samePlace)
        exact ⟨rfl, samePage, nofun⟩
    | user =>
        obtain ⟨rfl, samePage⟩ := Place.userPage.inj samePlace
        obtain rfl := tracked.thread_eq sound.coherent isThread isThread' isDir isDir'
          (Nat.zero_lt_of_lt inside)
        exact ⟨rfl, Nat.add_left_cancel samePage, fun _ => rfl⟩
  · rintro t pf i frame ⟨-, inside, dir, activated, there, isTable⟩
    have isDir := sound.coherent.pageDirActivate_iff.mp activated
    obtain ⟨kernel, notPage⟩ := sound.table isDir inside there isTable
    refine ⟨owned.not_handsOut kernel, fun t' pf' i' maps => ?_⟩
    obtain ⟨-, -, dir', -, holds⟩ := sound.mapsTo_iff.mp maps
    exact notPage dir' pf' _ holds
  · intro t _ dir activated
    have isDir := sound.coherent.pageDirActivate_iff.mp activated
    have kernel := isDir.kernelFrame
    refine ⟨owned.not_handsOut kernel, fun t' i maps => ?_⟩
    obtain ⟨-, -, dir', -, holds⟩ := sound.mapsTo_iff.mp maps
    exact owned.not_user kernel _ holds
  · intro t isThread pf i inside
    obtain ⟨dir, isDir⟩ := sound.coherent.exists_dirOf t
    rw [tracked.bits t isThread dir isDir pf i inside, Book.uses_iff]
    constructor
    · rintro ⟨⟨pf', frame⟩, holds⟩
      obtain rfl : pf' = pf := by
        have pool := (owned.inPool holds).2
        rwa [pool_placeIn] at pool
      exact ⟨frame, sound.mapsTo_iff.mpr ⟨isThread, inside, dir, isDir, holds⟩⟩
    · rintro ⟨frame, maps⟩
      obtain ⟨-, -, dir', isDir', holds⟩ := sound.mapsTo_iff.mp maps
      obtain rfl := isDir'.unique isDir
      exact ⟨_, holds⟩

end Consistency

theorem boot_translate {m : Mem} {memBytesTotal page : Nat} (inRange : InRange .kernel page)
    (stale : isPresent (m.words (kernelTable (page / 1024)) (page % 1024)) = true) :
    ∃ frame, (boot m memBytesTotal).translate (page * 4096) = .ok frame := by
  have owned := boot_owned m memBytesTotal
  obtain ⟨small, isPage⟩ := inRange.address (by decide : 0 < 4096)
  rw [Nat.add_zero] at small isPage
  refine ⟨_, translate_eq_ok.mpr ⟨owned.pde_present inRange small isPage, ?_, rfl⟩⟩
  rw [owned.pteTable_eq inRange small isPage, pteIndex_eq, isPage, ← entry_place, Mem.place,
    boot_kernelEntry m memBytesTotal inRange]
  exact stale

theorem boot_mapsTo {m : Mem} {memBytesTotal i : Nat}
    (inside : i < kernelPageCnt memBytesTotal)
    (stale : isPresent
      (m.words (kernelTable ((kHeapPage + i) / 1024)) ((kHeapPage + i) % 1024)) = true) :
    ∃ frame, (PageState.boot m memBytesTotal).MapsTo mainThread .kernel i frame := by
  have layout := boot_layout m memBytesTotal
  rw [← boot_kernelPageCnt m] at inside
  obtain ⟨frame, reached⟩ := boot_translate (layout.kernel_inRange inside) stale
  refine ⟨frame, rfl, inside, pageDirTablePos, ⟨_, rfl, rfl⟩, ?_⟩
  change (boot m memBytesTotal).translate
    (((boot m memBytesTotal).firstPage mainThread .kernel + i) * pgSize) = .ok frame
  rw [layout.firstPage_kernel]
  exact reached

/-- Bitmaps, tables and frames agree in every state of every history if and only if the
entries of the kernel's heap are absent at power-on. -/
theorem consistent_iff_blank (m : Mem) (memBytesTotal : Nat) :
    (∀ s, Relation.ReflTransGen PageStep (.boot m memBytesTotal) s → Consistent s) ↔
      Blank m memBytesTotal := by
  constructor
  · intro consistent i inside
    rw [← Bool.not_eq_true]
    intro stale
    have maps := boot_mapsTo inside stale
    have isPage : i < (PageState.boot m memBytesTotal).mem.pageCnt mainThread .kernel := inside
    have bit := (consistent _ .refl).bits mainThread rfl .kernel i isPage
    have clear : (boot m memBytesTotal).pageBit mainThread .kernel i = false :=
      Bitmap.bit_fill_zero _ i
    exact Bool.false_ne_true (clear.symm.trans (bit.mpr maps))
  · intro blank s ran
    obtain ⟨b, sound⟩ := (Sound.boot blank).run ran
    exact sound.consistent

/-- A machine whose memory holds ones at power-on. -/
def powerOnStale : Mem := { powerOn with words := fun _ _ => 1 }

/-- There the very first `malloc_page` fails the assertion of `page_table_add`. -/
theorem mallocPage_stale :
    (PageCall.mallocPage .kernel 1).run (boot powerOnStale 0x2000000) =
        .error (.panic .pageTableAdd) ∧
      ¬ Consistent (.boot powerOnStale 0x2000000) := by
  have fails : (PageCall.mallocPage .kernel 1).run (boot powerOnStale 0x2000000) =
      .error (.panic .pageTableAdd) := by
    rfl
  refine ⟨fails, fun consistent => ?_⟩
  exact consistent.calls (.mallocPage .kernel 1) trivial _ fails .pageTableAdd

end HongbaiOS.Memory
