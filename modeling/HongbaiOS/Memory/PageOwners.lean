import HongbaiOS.Memory.Ownership

/-!
# What the page operations own

`malloc_page`, `get_kernel_pages`, `get_a_page` and `mfree_page` keep the ownership of frames:
pages that are handed out were not in use and get frames that nobody held, and a released
frame is held by nobody.
-/

namespace HongbaiOS.Memory

open HongbaiOS.Library HongbaiOS.Kernel HongbaiOS.Lib HongbaiOS.Thread

section Allocating

variable {b : Book} {m m' : Mem} {pf : PoolFlags} {page vaddr phyaddr : Nat}

/-- Nothing that the places depend on has changed. -/
theorem Book.held_of_words (b : Book) (words : m'.words = m.words) : b.held m' = b.held m := by
  have entry : m'.entry = m.entry := by
    funext p
    cases p <;> simp only [Mem.entry, words]
  have uses : b.Uses m' = b.Uses m := by
    funext p
    cases p <;> simp only [Book.Uses, Book.HasTable, words, entry]
  funext p
  unfold Book.held
  rw [uses, entry]

theorem kernelEntry_of_words (words : m'.words = m.words) (page : Nat) :
    m'.entry (.kernelPage page) = m.entry (.kernelPage page) := by
  simp only [Mem.entry, words]

theorem Owned.mark (owned : Owned b m) (fixed : m'.fixed = m.fixed) (words : m'.words = m.words)
    (grown : ∀ pf phyaddr, m.InPool pf phyaddr → m'.InPool pf phyaddr) : Owned b m' := by
  have held := b.held_of_words words
  refine owned.update fixed rfl ?_ ?_ ?_ owned.inRange ?_
  · intro dir _ idx _
    rw [words]
  · rw [held]
    exact owned.owns.shrink (fun _ _ holds => holds) fun _ r _ taken => grown r.1 r.2 taken
  · intro page dir _ holds
    rw [held, holds]
  · intro page used
    rw [kernelEntry_of_words words]
    exact owned.present page used

/-- A frame that nobody holds has been marked as taken. -/
structure Taken (b : Book) (m : Mem) (pf : PoolFlags) (phyaddr : Nat) (m' : Mem) : Prop where
  owned : Owned b m'
  fixed : m'.fixed = m.fixed
  words : m'.words = m.words
  inPool : m'.InPool pf phyaddr
  spare : ∀ p, b.held m' p ≠ some (pf, phyaddr)
  grown : ∀ pf phyaddr, m.InPool pf phyaddr → m'.InPool pf phyaddr

theorem Taken.cr3 (taken : Taken b m pf phyaddr m') : m'.cr3 = m.cr3 :=
  congrArg Fixed.cr3 taken.fixed

theorem Taken.held (taken : Taken b m pf phyaddr m') : b.held m' = b.held m :=
  b.held_of_words taken.words

theorem Taken.mapped (taken : Taken b m pf phyaddr m') (pf' : PoolFlags) (page : Nat) :
    Mapped b m pf' page 0 b m' :=
  taken.owned.mapped_none taken.fixed taken.held
    (fun page' _ => kernelEntry_of_words taken.words page')
    pf' page

theorem Owned.taken (owned : Owned b m) {i : Nat} (inside : i < m.frames pf)
    (free : (m.pool pf).poolBitmap.bit i = false) :
    Taken b m pf (m.start pf + i * 4096)
      (m.setPoolBitmap pf ((m.pool pf).poolBitmap.put i true)) := by
  have words : (m.setPoolBitmap pf ((m.pool pf).poolBitmap.put i true)).words = m.words := by
    cases pf <;> rfl
  have fixed := (PageFrame.setPoolBitmap m pf (Bitmap.put_btmpBytesLen i true)).fixed
  have pools := Mem.inPool_put true inside
  have grown : ∀ pf' phyaddr, m.InPool pf' phyaddr →
      (m.setPoolBitmap pf ((m.pool pf).poolBitmap.put i true)).InPool pf' phyaddr := by
    intro pf' phyaddr taken
    rw [pools]
    split
    next => rfl
    next => exact taken
  refine ⟨owned.mark fixed words grown, fixed, words, ?_, ?_, grown⟩
  · rw [pools, if_pos ⟨rfl, rfl⟩]
  · intro p holds
    rw [b.held_of_words words] at holds
    obtain ⟨j, -, set, same⟩ := owned.owns.taken p _ holds
    have sameBit : j = i := by
      simp only at same
      omega
    rw [sameBit, free] at set
    cases set

/-- `palloc` hands out a frame that nobody holds. -/
theorem Owned.palloc {result : Option Address} (owned : Owned b m)
    (ran : palloc m pf = .ok (result, m')) :
    ∃ phyaddr, result = some phyaddr ∧ Taken b m pf phyaddr m' := by
  obtain ⟨i, inside, free, isResult, rfl⟩ := palloc_eq_ok ran
  rw [owned.layout.wrap_frame inside] at isResult
  exact ⟨_, isResult, owned.taken inside free⟩

/-- The table is there, or a new one is put into the directory first. -/
theorem Owned.pageTableAdd (owned : Owned b m) (inRange : InRange pf page)
    (small : vaddr < 2 ^ 32) (isPage : vaddr / 4096 = page) (inPool : m.InPool pf phyaddr)
    (spare : ∀ p, b.held m p ≠ some (pf, phyaddr))
    (ran : pageTableAdd m vaddr phyaddr = .ok m') :
    Mapped b m pf page 1 (b.grant pf page) m' := by
  unfold Memory.pageTableAdd at ran
  split at ran
  next there => exact owned.setPte inRange small isPage there inPool spare ran
  next missing =>
    rw [Bool.not_eq_true] at missing
    cases pf with
    | kernel => cases missing.symm.trans (owned.pde_present inRange small isPage)
    | user =>
        obtain ⟨⟨result, m₁⟩, allocated, ran⟩ := except_bind_eq_ok.mp ran
        obtain ⟨table, rfl, taken⟩ := owned.palloc allocated
        have missing' : isPresent (m₁.pde vaddr) = false := by
          rw [Mem.pde, taken.words, taken.cr3]
          exact missing
        have link := taken.owned.withTable inRange small isPage missing' taken.inPool taken.spare
        change Memory.setPte (m₁.withTable vaddr table) vaddr phyaddr = _ at ran
        generalize m₁.withTable vaddr table = m₂ at link ran
        have cr3 : m₂.cr3 = m₁.cr3 := congrArg Fixed.cr3 link.fixed
        have linked := link.owned taken.owned
        have there : isPresent (m₂.pde vaddr) = true := by
          rw [pde_eq small isPage, cr3, link.new_word taken.owned, isPresent_pageEntry]
        have inPool₂ : m₂.InPool .user phyaddr := by
          rw [link.inPools]
          exact taken.grown _ _ inPool
        have spare₂ : ∀ p, b.held m₂ p ≠ some (.user, phyaddr) := by
          intro p holds
          rcases (link.mapped taken.owned).only p _ holds with old | ⟨_, impossible, -⟩ | ⟨_, rfl⟩
          · rw [taken.held] at old
            exact spare p old
          · exact absurd impossible (Nat.not_lt_zero _)
          · cases (linked.inPool holds).2
        have mapped := linked.setPte inRange small isPage there inPool₂ spare₂ ran
        exact (taken.mapped .user page).trans ((link.mapped taken.owned).trans mapped)

theorem Owned.mapPages {cnt : Nat} {ok : Bool} (owned : Owned b m)
    (inRange : ∀ i < cnt, InRange pf (page + i)) (isPage : vaddr = page * 4096)
    (ran : mapPages pf cnt vaddr m = .ok (ok, m')) :
    ∃ b', Mapped b m pf page cnt b' m' := by
  induction cnt generalizing b m page vaddr with
  | zero =>
      simp only [Memory.mapPages, Except.ok.injEq, Prod.mk.injEq] at ran
      obtain ⟨-, rfl⟩ := ran
      exact ⟨b, owned.mapped_none rfl rfl (fun _ _ => rfl) pf page⟩
  | succ cnt inductionHypothesis =>
      obtain ⟨⟨result, m₁⟩, allocated, ran⟩ := except_bind_eq_ok.mp ran
      obtain ⟨phyaddr, rfl, taken⟩ := owned.palloc allocated
      obtain ⟨m₂, added, ran⟩ := except_bind_eq_ok.mp ran
      have here : InRange pf page := inRange 0 (Nat.succ_pos cnt)
      have below : page < 0xc0100 + 32760 := by
        cases pf with
        | kernel => exact here.2
        | user =>
            have high := here.2
            omega
      have mapped := taken.owned.pageTableAdd here (by omega) (by omega) taken.inPool
        taken.spare added
      have next : wrap (vaddr + pgSize) = (page + 1) * 4096 := by
        have size : pgSize = 4096 := rfl
        rw [wrap, size]
        omega
      have inRange' : ∀ i < cnt, InRange pf (page + 1 + i) := by
        intro i small
        have later := inRange (i + 1) (by omega)
        rwa [show page + (i + 1) = page + 1 + i by omega] at later
      obtain ⟨b', rest⟩ := inductionHypothesis mapped.owned inRange' next ran
      have all := (taken.mapped pf page).trans (mapped.trans rest)
      rw [show 0 + (1 + cnt) = cnt + 1 by omega] at all
      exact ⟨b', all⟩

/-- Locks and address bitmaps are not what the places depend on. -/
theorem Owned.setLock (owned : Owned b m) (pf : PoolFlags) (plock : Lock) (pf' : PoolFlags)
    (page : Nat) : Mapped b m pf' page 0 b (m.setLock pf plock) := by
  have words : (m.setLock pf plock).words = m.words := by cases pf <;> rfl
  have pools : (m.setLock pf plock).InPool = m.InPool := by
    funext pf' phyaddr
    cases pf <;> cases pf' <;> rfl
  have fixed := setLock_fixed m pf plock
  exact (owned.mark fixed words (fun _ _ taken => pools ▸ taken)).mapped_none fixed
    (b.held_of_words words) (fun page' _ => kernelEntry_of_words words page') pf' page

theorem Owned.setVaddrBitmap (owned : Owned b m) {pf : PoolFlags} {btmp : Bitmap}
    (sameLen : btmp.btmpBytesLen = (m.vaddrPool pf).vaddrBitmap.btmpBytesLen) (pf' : PoolFlags)
    (page : Nat) : Mapped b m pf' page 0 b (m.setVaddrBitmap pf btmp) := by
  have words : (m.setVaddrBitmap pf btmp).words = m.words := by cases pf <;> rfl
  have pools : (m.setVaddrBitmap pf btmp).InPool = m.InPool := by
    funext pf' phyaddr
    cases pf <;> cases pf' <;> rfl
  have fixed := (PageFrame.setVaddrBitmap m pf sameLen).fixed
  exact (owned.mark fixed words (fun _ _ taken => pools ▸ taken)).mapped_none fixed
    (b.held_of_words words) (fun page' _ => kernelEntry_of_words words page') pf' page

theorem Layout.inRange (layout : Layout m) {i : Nat}
    (inside : i < (m.vaddrPool pf).vaddrBitmap.bitLen) :
    ∃ first, (m.vaddrPool pf).vaddrStart = first * 4096 ∧ InRange pf (first + i) := by
  cases pf with
  | kernel =>
      have high := layout.kernelPages
      refine ⟨kHeapPage, layout.kernelVaddr, Nat.le_add_right _ _, ?_⟩
      exact Nat.add_lt_add_left (inside.trans_le high) kHeapPage
  | user =>
      rcases layout.userPages m.runningThread with none | ⟨start, len⟩
      · rw [Mem.vaddrPool, none] at inside
        exact absurd inside (Nat.not_lt_zero i)
      · rw [Mem.vaddrPool, len, userPageCnt] at inside
        exact ⟨0x8048, start, by omega, by omega⟩

theorem Owned.mallocPage_run {pgCnt : Nat} {result : Option Address} (owned : Owned b m)
    (ran : mallocPage m pf pgCnt = .ok (result, m')) :
    ∃ page btmp, result = some (page * 4096) ∧ (∀ i < pgCnt, InRange pf (page + i)) ∧
      Mapped b m pf page 0 b (m.setVaddrBitmap pf btmp) ∧
      Memory.mapPages pf pgCnt (page * 4096) (m.setVaddrBitmap pf btmp) = .ok (true, m') := by
  obtain ⟨positive, -, bitIdx, btmp, taken, isResult, mapped⟩ := mallocPage_eq_ok ran
  have fits := taken.fits
  have bits : ∀ i < pgCnt, bitIdx + i < (m.vaddrPool pf).vaddrBitmap.bitLen := by
    intro i small
    omega
  obtain ⟨first, start, lowest⟩ := owned.layout.inRange (bits 0 positive)
  rw [Nat.add_zero] at lowest
  have inRange : ∀ i < pgCnt, InRange pf (first + bitIdx + i) := by
    intro i small
    obtain ⟨first', start', inRange⟩ := owned.layout.inRange (bits i small)
    have same : first' * 4096 = first * 4096 := start'.symm.trans start
    have same' : first' = first := Nat.eq_of_mul_eq_mul_right (by decide) same
    rw [same'] at inRange
    rwa [Nat.add_assoc]
  have vaddr : wrap ((m.vaddrPool pf).vaddrStart + bitIdx * pgSize) = (first + bitIdx) * 4096 := by
    have size : pgSize = 4096 := rfl
    rw [start, size, ← Nat.add_mul]
    apply Nat.mod_eq_of_lt
    cases pf with
    | kernel =>
        have high := lowest.2
        simp only [kHeapPage] at high
        omega
    | user =>
        have high := lowest.2
        omega
  rw [vaddr] at isResult mapped
  have marked := owned.setVaddrBitmap taken.sameLen pf (first + bitIdx)
  exact ⟨first + bitIdx, btmp, isResult, inRange, marked, mapped⟩

theorem Owned.mallocPage {pgCnt : Nat} {result : Option Address} (owned : Owned b m)
    (ran : mallocPage m pf pgCnt = .ok (result, m')) :
    ∃ page b', result = some (page * 4096) ∧ Mapped b m pf page pgCnt b' m' := by
  obtain ⟨page, btmp, isResult, inRange, marked, mapped⟩ := owned.mallocPage_run ran
  obtain ⟨b', all⟩ := marked.owned.mapPages inRange rfl mapped
  have both := marked.trans all
  rw [Nat.zero_add] at both
  exact ⟨page, b', isResult, both⟩

end Allocating

section Clearing

variable {b : Book} {m m' : Mem} {pf : PoolFlags} {page vaddr phyaddr : Nat}

theorem Owned.pte_eq (owned : Owned b m) (inRange : InRange pf page) (small : vaddr < 2 ^ 32)
    (isPage : vaddr / 4096 = page) (used : b.Uses m (m.place pf page)) :
    m.pte vaddr = .ok (m.entry (m.place pf page)) ∧
      isPresent (m.entry (m.place pf page)) = true := by
  have there : isPresent (m.pde vaddr) = true := by
    cases pf with
    | kernel => exact owned.pde_present inRange small isPage
    | user =>
        rw [pde_eq small isPage]
        exact used.1.2.2.2
  refine ⟨?_, ?_⟩
  · rw [Mem.pte, if_pos there, owned.pteTable_eq inRange small isPage, pteIndex_eq, isPage,
      entry_place]
  · cases pf with
    | kernel => exact owned.present page used
    | user => exact used.2

/-- An access to a page in use reaches its frame. -/
theorem Owned.translate_eq (owned : Owned b m) (inRange : InRange pf page)
    (small : vaddr < 2 ^ 32) (isPage : vaddr / 4096 = page)
    (holds : b.held m (m.place pf page) = some (pf, phyaddr)) :
    m.translate vaddr = .ok phyaddr := by
  obtain ⟨used, same⟩ := Book.held_eq_some.mp holds
  obtain ⟨pte, present⟩ := owned.pte_eq inRange small isPage used
  have frame : entryFrame (m.entry (m.place pf page)) = phyaddr := (Prod.mk.inj same).2
  rw [Mem.translate, pte, ok_bind, if_pos present, frame]
  rfl

/-- The frame of a page that is not a page directory is no table of any kind: whatever is
stored there, all places hold what they held. -/
theorem Owned.plainWrite (owned : Owned b m)
    (holds : b.held m (m.place pf page) = some (pf, phyaddr)) (notDir : phyaddr ∉ b.dirs)
    (fixed : m'.fixed = m.fixed) (inPools : m'.InPool = m.InPool)
    (words : ∀ frame, frame ≠ phyaddr → ∀ idx, m'.words frame idx = m.words frame idx)
    (pf' : PoolFlags) (page' : Nat) : Mapped b m pf' page' 0 b m' := by
  have inPool := (owned.inPool holds).1
  rw [pool_place] at inPool
  have above := (inPool.frame owned.layout).2.1
  simp only at above
  have dirWords : ∀ dir ∈ b.dirs, ∀ idx, m'.words dir idx = m.words dir idx :=
    fun dir isDir => words dir fun same => notDir (same ▸ isDir)
  have hasTable : ∀ dir idx, b.HasTable m' dir idx ↔ b.HasTable m dir idx := by
    intro dir idx
    unfold Book.HasTable
    refine and_congr_right fun isDir => ?_
    rw [dirWords dir isDir]
  have kernelEntry : ∀ page', InRange .kernel page' →
      m'.entry (.kernelPage page') = m.entry (.kernelPage page') := by
    intro page' inRange
    obtain ⟨low, high⟩ := inRange.pdeIndex
    have isLow := (kernelTable_lt low high rfl).2.1
    exact words _ (fun same => absurd (same ▸ isLow) (Nat.not_lt.mpr above)) _
  have held : b.held m' = b.held m := by
    funext p
    cases p with
    | kernelPage page' =>
        exact Book.held_congr Iff.rfl fun used => kernelEntry page' (owned.inRange page' used)
    | pageTable dir idx =>
        exact Book.held_congr (hasTable dir idx) fun used => dirWords dir used.1 idx
    | userPage dir page' =>
        have entry : b.HasTable m dir (page' / 1024) →
            m'.entry (.userPage dir page') = m.entry (.userPage dir page') := by
          intro has
          have other : entryFrame (m.words dir (page' / 1024)) ≠ phyaddr := by
            intro same
            have isTable := (owned.table has same.symm).1
            have samePool := (owned.inPool isTable).1.pool_eq inPool owned.layout
            simp only [Place.pool] at samePool
            subst samePool
            cases owned.owns.once _ _ _ isTable holds
          simp only [Mem.entry]
          rw [dirWords dir has.1, words _ other]
        refine Book.held_congr ?_ fun used => entry used.1
        change b.HasTable _ dir (page' / 1024) ∧ _ ↔ b.HasTable m dir (page' / 1024) ∧ _
        rw [hasTable]
        exact and_congr_right fun has => by rw [entry has]
  have next : Owned b m' := by
    refine owned.update fixed rfl (fun dir isDir idx _ => dirWords dir isDir idx) ?_ ?_
      owned.inRange ?_
    · rw [held, inPools]
      exact owned.owns
    · intro page' dir _ holds
      rw [held, holds]
    · intro page' used
      rw [kernelEntry page' (owned.inRange page' used)]
      exact owned.present page' used
  exact next.mapped_none fixed held kernelEntry pf' page'

theorem Owned.clearFrame (owned : Owned b m)
    (holds : b.held m (m.place pf page) = some (pf, phyaddr)) (notDir : phyaddr ∉ b.dirs)
    (pf' : PoolFlags) (page' : Nat) : Mapped b m pf' page' 0 b (m.clearFrame phyaddr) := by
  have fixed : (m.clearFrame phyaddr).fixed = m.fixed := rfl
  have inPools : (m.clearFrame phyaddr).InPool = m.InPool := rfl
  refine owned.plainWrite holds notDir fixed inPools ?_ pf' page'
  intro frame other idx
  rw [Mem.words_clearFrame, if_neg other]

/-- The pages of a run are in use, and none of them is a page directory. -/
def Book.Plain (b : Book) (m : Mem) (pf : PoolFlags) (page cnt : Nat) : Prop :=
  ∀ i < cnt, InRange pf (page + i) ∧
    ∃ phyaddr, b.held m (m.place pf (page + i)) = some (pf, phyaddr) ∧ phyaddr ∉ b.dirs

theorem Owned.inRange_of_uses (owned : Owned b m) (used : b.Uses m (m.place pf page)) :
    InRange pf page := by
  cases pf with
  | kernel => exact owned.inRange page used
  | user =>
      obtain ⟨⟨-, low, high, -⟩, -⟩ := used
      exact ⟨by omega, by omega⟩

/-- Pages that have just been mapped are such. -/
theorem Mapped.plain {b' : Book} {cnt : Nat} (mapped : Mapped b m pf page cnt b' m')
    (owned : Owned b m) : b'.Plain m' pf page cnt := by
  intro i small
  obtain ⟨phyaddr, new⟩ := mapped.new i small
  refine ⟨mapped.inRange i small, phyaddr, ?_, ?_⟩
  · rw [place_congr mapped.fixed, new]
  · intro isDir
    have inPool := (mapped.owned.inPool new).1
    rw [pool_place] at inPool
    rw [mapped.dirs] at isDir
    rcases owned.dirFrame phyaddr isDir with isBoot | ⟨dirPage, holds⟩
    · have value : phyaddr = 0x100000 := isBoot
      have above := (inPool.frame mapped.owned.layout).2.1
      simp only at above
      omega
    · have kept := mapped.keeps _ _ holds
      have samePool := inPool.pool_eq (mapped.owned.inPool kept).1 mapped.owned.layout
      simp only [Place.pool] at samePool
      subst samePool
      have samePlace := mapped.owned.owns.once _ _ _ new kept
      rw [← samePlace] at holds
      cases (mapped.fresh i small).symm.trans holds

theorem Book.Plain.congr {b' : Book} {cnt : Nat} (plain : b.Plain m pf page cnt)
    (mapped : Mapped b m pf page 0 b' m') : b'.Plain m' pf page cnt := by
  intro i small
  obtain ⟨inRange, phyaddr, holds, notDir⟩ := plain i small
  refine ⟨inRange, phyaddr, ?_, ?_⟩
  · rw [place_congr mapped.fixed]
    exact mapped.keeps _ _ holds
  · rw [mapped.dirs]
    exact notDir

/-- Kernel and user addresses end well below `2 ^ 32`. -/
theorem InRange.lt (inRange : InRange pf page) : page < 0xd0000 := by
  cases pf with
  | kernel =>
      have high := inRange.2
      simp only [kHeapPage] at high
      omega
  | user =>
      have high := inRange.2
      omega

theorem InRange.address (inRange : InRange pf page) {offset : Nat} (inside : offset < 4096) :
    page * 4096 + offset < 2 ^ 32 ∧ (page * 4096 + offset) / 4096 = page := by
  have below := inRange.lt
  exact ⟨by omega, by omega⟩

theorem InRange.wrap_next (inRange : InRange pf page) :
    wrap (page * 4096 + pgSize) = (page + 1) * 4096 := by
  have below := inRange.lt
  have size : pgSize = 4096 := rfl
  rw [wrap, size]
  omega

theorem Owned.memsetPages {cnt : Nat} (owned : Owned b m) (plain : b.Plain m pf page cnt)
    (ran : memsetPages cnt (page * 4096) m = .ok m') (page' : Nat) :
    Mapped b m pf page' 0 b m' := by
  induction cnt generalizing m page with
  | zero =>
      cases ran
      exact owned.mapped_none rfl rfl (fun _ _ => rfl) pf page'
  | succ cnt inductionHypothesis =>
      obtain ⟨frame, translated, ran⟩ := except_bind_eq_ok.mp ran
      obtain ⟨inRange, phyaddr, holds, notDir⟩ := plain 0 (Nat.succ_pos cnt)
      rw [Nat.add_zero] at inRange holds
      have below := inRange.lt
      have small : page * 4096 < 2 ^ 32 := by omega
      have reached := owned.translate_eq inRange small (by omega) holds
      obtain rfl : phyaddr = frame := Except.ok.inj (reached.symm.trans translated)
      have cleared := owned.clearFrame holds notDir pf (page + 1)
      rw [InRange.wrap_next inRange] at ran
      have rest : b.Plain (m.clearFrame phyaddr) pf (page + 1) cnt := by
        intro i small
        obtain ⟨inRange', phyaddr', holds', notDir'⟩ := plain (i + 1) (by omega)
        rw [show page + (i + 1) = page + 1 + i by omega] at inRange' holds'
        exact ⟨inRange', phyaddr', cleared.keeps _ _ holds', notDir'⟩
      exact (owned.clearFrame holds notDir pf page').trans
        (inductionHypothesis cleared.owned rest ran)

theorem Owned.getKernelPages {pgCnt : Nat} {result : Option Address} (owned : Owned b m)
    (ran : getKernelPages m pgCnt = .ok (result, m')) :
    ∃ page b', result = some (page * 4096) ∧ Mapped b m .kernel page pgCnt b' m' := by
  obtain ⟨⟨result', m₁⟩, allocated, ran⟩ := except_bind_eq_ok.mp ran
  obtain ⟨page, b', rfl, mapped⟩ := owned.mallocPage allocated
  obtain ⟨m₂, cleared, ran⟩ := except_bind_eq_ok.mp ran
  simp only [pure_eq_ok, Except.ok.injEq, Prod.mk.injEq] at ran
  obtain ⟨rfl, rfl⟩ := ran
  have plain := mapped.plain owned
  have all := mapped.trans (mapped.owned.memsetPages plain cleared (page + pgCnt))
  exact ⟨page, b', rfl, all⟩

end Clearing

section GetAPage

variable {b : Book} {m m' : Mem} {pf : PoolFlags} {vaddr : Nat}

/-- `get_a_page` returns only if the page was not in use. -/
theorem Owned.getAPage {result : Option Address} (owned : Owned b m) (small : vaddr < 2 ^ 32)
    (ran : getAPage m pf vaddr = .ok (result, m')) :
    result = some vaddr ∧ ∃ b', Mapped b m pf (vaddr / 4096) 1 b' m' := by
  obtain ⟨held, btmp, phyaddr, taken, added, acquired, -, -, set, allocated, add, isResult,
    released⟩ := getAPage_eq_ok ran
  obtain ⟨plock, -, acquired⟩ := except_bind_eq_ok.mp acquired
  obtain rfl := Except.ok.inj acquired
  obtain ⟨plock', -, released⟩ := except_bind_eq_ok.mp released
  obtain rfl := Except.ok.inj released
  have locked := owned.setLock pf plock pf (vaddr / 4096)
  generalize m.setLock pf plock = held at set allocated locked
  obtain ⟨inside, rfl⟩ := bitmapSet_eq_ok.mp set
  have inRange : InRange pf (vaddr / 4096) := by
    obtain ⟨first, start, inRange⟩ := locked.owned.layout.inRange inside
    have size : pgSize = 4096 := rfl
    rw [start, size] at inRange inside
    have below : first < 0xd0000 := by
      have lowest := (locked.owned.layout.inRange (Nat.zero_lt_of_lt inside))
      obtain ⟨first', start', inRange'⟩ := lowest
      have same : first' * 4096 = first * 4096 := start'.symm.trans start
      have same' : first' = first := Nat.eq_of_mul_eq_mul_right (by decide) same
      rw [same', Nat.add_zero] at inRange'
      exact inRange'.lt
    have positive := inRange.lt
    simp only [wrapSub, wrap] at inRange positive
    have page : first + (vaddr + (2 ^ 32 - first * 4096 % 2 ^ 32)) % 2 ^ 32 / 4096 =
        vaddr / 4096 := by omega
    rwa [page] at inRange
  have sameLen : ((held.vaddrPool pf).vaddrBitmap.put
      (wrapSub vaddr (held.vaddrPool pf).vaddrStart / pgSize) true).btmpBytesLen =
      (held.vaddrPool pf).vaddrBitmap.btmpBytesLen := Bitmap.put_btmpBytesLen _ true
  have marked := locked.owned.setVaddrBitmap sameLen pf (vaddr / 4096)
  obtain ⟨frame, isFrame, took⟩ := marked.owned.palloc allocated
  obtain rfl := Option.some.inj isFrame
  have mapped := took.owned.pageTableAdd inRange small rfl took.inPool took.spare add
  have unlocked := mapped.owned.setLock pf plock' pf (vaddr / 4096 + 1)
  have all := locked.trans (marked.trans ((took.mapped pf (vaddr / 4096)).trans
    (mapped.trans unlocked)))
  exact ⟨isResult, _, all⟩

end GetAPage

/-- The pages of a run are not in use any more; all other places hold what they held. -/
structure Unmapped (b : Book) (m : Mem) (pf : PoolFlags) (page cnt : Nat) (b' : Book)
    (m' : Mem) : Prop where
  owned : Owned b' m'
  dirs : b'.dirs = b.dirs
  fixed : m'.fixed = m.fixed
  kernelEntry : ∀ page', InRange .kernel page' →
    (∀ i < cnt, Place.kernelPage page' ≠ m.place pf (page + i)) →
    m'.entry (.kernelPage page') = m.entry (.kernelPage page')
  gone : ∀ i < cnt, b'.held m' (m.place pf (page + i)) = none
  others : ∀ p, (∀ i < cnt, p ≠ m.place pf (page + i)) → b'.held m' p = b.held m p

/-- Two runs, one after the other. -/
theorem Unmapped.trans {b b' b'' : Book} {m m' m'' : Mem} {pf : PoolFlags} {page cnt cnt' : Nat}
    (first : Unmapped b m pf page cnt b' m')
    (second : Unmapped b' m' pf (page + cnt) cnt' b'' m'') :
    Unmapped b m pf page (cnt + cnt') b'' m'' := by
  have samePlace : ∀ i, m'.place pf i = m.place pf i := place_congr first.fixed pf
  refine ⟨second.owned, second.dirs.trans first.dirs, second.fixed.trans first.fixed, ?_, ?_, ?_⟩
  · intro page' inRange other
    rw [second.kernelEntry page' inRange, first.kernelEntry page' inRange]
    · exact fun i small => other i (by omega)
    · intro i small
      rw [samePlace, Nat.add_assoc]
      exact other (cnt + i) (by omega)
  · intro i small
    by_cases early : i < cnt
    · rw [second.others, first.gone i early]
      intro j _ same
      rw [samePlace] at same
      have sameIdx := place_inj same
      omega
    · have gone := second.gone (i - cnt) (by omega)
      rwa [samePlace, show page + cnt + (i - cnt) = page + i by omega] at gone
  · intro p other
    rw [second.others, first.others]
    · exact fun i small => other i (by omega)
    · intro i small
      rw [samePlace, Nat.add_assoc]
      exact other (cnt + i) (by omega)

section Freeing

variable {b : Book} {m m' : Mem} {pf : PoolFlags} {page phyaddr : Nat}

/-- `pfree` finds the bit of the frame. -/
theorem Owned.pfree (owned : Owned b m) (inPool : m.InPool pf phyaddr)
    (ran : pfree m phyaddr = .ok m') :
    m'.words = m.words ∧ m'.fixed = m.fixed ∧
      ∀ pf' phyaddr', m'.InPool pf' phyaddr' ↔
        ¬ (pf' = pf ∧ phyaddr' = phyaddr) ∧ m.InPool pf' phyaddr' := by
  have fixed := (pfree_frame ran).fixed
  obtain ⟨aligned, above, below, isUser⟩ := inPool.frame owned.layout
  obtain ⟨i, inside, -, rfl⟩ := inPool
  have poolFlags : (if m.start pf + i * 4096 ≥ m.userPool.phyAddrStart then PoolFlags.user
      else .kernel) = pf := by
    change (if m.start .user ≤ _ then _ else _) = _
    simp only [← isUser]
    cases pf <;> rfl
  unfold Memory.pfree at ran
  rw [poolFlags] at ran
  obtain ⟨btmp, set, result⟩ := except_bind_eq_ok.mp ran
  have bit : wrapSub (m.start pf + i * 4096) (m.pool pf).phyAddrStart / pgSize = i := by
    change (m.start pf + i * 4096 + (2 ^ 32 - m.start pf % 2 ^ 32)) % 2 ^ 32 / 4096 = i
    omega
  rw [bit] at set
  obtain ⟨-, rfl⟩ := bitmapSet_eq_ok.mp set
  obtain rfl := Except.ok.inj result
  refine ⟨?_, fixed, fun pf' phyaddr' => ?_⟩
  · cases pf <;> rfl
  · rw [Mem.inPool_put false inside]
    split
    next same => simp [same]
    next other => simp [other]

/-- One page and its frame are given back. -/
theorem Owned.freePage {m₁ m₂ : Mem} (owned : Owned b m) (inRange : InRange pf page)
    (holds : b.held m (m.place pf page) = some (pf, phyaddr)) (notDir : phyaddr ∉ b.dirs)
    (freed : Memory.pfree m phyaddr = .ok m₁)
    (removed : pageTablePteRemove m₁ (page * 4096) = .ok m₂) :
    Unmapped b m pf page 1 (b.revoke pf page) m₂ := by
  have below := inRange.lt
  have small : page * 4096 < 2 ^ 32 := by omega
  have isPage : page * 4096 / 4096 = page := by omega
  have used := (Book.held_eq_some.mp holds).1
  have inPool := (owned.inPool holds).1
  rw [pool_place] at inPool
  obtain ⟨words, fixed, pools⟩ := owned.pfree inPool freed
  have cr3 : m₁.cr3 = m.cr3 := congrArg Fixed.cr3 fixed
  obtain ⟨pte, -, result⟩ := except_bind_eq_ok.mp removed
  have table : m₁.pteTable (page * 4096) = m.tableOf pf page := by
    rw [← owned.pteTable_eq inRange small isPage]
    simp only [Mem.pteTable, Mem.pde, words, cr3]
  rw [table, pteIndex_eq, isPage] at result
  have write : EntryWrite b m pf page (b.revoke pf page) m₂ := by
    refine ⟨(pageTablePteRemove_frame removed).fixed.trans fixed, inRange, ?_, ?_,
      Book.dirs_revoke pf page, ?_⟩
    · rintro rfl
      exact used.1
    · intro frame idx other
      rw [← Except.ok.inj result, Mem.words_setWord, if_neg other, words]
    · intro page' other
      rw [mem_revoke_kernelPages (m := m)]
      simp [Ne.symm other]
  have entry : m₂.words (m.tableOf pf page) (page % 1024) = pte &&& ~~~pgP1 := by
    rw [← Except.ok.inj result, Mem.words_setWord, if_pos ⟨rfl, rfl⟩]
  have gone : (b.revoke pf page).held m₂ (m.place pf page) = none := by
    rw [Book.held_eq_none]
    intro still
    cases pf with
    | kernel => exact still.2 rfl
    | user =>
        have present : isPresent (m₂.entry (m.place .user page)) = true := still.2
        rw [← place_congr write.fixed, entry_place, write.tableOf_eq owned, entry,
          isPresent_and_not] at present
        cases present
  have others : ∀ p, p ≠ m.place pf page → (b.revoke pf page).held m₂ p = b.held m p :=
    fun p other => write.held_eq owned other
  have inPools : ∀ pf' phyaddr', m₂.InPool pf' phyaddr' ↔ m₁.InPool pf' phyaddr' := by
    intro pf' phyaddr'
    rw [← Except.ok.inj result]
    rfl
  refine ⟨owned.update write.fixed write.dirs ?_ ?_ ?_ ?_ ?_, write.dirs, write.fixed, ?_, ?_, ?_⟩
  · exact fun dir isDir idx _ => write.dir_words owned isDir idx
  · have before : ∀ p r, (b.revoke pf page).held m₂ p = some r →
        p ≠ m.place pf page ∧ b.held m p = some r := by
      intro p r holds'
      have other : p ≠ m.place pf page := by
        rintro rfl
        cases gone.symm.trans holds'
      exact ⟨other, (others p other).symm.trans holds'⟩
    refine owned.owns.shrink (fun p r holds' => (before p r holds').2) fun p r holds' taken => ?_
    obtain ⟨other, old⟩ := before p r holds'
    rw [inPools, pools]
    refine ⟨?_, taken⟩
    rintro ⟨samePool, sameFrame⟩
    have same : r = (pf, phyaddr) := Prod.ext samePool sameFrame
    rw [same] at old
    exact other (owned.owns.once _ _ _ old holds)
  · intro page' dir isDir holds'
    rw [others, holds']
    rintro same
    rw [same, holds] at holds'
    injection holds' with samePair
    injection samePair with _ sameFrame
    exact notDir (sameFrame ▸ isDir)
  · intro page' used'
    exact owned.inRange page' ((mem_revoke_kernelPages (m := m)).mp used').1
  · intro page' used'
    obtain ⟨old, other⟩ := (mem_revoke_kernelPages (m := m)).mp used'
    rw [write.kernelEntry_eq owned (owned.inRange page' old) other.symm]
    exact owned.present page' old
  · exact fun page' inRange' other => write.kernelEntry_eq owned inRange' (other 0 Nat.one_pos)
  · intro i one
    obtain rfl := Nat.lt_one_iff.mp one
    exact gone
  · exact fun p other => others p (other 0 Nat.one_pos)

theorem Owned.addrV2p_eq (owned : Owned b m) (inRange : InRange pf page)
    (holds : b.held m (m.place pf page) = some (pf, phyaddr)) :
    addrV2p m (page * 4096) = .ok phyaddr := by
  have below := inRange.lt
  obtain ⟨used, same⟩ := Book.held_eq_some.mp holds
  have frame : entryFrame (m.entry (m.place pf page)) = phyaddr := (Prod.mk.inj same).2
  have inPool := (owned.inPool holds).1
  have bound := (inPool.frame owned.layout).2.2.1
  rw [addrV2p, (owned.pte_eq inRange (by omega) (by omega) used).1, ok_bind, frame]
  have value : wrap (phyaddr + page * 4096 % pgSize) = phyaddr := by
    have whole : page * 4096 % pgSize = 0 := Nat.mul_mod_left page 4096
    rw [whole, Nat.add_zero]
    exact Nat.mod_eq_of_lt bound
  rw [value]
  rfl

theorem Unmapped.plain {b' : Book} {cnt : Nat} (first : Unmapped b m pf page 1 b' m')
    (plain : b.Plain m pf page (cnt + 1)) : b'.Plain m' pf (page + 1) cnt := by
  intro i small
  obtain ⟨inRange, phyaddr, holds, notDir⟩ := plain (i + 1) (by omega)
  rw [show page + (i + 1) = page + 1 + i by omega] at inRange holds
  refine ⟨inRange, phyaddr, ?_, ?_⟩
  · rw [place_congr first.fixed, first.others, holds]
    intro j one same
    have sameIdx := place_inj same
    omega
  · rw [first.dirs]
    exact notDir

theorem Owned.freePages {inPool : Address → Bool} {cnt : Nat} (owned : Owned b m)
    (plain : b.Plain m pf page cnt) (ran : freePages inPool cnt (page * 4096) m = .ok m') :
    ∃ b', Unmapped b m pf page cnt b' m' := by
  induction cnt generalizing b m page with
  | zero =>
      cases ran
      exact ⟨b, owned, rfl, rfl, fun _ _ _ => rfl,
        fun _ impossible => absurd impossible (Nat.not_lt_zero _), fun _ _ => rfl⟩
  | succ cnt inductionHypothesis =>
      obtain ⟨inRange, phyaddr, holds, notDir⟩ := plain 0 (Nat.succ_pos cnt)
      rw [Nat.add_zero] at inRange holds
      obtain ⟨phyaddr', isFrame, ran⟩ := except_bind_eq_ok.mp ran
      rw [owned.addrV2p_eq inRange holds] at isFrame
      obtain rfl := Except.ok.inj isFrame
      obtain ⟨_, -, ran⟩ := except_bind_eq_ok.mp ran
      obtain ⟨m₁, freed, ran⟩ := except_bind_eq_ok.mp ran
      obtain ⟨m₂, removed, ran⟩ := except_bind_eq_ok.mp ran
      have first := owned.freePage inRange holds notDir freed removed
      rw [inRange.wrap_next] at ran
      have plain' := first.plain plain
      obtain ⟨b', rest⟩ := inductionHypothesis first.owned plain' ran
      have all := first.trans rest
      rw [Nat.add_comm 1 cnt] at all
      exact ⟨b', all⟩

theorem Owned.mfreePage {pgCnt : Nat} (owned : Owned b m) (plain : b.Plain m pf page pgCnt)
    (ran : mfreePage m pf (page * 4096) pgCnt = .ok m') :
    ∃ b', Unmapped b m pf page pgCnt b' m' := by
  obtain ⟨-, inPool, m₁, freed, removed⟩ := mfreePage_eq_ok ran
  obtain ⟨b', unmapped⟩ := owned.freePages plain freed
  obtain ⟨btmp, set, result⟩ := except_bind_eq_ok.mp removed
  obtain rfl := Except.ok.inj result
  have marked := unmapped.owned.setVaddrBitmap (bitmapSetRun_eq_ok set).1 pf (page + pgCnt)
  have held : b'.held (m₁.setVaddrBitmap pf btmp) = b'.held m₁ := by
    apply b'.held_of_words
    cases pf <;> rfl
  refine ⟨b', marked.owned, unmapped.dirs, marked.fixed.trans unmapped.fixed, ?_, ?_, ?_⟩
  · intro page' inRange other
    rw [marked.kernelEntry page' inRange fun _ impossible => absurd impossible (Nat.not_lt_zero _)]
    exact unmapped.kernelEntry page' inRange other
  · rw [held]
    exact unmapped.gone
  · rw [held]
    exact unmapped.others

end Freeing

end HongbaiOS.Memory
