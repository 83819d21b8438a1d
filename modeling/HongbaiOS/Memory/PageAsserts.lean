import HongbaiOS.Memory.AddressBits

/-!
# The assertions of `page_table_add` and `mfree_page`

`page_table_add` asserts that the page is not mapped yet, and `mfree_page` that the frames
of the run are whole and of one pool.  Neither fails for a page that is not in use, or for a
run of pages that are.
-/

namespace HongbaiOS.Memory

open HongbaiOS.Library HongbaiOS.Kernel HongbaiOS.Lib HongbaiOS.Thread

/-- An assertion of `page_table_add` or `mfree_page` has failed. -/
inductive PageAssertion : Halt → Prop
  | pageTableAdd : PageAssertion (.panic .pageTableAdd)
  | mfreePage : PageAssertion (.panic .mfreePage)

/-- The reasons are assertions of `page_table_add`, `mfree_page` and their callers in the heap,
not of what these call. -/
def UpperLevel (bad : Halt → Prop) : Prop :=
  ∀ reason, bad reason →
    ∃ fn ∈ [Fn.pageTableAdd, .mfreePage, .sysMalloc, .sysFree, .listPop], reason = .panic fn

theorem pageAssertion_upper : UpperLevel PageAssertion := by
  rintro _ (_ | _)
  · exact ⟨.pageTableAdd, by decide, rfl⟩
  · exact ⟨.mfreePage, by decide, rfl⟩

namespace UpperLevel

variable {bad : Halt → Prop} {m : Mem} {pf : PoolFlags} {vaddr phyaddr cnt : Nat}
  (upper : UpperLevel bad)

include upper

theorem other (fn : Fn) (lower : fn ∉ [Fn.pageTableAdd, .mfreePage, .sysMalloc, .sysFree, .listPop])
    {condition : Bool} : Avoids bad (check fn condition) := by
  refine avoids_check fun isBad => ?_
  obtain ⟨fn', isUpper, same⟩ := upper _ isBad
  obtain rfl := Halt.panic.inj same
  exact absurd isUpper lower

theorem fault {α : Type} {reason : Halt} (noPanic : ∀ fn, reason ≠ .panic fn) :
    Avoids bad (.error reason : Except Halt α) := by
  refine avoids_error fun isBad => ?_
  obtain ⟨fn, -, same⟩ := upper _ isBad
  exact noPanic fn same

theorem bitmapSet (btmp : Bitmap) (bitIdx : Nat) (value : Bool) :
    Avoids bad (Lib.bitmapSet btmp bitIdx value) :=
  (upper.other .bitmapSet (by decide)).bind fun _ _ => avoids_ok _

theorem bitmapSetRun {value : Bool} {left bitIdx : Nat} (btmp : Bitmap) :
    Avoids bad (Memory.bitmapSetRun value left bitIdx btmp) := by
  induction left generalizing bitIdx btmp with
  | zero => exact avoids_ok btmp
  | succ left inductionHypothesis =>
      exact (upper.bitmapSet btmp bitIdx value).bind fun btmp' _ => inductionHypothesis btmp'

theorem scanRun {btmp : Bitmap} {bitLeft nextBit count : Nat} :
    Avoids bad (Lib.scanRun btmp cnt bitLeft nextBit count) := by
  induction bitLeft generalizing nextBit count with
  | zero => exact avoids_ok none
  | succ bitLeft inductionHypothesis =>
      have test : Avoids bad (bitmapScanTest btmp nextBit) :=
        (upper.other .bitmapScanTest (by decide)).bind fun _ _ => avoids_ok _
      refine test.bind fun taken _ => ?_
      dsimp only
      generalize (if taken = true then 0 else count + 1) = count'
      split
      next => exact avoids_ok _
      next => exact inductionHypothesis

theorem bitmapScan (btmp : Bitmap) : Avoids bad (Lib.bitmapScan .asserts btmp cnt) := by
  refine (upper.other .bitmapScan (by decide)).bind fun _ _ => ?_
  dsimp only
  split
  next => exact avoids_ok none
  next =>
    split
    next => exact avoids_ok _
    next => exact upper.scanRun

theorem palloc (m : Mem) (pf : PoolFlags) : Avoids bad (Memory.palloc m pf) := by
  refine (upper.bitmapScan _).bind fun scanned _ => ?_
  cases scanned with
  | none => exact avoids_ok _
  | some bitIdx => exact (upper.bitmapSet _ bitIdx true).bind fun _ _ => avoids_ok _

theorem vaddrGet (m : Mem) (pf : PoolFlags) (pgCnt : Nat) :
    Avoids bad (Memory.vaddrGet m pf pgCnt) := by
  refine (upper.bitmapScan _).bind fun scanned _ => ?_
  cases scanned with
  | none => exact avoids_ok _
  | some bitIdx =>
      refine (upper.bitmapSetRun _).bind fun _ _ => ?_
      exact (upper.other .vaddrGet (by decide)).bind fun _ _ => avoids_ok _

theorem pte (m : Mem) (vaddr : Nat) : Avoids bad (m.pte vaddr) := by
  unfold Mem.pte
  split
  next => exact avoids_ok _
  next => exact upper.fault nofun

theorem translate (m : Mem) (vaddr : Nat) : Avoids bad (m.translate vaddr) := by
  refine (upper.pte m vaddr).bind fun pte _ => ?_
  split
  next => exact avoids_ok _
  next => exact upper.fault nofun

theorem addrV2p (m : Mem) (vaddr : Nat) : Avoids bad (Memory.addrV2p m vaddr) :=
  (upper.pte m vaddr).bind fun _ _ => avoids_ok _

theorem memsetPages : Avoids bad (Memory.memsetPages cnt vaddr m) := by
  induction cnt generalizing vaddr m with
  | zero => exact avoids_ok m
  | succ cnt inductionHypothesis =>
      exact (upper.translate m vaddr).bind fun _ _ => inductionHypothesis

theorem pfree (m : Mem) (phyaddr : Nat) : Avoids bad (Memory.pfree m phyaddr) :=
  (upper.bitmapSet _ _ false).bind fun _ _ => avoids_ok _

theorem pageTablePteRemove (m : Mem) (vaddr : Nat) :
    Avoids bad (Memory.pageTablePteRemove m vaddr) :=
  (upper.pte m vaddr).bind fun _ _ => avoids_ok _

theorem vaddrRemove (m : Mem) (pf : PoolFlags) (vaddr pgCnt : Nat) :
    Avoids bad (Memory.vaddrRemove m pf vaddr pgCnt) :=
  (upper.bitmapSetRun _).bind fun _ _ => avoids_ok _

theorem acquirePool (m : Mem) (pf : PoolFlags) : Avoids bad (Memory.acquirePool m pf) := by
  refine Avoids.bind ?_ fun _ _ => avoids_ok _
  unfold lockAcquire
  split
  next => exact avoids_ok _
  next =>
    refine Avoids.bind ?_ fun _ _ =>
      (upper.other .lockAcquire (by decide)).bind fun _ _ => avoids_ok _
    unfold Semaphore.down
    split
    next => exact (upper.other .semaDown (by decide)).bind fun _ _ => upper.fault nofun
    next => exact (upper.other .semaDown (by decide)).bind fun _ _ => avoids_ok _

theorem releasePool (m : Mem) (pf : PoolFlags) : Avoids bad (Memory.releasePool m pf) := by
  refine Avoids.bind ?_ fun _ _ => avoids_ok _
  refine (upper.other .lockRelease (by decide)).bind fun _ _ => ?_
  split
  next => exact avoids_ok _
  next =>
    refine (upper.other .lockRelease (by decide)).bind fun _ _ =>
      Avoids.bind ?_ fun _ _ => avoids_ok _
    exact (upper.other .semaUp (by decide)).bind fun _ _ => avoids_ok _

end UpperLevel

/-- The page is not in use, and its entry is absent if the kernel's tables have one. -/
structure Book.Vacant (b : Book) (m : Mem) (pf : PoolFlags) (page : Nat) : Prop where
  unused : ¬ b.Uses m (m.place pf page)
  absent : pf = .kernel → isPresent (m.entry (.kernelPage page)) = false

section Vacant

variable {b b' : Book} {m m' : Mem} {pf : PoolFlags} {page vaddr phyaddr cnt : Nat}

theorem Mapped.vacant (mapped : Mapped b m pf page cnt b' m') {page' : Nat}
    (inRange : InRange pf page') (vacant : b.Vacant m pf page')
    (other : ∀ i < cnt, page' ≠ page + i) : b'.Vacant m' pf page' := by
  have elsewhere : ∀ i < cnt, m.place pf page' ≠ m.place pf (page + i) :=
    fun i small same => other i small (place_inj same)
  constructor
  · rw [place_congr mapped.fixed, place_eq_placeIn,
      mapped.uses_iff (placeIn_ne_pageTable m.cr3 page' pf), ← place_eq_placeIn]
    rintro (used | ⟨i, small, same⟩)
    · exact vacant.unused used
    · exact elsewhere i small same
  · rintro rfl
    rw [mapped.kernelEntry page' inRange elsewhere]
    exact vacant.absent rfl

theorem avoids_setPte (absent : isPresent (m.words (m.pteTable vaddr) (pteIndex vaddr)) = false) :
    Avoids PageAssertion (setPte m vaddr phyaddr) := by
  refine Avoids.bind (avoids_check fun _ => ?_) fun _ _ => avoids_ok _
  rw [absent]
  rfl

theorem Owned.avoids_pageTableAdd (owned : Owned b m) (inRange : InRange pf page)
    (small : vaddr < 2 ^ 32) (isPage : vaddr / 4096 = page) (vacant : b.Vacant m pf page) :
    Avoids PageAssertion (Memory.pageTableAdd m vaddr phyaddr) := by
  unfold Memory.pageTableAdd
  split
  next there =>
    refine avoids_setPte ?_
    rw [owned.pteTable_eq inRange small isPage, pteIndex_eq, isPage, ← entry_place]
    cases pf with
    | kernel => exact vacant.absent rfl
    | user =>
        rw [← Bool.not_eq_true]
        intro present
        obtain ⟨low, high⟩ := inRange.pdeIndex
        rw [pde_eq small isPage] at there
        exact vacant.unused ⟨⟨owned.current, low, high, there⟩, present⟩
  next missing =>
    rw [Bool.not_eq_true] at missing
    cases pf with
    | kernel => cases missing.symm.trans (owned.pde_present inRange small isPage)
    | user =>
        refine (pageAssertion_upper.palloc m .kernel).bind fun allocated ran => ?_
        obtain ⟨result, m₁⟩ := allocated
        obtain ⟨table, rfl, taken⟩ := owned.palloc ran
        have missing' : isPresent (m₁.pde vaddr) = false := by
          rw [Mem.pde, taken.words, taken.cr3]
          exact missing
        have link := taken.owned.withTable inRange small isPage missing' taken.inPool taken.spare
        change Avoids PageAssertion (Memory.setPte (m₁.withTable vaddr table) vaddr phyaddr)
        refine avoids_setPte ?_
        have cr3 : (m₁.withTable vaddr table).cr3 = m₁.cr3 := rfl
        rw [Mem.pteTable, pde_eq small isPage, cr3, link.new_frame taken.owned, link.words,
          if_pos rfl]
        exact isPresent_zero

theorem Owned.avoids_mapPages (owned : Owned b m) (inRange : ∀ i < cnt, InRange pf (page + i))
    (isPage : vaddr = page * 4096) (vacant : ∀ i < cnt, b.Vacant m pf (page + i)) :
    Avoids PageAssertion (Memory.mapPages pf cnt vaddr m) := by
  induction cnt generalizing b m page vaddr with
  | zero => exact avoids_ok _
  | succ cnt inductionHypothesis =>
      refine (pageAssertion_upper.palloc m pf).bind fun allocated ran => ?_
      obtain ⟨result, m₁⟩ := allocated
      obtain ⟨phyaddr, rfl, taken⟩ := owned.palloc ran
      have here : InRange pf page := inRange 0 (Nat.succ_pos cnt)
      obtain ⟨small, back⟩ := here.address (by decide : 0 < 4096)
      rw [Nat.add_zero] at small back
      subst isPage
      have unmapped := taken.mapped pf page
      have vacant₁ := unmapped.vacant here (vacant 0 (Nat.succ_pos cnt))
        fun _ impossible => absurd impossible (Nat.not_lt_zero _)
      change Avoids PageAssertion (Memory.pageTableAdd m₁ (page * 4096) phyaddr >>= fun m =>
        Memory.mapPages pf cnt (wrap (page * 4096 + pgSize)) m)
      refine (taken.owned.avoids_pageTableAdd here small back vacant₁).bind fun m₂ added => ?_
      have mapped := taken.owned.pageTableAdd here small back taken.inPool taken.spare added
      rw [here.wrap_next]
      refine inductionHypothesis mapped.owned (fun i less => ?_) rfl fun i less => ?_
      · have later := inRange (i + 1) (by omega)
        rwa [show page + (i + 1) = page + 1 + i by omega] at later
      · have inRange' := inRange (i + 1) (by omega)
        have vacant' := vacant (i + 1) (by omega)
        rw [show page + (i + 1) = page + 1 + i by omega] at inRange' vacant'
        refine (unmapped.trans mapped).vacant inRange' vacant' fun j one same => ?_
        omega

theorem Tracked.vacant {granted : Set Place} {threads : Set Tid} (tracked : Tracked b m threads)
    (coherent : Coherent b m granted threads) {i : Nat} (inside : i < m.pageCnt m.runningThread pf)
    (clear : m.pageBit m.runningThread pf i = false) :
    b.Vacant m pf (m.firstPage m.runningThread pf + i) := by
  have bit := tracked.bits _ coherent.running _ tracked.current pf i inside
  rw [clear, ← place_eq_placeIn] at bit
  have unused : ¬ b.Uses m (m.place pf (m.firstPage m.runningThread pf + i)) :=
    fun used => Bool.false_ne_true (bit.mpr used)
  refine ⟨unused, ?_⟩
  rintro rfl
  rw [coherent.owned.layout.firstPage_kernel] at unused ⊢
  exact tracked.absent i inside unused

theorem Tracked.avoids_mallocPage {granted : Set Place} {threads : Set Tid} {pgCnt : Nat}
    (tracked : Tracked b m threads) (coherent : Coherent b m granted threads) :
    Avoids PageAssertion (Memory.mallocPage m pf pgCnt) := by
  refine Avoids.bind (pageAssertion_upper.other .mallocPage (by decide)) fun _ bounds => ?_
  simp only [check_eq_ok, decide_eq_true_eq] at bounds
  refine (pageAssertion_upper.vaddrGet m pf pgCnt).bind fun got ran => ?_
  obtain ⟨vaddr, m₁⟩ := got
  obtain ⟨bitIdx, btmp, taken, rfl, rfl⟩ := vaddrGet_eq_ok bounds.1 ran
  refine Avoids.bind ?_ fun _ _ => avoids_ok _
  have free := taken.free
  rw [← m.rangeOf_running] at free
  obtain ⟨inside, inRange, isPage⟩ := coherent.owned.layout.taken_run bounds.1 taken
  have marked := coherent.owned.setVaddrBitmap taken.sameLen pf 0
  refine marked.owned.avoids_mapPages inRange isPage fun i less => ?_
  have vacant := tracked.vacant coherent (inside i less) (free (bitIdx + i) (by omega) (by omega))
  rw [← Nat.add_assoc] at vacant
  exact marked.vacant (inRange i less) vacant
    fun _ impossible => absurd impossible (Nat.not_lt_zero _)

end Vacant

section Plain

variable {b : Book} {m m' : Mem} {pf : PoolFlags} {page cnt : Nat}

/-- The assertion in the loops of `mfree_page` holds if all frames of the pool pass its
test. -/
theorem Owned.avoids_freePages {inPool : Address → Bool} (owned : Owned b m)
    (fits : ∀ phyaddr, 0x200000 ≤ phyaddr → (pf = .user ↔ m.start .user ≤ phyaddr) →
      inPool phyaddr = true)
    (plain : b.Plain m pf page cnt) :
    Avoids PageAssertion (Memory.freePages inPool cnt (page * 4096) m) := by
  induction cnt generalizing b m page with
  | zero => exact avoids_ok m
  | succ cnt inductionHypothesis =>
      obtain ⟨inRange, phyaddr, holds, notDir⟩ := plain 0 (Nat.succ_pos cnt)
      rw [Nat.add_zero] at inRange holds
      have isFrame := (owned.inPool holds).1.frame owned.layout
      rw [pool_place] at isFrame
      obtain ⟨aligned, above, -, isUser⟩ := isFrame
      refine (pageAssertion_upper.addrV2p m _).bind fun phyaddr' found => ?_
      rw [owned.addrV2p_eq inRange holds] at found
      obtain rfl := Except.ok.inj found
      have passes : (inPool phyaddr && phyaddr % pgSize == 0) = true := by
        have whole : phyaddr % pgSize = 0 := aligned
        rw [fits phyaddr above isUser, whole]
        rfl
      refine Avoids.bind (avoids_check fun _ => passes) fun _ _ => ?_
      refine (pageAssertion_upper.pfree m phyaddr).bind fun m₁ freed => ?_
      refine (pageAssertion_upper.pageTablePteRemove m₁ _).bind fun m₂ removed => ?_
      have first := owned.freePage inRange holds notDir freed removed
      rw [inRange.wrap_next]
      refine inductionHypothesis first.owned ?_ (first.plain plain)
      rw [start_congr first.fixed]
      exact fits

theorem Owned.avoids_mfreePage (owned : Owned b m) (plain : b.Plain m pf page cnt)
    (positive : 1 ≤ cnt) : Avoids PageAssertion (Memory.mfreePage m pf (page * 4096) cnt) := by
  obtain ⟨inRange, phyaddr, holds, -⟩ := plain 0 positive
  rw [Nat.add_zero] at inRange holds
  have isFrame := (owned.inPool holds).1.frame owned.layout
  rw [pool_place] at isFrame
  obtain ⟨aligned, above, -, isUser⟩ := isFrame
  have whole : page * 4096 % pgSize = 0 := Nat.mul_mod_left page 4096
  refine Avoids.bind (avoids_check fun _ => decide_eq_true ⟨positive, whole⟩) fun _ _ => ?_
  refine (pageAssertion_upper.addrV2p m _).bind fun phyaddr' found => ?_
  rw [owned.addrV2p_eq inRange holds] at found
  obtain rfl := Except.ok.inj found
  have high : phyaddr ≥ 0x102000 := by omega
  refine Avoids.bind (avoids_check fun _ => decide_eq_true ⟨high, aligned⟩) fun _ _ => ?_
  dsimp only
  have kernelStart := owned.layout.kernelStart
  change Avoids PageAssertion (if m.start .user ≤ phyaddr then _ else _)
  split
  next isUpper =>
    have user : pf = .user := isUser.mpr isUpper
    refine Avoids.bind (owned.avoids_freePages ?_ plain)
      fun _ _ => pageAssertion_upper.vaddrRemove _ _ _ _
    intro other _ otherUser
    exact decide_eq_true (otherUser.mp user)
  next isLower =>
    have notUser : pf ≠ .user := fun user => isLower (isUser.mp user)
    refine Avoids.bind (owned.avoids_freePages ?_ plain)
      fun _ _ => pageAssertion_upper.vaddrRemove _ _ _ _
    intro other otherAbove otherUser
    have notUpper : ¬ m.start .user ≤ other := fun upper => notUser (otherUser.mpr upper)
    change (decide (m.start .kernel ≤ other) && decide (other < m.start .user)) = true
    rw [Bool.and_eq_true, decide_eq_true_eq, decide_eq_true_eq]
    exact ⟨by omega, by omega⟩

end Plain

end HongbaiOS.Memory
