import HongbaiOS.Memory.PageAsserts

/-!
# The page operations as calls

What each of the five operations on pages does to the bits, the frames and the pages in use,
and why none of them fails an assertion of `page_table_add` or `mfree_page`.
-/

namespace HongbaiOS.Memory

open HongbaiOS.Library HongbaiOS.Kernel HongbaiOS.Lib HongbaiOS.Thread

inductive PageCall where
  | mallocPage (pf : PoolFlags) (pgCnt : UInt32)
  | getKernelPages (pgCnt : UInt32)
  | getUserPage (pgCnt : UInt32)
  | getAPage (pf : PoolFlags) (vaddr : UInt32)
  | mfreePage (pf : PoolFlags) (vaddr pgCnt : UInt32)

namespace PageCall

/-- What a call returns and leaves behind; `mfree_page` returns nothing. -/
def run (m : Mem) : PageCall → Except Halt (Option Address × Mem)
  | mallocPage pf pgCnt => Memory.mallocPage m pf pgCnt.toNat
  | getKernelPages pgCnt => Memory.getKernelPages m pgCnt.toNat
  | getUserPage pgCnt => Memory.getUserPage m pgCnt.toNat
  | getAPage pf vaddr => Memory.getAPage m pf vaddr.toNat
  | mfreePage pf vaddr pgCnt => do
      let m ← Memory.mfreePage m pf vaddr.toNat pgCnt.toNat
      return (none, m)

/-- `get_a_page` is called for a page of the range that is not the first and not allocated,
and `mfree_page` for whole pages that were handed out. -/
def Allowed (s : PageState) : PageCall → Prop
  | mallocPage _ _ => True
  | getKernelPages _ => True
  | getUserPage _ => True
  | getAPage pf vaddr => ∃ i < s.mem.pageCnt s.mem.runningThread pf, 0 < i ∧
      s.mem.pageBit s.mem.runningThread pf i = false ∧
      vaddr.toNat / pgSize = s.mem.firstPage s.mem.runningThread pf + i
  | mfreePage pf vaddr pgCnt => 1 ≤ pgCnt.toNat ∧ vaddr.toNat % pgSize = 0 ∧
      s.mem.pages pf (some vaddr.toNat) pgCnt.toNat ⊆ s.granted

/-- The pages that are handed out after a call that has returned `result`. -/
def grants (s : PageState) (result : Option Address) : PageCall → Set Place
  | mallocPage pf pgCnt => s.granted ∪ s.mem.pages pf result pgCnt.toNat
  | getKernelPages pgCnt => s.granted ∪ s.mem.pages .kernel result pgCnt.toNat
  | getUserPage pgCnt => s.granted ∪ s.mem.pages .user result pgCnt.toNat
  | getAPage pf _ => s.granted ∪ s.mem.pages pf result 1
  | mfreePage pf vaddr pgCnt => s.granted \ s.mem.pages pf (some vaddr.toNat) pgCnt.toNat

end PageCall

/-- Frames, pages, tasks and bits agree. -/
structure Sound (b : Book) (m : Mem) (granted : Set Place) (threads : Set Tid) : Prop where
  coherent : Coherent b m granted threads
  tracked : Tracked b m threads

section Calls

variable {b b' : Book} {m m' : Mem} {granted : Set Place} {threads : Set Tid} {pf : PoolFlags}
  {page cnt vaddr pgCnt : Nat} {result : Option Address}

theorem Sound.allotted (sound : Sound b m granted threads)
    (allotted : Allotted b m pf page cnt b' m') : Sound b' m' granted threads :=
  ⟨sound.coherent.mapped allotted.toMapped, sound.tracked.allotted sound.coherent allotted⟩

/-- The new pages may be handed out. -/
theorem Sound.grant (sound : Sound b m granted threads)
    (allotted : Allotted b m pf page cnt b' m') :
    Sound b' m' (granted ∪ {p | ∃ i < cnt, p = m.place pf (page + i)}) threads :=
  ⟨sound.coherent.grant allotted.toMapped, sound.tracked.allotted sound.coherent allotted⟩

/-- Whether something else than the bits and the entries changes makes no difference. -/
theorem Sound.same (sound : Sound b m granted threads) (keeps : KeepsBits m m')
    (mapped : Mapped b m pf page 0 b m') (words : m'.words = m.words) :
    Sound b m' granted threads := by
  refine ⟨sound.coherent.mapped mapped, sound.tracked.update sound.coherent mapped.fixed
    (fun _ _ _ holds => mapped.keeps _ _ holds) ?_ ?_⟩
  · intro t isThread dir isDir pf' i inside
    rw [Mem.pageBit, keeps.rangeOf, Book.uses_iff, b.held_of_words words, ← Book.uses_iff]
    exact sound.tracked.bits t isThread dir isDir pf' i inside
  · intro i inside notUsed
    rw [kernelEntry_of_words words]
    exact sound.tracked.absent i inside notUsed

theorem Sound.acquirePool (sound : Sound b m granted threads)
    (ran : Memory.acquirePool m pf = .ok m') : Sound b m' granted threads := by
  have keeps := KeepsBits.acquirePool ran
  obtain ⟨plock, -, acquired⟩ := except_bind_eq_ok.mp ran
  obtain rfl := Except.ok.inj acquired
  refine sound.same keeps (sound.coherent.owned.setLock pf plock pf 0) ?_
  cases pf <;> rfl

theorem Owned.allotted_mallocPage (owned : Owned b m)
    (ran : Memory.mallocPage m pf pgCnt = .ok (result, m')) :
    ∃ page b', result = some (page * 4096) ∧ Allotted b m pf page pgCnt b' m' := by
  obtain ⟨page, b', rfl, mapped⟩ := owned.mallocPage ran
  exact ⟨page, b', rfl, mapped, Marked.mallocPage owned.layout ran⟩

theorem Owned.allotted_getKernelPages (owned : Owned b m)
    (ran : Memory.getKernelPages m pgCnt = .ok (result, m')) :
    ∃ page b', result = some (page * 4096) ∧ Allotted b m .kernel page pgCnt b' m' := by
  obtain ⟨page, b', rfl, mapped⟩ := owned.getKernelPages ran
  exact ⟨page, b', rfl, mapped, Marked.getKernelPages owned.layout ran⟩

theorem Owned.getUserPage (owned : Owned b m)
    (ran : Memory.getUserPage m pgCnt = .ok (result, m')) :
    ∃ page b', result = some (page * 4096) ∧ Mapped b m .user page pgCnt b' m' := by
  obtain ⟨m₁, acquired, ran⟩ := except_bind_eq_ok.mp ran
  obtain ⟨plock, -, acquired⟩ := except_bind_eq_ok.mp acquired
  obtain rfl := Except.ok.inj acquired
  obtain ⟨⟨result', m₂⟩, allocated, ran⟩ := except_bind_eq_ok.mp ran
  have owned₁ := (owned.setLock .user plock .user 0).owned
  obtain ⟨page, b', rfl, mapped⟩ := owned₁.mallocPage allocated
  have plain := mapped.plain owned₁
  obtain ⟨m₃, cleared, ran⟩ := except_bind_eq_ok.mp ran
  have same := mapped.owned.memsetPages plain cleared (page + pgCnt)
  obtain ⟨m₄, released, ran⟩ := except_bind_eq_ok.mp ran
  obtain ⟨plock', -, released⟩ := except_bind_eq_ok.mp released
  obtain rfl := Except.ok.inj released
  simp only [pure_eq_ok, Except.ok.injEq, Prod.mk.injEq] at ran
  obtain ⟨rfl, rfl⟩ := ran
  have locked := owned.setLock .user plock .user page
  have unlocked := same.owned.setLock .user plock' .user (page + pgCnt)
  have all := locked.trans (mapped.trans (same.trans unlocked))
  rw [Nat.zero_add] at all
  exact ⟨page, b', rfl, all⟩

theorem Owned.allotted_getUserPage (owned : Owned b m)
    (ran : Memory.getUserPage m pgCnt = .ok (result, m')) :
    ∃ page b', result = some (page * 4096) ∧ Allotted b m .user page pgCnt b' m' := by
  obtain ⟨page, b', rfl, mapped⟩ := owned.getUserPage ran
  exact ⟨page, b', rfl, mapped, Marked.getUserPage owned.layout ran⟩

theorem Owned.allotted_getAPage (owned : Owned b m) (small : vaddr < 2 ^ 32)
    (ran : Memory.getAPage m pf vaddr = .ok (result, m')) :
    result = some vaddr ∧ ∃ b', Allotted b m pf (vaddr / 4096) 1 b' m' := by
  obtain ⟨rfl, b', mapped⟩ := owned.getAPage small ran
  exact ⟨rfl, b', mapped, Marked.getAPage owned.layout small ran⟩

theorem Sound.avoids_getKernelPages (sound : Sound b m granted threads) :
    Avoids PageAssertion (Memory.getKernelPages m pgCnt) := by
  refine (sound.tracked.avoids_mallocPage sound.coherent).bind fun allocated _ => ?_
  obtain ⟨vaddr, m₁⟩ := allocated
  cases vaddr with
  | none => exact avoids_ok _
  | some vaddr => exact pageAssertion_upper.memsetPages.bind fun _ _ => avoids_ok _

theorem Sound.avoids_getUserPage (sound : Sound b m granted threads) :
    Avoids PageAssertion (Memory.getUserPage m pgCnt) := by
  refine (pageAssertion_upper.acquirePool m .user).bind fun m₁ acquired => ?_
  have sound₁ := sound.acquirePool acquired
  refine (sound₁.tracked.avoids_mallocPage sound₁.coherent).bind fun allocated _ => ?_
  obtain ⟨vaddr, m₂⟩ := allocated
  cases vaddr with
  | none => exact (pageAssertion_upper.releasePool m₂ .user).bind fun _ _ => avoids_ok _
  | some vaddr =>
      refine pageAssertion_upper.memsetPages.bind fun m₃ _ => ?_
      exact (pageAssertion_upper.releasePool m₃ .user).bind fun _ _ => avoids_ok _

theorem Sound.avoids_getAPage (sound : Sound b m granted threads) (small : vaddr < 2 ^ 32) {i : Nat}
    (inside : i < m.pageCnt m.runningThread pf) (clear : m.pageBit m.runningThread pf i = false)
    (isPage : vaddr / 4096 = m.firstPage m.runningThread pf + i) :
    Avoids PageAssertion (Memory.getAPage m pf vaddr) := by
  refine (pageAssertion_upper.acquirePool m pf).bind fun m₁ acquired => ?_
  have sound₁ := sound.acquirePool acquired
  have keeps := KeepsBits.acquirePool acquired
  have fixed := (acquirePool_eq_ok acquired).1
  have running : m₁.runningThread = m.runningThread := Coherent.running_congr fixed
  have inside₁ : i < m₁.pageCnt m₁.runningThread pf := by rwa [running, pageCnt_congr fixed]
  have clear₁ : m₁.pageBit m₁.runningThread pf i = false := by
    rwa [running, Mem.pageBit, keeps.rangeOf]
  have isPage₁ : vaddr / 4096 = m₁.firstPage m₁.runningThread pf + i := by
    rwa [running, firstPage_congr fixed]
  have owned₁ := sound₁.coherent.owned
  have inRange := (owned₁.layout.range _ pf inside₁).2
  have vacant := sound₁.tracked.vacant sound₁.coherent inside₁ clear₁
  rw [← isPage₁] at inRange vacant
  refine (pageAssertion_upper.other .getAPage (by decide)).bind fun _ _ => ?_
  refine (pageAssertion_upper.other .getAPage (by decide)).bind fun _ _ => ?_
  refine (pageAssertion_upper.bitmapSet _ _ true).bind fun btmp set => ?_
  obtain ⟨-, rfl⟩ := bitmapSet_eq_ok.mp set
  have sameLen : ((m₁.vaddrPool pf).vaddrBitmap.put
      (wrapSub vaddr (m₁.vaddrPool pf).vaddrStart / pgSize) true).btmpBytesLen =
      (m₁.vaddrPool pf).vaddrBitmap.btmpBytesLen := Bitmap.put_btmpBytesLen _ true
  have marked := owned₁.setVaddrBitmap sameLen pf 0
  refine (pageAssertion_upper.palloc _ pf).bind fun allocated ran => ?_
  obtain ⟨frame, m₂⟩ := allocated
  obtain ⟨phyaddr, rfl, taken⟩ := marked.owned.palloc ran
  have unchanged := marked.trans (taken.mapped pf _)
  have vacant₂ := unchanged.vacant inRange vacant
    fun _ impossible => absurd impossible (Nat.not_lt_zero _)
  refine (taken.owned.avoids_pageTableAdd inRange small rfl vacant₂).bind fun m₃ _ => ?_
  exact (pageAssertion_upper.releasePool m₃ pf).bind fun _ _ => avoids_ok _

end Calls

end HongbaiOS.Memory
