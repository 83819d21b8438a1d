import HongbaiOS.Memory.ArenaAlloc
import HongbaiOS.Memory.ArenaFree

/-!
# The assertions of the heap

`sys_malloc` asserts that a new block is on no list, and `sys_free` that all blocks of an arena
that is given up are on theirs.  Neither fails for the chunks of a heap, and there is always a
block to take.
-/

namespace HongbaiOS.Memory

open HongbaiOS.Library HongbaiOS.Kernel HongbaiOS.Lib HongbaiOS.Thread

namespace UpperLevel

variable {bad : Halt → Prop} {m : Mem} {pf : PoolFlags} {vaddr phyaddr cnt : Nat}
  (upper : UpperLevel bad)

include upper

theorem pageTableAdd (notBad : ¬ bad (.panic .pageTableAdd)) :
    Avoids bad (Memory.pageTableAdd m vaddr phyaddr) := by
  have setPte : ∀ m, Avoids bad (Memory.setPte m vaddr phyaddr) := fun m =>
    Avoids.bind (avoids_check fun isBad => absurd isBad notBad) fun _ _ => avoids_ok _
  unfold Memory.pageTableAdd
  split
  next => exact setPte m
  next => exact (upper.palloc m .kernel).bind fun _ _ => setPte _

theorem mapPages (notBad : ¬ bad (.panic .pageTableAdd)) :
    Avoids bad (Memory.mapPages pf cnt vaddr m) := by
  induction cnt generalizing vaddr m with
  | zero => exact avoids_ok _
  | succ cnt inductionHypothesis =>
      refine (upper.palloc m pf).bind fun got _ => ?_
      obtain ⟨frame, taken⟩ := got
      cases frame with
      | none => exact avoids_ok _
      | some frame => exact (upper.pageTableAdd notBad).bind fun _ _ => inductionHypothesis

theorem mallocPage (notBad : ¬ bad (.panic .pageTableAdd)) :
    Avoids bad (Memory.mallocPage m pf cnt) := by
  refine Avoids.bind (upper.other .mallocPage (by decide)) fun _ _ => ?_
  refine (upper.vaddrGet m pf cnt).bind fun got _ => ?_
  obtain ⟨start, marked⟩ := got
  cases start with
  | none => exact avoids_ok _
  | some start => exact (upper.mapPages notBad).bind fun _ _ => avoids_ok _

theorem freePages {inPool : Address → Bool} (notBad : ¬ bad (.panic .mfreePage)) :
    Avoids bad (Memory.freePages inPool cnt vaddr m) := by
  induction cnt generalizing vaddr m with
  | zero => exact avoids_ok _
  | succ cnt inductionHypothesis =>
      refine (upper.addrV2p m vaddr).bind fun _ _ => ?_
      refine Avoids.bind (avoids_check fun isBad => absurd isBad notBad) fun _ _ => ?_
      refine (upper.pfree m _).bind fun freed _ => ?_
      exact (upper.pageTablePteRemove freed vaddr).bind fun _ _ => inductionHypothesis

theorem mfreePage (notBad : ¬ bad (.panic .mfreePage)) :
    Avoids bad (Memory.mfreePage m pf vaddr cnt) := by
  refine Avoids.bind (avoids_check fun isBad => absurd isBad notBad) fun _ _ => ?_
  refine (upper.addrV2p m vaddr).bind fun phyaddr _ => ?_
  refine Avoids.bind (avoids_check fun isBad => absurd isBad notBad) fun _ _ => ?_
  dsimp only
  split
  next => exact (upper.freePages notBad).bind fun freed _ => upper.vaddrRemove freed pf vaddr cnt
  next => exact (upper.freePages notBad).bind fun freed _ => upper.vaddrRemove freed pf vaddr cnt

theorem readArena : Avoids bad (m.readArena vaddr) :=
  (upper.translate m vaddr).bind fun _ _ => avoids_ok _

theorem writeArena (ar : Arena) : Avoids bad (m.writeArena vaddr ar) :=
  (upper.translate m vaddr).bind fun _ _ => avoids_ok _

end UpperLevel

section Assertions

variable {b b' : Book} {m m' : Mem} {o : Owner} {chunks : Nat → Option Chunk}
  {page frame cnt size : Nat} {descIdx : Fin 7}

theorem Owned.avoids_giveBack {pf : PoolFlags} (owned : Owned b m) (plain : b.Plain m pf page cnt)
    (positive : 1 ≤ cnt) :
    Avoids HeapAssertion (Memory.mfreePage m pf (page * pgSize) cnt) := by
  intro reason ran isBad
  by_cases own : reason = .panic .mfreePage
  · subst own
    exact owned.avoids_mfreePage plain positive _ ran .mfreePage
  · have others : UpperLevel fun reason => HeapAssertion reason ∧ reason ≠ .panic .mfreePage :=
      fun reason both => heapAssertion_upper reason both.1
    exact others.mfreePage (fun both => both.2 rfl) reason ran ⟨isBad, own⟩

theorem Arenas.avoids_newArena (arenas : Arenas b m o chunks) (owned : Owned b m)
    (isOwner : m.owner = o) : Avoids HeapAssertion (Memory.newArena m (o.desc descIdx)) := by
  have isFlags : m.ownFlags = o.flags := (ownFlags_eq m).trans (congrArg Owner.flags isOwner)
  unfold Memory.newArena
  rw [isFlags]
  refine (heapAssertion_upper.mallocPage nofun).bind fun got allocated => ?_
  obtain ⟨start, mapped⟩ := got
  cases start with
  | none => exact avoids_ok _
  | some address =>
      refine heapAssertion_upper.memsetPages.bind fun cleared clear => ?_
      refine (heapAssertion_upper.writeArena _).bind fun headed write => ?_
      refine Avoids.bind ?_ fun _ _ => avoids_ok _
      obtain ⟨page, b', rfl, supplied⟩ := owned.supply isOwner allocated rfl clear
      have arenas' := supplied.arenas arenas
      obtain ⟨phyaddr, holds, -⟩ := supplied.pages 0 Nat.one_pos
      rw [Nat.add_zero] at holds
      have sameOwner := (owner_congr supplied.frame.fixed).trans isOwner
      rw [(arenas'.sizes descIdx).2, arenas'.appendBlocks_eq descIdx supplied.owned sameOwner holds
        (supplied.isNew arenas Nat.one_pos) write]
      exact avoids_ok _

theorem avoids_popBlock {ref : DescRef} (stocked : (m.desc ref).freeList ≠ []) :
    Avoids HeapAssertion (Memory.popBlock m ref) := by
  unfold Memory.popBlock
  split
  next empty => exact absurd empty stocked
  next =>
    exact heapAssertion_upper.readArena.bind fun _ _ =>
      (heapAssertion_upper.writeArena _).bind fun _ _ => avoids_ok _

theorem Arenas.avoids_mallocSmall (arenas : Arenas b m o chunks) (owned : Owned b m)
    (isOwner : m.owner = o) : Avoids HeapAssertion (Memory.mallocSmall m size) := by
  have served : ∀ (m : Mem) (ref : DescRef), (m.desc ref).freeList ≠ [] →
      Avoids HeapAssertion (Memory.popBlock m ref >>= fun taken =>
        Memory.releasePool taken.2 taken.2.ownFlags >>= fun released =>
          pure (some taken.1, released)) := fun m ref stocked =>
    (avoids_popBlock stocked).bind fun taken _ =>
      (heapAssertion_upper.releasePool taken.2 taken.2.ownFlags).bind fun _ _ => avoids_ok _
  unfold Memory.mallocSmall
  split
  next => exact heapAssertion_upper.fault nofun
  next descIdx found =>
    rw [ownDesc_eq, isOwner]
    dsimp only
    split
    next =>
      refine (arenas.avoids_newArena owned isOwner).bind fun created ran => ?_
      obtain ⟨supplied, grown⟩ := created
      obtain ⟨rfl, -⟩ := newArena_eq_ok ran
      obtain ⟨page, b', -, change⟩ := arenas.newArena owned isOwner ran
      have list := congrFun change.lists descIdx
      rw [Function.update_self] at list
      refine served grown _ fun empty => ?_
      change grown.freeLists o descIdx = [] at empty
      have none := congrArg List.length (list.symm.trans empty)
      have positive := (blocksPer_pos descIdx).1
      rw [List.length_append, length_blocksOf, List.length_nil] at none
      omega
    next stocked => exact served m _ stocked

theorem avoids_mallocLarge : Avoids HeapAssertion (Memory.mallocLarge m size) := by
  refine (heapAssertion_upper.mallocPage nofun).bind fun got _ => ?_
  obtain ⟨start, mapped⟩ := got
  cases start with
  | none => exact (heapAssertion_upper.releasePool mapped _).bind fun _ _ => avoids_ok _
  | some start =>
      exact heapAssertion_upper.memsetPages.bind fun _ _ =>
        (heapAssertion_upper.writeArena _).bind fun _ _ => avoids_ok _

theorem Arenas.avoids_sysMalloc (arenas : Arenas b m o chunks) (owned : Owned b m)
    (isOwner : m.owner = o) : Avoids HeapAssertion (Memory.sysMalloc m size) := by
  unfold Memory.sysMalloc
  dsimp only
  split
  next => exact avoids_ok _
  next =>
    refine (heapAssertion_upper.acquirePool m _).bind fun held acquired => ?_
    have taken := arenas.acquirePool owned acquired
    split
    next => exact avoids_mallocLarge
    next =>
      have sameOwner := (owner_congr taken.fixed).trans isOwner
      exact taken.arenas.avoids_mallocSmall taken.owned sameOwner

theorem Arenas.avoids_freeBlock (arenas : Arenas b m o chunks) (owned : Owned b m)
    (isOwner : m.owner = o) {x : Nat} (isArena : chunks page = some (.arena descIdx))
    (isBlock : x ∈ blocksOf descIdx page) (taken : x ∉ m.freeLists o descIdx) :
    Avoids HeapAssertion (Memory.freeBlock m (o.desc descIdx) (page * pgSize) x) := by
  refine heapAssertion_upper.readArena.bind fun ar read => ?_
  refine (heapAssertion_upper.writeArena _).bind fun counted write => ?_
  obtain ⟨-, change, full⟩ := arenas.countBlock owned isOwner isArena isBlock taken read write
  have sameOwner := (owner_congr change.fixed).trans isOwner
  have sizes := change.arenas.sizes descIdx
  dsimp only
  rw [sizes.2]
  split
  next isFull =>
    have all : ∀ y ∈ blocksOf descIdx page, y ∈ counted.freeLists o descIdx := by
      rw [change.lists, Function.update_self]
      exact full.mp isFull
    obtain ⟨phyaddr, holds, -⟩ := change.arenas.first isArena
    rw [removeBlocks_eq sizes.1 (change.owned.page_lt holds) (Nat.zero_add _).le
      (by rw [blocksFrom_all]; exact all), ok_bind]
    generalize (counted.desc (o.desc descIdx)).freeList.diff _ = list
    have unlisted := change.owned.setFreeList (o.desc descIdx) list o.flags page
    have plain := (change.arenas.plain change.owned sameOwner isArena).congr unlisted
    rw [ownFlags_eq, (owner_congr unlisted.fixed).trans sameOwner]
    exact unlisted.owned.avoids_giveBack plain le_rfl
  next => exact avoids_ok _

end Assertions

end HongbaiOS.Memory
