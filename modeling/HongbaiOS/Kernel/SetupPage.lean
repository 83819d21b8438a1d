import HongbaiOS.Memory.Boot
import HongbaiOS.Memory.SelfMap

/-!
# The page tables of the loader

`setup_page` as its loops store into memory: it clears the directory byte by byte, and fills the
directory and the first page table entry by entry.  What it leaves is the `setupPage` of the memory
manager's model, whatever memory held at power-on.
-/

namespace HongbaiOS.Kernel.PMode

open HongbaiOS.Library HongbaiOS.Memory

/-- `PAGE_DIR_TABLE_POS` -/
def pageDirTable : UInt32 := 0x100000

/-- `PG_US_U|PG_RW_W|PG_P` -/
def pgUsRwP : UInt32 := pgUsU ||| pgRwW ||| pgP1

/-- `.clear_page_dir`, with what is left in `ecx`. -/
def clearPageDir : (ecx : Nat) → (esi : UInt32) → (mem : Bytes) → Bytes
  | 0, _, mem => mem
  | ecx + 1, esi, mem =>
      clearPageDir ecx (esi + 1) (mem.splice (pageDirTable + esi).toNat 1 (Bytes.fill 0))

/-- `.create_pde` -/
def createPde (mem : Bytes) : Bytes :=
  let eax : UInt32 := pageDirTable + 0x1000 ||| pgUsRwP
  let mem := mem.putWord (pageDirTable + 0x0).toNat eax
  let mem := mem.putWord (pageDirTable + 0xc00).toNat eax
  let eax : UInt32 := eax - 0x1000
  mem.putWord (pageDirTable + 4092).toNat eax

/-- A loop that stores entries of consecutive frames from `[table + esi * 4]` on. -/
def fillEntries (table : UInt32) : (ecx : Nat) → (esi entry : UInt32) → (mem : Bytes) → Bytes
  | 0, _, _, mem => mem
  | ecx + 1, esi, entry, mem =>
      fillEntries table ecx (esi + 1) (entry + 0x1000)
        (mem.putWord (table + esi * 4).toNat entry)

/-- `.create_pte` -/
def createPte (mem : Bytes) : Bytes := fillEntries (pageDirTable + 0x1000) 256 0 pgUsRwP mem

/-- `.create_kernel_pde` -/
def createKernelPde (mem : Bytes) : Bytes :=
  fillEntries pageDirTable 254 769 (pageDirTable + 0x2000 ||| pgUsRwP) mem

/-- `setup_page` -/
def setupPage (mem : Bytes) : Bytes :=
  createKernelPde (createPte (createPde (clearPageDir 4096 0 mem)))

/-- Memory as the processor's page walk reads it. -/
def physWords (mem : Bytes) : Mmu.PhysMem := fun a => mem.wordAt a.toNat

section Loops

variable {mem : Bytes}

theorem clearPageDir_eq (ecx : Nat) (esi : UInt32) (mem : Bytes)
    (fits : esi.toNat + ecx ≤ 4096) :
    clearPageDir ecx esi mem = mem.splice (0x100000 + esi.toNat) ecx (Bytes.fill 0) := by
  induction ecx generalizing esi mem with
  | zero => exact Bytes.splice_zero_length.symm
  | succ ecx inductionHypothesis =>
      have address : (pageDirTable + esi).toNat = 0x100000 + esi.toNat := by
        rw [UInt32.toNat_add]
        change (0x100000 + esi.toNat) % 2 ^ 32 = _
        omega
      have next : (esi + 1).toNat = esi.toNat + 1 := by
        rw [UInt32.toNat_add]
        change (esi.toNat + 1) % 2 ^ 32 = _
        omega
      rw [clearPageDir, inductionHypothesis _ _ (by omega), address, next, ← Nat.add_assoc,
        Nat.add_comm ecx 1]
      exact Bytes.splice_append mem (Bytes.fill 0) _ 1 ecx

theorem fillEntries_eq (table : UInt32) (ecx : Nat) (esi entry : UInt32) (mem : Bytes)
    (fits : table.toNat + 4 * (esi.toNat + ecx) < 2 ^ 32) :
    fillEntries table ecx esi entry mem =
      mem.splice (table.toNat + 4 * esi.toNat) (4 * ecx)
        (Bytes.ofWords fun k => entry + UInt32.ofNat (k * 0x1000)) := by
  induction ecx generalizing esi entry mem with
  | zero => exact Bytes.splice_zero_length.symm
  | succ ecx inductionHypothesis =>
      have address : (table + esi * 4).toNat = table.toNat + 4 * esi.toNat := by
        rw [UInt32.toNat_add, UInt32.toNat_mul]
        change (table.toNat + esi.toNat * 4 % 2 ^ 32) % 2 ^ 32 = _
        omega
      have next : (esi + 1).toNat = esi.toNat + 1 := by
        rw [UInt32.toNat_add]
        change (esi.toNat + 1) % 2 ^ 32 = _
        omega
      have rest : (fun k => entry + 0x1000 + UInt32.ofNat (k * 0x1000)) =
          fun k => entry + UInt32.ofNat ((k + 1) * 0x1000) := by
        funext k
        rw [Nat.add_mul, Nat.one_mul, UInt32.ofNat_add, UInt32.add_assoc, UInt32.add_comm 0x1000]
        rfl
      have stored : mem.putWord (table.toNat + 4 * esi.toNat) entry =
          mem.splice (table.toNat + 4 * esi.toNat) 4
            (Bytes.ofWords fun k => entry + UInt32.ofNat (k * 0x1000)) := by
        rw [← Bytes.putWord_eq_splice, Nat.zero_mul]
        exact congrArg _ (UInt32.add_zero entry).symm
      rw [fillEntries, inductionHypothesis _ _ _ (by rw [next]; omega), address, next, rest,
        stored, Nat.mul_add, ← Nat.add_assoc, Nat.mul_add 4 ecx, Nat.add_comm (4 * ecx),
        ← Bytes.splice_append, Bytes.window_ofWords]

/-- The entries of consecutive frames. -/
theorem entry_eq {entry : UInt32} {frame k : Nat} (first : entry = pageEntry frame)
    (aligned : frame % 4096 = 0) (small : frame + k * 0x1000 < 2 ^ 32) :
    entry + UInt32.ofNat (k * 0x1000) = pageEntry (frame + k * 0x1000) := by
  apply UInt32.toNat_inj.mp
  rw [first, UInt32.toNat_add, pageEntry_toNat aligned (by omega),
    pageEntry_toNat (by omega) small, UInt32.toNat_ofNat']
  omega

/-- The directory that `setup_page` leaves. -/
def dirEntry (idx : Nat) : UInt32 :=
  if idx = 0 then pageEntry 0x101000
  else if idx < 768 then 0
  else if idx < 1023 then pageEntry (0x101000 + (idx - 768) * 0x1000)
  else pageEntry 0x100000

theorem wordAt_fill (a : Nat) : (Bytes.fill 0).wordAt a = 0 := rfl

/-- After the loop over the directory. -/
theorem wordAt_clearPageDir (mem : Bytes) (a : Nat) (aligned : a % 4 = 0) :
    (clearPageDir 4096 0 mem).wordAt a =
      if 0x100000 ≤ a ∧ a < 0x101000 then 0 else mem.wordAt a := by
  rw [clearPageDir_eq 4096 0 mem (by decide), UInt32.toNat_zero, Nat.add_zero]
  split
  next inside =>
    obtain ⟨k, rfl⟩ := Nat.exists_eq_add_of_le inside.1
    rw [Bytes.wordAt_splice_inside (by omega), wordAt_fill]
  next outside => exact Bytes.wordAt_splice_apart (by omega)

theorem wordAt_fillEntries (table : UInt32) (ecx : Nat) (esi entry : UInt32) (frame : Nat)
    (first : entry = pageEntry frame) (aligned : frame % 4096 = 0)
    (small : frame + ecx * 0x1000 < 2 ^ 32)
    (fits : table.toNat + 4 * (esi.toNat + ecx) < 2 ^ 32) (aligned' : table.toNat % 4 = 0)
    (mem : Bytes) (a : Nat) (word : a % 4 = 0) :
    (fillEntries table ecx esi entry mem).wordAt a =
      if table.toNat + 4 * esi.toNat ≤ a ∧ a < table.toNat + 4 * (esi.toNat + ecx) then
        pageEntry (frame + ((a - table.toNat) / 4 - esi.toNat) * 0x1000)
      else mem.wordAt a := by
  rw [fillEntries_eq table ecx esi entry mem fits]
  split
  next inside =>
    obtain ⟨k, rfl⟩ : ∃ k, a = table.toNat + 4 * esi.toNat + 4 * k :=
      ⟨(a - (table.toNat + 4 * esi.toNat)) / 4, by omega⟩
    have index : (table.toNat + 4 * esi.toNat + 4 * k - table.toNat) / 4 - esi.toNat = k := by
      omega
    have inRun : k < ecx := by omega
    have below : frame + k * 0x1000 < 2 ^ 32 :=
      Nat.lt_of_le_of_lt (Nat.add_le_add_left (Nat.mul_le_mul_right _ inRun.le) _) small
    have value := entry_eq first aligned below
    rw [Bytes.wordAt_splice_inside (by omega), ← Bytes.word_eq_wordAt, Bytes.word_ofWords, index,
      value]
  next outside => exact Bytes.wordAt_splice_apart (by omega)

/-- The stores between the loops. -/
theorem wordAt_createPde (mem : Bytes) (a : Nat) (aligned : a % 4 = 0) :
    (createPde mem).wordAt a =
      if a = 0x100000 ∨ a = 0x100c00 then pageEntry 0x101000
      else if a = 0x100ffc then pageEntry 0x100000
      else mem.wordAt a := by
  have first : (pageDirTable + 0x0).toNat = 0x100000 := rfl
  have second : (pageDirTable + 0xc00).toNat = 0x100c00 := rfl
  have last : (pageDirTable + 4092).toNat = 0x100ffc := rfl
  rw [createPde, first, second, last]
  split
  next table =>
    rcases table with rfl | rfl
    · rw [Bytes.wordAt_putWord_apart (by omega), Bytes.wordAt_putWord_apart (by omega),
        Bytes.wordAt_putWord_same]
      rfl
    · rw [Bytes.wordAt_putWord_apart (by omega), Bytes.wordAt_putWord_same]
      rfl
  next noTable =>
    split
    next self =>
      subst self
      rw [Bytes.wordAt_putWord_same]
      rfl
    next other =>
      rw [Bytes.wordAt_putWord_apart (by omega), Bytes.wordAt_putWord_apart (by omega),
        Bytes.wordAt_putWord_apart (by omega)]

theorem wordAt_setupPage (mem : Bytes) (a : Nat) (aligned : a % 4 = 0) :
    (setupPage mem).wordAt a =
      if 0x100000 ≤ a ∧ a < 0x101000 then dirEntry ((a - 0x100000) / 4)
      else if 0x101000 ≤ a ∧ a < 0x101400 then pageEntry ((a - 0x101000) / 4 * 0x1000)
      else mem.wordAt a := by
  have dir : pageDirTable.toNat = 0x100000 := rfl
  have table : (pageDirTable + 0x1000).toNat = 0x101000 := rfl
  have start : (769 : UInt32).toNat = 769 := rfl
  have zero : (0 : UInt32).toNat = 0 := rfl
  have tables := wordAt_fillEntries pageDirTable 254 769
    (pageDirTable + 0x2000 ||| pgUsRwP) 0x102000 rfl rfl (by decide) (by decide)
    rfl (createPte (createPde (clearPageDir 4096 0 mem))) a aligned
  have pages := wordAt_fillEntries (pageDirTable + 0x1000) 256 0 pgUsRwP 0 rfl rfl (by decide)
    (by decide) rfl (createPde (clearPageDir 4096 0 mem)) a aligned
  simp only [dir, start, Nat.reduceAdd, Nat.reduceMul] at tables
  simp only [table, zero, Nat.reduceAdd, Nat.reduceMul] at pages
  rw [setupPage, createKernelPde, tables, createPte, pages, wordAt_createPde _ a aligned,
    wordAt_clearPageDir _ a aligned]
  by_cases inDir : 0x100000 ≤ a ∧ a < 0x101000
  · have noPage : ¬ (0x101000 ≤ a ∧ a < 0x101400) := by omega
    rw [if_pos inDir, if_neg noPage, if_pos inDir, dirEntry]
    split
    next kernelTable =>
      rw [if_neg (by omega), if_neg (by omega), if_pos (by omega)]
      have same : 0x102000 + ((a - 0x100000) / 4 - 769) * 0x1000 =
          0x101000 + ((a - 0x100000) / 4 - 768) * 0x1000 := by omega
      rw [same]
    next noKernelTable =>
      split
      next table =>
        rcases table with rfl | rfl
        · rfl
        · rfl
      next noTable =>
        split
        next self =>
          subst self
          rfl
        next other => rw [if_neg (by omega), if_pos (by omega)]
  · have noEntry : ¬ (0x100c04 ≤ a ∧ a < 0x100ffc) := by omega
    have noTable : ¬ (a = 0x100000 ∨ a = 0x100c00) := by omega
    have noSelf : a ≠ 0x100ffc := by omega
    rw [if_neg noEntry, if_neg inDir, if_neg noTable, if_neg noSelf, if_neg inDir, Nat.zero_add,
      Nat.sub_zero]

end Loops

theorem setupPage_local : Bytes.Local 0x100000 setupPage := by
  have clear : Bytes.Local 0x100000 (clearPageDir 4096 0) :=
    .splice (Nat.le_add_right _ _) fun mem => clearPageDir_eq 4096 0 mem (by decide)
  have dword : ∀ address value, 0x100000 ≤ address →
      Bytes.Local 0x100000 fun mem => mem.putWord address value :=
    fun address value above => .splice above fun _ => rfl
  have dirs : Bytes.Local 0x100000 createPde :=
    (dword _ _ (by decide)).comp ((dword _ _ (by decide)).comp (dword _ _ (by decide)))
  have pages : Bytes.Local 0x100000 createPte :=
    .splice (by decide) fun mem => fillEntries_eq _ _ _ _ mem (by decide)
  have tables : Bytes.Local 0x100000 createKernelPde :=
    .splice (by decide) fun mem => fillEntries_eq _ _ _ _ mem (by decide)
  exact tables.comp (pages.comp (dirs.comp clear))

/-- The page tables of the memory manager's model are in memory. -/
def HoldsWords (mem : Bytes) (m : Mem) : Prop :=
  ∀ frame idx : Nat, frame % 4096 = 0 → idx < 1024 →
    m.words frame idx = mem.wordAt (frame + 4 * idx)

theorem HoldsWords.setupPage {mem : Bytes} {m : Mem} (holds : HoldsWords mem m) :
    HoldsWords (setupPage mem) (Memory.setupPage m) := by
  intro frame idx aligned small
  rw [wordAt_setupPage mem _ (by omega)]
  change (if frame = 0x100000 then _ else if frame = 0x101000 ∧ idx < 256 then _ else _) = _
  by_cases isDir : frame = 0x100000
  · have inDir : 0x100000 ≤ frame + 4 * idx ∧ frame + 4 * idx < 0x101000 := by omega
    have index : (frame + 4 * idx - 0x100000) / 4 = idx := by omega
    rw [if_pos isDir, if_pos inDir, index]
    rfl
  · have outside : ¬ (0x100000 ≤ frame + 4 * idx ∧ frame + 4 * idx < 0x101000) := by omega
    rw [if_neg isDir, if_neg outside]
    by_cases isTable : frame = 0x101000 ∧ idx < 256
    · have inTable : 0x101000 ≤ frame + 4 * idx ∧ frame + 4 * idx < 0x101400 := by omega
      have index : (frame + 4 * idx - 0x101000) / 4 = idx := by omega
      rw [if_pos isTable, if_pos inTable, index]
    · have outTable : ¬ (0x101000 ≤ frame + 4 * idx ∧ frame + 4 * idx < 0x101400) := by omega
      rw [if_neg isTable, if_neg outTable]
      exact holds frame idx aligned small

/-- The first megabyte and the one from 3 GB on. -/
def Mapped (vaddr : UInt32) : Prop :=
  vaddr.toNat % 2 ^ 30 < 0x100000 ∧ (vaddr.toNat / 2 ^ 30 = 0 ∨ vaddr.toNat / 2 ^ 30 = 3)

instance (vaddr : UInt32) : Decidable (Mapped vaddr) :=
  inferInstanceAs (Decidable (_ ∧ _))

/-- The entries that map the low megabyte twice. -/
structure Paged (mem : Bytes) : Prop where
  low : mem.wordAt 0x100000 = pageEntry 0x101000
  high : mem.wordAt 0x100c00 = pageEntry 0x101000
  pages : ∀ page < 256, mem.wordAt (0x101000 + 4 * page) = pageEntry (page * 0x1000)

theorem setupPage_paged (mem : Bytes) : Paged (setupPage mem) where
  low := wordAt_setupPage mem 0x100000 (by decide)
  high := wordAt_setupPage mem 0x100c00 (by decide)
  pages page small := by
    have outside : ¬ (0x100000 ≤ 0x101000 + 4 * page ∧ 0x101000 + 4 * page < 0x101000) := by omega
    have inside : 0x101000 ≤ 0x101000 + 4 * page ∧ 0x101000 + 4 * page < 0x101400 := by omega
    have index : (0x101000 + 4 * page - 0x101000) / 4 = page := by omega
    rw [wordAt_setupPage mem _ (by omega), if_neg outside, if_pos inside, index]

/-- Stores into the low megabyte keep the entries. -/
theorem Paged.congr {mem mem' : Bytes} (paged : Paged mem)
    (same : ∀ a, 0x100000 ≤ a → mem' a = mem a) : Paged mem' where
  low := (Bytes.wordAt_congr fun a first _ => same a first).trans paged.low
  high := (Bytes.wordAt_congr fun a first _ => same a (by omega)).trans paged.high
  pages page small :=
    (Bytes.wordAt_congr fun a first _ => same a (by omega)).trans (paged.pages page small)

/-- Both megabytes are the low one. -/
theorem Paged.translate {mem : Bytes} (paged : Paged mem) {vaddr : UInt32}
    (mapped : Mapped vaddr) : Mmu.translate (physWords mem) pageDirTable vaddr =
      some (UInt32.ofNat (vaddr.toNat % 2 ^ 30)) := by
  have dir : pageDirTable.toNat = 0x100000 := rfl
  obtain ⟨small, half⟩ := mapped
  have pde : physWords mem (Mmu.pdeAddress pageDirTable vaddr) = pageEntry 0x101000 := by
    rw [physWords, Mmu.toNat_pdeAddress, dir]
    rcases half with first | last
    · have index : 0x100000 / 4096 * 4096 + vaddr.toNat / 2 ^ 22 * 4 = 0x100000 := by omega
      rw [index]
      exact paged.low
    · have index : 0x100000 / 4096 * 4096 + vaddr.toNat / 2 ^ 22 * 4 = 0x100c00 := by omega
      rw [index]
      exact paged.high
  have page : vaddr.toNat % 2 ^ 30 / 0x1000 < 256 := by omega
  have pte : physWords mem (Mmu.pteAddress (physWords mem) pageDirTable vaddr) =
      pageEntry (vaddr.toNat % 2 ^ 30 / 0x1000 * 0x1000) := by
    have table : (pageEntry 0x101000).toNat = 0x101007 := by decide
    have index : 0x101007 / 4096 * 4096 + vaddr.toNat / 2 ^ 12 % 1024 * 4 =
        0x101000 + 4 * (vaddr.toNat % 2 ^ 30 / 0x1000) := by omega
    rw [physWords, Mmu.toNat_pteAddress, pde, table, index]
    exact paged.pages _ page
  simp only [Mmu.translate, pde, pte, isPresent_pageEntry, Bool.not_true, Bool.false_eq_true,
    if_false]
  refine congrArg some (UInt32.toNat_inj.mp ?_)
  rw [Mmu.toNat_frame_or _ (by rw [Mmu.toNat_offset]; omega), Mmu.toNat_offset,
    pageEntry_toNat (by omega) (by omega), UInt32.toNat_ofNat']
  omega

/-- Whatever memory held before: `setup_page` leaves the tables with which the memory manager's
model boots, the low megabyte is mapped at 0 and at 3 GB, and the directory is its own last
page table. -/
theorem setup_page_boots (mem : Bytes) :
    (∀ m, HoldsWords mem m → HoldsWords (setupPage mem) (Memory.setupPage m)) ∧
    (∀ vaddr, Mapped vaddr → Mmu.translate (physWords (setupPage mem)) pageDirTable vaddr =
      some (UInt32.ofNat (vaddr.toNat % 2 ^ 30))) ∧
    Mmu.SelfMapped (physWords (setupPage mem)) pageDirTable := by
  refine ⟨fun m holds => holds.setupPage, fun vaddr mapped =>
    (setupPage_paged mem).translate mapped, ?_⟩
  have last : physWords (setupPage mem) ((pageDirTable &&& 0xfffff000) + 1023 * 4) =
      pageEntry 0x100000 := wordAt_setupPage mem 0x100ffc (by decide)
  constructor
  · rw [last]
    exact isPresent_pageEntry _
  · rw [last]
    decide

/-- With cleared memory. -/
theorem setup_page_boots_cleared :
    HoldsWords (setupPage (Bytes.fill 0)) (Memory.setupPage powerOn) ∧
      Mmu.translate (physWords (setupPage (Bytes.fill 0))) pageDirTable 0xc0001500 =
        some 0x1500 := by
  obtain ⟨refines, mapped, -⟩ := setup_page_boots (Bytes.fill 0)
  exact ⟨refines powerOn fun _ _ _ _ => rfl, mapped 0xc0001500 (by decide)⟩

end HongbaiOS.Kernel.PMode
