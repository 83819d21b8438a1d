import HongbaiOS.Memory.Directories

/-!
# The directory as a page table

The processor translates an address in two steps, through an entry of the page directory and
one of the page table that it names.  The last entry of a directory names the directory, so
that for the last 4 MB it is its own page table: what `pte_ptr` and `pde_ptr` return are the
addresses at which the processor finds the entries it uses itself.
-/

namespace HongbaiOS.Memory.Mmu

open HongbaiOS.Library HongbaiOS.Kernel

/-- The words of physical memory, by address. -/
abbrev PhysMem := UInt32 → UInt32

section Processor

variable (phys : PhysMem) (cr3 vaddr : UInt32)

/-- Where the directory entry of an address lies. -/
def pdeAddress : UInt32 := (cr3 &&& (0xfffff000 : UInt32)) ||| vaddr >>> 22 <<< 2

/-- Where its page table entry lies. -/
def pteAddress : UInt32 :=
  (phys (pdeAddress cr3 vaddr) &&& (0xfffff000 : UInt32)) |||
    (vaddr >>> 12 &&& (0x3ff : UInt32)) <<< 2

/-- The physical address; `none` is a page fault. -/
def translate : Option UInt32 :=
  if !isPresent (phys (pdeAddress cr3 vaddr)) then none
  else
    let pte := phys (pteAddress phys cr3 vaddr)
    if !isPresent pte then none else some ((pte &&& 0xfffff000) ||| (vaddr &&& 0xfff))

/-- The word that an access reads. -/
def load : Option UInt32 := (translate phys cr3 vaddr).map phys

end Processor

/-- `PDE_INDEX(addr)` -/
def pdeIndex (addr : UInt32) : UInt32 := (addr &&& 0xffc00000) >>> 22

/-- `PTE_INDEX(addr)` -/
def pteIndex (addr : UInt32) : UInt32 := (addr &&& 0x003ff000) >>> 12

/-- `pte_ptr(vaddr)` -/
def ptePtr (vaddr : UInt32) : UInt32 :=
  (0xffc00000 : UInt32) + ((vaddr &&& 0xffc00000) >>> 10) + pteIndex vaddr * 4

/-- `pde_ptr(vaddr)` -/
def pdePtr (vaddr : UInt32) : UInt32 := 0xfffff000 + pdeIndex vaddr * 4

/-- `addr_v2p(vaddr)` -/
def addrV2p (phys : PhysMem) (cr3 vaddr : UInt32) : Option UInt32 := do
  let pte ← load phys cr3 (ptePtr vaddr)
  return (pte &&& 0xfffff000) + (vaddr &&& 0x00000fff)

/-- Entry 1023 of the directory maps the frame of the directory. -/
structure SelfMapped (phys : PhysMem) (cr3 : UInt32) : Prop where
  present : isPresent (phys ((cr3 &&& 0xfffff000) + 1023 * 4)) = true
  frame : phys ((cr3 &&& 0xfffff000) + 1023 * 4) &&& 0xfffff000 = cr3 &&& 0xfffff000

section Numbers

variable (phys : PhysMem) (cr3 vaddr word offset : UInt32)

theorem toNat_frame : (word &&& 0xfffff000).toNat = word.toNat / 4096 * 4096 :=
  entryFrame_eq word

theorem toNat_offset : (word &&& 0xfff).toNat = word.toNat % 4096 := by
  rw [UInt32.toNat_and]
  exact Nat.and_two_pow_sub_one_eq_mod word.toNat 12

variable {offset} in
theorem toNat_frame_or (small : offset.toNat < 4096) :
    ((word &&& 0xfffff000) ||| offset).toNat = word.toNat / 4096 * 4096 + offset.toNat := by
  rw [UInt32.toNat_or, toNat_frame, Nat.mul_comm]
  exact (Nat.two_pow_add_eq_or_of_lt (i := 12) small _).symm

theorem toNat_pdeIndex : (pdeIndex vaddr).toNat = vaddr.toNat / 2 ^ 22 := by
  have high : (vaddr &&& 0xffc00000).toNat = vaddr.toNat / 2 ^ 22 * 2 ^ 22 :=
    toNat_and_high (k := 22) rfl (by decide) vaddr
  rw [pdeIndex, UInt32.toNat_shiftRight, high, Nat.shiftRight_eq_div_pow]
  exact Nat.mul_div_cancel _ (by decide)

theorem toNat_pteIndex : (pteIndex vaddr).toNat = vaddr.toNat / 2 ^ 12 % 1024 := by
  rw [pteIndex, UInt32.toNat_shiftRight, UInt32.toNat_and, Nat.shiftRight_and_distrib,
    ← Nat.shiftRight_eq_div_pow]
  exact Nat.and_two_pow_sub_one_eq_mod _ 10

theorem toNat_ptePtr : (ptePtr vaddr).toNat = 0xffc00000 + vaddr.toNat / 2 ^ 12 * 4 := by
  have bound := vaddr.toNat_lt
  have high : (vaddr &&& 0xffc00000).toNat = vaddr.toNat / 2 ^ 22 * 2 ^ 22 :=
    toNat_and_high (k := 22) rfl (by decide) vaddr
  have table : ((vaddr &&& 0xffc00000) >>> 10 : UInt32).toNat = vaddr.toNat / 2 ^ 22 * 2 ^ 12 := by
    rw [UInt32.toNat_shiftRight, high, Nat.shiftRight_eq_div_pow]
    change vaddr.toNat / 2 ^ 22 * 2 ^ 22 / 2 ^ 10 = _
    omega
  rw [ptePtr, UInt32.toNat_add, UInt32.toNat_add, UInt32.toNat_mul, table, toNat_pteIndex]
  change ((0xffc00000 + vaddr.toNat / 2 ^ 22 * 2 ^ 12) % 2 ^ 32 +
    vaddr.toNat / 2 ^ 12 % 1024 * 4 % 2 ^ 32) % 2 ^ 32 = _
  omega

theorem toNat_pdePtr : (pdePtr vaddr).toNat = 0xfffff000 + vaddr.toNat / 2 ^ 22 * 4 := by
  have bound := vaddr.toNat_lt
  rw [pdePtr, UInt32.toNat_add, UInt32.toNat_mul, toNat_pdeIndex]
  change (0xfffff000 + vaddr.toNat / 2 ^ 22 * 4 % 2 ^ 32) % 2 ^ 32 = _
  omega

theorem toNat_pdeAddress :
    (pdeAddress cr3 vaddr).toNat = cr3.toNat / 4096 * 4096 + vaddr.toNat / 2 ^ 22 * 4 := by
  have bound := vaddr.toNat_lt
  have offset : (vaddr >>> 22 <<< 2 : UInt32).toNat = vaddr.toNat / 2 ^ 22 * 4 := by
    rw [UInt32.toNat_shiftLeft, UInt32.toNat_shiftRight, Nat.shiftRight_eq_div_pow,
      Nat.shiftLeft_eq]
    change vaddr.toNat / 2 ^ 22 * 2 ^ 2 % 2 ^ 32 = _
    omega
  rw [pdeAddress, toNat_frame_or _ (by rw [offset]; omega), offset]

theorem toNat_pteAddress : (pteAddress phys cr3 vaddr).toNat =
    (phys (pdeAddress cr3 vaddr)).toNat / 4096 * 4096 + vaddr.toNat / 2 ^ 12 % 1024 * 4 := by
  have index : (vaddr >>> 12 &&& (0x3ff : UInt32)).toNat = vaddr.toNat / 2 ^ 12 % 1024 := by
    rw [UInt32.toNat_and, UInt32.toNat_shiftRight, Nat.shiftRight_eq_div_pow]
    exact Nat.and_two_pow_sub_one_eq_mod _ 10
  have offset : ((vaddr >>> 12 &&& (0x3ff : UInt32)) <<< 2).toNat =
      vaddr.toNat / 2 ^ 12 % 1024 * 4 := by
    rw [UInt32.toNat_shiftLeft, index, Nat.shiftLeft_eq]
    change vaddr.toNat / 2 ^ 12 % 1024 * 2 ^ 2 % 2 ^ 32 = _
    omega
  rw [pteAddress, toNat_frame_or _ (by rw [offset]; omega), offset]

end Numbers

section Walks

variable {phys : PhysMem} {cr3 : UInt32}

theorem SelfMapped.first_step (self : SelfMapped phys cr3) (vaddr : UInt32)
    (last : vaddr.toNat / 2 ^ 22 = 1023) :
    isPresent (phys (pdeAddress cr3 vaddr)) = true ∧
      (pteAddress phys cr3 vaddr).toNat =
        cr3.toNat / 4096 * 4096 + vaddr.toNat / 2 ^ 12 % 1024 * 4 := by
  have bound := cr3.toNat_lt
  have entry : pdeAddress cr3 vaddr = (cr3 &&& 0xfffff000) + 1023 * 4 := by
    apply UInt32.toNat_inj.mp
    rw [toNat_pdeAddress, last, UInt32.toNat_add, toNat_frame]
    change _ = (cr3.toNat / 4096 * 4096 + 4092) % 2 ^ 32
    omega
  have frame := congrArg UInt32.toNat self.frame
  rw [toNat_frame, toNat_frame] at frame
  rw [toNat_pteAddress, entry, frame]
  exact ⟨self.present, rfl⟩

/-- The processor goes from `pte_ptr(vaddr)` to the page table entry of `vaddr`, and faults
where there is no page table. -/
theorem SelfMapped.translate_ptePtr (self : SelfMapped phys cr3) (vaddr : UInt32) :
    translate phys cr3 (ptePtr vaddr) =
      if isPresent (phys (pdeAddress cr3 vaddr)) then some (pteAddress phys cr3 vaddr)
      else none := by
  have bound := vaddr.toNat_lt
  have value := toNat_ptePtr vaddr
  obtain ⟨present, table⟩ := self.first_step (ptePtr vaddr) (by rw [value]; omega)
  have entry : pteAddress phys cr3 (ptePtr vaddr) = pdeAddress cr3 vaddr := by
    apply UInt32.toNat_inj.mp
    rw [table, toNat_pdeAddress, value]
    omega
  have target : (phys (pdeAddress cr3 vaddr) &&& 0xfffff000) ||| (ptePtr vaddr &&& 0xfff) =
      pteAddress phys cr3 vaddr := by
    apply UInt32.toNat_inj.mp
    rw [toNat_frame_or _ (by rw [toNat_offset]; omega), toNat_offset, toNat_pteAddress, value]
    omega
  simp only [translate, present, entry, target]
  cases isPresent (phys (pdeAddress cr3 vaddr)) <;> rfl

theorem SelfMapped.translate_pdePtr (self : SelfMapped phys cr3) (vaddr : UInt32) :
    translate phys cr3 (pdePtr vaddr) = some (pdeAddress cr3 vaddr) := by
  have bound := vaddr.toNat_lt
  have bound' := cr3.toNat_lt
  have value := toNat_pdePtr vaddr
  obtain ⟨present, table⟩ := self.first_step (pdePtr vaddr) (by rw [value]; omega)
  have entry : pteAddress phys cr3 (pdePtr vaddr) = (cr3 &&& 0xfffff000) + 1023 * 4 := by
    apply UInt32.toNat_inj.mp
    rw [table, value, UInt32.toNat_add, toNat_frame]
    change _ = (cr3.toNat / 4096 * 4096 + 4092) % 2 ^ 32
    omega
  have target : (phys ((cr3 &&& 0xfffff000) + 1023 * 4) &&& 0xfffff000) |||
      (pdePtr vaddr &&& 0xfff) = pdeAddress cr3 vaddr := by
    rw [self.frame]
    apply UInt32.toNat_inj.mp
    rw [toNat_frame_or _ (by rw [toNat_offset]; omega), toNat_offset, toNat_pdeAddress, value]
    omega
  simp only [translate, present, entry, self.present, target]
  rfl

theorem SelfMapped.addrV2p_eq (self : SelfMapped phys cr3) {vaddr phyaddr : UInt32}
    (mapped : translate phys cr3 vaddr = some phyaddr) :
    addrV2p phys cr3 vaddr = some phyaddr := by
  have disjoint (pte : UInt32) : (pte &&& 0xfffff000) + (vaddr &&& 0xfff) =
      (pte &&& 0xfffff000) ||| (vaddr &&& 0xfff) := by
    have bound := pte.toNat_lt
    apply UInt32.toNat_inj.mp
    rw [toNat_frame_or _ (by rw [toNat_offset]; omega), UInt32.toNat_add, toNat_frame,
      toNat_offset]
    omega
  simp only [translate] at mapped
  split at mapped
  next => cases mapped
  next present =>
    split at mapped
    next => cases mapped
    next =>
      rw [addrV2p, load, self.translate_ptePtr, if_pos (by simpa using present), ← mapped,
        ← disjoint]
      rfl

/-- What the code computes is where the processor looks, for every address and every
directory that maps itself. -/
theorem selfMap_spec (self : SelfMapped phys cr3) (vaddr : UInt32) :
    (isPresent (phys (pdeAddress cr3 vaddr)) = true →
      translate phys cr3 (ptePtr vaddr) = some (pteAddress phys cr3 vaddr)) ∧
    translate phys cr3 (pdePtr vaddr) = some (pdeAddress cr3 vaddr) ∧
    (∀ phyaddr, translate phys cr3 vaddr = some phyaddr →
      addrV2p phys cr3 vaddr = some phyaddr) ∧
    (0xffc00000 ≤ vaddr →
      pteAddress phys cr3 vaddr = (cr3 &&& 0xfffff000) + pteIndex vaddr * 4) := by
  refine ⟨fun present => ?_, self.translate_pdePtr vaddr, fun _ => self.addrV2p_eq,
    fun last => ?_⟩
  · rw [self.translate_ptePtr, if_pos present]
  · have bound := vaddr.toNat_lt
    have bound' := cr3.toNat_lt
    have low : 0xffc00000 ≤ vaddr.toNat := UInt32.le_iff_toNat_le.mp last
    apply UInt32.toNat_inj.mp
    rw [(self.first_step vaddr (by omega)).2, UInt32.toNat_add, UInt32.toNat_mul, toNat_frame,
      toNat_pteIndex]
    change _ = (cr3.toNat / 4096 * 4096 + vaddr.toNat / 2 ^ 12 % 1024 * 4 % 2 ^ 32) % 2 ^ 32
    omega

end Walks

/-- A directory at 1 MB with one page table, which maps one page. -/
def smallPhys : PhysMem := fun a =>
  if a = 0x100ffc then 0x100007
  else if a = 0x100c00 then 0x101007
  else if a = 0x101400 then 0x5007
  else 0

theorem smallPhys_spec :
    translate smallPhys 0x100000 (ptePtr 0xc0100123) = some 0x101400 ∧
      translate smallPhys 0x100000 (pdePtr 0xc0100123) = some 0x100c00 ∧
      addrV2p smallPhys 0x100000 0xc0100123 = some 0x5123 ∧
      pteAddress smallPhys 0x100000 0xfffff000 = 0x100ffc := by
  have self : SelfMapped smallPhys 0x100000 := ⟨by decide, by decide⟩
  obtain ⟨table, directory, physical, -⟩ := selfMap_spec self 0xc0100123
  obtain ⟨-, -, -, last⟩ := selfMap_spec self 0xfffff000
  exact ⟨table (by decide), directory, physical 0x5123 (by decide), last (by decide)⟩

end HongbaiOS.Memory.Mmu

namespace HongbaiOS.Memory

open HongbaiOS.Library HongbaiOS.Kernel Mmu

/-- The frames as words of physical memory. -/
def Mem.phys (m : Mem) : PhysMem := fun a =>
  m.words (a.toNat / 4096 * 4096) (a.toNat % 4096 / 4)

section Reads

variable {b : Book} {m : Mem} {cr3 : UInt32}

theorem Mem.phys_eq {a : UInt32} {frame idx : Nat} (value : a.toNat = frame * 4096 + idx * 4)
    (inside : idx < 1024) : m.phys a = m.words (frame * 4096) idx := by
  have isFrame : a.toNat / 4096 * 4096 = frame * 4096 := by omega
  have isIdx : a.toNat % 4096 / 4 = idx := by omega
  rw [Mem.phys, isFrame, isIdx]

theorem Owned.phys_pde (owned : Owned b m) (isDir : cr3.toNat = m.cr3) (vaddr : UInt32) :
    m.phys (pdeAddress cr3 vaddr) = m.pde vaddr.toNat := by
  have bound := vaddr.toNat_lt
  have aligned : cr3.toNat % 4096 = 0 := isDir ▸ (owned.dir_aligned owned.current).1
  have isFrame : cr3.toNat / 4096 * 4096 = m.cr3 := by rw [← isDir]; omega
  have isIdx : vaddr.toNat / 2 ^ 22 = Memory.pdeIndex vaddr.toNat := by
    change _ = vaddr.toNat / 2 ^ 22 % 1024
    omega
  rw [Mem.phys_eq (toNat_pdeAddress cr3 vaddr) (by omega), isFrame, isIdx]
  rfl

/-- Every directory of the memory manager maps itself. -/
theorem Owned.selfMapped (owned : Owned b m) (isDir : cr3.toNat = m.cr3) :
    SelfMapped m.phys cr3 := by
  obtain ⟨aligned, below⟩ := owned.dir_aligned owned.current
  have bound := cr3.toNat_lt
  have isLast : (cr3 &&& 0xfffff000) + 1023 * 4 = pdeAddress cr3 0xffc00000 := by
    apply UInt32.toNat_inj.mp
    rw [toNat_pdeAddress, UInt32.toNat_add, toNat_frame]
    change (cr3.toNat / 4096 * 4096 + 4092) % 2 ^ 32 = _ + 0xffc00000 / 2 ^ 22 * 4
    omega
  have entry : m.phys ((cr3 &&& 0xfffff000) + 1023 * 4) = pageEntry m.cr3 := by
    rw [isLast, owned.phys_pde isDir]
    exact owned.selfMap _ owned.current
  refine ⟨by rw [entry]; exact isPresent_pageEntry _, ?_⟩
  apply UInt32.toNat_inj.mp
  have frame : (pageEntry m.cr3 &&& 0xfffff000).toNat = m.cr3 := entryFrame_pageEntry aligned below
  rw [entry, frame, toNat_frame, isDir]
  omega

end Reads

end HongbaiOS.Memory
