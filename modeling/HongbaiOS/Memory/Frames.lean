import HongbaiOS.Memory.PageSteps
import HongbaiOS.Memory.Boot

/-!
# Entries, pools and the layout of memory

What a page table entry says, which frames a pool hands out, and where the pools and the
ranges of virtual pages lie.  The layout holds for every size of the memory, since the
numbers of pages are kept in a `uint16_t`.
-/

namespace HongbaiOS.Memory

open HongbaiOS.Library HongbaiOS.Kernel HongbaiOS.Lib HongbaiOS.Thread

section Entries

variable {phyaddr : Nat} {entry : UInt32}

theorem toNat_and_high {mask : UInt32} {k : Nat} (isMask : mask.toNat = (2 ^ (32 - k) - 1) <<< k)
    (small : k ≤ 32) (word : UInt32) :
    (word &&& mask).toNat = word.toNat / 2 ^ k * 2 ^ k := by
  have inside : word.toNat < 2 ^ 32 := word.toNat_lt
  rw [UInt32.toNat_and, isMask, ← Nat.shiftRight_eq_div_pow, ← Nat.shiftLeft_eq]
  apply Nat.eq_of_testBit_eq
  intro i
  rw [Nat.testBit_and, Nat.testBit_shiftLeft, Nat.testBit_shiftLeft, Nat.testBit_shiftRight,
    Nat.testBit_two_pow_sub_one]
  by_cases low : i < k
  · simp [Nat.not_le.mpr low]
  · have back : k + (i - k) = i := by omega
    rw [back]
    by_cases high : i < 32
    · have place : i - k < 32 - k := by omega
      simp [place, Bool.and_comm]
    · have clear : word.toNat.testBit i = false :=
        Nat.testBit_lt_two_pow (inside.trans_le (Nat.pow_le_pow_right (by decide) (by omega)))
      simp [clear]

theorem entryFrame_eq (entry : UInt32) : entryFrame entry = entry.toNat / 4096 * 4096 :=
  toNat_and_high (k := 12) rfl (by decide) entry

theorem pageEntry_toNat (aligned : phyaddr % 4096 = 0) (small : phyaddr < 2 ^ 32) :
    (pageEntry phyaddr).toNat = phyaddr + 7 := by
  have split : phyaddr = 2 ^ 3 * (phyaddr / 8) := by omega
  have bits : phyaddr ||| 7 = phyaddr + 7 := by
    rw [split]
    exact (Nat.two_pow_add_eq_or_of_lt (by decide) (phyaddr / 8)).symm
  have value : (UInt32.ofNat phyaddr).toNat = phyaddr := by
    rw [UInt32.toNat_ofNat']
    exact Nat.mod_eq_of_lt small
  rw [pageEntry, UInt32.or_assoc, UInt32.or_assoc, UInt32.toNat_or, value]
  exact bits

theorem entryFrame_pageEntry (aligned : phyaddr % 4096 = 0) (small : phyaddr < 2 ^ 32) :
    entryFrame (pageEntry phyaddr) = phyaddr := by
  have rounded : (phyaddr + 7) / 4096 * 4096 = phyaddr := by omega
  rw [entryFrame_eq, pageEntry_toNat aligned small, rounded]

@[simp]
theorem isPresent_pageEntry (phyaddr : Address) : isPresent (pageEntry phyaddr) = true := by
  have absorbed : pageEntry phyaddr &&& 1 = 1 := by
    rw [pageEntry, pgP1]
    apply UInt32.toNat_inj.mp
    rw [UInt32.toNat_and, UInt32.toNat_or]
    apply Nat.eq_of_testBit_eq
    intro i
    rw [Nat.testBit_and, Nat.testBit_or]
    cases (1 : UInt32).toNat.testBit i <;> simp
  rw [isPresent, absorbed]
  rfl

theorem isPresent_and_not (entry : UInt32) : isPresent (entry &&& ~~~pgP1) = false := by
  have cleared : (~~~pgP1 &&& 1 : UInt32) = 0 := rfl
  rw [isPresent, UInt32.and_assoc, cleared, UInt32.and_zero]
  rfl

@[simp]
theorem isPresent_zero : isPresent 0 = false := rfl

end Entries

section Pages

variable {vaddr page : Nat}

/-- The position of a page in the directory and in its table. -/
theorem pdeIndex_eq (small : vaddr < 2 ^ 32) : pdeIndex vaddr = vaddr / 4096 / 1024 := by
  change vaddr / 2 ^ 22 % 1024 = _
  omega

theorem pteIndex_eq (vaddr : Nat) : pteIndex vaddr = vaddr / 4096 % 1024 := rfl

end Pages

namespace Mem

theorem words_setWord (m : Mem) (frame idx : Nat) (word : UInt32) (frame' idx' : Nat) :
    (m.setWord frame idx word).words frame' idx' =
      if frame' = frame ∧ idx' = idx then word else m.words frame' idx' := by
  simp only [setWord]
  by_cases sameFrame : frame' = frame
  · subst sameFrame
    by_cases sameIdx : idx' = idx
    · subst sameIdx
      rw [Function.update_self, Function.update_self, if_pos ⟨rfl, rfl⟩]
    · rw [Function.update_self, Function.update_of_ne sameIdx, if_neg fun both => sameIdx both.2]
  · rw [Function.update_of_ne sameFrame, if_neg fun both => sameFrame both.1]

theorem words_clearFrame (m : Mem) (frame frame' idx' : Nat) :
    (m.clearFrame frame).words frame' idx' = if frame' = frame then 0 else m.words frame' idx' := by
  simp only [clearFrame, Function.update_apply]
  split <;> rfl

end Mem

/-- The first page of the kernel's heap. -/
def kHeapPage : Nat := 0xc0100

/-- The bits of the address bitmap of a process. -/
def userPageCnt : Nat := 753592

namespace Mem

/-- The first frame of a pool. -/
def start (m : Mem) (pf : PoolFlags) : Nat := (m.pool pf).phyAddrStart

/-- The number of frames that the bitmap of a pool stands for. -/
def frames (m : Mem) (pf : PoolFlags) : Nat := (m.pool pf).poolBitmap.bitLen

theorem start_user (m : Mem) : m.start .user = m.userPool.phyAddrStart := rfl

end Mem

/-- Where the pools lie, and which pages the address bitmaps stand for. -/
structure Layout (m : Mem) : Prop where
  kernelStart : m.start .kernel = 0x200000
  kernelEnd : 0x200000 + m.frames .kernel * 4096 ≤ m.start .user
  userAligned : m.start .user % 4096 = 0
  userEnd : m.start .user + m.frames .user * 4096 ≤ 2 ^ 32
  kernelVaddr : m.kernelVaddr.vaddrStart = kHeapStart
  kernelPages : m.kernelVaddr.vaddrBitmap.bitLen ≤ 32760
  userPages : ∀ t, (m.task t).userprogVaddr.vaddrBitmap.bitLen = 0 ∨
    (m.task t).userprogVaddr.vaddrStart = userVaddrStart ∧
      (m.task t).userprogVaddr.vaddrBitmap.bitLen = userPageCnt

theorem start_congr {m m' : Mem} (same : m'.fixed = m.fixed) : m'.start = m.start :=
  congrArg Fixed.phyAddrStart same

theorem frames_congr {m m' : Mem} (same : m'.fixed = m.fixed) : m'.frames = m.frames :=
  congrArg (fun fixed pf => fixed.poolLen pf * 8) same

/-- The layout is part of what the page operations leave alone. -/
theorem Layout.congr {m m' : Mem} (layout : Layout m) (same : m'.fixed = m.fixed) :
    Layout m' := by
  have heapStart : m'.kernelVaddr.vaddrStart = m.kernelVaddr.vaddrStart :=
    congrArg Fixed.kernelVaddrStart same
  have heapLen : m'.kernelVaddr.vaddrBitmap.bitLen = m.kernelVaddr.vaddrBitmap.bitLen :=
    congrArg (fun fixed => fixed.kernelVaddrLen * 8) same
  have taskStart : ∀ t, (m'.task t).userprogVaddr.vaddrStart =
      (m.task t).userprogVaddr.vaddrStart :=
    fun t => congrArg (fun fixed => fixed.vaddrStart t) same
  have taskLen : ∀ t, (m'.task t).userprogVaddr.vaddrBitmap.bitLen =
      (m.task t).userprogVaddr.vaddrBitmap.bitLen :=
    fun t => congrArg (fun fixed => fixed.vaddrLen t * 8) same
  constructor
  · rw [start_congr same, layout.kernelStart]
  · rw [start_congr same, frames_congr same]
    exact layout.kernelEnd
  · rw [start_congr same]
    exact layout.userAligned
  · rw [start_congr same, frames_congr same]
    exact layout.userEnd
  · rw [heapStart, layout.kernelVaddr]
  · rw [heapLen]
    exact layout.kernelPages
  · intro t
    rw [taskStart, taskLen]
    exact layout.userPages t

/-- `mem_pool_init` lays memory out so for every size. -/
theorem boot_layout (m : Mem) (memBytesTotal : Nat) : Layout (boot m memBytesTotal) := by
  let used := 256 * pgSize + 0x100000
  have used_eq : used = 0x200000 := rfl
  let free := wrapSub memBytesTotal used / pgSize
  have start := Mem.start_user (boot m memBytesTotal)
  have pool : (boot m memBytesTotal).userPool =
      ⟨⟨(free % 2 ^ 16 - free % 2 ^ 16 / 2) / 8, Bytes.fill 0⟩, lockInit,
        wrap (used + free % 2 ^ 16 / 2 * pgSize),
        (free % 2 ^ 16 - free % 2 ^ 16 / 2) * pgSize⟩ := rfl
  rw [pool] at start
  dsimp only at start
  have kernelLen : (boot m memBytesTotal).frames .kernel = free % 2 ^ 16 / 2 / 8 * 8 := rfl
  have userLen : (boot m memBytesTotal).frames .user =
      (free % 2 ^ 16 - free % 2 ^ 16 / 2) / 8 * 8 := rfl
  have heapLen : (boot m memBytesTotal).kernelVaddr.vaddrBitmap.bitLen =
      free % 2 ^ 16 / 2 / 8 * 8 := rfl
  have size : pgSize = 4096 := rfl
  clear_value used free
  subst used_eq
  have noWrap : wrap (0x200000 + free % 2 ^ 16 / 2 * 4096) = 0x200000 + free % 2 ^ 16 / 2 * 4096 :=
    Nat.mod_eq_of_lt (by omega)
  rw [size, noWrap] at start
  refine ⟨rfl, ?_, ?_, ?_, rfl, ?_, fun t => Or.inl rfl⟩
  · rw [start, kernelLen]
    omega
  · rw [start]
    omega
  · rw [start, userLen]
    omega
  · rw [heapLen]
    omega

/-- A frame that the pool has handed out. -/
def Mem.InPool (m : Mem) (pf : PoolFlags) (phyaddr : Nat) : Prop :=
  ∃ i < m.frames pf, (m.pool pf).poolBitmap.bit i = true ∧ phyaddr = m.start pf + i * 4096

section InPool

variable {m m' : Mem} {pf : PoolFlags} {phyaddr i : Nat}

/-- Frames are whole, above the kernel's tables, and of one pool only. -/
theorem Layout.frame (layout : Layout m) (inside : i < m.frames pf)
    (isFrame : phyaddr = m.start pf + i * 4096) :
    phyaddr % 4096 = 0 ∧ 0x200000 ≤ phyaddr ∧ phyaddr < 2 ^ 32 ∧
      (pf = .user ↔ m.start .user ≤ phyaddr) := by
  have kernelStart := layout.kernelStart
  have kernelEnd := layout.kernelEnd
  have userAligned := layout.userAligned
  have userEnd := layout.userEnd
  cases pf with
  | kernel =>
      refine ⟨by omega, by omega, by omega, ?_⟩
      simp only [reduceCtorEq, false_iff]
      omega
  | user =>
      refine ⟨by omega, by omega, by omega, ?_⟩
      simp only [true_iff]
      omega

theorem Mem.InPool.frame (inPool : m.InPool pf phyaddr) (layout : Layout m) :
    phyaddr % 4096 = 0 ∧ 0x200000 ≤ phyaddr ∧ phyaddr < 2 ^ 32 ∧
      (pf = .user ↔ m.start .user ≤ phyaddr) := by
  obtain ⟨i, inside, -, isFrame⟩ := inPool
  exact layout.frame inside isFrame

theorem Mem.InPool.pool_eq {pf' : PoolFlags} (first : m.InPool pf phyaddr)
    (second : m.InPool pf' phyaddr) (layout : Layout m) : pf = pf' := by
  have same : pf = .user ↔ pf' = .user :=
    (first.frame layout).2.2.2.trans (second.frame layout).2.2.2.symm
  cases pf <;> cases pf' <;> simp_all

/-- What `palloc` computes as the address of a frame. -/
theorem Layout.wrap_frame (layout : Layout m) (inside : i < m.frames pf) :
    wrap ((m.pool pf).phyAddrStart + i * pgSize) = m.start pf + i * 4096 :=
  Nat.mod_eq_of_lt (layout.frame inside rfl).2.2.1

@[simp]
theorem Mem.pool_setPoolBitmap (m : Mem) (pf pf' : PoolFlags) (btmp : Bitmap) :
    (m.setPoolBitmap pf btmp).pool pf' =
      if pf' = pf then { m.pool pf with poolBitmap := btmp } else m.pool pf' := by
  cases pf <;> cases pf' <;> rfl

/-- Setting or clearing the bit of one frame. -/
theorem Mem.inPool_put (value : Bool) (inside : i < m.frames pf) (pf' : PoolFlags)
    (phyaddr : Nat) :
    (m.setPoolBitmap pf ((m.pool pf).poolBitmap.put i value)).InPool pf' phyaddr ↔
      if pf' = pf ∧ phyaddr = m.start pf + i * 4096 then value = true
      else m.InPool pf' phyaddr := by
  unfold Mem.InPool Mem.frames Mem.start
  rw [Mem.pool_setPoolBitmap]
  by_cases same : pf' = pf
  · subst same
    simp only [if_true, true_and, Bitmap.put_bitLen, Bitmap.bit_put]
    split
    next this =>
      constructor
      · rintro ⟨j, -, bit, isFrame⟩
        have sameBit : j = i := Nat.eq_of_mul_eq_mul_right (by decide : 0 < 4096)
          (Nat.add_left_cancel (isFrame.symm.trans this))
        rw [if_pos sameBit] at bit
        exact bit
      · intro set
        exact ⟨i, inside, by rw [if_pos rfl, set], this⟩
    next other =>
      have otherBit : ∀ {j}, phyaddr = (m.pool pf').phyAddrStart + j * 4096 → j ≠ i := by
        rintro j isFrame rfl
        exact other isFrame
      constructor
      · rintro ⟨j, insideJ, bit, isFrame⟩
        rw [if_neg (otherBit isFrame)] at bit
        exact ⟨j, insideJ, bit, isFrame⟩
      · rintro ⟨j, insideJ, bit, isFrame⟩
        exact ⟨j, insideJ, by rw [if_neg (otherBit isFrame), bit], isFrame⟩
  · simp only [same, if_false, false_and]

end InPool

end HongbaiOS.Memory
