import HongbaiOS.Device.Transfer
import HongbaiOS.Kernel.SetupPage

/-!
# How the loader starts the kernel

The 32-bit half of `loader.S`: it reads `kernel.bin` from the disk into a buffer, turns paging
on, and copies the segments that the ELF headers name to where the kernel is linked.  The stack
lies in the memory that it changes, and after paging is on every access goes through the page
tables in that memory.
-/

namespace HongbaiOS.Kernel.PMode

open HongbaiOS.Library HongbaiOS.Memory HongbaiOS.Device

structure Gdtr where
  limit : UInt16
  base : UInt32
  deriving DecidableEq

/-- Memory and the registers that outlive a routine of the loader. -/
structure Machine where
  mem : Bytes
  esp : UInt32
  ebp : UInt32
  ecx : UInt32
  gdtr : Gdtr
  /-- `cr3`, once the `pg` bit is set. -/
  paging : Option UInt32

namespace Machine

/-- The physical address; `none` is a page fault, for which there is no handler yet. -/
def physical (m : Machine) (addr : UInt32) : Option UInt32 :=
  match m.paging with
  | none => some addr
  | some cr3 => Mmu.translate (physWords m.mem) cr3 addr

def loadByte (m : Machine) (addr : UInt32) : Option UInt8 :=
  (m.physical addr).map fun a => m.mem a.toNat

def storeByte (m : Machine) (addr : UInt32) (value : UInt8) : Option Machine :=
  (m.physical addr).map fun a => { m with mem := m.mem.splice a.toNat 1 (Bytes.fill value) }

def loadWord (m : Machine) (addr : UInt32) : Option UInt16 := do
  let low ← m.loadByte addr
  let high ← m.loadByte (addr + 1)
  return UInt16.ofNat (low.toNat + 256 * high.toNat)

def storeWord (m : Machine) (addr : UInt32) (low high : UInt8) : Option Machine := do
  (← m.storeByte addr low).storeByte (addr + 1) high

def loadDword (m : Machine) (addr : UInt32) : Option UInt32 := do
  let b₀ ← m.loadByte addr
  let b₁ ← m.loadByte (addr + 1)
  let b₂ ← m.loadByte (addr + 2)
  let b₃ ← m.loadByte (addr + 3)
  return Bytes.joinBytes b₀ b₁ b₂ b₃

def storeDword (m : Machine) (addr value : UInt32) : Option Machine := do
  let m ← m.storeByte addr (Bytes.byteOf value 0)
  let m ← m.storeByte (addr + 1) (Bytes.byteOf value 1)
  let m ← m.storeByte (addr + 2) (Bytes.byteOf value 2)
  m.storeByte (addr + 3) (Bytes.byteOf value 3)

def push (m : Machine) (value : UInt32) : Option Machine := do
  let m ← m.storeDword (m.esp - 4) value
  return { m with esp := m.esp - 4 }

def pop (m : Machine) : Option (UInt32 × Machine) := do
  let value ← m.loadDword m.esp
  return (value, { m with esp := m.esp + 4 })

/-- `call` and the `ret` of the routine; `none` also if it returns to another place. -/
def call (returnTo : UInt32) (routine : Machine → Option Machine) (m : Machine) :
    Option Machine := do
  let (eip, m) ← (← routine (← m.push returnTo)).pop
  if eip = returnTo then return m else none

/-- `sgdt [addr]` -/
def sgdt (m : Machine) (addr : UInt32) : Option Machine := do
  let limit := m.gdtr.limit.toNat
  let m ← m.storeWord addr (UInt8.ofNat limit) (UInt8.ofNat (limit / 256))
  m.storeDword (addr + 2) m.gdtr.base

/-- `lgdt [addr]` -/
def lgdt (m : Machine) (addr : UInt32) : Option Machine := do
  let limit ← m.loadWord addr
  let base ← m.loadDword (addr + 2)
  return { m with gdtr := ⟨limit, base⟩ }

end Machine

/-- How often a loop that ends in `loop` runs. -/
def loopCount (ecx : UInt32) : Nat := if ecx = 0 then 2 ^ 32 else ecx.toNat

/-- `KERNEL_START_SECTOR` -/
def kernelStartSector : UInt32 := 0xa

/-- `KERNEL_BIN_BASE_ADDR` -/
def kernelBinBase : UInt32 := 0x70000

/-- What `rd_disk_m_32` sends to ports 0x1f2 to 0x1f6. -/
def diskRegs (eax : UInt32) (cl : UInt8) : DriveRegs where
  sectCnt := cl
  lbaL := eax.toUInt8
  lbaM := (eax >>> 8).toUInt8
  lbaH := (eax >>> 8 >>> 8).toUInt8
  dev := (eax >>> 8 >>> 8 >>> 8).toUInt8 &&& 0x0f ||| 0xe0

/-- The bytes that port 0x1f0 gives: the sectors of the transfer, and then no matter what. -/
def dataPort (disk floating : Bytes) (regs : DriveRegs) : Bytes :=
  floating.splice 0 (sectorSize * regs.count) (disk.window (sectorSize * regs.lba))

/-- `.go_on_ready` -/
def goOnReady : (ecx : Nat) → (data : Bytes) → (ebx : UInt32) → Machine → Option Machine
  | 0, _, _, m => some m
  | ecx + 1, data, ebx, m => do
      goOnReady ecx (data.window 2) (ebx + 2) (← m.storeWord ebx (data 0) (data 1))

/-- `rd_disk_m_32`, on a drive that gets ready; `mul dx` leaves the low half in `ax`. -/
def rdDiskM32 (disk floating : Bytes) (eax ebx ecx : UInt32) (m : Machine) : Option Machine :=
  let di := ecx.toUInt16
  let data := dataPort disk floating (diskRegs eax ecx.toUInt8)
  let ax := di * 256
  let ecx := ecx &&& 0xffff0000 ||| ax.toUInt32
  goOnReady (loopCount ecx) data ebx m

/-- `rep movsb` with this in `ecx`. -/
def repMovsb : (ecx : Nat) → (esi edi : UInt32) → Machine → Option Machine
  | 0, _, _, m => some m
  | ecx + 1, esi, edi, m => do
      repMovsb ecx (esi + 1) (edi + 1) (← m.storeByte edi (← m.loadByte esi))

/-- `mem_cpy`; its arguments are on the stack. -/
def memCpy (m : Machine) : Option Machine := do
  let m ← m.push m.ebp
  let m := { m with ebp := m.esp }
  let m ← m.push m.ecx
  let edi ← m.loadDword (m.ebp + 8)
  let esi ← m.loadDword (m.ebp + 12)
  let ecx ← m.loadDword (m.ebp + 16)
  let m ← repMovsb ecx.toNat esi edi m
  let (ecx, m) ← m.pop
  let (ebp, m) ← m.pop
  return { m with ecx := ecx, ebp := ebp }

/-- The return addresses that the loader's own calls push. -/
structure ReturnAddresses where
  rdDiskM32 : UInt32
  setupPage : UInt32
  kernelInit : UInt32
  memCpy : UInt32

/-- One round of `.each_segment`, on the program header at `ebx`. -/
def eachSegment (code : ReturnAddresses) (ebx : UInt32) (m : Machine) : Option Machine := do
  if (← m.loadByte ebx) = 0 then return m
  if (← m.loadDword (ebx + 8)) < 0xc0001500 then return m
  let m ← m.push (← m.loadDword (ebx + 16))
  let m ← m.push ((← m.loadDword (ebx + 4)) + kernelBinBase)
  let m ← m.push (← m.loadDword (ebx + 8))
  let m ← m.call code.memCpy memCpy
  return { m with esp := m.esp + 12 }

/-- The rounds, with `e_phentsize` in `edx`; `none` after too many. -/
def segmentLoop (code : ReturnAddresses) (edx : UInt32) :
    (fuel : Nat) → (ebx : UInt32) → Machine → Option Machine
  | 0, _, _ => none
  | fuel + 1, ebx, m => do
      let m ← eachSegment code ebx m
      let m := { m with ecx := m.ecx - 1 }
      if m.ecx ≠ 0 then segmentLoop code edx fuel (ebx + edx) m else return m

/-- `kernel_init` -/
def kernelInit (code : ReturnAddresses) (fuel : Nat) (m : Machine) : Option Machine := do
  let dx ← m.loadWord (kernelBinBase + 42)
  let ebx ← m.loadDword (kernelBinBase + 28)
  let cx ← m.loadWord (kernelBinBase + 44)
  segmentLoop code dx.toUInt32 fuel (ebx + kernelBinBase) { m with ecx := cx.toUInt32 }

/-- `gdt_ptr`, behind the `dd` of `total_mem_bytes` at 0xb00. -/
def gdtPtr : UInt32 := 0xb04

/-- The GDT and its pointer for the addresses from 3 GB on; the fourth descriptor is the video
segment's. -/
def relocateGdt (m : Machine) : Option Machine := do
  let m ← m.sgdt gdtPtr
  let ebx ← m.loadDword (gdtPtr + 2)
  let m ← m.storeDword (gdtPtr + 2) ((← m.loadDword (gdtPtr + 2)) + 0xc0000000)
  m.storeDword (ebx + 0x18 + 4) ((← m.loadDword (ebx + 0x18 + 4)) ||| 0xc0000000)

/-- `p_mode_start`, up to `enter_kernel`. -/
def pModeStart (code : ReturnAddresses) (disk floating : Bytes) (m : Machine) : Option Machine := do
  let m := { m with esp := 0x900 }
  let m ← m.call code.rdDiskM32 (rdDiskM32 disk floating kernelStartSector kernelBinBase 200)
  -- `setup_page` runs before paging, so that its addresses are physical ones
  let m ← m.call code.setupPage fun m => some { m with mem := setupPage m.mem }
  let m ← relocateGdt m
  let m := { m with esp := m.esp + 0xc0000000, paging := some pageDirTable }
  m.lgdt gdtPtr

/-- `enter_kernel`, up to the jump to `KERNEL_ENTRY_POINT`. -/
def enterKernel (code : ReturnAddresses) (fuel : Nat) (m : Machine) : Option Machine := do
  let m ← m.call code.kernelInit (kernelInit code fuel)
  return { m with esp := 0xc009f000 }

namespace Machine

/-- Paging is off, or on with the tables of `setup_page`. -/
def Flat (m : Machine) : Prop :=
  m.paging = none ∨ m.paging = some pageDirTable ∧ Paged m.mem

/-- An address of byte `a` of the low megabyte. -/
def Names (paging : Option UInt32) (addr : UInt32) (a : Nat) : Prop :=
  addr.toNat = a ∨ paging ≠ none ∧ addr.toNat = a + 0xc0000000

section Accesses

variable {m : Machine} {paging : Option UInt32} {addr value : UInt32} {a k : Nat}

theorem Names.high (value : addr.toNat = a + 0xc0000000) : Names (some pageDirTable) addr a :=
  .inr ⟨Option.some_ne_none _, value⟩

theorem Names.add (names : Names paging addr a) (small : a + k < 0x100000) :
    Names paging (addr + UInt32.ofNat k) (a + k) := by
  rcases names with low | ⟨isOn, high⟩
  · left
    rw [UInt32.toNat_add, UInt32.toNat_ofNat', low]
    omega
  · right
    refine ⟨isOn, ?_⟩
    rw [UInt32.toNat_add, UInt32.toNat_ofNat', high]
    omega

theorem Names.sub (names : Names paging addr (a + k)) (small : a + k < 0x100000) :
    Names paging (addr - UInt32.ofNat k) a := by
  have value : (addr - UInt32.ofNat k).toNat = addr.toNat - k := by
    have below : k ≤ addr.toNat := by rcases names with low | ⟨-, high⟩ <;> omega
    have small' : (UInt32.ofNat k).toNat = k := by
      rw [UInt32.toNat_ofNat']
      omega
    rw [UInt32.toNat_sub_of_le _ _ (UInt32.le_iff_toNat_le.mpr (by rw [small']; exact below)),
      small']
  rcases names with low | ⟨isOn, high⟩
  · left
    omega
  · right
    exact ⟨isOn, by omega⟩

theorem physical_eq (flat : m.Flat) (names : Names m.paging addr a) (small : a < 0x100000) :
    m.physical addr = some (UInt32.ofNat a) := by
  rcases flat with isOff | ⟨isOn, paged⟩
  · rcases names with rfl | ⟨isOn, -⟩
    · rw [physical, isOff, UInt32.ofNat_toNat]
    · exact absurd isOff isOn
  · have mapped : addr.toNat % 2 ^ 30 = a ∧ Mapped addr := by
      rcases names with low | ⟨-, high⟩
      · exact ⟨by omega, by omega, by omega⟩
      · exact ⟨by omega, by omega, by omega⟩
    rw [physical, isOn]
    exact (paged.translate mapped.2).trans (by rw [mapped.1])

theorem toNat_low (small : a < 0x100000) : (UInt32.ofNat a).toNat = a := by
  rw [UInt32.toNat_ofNat']
  omega

theorem loadByte_eq (flat : m.Flat) (names : Names m.paging addr a) (small : a < 0x100000) :
    m.loadByte addr = some (m.mem a) := by
  rw [loadByte, physical_eq flat names small, Option.map_some, toNat_low small]

theorem storeByte_eq (flat : m.Flat) (names : Names m.paging addr a) (small : a < 0x100000)
    (value : UInt8) : m.storeByte addr value =
      some { m with mem := m.mem.splice a 1 (Bytes.fill value) } := by
  rw [storeByte, physical_eq flat names small, Option.map_some, toNat_low small]

/-- Nothing within the low megabyte changes the tables. -/
theorem Flat.splice (flat : m.Flat) (a length : Nat) (source : Bytes)
    (fits : a + length ≤ 0x100000) : Flat { m with mem := m.mem.splice a length source } :=
  flat.imp_right fun ⟨isOn, paged⟩ =>
    ⟨isOn, paged.congr fun _ high => Bytes.splice_outside (by omega)⟩

theorem Flat.putWord (flat : m.Flat) (value : UInt32) (fits : a + 4 ≤ 0x100000) :
    Flat { m with mem := m.mem.putWord a value } := flat.splice a 4 _ fits

theorem loadWord_eq (flat : m.Flat) (names : Names m.paging addr a) (fits : a + 2 ≤ 0x100000) :
    m.loadWord addr = some (UInt16.ofNat ((m.mem a).toNat + 256 * (m.mem (a + 1)).toNat)) := by
  have high := loadByte_eq flat (names.add (k := 1) (by omega)) (by omega)
  rw [loadWord, loadByte_eq flat names (by omega), Option.bind_eq_bind, Option.bind_some]
  exact congrArg (Option.bind · _) high

theorem loadDword_eq (flat : m.Flat) (names : Names m.paging addr a) (fits : a + 4 ≤ 0x100000) :
    m.loadDword addr = some (m.mem.wordAt a) := by
  have first := loadByte_eq flat (names.add (k := 1) (by omega)) (by omega)
  have second := loadByte_eq flat (names.add (k := 2) (by omega)) (by omega)
  have third := loadByte_eq flat (names.add (k := 3) (by omega)) (by omega)
  change m.loadByte (addr + 1) = _ at first
  change m.loadByte (addr + 2) = _ at second
  change m.loadByte (addr + 3) = _ at third
  rw [loadDword, loadByte_eq flat names (by omega), first, second, third]
  rfl

theorem storeWord_eq (flat : m.Flat) (names : Names m.paging addr a) (fits : a + 2 ≤ 0x100000)
    (low high : UInt8) : m.storeWord addr low high =
      some { m with mem :=
        (m.mem.splice a 1 (Bytes.fill low)).splice (a + 1) 1 (Bytes.fill high) } := by
  rw [storeWord, storeByte_eq flat names (by omega)]
  exact storeByte_eq (flat.splice _ _ _ (by omega)) (names.add (k := 1) (by omega)) (by omega) high

theorem storeDword_eq (flat : m.Flat) (names : Names m.paging addr a) (fits : a + 4 ≤ 0x100000)
    (value : UInt32) :
    m.storeDword addr value = some { m with mem := m.mem.putWord a value } := by
  have stored : ∀ m' : Machine, m'.Flat → m'.paging = m.paging → ∀ k < 4, ∀ byte,
      m'.storeByte (addr + UInt32.ofNat k) byte =
        some { m' with mem := m'.mem.splice (a + k) 1 (Bytes.fill byte) } := by
    intro m' flat' paging k small byte
    exact storeByte_eq flat' (paging ▸ names.add (by omega)) (by omega) byte
  have flat₁ := flat.splice a 1 (Bytes.fill (Bytes.byteOf value 0)) (by omega)
  have flat₂ := flat₁.splice (a + 1) 1 (Bytes.fill (Bytes.byteOf value 1)) (by omega)
  have flat₃ := flat₂.splice (a + 2) 1 (Bytes.fill (Bytes.byteOf value 2)) (by omega)
  rw [storeDword, storeByte_eq flat names (by omega), Option.bind_eq_bind, Option.bind_some]
  refine (congrArg (Option.bind · _) (stored _ flat₁ rfl 1 (by omega) _)).trans ?_
  refine (congrArg (Option.bind · _) (stored _ flat₂ rfl 2 (by omega) _)).trans ?_
  refine (stored _ flat₃ rfl 3 (by omega) _).trans ?_
  rw [← Bytes.splice_bytes_eq_putWord]

theorem push_eq (flat : m.Flat) (names : Names m.paging (m.esp - 4) a) (fits : a + 4 ≤ 0x100000)
    (value : UInt32) :
    m.push value = some { m with mem := m.mem.putWord a value, esp := m.esp - 4 } := by
  rw [push, storeDword_eq flat names fits]
  rfl

theorem pop_eq (flat : m.Flat) (names : Names m.paging m.esp a) (fits : a + 4 ≤ 0x100000) :
    m.pop = some (m.mem.wordAt a, { m with esp := m.esp + 4 }) := by
  rw [pop, loadDword_eq flat names fits]
  rfl

theorem call_eq {m₁ m₂ m₃ : Machine} (routine : Machine → Option Machine) {returnTo : UInt32}
    (pushed : m.push returnTo = some m₁) (runs : routine m₁ = some m₂)
    (popped : m₂.pop = some (returnTo, m₃)) : m.call returnTo routine = some m₃ := by
  rw [call, pushed, Option.bind_eq_bind, Option.bind_some, runs, Option.bind_eq_bind,
    Option.bind_some, popped]
  exact if_pos rfl

end Accesses

end Machine

open Machine

section Loops

variable {m : Machine} {paging : Option UInt32}

theorem goOnReady_eq (ecx : Nat) (data : Bytes) {ebx : UInt32} {m : Machine} {b : Nat}
    (flat : m.Flat) (names : Names m.paging ebx b) (fits : b + 2 * ecx < 0x100000) :
    goOnReady ecx data ebx m = some { m with mem := m.mem.splice b (2 * ecx) data } := by
  induction ecx generalizing data ebx m b with
  | zero => rw [goOnReady, Nat.mul_zero, Bytes.splice_zero_length]
  | succ ecx inductionHypothesis =>
      have both : (m.mem.splice b 1 (Bytes.fill (data 0))).splice (b + 1) 1
          (Bytes.fill (data 1)) = m.mem.splice b 2 data := by
        have first : Bytes.SameHead 1 (Bytes.fill (data 0)) data := fun i small => by
          rw [Bytes.fill_apply, Nat.lt_one_iff.mp small]
        have second : Bytes.SameHead 1 (Bytes.fill (data 1)) (data.window 1) := fun i small => by
          rw [Bytes.fill_apply, Bytes.window_apply, Nat.lt_one_iff.mp small]
        rw [Bytes.splice_congr first, Bytes.splice_congr second, Bytes.splice_append]
      have flat' := flat.splice b 2 data (by omega)
      have rest := inductionHypothesis (data.window 2) flat'
        (names.add (k := 2) (by omega)) (by omega)
      rw [goOnReady, storeWord_eq flat names (by omega), both, Option.bind_eq_bind,
        Option.bind_some]
      refine rest.trans ?_
      rw [Bytes.splice_append, Nat.mul_add, Nat.add_comm (2 * ecx)]

theorem repMovsb_eq (ecx : Nat) {esi edi : UInt32} {m : Machine} {source target : Nat}
    (flat : m.Flat) (names : Names m.paging esi source) (names' : Names m.paging edi target)
    (fits : source + ecx < 0x100000) (fits' : target + ecx < 0x100000)
    (apart : source + ecx ≤ target ∨ target + ecx ≤ source) :
    repMovsb ecx esi edi m =
      some { m with mem := m.mem.splice target ecx (m.mem.window source) } := by
  induction ecx generalizing esi edi m source target with
  | zero => rw [repMovsb, Bytes.splice_zero_length]
  | succ ecx inductionHypothesis =>
      have first : Bytes.SameHead 1 (Bytes.fill (m.mem source)) (m.mem.window source) :=
        fun i small => by rw [Bytes.fill_apply, Bytes.window_apply, Nat.lt_one_iff.mp small]; rfl
      have flat' := flat.splice target 1 (m.mem.window source) (by omega)
      have rest := inductionHypothesis flat' (names.add (k := 1) (by omega))
        (names'.add (k := 1) (by omega)) (by omega) (by omega) (by omega)
      have unread : Bytes.SameHead ecx
          ((m.mem.splice target 1 (m.mem.window source)).window (source + 1))
          ((m.mem.window source).window 1) := by
        rw [Bytes.window_window]
        exact Bytes.window_splice_apart (by omega)
      rw [repMovsb, loadByte_eq flat names (by omega), Option.bind_eq_bind, Option.bind_some,
        storeByte_eq flat names' (by omega), Option.bind_eq_bind, Option.bind_some,
        Bytes.splice_congr first]
      refine rest.trans ?_
      rw [Bytes.splice_congr unread, Bytes.splice_append, Nat.add_comm 1]

/-- `mem_cpy` with its arguments on the stack: apart from what it saves below its frame it only
copies. -/
theorem memCpy_eq (e source target count : Nat) (flat : m.Flat)
    (names : Names m.paging m.esp (e + 8)) (frame : e + 24 < 0x100000)
    (isTarget : Names m.paging (m.mem.wordAt (e + 12)) target)
    (isSource : Names m.paging (m.mem.wordAt (e + 16)) source)
    (isCount : (m.mem.wordAt (e + 20)).toNat = count)
    (sourceFits : source + count < 0x100000) (targetFits : target + count < 0x100000)
    (apart : source + count ≤ target ∨ target + count ≤ source)
    (sourceOff : source + count ≤ e ∨ e + 8 ≤ source)
    (targetOff : target + count ≤ e ∨ e + 8 ≤ target) :
    ∃ mem', memCpy m = some { m with mem := mem' } ∧
      ∀ a, a < e ∨ e + 8 ≤ a → mem' a = m.mem.splice target count (m.mem.window source) a := by
  have names₁ : Names m.paging (m.esp - 4) (e + 4) := names.sub (k := 4) (by omega)
  have names₂ : Names m.paging (m.esp - 4 - 4) e := names₁.sub (k := 4) (by omega)
  obtain ⟨saved, isSaved⟩ : ∃ saved, (m.mem.putWord (e + 4) m.ebp).putWord e m.ecx = saved :=
    ⟨_, rfl⟩
  have offFrame : ∀ a, a < e ∨ e + 8 ≤ a → saved a = m.mem a := by
    intro a off
    rw [← isSaved, Bytes.putWord, Bytes.splice_outside (by omega), Bytes.putWord,
      Bytes.splice_outside (by omega)]
  have argument : ∀ k, 8 ≤ k → saved.wordAt (e + k) = m.mem.wordAt (e + k) :=
    fun k above => Bytes.wordAt_congr fun a low _ => offFrame a (by omega)
  have savedEcx : saved.wordAt e = m.ecx := by rw [← isSaved, Bytes.wordAt_putWord_same]
  have savedEbp : saved.wordAt (e + 4) = m.ebp := by
    rw [← isSaved, Bytes.wordAt_putWord_apart (by omega), Bytes.wordAt_putWord_same]
  have flat₁ : Flat { m with mem := m.mem.putWord (e + 4) m.ebp, esp := m.esp - 4,
                             ebp := m.esp - 4 } := flat.putWord _ (by omega)
  have flat₂ : Flat { m with mem := saved, esp := m.esp - 4 - 4, ebp := m.esp - 4 } := by
    have both := flat₁.putWord (a := e) m.ecx (by omega)
    rw [← isSaved]
    exact both
  have pushEbp := push_eq flat names₁ (by omega) m.ebp
  have pushEcx : Machine.push { m with mem := m.mem.putWord (e + 4) m.ebp, esp := m.esp - 4,
                                       ebp := m.esp - 4 } m.ecx =
      some { m with mem := saved, esp := m.esp - 4 - 4, ebp := m.esp - 4 } := by
    rw [push_eq flat₁ names₂ (by omega) m.ecx, ← isSaved]
  have edi := loadDword_eq flat₂ (names₁.add (k := 8) (by omega)) (by omega)
  have esi := loadDword_eq flat₂ (names₁.add (k := 12) (by omega)) (by omega)
  have ecx := loadDword_eq flat₂ (names₁.add (k := 16) (by omega)) (by omega)
  rw [Nat.add_assoc, argument _ (by omega)] at edi esi ecx
  have copies := repMovsb_eq count flat₂ isSource isTarget sourceFits targetFits apart
  have flat₃ := flat₂.splice target count (saved.window source) (by omega)
  obtain ⟨copied, isCopied⟩ : ∃ copied, saved.splice target count (saved.window source) = copied :=
    ⟨_, rfl⟩
  rw [isCopied] at copies flat₃
  rw [← isCount] at copies
  have popEcx := pop_eq flat₃ names₂ (by omega)
  have popEbp := pop_eq (m := { m with mem := copied, esp := m.esp - 4 - 4 + 4,
                                       ebp := m.esp - 4 })
    flat₃ (names₂.add (k := 4) (by omega)) (by omega)
  have copiedEcx : copied.wordAt e = m.ecx := by
    rw [← isCopied, Bytes.wordAt_splice_apart (by omega), savedEcx]
  have copiedEbp : copied.wordAt (e + 4) = m.ebp := by
    rw [← isCopied, Bytes.wordAt_splice_apart (by omega), savedEbp]
  rw [copiedEcx] at popEcx
  rw [copiedEbp] at popEbp
  refine ⟨copied, ?_, ?_⟩
  · rw [memCpy, pushEbp]
    refine (congrArg (Option.bind · _) pushEcx).trans ?_
    refine (congrArg (Option.bind · _) edi).trans ?_
    refine (congrArg (Option.bind · _) esi).trans ?_
    refine (congrArg (Option.bind · _) ecx).trans ?_
    refine (congrArg (Option.bind · _) copies).trans ?_
    refine (congrArg (Option.bind · _) popEcx).trans ?_
    refine (congrArg (Option.bind · _) popEbp).trans ?_
    rw [UInt32.sub_add_cancel, UInt32.sub_add_cancel]
    rfl
  · intro a off
    rw [← isCopied]
    by_cases inTarget : target ≤ a ∧ a < target + count
    · rw [Bytes.splice_inside inTarget.1 inTarget.2, Bytes.splice_inside inTarget.1 inTarget.2,
        Bytes.window_apply, Bytes.window_apply]
      exact offFrame _ (by omega)
    · rw [Bytes.splice_outside (by omega), Bytes.splice_outside (by omega)]
      exact offFrame a off

end Loops

theorem push_frame {mem : Bytes} {esp ebp ecx : UInt32} {gdtr : Gdtr}
    {paging : Option UInt32} (esp' : UInt32) (a : Nat)
    (flat : Flat ⟨mem, esp, ebp, ecx, gdtr, paging⟩) (next : esp - 4 = esp')
    (names : Names paging esp' a) (fits : a + 4 ≤ 0x100000) (value : UInt32) :
    ∃ mem', Machine.push ⟨mem, esp, ebp, ecx, gdtr, paging⟩ value =
        some ⟨mem', esp', ebp, ecx, gdtr, paging⟩ ∧
      Flat ⟨mem', esp', ebp, ecx, gdtr, paging⟩ ∧ mem'.wordAt a = value ∧
      ∀ b, b < a ∨ a + 4 ≤ b → mem' b = mem b := by
  subst next
  exact ⟨mem.putWord a value, push_eq flat names fits value, flat.putWord value fits,
    Bytes.wordAt_putWord_same, fun b off => Bytes.splice_outside (by omega)⟩

theorem pop_frame {mem : Bytes} {esp ebp ecx value : UInt32} {gdtr : Gdtr}
    {paging : Option UInt32} (esp' : UInt32) (a : Nat)
    (flat : Flat ⟨mem, esp, ebp, ecx, gdtr, paging⟩) (next : esp + 4 = esp')
    (names : Names paging esp a) (fits : a + 4 ≤ 0x100000) (isValue : mem.wordAt a = value) :
    Machine.pop ⟨mem, esp, ebp, ecx, gdtr, paging⟩ =
      some (value, ⟨mem, esp', ebp, ecx, gdtr, paging⟩) := by
  subst next isValue
  exact pop_eq flat names fits

end HongbaiOS.Kernel.PMode
