import HongbaiOS.Kernel.Descriptors
import HongbaiOS.Library.Bytes
import Mathlib.Tactic.FinCases

/-!
# The task state segment

`tss.c` keeps one `struct tss` for all tasks and changes its `esp0` on every switch to a
process.  The processor reads more of the segment: the offset of the bitmap of I/O ports that
code without I/O privilege may use.  It takes it from byte 102, which belongs to `trace`.
-/

namespace HongbaiOS.Userprog

open HongbaiOS.Kernel HongbaiOS.Library

/-- `struct tss` -/
structure Tss where
  backlink : UInt32
  esp0 : UInt32
  ss0 : UInt32
  esp1 : UInt32
  ss1 : UInt32
  esp2 : UInt32
  ss2 : UInt32
  cr3 : UInt32
  eip : UInt32
  eflags : UInt32
  eax : UInt32
  ecx : UInt32
  edx : UInt32
  ebx : UInt32
  esp : UInt32
  ebp : UInt32
  esi : UInt32
  edi : UInt32
  es : UInt32
  cs : UInt32
  ss : UInt32
  ds : UInt32
  fs : UInt32
  gs : UInt32
  ldt : UInt32
  trace : UInt32
  ioBase : UInt32
  deriving DecidableEq

namespace Tss

/-- The fields in their order. -/
def words (tss : Tss) : List UInt32 :=
  [tss.backlink, tss.esp0, tss.ss0, tss.esp1, tss.ss1, tss.esp2, tss.ss2, tss.cr3, tss.eip,
    tss.eflags, tss.eax, tss.ecx, tss.edx, tss.ebx, tss.esp, tss.ebp, tss.esi, tss.edi, tss.es,
    tss.cs, tss.ss, tss.ds, tss.fs, tss.gs, tss.ldt, tss.trace, tss.ioBase]

/-- `sizeof(struct tss)` -/
def size : Nat := 27 * 4

/-- The structure as it lies in memory. -/
def bytes (tss : Tss) : Bytes := Bytes.ofWords fun index => tss.words.getD index 0

end Tss

/-- `memset(&tss, 0, tss_size)` -/
def tssZero : Tss :=
  ⟨0, 0, 0, 0, 0, 0, 0, 0, 0, 0, 0, 0, 0, 0, 0, 0, 0, 0, 0, 0, 0, 0, 0, 0, 0, 0, 0⟩

/-- The part of `tss_init` that fills `tss`; `SELECTOR_K_STACK` is 0x10. -/
def tssInit : Tss := { tssZero with ss0 := 0x10, ioBase := UInt32.ofNat Tss.size }

/-- `update_tss_esp(pthread)` -/
def updateTssEsp (pthread : UInt32) (tss : Tss) : Tss := { tss with esp0 := pthread + 4096 }

/-- The `tss` after the switches to some processes, the last one first. -/
def tssAfter : List UInt32 → Tss
  | [] => tssInit
  | pthread :: earlier => updateTssEsp pthread (tssAfter earlier)

/-- The memory at the linear address of the segment, with `tss` there. -/
def withTss (tss : Tss) (behind : Bytes) : Bytes := behind.splice 0 Tss.size tss.bytes

/-- Bit `index` of a bitmap of bytes. -/
def bitAt (store : Bytes) (offset index : Nat) : Bool :=
  (store (offset + index / 8)).toNat.testBit (index % 8)

/-- The offset of the I/O bitmap, a 16-bit word at byte 102. -/
def ioMapBase (segment : Bytes) : Nat := (segment 102).toNat + 256 * (segment 103).toNat

/-- Code without I/O privilege may access `size` ports from `port` on: the two bytes of the
bitmap that are read lie in the segment and the bits of the ports are clear. -/
def portPermitted (segment : Bytes) (lastByte port size : Nat) : Bool :=
  decide (ioMapBase segment + port / 8 + 1 ≤ lastByte) &&
    (List.range size).all fun i => !bitAt segment (ioMapBase segment) (port + i)

/-- `eflags` of a new process: `EFLAGS_IOPL_0 | EFLAGS_MBS | EFLAGS_IF_1` -/
def startEflags : Word := (0 <<< 12) ||| (1 <<< 1) ||| (1 <<< 9)

/-- The I/O privilege level in `eflags`. -/
def iopl (eflags : Word) : Nat := (eflags.extractLsb' 12 2).toNat

/-- Whether code at a level may access a port. -/
def portAllowed (level : Nat) (eflags : Word) (segment : Bytes) (lastByte port size : Nat) :
    Bool :=
  decide (level ≤ iopl eflags) || portPermitted segment lastByte port size

theorem testBit_byteOf (value : UInt32) {bit : Nat} (small : bit < 8) (i : Nat) :
    (Bytes.byteOf value i).toNat.testBit bit = value.toNat.testBit (8 * i + bit) := by
  have byte : (Bytes.byteOf value i).toNat = value.toNat / 2 ^ (8 * i) % 2 ^ 8 := by
    rw [Bytes.byteOf, UInt8.toNat_ofNat', Nat.pow_mul]
  rw [byte, Nat.testBit_mod_two_pow, Nat.testBit_div_two_pow]
  simp [small, Nat.add_comm]

theorem bitAt_tss (tss : Tss) (behind : Bytes) {index : Nat} (inside : index < 864) :
    bitAt (withTss tss behind) 0 index =
      (tss.words.getD (index / 32) 0).toNat.testBit (index % 32) := by
  have byte : index / 8 < 0 + Tss.size := by
    rw [Tss.size]
    omega
  have place : index / 8 / 4 = index / 32 := by omega
  have bit : 8 * (index / 8 % 4) + index % 8 = index % 32 := by omega
  rw [bitAt, Nat.zero_add, withTss, Bytes.splice_inside (Nat.zero_le _) byte, Nat.sub_zero,
    Tss.bytes, Bytes.ofWords, testBit_byteOf _ (Nat.mod_lt _ (by decide)), place, bit]

theorem tssAfter_eq (processes : List UInt32) :
    tssAfter processes = { tssInit with esp0 := (tssAfter processes).esp0 } := by
  induction processes with
  | nil => rfl
  | cons pthread earlier inductionHypothesis =>
      rw [tssAfter, inductionHypothesis, updateTssEsp]

theorem tssAfter_words (processes : List UInt32) {place : Nat} (inside : place < 27) :
    (tssAfter processes).words.getD place 0 =
      if place = 1 then (tssAfter processes).esp0
      else if place = 2 then 0x10 else if place = 26 then 108 else 0 := by
  rw [tssAfter_eq]
  interval_cases place <;> rfl

theorem ioMapBase_tss (processes : List UInt32) (behind : Bytes) :
    ioMapBase (withTss (tssAfter processes) behind) = 0 := by
  have trace : (tssAfter processes).words.getD 25 0 = 0 := tssAfter_words processes (by decide)
  have zero : ∀ a, 100 ≤ a → a < 104 → withTss (tssAfter processes) behind a = 0 := by
    intro a low high
    have place : a / 4 = 25 := by omega
    rw [withTss, Bytes.splice_inside (Nat.zero_le _) (by rw [Tss.size]; omega), Tss.bytes,
      Bytes.ofWords, Nat.sub_zero, place, trace, Bytes.byteOf]
    simp
  rw [ioMapBase, zero 102 (by decide) (by decide), zero 103 (by decide) (by decide)]
  rfl

/-- The size of the segment counts pages, so the whole bitmap lies in it. -/
theorem tss_lastByte (address : Word) :
    (makeGdtDesc address (BitVec.ofNat 32 Tss.size - 1) tssAttrLow tssAttrHigh).lastByte =
      107 * 4096 + 4095 := by
  have limit : (makeGdtDesc address (BitVec.ofNat 32 Tss.size - 1) tssAttrLow
      tssAttrHigh).limit.toNat = 107 := by
    rw [makeGdtDesc_limit]
    decide
  have pages : (makeGdtDesc address (BitVec.ofNat 32 Tss.size - 1) tssAttrLow
      tssAttrHigh).attrHigh = 8 := by
    apply BitVec.eq_of_toNat_eq
    rw [makeGdtDesc_attrHigh]
    decide
  rw [GdtDesc.lastByte, limit, pages]
  decide

/-- The bit of a port as it lies in the fields of `tss`, or behind them. -/
def PortClear (esp0 : UInt32) (behind : Bytes) (port : Nat) : Prop :=
  if port < 864 then
    port ≠ 68 ∧ port ∉ [834, 835, 837, 838] ∧
      ¬ (32 ≤ port ∧ port < 64 ∧ esp0.toNat.testBit (port - 32) = true)
  else bitAt behind 0 port = false

theorem portClear_iff (processes : List UInt32) (behind : Bytes) (port : Nat) :
    bitAt (withTss (tssAfter processes) behind) 0 port = false ↔
      PortClear (tssAfter processes).esp0 behind port := by
  by_cases inside : port < 864
  · have place : port / 32 < 27 := by omega
    have split : port = 32 * (port / 32) + port % 32 := by omega
    have bit : port % 32 < 32 := Nat.mod_lt _ (by decide)
    rw [bitAt_tss _ _ inside, tssAfter_words processes place, PortClear, if_pos inside]
    by_cases isEsp0 : port / 32 = 1
    · have offset : port - 32 = port % 32 := by omega
      rw [if_pos isEsp0, offset]
      have others : port ≠ 68 ∧ port ∉ [834, 835, 837, 838] := by
        simp only [List.mem_cons, List.not_mem_nil, or_false]
        omega
      have range : 32 ≤ port ∧ port < 64 := by omega
      simp [others.1, others.2, range.1, range.2]
    · rw [if_neg isEsp0]
      have range : ¬ (32 ≤ port ∧ port < 64 ∧
          (tssAfter processes).esp0.toNat.testBit (port - 32) = true) := by omega
      by_cases isSs0 : port / 32 = 2
      · rw [if_pos isSs0]
        have others : port ∉ [834, 835, 837, 838] := by
          simp only [List.mem_cons, List.not_mem_nil, or_false]
          omega
        have isPort : port = 68 ↔ port % 32 = 4 := by omega
        simp only [ne_eq, isPort, others, not_false_eq_true, range, and_true]
        interval_cases port % 32 <;> decide
      · rw [if_neg isSs0]
        have notSs0 : port ≠ 68 := by omega
        by_cases isIoBase : port / 32 = 26
        · rw [if_pos isIoBase]
          have isPort : port ∈ [834, 835, 837, 838] ↔ port % 32 ∈ [2, 3, 5, 6] := by
            simp only [List.mem_cons, List.not_mem_nil, or_false]
            omega
          simp only [notSs0, ne_eq, not_false_eq_true, isPort, range, and_true, true_and]
          interval_cases port % 32 <;> decide
        · rw [if_neg isIoBase]
          have others : port ∉ [834, 835, 837, 838] := by
            simp only [List.mem_cons, List.not_mem_nil, or_false]
            omega
          simp [notSs0, others, range]
  · rw [PortClear, if_neg inside, bitAt, bitAt, withTss,
      Bytes.splice_outside (by rw [Tss.size]; omega)]

/-- `EFLAGS_IOPL_0` does not keep user programs from the devices.  After any switches to
processes, a user program may access exactly the ports whose bits are clear in `tss` itself,
read from its first byte on, or in what lies behind it; the interrupt controllers, the timer,
the keyboard and the command registers of the disks are among them. -/
theorem user_ports (address : Word) (behind : Bytes) (processes : List UInt32)
    (pages : ∀ pthread ∈ processes, pthread.toNat % 4096 = 0) :
    (∀ port size, port < 2 ^ 16 →
      (portAllowed 3 startEflags (withTss (tssAfter processes) behind)
          (makeGdtDesc address (BitVec.ofNat 32 Tss.size - 1) tssAttrLow tssAttrHigh).lastByte
          port size = true ↔
        ∀ i < size, PortClear (tssAfter processes).esp0 behind (port + i))) ∧
    ∀ port ∈ [0x20, 0x21, 0x40, 0x41, 0x42, 0x43, 0x60, 0xa0, 0xa1, 0x1f0, 0x1f1, 0x1f2, 0x1f3,
        0x1f4, 0x1f5, 0x1f6, 0x1f7],
      PortClear (tssAfter processes).esp0 behind port := by
  constructor
  · intro port size small
    have noPrivilege : ¬ 3 ≤ iopl startEflags := by decide
    have inSegment : 0 + port / 8 + 1 ≤ 107 * 4096 + 4095 := by omega
    rw [portAllowed, portPermitted, ioMapBase_tss, tss_lastByte]
    simp only [noPrivilege, decide_false, Bool.false_or, inSegment, decide_true, Bool.true_and,
      List.all_eq_true, List.mem_range, Bool.not_eq_true', portClear_iff]
  · have low : (tssAfter processes).esp0.toNat % 4096 = 0 := by
      cases processes with
      | nil => rfl
      | cons pthread earlier =>
          have aligned := pages pthread List.mem_cons_self
          rw [tssAfter, updateTssEsp]
          simp only [UInt32.toNat_add]
          have size : (4096 : UInt32).toNat = 4096 := rfl
          omega
    have clear : ∀ bit < 2, (tssAfter processes).esp0.toNat.testBit bit = false := by
      intro bit few
      have split : (tssAfter processes).esp0.toNat =
          2 ^ 12 * ((tssAfter processes).esp0.toNat / 4096) := by omega
      rw [split, Nat.testBit_two_pow_mul]
      have below : ¬ 12 ≤ bit := by omega
      simp [below]
    intro port member
    have controller := clear 0 (by decide)
    have mask := clear 1 (by decide)
    fin_cases member <;> simp [PortClear, controller, mask]

/-- A process writes a command to the first disk. -/
theorem user_ports_disk :
    portAllowed 3 startEflags (withTss (tssAfter [0xc0105000]) (Bytes.fill 0xff))
      (makeGdtDesc 0xc0009000 (BitVec.ofNat 32 Tss.size - 1) tssAttrLow tssAttrHigh).lastByte
      0x1f7 1 = true := by
  have page : ∀ pthread ∈ [(0xc0105000 : UInt32)], pthread.toNat % 4096 = 0 := by simp
  have ports := user_ports 0xc0009000 (Bytes.fill 0xff) [0xc0105000] page
  refine (ports.1 0x1f7 1 (by decide)).mpr fun i few => ?_
  rw [Nat.lt_one_iff.mp few]
  exact ports.2 0x1f7 (by decide)

end HongbaiOS.Userprog
