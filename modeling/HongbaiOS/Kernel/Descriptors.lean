import HongbaiOS.Kernel.Entry
import Mathlib.Tactic.IntervalCases

/-!
# Descriptors

The entries that `tss.c` and `interrupt.c` pack into the two descriptor tables, the ones
`loader.S` puts in front of them, and the fields the processor reads from an entry.
-/

namespace HongbaiOS.Kernel

/-- `struct gdt_desc` -/
structure GdtDesc where
  limitLowWord : BitVec 16
  baseLowWord : BitVec 16
  baseMidByte : BitVec 8
  attrLowByte : BitVec 8
  limitHighByteAndAttrHighByte : BitVec 8
  baseHightByte : BitVec 8
  deriving DecidableEq

/-- `struct gate_desc` -/
structure GateDesc where
  funcOffsetLowWord : BitVec 16
  selector : Selector
  dcount : BitVec 8
  /-- `attribute` -/
  attr : BitVec 8
  funcOffsetHighWord : BitVec 16
  deriving DecidableEq

/-- `make_gdt_desc(desc_addr, limit, attr_low, attr_high)` -/
def makeGdtDesc (descAddr limit : Word) (attrLow attrHigh : BitVec 8) : GdtDesc where
  limitLowWord := (limit &&& 0x0000ffff).setWidth 16
  baseLowWord := (descAddr &&& 0x0000ffff).setWidth 16
  baseMidByte := ((descAddr &&& 0x00ff0000) >>> 16).setWidth 8
  attrLowByte := attrLow
  limitHighByteAndAttrHighByte :=
    (((limit &&& 0x00ff0000) >>> 16) + attrHigh.setWidth 32).setWidth 8
  baseHightByte := ((descAddr &&& 0xff000000) >>> 24).setWidth 8

/-- `make_idt_desc(p_gdesc, attr, function)` -/
def makeIdtDesc (attr : BitVec 8) (function : Word) : GateDesc where
  funcOffsetLowWord := (function &&& 0x0000ffff).setWidth 16
  selector := selectorKCode
  dcount := 0
  attr := attr
  funcOffsetHighWord := ((function &&& 0xffff0000) >>> 16).setWidth 16

namespace GdtDesc

def base (desc : GdtDesc) : Word :=
  desc.baseHightByte ++ desc.baseMidByte ++ desc.baseLowWord

/-- The limit as it is stored, in bytes or in pages. -/
def limit (desc : GdtDesc) : BitVec 20 :=
  desc.limitHighByteAndAttrHighByte.extractLsb' 0 4 ++ desc.limitLowWord

/-- `G`, `D`, `L` and `AVL` -/
def attrHigh (desc : GdtDesc) : BitVec 4 := desc.limitHighByteAndAttrHighByte.extractLsb' 4 4

/-- The last offset into the segment. -/
def lastByte (desc : GdtDesc) : Nat :=
  if desc.attrHigh.getLsbD 3 then desc.limit.toNat * 4096 + 4095 else desc.limit.toNat

def dpl (desc : GdtDesc) : Nat := (desc.attrLowByte.extractLsb' 5 2).toNat

/-- A segment that is present and holds code. -/
def isCode (desc : GdtDesc) : Bool :=
  desc.attrLowByte.getLsbD 7 && desc.attrLowByte.getLsbD 4 && desc.attrLowByte.getLsbD 3

/-- An entry as the assembler writes it. -/
def ofWords (low high : Word) : GdtDesc where
  limitLowWord := low.extractLsb' 0 16
  baseLowWord := low.extractLsb' 16 16
  baseMidByte := high.extractLsb' 0 8
  attrLowByte := high.extractLsb' 8 8
  limitHighByteAndAttrHighByte := high.extractLsb' 16 8
  baseHightByte := high.extractLsb' 24 8

end GdtDesc

namespace GateDesc

def funcOffset (gate : GateDesc) : Word := gate.funcOffsetHighWord ++ gate.funcOffsetLowWord

def present (gate : GateDesc) : Bool := gate.attr.getLsbD 7

def dpl (gate : GateDesc) : Nat := (gate.attr.extractLsb' 5 2).toNat

/-- `IF` behind the gate: an interrupt gate clears it, a trap gate keeps it.  There is no other
gate of 32 bits that calls a function. -/
def flagBehind (gate : GateDesc) (intrFlag : Bool) : Option Bool :=
  if gate.attr.extractLsb' 0 5 = 0xe then some false
  else if gate.attr.extractLsb' 0 5 = 0xf then some intrFlag
  else none

end GateDesc

/-- `GDT_ATTR_HIGH`, `GDT_CODE_ATTR_LOW_DPL3`, `GDT_DATA_ATTR_LOW_DPL3` -/
def gdtAttrHigh : BitVec 8 := (1 <<< 7) + (1 <<< 6) + (0 <<< 5) + (0 <<< 4)
def gdtCodeAttrLowDpl3 : BitVec 8 := (1 <<< 7) + (3 <<< 5) + (1 <<< 4) + 8
def gdtDataAttrLowDpl3 : BitVec 8 := (1 <<< 7) + (3 <<< 5) + (1 <<< 4) + 2

/-- `TSS_ATTR_HIGH`, `TSS_ATTR_LOW` -/
def tssAttrHigh : BitVec 8 := (1 <<< 7) + (0 <<< 6) + (0 <<< 5) + (0 <<< 4) + 0
def tssAttrLow : BitVec 8 := (1 <<< 7) + (0 <<< 5) + (0 <<< 4) + 9

/-- `DESC_CODE_HIGH4`, `DESC_DATA_HIGH4`, `DESC_VIDEO_HIGH4` -/
def descCodeHigh4 : Word :=
  (0x00 <<< 24) + (1 <<< 23) + (1 <<< 22) + 0 + 0 + (0xf <<< 16) + (1 <<< 15) + 0 + (1 <<< 12) +
    (8 <<< 8) + 0x00
def descDataHigh4 : Word :=
  (0x00 <<< 24) + (1 <<< 23) + (1 <<< 22) + 0 + 0 + (0xf <<< 16) + (1 <<< 15) + 0 + (1 <<< 12) +
    (2 <<< 8) + 0x00
def descVideoHigh4 : Word :=
  (0x00 <<< 24) + (1 <<< 23) + (1 <<< 22) + 0 + 0 + (0 <<< 16) + (1 <<< 15) + 0 + (1 <<< 12) +
    (2 <<< 8) + 0x0b

/-- The global descriptor table after `loader.S` and `tss_init`, with the `tss` at an address
and of a size. -/
def gdt (tss tssSize : Word) : List GdtDesc :=
  [.ofWords 0 0, .ofWords 0x0000ffff descCodeHigh4, .ofWords 0x0000ffff descDataHigh4,
    .ofWords 0x80000007 (descVideoHigh4 ||| 0xc0000000),
    makeGdtDesc tss (tssSize - 1) tssAttrLow tssAttrHigh,
    makeGdtDesc 0 0xfffff gdtCodeAttrLowDpl3 gdtAttrHigh,
    makeGdtDesc 0 0xfffff gdtDataAttrLowDpl3 gdtAttrHigh]

/-- `IDT_DESC_ATTR_DPL0`, `IDT_DESC_ATTR_DPL3` -/
def idtDescAttrDpl0 : BitVec 8 := (1 <<< 7) + (0 <<< 5) + 0xe
def idtDescAttrDpl3 : BitVec 8 := (1 <<< 7) + (3 <<< 5) + 0xe

/-- `IDT_DESC_CNT` -/
def idtDescCnt : Nat := 0x81

/-- `idt_desc_init`.  The table of the stubs has 48 words; the loop reads on behind it. -/
def idtDescInit (intrEntryTable : Nat → Word) (syscallHandler : Word) : List GateDesc :=
  ((List.range idtDescCnt).map fun i => makeIdtDesc idtDescAttrDpl0 (intrEntryTable i)).set
    (idtDescCnt - 1) (makeIdtDesc idtDescAttrDpl3 syscallHandler)

/-- Where an interrupt or an exception goes, and `IF` there. -/
inductive Delivery where
  | enters (cs : Selector) (address : Word) (intrFlag : Bool)
  /-- The gate, or the segment it leads to, cannot be used. -/
  | fails
  deriving DecidableEq

/-- An interrupt of the hardware or an exception, while code runs at a privilege level. -/
def deliver (gdt : List GdtDesc) (idt : List GateDesc) (level : Nat) (intrFlag : Bool)
    (vector : Nat) : Delivery :=
  match idt[vector]? with
  | none => .fails
  | some gate =>
      match gate.flagBehind intrFlag, gdt[(gate.selector >>> 3).toNat]? with
      | some behind, some desc =>
          if gate.present ∧ desc.isCode ∧ desc.dpl ≤ level then
            .enters gate.selector (desc.base + gate.funcOffset) behind
          else .fails
      | _, _ => .fails

/-- `int vector` in code at a privilege level: a vector behind the table, a gate of another kind
and one that the code may not use raise the general protection exception, a gate that is not
present raises its own. -/
def intInstruction (gdt : List GdtDesc) (idt : List GateDesc) (level : Nat) (intrFlag : Bool)
    (vector : Nat) : Delivery :=
  match idt[vector]? with
  | none => deliver gdt idt level intrFlag 13
  | some gate =>
      if gate.flagBehind intrFlag = none ∨ gate.dpl < level then deliver gdt idt level intrFlag 13
      else if gate.present then deliver gdt idt level intrFlag vector
      else deliver gdt idt level intrFlag 11

section RoundTrip

variable (descAddr limit function : Word) (attr attrLow attrHigh : BitVec 8)

theorem makeIdtDesc_funcOffset : (makeIdtDesc attr function).funcOffset = function := by
  apply BitVec.eq_of_getLsbD_eq
  intro i small
  simp only [makeIdtDesc, GateDesc.funcOffset, BitVec.getLsbD_append]
  interval_cases i <;> simp

theorem makeGdtDesc_middle :
    ((limit &&& 0x00ff0000) >>> 16 : Word).toNat = limit.toNat / 65536 % 256 := by
  have field : ((limit &&& 0x00ff0000) >>> 16 : Word) = (limit.extractLsb' 16 8).setWidth 32 := by
    apply BitVec.eq_of_getLsbD_eq
    intro i small
    interval_cases i <;> simp
  rw [field, BitVec.toNat_setWidth, BitVec.extractLsb'_toNat, Nat.shiftRight_eq_div_pow]
  omega

theorem makeGdtDesc_limit :
    (makeGdtDesc descAddr limit attrLow attrHigh).limit.toNat =
      (limit.toNat / 65536 % 256 + attrHigh.toNat) % 16 * 65536 + limit.toNat % 65536 := by
  have low : ((limit &&& 0x0000ffff).setWidth 16 : BitVec 16) = limit.extractLsb' 0 16 := by
    apply BitVec.eq_of_getLsbD_eq
    intro i small
    interval_cases i <;> simp
  have attrSmall := attrHigh.isLt
  simp only [makeGdtDesc, GdtDesc.limit, low]
  rw [BitVec.toNat_append, ← Nat.shiftLeft_add_eq_or_of_lt (BitVec.isLt _), Nat.shiftLeft_eq,
    BitVec.extractLsb'_toNat, BitVec.extractLsb'_toNat, BitVec.toNat_setWidth, BitVec.toNat_add,
    makeGdtDesc_middle, BitVec.toNat_setWidth]
  omega

theorem makeGdtDesc_attrHigh :
    (makeGdtDesc descAddr limit attrLow attrHigh).attrHigh.toNat =
      (limit.toNat / 65536 % 256 + attrHigh.toNat) % 256 / 16 := by
  have attrSmall := attrHigh.isLt
  simp only [makeGdtDesc, GdtDesc.attrHigh]
  rw [BitVec.extractLsb'_toNat, BitVec.toNat_setWidth, BitVec.toNat_add, makeGdtDesc_middle,
    BitVec.toNat_setWidth, Nat.shiftRight_eq_div_pow]
  omega

end RoundTrip

section Gates

variable (tss tssSize : Word) (intrEntryTable : Nat → Word) (syscallHandler : Word)

theorem idtDescInit_syscall :
    (idtDescInit intrEntryTable syscallHandler)[0x80]? =
      some (makeIdtDesc idtDescAttrDpl3 syscallHandler) := by
  simp [idtDescInit, idtDescCnt]

theorem idtDescInit_stub {vector : Nat} (stub : vector < 0x80) :
    (idtDescInit intrEntryTable syscallHandler)[vector]? =
      some (makeIdtDesc idtDescAttrDpl0 (intrEntryTable vector)) := by
  have other : idtDescCnt - 1 ≠ vector := by rw [idtDescCnt]; omega
  have inside : vector < idtDescCnt := by rw [idtDescCnt]; omega
  rw [idtDescInit, List.getElem?_set_ne other]
  simp [inside]

theorem idtDescInit_none {vector : Nat} (behind : 0x80 < vector) :
    (idtDescInit intrEntryTable syscallHandler)[vector]? = none := by
  rw [List.getElem?_eq_none_iff]
  simp only [idtDescInit, idtDescCnt, List.length_set, List.length_map, List.length_range]
  omega

theorem gdt_kernelCode : ∃ desc, (gdt tss tssSize)[(selectorKCode >>> 3).toNat]? = some desc ∧
    desc.isCode = true ∧ desc.dpl = 0 ∧ desc.base = 0 :=
  ⟨_, rfl, by decide, by decide, by decide⟩

theorem makeIdtDesc_enters {attr : BitVec 8} (present : attr.getLsbD 7 = true)
    (isInterrupt : attr.extractLsb' 0 5 = 0xe) (function : Word) {idt : List GateDesc}
    {vector : Nat} (gate : idt[vector]? = some (makeIdtDesc attr function)) (level : Nat)
    (intrFlag : Bool) : deliver (gdt tss tssSize) idt level intrFlag vector =
      .enters selectorKCode function false := by
  obtain ⟨desc, segment, isCode, isKernel, base⟩ := gdt_kernelCode tss tssSize
  have behind : (makeIdtDesc attr function).flagBehind intrFlag = some false :=
    if_pos isInterrupt
  have isPresent : (makeIdtDesc attr function).present = true := present
  have selector : (makeIdtDesc attr function).selector = selectorKCode := rfl
  rw [deliver, gate]
  simp only [behind, selector, segment, isPresent, isCode, isKernel, base, Nat.zero_le, and_self,
    if_true, makeIdtDesc_funcOffset]
  exact congrArg (Delivery.enters selectorKCode · false) (BitVec.zero_add function)

/-- What lies in memory behind the 48 stubs is packed into gates 0x30 to 0x7f.  No vector of
the hardware and no `int` of a user program uses one of them: the first goes to the stub of
its vector, the second to `syscall_handler` if the vector is 0x80 and to the stub of the
general protection exception if not.  Interrupts are off there, whatever they were before. -/
theorem interrupts_delivered (intrFlag : Bool) :
    (∀ level, ∀ vector < 0x30, deliver (gdt tss tssSize)
      (idtDescInit intrEntryTable syscallHandler) level intrFlag vector =
        .enters selectorKCode (intrEntryTable vector) false) ∧
    ∀ vector, intInstruction (gdt tss tssSize) (idtDescInit intrEntryTable syscallHandler) 3
      intrFlag vector =
        .enters selectorKCode (if vector = 0x80 then syscallHandler else intrEntryTable 13)
          false := by
  have stub : ∀ level, ∀ vector < 0x80, deliver (gdt tss tssSize)
      (idtDescInit intrEntryTable syscallHandler) level intrFlag vector =
        .enters selectorKCode (intrEntryTable vector) false := fun level vector small =>
    makeIdtDesc_enters tss tssSize (by decide) (by decide) _
      (idtDescInit_stub intrEntryTable syscallHandler small) level intrFlag
  refine ⟨fun level vector small => stub level vector (by omega), fun vector => ?_⟩
  have protection := stub 3 13 (by decide)
  rcases Nat.lt_trichotomy vector 0x80 with small | rfl | large
  · -- a gate for the kernel only
    have gate := idtDescInit_stub intrEntryTable syscallHandler small
    have refused : (makeIdtDesc idtDescAttrDpl0 (intrEntryTable vector)).dpl < 3 := by
      change (idtDescAttrDpl0.extractLsb' 5 2).toNat < 3
      decide
    rw [intInstruction, gate, if_neg (by omega : vector ≠ 0x80)]
    simp only [refused, or_true, if_true, protection]
  · have gate := idtDescInit_syscall intrEntryTable syscallHandler
    have allowed : ¬ ((makeIdtDesc idtDescAttrDpl3 syscallHandler).flagBehind intrFlag = none ∨
        (makeIdtDesc idtDescAttrDpl3 syscallHandler).dpl < 3) := by
      have behind : (makeIdtDesc idtDescAttrDpl3 syscallHandler).flagBehind intrFlag =
          some false := if_pos (by decide : idtDescAttrDpl3.extractLsb' 0 5 = 0xe)
      have dpl : (makeIdtDesc idtDescAttrDpl3 syscallHandler).dpl = 3 := by
        change (idtDescAttrDpl3.extractLsb' 5 2).toNat = 3
        decide
      simp [behind, dpl]
    have present : (makeIdtDesc idtDescAttrDpl3 syscallHandler).present = true := by
      change idtDescAttrDpl3.getLsbD 7 = true
      decide
    rw [intInstruction, gate]
    simp only [allowed, if_false, present, if_true]
    exact makeIdtDesc_enters tss tssSize (by decide) (by decide) _ gate 3 intrFlag
  · rw [intInstruction, idtDescInit_none intrEntryTable syscallHandler large]
    simp only [protection]
    rw [if_neg (by omega)]

end Gates

end HongbaiOS.Kernel
