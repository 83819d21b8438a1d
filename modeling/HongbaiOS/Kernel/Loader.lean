import Mathlib.Algebra.Group.Nat.Defs
import Mathlib.Tactic.Common

/-!
# The size of the memory

How `loader.S` asks the BIOS for it before it enters protected mode: `0xe820` with a list of
descriptors that goes into a buffer of 244 bytes, then `0xe801`, then `0x88`.
-/

namespace HongbaiOS.Kernel

/-- The members of an address range descriptor that the loader reads. -/
structure Ards where
  baseAddrLow : UInt32
  lengthLow : UInt32

/-- How the calls of `int 0x15` with `0xe820` go on; one that fails stores nothing. -/
inductive E820 where
  | fails
  /-- The descriptor with which `ebx` is zero. -/
  | last (ards : Ards)
  | more (ards : Ards) (rest : E820)

/-- What another call of `int 0x15` leaves. -/
structure BiosAnswer where
  carry : Bool
  eax : UInt32
  ebx : UInt32
  edx : UInt32

structure Bios where
  e820 : E820
  e801 : BiosAnswer
  ah88 : BiosAnswer

/-- What keeps the loader from protected mode. -/
inductive LoaderStop where
  /-- `.error_hlt`, with this in `edx`. -/
  | errorHlt (edx : UInt32)
  /-- A descriptor is stored behind `ards_buf`. -/
  | outOfBounds

/-- `times 244 db 0` -/
def ardsBufBytes : Nat := 244

/-- `.e820_mem_get_loop`, with the descriptors stored so far. -/
def e820MemGetLoop : E820 → (stored : List Ards) → Except LoaderStop (Option (List Ards))
  | .fails, _ => .ok none
  | .last ards, stored =>
      if 20 * stored.length + 20 ≤ ardsBufBytes then .ok (some (stored ++ [ards]))
      else .error .outOfBounds
  | .more ards rest, stored =>
      if 20 * stored.length + 20 ≤ ardsBufBytes then e820MemGetLoop rest (stored ++ [ards])
      else .error .outOfBounds

/-- `.find_max_mem_area`; `jge` compares signed numbers. -/
def findMaxMemArea : List Ards → (edx : UInt32) → UInt32
  | [], edx => edx
  | ards :: rest, edx =>
      let eax := ards.baseAddrLow + ards.lengthLow
      if eax.toInt32 ≤ edx.toInt32 then findMaxMemArea rest edx else findMaxMemArea rest eax

/-- `mul cx`: `ax` and `dx` get the product of `ax` and `cx`. -/
def mulCx (eax edx : UInt32) (cx : UInt16) : UInt32 × UInt32 :=
  let product : UInt32 := eax.toUInt16.toUInt32 * cx.toUInt32
  let ax : UInt32 := product &&& 0xffff
  let dx : UInt32 := product >>> 16
  (eax &&& 0xffff0000 ||| ax, edx &&& 0xffff0000 ||| dx)

/-- `.e801_failed_so_try88`, which runs on into `.error_hlt`. -/
def tryAh88 (bios : Bios) : Except LoaderStop UInt32 :=
  if bios.ah88.carry then .error (.errorHlt bios.ah88.edx)
  else
    let (eax, edx) := mulCx (bios.ah88.eax &&& 0xffff) bios.ah88.edx 0x400
    let edx := (edx <<< 16 ||| eax) + 0x100000
    .error (.errorHlt edx)

/-- `.e820_failed_so_try_e801` -/
def tryE801 (bios : Bios) : Except LoaderStop UInt32 :=
  if bios.e801.carry then tryAh88 bios
  else
    let (eax, edx) := mulCx bios.e801.eax bios.e801.edx 0x400
    let esi := (edx <<< 16 ||| eax &&& 0xffff) + 0x100000
    let eax := bios.e801.ebx.toUInt16.toUInt32 * 0x10000
    .ok (esi + eax)

/-- `loader_start` up to protected mode; the result is `total_mem_bytes`. -/
def loaderStart (bios : Bios) : Except LoaderStop UInt32 := do
  match ← e820MemGetLoop bios.e820 [] with
  | some stored => return findMaxMemArea stored 0
  | none => tryE801 bios

/-- The descriptors of a call that does not fail. -/
def E820.map : E820 → Option (List Ards)
  | .fails => none
  | .last ards => some [ards]
  | .more ards rest => rest.map.map (ards :: ·)

/-- The descriptors that are stored, whether or not a call fails in the end. -/
def E820.count : E820 → Nat
  | .fails => 0
  | .last _ => 1
  | .more _ rest => rest.count + 1

/-- The end of a range, in 32 bits. -/
def Ards.theEnd (ards : Ards) : UInt32 := ards.baseAddrLow + ards.lengthLow

/-- `ax` in units of 1 KiB, on top of the first megabyte. -/
def BiosAnswer.low (answer : BiosAnswer) : Nat := answer.eax.toUInt16.toNat * 1024 + 0x100000

/-- The same with `bx` in units of 64 KiB. -/
def BiosAnswer.all (answer : BiosAnswer) : Nat :=
  answer.low + answer.ebx.toUInt16.toNat * 0x10000

/-- One of the methods succeeds. -/
def Bios.Works (bios : Bios) : Prop :=
  bios.e820.map ≠ none ∨ bios.e801.carry = false ∨ bios.ah88.carry = false

/-- The first method that succeeds reports this amount. -/
def Bios.Reports (bios : Bios) (bytes : Nat) : Prop :=
  match bios.e820.map with
  | some stored =>
      (∀ ards ∈ stored, ards.theEnd.toNat ≤ bytes) ∧ ∃ ards ∈ stored, ards.theEnd.toNat = bytes
  | none =>
      if bios.e801.carry = false then bytes = bios.e801.all
      else bios.ah88.carry = false ∧ bytes = bios.ah88.low

/-- The loader stays in its buffer, and gets the amount if there is a way to. -/
structure LoaderRight (bios : Bios) : Prop where
  inside : loaderStart bios ≠ .error .outOfBounds
  amount : bios.Works → ∃ totalMemBytes, loaderStart bios = .ok totalMemBytes ∧
    bios.Reports totalMemBytes.toNat

/-- At most 12 descriptors, all of which end in the lower half; without them an amount of
`0xe801` below 4 GiB, or none of `0x88`. -/
def Bios.Handled (bios : Bios) : Prop :=
  bios.e820.count ≤ 12 ∧
    match bios.e820.map with
    | some stored => ∀ ards ∈ stored, ards.theEnd.toNat < 2 ^ 31
    | none =>
        if bios.e801.carry = false then bios.e801.all < 2 ^ 32 else bios.ah88.carry = true

section Descriptors

theorem e820MemGetLoop_eq (e820 : E820) {stored : List Ards} (room : stored.length ≤ 12) :
    e820MemGetLoop e820 stored =
      if stored.length + e820.count ≤ 12 then .ok (e820.map.map (stored ++ ·))
      else .error .outOfBounds := by
  induction e820 generalizing stored with
  | fails => exact (if_pos room).symm
  | last ards =>
      rw [e820MemGetLoop, ardsBufBytes, E820.count, E820.map]
      split
      next fits => rw [if_pos (by omega)]; rfl
      next full => rw [if_neg (by omega)]
  | more ards rest inductionHypothesis =>
      rw [e820MemGetLoop, ardsBufBytes, E820.count, E820.map]
      split
      next fits =>
        have one : (stored ++ [ards]).length = stored.length + 1 := by simp
        have appended : ((stored ++ ·) ∘ (ards :: ·)) = ((stored ++ [ards]) ++ ·) := by
          funext rest
          simp
        rw [inductionHypothesis (by omega), one, Option.map_map, appended, Nat.add_assoc,
          Nat.add_comm 1]
      next full => rw [if_neg (by omega)]

theorem toInt32_low {amount : UInt32} (low : amount.toNat < 2 ^ 31) :
    amount.toInt32.toInt = amount.toNat :=
  BitVec.toInt_eq_toNat_of_lt (by simpa using by omega)

theorem toInt32_high {amount : UInt32} (high : 2 ^ 31 ≤ amount.toNat) :
    amount.toInt32.toInt < 0 :=
  BitVec.toInt_neg_of_msb_true (BitVec.msb_eq_true_iff_two_mul_ge.mpr (by simpa using by omega))

theorem toInt32_le_iff {eax edx : UInt32} (edxLow : edx.toNat < 2 ^ 31)
    (eaxLow : eax.toNat < 2 ^ 31) : eax.toInt32 ≤ edx.toInt32 ↔ eax.toNat ≤ edx.toNat := by
  rw [Int32.le_iff_toInt_le, toInt32_low edxLow, toInt32_low eaxLow]
  exact Int.ofNat_le

/-- A number in the upper half counts as negative. -/
theorem toInt32_le_of_high {eax edx : UInt32} (edxLow : edx.toNat < 2 ^ 31)
    (eaxHigh : 2 ^ 31 ≤ eax.toNat) : eax.toInt32 ≤ edx.toInt32 := by
  have negative := toInt32_high eaxHigh
  rw [Int32.le_iff_toInt_le, toInt32_low edxLow]
  omega

/-- The result stays in the lower half. -/
theorem findMaxMemArea_low (stored : List Ards) {edx : UInt32} (low : edx.toNat < 2 ^ 31) :
    (findMaxMemArea stored edx).toNat < 2 ^ 31 := by
  induction stored generalizing edx with
  | nil => exact low
  | cons ards rest inductionHypothesis =>
      rw [findMaxMemArea]
      split
      next => exact inductionHypothesis low
      next greater =>
        refine inductionHypothesis ?_
        by_contra high
        exact greater (toInt32_le_of_high low (Nat.le_of_not_lt high))

theorem findMaxMemArea_spec {stored : List Ards} {edx : UInt32} (low : edx.toNat < 2 ^ 31)
    (allLow : ∀ ards ∈ stored, ards.theEnd.toNat < 2 ^ 31) :
    edx.toNat ≤ (findMaxMemArea stored edx).toNat ∧
      (∀ ards ∈ stored, ards.theEnd.toNat ≤ (findMaxMemArea stored edx).toNat) ∧
      (findMaxMemArea stored edx = edx ∨
        ∃ ards ∈ stored, ards.theEnd = findMaxMemArea stored edx) := by
  induction stored generalizing edx with
  | nil => exact ⟨Nat.le_refl _, nofun, .inl rfl⟩
  | cons ards rest inductionHypothesis =>
      have here := allLow ards List.mem_cons_self
      have later : ∀ ards ∈ rest, ards.theEnd.toNat < 2 ^ 31 := fun ards isOne =>
        allLow ards (List.mem_cons_of_mem _ isOne)
      have compare := toInt32_le_iff low here
      rw [findMaxMemArea]
      split
      next smaller =>
        obtain ⟨least, all, found⟩ := inductionHypothesis low later
        refine ⟨least, fun other isOne => ?_, found.imp_right ?_⟩
        · rcases List.mem_cons.mp isOne with rfl | isOne
          · exact Nat.le_trans (compare.mp smaller) least
          · exact all other isOne
        · rintro ⟨other, isOne, isMost⟩
          exact ⟨other, List.mem_cons_of_mem _ isOne, isMost⟩
      next greater =>
        obtain ⟨least, all, found⟩ := inductionHypothesis here later
        have greater := mt compare.mpr greater
        refine ⟨Nat.le_trans (Nat.le_of_not_le greater) least, fun other isOne => ?_, .inr ?_⟩
        · rcases List.mem_cons.mp isOne with rfl | isOne
          · exact least
          · exact all other isOne
        · rcases found with isHere | ⟨other, isOne, isMost⟩
          · exact ⟨ards, List.mem_cons_self, isHere.symm⟩
          · exact ⟨other, List.mem_cons_of_mem _ isOne, isMost⟩

/-- The largest end is found exactly if there is none in the upper half. -/
theorem findMaxMemArea_iff {stored : List Ards} (some : stored ≠ []) :
    ((∀ ards ∈ stored, ards.theEnd.toNat ≤ (findMaxMemArea stored 0).toNat) ∧
        ∃ ards ∈ stored, ards.theEnd.toNat = (findMaxMemArea stored 0).toNat) ↔
      ∀ ards ∈ stored, ards.theEnd.toNat < 2 ^ 31 := by
  constructor
  · rintro ⟨all, -⟩ ards isOne
    exact Nat.lt_of_le_of_lt (all ards isOne) (findMaxMemArea_low stored (by decide))
  · intro allLow
    obtain ⟨-, all, found⟩ := @findMaxMemArea_spec stored 0 (by decide) allLow
    refine ⟨all, ?_⟩
    rcases found with isZero | ⟨ards, isOne, isMost⟩
    · obtain ⟨ards, rest, rfl⟩ := List.exists_cons_of_ne_nil some
      have least := all ards List.mem_cons_self
      rw [isZero] at least ⊢
      exact ⟨ards, List.mem_cons_self, Nat.le_antisymm least (Nat.zero_le _)⟩
    · exact ⟨ards, isOne, congrArg UInt32.toNat isMost⟩

end Descriptors

section Amounts

/-- The upper half of a register does not reach the lower one. -/
theorem or_low (register word : UInt32) :
    ((register &&& 0xffff0000) ||| word).toNat % 2 ^ 16 = word.toNat % 2 ^ 16 := by
  rw [UInt32.toNat_or, UInt32.toNat_and, Nat.or_mod_two_pow, Nat.and_mod_two_pow]
  simp

/-- The product goes together again from `dx` and `ax`. -/
theorem mulCx_joined (eax edx : UInt32) :
    ((mulCx eax edx 0x400).2 <<< 16 ||| (mulCx eax edx 0x400).1 &&& 0xffff : UInt32).toNat =
      eax.toUInt16.toNat * 1024 := by
  have small := eax.toUInt16.toNat_lt
  let product : UInt32 := eax.toUInt16.toUInt32 * 0x400
  have isProduct : product.toNat = eax.toUInt16.toNat * 1024 := by
    rw [UInt32.toNat_mul]
    exact Nat.mod_eq_of_lt (by simp only [UInt16.toNat_toUInt32]; simp; omega)
  have high : ((mulCx eax edx 0x400).2 <<< 16).toNat = (product.toNat / 2 ^ 16) <<< 16 := by
    have half : (product >>> 16).toNat = product.toNat / 2 ^ 16 := by
      rw [UInt32.toNat_shiftRight, Nat.shiftRight_eq_div_pow]
      rfl
    have low : (mulCx eax edx 0x400).2.toNat % 2 ^ 16 = product.toNat / 2 ^ 16 % 2 ^ 16 := by
      rw [← half]
      exact or_low edx (product >>> 16)
    rw [UInt32.toNat_shiftLeft, Nat.shiftLeft_eq, Nat.shiftLeft_eq]
    show (mulCx eax edx 0x400).2.toNat * 2 ^ 16 % 2 ^ 32 = _
    omega
  have low : ((mulCx eax edx 0x400).1 &&& 0xffff).toNat = product.toNat % 2 ^ 16 := by
    have low := or_low eax (product &&& (0xffff : UInt32))
    rw [UInt32.toNat_and, show (0xffff : UInt32).toNat = 2 ^ 16 - 1 from rfl,
      Nat.and_two_pow_sub_one_eq_mod] at low ⊢
    rw [Nat.mod_mod] at low
    exact low
  rw [UInt32.toNat_or, high, low, ← Nat.shiftLeft_add_eq_or_of_lt (Nat.mod_lt _ (by decide)),
    Nat.shiftLeft_eq, Nat.div_add_mod', isProduct]
theorem e801_toNat (answer : BiosAnswer) :
    (((mulCx answer.eax answer.edx 0x400).2 <<< 16 |||
        (mulCx answer.eax answer.edx 0x400).1 &&& 0xffff) + 0x100000 +
      answer.ebx.toUInt16.toUInt32 * 0x10000).toNat = answer.all % 2 ^ 32 := by
  rw [UInt32.toNat_add, UInt32.toNat_add, mulCx_joined, UInt32.toNat_mul, BiosAnswer.all,
    BiosAnswer.low]
  simp

end Amounts

section Loading

variable {bios : Bios}

theorem loaderStart_eq (bios : Bios) :
    loaderStart bios =
      if bios.e820.count ≤ 12 then
        match bios.e820.map with
        | some stored => .ok (findMaxMemArea stored 0)
        | none => tryE801 bios
      else .error .outOfBounds := by
  have loop := @e820MemGetLoop_eq bios.e820 [] (by decide)
  rw [List.length_nil, Nat.zero_add] at loop
  rw [loaderStart, loop]
  split
  next =>
    cases bios.e820.map with
    | none => rfl
    | some stored => rfl
  next => rfl

theorem map_ne_nil {e820 : E820} {stored : List Ards} (isMap : e820.map = some stored) :
    stored ≠ [] := by
  cases e820 with
  | fails => contradiction
  | last ards =>
      obtain rfl := Option.some.inj isMap
      exact List.cons_ne_nil _ _
  | more ards rest =>
      obtain ⟨tail, -, rfl⟩ := Option.map_eq_some_iff.mp isMap
      exact List.cons_ne_nil _ _

/-- `0x88` never gets to protected mode. -/
theorem tryAh88_stops (bios : Bios) : ∃ edx, tryAh88 bios = .error (.errorHlt edx) := by
  rw [tryAh88]
  split
  next => exact ⟨_, rfl⟩
  next => exact ⟨_, rfl⟩

theorem tryE801_works (works : bios.e801.carry = false) :
    ∃ totalMemBytes, tryE801 bios = .ok totalMemBytes ∧
      totalMemBytes.toNat = bios.e801.all % 2 ^ 32 := by
  rw [tryE801, works]
  exact ⟨_, rfl, e801_toNat bios.e801⟩

theorem tryE801_fails (fails : bios.e801.carry = true) : tryE801 bios = tryAh88 bios := by
  rw [tryE801, fails]
  rfl

theorem tryE801_inside (bios : Bios) : tryE801 bios ≠ .error .outOfBounds := by
  intro overflows
  by_cases fails : bios.e801.carry = true
  · obtain ⟨edx, stops⟩ := tryAh88_stops bios
    rw [tryE801_fails fails, stops] at overflows
    cases overflows
  · obtain ⟨totalMemBytes, ran, -⟩ := tryE801_works (Bool.not_eq_true _ ▸ fails)
    rw [ran] at overflows
    contradiction

/-- The amount of the other two methods, when `0xe820` has failed. -/
theorem tryE801_iff (bios : Bios) :
    (bios.e801.carry = false ∨ bios.ah88.carry = false → ∃ totalMemBytes,
      tryE801 bios = .ok totalMemBytes ∧
        if bios.e801.carry = false then totalMemBytes.toNat = bios.e801.all
        else bios.ah88.carry = false ∧ totalMemBytes.toNat = bios.ah88.low) ↔
      if bios.e801.carry = false then bios.e801.all < 2 ^ 32 else bios.ah88.carry = true := by
  by_cases works : bios.e801.carry = false
  · obtain ⟨totalMemBytes, ran, isAmount⟩ := tryE801_works works
    simp only [works, if_true, true_or, true_imp_iff]
    constructor
    · rintro ⟨found, ranAgain, isAll⟩
      exact isAll ▸ found.toNat_lt
    · exact fun small => ⟨totalMemBytes, ran, isAmount.trans (Nat.mod_eq_of_lt small)⟩
  · obtain ⟨edx, stops⟩ := tryAh88_stops bios
    have fails : bios.e801.carry = true := by simpa using works
    rw [tryE801_fails fails, stops, if_neg works]
    constructor
    · intro right
      by_contra working
      obtain ⟨found, ran, -⟩ := right (.inr (by simpa using working))
      contradiction
    · rintro broken (working | working)
      · exact absurd working works
      · rw [broken] at working
        contradiction

/-- The loader gets the amount of memory exactly from these answers of the BIOS. -/
theorem loaderRight_iff (bios : Bios) : LoaderRight bios ↔ bios.Handled := by
  have start := loaderStart_eq bios
  by_cases room : bios.e820.count ≤ 12
  · rw [if_pos room] at start
    rw [Bios.Handled, and_iff_right room]
    cases isMap : bios.e820.map with
    | some stored =>
        simp only [isMap] at start ⊢
        rw [← findMaxMemArea_iff (map_ne_nil isMap)]
        constructor
        · intro right
          obtain ⟨totalMemBytes, ran, reports⟩ := right.amount (.inl (by simp [isMap]))
          obtain rfl := Except.ok.inj (start.symm.trans ran)
          rw [Bios.Reports, isMap] at reports
          exact reports
        · intro largest
          refine ⟨by rw [start]; nofun, fun _ => ⟨_, start, ?_⟩⟩
          rw [Bios.Reports, isMap]
          exact largest
    | none =>
        simp only [isMap] at start ⊢
        rw [← tryE801_iff bios]
        have works : bios.Works ↔ bios.e801.carry = false ∨ bios.ah88.carry = false :=
          or_iff_right fun succeeds => succeeds isMap
        constructor
        · intro right some
          obtain ⟨totalMemBytes, ran, reports⟩ := right.amount (works.mpr some)
          rw [Bios.Reports, isMap] at reports
          exact ⟨totalMemBytes, start.symm.trans ran, reports⟩
        · intro right
          refine ⟨by rw [start]; exact tryE801_inside bios, fun some => ?_⟩
          obtain ⟨totalMemBytes, ran, reports⟩ := right (works.mp some)
          refine ⟨totalMemBytes, start.trans ran, ?_⟩
          rw [Bios.Reports, isMap]
          exact reports
  · rw [if_neg room] at start
    exact iff_of_false (fun right => right.inside start) fun handled => room handled.1

/-- A machine with one range of memory that ends at 3 GiB, and one that only knows `0x88`. -/
theorem loader_fails :
    ¬ LoaderRight ⟨.last ⟨0x100000, 0xbff00000⟩, ⟨true, 0, 0, 0⟩, ⟨true, 0, 0, 0⟩⟩ ∧
      ¬ LoaderRight ⟨.fails, ⟨true, 0, 0, 0⟩, ⟨false, 0x3c00, 0, 0⟩⟩ := by
  constructor
  · intro right
    obtain ⟨totalMemBytes, ran, all, -⟩ := right.amount (.inl nofun)
    obtain rfl : 0 = totalMemBytes := Except.ok.inj ran
    exact absurd (all ⟨0x100000, 0xbff00000⟩ List.mem_cons_self) (by decide)
  · intro right
    obtain ⟨totalMemBytes, ran, -⟩ := right.amount (.inr (.inr rfl))
    cases ran

end Loading

end HongbaiOS.Kernel
