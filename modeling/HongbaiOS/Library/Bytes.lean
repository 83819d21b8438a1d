import Mathlib.Logic.Basic
import Mathlib.Tactic.Common
import Mathlib.Tactic.IntervalCases

/-!
# Byte stores

A memory, a buffer or a disk image is a function from offsets to bytes.  C code
reads and writes it in runs (`memcpy`, sector transfers) and in little-endian
32-bit words; `splice`, `window` and `word` are these accesses.
-/

namespace HongbaiOS.Library

/-- An unbounded array of bytes. -/
abbrev Bytes := Nat → UInt8

namespace Bytes

/-- `store` with `length` bytes from `offset` on taken from the head of `source`. -/
def splice (store : Bytes) (offset length : Nat) (source : Bytes) : Bytes := fun a =>
  if offset ≤ a ∧ a < offset + length then source (a - offset) else store a

/-- The bytes of `store` from `offset` on. -/
def window (store : Bytes) (offset : Nat) : Bytes := fun a => store (offset + a)

/-- The same byte everywhere. -/
def fill (value : UInt8) : Bytes := fun _ => value

/-- Two stores hold the same first `length` bytes. -/
def SameHead (length : Nat) (left right : Bytes) : Prop :=
  ∀ a < length, left a = right a

@[simp]
theorem window_apply (store : Bytes) (offset a : Nat) :
    store.window offset a = store (offset + a) := rfl

@[simp]
theorem window_zero (store : Bytes) : store.window 0 = store := by
  funext a
  simp

@[simp]
theorem window_window (store : Bytes) (first second : Nat) :
    (store.window first).window second = store.window (first + second) := by
  funext a
  simp [Nat.add_assoc]

@[simp]
theorem fill_apply (value : UInt8) (a : Nat) : fill value a = value := rfl

section Splice

variable {store source : Bytes} {offset length a : Nat}

theorem splice_inside (low : offset ≤ a) (high : a < offset + length) :
    store.splice offset length source a = source (a - offset) :=
  if_pos ⟨low, high⟩

theorem splice_outside (outside : a < offset ∨ offset + length ≤ a) :
    store.splice offset length source a = store a :=
  if_neg (by omega)

@[simp]
theorem splice_add (small : a < length) :
    store.splice offset length source (offset + a) = source a := by
  rw [splice_inside (by omega) (by omega)]
  congr 1
  omega

@[simp]
theorem splice_zero_length : store.splice offset 0 source = store := by
  funext a
  exact splice_outside (by omega)

theorem splice_append (store source : Bytes) (offset length length' : Nat) :
    (store.splice offset length source).splice (offset + length) length' (source.window length) =
      store.splice offset (length + length') source := by
  funext a
  by_cases second : offset + length ≤ a ∧ a < offset + length + length'
  · rw [splice_inside second.1 second.2, splice_inside (by omega) (by omega), window_apply]
    congr 1
    omega
  · rw [splice_outside (by omega)]
    by_cases first : offset ≤ a ∧ a < offset + length
    · rw [splice_inside first.1 first.2, splice_inside first.1 (by omega)]
    · rw [splice_outside (by omega), splice_outside (by omega)]

/-- Reading back the run that was written. -/
theorem window_splice_same {extent : Nat} (fits : extent ≤ length) :
    SameHead extent ((store.splice offset length source).window offset) source := by
  intro a small
  exact splice_add (by omega)

/-- Reading a run that the write did not touch. -/
theorem window_splice_apart {base extent : Nat}
    (apart : base + extent ≤ offset ∨ offset + length ≤ base) :
    SameHead extent ((store.splice offset length source).window base)
      (store.window base) := by
  intro a small
  exact splice_outside (by omega)

/-- Read a run, change a piece of it and write the run back: only the piece
changes on the store. -/
theorem splice_read_modify_write {buffer piece : Bytes} {base extent : Nat}
    (fits : offset + length ≤ extent) :
    store.splice base extent
        ((buffer.splice 0 extent (store.window base)).splice offset length piece) =
      store.splice (base + offset) length piece := by
  funext a
  by_cases inPiece : base + offset ≤ a ∧ a < base + offset + length
  · have low : offset ≤ a - base := by omega
    have high : a - base < offset + length := by omega
    rw [splice_inside inPiece.1 inPiece.2, splice_inside (by omega : base ≤ a) (by omega),
      splice_inside low high, Nat.sub_sub]
  · have apart : a < base + offset ∨ base + offset + length ≤ a := by omega
    rw [splice_outside apart]
    by_cases inRun : base ≤ a ∧ a < base + extent
    · have outside : a - base < offset ∨ offset + length ≤ a - base := by omega
      rw [splice_inside inRun.1 inRun.2, splice_outside outside,
        splice_inside (Nat.zero_le _) (by omega), window_apply]
      congr 1
      omega
    · exact splice_outside (by omega)

theorem splice_congr {source' : Bytes} (same : SameHead length source source') :
    store.splice offset length source = store.splice offset length source' := by
  funext a
  by_cases inside : offset ≤ a ∧ a < offset + length
  · rw [splice_inside inside.1 inside.2, splice_inside inside.1 inside.2]
    exact same _ (by omega)
  · rw [splice_outside (by omega), splice_outside (by omega)]

/-- A write that stores what is there already changes nothing. -/
theorem splice_eq_self (same : SameHead length (store.window offset) source) :
    store.splice offset length source = store := by
  funext a
  by_cases inside : offset ≤ a ∧ a < offset + length
  · rw [splice_inside inside.1 inside.2, ← same (a - offset) (by omega), window_apply]
    congr 1
    omega
  · exact splice_outside (by omega)

theorem splice_eq_self_iff :
    store.splice offset length source = store ↔
      SameHead length (store.window offset) source := by
  constructor
  · intro unchanged a small
    rw [← unchanged]
    exact splice_add small
  · exact splice_eq_self

end Splice

theorem SameHead.refl (length : Nat) (store : Bytes) : SameHead length store store :=
  fun _ _ => rfl

theorem SameHead.symm {length : Nat} {left right : Bytes}
    (same : SameHead length left right) : SameHead length right left :=
  fun a small => (same a small).symm

theorem SameHead.trans {length : Nat} {left middle right : Bytes}
    (first : SameHead length left middle) (second : SameHead length middle right) :
    SameHead length left right :=
  fun a small => (first a small).trans (second a small)

theorem SameHead.mono {length shorter : Nat} {left right : Bytes}
    (same : SameHead length left right) (le : shorter ≤ length) :
    SameHead shorter left right :=
  fun a small => same a (by omega)

/-- Byte `i` of a word, the lowest first. -/
def byteOf (value : UInt32) (i : Nat) : UInt8 := UInt8.ofNat (value.toNat / 256 ^ i)

/-- The word made of four bytes, the lowest first. -/
def joinBytes (b₀ b₁ b₂ b₃ : UInt8) : UInt32 :=
  UInt32.ofNat (b₀.toNat + 256 * b₁.toNat + 65536 * b₂.toNat + 16777216 * b₃.toNat)

/-- Word `k` of a store read as an array of `uint32_t`. -/
def word (store : Bytes) (k : Nat) : UInt32 :=
  joinBytes (store (4 * k)) (store (4 * k + 1)) (store (4 * k + 2)) (store (4 * k + 3))

/-- An array of `uint32_t` as it lies in memory. -/
def ofWords (words : Nat → UInt32) : Bytes := fun a => byteOf (words (a / 4)) (a % 4)

theorem joinBytes_byteOf (value : UInt32) :
    joinBytes (byteOf value 0) (byteOf value 1) (byteOf value 2) (byteOf value 3) = value := by
  have bound := value.toNat_lt
  apply UInt32.toNat_inj.mp
  simp only [joinBytes, byteOf, UInt32.toNat_ofNat', UInt8.toNat_ofNat', Nat.reducePow]
  omega

@[simp]
theorem word_ofWords (words : Nat → UInt32) (k : Nat) : word (ofWords words) k = words k := by
  have quotient₀ : 4 * k / 4 = k := by omega
  have quotient₁ : (4 * k + 1) / 4 = k := by omega
  have quotient₂ : (4 * k + 2) / 4 = k := by omega
  have quotient₃ : (4 * k + 3) / 4 = k := by omega
  have remainder₀ : 4 * k % 4 = 0 := by omega
  have remainder₁ : (4 * k + 1) % 4 = 1 := by omega
  have remainder₂ : (4 * k + 2) % 4 = 2 := by omega
  have remainder₃ : (4 * k + 3) % 4 = 3 := by omega
  simp only [word, ofWords, quotient₀, quotient₁, quotient₂, quotient₃, remainder₀,
    remainder₁, remainder₂, remainder₃, joinBytes_byteOf]

theorem word_congr {left right : Bytes} {length k : Nat}
    (same : SameHead length left right) (fits : 4 * k + 4 ≤ length) :
    left.word k = right.word k := by
  simp only [word, same (4 * k) (by omega), same (4 * k + 1) (by omega),
    same (4 * k + 2) (by omega), same (4 * k + 3) (by omega)]

/-- The word at a byte offset. -/
def wordAt (store : Bytes) (a : Nat) : UInt32 :=
  joinBytes (store a) (store (a + 1)) (store (a + 2)) (store (a + 3))

/-- `store` with a word at a byte offset. -/
def putWord (store : Bytes) (a : Nat) (value : UInt32) : Bytes :=
  store.splice a 4 (byteOf value)

section WordAt

variable {store store' : Bytes} {a b : Nat} {value : UInt32}

theorem wordAt_congr (same : ∀ i, a ≤ i → i < a + 4 → store i = store' i) :
    store.wordAt a = store'.wordAt a := by
  simp only [wordAt, same a (by omega) (by omega), same (a + 1) (by omega) (by omega),
    same (a + 2) (by omega) (by omega), same (a + 3) (by omega) (by omega)]

@[simp]
theorem wordAt_putWord_same : (store.putWord a value).wordAt a = value := by
  have byte : ∀ i < 4, store.putWord a value (a + i) = byteOf value i :=
    fun i small => splice_add small
  have first := byte 0 (by omega)
  rw [Nat.add_zero] at first
  rw [wordAt, first, byte 1 (by omega), byte 2 (by omega), byte 3 (by omega), joinBytes_byteOf]

theorem wordAt_splice_apart {source : Bytes} {offset length : Nat}
    (apart : a + 4 ≤ offset ∨ offset + length ≤ a) :
    (store.splice offset length source).wordAt a = store.wordAt a :=
  wordAt_congr fun _ low high => splice_outside (by omega)

theorem wordAt_putWord_apart (apart : a + 4 ≤ b ∨ b + 4 ≤ a) :
    (store.putWord b value).wordAt a = store.wordAt a :=
  wordAt_splice_apart apart

/-- A word within a run that was written. -/
theorem wordAt_splice_inside {source : Bytes} {offset length k : Nat} (fits : k + 4 ≤ length) :
    (store.splice offset length source).wordAt (offset + k) = source.wordAt k := by
  simp only [wordAt, Nat.add_assoc offset, splice_add (show k < length by omega),
    splice_add (show k + 1 < length by omega), splice_add (show k + 2 < length by omega),
    splice_add (show k + 3 < length by omega)]

theorem word_eq_wordAt (k : Nat) : store.word k = store.wordAt (4 * k) := rfl

/-- An array behind its first element. -/
theorem window_ofWords (words : Nat → UInt32) :
    (ofWords words).window 4 = ofWords fun k => words (k + 1) := by
  funext i
  rw [window_apply, ofWords, ofWords, show (4 + i) / 4 = i / 4 + 1 by omega,
    show (4 + i) % 4 = i % 4 by omega]

theorem putWord_eq_splice (words : Nat → UInt32) :
    store.putWord a (words 0) = store.splice a 4 (ofWords words) := by
  funext i
  by_cases inside : a ≤ i ∧ i < a + 4
  · rw [putWord, splice_inside inside.1 inside.2, splice_inside inside.1 inside.2, ofWords,
      Nat.div_eq_of_lt (by omega), Nat.mod_eq_of_lt (by omega)]
  · rw [putWord, splice_outside (by omega), splice_outside (by omega)]

end WordAt

theorem splice_bytes_eq_putWord (store : Bytes) (a : Nat) (value : UInt32) :
    (((store.splice a 1 (fill (byteOf value 0))).splice (a + 1) 1
      (fill (byteOf value 1))).splice (a + 2) 1 (fill (byteOf value 2))).splice (a + 3) 1
      (fill (byteOf value 3)) = store.putWord a value := by
  have byte : ∀ i store, splice store (a + i) 1 (fill (byteOf value i)) =
      splice store (a + i) 1 (window (byteOf value) i) := by
    intro i store
    apply splice_congr
    intro k small
    rw [fill_apply, window_apply, Nat.lt_one_iff.mp small, Nat.add_zero]
  have first := byte 0 store
  rw [Nat.add_zero, window_zero] at first
  rw [first, byte 1, splice_append, byte 2, splice_append, byte 3, splice_append]
  rfl

/-- A store of bytes from `lo` on that do not depend on what the others hold. -/
structure Local (lo : Nat) (f : Bytes → Bytes) : Prop where
  below : ∀ store a, a < lo → f store a = store a
  pointwise : ∀ store store' a, store a = store' a → f store a = f store' a

theorem Local.splice {lo offset length : Nat} {source : Bytes} {f : Bytes → Bytes}
    (above : lo ≤ offset) (isSplice : ∀ store, f store = store.splice offset length source) :
    Local lo f where
  below store a low := by rw [isSplice, splice_outside (by omega)]
  pointwise store store' a same := by
    rw [isSplice, isSplice, Bytes.splice, Bytes.splice, same]

theorem Local.comp {lo : Nat} {f g : Bytes → Bytes} (second : Local lo f) (first : Local lo g) :
    Local lo fun store => f (g store) where
  below store a low := (second.below _ a low).trans (first.below store a low)
  pointwise store store' a same := second.pointwise _ _ a (first.pointwise store store' a same)

end Bytes

end HongbaiOS.Library
