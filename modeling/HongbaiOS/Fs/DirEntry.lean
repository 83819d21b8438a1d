import HongbaiOS.Fs.SuperBlock
import Mathlib.Data.List.TakeWhile

/-!
# Directory entries

A directory entry is 24 bytes: 16 for the name, the inode number and the file
type.  A name of 16 characters leaves no room for its terminating NUL, so
`strcmp` reads on into the inode number.
-/

namespace HongbaiOS.Fs

open HongbaiOS.Library HongbaiOS.Kernel

/-- `MAX_FILE_NAME_LEN` -/
def maxFileNameLen : Nat := 16

/-- `enum file_types` -/
inductive FileType where
  | unknown | regular | directory
  deriving DecidableEq, Repr

def FileType.code : FileType → UInt32
  | .unknown => 0
  | .regular => 1
  | .directory => 2

/-- A C string: its characters before the terminating NUL. -/
structure CString where
  chars : List UInt8
  noNul : ∀ c ∈ chars, c ≠ 0

/-- `strlen(str_)` -/
def strlen (str : CString) : Nat := str.chars.length

/-- `strcmp(a_, b_)` where `a_` points into memory and `b_` is the string with
these characters and a NUL after them.  Characters compare as `char`, which is
signed. -/
def strcmpChars (a : Bytes) : List UInt8 → Int
  | [] => if (a 0).toInt8 > 0 then 1 else if (a 0).toInt8 < 0 then -1 else 0
  | b :: rest =>
      if a 0 ≠ 0 ∧ a 0 = b then strcmpChars (a.window 1) rest
      else if (a 0).toInt8 > b.toInt8 then 1 else if (a 0).toInt8 < b.toInt8 then -1 else 0

/-- `strcmp(a_, b_)` -/
def strcmp (a : Bytes) (b : CString) : Int := strcmpChars a b.chars

/-- The literals below 16 name the places of `filename`. -/
instance namePlaces : NeZero 16 := ⟨by decide⟩

/-- `struct dir_entry` -/
structure DirEntry where
  filename : Fin 16 → UInt8
  iNo : UInt32
  fType : UInt32

namespace DirEntry

def bytes (entry : DirEntry) : Bytes := fun a =>
  if inName : a < 16 then entry.filename ⟨a, inName⟩
  else if a < 20 then Bytes.byteOf entry.iNo (a % 4)
  else Bytes.byteOf entry.fType (a % 4)

def ofBytes (store : Bytes) : DirEntry where
  filename := fun k => store k
  iNo := store.word 4
  fType := store.word 5

/-- The name a reader of the `filename` array sees: up to the first NUL, all 16
characters if there is none. -/
def name (entry : DirEntry) : CString where
  chars := (List.ofFn entry.filename).takeWhile (· ≠ 0)
  noNul := fun c membership => by simpa using List.mem_takeWhile_imp membership

/-- The name is followed by a NUL when the entry is read as a string: it has at
most 15 characters, or the inode number starts with a zero byte. -/
def Terminated (entry : DirEntry) : Prop := entry.bytes entry.name.chars.length = 0

instance (entry : DirEntry) : Decidable entry.Terminated :=
  inferInstanceAs (Decidable (_ = _))

end DirEntry

/-- `create_dir_entry(filename, inode_no, file_type, p_de)`, over what `p_de`
held. -/
def createDirEntry (filename : CString) (inodeNo : UInt32) (fileType : FileType)
    (entry : DirEntry) : Except Halt DirEntry := do
  check .createDirEntry (strlen filename ≤ maxFileNameLen)
  return {
    filename := fun k =>
      if inside : k.val < filename.chars.length then filename.chars.get ⟨k, inside⟩
      else entry.filename k
    iNo := inodeNo
    fType := fileType.code }

theorem ofBytes_dirEntry_congr {left right : Bytes}
    (same : Bytes.SameHead dirEntrySize left right) :
    DirEntry.ofBytes left = DirEntry.ofBytes right := by
  have sameName : (fun k : Fin 16 => left k) = fun k : Fin 16 => right k := by
    funext k
    exact same k (by simp only [dirEntrySize]; omega)
  have sameNo : left.word 4 = right.word 4 := Bytes.word_congr same (by decide)
  have sameType : left.word 5 = right.word 5 := Bytes.word_congr same (by decide)
  simp only [DirEntry.ofBytes, sameName, sameNo, sameType]

@[simp]
theorem DirEntry.ofBytes_bytes (entry : DirEntry) :
    DirEntry.ofBytes entry.bytes = entry := by
  have sameName : (fun k : Fin 16 => entry.bytes k) = entry.filename := by
    funext k
    simp [bytes]
  have sameNo : entry.bytes.word 4 = entry.iNo := by
    simpa [Bytes.word, bytes] using Bytes.joinBytes_byteOf entry.iNo
  have sameType : entry.bytes.word 5 = entry.fType := by
    simpa [Bytes.word, bytes] using Bytes.joinBytes_byteOf entry.fType
  simp only [DirEntry.ofBytes, sameName, sameNo, sameType]

/-- `strcmp` finds equality exactly if the characters agree and a NUL follows. -/
theorem strcmpChars_eq_zero_iff (a : Bytes) {chars : List UInt8} (noNul : ∀ c ∈ chars, c ≠ 0) :
    strcmpChars a chars = 0 ↔
      (∀ (i : Nat) (inside : i < chars.length), a i = chars.get ⟨i, inside⟩) ∧
        a chars.length = 0 := by
  have signed : ∀ x y : UInt8,
      (if x.toInt8 > y.toInt8 then (1 : Int) else if x.toInt8 < y.toInt8 then -1 else 0) = 0 ↔
        x = y := by
    intro x y
    have injective : x.toInt8.toInt = y.toInt8.toInt ↔ x = y := by
      rw [Int8.toInt_inj]
      exact ⟨fun same => by simpa using congrArg Int8.toUInt8 same, fun same => congrArg _ same⟩
    simp only [gt_iff_lt, Int8.lt_iff_toInt_lt, ← injective]
    split_ifs <;> simp <;> omega
  induction chars generalizing a with
  | nil =>
      have zero := signed (a 0) 0
      simpa [strcmpChars] using zero
  | cons c rest inductionHypothesis =>
      have nonzero : c ≠ 0 := noNul c (by simp)
      simp only [strcmpChars]
      split
      next both =>
        have tail := inductionHypothesis (a.window 1)
          (fun d membership => noNul d (List.mem_cons_of_mem c membership))
        refine tail.trans ⟨?_, ?_⟩
        · rintro ⟨same, ended⟩
          refine ⟨fun i inside => ?_, ?_⟩
          · cases i with
            | zero => exact both.2
            | succ i =>
                have step := same i (by simpa using inside)
                simpa [Nat.add_comm] using step
          · simpa [Nat.add_comm] using ended
        · rintro ⟨same, ended⟩
          refine ⟨fun i inside => ?_, ?_⟩
          · have step := same (i + 1) (by simpa using inside)
            simpa [Nat.add_comm] using step
          · simpa [Nat.add_comm] using ended
      next notBoth =>
        rw [signed (a 0) c]
        constructor
        · intro same
          exact absurd ⟨same ▸ nonzero, same⟩ notBoth
        · rintro ⟨same, -⟩
          have head := same 0 (by simp)
          exact head

theorem strcmp_eq_zero_iff (a : Bytes) (b : CString) :
    strcmp a b = 0 ↔
      (∀ (i : Nat) (inside : i < b.chars.length), a i = b.chars.get ⟨i, inside⟩) ∧
        a b.chars.length = 0 :=
  strcmpChars_eq_zero_iff a b.noNul

theorem strcmp_congr {a b : Bytes} {length : Nat} (same : Bytes.SameHead length a b)
    (short : strlen name < length) : strcmp a name = 0 ↔ strcmp b name = 0 := by
  have bytes : ∀ i, i ≤ name.chars.length → a i = b i :=
    fun i inside => same i (Nat.lt_of_le_of_lt inside short)
  rw [strcmp_eq_zero_iff, strcmp_eq_zero_iff, bytes _ (le_refl _)]
  refine and_congr_left fun _ => forall_congr' fun i => forall_congr' fun inside => ?_
  rw [bytes i (Nat.le_of_lt inside)]

theorem DirEntry.name_length_le (entry : DirEntry) : entry.name.chars.length ≤ 16 := by
  have taken := (List.takeWhile_prefix (fun c => decide (c ≠ 0))
    (l := List.ofFn entry.filename)).length_le
  rwa [List.length_ofFn] at taken

theorem DirEntry.bytes_name (entry : DirEntry) {i : Nat}
    (inside : i < entry.name.chars.length) :
    entry.bytes i = entry.name.chars.get ⟨i, inside⟩ := by
  have small : i < 16 := lt_of_lt_of_le inside entry.name_length_le
  have taken := (List.takeWhile_prefix (fun c => decide (c ≠ 0))
    (l := List.ofFn entry.filename)).getElem inside
  rw [List.getElem_ofFn] at taken
  rw [bytes, dif_pos small]
  exact taken.symm

/-- Comparing a stored entry with a name compares the two names, provided a NUL
follows the stored one. -/
theorem strcmp_stored_iff {store : Bytes} {entry : DirEntry} (terminated : entry.Terminated)
    (holds : Bytes.SameHead dirEntrySize store entry.bytes) (name : CString) :
    strcmp store name = 0 ↔ entry.name.chars = name.chars := by
  have long := entry.name_length_le
  have stored : ∀ i < 24, store i = entry.bytes i := holds
  have ended : store entry.name.chars.length = 0 := by
    rw [stored _ (by omega)]
    exact terminated
  rw [strcmp_eq_zero_iff]
  constructor
  · rintro ⟨same, nul⟩
    have notShorter : ¬ name.chars.length < entry.name.chars.length := by
      intro shorter
      rw [stored _ (by omega), entry.bytes_name shorter] at nul
      exact entry.name.noNul _ (List.get_mem _ _) nul
    have notLonger : ¬ entry.name.chars.length < name.chars.length := by
      intro longer
      rw [same _ longer] at ended
      exact name.noNul _ (List.get_mem _ _) ended
    apply List.ext_getElem (by omega)
    intro i inside inside'
    have here := same i inside'
    rw [stored i (by omega), entry.bytes_name inside] at here
    exact here
  · intro same
    refine ⟨fun i inside => ?_, ?_⟩
    · have inside' : i < entry.name.chars.length := by rwa [same]
      rw [stored i (by omega), entry.bytes_name inside']
      simp only [List.get_eq_getElem, same]
    · rwa [← same]

theorem getElem?_length_takeWhile {α : Type} (p : α → Bool) (l : List α) :
    l[(l.takeWhile p).length]? = (l.dropWhile p).head? := by
  induction l with
  | nil => rfl
  | cons a l inductionHypothesis =>
      by_cases passes : p a
      · simpa [passes] using inductionHypothesis
      · simp [passes]

/-- A name with fewer than 16 characters ends with a NUL in the array. -/
theorem DirEntry.filename_name_length (entry : DirEntry)
    (short : entry.name.chars.length < 16) : entry.filename ⟨_, short⟩ = 0 := by
  have stop := getElem?_length_takeWhile (fun c : UInt8 => decide (c ≠ 0))
    (List.ofFn entry.filename)
  have here : (List.ofFn entry.filename)[entry.name.chars.length]? =
      some (entry.filename ⟨_, short⟩) := by
    rw [List.getElem?_ofFn, dif_pos short]
  have ends := List.head?_dropWhile_not (fun c : UInt8 => decide (c ≠ 0))
    (List.ofFn entry.filename)
  rw [stop.symm.trans here] at ends
  simpa using ends

theorem strcmp_short_iff {name : CString} (store : Bytes) (short : strlen name < maxFileNameLen) :
    strcmp store name = 0 ↔ (DirEntry.ofBytes store).name.chars = name.chars := by
  have stored : ∀ (k : Nat) (inside : k < 16),
      (DirEntry.ofBytes store).filename ⟨k, inside⟩ = store k := fun k inside => rfl
  generalize DirEntry.ofBytes store = entry at stored
  have long := entry.name_length_le
  have chars : ∀ (k : Nat) (inside : k < entry.name.chars.length),
      store k = entry.name.chars.get ⟨k, inside⟩ := by
    intro k inside
    have inArray : k < 16 := Nat.lt_of_lt_of_le inside long
    rw [← entry.bytes_name inside, ← stored k inArray, DirEntry.bytes, dif_pos inArray]
  have room : name.chars.length < 16 := short
  rw [strcmp_eq_zero_iff]
  constructor
  · rintro ⟨same, ended⟩
    have notShorter : ¬ name.chars.length < entry.name.chars.length := by
      intro shorter
      rw [chars _ shorter] at ended
      exact entry.name.noNul _ (List.get_mem _ _) ended
    have notLonger : ¬ entry.name.chars.length < name.chars.length := by
      intro longer
      have stop := entry.filename_name_length (by omega)
      rw [stored, same _ longer] at stop
      exact name.noNul _ (List.get_mem _ _) stop
    apply List.ext_getElem (by omega)
    intro k inside inside'
    exact (chars k inside).symm.trans (same k inside')
  · intro same
    refine ⟨fun k inside => ?_, ?_⟩
    · rw [chars k (by rwa [same])]
      simp only [List.get_eq_getElem, same]
    · have stop := entry.filename_name_length (by rwa [same])
      rw [stored] at stop
      rwa [← same]

end HongbaiOS.Fs
