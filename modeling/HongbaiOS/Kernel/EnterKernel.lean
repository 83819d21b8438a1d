import HongbaiOS.Kernel.KernelInit

/-!
# What the loader leaves to the kernel

The ELF file says which bytes go where; the loop over its program headers copies them, later
segments over earlier ones.  It copies `p_filesz` bytes of each: what a segment has beyond that in
memory, its `.bss`, keeps what memory held at power-on.
-/

namespace HongbaiOS.Kernel.PMode

open HongbaiOS.Library HongbaiOS.Memory HongbaiOS.Device PMode.Machine

structure Segment where
  vaddr : Nat
  filesz : Nat
  offset : Nat
  deriving DecidableEq

/-- The segment of the program header at an offset, if the loader takes it. -/
def segmentAt (image : Bytes) (header : Nat) : Option Segment :=
  if image header = 0 ∨ image.wordAt (header + 8) < 0xc0001500 then none
  else some {
    vaddr := (image.wordAt (header + 8)).toNat
    filesz := (image.wordAt (header + 16)).toNat
    offset := (image.wordAt (header + 4)).toNat }

/-- Memory with one more segment; the processor maps the kernel's addresses from 3 GB on. -/
def loadSegment (image mem : Bytes) (seg : Segment) : Bytes :=
  mem.splice (seg.vaddr - 0xc0000000) seg.filesz (image.window seg.offset)

theorem loadSegment_mk (image mem : Bytes) (vaddr filesz offset : Nat) :
    loadSegment image mem ⟨vaddr, filesz, offset⟩ =
      mem.splice (vaddr - 0xc0000000) filesz (image.window offset) := by
  unfold loadSegment
  rfl

/-- The segments that the loader takes of `left` headers from one on. -/
def segmentsFrom (image : Bytes) (size : Nat) : (left header : Nat) → List Segment
  | 0, _ => []
  | left + 1, header =>
      (segmentAt image header).toList ++ segmentsFrom image size left (header + size)

/-- A 16-bit member of the ELF header. -/
def half (image : Bytes) (offset : Nat) : Nat :=
  (image offset).toNat + 256 * (image (offset + 1)).toNat

/-- The segments of an ELF file, by `e_phentsize`, `e_phnum` and `e_phoff`. -/
def segments (image : Bytes) : List Segment :=
  segmentsFrom image (half image 42) (half image 44) (image.wordAt 28).toNat

/-- The bytes that the loader reads of the disk. -/
def bufferSize : Nat := 200 * sectorSize

/-- The segment is in the file as far as it is read, and ends below the buffer. -/
structure Segment.Fits (seg : Segment) : Prop where
  inFile : seg.offset + seg.filesz ≤ bufferSize
  below : seg.vaddr + seg.filesz ≤ 0xc0070000

/-- The state of `kernel_init` between two segments. -/
structure Loading (image : Bytes) (m : Machine) : Prop where
  paging : m.paging = some pageDirTable
  paged : Paged m.mem
  esp : m.esp = 0xc00008fc
  buffer : Bytes.SameHead bufferSize (m.mem.window 0x70000) image

section Segments

variable {image : Bytes} {m : Machine} {seg : Segment} {h a : Nat}

theorem segmentAt_low (isSegment : segmentAt image h = some seg) : 0xc0001500 ≤ seg.vaddr := by
  rw [segmentAt] at isSegment
  split at isSegment
  next skipped => cases isSegment
  next taken =>
    cases isSegment
    exact Nat.le_of_not_lt fun low => taken (.inr (UInt32.lt_iff_toNat_lt.mpr low))

theorem loadHeader_eq (flat : m.Flat) {mem : Bytes}
    (buffer : Bytes.SameHead bufferSize (mem.window 0x70000) image)
    (same : ∀ a, 0x70000 ≤ a → m.mem a = mem a) {ebx : UInt32} (header : ebx.toNat = 0x70000 + h)
    {k : Nat} (fits : h + k + 4 ≤ bufferSize) :
    m.loadDword (ebx + UInt32.ofNat k) = some (image.wordAt (h + k)) := by
  have size : bufferSize = 102400 := rfl
  have byte : ∀ i < bufferSize, m.mem (0x70000 + i) = image i :=
    fun i small => (same _ (by omega)).trans (buffer i small)
  have member : m.mem.wordAt (0x70000 + h + k) = image.wordAt (h + k) := by
    simp only [Bytes.wordAt, Nat.add_assoc, byte (h + k) (by omega), byte (h + (k + 1)) (by omega),
      byte (h + (k + 2)) (by omega), byte (h + (k + 3)) (by omega)]
  exact (loadDword_eq flat (Names.add (.inl header) (by omega)) (by omega)).trans
    (congrArg some member)

theorem call_memCpy_eq (code : ReturnAddresses) (ebp ecx : UInt32) (gdtr : Gdtr)
    (target source : Nat) {mem : Bytes} {dst src size : UInt32} (paged : Paged mem)
    (isDst : mem.wordAt 0x8f0 = dst) (isSrc : mem.wordAt 0x8f4 = src)
    (isSize : mem.wordAt 0x8f8 = size)
    (isTarget : dst.toNat = target + 0xc0000000) (isSource : src.toNat = source)
    (behindStack : 0x900 ≤ target) (apart : target + size.toNat ≤ source)
    (low : source + size.toNat < 0x100000) :
    ∃ mem', Machine.call code.memCpy memCpy
        ⟨mem, 0xc00008f0, ebp, ecx, gdtr, some pageDirTable⟩ =
          some ⟨mem', 0xc00008f0, ebp, ecx, gdtr, some pageDirTable⟩ ∧
      ∀ a, a < 0x8e4 ∨ 0x8f0 ≤ a → mem' a = mem.splice target size.toNat (mem.window source) a := by
  obtain ⟨mem₁, pushed, flat₁, word₁, same₁⟩ := push_frame 0xc00008ec 0x8ec
    (.inr ⟨rfl, paged⟩ : Flat ⟨mem, 0xc00008f0, ebp, ecx, gdtr, some pageDirTable⟩)
    (by decide) (.high (by decide)) (by omega) code.memCpy
  have argument : ∀ a, 0x8f0 ≤ a → mem₁.wordAt a = mem.wordAt a := fun a above =>
    Bytes.wordAt_congr fun b _ _ => same₁ b (by omega)
  obtain ⟨mem', copies, copied⟩ := memCpy_eq 0x8e4 source target size.toNat flat₁
    (.high (show UInt32.toNat 0xc00008ec = 0x8e4 + 8 + 0xc0000000 by decide)) (by omega)
    (.high (by rw [argument _ (by omega), isDst, isTarget]))
    (.inl (by rw [argument _ (by omega), isSrc, isSource]))
    (by rw [argument _ (by omega), isSize]) (by omega) (by omega) (by omega) (by omega) (by omega)
  replace copies : memCpy ⟨mem₁, 0xc00008ec, ebp, ecx, gdtr, some pageDirTable⟩ =
    some ⟨mem', 0xc00008ec, ebp, ecx, gdtr, some pageDirTable⟩ := copies
  replace copied : ∀ a, a < 0x8e4 ∨ 0x8ec ≤ a →
    mem' a = mem₁.splice target size.toNat (mem₁.window source) a := copied
  have kept : mem'.wordAt 0x8ec = code.memCpy := by
    refine (Bytes.wordAt_congr fun a _ _ => ?_).trans word₁
    rw [copied a (by omega), Bytes.splice_outside (by omega)]
  have paged' : Paged mem' := by
    refine paged.congr fun a high => ?_
    rw [copied a (by omega), Bytes.splice_outside (by omega), same₁ a (by omega)]
  refine ⟨mem', call_eq _ pushed copies (pop_frame 0xc00008f0 0x8ec (.inr ⟨rfl, paged'⟩)
    (by decide) (.high (by decide)) (by omega) kept), ?_⟩
  intro a off
  rw [copied a (by omega)]
  by_cases inTarget : target ≤ a ∧ a < target + size.toNat
  · rw [Bytes.splice_inside inTarget.1 inTarget.2, Bytes.splice_inside inTarget.1 inTarget.2,
      Bytes.window_apply, Bytes.window_apply, same₁ _ (by omega)]
  · rw [Bytes.splice_outside (by omega), Bytes.splice_outside (by omega), same₁ a (by omega)]

/-- A header that is `PT_NULL`, or whose segment does not lie in the kernel. -/
theorem eachSegment_skips (code : ReturnAddresses) {ebx : UInt32}
    (pType : m.loadByte ebx = some (image h))
    (vaddr : m.loadDword (ebx + 8) = some (image.wordAt (h + 8)))
    (skipped : image h = 0 ∨ image.wordAt (h + 8) < 0xc0001500) :
    eachSegment code ebx m = some m := by
  rw [eachSegment, pType, Option.bind_eq_bind, Option.bind_some]
  by_cases isNull : image h = 0
  · rw [if_pos isNull]
    rfl
  · rw [if_neg isNull, vaddr, Option.bind_eq_bind, Option.bind_some,
      if_pos (skipped.resolve_left isNull)]
    rfl

/-- A segment is copied, and nothing else changes outside the frames of the calls. -/
theorem eachSegment_copies (code : ReturnAddresses) {mem : Bytes} {ebp ecx ebx : UInt32}
    {gdtr : Gdtr} (paged : Paged mem)
    (buffer : Bytes.SameHead bufferSize (mem.window 0x70000) image)
    (header : ebx.toNat = 0x70000 + h) (inBuffer : h + 20 ≤ bufferSize)
    (isSegment : segmentAt image h = some seg) (fits : seg.Fits)
    (pType : Machine.loadByte ⟨mem, 0xc00008fc, ebp, ecx, gdtr, some pageDirTable⟩ ebx =
      some (image h))
    (notNull : image h ≠ 0) (notLow : ¬ image.wordAt (h + 8) < 0xc0001500) :
    ∃ mem', eachSegment code ebx ⟨mem, 0xc00008fc, ebp, ecx, gdtr, some pageDirTable⟩ =
        some ⟨mem', 0xc00008fc, ebp, ecx, gdtr, some pageDirTable⟩ ∧
      ∀ a, a < 0x8e4 ∨ 0x8fc ≤ a → mem' a = loadSegment image mem seg a := by
  have size : bufferSize = 102400 := rfl
  have above := segmentAt_low isSegment
  obtain ⟨inFile, below⟩ := fits
  have isSeg : segmentAt image h = some ⟨(image.wordAt (h + 8)).toNat,
    (image.wordAt (h + 16)).toNat, (image.wordAt (h + 4)).toNat⟩ :=
      if_neg (not_or.mpr ⟨notNull, notLow⟩)
  obtain rfl : _ = seg := Option.some.inj (isSeg.symm.trans isSegment)
  change (image.wordAt (h + 4)).toNat + (image.wordAt (h + 16)).toNat ≤ bufferSize at inFile
  change (image.wordAt (h + 8)).toNat + (image.wordAt (h + 16)).toNat ≤ 0xc0070000 at below
  change 0xc0001500 ≤ (image.wordAt (h + 8)).toNat at above
  have flat : Flat ⟨mem, 0xc00008fc, ebp, ecx, gdtr, some pageDirTable⟩ := .inr ⟨rfl, paged⟩
  have vaddr := loadHeader_eq (k := 8) flat buffer (fun _ _ => rfl) header (by omega)
  have getFilesz := loadHeader_eq (k := 16) flat buffer (fun _ _ => rfl) header (by omega)
  -- the three arguments
  obtain ⟨mem₁, push₁, flat₁, word₁, same₁⟩ := push_frame 0xc00008f8 0x8f8 flat
    (by decide) (.high (by decide)) (by omega) (image.wordAt (h + 16))
  have getOffset := loadHeader_eq (k := 4) flat₁ buffer (fun a _ => same₁ a (by omega)) header
    (by omega)
  obtain ⟨mem₂, push₂, flat₂, word₂, same₂⟩ := push_frame 0xc00008f4 0x8f4 flat₁
    (by decide) (.high (by decide)) (by omega) (image.wordAt (h + 4) + kernelBinBase)
  have getDst := loadHeader_eq (k := 8) flat₂ buffer
    (fun a _ => (same₂ a (by omega)).trans (same₁ a (by omega))) header (by omega)
  obtain ⟨mem₃, push₃, flat₃, word₃, same₃⟩ := push_frame 0xc00008f0 0x8f0 flat₂
    (by decide) (.high (by decide)) (by omega) (image.wordAt (h + 8))
  have same : ∀ a, a < 0x8f0 ∨ 0x8fc ≤ a → mem₃ a = mem a := fun a off =>
    (same₃ a (by omega)).trans ((same₂ a (by omega)).trans (same₁ a (by omega)))
  have isSource : mem₃.wordAt 0x8f4 = image.wordAt (h + 4) + kernelBinBase :=
    (Bytes.wordAt_congr fun a _ _ => same₃ a (by omega)).trans word₂
  have isCount : mem₃.wordAt 0x8f8 = image.wordAt (h + 16) :=
    (Bytes.wordAt_congr fun a _ _ => (same₃ a (by omega)).trans (same₂ a (by omega))).trans word₁
  have source : (image.wordAt (h + 4) + kernelBinBase).toNat =
      0x70000 + (image.wordAt (h + 4)).toNat := by
    rw [UInt32.toNat_add]
    change ((image.wordAt (h + 4)).toNat + 0x70000) % 2 ^ 32 = _
    omega
  obtain ⟨mem', call, copied⟩ := call_memCpy_eq code ebp ecx gdtr
    ((image.wordAt (h + 8)).toNat - 0xc0000000) _ (paged.congr fun a _ => same a (by omega))
    word₃ isSource isCount (by omega) source (by omega) (by omega) (by omega)
  refine ⟨mem', ?_, ?_⟩
  · rw [eachSegment, pType, Option.bind_eq_bind, Option.bind_some, if_neg notNull]
    refine (congrArg (Option.bind · _) vaddr).trans ?_
    rw [Option.bind_some, if_neg notLow]
    refine (congrArg (Option.bind · _) getFilesz).trans ?_
    refine (congrArg (Option.bind · _) push₁).trans ?_
    refine (congrArg (Option.bind · _) getOffset).trans ?_
    refine (congrArg (Option.bind · _) push₂).trans ?_
    refine (congrArg (Option.bind · _) getDst).trans ?_
    refine (congrArg (Option.bind · _) push₃).trans ?_
    refine (congrArg (Option.bind · _) call).trans ?_
    have back : (0xc00008f0 : UInt32) + 12 = 0xc00008fc := by decide
    exact congrArg (fun esp => some (Machine.mk mem' esp ebp ecx gdtr (some pageDirTable))) back
  · intro a off
    rw [copied a (by omega), loadSegment_mk]
    by_cases inTarget : (image.wordAt (h + 8)).toNat - 0xc0000000 ≤ a ∧
        a < (image.wordAt (h + 8)).toNat - 0xc0000000 + (image.wordAt (h + 16)).toNat
    · rw [Bytes.splice_inside inTarget.1 inTarget.2, Bytes.splice_inside inTarget.1 inTarget.2,
        Bytes.window_apply, Bytes.window_apply, same _ (by omega), Nat.add_assoc]
      exact buffer _ (by omega)
    · rw [Bytes.splice_outside (by omega), Bytes.splice_outside (by omega)]
      exact same a (by omega)

/-- One round copies the segment, if there is one to take. -/
theorem eachSegment_eq (code : ReturnAddresses) (loading : Loading image m) {ebx : UInt32}
    (header : ebx.toNat = 0x70000 + h) (inBuffer : h + 20 ≤ bufferSize)
    (fits : ∀ seg ∈ segmentAt image h, seg.Fits) :
    ∃ mem', eachSegment code ebx m = some { m with mem := mem' } ∧
      ∀ a, a < 0x8e4 ∨ 0x8fc ≤ a →
        mem' a = (segmentAt image h).toList.foldl (loadSegment image) m.mem a := by
  have size : bufferSize = 102400 := rfl
  obtain ⟨mem, esp, ebp, ecx, gdtr, paging⟩ := m
  obtain ⟨isPaging, paged, isEsp, buffer⟩ := loading
  change paging = _ at isPaging
  change esp = _ at isEsp
  subst isPaging isEsp
  change Paged mem at paged
  change Bytes.SameHead bufferSize (mem.window 0x70000) image at buffer
  have flat : Flat ⟨mem, 0xc00008fc, ebp, ecx, gdtr, some pageDirTable⟩ := .inr ⟨rfl, paged⟩
  have pType : Machine.loadByte ⟨mem, 0xc00008fc, ebp, ecx, gdtr, some pageDirTable⟩ ebx =
      some (image h) :=
    (loadByte_eq flat (.inl header) (by omega)).trans (congrArg some (buffer h (by omega)))
  by_cases skipped : image h = 0 ∨ image.wordAt (h + 8) < 0xc0001500
  · have vaddr := loadHeader_eq (k := 8) flat buffer (fun _ _ => rfl) header (by omega)
    refine ⟨mem, eachSegment_skips code pType vaddr skipped, fun a _ => ?_⟩
    rw [segmentAt, if_pos skipped]
    rfl
  · obtain ⟨notNull, notLow⟩ := not_or.mp skipped
    obtain ⟨seg, isSegment⟩ : ∃ seg, segmentAt image h = some seg := ⟨_, if_neg skipped⟩
    rw [isSegment, Option.toList_some, List.foldl_cons, List.foldl_nil]
    exact eachSegment_copies code paged buffer header inBuffer isSegment (fits seg isSegment)
      pType notNull notLow

theorem foldl_loadSegment_congr (segs : List Segment) {mem mem' : Bytes} (same : mem a = mem' a) :
    segs.foldl (loadSegment image) mem a = segs.foldl (loadSegment image) mem' a := by
  induction segs generalizing mem mem' with
  | nil => exact same
  | cons seg segs inductionHypothesis =>
      rw [List.foldl_cons, List.foldl_cons]
      apply inductionHypothesis
      unfold loadSegment Bytes.splice
      rw [same]

theorem foldl_loadSegment_outside (segs : List Segment) (fits : ∀ seg ∈ segs, seg.Fits)
    (low : ∀ seg ∈ segs, 0xc0001500 ≤ seg.vaddr) (mem : Bytes)
    (outside : a < 0x1500 ∨ 0x70000 ≤ a) :
    segs.foldl (loadSegment image) mem a = mem a := by
  induction segs generalizing mem with
  | nil => rfl
  | cons seg segs inductionHypothesis =>
      have below := (fits seg List.mem_cons_self).below
      have above := low seg List.mem_cons_self
      rw [List.foldl_cons, inductionHypothesis (fun seg member => fits seg (.tail _ member))
        (fun seg member => low seg (.tail _ member)), loadSegment]
      exact Bytes.splice_outside (by omega)

theorem segmentsFrom_low {size left : Nat} (member : seg ∈ segmentsFrom image size left h) :
    0xc0001500 ≤ seg.vaddr := by
  induction left generalizing h with
  | zero => cases member
  | succ left inductionHypothesis =>
      rcases List.mem_append.mp member with first | rest
      · exact segmentAt_low (Option.mem_toList.mp first)
      · exact inductionHypothesis rest

/-- Another memory that holds the buffer and the tables. -/
theorem Loading.step (loading : Loading image m) {mem' : Bytes} {segs : List Segment}
    (fits : ∀ seg ∈ segs, seg.Fits) (low : ∀ seg ∈ segs, 0xc0001500 ≤ seg.vaddr)
    (loads : ∀ a, a < 0x8e4 ∨ 0x8fc ≤ a → mem' a = segs.foldl (loadSegment image) m.mem a)
    (ecx : UInt32) : Loading image { m with mem := mem', ecx := ecx } where
  paging := loading.paging
  paged := loading.paged.congr fun a high =>
    (loads a (by omega)).trans (foldl_loadSegment_outside segs fits low _ (by omega))
  esp := loading.esp
  buffer i small :=
    ((loads _ (by omega)).trans (foldl_loadSegment_outside segs fits low _ (by omega))).trans
      (loading.buffer i small)

/-- The loop goes through the headers and stops behind the last one. -/
theorem segmentLoop_eq (code : ReturnAddresses) {edx : UInt32} {size : Nat}
    (isSize : edx.toNat = size) (left fuel : Nat) {ebx : UInt32} {m : Machine} {h : Nat}
    (loading : Loading image m) (isLeft : m.ecx.toNat = left + 1)
    (header : ebx.toNat = 0x70000 + h)
    (headers : ∀ i ≤ left, h + i * size + 20 ≤ bufferSize)
    (fits : ∀ seg ∈ segmentsFrom image size (left + 1) h, seg.Fits) (enough : left < fuel) :
    ∃ mem', segmentLoop code edx fuel ebx m = some { m with mem := mem', ecx := 0 } ∧
      ∀ a, a < 0x8e4 ∨ 0x8fc ≤ a →
        mem' a = (segmentsFrom image size (left + 1) h).foldl (loadSegment image) m.mem a := by
  have bufferIs : bufferSize = 102400 := rfl
  induction left generalizing fuel ebx m h with
  | zero =>
      obtain ⟨fuel, rfl⟩ := Nat.exists_eq_add_of_lt enough
      have first := headers 0 (Nat.le_refl 0)
      obtain ⟨mem', runs, loads⟩ := eachSegment_eq code loading header (by omega)
        fun seg isSegment => fits seg (List.mem_append_left _ (Option.mem_toList.mpr isSegment))
      have done : m.ecx - 1 = 0 := by
        have one : m.ecx = 1 := UInt32.toNat_inj.mp isLeft
        rw [one]
        rfl
      refine ⟨mem', ?_, ?_⟩
      · rw [segmentLoop, runs]
        simp only [Option.bind_eq_bind, Option.bind_some, done, ne_eq, not_true, if_false]
        rfl
      · intro a off
        rw [loads a off, segmentsFrom, segmentsFrom, List.append_nil]
  | succ left inductionHypothesis =>
      obtain ⟨fuel, rfl⟩ := Nat.exists_eq_add_of_lt enough
      have first := headers 0 (by omega)
      have second := headers 1 (by omega)
      rw [Nat.zero_mul] at first
      rw [Nat.one_mul] at second
      have isFits : ∀ seg ∈ segmentAt image h, seg.Fits := fun seg isSegment =>
        fits seg (List.mem_append_left _ (Option.mem_toList.mpr isSegment))
      obtain ⟨mem₁, runs, loads⟩ := eachSegment_eq code loading header first isFits
      have more : (m.ecx - 1).toNat = left + 1 := by
        have one : (1 : UInt32) ≤ m.ecx :=
          UInt32.le_iff_toNat_le.mpr (by rw [isLeft]; exact Nat.le_add_left 1 _)
        rw [UInt32.toNat_sub_of_le _ _ one, isLeft]
        rfl
      have notDone : m.ecx - 1 ≠ 0 := fun isZero => by rw [isZero] at more; cases more
      have next : (ebx + edx).toNat = 0x70000 + (h + size) := by
        rw [UInt32.toNat_add, header, isSize]
        omega
      have loading₁ := loading.step (fun seg member => isFits seg (Option.mem_toList.mp member))
        (fun seg member => segmentAt_low (Option.mem_toList.mp member)) loads (m.ecx - 1)
      obtain ⟨mem', rest, loads'⟩ := inductionHypothesis (left + 1 + fuel) loading₁ more
        next (fun i small => by
          have header := headers (i + 1) (by omega)
          rw [Nat.add_mul, Nat.one_mul] at header
          omega)
        (fun seg member => fits seg (List.mem_append_right _ member)) (by omega)
      refine ⟨mem', ?_, ?_⟩
      · rw [segmentLoop, runs]
        simp only [Option.bind_eq_bind, Option.bind_some, ne_eq, notDone, not_false_iff, if_true]
        exact rest
      · intro a off
        have split : segmentsFrom image size (left + 1 + 1) h =
            (segmentAt image h).toList ++ segmentsFrom image size (left + 1) (h + size) := rfl
        rw [loads' a off, split, List.foldl_append]
        exact foldl_loadSegment_congr _ (loads a off)

/-- An ELF file whose headers and segments are within what the loader reads, and whose segments go
below the buffer. -/
structure Loadable (image : Bytes) : Prop where
  some : 0 < half image 44
  headers : ∀ i < half image 44,
    (image.wordAt 28).toNat + i * half image 42 + 20 ≤ bufferSize
  fits : ∀ seg ∈ segments image, seg.Fits

theorem half_lt (image : Bytes) (offset : Nat) : half image offset < 2 ^ 16 := by
  have low := (image offset).toNat_lt
  have high := (image (offset + 1)).toNat_lt
  rw [half]
  omega

/-- `kernel_init` copies the segments, the later ones over the earlier ones. -/
theorem kernelInit_eq (code : ReturnAddresses) (loading : Loading image m)
    (loadable : Loadable image) {fuel : Nat} (enough : half image 44 ≤ fuel) :
    ∃ mem', kernelInit code fuel m = some { m with mem := mem', ecx := 0 } ∧
      ∀ a, a < 0x8e4 ∨ 0x8fc ≤ a →
        mem' a = (segments image).foldl (loadSegment image) m.mem a := by
  have bufferIs : bufferSize = 102400 := rfl
  have flat : m.Flat := .inr ⟨loading.paging, loading.paged⟩
  have byte : ∀ k < 102400, m.mem (0x70000 + k) = image k := loading.buffer
  have member : ∀ k, k + 2 ≤ 102400 → m.loadWord (kernelBinBase + UInt32.ofNat k) =
      some (UInt16.ofNat (half image k)) := by
    intro k small
    rw [loadWord_eq flat (Names.add (a := 0x70000) (.inl rfl) (by omega)) (by omega),
      byte k (by omega), Nat.add_assoc, byte (k + 1) (by omega)]
    rfl
  have offset : m.loadDword (kernelBinBase + 28) = some (image.wordAt (0 + 28)) :=
    loadHeader_eq (k := 28) flat loading.buffer (fun _ _ => rfl) rfl (by omega)
  have value : ∀ k, (UInt16.ofNat (half image k)).toUInt32.toNat = half image k := by
    intro k
    rw [UInt16.toNat_toUInt32, UInt16.toNat_ofNat']
    exact Nat.mod_eq_of_lt (half_lt image k)
  obtain ⟨left, isLeft⟩ := Nat.exists_eq_add_of_lt loadable.some
  rw [Nat.zero_add] at isLeft
  have first := loadable.headers 0 loadable.some
  have header : (image.wordAt 28 + kernelBinBase).toNat = 0x70000 + (image.wordAt 28).toNat := by
    rw [UInt32.toNat_add]
    change ((image.wordAt 28).toNat + 0x70000) % 2 ^ 32 = _
    omega
  obtain ⟨mem', runs, loads⟩ := segmentLoop_eq code (value 42) left fuel
    (m := { m with ecx := (UInt16.ofNat (half image 44)).toUInt32 })
    ⟨loading.paging, loading.paged, loading.esp, loading.buffer⟩ ((value 44).trans isLeft) header
    (fun i small => loadable.headers i (by omega))
    (by rw [← isLeft]; exact loadable.fits) (by omega)
  rw [← isLeft] at loads
  refine ⟨mem', ?_, loads⟩
  have size := member 42 (by omega)
  have number := member 44 (by omega)
  rw [kernelInit]
  refine (congrArg (Option.bind · _) size).trans ?_
  refine (congrArg (Option.bind · _) offset).trans ?_
  refine (congrArg (Option.bind · _) number).trans ?_
  exact runs

end Segments

/-- What the disk holds from the kernel's sector on. -/
def kernelImage (disk : Bytes) : Bytes := disk.window (sectorSize * 10)

theorem rdDiskM32_eq (disk floating : Bytes) {m : Machine} (flat : m.Flat) :
    ∃ data, Bytes.SameHead bufferSize data (kernelImage disk) ∧
      rdDiskM32 disk floating kernelStartSector kernelBinBase 200 m =
        some { m with mem := m.mem.splice 0x70000 102400 data } := by
  refine ⟨dataPort disk floating (diskRegs kernelStartSector 200), ?_, ?_⟩
  · have lba : (diskRegs kernelStartSector 200).lba = 10 := by decide
    have count : (diskRegs kernelStartSector 200).count = 200 := by decide
    intro i small
    rw [dataPort, lba, count, kernelImage,
      Bytes.splice_inside (Nat.zero_le i) (by rw [Nat.zero_add, Nat.mul_comm]; exact small)]
    rfl
  · have count : loopCount ((200 : UInt32) &&& 0xffff0000 |||
        ((200 : UInt32).toUInt16 * 256).toUInt32) = 51200 := by decide
    rw [rdDiskM32, count]
    exact goOnReady_eq (b := 0x70000) 51200 _ flat (.inl rfl) (by omega)

/-- Between `p_mode_start` and `enter_kernel`. -/
structure Ready (image : Bytes) (m m' : Machine) : Prop where
  esp : m'.esp = 0xc0000900
  paging : m'.paging = some pageDirTable
  gdtr : m'.gdtr = ⟨m.gdtr.limit, m.gdtr.base + 0xc0000000⟩
  buffer : Bytes.SameHead bufferSize (m'.mem.window 0x70000) image
  low : ∀ a < 0x70000, a < 0x8fc ∨ 0x900 ≤ a → a < 0x91f ∨ 0x923 ≤ a → a < 0xb04 ∨ 0xb0a ≤ a →
    m'.mem a = m.mem a
  tables : ∀ a, 0x100000 ≤ a → m'.mem a = setupPage m.mem a
  video : m'.mem.wordAt 0x91f = m.mem.wordAt 0x91f ||| 0xc0000000

theorem Ready.paged {image : Bytes} {m m' : Machine} (ready : Ready image m m') : Paged m'.mem :=
  (setupPage_paged m.mem).congr ready.tables

section Stages

variable (mem : Bytes) (ebp ecx : UInt32) (gdtr : Gdtr) (limit : UInt16)

theorem call_rdDiskM32_eq (code : ReturnAddresses) (disk floating : Bytes) :
    ∃ mem', Machine.call code.rdDiskM32
        (rdDiskM32 disk floating kernelStartSector kernelBinBase 200)
        ⟨mem, 0x900, ebp, ecx, gdtr, none⟩ = some ⟨mem', 0x900, ebp, ecx, gdtr, none⟩ ∧
      Bytes.SameHead bufferSize (mem'.window 0x70000) (kernelImage disk) ∧
      ∀ a, a < 0x8fc ∨ 0x900 ≤ a → a < 0x70000 ∨ 0x100000 ≤ a → mem' a = mem a := by
  have bufferIs : bufferSize = 102400 := rfl
  obtain ⟨mem₁, pushed, -, word, same⟩ := push_frame 0x8fc 0x8fc
    (.inl rfl : Flat ⟨mem, 0x900, ebp, ecx, gdtr, none⟩)
    (by decide) (.inl (by decide)) (by omega) code.rdDiskM32
  obtain ⟨data, isImage, reads⟩ := rdDiskM32_eq disk floating
    (.inl rfl : Flat ⟨mem₁, 0x8fc, ebp, ecx, gdtr, none⟩)
  obtain ⟨mem', isMem⟩ : ∃ mem', mem₁.splice 0x70000 102400 data = mem' := ⟨_, rfl⟩
  replace reads : rdDiskM32 disk floating kernelStartSector kernelBinBase 200
      ⟨mem₁, 0x8fc, ebp, ecx, gdtr, none⟩ = some ⟨mem', 0x8fc, ebp, ecx, gdtr, none⟩ := by
    rw [reads, ← isMem]
  have kept : mem'.wordAt 0x8fc = code.rdDiskM32 := by
    rw [← isMem, Bytes.wordAt_splice_apart (by omega), word]
  refine ⟨mem', call_eq _ pushed reads (pop_frame 0x900 0x8fc (.inl rfl)
    (by decide) (.inl (by decide)) (by omega) kept), ?_, ?_⟩
  · intro i small
    rw [← isMem, Bytes.window_apply, Bytes.splice_add (by omega)]
    exact isImage i small
  · intro a offStack offBuffer
    rw [← isMem, Bytes.splice_outside (by omega), same a (by omega)]

theorem call_setupPage_eq (code : ReturnAddresses) :
    ∃ mem', Machine.call code.setupPage (fun m => some { m with mem := setupPage m.mem })
        ⟨mem, 0x900, ebp, ecx, gdtr, none⟩ = some ⟨mem', 0x900, ebp, ecx, gdtr, none⟩ ∧
      (∀ a < 0x100000, a < 0x8fc ∨ 0x900 ≤ a → mem' a = mem a) ∧
      ∀ a, 0x100000 ≤ a → mem' a = setupPage mem a := by
  obtain ⟨mem₁, pushed, -, word, same⟩ := push_frame 0x8fc 0x8fc
    (.inl rfl : Flat ⟨mem, 0x900, ebp, ecx, gdtr, none⟩)
    (by decide) (.inl (by decide)) (by omega) code.setupPage
  obtain ⟨mem', isMem⟩ : ∃ mem', setupPage mem₁ = mem' := ⟨_, rfl⟩
  have below : ∀ a < 0x100000, mem' a = mem₁ a := by
    rw [← isMem]
    exact setupPage_local.below mem₁
  have kept : mem'.wordAt 0x8fc = code.setupPage :=
    (Bytes.wordAt_congr fun a _ _ => below a (by omega)).trans word
  have runs : (fun m : Machine => some { m with mem := setupPage m.mem })
      ⟨mem₁, 0x8fc, ebp, ecx, gdtr, none⟩ = some ⟨mem', 0x8fc, ebp, ecx, gdtr, none⟩ := by
    rw [← isMem]
  refine ⟨mem', call_eq (fun m => some { m with mem := setupPage m.mem }) pushed runs
    (pop_frame 0x900 0x8fc (.inl rfl) (by decide) (.inl (by decide)) (by omega)
      kept), ?_, ?_⟩
  · intro a low offStack
    rw [below a low, same a (by omega)]
  · intro a high
    rw [← isMem]
    exact setupPage_local.pointwise mem₁ mem a (same a (by omega))

theorem sgdt_eq : ∃ mem', Machine.sgdt ⟨mem, 0x900, ebp, ecx, ⟨limit, 0x903⟩, none⟩ gdtPtr =
      some ⟨mem', 0x900, ebp, ecx, ⟨limit, 0x903⟩, none⟩ ∧
    (∀ a, a < 0xb04 ∨ 0xb0a ≤ a → mem' a = mem a) ∧
    half mem' 0xb04 = limit.toNat ∧ mem'.wordAt 0xb06 = 0x903 := by
  have flat : ∀ mem, Flat ⟨mem, 0x900, ebp, ecx, ⟨limit, 0x903⟩, none⟩ := fun _ => .inl rfl
  obtain ⟨lo, isLo⟩ : ∃ lo, UInt8.ofNat limit.toNat = lo := ⟨_, rfl⟩
  obtain ⟨hi, isHi⟩ : ∃ hi, UInt8.ofNat (limit.toNat / 256) = hi := ⟨_, rfl⟩
  have putLimit : Machine.storeWord ⟨mem, 0x900, ebp, ecx, ⟨limit, 0x903⟩, none⟩ gdtPtr lo hi =
      some ⟨(mem.splice 0xb04 1 (Bytes.fill lo)).splice 0xb05 1 (Bytes.fill hi), 0x900, ebp, ecx,
        ⟨limit, 0x903⟩, none⟩ := storeWord_eq (a := 0xb04) (flat mem) (.inl rfl) (by omega) lo hi
  obtain ⟨mem₁, isMem₁⟩ : ∃ mem₁, (mem.splice 0xb04 1 (Bytes.fill lo)).splice 0xb05 1
    (Bytes.fill hi) = mem₁ := ⟨_, rfl⟩
  rw [isMem₁] at putLimit
  have limit₁ : mem₁ 0xb04 = lo ∧ mem₁ 0xb05 = hi := by
    rw [← isMem₁]
    exact ⟨rfl, rfl⟩
  have putBase := storeDword_eq (flat mem₁) (.inl rfl : Names none (gdtPtr + 2) 0xb06) (by omega)
    0x903
  refine ⟨mem₁.putWord 0xb06 0x903, ?_, ?_, ?_, Bytes.wordAt_putWord_same⟩
  · rw [Machine.sgdt, isLo, isHi, putLimit]
    exact putBase
  · intro a off
    rw [Bytes.putWord, Bytes.splice_outside (by omega), ← isMem₁, Bytes.splice_outside (by omega),
      Bytes.splice_outside (by omega)]
  · have bound := limit.toNat_lt
    rw [half, Bytes.putWord, Bytes.splice_outside (by omega), Bytes.splice_outside (by omega),
      limit₁.1, limit₁.2, ← isLo, ← isHi, UInt8.toNat_ofNat', UInt8.toNat_ofNat']
    omega

/-- `sgdt`, and the two numbers that are moved to the upper gigabyte. -/
theorem relocateGdt_eq : ∃ mem', relocateGdt ⟨mem, 0x900, ebp, ecx, ⟨limit, 0x903⟩, none⟩ =
      some ⟨mem', 0x900, ebp, ecx, ⟨limit, 0x903⟩, none⟩ ∧
    (∀ a, a < 0x91f ∨ 0x923 ≤ a → a < 0xb04 ∨ 0xb0a ≤ a → mem' a = mem a) ∧
    mem'.wordAt 0x91f = mem.wordAt 0x91f ||| 0xc0000000 ∧
    half mem' 0xb04 = limit.toNat ∧ mem'.wordAt 0xb06 = 0x903 + 0xc0000000 := by
  have flat : ∀ mem, Flat ⟨mem, 0x900, ebp, ecx, ⟨limit, 0x903⟩, none⟩ := fun _ => .inl rfl
  obtain ⟨mem₁, sgdt, same₁, limit₁, base₁⟩ := sgdt_eq mem ebp ecx limit
  -- its base
  have getBase := loadDword_eq (flat mem₁) (.inl rfl : Names none (gdtPtr + 2) 0xb06) (by omega)
  have moveBase := storeDword_eq (flat mem₁) (.inl rfl : Names none (gdtPtr + 2) 0xb06) (by omega)
    (0x903 + 0xc0000000)
  obtain ⟨mem₂, isMem₂⟩ : ∃ mem₂, mem₁.putWord 0xb06 (0x903 + 0xc0000000) = mem₂ := ⟨_, rfl⟩
  -- the descriptor
  have getVideo := loadDword_eq (flat mem₂) (.inl rfl : Names none (0x903 + 0x18 + 4) 0x91f)
    (by omega)
  have putVideo := storeDword_eq (flat mem₂) (.inl rfl : Names none (0x903 + 0x18 + 4) 0x91f)
    (by omega) (mem₂.wordAt 0x91f ||| 0xc0000000)
  obtain ⟨mem', isMem⟩ : ∃ mem', mem₂.putWord 0x91f (mem₂.wordAt 0x91f ||| 0xc0000000) = mem' :=
    ⟨_, rfl⟩
  simp only [isMem₂, isMem, base₁] at getBase moveBase putVideo
  have same₂ : ∀ a, a < 0xb06 ∨ 0xb0a ≤ a → mem₂ a = mem₁ a := by
    intro a off
    rw [← isMem₂, Bytes.putWord, Bytes.splice_outside (by omega)]
  have same : ∀ a, a < 0x91f ∨ 0x923 ≤ a → mem' a = mem₂ a := by
    intro a off
    rw [← isMem, Bytes.putWord, Bytes.splice_outside (by omega)]
  refine ⟨mem', ?_, ?_, ?_, ?_, ?_⟩
  · simp only [relocateGdt, Option.bind_eq_bind]
    rw [sgdt, Option.bind_some, getBase, Option.bind_some, Option.bind_some, moveBase,
      Option.bind_some, getVideo, Option.bind_some]
    exact putVideo
  · intro a offVideo offGdtPtr
    rw [same a offVideo, same₂ a (by omega), same₁ a offGdtPtr]
  · rw [← isMem, Bytes.wordAt_putWord_same]
    refine congrArg (· ||| _) (Bytes.wordAt_congr fun a _ _ => ?_)
    rw [same₂ a (by omega), same₁ a (by omega)]
  · rw [half, same _ (by omega), same _ (by omega), same₂ _ (by omega), same₂ _ (by omega)]
    exact limit₁
  · have moved : mem₂.wordAt 0xb06 = 0x903 + 0xc0000000 := by
      rw [← isMem₂, Bytes.wordAt_putWord_same]
    exact (Bytes.wordAt_congr fun a _ _ => same a (by omega)).trans moved

end Stages

theorem pModeStart_eq (code : ReturnAddresses) (disk floating : Bytes) {m : Machine}
    (isOff : m.paging = none) (gdt : m.gdtr.base = 0x903) :
    ∃ m', pModeStart code disk floating m = some m' ∧ Ready (kernelImage disk) m m' := by
  have bufferIs : bufferSize = 102400 := rfl
  obtain ⟨mem, esp, ebp, ecx, ⟨limit, base⟩, paging⟩ := m
  change paging = none at isOff
  change base = 0x903 at gdt
  subst isOff gdt
  obtain ⟨mem₁, reads, isImage, same₁⟩ := call_rdDiskM32_eq mem ebp ecx ⟨limit, 0x903⟩ code disk
    floating
  obtain ⟨mem₂, sets, low₂, high₂⟩ := call_setupPage_eq mem₁ ebp ecx ⟨limit, 0x903⟩ code
  obtain ⟨mem₃, moves, same₃, video, isLimit, isBase⟩ := relocateGdt_eq mem₂ ebp ecx
    limit
  have tables : ∀ a, 0x100000 ≤ a → mem₃ a = setupPage mem a := by
    intro a high
    rw [same₃ a (by omega) (by omega), high₂ a high]
    exact setupPage_local.pointwise mem₁ mem a (same₁ a (by omega) (by omega))
  have flat : Flat ⟨mem₃, 0xc0000900, ebp, ecx, ⟨limit, 0x903⟩, some pageDirTable⟩ :=
    .inr ⟨rfl, (setupPage_paged mem).congr tables⟩
  have getLimit : Machine.loadWord ⟨mem₃, 0xc0000900, ebp, ecx, ⟨limit, 0x903⟩,
      some pageDirTable⟩ gdtPtr = some limit := by
    refine (loadWord_eq (a := 0xb04) flat (.inl rfl) (by omega)).trans (congrArg some ?_)
    exact (congrArg UInt16.ofNat isLimit).trans UInt16.ofNat_toNat
  have base : (0x903 + 0xc0000000 : UInt32) = 0xc0000903 := by decide
  rw [base] at isBase
  have getBase : Machine.loadDword ⟨mem₃, 0xc0000900, ebp, ecx, ⟨limit, 0x903⟩,
      some pageDirTable⟩ (gdtPtr + 2) = some 0xc0000903 :=
    (loadDword_eq (a := 0xb06) flat (.inl rfl) (by omega)).trans (congrArg some isBase)
  refine ⟨⟨mem₃, 0xc0000900, ebp, ecx, ⟨limit, 0xc0000903⟩, some pageDirTable⟩, ?_, ?_⟩
  · have stack : (0x900 + 0xc0000000 : UInt32) = 0xc0000900 := by decide
    simp only [pModeStart, Option.bind_eq_bind]
    rw [reads, Option.bind_some, sets, Option.bind_some, moves, Option.bind_some, stack,
      Machine.lgdt, getLimit]
    exact congrArg (Option.bind · _) getBase
  · constructor
    case esp => rfl
    case paging => rfl
    case gdtr =>
      change Gdtr.mk limit 0xc0000903 = Gdtr.mk limit (0x903 + 0xc0000000)
      rw [base]
    case tables => exact tables
    case buffer =>
      intro i small
      change mem₃ (0x70000 + i) = _
      rw [same₃ _ (by omega) (by omega), low₂ _ (by omega) (by omega)]
      exact isImage i small
    case low =>
      intro a below offStack offVideo offGdtPtr
      exact (same₃ a offVideo offGdtPtr).trans
        ((low₂ a (by omega) offStack).trans (same₁ a offStack (by omega)))
    case video =>
      refine video.trans (congrArg (· ||| _) (Bytes.wordAt_congr fun a _ _ => ?_))
      exact (low₂ a (by omega) (by omega)).trans (same₁ a (by omega) (by omega))

/-- The state in which the kernel starts, by the state at `p_mode_start`. -/
structure KernelEntered (image : Bytes) (m m' : Machine) : Prop where
  stack : m'.esp = 0xc009f000
  paging : m'.paging = some pageDirTable
  gdtr : m'.gdtr = ⟨m.gdtr.limit, m.gdtr.base + 0xc0000000⟩
  mapped : ∀ vaddr, Mapped vaddr → m'.physical vaddr = some (UInt32.ofNat (vaddr.toNat % 2 ^ 30))
  /-- What no segment covers is as before, `.bss` too. -/
  kernel : ∀ a, 0x1500 ≤ a → a < 0x70000 →
    m'.mem a = (segments image).foldl (loadSegment image) m.mem a
  tables : ∀ a, 0x100000 ≤ a → m'.mem a = setupPage m.mem a
  /-- The loader itself, with its `total_mem_bytes`. -/
  loader : ∀ a, 0x900 ≤ a → a < 0x1500 → a < 0x91f ∨ 0x923 ≤ a → a < 0xb04 ∨ 0xb0a ≤ a →
    m'.mem a = m.mem a
  video : m'.mem.wordAt 0x91f = m.mem.wordAt 0x91f ||| 0xc0000000

theorem enterKernel_eq (code : ReturnAddresses) {image : Bytes} {m₀ m : Machine} {fuel : Nat}
    (ready : Ready image m₀ m) (loadable : Loadable image) (enough : half image 44 ≤ fuel) :
    ∃ m', enterKernel code fuel m = some m' ∧ KernelEntered image m₀ m' := by
  have bufferIs : bufferSize = 102400 := rfl
  have paged := ready.paged
  obtain ⟨mem, esp, ebp, ecx, gdtr, paging⟩ := m
  obtain ⟨isEsp, isPaging, isGdtr, buffer, low, tables, video⟩ := ready
  change esp = _ at isEsp
  change paging = _ at isPaging
  subst isEsp isPaging
  replace low : ∀ a < 0x70000, a < 0x8fc ∨ 0x900 ≤ a → a < 0x91f ∨ 0x923 ≤ a →
    a < 0xb04 ∨ 0xb0a ≤ a → mem a = m₀.mem a := low
  obtain ⟨mem₁, pushed, flat₁, word₁, same₁⟩ := push_frame 0xc00008fc 0x8fc
    (.inr ⟨rfl, paged⟩ : Flat ⟨mem, 0xc0000900, ebp, ecx, gdtr, some pageDirTable⟩) (by decide)
    (.high (by decide)) (by omega) code.kernelInit
  have loading : Loading image ⟨mem₁, 0xc00008fc, ebp, ecx, gdtr, some pageDirTable⟩ := {
    paging := rfl
    paged := paged.congr fun a _ => same₁ a (by omega)
    esp := rfl
    buffer := fun i small => (same₁ _ (by omega)).trans (buffer i small) }
  obtain ⟨mem', runs, loads⟩ := kernelInit_eq code loading loadable enough
  replace runs : kernelInit code fuel ⟨mem₁, 0xc00008fc, ebp, ecx, gdtr, some pageDirTable⟩ =
    some ⟨mem', 0xc00008fc, ebp, 0, gdtr, some pageDirTable⟩ := runs
  replace loads : ∀ a, a < 0x8e4 ∨ 0x8fc ≤ a →
    mem' a = (segments image).foldl (loadSegment image) mem₁ a := loads
  have outside : ∀ a, a < 0x1500 ∨ 0x70000 ≤ a → a < 0x8e4 ∨ 0x8fc ≤ a → mem' a = mem₁ a :=
    fun a off offStack => (loads a offStack).trans
      (foldl_loadSegment_outside _ loadable.fits (fun seg => segmentsFrom_low) _ off)
  have kept : mem'.wordAt 0x8fc = code.kernelInit :=
    (Bytes.wordAt_congr fun a _ _ => outside a (by omega) (by omega)).trans word₁
  have paged' : Paged mem' := paged.congr fun a _ =>
    (outside a (by omega) (by omega)).trans (same₁ a (by omega))
  have call := call_eq _ pushed runs (pop_frame 0xc0000900 0x8fc
    (.inr ⟨rfl, paged'⟩) (by decide) (.high (by decide)) (by omega) kept)
  refine ⟨⟨mem', 0xc009f000, ebp, 0, gdtr, some pageDirTable⟩, ?_, ?_⟩
  · rw [enterKernel, call]
    rfl
  · constructor
    case stack => rfl
    case paging => rfl
    case gdtr => exact isGdtr
    case mapped => exact fun vaddr isMapped => paged'.translate isMapped
    case kernel =>
      intro a above below
      exact (loads a (by omega)).trans (foldl_loadSegment_congr _
        ((same₁ a (by omega)).trans (low a (by omega) (by omega) (by omega) (by omega))))
    case tables =>
      intro a high
      exact (outside a (by omega) (by omega)).trans ((same₁ a (by omega)).trans (tables a high))
    case loader =>
      intro a above below offVideo offGdtPtr
      exact (outside a (by omega) (by omega)).trans ((same₁ a (by omega)).trans
        (low a (by omega) (by omega) offVideo offGdtPtr))
    case video =>
      refine (Bytes.wordAt_congr fun a _ _ => ?_).trans video
      exact (outside a (by omega) (by omega)).trans (same₁ a (by omega))

/-- Whatever memory holds: from `p_mode_start` the loader gets to the kernel's entry point, with its
segments where the processor finds their addresses, and with everything else as it was. -/
theorem loader_enters_kernel (code : ReturnAddresses) (disk floating : Bytes) (fuel : Nat)
    (m : Machine) (isOff : m.paging = none) (gdt : m.gdtr.base = 0x903)
    (loadable : Loadable (kernelImage disk)) (enough : half (kernelImage disk) 44 ≤ fuel) :
    ∃ m', (pModeStart code disk floating m).bind (enterKernel code fuel) = some m' ∧
      KernelEntered (kernelImage disk) m m' := by
  obtain ⟨m₁, starts, ready⟩ := pModeStart_eq code disk floating isOff gdt
  obtain ⟨m', enters, entered⟩ := enterKernel_eq code ready loadable enough
  refine ⟨m', ?_, entered⟩
  rw [starts, Option.bind_some, enters]

/-- An ELF file with one segment, of the two bytes of `jmp $`. -/
def jumpToSelf : List UInt8 :=
  [0x7f, 0x45, 0x4c, 0x46, 1, 1, 1, 0, 0, 0, 0, 0, 0, 0, 0, 0,
    2, 0, 3, 0, 1, 0, 0, 0, 0x00, 0x15, 0x00, 0xc0, 52, 0, 0, 0,
    0, 0, 0, 0, 0, 0, 0, 0, 52, 0, 32, 0, 1, 0, 0, 0, 0, 0, 0, 0,
    1, 0, 0, 0, 84, 0, 0, 0, 0x00, 0x15, 0x00, 0xc0, 0x00, 0x15, 0x00, 0xc0,
    2, 0, 0, 0, 6, 0, 0, 0, 5, 0, 0, 0, 0, 0x10, 0, 0, 0xeb, 0xfe]

/-- A disk with this file from the kernel's sector on. -/
def diskWithJump : Bytes := fun a => jumpToSelf.getD (a - 5120) 0

theorem loadable_jumpToSelf : Loadable (kernelImage diskWithJump) := by
  have number : half (kernelImage diskWithJump) 44 = 1 := by decide
  have offset : ((kernelImage diskWithJump).wordAt 28).toNat = 52 := by decide
  have size : half (kernelImage diskWithJump) 42 = 32 := by decide
  have only : segments (kernelImage diskWithJump) = [⟨0xc0001500, 2, 84⟩] := by decide
  constructor
  case some => rw [number]; exact Nat.one_pos
  case headers =>
    intro i small
    rw [number] at small
    rw [offset, size, Nat.lt_one_iff.mp small]
    decide
  case fits =>
    rw [only]
    intro seg member
    rw [List.mem_singleton.mp member]
    exact ⟨by decide, by decide⟩

/-- With other bytes all over memory: the two bytes arrive, and the byte behind them stays. -/
theorem loader_enters_kernel_jump : ∃ m',
    (pModeStart ⟨0x1000, 0x1005, 0x100a, 0x1050⟩ diskWithJump (Bytes.fill 0)
      ⟨Bytes.fill 0xcc, 0x7c00, 0, 0, ⟨31, 0x903⟩, none⟩).bind
        (enterKernel ⟨0x1000, 0x1005, 0x100a, 0x1050⟩ 1) = some m' ∧
      m'.mem 0x1500 = 0xeb ∧ m'.mem 0x1501 = 0xfe ∧ m'.mem 0x1502 = 0xcc := by
  have number : half (kernelImage diskWithJump) 44 = 1 := by decide
  have only : segments (kernelImage diskWithJump) = [⟨0xc0001500, 2, 84⟩] := by decide
  obtain ⟨m', runs, entered⟩ := loader_enters_kernel ⟨0x1000, 0x1005, 0x100a, 0x1050⟩ diskWithJump
    (Bytes.fill 0) 1 ⟨Bytes.fill 0xcc, 0x7c00, 0, 0, ⟨31, 0x903⟩, none⟩ rfl rfl loadable_jumpToSelf
    number.le
  have bytes : ∀ a, 0x1500 ≤ a → a < 0x70000 → m'.mem a =
      (Bytes.fill 0xcc).splice 0x1500 2 ((kernelImage diskWithJump).window 84) a := by
    intro a above below
    rw [entered.kernel a above below, only, List.foldl_cons, List.foldl_nil, loadSegment_mk]
  refine ⟨m', runs, ?_, ?_, ?_⟩
  · rw [bytes _ (by omega) (by omega), Bytes.splice_inside (by omega) (by omega)]
    decide
  · rw [bytes _ (by omega) (by omega), Bytes.splice_inside (by omega) (by omega)]
    decide
  · rw [bytes _ (by omega) (by omega), Bytes.splice_outside (by omega)]
    rfl

end HongbaiOS.Kernel.PMode
