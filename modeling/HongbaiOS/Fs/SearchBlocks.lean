import HongbaiOS.Fs.SlotSearch

/-!
# Which blocks a directory search reads

`search_dir_entry` walks over 140 words of an array from `sys_malloc`.  It fills the last 128
of them only if the inode has an indirect table, and `sys_malloc` clears nothing: its `memset`
has length and value exchanged.  Here the search is compared with one over the blocks that the
inode owns, and the sectors it reads are listed.
-/

namespace HongbaiOS.Fs

open HongbaiOS.Library HongbaiOS.Kernel HongbaiOS.Device

/-- The sectors that `searchBlocks` passes to `ide_read`, in order. -/
def searchBlocksReads (disk : Bytes) (allBlock : Nat → UInt32) (name : CString)
    (dirEntryCnt : Nat) : (left blockIdx : Nat) → Bytes → List UInt32
  | 0, _, _ => []
  | left + 1, blockIdx, buf =>
      if allBlock blockIdx = 0 then
        searchBlocksReads disk allBlock name dirEntryCnt left (blockIdx + 1) buf
      else
        allBlock blockIdx ::
          match ideRead disk (allBlock blockIdx).toNat buf 1 with
          | .error _ => []
          | .ok buf =>
              match searchBlock buf name dirEntryCnt 0 with
              | some _ => []
              | none =>
                  searchBlocksReads disk allBlock name dirEntryCnt left (blockIdx + 1)
                    (buf.splice 0 512 (Bytes.fill 0))

/-- The sectors that `search_dir_entry` passes to `ide_read`, in order. -/
def searchDirEntryReads (part : Partition) (inode : Inode) (name : CString)
    (allBlock : Option (Nat → UInt32)) (buf : Bytes) : List UInt32 :=
  match allBlock with
  | none => []
  | some junk =>
      let allBlock := inode.directBlocks junk
      let words := Bytes.ofWords fun k => allBlock (k + 12)
      let dirEntryCnt := (512 / part.sb.dirEntrySize).toNat
      let searchFrom (table : Bytes) : List UInt32 :=
        searchBlocksReads part.myDisk (inode.directBlocks fun k => table.word (k - 12)) name
          dirEntryCnt 140 0 buf
      if inode.iSectors 12 ≠ 0 then
        inode.iSectors 12 ::
          match ideRead part.myDisk (inode.iSectors 12).toNat words 1 with
          | .error _ => []
          | .ok table => searchFrom table
      else searchFrom words

/-- The entries of the block at `lba`. -/
def blockEntries (disk : Bytes) (lba : UInt32) : List DirEntry :=
  (List.range 21).map fun idx => DirEntry.ofBytes (slot (disk.window (512 * lba.toNat)) idx)

/-- The first entry of a block with the name. -/
def blockEntry (disk : Bytes) (name : CString) (lba : UInt32) : Option DirEntry :=
  (blockEntries disk lba).find? fun entry => entry.name.chars = name.chars

/-- The first entry with the name in a list of blocks. -/
def firstEntry (disk : Bytes) (name : CString) (blocks : List UInt32) : Option DirEntry :=
  blocks.findSome? (blockEntry disk name)

def Inode.directPointers (inode : Inode) : List UInt32 :=
  List.ofFn fun k : Fin 12 => inode.iSectors k.castSucc

/-- The words of the indirect table, if there is one. -/
def Inode.tablePointers (disk : Bytes) (inode : Inode) : List UInt32 :=
  if inode.iSectors 12 = 0 then []
  else (List.range 128).map (blockWord disk (inode.iSectors 12))

/-- The blocks that an inode owns, in their order. -/
def Inode.ownedBlocks (disk : Bytes) (inode : Inode) : List UInt32 :=
  (inode.directPointers ++ inode.tablePointers disk).filter (· ≠ 0)

/-- `search_dir_entry` finds the first entry with the name in the blocks of the directory, or
none if there is none, and reads nothing but these blocks and the table. -/
structure SearchRight (part : Partition) (inode : Inode) (name : CString) (junk : Nat → UInt32)
    (buf : Bytes) : Prop where
  found : searchDirEntry part inode name (some junk) buf =
    .ok (firstEntry part.myDisk name (inode.ownedBlocks part.myDisk))
  reads : ∀ lba ∈ searchDirEntryReads part inode name (some junk) buf,
    lba ∈ inode.ownedBlocks part.myDisk ∨ inode.iSectors 12 ≠ 0 ∧ lba = inode.iSectors 12

section Entries

variable {disk buf : Bytes} {name : CString} {lba : UInt32}

theorem searchBlock_eq_find? (short : strlen name < maxFileNameLen) (left start : Nat) :
    searchBlock buf name left start =
      ((List.range' start left).map fun idx => DirEntry.ofBytes (slot buf idx)).find?
        fun entry => entry.name.chars = name.chars := by
  induction left generalizing start with
  | zero => rfl
  | succ left inductionHypothesis =>
      rw [searchBlock, List.range'_succ, List.map_cons]
      by_cases named : (DirEntry.ofBytes (slot buf start)).name.chars = name.chars
      · rw [if_pos ((strcmp_short_iff _ short).mpr named),
          List.find?_cons_of_pos (by simpa using named)]
      · rw [if_neg ((strcmp_short_iff _ short).not.mpr named),
          List.find?_cons_of_neg (by simpa using named)]
        exact inductionHypothesis (start + 1)

theorem searchBlock_readInto (buf : Bytes) (short : strlen name < maxFileNameLen) :
    searchBlock (readInto buf disk lba) name 21 0 = blockEntry disk name lba := by
  rw [searchBlock_eq_find? short, blockEntry, blockEntries, List.range_eq_range']
  congr 1
  refine List.map_congr_left fun idx inBlock => ?_
  rw [List.mem_range'_1] at inBlock
  exact ofBytes_dirEntry_congr (slot_readInto buf disk lba (by omega))

end Entries

/-- The search over a list of blocks. -/
def searchIn (disk : Bytes) (name : CString) : List UInt32 → Except Halt (Option DirEntry)
  | [] => .ok none
  | lba :: rest =>
      if lba.toNat ≤ maxLba then
        match blockEntry disk name lba with
        | some found => .ok (some found)
        | none => searchIn disk name rest
      else .error (.panic .ideRead)

def readsIn (disk : Bytes) (name : CString) : List UInt32 → List UInt32
  | [] => []
  | lba :: rest =>
      lba :: if lba.toNat ≤ maxLba ∧ blockEntry disk name lba = none then readsIn disk name rest
        else []

/-- The pointers in use among `left` ones from `blockIdx` on. -/
def inUse (allBlock : Nat → UInt32) (blockIdx left : Nat) : List UInt32 :=
  ((List.range' blockIdx left).map allBlock).filter (· ≠ 0)

section Walk

variable {disk : Bytes} {name : CString}

theorem inUse_succ (allBlock : Nat → UInt32) (blockIdx left : Nat) :
    inUse allBlock blockIdx (left + 1) =
      if allBlock blockIdx = 0 then inUse allBlock (blockIdx + 1) left
      else allBlock blockIdx :: inUse allBlock (blockIdx + 1) left := by
  rw [inUse, List.range'_succ, List.map_cons, List.filter_cons]
  by_cases unused : allBlock blockIdx = 0
  · simp [unused, inUse]
  · simp [unused, inUse]

theorem ideRead_beyond {buf : Bytes} {lba : Nat} (beyond : ¬ lba ≤ maxLba) (secCnt : UInt8) :
    ideRead disk lba buf secCnt = .error (.panic .ideRead) := by
  simp [ideRead, check, beyond]

theorem searchBlocks_eq_searchIn (short : strlen name < maxFileNameLen)
    (allBlock : Nat → UInt32) (left blockIdx : Nat) (buf : Bytes) :
    searchBlocks disk allBlock name 21 left blockIdx buf =
        searchIn disk name (inUse allBlock blockIdx left) ∧
      searchBlocksReads disk allBlock name 21 left blockIdx buf =
        readsIn disk name (inUse allBlock blockIdx left) := by
  induction left generalizing blockIdx buf with
  | zero => exact ⟨rfl, rfl⟩
  | succ left inductionHypothesis =>
      rw [searchBlocks, searchBlocksReads, inUse_succ]
      split
      next => exact inductionHypothesis (blockIdx + 1) buf
      next =>
        rw [searchIn, readsIn]
        by_cases addressed : (allBlock blockIdx).toNat ≤ maxLba
        · have inBlock : searchBlock (readInto buf disk (allBlock blockIdx)) name 21 0 = _ :=
            searchBlock_readInto buf short
          have read : ideRead disk (allBlock blockIdx).toNat buf 1 =
            .ok (readInto buf disk (allBlock blockIdx)) := ideRead_eq addressed (by decide)
          generalize readInto buf disk (allBlock blockIdx) = buf' at inBlock read
          obtain ⟨same, sameReads⟩ := inductionHypothesis (blockIdx + 1)
            (buf'.splice 0 512 (Bytes.fill 0))
          rw [read, ok_bind, if_pos addressed, inBlock]
          dsimp only
          rw [inBlock]
          cases found : blockEntry disk name (allBlock blockIdx) with
          | some entry => simp
          | none => exact ⟨same, by rw [if_pos ⟨addressed, rfl⟩, sameReads]⟩
        · simp [ideRead_beyond addressed, addressed]

theorem readsIn_subset (blocks : List UInt32) : ∀ lba ∈ readsIn disk name blocks, lba ∈ blocks := by
  induction blocks with
  | nil => exact fun lba none => none
  | cons first rest inductionHypothesis =>
      intro lba isRead
      rw [readsIn, List.mem_cons] at isRead
      rcases isRead with rfl | later
      · exact List.mem_cons_self
      · split at later
        next => exact List.mem_cons_of_mem first (inductionHypothesis lba later)
        next => cases later

/-- Every block that is reached lies on the disk. -/
def ReachedOnDisk (disk : Bytes) (name : CString) (blocks : List UInt32) : Prop :=
  ∀ front lba back, blocks = front ++ lba :: back → firstEntry disk name front = none →
    lba.toNat ≤ maxLba

theorem reachedOnDisk_cons {lba : UInt32} {rest : List UInt32} :
    ReachedOnDisk disk name (lba :: rest) ↔
      lba.toNat ≤ maxLba ∧ (blockEntry disk name lba = none → ReachedOnDisk disk name rest) := by
  constructor
  · intro onDisk
    refine ⟨onDisk [] lba rest rfl rfl, fun absent front lba' back cut none => ?_⟩
    refine onDisk (lba :: front) lba' back (by rw [cut, List.cons_append]) ?_
    rw [firstEntry, List.findSome?_cons, absent]
    exact none
  · rintro ⟨addressed, later⟩ front lba' back cut none
    cases front with
    | nil =>
        obtain ⟨rfl, -⟩ := List.cons.inj cut
        exact addressed
    | cons first front =>
        obtain ⟨rfl, cut'⟩ := List.cons.inj cut
        rw [firstEntry, List.findSome?_eq_none_iff] at none
        refine later (none _ List.mem_cons_self) front lba' back cut' ?_
        rw [firstEntry, List.findSome?_eq_none_iff]
        exact fun b inFront => none b (List.mem_cons_of_mem _ inFront)

theorem searchIn_eq_ok {result : Option DirEntry} {blocks : List UInt32} :
    searchIn disk name blocks = .ok result ↔
      ReachedOnDisk disk name blocks ∧ result = firstEntry disk name blocks := by
  induction blocks with
  | nil =>
      rw [searchIn, Except.ok.injEq, eq_comm]
      exact (and_iff_right fun front lba back cut => by simp at cut).symm
  | cons lba rest inductionHypothesis =>
      rw [searchIn, reachedOnDisk_cons, firstEntry, List.findSome?_cons]
      by_cases addressed : lba.toNat ≤ maxLba
      · rw [if_pos addressed]
        cases found : blockEntry disk name lba with
        | some entry => simp [addressed, eq_comm]
        | none => simpa [addressed, firstEntry] using inductionHypothesis
      · simp [addressed]

theorem firstEntry_append (blocks more : List UInt32) :
    firstEntry disk name (blocks ++ more) =
      (firstEntry disk name blocks).or (firstEntry disk name more) := List.findSome?_append

theorem firstEntry_eq_none {blocks : List UInt32} :
    firstEntry disk name blocks = none ↔ ∀ lba ∈ blocks, blockEntry disk name lba = none :=
  List.findSome?_eq_none_iff

theorem reachedOnDisk_append (blocks more : List UInt32) :
    ReachedOnDisk disk name (blocks ++ more) ↔
      ReachedOnDisk disk name blocks ∧
        (firstEntry disk name blocks = none → ReachedOnDisk disk name more) := by
  induction blocks with
  | nil =>
      have nothing : ReachedOnDisk disk name [] := fun front lba back cut => by simp at cut
      exact ⟨fun onDisk => ⟨nothing, fun _ => onDisk⟩, fun both => both.2 rfl⟩
  | cons lba rest inductionHypothesis =>
      rw [List.cons_append, reachedOnDisk_cons, reachedOnDisk_cons, inductionHypothesis,
        firstEntry_eq_none, firstEntry_eq_none, List.forall_mem_cons]
      tauto

theorem mem_readsIn {lba : UInt32} {blocks : List UInt32} :
    lba ∈ readsIn disk name blocks ↔ ∃ front back, blocks = front ++ lba :: back ∧
      firstEntry disk name front = none ∧ ReachedOnDisk disk name front := by
  induction blocks with
  | nil => simp [readsIn]
  | cons first rest inductionHypothesis =>
      rw [readsIn, List.mem_cons]
      constructor
      · rintro (rfl | later)
        · exact ⟨[], rest, rfl, rfl, fun front lba' back cut => by simp at cut⟩
        · split at later
          next passed =>
            obtain ⟨front, back, rfl, none, onDisk⟩ := inductionHypothesis.mp later
            refine ⟨first :: front, back, rfl, ?_, ?_⟩
            · rw [firstEntry_eq_none] at none ⊢
              exact List.forall_mem_cons.mpr ⟨passed.2, none⟩
            · exact reachedOnDisk_cons.mpr ⟨passed.1, fun _ => onDisk⟩
          next => cases later
      · rintro ⟨front, back, cut, none, onDisk⟩
        cases front with
        | nil => exact Or.inl (List.cons.inj cut).1.symm
        | cons first' front =>
            obtain ⟨rfl, rfl⟩ := List.cons.inj cut
            obtain ⟨addressed, later⟩ := reachedOnDisk_cons.mp onDisk
            rw [firstEntry_eq_none, List.forall_mem_cons] at none
            rw [if_pos ⟨addressed, none.1⟩]
            exact Or.inr (inductionHypothesis.mpr
              ⟨front, back, rfl, firstEntry_eq_none.mpr none.2, later none.1⟩)

/-- Where further blocks follow, the search gives the same result and reads only the first
ones exactly if these lie on the disk and, unless the name is there, include the others. -/
theorem searchIn_more_iff (blocks more : List UInt32) :
    (searchIn disk name (blocks ++ more) = .ok (firstEntry disk name blocks) ∧
        ∀ lba ∈ readsIn disk name (blocks ++ more), lba ∈ blocks) ↔
      ReachedOnDisk disk name blocks ∧
        (firstEntry disk name blocks = none → ∀ lba ∈ more, lba ∈ blocks) := by
  rw [searchIn_eq_ok, reachedOnDisk_append, firstEntry_append]
  constructor
  · rintro ⟨⟨⟨onDisk, later⟩, same⟩, reads⟩
    refine ⟨onDisk, fun none lba inMore => reads lba (mem_readsIn.mpr ?_)⟩
    obtain ⟨front, back, rfl⟩ := List.append_of_mem inMore
    rw [none, Option.none_or, firstEntry_append] at same
    have before : firstEntry disk name front = Option.none :=
      (Option.or_eq_none_iff.mp same.symm).1
    refine ⟨blocks ++ front, back, by rw [List.append_assoc], ?_, ?_⟩
    · rw [firstEntry_append, none, before, Option.none_or]
    · exact (reachedOnDisk_append blocks front).mpr
        ⟨onDisk, fun _ => ((reachedOnDisk_append front _).mp (later none)).1⟩
  · rintro ⟨onDisk, included⟩
    cases found : firstEntry disk name blocks with
    | some entry =>
        refine ⟨⟨⟨onDisk, nofun⟩, rfl⟩, fun lba isRead => ?_⟩
        obtain ⟨front, back, cut, none, -⟩ := mem_readsIn.mp isRead
        rcases List.append_eq_append_iff.mp cut with ⟨rest, rfl, -⟩ | ⟨rest, rfl, cut'⟩
        · rw [firstEntry_append, found, Option.some_or] at none
          cases none
        · cases rest with
          | nil =>
              rw [List.append_nil, none] at found
              cases found
          | cons first rest =>
              obtain ⟨rfl, -⟩ := List.cons.inj cut'
              exact List.mem_append_right front List.mem_cons_self
    | none =>
        have absent := firstEntry_eq_none.mp found
        have addressed : ∀ lba ∈ blocks, lba.toNat ≤ maxLba := by
          intro lba inBlocks
          obtain ⟨front, back, rfl⟩ := List.append_of_mem inBlocks
          refine onDisk front lba back rfl (firstEntry_eq_none.mpr fun b inFront => ?_)
          exact absent b (List.mem_append_left _ inFront)
        have passed : firstEntry disk name more = none :=
          firstEntry_eq_none.mpr fun lba inMore => absent lba (included found lba inMore)
        refine ⟨⟨⟨onDisk, fun _ => ?_⟩, by rw [passed, Option.none_or]⟩, fun lba isRead => ?_⟩
        · intro front lba back cut _
          exact addressed lba (included found lba (by rw [cut]; simp))
        · rcases List.mem_append.mp (readsIn_subset _ lba isRead) with inBlocks | inMore
          · exact inBlocks
          · exact included found lba inMore

end Walk

/-- The words of the array that are in use although `search_dir_entry` has not filled them. -/
def Inode.leftovers (inode : Inode) (junk : Nat → UInt32) : List UInt32 :=
  if inode.iSectors 12 = 0 then ((List.range 128).map fun k => junk (k + 12)).filter (· ≠ 0)
  else []

section Whole

variable {part : Partition} {inode : Inode} {name : CString}

/-- The pointers that the loop goes through. -/
theorem inUse_directBlocks (inode : Inode) (rest : Nat → UInt32) :
    inUse (inode.directBlocks rest) 0 140 =
      (inode.directPointers ++ (List.range 128).map fun k => rest (k + 12)).filter (· ≠ 0) := by
  have cut : List.range' 0 140 = List.range' 0 12 ++ List.range' 12 128 := by
    rw [List.range'_append]
  have direct : (List.range' 0 12).map (inode.directBlocks rest) = inode.directPointers := rfl
  have indirect : (List.range' 12 128).map (inode.directBlocks rest) =
      (List.range 128).map fun k => rest (k + 12) := by
    rw [List.range'_eq_map_range, List.map_map]
    refine List.map_congr_left fun k _ => ?_
    rw [Function.comp_apply, Nat.add_comm, Inode.directBlocks, dif_neg (by omega)]
  rw [inUse, cut, List.map_append, direct, indirect]

theorem pointers_of_noTable (disk : Bytes) (noTable : inode.iSectors 12 = 0)
    (junk : Nat → UInt32) :
    inUse (inode.directBlocks fun k =>
      (Bytes.ofWords fun k => inode.directBlocks junk (k + 12)).word (k - 12)) 0 140 =
      inode.ownedBlocks disk ++ inode.leftovers junk := by
  have words : ∀ k ∈ List.range 128,
      (Bytes.ofWords fun k => inode.directBlocks junk (k + 12)).word (k + 12 - 12) =
        junk (k + 12) := by
    intro k _
    rw [Nat.add_sub_cancel, Bytes.word_ofWords, Inode.directBlocks, dif_neg (by omega)]
  rw [inUse_directBlocks, Inode.ownedBlocks, Inode.tablePointers, Inode.leftovers, if_pos noTable,
    if_pos noTable, List.append_nil, ← List.filter_append, List.map_congr_left words]

theorem pointers_of_table {disk : Bytes} (hasTable : inode.iSectors 12 ≠ 0)
    (junk : Nat → UInt32) (words : Bytes) :
    inUse (inode.directBlocks fun k =>
      (readInto words disk (inode.iSectors 12)).word (k - 12)) 0 140 =
      inode.ownedBlocks disk ++ inode.leftovers junk := by
  have sector : Bytes.SameHead 512 (readInto words disk (inode.iSectors 12))
      (disk.window (512 * (inode.iSectors 12).toNat)) :=
    fun a inside => Bytes.splice_inside (Nat.zero_le a) (by simpa using inside)
  have table : ∀ k ∈ List.range 128,
      (readInto words disk (inode.iSectors 12)).word (k + 12 - 12) =
        blockWord disk (inode.iSectors 12) k := by
    intro k inTable
    rw [List.mem_range] at inTable
    rw [Nat.add_sub_cancel, blockWord, Bytes.word_congr sector (by omega)]
  rw [inUse_directBlocks, Inode.ownedBlocks, Inode.tablePointers, Inode.leftovers,
    if_neg hasTable, if_neg hasTable, List.append_nil, List.map_congr_left table]

theorem searchDirEntry_eq_searchIn (sizes : part.sb.dirEntrySize = 24)
    (short : strlen name < maxFileNameLen) (addressed : (inode.iSectors 12).toNat ≤ maxLba)
    (junk : Nat → UInt32) (buf : Bytes) :
    searchDirEntry part inode name (some junk) buf =
        searchIn part.myDisk name (inode.ownedBlocks part.myDisk ++ inode.leftovers junk) ∧
      searchDirEntryReads part inode name (some junk) buf =
        (if inode.iSectors 12 ≠ 0 then [inode.iSectors 12] else []) ++
          readsIn part.myDisk name (inode.ownedBlocks part.myDisk ++ inode.leftovers junk) := by
  have perBlock : (512 / part.sb.dirEntrySize).toNat = 21 := by
    rw [sizes]
    rfl
  rw [searchDirEntry, searchDirEntryReads]
  dsimp only
  rw [perBlock]
  by_cases noTable : inode.iSectors 12 = 0
  · have unused : ¬ inode.iSectors 12 ≠ 0 := not_not.mpr noTable
    rw [if_neg unused, if_neg unused, if_neg unused, pure_eq_ok, ok_bind,
      ← pointers_of_noTable part.myDisk noTable junk]
    exact searchBlocks_eq_searchIn short _ 140 0 buf
  · have read : ideRead part.myDisk (inode.iSectors 12).toNat
        (Bytes.ofWords fun k => inode.directBlocks junk (k + 12)) 1 = _ :=
      ideRead_eq addressed (by decide)
    rw [if_pos noTable, if_pos noTable, if_pos noTable, read, ok_bind,
      ← pointers_of_table noTable junk (Bytes.ofWords fun k => inode.directBlocks junk (k + 12))]
    refine ⟨(searchBlocks_eq_searchIn short _ 140 0 buf).1, ?_⟩
    exact congrArg _ (searchBlocks_eq_searchIn short _ 140 0 buf).2

/-- `search_dir_entry` is right exactly if the blocks that it reaches lie on the disk and, for
a directory without indirect table that lacks the name, every word left in the array is 0 or
one of its blocks. -/
theorem searchRight_iff (sizes : part.sb.dirEntrySize = 24)
    (short : strlen name < maxFileNameLen) (junk : Nat → UInt32) (buf : Bytes) :
    SearchRight part inode name junk buf ↔
      (inode.iSectors 12).toNat ≤ maxLba ∧
      ReachedOnDisk part.myDisk name (inode.ownedBlocks part.myDisk) ∧
      (inode.iSectors 12 = 0 →
        firstEntry part.myDisk name (inode.ownedBlocks part.myDisk) = none →
          ∀ k < 128, junk (k + 12) = 0 ∨
            junk (k + 12) ∈ inode.ownedBlocks part.myDisk) := by
  have leftovers : (inode.iSectors 12 = 0 →
      firstEntry part.myDisk name (inode.ownedBlocks part.myDisk) = none →
        ∀ k < 128, junk (k + 12) = 0 ∨ junk (k + 12) ∈ inode.ownedBlocks part.myDisk) ↔
      (firstEntry part.myDisk name (inode.ownedBlocks part.myDisk) = none →
        ∀ lba ∈ inode.leftovers junk, lba ∈ inode.ownedBlocks part.myDisk) := by
    by_cases noTable : inode.iSectors 12 = 0
    · simp [noTable, Inode.leftovers, or_iff_not_imp_left]
    · simp [noTable, Inode.leftovers]
  rw [leftovers, ← searchIn_more_iff]
  by_cases addressed : (inode.iSectors 12).toNat ≤ maxLba
  · obtain ⟨same, sameReads⟩ := searchDirEntry_eq_searchIn sizes short addressed junk buf
    rw [and_iff_right addressed]
    constructor
    · rintro ⟨found, reads⟩
      rw [same] at found
      refine ⟨found, fun lba isRead => ?_⟩
      rcases reads lba (by rw [sameReads]; exact List.mem_append_right _ isRead) with
        owned | ⟨hasTable, rfl⟩
      · exact owned
      · have noLeftovers : inode.leftovers junk = [] := if_neg hasTable
        rw [noLeftovers, List.append_nil] at isRead
        exact readsIn_subset _ _ isRead
    · rintro ⟨found, reads⟩
      refine ⟨same.trans found, fun lba isRead => ?_⟩
      rw [sameReads, List.mem_append] at isRead
      rcases isRead with isTable | inBlocks
      · split at isTable
        next hasTable => exact Or.inr ⟨hasTable, List.mem_singleton.mp isTable⟩
        next => cases isTable
      · exact Or.inl (reads lba inBlocks)
  · refine iff_of_false (fun right => ?_) fun both => addressed both.1
    have found := right.found
    have hasTable : inode.iSectors 12 ≠ 0 := by
      intro noTable
      exact addressed (by rw [noTable]; exact Nat.zero_le _)
    rw [searchDirEntry] at found
    dsimp only at found
    rw [if_pos hasTable, ideRead_beyond addressed, error_bind] at found
    cases found

end Whole

/-- A file `a`, of which only the first letter of the name differs from 0, in block 3000. -/
def letterPartition : Partition :=
  samplePartition.setDisk fun a => if a = 512 * 3000 then 97 else 0

theorem letter_noNul : ∀ c ∈ ([97] : List UInt8), c ≠ 0 := by simp

def letterName : CString := ⟨[97], letter_noNul⟩

theorem blockEntry_letter : blockEntry letterPartition.myDisk letterName 3000 =
    some (DirEntry.ofBytes (slot (letterPartition.myDisk.window (512 * 3000)) 0)) := by
  rw [blockEntry, blockEntries, List.range_succ_eq_map, List.map_cons]
  exact List.find?_cons_of_pos (by decide)

/-- A directory with this one block. -/
theorem searchRight_iff_letter :
    SearchRight letterPartition ((inodeInit 0).setSector 0 3000) letterName (fun _ => 0)
      (Bytes.fill 0) := by
  refine (searchRight_iff rfl (by decide) _ _).mpr ⟨by decide, ?_, fun _ _ k _ => Or.inl rfl⟩
  have owned : ((inodeInit 0).setSector 0 3000).ownedBlocks letterPartition.myDisk = [3000] := by
    decide
  rw [owned]
  exact reachedOnDisk_cons.mpr ⟨by decide, fun _ front lba back cut => by simp at cut⟩

/-- A directory without blocks: the number 3000, left in the array, is taken for one. -/
theorem searchDirEntry_stray : (inodeInit 0).ownedBlocks letterPartition.myDisk = [] ∧
    (∃ found, searchDirEntry letterPartition (inodeInit 0) letterName
      (some fun k => if k = 12 then 3000 else 0) (Bytes.fill 0) = .ok (some found)) ∧
    searchDirEntryReads letterPartition (inodeInit 0) letterName
      (some fun k => if k = 12 then 3000 else 0) (Bytes.fill 0) = [3000] := by
  have owned : (inodeInit 0).ownedBlocks letterPartition.myDisk = [] := by decide
  have leftover : (inodeInit 0).leftovers (fun k => if k = 12 then 3000 else 0) = [3000] := by
    decide
  have short : strlen letterName < maxFileNameLen := by decide
  have addressed : ((inodeInit 0).iSectors 12).toNat ≤ maxLba := by decide
  obtain ⟨same, sameReads⟩ := searchDirEntry_eq_searchIn
    (rfl : letterPartition.sb.dirEntrySize = 24) short addressed
    (fun k => if k = 12 then 3000 else 0) (Bytes.fill 0)
  rw [owned, leftover, List.nil_append] at same sameReads
  refine ⟨owned, ⟨DirEntry.ofBytes (slot (letterPartition.myDisk.window (512 * 3000)) 0), ?_⟩, ?_⟩
  · rw [same, searchIn, if_pos (by decide), blockEntry_letter]
  · rw [sameReads]
    rw [readsIn, blockEntry_letter]
    simp [inodeInit]

end HongbaiOS.Fs
