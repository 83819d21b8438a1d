import HongbaiOS.Device.Ide
import Mathlib.Data.List.Perm.Basic

/-!
# Scanning the partitions of a disk

`partition_scan` reads the boot sector at `ext_lba`, calls itself for every entry of an
extended partition and enters all others in `partition_list`.  Three counters that outlive
the calls say where.
-/

namespace HongbaiOS.Device

open HongbaiOS.Library HongbaiOS.Kernel

/-- `struct partition_table_entry`, the members that are read. -/
structure PartitionTableEntry where
  fsType : UInt8
  startLba : UInt32
  secCnt : UInt32
  deriving DecidableEq

def PartitionTableEntry.ofBytes (bytes : Bytes) : PartitionTableEntry where
  fsType := bytes 4
  startLba := bytes.word 2
  secCnt := bytes.word 3

/-- `partition_table` of the boot sector `bs`, behind 446 bytes of code. -/
def partitionTable (bs : Bytes) : List PartitionTableEntry :=
  (List.range 4).map fun partIdx => .ofBytes (bs.window (446 + 16 * partIdx))

/-- `struct disk`: its name and what is on it. -/
structure Disk where
  name : String
  sectors : Bytes

/-- `struct partition`, the members set by `partition_scan`. -/
structure ScannedPartition where
  startLba : UInt32
  secCnt : UInt32
  myDisk : Disk
  name : String

/-- A member of `partition_list`: the tag of `prim_parts[i]` or of `logic_parts[i]`. -/
inductive PartTag where
  | prim (i : Nat)
  | logic (i : Nat)
  deriving DecidableEq

/-- What the calls of `partition_scan` share. -/
structure ScanState where
  extLbaBase : UInt32
  pNo : Nat
  lNo : Nat
  primParts : Nat → ScannedPartition
  logicParts : Nat → ScannedPartition
  partitionList : List PartTag

namespace ScanState

def part (s : ScanState) : PartTag → ScannedPartition
  | .prim i => s.primParts i
  | .logic i => s.logicParts i

/-- The branch `ext_lba == 0`, up to `p_no++`. -/
@[simps]
def addPrimary (s : ScanState) (hd : Disk) (extLba : UInt32) (p : PartitionTableEntry) :
    ScanState :=
  { s with
    primParts := Function.update s.primParts s.pNo
      ⟨extLba + p.startLba, p.secCnt, hd, hd.name ++ toString (s.pNo + 1)⟩
    partitionList := s.partitionList ++ [.prim s.pNo]
    pNo := s.pNo + 1 }

/-- The other branch, up to `l_no++`. -/
@[simps]
def addLogical (s : ScanState) (hd : Disk) (extLba : UInt32) (p : PartitionTableEntry) :
    ScanState :=
  { s with
    logicParts := Function.update s.logicParts s.lNo
      ⟨extLba + p.startLba, p.secCnt, hd, hd.name ++ toString (s.lNo + 5)⟩
    partitionList := s.partitionList ++ [.logic s.lNo]
    lNo := s.lNo + 1 }

@[simps]
def setExtLbaBase (s : ScanState) (base : UInt32) : ScanState := { s with extLbaBase := base }

end ScanState

/-- `a[idx]` in an array of `size` elements. -/
def inArray (idx size : Nat) : Except Halt Unit :=
  if idx < size then .ok () else .error .outOfBounds

/-- The loop over the entries that are left; `scan` is the recursive call.  The loop leaves
the function when the eighth logical partition has been entered. -/
def scanEntries (scan : UInt32 → ScanState → Except Halt ScanState) (hd : Disk)
    (extLba : UInt32) : List PartitionTableEntry → ScanState → Except Halt ScanState
  | [], s => .ok s
  | p :: rest, s =>
      if p.fsType = 0x5 then
        if s.extLbaBase ≠ 0 then do
          let s ← scan (p.startLba + s.extLbaBase) s
          scanEntries scan hd extLba rest s
        else do
          let s ← scan p.startLba (s.setExtLbaBase p.startLba)
          scanEntries scan hd extLba rest s
      else if p.fsType ≠ 0 then
        if extLba = 0 then do
          inArray s.pNo 4
          let s := s.addPrimary hd extLba p
          check .partitionScan (s.pNo < 4)
          scanEntries scan hd extLba rest s
        else do
          inArray s.lNo 8
          let s := s.addLogical hd extLba p
          if s.lNo ≥ 8 then return s
          scanEntries scan hd extLba rest s
      else
        scanEntries scan hd extLba rest s

/-- `partition_scan(hd, ext_lba)`.  `depth` bounds the nesting of calls, and `heap n` is
what the memory that `sys_malloc` gives to the call at depth `n` holds. -/
def partitionScan (heap : Nat → Bytes) (hd : Disk) :
    Nat → UInt32 → ScanState → Except Halt ScanState
  | 0, _, _ => .error .disabled
  | depth + 1, extLba, s => do
      let bs ← ideRead hd.sectors extLba.toNat (heap depth) 1
      scanEntries (partitionScan heap hd depth) hd extLba (partitionTable bs) s

namespace PartitionTableEntry

/-- Any kind but an extended partition. -/
def Plain (p : PartitionTableEntry) : Prop := p.fsType ≠ 0x5 ∧ p.fsType ≠ 0

instance (p : PartitionTableEntry) : Decidable p.Plain :=
  inferInstanceAs (Decidable (p.fsType ≠ 0x5 ∧ p.fsType ≠ 0))

/-- The first sector and the size, for an entry whose sectors are counted from `base`. -/
def area (p : PartitionTableEntry) (base : UInt32) : UInt32 × UInt32 :=
  (base + p.startLba, p.secCnt)

end PartitionTableEntry

namespace Disk

/-- The non-empty entries of the boot sector at `lba`. -/
def entries (hd : Disk) (lba : UInt32) : List PartitionTableEntry :=
  (partitionTable (hd.sectors.window (512 * lba.toNat))).filter fun p => p.fsType ≠ 0

def primaries (hd : Disk) : List PartitionTableEntry :=
  (hd.entries 0).filter fun p => p.fsType ≠ 0x5

def extended (hd : Disk) : List PartitionTableEntry :=
  (hd.entries 0).filter fun p => p.fsType = 0x5

/-- The chain of extended boot records from `lba` on, each with its logical partition:
links count from `base`. -/
inductive EbrChain (hd : Disk) (base : UInt32) :
    UInt32 → List (UInt32 × PartitionTableEntry) → Prop where
  | last {lba : UInt32} {p : PartitionTableEntry} (plain : p.Plain)
      (record : hd.entries lba = [p]) : EbrChain hd base lba [(lba, p)]
  | linked {lba : UInt32} {p link : PartitionTableEntry}
      {rest : List (UInt32 × PartitionTableEntry)} (plain : p.Plain) (isLink : link.fsType = 0x5)
      (record : hd.entries lba = [p, link] ∨ hd.entries lba = [link, p])
      (next : EbrChain hd base (link.startLba + base) rest) :
      EbrChain hd base lba ((lba, p) :: rest)

/-- The chain of the disk holds the logical partitions `logicals`. -/
structure WellPartitioned (hd : Disk) (logicals : List (UInt32 × PartitionTableEntry)) :
    Prop where
  chain : hd.extended = [] ∧ logicals = [] ∨
    ∃ p, hd.extended = [p] ∧ hd.EbrChain p.startLba p.startLba logicals
  few : logicals.length ≤ 8
  acyclic : (0 :: logicals.map Prod.fst).Nodup

end Disk

/-- The tag of an array element that has not been given out. -/
def PartTag.Unused (s : ScanState) : PartTag → Prop
  | .prim i => s.pNo ≤ i
  | .logic i => s.lNo ≤ i

/-- The partitions of `areas`, all of the disk `hd`, have been appended to the list, each
once; those from before are as they were. -/
structure Appends (hd : Disk) (s s' : ScanState) (areas : List (UInt32 × UInt32)) : Prop where
  pNo : s.pNo ≤ s'.pNo
  lNo : s.lNo ≤ s'.lNo
  kept : ∀ tag, ¬ PartTag.Unused s tag → s'.part tag = s.part tag
  listed : ∃ tags, s'.partitionList = s.partitionList ++ tags ∧ tags.Nodup ∧
    (∀ tag ∈ tags, PartTag.Unused s tag ∧ ¬ PartTag.Unused s' tag ∧
      (s'.part tag).myDisk = hd) ∧
    (tags.map fun tag => ((s'.part tag).startLba, (s'.part tag).secCnt)).Perm areas

namespace Appends

variable {hd : Disk} {s s' s'' : ScanState} {xs ys : List (UInt32 × UInt32)}

theorem refl (s : ScanState) : Appends hd s s [] :=
  ⟨le_refl _, le_refl _, fun _ _ => rfl, [], by simp, List.nodup_nil, by simp, by simp⟩

theorem unused (appends : Appends hd s s' xs) {tag : PartTag} (free : PartTag.Unused s' tag) :
    PartTag.Unused s tag := by
  cases tag with
  | prim i => exact Nat.le_trans appends.pNo free
  | logic i => exact Nat.le_trans appends.lNo free

theorem trans (first : Appends hd s s' xs) (second : Appends hd s' s'' ys) :
    Appends hd s s'' (xs ++ ys) := by
  obtain ⟨tags, list, once, entered, same⟩ := first.listed
  obtain ⟨tags', list', once', entered', same'⟩ := second.listed
  -- the second part leaves alone what the first has entered
  have stays : ∀ tag ∈ tags, s''.part tag = s'.part tag := fun tag inTags =>
    second.kept tag (entered tag inTags).2.1
  refine ⟨Nat.le_trans first.pNo second.pNo, Nat.le_trans first.lNo second.lNo,
    fun tag used => ?_, tags ++ tags', ?_, ?_, fun tag inTags => ?_, ?_⟩
  · rw [second.kept tag fun free => used (first.unused free), first.kept tag used]
  · rw [list', list, List.append_assoc]
  · refine List.nodup_append.mpr ⟨once, once', fun a inFirst b inSecond same => ?_⟩
    exact (entered a inFirst).2.1 (same ▸ (entered' b inSecond).1)
  · rcases List.mem_append.mp inTags with inFirst | inSecond
    · obtain ⟨free, used, ofDisk⟩ := entered tag inFirst
      exact ⟨free, fun again => used (second.unused again), by rw [stays tag inFirst, ofDisk]⟩
    · obtain ⟨free, used, ofDisk⟩ := entered' tag inSecond
      exact ⟨first.unused free, used, ofDisk⟩
  · rw [List.map_append]
    refine List.Perm.append ?_ same'
    have sameFirst : (tags.map fun tag => ((s''.part tag).startLba, (s''.part tag).secCnt)) =
        tags.map fun tag => ((s'.part tag).startLba, (s'.part tag).secCnt) :=
      List.map_congr_left fun tag inTags => by rw [stays tag inTags]
    rw [sameFirst]
    exact same

theorem perm (appends : Appends hd s s' xs) (same : xs.Perm ys) : Appends hd s s' ys := by
  obtain ⟨tags, list, once, entered, areas⟩ := appends.listed
  exact ⟨appends.pNo, appends.lNo, appends.kept, tags, list, once, entered, areas.trans same⟩

theorem addPrimary (s : ScanState) (extLba : UInt32) (p : PartitionTableEntry) :
    Appends hd s (s.addPrimary hd extLba p) [p.area extLba] := by
  have here : (s.addPrimary hd extLba p).part (.prim s.pNo) =
      ⟨extLba + p.startLba, p.secCnt, hd, hd.name ++ toString (s.pNo + 1)⟩ :=
    Function.update_self ..
  refine ⟨Nat.le_succ _, le_refl _, fun tag used => ?_, [.prim s.pNo], rfl,
    by simp, ?_, ?_⟩
  · cases tag with
    | prim i => exact Function.update_of_ne (fun same => used (le_of_eq same.symm)) _ _
    | logic i => rfl
  · intro tag inTags
    obtain rfl := List.mem_singleton.mp inTags
    exact ⟨le_refl s.pNo, Nat.not_succ_le_self s.pNo, by rw [here]⟩
  · rw [List.map_singleton, here]
    exact List.Perm.refl _

theorem addLogical (s : ScanState) (extLba : UInt32) (p : PartitionTableEntry) :
    Appends hd s (s.addLogical hd extLba p) [p.area extLba] := by
  have here : (s.addLogical hd extLba p).part (.logic s.lNo) =
      ⟨extLba + p.startLba, p.secCnt, hd, hd.name ++ toString (s.lNo + 5)⟩ :=
    Function.update_self ..
  refine ⟨le_refl _, Nat.le_succ _, fun tag used => ?_, [.logic s.lNo], rfl,
    by simp, ?_, ?_⟩
  · cases tag with
    | prim i => rfl
    | logic i => exact Function.update_of_ne (fun same => used (le_of_eq same.symm)) _ _
  · intro tag inTags
    obtain rfl := List.mem_singleton.mp inTags
    exact ⟨le_refl s.lNo, Nat.not_succ_le_self s.lNo, by rw [here]⟩
  · rw [List.map_singleton, here]
    exact List.Perm.refl _

theorem setExtLbaBase (s : ScanState) (base : UInt32) :
    Appends hd s (s.setExtLbaBase base) [] :=
  ⟨le_refl _, le_refl _, fun tag _ => by cases tag <;> rfl, [], by simp, List.nodup_nil, by simp,
    by simp⟩

end Appends

section Entries

variable {heap : Nat → Bytes} {hd : Disk} {scan : UInt32 → ScanState → Except Halt ScanState}
  {extLba lba : UInt32} {p : PartitionTableEntry} {ps rest : List PartitionTableEntry}
  {s : ScanState}

theorem partitionTable_congr {bs bs' : Bytes} (same : Bytes.SameHead 512 bs bs') :
    partitionTable bs = partitionTable bs' := by
  refine List.map_congr_left fun partIdx inside => ?_
  rw [List.mem_range] at inside
  have sameEntry : Bytes.SameHead 16 (bs.window (446 + 16 * partIdx))
      (bs'.window (446 + 16 * partIdx)) := fun a small => same _ (by omega)
  rw [PartitionTableEntry.ofBytes, PartitionTableEntry.ofBytes, sameEntry 4 (by decide),
    Bytes.word_congr sameEntry (by decide), Bytes.word_congr sameEntry (by decide)]

/-- Empty entries are passed over. -/
theorem scanEntries_filter (ps : List PartitionTableEntry) (s : ScanState) :
    scanEntries scan hd extLba ps s =
      scanEntries scan hd extLba (ps.filter fun p => p.fsType ≠ 0) s := by
  induction ps generalizing s with
  | nil => rfl
  | cons p rest inductionHypothesis =>
      by_cases empty : p.fsType = 0
      · have notLink : p.fsType ≠ 0x5 := by rw [empty]; decide
        rw [List.filter_cons_of_neg (by simpa using empty), ← inductionHypothesis, scanEntries,
          if_neg notLink, if_neg (not_not_intro empty)]
      · rw [List.filter_cons_of_pos (by simpa using empty)]
        simp only [scanEntries, inductionHypothesis]

theorem partitionScan_eq (addressed : lba.toNat ≤ maxLba) (depth : Nat) (s : ScanState) :
    partitionScan heap hd (depth + 1) lba s =
      scanEntries (partitionScan heap hd depth) hd lba (hd.entries lba) s := by
  have table : partitionTable ((heap depth).splice 0 512
      (hd.sectors.window (512 * lba.toNat))) =
      partitionTable (hd.sectors.window (512 * lba.toNat)) :=
    partitionTable_congr fun a small => by
      rw [Bytes.splice_inside (Nat.zero_le _) (by omega), Nat.sub_zero]
  have oneSector : 512 * (1 : UInt8).toNat = 512 := by decide
  rw [partitionScan, ideRead_eq addressed (by decide), ok_bind, oneSector, table,
    scanEntries_filter]
  rfl

theorem partitionScan_behind (behind : maxLba < lba.toNat) (depth : Nat) (s : ScanState) :
    partitionScan heap hd (depth + 1) lba s = .error (.panic .ideRead) := by
  have notAddressed : ¬ lba.toNat ≤ maxLba := by omega
  simp [partitionScan, ideRead, notAddressed, check]

theorem scanEntries_link (isLink : p.fsType = 0x5) (based : s.extLbaBase ≠ 0) :
    scanEntries scan hd extLba (p :: rest) s =
      scan (p.startLba + s.extLbaBase) s >>= scanEntries scan hd extLba rest := by
  rw [scanEntries, if_pos isLink, if_pos based]

theorem scanEntries_extended (isLink : p.fsType = 0x5) (notBased : s.extLbaBase = 0) :
    scanEntries scan hd extLba (p :: rest) s =
      scan p.startLba (s.setExtLbaBase p.startLba) >>= scanEntries scan hd extLba rest := by
  rw [scanEntries, if_pos isLink, if_neg (not_not_intro notBased)]

theorem scanEntries_primary (plain : p.Plain) (room : s.pNo < 3) :
    scanEntries scan hd 0 (p :: rest) s = scanEntries scan hd 0 rest (s.addPrimary hd 0 p) := by
  have inside : s.pNo < 4 := by omega
  rw [scanEntries, if_neg plain.1, if_pos plain.2, if_pos rfl, inArray, if_pos inside, ok_bind]
  simp only [ScanState.addPrimary_pNo, Nat.add_lt_iff_lt_sub_right, room, decide_true, check_true,
    ok_bind]

theorem scanEntries_logical (plain : p.Plain) (notMbr : extLba ≠ 0) (room : s.lNo < 8)
    (last : s.lNo = 7 → rest = []) :
    scanEntries scan hd extLba (p :: rest) s =
      scanEntries scan hd extLba rest (s.addLogical hd extLba p) := by
  rw [scanEntries, if_neg plain.1, if_pos plain.2, if_neg notMbr, inArray, if_pos room, ok_bind]
  dsimp only
  split
  next full =>
    rw [last (by simp only [ScanState.addLogical_lNo] at full; omega)]
    rfl
  next => rfl

theorem scanEntries_fourth (plain : p.Plain) (third : s.pNo = 3) :
    scanEntries scan hd 0 (p :: rest) s = .error (.panic .partitionScan) := by
  have inside : s.pNo < 4 := by omega
  rw [scanEntries, if_neg plain.1, if_pos plain.2, if_pos rfl, inArray, if_pos inside, ok_bind]
  simp only [ScanState.addPrimary_pNo, third, check]
  rfl

theorem scanEntries_primaries (scan : UInt32 → ScanState → Except Halt ScanState) (hd : Disk)
    (rest : List PartitionTableEntry) (plain : ∀ p ∈ ps, p.Plain) (room : s.pNo + ps.length ≤ 3) :
    ∃ s', scanEntries scan hd 0 (ps ++ rest) s = scanEntries scan hd 0 rest s' ∧
      s'.extLbaBase = s.extLbaBase ∧ s'.lNo = s.lNo ∧ s'.pNo = s.pNo + ps.length ∧
      Appends hd s s' (ps.map fun p => p.area 0) := by
  induction ps generalizing s with
  | nil => exact ⟨s, rfl, rfl, rfl, rfl, .refl s⟩
  | cons p ps inductionHypothesis =>
      rw [List.length_cons] at room
      obtain ⟨s', ran, base, lNo, pNo, appends⟩ := inductionHypothesis (s := s.addPrimary hd 0 p)
        (fun q inRest => plain q (List.mem_cons_of_mem p inRest))
        (by rw [ScanState.addPrimary_pNo]; omega)
      refine ⟨s', ?_, base, lNo, ?_, (Appends.addPrimary s 0 p).trans appends⟩
      · rw [List.cons_append, scanEntries_primary (plain p List.mem_cons_self) (by omega), ran]
      · rw [pNo, ScanState.addPrimary_pNo, List.length_cons]
        omega

theorem scanEntries_tooMany (plain : ∀ p ∈ ps, p.Plain) (few : s.pNo ≤ 3)
    (many : 3 < s.pNo + ps.length) :
    scanEntries scan hd 0 ps s = .error (.panic .partitionScan) := by
  induction ps generalizing s with
  | nil => simp at many; omega
  | cons p ps inductionHypothesis =>
      have isPlain := plain p List.mem_cons_self
      rcases Nat.lt_or_ge s.pNo 3 with below | atThree
      · rw [scanEntries_primary isPlain below]
        refine inductionHypothesis (fun q inRest => plain q (List.mem_cons_of_mem p inRest)) ?_ ?_
        · rw [ScanState.addPrimary_pNo]
          omega
        · rw [List.length_cons] at many
          rw [ScanState.addPrimary_pNo]
          omega
      · exact scanEntries_fourth isPlain (by omega)

end Entries

section Chain

variable {heap : Nat → Bytes} {hd : Disk} {base lba : UInt32} {depth : Nat}
  {logicals : List (UInt32 × PartitionTableEntry)} {s : ScanState}

/-- What holds of the state when a chain is entered: the counters leave room for it. -/
structure Enters (s : ScanState) (base : UInt32)
    (logicals : List (UInt32 × PartitionTableEntry)) (depth : Nat) : Prop where
  based : s.extLbaBase = base
  notZero : base ≠ 0
  room : s.lNo + logicals.length ≤ 8
  apart : ∀ q ∈ logicals, q.1 ≠ 0
  deep : logicals.length ≤ depth

namespace Disk.EbrChain

theorem ne_nil (chain : hd.EbrChain base lba logicals) : logicals ≠ [] := by
  cases chain <;> exact List.cons_ne_nil _ _

/-- The chain is entered record by record, in the order of the links or against it. -/
theorem scan (heap : Nat → Bytes) (chain : hd.EbrChain base lba logicals)
    (enters : Enters s base logicals depth)
    (addressed : ∀ q ∈ logicals, q.1.toNat ≤ maxLba) :
    ∃ s', partitionScan heap hd depth lba s = .ok s' ∧ s'.pNo = s.pNo ∧
      s'.lNo = s.lNo + logicals.length ∧ s'.extLbaBase = s.extLbaBase ∧
      Appends hd s s' (logicals.map fun q => q.2.area q.1) := by
  induction chain generalizing s depth with
  | @last lba p plain record =>
      have positive : 0 < depth := Nat.lt_of_lt_of_le Nat.zero_lt_one enters.deep
      obtain ⟨depth, rfl⟩ := Nat.exists_eq_add_of_lt positive
      rw [Nat.zero_add, partitionScan_eq (addressed _ List.mem_cons_self), record]
      have room := enters.room
      rw [List.length_singleton] at room
      refine ⟨s.addLogical hd lba p, ?_, rfl, rfl, rfl, Appends.addLogical s lba p⟩
      exact scanEntries_logical plain (enters.apart _ List.mem_cons_self) (by omega) fun _ => rfl
  | @linked lba p link rest plain isLink record next inductionHypothesis =>
      obtain ⟨depth, rfl⟩ := Nat.exists_eq_add_of_lt
        (Nat.lt_of_lt_of_le (Nat.succ_pos _) enters.deep)
      obtain ⟨based, notZero, room, apart, deep⟩ := enters
      have some := List.length_pos_of_ne_nil next.ne_nil
      rw [List.length_cons] at room deep
      have notMbr : lba ≠ 0 := apart _ List.mem_cons_self
      have apart' : ∀ q ∈ rest, q.1 ≠ 0 := fun q inRest => apart q (List.mem_cons_of_mem _ inRest)
      have addressed' : ∀ q ∈ rest, q.1.toNat ≤ maxLba := fun q inRest =>
        addressed q (List.mem_cons_of_mem _ inRest)
      rw [Nat.zero_add, partitionScan_eq (addressed _ List.mem_cons_self)]
      rcases record with logicalFirst | linkFirst
      · have enters : Enters (s.addLogical hd lba p) base rest depth :=
          ⟨based, notZero, by rw [ScanState.addLogical_lNo]; omega, apart', by omega⟩
        obtain ⟨s', ran, pNo, lNo, sameBase, appends⟩ := inductionHypothesis enters addressed'
        refine ⟨s', ?_, pNo, ?_, sameBase, (Appends.addLogical s lba p).trans appends⟩
        · rw [logicalFirst, scanEntries_logical plain notMbr (by omega) (by omega),
            scanEntries_link isLink (by rw [ScanState.addLogical_extLbaBase, based]; exact notZero),
            ScanState.addLogical_extLbaBase, based, ran]
          rfl
        · rw [lNo, ScanState.addLogical_lNo, List.length_cons]
          omega
      · have enters : Enters s base rest depth :=
          ⟨based, notZero, by omega, apart', by omega⟩
        obtain ⟨s', ran, pNo, lNo, sameBase, appends⟩ := inductionHypothesis enters addressed'
        refine ⟨s'.addLogical hd lba p, ?_, pNo, ?_, sameBase,
          (appends.trans (Appends.addLogical s' lba p)).perm (List.perm_append_singleton _ _)⟩
        · have linked := based ▸ notZero
          rw [linkFirst, scanEntries_link isLink linked, based, ran, ok_bind]
          exact scanEntries_logical plain notMbr (by omega) fun _ => rfl
        · rw [ScanState.addLogical_lNo, lNo, List.length_cons]
          omega

/-- A record behind the last sector that can be read stops the kernel. -/
theorem scan_behind (chain : hd.EbrChain base lba logicals)
    (enters : Enters s base logicals depth) (behind : ∃ q ∈ logicals, maxLba < q.1.toNat) :
    partitionScan heap hd depth lba s = .error (.panic .ideRead) := by
  induction chain generalizing s depth with
  | @last lba p plain record =>
      have positive : 0 < depth := Nat.lt_of_lt_of_le Nat.zero_lt_one enters.deep
      obtain ⟨depth, rfl⟩ := Nat.exists_eq_add_of_lt positive
      obtain ⟨q, inChain, far⟩ := behind
      obtain rfl := List.mem_singleton.mp inChain
      rw [Nat.zero_add]
      exact partitionScan_behind far depth s
  | @linked lba p link rest plain isLink record next inductionHypothesis =>
      obtain ⟨depth, rfl⟩ := Nat.exists_eq_add_of_lt
        (Nat.lt_of_lt_of_le (Nat.succ_pos _) enters.deep)
      obtain ⟨based, notZero, room, apart, deep⟩ := enters
      have some := List.length_pos_of_ne_nil next.ne_nil
      rw [List.length_cons] at room deep
      have notMbr : lba ≠ 0 := apart _ List.mem_cons_self
      have apart' : ∀ q ∈ rest, q.1 ≠ 0 := fun q inRest => apart q (List.mem_cons_of_mem _ inRest)
      rw [Nat.zero_add]
      rcases Nat.lt_or_ge maxLba lba.toNat with here | addressed
      · exact partitionScan_behind here depth s
      · have later : ∃ q ∈ rest, maxLba < q.1.toNat := by
          obtain ⟨q, inChain, far⟩ := behind
          rcases List.mem_cons.mp inChain with rfl | inRest
          · exact absurd far (Nat.not_lt.mpr addressed)
          · exact ⟨q, inRest, far⟩
        rw [partitionScan_eq addressed]
        rcases record with logicalFirst | linkFirst
        · have enters : Enters (s.addLogical hd lba p) base rest depth :=
            ⟨based, notZero, by rw [ScanState.addLogical_lNo]; omega, apart', by omega⟩
          have stops := inductionHypothesis enters later
          rw [logicalFirst, scanEntries_logical plain notMbr (by omega) (by omega),
            scanEntries_link isLink (by rw [ScanState.addLogical_extLbaBase, based]; exact notZero),
            ScanState.addLogical_extLbaBase, based, stops, error_bind]
        · have enters : Enters s base rest depth :=
            ⟨based, notZero, by omega, apart', by omega⟩
          have stops := inductionHypothesis enters later
          rw [linkFirst, scanEntries_link isLink (by rw [based]; exact notZero), based, stops,
            error_bind]

end Disk.EbrChain

end Chain

section Scan

variable {heap : Nat → Bytes} {hd : Disk} {depth : Nat}
  {logicals : List (UInt32 × PartitionTableEntry)} {s : ScanState}

namespace Disk

theorem entries_length_le (hd : Disk) (lba : UInt32) : (hd.entries lba).length ≤ 4 := by
  refine Nat.le_trans (List.length_filter_le _ _) ?_
  simp [partitionTable]

theorem plain_of_entries {lba : UInt32} {p : PartitionTableEntry} (inTable : p ∈ hd.entries lba)
    (notLink : p.fsType ≠ 0x5) : p.Plain := by
  obtain ⟨-, nonempty⟩ := List.mem_filter.mp inTable
  exact ⟨notLink, by simpa using nonempty⟩

/-- A master boot record without an extended partition. -/
theorem primaries_of_none (none : hd.extended = []) :
    hd.primaries = hd.entries 0 ∧ ∀ p ∈ hd.primaries, p.Plain := by
  have notLink : ∀ p ∈ hd.entries 0, p.fsType ≠ 0x5 := fun p inTable isLink =>
    List.filter_eq_nil_iff.mp none p inTable (by simpa using isLink)
  have all : hd.primaries = hd.entries 0 :=
    List.filter_eq_self.mpr fun p inTable => by simpa using notLink p inTable
  rw [all]
  exact ⟨rfl, fun p inTable => plain_of_entries inTable (notLink p inTable)⟩

theorem primaries_of_extended {p : PartitionTableEntry} (extended : hd.extended = [p]) :
    p.fsType = 0x5 ∧ ∃ before after, hd.entries 0 = before ++ p :: after ∧
      hd.primaries = before ++ after ∧ (∀ q ∈ before, q.Plain) ∧ ∀ q ∈ after, q.Plain := by
  obtain ⟨before, after, table, notBefore, isLink, notAfter⟩ :=
    List.filter_eq_cons_iff.mp extended
  have isLink : p.fsType = 0x5 := by simpa using isLink
  have plainBefore : ∀ q ∈ before, q.fsType ≠ 0x5 := fun q inBefore => by
    simpa using notBefore q inBefore
  have plainAfter : ∀ q ∈ after, q.fsType ≠ 0x5 := fun q inAfter => by
    simpa using List.filter_eq_nil_iff.mp notAfter q inAfter
  refine ⟨isLink, before, after, table, ?_, fun q inBefore => ?_, fun q inAfter => ?_⟩
  · rw [primaries, table, List.filter_append, List.filter_cons_of_neg (by simpa using isLink),
      List.filter_eq_self.mpr fun q inBefore => by simpa using plainBefore q inBefore,
      List.filter_eq_self.mpr fun q inAfter => by simpa using plainAfter q inAfter]
  · exact plain_of_entries (by rw [table]; simp [inBefore]) (plainBefore q inBefore)
  · exact plain_of_entries (by rw [table]; simp [inAfter]) (plainAfter q inAfter)

end Disk

/-- The scan of a well partitioned disk enters every partition once, with its first sector,
its size and its disk, if and only if there are fewer than four primary partitions and every
boot record can be read. -/
theorem partitionScan_iff (heap : Nat → Bytes) (laid : hd.WellPartitioned logicals)
    (deep : 9 ≤ depth)
    (noPrimary : s.pNo = 0) (noLogical : s.lNo = 0) (noBase : s.extLbaBase = 0) :
    (∃ s', partitionScan heap hd depth 0 s = .ok s' ∧
      Appends hd s s' ((hd.primaries.map fun p => p.area 0) ++
        logicals.map fun q => q.2.area q.1)) ↔
      hd.primaries.length < 4 ∧ ∀ q ∈ logicals, q.1.toNat ≤ maxLba := by
  obtain ⟨depth, rfl⟩ := Nat.exists_eq_add_of_lt (Nat.lt_of_lt_of_le (Nat.succ_pos 8) deep)
  have size := hd.entries_length_le 0
  obtain ⟨chain, few, acyclic⟩ := laid
  rw [Nat.zero_add, partitionScan_eq (Nat.zero_le _)]
  rcases chain with ⟨none, rfl⟩ | ⟨p, extended, chain⟩
  · obtain ⟨all, plain⟩ := Disk.primaries_of_none none
    rw [← all]
    constructor
    · rintro ⟨s', ran, -⟩
      refine ⟨Nat.lt_of_not_le fun many => ?_, by simp⟩
      rw [scanEntries_tooMany plain (by omega) (by omega)] at ran
      cases ran
    · rintro ⟨three, -⟩
      obtain ⟨s', ran, -, -, -, appends⟩ :=
        scanEntries_primaries (partitionScan heap hd depth) hd [] (s := s) plain (by omega)
      rw [List.append_nil] at ran
      exact ⟨s', ran, by simpa using appends⟩
  · obtain ⟨isLink, before, after, table, primaries, plainBefore, plainAfter⟩ :=
      Disk.primaries_of_extended extended
    rw [table, List.length_append, List.length_cons] at size
    obtain ⟨s₁, ran₁, base₁, lNo₁, pNo₁, appends₁⟩ := scanEntries_primaries
      (partitionScan heap hd depth) hd (p :: after) (s := s) plainBefore (by omega)
    have notZero : p.startLba ≠ 0 := by
      intro zero
      have first := List.nodup_cons.mp acyclic
      cases chain <;> simp [zero] at first
    have enters : Enters (s₁.setExtLbaBase p.startLba) p.startLba logicals depth := by
      refine ⟨rfl, notZero, ?_, fun q inChain zero => ?_, by omega⟩
      · rw [ScanState.setExtLbaBase_lNo, lNo₁, noLogical]
        omega
      · exact (List.nodup_cons.mp acyclic).1 (zero ▸ List.mem_map_of_mem inChain)
    rw [table, ran₁, scanEntries_extended isLink (base₁.trans noBase), primaries]
    constructor
    · rintro ⟨s', ran, -⟩
      refine ⟨by rw [List.length_append]; omega, fun q inChain => ?_⟩
      refine Nat.le_of_not_lt fun far => ?_
      rw [chain.scan_behind enters ⟨q, inChain, far⟩, error_bind] at ran
      cases ran
    · rintro ⟨-, addressed⟩
      obtain ⟨s₂, ran₂, pNo₂, -, -, appends₂⟩ := chain.scan heap enters addressed
      rw [ScanState.setExtLbaBase_pNo] at pNo₂
      obtain ⟨s₃, ran₃, -, -, -, appends₃⟩ := scanEntries_primaries
        (partitionScan heap hd depth) hd [] (s := s₂) plainAfter (by omega)
      rw [List.append_nil] at ran₃
      refine ⟨s₃, by rw [ran₂, ok_bind, ran₃]; rfl, ?_⟩
      have all := appends₁.trans ((Appends.setExtLbaBase s₁ p.startLba).trans
        (appends₂.trans appends₃))
      refine all.perm ?_
      rw [List.map_append, List.append_assoc, List.nil_append]
      exact (List.perm_append_comm).append_left _

end Scan

/-- A boot sector with the given partition table, and nothing in the other entries. -/
def bootSector (table : List PartitionTableEntry) : Bytes := fun a =>
  let p := table.getD ((a - 446) / 16) ⟨0, 0, 0⟩
  let offset := (a - 446) % 16
  if offset = 4 then p.fsType
  else if offset < 12 then Bytes.byteOf p.startLba (offset - 8)
  else Bytes.byteOf p.secCnt (offset - 12)

/-- Two primary partitions around an extended one with two logical partitions; the first
record has its link in front. -/
def twoLogicals : Disk where
  name := "sdb"
  sectors := fun a =>
    if a < 512 then
      bootSector [⟨0x83, 2048, 500⟩, ⟨0x5, 10000, 9000⟩, ⟨0, 0, 0⟩, ⟨0x83, 30000, 700⟩] a
    else if a < 512 * 10001 then
      bootSector [⟨0x5, 4000, 3000⟩, ⟨0x83, 63, 3900⟩] (a - 512 * 10000)
    else
      bootSector [⟨0x83, 63, 2900⟩] (a - 512 * 14000)

def fourPrimaries : Disk where
  name := "sdb"
  sectors := bootSector
    [⟨0x83, 2048, 500⟩, ⟨0x83, 4096, 500⟩, ⟨0x83, 8192, 500⟩, ⟨0x83, 16384, 500⟩]

/-- The state in which `ide_init` calls `partition_scan`. -/
def noPartitions (hd : Disk) : ScanState where
  extLbaBase := 0
  pNo := 0
  lNo := 0
  primParts := fun _ => ⟨0, 0, hd, ""⟩
  logicParts := fun _ => ⟨0, 0, hd, ""⟩
  partitionList := []

theorem twoLogicals_wellPartitioned :
    twoLogicals.WellPartitioned [(10000, ⟨0x83, 63, 3900⟩), (14000, ⟨0x83, 63, 2900⟩)] := by
  have second : twoLogicals.EbrChain 10000 (4000 + 10000) [(14000, ⟨0x83, 63, 2900⟩)] :=
    .last (by decide) (by decide)
  refine ⟨Or.inr ⟨⟨0x5, 10000, 9000⟩, by decide, ?_⟩, by decide, by decide⟩
  have first : twoLogicals.entries 10000 = [⟨0x5, 4000, 3000⟩, ⟨0x83, 63, 3900⟩] := by decide
  exact .linked (by decide) rfl (Or.inr first) second

theorem partitionScan_iff_twoLogicals :
    ∃ s', partitionScan (fun _ => Bytes.fill 0) twoLogicals 9 0 (noPartitions twoLogicals) =
        .ok s' ∧
      Appends twoLogicals (noPartitions twoLogicals) s'
        [(2048, 500), (30000, 700), (10063, 3900), (14063, 2900)] := by
  have primaries : twoLogicals.primaries = [⟨0x83, 2048, 500⟩, ⟨0x83, 30000, 700⟩] := by decide
  obtain ⟨s', ran, appends⟩ := (partitionScan_iff (fun _ => Bytes.fill 0)
    twoLogicals_wellPartitioned (le_refl 9) (s := noPartitions twoLogicals) rfl rfl rfl).mpr
    ⟨by rw [primaries]; decide, by decide⟩
  rw [primaries] at appends
  exact ⟨s', ran, appends⟩

/-- The assertion after the fourth primary partition fails. -/
theorem fourPrimaries_panic : fourPrimaries.WellPartitioned [] ∧
    fourPrimaries.primaries.length = 4 ∧
    partitionScan (fun _ => Bytes.fill 0) fourPrimaries 9 0 (noPartitions fourPrimaries) =
      .error (.panic .partitionScan) := by
  have table : fourPrimaries.entries 0 =
      [⟨0x83, 2048, 500⟩, ⟨0x83, 4096, 500⟩, ⟨0x83, 8192, 500⟩, ⟨0x83, 16384, 500⟩] := by decide
  refine ⟨⟨Or.inl ⟨by decide, rfl⟩, by decide, by decide⟩, by decide, ?_⟩
  rw [partitionScan_eq (by decide), table]
  exact scanEntries_tooMany (by decide) (by decide) (by decide)

end HongbaiOS.Device
