import HongbaiOS.Device.PartitionScan

/-!
# Partition tables that link to each other

`partition_scan` follows links from record to record without remembering where it has been.
The eighth logical partition ends the innermost call only: the calls around it go on with the
entries they have left.  Here the disks are described on which the scan comes to its end.
-/

namespace HongbaiOS.Device

open HongbaiOS.Library HongbaiOS.Kernel

/-- Where a link leads while `ext_lba_base` is `base`. -/
def linkLba (base : UInt32) (p : PartitionTableEntry) : UInt32 :=
  if base ≠ 0 then p.startLba + base else p.startLba

/-- `ext_lba_base` after a link. -/
def linkBase (base : UInt32) (p : PartitionTableEntry) : UInt32 :=
  if base ≠ 0 then base else p.startLba

/-- A plain entry of the record at `lba` is a primary partition in the MBR only. -/
def primIn (lba : UInt32) : Nat := if lba = 0 then 1 else 0

def logicIn (lba : UInt32) : Nat := if lba = 0 then 0 else 1

namespace Disk

/-- The entries `ps` of the record at `lba`, with all records linked from them, hold so many
primary and logical partitions: the records are finitely many, and all on the disk.  The links
take `ext_lba_base` from `base` to `base'`. -/
inductive Holds (hd : Disk) : (base lba : UInt32) → List PartitionTableEntry →
    (base' : UInt32) → (prims logics : Nat) → Prop where
  | nil {base lba : UInt32} : Holds hd base lba [] base 0 0
  | plain {base base' lba : UInt32} {p : PartitionTableEntry} {ps : List PartitionTableEntry}
      {prims logics : Nat} (isPlain : p.Plain) (rest : Holds hd base lba ps base' prims logics) :
      Holds hd base lba (p :: ps) base' (prims + primIn lba) (logics + logicIn lba)
  | link {base base₁ base' lba : UInt32} {p : PartitionTableEntry}
      {ps : List PartitionTableEntry} {prims prims' logics logics' : Nat}
      (isLink : p.fsType = 0x5) (addressed : (linkLba base p).toNat ≤ maxLba)
      (below : Holds hd (linkBase base p) (linkLba base p) (hd.entries (linkLba base p)) base₁
        prims logics)
      (rest : Holds hd base₁ lba ps base' prims' logics') :
      Holds hd base lba (p :: ps) base' (prims + prims') (logics + logics')

/-- Among these entries and the records linked from them the `left`-th logical partition is
reached, with `prims` primary ones besides.  What follows it in its own record does not
matter; what follows in the records that lead there holds no logical partition. -/
inductive Fills (hd : Disk) : (base lba : UInt32) → List PartitionTableEntry →
    (base' : UInt32) → (prims left : Nat) → Prop where
  | last {base lba : UInt32} {p : PartitionTableEntry} {ps : List PartitionTableEntry}
      (isPlain : p.Plain) (notMbr : lba ≠ 0) : Fills hd base lba (p :: ps) base 0 1
  | plain {base base' lba : UInt32} {p : PartitionTableEntry} {ps : List PartitionTableEntry}
      {prims left : Nat} (isPlain : p.Plain) (rest : Fills hd base lba ps base' prims left) :
      Fills hd base lba (p :: ps) base' (prims + primIn lba) (left + logicIn lba)
  | past {base base₁ base' lba : UInt32} {p : PartitionTableEntry}
      {ps : List PartitionTableEntry} {prims prims' logics left : Nat}
      (isLink : p.fsType = 0x5) (addressed : (linkLba base p).toNat ≤ maxLba)
      (below : Holds hd (linkBase base p) (linkLba base p) (hd.entries (linkLba base p)) base₁
        prims logics)
      (rest : Fills hd base₁ lba ps base' prims' left) :
      Fills hd base lba (p :: ps) base' (prims + prims') (logics + left)
  | within {base base₁ base' lba : UInt32} {p : PartitionTableEntry}
      {ps : List PartitionTableEntry} {prims prims' left : Nat}
      (isLink : p.fsType = 0x5) (addressed : (linkLba base p).toNat ≤ maxLba)
      (below : Fills hd (linkBase base p) (linkLba base p) (hd.entries (linkLba base p)) base₁
        prims left)
      (rest : Holds hd base₁ lba ps base' prims' 0) :
      Fills hd base lba (p :: ps) base' (prims + prims') left

/-- A scan of the MBR comes to its end: at most three primary partitions, and at most seven
logical ones or the eighth as the last one reached. -/
def Scannable (hd : Disk) (base : UInt32) : Prop :=
  ∃ base' prims, prims ≤ 3 ∧
    ((∃ logics ≤ 7, hd.Holds base 0 (hd.entries 0) base' prims logics) ∨
      hd.Fills base 0 (hd.entries 0) base' prims 8)

end Disk

/-- `partition_scan(hd, 0)` returns, without asking for a sector behind `max_lba` and without
leaving the arrays, however deep the calls may nest. -/
structure ScanSafe (heap : Nat → Bytes) (hd : Disk) (s : ScanState) : Prop where
  returns : ∃ depth s', partitionScan heap hd depth 0 s = .ok s'
  addressed : ∀ depth, partitionScan heap hd depth 0 s ≠ .error (.panic .ideRead)
  inArrays : ∀ depth, partitionScan heap hd depth 0 s ≠ .error .outOfBounds

section Nesting

variable {heap : Nat → Bytes} {hd : Disk} {scan scan' : UInt32 → ScanState → Except Halt ScanState}

/-- `scan'` goes on where `scan` has run out of calls. -/
def Deepens (scan scan' : UInt32 → ScanState → Except Halt ScanState) : Prop :=
  ∀ lba s, scan lba s ≠ .error .disabled → scan' lba s = scan lba s

theorem Deepens.bind (deepens : Deepens scan scan') {lba : UInt32} {s : ScanState}
    {next next' : ScanState → Except Halt ScanState}
    (later : ∀ s, next s ≠ .error .disabled → next' s = next s)
    (ran : (scan lba s >>= next) ≠ .error .disabled) :
    (scan' lba s >>= next') = (scan lba s >>= next) := by
  cases result : scan lba s with
  | error reason =>
      rw [result, error_bind] at ran
      have notDisabled : scan lba s ≠ .error .disabled := by rwa [result]
      rw [deepens lba s notDisabled, result, error_bind, error_bind]
  | ok s₁ =>
      rw [result, ok_bind] at ran
      rw [deepens lba s (by rw [result]; nofun), result, ok_bind, ok_bind]
      exact later s₁ ran

theorem setExtLbaBase_self (s : ScanState) : s.setExtLbaBase s.extLbaBase = s := rfl

theorem scanEntries_isLink {p : PartitionTableEntry} (isLink : p.fsType = 0x5) (lba : UInt32)
    (ps : List PartitionTableEntry) (s : ScanState) :
    scanEntries scan hd lba (p :: ps) s =
      scan (linkLba s.extLbaBase p) (s.setExtLbaBase (linkBase s.extLbaBase p)) >>=
        scanEntries scan hd lba ps := by
  by_cases based : s.extLbaBase ≠ 0
  · rw [scanEntries_link isLink based, linkLba, linkBase, if_pos based, if_pos based,
      setExtLbaBase_self]
  · rw [scanEntries_extended isLink (not_not.mp based), linkLba, linkBase, if_neg based,
      if_neg based]

theorem Deepens.scanEntries (deepens : Deepens scan scan') (lba : UInt32)
    (ps : List PartitionTableEntry) (s : ScanState)
    (ran : scanEntries scan hd lba ps s ≠ .error .disabled) :
    Device.scanEntries scan' hd lba ps s = Device.scanEntries scan hd lba ps s := by
  induction ps generalizing s with
  | nil => rfl
  | cons p ps inductionHypothesis =>
      by_cases isLink : p.fsType = 0x5
      · rw [scanEntries_isLink isLink] at ran ⊢
        rw [scanEntries_isLink isLink]
        exact deepens.bind inductionHypothesis ran
      · by_cases empty : p.fsType = 0
        · simp only [Device.scanEntries, empty, if_false, ne_eq, not_true] at ran ⊢
          exact inductionHypothesis s ran
        · by_cases mbr : lba = 0
          · simp only [Device.scanEntries, isLink, empty, mbr, if_false, if_true, ne_eq,
              not_false_eq_true] at ran ⊢
            cases room : inArray s.pNo 4 with
            | error reason => rfl
            | ok u =>
                rw [room, ok_bind] at ran
                rw [ok_bind, ok_bind]
                cases few : check .partitionScan ((s.addPrimary hd 0 p).pNo < 4) with
                | error reason => rfl
                | ok u =>
                    rw [few, ok_bind, ← mbr] at ran
                    rw [ok_bind, ok_bind, ← mbr]
                    exact inductionHypothesis _ ran
          · simp only [Device.scanEntries, isLink, empty, mbr, if_false, ne_eq,
              not_false_eq_true, if_true] at ran ⊢
            cases room : inArray s.lNo 8 with
            | error reason => rfl
            | ok u =>
                rw [room, ok_bind] at ran
                rw [ok_bind, ok_bind]
                split
                next => rfl
                next notFull =>
                  rw [if_neg notFull] at ran
                  exact inductionHypothesis _ ran

theorem partitionScan_deepens (heap : Nat → Bytes) (hd : Disk) (depth : Nat) :
    Deepens (partitionScan heap hd depth) (partitionScan heap hd (depth + 1)) := by
  induction depth with
  | zero => exact fun lba s ran => absurd rfl ran
  | succ depth inductionHypothesis =>
      intro lba s ran
      by_cases addressed : lba.toNat ≤ maxLba
      · rw [partitionScan_eq addressed] at ran ⊢
        rw [partitionScan_eq addressed]
        exact inductionHypothesis.scanEntries lba _ s ran
      · have behind : maxLba < lba.toNat := by omega
        rw [partitionScan_behind behind, partitionScan_behind behind]

theorem partitionScan_deepens_le (heap : Nat → Bytes) (hd : Disk) {depth depth' : Nat}
    (le : depth ≤ depth') :
    Deepens (partitionScan heap hd depth) (partitionScan heap hd depth') := by
  induction le with
  | refl => exact fun lba s _ => rfl
  | step le inductionHypothesis =>
      intro lba s ran
      have same := inductionHypothesis lba s ran
      rw [partitionScan_deepens heap hd _ lba s (by rwa [same]), same]

theorem partitionScan_of_returns {depth : Nat} {lba : UInt32} {s s' : ScanState}
    (returns : partitionScan heap hd depth lba s = .ok s') (depth' : Nat) :
    partitionScan heap hd depth' lba s = .ok s' ∨
      partitionScan heap hd depth' lba s = .error .disabled := by
  by_cases ran : partitionScan heap hd depth' lba s = .error .disabled
  · exact Or.inr ran
  · rcases Nat.le_total depth depth' with le | ge
    · refine Or.inl ?_
      rw [partitionScan_deepens_le heap hd le lba s (by rw [returns]; nofun), returns]
    · rw [← partitionScan_deepens_le heap hd ge lba s ran, returns]
      exact Or.inl rfl

theorem scanSafe_iff_returns {s : ScanState} :
    ScanSafe heap hd s ↔ ∃ depth s', partitionScan heap hd depth 0 s = .ok s' := by
  refine ⟨ScanSafe.returns, fun safe => ⟨safe, fun depth' ran => ?_, fun depth' ran => ?_⟩⟩
  · obtain ⟨depth, s', returns⟩ := safe
    rcases partitionScan_of_returns returns depth' with same | short
    · cases ran.symm.trans same
    · cases ran.symm.trans short
  · obtain ⟨depth, s', returns⟩ := safe
    rcases partitionScan_of_returns returns depth' with same | short
    · cases ran.symm.trans same
    · cases ran.symm.trans short

end Nesting

section Scan

variable {heap : Nat → Bytes} {hd : Disk} {walk : UInt32 → ScanState → Except Halt ScanState}
  {base base' lba : UInt32} {p : PartitionTableEntry} {ps : List PartitionTableEntry}
  {prims logics left : Nat} {s s' s₁ : ScanState}

/-- The counters after so many partitions have been entered. -/
structure Counted (s s' : ScanState) (base' : UInt32) (prims logics : Nat) : Prop where
  base : s'.extLbaBase = base'
  pNo : s'.pNo = s.pNo + prims
  lNo : s'.lNo = s.lNo + logics

theorem Counted.trans {prims' logics' : Nat} (first : Counted s s₁ base prims logics)
    (second : Counted s₁ s' base' prims' logics') :
    Counted s s' base' (prims + prims') (logics + logics') :=
  ⟨second.base, by rw [second.pNo, first.pNo, Nat.add_assoc],
    by rw [second.lNo, first.lNo, Nat.add_assoc]⟩

theorem scanEntries_oneMore (isPlain : p.Plain) (hd : Disk) (roomP : lba = 0 → s.pNo < 3)
    (roomL : lba ≠ 0 → s.lNo < 7) :
    ∃ s₁, Counted s s₁ s.extLbaBase (primIn lba) (logicIn lba) ∧
      ∀ walk ps, scanEntries walk hd lba (p :: ps) s = scanEntries walk hd lba ps s₁ := by
  by_cases mbr : lba = 0
  · subst mbr
    refine ⟨s.addPrimary hd 0 p, ⟨rfl, rfl, rfl⟩, fun walk ps => ?_⟩
    exact scanEntries_primary isPlain (roomP rfl)
  · have room := roomL mbr
    refine ⟨s.addLogical hd lba p, ⟨rfl, ?_, ?_⟩, fun walk ps => ?_⟩
    · rw [primIn, if_neg mbr]
      rfl
    · rw [logicIn, if_neg mbr]
      rfl
    · exact scanEntries_logical isPlain mbr (by omega) (by omega)

/-- The eighth logical partition ends the loop over its record. -/
theorem scanEntries_eighth (isPlain : p.Plain) (notMbr : lba ≠ 0) (seven : s.lNo = 7) :
    scanEntries walk hd lba (p :: ps) s = .ok (s.addLogical hd lba p) := by
  have room : s.lNo < 8 := by omega
  rw [scanEntries, if_neg isPlain.1, if_pos isPlain.2, if_neg notMbr, inArray, if_pos room,
    ok_bind]
  exact if_pos (by rw [ScanState.addLogical_lNo, seven])

theorem scanEntries_plain_room (isPlain : p.Plain)
    (ran : scanEntries walk hd lba (p :: ps) s = .ok s') :
    lba = 0 ∧ s.pNo < 3 ∨ lba ≠ 0 ∧ s.lNo < 8 := by
  rw [scanEntries, if_neg isPlain.1, if_pos isPlain.2] at ran
  by_cases mbr : lba = 0
  · rw [if_pos mbr] at ran
    obtain ⟨_, _, ran⟩ := except_bind_eq_ok.mp ran
    obtain ⟨_, few, _⟩ := except_bind_eq_ok.mp ran
    rw [check_eq_ok, decide_eq_true_eq, ScanState.addPrimary_pNo] at few
    exact Or.inl ⟨mbr, by omega⟩
  · rw [if_neg mbr] at ran
    obtain ⟨_, room, _⟩ := except_bind_eq_ok.mp ran
    rw [inArray] at room
    split at room
    next inside => exact Or.inr ⟨mbr, inside⟩
    next => cases room

theorem scanEntries_link_returns {depth depth' : Nat} (isLink : p.fsType = 0x5)
    (addressed : (linkLba s.extLbaBase p).toNat ≤ maxLba)
    (below : scanEntries (partitionScan heap hd depth) hd (linkLba s.extLbaBase p)
      (hd.entries (linkLba s.extLbaBase p)) (s.setExtLbaBase (linkBase s.extLbaBase p)) = .ok s₁)
    (rest : scanEntries (partitionScan heap hd depth') hd lba ps s₁ = .ok s') :
    ∃ depth, scanEntries (partitionScan heap hd depth) hd lba (p :: ps) s = .ok s' := by
  rw [← partitionScan_eq addressed] at below
  refine ⟨max (depth + 1) depth', ?_⟩
  have deeper := partitionScan_deepens_le heap hd (Nat.le_max_left (depth + 1) depth')
  have deeper' := partitionScan_deepens_le heap hd (Nat.le_max_right (depth + 1) depth')
  rw [scanEntries_isLink isLink, deeper _ _ (by rw [below]; nofun), below, ok_bind,
    deeper'.scanEntries lba ps s₁ (by rw [rest]; nofun), rest]

/-- The same with the counters. -/
theorem scanEntries_link_counted {depth depth' prims' logics' : Nat} (isLink : p.fsType = 0x5)
    (addressed : (linkLba s.extLbaBase p).toNat ≤ maxLba)
    (below : scanEntries (partitionScan heap hd depth) hd (linkLba s.extLbaBase p)
      (hd.entries (linkLba s.extLbaBase p)) (s.setExtLbaBase (linkBase s.extLbaBase p)) = .ok s₁)
    (counted : Counted (s.setExtLbaBase (linkBase s.extLbaBase p)) s₁ base prims logics)
    (rest : scanEntries (partitionScan heap hd depth') hd lba ps s₁ = .ok s')
    (counted' : Counted s₁ s' base' prims' logics') :
    ∃ depth s', scanEntries (partitionScan heap hd depth) hd lba (p :: ps) s = .ok s' ∧
      Counted s s' base' (prims + prims') (logics + logics') := by
  obtain ⟨deep, ran⟩ := scanEntries_link_returns isLink addressed below rest
  have whole : Counted s s₁ base prims logics := ⟨counted.base, counted.pNo, counted.lNo⟩
  exact ⟨deep, s', ran, whole.trans counted'⟩

theorem scanEntries_plain_counted (isPlain : p.Plain) (roomP : lba = 0 → s.pNo < 3)
    (roomL : lba ≠ 0 → s.lNo < 7)
    (later : ∀ s₁, Counted s s₁ s.extLbaBase (primIn lba) (logicIn lba) → ∃ depth s',
      scanEntries (partitionScan heap hd depth) hd lba ps s₁ = .ok s' ∧
        Counted s₁ s' base' prims logics) :
    ∃ depth s', scanEntries (partitionScan heap hd depth) hd lba (p :: ps) s = .ok s' ∧
      Counted s s' base' (prims + primIn lba) (logics + logicIn lba) := by
  obtain ⟨s₁, counted, step⟩ := scanEntries_oneMore isPlain hd roomP roomL
  obtain ⟨depth, s', ran, counted'⟩ := later s₁ counted
  refine ⟨depth, s', by rw [step, ran], ?_⟩
  rw [Nat.add_comm prims, Nat.add_comm logics]
  exact counted.trans counted'

theorem primIn_room (room : prims + primIn lba = 0 ∨ s.pNo + (prims + primIn lba) ≤ 3)
    (mbr : lba = 0) : s.pNo < 3 := by
  rw [primIn, if_pos mbr] at room
  omega

theorem Disk.Holds.scan (heap : Nat → Bytes) (holds : hd.Holds base lba ps base' prims logics)
    (based : s.extLbaBase = base) (roomP : prims = 0 ∨ s.pNo + prims ≤ 3)
    (roomL : logics = 0 ∨ s.lNo + logics ≤ 7) :
    ∃ depth s', scanEntries (partitionScan heap hd depth) hd lba ps s = .ok s' ∧
      Counted s s' base' prims logics := by
  induction holds generalizing s with
  | nil => exact ⟨0, s, rfl, based, rfl, rfl⟩
  | @plain base base' lba p ps prims logics isPlain _ inductionHypothesis =>
      subst based
      refine scanEntries_plain_counted isPlain (primIn_room roomP) (fun notMbr => ?_)
        fun s₁ counted => ?_
      · rw [logicIn, if_neg notMbr] at roomL
        omega
      · have pNo := counted.pNo
        have lNo := counted.lNo
        exact inductionHypothesis counted.base (by omega) (by omega)
  | @link base base₁ base' lba p ps prims prims' logics logics' isLink addressed _ _
      belowHypothesis restHypothesis =>
      subst based
      obtain ⟨depth, s₁, below, counted⟩ := belowHypothesis
        (s := s.setExtLbaBase (linkBase s.extLbaBase p)) rfl
        (by rw [ScanState.setExtLbaBase_pNo]; omega) (by rw [ScanState.setExtLbaBase_lNo]; omega)
      have pNo : s₁.pNo = s.pNo + prims := counted.pNo
      have lNo : s₁.lNo = s.lNo + logics := counted.lNo
      obtain ⟨depth', s', rest, counted'⟩ := restHypothesis counted.base (by omega) (by omega)
      exact scanEntries_link_counted isLink addressed below counted rest counted'

theorem Disk.Fills.pos (fills : hd.Fills base lba ps base' prims left) : 0 < left := by
  induction fills with
  | last => exact Nat.one_pos
  | plain _ _ inductionHypothesis => exact Nat.add_pos_left inductionHypothesis _
  | past _ _ _ _ inductionHypothesis => exact Nat.add_pos_right _ inductionHypothesis
  | within _ _ _ _ inductionHypothesis => exact inductionHypothesis

theorem Disk.Fills.scan (heap : Nat → Bytes) (fills : hd.Fills base lba ps base' prims left)
    (based : s.extLbaBase = base) (roomP : prims = 0 ∨ s.pNo + prims ≤ 3)
    (eighth : s.lNo + left = 8) :
    ∃ depth s', scanEntries (partitionScan heap hd depth) hd lba ps s = .ok s' ∧
      Counted s s' base' prims left := by
  induction fills generalizing s with
  | @last base lba p ps isPlain notMbr =>
      exact ⟨0, _, scanEntries_eighth isPlain notMbr (by omega), based, rfl, rfl⟩
  | @plain base base' lba p ps prims left isPlain later inductionHypothesis =>
      have some := later.pos
      subst based
      refine scanEntries_plain_counted isPlain (primIn_room roomP) (fun notMbr => ?_)
        fun s₁ counted => ?_
      · rw [logicIn, if_neg notMbr] at eighth
        omega
      · have pNo := counted.pNo
        have lNo := counted.lNo
        exact inductionHypothesis counted.base (by omega) (by omega)
  | @past base base₁ base' lba p ps prims prims' logics left isLink addressed below later
      inductionHypothesis =>
      subst based
      have some := later.pos
      obtain ⟨depth, s₁, below, counted⟩ := below.scan heap
        (s := s.setExtLbaBase (linkBase s.extLbaBase p)) rfl
        (by rw [ScanState.setExtLbaBase_pNo]; omega) (by rw [ScanState.setExtLbaBase_lNo]; omega)
      have pNo : s₁.pNo = s.pNo + prims := counted.pNo
      have lNo : s₁.lNo = s.lNo + logics := counted.lNo
      obtain ⟨depth', s', rest, counted'⟩ := inductionHypothesis counted.base (by omega) (by omega)
      exact scanEntries_link_counted isLink addressed below counted rest counted'
  | @within base base₁ base' lba p ps prims prims' left isLink addressed _ later
      inductionHypothesis =>
      subst based
      obtain ⟨depth, s₁, below, counted⟩ := inductionHypothesis
        (s := s.setExtLbaBase (linkBase s.extLbaBase p)) rfl
        (by rw [ScanState.setExtLbaBase_pNo]; omega) eighth
      have pNo : s₁.pNo = s.pNo + prims := counted.pNo
      obtain ⟨depth', s', rest, counted'⟩ := later.scan heap counted.base (by omega) (Or.inl rfl)
      exact scanEntries_link_counted isLink addressed below counted rest counted'

def Seen (hd : Disk) (lba : UInt32) (ps : List PartitionTableEntry) (s s' : ScanState) : Prop :=
  ∃ prims, (prims = 0 ∨ s'.pNo ≤ 3) ∧
    ((∃ logics, (logics = 0 ∨ s'.lNo ≤ 7) ∧ Counted s s' s'.extLbaBase prims logics ∧
        hd.Holds s.extLbaBase lba ps s'.extLbaBase prims logics) ∨
      ∃ left, s'.lNo = 8 ∧ Counted s s' s'.extLbaBase prims left ∧
        hd.Fills s.extLbaBase lba ps s'.extLbaBase prims left)

theorem Seen.lNo_le (seen : Seen hd lba ps s s') (few : s.lNo ≤ 8) : s'.lNo ≤ 8 := by
  obtain ⟨prims, -, ⟨logics, room, counted, -⟩ | ⟨left, eight, -, -⟩⟩ := seen
  · have lNo := counted.lNo
    omega
  · omega

theorem Seen.pNo (seen : Seen hd lba ps s s') :
    s'.pNo = s.pNo ∨ s.pNo ≤ s'.pNo ∧ s'.pNo ≤ 3 := by
  obtain ⟨prims, few, ⟨_, -, counted, -⟩ | ⟨_, -, counted, -⟩⟩ := seen
  · have pNo := counted.pNo
    omega
  · have pNo := counted.pNo
    omega

theorem Seen.plain (isPlain : p.Plain)
    (counted : Counted s s₁ s.extLbaBase (primIn lba) (logicIn lba))
    (roomP : lba = 0 → s.pNo < 3) (roomL : lba ≠ 0 → s.lNo < 7) (rest : Seen hd lba ps s₁ s') :
    Seen hd lba (p :: ps) s s' := by
  have pNo := counted.pNo
  have lNo := counted.lNo
  have roomHere : (primIn lba = 0 ∨ s₁.pNo ≤ 3) ∧ (logicIn lba = 0 ∨ s₁.lNo ≤ 7) := by
    by_cases mbr : lba = 0
    · have room := roomP mbr
      rw [primIn, if_pos mbr] at pNo
      exact ⟨Or.inr (by omega), Or.inl (if_pos mbr)⟩
    · have room := roomL mbr
      rw [logicIn, if_neg mbr] at lNo
      exact ⟨Or.inl (if_neg mbr), Or.inr (by omega)⟩
  obtain ⟨prims, few, holds⟩ := rest
  rw [counted.base] at holds
  rcases holds with ⟨logics, room, counted', holds⟩ | ⟨left, eight, counted', fills⟩
  · have pNo' := counted'.pNo
    have lNo' := counted'.lNo
    have whole := counted.trans counted'
    rw [Nat.add_comm (primIn lba), Nat.add_comm (logicIn lba)] at whole
    exact ⟨prims + primIn lba, by omega,
      Or.inl ⟨logics + logicIn lba, by omega, whole, .plain isPlain holds⟩⟩
  · have pNo' := counted'.pNo
    have whole := counted.trans counted'
    rw [Nat.add_comm (primIn lba), Nat.add_comm (logicIn lba)] at whole
    exact ⟨prims + primIn lba, by omega,
      Or.inr ⟨left + logicIn lba, eight, whole, .plain isPlain fills⟩⟩

theorem Seen.link (isLink : p.fsType = 0x5) (addressed : (linkLba s.extLbaBase p).toNat ≤ maxLba)
    (below : Seen hd (linkLba s.extLbaBase p) (hd.entries (linkLba s.extLbaBase p))
      (s.setExtLbaBase (linkBase s.extLbaBase p)) s₁)
    (rest : Seen hd lba ps s₁ s') : Seen hd lba (p :: ps) s s' := by
  have pNo := rest.pNo
  obtain ⟨prims, few, below⟩ := below
  obtain ⟨prims', few', rest⟩ := rest
  refine ⟨prims + prims', ?_, ?_⟩
  · rcases rest with ⟨_, -, counted', -⟩ | ⟨_, -, counted', -⟩
    · have pNo' := counted'.pNo
      omega
    · have pNo' := counted'.pNo
      omega
  · rcases below with ⟨logics, room, counted, holds⟩ | ⟨left, eight, counted, fills⟩
    · have here : Counted s s₁ s₁.extLbaBase prims logics := ⟨rfl, counted.pNo, counted.lNo⟩
      rcases rest with ⟨logics', room', counted', holds'⟩ | ⟨left, eight, counted', fills'⟩
      · refine Or.inl ⟨logics + logics', ?_, here.trans counted', ?_⟩
        · have lNo := counted'.lNo
          omega
        · exact .link isLink addressed holds holds'
      · exact Or.inr ⟨logics + left, eight, here.trans counted',
          .past isLink addressed holds fills'⟩
    · have here : Counted s s₁ s₁.extLbaBase prims left := ⟨rfl, counted.pNo, counted.lNo⟩
      rcases rest with ⟨logics', room', counted', holds'⟩ | ⟨left', eight', counted', fills'⟩
      · have lNo := counted'.lNo
        obtain rfl : logics' = 0 := by omega
        exact Or.inr ⟨left, by omega, here.trans counted', .within isLink addressed fills holds'⟩
      · have lNo := counted'.lNo
        have some := fills'.pos
        omega

theorem Seen.scanEntries (nested : ∀ lba s s', s.lNo ≤ 8 → walk lba s = .ok s' →
      lba.toNat ≤ maxLba ∧ Seen hd lba (hd.entries lba) s s')
    (used : ∀ p ∈ ps, p.fsType ≠ 0) (few : s.lNo ≤ 8)
    (ran : Device.scanEntries walk hd lba ps s = .ok s') : Seen hd lba ps s s' := by
  induction ps generalizing s with
  | nil =>
      cases ran
      exact ⟨0, Or.inl rfl, Or.inl ⟨0, Or.inl rfl, ⟨rfl, rfl, rfl⟩, .nil⟩⟩
  | cons p ps inductionHypothesis =>
      have later := fun {s : ScanState} (few : s.lNo ≤ 8) => inductionHypothesis
        (fun q inRest => used q (List.mem_cons_of_mem p inRest)) few
      by_cases isLink : p.fsType = 0x5
      · rw [scanEntries_isLink isLink] at ran
        obtain ⟨s₁, ran, rest⟩ := except_bind_eq_ok.mp ran
        obtain ⟨addressed, below⟩ := nested _ (s.setExtLbaBase (linkBase s.extLbaBase p)) _ few ran
        exact .link isLink addressed below (later (below.lNo_le few) rest)
      · have isPlain : p.Plain := ⟨isLink, used p List.mem_cons_self⟩
        have room := scanEntries_plain_room isPlain ran
        by_cases eighth : lba ≠ 0 ∧ s.lNo = 7
        · rw [scanEntries_eighth isPlain eighth.1 eighth.2, Except.ok.injEq] at ran
          subst ran
          refine ⟨0, Or.inl rfl, Or.inr ⟨1, ?_, ⟨rfl, rfl, rfl⟩, .last isPlain eighth.1⟩⟩
          rw [ScanState.addLogical_lNo, eighth.2]
        · have roomP : lba = 0 → s.pNo < 3 := by tauto
          have roomL : lba ≠ 0 → s.lNo < 7 := by
            intro notMbr
            have notSeven : s.lNo ≠ 7 := fun seven => eighth ⟨notMbr, seven⟩
            have below : s.lNo < 8 := by tauto
            omega
          obtain ⟨s₁, counted, step⟩ := scanEntries_oneMore isPlain hd roomP roomL
          rw [step] at ran
          refine .plain isPlain counted roomP roomL (later ?_ ran)
          have lNo := counted.lNo
          rw [lNo, logicIn]
          split
          next => exact few
          next notMbr =>
            have below := roomL notMbr
            omega

theorem partitionScan_seen (heap : Nat → Bytes) (hd : Disk) (depth : Nat) (lba : UInt32)
    (s s' : ScanState) (few : s.lNo ≤ 8) (ran : partitionScan heap hd depth lba s = .ok s') :
    lba.toNat ≤ maxLba ∧ Seen hd lba (hd.entries lba) s s' := by
  induction depth generalizing lba s s' with
  | zero => cases ran
  | succ depth inductionHypothesis =>
      by_cases addressed : lba.toNat ≤ maxLba
      · rw [partitionScan_eq addressed] at ran
        refine ⟨addressed, .scanEntries inductionHypothesis (fun p inTable => ?_) few ran⟩
        simpa using (List.mem_filter.mp inTable).2
      · rw [partitionScan_behind (by omega)] at ran
        cases ran

/-- The scan of a disk returns, and stays inside the arrays and the disk, exactly if its
records are linked so that it comes to an end with the partitions there is room for. -/
theorem scanSafe_iff (heap : Nat → Bytes) (hd : Disk) (s : ScanState) (noPrims : s.pNo = 0)
    (noLogics : s.lNo = 0) : ScanSafe heap hd s ↔ hd.Scannable s.extLbaBase := by
  rw [scanSafe_iff_returns]
  constructor
  · rintro ⟨depth, s', ran⟩
    obtain ⟨-, prims, few, seen⟩ := partitionScan_seen heap hd depth 0 s s' (by omega) ran
    refine ⟨s'.extLbaBase, prims, ?_, ?_⟩
    · rcases seen with ⟨_, -, counted, -⟩ | ⟨_, -, counted, -⟩
      · have pNo := counted.pNo
        omega
      · have pNo := counted.pNo
        omega
    · rcases seen with ⟨logics, room, counted, holds⟩ | ⟨left, eight, counted, fills⟩
      · have lNo := counted.lNo
        exact Or.inl ⟨logics, by omega, holds⟩
      · have lNo := counted.lNo
        obtain rfl : left = 8 := by omega
        exact Or.inr fills
  · rintro ⟨base', prims, few, ⟨logics, room, holds⟩ | fills⟩
    · obtain ⟨depth, s', ran, -⟩ := holds.scan heap rfl (by omega) (by omega)
      exact ⟨depth + 1, s', by rw [partitionScan_eq (Nat.zero_le _), ran]⟩
    · obtain ⟨depth, s', ran, -⟩ := fills.scan heap rfl (by omega) (by omega)
      exact ⟨depth + 1, s', by rw [partitionScan_eq (Nat.zero_le _), ran]⟩

end Scan

/-- The MBR with an extended partition, whose records hold two logical partitions. -/
theorem scanSafe_iff_twoLogicals :
    ScanSafe (fun _ => Bytes.fill 0) twoLogicals (noPartitions twoLogicals) := by
  have mbr : twoLogicals.entries 0 =
      [⟨0x83, 2048, 500⟩, ⟨0x5, 10000, 9000⟩, ⟨0x83, 30000, 700⟩] := by decide
  have first : twoLogicals.entries 10000 = [⟨0x5, 4000, 3000⟩, ⟨0x83, 63, 3900⟩] := by decide
  have second : twoLogicals.entries 14000 = [⟨0x83, 63, 2900⟩] := by decide
  have below : twoLogicals.Holds 10000 14000 (twoLogicals.entries 14000) 10000 0 1 := by
    rw [second]
    exact .plain (by decide) .nil
  have chain : twoLogicals.Holds 10000 10000 (twoLogicals.entries 10000) 10000 0 2 := by
    rw [first]
    exact .link rfl (by decide) below (.plain (by decide) .nil)
  refine (scanSafe_iff (fun _ => Bytes.fill 0) twoLogicals (noPartitions twoLogicals) rfl rfl).mpr
    ⟨10000, 2, by decide, Or.inl ⟨2, by decide, ?_⟩⟩
  rw [mbr]
  exact .plain (by decide) (.link rfl (by decide) chain (.plain (by decide) .nil))

/-- A record that links to itself. -/
def cyclicRecord : Disk where
  name := "sdb"
  sectors := fun a =>
    if a < 512 then bootSector [⟨0x5, 100, 50⟩] a
    else bootSector [⟨0x5, 0, 50⟩] (a - 512 * 100)

/-- Two records with four logical partitions each, and one more partition behind the links to
them. -/
def nineLogicals : Disk where
  name := "sdb"
  sectors := fun a =>
    if a < 512 then bootSector [⟨0x5, 100, 50⟩] a
    else if a < 512 * 101 then
      bootSector [⟨0x5, 1, 9⟩, ⟨0x5, 2, 9⟩, ⟨0x83, 3, 9⟩] (a - 512 * 100)
    else if a < 512 * 102 then
      bootSector [⟨0x83, 1, 1⟩, ⟨0x83, 2, 1⟩, ⟨0x83, 3, 1⟩, ⟨0x83, 4, 1⟩] (a - 512 * 101)
    else
      bootSector [⟨0x83, 1, 1⟩, ⟨0x83, 2, 1⟩, ⟨0x83, 3, 1⟩, ⟨0x83, 4, 1⟩] (a - 512 * 102)

theorem cyclicRecord_nested (heap : Nat → Bytes) (depth : Nat) (s : ScanState)
    (based : s.extLbaBase = 100) :
    partitionScan heap cyclicRecord depth 100 s = .error .disabled := by
  have record : cyclicRecord.entries 100 = [⟨0x5, 0, 50⟩] := by decide
  induction depth with
  | zero => rfl
  | succ depth inductionHypothesis =>
      rw [partitionScan_eq (by decide), record, scanEntries_link rfl (by rw [based]; decide), based]
      have self : (0 : UInt32) + 100 = 100 := rfl
      rw [self, inductionHypothesis, error_bind]

/-- No depth of calls is enough for the first disk, and the ninth logical partition of the
second one is written behind `logic_parts`. -/
theorem partitionScan_corrupted :
    (∀ heap depth, partitionScan heap cyclicRecord depth 0 (noPartitions cyclicRecord) =
      .error .disabled) ∧
    partitionScan (fun _ => Bytes.fill 0) nineLogicals 3 0 (noPartitions nineLogicals) =
      .error .outOfBounds := by
  constructor
  · intro heap depth
    have mbr : cyclicRecord.entries 0 = [⟨0x5, 100, 50⟩] := by decide
    cases depth with
    | zero => rfl
    | succ depth =>
        rw [partitionScan_eq (by decide), mbr, scanEntries_extended rfl rfl]
        have nested := cyclicRecord_nested heap depth
          ((noPartitions cyclicRecord).setExtLbaBase 100) rfl
        rw [nested]
        rfl
  · rfl

end HongbaiOS.Device
