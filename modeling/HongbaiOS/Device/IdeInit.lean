import HongbaiOS.Device.PartitionScan

/-!
# Scanning several disks

`ide_init` scans the second device of every channel.  Between two disks it resets `p_no`
and `l_no`, but not `ext_lba_base`, so a disk with an extended partition shifts the links
of those scanned after it.
-/

namespace HongbaiOS.Device

open HongbaiOS.Library HongbaiOS.Kernel

/-- `channel_cnt` for the number of disks that the BIOS has found. -/
def channelCnt (hdCnt : UInt8) : Nat := (hdCnt.toNat + 2 - 1) / 2

/-- The device `devNo` of channel `channelNo`, with its contents. -/
def ideDisk (contents : Nat → Nat → Bytes) (channelNo devNo : Nat) : Disk where
  name := "sd" ++ String.singleton (Char.ofNat (97 + channelNo * 2 + devNo))
  sectors := contents channelNo devNo

/-- The global variables of `ide.c`; the arrays are those of `channels[c].devices[1]`. -/
structure IdeState where
  extLbaBase : UInt32
  pNo : Nat
  lNo : Nat
  primParts : Nat → Nat → ScannedPartition
  logicParts : Nat → Nat → ScannedPartition
  /-- Each tag with the channel of its disk. -/
  partitionList : List (Nat × PartTag)

structure Registered where
  primParts : Nat → ScannedPartition
  logicParts : Nat → ScannedPartition
  tags : List PartTag

namespace IdeState

/-- The state `partition_scan` starts from on channel `channelNo`. -/
def scanState (s : IdeState) (channelNo : Nat) : ScanState where
  extLbaBase := s.extLbaBase
  pNo := s.pNo
  lNo := s.lNo
  primParts := s.primParts channelNo
  logicParts := s.logicParts channelNo
  partitionList := []

/-- The state after the scan, which has entered the partitions of one disk. -/
def scanned (s : IdeState) (channelNo : Nat) (t : ScanState) : IdeState where
  extLbaBase := t.extLbaBase
  pNo := t.pNo
  lNo := t.lNo
  primParts := Function.update s.primParts channelNo t.primParts
  logicParts := Function.update s.logicParts channelNo t.logicParts
  partitionList := s.partitionList ++ t.partitionList.map fun tag => (channelNo, tag)

/-- What is registered of the disk of channel `channelNo`. -/
def registered (s : IdeState) (channelNo : Nat) : Registered where
  primParts := s.primParts channelNo
  logicParts := s.logicParts channelNo
  tags := (s.partitionList.filter fun tag => tag.1 = channelNo).map Prod.snd

end IdeState

/-- One pass of the loop over the devices of a channel.  Only a second device is scanned. -/
def initDevice (heap : Nat → Bytes) (depth : Nat) (contents : Nat → Nat → Bytes)
    (channelNo devNo : Nat) (s : IdeState) : Except Halt IdeState := do
  let s ← if devNo ≠ 0 then do
      let t ← partitionScan heap (ideDisk contents channelNo devNo) depth 0
        (s.scanState channelNo)
      pure (s.scanned channelNo t)
    else pure s
  return { s with pNo := 0, lNo := 0 }

/-- One pass of the loop over the channels; there is room for two. -/
def initChannel (heap : Nat → Bytes) (depth : Nat) (contents : Nat → Nat → Bytes)
    (channelNo : Nat) (s : IdeState) : Except Halt IdeState := do
  inArray channelNo 2
  let s ← initDevice heap depth contents channelNo 0 s
  initDevice heap depth contents channelNo 1 s

/-- The loop over the channels, as far as channel `cnt`. -/
def initChannels (heap : Nat → Bytes) (depth : Nat) (contents : Nat → Nat → Bytes) :
    (cnt : Nat) → IdeState → Except Halt IdeState
  | 0, s => .ok s
  | cnt + 1, s => do
      let s ← initChannels heap depth contents cnt s
      initChannel heap depth contents cnt s

/-- The state when `ide_init` is called. -/
def ideStart (contents : Nat → Nat → Bytes) : IdeState where
  extLbaBase := 0
  pNo := 0
  lNo := 0
  primParts := fun channelNo _ => ⟨0, 0, ideDisk contents channelNo 1, ""⟩
  logicParts := fun channelNo _ => ⟨0, 0, ideDisk contents channelNo 1, ""⟩
  partitionList := []

/-- `ide_init()`, what it registers. -/
def ideInit (heap : Nat → Bytes) (depth : Nat) (contents : Nat → Nat → Bytes)
    (hdCnt : UInt8) : Except Halt IdeState := do
  check .ideInit (hdCnt > 0)
  initChannels heap depth contents (channelCnt hdCnt) (ideStart contents)

/-- Whatever was scanned before, a disk is registered as if it were scanned first. -/
def OwnSectorsOnly (heap : Nat → Bytes) (depth : Nat) (contents : Nat → Nat → Bytes)
    (hdCnt : UInt8) : Prop :=
  ∀ channelNo < channelCnt hdCnt, ∀ s,
    initChannels heap depth contents channelNo (ideStart contents) = .ok s →
      (initChannel heap depth contents channelNo s).map (·.registered channelNo) =
        (initChannel heap depth contents channelNo (ideStart contents)).map
          (·.registered channelNo)

section Base

variable {heap : Nat → Bytes} {hd : Disk} {scan : UInt32 → ScanState → Except Halt ScanState}
  {extLba base : UInt32} {p : PartitionTableEntry} {ps rest : List PartitionTableEntry}
  {s s' : ScanState} {depth : Nat}

theorem setExtLbaBase_addPrimary :
    (s.setExtLbaBase base).addPrimary hd extLba p = (s.addPrimary hd extLba p).setExtLbaBase base :=
  rfl

theorem setExtLbaBase_addLogical :
    (s.setExtLbaBase base).addLogical hd extLba p = (s.addLogical hd extLba p).setExtLbaBase base :=
  rfl

/-- Without a link in the boot sector the base is neither read nor written. -/
theorem scanEntries_setExtLbaBase (noLink : ∀ p ∈ ps, p.fsType ≠ 0x5) :
    scanEntries scan hd extLba ps (s.setExtLbaBase base) =
      (scanEntries scan hd extLba ps s).map (·.setExtLbaBase base) := by
  induction ps generalizing s with
  | nil => rfl
  | cons p rest inductionHypothesis =>
      have notLink := noLink p List.mem_cons_self
      have noLink' : ∀ q ∈ rest, q.fsType ≠ 0x5 :=
        fun q inRest => noLink q (List.mem_cons_of_mem p inRest)
      simp only [scanEntries, if_neg notLink]
      split
      next =>
        split
        next =>
          by_cases room : s.pNo < 4
          · by_cases few : s.pNo + 1 < 4
            · simpa [inArray, room, few, check, setExtLbaBase_addPrimary] using
                inductionHypothesis (s := s.addPrimary hd extLba p) noLink'
            · simp [inArray, room, few, check, Except.map]
          · simp [inArray, room, Except.map]
        next =>
          by_cases room : s.lNo < 8
          · by_cases full : s.lNo + 1 ≥ 8
            · simp [inArray, room, full, Except.map, ScanState.addLogical,
                ScanState.setExtLbaBase]
            · simpa [inArray, room, full, setExtLbaBase_addLogical] using
                inductionHypothesis (s := s.addLogical hd extLba p) noLink'
          · simp [inArray, room, Except.map]
      next => exact inductionHypothesis noLink'

theorem noLink_of_extended (none : hd.extended = []) : ∀ p ∈ hd.entries 0, p.fsType ≠ 0x5 :=
  fun p inTable isLink => List.filter_eq_nil_iff.mp none p inTable (by simpa using isLink)

theorem partitionScan_setExtLbaBase (none : hd.extended = []) :
    partitionScan heap hd depth 0 (s.setExtLbaBase base) =
      (partitionScan heap hd depth 0 s).map (·.setExtLbaBase base) := by
  cases depth with
  | zero => rfl
  | succ depth =>
      rw [partitionScan_eq (Nat.zero_le _), partitionScan_eq (Nat.zero_le _)]
      exact scanEntries_setExtLbaBase (noLink_of_extended none)

theorem scanEntries_plain (noLink : ∀ p ∈ ps, p.fsType ≠ 0x5)
    (ran : scanEntries scan hd 0 (ps ++ rest) s = .ok s') :
    ∃ s₁, s₁.extLbaBase = s.extLbaBase ∧ scanEntries scan hd 0 rest s₁ = .ok s' := by
  induction ps generalizing s with
  | nil => exact ⟨s, rfl, ran⟩
  | cons p ps inductionHypothesis =>
      have notLink := noLink p List.mem_cons_self
      have noLink' : ∀ q ∈ ps, q.fsType ≠ 0x5 :=
        fun q inRest => noLink q (List.mem_cons_of_mem p inRest)
      rw [List.cons_append, scanEntries, if_neg notLink] at ran
      split at ran
      next =>
        rw [if_pos rfl] at ran
        obtain ⟨_, -, ran⟩ := except_bind_eq_ok.mp ran
        obtain ⟨_, -, ran⟩ := except_bind_eq_ok.mp ran
        obtain ⟨s₁, base, ran⟩ := inductionHypothesis noLink' ran
        exact ⟨s₁, base, ran⟩
      next => exact inductionHypothesis noLink' ran

/-- Once the base is set it stays. -/
theorem scanEntries_base (kept : ∀ {lba s s'}, scan lba s = .ok s' → s.extLbaBase ≠ 0 →
      s'.extLbaBase = s.extLbaBase)
    (ran : scanEntries scan hd extLba ps s = .ok s') (based : s.extLbaBase ≠ 0) :
    s'.extLbaBase = s.extLbaBase := by
  induction ps generalizing s with
  | nil =>
      cases ran
      rfl
  | cons p ps inductionHypothesis =>
      rw [scanEntries] at ran
      split at ran
      next =>
        obtain ⟨s₁, inner, ran⟩ := except_bind_eq_ok.mp ran
        have same := kept inner based
        rw [inductionHypothesis ran (by rw [same]; exact based), same]
      next =>
        split at ran
        next =>
          split at ran
          next =>
            obtain ⟨_, -, ran⟩ := except_bind_eq_ok.mp ran
            obtain ⟨_, -, ran⟩ := except_bind_eq_ok.mp ran
            exact inductionHypothesis (s := s.addPrimary hd extLba p) ran based
          next =>
            obtain ⟨_, -, ran⟩ := except_bind_eq_ok.mp ran
            dsimp only at ran
            split at ran
            next =>
              cases ran
              rfl
            next => exact inductionHypothesis (s := s.addLogical hd extLba p) ran based
        next => exact inductionHypothesis ran based

theorem partitionScan_base (ran : partitionScan heap hd depth extLba s = .ok s')
    (based : s.extLbaBase ≠ 0) : s'.extLbaBase = s.extLbaBase := by
  induction depth generalizing extLba s s' with
  | zero => cases ran
  | succ depth inductionHypothesis =>
      obtain ⟨bs, -, ran⟩ := except_bind_eq_ok.mp ran
      exact scanEntries_base (fun inner => inductionHypothesis inner) ran based

/-- The first link of the master boot record is followed with itself as the base. -/
theorem partitionScan_extended {q : PartitionTableEntry} {others : List PartitionTableEntry}
    (extended : hd.extended = q :: others) (noBase : s.extLbaBase = 0)
    (ran : partitionScan heap hd (depth + 1) 0 s = .ok s') :
    ∃ s₁ s₂, s₁.extLbaBase = q.startLba ∧ partitionScan heap hd depth q.startLba s₁ = .ok s₂ ∧
      (s₂.extLbaBase ≠ 0 → s'.extLbaBase = s₂.extLbaBase) := by
  obtain ⟨before, after, table, notBefore, isLink, -⟩ := List.filter_eq_cons_iff.mp extended
  rw [partitionScan_eq (Nat.zero_le _), table] at ran
  obtain ⟨s₁, base, ran⟩ := scanEntries_plain
    (fun p inBefore => by simpa using notBefore p inBefore) ran
  rw [scanEntries_extended (by simpa using isLink) (base.trans noBase)] at ran
  obtain ⟨s₂, inner, ran⟩ := except_bind_eq_ok.mp ran
  exact ⟨_, s₂, rfl, inner, scanEntries_base partitionScan_base ran⟩

/-- A link from the master boot record to itself is followed for ever. -/
theorem partitionScan_selfLink {q : PartitionTableEntry} {others : List PartitionTableEntry}
    (extended : hd.extended = q :: others) (itself : q.startLba = 0) (noBase : s.extLbaBase = 0) :
    partitionScan heap hd depth 0 s ≠ .ok s' := by
  induction depth generalizing s s' with
  | zero => intro ran; cases ran
  | succ depth inductionHypothesis =>
      intro ran
      obtain ⟨s₁, s₂, base, inner, -⟩ := partitionScan_extended extended noBase ran
      rw [itself] at base inner
      exact inductionHypothesis base inner

theorem partitionScan_base_eq_zero_iff (noBase : s.extLbaBase = 0)
    (ran : partitionScan heap hd depth 0 s = .ok s') :
    s'.extLbaBase = 0 ↔ hd.extended = [] := by
  cases depth with
  | zero => cases ran
  | succ depth =>
      cases extended : hd.extended with
      | nil =>
          refine iff_of_true ?_ rfl
          rw [partitionScan_eq (Nat.zero_le _), ← List.append_nil (hd.entries 0)] at ran
          obtain ⟨s₁, base, ran⟩ := scanEntries_plain (noLink_of_extended extended) ran
          cases ran
          exact base.trans noBase
      | cons q others =>
          refine iff_of_false (fun zero => ?_) (List.cons_ne_nil _ _)
          obtain ⟨s₁, s₂, base, inner, last⟩ := partitionScan_extended extended noBase ran
          by_cases itself : q.startLba = 0
          · rw [itself] at base inner
            exact partitionScan_selfLink extended itself base inner
          · have based : s₂.extLbaBase = q.startLba :=
              (partitionScan_base inner (by rw [base]; exact itself)).trans base
            rw [last (by rw [based]; exact itself), based] at zero
            exact itself zero

end Base

section Channels

variable {heap : Nat → Bytes} {depth : Nat} {contents : Nat → Nat → Bytes} {channelNo cnt : Nat}
  {s s' : IdeState}

/-- The scan of a disk in the state `ide_init` was called in, but for the base. -/
def firstScan (heap : Nat → Bytes) (depth : Nat) (contents : Nat → Nat → Bytes)
    (channelNo : Nat) (base : UInt32) : Except Halt ScanState :=
  partitionScan heap (ideDisk contents channelNo 1) depth 0
    (((ideStart contents).scanState channelNo).setExtLbaBase base)

/-- The channels from `cnt` on are untouched. -/
structure Ahead (contents : Nat → Nat → Bytes) (cnt : Nat) (s : IdeState) : Prop where
  primParts : ∀ channelNo, cnt ≤ channelNo →
    s.primParts channelNo = (ideStart contents).primParts channelNo
  logicParts : ∀ channelNo, cnt ≤ channelNo →
    s.logicParts channelNo = (ideStart contents).logicParts channelNo
  tags : ∀ tag ∈ s.partitionList, tag.1 < cnt

theorem initChannel_eq (ahead : Ahead contents channelNo s) :
    initChannel heap depth contents channelNo s =
      inArray channelNo 2 >>= fun _ =>
        (firstScan heap depth contents channelNo s.extLbaBase).map fun t =>
          { s.scanned channelNo t with pNo := 0, lNo := 0 } := by
  have start : ({ s with pNo := 0, lNo := 0 } : IdeState).scanState channelNo =
      ((ideStart contents).scanState channelNo).setExtLbaBase s.extLbaBase := by
    simp only [IdeState.scanState, ahead.primParts channelNo (le_refl _),
      ahead.logicParts channelNo (le_refl _)]
    rfl
  have scans : ∀ s₁ : IdeState, initDevice heap depth contents channelNo 1 s₁ =
      (partitionScan heap (ideDisk contents channelNo 1) depth 0 (s₁.scanState channelNo)).map
        fun t => { s₁.scanned channelNo t with pNo := 0, lNo := 0 } := by
    intro s₁
    simp only [initDevice, ne_eq, one_ne_zero, not_false_eq_true, if_true]
    cases partitionScan heap (ideDisk contents channelNo 1) depth 0 (s₁.scanState channelNo) <;> rfl
  rw [initChannel, firstScan, ← start]
  refine bind_congr fun _ => ?_
  exact scans { s with pNo := 0, lNo := 0 }

theorem Ahead.start : Ahead contents cnt (ideStart contents) :=
  ⟨fun _ _ => rfl, fun _ _ => rfl, fun _ inList => by cases inList⟩

theorem Ahead.initChannel (ahead : Ahead contents cnt s)
    (ran : initChannel heap depth contents cnt s = .ok s') : Ahead contents (cnt + 1) s' := by
  rw [initChannel_eq ahead] at ran
  obtain ⟨_, -, ran⟩ := except_bind_eq_ok.mp ran
  cases scan : firstScan heap depth contents cnt s.extLbaBase with
  | error reason =>
      rw [scan] at ran
      cases ran
  | ok t =>
      rw [scan] at ran
      cases ran
      refine ⟨fun channelNo later => ?_, fun channelNo later => ?_, fun tag inList => ?_⟩
      · exact (Function.update_of_ne (by omega) _ _).trans
          (ahead.primParts channelNo (by omega))
      · exact (Function.update_of_ne (by omega) _ _).trans
          (ahead.logicParts channelNo (by omega))
      · rcases List.mem_append.mp inList with old | new
        · exact Nat.lt_succ_of_lt (ahead.tags tag old)
        · obtain ⟨_, -, rfl⟩ := List.mem_map.mp new
          exact Nat.lt_succ_self cnt

theorem Ahead.initChannels (ran : initChannels heap depth contents cnt (ideStart contents) =
    .ok s) : Ahead contents cnt s := by
  induction cnt generalizing s with
  | zero =>
      cases ran
      exact Ahead.start
  | succ cnt inductionHypothesis =>
      obtain ⟨s₁, earlier, ran⟩ := except_bind_eq_ok.mp ran
      exact (inductionHypothesis earlier).initChannel ran

theorem registered_initChannel (ahead : Ahead contents channelNo s) :
    (initChannel heap depth contents channelNo s).map (·.registered channelNo) =
      inArray channelNo 2 >>= fun _ =>
        (firstScan heap depth contents channelNo s.extLbaBase).map fun t =>
          ⟨t.primParts, t.logicParts, t.partitionList⟩ := by
  rw [initChannel_eq ahead]
  cases inArray channelNo 2 with
  | error reason => rfl
  | ok _ =>
      cases firstScan heap depth contents channelNo s.extLbaBase with
      | error reason => rfl
      | ok t =>
          have others : s.partitionList.filter (fun tag => tag.1 = channelNo) = [] :=
            List.filter_eq_nil_iff.mpr fun tag inList same => by
              have before := ahead.tags tag inList
              rw [of_decide_eq_true same] at before
              exact lt_irrefl _ before
          have own : (t.partitionList.map fun tag => (channelNo, tag)).filter
              (fun tag => tag.1 = channelNo) = t.partitionList.map fun tag => (channelNo, tag) :=
            List.filter_eq_self.mpr fun tag inList => by
              obtain ⟨_, -, rfl⟩ := List.mem_map.mp inList
              exact decide_eq_true rfl
          simp [Except.map, IdeState.registered, IdeState.scanned, List.filter_append, others, own,
            Function.comp_def]

theorem base_initChannels_one (ran : initChannels heap depth contents 1 (ideStart contents) =
    .ok s) : s.extLbaBase = 0 ↔ (ideDisk contents 0 1).extended = [] := by
  change initChannel heap depth contents 0 (ideStart contents) = .ok s at ran
  rw [initChannel_eq Ahead.start] at ran
  cases scan : firstScan heap depth contents 0 (ideStart contents).extLbaBase with
  | error reason =>
      rw [scan] at ran
      cases ran
  | ok t =>
      rw [scan] at ran
      cases ran
      exact partitionScan_base_eq_zero_iff rfl scan

end Channels

/-- A link in the master boot record to sector 1, where a logical partition is. -/
def linkedSectors : Bytes := fun a =>
  if a < 512 then bootSector [⟨0x5, 1, 100⟩] a
  else if a < 1024 then bootSector [⟨0x83, 1, 50⟩] (a - 512)
  else 0

/-- The contents with another disk on the second channel. -/
def withSecond (contents : Nat → Nat → Bytes) (sectors : Bytes) : Nat → Nat → Bytes :=
  fun channelNo devNo => if channelNo = 1 ∧ devNo = 1 then sectors else contents channelNo devNo

section Linked

variable {heap : Nat → Bytes} {depth : Nat} {hd : Disk} {lba : UInt32} {s s' : ScanState}

theorem linked_entries (linked : hd.sectors = linkedSectors) :
    hd.entries 0 = [⟨0x5, 1, 100⟩] ∧ hd.entries 1 = [⟨0x83, 1, 50⟩] := by
  simp only [Disk.entries, linked]
  decide

theorem linked_entries_behind (linked : hd.sectors = linkedSectors) (behind : 2 ≤ lba.toNat) :
    hd.entries lba = [] := by
  have zeros : linkedSectors.window (512 * lba.toNat) = Bytes.fill 0 := by
    funext a
    rw [Bytes.window_apply, linkedSectors, if_neg (by omega), if_neg (by omega)]
    rfl
  rw [Disk.entries, linked, zeros]
  decide

theorem linked_first (heap : Nat → Bytes) (depth : Nat) (linked : hd.sectors = linkedSectors)
    (noBase : s.extLbaBase = 0) (noLogical : s.lNo = 0) :
    ∃ s', partitionScan heap hd (depth + 2) 0 s = .ok s' ∧
      s'.partitionList = s.partitionList ++ [.logic 0] := by
  obtain ⟨mbr, ebr⟩ := linked_entries linked
  refine ⟨(s.setExtLbaBase 1).addLogical hd 1 ⟨0x83, 1, 50⟩, ?_, ?_⟩
  · rw [partitionScan_eq (Nat.zero_le _), mbr, scanEntries_extended rfl noBase,
      partitionScan_eq (by decide), ebr,
      scanEntries_logical (by decide) (by decide) (by simp [noLogical]) fun _ => rfl]
    rfl
  · simp [noLogical]

/-- With a base left behind by another disk its link leads nowhere. -/
theorem linked_later (linked : hd.sectors = linkedSectors) (based : s.extLbaBase ≠ 0)
    (ran : partitionScan heap hd depth 0 s = .ok s') : s'.partitionList = s.partitionList := by
  induction depth generalizing s' with
  | zero => cases ran
  | succ depth inductionHypothesis =>
      rw [partitionScan_eq (Nat.zero_le _), (linked_entries linked).1,
        scanEntries_link rfl based] at ran
      obtain ⟨s₁, inner, ran⟩ := except_bind_eq_ok.mp ran
      cases ran
      by_cases itself : 1 + s.extLbaBase = 0
      · rw [itself] at inner
        exact inductionHypothesis inner
      · have notFirst : (1 + s.extLbaBase).toNat ≠ 1 := by
          intro one
          have isOne : 1 + s.extLbaBase = 1 := UInt32.toNat_inj.mp one
          exact based (by simpa using isOne)
        have notMbr : (1 + s.extLbaBase).toNat ≠ 0 := fun zero => itself (UInt32.toNat_inj.mp zero)
        cases depth with
        | zero => cases inner
        | succ depth =>
            rcases Nat.lt_or_ge maxLba (1 + s.extLbaBase).toNat with far | addressed
            · rw [partitionScan_behind far] at inner
              cases inner
            · rw [partitionScan_eq addressed, linked_entries_behind linked (by omega)] at inner
              cases inner
              rfl

end Linked

section Independence

variable {heap : Nat → Bytes} {depth : Nat} {contents : Nat → Nat → Bytes} {hdCnt : UInt8}
  {s : IdeState}

theorem ownSectorsOnly_of_noExtended (condition : channelCnt hdCnt ≤ 1 ∨
      (ideDisk contents 0 1).extended = [] ∨ (ideDisk contents 1 1).extended = []) :
    OwnSectorsOnly heap depth contents hdCnt := by
  intro channelNo inCount s earlier
  rw [registered_initChannel (Ahead.initChannels earlier), registered_initChannel Ahead.start]
  match channelNo with
  | 0 =>
      cases earlier
      rfl
  | 1 =>
      have reset := base_initChannels_one earlier
      rcases condition with one | first | second
      · omega
      · rw [reset.mpr first]
        rfl
      · simp only [firstScan, partitionScan_setExtLbaBase second]
        cases partitionScan heap (ideDisk contents 1 1) depth 0
          ((ideStart contents).scanState 1) <;> rfl
  | channelNo + 2 => rfl

theorem initChannels_withSecond (sectors : Bytes)
    (ran : initChannels heap depth contents 1 (ideStart contents) = .ok s) :
    ∃ s', initChannels heap depth (withSecond contents sectors) 1
      (ideStart (withSecond contents sectors)) = .ok s' := by
  change initChannel heap depth contents 0 (ideStart contents) = .ok s at ran
  change ∃ s', initChannel heap depth (withSecond contents sectors) 0
    (ideStart (withSecond contents sectors)) = .ok s'
  rw [initChannel_eq Ahead.start] at ran ⊢
  have same : firstScan heap depth (withSecond contents sectors) 0 0 =
      firstScan heap depth contents 0 0 := rfl
  change (inArray 0 2 >>= fun _ => (firstScan heap depth contents 0 0).map _) = .ok s at ran
  change ∃ s', (inArray 0 2 >>= fun _ =>
    (firstScan heap depth (withSecond contents sectors) 0 0).map _) = .ok s'
  rw [same]
  cases scan : firstScan heap depth contents 0 0 with
  | error reason =>
      rw [scan] at ran
      cases ran
  | ok t => exact ⟨_, rfl⟩

theorem not_ownSectorsOnly_linked (hdCnt : UInt8) (two : 2 ≤ channelCnt hdCnt)
    (ran : initChannels heap (depth + 2) contents 1 (ideStart contents) = .ok s)
    (extended : (ideDisk contents 0 1).extended ≠ []) :
    ¬ OwnSectorsOnly heap (depth + 2) (withSecond contents linkedSectors) hdCnt := by
  intro alone
  obtain ⟨s', earlier⟩ := initChannels_withSecond linkedSectors ran
  have based : s'.extLbaBase ≠ 0 := fun zero => extended ((base_initChannels_one earlier).mp zero)
  have same := alone 1 two s' earlier
  rw [registered_initChannel (Ahead.initChannels earlier), registered_initChannel Ahead.start]
    at same
  have linked : (ideDisk (withSecond contents linkedSectors) 1 1).sectors = linkedSectors := rfl
  obtain ⟨t, first, tags⟩ := linked_first heap depth linked
    (s := (ideStart (withSecond contents linkedSectors)).scanState 1) rfl rfl
  have firstRun : firstScan heap (depth + 2) (withSecond contents linkedSectors) 1
    (ideStart (withSecond contents linkedSectors)).extLbaBase = .ok t := first
  have room : inArray 1 2 = .ok () := rfl
  rw [room, ok_bind, ok_bind, firstRun] at same
  cases later : firstScan heap (depth + 2) (withSecond contents linkedSectors) 1 s'.extLbaBase with
  | error reason =>
      rw [later] at same
      cases same
  | ok t' =>
      rw [later] at same
      have sameTags : t'.partitionList = t.partitionList :=
        congrArg Registered.tags (Except.ok.inj same)
      have none := linked_later linked (s := ((ideStart (withSecond contents
        linkedSectors)).scanState 1).setExtLbaBase s'.extLbaBase) based later
      rw [tags, none] at sameTags
      cases sameTags

end Independence

/-- The disks of a machine are registered as if each were scanned first when there is one
channel, or when one of the two file disks has no extended partition.  Behind a disk with
an extended partition there are disks that are not. -/
theorem ownSectorsOnly_iff (heap : Nat → Bytes) (depth : Nat) (contents : Nat → Nat → Bytes)
    (hdCnt : UInt8) :
    (channelCnt hdCnt ≤ 1 ∨ (ideDisk contents 0 1).extended = [] ∨
        (ideDisk contents 1 1).extended = [] → OwnSectorsOnly heap depth contents hdCnt) ∧
      (2 ≤ channelCnt hdCnt → 2 ≤ depth →
        (∃ s, initChannels heap depth contents 1 (ideStart contents) = .ok s) →
        ((∀ sectors, OwnSectorsOnly heap depth (withSecond contents sectors) hdCnt) ↔
          (ideDisk contents 0 1).extended = [])) := by
  refine ⟨ownSectorsOnly_of_noExtended, fun two deep returns =>
    ⟨fun all => ?_, fun first sectors => ?_⟩⟩
  · obtain ⟨depth, rfl⟩ := Nat.exists_eq_add_of_le' deep
    obtain ⟨s, ran⟩ := returns
    by_contra extended
    exact not_ownSectorsOnly_linked hdCnt two ran extended (all linkedSectors)
  · exact ownSectorsOnly_of_noExtended (Or.inr (Or.inl first))

/-- Two disks with the same link: the partition of the second is not found. -/
theorem second_disk_lost :
    ¬ OwnSectorsOnly (fun _ => Bytes.fill 0) 9 (fun _ _ => linkedSectors) 4 := by
  have linked : (ideDisk (fun _ _ => linkedSectors) 0 1).sectors = linkedSectors := rfl
  obtain ⟨t, first, -⟩ := linked_first (fun _ => Bytes.fill 0) 7 linked
    (s := (ideStart fun _ _ => linkedSectors).scanState 0) rfl rfl
  have ran : initChannels (fun _ => Bytes.fill 0) 9 (fun _ _ => linkedSectors) 1
      (ideStart fun _ _ => linkedSectors) =
      .ok { (ideStart fun _ _ => linkedSectors).scanned 0 t with pNo := 0, lNo := 0 } := by
    change initChannel (fun _ => Bytes.fill 0) 9 (fun _ _ => linkedSectors) 0
      (ideStart fun _ _ => linkedSectors) = _
    have firstRun : firstScan (fun _ => Bytes.fill 0) 9 (fun _ _ => linkedSectors) 0
      (ideStart fun _ _ => linkedSectors).extLbaBase = .ok t := first
    rw [initChannel_eq Ahead.start, firstRun]
    rfl
  have isExtended : (ideDisk (fun _ _ => linkedSectors) 0 1).extended ≠ [] := by
    rw [Disk.extended, (linked_entries rfl).1]
    decide
  have same : withSecond (fun _ _ => linkedSectors) linkedSectors = fun _ _ => linkedSectors := by
    funext channelNo devNo
    exact ite_self _
  have lost := not_ownSectorsOnly_linked 4 (by decide) ran isExtended
  rwa [same] at lost

end HongbaiOS.Device
