import HongbaiOS.Fs.FilesysInit
import HongbaiOS.Memory.Exhaustion

/-!
# The buffer of a formatting

`partition_format` gets its buffer from the kernel heap.  The buffer has room for the block
bitmap, and `malloc_page` accepts fewer than 3840 pages, so that a partition with a block bitmap
of 30712 sectors or more is never formatted.
-/

namespace HongbaiOS.Fs

open HongbaiOS.Library HongbaiOS.Kernel HongbaiOS.Device HongbaiOS.Memory

/-- The bytes from `b` on up to the first page that is not mapped, of which at most `left` pages
are looked at. -/
def mappedBytes (m : Mem) : (left : Nat) → (b : Address) → Nat
  | 0, _ => 0
  | left + 1, b =>
      match m.translate b with
      | .error _ => 0
      | .ok _ => pgSize - b % pgSize + mappedBytes m left (b - b % pgSize + pgSize)

/-- `sys_malloc` of the running task. -/
def heapMemory (m : Mem) (pad : Nat → UInt32) : FormatMemory where
  pad := pad
  sysMalloc size := do
    let (buf, m') ← Memory.sysMalloc m size.toNat
    return buf.map (mappedBytes m' 0x100000)

section

variable {m m' : Mem} {startLba secCnt : UInt32} {pad : Nat → UInt32}

theorem sysMalloc_pages_lt {size : Nat} {b : Address} (large : 1024 < size)
    (ran : Memory.sysMalloc m size = .ok (some b, m')) :
    Memory.divRoundUp (wrap (size + arenaSize)) pgSize < 3840 := by
  rcases sysMalloc_eq_ok ran with ⟨-, null, -⟩ | ⟨-, held, -, ⟨-, ran⟩ | ⟨small, -⟩⟩
  · cases null
  · obtain ⟨_, allocated, -⟩ := except_bind_eq_ok.mp ran
    exact (mallocPage_supplied allocated).1
  · omega

theorem formatBufSize_toNat (startLba secCnt : UInt32) :
    (formatBufSize (formatSuperBlock startLba secCnt)).toNat =
      512 * max (formatSuperBlock startLba secCnt).blockBitmapSects.toNat 608 := by
  obtain ⟨-, inodeSects, -, tableSects⟩ := fixedSects startLba secCnt
  have sectsNat : (formatSuperBlock startLba secCnt).blockBitmapSects.toNat =
      ((blockBitmapBitLen secCnt).toNat + 4095) % 2 ^ 32 / 4096 :=
    divRoundUp_4096_toNat _
  unfold formatBufSize
  dsimp only
  split <;> split
  all_goals
    simp only [ge_iff_le, UInt32.le_iff_toNat_le, UInt32.toNat_mul, UInt32.reduceToNat] at *
    omega

theorem formatBuffer_block (given : formatBuffer (heapMemory m pad) startLba secCnt = .ok ()) :
    ∃ b m', Memory.sysMalloc m (formatBufSize (formatSuperBlock startLba secCnt)).toNat =
      .ok (some b, m') := by
  obtain ⟨buf, allocated, mapped⟩ := except_bind_eq_ok.mp given
  obtain ⟨⟨result, m'⟩, ran, same⟩ := except_bind_eq_ok.mp allocated
  cases result with
  | none =>
      obtain rfl := Except.ok.inj same
      cases mapped
  | some b => exact ⟨b, m', ran⟩

theorem blockBitmapSects_lt (given : formatBuffer (heapMemory m pad) startLba secCnt = .ok ()) :
    (formatSuperBlock startLba secCnt).blockBitmapSects.toNat < 30712 := by
  obtain ⟨b, m', ran⟩ := formatBuffer_block given
  have size := formatBufSize_toNat startLba secCnt
  have sectsNat : (formatSuperBlock startLba secCnt).blockBitmapSects.toNat =
      ((blockBitmapBitLen secCnt).toNat + 4095) % 2 ^ 32 / 4096 :=
    divRoundUp_4096_toNat _
  have pages := sysMalloc_pages_lt (by omega) ran
  simp only [Memory.divRoundUp, wrap, arenaSize, pgSize] at pages
  omega

theorem TableReady.blockBitmapSects_lt {memAt : PartTag → Mem} {hd : FileDisk} {sectors : Bytes}
    {part : PartTag} (ready : TableReady (fun part => heapMemory (memAt part) pad) hd sectors)
    (known : part ∈ allSlots) (due : Due hd sectors part) :
    (formatSuperBlock (hd.slot part).startLba (hd.slot part).secCnt).blockBitmapSects.toNat <
      30712 :=
  Fs.blockBitmapSects_lt (ready.formattable part known due).buffer

end

end HongbaiOS.Fs
