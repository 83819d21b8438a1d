import HongbaiOS.Memory.Heap

/-!
# The memory manager at boot

The page directory that the loader sets up, and `mem_init`.  The loader clears the
page directory and fills the first page table; the other 254 page tables of the
kernel keep what memory held at power-on.
-/

namespace HongbaiOS.Memory

open HongbaiOS.Library HongbaiOS.Kernel HongbaiOS.Lib HongbaiOS.Thread

/-- `PAGE_DIR_TABLE_POS`, the page directory of the kernel threads -/
def pageDirTablePos : Address := 0x100000

/-- The page table behind entry `pdeIdx` of every page directory, 768 to 1022. -/
def kernelTable (pdeIdx : Nat) : Address := pageDirTablePos + 0x1000 + (pdeIdx - 768) * 0x1000

/-- What `setup_page` stores: entry 0 and entry 768 name the first page table, which
maps the low megabyte, and the last entry names the directory itself. -/
def setupPage (m : Mem) : Mem :=
  { m with
    cr3 := pageDirTablePos
    words := fun frame idx =>
      if frame = pageDirTablePos then
        if idx = 0 then pageEntry (kernelTable 768)
        else if idx < 768 then 0
        else if idx < 1023 then pageEntry (kernelTable idx)
        else pageEntry pageDirTablePos
      else if frame = kernelTable 768 ∧ idx < 256 then pageEntry (idx * 0x1000)
      else m.words frame idx }

/-- `mem_init()`; the loader has left the size of the memory at `0xb00`. -/
def memInit (m : Mem) (memBytesTotal : Nat) : Mem :=
  { memPoolInit m memBytesTotal with kBlockDescs := blockInit }

/-- What `init_thread` leaves of these members: the PCB is cleared first. -/
def initThread : Task := ⟨none, ⟨⟨0, Bytes.fill 0⟩, 0⟩, fun _ => ⟨0, 0, []⟩⟩

/-- The PCB of the main thread: the loader sets `esp` to `0xc009f000`. -/
def mainThread : Tid := 0xc009e000

/-- `make_main_thread()`.  A task that nobody has created yet counts as one without
a page directory. -/
def makeMainThread (m : Mem) : Mem :=
  { m with task := fun _ => initThread, runningThread := mainThread }

/-- The state in which the kernel starts to serve requests. -/
def boot (m : Mem) (memBytesTotal : Nat) : Mem :=
  makeMainThread (memInit (setupPage m) memBytesTotal)

/-- A machine before it is switched on, with cleared memory. -/
def powerOn : Mem where
  kernelPool := ⟨⟨0, Bytes.fill 0⟩, lockInit, 0, 0⟩
  userPool := ⟨⟨0, Bytes.fill 0⟩, lockInit, 0, 0⟩
  kernelVaddr := ⟨⟨0, Bytes.fill 0⟩, 0⟩
  kBlockDescs := fun _ => ⟨0, 0, []⟩
  task := fun _ => initThread
  runningThread := mainThread
  cr3 := 0
  words := fun _ _ => 0
  arena := fun _ => Arena.cleared

end HongbaiOS.Memory
