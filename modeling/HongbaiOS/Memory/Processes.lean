import HongbaiOS.Memory.Boot

/-!
# Address spaces

Creating kernel threads and processes, and switching between their page directories: what
`thread.c` and `process.c` do to the state of the memory manager.
-/

namespace HongbaiOS.Memory

open HongbaiOS.Library HongbaiOS.Kernel HongbaiOS.Lib HongbaiOS.Thread

/-- `page_dir_activate(pthread)`: what is loaded into `cr3`. -/
def pageDirActivate (m : Mem) (pthread : Tid) : Except Halt Mem :=
  match (m.task pthread).pgdir with
  | none => .ok { m with cr3 := pageDirTablePos }
  | some pgdir => do
      let pageDirPhyAddr ← addrV2p m pgdir
      return { m with cr3 := pageDirPhyAddr }

/-- `schedule()`, once the next task has been chosen. -/
def schedule (m : Mem) (next : Tid) : Except Halt Mem := do
  let m ← pageDirActivate m next
  return { m with runningThread := next }

/-- The `memcpy` of `create_page_dir`: entries 768 to 1023, through the self-map of the
directory in use. -/
def copyKernelHalf (m : Mem) (pageDirVaddr : Address) : Except Halt Mem := do
  let source ← m.translate (0xfffff000 + 0x300 * 4)
  let target ← m.translate (pageDirVaddr + 0x300 * 4)
  return { m with
    words := Function.update m.words target fun idx =>
      if 0x300 ≤ idx ∧ idx < 0x300 + 1024 / 4 then m.words source idx else m.words target idx }

/-- `create_page_dir()` -/
def createPageDir (m : Mem) : Except Halt (Option Address × Mem) := do
  match ← getKernelPages m 1 with
  | (none, m) => return (none, m)
  | (some pageDirVaddr, m) =>
      let m ← copyKernelHalf m pageDirVaddr
      let newPageDirPhyAddr ← addrV2p m pageDirVaddr
      let frame ← m.translate pageDirVaddr
      return (some pageDirVaddr, m.setWord frame 1023 (pageEntry newPageDirPhyAddr))

/-- `create_user_vaddr_bitmap(user_prog)`, without the place of the bits. -/
def createUserVaddrBitmap (m : Mem) (userProg : Tid) : Except Halt Mem := do
  let bitmapPgCnt := divRoundUp ((0xc0000000 - userVaddrStart) / pgSize / 8) pgSize
  let (_, m) ← getKernelPages m bitmapPgCnt
  return m.setTask userProg { m.task userProg with
    userprogVaddr :=
      ⟨⟨(0xc0000000 - userVaddrStart) / pgSize / 8, Bytes.fill 0⟩, userVaddrStart⟩ }

/-- `thread_start(..)`.  `get_kernel_pages` is not checked for `NULL`. -/
def threadStart (m : Mem) : Except Halt (Tid × Mem) := do
  let (page, m) ← getKernelPages m 1
  let thread := page.getD 0
  return (thread, m.setTask thread initThread)

/-- `process_execute(..)` -/
def processExecute (m : Mem) : Except Halt (Tid × Mem) := do
  let (page, m) ← getKernelPages m 1
  let thread := page.getD 0
  let m := m.setTask thread initThread
  let m ← createUserVaddrBitmap m thread
  let (pgdir, m) ← createPageDir m
  return (thread, m.setTask thread { m.task thread with
    pgdir := pgdir
    uBlockDesc := blockInit })

end HongbaiOS.Memory
