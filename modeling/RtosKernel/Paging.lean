import RtosKernel.Mutex
import RtosKernel.Log
import RtosKernel.Lib.Bitmap
import RtosKernel.Lib.Memory
import RtosKernel.Lib.Run

/-!
# Paging (`paging.c`)

A bitmap allocator for the 2^20 physical pages, a page directory and the page tables it points to. The
page tables live in physical memory (`Paging.mem`): the sixteen identity tables at an address that the
linker fixes, the others in pages that `alloc_page` hands out. The directory, the table pointers, the
bitmap, the counters and the lock are static data of their own.

Every call takes `paging_lock` with `mutex_lock`, so it has a `Caller`. `map_page` calls `alloc_page`,
which takes the lock once more.

Left out: the log messages (but for that of `alloc_page`, in `allocPageLogged`), the TLB flush, CR0 and CR3,
and with CR3 the pointer `kernel_paging.page_directory`.
-/

namespace RtosKernel

open Lib

/-- `PAGE_SIZE`. -/
def pageSize : UInt32 := 4096

/-- `PAGES_PER_TABLE`. -/
def pagesPerTable : UInt32 := 1024

/-- `PAGE_TABLES_COUNT`. -/
def pageTablesCount : UInt32 := 1024

/-- `TOTAL_PAGES`, as a loop bound. -/
def totalPages : ℕ := 1024 * 1024

/-- `sizeof(page_bitmap)`. -/
def bitmapBytes : ℕ := totalPages / 8

/-- `IDENTITY_MAP_MB`. -/
def identityMapMb : UInt32 := 64

/-- `NUM_PAGE_TABLES`, the tables of the identity map. -/
abbrev numPageTables : ℕ := 16

/-- `PAGE_PRESENT`. -/
def pagePresent : UInt32 := 1

/-- `PAGE_WRITE`. -/
def pageWrite : UInt32 := 2

/-- `PAGE_USER`. -/
def pageUser : UInt32 := 4

/-- The static data of `paging.c` and the memory that holds the page tables. A table pointer 0 is the
null pointer; `identityTables` is the address of `identity_page_tables`. -/
structure Paging where
  pageDirectory : ℕ → UInt32
  pageTables : ℕ → UInt32
  numPages : UInt32
  numFreePages : UInt32
  pageBitmap : ℕ → UInt8
  lock : Mutex
  mem : Mem
  identityTables : UInt32

/-- The static data before `paging_init`: all zero. -/
def bootPaging (identityTables : UInt32) (m : Mem) : Paging where
  pageDirectory _ := 0
  pageTables _ := 0
  numPages := 0
  numFreePages := 0
  pageBitmap _ := 0
  lock := mutexInit
  mem := m
  identityTables := identityTables

/-! ## The bitmap -/

/-- `paging_lock_page(page_num)`: the bit is set; a number past the bitmap changes nothing. -/
def pagingLockPage (pageNum : UInt32) (bm : ℕ → UInt8) : ℕ → UInt8 :=
  let byteIdx := pageNum.toNat / 8
  if byteIdx < bitmapBytes then
    Function.update bm byteIdx (bm byteIdx ||| mask (pageNum.toNat % 8))
  else bm

/-- `paging_unlock_page(page_num)`: the bit is cleared; a number past the bitmap changes nothing. -/
def pagingUnlockPage (pageNum : UInt32) (bm : ℕ → UInt8) : ℕ → UInt8 :=
  let byteIdx := pageNum.toNat / 8
  if byteIdx < bitmapBytes then
    Function.update bm byteIdx (bm byteIdx &&& ~~~ mask (pageNum.toNat % 8))
  else bm

/-- `paging_is_page_free(page_num)`; a page past the bitmap is not free. -/
def pagingIsPageFree (pageNum : UInt32) (bm : ℕ → UInt8) : Bool :=
  let byteIdx := pageNum.toNat / 8
  if byteIdx < bitmapBytes then bm byteIdx &&& mask (pageNum.toNat % 8) = 0 else false

/-! ## Initialisation -/

/-- The entry that `paging_init` writes for page `e` of table `t`. -/
def identityEntry (t e : ℕ) : UInt32 :=
  let phys := UInt32.ofNat t * 4096 * 1024 + UInt32.ofNat e * 4096
  (phys &&& 0xFFFFF000) ||| pagePresent ||| pageWrite

/-- The address of `identity_page_tables[t][e]`. -/
def identitySlot (base : UInt32) (t e : ℕ) : UInt32 :=
  base + UInt32.ofNat t * 4096 + UInt32.ofNat e * 4

/-- The stores of `paging_init` to the identity tables. -/
def fillIdentityTables (base : UInt32) (m : Mem) : Mem :=
  (List.range numPageTables).foldl (fun m t =>
    (List.range 1024).foldl (fun m e => m.store32 (identitySlot base t e) (identityEntry t e)) m) m

/-- `reserved_pages`. -/
def reservedPages : UInt32 :=
  let reserved := (identityMapMb * 1024 * 1024) / pageSize
  if reserved > UInt32.ofNat totalPages then UInt32.ofNat totalPages else reserved

/-- The bitmap after the loop that reserves the identity-mapped pages. -/
def reservedBitmap : ℕ → UInt8 :=
  (List.range reservedPages.toNat).foldl (fun bm p => pagingLockPage (UInt32.ofNat p) bm) fun _ => 0

/-- `paging_init()`: the identity map, with its pages reserved. -/
def pagingInit (s : Paging) : Paging where
  pageDirectory t :=
    if t < numPageTables then identitySlot s.identityTables t 0 ||| pagePresent ||| pageWrite else 0
  pageTables t := if t < numPageTables then identitySlot s.identityTables t 0 else 0
  numPages := UInt32.ofNat totalPages
  numFreePages := UInt32.ofNat totalPages - reservedPages
  pageBitmap := reservedBitmap
  lock := mutexInit
  mem := fillIdentityTables s.identityTables s.mem
  identityTables := s.identityTables

/-! ## Allocation -/

/-- `mutex_lock(&paging_lock)`, the body, `mutex_unlock(&paging_lock)`. -/
def locked {α : Type} (c : Caller) (body : Paging → Except Stop (α × Paging)) (s : Paging) :
    Except Stop (α × Paging) := do
  let mx ← mutexLock c s.lock
  let r ← body { s with lock := mx }
  pure (r.1, { r.2 with lock := mutexUnlock c.task r.2.lock })

/-- The page at which the loop of `alloc_page` stops. -/
def firstFree (bm : ℕ → UInt8) : Option ℕ :=
  (List.range totalPages).find? fun i => pagingIsPageFree (UInt32.ofNat i) bm

/-- What `alloc_page` does with the page it found. -/
def takeFree (s : Paging) : Option ℕ → UInt32 × Paging
  | some i =>
    (UInt32.ofNat i * pageSize,
      { s with
        pageBitmap := pagingLockPage (UInt32.ofNat i) s.pageBitmap
        numFreePages := s.numFreePages - 1 })
  | none => (0, s)

/-- The body of `alloc_page` between lock and unlock. -/
def takePage (s : Paging) : UInt32 × Paging := takeFree s (firstFree s.pageBitmap)

/-- `alloc_page()`. -/
def allocPage (c : Caller) (s : Paging) : Except Stop (UInt32 × Paging) :=
  locked c (fun s => pure (takePage s)) s

/-- The start page of the run at which the loop of `alloc_pages` stops. -/
def firstRun (count : UInt32) (bm : ℕ → UInt8) : Option ℕ :=
  scanRun (fun i => pagingIsPageFree (UInt32.ofNat i) bm) count.toNat totalPages 0 0 0

/-- What `alloc_pages` does with the run it found. -/
def takeRun (count : UInt32) (s : Paging) : Option ℕ → UInt32 × Paging
  | some start =>
    (UInt32.ofNat start * pageSize,
      { s with
        pageBitmap := (List.range count.toNat).foldl
          (fun bm j => pagingLockPage (UInt32.ofNat start + UInt32.ofNat j) bm) s.pageBitmap
        numFreePages := s.numFreePages - count })
  | none => (0, s)

/-- The body of `alloc_pages` between lock and unlock. -/
def takePages (count : UInt32) (s : Paging) : UInt32 × Paging := takeRun count s (firstRun count s.pageBitmap)

/-- `alloc_pages(count)`. -/
def allocPages (c : Caller) (count : UInt32) (s : Paging) : Except Stop (UInt32 × Paging) :=
  if count = 0 then pure (0, s) else locked c (fun s => pure (takePages count s)) s

/-- The body of `free_page` between lock and unlock. -/
def releaseOne (pageNum : UInt32) (s : Paging) : ErrorT × Paging :=
  if pagingIsPageFree pageNum s.pageBitmap then (.inval, s)
  else
    (.ok, { s with
      pageBitmap := pagingUnlockPage pageNum s.pageBitmap
      numFreePages := s.numFreePages + 1 })

/-- `free_page(ptr)`. Whether the page is reserved is not asked. -/
def freePage (c : Caller) (ptr : UInt32) (s : Paging) : Except Stop (ErrorT × Paging) :=
  let pageNum := ptr / pageSize
  if ptr = 0 then pure (.inval, s)
  else if UInt32.ofNat totalPages ≤ pageNum then pure (.inval, s)
  else locked c (fun s => pure (releaseOne pageNum s)) s

/-- One pass of the loop of `free_pages`, on the bitmap and `num_free_pages`. -/
def releasePage (pageNum : UInt32) (x : (ℕ → UInt8) × UInt32) : (ℕ → UInt8) × UInt32 :=
  if pagingIsPageFree pageNum x.1 then x else (pagingUnlockPage pageNum x.1, x.2 + 1)

/-- The body of `free_pages` between lock and unlock. -/
def releaseRange (pageNum count : UInt32) (s : Paging) : ErrorT × Paging :=
  let x := (List.range count.toNat).foldl (fun x i => releasePage (pageNum + UInt32.ofNat i) x)
    (s.pageBitmap, s.numFreePages)
  (.ok, { s with pageBitmap := x.1, numFreePages := x.2 })

/-- `free_pages(ptr, count)`. The sum of the check has 32 bits. -/
def freePages (c : Caller) (ptr count : UInt32) (s : Paging) : Except Stop (ErrorT × Paging) :=
  let pageNum := ptr / pageSize
  if ptr = 0 ∨ count = 0 then pure (.inval, s)
  else if pageNum + count > UInt32.ofNat totalPages then pure (.inval, s)
  else locked c (fun s => pure (releaseRange pageNum count s)) s

/-! ## Mapping -/

/-- `pd_idx` of a virtual address. -/
def pdIdx (virt : UInt32) : UInt32 := virt / (pageSize * pagesPerTable)

/-- `pt_idx` of a virtual address. -/
def ptIdx (virt : UInt32) : UInt32 := (virt / pageSize) % pagesPerTable

/-- The address of `kernel_paging.page_tables[pd_idx][pt_idx]`. -/
def entrySlot (s : Paging) (virt : UInt32) : UInt32 := s.pageTables (pdIdx virt).toNat + 4 * ptIdx virt

/-- The body of `map_page` between lock and unlock, with the allocator that it calls. -/
def mapEntry (alloc : Paging → Except Stop (UInt32 × Paging)) (virt phys flags : UInt32) (s : Paging) :
    Except Stop (ErrorT × Paging) := do
  let i := (pdIdx virt).toNat
  let (present, s1) ←
    if s.pageTables i = 0 then do
      let (newTable, s1) ← alloc s
      if newTable = 0 then pure (false, s1)
      else
        pure (true, { s1 with
          pageTables := Function.update s1.pageTables i newTable
          pageDirectory := Function.update s1.pageDirectory i (newTable ||| pagePresent ||| pageWrite) })
    else pure (true, s)
  if present then
    pure (.ok, { s1 with
      mem := s1.mem.store32 (entrySlot s1 virt) ((phys &&& 0xFFFFF000) ||| (flags &&& 0xFFF)) })
  else pure (.nomem, s1)

/-- `map_page(virt, phys, flags)`. The lock is held when `alloc_page` is called for a new table. -/
def mapPage (c : Caller) (virt phys flags : UInt32) (s : Paging) : Except Stop (ErrorT × Paging) :=
  if virt % pageSize ≠ 0 ∨ phys % pageSize ≠ 0 then pure (.inval, s)
  else if pageTablesCount ≤ pdIdx virt ∨ pagesPerTable ≤ ptIdx virt then pure (.inval, s)
  else locked c (mapEntry (allocPage c) virt phys flags) s

/-- The body of `unmap_page` between lock and unlock. -/
def clearEntry (virt : UInt32) (s : Paging) : ErrorT × Paging :=
  if s.pageTables (pdIdx virt).toNat = 0 then (.ok, s)
  else (.ok, { s with mem := s.mem.store32 (entrySlot s virt) 0 })

/-- `unmap_page(virt)`. -/
def unmapPage (c : Caller) (virt : UInt32) (s : Paging) : Except Stop (ErrorT × Paging) :=
  if virt % pageSize ≠ 0 then pure (.inval, s)
  else if pageTablesCount ≤ pdIdx virt ∨ pagesPerTable ≤ ptIdx virt then pure (.inval, s)
  else locked c (fun s => pure (clearEntry virt s)) s

/-- `get_physical_addr(virt)`, which takes no lock. -/
def getPhysicalAddr (virt : UInt32) (s : Paging) : UInt32 :=
  if pageTablesCount ≤ pdIdx virt ∨ pagesPerTable ≤ ptIdx virt then 0
  else if s.pageTables (pdIdx virt).toNat = 0 then 0
  else
    let entry := s.mem.load32 (entrySlot s virt)
    if entry &&& pagePresent = 0 then 0 else (entry &&& 0xFFFFF000) + (virt &&& 0xFFF)

/-- `paging_get_free_pages()`. -/
def pagingGetFreePages (c : Caller) (s : Paging) : Except Stop (UInt32 × Paging) :=
  locked c (fun s => pure (s.numFreePages, s)) s

/-- `paging_get_used_pages()`. -/
def pagingGetUsedPages (c : Caller) (s : Paging) : Except Stop (UInt32 × Paging) :=
  locked c (fun s => pure (s.numPages - s.numFreePages, s)) s

/-- `alloc_page_user` and `alloc_page_kernel`: a page mapped at its own address with these flags. -/
def allocPageMapped (flags : UInt32) (c : Caller) (s : Paging) : Except Stop (UInt32 × Paging) := do
  let (page, s1) ← allocPage c s
  if page = 0 then pure (page, s1)
  else do
    let (_, s2) ← mapPage c page page flags s1
    pure (page, s2)

/-- `alloc_page_user()`. -/
def allocPageUser : Caller → Paging → Except Stop (UInt32 × Paging) :=
  allocPageMapped (pagePresent ||| pageWrite ||| pageUser)

/-- `alloc_page_kernel()`. -/
def allocPageKernel : Caller → Paging → Except Stop (UInt32 × Paging) :=
  allocPageMapped (pagePresent ||| pageWrite)

/-! ## Runs -/

/-- A call of the page allocator. -/
inductive PageOp where
  | allocPage (who : Caller)
  | allocPages (who : Caller) (count : UInt32)
  | freePage (who : Caller) (ptr : UInt32)
  | freePages (who : Caller) (ptr count : UInt32)

/-- The allocator with the pages that its clients hold: those of every allocation that returned a
pointer, until they are freed. A page that is handed out twice stands here twice. -/
structure PageSys where
  paging : Paging
  held : List ℕ

/-- The `count` pages from the address `ptr` on. -/
def pagesAt (ptr : UInt32) (count : ℕ) : List ℕ := List.range' (ptr.toNat / 4096) count

/-- The pages held after an allocation returned `ptr`. -/
def holdPages (ptr : UInt32) (count : ℕ) (held : List ℕ) : List ℕ :=
  if ptr = 0 then held else pagesAt ptr count ++ held

/-- The pages held after a call that frees `count` pages. -/
def dropPages (status : ErrorT) (ptr : UInt32) (count : ℕ) (held : List ℕ) : List ℕ :=
  if status = .ok then held.filter (· ∉ pagesAt ptr count) else held

/-- A call of the allocator, with the pages that are held afterwards. -/
def pageStep (fuel : ℕ) (s : PageSys) : PageOp → Except Stop PageSys
  | .allocPage who => do
    let (p, s') ← allocPage (who.withFuel fuel) s.paging
    pure { paging := s', held := holdPages p 1 s.held }
  | .allocPages who count => do
    let (p, s') ← allocPages (who.withFuel fuel) count s.paging
    pure { paging := s', held := holdPages p count.toNat s.held }
  | .freePage who ptr => do
    let (e, s') ← freePage (who.withFuel fuel) ptr s.paging
    pure { paging := s', held := dropPages e ptr 1 s.held }
  | .freePages who ptr count => do
    let (e, s') ← freePages (who.withFuel fuel) ptr count s.paging
    pure { paging := s', held := dropPages e ptr count.toNat s.held }

/-- The allocator right after `paging_init`. -/
def bootPages (s : Paging) : PageSys := { paging := pagingInit s, held := [] }

/-- A call of any function of `paging.c` that takes the lock and changes the state. -/
inductive PagingOp where
  | page (op : PageOp)
  | mapPage (who : Caller) (virt phys flags : UInt32)
  | unmapPage (who : Caller) (virt : UInt32)
  | allocPageUser (who : Caller)
  | allocPageKernel (who : Caller)

/-- A call, for its effect on the state. -/
def pagingStep (fuel : ℕ) (s : Paging) : PagingOp → Except Stop Paging
  | .page op => do
    let s' ← pageStep fuel { paging := s, held := [] } op
    pure s'.paging
  | .mapPage who virt phys flags => do
    let (_, s') ← mapPage (who.withFuel fuel) virt phys flags s
    pure s'
  | .unmapPage who virt => do
    let (_, s') ← unmapPage (who.withFuel fuel) virt s
    pure s'
  | .allocPageUser who => do
    let (_, s') ← allocPageUser (who.withFuel fuel) s
    pure s'
  | .allocPageKernel who => do
    let (_, s') ← allocPageKernel (who.withFuel fuel) s
    pure s'

/-! ## The message of `alloc_page` -/

/-- The paging data and the log. -/
structure PagingLog where
  paging : Paging
  log : Log

/-- What a call of `log_msg` finds besides its arguments: the tick count and what its locals hold. -/
structure LogEnv where
  ticks : UInt32
  buffer : ℕ → UInt8
  tick : ℕ → UInt8

/-- `alloc_page` with the message after its loop, which is left early if a page is found. -/
def allocPageLogged (c : Caller) (env : LogEnv) (s : PagingLog) : Except Stop (UInt32 × PagingLog) := do
  let (page, paging) ← allocPage c s.paging
  match firstFree s.paging.pageBitmap with
  | some _ => pure (page, { s with paging := paging })
  | none =>
    let format := CString.ofString "Allocation page échouée : pas de page libre"
    pure (page, { paging := paging, log := logMsg logWarn env.ticks format env.buffer env.tick s.log })

/-- `alloc_pages`, which logs nothing. -/
def allocPagesLogged (c : Caller) (count : UInt32) (s : PagingLog) : Except Stop (UInt32 × PagingLog) := do
  let (page, paging) ← allocPages c count s.paging
  pure (page, { s with paging := paging })

/-! ## The walk of the CPU -/

/-- The two-level walk from `page_directory`: the physical address, or nothing if one of the two entries is
not present. -/
def x86Walk (s : Paging) (virt : UInt32) : Option UInt32 :=
  let pde := s.pageDirectory (virt >>> 22).toNat
  if pde &&& pagePresent = 0 then none
  else
    let table : UInt32 := pde &&& 0xFFFFF000
    let index : UInt32 := (virt >>> 12) &&& 0x3FF
    let pte := s.mem.load32 (table ||| (index <<< 2))
    if pte &&& pagePresent = 0 then none else some ((pte &&& 0xFFFFF000) ||| (virt &&& 0xFFF))

/-! ## Runs in which the lock is available

The `alloc_page` that `map_page` calls waits for the lock that `map_page` holds. Here it gets the lock all
the same, so that the code behind it runs as well. -/

/-- `alloc_page` by a task that finds the lock free, whoever holds it. -/
def allocPageOpen (c : Caller) (s : Paging) : Except Stop (UInt32 × Paging) :=
  allocPage c { s with lock := mutexInit }

/-- `map_page` with the lock available to the `alloc_page` in it. -/
def mapPageOpen (c : Caller) (virt phys flags : UInt32) (s : Paging) : Except Stop (ErrorT × Paging) :=
  if virt % pageSize ≠ 0 ∨ phys % pageSize ≠ 0 then pure (.inval, s)
  else if pageTablesCount ≤ pdIdx virt ∨ pagesPerTable ≤ ptIdx virt then pure (.inval, s)
  else locked c (mapEntry (allocPageOpen c) virt phys flags) s

/-- A call of the allocator or of the mapping functions, or a change of the memory in which the page tables
lie by anybody else. (`alloc_page_user` is `alloc_page` followed by `map_page`.) -/
inductive WalkOp where
  | page (op : PageOp)
  | mapPage (who : Caller) (virt phys flags : UInt32)
  | unmapPage (who : Caller) (virt : UInt32)
  | memory (m : Mem)

/-- A step, with the lock open to the `alloc_page` inside `map_page`. -/
def walkStep (fuel : ℕ) (s : Paging) : WalkOp → Except Stop Paging
  | .page op => do
    let s' ← pageStep fuel { paging := s, held := [] } op
    pure s'.paging
  | .mapPage who virt phys flags => do
    let (_, s') ← mapPageOpen (who.withFuel fuel) virt phys flags s
    pure s'
  | .unmapPage who virt => do
    let (_, s') ← unmapPage (who.withFuel fuel) virt s
    pure s'
  | .memory m => pure { s with mem := m }

end RtosKernel
