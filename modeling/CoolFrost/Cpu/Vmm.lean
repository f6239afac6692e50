import CoolFrost.Lib.Pages

/-!
# Address spaces

`cpu/vmm.c`: page tables in physical memory, which the kernel sees at its own addresses.  A pointer
to a `vmm_as_t` is a number; what `kmalloc` answers is a parameter, since all that is used of it is
that the pages it hands out are pages and not in use.
-/

namespace CoolFrost

/-- The answers of `kmalloc`: the page that its `n`-th call hands out while the pages of `live` are
in use, 0 if it fails, and whether it has room for a `vmm_as_t`. -/
structure Kmalloc where
  page : ℕ → Finset ℕ → ℕ
  room : ℕ → Bool
  page_dvd : ∀ n live, 4096 ∣ page n live
  page_lt : ∀ n live, page n live < 2 ^ 64
  page_fresh : ∀ n live, page n live ≠ 0 → page n live ∉ live

/-- An address space (`vmm_as_t`). -/
structure AddrSpace where
  pml4Phys : ℕ
  ownedPages : List ℕ

/-- Physical memory, the address spaces, and the pages in use.  The count of calls of `kmalloc` only
tells its answers apart. -/
structure Vmm where
  mem : Bytes
  spaces : ℕ → Option AddrSpace
  spaceCount : ℕ
  live : Finset ℕ
  calls : ℕ

namespace Vmm

open Bytes

/-- `VMM_USER_BASE`. -/
def userBase : ℕ := 0x40000000
/-- `VMM_USER_SIZE`. -/
def userSize : ℕ := 0x40000000
/-- `VMM_PAGE_P`. -/
def pageP : ℕ := 0x1
/-- `VMM_PAGE_U`. -/
def pageU : ℕ := 0x4
/-- `VMM_PAGE_RW_U`. -/
def pageRwU : ℕ := 0x7
/-- `VMM_MAX_PAGES`. -/
def maxPages : ℕ := 512
/-- `MASTER_PDPT`. -/
def masterPdpt : ℕ := 0x2000

/-- `e & PTE_ADDR_MASK`. -/
def pteAddr (e : ℕ) : ℕ := e / 4096 * 4096

/-- The place of an address in its PDPT. -/
def pdptIdx (va : ℕ) : ℕ := va / 2 ^ 30 % 512

/-- The place of an address in its page directory. -/
def pdIdx (va : ℕ) : ℕ := va / 2 ^ 21 % 512

/-- The place of an address in its page table. -/
def ptIdx (va : ℕ) : ℕ := va / 2 ^ 12 % 512

variable (K : Kmalloc)

/-- `vmm_alloc_page`. -/
def vmmAllocPage (v : Vmm) (i : ℕ) : ℕ × Vmm :=
  match v.spaces i with
  | none => (0, v)
  | some as =>
    if maxPages ≤ as.ownedPages.length then (0, v)
    else
      let p := K.page v.calls v.live
      let v := { v with calls := v.calls + 1 }
      if p = 0 then (0, v)
      else
        (p, { v with
          mem := clearPage v.mem p
          live := insert p v.live
          spaces := Function.update v.spaces i
            (some { as with ownedPages := as.ownedPages ++ [p] }) })

/-- `vmm_destroy_address_space`. -/
def vmmDestroyAddressSpace (v : Vmm) (i : ℕ) : Vmm :=
  match v.spaces i with
  | none => v
  | some as =>
    { v with
      live := v.live \ as.ownedPages.toFinset
      spaces := Function.update v.spaces i none }

/-- The end of `vmm_create_address_space`, when there are pages for the two upper tables. -/
def setUpTables (v : Vmm) (i pml4 pdpt : ℕ) : Vmm :=
  let mem := putWord v.mem pml4 0 (pdpt ||| pageRwU)
  let mem := putWord mem pdpt 0 (word mem masterPdpt 0)
  let mem := putWord mem pdpt 3 (word mem masterPdpt 3)
  { v with
    mem := mem
    spaces := Function.update v.spaces i
      ((v.spaces i).map fun as => { as with pml4Phys := pml4 }) }

/-- `vmm_create_address_space`. -/
def vmmCreateAddressSpace (v : Vmm) : Option ℕ × Vmm :=
  let i := v.spaceCount
  if !K.room v.calls then (none, { v with calls := v.calls + 1 })
  else
    let v := { v with
      calls := v.calls + 1
      spaceCount := i + 1
      spaces := Function.update v.spaces i (some ⟨0, []⟩) }
    let (pml4, v) := vmmAllocPage K v i
    let (pdpt, v) := vmmAllocPage K v i
    if pml4 = 0 ∨ pdpt = 0 then (none, vmmDestroyAddressSpace v i)
    else (some i, setUpTables v i pml4 pdpt)

/-- The part of `vmm_map_page` that adds a missing table: whether there is one afterwards. -/
def ensureTable (v : Vmm) (i tbl idx : ℕ) : Bool × Vmm :=
  if word v.mem tbl idx &&& pageP = 0 then
    let (p, v) := vmmAllocPage K v i
    if p = 0 then (false, v)
    else (true, { v with mem := putWord v.mem tbl idx (p ||| pageRwU) })
  else (true, v)

/-- What `vmm_map_page` stores in a page table. -/
def leafEntry (pa flags : ℕ) : ℕ := pteAddr pa ||| flags % 4096 ||| pageP

/-- `vmm_map_page`: whether it succeeds. -/
def vmmMapPage (v : Vmm) (i va pa flags : ℕ) : Bool × Vmm :=
  match v.spaces i with
  | none => (false, v)
  | some as =>
    if va < userBase ∨ userBase + userSize ≤ va then (false, v)
    else if va % 4096 ≠ 0 then (false, v)
    else
      let pdptTbl := pteAddr (word v.mem as.pml4Phys 0)
      match ensureTable K v i pdptTbl (pdptIdx va) with
      | (false, v) => (false, v)
      | (true, v) =>
        let pdTbl := pteAddr (word v.mem pdptTbl (pdptIdx va))
        match ensureTable K v i pdTbl (pdIdx va) with
        | (false, v) => (false, v)
        | (true, v) =>
          let ptTbl := pteAddr (word v.mem pdTbl (pdIdx va))
          (true, { v with mem := putWord v.mem ptTbl (ptIdx va) (leafEntry pa flags) })

/-- The loop of `vmm_range_mapped` over the pages from `page` to `lastPage`; it stops without an
answer when the fuel is used up. -/
def rangeLoop (mem : Bytes) (pdptTbl lastPage : ℕ) : ℕ → ℕ → Option Bool
  | 0, _ => none
  | n + 1, page =>
    let pdpte := word mem pdptTbl (pdptIdx page)
    if pdpte &&& pageP = 0 then some false
    else
      let pde := word mem (pteAddr pdpte) (pdIdx page)
      if pde &&& pageP = 0 then some false
      else
        let pte := word mem (pteAddr pde) (ptIdx page)
        if pte &&& (pageP ||| pageU) ≠ pageP ||| pageU then some false
        else if page = lastPage then some true
        else rangeLoop mem pdptTbl lastPage n ((page + 0x1000) % 2 ^ 64)

/-- `vmm_range_mapped`.  The loop has as much fuel as there are pages in the window. -/
def vmmRangeMapped (mem : Bytes) (pml4Phys va len : ℕ) : Option Bool :=
  if len = 0 then some true
  else if va < userBase ∨ userBase + userSize < (va + len) % 2 ^ 64 then some false
  else
    let page := va / 4096 * 4096
    let lastPage := (va + len + (2 ^ 64 - 1)) % 2 ^ 64 / 4096 * 4096
    let pml4e := word mem pml4Phys 0
    if pml4e &&& pageP = 0 then some false
    else rangeLoop mem (pteAddr pml4e) lastPage (userSize / 4096) page

/-- A walk through the four levels of tables, as the processor makes it: the frame and the flags of
the page of an address. -/
def walk (mem : Bytes) (pml4Phys va : ℕ) : Option (ℕ × ℕ) :=
  let pml4e := word mem pml4Phys (va / 2 ^ 39 % 512)
  let pdpte := word mem (pteAddr pml4e) (pdptIdx va)
  let pde := word mem (pteAddr pdpte) (pdIdx va)
  let pte := word mem (pteAddr pde) (ptIdx va)
  if pml4e &&& pageP = 0 ∨ pdpte &&& pageP = 0 ∨ pde &&& pageP = 0 ∨ pte &&& pageP = 0 then none
  else some (pteAddr pte, pte % 4096)

end Vmm

end CoolFrost
