import PlatformKernel.FileBuffers
import PlatformKernel.FileLists
import PlatformKernel.GuardedRuns
import PlatformKernel.MapReferences

/-!
# The pages of internal buffers

`vfastrpc_alloc_buffer` takes `PAGE_ALIGN(size) >> PAGE_SHIFT` pages for a buffer, counted
in an `unsigned int`. Every buffer of a file has exactly that many, also when it comes from
the cache. They hold `size` bytes unless the count wraps.
-/

namespace StagingPages

open FileMaps FileOperations FileMoves FileLists FileBuffers GuardedRuns
open InvokeMessage (pageAlign pageSize)
open MapReferences (uapi)

def pageShift : UInt64 := 12

/-- `unsigned int count = PAGE_ALIGN(buf->size) >> PAGE_SHIFT`. -/
def pageCount (size : UInt64) : UInt32 := (pageAlign size >>> pageShift).toUInt32

/-- What the kernel answers while a buffer is allocated; `page n` is the `n`-th call of
`alloc_pages_node`. -/
structure Answers where
  buf : Bool
  array : Bool
  page : Nat → Bool
  table : Bool
  vmap : Bool

/-- The inner loop of `vfastrpc_alloc_pages`, from the largest order of `mask` down. An
order that fails leaves the mask. -/
def tryOrders (page : Nat → Bool) (mask n : Nat) : Option (Nat × Nat × Nat) :=
  if mask = 0 then none
  else if page n then some (mask.log2, mask, n + 1)
  else tryOrders page (mask - 2 ^ mask.log2) (n + 1)
termination_by mask
decreasing_by
  have := Nat.two_pow_pos mask.log2
  omega

/-- `vfastrpc_alloc_pages`: how many pages are in the array when `count` of them are
still missing. -/
def allocPages (page : Nat → Bool) (count mask n : Nat) : Option Nat :=
  if count = 0 then some 0
  else
    match tryOrders page (mask &&& (2 ^ (count.log2 + 1) - 1)) n with
    | none => none
    | some (order, mask, n) => (allocPages page (count - 2 ^ order) mask n).map (· + 2 ^ order)
termination_by count
decreasing_by
  have := Nat.two_pow_pos order
  omega

/-- `vfastrpc_alloc_buffer`; `mapped` unless `DMA_ATTR_NO_KERNEL_MAPPING` is set. There is
no table, and no kernel mapping, of an empty array of pages. -/
def allocBuffer (maxOrder : Nat) (x : Answers) (size : UInt64) (mapped : Bool) : Option Nat :=
  if x.array then
    match allocPages x.page (pageCount size).toNat (2 ^ (maxOrder + 1) - 1) 0 with
    | none => none
    | some pages =>
      if pages = 0 ∨ x.table = false then none
      else if mapped = true ∧ x.vmap = false then none
      else some pages
  else none

/-- The part of `vfastrpc_buf_alloc` that makes a new buffer. -/
def newPages (maxOrder : Nat) (x : Answers) (size : UInt64) (mapped : Bool) : Option Nat :=
  if x.buf then allocBuffer maxOrder x size mapped else none

structure State where
  file : File
  pages : BufId → Nat

def State.opened : State := ⟨File.opened, fun _ => 0⟩

/-- A buffer that is new in `t` has the pages that were allocated for it. -/
def record (s : State) (t : File) (pages : Option Nat) : State where
  file := t
  pages := if t.nextBuf = s.file.nextBuf then s.pages
    else Function.update s.pages s.file.nextBuf (pages.getD 0)

/-- `vfastrpc_buf_alloc`. -/
def bufAlloc (maxOrder : Nat) (s : State) (size : UInt64) (rflags : UInt32)
    (remote mapped : Bool) (x : Answers) : Option (BufId × State) :=
  let pages := newPages maxOrder x size mapped
  (FileOperations.bufAlloc s.file size rflags remote pages.isSome).map fun r =>
    (r.1, record s r.2 pages)

inductive Action where
  /-- `get_args` stages an unmapped buffer of `len` bytes. -/
  | stage (c : CtxId) (len : UInt64) (x : Answers)
  | mmap (ud : MmapArgs) (dma : DmaOutcome) (x : Answers)
  | other (a : FileOperations.Action)

/-- Steps that ask for a buffer. -/
def allocates : FileOperations.Action → Bool
  | .stageBuffer _ _ _ => true
  | .mmap _ _ _ => true
  | _ => false

def step (k : Uapi) (maxOrder : Nat) (s : State) : Action → Option State
  | .stage c len x =>
    if len < pageSize then none
    else
      let pages := newPages maxOrder x (pageAlign len) true
      (FileOperations.step k s.file (.stageBuffer c (pageAlign len) pages.isSome)).map fun t =>
        record s t pages
  | .mmap ud dma x =>
    let pages := newPages maxOrder x ud.size false
    (FileOperations.step k s.file (.mmap ud dma pages.isSome)).map fun t => record s t pages
  | .other a =>
    if allocates a then none
    else (FileOperations.step k s.file a).map fun t => record s t none

theorem tryOrders_le {page : Nat → Bool} {mask n order mask' n' : Nat}
    (h : tryOrders page mask n = some (order, mask', n')) : 2 ^ order ≤ mask := by
  fun_induction tryOrders page mask n with
  | case1 => cases h
  | case2 mask n hmask hpage =>
    obtain ⟨rfl, -⟩ := Prod.mk.inj (Option.some.inj h)
    exact Nat.log2_self_le hmask
  | case3 mask n hmask hpage ih => exact (ih h).trans (Nat.sub_le _ _)

/-- An order that was found is not above what is still missing. -/
theorem tryOrders_fits {page : Nat → Bool} {count mask n order mask' n' : Nat} (hcount : count ≠ 0)
    (h : tryOrders page (mask &&& (2 ^ (count.log2 + 1) - 1)) n = some (order, mask', n')) :
    2 ^ order ≤ count := by
  have hle := (tryOrders_le h).trans Nat.and_le_right
  have hlt : 2 ^ order < 2 ^ (count.log2 + 1) := by
    have := Nat.two_pow_pos (count.log2 + 1)
    omega
  have horder := Nat.lt_succ_iff.mp ((Nat.pow_lt_pow_iff_right Nat.one_lt_two).mp hlt)
  exact (Nat.pow_le_pow_right Nat.two_pos horder).trans (Nat.log2_self_le hcount)

theorem allocPages_exact {page : Nat → Bool} {count mask n pages : Nat}
    (h : allocPages page count mask n = some pages) : pages = count := by
  fun_induction allocPages page count mask n generalizing pages with
  | case1 => exact (Option.some.inj h).symm
  | case2 => cases h
  | case3 count mask n hcount order mask' n' horder ih =>
    obtain ⟨rest, hrest, rfl⟩ := Option.map_eq_some_iff.mp h
    have hfits := tryOrders_fits hcount horder
    rw [ih hrest]
    omega

/-- If every call succeeds the pages are found; the mask never loses order zero. -/
theorem allocPages_granted (count mask n : Nat) (odd : mask % 2 = 1) :
    allocPages (fun _ => true) count mask n = some count := by
  induction count using Nat.strong_induction_on generalizing mask n with
  | _ count ih =>
    unfold allocPages
    split_ifs with hcount
    · rw [hcount]
    have hodd : (mask &&& (2 ^ (count.log2 + 1) - 1)) % 2 = 1 := by
      rw [Nat.and_two_pow_sub_one_eq_mod,
        Nat.mod_mod_of_dvd _ (dvd_pow_self 2 (Nat.succ_ne_zero _)), odd]
    have hmask : (mask &&& (2 ^ (count.log2 + 1) - 1)) ≠ 0 := by omega
    have hfound : tryOrders (fun _ => true) (mask &&& (2 ^ (count.log2 + 1) - 1)) n =
        some ((mask &&& (2 ^ (count.log2 + 1) - 1)).log2,
          mask &&& (2 ^ (count.log2 + 1) - 1), n + 1) := by
      unfold tryOrders
      rw [if_neg hmask, if_pos rfl]
    have hfits := tryOrders_fits hcount hfound
    have hpos := Nat.two_pow_pos (mask &&& (2 ^ (count.log2 + 1) - 1)).log2
    rw [hfound]
    dsimp only
    rw [ih _ (by omega) _ _ hodd, Option.map_some, Nat.sub_add_cancel hfits]

theorem allocBuffer_some {maxOrder : Nat} {x : Answers} {size : UInt64} {mapped : Bool} {n : Nat}
    (h : allocBuffer maxOrder x size mapped = some n) :
    n = (pageCount size).toNat ∧ n ≠ 0 := by
  unfold allocBuffer at h
  split at h
  · split at h
    · cases h
    rename_i pages hpages
    split_ifs at h with hnone
    obtain rfl := Option.some.inj h
    exact ⟨allocPages_exact hpages, fun hzero => hnone (Or.inl hzero)⟩
  · cases h

theorem newPages_some {maxOrder : Nat} {x : Answers} {size : UInt64} {mapped : Bool} {n : Nat}
    (h : newPages maxOrder x size mapped = some n) : n = (pageCount size).toNat ∧ n ≠ 0 := by
  unfold newPages at h
  split_ifs at h
  exact allocBuffer_some h

/-- A kernel with enough memory. -/
def granted : Answers := ⟨true, true, fun _ => true, true, true⟩

theorem newPages_granted (maxOrder : Nat) {size : UInt64} (mapped : Bool)
    (counted : (pageCount size).toNat ≠ 0) :
    newPages maxOrder granted size mapped = some (pageCount size).toNat := by
  have odd : (2 ^ (maxOrder + 1) - 1) % 2 = 1 := by
    have := Nat.two_pow_pos maxOrder
    omega
  unfold newPages allocBuffer granted
  simp [allocPages_granted _ _ 0 odd, counted]

theorem pageAlign_toNat (size : UInt64) :
    (pageAlign size).toNat = (size.toNat + 4095) % 2 ^ 64 / 4096 * 4096 := by
  unfold pageAlign pageSize
  rw [UInt64.toNat_mul, UInt64.toNat_div, UInt64.toNat_add]
  have hsize : ((4096 : UInt64) - 1).toNat = 4095 := rfl
  have hpage : (4096 : UInt64).toNat = 4096 := rfl
  rw [hsize, hpage]
  omega

theorem pageCount_toNat (size : UInt64) :
    (pageCount size).toNat = (size.toNat + 4095) / 4096 % 2 ^ 32 := by
  unfold pageCount pageShift
  have hshift : (12 : UInt64).toNat % 64 = 12 := rfl
  rw [UInt64.toNat_toUInt32, UInt64.toNat_shiftRight, hshift, pageAlign_toNat,
    Nat.shiftRight_eq_div_pow]
  omega

/-- The number of pages that `size` bytes need fits in an `unsigned int`, or wraps to zero:
then there is no buffer. -/
def Countable (size : UInt64) : Prop :=
  (size.toNat + 4095) / 4096 < 2 ^ 32 ∨ 2 ^ 32 ∣ (size.toNat + 4095) / 4096

theorem pages_enough {size : UInt64} (countable : Countable size)
    (counted : (pageCount size).toNat ≠ 0) : size.toNat ≤ (pageCount size).toNat * 4096 := by
  rw [pageCount_toNat] at counted ⊢
  rcases countable with hfits | hwraps
  · rw [Nat.mod_eq_of_lt hfits]
    omega
  · exact absurd (Nat.mod_eq_zero_of_dvd hwraps) counted

theorem pages_short {size : UInt64} (uncountable : ¬ Countable size) :
    (pageCount size).toNat ≠ 0 ∧ (pageCount size).toNat * 4096 < size.toNat := by
  obtain ⟨hlarge, hwraps⟩ := not_or.mp uncountable
  rw [pageCount_toNat]
  exact ⟨fun hzero => hwraps (Nat.dvd_of_mod_eq_zero hzero), by omega⟩

/-- Buffers of the cache are small. -/
theorem pages_cached {size : UInt64} (small : size < maxCacheBufSize) :
    size.toNat ≤ (pageCount size).toNat * 4096 := by
  have hsmall := UInt64.lt_iff_toNat_lt.mp small
  have hmax : maxCacheBufSize.toNat = 8388608 := rfl
  rw [pageCount_toNat]
  omega

theorem countable_small {size : UInt64} (small : size < maxCacheBufSize) : Countable size := by
  have hsmall := UInt64.lt_iff_toNat_lt.mp small
  have hmax : maxCacheBufSize.toNat = 8388608 := rfl
  exact Or.inl (by omega)

/-- A length and its page-aligned form need the same number of pages, up to a multiple
of `2 ^ 32`. -/
theorem countable_pageAlign (len : UInt64) : Countable (pageAlign len) ↔ Countable len := by
  have hlen := len.toNat_lt
  unfold Countable
  rw [pageAlign_toNat]
  by_cases hwraps : len.toNat + 4095 < 2 ^ 64
  · rw [Nat.mod_eq_of_lt hwraps]
    have hsame : ((len.toNat + 4095) / 4096 * 4096 + 4095) / 4096 = (len.toNat + 4095) / 4096 := by
      omega
    rw [hsame]
  · have hnone : (len.toNat + 4095) % 2 ^ 64 / 4096 = 0 := by omega
    have hpages : (len.toNat + 4095) / 4096 = 2 ^ 52 := by omega
    rw [hnone, hpages]
    decide

theorem le_pageAlign {len : UInt64} (aligned : pageAlign len ≠ 0) :
    len.toNat ≤ (pageAlign len).toNat := by
  have hne : (pageAlign len).toNat ≠ 0 := fun hzero => aligned (UInt64.toNat_inj.mp hzero)
  have hlen := len.toNat_lt
  rw [pageAlign_toNat] at hne ⊢
  omega

/-- Whole pages below the page-aligned length are below the length. -/
theorem pages_lt_of_pageAlign {len : UInt64} {pages : Nat}
    (short : pages * 4096 < (pageAlign len).toNat) : pages * 4096 < len.toNat := by
  rw [pageAlign_toNat] at short
  omega

structure Backed (s : State) : Prop where
  places : PlacesOk s.file
  small : ∀ b ∈ s.file.cached, (s.file.bufs b).size < maxCacheBufSize
  pages : ∀ b < s.file.nextBuf, s.pages b = (pageCount (s.file.bufs b).size).toNat

theorem opened_backed : Backed State.opened where
  places := opened_listsOk.places
  small := fun b hb => by cases hb
  pages := fun b hb => absurd hb (Nat.not_lt_zero b)

section steps

variable {k : Uapi} {maxOrder : Nat} {s t : State}

theorem record_same {s : State} {t : File} (pages : Option Nat)
    (next : t.nextBuf = s.file.nextBuf) : (record s t pages).pages = s.pages := if_pos next

theorem record_new {s : State} {t : File} (pages : Option Nat)
    (next : t.nextBuf = s.file.nextBuf + 1) :
    (record s t pages).pages = Function.update s.pages s.file.nextBuf (pages.getD 0) :=
  if_neg fun same => Nat.succ_ne_self _ (next.symm.trans same)

theorem record_older {s : State} {t : File} (pages : Option Nat) {b : BufId}
    (hb : b < s.file.nextBuf) : (record s t pages).pages b = s.pages b := by
  unfold record
  dsimp only
  split
  · rfl
  · exact Function.update_of_ne (Nat.ne_of_lt hb) _ _

/-- What was granted is what was asked for. -/
def Grants (a : FileOperations.Action) (pages : Option Nat) : Prop :=
  ∀ size rflags remote ok, Asks a size rflags remote ok →
    ok = pages.isSome ∧ ∀ n ∈ pages, n = (pageCount size).toNat

theorem backed_record {a : FileOperations.Action} {t : File} {pages : Option Nat} (h : Backed s)
    (hstep : FileOperations.step k s.file a = some t) (grants : Grants a pages) :
    Backed (record s t pages) := by
  have places : PlacesOk t := step_placesOk h.places hstep
  obtain ⟨u, moves, retains⟩ := step_buffers hstep
  have same (next : u.nextBuf = s.file.nextBuf) (bufs : u.bufs = s.file.bufs)
      (cached : ∀ b ∈ u.cached, b ∈ s.file.cached) : Backed (record s t pages) := by
    refine ⟨places, fun b hb => ?_, fun b hb => ?_⟩
    · change (t.bufs b).size < _
      rw [retains.sizes b, bufs]
      rcases retains.cached b hb with hb | hsmall
      · exact h.small b (cached b hb)
      · exact bufs ▸ hsmall
    · have hnext : t.nextBuf = s.file.nextBuf := retains.next.trans next
      rw [record_same pages hnext]
      change s.pages b = (pageCount (t.bufs b).size).toNat
      rw [retains.sizes b, bufs]
      exact h.pages b (hnext ▸ hb)
  cases moves with
  | aside => exact same rfl rfl fun _ hb => hb
  | allocs asks alloc =>
    rcases bufAlloc_fits alloc with ⟨-, -, rfl⟩ | ⟨hok, -, rfl⟩
    · exact same rfl rfl fun _ hb => List.mem_of_mem_erase hb
    have hnext : t.nextBuf = s.file.nextBuf + 1 := retains.next
    obtain ⟨hgrant, hpages⟩ := grants _ _ _ _ asks
    obtain ⟨n, rfl⟩ := Option.isSome_iff_exists.mp (hgrant ▸ hok)
    refine ⟨places, fun b hb => ?_, fun b hb => ?_⟩
    · change (t.bufs b).size < _
      rw [retains.sizes b]
      rcases retains.cached b hb with hb | hsmall
      · have hold := h.places.bufs.known b (mem_allBufs.mpr (Or.inl hb))
        change (Function.update s.file.bufs s.file.nextBuf _ b).size < _
        rw [Function.update_of_ne (Nat.ne_of_lt hold)]
        exact h.small b hb
      · exact hsmall
    · rw [record_new (some n) hnext]
      change _ = (pageCount (t.bufs b).size).toNat
      rw [retains.sizes b]
      change _ = (pageCount (Function.update s.file.bufs s.file.nextBuf _ b).size).toNat
      rcases Nat.lt_succ_iff_lt_or_eq.mp (hnext ▸ hb) with hold | rfl
      · rw [Function.update_of_ne (Nat.ne_of_lt hold), Function.update_of_ne (Nat.ne_of_lt hold)]
        exact h.pages b hold
      · rw [Function.update_self, Function.update_self]
        exact hpages n rfl

theorem step_record {a : Action} (h : step k maxOrder s a = some t) :
    ∃ b u pages, FileOperations.step k s.file b = some u ∧ Grants b pages ∧
      t = record s u pages := by
  cases a with
  | stage c len x =>
    simp only [step] at h
    split_ifs at h
    obtain ⟨u, hstep, rfl⟩ := Option.map_eq_some_iff.mp h
    refine ⟨_, u, _, hstep, fun size rflags remote ok asks => ?_, rfl⟩
    cases asks
    exact ⟨rfl, fun n hn => (newPages_some hn).1⟩
  | mmap ud dma x =>
    obtain ⟨u, hstep, rfl⟩ := Option.map_eq_some_iff.mp h
    refine ⟨_, u, _, hstep, fun size rflags remote ok asks => ?_, rfl⟩
    cases asks
    exact ⟨rfl, fun n hn => (newPages_some hn).1⟩
  | other a =>
    simp only [step] at h
    split_ifs at h with hquiet
    obtain ⟨u, hstep, rfl⟩ := Option.map_eq_some_iff.mp h
    refine ⟨a, u, none, hstep, fun size rflags remote ok asks => ?_, rfl⟩
    cases asks <;> exact absurd rfl hquiet

theorem step_backed {a : Action} (h : Backed s) (hstep : step k maxOrder s a = some t) :
    Backed t := by
  obtain ⟨b, u, pages, hfile, grants, rfl⟩ := step_record hstep
  exact backed_record h hfile grants

theorem run_backed {as : List Action} (run : exec (step k maxOrder) State.opened as = some s) :
    Backed s :=
  exec_invariant (fun _ _ _ h hstep => step_backed h hstep) opened_backed run

/-- A buffer keeps its pages. -/
theorem step_older {a : Action} {b : BufId} (hstep : step k maxOrder s a = some t)
    (hb : b < s.file.nextBuf) : b < t.file.nextBuf ∧ t.pages b = s.pages b := by
  obtain ⟨a, u, pages, hfile, -, rfl⟩ := step_record hstep
  refine ⟨?_, record_older pages hb⟩
  change b < u.nextBuf
  obtain ⟨v, moves, retains⟩ := step_buffers hfile
  rw [retains.next]
  cases moves with
  | aside => exact hb
  | allocs asks alloc =>
    rcases bufAlloc_fits alloc with ⟨-, -, rfl⟩ | ⟨-, -, rfl⟩
    · exact hb
    · exact Nat.lt_succ_of_lt hb

theorem run_older {as : List Action} {b : BufId} (hb : b < s.file.nextBuf)
    (run : exec (step k maxOrder) s as = some t) : t.pages b = s.pages b := by
  have preserved : ∀ u a v, b < u.file.nextBuf ∧ u.pages b = s.pages b →
      step k maxOrder u a = some v → b < v.file.nextBuf ∧ v.pages b = s.pages b := by
    intro u a v hu hstep
    obtain ⟨hnext, hpages⟩ := step_older hstep hu.1
    exact ⟨hnext, hpages.trans hu.2⟩
  exact (exec_invariant preserved ⟨hb, rfl⟩ run).2

theorem bufAlloc_of_file {size : UInt64} {rflags : UInt32} {remote mapped : Bool} {x : Answers}
    {b : BufId} {u : File} (h : FileOperations.bufAlloc s.file size rflags remote
      (newPages maxOrder x size mapped).isSome = some (b, u)) :
    bufAlloc maxOrder s size rflags remote mapped x =
      some (b, record s u (newPages maxOrder x size mapped)) := by
  unfold bufAlloc
  dsimp only
  rw [h, Option.map_some]

/-- A buffer of the cache is small, large enough and keeps its pages; a new one has as
many pages as were counted. -/
theorem bufAlloc_pages {size : UInt64} {rflags : UInt32} {remote mapped : Bool} {x : Answers}
    {b : BufId} (h : Backed s)
    (alloc : bufAlloc maxOrder s size rflags remote mapped x = some (b, t)) :
    size < maxCacheBufSize ∧ size.toNat ≤ t.pages b * 4096 ∨
      (pageCount size).toNat ≠ 0 ∧ t.pages b = (pageCount size).toNat := by
  obtain ⟨⟨b', u⟩, hfile, heq⟩ := Option.map_eq_some_iff.mp alloc
  obtain ⟨rfl, rfl⟩ := Prod.mk.inj heq
  dsimp only
  rcases bufAlloc_fits hfile with ⟨hb, hfits, hu⟩ | ⟨hok, hb, hu⟩
  · have hnext : u.nextBuf = s.file.nextBuf := by rw [hu]
    refine Or.inl ⟨UInt64.lt_of_le_of_lt hfits (h.small b' hb), ?_⟩
    rw [record_same _ hnext, h.pages b' (h.places.bufs.known b' (mem_allBufs.mpr (Or.inl hb)))]
    exact (UInt64.le_iff_toNat_le.mp hfits).trans (pages_cached (h.small b' hb))
  · have hnext : u.nextBuf = s.file.nextBuf + 1 := by rw [hu]; rfl
    obtain ⟨n, hn⟩ := Option.isSome_iff_exists.mp hok
    obtain ⟨hcount, hne⟩ := newPages_some hn
    rw [record_new _ hnext, hb, Function.update_self, hn, Option.getD_some]
    exact Or.inr ⟨hcount ▸ hne, hcount⟩

theorem bufAlloc_enough {size : UInt64} {rflags : UInt32} {remote mapped : Bool} {x : Answers}
    {b : BufId} (h : Backed s) (countable : Countable size)
    (alloc : bufAlloc maxOrder s size rflags remote mapped x = some (b, t)) :
    size.toNat ≤ t.pages b * 4096 := by
  rcases bufAlloc_pages h alloc with ⟨-, henough⟩ | ⟨hne, hpages⟩
  · exact henough
  · rw [hpages]
    exact pages_enough countable hne

/-- Whatever is in the cache, a size that cannot be counted gets too few pages. -/
theorem bufAlloc_short {size : UInt64} (maxOrder : Nat) (rflags : UInt32) (remote mapped : Bool)
    (h : Backed s) (uncountable : ¬ Countable size) :
    ∃ b t, bufAlloc maxOrder s size rflags remote mapped granted = some (b, t) ∧
      t.pages b * 4096 < size.toNat := by
  obtain ⟨hne, hshort⟩ := pages_short uncountable
  have hsize : size ≠ 0 := by
    rintro rfl
    exact Nat.not_lt_zero _ hshort
  have hfile : (FileOperations.bufAlloc s.file size rflags remote true).isSome = true := by
    unfold FileOperations.bufAlloc
    rw [if_neg hsize]
    split <;> rfl
  obtain ⟨⟨b, u⟩, hb⟩ := Option.isSome_iff_exists.mp hfile
  have hok : (newPages maxOrder granted size mapped).isSome = true := by
    rw [newPages_granted maxOrder mapped hne]
    rfl
  have alloc := bufAlloc_of_file (hok ▸ hb)
  refine ⟨b, _, alloc, ?_⟩
  rcases bufAlloc_pages h alloc with ⟨hsmall, -⟩ | ⟨-, hpages⟩
  · exact absurd (countable_small hsmall) uncountable
  · rw [hpages]
    exact hshort

theorem bufAlloc_known {size : UInt64} {rflags : UInt32} {remote ok : Bool} {b : BufId} {t : File}
    (h : Backed s) (alloc : FileOperations.bufAlloc s.file size rflags remote ok = some (b, t)) :
    b < t.nextBuf := by
  rcases bufAlloc_fits alloc with ⟨hb, -, rfl⟩ | ⟨-, rfl, rfl⟩
  · exact h.places.bufs.known b (mem_allBufs.mpr (Or.inl hb))
  · exact Nat.lt_succ_self _

theorem bufAlloc_nonzero {size : UInt64} {rflags : UInt32} {remote mapped : Bool} {x : Answers}
    {r : BufId × State} (alloc : bufAlloc maxOrder s size rflags remote mapped x = some r) :
    size ≠ 0 := by
  obtain ⟨u, hfile, -⟩ := Option.map_eq_some_iff.mp alloc
  unfold FileOperations.bufAlloc at hfile
  split at hfile
  · cases hfile
  · assumption

theorem bufAlloc_ctxs {s t : File} {size : UInt64} {rflags : UInt32} {remote ok : Bool}
    {b : BufId} (h : FileOperations.bufAlloc s size rflags remote ok = some (b, t)) :
    t.ctxs = s.ctxs := by
  rcases bufAlloc_some h with ⟨-, -, rfl⟩ | ⟨-, rfl⟩ <;> rfl

theorem setCtx_desc (s : File) (c : CtxId) (ctx : InvokeCtx) :
    ((s.setCtx c ctx).ctxs c).desc = ctx.desc :=
  congrArg InvokeCtx.desc (Function.update_self _ _ _)

/-- `get_args` stages a buffer of `len` bytes for a context it builds. -/
theorem stage_eq {c : CtxId} {len : UInt64} (x : Answers) (pending : c ∈ s.file.pending)
    (building : (s.file.ctxs c).stage = .building) (long : pageSize ≤ len) :
    step k maxOrder s (.stage c len x) =
      some (record s (stageBuffer s.file c (pageAlign len)
        (newPages maxOrder x (pageAlign len) true).isSome)
        (newPages maxOrder x (pageAlign len) true)) := by
  have hlong : ¬ len < pageSize := UInt64.not_lt.mpr long
  simp only [step, FileOperations.step, FileOperations.Action.ctx, ctxStep, if_neg hlong,
    if_pos pending, if_pos building, Option.map_some]

/-- The buffer that a context gets is the one that was allocated. -/
theorem stage_alloc {c : CtxId} {len : UInt64} {x : Answers} {b : BufId}
    (pending : c ∈ s.file.pending) (building : (s.file.ctxs c).stage = .building)
    (long : pageSize ≤ len) (hstep : step k maxOrder s (.stage c len x) = some t)
    (desc : (t.file.ctxs c).desc = (s.file.ctxs c).desc ++ [b]) :
    ∃ u, bufAlloc maxOrder s (pageAlign len) 0 false true x = some (b, u) ∧
      t.pages = u.pages ∧ t.file.nextBuf = u.file.nextBuf := by
  obtain rfl := Option.some.inj ((stage_eq x pending building long).symm.trans hstep)
  change ((stageBuffer s.file c _ _).ctxs c).desc = _ at desc
  unfold stageBuffer at desc ⊢
  split at desc
  · rename_i b' u halloc
    rw [setCtx_desc, bufAlloc_ctxs halloc] at desc
    obtain rfl := List.singleton_inj.mp (List.append_cancel_left desc)
    exact ⟨_, bufAlloc_of_file halloc, rfl, rfl⟩
  · rw [setCtx_desc] at desc
    exact absurd desc (by simp)

theorem alloc_stage {c : CtxId} {len : UInt64} {x : Answers} {b : BufId} {u : State}
    (pending : c ∈ s.file.pending) (building : (s.file.ctxs c).stage = .building)
    (long : pageSize ≤ len)
    (alloc : bufAlloc maxOrder s (pageAlign len) 0 false true x = some (b, u)) :
    ∃ t, step k maxOrder s (.stage c len x) = some t ∧
      (t.file.ctxs c).desc = (s.file.ctxs c).desc ++ [b] ∧ t.pages = u.pages := by
  refine ⟨_, stage_eq x pending building long, ?_⟩
  obtain ⟨⟨b', v⟩, hfile, heq⟩ := Option.map_eq_some_iff.mp alloc
  obtain ⟨rfl, rfl⟩ := Prod.mk.inj heq
  unfold stageBuffer
  rw [hfile]
  refine ⟨?_, rfl⟩
  change ((v.setCtx c _).ctxs c).desc = _
  rw [setCtx_desc, bufAlloc_ctxs hfile]

/-- Every copy between the caller and a staging buffer of `len` bytes, then or later, stays
inside the pages of the buffer. -/
def CopiesFit (k : Uapi) (maxOrder : Nat) (s : State) (c : CtxId) (len : UInt64) : Prop :=
  ∀ x t b, step k maxOrder s (.stage c len x) = some t →
    (t.file.ctxs c).desc = (s.file.ctxs c).desc ++ [b] →
    ∀ later u, exec (step k maxOrder) t later = some u → len.toNat ≤ u.pages b * 4096

theorem copiesFit_iff {c : CtxId} {len : UInt64} (h : Backed s) (pending : c ∈ s.file.pending)
    (building : (s.file.ctxs c).stage = .building) (long : pageSize ≤ len) :
    CopiesFit k maxOrder s c len ↔ Countable len := by
  constructor
  · intro fits
    by_contra uncountable
    obtain ⟨b, u, alloc, short⟩ := bufAlloc_short maxOrder 0 false true h
      (mt (countable_pageAlign len).mp uncountable)
    obtain ⟨t, hstep, desc, pages⟩ := alloc_stage (k := k) pending building long alloc
    have hfits := fits _ t b hstep desc [] t rfl
    rw [pages] at hfits
    exact Nat.not_le_of_lt (pages_lt_of_pageAlign short) hfits
  · intro countable x t b hstep desc later u run
    obtain ⟨v, alloc, pages, next⟩ := stage_alloc pending building long hstep desc
    have hknown : b < t.file.nextBuf := by
      obtain ⟨⟨b', w⟩, hfile, heq⟩ := Option.map_eq_some_iff.mp alloc
      obtain ⟨rfl, rfl⟩ := Prod.mk.inj heq
      rw [next]
      exact bufAlloc_known h hfile
    rw [run_older hknown run, pages]
    exact (le_pageAlign (bufAlloc_nonzero alloc)).trans
      (bufAlloc_enough h ((countable_pageAlign len).mpr countable) alloc)

/-- `vfastrpc_buf_alloc` backs what it returns, from the cache or new, and copies to and
from staging buffers stay inside them, exactly if the pages can be counted. -/
theorem buffers_backed_iff {as : List Action}
    (run : exec (step k maxOrder) State.opened as = some s) :
    (∀ (size : UInt64) (rflags : UInt32) (remote mapped : Bool),
      (∀ x b t, bufAlloc maxOrder s size rflags remote mapped x = some (b, t) →
        size.toNat ≤ t.pages b * 4096) ↔ Countable size) ∧
    ∀ c ∈ s.file.pending, (s.file.ctxs c).stage = .building →
      ∀ len, pageSize ≤ len → (CopiesFit k maxOrder s c len ↔ Countable len) := by
  have h := run_backed run
  refine ⟨fun size rflags remote mapped => ⟨fun backed => ?_, fun countable x b t alloc =>
    bufAlloc_enough h countable alloc⟩, fun c pending building len long =>
    copiesFit_iff h pending building long⟩
  by_contra uncountable
  obtain ⟨b, t, alloc, short⟩ := bufAlloc_short maxOrder rflags remote mapped h uncountable
  exact Nat.not_le_of_lt short (backed _ b t alloc)

end steps

/-- A thread begins an invoke with one output buffer. -/
def oneCall : List Action := [.other (.init 1), .other (.invoke 7 0x100 false)]

theorem oneCall_backed : ∃ s, exec (step uapi 10) State.opened oneCall = some s ∧
    (∀ x b t, bufAlloc 10 s 0x100000 0 true false x = some (b, t) →
      0x100000 ≤ t.pages b * 4096) ∧
    CopiesFit uapi 10 s 0 0xfffffffe001 := by
  refine ⟨_, rfl, ?_⟩
  have backed := @buffers_backed_iff uapi 10 _ oneCall rfl
  exact ⟨(backed.1 0x100000 0 true false).mpr (Or.inl (by decide)),
    (backed.2 0 (by decide) rfl 0xfffffffe001 (by decide)).mpr (Or.inl (by decide))⟩

/-- One page is allocated for a staging buffer of sixteen terabytes and a byte. -/
theorem truncated_pages : ∃ s t b, exec (step uapi 10) State.opened oneCall = some s ∧
    step uapi 10 s (.stage 0 0x100000000001 granted) = some t ∧
    (t.file.ctxs 0).desc = [b] ∧ (t.file.bufs b).size = 0x100000001000 ∧ t.pages b = 1 := by
  have counted : (pageCount (pageAlign 0x100000000001)).toNat ≠ 0 := by decide
  have hpages := newPages_granted 10 true counted
  refine ⟨_, _, 0, rfl, stage_eq granted (by decide) rfl (by decide), ?_⟩
  rw [hpages]
  decide

end StagingPages
