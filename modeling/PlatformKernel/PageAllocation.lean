import PlatformKernel.DrainLoops
import PlatformKernel.LowMasks
import PlatformKernel.ReturnCodes
import PlatformKernel.StagingPages

/-!
# Allocating the pages of a buffer

`vfastrpc_alloc_pages` fills an array with pages, in blocks that are as large as the kernel
gives and as what is still missing allows. A mask of the orders that are still tried is kept
from block to block. If not even a single page is given, everything taken is freed.
-/

namespace PageAllocation

open DrainLoops LowMasks ReturnCodes

/-- A `struct page *`: the number of the call of `alloc_pages_node` that gave the block, and
the page of it. Blocks that are held at one time do not overlap. -/
structure Page where
  block : Nat
  index : Nat
  deriving DecidableEq

/-- A call of `alloc_pages_node`, with the pages still missing at that time. -/
structure Request where
  order : Nat
  noRetry : Bool
  count : UInt32
  granted : Bool
  deriving DecidableEq

structure State where
  orderMask : UInt64
  count : UInt32
  i : UInt32
  pages : List (Option Page)
  page : Option Page
  orderSize : UInt32
  log : List Request

/-- What was returned, which calls were made, and which pages were freed, before the array. -/
structure Outcome where
  result : Option (List (Option Page))
  log : List Request
  freed : List Page
  deriving DecidableEq

/-- `__fls`. -/
def fls (word : UInt64) : UInt32 := word.log2.toUInt32

/-- `while (count--) __free_page(pages[count])`. -/
def freeLoop (pages : List (Option Page)) : Nat → Option (List Page)
  | 0 => some []
  | count + 1 => do
    let slot ← pages[count]?
    let page ← slot
    let rest ← freeLoop pages count
    return page :: rest

/-- `vfastrpc_free_pages`: the pages in the order in which they are freed; none if the loop
leaves the array. -/
def freePages (pages : List (Option Page)) (count : Int32) : Option (List Page) :=
  if count < 0 then none else freeLoop pages count.toNatClampNeg

/-- One round of the inner loop, unless it is over. -/
def tryOrder (grants : Nat → Bool) (s : State) : Option State :=
  if s.orderMask = 0 ∨ s.page.isSome then none
  else
    let order := fls s.orderMask
    let orderSize : UInt32 := 1 <<< order
    let noRetry : Bool := orderSize.toUInt64 < s.orderMask
    let granted := grants s.log.length
    let log := s.log ++ [⟨order.toNat, noRetry, s.count, granted⟩]
    if granted then some { s with orderSize, log, page := some ⟨s.log.length, 0⟩ }
    -- the complement has 32 bits, so this clears the upper half of the mask as well
    else some { s with orderSize, log, orderMask := s.orderMask &&& (~~~orderSize).toUInt64 }

/-- `while (order_size--) pages[i++] = page++`; none if a page is written behind the array. -/
def store : Nat → List (Option Page) → UInt32 → Page → Option (List (Option Page) × UInt32)
  | 0, pages, i, _ => some (pages, i)
  | left + 1, pages, i, page =>
    if i.toNat < pages.length then
      store left (pages.set i.toNat (some page)) (i + 1) ⟨page.block, page.index + 1⟩
    else none

/-- The orders the inner loop starts from. -/
def narrow (s : State) : State :=
  { s with
    page := none
    orderMask := s.orderMask &&& ((2 : UInt32) <<< fls s.count.toUInt64 - 1).toUInt64 }

/-- The outer loop; none when the rounds of a loop are used up or the array is left. -/
def fill (grants : Nat → Bool) (fuel : Nat) : Nat → State → Option Outcome
  | 0, _ => none
  | rounds + 1, s =>
    if s.count = 0 then some ⟨some s.pages, s.log, []⟩
    else do
      let s ← drain (tryOrder grants) fuel (narrow s)
      match s.page with
      | none => return ⟨none, s.log, ← freePages s.pages s.i.toInt32⟩
      | some page =>
        let (pages, i) ← store s.orderSize.toNat s.pages s.i page
        fill grants fuel rounds { s with count := s.count - s.orderSize, pages, i }

def initial (maxOrder : Nat) (count : UInt32) : State where
  orderMask := ((2 : UInt32) <<< maxOrder.toUInt32 - 1).toUInt64
  count := count
  i := 0
  pages := List.replicate count.toNat none
  page := none
  orderSize := 0
  log := []

def vfastrpcAllocPages (kvzalloc : Nat → Bool) (grants : Nat → Bool) (maxOrder fuel : Nat)
    (count : UInt32) : Option Outcome :=
  if kvzalloc (count.toNat * 8) then fill grants fuel fuel (initial maxOrder count)
  else some ⟨none, [], []⟩

/-- The page is one of a block that was given. -/
def Given (log : List Request) (p : Page) : Prop :=
  ∃ q, log[p.block]? = some q ∧ q.granted = true ∧ p.index < 2 ^ q.order

/-- The list has every page given, and each of them once. -/
structure Once (log : List Request) (ps : List Page) : Prop where
  nodup : ps.Nodup
  mem : ∀ p, p ∈ ps ↔ Given log p

/-- The pages of the blocks given, in the order of the calls. -/
def taken (log : List Request) : List Page :=
  log.zipIdx.flatMap fun e =>
    if e.1.granted then (List.range (2 ^ e.1.order)).map (Page.mk e.2) else []

/-- A call that is made after those of `before`: `count` is what is missing, and the block is
no larger. Only for single pages the kernel is asked to try harder. -/
structure Fits (total maxOrder : Nat) (before : List Request) (q : Request) : Prop where
  missing : (taken before).length + q.count.toNat = total
  block : 2 ^ q.order ≤ q.count.toNat
  order : q.order ≤ maxOrder
  retry : q.noRetry = true ↔ q.order ≠ 0

def Orderly (total maxOrder : Nat) (log : List Request) : Prop :=
  ∀ before q after, log = before ++ q :: after → Fits total maxOrder before q

/-- What `vfastrpc_alloc_pages` does once it has the array. -/
structure Correct (total maxOrder : Nat) (o : Outcome) : Prop where
  calls : o.log.length ≤ total + maxOrder + 1
  orderly : Orderly total maxOrder o.log
  pages : ∀ slots, o.result = some slots →
    o.freed = [] ∧ ∃ ps, slots = ps.map some ∧ ps.length = total ∧ Once o.log ps
  null : o.result = none →
    (∃ q, o.log.getLast? = some q ∧ q.order = 0 ∧ q.granted = false) ∧ Once o.log o.freed

theorem taken_concat (log : List Request) (q : Request) :
    taken (log ++ [q]) = taken log ++
      if q.granted then (List.range (2 ^ q.order)).map (Page.mk log.length) else [] := by
  simp [taken, List.zipIdx_append]

theorem mem_taken {log : List Request} {p : Page} : p ∈ taken log ↔ Given log p := by
  constructor
  · intro member
    obtain ⟨⟨q, n⟩, entry, member⟩ := List.mem_flatMap.mp member
    have entry := List.mem_zipIdx_iff_getElem?.mp entry
    split_ifs at member with granted
    · obtain ⟨index, below, rfl⟩ := List.mem_map.mp member
      exact ⟨q, entry, granted, List.mem_range.mp below⟩
    · cases member
  · rintro ⟨q, entry, granted, below⟩
    refine List.mem_flatMap.mpr ⟨(q, p.block), List.mem_zipIdx_iff_getElem?.mpr entry, ?_⟩
    rw [if_pos granted]
    exact List.mem_map.mpr ⟨p.index, List.mem_range.mpr below, rfl⟩

theorem taken_nodup (log : List Request) : (taken log).Nodup := by
  induction log using List.reverseRecOn with
  | nil => exact List.nodup_nil
  | append_singleton log q ih =>
    rw [taken_concat]
    split_ifs
    · have block : ((List.range (2 ^ q.order)).map (Page.mk log.length)).Nodup :=
        List.nodup_range.map fun a b same => congrArg Page.index same
      refine List.nodup_append.mpr ⟨ih, block, ?_⟩
      rintro p old _ new rfl
      obtain ⟨index, _, rfl⟩ := List.mem_map.mp new
      obtain ⟨_, entry, _⟩ := mem_taken.mp old
      exact absurd (List.getElem?_eq_some_iff.mp entry).1 (Nat.lt_irrefl _)
    · rwa [List.append_nil]

theorem once_taken (log : List Request) : Once log (taken log) :=
  ⟨taken_nodup log, fun _ => mem_taken⟩

theorem Once.reverse {log : List Request} {ps : List Page} (h : Once log ps) :
    Once log ps.reverse :=
  ⟨List.nodup_reverse.mpr h.nodup, fun p => List.mem_reverse.trans (h.mem p)⟩

theorem orderly_concat {total maxOrder : Nat} {log : List Request} {q : Request}
    (h : Orderly total maxOrder log) (fits : Fits total maxOrder log q) :
    Orderly total maxOrder (log ++ [q]) := by
  intro before q' after same
  rcases List.eq_nil_or_concat after with rfl | ⟨front, last, rfl⟩
  · obtain ⟨rfl, rfl⟩ := List.append_singleton_inj.mp same
    exact fits
  · have same : log ++ [q] = (before ++ q' :: front) ++ [last] := by simpa using same
    exact h before q' front (List.append_singleton_inj.mp same).1

theorem freeLoop_front (ps : List Page) (rest : List (Option Page)) :
    freeLoop (ps.map some ++ rest) ps.length = some ps.reverse := by
  induction ps using List.reverseRecOn generalizing rest with
  | nil => rfl
  | append_singleton ps p ih =>
    have front : (ps ++ [p]).map some ++ rest = ps.map some ++ some p :: rest := by simp
    have slot : (ps.map some ++ some p :: rest)[ps.length]? = some (some p) := by
      rw [List.getElem?_append_right (by simp)]
      simp
    rw [front, List.length_append, List.length_singleton, freeLoop, slot, ih]
    simp

theorem toInt_toInt32 (i : UInt32) :
    i.toInt32.toInt = if 2 * i.toNat < 2 ^ 32 then (i.toNat : Int) else (i.toNat : Int) - 2 ^ 32 :=
  BitVec.toInt_eq_toNat_cond i.toBitVec

/-- Up to `INT_MAX` the count survives its conversion. -/
theorem freePages_front {ps : List Page} {i : UInt32} (index : i.toNat = ps.length)
    (small : ps.length ≤ intMax) (rest : List (Option Page)) :
    freePages (ps.map some ++ rest) i.toInt32 = some ps.reverse := by
  have value : i.toInt32.toInt = ps.length := by
    rw [toInt_toInt32, if_pos, index]
    unfold intMax at small
    omega
  have nonneg : ¬i.toInt32 < 0 := by
    rw [Int32.lt_iff_toInt_lt, value]
    exact Int.not_lt.mpr (Int.natCast_nonneg _)
  rw [freePages, if_neg nonneg, Int32.toNatClampNeg, value]
  exact freeLoop_front ps rest

/-- Beyond it the loop starts before the array. -/
theorem freePages_beyond {i : UInt32} (large : intMax < i.toNat) (pages : List (Option Page)) :
    freePages pages i.toInt32 = none := by
  refine if_pos (Int32.lt_iff_toInt_lt.mpr ?_)
  have below := i.toNat_lt
  rw [toInt_toInt32, if_neg (by unfold intMax at large; omega)]
  change (i.toNat : Int) - 2 ^ 32 < 0
  omega

/-- A block that fits what is missing is stored behind the pages that are there. -/
theorem store_front (left missing : Nat) (front : List (Option Page)) (i : UInt32) (b j : Nat)
    (index : i.toNat = front.length) (room : left ≤ missing)
    (small : front.length + missing < 2 ^ 32) :
    ∃ i', i'.toNat = i.toNat + left ∧
      store left (front ++ List.replicate missing none) i ⟨b, j⟩ =
        some (front ++ (List.range' j left).map (fun n => some ⟨b, n⟩) ++
          List.replicate (missing - left) none, i') := by
  induction left generalizing front missing i j with
  | zero => exact ⟨i, rfl, by simp [store]⟩
  | succ left ih =>
    obtain ⟨missing, rfl⟩ := Nat.exists_eq_succ_of_ne_zero (Nat.ne_of_gt (Nat.zero_lt_of_lt room))
    have step : (i + 1).toNat = i.toNat + 1 := by
      rw [UInt32.toNat_add]
      exact Nat.mod_eq_of_lt (by simp; omega)
    have length : (front ++ [some (Page.mk b j)]).length = front.length + 1 := by simp
    obtain ⟨i', next, stored⟩ := ih missing (front ++ [some ⟨b, j⟩]) (i + 1) (j + 1)
      (by omega) (by omega) (by omega)
    refine ⟨i', by omega, ?_⟩
    have inside : i.toNat < (front ++ List.replicate (missing + 1) none).length := by
      simp [index]
    have written : (front ++ List.replicate (missing + 1) none).set i.toNat (some ⟨b, j⟩) =
        front ++ [some ⟨b, j⟩] ++ List.replicate missing none := by
      rw [index, List.set_append_right _ _ (Nat.le_refl _), Nat.sub_self, List.replicate_succ]
      simp
    rw [store, if_pos inside, written, stored]
    simp [List.range'_succ]

theorem toNat_ne_zero {count : UInt32} (unfilled : count ≠ 0) : count.toNat ≠ 0 := fun zero =>
  unfilled (UInt32.toNat_inj.mp zero)

theorem fls_toNat (word : UInt64) : (fls word).toNat = word.toNat.log2 := by
  have small : word.toNat.log2 < 64 := by
    by_cases zero : word.toNat = 0
    · rw [zero]
      decide
    · exact (Nat.log2_lt zero).mpr word.toNat_lt
  rw [fls, UInt64.toNat_toUInt32]
  exact Nat.mod_eq_of_lt (small.trans (by decide))

/-- For the highest order `2U << order` wraps to zero, and the difference back. -/
theorem orders_toNat {order : UInt32} (small : order.toNat < 32) :
    ((2 : UInt32) <<< order - 1).toUInt64.toNat = lowMask (order.toNat + 1) := by
  have shifted : ((2 : UInt32) <<< order).toNat = 2 ^ (order.toNat + 1) % 2 ^ 32 := by
    rw [UInt32.toNat_shiftLeft, Nat.mod_eq_of_lt small, Nat.shiftLeft_eq]
    exact congrArg (· % 2 ^ 32) Nat.pow_succ'.symm
  rw [UInt32.toNat_toUInt64, UInt32.toNat_sub, shifted, lowMask]
  change (2 ^ 32 - 1 + _) % 2 ^ 32 = _
  rcases Nat.lt_or_eq_of_le (Nat.succ_le_of_lt small) with below | last
  · have bound : 2 ^ (order.toNat + 1) < 2 ^ 32 := Nat.pow_lt_pow_right Nat.one_lt_two below
    have pos := Nat.two_pow_pos (order.toNat + 1)
    rw [Nat.mod_eq_of_lt bound]
    omega
  · rw [show order.toNat + 1 = 32 from last]
    decide

section orders

variable {mask : UInt64} {k : Nat}

theorem fls_low (low : mask.toNat = lowMask (k + 1)) : (fls mask).toNat = k := by
  rw [fls_toNat, low, log2_lowMask]

theorem size_low (low : mask.toNat = lowMask (k + 1)) (small : k < 32) :
    ((1 : UInt32) <<< fls mask).toNat = 2 ^ k := by
  rw [UInt32.toNat_shiftLeft, fls_low low, Nat.mod_eq_of_lt small]
  change 1 <<< k % 2 ^ 32 = 2 ^ k
  rw [Nat.one_shiftLeft]
  exact Nat.mod_eq_of_lt (Nat.pow_lt_pow_right Nat.one_lt_two small)

theorem retry_low (low : mask.toNat = lowMask (k + 1)) (small : k < 32) :
    decide (((1 : UInt32) <<< fls mask).toUInt64 < mask) = true ↔ k ≠ 0 := by
  rw [decide_eq_true_iff, UInt64.lt_iff_toNat_lt, UInt32.toNat_toUInt64, size_low low small, low,
    lowMask_succ, ← not_iff_not, not_not, ← lowMask_eq_zero_iff]
  omega

theorem cleared_low (low : mask.toNat = lowMask (k + 1)) (small : k < 32) :
    (mask &&& (~~~((1 : UInt32) <<< fls mask)).toUInt64).toNat = lowMask k := by
  rw [UInt64.toNat_and, UInt32.toNat_toUInt64, UInt32.toNat_not, size_low low small, low]
  exact lowMask_clear small

end orders

/-- Between two calls: the array holds the pages taken, the mask the lowest `k` orders. A call
that fails costs an order and one that succeeds a page, which bounds their number. -/
structure Filling (total maxOrder k : Nat) (s : State) : Prop where
  mask : s.orderMask.toNat = lowMask k
  low : k ≤ maxOrder + 1
  stored : s.pages = (taken s.log).map some ++ List.replicate s.count.toNat none
  index : s.i.toNat = (taken s.log).length
  missing : (taken s.log).length + s.count.toNat = total
  orderly : Orderly total maxOrder s.log
  budget : s.log.length + s.count.toNat + k ≤ total + maxOrder + 1

/-- In the inner loop no order is too large; it is left with no order after one for a single
page failed. -/
structure Trying (total maxOrder k : Nat) (s : State) : Prop
    extends Filling total maxOrder k s where
  page : s.page = none
  fits : ∀ j < k, 2 ^ j ≤ s.count.toNat
  last : k = 0 → ∃ q, s.log.getLast? = some q ∧ q.order = 0 ∧ q.granted = false

/-- The state after a call that succeeded. -/
def found (s : State) (k : Nat) (orderSize : UInt32) : State :=
  { s with
    orderSize
    log := s.log ++ [⟨k, decide (k ≠ 0), s.count, true⟩]
    page := some ⟨s.log.length, 0⟩ }

/-- The state after a call that failed. -/
def missed (s : State) (k : Nat) (orderSize : UInt32) (orderMask : UInt64) : State :=
  { s with
    orderSize
    log := s.log ++ [⟨k, decide (k ≠ 0), s.count, false⟩]
    orderMask }

section loops

variable {total maxOrder k : Nat} {s : State} {grants : Nat → Bool}

theorem initial_filling (order : maxOrder < 31) (count : UInt32) :
    Filling count.toNat maxOrder (maxOrder + 1) (initial maxOrder count) where
  mask := by
    have small : maxOrder.toUInt32.toNat = maxOrder := by
      rw [Nat.toUInt32, UInt32.toNat_ofNat']
      exact Nat.mod_eq_of_lt (by omega)
    have mask : (initial maxOrder count).orderMask.toNat = lowMask (maxOrder.toUInt32.toNat + 1) :=
      orders_toNat (by omega)
    rwa [small] at mask
  low := Nat.le_refl _
  stored := rfl
  index := rfl
  missing := Nat.zero_add _
  orderly := by
    intro before q after same
    exact absurd same.symm (by simp [initial])
  budget := by
    change 0 + count.toNat + (maxOrder + 1) ≤ _
    omega

/-- The inner loop starts with the orders of blocks that fit, among which is order zero. -/
theorem Filling.trying (h : Filling total maxOrder (k + 1) s) (unfilled : s.count ≠ 0) :
    Trying total maxOrder (min k s.count.toNat.log2 + 1) (narrow s) where
  mask := by
    have short : s.count.toNat.log2 < 32 :=
      (Nat.log2_lt (toNat_ne_zero unfilled)).mpr s.count.toNat_lt
    have order : (fls s.count.toUInt64).toNat = s.count.toNat.log2 := by
      rw [fls_toNat, UInt32.toNat_toUInt64]
    change (s.orderMask &&& _).toNat = _
    rw [UInt64.toNat_and, h.mask, orders_toNat (order ▸ short), order, lowMask_and,
      Nat.add_min_add_right]
  low := (Nat.succ_le_succ (Nat.min_le_left _ _)).trans h.low
  stored := h.stored
  index := h.index
  missing := h.missing
  orderly := h.orderly
  budget := by
    have budget := h.budget
    change s.log.length + s.count.toNat + _ ≤ _
    omega
  page := rfl
  fits := by
    intro j below
    have fit : j ≤ s.count.toNat.log2 := by omega
    exact (Nat.pow_le_pow_right Nat.two_pos fit).trans (Nat.log2_self_le (toNat_ne_zero unfilled))
  last := nofun

/-- What a call does. -/
theorem Trying.call (h : Trying total maxOrder (k + 1) s) (order : maxOrder < 31)
    (grants : Nat → Bool) :
    ∃ size mask, size.toNat = 2 ^ k ∧ mask.toNat = lowMask k ∧
      tryOrder grants s =
        some (if grants s.log.length then found s k size else missed s k size mask) := by
  have low := h.low
  have small : k < 32 := by omega
  refine ⟨1 <<< fls s.orderMask, _, size_low h.mask small, cleared_low h.mask small, ?_⟩
  have going : ¬(s.orderMask = 0 ∨ s.page.isSome = true) := by
    rintro (zero | some)
    · exact lowMask_succ_ne_zero k (h.mask.symm.trans (congrArg UInt64.toNat zero))
    · rw [h.page] at some
      cases some
  have retry : decide (((1 : UInt32) <<< fls s.orderMask).toUInt64 < s.orderMask) =
      decide (k ≠ 0) :=
    Bool.eq_iff_iff.mpr ((retry_low h.mask small).trans decide_eq_true_iff.symm)
  rw [tryOrder, if_neg going]
  dsimp only
  rw [retry, fls_low h.mask]
  cases grants s.log.length <;> rfl

theorem Trying.request (h : Trying total maxOrder (k + 1) s) (granted : Bool) :
    Fits total maxOrder s.log ⟨k, decide (k ≠ 0), s.count, granted⟩ where
  missing := h.missing
  block := h.fits k (Nat.lt_succ_self k)
  order := Nat.le_of_succ_le_succ h.low
  retry := decide_eq_true_iff

theorem taken_missed (s : State) (k : Nat) (size : UInt32) (mask : UInt64) :
    taken (missed s k size mask).log = taken s.log :=
  (taken_concat _ _).trans (List.append_nil _)

theorem Trying.miss (h : Trying total maxOrder (k + 1) s) (size : UInt32) {mask : UInt64}
    (low : mask.toNat = lowMask k) : Trying total maxOrder k (missed s k size mask) where
  mask := low
  low := (Nat.le_succ k).trans h.low
  stored := by
    rw [taken_missed]
    exact h.stored
  index := by
    rw [taken_missed]
    exact h.index
  missing := by
    rw [taken_missed]
    exact h.missing
  orderly := orderly_concat h.orderly (h.request false)
  budget := by
    have budget := h.budget
    change (s.log ++ [_]).length + s.count.toNat + k ≤ _
    rw [List.length_append, List.length_singleton]
    omega
  page := h.page
  fits j below := h.fits j (Nat.lt_succ_of_lt below)
  last := by
    rintro rfl
    exact ⟨_, List.getLast?_concat, rfl, rfl⟩

/-- The inner loop ends: with a block, or with every order tried. -/
theorem Trying.search (h : Trying total maxOrder k s) (order : maxOrder < 31)
    (grants : Nat → Bool) {fuel : Nat} (enough : k < fuel) :
    (∃ t, drain (tryOrder grants) fuel s = some t ∧ Trying total maxOrder 0 t ∧
      t.count = s.count ∧ StagingPages.tryOrders grants (lowMask k) s.log.length = none) ∨
    ∃ t j size, drain (tryOrder grants) fuel s = some (found t j size) ∧
      Trying total maxOrder (j + 1) t ∧ t.count = s.count ∧ size.toNat = 2 ^ j ∧
      StagingPages.tryOrders grants (lowMask k) s.log.length =
        some (j, lowMask (j + 1), (found t j size).log.length) := by
  obtain ⟨fuel, rfl⟩ := Nat.exists_eq_succ_of_ne_zero (Nat.ne_of_gt (Nat.zero_lt_of_lt enough))
  -- on the orders that are left: a call that fails clears the highest of them
  induction k generalizing s fuel with
  | zero =>
    have ended : tryOrder grants s = none := if_pos (.inl (UInt64.toNat_inj.mp h.mask))
    refine .inl ⟨s, drain_done ended fuel, h, rfl, ?_⟩
    unfold StagingPages.tryOrders
    rfl
  | succ k ih =>
    obtain ⟨size, mask, power, low, call⟩ := h.call order grants
    obtain ⟨fuel, rfl⟩ := Nat.exists_eq_succ_of_ne_zero (show fuel ≠ 0 by omega)
    rw [drain, call]
    dsimp only
    unfold StagingPages.tryOrders
    rw [if_neg (lowMask_succ_ne_zero k), log2_lowMask]
    cases granted : grants s.log.length with
    | true =>
      have ended : tryOrder grants (found s k size) = none := if_pos (.inr rfl)
      refine .inr ⟨s, k, size, drain_done ended fuel, h, rfl, power, ?_⟩
      simp [found]
    | false =>
      have rest := ih (h.miss size low) fuel (by omega)
      have length : (missed s k size mask).log.length = s.log.length + 1 := by simp [missed]
      rw [lowMask_succ, Nat.add_sub_cancel]
      rw [length] at rest
      exact rest

/-- A block that was found goes to the array, which never overruns. -/
theorem Trying.store (h : Trying total maxOrder (k + 1) s) {size : UInt32}
    (power : size.toNat = 2 ^ k) (small : total < 2 ^ 32) :
    ∃ pages i, store size.toNat s.pages s.i ⟨s.log.length, 0⟩ = some (pages, i) ∧
      Filling total maxOrder (k + 1)
        { found s k size with count := s.count - size, pages, i } := by
  have fits : size.toNat ≤ s.count.toNat := power ▸ h.fits k (Nat.lt_succ_self k)
  have missing := h.missing
  have budget := h.budget
  have rest : (s.count - size).toNat = s.count.toNat - size.toNat :=
    UInt32.toNat_sub_of_le _ _ (UInt32.le_iff_toNat_le.mpr fits)
  have after : taken (found s k size).log =
      taken s.log ++ (List.range (2 ^ k)).map (Page.mk s.log.length) := taken_concat _ _
  have length : ((taken s.log).map some).length = (taken s.log).length := List.length_map _
  obtain ⟨i, next, stored⟩ := store_front size.toNat s.count.toNat ((taken s.log).map some) s.i
    s.log.length 0 (by rw [h.index, length]) fits (by omega)
  refine ⟨_, i, (congrArg (fun pages => PageAllocation.store _ pages s.i _) h.stored).trans stored,
    ?_⟩
  constructor
  · exact h.mask
  · exact h.low
  · change _ = (taken (found s k size).log).map some ++ List.replicate (s.count - size).toNat none
    rw [after, rest, power, List.map_append, List.map_map, List.range_eq_range']
    rfl
  · change i.toNat = (taken (found s k size).log).length
    rw [after, next, h.index, power]
    simp
  · change (taken (found s k size).log).length + (s.count - size).toNat = total
    rw [after, rest, List.length_append, List.length_map, List.length_range]
    omega
  · exact orderly_concat h.orderly (h.request true)
  · change (s.log ++ [_]).length + (s.count - size).toNat + (k + 1) ≤ _
    have pos := Nat.two_pow_pos k
    rw [rest, List.length_append, List.length_singleton]
    omega

/-- No page is missing any more. -/
theorem Filling.full (h : Filling total maxOrder k s) (full : s.count = 0) :
    Correct total maxOrder ⟨some s.pages, s.log, []⟩ where
  calls := by
    have budget := h.budget
    change s.log.length ≤ _
    omega
  orderly := h.orderly
  pages := by
    intro slots same
    obtain rfl := Option.some.inj same
    have stored := h.stored
    have missing := h.missing
    rw [full] at stored missing
    exact ⟨rfl, taken s.log, stored.trans (List.append_nil _), missing, once_taken _⟩
  null := nofun

/-- Every order was tried for what is missing. -/
theorem Trying.exhausted (h : Trying total maxOrder 0 s) (unfilled : s.count ≠ 0)
    (small : total ≤ 2 ^ 31) :
    ∃ freed, freePages s.pages s.i.toInt32 = some freed ∧
      Correct total maxOrder ⟨none, s.log, freed⟩ := by
  have nonzero := toNat_ne_zero unfilled
  have missing := h.missing
  have budget := h.budget
  have short : (taken s.log).length ≤ intMax := by
    unfold intMax
    omega
  have freed := freePages_front h.index short (List.replicate s.count.toNat none)
  rw [← h.stored] at freed
  refine ⟨_, freed, ?_⟩
  constructor
  · change s.log.length ≤ _
    omega
  · exact h.orderly
  · exact nofun
  · intro _
    exact ⟨h.last rfl, (once_taken s.log).reverse⟩

theorem fill_exhausted {t : State} {fuel rounds : Nat} {freed : List Page}
    (unfilled : s.count ≠ 0) (search : drain (tryOrder grants) fuel (narrow s) = some t)
    (page : t.page = none) (free : freePages t.pages t.i.toInt32 = some freed) :
    fill grants fuel (rounds + 1) s = some ⟨none, t.log, freed⟩ := by
  rw [fill, if_neg unfilled, search]
  simp [page, free]

theorem fill_found {t : State} {fuel rounds : Nat} {page : Page} {pages : List (Option Page)}
    {i : UInt32} (unfilled : s.count ≠ 0)
    (search : drain (tryOrder grants) fuel (narrow s) = some t) (given : t.page = some page)
    (stored : store t.orderSize.toNat t.pages t.i page = some (pages, i)) :
    fill grants fuel (rounds + 1) s =
      fill grants fuel rounds { t with count := t.count - t.orderSize, pages, i } := by
  rw [fill, if_neg unfilled, search]
  simp [given, stored]

theorem allocPages_exhausted {count mask n : Nat} (unfilled : count ≠ 0)
    (search : StagingPages.tryOrders grants (mask &&& lowMask (count.log2 + 1)) n = none) :
    StagingPages.allocPages grants count mask n = none := by
  unfold StagingPages.allocPages
  rw [if_neg unfilled, ← lowMask, search]

theorem allocPages_found {count mask n order mask' n' : Nat} (unfilled : count ≠ 0)
    (search : StagingPages.tryOrders grants (mask &&& lowMask (count.log2 + 1)) n =
      some (order, mask', n')) :
    (StagingPages.allocPages grants count mask n).isSome =
      (StagingPages.allocPages grants (count - 2 ^ order) mask' n').isSome := by
  conv_lhs => unfold StagingPages.allocPages
  rw [if_neg unfilled, ← lowMask, search]
  exact Option.isSome_map

/-- The outer loop ends within the rounds it is given, and as the count of pages does. -/
theorem Filling.run (h : Filling total maxOrder (k + 1) s) (order : maxOrder < 31)
    (small : total ≤ 2 ^ 31) {fuel rounds : Nat} (enough : maxOrder + 1 < fuel)
    (more : s.count.toNat < rounds) :
    ∃ o, fill grants fuel rounds s = some o ∧ Correct total maxOrder o ∧
      (StagingPages.allocPages grants s.count.toNat (lowMask (k + 1)) s.log.length).isSome =
        o.result.isSome := by
  -- each block takes at least one of the missing pages, so the rounds outlast them
  induction rounds generalizing s k with
  | zero => exact absurd more (Nat.not_lt_zero _)
  | succ rounds ih =>
    by_cases full : s.count = 0
    · refine ⟨_, if_pos full, h.full full, ?_⟩
      unfold StagingPages.allocPages
      rw [full]
      rfl
    have nonzero := toNat_ne_zero full
    have trying := h.trying full
    have steps : min k s.count.toNat.log2 + 1 < fuel := trying.low.trans_lt enough
    have shared : lowMask (min k s.count.toNat.log2 + 1) =
        lowMask (k + 1) &&& lowMask (s.count.toNat.log2 + 1) := by
      rw [lowMask_and, Nat.add_min_add_right]
    rcases trying.search order grants steps with
      ⟨t, search, trying, count, orders⟩ | ⟨t, j, size, search, trying, count, power, orders⟩
    · obtain ⟨freed, free, correct⟩ := trying.exhausted (count ▸ full) small
      refine ⟨_, fill_exhausted full search trying.page free, correct, ?_⟩
      rw [allocPages_exhausted nonzero (shared ▸ orders)]
      rfl
    · have fits : 2 ^ j ≤ t.count.toNat := trying.fits j (Nat.lt_succ_self j)
      have pos := Nat.two_pow_pos j
      have rest : (t.count - size).toNat = t.count.toNat - 2 ^ j :=
        power ▸ UInt32.toNat_sub_of_le _ _ (UInt32.le_iff_toNat_le.mpr (power ▸ fits))
      have same : t.count.toNat = s.count.toNat := congrArg UInt32.toNat count
      obtain ⟨pages, i, stored, filling⟩ := trying.store power (by omega)
      obtain ⟨o, run, correct, counted⟩ := ih filling (by change (t.count - size).toNat < _; omega)
      refine ⟨o, (fill_found full search rfl stored).trans run, correct, ?_⟩
      rw [allocPages_found nonzero (shared ▸ orders), ← same, ← rest]
      exact counted

end loops

section calls

variable {kvzalloc : Nat → Bool} (grants : Nat → Bool) {maxOrder fuel : Nat} {count : UInt32}

/-- With the array, up to `INT_MAX + 1` pages; the result is that of counting the pages. -/
theorem alloc_run (order : maxOrder < 31) (enough : count.toNat + maxOrder + 1 < fuel)
    (array : kvzalloc (count.toNat * 8) = true) (small : count.toNat ≤ 2 ^ 31) :
    ∃ o, vfastrpcAllocPages kvzalloc grants maxOrder fuel count = some o ∧
      Correct count.toNat maxOrder o ∧
      (StagingPages.allocPages grants count.toNat (2 ^ (maxOrder + 1) - 1) 0).isSome =
        o.result.isSome := by
  obtain ⟨o, run, correct⟩ := (initial_filling order count).run order small
    (show maxOrder + 1 < fuel by omega) (show count.toNat < fuel by omega)
  exact ⟨o, (if_pos array).trans run, correct⟩

theorem Correct.length {total : Nat} {o : Outcome} {slots : List (Option Page)}
    (h : Correct total maxOrder o) (result : o.result = some slots) : slots.length = total := by
  obtain ⟨_, ps, rfl, length, _⟩ := h.pages slots result
  rw [List.length_map, length]

/-- The number of pages found is what the buffers of a file are backed with. -/
theorem alloc_counted (order : maxOrder < 31) (enough : count.toNat + maxOrder + 1 < fuel)
    (array : kvzalloc (count.toNat * 8) = true) (small : count.toNat ≤ 2 ^ 31) {o : Outcome}
    (run : vfastrpcAllocPages kvzalloc grants maxOrder fuel count = some o) :
    StagingPages.allocPages grants count.toNat (2 ^ (maxOrder + 1) - 1) 0 =
      o.result.map List.length := by
  obtain ⟨o', run', correct, counted⟩ := alloc_run grants order enough array small
  obtain rfl := Option.some.inj (run'.symm.trans run)
  cases result : o'.result with
  | none =>
    rw [result] at counted
    exact Option.isNone_iff_eq_none.mp (by simpa using counted)
  | some slots =>
    rw [result] at counted
    obtain ⟨pages, found⟩ := Option.isSome_iff_exists.mp counted
    rw [found, StagingPages.allocPages_exact found, Option.map_some, correct.length result]

end calls

/-- For every count and every pattern of answers the call ends. An array of more than `INT_MAX`
bytes is refused by `kvzalloc`; with the array the call is correct, and without it takes
nothing. -/
theorem alloc_pages_correct (kvzalloc grants : Nat → Bool)
    (oversize : ∀ size, intMax < size → kvzalloc size = false) {maxOrder : Nat}
    (order : maxOrder < 31) (count : UInt32) {fuel : Nat}
    (enough : count.toNat + maxOrder + 1 < fuel) :
    ∃ o, vfastrpcAllocPages kvzalloc grants maxOrder fuel count = some o ∧
      if kvzalloc (count.toNat * 8) then Correct count.toNat maxOrder o
      else o = ⟨none, [], []⟩ := by
  cases array : kvzalloc (count.toNat * 8) with
  | false =>
    refine ⟨⟨none, [], []⟩, ?_, rfl⟩
    rw [vfastrpcAllocPages, array]
    rfl
  | true =>
    have fits : count.toNat * 8 ≤ intMax := by
      by_contra large
      exact absurd array (Bool.eq_false_iff.mp (oversize _ (Nat.lt_of_not_le large)))
    have small : count.toNat ≤ 2 ^ 31 := by
      unfold intMax at fits
      omega
    obtain ⟨o, run, correct, _⟩ := alloc_run grants order enough array small
    exact ⟨o, run, correct⟩

/-- Memory for any array that is not refused. -/
def anyArray (size : Nat) : Bool := size ≤ intMax

/-- Only the first call fails, so that five pages are taken as two and two and one. -/
def firstFails (n : Nat) : Bool := n != 0

theorem fivePages_correct :
    (∀ size, intMax < size → anyArray size = false) ∧
      ∃ o, vfastrpcAllocPages anyArray firstFails 10 17 5 = some o ∧ Correct 5 10 o := by
  have oversize : ∀ size, intMax < size → anyArray size = false := fun size large =>
    decide_eq_false (Nat.not_le_of_lt large)
  exact ⟨oversize, alloc_pages_correct anyArray firstFails oversize (by decide) 5 (by decide)⟩

example : vfastrpcAllocPages anyArray (fun n => n == 0) 1 6 3 =
    some ⟨none, [⟨1, true, 3, true⟩, ⟨0, false, 1, false⟩], [⟨0, 1⟩, ⟨0, 0⟩]⟩ := by
  decide

end PageAllocation
