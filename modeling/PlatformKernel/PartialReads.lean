import Mathlib.Data.Option.Basic
import Mathlib.Tactic.Push

/-!
# Reading a partial memory

A memory in which some places cannot be read is a partial function on addresses. A read of
several places succeeds when each of them can be read. The main result says when the
outcome of a read is fixed by the contents of a given region: when the read stays in the
region, or fails in it.
-/

namespace PartialReads

universe u v

variable {A : Type u} {B : Type v} {mem mem' : A → Option B} {as : List A}

/-- The contents of the listed places, if all of them can be read. -/
def readAll (mem : A → Option B) : List A → Option (List B)
  | [] => some []
  | a :: as => (mem a).bind fun b => (readAll mem as).map (b :: ·)

theorem readAll_congr (same : ∀ a ∈ as, mem' a = mem a) : readAll mem' as = readAll mem as := by
  induction as with
  | nil => rfl
  | cons a as ih =>
    rw [readAll, readAll, same a List.mem_cons_self,
      ih fun b hb => same b (List.mem_cons_of_mem a hb)]

theorem readAll_eq_none : readAll mem as = none ↔ ∃ a ∈ as, mem a = none := by
  induction as with
  | nil => simp [readAll]
  | cons a as ih =>
    cases ha : mem a with
    | none => simp [readAll, ha]
    | some b => simp [readAll, ha, ih]

/-- Two memories with the same contents, faults included, in a region. -/
def Agree (region : A → Prop) (mem mem' : A → Option B) : Prop :=
  ∀ a, region a → mem' a = mem a

/-- The memory with `fill` everywhere outside a region. -/
noncomputable def outside (region : A → Prop) (mem : A → Option B) (fill : Option B) :
    A → Option B :=
  open Classical in fun a => if region a then mem a else fill

theorem outside_agree (region : A → Prop) (mem : A → Option B) (fill : Option B) :
    Agree region mem (outside region mem fill) :=
  fun _ ha => if_pos ha

theorem outside_eq {region : A → Prop} {a : A} (ha : ¬ region a) (fill : Option B) :
    outside region mem fill a = fill :=
  if_neg ha

/-- The outcome of a read is the same in all memories that agree on a region. -/
def Fixed (region : A → Prop) (mem : A → Option B) (as : List A) : Prop :=
  ∀ mem', Agree region mem mem' → readAll mem' as = readAll mem as

theorem fixed_of_within {region : A → Prop} (within : ∀ a ∈ as, region a) :
    Fixed region mem as :=
  fun _ agree => readAll_congr fun a ha => agree a (within a ha)

theorem fixed_iff [Inhabited B] {region : A → Prop} :
    Fixed region mem as ↔ (∀ a ∈ as, region a) ∨ ∃ a ∈ as, region a ∧ mem a = none := by
  constructor
  · intro fixed
    by_contra hnot
    push Not at hnot
    obtain ⟨⟨a, ha, hout⟩, readable⟩ := hnot
    -- a fault outside the region makes the read fail, a value there lets it succeed
    have hfault : readAll (outside region mem none) as = none :=
      readAll_eq_none.mpr ⟨a, ha, outside_eq hout none⟩
    have hvalue : readAll (outside region mem (some default)) as ≠ none := by
      intro hnone
      obtain ⟨b, hb, hbnone⟩ := readAll_eq_none.mp hnone
      by_cases hin : region b
      · rw [outside_agree region mem _ b hin] at hbnone
        exact readable b hb hin hbnone
      · rw [outside_eq hin] at hbnone
        cases hbnone
    rw [fixed _ (outside_agree region mem _)] at hfault hvalue
    exact hvalue hfault
  · rintro (within | ⟨a, ha, hin, hnone⟩)
    · exact fixed_of_within within
    · intro mem' agree
      rw [readAll_eq_none.mpr ⟨a, ha, hnone⟩,
        readAll_eq_none.mpr ⟨a, ha, (agree a hin).trans hnone⟩]

end PartialReads
