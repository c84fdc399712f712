import Mathlib.Algebra.Order.BigOperators.Group.Finset

/-!
# Counted loops that may bail out

A C function built from `for` loops and `goto bail` is a composition of state
transformers, each of which either goes on or leaves with an error code. The
state at the point of the error is kept. A loop is specified by one invariant
indexed by its counter and one predicate for the states it may bail out in.
-/

namespace CountedLoops

universe u v w

variable {E : Type u} {S : Type v}

/-- `next` falls through to the following statement, `bail` is `goto bail`. -/
inductive Flow (E : Type u) (S : Type v) where
  | next (s : S)
  | bail (err : E) (s : S)

def Flow.state : Flow E S → S
  | .next s => s
  | .bail _ s => s

def Flow.andThen (r : Flow E S) (rest : S → Flow E S) : Flow E S :=
  match r with
  | .next s => rest s
  | .bail err s => .bail err s

/-- `for (i = lo; i < lo + n; i++)`. -/
def loop (body : Nat → S → Flow E S) : Nat → Nat → S → Flow E S
  | _, 0, s => .next s
  | i, n + 1, s => (body i s).andThen (loop body (i + 1) n)

/-- The same flow seen through a function of the state. -/
def Flow.map {T : Type w} (f : S → T) : Flow E S → Flow E T
  | .next s => .next (f s)
  | .bail err s => .bail err (f s)

/-- `good` holds when the code falls through and `bad` when it bails out. -/
def Flow.Holds (good : S → Prop) (bad : E → S → Prop) : Flow E S → Prop
  | .next s => good s
  | .bail err s => bad err s

@[simp] theorem holds_next {good : S → Prop} {bad : E → S → Prop} {s : S} :
    (Flow.next s : Flow E S).Holds good bad ↔ good s := Iff.rfl

@[simp] theorem holds_bail {good : S → Prop} {bad : E → S → Prop} {err : E} {s : S} :
    (Flow.bail err s).Holds good bad ↔ bad err s := Iff.rfl

theorem holds_mono {good good' : S → Prop} {bad bad' : E → S → Prop} {r : Flow E S}
    (h : r.Holds good bad) (hgood : ∀ s, good s → good' s)
    (hbad : ∀ err s, bad err s → bad' err s) : r.Holds good' bad' := by
  cases r with
  | next s => exact hgood s h
  | bail err s => exact hbad err s h

theorem holds_and {good good' : S → Prop} {bad bad' : E → S → Prop} {r : Flow E S}
    (h : r.Holds good bad) (h' : r.Holds good' bad') :
    r.Holds (fun s => good s ∧ good' s) (fun err s => bad err s ∧ bad' err s) := by
  cases r with
  | next s => exact ⟨h, h'⟩
  | bail err s => exact ⟨h, h'⟩

theorem holds_andThen (mid : S → Prop) {good : S → Prop} {bad : E → S → Prop} {r : Flow E S}
    {rest : S → Flow E S} (first : r.Holds mid bad)
    (second : ∀ s, mid s → (rest s).Holds good bad) : (r.andThen rest).Holds good bad := by
  cases r with
  | next s => exact second s first
  | bail err s => exact first

theorem map_andThen {T : Type w} {f : S → T} {r : Flow E S} {rest : S → Flow E S}
    {rest' : T → Flow E T} (same : ∀ s, (rest s).map f = rest' (f s)) :
    (r.andThen rest).map f = (r.map f).andThen rest' := by
  cases r with
  | next s => exact same s
  | bail err s => rfl

theorem holds_state {Q : S → Prop} {r : Flow E S} (h : r.Holds Q fun _ => Q) : Q r.state := by
  cases r with
  | next s => exact h
  | bail err s => exact h

/-- The loop rule. -/
theorem loop_holds {body : Nat → S → Flow E S} (inv : Nat → S → Prop) {bad : E → S → Prop}
    {lo n : Nat} {s : S} (start : inv lo s)
    (round : ∀ i t, lo ≤ i → i < lo + n → inv i t → (body i t).Holds (inv (i + 1)) bad) :
    (loop body lo n s).Holds (inv (lo + n)) bad := by
  induction n generalizing lo s with
  | zero => exact start
  | succ n ih =>
    refine holds_andThen _ (round lo s (Nat.le_refl lo) (by omega) start) fun t ht => ?_
    have rest := ih ht fun i u hlo hhi hu => round i u (by omega) (by omega) hu
    rwa [Nat.succ_add_eq_add_succ] at rest

/-- A loop simulates another one if its rounds do. -/
theorem loop_map {T : Type w} {f : S → T} {body : Nat → S → Flow E S}
    {body' : Nat → T → Flow E T} (same : ∀ i s, (body i s).map f = body' i (f s)) (lo n : Nat)
    (s : S) : (loop body lo n s).map f = loop body' lo n (f s) := by
  induction n generalizing lo s with
  | zero => rfl
  | succ n ih =>
    unfold loop
    rw [map_andThen fun t => ih (lo + 1) t, same]

/-- Runs that cannot be told apart by `f` so far stay so if the rest does not tell
them apart either. -/
theorem andThen_blind {T : Type w} {f : S → T} {r r' : Flow E S} {rest : S → Flow E S}
    (first : r.map f = r'.map f)
    (blind : ∀ s s', f s = f s' → (rest s).map f = (rest s').map f) :
    (r.andThen rest).map f = (r'.andThen rest).map f := by
  cases r with
  | next s =>
    cases r' with
    | next s' => exact blind s s' (Flow.next.inj first)
    | bail err s' => cases first
  | bail err s =>
    cases r' with
    | next s' => cases first
    | bail err' s' => exact first

theorem loop_blind {T : Type w} {f : S → T} {body : Nat → S → Flow E S}
    (blind : ∀ i s s', f s = f s' → (body i s).map f = (body i s').map f) (lo n : Nat) :
    ∀ s s', f s = f s' → (loop body lo n s).map f = (loop body lo n s').map f := by
  induction n generalizing lo with
  | zero => exact fun s s' same => congrArg Flow.next same
  | succ n ih => exact fun s s' same => andThen_blind (blind lo s s' same) (ih (lo + 1))

/-- Sum of the first `n` values from `lo` on. -/
def span (len : Nat → Nat) (lo n : Nat) : Nat := ∑ k ∈ Finset.range n, len (lo + k)

@[simp] theorem span_zero (len : Nat → Nat) (lo : Nat) : span len lo 0 = 0 := rfl

theorem span_succ (len : Nat → Nat) (lo n : Nat) :
    span len lo (n + 1) = span len lo n + len (lo + n) :=
  Finset.sum_range_succ _ _

theorem span_add (len : Nat → Nat) (lo m n : Nat) :
    span len lo (m + n) = span len lo m + span len (lo + m) n := by
  simp only [span, Finset.sum_range_add, Nat.add_assoc]

theorem span_congr {len len' : Nat → Nat} {lo n : Nat}
    (h : ∀ i, lo ≤ i → i < lo + n → len i = len' i) : span len lo n = span len' lo n := by
  refine Finset.sum_congr rfl fun k hk => ?_
  exact h _ (by omega) (by have := Finset.mem_range.mp hk; omega)

theorem span_le_of_le {len : Nat → Nat} {lo m n : Nat} (h : m ≤ n) :
    span len lo m ≤ span len lo n := by
  obtain ⟨d, rfl⟩ := Nat.exists_eq_add_of_le h
  rw [span_add]
  omega

theorem span_mono {len len' : Nat → Nat} {lo n : Nat}
    (h : ∀ i, lo ≤ i → i < lo + n → len i ≤ len' i) : span len lo n ≤ span len' lo n := by
  refine Finset.sum_le_sum fun k hk => ?_
  exact h _ (by omega) (by have := Finset.mem_range.mp hk; omega)

end CountedLoops
