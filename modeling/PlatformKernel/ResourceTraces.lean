import Mathlib.Algebra.Order.Group.Multiset

/-!
# Traces of acquired and released resources

A function that acquires resources one after another and gives them back on its error
paths leaves a trace of events. Replaying the trace tells what is held after it, and
fails at the first release of something that is not held. An error path is in order if
replaying the whole trace leaves nothing.
-/

namespace ResourceTraces

universe u

inductive Event (R : Type u) where
  | acquire (r : R)
  | release (r : R)
  deriving DecidableEq

variable {R : Type u}

def acquires (rs : List R) : List (Event R) := rs.map .acquire

def releases (rs : List R) : List (Event R) := rs.map .release

/-- A resource that is there or not. -/
def present (there : Bool) (r : R) : List R := if there then [r] else []

variable [DecidableEq R]

/-- What is held after a trace. -/
def replay : Multiset R → List (Event R) → Option (Multiset R)
  | held, [] => some held
  | held, .acquire r :: rest => replay (r ::ₘ held) rest
  | held, .release r :: rest => if r ∈ held then replay (held.erase r) rest else none

theorem replay_append {held held' : Multiset R} {first : List (Event R)}
    (h : replay held first = some held') (second : List (Event R)) :
    replay held (first ++ second) = replay held' second := by
  induction first generalizing held with
  | nil =>
    obtain rfl := Option.some.inj h
    rfl
  | cons e rest ih =>
    cases e with
    | acquire r => exact ih h
    | release r =>
      simp only [replay] at h
      split_ifs at h with holds
      simp only [List.cons_append, replay, if_pos holds]
      exact ih h

/-- What a list of resources adds. -/
theorem replay_acquires (held : Multiset R) (rs : List R) :
    replay held (acquires rs) = some (held + rs) := by
  induction rs generalizing held with
  | nil => exact congrArg some (add_zero held).symm
  | cons r rest ih =>
    refine (ih (r ::ₘ held)).trans (congrArg some ?_)
    rw [← Multiset.cons_coe, Multiset.cons_add, Multiset.add_cons]

/-- Giving back what is held leaves the rest. -/
theorem replay_releases (held : Multiset R) (rs : List R) :
    replay (held + (rs : Multiset R)) (releases rs) = some held := by
  induction rs with
  | nil => exact congrArg some (add_zero held)
  | cons r rest ih =>
    have holds : r ∈ held + ((r :: rest : List R) : Multiset R) :=
      Multiset.mem_add.mpr (Or.inr List.mem_cons_self)
    refine (if_pos holds).trans ?_
    rw [← Multiset.cons_coe, Multiset.add_cons, Multiset.erase_cons_head]
    exact ih

@[simp] theorem replay_nil (held : Multiset R) : replay held [] = some held := rfl

@[simp] theorem replay_acquire (held : Multiset R) (r : R) (es : List (Event R)) :
    replay held (.acquire r :: es) = replay (held + {r}) es := by
  rw [add_comm, Multiset.singleton_add]
  rfl

@[simp] theorem replay_release (held : Multiset R) (r : R) (es : List (Event R)) :
    replay (held + {r}) (.release r :: es) = replay held es :=
  replay_append (replay_releases held [r]) es

@[simp] theorem replay_acquires_append (held : Multiset R) (rs : List R) (es : List (Event R)) :
    replay held (acquires rs ++ es) = replay (held + (rs : Multiset R)) es :=
  replay_append (replay_acquires held rs) es

@[simp] theorem replay_releases_append (held : Multiset R) (rs : List R) (es : List (Event R)) :
    replay (held + (rs : Multiset R)) (releases rs ++ es) = replay held es :=
  replay_append (replay_releases held rs) es

/-- The trace accounts for every resource: what was held or acquired is held or released. -/
theorem replay_count {held held' : Multiset R} {es : List (Event R)}
    (h : replay held es = some held') (r : R) :
    held.count r + es.count (.acquire r) = held'.count r + es.count (.release r) := by
  induction es generalizing held with
  | nil =>
    obtain rfl := Option.some.inj h
    rfl
  | cons e rest ih =>
    cases e with
    | acquire x =>
      have counts := ih h
      by_cases same : r = x
      · subst same
        simp only [Multiset.count_cons_self, List.count_cons_self] at counts ⊢
        rw [List.count_cons_of_ne (by simp)]
        omega
      · rw [Multiset.count_cons_of_ne same] at counts
        rw [List.count_cons_of_ne (by simpa using Ne.symm same), List.count_cons_of_ne (by simp)]
        exact counts
    | release x =>
      simp only [replay] at h
      split_ifs at h with holds
      have counts := ih h
      rw [List.count_cons_of_ne (by simp)]
      by_cases same : r = x
      · subst same
        have positive := Multiset.count_pos.mpr holds
        simp only [Multiset.count_erase_self, List.count_cons_self] at counts ⊢
        omega
      · rw [Multiset.count_erase_of_ne same] at counts
        rw [List.count_cons_of_ne (by simpa using Ne.symm same)]
        exact counts

end ResourceTraces
