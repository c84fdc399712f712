import Mathlib.Data.Option.Basic
import Mathlib.Data.List.Basic

/-!
# Finite runs of partial steps under a side condition

A system is given by a partial step function. All nondeterminism of its
environment is in the action, so a run is a list of actions and is executable.
`Along ok` restricts a run to steps whose actions meet `ok` in the state they
are taken from; every prefix of such a run is again one, so a statement about
the last state of all such runs is a statement about every state they reach.
-/

namespace GuardedRuns

universe u v

variable {S : Type u} {A : Type v}

/-- Take the actions in order; an action that is not enabled ends in `none`. -/
def exec (step : S → A → Option S) : S → List A → Option S
  | s, [] => some s
  | s, a :: rest => (step s a).bind fun t => exec step t rest

/-- Every action of the run meets `ok` in the state from which it is taken. -/
def Along (step : S → A → Option S) (ok : S → A → Prop) : S → List A → Prop
  | _, [] => True
  | s, a :: rest => ok s a ∧ ∀ t, step s a = some t → Along step ok t rest

theorem exec_cons_eq_some {step : S → A → Option S} {s u : S} {a : A} {rest : List A}
    (h : exec step s (a :: rest) = some u) :
    ∃ t, step s a = some t ∧ exec step t rest = some u :=
  Option.bind_eq_some_iff.mp h

theorem exec_singleton {step : S → A → Option S} {s t : S} {a : A} (h : step s a = some t) :
    exec step s [a] = some t :=
  Option.bind_eq_some_iff.mpr ⟨t, h, rfl⟩

theorem exec_append {step : S → A → Option S} {s t u : S} {as bs : List A}
    (first : exec step s as = some t) (second : exec step t bs = some u) :
    exec step s (as ++ bs) = some u := by
  induction as generalizing s with
  | nil =>
    obtain rfl := Option.some.inj first
    exact second
  | cons a rest ih =>
    obtain ⟨mid, hstep, hrest⟩ := exec_cons_eq_some first
    exact Option.bind_eq_some_iff.mpr ⟨mid, hstep, ih hrest⟩

theorem exec_append_eq_some {step : S → A → Option S} {s u : S} {as bs : List A}
    (h : exec step s (as ++ bs) = some u) :
    ∃ t, exec step s as = some t ∧ exec step t bs = some u := by
  induction as generalizing s with
  | nil => exact ⟨s, rfl, h⟩
  | cons a rest ih =>
    obtain ⟨mid, hstep, hrest⟩ := exec_cons_eq_some h
    obtain ⟨t, first, second⟩ := ih hrest
    exact ⟨t, Option.bind_eq_some_iff.mpr ⟨mid, hstep, first⟩, second⟩

/-- What every admissible step preserves holds at the end of every admissible run. -/
theorem exec_invariant_along {step : S → A → Option S} (ok : S → A → Prop) {Inv : S → Prop}
    (preserved : ∀ s a t, Inv s → ok s a → step s a = some t → Inv t)
    {s t : S} {as : List A} (start : Inv s) (along : Along step ok s as)
    (run : exec step s as = some t) : Inv t := by
  induction as generalizing s with
  | nil =>
    have same : s = t := Option.some.inj run
    exact same ▸ start
  | cons a rest ih =>
    obtain ⟨mid, hstep, hrest⟩ := exec_cons_eq_some run
    exact ih (preserved s a mid start along.1 hstep) (along.2 mid hstep) hrest

theorem along_cons {step : S → A → Option S} {ok : S → A → Prop} {s t : S} {a : A}
    {rest : List A} (hok : ok s a) (hstep : step s a = some t) (along : Along step ok t rest) :
    Along step ok s (a :: rest) := by
  refine ⟨hok, fun u hu => ?_⟩
  obtain rfl := Option.some.inj (hstep.symm.trans hu)
  exact along

theorem along_of_forall {step : S → A → Option S} {ok : S → A → Prop} {as : List A}
    (every : ∀ a ∈ as, ∀ s, ok s a) (s : S) : Along step ok s as := by
  induction as generalizing s with
  | nil => exact trivial
  | cons a rest ih =>
    exact ⟨every a List.mem_cons_self s, fun t _ =>
      ih (fun b hb => every b (List.mem_cons_of_mem _ hb)) t⟩

theorem along_of_invariant {step : S → A → Option S} {ok : S → A → Prop} {Inv : S → Prop}
    (holds : ∀ s a, Inv s → ok s a)
    (preserved : ∀ s a t, Inv s → step s a = some t → Inv t) {s : S} (start : Inv s)
    (as : List A) : Along step ok s as := by
  induction as generalizing s with
  | nil => exact trivial
  | cons a rest ih => exact ⟨holds s a start, fun t hstep => ih (preserved s a t start hstep)⟩

theorem along_append {step : S → A → Option S} {ok : S → A → Prop} {s t : S}
    {first second : List A} (along : Along step ok s first)
    (run : exec step s first = some t) (rest : Along step ok t second) :
    Along step ok s (first ++ second) := by
  induction first generalizing s with
  | nil =>
    obtain rfl := Option.some.inj run
    exact rest
  | cons a first ih =>
    obtain ⟨mid, hstep, hrun⟩ := exec_cons_eq_some run
    exact along_cons along.1 hstep (ih (along.2 mid hstep) hrun)

theorem along_and {step : S → A → Option S} {ok ok' : S → A → Prop} {s : S} {as : List A}
    (first : Along step ok s as) (second : Along step ok' s as) :
    Along step (fun s a => ok s a ∧ ok' s a) s as := by
  induction as generalizing s with
  | nil => exact trivial
  | cons a rest ih =>
    exact ⟨⟨first.1, second.1⟩, fun t hstep => ih (first.2 t hstep) (second.2 t hstep)⟩

/-- Two conditions that agree where an invariant holds admit the same runs. -/
theorem along_iff {step : S → A → Option S} {ok ok' : S → A → Prop} (Inv : S → Prop)
    (same : ∀ s a t, Inv s → step s a = some t → (ok s a ↔ ok' s a))
    (preserved : ∀ s a t, Inv s → ok s a → step s a = some t → Inv t)
    {s t : S} {as : List A} (start : Inv s) (run : exec step s as = some t) :
    Along step ok s as ↔ Along step ok' s as := by
  induction as generalizing s with
  | nil => exact Iff.rfl
  | cons a rest ih =>
    obtain ⟨mid, hstep, hrest⟩ := exec_cons_eq_some run
    have now := same s a mid start hstep
    constructor
    · rintro ⟨hok, later⟩
      exact along_cons (now.mp hok) hstep
        ((ih (preserved s a mid start hok hstep) hrest).mp (later mid hstep))
    · rintro ⟨hok, later⟩
      exact along_cons (now.mpr hok) hstep
        ((ih (preserved s a mid start (now.mpr hok) hstep) hrest).mpr (later mid hstep))

/-- On a given run the condition can be checked step by step. -/
instance decidableAlong {step : S → A → Option S} {ok : S → A → Prop}
    [∀ s a, Decidable (ok s a)] : ∀ (s : S) (as : List A), Decidable (Along step ok s as)
  | _, [] => isTrue trivial
  | s, a :: rest =>
    match h : step s a with
    | none => decidable_of_iff (ok s a)
        ⟨fun hok => ⟨hok, fun t ht => by rw [h] at ht; cases ht⟩, fun along => along.1⟩
    | some t =>
      have : Decidable (Along step ok t rest) := decidableAlong t rest
      decidable_of_iff (ok s a ∧ Along step ok t rest)
        ⟨fun both => along_cons both.1 h both.2, fun along => ⟨along.1, along.2 t h⟩⟩

/-- The unconditional form: what every step preserves holds after every run. -/
theorem exec_invariant {step : S → A → Option S} {Inv : S → Prop}
    (preserved : ∀ s a t, Inv s → step s a = some t → Inv t)
    {s t : S} {as : List A} (start : Inv s) (run : exec step s as = some t) : Inv t :=
  exec_invariant_along (fun _ _ => True)
    (fun s a t hi _ hs => preserved s a t hi hs) start
    (along_of_forall (fun _ _ _ => trivial) s) run

end GuardedRuns
