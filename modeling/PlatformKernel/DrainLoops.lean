import Mathlib.Data.Nat.Basic

/-!
# Loops that drain a list

A loop of the form `do … while (found)` runs a partial function until it finds
nothing more. The loop gets a number of rounds it may take, so that a loop that
does not end is one that returns for no number.
-/

namespace DrainLoops

universe u

variable {S : Type u} {next : S → Option S}

/-- Run `next` until there is nothing left; `none` when the rounds are used up. -/
def drain (next : S → Option S) : Nat → S → Option S
  | 0, _ => none
  | fuel + 1, s =>
    match next s with
    | none => some s
    | some t => drain next fuel t

theorem drain_done {s : S} (done : next s = none) (fuel : Nat) :
    drain next (fuel + 1) s = some s := by
  simp only [drain, done]

/-- Each round keeps `Inv` and makes the state smaller: the loop ends, and it ends in the
same state for every sufficient number of rounds. -/
theorem drain_ends (Inv : S → Prop) (size : S → Nat)
    (round : ∀ s t, Inv s → next s = some t → Inv t ∧ size t < size s) {s : S} (start : Inv s) :
    ∃ t, (∀ fuel, size s < fuel → drain next fuel s = some t) ∧ Inv t ∧ next t = none := by
  induction hn : size s using Nat.strong_induction_on generalizing s with
  | _ n ih =>
    subst hn
    cases hnext : next s with
    | none =>
      refine ⟨s, fun fuel hfuel => ?_, start, hnext⟩
      obtain ⟨m, rfl⟩ := Nat.exists_eq_succ_of_ne_zero (Nat.ne_of_gt (Nat.zero_lt_of_lt hfuel))
      exact drain_done hnext m
    | some u =>
      obtain ⟨inv, smaller⟩ := round s u start hnext
      obtain ⟨t, ends, done⟩ := ih (size u) smaller inv rfl
      refine ⟨t, fun fuel hfuel => ?_, done⟩
      obtain ⟨m, rfl⟩ := Nat.exists_eq_succ_of_ne_zero (Nat.ne_of_gt (Nat.zero_lt_of_lt hfuel))
      simp only [drain, hnext]
      exact ends m (by omega)

/-- A loop that can always go on never returns. -/
theorem drain_stuck (Inv : S → Prop) (round : ∀ s, Inv s → ∃ t, next s = some t ∧ Inv t)
    (fuel : Nat) {s : S} (start : Inv s) : drain next fuel s = none := by
  induction fuel generalizing s with
  | zero => rfl
  | succ fuel ih =>
    obtain ⟨t, hnext, inv⟩ := round s start
    simp only [drain, hnext]
    exact ih inv

end DrainLoops
