import Mathlib.Data.List.Basic
import PlatformKernel.GuardedRuns

/-!
# Signals that are latched

One party changes a value and announces that it did; the other party latches the
announcement, and later looks: it takes the latch back and only then reads the value. Several
announcements may become one reading. What is read is nevertheless in the order of the
changes, and the last announced change is not missed.
-/

namespace LatchedSignals

open GuardedRuns

variable {V : Type}

/-- `changes` and `seen` have the newest value first. The newest change is `owed` until it is
announced, `latched` until somebody starts to look, and then `looking` until it is read.
There may be several places to latch an announcement, so `look` can leave one. -/
structure Channel (V : Type) where
  first : V
  changes : List V
  owed : Bool
  latched : Bool
  looking : Bool
  seen : List V

def Channel.value (c : Channel V) : V := c.changes.headD c.first

def Channel.quiet (v : V) : Channel V where
  first := v
  changes := []
  owed := false
  latched := false
  looking := false
  seen := []

inductive Event (V : Type) where
  | change (v : V)
  | announce
  | look (more : Bool)
  | read

def step (c : Channel V) : Event V → Option (Channel V)
  | .change v => some { c with changes := v :: c.changes, owed := true }
  | .announce => some { c with owed := false, latched := true }
  | .look more => if c.latched then some { c with latched := more, looking := true } else none
  | .read =>
    if c.looking then some { c with looking := false, seen := c.value :: c.seen } else none

/-- The first list repeats values of the second one in its order, some of them several times
and some not at all. -/
inductive Echoes : List V → List V → Prop where
  | nothing {written : List V} : Echoes [] written
  | again {v : V} {seen written : List V} (h : Echoes seen (v :: written)) :
      Echoes (v :: seen) (v :: written)
  | later {v : V} {seen written : List V} (h : Echoes seen written) : Echoes seen (v :: written)

theorem Echoes.tail {v : V} {seen written : List V} (h : Echoes (v :: seen) written) :
    Echoes seen written := by
  generalize whole : v :: seen = all at h
  induction h with
  | nothing => cases whole
  | again h _ =>
    obtain ⟨-, rfl⟩ := List.cons.inj whole
    exact h
  | later _ ih => exact (ih whole).later

theorem echoes_value {c : Channel V} (h : Echoes c.seen (c.changes ++ [c.first])) :
    Echoes (c.value :: c.seen) (c.changes ++ [c.first]) := by
  obtain ⟨first, changes, owed, latched, looking, seen⟩ := c
  cases changes with
  | nil => exact h.again
  | cons v rest => exact h.again

/-- The newest change is on its way or has been read. -/
structure Kept (c : Channel V) : Prop where
  order : Echoes c.seen (c.changes ++ [c.first])
  last : c.owed = false → c.latched = false → c.looking = false → c.changes ≠ [] →
    c.seen.head? = some c.value

theorem quiet_kept (v : V) : Kept (Channel.quiet v) where
  order := .nothing
  last := fun _ _ _ changed => absurd rfl changed

theorem step_kept {c c' : Channel V} {e : Event V} (h : Kept c) (hstep : step c e = some c') :
    Kept c' := by
  cases e with
  | change v =>
    obtain rfl := Option.some.inj hstep
    refine ⟨h.order.later, fun owed => ?_⟩
    cases owed
  | announce =>
    obtain rfl := Option.some.inj hstep
    refine ⟨h.order, fun _ latched => ?_⟩
    cases latched
  | look more =>
    simp only [step, Option.ite_none_right_eq_some] at hstep
    obtain rfl := Option.some.inj hstep.2
    refine ⟨h.order, fun _ _ looking => ?_⟩
    cases looking
  | read =>
    simp only [step, Option.ite_none_right_eq_some] at hstep
    obtain rfl := Option.some.inj hstep.2
    exact ⟨echoes_value h.order, fun _ _ _ _ => rfl⟩

/-- A step of a system does nothing to the channel or makes a step of it. -/
def Simulates {S A : Type} (view : S → Channel V) (next : S → A → Option S) (ok : S → Prop) :
    Prop :=
  ∀ s a t, ok s → next s a = some t → view t = view s ∨ ∃ e, step (view s) e = some (view t)

/-- A run of the system is a run of the channel. -/
theorem run_simulates {S A : Type} (view : S → Channel V) (next : S → A → Option S)
    {ok : S → Prop} (kept : ∀ s a t, ok s → next s a = some t → ok t)
    (simulates : Simulates view next ok) {s t : S} {as : List A} (start : ok s)
    (run : exec next s as = some t) : ∃ es, exec step (view s) es = some (view t) := by
  induction as generalizing s with
  | nil =>
    obtain rfl : s = t := Option.some.inj run
    exact ⟨[], rfl⟩
  | cons a as ih =>
    obtain ⟨u, hstep, rest⟩ := exec_cons_eq_some run
    obtain ⟨es, hes⟩ := ih (kept s a u start hstep) rest
    rcases simulates s a u start hstep with same | ⟨e, he⟩
    · exact ⟨es, same ▸ hes⟩
    · exact ⟨e :: es, Option.bind_eq_some_iff.mpr ⟨_, he, hes⟩⟩

theorem run_kept {c c' : Channel V} {es : List (Event V)} (h : Kept c)
    (run : exec step c es = some c') : Kept c' :=
  exec_invariant (fun _ _ _ h hstep => step_kept h hstep) h run

end LatchedSignals
