import Mathlib.Data.List.Basic
import Mathlib.Data.List.Lattice
import Mathlib.Logic.Function.Basic
import PlatformKernel.GuardedRuns

/-!
# Programs that take locks

The locking skeleton of a program: which locks it takes and gives back, which shared data
it accesses, where it may sleep, where it waits for another party, and how control leaves a
block. Any number of tasks run such programs at once, and interrupt handlers run on top of
them. A static check of each program bounds what a task can hold at each point; when every
program passes it, no interleaving comes to a standstill except behind a task that waits,
and data is accessed by one holder of its lock at a time.
-/

namespace LockPrograms

open GuardedRuns

variable {K D F : Type} {n : Nat}

/-- `alloc` asks for memory and may sleep for it. Any number of activities `use` the same
thing at once, which is given back by `unlock`, and `drain` waits until nobody uses it.
`turn` goes on with another object, of which no lock is held yet. -/
inductive Op (K D : Type) where
  | lock (k : K) (irqsave : Bool)
  | unlock (k : K)
  | use (k : K)
  | drain (k : K)
  | sleep
  | alloc
  | wait
  | turn
  | touch (d : D)
  deriving DecidableEq

/-- `exit n` leaves `n + 1` enclosing blocks. -/
inductive Prog (K D : Type) where
  | skip
  | op (o : Op K D)
  | seq (p q : Prog K D)
  | alt (p q : Prog K D)
  | loop (p : Prog K D)
  | block (p : Prog K D)
  | exit (n : Nat)

/-- The programs one after the other. -/
def Prog.steps : List (Prog K D) → Prog K D
  | [] => .skip
  | [p] => p
  | p :: ps => .seq p (steps ps)

/-- One of the programs. -/
def Prog.oneOf : List (Prog K D) → Prog K D
  | [] => .skip
  | [p] => p
  | p :: ps => .alt p (oneOf ps)

def Prog.maybe (p : Prog K D) : Prog K D := .alt p .skip

def Prog.within (k : K) (irqsave : Bool) (p : Prog K D) : Prog K D :=
  .steps [.op (.lock k irqsave), p, .op (.unlock k)]

/-- The locks held, each with whether interrupts were turned off for it. -/
abbrev Held (K : Type) := List (K × Bool)

/-- Locks are taken in the order of their ranks; those of rank `0` may be held while
waiting for another party. What has `users` is used and drained, the rest is locked. Those
that are `lent` may be held where memory is asked for even if they are spin locks. -/
structure Rules (K D : Type) where
  rank : K → Nat
  spins : K → Bool
  interrupt : K → Bool
  shared : K → Bool
  users : K → Bool
  lent : K → Bool
  guard : D → Option K

/-- The locks of interrupt handlers come last. -/
structure Rules.Ordered (R : Rules K D) : Prop where
  bounded : ∃ top, ∀ k, R.rank k < top
  above : ∀ k l, R.interrupt k = false → R.interrupt l = true → R.rank k < R.rank l
  inner : ∀ k, R.interrupt k = true → 0 < R.rank k
  used : ∀ k, R.users k = true → 0 < R.rank k

section Check

variable [DecidableEq K] (R : Rules K D) (handler : Bool)

def Rules.admits (h : Held K) : Op K D → Bool
  | .lock k irqsave =>
    !R.users k && h.all (fun x => decide (R.rank x.1 < R.rank k)) &&
      (R.spins k || !handler && !h.any fun x => R.spins x.1) &&
      (if handler then R.interrupt k else !R.interrupt k || irqsave)
  | .unlock k => h.any fun x => decide (x.1 = k)
  | .use k =>
    R.users k && h.all (fun x => decide (R.rank x.1 < R.rank k)) && !handler && !R.interrupt k
  | .drain k =>
    R.users k && h.all (fun x => decide (R.rank x.1 < R.rank k)) &&
      (!handler && !h.any fun x => R.spins x.1)
  | .sleep => !handler && !h.any fun x => R.spins x.1
  | .alloc => !handler && h.all fun x => !R.spins x.1 || R.lent x.1
  | .wait => !handler && h.all fun x => !R.spins x.1 && decide (R.rank x.1 = 0)
  | .turn => h.isEmpty
  | .touch d => (R.guard d).all fun k => h.any fun x => decide (x.1 = k)

def effect (h : Held K) : Op K D → Held K
  | .lock k irqsave => (k, irqsave) :: h
  | .unlock k => h.filter fun x => decide (x.1 ≠ k)
  | .use k => (k, false) :: h
  | _ => h

/-- How control leaves a program. -/
inductive Out where
  | next
  | exit (n : Nat)
  deriving DecidableEq

def Out.leave : Out → Out
  | .next => .next
  | .exit 0 => .next
  | .exit (n + 1) => .exit n

/-- The results of all members of a list, if each has some. -/
def collect {A B : Type} [DecidableEq B] (f : A → Option (List B)) : List A → Option (List B)
  | [] => some []
  | a :: as =>
    match f a, collect f as with
    | some xs, some ys => some (xs ∪ ys)
    | _, _ => none

/-- What is held after the program, for each way it can end; `none` when some step is not
admitted. -/
def outcomes : Prog K D → Held K → Option (List (Out × Held K))
  | .skip, h => some [(.next, h)]
  | .op o, h => if R.admits handler h o then some [(.next, effect h o)] else none
  | .seq p q, h =>
    match outcomes p h with
    | some os => collect (fun r => match r with
        | (.next, h') => outcomes q h'
        | (.exit n, h') => some [(.exit n, h')]) os
    | none => none
  | .alt p q, h => collect (fun b => if b then outcomes p h else outcomes q h) [true, false]
  | .loop p, h =>
    match outcomes p h with
    | some os =>
      if os.all fun r => decide (r.1 = .next → r.2 = h) then
        some ((.next, h) :: os.filter fun r => decide (r.1 ≠ .next))
      else none
    | none => none
  | .block p, h => (outcomes p h).map fun os => os.map fun r => (r.1.leave, r.2)
  | .exit n, h => some [(.exit n, h)]

theorem collect_mem {A B : Type} [DecidableEq B] {f : A → Option (List B)} {as : List A}
    {ys : List B} (h : collect f as = some ys) :
    ∀ a ∈ as, ∃ xs, f a = some xs ∧ ∀ x ∈ xs, x ∈ ys := by
  induction as generalizing ys with
  | nil =>
    intro a ha
    cases ha
  | cons b bs ih =>
    simp only [collect] at h
    split at h
    case h_2 => cases h
    case h_1 xs zs hx hz =>
      obtain rfl := Option.some.inj h
      intro a ha
      rcases List.mem_cons.mp ha with rfl | ha
      · exact ⟨xs, hx, fun x hm => List.mem_union_iff.mpr (.inl hm)⟩
      · obtain ⟨ws, hw, sub⟩ := ih hz a ha
        exact ⟨ws, hw, fun x hm => List.mem_union_iff.mpr (.inr (sub x hm))⟩

/-- A program that starts and ends with nothing held. -/
def Checked (p : Prog K D) : Bool :=
  match outcomes R handler p [] with
  | some os => os.all fun r => r.2.isEmpty
  | none => false

end Check

/-- What is left to run: programs, and the ends of the blocks entered. -/
inductive Frame (K D : Type) where
  | run (p : Prog K D)
  | mark

def unwind : Nat → List (Frame K D) → List (Frame K D)
  | _, [] => []
  | n, .run _ :: k => unwind n k
  | 0, .mark :: k => k
  | n + 1, .mark :: k => unwind n k

def Out.into (k : List (Frame K D)) : Out → List (Frame K D)
  | .next => k
  | .exit n => unwind n k

structure Activity (K D F : Type) where
  code : List (Frame K D)
  held : Held K
  object : F

section Steps

variable [DecidableEq K]

/-- One step of an activity by itself. `first` picks a branch or another round of a loop,
`g` the object to turn to, and `free` says what nobody holds. -/
def advance (free : K → F → Bool) (first : Bool) (g : F) (a : Activity K D F) :
    Option (Activity K D F) :=
  match a.code with
  | [] => none
  | .mark :: k => some { a with code := k }
  | .run .skip :: k => some { a with code := k }
  | .run (.op (.lock l i)) :: k =>
    if free l a.object then some { a with code := k, held := effect a.held (.lock l i : Op K D) }
    else none
  | .run (.op (.unlock l)) :: k =>
    some { a with code := k, held := effect a.held (.unlock l : Op K D) }
  | .run (.op (.use l)) :: k =>
    some { a with code := k, held := effect a.held (.use l : Op K D) }
  | .run (.op (.drain l)) :: k => if free l a.object then some { a with code := k } else none
  | .run (.op .sleep) :: k => some { a with code := k }
  | .run (.op .alloc) :: k => some { a with code := k }
  | .run (.op .wait) :: _ => none
  | .run (.op .turn) :: k => some { a with code := k, object := g }
  | .run (.op (.touch _)) :: k => some { a with code := k }
  | .run (.seq p q) :: k => some { a with code := .run p :: .run q :: k }
  | .run (.alt p q) :: k => some { a with code := .run (if first then p else q) :: k }
  | .run (.loop p) :: k =>
    some { a with code := if first then .run p :: .run (.loop p) :: k else k }
  | .run (.block p) :: k => some { a with code := .run p :: .mark :: k }
  | .run (.exit n) :: k => some { a with code := unwind n k }

/-- A handler runs on top of the task it interrupted. -/
structure State (K D F : Type) (n : Nat) where
  tasks : Fin n → Activity K D F
  handlers : Fin n → Option (Activity K D F)

def Activity.at [DecidableEq D] (a : Activity K D F) (o : Op K D) : Bool :=
  match a.code with
  | .run (.op o') :: _ => decide (o' = o)
  | _ => false

variable [DecidableEq F]

/-- The lock of this kind and object. -/
def Activity.holds (R : Rules K D) (a : Activity K D F) (k : K) (f : F) : Bool :=
  a.held.any (fun x => decide (x.1 = k)) && (R.shared k || decide (a.object = f))

def State.free {n : Nat} (R : Rules K D) (s : State K D F n) (k : K) (f : F) : Bool :=
  decide (∀ t, (s.tasks t).holds R k f = false ∧
    (s.handlers t).all (fun a => !a.holds R k f) = true)

/-- An idle task enters a program, what a task waits for happens, and an interrupt comes
wherever interrupts are on; the other steps need nobody else. -/
inductive Action (F : Type) (n : Nat) where
  | task (t : Fin n) (first : Bool) (g : F)
  | handler (t : Fin n) (first : Bool) (g : F)
  | back (t : Fin n)
  | enter (t : Fin n) (i : Nat) (f : F)
  | wake (t : Fin n)
  | raise (t : Fin n) (i : Nat) (f : F)

def Action.own {n : Nat} : Action F n → Bool
  | .task .. => true
  | .handler .. => true
  | .back _ => true
  | _ => false

def State.setTask {n : Nat} (s : State K D F n) (t : Fin n) (a : Activity K D F) : State K D F n :=
  { s with tasks := Function.update s.tasks t a }

def State.setHandler {n : Nat} (s : State K D F n) (t : Fin n) (a : Option (Activity K D F)) :
    State K D F n :=
  { s with handlers := Function.update s.handlers t a }

def step [DecidableEq D] {n : Nat} (R : Rules K D) (entries interrupts : List (Prog K D))
    (s : State K D F n) : Action F n → Option (State K D F n)
  | .task t first g =>
    match s.handlers t with
    | none => (advance (s.free R) first g (s.tasks t)).map (s.setTask t)
    | some _ => none
  | .handler t first g =>
    match s.handlers t with
    | some a => (advance (s.free R) first g a).map fun b => s.setHandler t (some b)
    | none => none
  | .back t =>
    match s.handlers t with
    | some a => if a.code.isEmpty then some (s.setHandler t none) else none
    | none => none
  | .enter t i f =>
    match s.handlers t, entries[i]? with
    | none, some p =>
      if (s.tasks t).code.isEmpty then
        some (s.setTask t { s.tasks t with code := [.run p], object := f })
      else none
    | _, _ => none
  | .wake t =>
    match s.handlers t with
    | none =>
      if (s.tasks t).at .wait then
        some (s.setTask t { s.tasks t with code := (s.tasks t).code.tail })
      else none
    | some _ => none
  | .raise t i f =>
    match s.handlers t, interrupts[i]? with
    | none, some p =>
      if (s.tasks t).held.all fun x => !x.2 then some (s.setHandler t (some ⟨[.run p], [], f⟩))
      else none
    | _, _ => none

end Steps

def State.idle (n : Nat) (f : F) : State K D F n where
  tasks := fun _ => ⟨[], [], f⟩
  handlers := fun _ => none

section Sound

variable [DecidableEq K] {R : Rules K D} {handler : Bool}

/-- The check passes for all that is left to run, which ends with nothing held. -/
inductive Fits (R : Rules K D) (handler : Bool) : List (Frame K D) → Held K → Prop where
  | done : Fits R handler [] []
  | mark {k h} (rest : Fits R handler k h) : Fits R handler (.mark :: k) h
  | run {p k h os} (check : outcomes R handler p h = some os)
      (rest : ∀ r ∈ os, Fits R handler (r.1.into k) r.2) : Fits R handler (.run p :: k) h

theorem Fits.op {o : Op K D} {k : List (Frame K D)} {h : Held K}
    (fits : Fits R handler (.run (.op o) :: k) h) :
    R.admits handler h o = true ∧ Fits R handler k (effect h o) := by
  cases fits with
  | run check rest =>
    simp only [outcomes] at check
    split at check
    case isFalse => cases check
    case isTrue admits =>
      obtain rfl := Option.some.inj check
      exact ⟨admits, rest _ List.mem_cons_self⟩

theorem Fits.seq {p q : Prog K D} {k : List (Frame K D)} {h : Held K}
    (fits : Fits R handler (.run (.seq p q) :: k) h) :
    Fits R handler (.run p :: .run q :: k) h := by
  cases fits with
  | run check rest =>
    simp only [outcomes] at check
    split at check
    case h_2 => cases check
    case h_1 ps hp =>
      refine .run hp fun r hr => ?_
      obtain ⟨xs, hx, sub⟩ := collect_mem check r hr
      obtain ⟨out, h'⟩ := r
      cases out with
      | next => exact .run hx fun x hm => rest x (sub x hm)
      | exit n =>
        obtain rfl := Option.some.inj hx
        exact rest _ (sub _ List.mem_cons_self)

theorem Fits.alt {p q : Prog K D} {k : List (Frame K D)} {h : Held K}
    (fits : Fits R handler (.run (.alt p q) :: k) h) :
    Fits R handler (.run p :: k) h ∧ Fits R handler (.run q :: k) h := by
  cases fits with
  | run check rest =>
    simp only [outcomes] at check
    constructor
    · obtain ⟨xs, hx, sub⟩ := collect_mem check true (by simp)
      exact .run hx fun x hm => rest x (sub x hm)
    · obtain ⟨xs, hx, sub⟩ := collect_mem check false (by simp)
      exact .run hx fun x hm => rest x (sub x hm)

theorem Fits.loop {p : Prog K D} {k : List (Frame K D)} {h : Held K}
    (fits : Fits R handler (.run (.loop p) :: k) h) :
    Fits R handler (.run p :: .run (.loop p) :: k) h ∧ Fits R handler k h := by
  cases fits with
  | run check rest =>
    have whole := check
    simp only [outcomes] at check
    split at check
    case h_2 => cases check
    case h_1 ps hp =>
      split at check
      case isFalse => cases check
      case isTrue same =>
        obtain rfl := Option.some.inj check
        refine ⟨.run hp fun r hr => ?_, rest _ List.mem_cons_self⟩
        obtain ⟨out, h'⟩ := r
        cases out with
        | next =>
          have back : h' = h := by
            simpa using List.all_eq_true.mp same _ hr
          exact back ▸ .run whole rest
        | exit n =>
          exact rest (.exit n, h') (List.mem_cons_of_mem _ (List.mem_filter.mpr ⟨hr, by simp⟩))

theorem Fits.block {p : Prog K D} {k : List (Frame K D)} {h : Held K}
    (fits : Fits R handler (.run (.block p) :: k) h) :
    Fits R handler (.run p :: .mark :: k) h := by
  cases fits with
  | run check rest =>
    simp only [outcomes, Option.map_eq_some_iff] at check
    obtain ⟨ps, hp, rfl⟩ := check
    refine .run hp fun r hr => ?_
    have left := rest _ (List.mem_map_of_mem hr)
    obtain ⟨out, h'⟩ := r
    rcases out with _ | _ | n
    · exact .mark left
    · exact left
    · exact left

theorem Fits.exit {n : Nat} {k : List (Frame K D)} {h : Held K}
    (fits : Fits R handler (.run (.exit n) :: k) h) : Fits R handler (unwind n k) h := by
  cases fits with
  | run check rest =>
    obtain rfl := Option.some.inj check
    exact rest _ List.mem_cons_self

theorem fits_of_checked {p : Prog K D} (h : Checked R handler p = true) :
    Fits R handler [.run p] [] := by
  unfold Checked at h
  split at h
  case h_2 => cases h
  case h_1 os hos =>
    refine .run hos fun r hr => ?_
    have empty : r.2 = [] := by
      simpa using List.all_eq_true.mp h r hr
    obtain ⟨out, h'⟩ := r
    obtain rfl : h' = [] := empty
    cases out <;> exact .done

theorem advance_fits {free : K → F → Bool} {first : Bool} {g : F}
    {a b : Activity K D F} (fits : Fits R handler a.code a.held)
    (hstep : advance free first g a = some b) : Fits R handler b.code b.held := by
  obtain ⟨code, h, f⟩ := a
  rcases code with _ | ⟨_ | _, k⟩
  · cases hstep
  case run p =>
    cases p with
    | op o =>
      cases o with
      | lock l i =>
        simp only [advance, Option.ite_none_right_eq_some] at hstep
        obtain ⟨-, hstep⟩ := hstep
        obtain rfl := Option.some.inj hstep
        exact fits.op.2
      | drain l =>
        simp only [advance, Option.ite_none_right_eq_some] at hstep
        obtain ⟨-, hstep⟩ := hstep
        obtain rfl := Option.some.inj hstep
        exact fits.op.2
      | wait => cases hstep
      | _ =>
        obtain rfl := Option.some.inj hstep
        exact fits.op.2
    | skip =>
      obtain rfl := Option.some.inj hstep
      cases fits with
      | run check rest =>
        obtain rfl := Option.some.inj check
        exact rest _ List.mem_cons_self
    | seq p q =>
      obtain rfl := Option.some.inj hstep
      exact fits.seq
    | alt p q =>
      obtain rfl := Option.some.inj hstep
      cases first
      · exact fits.alt.2
      · exact fits.alt.1
    | loop p =>
      obtain rfl := Option.some.inj hstep
      cases first
      · exact fits.loop.2
      · exact fits.loop.1
    | block p =>
      obtain rfl := Option.some.inj hstep
      exact fits.block
    | exit n =>
      obtain rfl := Option.some.inj hstep
      exact fits.exit
  case mark =>
    obtain rfl := Option.some.inj hstep
    cases fits with
    | mark rest => exact rest

/-- A task has interrupts off for each lock that a handler takes; a handler takes no others. -/
def Guarded (R : Rules K D) (handler : Bool) (h : Held K) : Prop :=
  ∀ x ∈ h, if handler then R.interrupt x.1 = true else R.interrupt x.1 = true → x.2 = true

omit [DecidableEq K] in
theorem guarded_nil : Guarded R handler [] := by
  intro x hx
  cases hx

/-- A step of an activity takes a lock that is free, joins the users of something, turns to
another object, or holds no more than before. -/
theorem advance_held {free : K → F → Bool} {first : Bool} {g : F}
    {a b : Activity K D F} (hstep : advance free first g a = some b) :
    (∃ l i k, a.code = .run (.op (.lock l i)) :: k ∧ free l a.object = true ∧
        b.held = (l, i) :: a.held ∧ b.object = a.object) ∨
      (∃ l k, a.code = .run (.op (.use l)) :: k ∧
        b.held = (l, false) :: a.held ∧ b.object = a.object) ∨
      (∃ k, a.code = .run (.op .turn) :: k ∧ b.held = a.held) ∨
      b.held ⊆ a.held ∧ b.object = a.object := by
  obtain ⟨code, h, f⟩ := a
  rcases code with _ | ⟨_ | _, k⟩
  · cases hstep
  case run p =>
    cases p with
    | op o =>
      cases o with
      | lock l i =>
        simp only [advance, Option.ite_none_right_eq_some] at hstep
        obtain ⟨free, hstep⟩ := hstep
        obtain rfl := Option.some.inj hstep
        exact .inl ⟨l, i, k, rfl, free, rfl, rfl⟩
      | wait => cases hstep
      | unlock l =>
        obtain rfl := Option.some.inj hstep
        exact .inr (.inr (.inr ⟨fun x hx => (List.mem_filter.mp hx).1, rfl⟩))
      | use l =>
        obtain rfl := Option.some.inj hstep
        exact .inr (.inl ⟨l, k, rfl, rfl, rfl⟩)
      | drain l =>
        simp only [advance, Option.ite_none_right_eq_some] at hstep
        obtain ⟨-, hstep⟩ := hstep
        obtain rfl := Option.some.inj hstep
        exact .inr (.inr (.inr ⟨List.Subset.refl _, rfl⟩))
      | turn =>
        obtain rfl := Option.some.inj hstep
        exact .inr (.inr (.inl ⟨k, rfl, rfl⟩))
      | _ =>
        obtain rfl := Option.some.inj hstep
        exact .inr (.inr (.inr ⟨List.Subset.refl _, rfl⟩))
    | _ =>
      obtain rfl := Option.some.inj hstep
      exact .inr (.inr (.inr ⟨List.Subset.refl _, rfl⟩))
  case mark =>
    obtain rfl := Option.some.inj hstep
    exact .inr (.inr (.inr ⟨List.Subset.refl _, rfl⟩))

theorem advance_guarded {free : K → F → Bool} {first : Bool} {g : F} {a b : Activity K D F}
    (fits : Fits R handler a.code a.held) (guarded : Guarded R handler a.held)
    (hstep : advance free first g a = some b) : Guarded R handler b.held := by
  rcases advance_held hstep with ⟨l, i, k, code, -, held, -⟩ | ⟨l, k, code, held, -⟩ |
    ⟨k, -, held⟩ | ⟨sub, -⟩
  · rw [code] at fits
    have admits := fits.op.1
    simp only [Rules.admits, Bool.and_eq_true] at admits
    rw [held]
    intro x hx
    rcases List.mem_cons.mp hx with rfl | hx
    · cases handler
      · simpa [Bool.or_eq_true, imp_iff_not_or] using admits.2
      · simpa using admits.2
    · exact guarded x hx
  · rw [code] at fits
    have admits := fits.op.1
    simp only [Rules.admits, Bool.and_eq_true, Bool.not_eq_true'] at admits
    obtain ⟨⟨-, rfl⟩, plain⟩ := admits
    rw [held]
    intro x hx
    rcases List.mem_cons.mp hx with rfl | hx
    · simp [plain]
    · exact guarded x hx
  · rw [held]
    exact guarded
  · exact fun x hx => guarded x (sub hx)

theorem Fits.nothing {code : List (Frame K D)} {held : Held K}
    (fits : Fits R handler code held) (done : code = []) : held = [] := by
  subst done
  cases fits
  rfl

variable [DecidableEq D]

theorem at_iff {a : Activity K D F} {o : Op K D} :
    a.at o = true ↔ ∃ k, a.code = .run (.op o) :: k := by
  obtain ⟨code, h, f⟩ := a
  constructor
  · intro reached
    simp only [Activity.at] at reached
    split at reached
    case h_1 o' k =>
      obtain rfl : o' = o := by simpa using reached
      exact ⟨k, rfl⟩
    case h_2 => cases reached
  · rintro ⟨k, rfl⟩
    simp [Activity.at]

/-- The activity is about to take the lock. -/
def Activity.Wants (a : Activity K D F) (k : K) : Prop :=
  ∃ i, a.at (.lock k i) = true

/-- The activity goes on only when nobody else has it. -/
def Activity.Needs (a : Activity K D F) (k : K) : Prop :=
  a.Wants k ∨ a.at (.drain k) = true

/-- An activity that is not at its end goes on by itself, needs what others have, or waits. -/
theorem advance_or (a : Activity K D F) (free : K → F → Bool) :
    a.code = [] ∨ a.at .wait = true ∨ (∃ k, a.Needs k ∧ free k a.object = false) ∨
      ∃ b, advance free false a.object a = some b := by
  obtain ⟨code, h, f⟩ := a
  rcases code with _ | ⟨_ | _, k⟩
  · exact .inl rfl
  case run p =>
    cases p with
    | op o =>
      cases o with
      | lock l i =>
        cases avail : free l f with
        | true => exact .inr (.inr (.inr ⟨_, if_pos avail⟩))
        | false => exact .inr (.inr (.inl ⟨l, .inl ⟨i, at_iff.mpr ⟨k, rfl⟩⟩, avail⟩))
      | drain l =>
        cases avail : free l f with
        | true => exact .inr (.inr (.inr ⟨_, if_pos avail⟩))
        | false => exact .inr (.inr (.inl ⟨l, .inr (at_iff.mpr ⟨k, rfl⟩), avail⟩))
      | wait => exact .inr (.inl (at_iff.mpr ⟨k, rfl⟩))
      | _ => exact .inr (.inr (.inr ⟨_, rfl⟩))
    | _ => exact .inr (.inr (.inr ⟨_, rfl⟩))
  case mark => exact .inr (.inr (.inr ⟨_, rfl⟩))

theorem Fits.at {a : Activity K D F} {o : Op K D} (fits : Fits R handler a.code a.held)
    (reached : a.at o = true) : R.admits handler a.held o = true := by
  obtain ⟨k, code⟩ := at_iff.mp reached
  rw [code] at fits
  exact fits.op.1

theorem Fits.drains {a : Activity K D F} {k : K}
    (fits : Fits R handler a.code a.held) (reached : a.at (.drain k) = true) :
    (R.users k = true ∧ ∀ x ∈ a.held, R.rank x.1 < R.rank k) ∧
      handler = false ∧ ∀ x ∈ a.held, R.spins x.1 = false := by
  have admits := fits.at reached
  simpa only [Rules.admits, Bool.and_eq_true, List.all_eq_true, decide_eq_true_eq,
    Bool.not_eq_true', List.any_eq_false, Bool.not_eq_true] using admits

theorem Fits.needs {a : Activity K D F} {k : K}
    (fits : Fits R handler a.code a.held) (needs : a.Needs k) :
    (∀ x ∈ a.held, R.rank x.1 < R.rank k) ∧ (handler = true → R.interrupt k = true) := by
  rcases needs with ⟨i, reached⟩ | reached
  · have admits := fits.at reached
    simp only [Rules.admits, Bool.and_eq_true, List.all_eq_true, decide_eq_true_eq] at admits
    refine ⟨admits.1.1.2, fun hh => ?_⟩
    simpa [hh] using admits.2
  · obtain ⟨⟨-, below⟩, task, -⟩ := fits.drains reached
    exact ⟨below, fun hh => absurd (task.symm.trans hh) (by decide)⟩

theorem Fits.waits {a : Activity K D F} (fits : Fits R handler a.code a.held)
    (reached : a.at .wait = true) : handler = false ∧ ∀ x ∈ a.held, R.rank x.1 = 0 := by
  have admits := fits.at reached
  simp only [Rules.admits, Bool.and_eq_true, List.all_eq_true, decide_eq_true_eq,
    Bool.not_eq_true'] at admits
  exact ⟨admits.1, fun x hx => (admits.2 x hx).2⟩

/-- The activity is about to do something that may put it to sleep. -/
def Activity.MaySleep (R : Rules K D) (a : Activity K D F) : Prop :=
  a.at .sleep = true ∨ a.at .wait = true ∨ (∃ k, a.Wants k ∧ R.spins k = false) ∨
    ∃ k, a.at (.drain k) = true

theorem Fits.sleeps {a : Activity K D F} (fits : Fits R handler a.code a.held)
    (maySleep : a.MaySleep R) : handler = false ∧ ∀ x ∈ a.held, R.spins x.1 = false := by
  rcases maySleep with reached | reached | ⟨k, ⟨i, reached⟩, mutex⟩ | ⟨k, reached⟩
  · have admits := fits.at reached
    simpa [Rules.admits] using admits
  · have admits := fits.at reached
    simp only [Rules.admits, Bool.and_eq_true, List.all_eq_true, Bool.not_eq_true'] at admits
    exact ⟨admits.1, fun x hx => (admits.2 x hx).1⟩
  · have admits := fits.at reached
    simp only [Rules.admits, mutex, Bool.false_or, Bool.and_eq_true, Bool.not_eq_true',
      List.any_eq_false, Bool.not_eq_true] at admits
    exact admits.1.2
  · exact (fits.drains reached).2

theorem Fits.allocs {a : Activity K D F} (fits : Fits R handler a.code a.held)
    (reached : a.at .alloc = true) :
    handler = false ∧ ∀ x ∈ a.held, R.spins x.1 = true → R.lent x.1 = true := by
  have admits := fits.at reached
  simp only [Rules.admits, Bool.and_eq_true, List.all_eq_true, Bool.not_eq_true'] at admits
  refine ⟨admits.1, fun x hx spins => ?_⟩
  simpa [spins] using admits.2 x hx

end Sound

/-- A task, or the handler on top of it. -/
inductive Who (n : Nat) where
  | task (t : Fin n)
  | handler (t : Fin n)

def State.activity (s : State K D F n) : Who n → Option (Activity K D F)
  | .task t => some (s.tasks t)
  | .handler t => s.handlers t

theorem setTask_others {s : State K D F n} {t : Fin n} {b : Activity K D F} {v : Who n}
    (hne : v ≠ .task t) : (s.setTask t b).activity v = s.activity v := by
  cases v with
  | task u =>
    have other : u ≠ t := fun h => hne (congrArg Who.task h)
    simp [State.activity, State.setTask, other]
  | handler u => rfl

theorem setHandler_others {s : State K D F n} {t : Fin n} {b : Option (Activity K D F)}
    {v : Who n} (hne : v ≠ .handler t) : (s.setHandler t b).activity v = s.activity v := by
  cases v with
  | task u => rfl
  | handler u =>
    have other : u ≠ t := fun h => hne (congrArg Who.handler h)
    simp [State.activity, State.setHandler, other]

section Invariants

variable [DecidableEq K] {R : Rules K D}

/-- What every reachable state keeps. -/
structure Disciplined (R : Rules K D) (s : State K D F n) : Prop where
  tasks : ∀ t, Fits R false (s.tasks t).code (s.tasks t).held ∧ Guarded R false (s.tasks t).held
  handlers : ∀ t a, s.handlers t = some a → Fits R true a.code a.held ∧ Guarded R true a.held ∧
    ∀ x ∈ (s.tasks t).held, x.2 = false

theorem idle_disciplined (f : F) : Disciplined R (State.idle n f) where
  tasks := fun t => ⟨.done, guarded_nil⟩
  handlers := fun t a ha => by cases ha

theorem disciplined_task {s : State K D F n} {t : Fin n} {b : Activity K D F} (h : Disciplined R s)
    (top : s.handlers t = none) (fits : Fits R false b.code b.held)
    (guarded : Guarded R false b.held) : Disciplined R (s.setTask t b) where
  tasks := fun u => by
    rcases eq_or_ne u t with rfl | hne
    · simpa [State.setTask] using ⟨fits, guarded⟩
    · simpa [State.setTask, hne] using h.tasks u
  handlers := fun u a ha => by
    have other : u ≠ t := by
      rintro rfl
      rw [show s.handlers u = some a from ha] at top
      cases top
    simpa [State.setTask, other] using h.handlers u a ha

theorem disciplined_handler {s : State K D F n} {t : Fin n} {b : Option (Activity K D F)}
    (h : Disciplined R s) (new : ∀ a, b = some a → Fits R true a.code a.held ∧
      Guarded R true a.held ∧ ∀ x ∈ (s.tasks t).held, x.2 = false) :
    Disciplined R (s.setHandler t b) where
  tasks := h.tasks
  handlers := fun u a ha => by
    rcases eq_or_ne u t with rfl | hne
    · exact new a (by simpa [State.setHandler] using ha)
    · exact h.handlers u a (by simpa [State.setHandler, hne] using ha)

variable [DecidableEq F]

theorem holds_held {a : Activity K D F} {k : K} {f : F} (holds : a.holds R k f = true) :
    ∃ i, (k, i) ∈ a.held := by
  simp only [Activity.holds, Bool.and_eq_true, List.any_eq_true, decide_eq_true_eq] at holds
  obtain ⟨⟨⟨l, i⟩, held, rfl⟩, -⟩ := holds
  exact ⟨i, held⟩

theorem taken_holder {s : State K D F n} {k : K} {f : F} (taken : s.free R k f = false) :
    (∃ t, (s.tasks t).holds R k f = true) ∨
      ∃ t a, s.handlers t = some a ∧ a.holds R k f = true := by
  simp only [State.free, decide_eq_false_iff_not, not_forall, not_and_or,
    Bool.not_eq_false, Option.all_eq_true] at taken
  obtain ⟨t, holds | holds⟩ := taken
  · exact .inl ⟨t, holds⟩
  · push Not at holds
    obtain ⟨a, top, holds⟩ := holds
    exact .inr ⟨t, a, top, by simpa using holds⟩

/-- No lock has two holders. -/
def Alone (R : Rules K D) (s : State K D F n) : Prop :=
  ∀ k f w w' a a', R.users k = false → s.activity w = some a → s.activity w' = some a' →
    a.holds R k f = true → a'.holds R k f = true → w = w'

theorem free_activity {s : State K D F n} {k : K} {f : F} {w : Who n} {a : Activity K D F}
    (free : s.free R k f = true) (ha : s.activity w = some a) : a.holds R k f = false := by
  simp only [State.free, decide_eq_true_eq] at free
  cases w with
  | task t =>
    obtain rfl := Option.some.inj ha
    exact (free t).1
  | handler t =>
    have top : s.handlers t = some a := ha
    simpa [top] using (free t).2

theorem free_shared {s : State K D F n} {k : K} (f g : F) (shared : R.shared k = true) :
    s.free R k f = s.free R k g := by
  simp only [State.free, Activity.holds, shared, Bool.true_or]

/-- Only `w` changes, and it newly holds only what was free. -/
theorem alone_update {s s' : State K D F n} {w : Who n} (alone : Alone R s)
    (others : ∀ v, v ≠ w → s'.activity v = s.activity v)
    (own : ∀ b k f, R.users k = false → s'.activity w = some b → b.holds R k f = true →
      (∃ a, s.activity w = some a ∧ a.holds R k f = true) ∨ s.free R k f = true) :
    Alone R s' := by
  have apart : ∀ k f v b a, R.users k = false → v ≠ w → s'.activity w = some b →
      s'.activity v = some a → b.holds R k f = true → a.holds R k f = true → False := by
    intro k f v b a lock hne hb ha holds holds'
    rw [others v hne] at ha
    rcases own b k f lock hb holds with ⟨b', hb', before⟩ | free
    · exact hne (alone k f v w a b' lock ha hb' holds' before)
    · rw [free_activity free ha] at holds'
      cases holds'
  intro k f v v' a a' lock ha ha' holds holds'
  by_cases hv : v = w
  · subst hv
    by_contra hne
    exact apart k f v' a a' lock (Ne.symm hne) ha ha' holds holds'
  · by_cases hv' : v' = w
    · subst hv'
      exact (apart k f v a' a lock hv ha' ha holds' holds).elim
    · rw [others v hv] at ha
      rw [others v' hv'] at ha'
      exact alone k f v v' a a' lock ha ha' holds holds'

theorem holds_nothing {a : Activity K D F} (nothing : a.held = []) (k : K) (f : F) :
    a.holds R k f = false := by
  simp [Activity.holds, nothing]

theorem advance_holds {s : State K D F n} {handler first : Bool} {g : F} {a b : Activity K D F}
    (fits : Fits R handler a.code a.held) (hstep : advance (s.free R) first g a = some b)
    {k : K} {f : F} (lock : R.users k = false) (holds : b.holds R k f = true) :
    a.holds R k f = true ∨ s.free R k f = true := by
  rcases advance_held hstep with ⟨l, i, rest, -, free, held, object⟩ |
    ⟨l, rest, code, held, object⟩ | ⟨rest, code, held⟩ | ⟨sub, object⟩
  · simp only [Activity.holds, held, object, List.any_cons, Bool.and_eq_true, Bool.or_eq_true,
      decide_eq_true_eq] at holds ⊢
    obtain ⟨rfl | before, scope⟩ := holds
    · right
      rcases scope with shared | rfl
      · rw [free_shared f a.object shared]
        exact free
      · exact free
    · exact .inl ⟨before, scope⟩
  · rw [code] at fits
    have users := fits.op.1
    simp only [Rules.admits, Bool.and_eq_true] at users
    simp only [Activity.holds, held, object, List.any_cons, Bool.and_eq_true, Bool.or_eq_true,
      decide_eq_true_eq] at holds ⊢
    obtain ⟨rfl | before, scope⟩ := holds
    · rw [users.1.1.1] at lock
      cases lock
    · exact .inl ⟨before, scope⟩
  · -- an activity turns to another object with nothing held
    rw [code] at fits
    have nothing : a.held = [] := by simpa [Rules.admits] using fits.op.1
    rw [holds_nothing (held.trans nothing)] at holds
    cases holds
  · left
    simp only [Activity.holds, object, Bool.and_eq_true, List.any_eq_true] at holds ⊢
    obtain ⟨⟨x, hx, same⟩, scope⟩ := holds
    exact ⟨⟨x, sub hx, same⟩, scope⟩

theorem alone_task {s : State K D F n} {t : Fin n} {b : Activity K D F} (alone : Alone R s)
    (own : ∀ k f, R.users k = false → b.holds R k f = true →
      (s.tasks t).holds R k f = true ∨ s.free R k f = true) :
    Alone R (s.setTask t b) := by
  refine alone_update (w := .task t) alone (fun v hne => setTask_others hne) ?_
  intro c k f lock hc holds
  obtain rfl : b = c := by simpa [State.activity, State.setTask] using hc
  exact (own k f lock holds).imp (fun before => ⟨_, rfl, before⟩) id

theorem alone_handler {s : State K D F n} {t : Fin n} {b : Option (Activity K D F)}
    (alone : Alone R s) (own : ∀ c k f, R.users k = false → b = some c → c.holds R k f = true →
      (∃ a, s.handlers t = some a ∧ a.holds R k f = true) ∨ s.free R k f = true) :
    Alone R (s.setHandler t b) := by
  refine alone_update (w := .handler t) alone (fun v hne => setHandler_others hne) ?_
  intro c k f lock hc holds
  exact own c k f lock (by simpa [State.activity, State.setHandler] using hc) holds

end Invariants

section Standstill

variable [DecidableEq K] [DecidableEq D] [DecidableEq F] {R : Rules K D}
  {entries interrupts : List (Prog K D)}

/-- What a step can do. -/
inductive Moves (R : Rules K D) (entries interrupts : List (Prog K D)) (s : State K D F n) :
    State K D F n → Prop where
  | task {t first g b} (top : s.handlers t = none)
    (advance : advance (s.free R) first g (s.tasks t) = some b) :
    Moves R entries interrupts s (s.setTask t b)
  | handler {t first g a b} (top : s.handlers t = some a)
    (advance : advance (s.free R) first g a = some b) :
    Moves R entries interrupts s (s.setHandler t (some b))
  | back {t} : Moves R entries interrupts s (s.setHandler t none)
  | enter {t p f} (top : s.handlers t = none) (idle : (s.tasks t).code = []) (entry : p ∈ entries) :
    Moves R entries interrupts s (s.setTask t ⟨[.run p], (s.tasks t).held, f⟩)
  | wake {t k} (top : s.handlers t = none) (waits : (s.tasks t).code = .run (.op .wait) :: k) :
    Moves R entries interrupts s (s.setTask t { s.tasks t with code := k })
  | raise {t p f} (on : ∀ x ∈ (s.tasks t).held, x.2 = false) (entry : p ∈ interrupts) :
    Moves R entries interrupts s (s.setHandler t (some ⟨[.run p], [], f⟩))

theorem step_moves {s s' : State K D F n} {a : Action F n}
    (hstep : step R entries interrupts s a = some s') : Moves R entries interrupts s s' := by
  cases a with
  | task t first g =>
    simp only [step] at hstep
    split at hstep
    case h_1 top =>
      obtain ⟨b, advance, rfl⟩ := Option.map_eq_some_iff.mp hstep
      exact .task top advance
    case h_2 => cases hstep
  | handler t first g =>
    simp only [step] at hstep
    split at hstep
    case h_1 a top =>
      obtain ⟨b, advance, rfl⟩ := Option.map_eq_some_iff.mp hstep
      exact .handler top advance
    case h_2 => cases hstep
  | back t =>
    simp only [step] at hstep
    split at hstep
    case h_1 a top =>
      simp only [Option.ite_none_right_eq_some] at hstep
      exact Option.some.inj hstep.2 ▸ .back
    case h_2 => cases hstep
  | enter t i f =>
    simp only [step] at hstep
    split at hstep
    case h_1 p top entry =>
      simp only [Option.ite_none_right_eq_some, List.isEmpty_iff] at hstep
      exact Option.some.inj hstep.2 ▸ .enter top hstep.1 (List.mem_of_getElem? entry)
    case h_2 => cases hstep
  | wake t =>
    simp only [step] at hstep
    split at hstep
    case h_1 top =>
      simp only [Option.ite_none_right_eq_some, at_iff] at hstep
      obtain ⟨⟨k, waits⟩, hstep⟩ := hstep
      obtain rfl := Option.some.inj hstep
      rw [waits]
      exact .wake top waits
    case h_2 => cases hstep
  | raise t i f =>
    simp only [step] at hstep
    split at hstep
    case h_1 p top entry =>
      simp only [Option.ite_none_right_eq_some, List.all_eq_true, Bool.not_eq_true'] at hstep
      exact Option.some.inj hstep.2 ▸ .raise hstep.1 (List.mem_of_getElem? entry)
    case h_2 => cases hstep

theorem step_disciplined {s s' : State K D F n} {a : Action F n}
    (tasks : ∀ p ∈ entries, Checked R false p = true)
    (handlers : ∀ p ∈ interrupts, Checked R true p = true) (h : Disciplined R s)
    (hstep : step R entries interrupts s a = some s') : Disciplined R s' := by
  cases step_moves hstep with
  | @task t _ _ b top advance =>
    obtain ⟨fits, guarded⟩ := h.tasks t
    exact disciplined_task h top (advance_fits fits advance) (advance_guarded fits guarded advance)
  | @handler t _ _ a b top advance =>
    obtain ⟨fits, guarded, off⟩ := h.handlers t a top
    refine disciplined_handler h fun c hc => ?_
    obtain rfl := Option.some.inj hc
    exact ⟨advance_fits fits advance, advance_guarded fits guarded advance, off⟩
  | back => exact disciplined_handler h fun c hc => by cases hc
  | @enter t p f top idle entry =>
    have nothing := (h.tasks t).1.nothing idle
    refine disciplined_task h top ?_ ?_
    · simpa only [nothing] using fits_of_checked (tasks p entry)
    · simpa only [nothing] using guarded_nil
  | @wake t k top waits =>
    obtain ⟨fits, guarded⟩ := h.tasks t
    rw [waits] at fits
    exact disciplined_task h top fits.op.2 guarded
  | @raise t p f on entry =>
    refine disciplined_handler h fun c hc => ?_
    obtain rfl := Option.some.inj hc
    exact ⟨fits_of_checked (handlers p entry), guarded_nil, on⟩

theorem run_disciplined {f : F} {s : State K D F n} {as : List (Action F n)}
    (tasks : ∀ p ∈ entries, Checked R false p = true)
    (handlers : ∀ p ∈ interrupts, Checked R true p = true)
    (run : exec (step R entries interrupts) (State.idle n f) as = some s) : Disciplined R s :=
  exec_invariant (fun _ _ _ h hstep => step_disciplined tasks handlers h hstep)
    (idle_disciplined f) run

theorem step_alone {s s' : State K D F n} {a : Action F n} (h : Disciplined R s)
    (alone : Alone R s) (hstep : step R entries interrupts s a = some s') : Alone R s' := by
  cases step_moves hstep with
  | @task t _ _ b top advance =>
    exact alone_task alone fun k f lock holds => advance_holds (h.tasks t).1 advance lock holds
  | @handler t _ _ a b top advance =>
    refine alone_handler alone fun c k f lock hc holds => ?_
    obtain rfl := Option.some.inj hc
    rcases advance_holds (h.handlers t a top).1 advance lock holds with before | free
    · exact .inl ⟨a, top, before⟩
    · exact .inr free
  | back => exact alone_handler alone fun c k f _ hc => by cases hc
  | @enter t p f top idle entry =>
    refine alone_task alone fun k g _ holds => ?_
    have nothing : (⟨[.run p], (s.tasks t).held, f⟩ : Activity K D F).held = [] :=
      (h.tasks t).1.nothing idle
    rw [holds_nothing nothing] at holds
    cases holds
  | wake => exact alone_task alone fun k f _ holds => .inl holds
  | raise =>
    refine alone_handler alone fun c k f _ hc holds => ?_
    obtain rfl := Option.some.inj hc
    rw [holds_nothing rfl] at holds
    cases holds

theorem run_alone {f : F} {s : State K D F n} {as : List (Action F n)}
    (tasks : ∀ p ∈ entries, Checked R false p = true)
    (handlers : ∀ p ∈ interrupts, Checked R true p = true)
    (run : exec (step R entries interrupts) (State.idle n f) as = some s) : Alone R s := by
  have start : Disciplined R (State.idle n f) ∧ Alone R (State.idle n f) := by
    refine ⟨idle_disciplined f, fun k g w w' a a' _ ha ha' holds => ?_⟩
    cases w with
    | task t =>
      obtain rfl := Option.some.inj ha
      rw [holds_nothing rfl] at holds
      cases holds
    | handler t => cases ha
  have kept : ∀ (s : State K D F n) a s', Disciplined R s ∧ Alone R s →
      step R entries interrupts s a = some s' → Disciplined R s' ∧ Alone R s' := by
    intro s a s' h hstep
    exact ⟨step_disciplined tasks handlers h.1 hstep, step_alone h.1 h.2 hstep⟩
  exact (exec_invariant kept start run).2

theorem Disciplined.touches {s : State K D F n} {w : Who n} {a : Activity K D F} {d : D} {k : K}
    (h : Disciplined R s) (guard : R.guard d = some k) (ha : s.activity w = some a)
    (reached : a.at (.touch d) = true) : a.holds R k a.object = true := by
  have admits : (R.guard d).all (fun k => a.held.any fun x => decide (x.1 = k)) = true := by
    cases w with
    | task t =>
      obtain rfl := Option.some.inj ha
      exact (h.tasks t).1.at reached
    | handler t => exact (h.handlers t a ha).1.at reached
  have held : (a.held.any fun x => decide (x.1 = k)) = true := by
    simpa only [guard, Option.all_some] using admits
  simp [Activity.holds, held]

omit [DecidableEq F] in
/-- A handler needs nothing that the task under it holds. -/
theorem Disciplined.apart {s : State K D F n} {t : Fin n} {a : Activity K D F} {k : K}
    (h : Disciplined R s) (top : s.handlers t = some a) (needs : a.Needs k) :
    ∀ x ∈ (s.tasks t).held, R.interrupt x.1 = false ∧ x.1 ≠ k := by
  obtain ⟨fits, -, off⟩ := h.handlers t a top
  intro x hx
  have plain : R.interrupt x.1 = false := by
    by_contra hk
    have on : x.2 = true := (h.tasks t).2 x hx (by simpa using hk)
    rw [off x hx] at on
    cases on
  refine ⟨plain, ?_⟩
  rintro rfl
  rw [(fits.needs needs).2 rfl] at plain
  cases plain

/-- Nobody can go on without another party. -/
def Stalled (R : Rules K D) (s : State K D F n) : Prop :=
  ∀ a : Action F n, a.own = true → ∀ entries interrupts, step R entries interrupts s a = none

/-- In a standstill, a task that is not interrupted is at its end, waits, or needs what
others have. -/
theorem stalled_task {s : State K D F n} {t : Fin n} (stalled : Stalled R s)
    (top : s.handlers t = none) :
    (s.tasks t).code = [] ∨ (s.tasks t).at .wait = true ∨
      ∃ k, (s.tasks t).Needs k ∧ s.free R k (s.tasks t).object = false := by
  rcases advance_or (s.tasks t) (s.free R) with h | h | h | ⟨b, h⟩
  · exact .inl h
  · exact .inr (.inl h)
  · exact .inr (.inr h)
  · have stuck := stalled (.task t false (s.tasks t).object) rfl [] []
    simp [step, top, h] at stuck

theorem stalled_handler {s : State K D F n} {t : Fin n} {a : Activity K D F} (stalled : Stalled R s)
    (disciplined : Disciplined R s) (top : s.handlers t = some a) :
    ∃ k, a.Needs k ∧ s.free R k a.object = false := by
  rcases advance_or a (s.free R) with h | h | h | ⟨b, h⟩
  · have stuck := stalled (.back t) rfl [] []
    simp [step, top, h] at stuck
  · exact absurd ((disciplined.handlers t a top).1.waits h).1 (by simp)
  · exact h
  · have stuck := stalled (.handler t false a.object) rfl [] []
    simp [step, top, h] at stuck

/-- Somebody on top needs a lock of this kind, and it is taken. -/
def Wanted (R : Rules K D) (s : State K D F n) (k : K) (f : F) : Prop :=
  s.free R k f = false ∧ ((∃ t, s.handlers t = none ∧ (s.tasks t).Needs k) ∨
    ∃ t a, s.handlers t = some a ∧ a.Needs k)

/-- Whoever holds a lock in a standstill waits for another party or needs a lock of higher
rank. -/
theorem holder_waits {s : State K D F n} {k : K} {f : F} (ordered : R.Ordered)
    (disciplined : Disciplined R s) (stalled : Stalled R s) (taken : s.free R k f = false) :
    (R.rank k = 0 ∧ ∃ t, (s.tasks t).at .wait = true ∧ (s.tasks t).holds R k f = true) ∨
      ∃ l g, R.rank k < R.rank l ∧ Wanted R s l g := by
  rcases taken_holder taken with ⟨t, holds⟩ | ⟨t, a, top, holds⟩
  · obtain ⟨i, held⟩ := holds_held holds
    have fits := (disciplined.tasks t).1
    cases top : s.handlers t with
    | none =>
      rcases stalled_task stalled top with done | waits | ⟨l, needs, next⟩
      · rw [fits.nothing done] at held
        cases held
      · exact .inl ⟨(fits.waits waits).2 _ held, t, waits, holds⟩
      · exact .inr ⟨l, _, (fits.needs needs).1 _ held, next, .inl ⟨t, top, needs⟩⟩
    | some a =>
      -- the handler on top of the holder needs a lock of an interrupt, and the holder has none
      obtain ⟨l, needs, next⟩ := stalled_handler stalled disciplined top
      have late := ((disciplined.handlers t a top).1.needs needs).2 rfl
      have plain := (disciplined.apart top needs _ held).1
      exact .inr ⟨l, _, ordered.above k l plain late, next, .inr ⟨t, a, top, needs⟩⟩
  · obtain ⟨i, held⟩ := holds_held holds
    obtain ⟨fits, -, -⟩ := disciplined.handlers t a top
    obtain ⟨l, needs, next⟩ := stalled_handler stalled disciplined top
    exact .inr ⟨l, _, (fits.needs needs).1 _ held, next, .inr ⟨t, a, top, needs⟩⟩

/-- Ranks only go up along the chain of holders, so the chain is one step long. -/
theorem wanted_outer {s : State K D F n} (ordered : R.Ordered) (disciplined : Disciplined R s)
    (stalled : Stalled R s) {k : K} {f : F} (wanted : Wanted R s k f) : R.rank k = 0 := by
  obtain ⟨top, bound⟩ := ordered.bounded
  induction hn : top - R.rank k using Nat.strongRecOn generalizing k f with
  | ind n ih =>
    rcases holder_waits ordered disciplined stalled wanted.1 with ⟨zero, -⟩ | ⟨l, g, above, next⟩
    · exact zero
    · have := bound k
      have := bound l
      have := ih (top - R.rank l) (by omega) next rfl
      omega

/-- A standstill: no handler runs, only locks of rank `0` are held, by tasks that wait, and
every other task is idle or wants such a lock. -/
structure Quiet (R : Rules K D) (s : State K D F n) : Prop where
  handlers : ∀ t, s.handlers t = none
  held : ∀ t, ∀ x ∈ (s.tasks t).held, R.rank x.1 = 0 ∧ (s.tasks t).at .wait = true
  tasks : ∀ t, (s.tasks t).code = [] ∨ (s.tasks t).at .wait = true ∨
    ∃ k, (s.tasks t).Wants k ∧ R.rank k = 0 ∧
      ∃ u, (s.tasks u).at .wait = true ∧ (s.tasks u).holds R k (s.tasks t).object = true

theorem stalled_quiet {s : State K D F n} (ordered : R.Ordered) (disciplined : Disciplined R s)
    (stalled : Stalled R s) : Quiet R s := by
  have handlers : ∀ t, s.handlers t = none := by
    intro t
    cases top : s.handlers t with
    | none => rfl
    | some a =>
      obtain ⟨k, needs, taken⟩ := stalled_handler stalled disciplined top
      have zero := wanted_outer ordered disciplined stalled ⟨taken, .inr ⟨t, a, top, needs⟩⟩
      have inner := ordered.inner k (((disciplined.handlers t a top).1.needs needs).2 rfl)
      omega
  refine ⟨handlers, fun t x hx => ?_, fun t => ?_⟩
  · have fits := (disciplined.tasks t).1
    rcases stalled_task stalled (handlers t) with done | waits | ⟨k, needs, taken⟩
    · rw [fits.nothing done] at hx
      cases hx
    · exact ⟨(fits.waits waits).2 x hx, waits⟩
    · have zero := wanted_outer ordered disciplined stalled ⟨taken, .inl ⟨t, handlers t, needs⟩⟩
      have := (fits.needs needs).1 x hx
      omega
  · rcases stalled_task stalled (handlers t) with done | waits | ⟨k, needs, taken⟩
    · exact .inl done
    · exact .inr (.inl waits)
    · have zero := wanted_outer ordered disciplined stalled ⟨taken, .inl ⟨t, handlers t, needs⟩⟩
      rcases holder_waits ordered disciplined stalled taken with
        ⟨-, u, waits, holds⟩ | ⟨l, g, above, up⟩
      · rcases needs with wants | drains
        · exact .inr (.inr ⟨k, wants, zero, u, waits, holds⟩)
        · -- what is drained is not held over a wait
          have := ordered.used k ((disciplined.tasks t).1.drains drains).1.1
          omega
      · have := wanted_outer ordered disciplined stalled up
        omega

/-- Nobody moves when every task is at its end, waits or needs a taken lock. -/
theorem stalled_of {s : State K D F n} (handlers : ∀ t, s.handlers t = none)
    (tasks : ∀ t, (s.tasks t).code = [] ∨ (s.tasks t).at .wait = true ∨
      ∃ k, (s.tasks t).Needs k ∧ s.free R k (s.tasks t).object = false) : Stalled R s := by
  intro a own entries interrupts
  cases a with
  | task t first g =>
    have stuck : advance (s.free R) first g (s.tasks t) = none := by
      rcases tasks t with done | waits | ⟨k, ⟨i, wants⟩ | drains, taken⟩
      · simp [advance, done]
      · obtain ⟨k, code⟩ := at_iff.mp waits
        simp [advance, code]
      · obtain ⟨k, code⟩ := at_iff.mp wants
        simp [advance, code, taken]
      · obtain ⟨k, code⟩ := at_iff.mp drains
        simp [advance, code, taken]
    simp [step, handlers t, stuck]
  | handler t first g => simp [step, handlers t]
  | back t => simp [step, handlers t]
  | _ => cases own

end Standstill

end LockPrograms
