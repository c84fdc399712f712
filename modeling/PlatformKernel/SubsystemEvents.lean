import PlatformKernel.LatchedSignals
import PlatformKernel.SubsystemNotif

/-!
# Restarts of virtual subsystems

Another guest writes the state of a subsystem into its register and raises the interrupt of
the subsystem. The handler queues the work of the subsystem, unless that work is queued
already; the one worker of `ssr_wq` takes a work off the queue, reads the register, tells the
clients and writes their answer next to the state. Meanwhile native subsystems write their
own registers.
-/

namespace SubsystemEvents

open GuardedRuns LatchedSignals CountedLoops
open SubsystemNotif hiding step Action Moves step_moves

inductive Worker where
  | idle
  | reading (d : DescId)
  | telling (d : DescId) (state : UInt32)
  | answering (d : DescId) (ret : UInt32)
  deriving DecidableEq

/-- `irq` is what the interrupt controller has latched. The rest is history, newest first:
what the other guest wrote and whether it still has to raise the interrupt for it, what the
worker read, and what the clients were told with what they answered. -/
structure State where
  drv : Driver
  irq : DescId → Bool
  queue : List DescId
  worker : Worker
  first : DescId → UInt32
  written : DescId → List UInt32
  owed : DescId → Bool
  readings : DescId → List UInt32
  told : DescId → List (UInt32 × UInt32)

def offset (drv : Driver) (d : DescId) : Nat := (drv.mem d).offset.toNat

/-- The device is bound and nothing has happened yet. -/
def State.bound (drv : Driver) : State where
  drv := drv
  irq := fun _ => false
  queue := []
  worker := .idle
  first := fun d => drv.regs (offset drv d)
  written := fun _ => []
  owed := fun _ => false
  readings := fun _ => []
  told := fun _ => []

/-- A work that is queued is not queued again. -/
def queueWork (queue : List DescId) (d : DescId) : List DescId :=
  if d ∈ queue then queue else queue ++ [d]

def subsystemRestartIrqHandler (s : State) (d : DescId) : State :=
  { s with irq := Function.update s.irq d false, queue := queueWork s.queue d }

/-- The next access of `subsystem_notif_wq_func`; `ret` is what the clients answer. -/
def subsystemNotifWqFunc (s : State) (ret : UInt32) : Worker → Option State
  | .idle => none
  | .reading d =>
    let state := s.drv.regs (offset s.drv d)
    some { s with
      worker := .telling d state
      readings := Function.update s.readings d (state :: s.readings d) }
  | .telling d state =>
    some { s with
      worker := .answering d ret
      told := Function.update s.told d ((state, ret) :: s.told d) }
  | .answering d ret =>
    some { s with
      worker := .idle
      drv := { s.drv with
        regs := Function.update s.drv.regs (offset s.drv d + clientStateOffset) ret } }

/-- The other guest writes and raises; the rest is this driver. -/
inductive Action where
  | write (d : DescId) (state : UInt32)
  | raise (d : DescId)
  | handler (d : DescId)
  | take
  | work (ret : UInt32)
  | native (d : DescId) (value : UInt32)

def step (s : State) : Action → Option State
  | .write d state =>
    if d ∈ s.drv.irqs then
      some { s with
        drv := { s.drv with regs := Function.update s.drv.regs (offset s.drv d) state }
        written := Function.update s.written d (state :: s.written d)
        owed := Function.update s.owed d true }
    else none
  | .raise d =>
    if d ∈ s.drv.irqs then
      some { s with irq := Function.update s.irq d true, owed := Function.update s.owed d false }
    else none
  | .handler d => if s.irq d then some (subsystemRestartIrqHandler s d) else none
  | .take =>
    match s.worker, s.queue with
    | .idle, d :: rest => some { s with worker := .reading d, queue := rest }
    | _, _ => none
  | .work ret => subsystemNotifWqFunc s ret s.worker
  | .native d value =>
    if d ∈ s.drv.notifiers then some { s with drv := subsystemStateCallback s.drv d value }
    else none

/-- Undisturbed, the accesses of the work are the work. -/
theorem work_undisturbed {s : State} {d : DescId} (ret : UInt32 → UInt32)
    (reading : s.worker = .reading d) :
    (exec step s [.work 0, .work (ret (s.drv.regs (offset s.drv d))), .work 0]).map State.drv =
      some (SubsystemNotif.subsystemNotifWqFunc s.drv d ret) := by
  simp only [exec, step, reading, subsystemNotifWqFunc, Option.bind_some, Option.map_some]
  rfl

/-- The three registers at one offset are none of the three at the other. -/
def Clear (o o' : UInt32) : Prop :=
  ∀ i ∈ [0, clientStateOffset, subsysStateOffset],
    ∀ j ∈ [0, clientStateOffset, subsysStateOffset], o.toNat + i ≠ o'.toNat + j

instance (o o' : UInt32) : Decidable (Clear o o') := inferInstanceAs (Decidable (∀ _ ∈ _, _))

theorem Clear.symm {o o' : UInt32} (h : Clear o o') : Clear o' o :=
  fun i hi j hj same => h j hj i hi same.symm

/-- Interrupts and notifiers belong to different descriptors, with registers of their own. -/
structure Wired (drv : Driver) : Prop where
  irqs : ∀ d ∈ drv.irqs, d ∈ drv.devm
  notifiers : ∀ d ∈ drv.notifiers, d ∈ drv.devm
  kinds : ∀ d ∈ drv.irqs, d ∉ drv.notifiers
  clear : ∀ d ∈ drv.devm, ∀ d' ∈ drv.devm, d ≠ d' → Clear (drv.mem d).offset (drv.mem d').offset

/-- The offsets of the children that have one. -/
def offsets (cs : List Child) : List UInt32 := cs.filterMap Child.offset

/-- The descriptors made so far are wired and clear of the children to come. -/
structure Wiring (cs : List Child) (drv : Driver) : Prop extends Wired drv where
  below : ∀ d ∈ drv.devm, d < drv.nextDesc
  ahead : ∀ d ∈ drv.devm, ∀ o ∈ offsets cs, Clear (drv.mem d).offset o

/-- What a round of `get_resources` adds when nothing fails. -/
structure Made (c : Child) (s t : Driver) : Prop where
  desc : ∃ desc, c.offset = some desc.offset ∧ t.mem = Function.update s.mem s.nextDesc desc
  devm : t.devm = s.nextDesc :: s.devm
  next : t.nextDesc = s.nextDesc + 1
  kind : (t.irqs = s.irqs ∧ t.notifiers = s.notifiers ++ [s.nextDesc]) ∨
    (t.irqs ⊆ s.nextDesc :: s.irqs ∧ t.notifiers = s.notifiers)

theorem getResource_made {c : Child} {s t : Driver} (h : getResource c s = .next t) :
    Made c s t := by
  unfold getResource at h
  split at h
  case isTrue => cases h
  case isFalse =>
    dsimp only at h
    split at h
    case h_2 => cases h
    case h_1 name offset type hname hoffset htype =>
      split at h
      case h_1 =>
        split at h
        case isTrue => cases h
        case isFalse =>
          obtain rfl := Flow.next.inj h
          exact ⟨⟨_, hoffset, rfl⟩, rfl, rfl, .inl ⟨rfl, rfl⟩⟩
      case h_2 =>
        split at h
        case isTrue => cases h
        case isFalse =>
          obtain rfl := Flow.next.inj h
          refine ⟨⟨_, hoffset, rfl⟩, rfl, rfl, .inr ⟨?_, rfl⟩⟩
          dsimp only
          split
          · exact List.Subset.refl _
          · exact List.subset_cons_self _ _

theorem wiring_next {c : Child} {cs : List Child} {s t : Driver} (made : Made c s t)
    (h : Wiring (c :: cs) s) (apart : (offsets (c :: cs)).Pairwise Clear) : Wiring cs t := by
  obtain ⟨⟨desc, hoffset, hmem⟩, hdevm, hnext, kind⟩ := made
  have offs : offsets (c :: cs) = desc.offset :: offsets cs := by
    simp [offsets, hoffset]
  rw [offs] at apart
  have new : t.mem s.nextDesc = desc := by
    rw [hmem]
    exact Function.update_self ..
  have old : ∀ d ∈ s.devm, t.mem d = s.mem d := by
    intro d hd
    rw [hmem]
    exact Function.update_of_ne (Nat.ne_of_lt (h.below d hd)) ..
  have fresh : s.nextDesc ∉ s.devm := fun hd => Nat.lt_irrefl _ (h.below _ hd)
  have ahead : ∀ d ∈ s.devm, Clear (t.mem d).offset desc.offset := by
    intro d hd
    rw [old d hd]
    exact h.ahead d hd _ (offs ▸ List.mem_cons_self)
  constructor
  · constructor
    · intro d hd
      rw [hdevm]
      rcases kind with ⟨irqs, -⟩ | ⟨irqs, -⟩
      · rw [irqs] at hd
        exact List.mem_cons_of_mem _ (h.irqs d hd)
      · rcases List.mem_cons.mp (irqs hd) with rfl | hd
        · exact List.mem_cons_self
        · exact List.mem_cons_of_mem _ (h.irqs d hd)
    · intro d hd
      rw [hdevm]
      rcases kind with ⟨-, notifiers⟩ | ⟨-, notifiers⟩
      · rw [notifiers] at hd
        rcases List.mem_append.mp hd with hd | hd
        · exact List.mem_cons_of_mem _ (h.notifiers d hd)
        · rw [List.mem_singleton.mp hd]
          exact List.mem_cons_self
      · rw [notifiers] at hd
        exact List.mem_cons_of_mem _ (h.notifiers d hd)
    · intro d hd hn
      rcases kind with ⟨irqs, notifiers⟩ | ⟨irqs, notifiers⟩
      · rw [irqs] at hd
        rw [notifiers] at hn
        rcases List.mem_append.mp hn with hn | hn
        · exact h.kinds d hd hn
        · exact fresh (List.mem_singleton.mp hn ▸ h.irqs d hd)
      · rw [notifiers] at hn
        rcases List.mem_cons.mp (irqs hd) with rfl | hd
        · exact fresh (h.notifiers _ hn)
        · exact h.kinds d hd hn
    · intro d hd d' hd' hne
      rw [hdevm] at hd hd'
      rcases List.mem_cons.mp hd with rfl | hd <;> rcases List.mem_cons.mp hd' with rfl | hd'
      · exact absurd rfl hne
      · rw [new]
        exact (ahead d' hd').symm
      · rw [new]
        exact ahead d hd
      · rw [old d hd, old d' hd']
        exact h.clear d hd d' hd' hne
  · intro d hd
    rw [hdevm] at hd
    rw [hnext]
    rcases List.mem_cons.mp hd with rfl | hd
    · exact Nat.lt_succ_self _
    · exact Nat.lt_succ_of_lt (h.below d hd)
  · intro d hd o ho
    rw [hdevm] at hd
    rcases List.mem_cons.mp hd with rfl | hd
    · rw [new]
      exact (List.pairwise_cons.mp apart).1 o ho
    · rw [old d hd]
      exact h.ahead d hd o (offs ▸ List.mem_cons_of_mem _ ho)

theorem getChildren_wired {cs : List Child} {s t : Driver} (h : Wiring cs s)
    (apart : (offsets cs).Pairwise Clear) (done : getChildren cs s = .next t) : Wired t := by
  induction cs generalizing s with
  | nil =>
    obtain rfl := Flow.next.inj done
    exact h.toWired
  | cons c cs ih =>
    unfold getChildren at done
    cases first : getResource c s with
    | bail err u =>
      rw [first] at done
      cases done
    | next u =>
      rw [first] at done
      have rest : (offsets cs).Pairwise Clear := by
        obtain ⟨desc, hoffset, -⟩ := (getResource_made first).desc
        have offs : offsets (c :: cs) = desc.offset :: offsets cs := by
          simp [offsets, hoffset]
        exact (List.pairwise_cons.mp (offs ▸ apart)).2
      exact ih (wiring_next (getResource_made first) h apart) rest done

theorem probe_bound {p : Platform} {s : Driver} (unbound : s.bound = false)
    (bound : (probeDevice p s).bound = true) :
    ∃ t, getChildren p.children { s with wq := true } = .next t ∧
      probeDevice p s = { t with bound := true } := by
  have released (err : (subsysNotifVirtProbe p s).1 ≠ 0) :
      (subsysNotifVirtProbe p s).2.bound = true := by
    simpa [probeDevice, err, devresRelease] using bound
  cases probe_ends p s with
  | refused early err adds =>
    rw [← adds.bound, released err] at unbound
    cases unbound
  | failed looks child err adds =>
    rw [← adds.bound, released err] at unbound
    cases unbound
  | bound looks all err adds =>
    obtain ⟨pdev, wq, ioremap⟩ := looks
    cases children : getChildren p.children { s with wq := true } with
    | bail err' t =>
      have probed : subsysNotifVirtProbe p s = (err', { t with wq := false }) := by
        simp [subsysNotifVirtProbe, getResources, pdev, wq, ioremap, children]
      have nonzero := getChildren_adds p.children { s with wq := true }
      rw [children] at nonzero
      rw [probed] at err
      exact absurd err nonzero.2.1
    | next t =>
      have probed : subsysNotifVirtProbe p s = (0, t) := by
        simp [subsysNotifVirtProbe, getResources, pdev, wq, ioremap, children]
      exact ⟨t, rfl, by simp [probeDevice, probed]⟩

/-- A first probe that binds the device leaves it wired. -/
theorem probed_wired {p : Platform} (apart : (offsets p.children).Pairwise Clear)
    (bound : (probeDevice p Driver.init).bound = true) : Wired (probeDevice p Driver.init) := by
  have start : Wiring p.children { Driver.init with wq := true } := by
    constructor
    · constructor <;> (intro d hd; cases hd)
    · intro d hd
      cases hd
    · intro d hd
      cases hd
  obtain ⟨t, children, probed⟩ := probe_bound rfl bound
  have wired := getChildren_wired start apart children
  rw [probed]
  exact ⟨wired.irqs, wired.notifiers, wired.kinds, wired.clear⟩

theorem Wired.apart {drv : Driver} (h : Wired drv) {d d' : DescId} (hd : d ∈ drv.devm)
    (hd' : d' ∈ drv.devm) {i j : Nat} (hi : i ∈ [0, clientStateOffset, subsysStateOffset])
    (hj : j ∈ [0, clientStateOffset, subsysStateOffset]) (other : d ≠ d' ∨ i ≠ j) :
    offset drv d + i ≠ offset drv d' + j := by
  by_cases same : d = d'
  · subst same
    have := other.resolve_left (not_not.mpr rfl)
    omega
  · exact h.clear d hd d' hd' same i hi j hj

/-- What a step does. -/
inductive Moves (s : State) : State → Prop where
  | writes {d : DescId} (state : UInt32) (virtual : d ∈ s.drv.irqs) : Moves s { s with
      drv := { s.drv with regs := Function.update s.drv.regs (offset s.drv d) state }
      written := Function.update s.written d (state :: s.written d)
      owed := Function.update s.owed d true }
  | raises {d : DescId} (virtual : d ∈ s.drv.irqs) : Moves s { s with
      irq := Function.update s.irq d true
      owed := Function.update s.owed d false }
  | queues {d : DescId} (raised : s.irq d = true) : Moves s (subsystemRestartIrqHandler s d)
  | takes {d : DescId} {rest : List DescId} (idle : s.worker = .idle)
      (queue : s.queue = d :: rest) : Moves s { s with worker := .reading d, queue := rest }
  | reads {d : DescId} (at_ : s.worker = .reading d) : Moves s { s with
      worker := .telling d (s.drv.regs (offset s.drv d))
      readings := Function.update s.readings d (s.drv.regs (offset s.drv d) :: s.readings d) }
  | tells {d : DescId} {state : UInt32} (ret : UInt32) (at_ : s.worker = .telling d state) :
      Moves s { s with
        worker := .answering d ret
        told := Function.update s.told d ((state, ret) :: s.told d) }
  | answers {d : DescId} {ret : UInt32} (at_ : s.worker = .answering d ret) : Moves s { s with
      worker := .idle
      drv := { s.drv with
        regs := Function.update s.drv.regs (offset s.drv d + clientStateOffset) ret } }
  | natives {d : DescId} (value : UInt32) (registered : d ∈ s.drv.notifiers) :
      Moves s { s with drv := subsystemStateCallback s.drv d value }

theorem step_moves {s t : State} {a : Action} (hstep : step s a = some t) : Moves s t := by
  cases a with
  | write d state =>
    simp only [step, Option.ite_none_right_eq_some] at hstep
    exact Option.some.inj hstep.2 ▸ .writes state hstep.1
  | raise d =>
    simp only [step, Option.ite_none_right_eq_some] at hstep
    exact Option.some.inj hstep.2 ▸ .raises hstep.1
  | handler d =>
    simp only [step, Option.ite_none_right_eq_some] at hstep
    exact Option.some.inj hstep.2 ▸ .queues hstep.1
  | take =>
    simp only [step] at hstep
    split at hstep
    case h_1 d rest idle queue => exact Option.some.inj hstep ▸ .takes idle queue
    case h_2 => cases hstep
  | work ret =>
    simp only [step] at hstep
    cases place : s.worker with
    | idle =>
      rw [place] at hstep
      cases hstep
    | reading d =>
      rw [place] at hstep
      exact Option.some.inj hstep ▸ .reads place
    | telling d state =>
      rw [place] at hstep
      exact Option.some.inj hstep ▸ .tells ret place
    | answering d ret' =>
      rw [place] at hstep
      exact Option.some.inj hstep ▸ .answers place
  | native d value =>
    simp only [step, Option.ite_none_right_eq_some] at hstep
    exact Option.some.inj hstep.2 ▸ .natives value hstep.1

/-- The subsystem that the worker serves has an interrupt, and its answer is the latest. -/
def Serving (irqs : List DescId) (told : DescId → List (UInt32 × UInt32)) : Worker → Prop
  | .idle => True
  | .reading d => d ∈ irqs
  | .telling d _ => d ∈ irqs
  | .answering d ret => d ∈ irqs ∧ ∃ state, (told d).head? = some (state, ret)

/-- The state register holds what was written last and, unless the worker is about to write
it, the answer register holds the answer to what the clients were told last. -/
structure Current (s : State) : Prop where
  wired : Wired s.drv
  queued : ∀ d ∈ s.queue, d ∈ s.drv.irqs
  raised : ∀ d, s.irq d = true → d ∈ s.drv.irqs
  serving : Serving s.drv.irqs s.told s.worker
  state : ∀ d ∈ s.drv.irqs, s.drv.regs (offset s.drv d) = (s.written d).headD (s.first d)
  answer : ∀ d ∈ s.drv.irqs, (∀ ret, s.worker ≠ .answering d ret) → ∀ state ret,
    (s.told d).head? = some (state, ret) →
      s.drv.regs (offset s.drv d + clientStateOffset) = ret

/-- A store to a register that is no state and no answer of a virtual subsystem. -/
theorem Current.elsewhere {s : State} (h : Current s) (r : Nat) (value : UInt32)
    (state : ∀ d ∈ s.drv.irqs, offset s.drv d ≠ r)
    (answer : ∀ d ∈ s.drv.irqs, offset s.drv d + clientStateOffset ≠ r) :
    Current { s with drv := { s.drv with regs := Function.update s.drv.regs r value } } where
  wired := ⟨h.wired.irqs, h.wired.notifiers, h.wired.kinds, h.wired.clear⟩
  queued := h.queued
  raised := h.raised
  serving := h.serving
  state := fun d hd => (Function.update_of_ne (state d hd) ..).trans (h.state d hd)
  answer := fun d hd place st ret htold =>
    (Function.update_of_ne (answer d hd) ..).trans (h.answer d hd place st ret htold)

theorem mem_queueWork {queue : List DescId} {d x : DescId} :
    x ∈ queueWork queue d ↔ x = d ∨ x ∈ queue := by
  unfold queueWork
  split_ifs with queued
  · constructor
    · exact .inr
    · rintro (rfl | hx)
      · exact queued
      · exact hx
  · rw [List.mem_append, List.mem_singleton, or_comm]

section Steps

variable {s t : State}

theorem step_current (h : Current s) (moves : Moves s t) : Current t := by
  have own := fun {d} (hd : d ∈ s.drv.irqs) => h.wired.irqs d hd
  have zero : 0 ∈ [0, clientStateOffset, subsysStateOffset] := by decide
  have client : clientStateOffset ∈ [0, clientStateOffset, subsysStateOffset] := by decide
  have subsys : subsysStateOffset ∈ [0, clientStateOffset, subsysStateOffset] := by decide
  cases moves with
  | @writes d state virtual =>
    refine ⟨⟨h.wired.irqs, h.wired.notifiers, h.wired.kinds, h.wired.clear⟩, h.queued, h.raised,
      h.serving, fun x hx => ?_, fun x hx place st ret htold => ?_⟩
    · rcases eq_or_ne x d with rfl | hne
      · simp [offset]
      · have other : offset s.drv x ≠ offset s.drv d :=
          h.wired.apart (own hx) (own virtual) zero zero (.inl hne)
        refine (Function.update_of_ne other ..).trans ?_
        simpa [hne] using h.state x hx
    · have other : offset s.drv x + clientStateOffset ≠ offset s.drv d :=
        h.wired.apart (own hx) (own virtual) client zero (.inr (by decide))
      exact (Function.update_of_ne other ..).trans (h.answer x hx place st ret htold)
  | @raises d virtual =>
    refine ⟨h.wired, h.queued, fun x hx => ?_, h.serving, h.state, h.answer⟩
    rcases eq_or_ne x d with rfl | hne
    · exact virtual
    · exact h.raised x (by simpa [hne] using hx)
  | @queues d raised =>
    refine ⟨h.wired, fun x hx => ?_, fun x hx => ?_, h.serving, h.state, h.answer⟩
    · rcases mem_queueWork.mp hx with rfl | hx
      · exact h.raised x raised
      · exact h.queued x hx
    · have hne : x ≠ d := by
        rintro rfl
        simp [subsystemRestartIrqHandler] at hx
      exact h.raised x (by simpa [subsystemRestartIrqHandler, hne] using hx)
  | @takes d rest idle queue =>
    refine ⟨h.wired, fun x hx => h.queued x (queue ▸ List.mem_cons_of_mem _ hx), h.raised,
      h.queued d (queue ▸ List.mem_cons_self), h.state, fun x hx _ => h.answer x hx ?_⟩
    simp [idle]
  | @reads d place =>
    have serving := h.serving
    rw [place] at serving
    refine ⟨h.wired, h.queued, h.raised, serving, h.state, fun x hx _ => h.answer x hx ?_⟩
    simp [place]
  | @tells d state ret place =>
    have serving : d ∈ s.drv.irqs := by
      have := h.serving
      rwa [place] at this
    refine ⟨h.wired, h.queued, h.raised, ⟨serving, state, by simp⟩, h.state, ?_⟩
    intro x hx away st ret' htold
    have hne : x ≠ d := by
      rintro rfl
      exact away ret rfl
    exact h.answer x hx (by simp [place]) st ret' (by simpa [hne] using htold)
  | @answers d ret place =>
    have serving := h.serving
    rw [place] at serving
    obtain ⟨virtual, state, latest⟩ := serving
    refine ⟨⟨h.wired.irqs, h.wired.notifiers, h.wired.kinds, h.wired.clear⟩, h.queued, h.raised,
      trivial, fun x hx => ?_, fun x hx _ st ret' htold => ?_⟩
    · have other : offset s.drv x ≠ offset s.drv d + clientStateOffset :=
        h.wired.apart (own hx) (own virtual) zero client (.inr (by decide))
      exact (Function.update_of_ne other ..).trans (h.state x hx)
    · rcases eq_or_ne x d with rfl | hne
      · have same : ret = ret' := by
          rw [latest] at htold
          exact (Prod.mk.inj (Option.some.inj htold)).2
        simp [offset, same]
      · have other : offset s.drv x + clientStateOffset ≠ offset s.drv d + clientStateOffset :=
          h.wired.apart (own hx) (own virtual) client client (.inl hne)
        refine (Function.update_of_ne other ..).trans (h.answer x hx ?_ st ret' htold)
        intro r same
        rw [place] at same
        exact hne (Worker.answering.inj same).1.symm
  | @natives d value registered =>
    have apart := fun {x i} (hx : x ∈ s.drv.irqs)
        (hi : i ∈ [0, clientStateOffset, subsysStateOffset]) =>
      h.wired.apart (own hx) (h.wired.notifiers d registered) hi subsys
        (.inl fun same => h.wired.kinds x hx (same ▸ registered))
    exact h.elsewhere _ value (fun x hx => apart hx zero) (fun x hx => apart hx client)

/-- What the worker has read and not told yet. -/
def untold : Worker → DescId → List UInt32
  | .telling d state, x => if x = d then [state] else []
  | _, _ => []

/-- The clients are told what is read. -/
def Relayed (s : State) : Prop :=
  ∀ d, s.readings d = untold s.worker d ++ (s.told d).map Prod.fst

theorem step_relayed (h : Relayed s) (moves : Moves s t) : Relayed t := by
  intro x
  have before := h x
  cases moves with
  | writes | raises | queues | natives => exact before
  | takes idle queue => simpa [untold, idle] using before
  | @reads d place =>
    rw [place] at before
    rcases eq_or_ne x d with rfl | hne
    · simpa [untold] using before
    · simpa [untold, hne] using before
  | @tells d state ret place =>
    rw [place] at before
    rcases eq_or_ne x d with rfl | hne
    · simpa [untold] using before
    · simpa [untold, hne] using before
  | answers place => simpa [untold, place] using before

def Worker.isReading : Worker → DescId → Bool
  | .reading d, x => decide (d = x)
  | _, _ => false

def view (d : DescId) (s : State) : Channel UInt32 where
  first := s.first d
  changes := s.written d
  owed := s.owed d
  latched := s.irq d || decide (d ∈ s.queue)
  looking := s.worker.isReading d
  seen := s.readings d

theorem step_simulates (d : DescId) (current : Current s) (moves : Moves s t) :
    view d t = view d s ∨ ∃ e, LatchedSignals.step (view d s) e = some (view d t) := by
  cases moves with
  | @writes x state virtual =>
    rcases eq_or_ne d x with rfl | hne
    · exact .inr ⟨.change state, by simp [view, LatchedSignals.step]⟩
    · exact .inl (by simp [view, hne])
  | @raises x virtual =>
    rcases eq_or_ne d x with rfl | hne
    · exact .inr ⟨.announce, by simp [view, LatchedSignals.step]⟩
    · exact .inl (by simp [view, hne])
  | @queues x raised =>
    left
    rcases eq_or_ne d x with rfl | hne
    · simp [view, subsystemRestartIrqHandler, mem_queueWork, raised]
    · simp [view, subsystemRestartIrqHandler, mem_queueWork, hne]
  | @takes x rest idle queue =>
    rcases eq_or_ne d x with rfl | hne
    · refine .inr ⟨.look (s.irq d || decide (d ∈ rest)), ?_⟩
      simp [view, LatchedSignals.step, Worker.isReading, queue]
    · refine .inl ?_
      simp [view, Worker.isReading, queue, idle, hne, Ne.symm hne]
  | @reads x place =>
    rcases eq_or_ne d x with rfl | hne
    · have virtual : d ∈ s.drv.irqs := by
        have serving := current.serving
        rwa [place] at serving
      refine .inr ⟨.read, ?_⟩
      simp [view, LatchedSignals.step, Worker.isReading, place, Channel.value,
        current.state d virtual]
    · refine .inl ?_
      simp [view, Worker.isReading, place, hne, Ne.symm hne]
  | tells ret place => exact .inl (by simp [view, Worker.isReading, place])
  | answers place => exact .inl (by simp [view, Worker.isReading, place])
  | natives => exact .inl rfl

end Steps

theorem bound_current {drv : Driver} (wired : Wired drv) : Current (State.bound drv) where
  wired := wired
  queued := fun d hd => by cases hd
  raised := fun d hd => by cases hd
  serving := trivial
  state := fun d _ => rfl
  answer := fun d _ _ st ret htold => by cases htold

theorem run_current {drv : Driver} {as : List Action} {s : State} (wired : Wired drv)
    (run : exec step (State.bound drv) as = some s) : Current s ∧ Relayed s := by
  have kept : ∀ s a t, Current s ∧ Relayed s → step s a = some t → Current t ∧ Relayed t := by
    intro s a t h hstep
    exact ⟨step_current h.1 (step_moves hstep), step_relayed h.2 (step_moves hstep)⟩
  exact exec_invariant kept ⟨bound_current wired, fun d => rfl⟩ run

theorem run_view {drv : Driver} {as : List Action} {s : State} (wired : Wired drv)
    (run : exec step (State.bound drv) as = some s) (d : DescId) : Kept (view d s) := by
  obtain ⟨es, events⟩ := run_simulates (view d) step
    (fun s a t h hstep => step_current h (step_moves hstep))
    (fun s a t h hstep => step_simulates d h (step_moves hstep)) (bound_current wired) run
  exact run_kept (quiet_kept _) events

def Worker.serves : Worker → DescId → Bool
  | .idle, _ => false
  | .reading d, x => decide (d = x)
  | .telling d _, x => decide (d = x)
  | .answering d _, x => decide (d = x)

/-- Nothing of the subsystem is under way. -/
structure Quiet (s : State) (d : DescId) : Prop where
  announced : s.owed d = false
  line : s.irq d = false
  queue : d ∉ s.queue
  worker : s.worker.serves d = false

theorem Quiet.notReading {s : State} {d : DescId} (quiet : Quiet s d) :
    s.worker.isReading d = false := by
  have idle := quiet.worker
  cases place : s.worker <;> simp_all [Worker.serves, Worker.isReading]

theorem Quiet.untold {s : State} {d : DescId} (quiet : Quiet s d) : untold s.worker d = [] := by
  have idle := quiet.worker
  cases place : s.worker with
  | telling x state =>
    rw [place] at idle
    have hne : d ≠ x := by
      rintro rfl
      simp [Worker.serves] at idle
    simp [SubsystemEvents.untold, hne]
  | _ => rfl

theorem Quiet.notAnswering {s : State} {d : DescId} (quiet : Quiet s d) (ret : UInt32) :
    s.worker ≠ .answering d ret := by
  intro place
  have idle := quiet.worker
  simp [place, Worker.serves] at idle

/-- The clients are told states of the subsystem in the order in which they were written, and
once all is quiet they know the state in the register and their answer to it is next to it. -/
structure Delivered (s : State) (d : DescId) : Prop where
  order : Echoes ((s.told d).map Prod.fst) (s.written d ++ [s.first d])
  last : Quiet s d → s.written d ≠ [] → ∃ ret,
    (s.told d).head? = some (s.drv.regs (offset s.drv d), ret) ∧
      s.drv.regs (offset s.drv d + clientStateOffset) = ret

theorem states_delivered (p : Platform) (apart : (offsets p.children).Pairwise Clear)
    (bound : (probeDevice p Driver.init).bound = true) (as : List Action) (s : State)
    (run : exec step (State.bound (probeDevice p Driver.init)) as = some s) :
    ∀ d ∈ s.drv.irqs, Delivered s d := by
  have wired := probed_wired apart bound
  obtain ⟨current, relayed⟩ := run_current wired run
  intro d hd
  have kept := run_view wired run d
  have order : Echoes (untold s.worker d ++ (s.told d).map Prod.fst)
      (s.written d ++ [s.first d]) := relayed d ▸ kept.order
  refine ⟨?_, fun quiet changed => ?_⟩
  · cases place : s.worker with
    | telling x state =>
      rw [place] at order
      by_cases same : d = x
      · simp only [untold, if_pos same] at order
        exact order.tail
      · simpa only [untold, if_neg same, List.nil_append] using order
    | _ => simpa [untold, place] using order
  · have latched : (s.irq d || decide (d ∈ s.queue)) = false := by
      simp [quiet.line, quiet.queue]
    have seen : (s.readings d).head? = some (s.drv.regs (offset s.drv d)) := by
      rw [current.state d hd]
      exact kept.last quiet.announced latched quiet.notReading changed
    rw [relayed d, quiet.untold, List.nil_append, List.head?_map, Option.map_eq_some_iff] at seen
    obtain ⟨⟨state, ret⟩, latest, rfl⟩ := seen
    exact ⟨ret, latest, current.answer d hd quiet.notAnswering _ ret latest⟩

/-- A native and a virtual subsystem. -/
def twoSubsystems : Platform where
  pdev := true
  workqueue := true
  ioremap := true
  children :=
    [⟨true, some "modem", some 0, some "native", true, 0, 0⟩,
      ⟨true, some "adsp", some 12, some "virtual", true, 40, 0⟩]

/-- The second state overtakes the reading of the first one. -/
def overtaken : List Action :=
  [.write 1 7, .raise 1, .handler 1, .take, .native 0 3, .write 1 8, .work 0, .raise 1, .handler 1,
    .work 1, .work 0, .take, .work 0, .work 2, .work 0]

theorem overtaken_delivered : ∃ s : State,
    exec step (State.bound (probeDevice twoSubsystems Driver.init)) overtaken = some s ∧
      s.told 1 = [(8, 2), (8, 1)] ∧ Quiet s 1 ∧ Delivered s 1 :=
  ⟨_, rfl, rfl, ⟨rfl, rfl, by decide, rfl⟩,
    states_delivered twoSubsystems (by decide) rfl overtaken _ rfl 1 (by decide)⟩

end SubsystemEvents
