import Mathlib.Data.List.TakeWhile
import PlatformKernel.CountedLoops
import PlatformKernel.GuardedRuns
import PlatformKernel.ReturnCodes

/-!
# The subsystem notification driver

The device tree of the driver has a child for each subsystem. A native one registers a
notifier for its restarts and goes on a global list, a virtual one has an interrupt. The
descriptors are device-managed: the driver core frees them when the probe fails and after
the device is removed, while notifiers and list belong to the driver.
-/

namespace SubsystemNotif

open CountedLoops GuardedRuns ReturnCodes

abbrev DescId := Nat

def clientStateOffset : Nat := 4
def subsysStateOffset : Nat := 8

inductive SubsystemType where
  | virtual
  | native
  deriving DecidableEq

structure SubsystemDescriptor where
  name : String
  offset : UInt32
  type : SubsystemType
  ssrIrq : Int

/-- A child node, with the outcomes of the calls made for it. -/
structure Child where
  kzalloc : Bool
  subsysName : Option String
  offset : Option UInt32
  type : Option String
  registerNotifier : Bool
  stateIrq : Int
  requestIrq : Int

/-- The device, with the outcomes of the calls made before its children. -/
structure Platform where
  pdev : Bool
  workqueue : Bool
  ioremap : Bool
  children : List Child

/-- `list` is `subsystem_descriptor_list`; `notifiers` are the descriptors whose `nb` is in the
chain of its subsystem. `devm` and `irqs` are released by the driver core, `freed` is what it
has released. `regs` are the registers at `base_reg`. -/
structure Driver where
  mem : DescId → SubsystemDescriptor
  regs : Nat → UInt32
  devm : List DescId
  irqs : List DescId
  freed : List DescId
  list : List DescId
  notifiers : List DescId
  wq : Bool
  bound : Bool
  nextDesc : DescId

def Driver.init : Driver where
  mem := fun _ => ⟨"", 0, .virtual, 0⟩
  regs := fun _ => 0
  devm := []
  irqs := []
  freed := []
  list := []
  notifiers := []
  wq := false
  bound := false
  nextDesc := 0

/-- Any type other than "native" leaves the zero of the allocation, `VIRTUAL`. -/
def subsystemType (type : String) : SubsystemType :=
  if type = "native" then .native else .virtual

/-- The round of `get_resources` for one child. The result of requesting the interrupt is
not looked at. -/
def getResource (c : Child) (s : Driver) : Flow Int Driver :=
  if c.kzalloc = false then .bail (-ENOMEM) s
  else
    let d := s.nextDesc
    let s := { s with devm := d :: s.devm, nextDesc := d + 1 }
    match c.subsysName, c.offset, c.type with
    | some name, some offset, some type =>
      match subsystemType type with
      | .native =>
        let s := { s with mem := Function.update s.mem d ⟨name, offset, .native, 0⟩ }
        if c.registerNotifier = false then .bail (-EINVAL) s
        else .next { s with list := s.list ++ [d], notifiers := s.notifiers ++ [d] }
      | .virtual =>
        let s := { s with mem := Function.update s.mem d ⟨name, offset, .virtual, c.stateIrq⟩ }
        if c.stateIrq < 0 then .bail (-EINVAL) s
        else .next { s with irqs := if c.requestIrq = 0 then d :: s.irqs else s.irqs }
    | _, _, _ => .bail (-EINVAL) s

def getChildren : List Child → Driver → Flow Int Driver
  | [], s => .next s
  | c :: rest, s => (getResource c s).andThen (getChildren rest)

def getResources (p : Platform) (s : Driver) : Flow Int Driver :=
  if p.ioremap = false then .bail (-ENOMEM) s else getChildren p.children s

def subsysNotifVirtProbe (p : Platform) (s : Driver) : Int × Driver :=
  if p.pdev = false then (-EINVAL, s)
  else if p.workqueue = false then (-ENOMEM, s)
  else
    match getResources p { s with wq := true } with
    | .bail err s => (err, { s with wq := false })
    | .next s => (0, s)

/-- Device-managed interrupts and descriptors go away. -/
def devresRelease (s : Driver) : Driver :=
  { s with devm := [], irqs := [], freed := s.devm ++ s.freed }

def probeDevice (p : Platform) (s : Driver) : Driver :=
  let r := subsysNotifVirtProbe p s
  if r.1 ≠ 0 then devresRelease r.2 else { r.2 with bound := true }

def releaseResources (s : Driver) : Driver :=
  s.list.foldl (fun s d => { s with notifiers := s.notifiers.erase d, list := s.list.erase d }) s

/-- `subsys_notif_virt_remove`, after which the driver core frees the descriptors. -/
def removeDevice (s : Driver) : Driver :=
  devresRelease { releaseResources { s with wq := false } with bound := false }

def subsystemStateCallback (s : Driver) (d : DescId) (value : UInt32) : Driver :=
  { s with regs := Function.update s.regs ((s.mem d).offset.toNat + subsysStateOffset) value }

/-- The work of an interrupt: the clients are told the state at the offset of the subsystem,
and their answer is written next to it. -/
def subsystemNotifWqFunc (s : Driver) (d : DescId) (clients : UInt32 → UInt32) : Driver :=
  { s with
    regs := Function.update s.regs ((s.mem d).offset.toNat + clientStateOffset)
      (clients (s.regs (s.mem d).offset.toNat)) }

inductive Action where
  | probe (p : Platform)
  | remove
  | notify (d : DescId) (value : UInt32)
  | restart (d : DescId) (clients : UInt32 → UInt32)

def step (s : Driver) : Action → Option Driver
  | .probe p => if s.bound then none else some (probeDevice p s)
  | .remove => if s.bound then some (removeDevice s) else none
  | .notify d value => if d ∈ s.notifiers then some (subsystemStateCallback s d value) else none
  | .restart d clients => if d ∈ s.irqs then some (subsystemNotifWqFunc s d clients) else none

/-- What a step does. The events write to the registers only. -/
inductive Moves (s : Driver) : Action → Driver → Prop where
  | probes (p : Platform) (unbound : s.bound = false) : Moves s (.probe p) (probeDevice p s)
  | removes : Moves s .remove (removeDevice s)
  | notifies {d : DescId} (value : UInt32) (registered : d ∈ s.notifiers)
      (regs : Nat → UInt32) : Moves s (.notify d value) { s with regs := regs }
  | restarts {d : DescId} (clients : UInt32 → UInt32) (requested : d ∈ s.irqs)
      (regs : Nat → UInt32) : Moves s (.restart d clients) { s with regs := regs }

theorem step_moves {s t : Driver} {a : Action} (hstep : step s a = some t) : Moves s a t := by
  cases a with
  | probe p =>
    simp only [step] at hstep
    split_ifs at hstep with bound
    obtain rfl := Option.some.inj hstep
    exact .probes p (eq_false_of_ne_true bound)
  | remove =>
    simp only [step] at hstep
    split_ifs at hstep
    obtain rfl := Option.some.inj hstep
    exact .removes
  | notify d value =>
    simp only [step] at hstep
    split_ifs at hstep with registered
    obtain rfl := Option.some.inj hstep
    exact .notifies value registered _
  | restart d clients =>
    simp only [step] at hstep
    split_ifs at hstep with requested
    obtain rfl := Option.some.inj hstep
    exact .restarts clients requested _

/-- Nothing fails for the child. -/
def Child.works (c : Child) : Bool :=
  c.kzalloc && c.subsysName.isSome && c.offset.isSome &&
    match c.type with
    | none => false
    | some type =>
      match subsystemType type with
      | .native => c.registerNotifier
      | .virtual => decide (0 ≤ c.stateIrq)

def Child.isNative (c : Child) : Bool := c.type == some "native"

/-- The descriptors of the native children before the first that fails, from `d` on. -/
def natives : List Child → DescId → List DescId
  | [], _ => []
  | c :: rest, d =>
    if c.works then (if c.isNative then [d] else []) ++ natives rest (d + 1) else []

theorem natives_eq_nil {cs : List Child} {d : DescId} :
    natives cs d = [] ↔ ∀ c ∈ cs.takeWhile Child.works, c.isNative = false := by
  induction cs generalizing d with
  | nil => simp [natives]
  | cons c rest ih =>
    cases works : c.works with
    | false => simp [natives, works]
    | true =>
      cases native : c.isNative <;> simp [natives, works, native, ih]

theorem natives_fresh {cs : List Child} {d x : DescId} (h : x ∈ natives cs d) : d ≤ x := by
  induction cs generalizing d with
  | nil => cases h
  | cons c rest ih =>
    unfold natives at h
    split_ifs at h with works native
    · rcases List.mem_append.mp h with h | h
      · exact Nat.le_of_eq (List.mem_singleton.mp h).symm
      · exact Nat.le_of_succ_le (ih h)
    · exact Nat.le_of_succ_le (ih h)
    · cases h

/-- Rounds of `get_resources` from `s` to `t` that set up the native descriptors `new`. -/
structure Adds (s : Driver) (new : List DescId) (t : Driver) : Prop where
  list : t.list = s.list ++ new
  notifiers : t.notifiers = s.notifiers ++ new
  freed : t.freed = s.freed
  bound : t.bound = s.bound
  next : s.nextDesc ≤ t.nextDesc
  fresh : ∀ d ∈ t.devm, d ∈ s.devm ∨ s.nextDesc ≤ d ∧ d < t.nextDesc
  kept : ∀ d ∈ s.devm, d ∈ t.devm
  owned : ∀ d ∈ new, d ∈ t.devm
  irqs : ∀ d ∈ t.irqs, d ∈ s.irqs ∨ d ∈ t.devm

theorem Adds.refl (s : Driver) : Adds s [] s where
  list := (List.append_nil _).symm
  notifiers := (List.append_nil _).symm
  freed := rfl
  bound := rfl
  next := Nat.le_refl _
  fresh := fun d hd => Or.inl hd
  kept := fun d hd => hd
  owned := fun d hd => by cases hd
  irqs := fun d hd => Or.inl hd

theorem Adds.trans {s t u : Driver} {new new' : List DescId} (h : Adds s new t)
    (h' : Adds t new' u) : Adds s (new ++ new') u where
  list := by rw [h'.list, h.list, List.append_assoc]
  notifiers := by rw [h'.notifiers, h.notifiers, List.append_assoc]
  freed := h'.freed.trans h.freed
  bound := h'.bound.trans h.bound
  next := Nat.le_trans h.next h'.next
  fresh := by
    intro d hd
    rcases h'.fresh d hd with hd | hd
    · rcases h.fresh d hd with hd | hd
      · exact Or.inl hd
      · exact Or.inr ⟨hd.1, Nat.lt_of_lt_of_le hd.2 h'.next⟩
    · exact Or.inr ⟨Nat.le_trans h.next hd.1, hd.2⟩
  kept := fun d hd => h'.kept d (h.kept d hd)
  owned := by
    intro d hd
    rcases List.mem_append.mp hd with hd | hd
    · exact h'.kept d (h.owned d hd)
    · exact h'.owned d hd
  irqs := by
    intro d hd
    rcases h'.irqs d hd with hd | hd
    · rcases h.irqs d hd with hd | hd
      · exact Or.inl hd
      · exact Or.inr (h'.kept d hd)
    · exact Or.inr hd

/-- The descriptor is allocated, filled in, and set up as its type wants it. -/
theorem adds_desc (s : Driver) (mem : DescId → SubsystemDescriptor) (native irq : Bool) :
    Adds s (if native then [s.nextDesc] else []) { s with
      mem := mem
      devm := s.nextDesc :: s.devm
      nextDesc := s.nextDesc + 1
      list := s.list ++ if native then [s.nextDesc] else []
      notifiers := s.notifiers ++ if native then [s.nextDesc] else []
      irqs := if irq then s.nextDesc :: s.irqs else s.irqs } where
  list := rfl
  notifiers := rfl
  freed := rfl
  bound := rfl
  next := Nat.le_succ _
  fresh := by
    intro d hd
    rcases List.mem_cons.mp hd with rfl | hd
    · exact Or.inr ⟨Nat.le_refl _, Nat.lt_succ_self _⟩
    · exact Or.inl hd
  kept := fun d hd => List.mem_cons_of_mem _ hd
  owned := by
    intro d hd
    cases native with
    | true => exact List.mem_cons.mpr (Or.inl (List.mem_singleton.mp hd))
    | false => cases hd
  irqs := by
    intro d hd
    cases irq with
    | true =>
      rcases List.mem_cons.mp hd with rfl | hd
      · exact Or.inr List.mem_cons_self
      · exact Or.inl hd
    | false => exact Or.inl hd

theorem getResource_adds (c : Child) (s : Driver) :
    (getResource c s).Holds
      (fun t => c.works = true ∧ Adds s (if c.isNative then [s.nextDesc] else []) t ∧
        t.nextDesc = s.nextDesc + 1)
      (fun err t => c.works = false ∧ err ≠ 0 ∧ Adds s [] t) := by
  have bare (mem : DescId → SubsystemDescriptor) : Adds s [] { s with
      mem := mem, devm := s.nextDesc :: s.devm, nextDesc := s.nextDesc + 1 } := by
    simpa using adds_desc s mem false false
  unfold getResource Child.works Child.isNative
  cases kzalloc : c.kzalloc with
  | false => exact ⟨rfl, by decide, .refl s⟩
  | true =>
    cases name : c.subsysName with
    | none => exact ⟨by simp, by decide, bare s.mem⟩
    | some n =>
      cases offset : c.offset with
      | none => exact ⟨by simp, by decide, bare s.mem⟩
      | some o =>
        cases type : c.type with
        | none => exact ⟨by simp, by decide, bare s.mem⟩
        | some ty =>
          by_cases native : ty = "native"
          · have kind : subsystemType ty = .native := if_pos native
            simp only [kind]
            cases register : c.registerNotifier with
            | false => exact ⟨by simp, by decide, bare _⟩
            | true =>
              have added := adds_desc s (Function.update s.mem s.nextDesc ⟨n, o, .native, 0⟩) true
                false
              exact ⟨by simp, by simpa [native] using added, rfl⟩
          · have kind : subsystemType ty = .virtual := if_neg native
            simp only [kind]
            by_cases irq : c.stateIrq < 0
            · simp only [if_pos irq]
              exact ⟨by simp [irq], by decide, bare _⟩
            · simp only [if_neg irq]
              have added := adds_desc s
                (Function.update s.mem s.nextDesc ⟨n, o, .virtual, c.stateIrq⟩) false
                (decide (c.requestIrq = 0))
              refine ⟨by simp [Int.not_lt.mp irq], ?_, rfl⟩
              simpa [native] using added

/-- The loop sets up the native children before the first one that fails. -/
theorem getChildren_adds (cs : List Child) (s : Driver) :
    (getChildren cs s).Holds
      (fun t => (∀ c ∈ cs, c.works = true) ∧ Adds s (natives cs s.nextDesc) t)
      (fun err t => (∃ c ∈ cs, c.works = false) ∧ err ≠ 0 ∧ Adds s (natives cs s.nextDesc) t) := by
  induction cs generalizing s with
  | nil => exact ⟨by simp, .refl s⟩
  | cons c rest ih =>
    have first := getResource_adds c s
    unfold getChildren
    cases h : getResource c s with
    | bail err t =>
      rw [h] at first
      obtain ⟨fails, nonzero, added⟩ := first
      refine ⟨⟨c, List.mem_cons_self, fails⟩, nonzero, ?_⟩
      simpa [natives, fails] using added
    | next t =>
      rw [h] at first
      obtain ⟨works, added, next⟩ := first
      refine holds_mono (ih t) ?_ ?_
      · rintro u ⟨all, more⟩
        rw [next] at more
        refine ⟨fun x hx => ?_, ?_⟩
        · rcases List.mem_cons.mp hx with rfl | hx
          · exact works
          · exact all x hx
        · rw [natives, if_pos works]
          exact added.trans more
      · rintro err u ⟨⟨x, hx, fails⟩, nonzero, more⟩
        rw [next] at more
        refine ⟨⟨x, List.mem_cons_of_mem _ hx, fails⟩, nonzero, ?_⟩
        rw [natives, if_pos works]
        exact added.trans more

/-- The probe gets as far as the children. -/
def Looks (p : Platform) : Prop := p.pdev = true ∧ p.workqueue = true ∧ p.ioremap = true

inductive ProbeEnds (p : Platform) (s : Driver) (r : Int × Driver) : Prop where
  | refused (early : ¬ Looks p) (err : r.1 ≠ 0) (adds : Adds s [] r.2)
  | failed (looks : Looks p) (child : ∃ c ∈ p.children, c.works = false) (err : r.1 ≠ 0)
      (adds : Adds s (natives p.children s.nextDesc) r.2)
  | bound (looks : Looks p) (all : ∀ c ∈ p.children, c.works = true) (err : r.1 = 0)
      (adds : Adds s (natives p.children s.nextDesc) r.2)

theorem Adds.wq {s t : Driver} {new : List DescId} {first last : Bool}
    (h : Adds { s with wq := first } new t) : Adds s new { t with wq := last } :=
  ⟨h.list, h.notifiers, h.freed, h.bound, h.next, h.fresh, h.kept, h.owned, h.irqs⟩

theorem probe_ends (p : Platform) (s : Driver) : ProbeEnds p s (subsysNotifVirtProbe p s) := by
  have inval : -EINVAL ≠ 0 := by decide
  have noMem : -ENOMEM ≠ 0 := by decide
  unfold subsysNotifVirtProbe
  split_ifs with pdev workqueue
  · exact .refused (fun looks => by simp [looks.1] at pdev) inval (.refl s)
  · exact .refused (fun looks => by simp [looks.2.1] at workqueue) noMem (.refl s)
  · unfold getResources
    by_cases ioremap : p.ioremap = false
    · rw [if_pos ioremap]
      exact .refused (fun looks => by simp [looks.2.2] at ioremap) noMem (Adds.refl _).wq
    · rw [if_neg ioremap]
      have looks : Looks p := ⟨eq_true_of_ne_false pdev, eq_true_of_ne_false workqueue,
        eq_true_of_ne_false ioremap⟩
      have loop := getChildren_adds p.children { s with wq := true }
      cases h : getChildren p.children { s with wq := true } with
      | bail err t =>
        rw [h] at loop
        exact .failed looks loop.1 loop.2.1 loop.2.2.wq
      | next t =>
        rw [h] at loop
        exact .bound looks loop.1 rfl loop.2.wq

/-- The probe leaves neither a notifier nor a descriptor on the list if it fails. -/
def RolledBack (s : Driver) : Action → Prop
  | .probe p => (subsysNotifVirtProbe p s).1 ≠ 0 → ∀ d, s.nextDesc ≤ d →
      d ∉ (subsysNotifVirtProbe p s).2.notifiers ∧ d ∉ (subsysNotifVirtProbe p s).2.list
  | _ => True

/-- No child before the first one that fails is native. -/
def NoneBefore (_ : Driver) : Action → Prop
  | .probe p => Looks p → (∃ c ∈ p.children, c.works = false) →
      ∀ c ∈ p.children.takeWhile Child.works, c.isNative = false
  | _ => True

instance (p : Platform) : Decidable (Looks p) := inferInstanceAs (Decidable (_ ∧ _ ∧ _))

instance (s : Driver) (a : Action) : Decidable (NoneBefore s a) :=
  match a with
  | .probe _ => inferInstanceAs (Decidable (_ → _ → _))
  | .remove => isTrue trivial
  | .notify _ _ => isTrue trivial
  | .restart _ _ => isTrue trivial

/-- Holds in every run. -/
structure Sound (s : Driver) : Prop where
  same : s.notifiers = s.list
  known : ∀ d ∈ s.list, d < s.nextDesc
  managed : ∀ d ∈ s.devm, d < s.nextDesc

theorem Sound.adds {s t : Driver} {new : List DescId} (h : Sound s) (added : Adds s new t) :
    Sound t := by
  have managed : ∀ d ∈ t.devm, d < t.nextDesc := by
    intro d hd
    rcases added.fresh d hd with old | new
    · exact Nat.lt_of_lt_of_le (h.managed d old) added.next
    · exact new.2
  refine ⟨?_, fun d hd => ?_, managed⟩
  · rw [added.notifiers, added.list, h.same]
  · rw [added.list] at hd
    rcases List.mem_append.mp hd with old | new
    · exact Nat.lt_of_lt_of_le (h.known d old) added.next
    · exact managed d (added.owned d new)

theorem releaseResources_eq {s : Driver} (same : s.notifiers = s.list) :
    releaseResources s = { s with list := [], notifiers := [] } := by
  suffices all : ∀ (ds : List DescId) (s : Driver), s.list = ds → s.notifiers = ds →
      ds.foldl (fun s d => { s with
        notifiers := s.notifiers.erase d, list := s.list.erase d }) s =
        { s with list := [], notifiers := [] } from all s.list s rfl same
  intro ds
  induction ds with
  | nil =>
    rintro s hlist hnotifiers
    cases s
    cases hlist
    cases hnotifiers
    rfl
  | cons d rest ih =>
    rintro s hlist hnotifiers
    rw [List.foldl_cons, ih _ (by simp [hlist]) (by simp [hnotifiers])]

theorem removeDevice_eq {s : Driver} (same : s.notifiers = s.list) : removeDevice s = { s with
    list := [], notifiers := [], wq := false, bound := false
    devm := [], irqs := [], freed := s.devm ++ s.freed } := by
  rw [removeDevice, releaseResources_eq (s := { s with wq := false }) same]
  rfl

theorem init_sound : Sound Driver.init :=
  ⟨rfl, (fun d hd => by cases hd), fun d hd => by cases hd⟩

theorem probeDevice_sound {p : Platform} {s : Driver} (h : Sound s) : Sound (probeDevice p s) := by
  have ends : Sound (subsysNotifVirtProbe p s).2 := by
    cases probe_ends p s with
    | refused early err adds => exact h.adds adds
    | failed looks child err adds => exact h.adds adds
    | bound looks all err adds => exact h.adds adds
  unfold probeDevice
  simp only
  split_ifs
  · exact ⟨ends.same, ends.known, fun d hd => by cases hd⟩
  · exact ⟨ends.same, ends.known, ends.managed⟩

theorem step_sound {s t : Driver} {a : Action} (h : Sound s) (hstep : step s a = some t) :
    Sound t := by
  cases step_moves hstep with
  | probes p unbound => exact probeDevice_sound h
  | removes =>
    rw [removeDevice_eq h.same]
    exact ⟨rfl, (fun d hd => by cases hd), fun d hd => by cases hd⟩
  | notifies value registered regs => exact ⟨h.same, h.known, h.managed⟩
  | restarts clients requested regs => exact ⟨h.same, h.known, h.managed⟩

/-- Nothing new is on the list or in the chains exactly if no native child was set up. -/
theorem fresh_iff {s t : Driver} {new : List DescId} (h : Sound s) (added : Adds s new t)
    (fresh : ∀ d ∈ new, s.nextDesc ≤ d) :
    (∀ d, s.nextDesc ≤ d → d ∉ t.notifiers ∧ d ∉ t.list) ↔ new = [] := by
  constructor
  · intro gone
    refine List.eq_nil_iff_forall_not_mem.mpr fun d hd => ?_
    refine (gone d (fresh d hd)).2 ?_
    rw [added.list]
    exact List.mem_append_right _ hd
  · rintro rfl d hd
    rw [added.notifiers, added.list, h.same, List.append_nil, and_self]
    exact fun old => absurd (h.known d old) (Nat.not_lt.mpr hd)

theorem rolledBack_iff {s : Driver} (h : Sound s) (a : Action) :
    RolledBack s a ↔ NoneBefore s a := by
  cases a with
  | probe p =>
    unfold RolledBack NoneBefore
    cases probe_ends p s with
    | refused early err adds =>
      refine iff_of_true (fun _ => ?_) fun looks => absurd looks early
      exact (fresh_iff h adds fun d hd => by cases hd).mpr rfl
    | failed looks child err adds =>
      have back := fresh_iff h adds fun d hd => natives_fresh hd
      rw [natives_eq_nil] at back
      constructor
      · exact fun gone _ _ => back.mp (gone err)
      · exact fun none _ => back.mpr (none looks child)
    | bound looks all err adds =>
      refine iff_of_true (fun failed => absurd err failed) ?_
      rintro - ⟨c, hc, fails⟩
      rw [all c hc] at fails
      cases fails
  | remove => exact Iff.rfl
  | notify d value => exact Iff.rfl
  | restart d clients => exact Iff.rfl

/-- In a run of the driver every failed probe is rolled back exactly if no probe set up a
native child before a child that failed. -/
theorem probes_rolled_back_iff (as : List Action) (s : Driver)
    (run : exec step Driver.init as = some s) :
    Along step RolledBack Driver.init as ↔ Along step NoneBefore Driver.init as :=
  along_iff Sound (fun _ a _ h _ => rolledBack_iff h a) (fun _ _ _ h _ hstep => step_sound h hstep)
    init_sound run

/-- Children that need nothing more than what they name. -/
def nativeChild (name : String) : Child := ⟨true, some name, some 0x10, some "native", true, 0, 0⟩

def virtualChild (name : String) : Child :=
  ⟨true, some name, some 0x20, some "virtual", false, 40, 0⟩

def namelessChild : Child := ⟨true, none, some 0, some "native", true, 0, 0⟩

/-- A probe that fails after a virtual child, then one that does not, a restart and the
removal. -/
def servedRestart : List Action :=
  [.probe ⟨true, true, true, [virtualChild "modem", namelessChild]⟩,
    .probe ⟨true, true, true, [nativeChild "adsp", virtualChild "modem"]⟩, .notify 2 3, .remove]

theorem servedRestart_rolled_back : ∃ s, exec step Driver.init servedRestart = some s ∧
    s.freed = [3, 2, 1, 0] ∧ s.regs 0x18 = 3 ∧ Along step RolledBack Driver.init servedRestart := by
  refine ⟨_, rfl, rfl, rfl, (probes_rolled_back_iff servedRestart _ rfl).mpr ?_⟩
  decide +kernel

/-- The notifier of the first child stays registered, and its descriptor on the list. -/
theorem native_left_behind :
    let r := subsysNotifVirtProbe ⟨true, true, true, [nativeChild "adsp", namelessChild]⟩ .init
    r.1 = -EINVAL ∧ r.2.notifiers = [0] ∧ r.2.list = [0] := by
  decide

/-- Descriptors that a step may read or write. Adding to the tail of the list writes to the
last descriptor on it. -/
def touched (s : Driver) : Action → List DescId
  | .probe p => if natives p.children s.nextDesc = [] then [] else s.list.getLast?.toList
  | .remove => s.list
  | .notify d _ => [d]
  | .restart d _ => [d]

/-- What the driver can reach belongs to the device it is bound to, and is not freed. -/
structure Live (s : Driver) : Prop where
  sound : Sound s
  owned : ∀ d ∈ s.list ++ s.irqs, d ∈ s.devm
  apart : ∀ d ∈ s.devm, d ∉ s.freed
  past : ∀ d ∈ s.freed, d < s.nextDesc

theorem Live.adds {s t : Driver} {new : List DescId} (h : Live s) (added : Adds s new t) :
    Live t where
  sound := h.sound.adds added
  owned := by
    intro d hd
    rw [added.list] at hd
    rcases List.mem_append.mp hd with listed | irq
    · rcases List.mem_append.mp listed with old | new
      · exact added.kept d (h.owned d (List.mem_append_left _ old))
      · exact added.owned d new
    · rcases added.irqs d irq with old | new
      · exact added.kept d (h.owned d (List.mem_append_right _ old))
      · exact new
  apart := by
    intro d hd
    rw [added.freed]
    rcases added.fresh d hd with old | new
    · exact h.apart d old
    · exact fun freed => absurd (h.past d freed) (Nat.not_lt.mpr new.1)
  past := by
    intro d hd
    rw [added.freed] at hd
    exact Nat.lt_of_lt_of_le (h.past d hd) added.next

/-- The driver core can free the descriptors of a driver that has none on its list. -/
theorem Live.release {s : Driver} (h : Live s) (empty : s.list = []) :
    Live (devresRelease s) where
  sound := ⟨h.sound.same, h.sound.known, fun d hd => by cases hd⟩
  owned := by
    intro d hd
    rw [devresRelease, empty] at hd
    cases hd
  apart := fun d hd => by cases hd
  past := by
    intro d hd
    rcases List.mem_append.mp hd with managed | freed
    · exact h.sound.managed d managed
    · exact h.past d freed

/-- A driver that is not bound has no descriptors. -/
def Idle (s : Driver) : Prop := s.bound = false → s.devm = []

theorem Live.empty {s : Driver} (h : Live s) (none : s.devm = []) : s.list = [] := by
  refine List.eq_nil_iff_forall_not_mem.mpr fun d hd => ?_
  have owned := h.owned d (List.mem_append_left _ hd)
  rw [none] at owned
  cases owned

theorem probeDevice_live {p : Platform} {s : Driver} (h : Live s) (none : s.devm = [])
    (ok : NoneBefore s (.probe p)) : Live (probeDevice p s) ∧ Idle (probeDevice p s) := by
  have empty := h.empty none
  unfold probeDevice
  cases probe_ends p s with
  | refused early err adds =>
    simp only [if_pos err]
    exact ⟨(h.adds adds).release (by rw [adds.list, empty, List.append_nil]), fun _ => rfl⟩
  | failed looks child err adds =>
    simp only [if_pos err]
    rw [natives_eq_nil.mpr (ok looks child)] at adds
    exact ⟨(h.adds adds).release (by rw [adds.list, empty, List.append_nil]), fun _ => rfl⟩
  | bound looks all err adds =>
    have added := h.adds adds
    simp only [err, ne_eq, not_true, if_false]
    exact ⟨⟨⟨added.sound.same, added.sound.known, added.sound.managed⟩, added.owned, added.apart,
      added.past⟩, fun unbound => by cases unbound⟩

theorem step_live {s t : Driver} {a : Action} (h : Live s ∧ Idle s) (ok : NoneBefore s a)
    (hstep : step s a = some t) : Live t ∧ Idle t := by
  obtain ⟨live, idle⟩ := h
  have sound : Sound t := step_sound live.sound hstep
  cases step_moves hstep with
  | probes p unbound => exact probeDevice_live live (idle unbound) ok
  | removes =>
    rw [removeDevice_eq live.sound.same] at sound ⊢
    refine ⟨⟨sound, ?_, ?_, ?_⟩, fun _ => rfl⟩
    · exact fun d hd => by cases hd
    · exact fun d hd => by cases hd
    · intro d hd
      rcases List.mem_append.mp hd with managed | freed
      · exact live.sound.managed d managed
      · exact live.past d freed
  | notifies value registered regs => exact ⟨⟨sound, live.owned, live.apart, live.past⟩, idle⟩
  | restarts clients requested regs => exact ⟨⟨sound, live.owned, live.apart, live.past⟩, idle⟩

theorem init_live : Live Driver.init ∧ Idle Driver.init :=
  ⟨⟨init_sound, (fun d hd => by cases hd), (fun d hd => by cases hd), fun d hd => by cases hd⟩,
    fun _ => rfl⟩

theorem touched_reachable {s t : Driver} {a : Action} (h : Sound s) (hstep : step s a = some t)
    {d : DescId} (hd : d ∈ touched s a) : d ∈ s.list ++ s.irqs := by
  cases step_moves hstep with
  | probes p unbound =>
    simp only [touched] at hd
    split_ifs at hd
    · cases hd
    · exact List.mem_append_left _ (List.mem_of_getLast? (Option.mem_toList.mp hd))
  | removes => exact List.mem_append_left _ hd
  | notifies value registered regs =>
    obtain rfl := List.mem_singleton.mp hd
    exact List.mem_append_left _ (h.same ▸ registered)
  | restarts clients requested regs =>
    obtain rfl := List.mem_singleton.mp hd
    exact List.mem_append_right _ requested

/-- If no probe fails after a native child, the driver never touches a freed descriptor. -/
theorem run_touches_live (as : List Action) (s t : Driver) (a : Action) (d : DescId)
    (run : exec step Driver.init as = some s) (along : Along step NoneBefore Driver.init as)
    (hstep : step s a = some t) (hd : d ∈ touched s a) : d ∉ s.freed := by
  obtain ⟨live, -⟩ := exec_invariant_along NoneBefore (fun _ _ _ h ok hs => step_live h ok hs)
    init_live along run
  exact live.apart d (live.owned d (touched_reachable live.sound hstep hd))

/-- The notification after a probe that failed and one that did not. -/
theorem servedRestart_live : ∃ s t, exec step Driver.init (servedRestart.take 2) = some s ∧
    step s (.notify 2 3) = some t ∧ s.freed = [1, 0] ∧ 2 ∉ s.freed :=
  ⟨_, _, rfl, rfl, rfl, run_touches_live (servedRestart.take 2) _ _ (.notify 2 3) 2 rfl
    (by decide +kernel) rfl List.mem_cons_self⟩

end SubsystemNotif
