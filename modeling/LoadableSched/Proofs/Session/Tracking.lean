import LoadableSched.Proofs.Class.Standing
import LoadableSched.Session.Run

/-!
What it means that holdings and the tables of the kernel are in step, and why that survives the gain of
one place in the kernel and the loss of one. All tables are read through one look-up, so that an
operation of the kernel is described by the place that it changes.
-/

namespace LoadableSched

/-- A place in the kernel that one holding takes up. -/
inductive Resource where
  | link (link : LinkId)
  | xdp (ifindex : IfIndex)
  | filter (side : Side)
  | descriptor (fd : Descriptor)
deriving DecidableEq, Repr

inductive Occupant where
  | link (link : Link)
  | program (program : ProgramId)
  | descriptor (isDirectory : Bool)
deriving DecidableEq, Repr

namespace Kernel

def occupant? (k : Kernel) : Resource → Option Occupant
  | .link id => (k.links.get? id).map .link
  | .xdp ifindex => (k.xdp.get? ifindex).map .program
  | .filter side => (k.filters.get? side).map .program
  | .descriptor fd => (k.descriptors.get? fd).map .descriptor

def refuses (k : Kernel) : Resource → Bool
  | .link id => k.faults.linkDestroy.contains id
  | .xdp ifindex => k.faults.xdpDetach.contains ifindex
  | .filter _ => false
  | .descriptor _ => false

end Kernel

namespace Holding

def resource? : Holding → Option Resource
  | link id _ => some (.link id)
  | structOps id _ => some (.link id)
  | xdp ifindex _ => some (.xdp ifindex)
  | filter _ side _ => some (.filter side)
  | descriptor fd => some (.descriptor fd)
  | map .. => none

def Fits : Holding → Occupant → Prop
  | link .., .link (.program _) => True
  | link .., .link (.cgroup _) => True
  | structOps .., .link (.structOps _) => True
  | xdp .., .program _ => True
  | filter program .., .program p => p = program
  | descriptor _, .descriptor _ => True
  | _, _ => False

end Holding

def Kernel.Numbered (k : Kernel) : Prop := ∀ id v, k.occupant? (.link id) = some v → id.number ≤ k.lastId

structure Holdings.Placed (suits : Holding → Occupant → Prop) (s : Holdings) (k : Kernel) : Prop where
  nodup : s.items.Nodup
  unique : ∀ h ∈ s.items, ∀ h' ∈ s.items, ∀ a, h.resource? = some a → h'.resource? = some a → h = h'
  there : ∀ h ∈ s.items, ∀ a, h.resource? = some a → ∃ v, k.occupant? a = some v ∧ suits h v

variable {s : Holdings} {k k' k'' : Kernel} {h : Holding} {a : Resource} {v : Occupant}
  {suits : Holding → Occupant → Prop}

/-- No holding is there twice, what is in the kernel and what is held are the same, one to one, and a
policy is installed exactly when the binding of a scheduler is held. -/
structure Holdings.InStep (s : Holdings) (k : Kernel) : Prop where
  nodup : s.items.Nodup
  unique : ∀ h ∈ s.items, ∀ h' ∈ s.items, ∀ a, h.resource? = some a → h'.resource? = some a → h = h'
  held : ∀ a v, k.occupant? a = some v → ∃ h ∈ s.items, h.resource? = some a
  there : ∀ h ∈ s.items, ∀ a, h.resource? = some a → ∃ v, k.occupant? a = some v ∧ h.Fits v
  bound : k.sched.policy.isSome ↔ ∃ h ∈ s.items, h.stage = .structOps

/-- In step, and such that the kernel's next number and the next binding cannot break that. -/
structure Holdings.Tracks (s : Holdings) (k : Kernel) : Prop extends s.InStep k where
  numbered : k.Numbered
  single : ∀ h ∈ s.items, ∀ h' ∈ s.items, h.stage = .structOps → h'.stage = .structOps → h = h'
  steady : k.sched.Steady

namespace Kernel

structure Alike (k k' : Kernel) : Prop where
  occupant : ∀ a, k'.occupant? a = k.occupant? a
  lastId : k.lastId ≤ k'.lastId
  policy : k'.sched.policy.isSome = k.sched.policy.isSome
  steady : k.sched.Steady → k'.sched.Steady

/-- From `k` to `k'` a place that was free is taken up, if any is. -/
structure Gains (k k' : Kernel) (a : Option Resource) (v : Occupant) : Prop where
  free : ∀ b, a = some b → k.occupant? b = none
  occupant : ∀ b, k'.occupant? b = if a = some b then some v else k.occupant? b
  lastId : k.lastId ≤ k'.lastId
  number : ∀ id, a = some (.link id) → k.lastId < id.number ∧ id.number ≤ k'.lastId

structure Loses (k k' : Kernel) (a : Option Resource) : Prop where
  occupant : ∀ b, k'.occupant? b = if a = some b then none else k.occupant? b
  lastId : k'.lastId = k.lastId

structure Spares (k k' : Kernel) : Prop where
  objects : ∀ id, k'.objects.contains id = k.objects.contains id
  refuses : k'.refuses = k.refuses

structure Sustains (k k' : Kernel) : Prop where
  objects : k'.objects = k.objects
  maps : k'.maps = k.maps
  closed : ∀ id, .map id ∈ k'.releases ↔ .map id ∈ k.releases

theorem Alike.refl (k : Kernel) : k.Alike k := ⟨fun _ => rfl, Nat.le_refl _, rfl, id⟩

theorem Alike.of_tables (links : k'.links = k.links) (xdp : k'.xdp = k.xdp)
    (filters : k'.filters = k.filters) (descriptors : k'.descriptors = k.descriptors)
    (lastId : k.lastId ≤ k'.lastId) (sched : k'.sched = k.sched) : k.Alike k' where
  occupant a := by cases a <;> simp only [occupant?, links, xdp, filters, descriptors]
  lastId := lastId
  policy := by rw [sched]
  steady before := sched ▸ before

theorem Alike.trans (first : k.Alike k') (later : k'.Alike k'') : k.Alike k'' where
  occupant a := (later.occupant a).trans (first.occupant a)
  lastId := Nat.le_trans first.lastId later.lastId
  policy := later.policy.trans first.policy
  steady before := later.steady (first.steady before)

theorem Gains.kept {a : Option Resource} (gains : k.Gains k' a v) {b : Resource} {w : Occupant}
    (present : k.occupant? b = some w) : k'.occupant? b = some w := by
  have different : a ≠ some b := by
    intro same
    cases present.symm.trans (gains.free b same)
  rw [gains.occupant, if_neg different]
  exact present

theorem gains_nothing (k : Kernel) (v : Occupant) : k.Gains k none v := by
  refine ⟨?_, fun _ => rfl, Nat.le_refl _, ?_⟩
  · rintro b ⟨⟩
  · rintro id ⟨⟩

theorem Spares.refl (k : Kernel) : k.Spares k := ⟨fun _ => rfl, rfl⟩

theorem Sustains.refl (k : Kernel) : k.Sustains k := ⟨rfl, rfl, fun _ => .rfl⟩

theorem Sustains.trans (first : k.Sustains k') (later : k'.Sustains k'') : k.Sustains k'' where
  objects := later.objects.trans first.objects
  maps := later.maps.trans first.maps
  closed id := (later.closed id).trans (first.closed id)

theorem setMemory_alike (k : Kernel) (memory : Memory) : k.Alike (k.setMemory memory) where
  occupant a := by cases a <;> rfl
  lastId := Nat.le_refl _
  policy := rfl
  steady before := before.setMemory memory

theorem Numbered.alike (numbered : k.Numbered) (occupant : ∀ a, k'.occupant? a = k.occupant? a)
    (lastId : k.lastId ≤ k'.lastId) : k'.Numbered := by
  intro id v present
  rw [occupant] at present
  exact Nat.le_trans (numbered id v present) lastId

theorem Numbered.gain {a : Option Resource} (numbered : k.Numbered) (gains : k.Gains k' a v) :
    k'.Numbered := by
  intro id w present
  rw [gains.occupant] at present
  split at present
  · rename_i is
    exact (gains.number id is).2
  · exact Nat.le_trans (numbered id w present) gains.lastId

theorem Numbered.lose {a : Option Resource} (numbered : k.Numbered) (loses : k.Loses k' a) :
    k'.Numbered := by
  intro id w present
  rw [loses.occupant] at present
  split at present
  · cases present
  · rw [loses.lastId]
    exact numbered id w present

end Kernel

namespace Holdings

theorem mem_register {h h' : Holding} : h' ∈ (s.register h).items ↔ h' ∈ s.items ∨ h' = h := by
  simp [register]

theorem contains_iff_mem : s.contains h = true ↔ h ∈ s.items := List.contains_iff_mem

theorem nodup_reverse (nodup : s.items.Nodup) : s.items.reverse.Nodup :=
  s.items.reverse_perm.nodup_iff.mpr nodup

theorem nodup_eraseLast (nodup : s.items.Nodup) (h : Holding) : (s.eraseLast h).items.Nodup :=
  ((s.items.reverse.erase h).reverse_perm).nodup_iff.mpr ((nodup_reverse nodup).erase h)

theorem mem_of_mem_eraseLast {h h' : Holding} (member : h' ∈ (s.eraseLast h).items) : h' ∈ s.items :=
  List.mem_reverse.mp (List.mem_of_mem_erase (List.mem_reverse.mp member))

theorem mem_eraseLast_of_ne {h h' : Holding} (other : h' ≠ h) (member : h' ∈ s.items) :
    h' ∈ (s.eraseLast h).items :=
  List.mem_reverse.mpr ((List.mem_erase_of_ne other).mpr (List.mem_reverse.mpr member))

theorem mem_eraseLast (nodup : s.items.Nodup) {h h' : Holding} :
    h' ∈ (s.eraseLast h).items ↔ h' ≠ h ∧ h' ∈ s.items := by
  rw [eraseLast, List.mem_reverse, (nodup_reverse nodup).mem_erase_iff, List.mem_reverse]

namespace Placed

theorem empty : Holdings.empty.Placed suits k where
  nodup := .nil
  unique h member := by cases member
  there h member := by cases member

theorem alike (placed : s.Placed suits k) (alike : ∀ a, k'.occupant? a = k.occupant? a) :
    s.Placed suits k' where
  nodup := placed.nodup
  unique := placed.unique
  there h member a is := by
    rw [alike a]
    exact placed.there h member a is

section

variable (placed : s.Placed suits k)

include placed

theorem occupied (member : h ∈ s.items) (is : h.resource? = some a) : k.occupant? a ≠ none := by
  obtain ⟨v, present, _⟩ := placed.there h member a is
  rw [present]
  exact Option.some_ne_none v

theorem fresh (free : ∀ b, h.resource? = some b → k.occupant? b = none)
    (new : h.resource? = none → h ∉ s.items) : h ∉ s.items := by
  intro member
  cases is : h.resource? with
  | none => exact new is member
  | some a => exact placed.occupied member is (free a is)

theorem hold (gains : k.Gains k' h.resource? v) (fits : h.resource?.isSome → suits h v)
    (new : h.resource? = none → h ∉ s.items) : (s.register h).Placed suits k' where
  nodup := by
    have absent := placed.fresh gains.free new
    simp only [register, List.nodup_append]
    refine ⟨placed.nodup, by simp, ?_⟩
    rintro old member one same rfl
    exact absent (List.mem_singleton.mp same ▸ member)
  unique := by
    have other : ∀ old ∈ s.items, ∀ a, old.resource? = some a → h.resource? = some a → False :=
      fun old member a is is' => placed.occupied member is (gains.free a is')
    intro h₁ member₁ h₂ member₂ a is₁ is₂
    rcases mem_register.mp member₁ with old₁ | rfl
    · rcases mem_register.mp member₂ with old₂ | rfl
      · exact placed.unique h₁ old₁ h₂ old₂ a is₁ is₂
      · exact (other h₁ old₁ a is₁ is₂).elim
    · rcases mem_register.mp member₂ with old₂ | rfl
      · exact (other h₂ old₂ a is₂ is₁).elim
      · rfl
  there old member b is := by
    rw [gains.occupant]
    rcases mem_register.mp member with before | rfl
    · have other : h.resource? ≠ some b := fun same => placed.occupied before is (gains.free b same)
      rw [if_neg other]
      exact placed.there old before b is
    · rw [if_pos is]
      exact ⟨v, rfl, fits (by rw [is]; rfl)⟩

theorem note {id : MapId} {name : String} (new : .map id name ∉ s.items) :
    (s.register (.map id name)).Placed suits k := by
  refine placed.hold (k.gains_nothing (.descriptor false)) ?_ fun _ => new
  rintro ⟨⟩

theorem drop (member : h ∈ s.items) (loses : k.Loses k' h.resource?) :
    (s.eraseLast h).Placed suits k' where
  nodup := nodup_eraseLast placed.nodup h
  unique := by
    intro h₁ member₁ h₂ member₂ a is₁ is₂
    exact placed.unique h₁ ((mem_eraseLast placed.nodup).mp member₁).2 h₂
      ((mem_eraseLast placed.nodup).mp member₂).2 a is₁ is₂
  there old still b is := by
    obtain ⟨different, before⟩ := (mem_eraseLast placed.nodup).mp still
    have other : h.resource? ≠ some b := fun same =>
      different (placed.unique old before h member b is same)
    rw [loses.occupant, if_neg other]
    exact placed.there old before b is

end

end Placed

theorem InStep.placed (inStep : s.InStep k) : s.Placed Holding.Fits k :=
  ⟨inStep.nodup, inStep.unique, inStep.there⟩

namespace Tracks

theorem alike (tracks : s.Tracks k) (alike : k.Alike k') : s.Tracks k' where
  nodup := tracks.nodup
  unique := tracks.unique
  held a v present := tracks.held a v ((alike.occupant a).symm.trans present)
  there := (tracks.placed.alike alike.occupant).there
  bound := by
    rw [alike.policy]
    exact tracks.bound
  numbered := tracks.numbered.alike alike.occupant alike.lastId
  single := tracks.single
  steady := alike.steady tracks.steady

section

variable (tracks : s.Tracks k)

include tracks

theorem hold (gains : k.Gains k' h.resource? v) (fits : h.resource?.isSome → h.Fits v)
    (new : h.resource? = none → h ∉ s.items)
    (bound : k'.sched.policy.isSome ↔ k.sched.policy.isSome ∨ h.stage = .structOps)
    (alone : h.stage = .structOps → k.sched.policy = none) (steady : k'.sched.Steady) :
    (s.register h).Tracks k' where
  nodup := (tracks.placed.hold gains fits new).nodup
  unique := (tracks.placed.hold gains fits new).unique
  held b w present := by
    rw [gains.occupant] at present
    split at present
    · rename_i is
      exact ⟨h, mem_register.mpr (.inr rfl), is⟩
    · obtain ⟨old, member, is⟩ := tracks.held b w present
      exact ⟨old, mem_register.mpr (.inl member), is⟩
  there := (tracks.placed.hold gains fits new).there
  bound := by
    rw [bound, tracks.bound]
    constructor
    · rintro (⟨old, member, stage⟩ | stage)
      · exact ⟨old, mem_register.mpr (.inl member), stage⟩
      · exact ⟨h, mem_register.mpr (.inr rfl), stage⟩
    · rintro ⟨old, member, stage⟩
      rcases mem_register.mp member with before | rfl
      · exact .inl ⟨old, before, stage⟩
      · exact .inr stage
  numbered := tracks.numbered.gain gains
  single := by
    have none_before : h.stage = .structOps → ∀ old ∈ s.items, old.stage ≠ .structOps := by
      intro stage old member stage'
      have active := tracks.bound.mpr ⟨old, member, stage'⟩
      rw [alone stage] at active
      cases active
    intro h₁ member₁ h₂ member₂ stage₁ stage₂
    rcases mem_register.mp member₁ with old₁ | rfl
    · rcases mem_register.mp member₂ with old₂ | rfl
      · exact tracks.single h₁ old₁ h₂ old₂ stage₁ stage₂
      · exact absurd stage₁ (none_before stage₂ h₁ old₁)
    · rcases mem_register.mp member₂ with old₂ | rfl
      · exact absurd stage₂ (none_before stage₁ h₂ old₂)
      · rfl
  steady := steady

theorem note {id : MapId} {name : String} (new : .map id name ∉ s.items) :
    (s.register (.map id name)).Tracks k := by
  refine tracks.hold (k.gains_nothing (.descriptor false)) ?_ (fun _ => new) (by simp [Holding.stage]) ?_
    tracks.steady
  · rintro ⟨⟩
  · rintro ⟨⟩

theorem drop (member : h ∈ s.items) (loses : k.Loses k' h.resource?)
    (bound : k'.sched.policy.isSome ↔ k.sched.policy.isSome ∧ h.stage ≠ .structOps)
    (steady : k'.sched.Steady) : (s.eraseLast h).Tracks k' where
  nodup := (tracks.placed.drop member loses).nodup
  unique := (tracks.placed.drop member loses).unique
  held b w present := by
    rw [loses.occupant] at present
    split at present
    · cases present
    · rename_i other
      obtain ⟨old, before, is⟩ := tracks.held b w present
      refine ⟨old, (mem_eraseLast tracks.nodup).mpr ⟨?_, before⟩, is⟩
      rintro rfl
      exact other is
  there := (tracks.placed.drop member loses).there
  bound := by
    rw [bound, tracks.bound]
    constructor
    · rintro ⟨⟨old, before, stage⟩, other⟩
      refine ⟨old, (mem_eraseLast tracks.nodup).mpr ⟨?_, before⟩, stage⟩
      rintro rfl
      exact other stage
    · rintro ⟨old, still, stage⟩
      obtain ⟨different, before⟩ := (mem_eraseLast tracks.nodup).mp still
      exact ⟨⟨old, before, stage⟩, fun same =>
        different (tracks.single old before h member stage same)⟩
  numbered := tracks.numbered.lose loses
  single := by
    intro h₁ member₁ h₂ member₂
    exact tracks.single h₁ ((mem_eraseLast tracks.nodup).mp member₁).2 h₂
      ((mem_eraseLast tracks.nodup).mp member₂).2
  steady := steady

end

end Tracks

end Holdings

end LoadableSched
