import LoadableSched.Proofs.Session.Releasing
import LoadableSched.Proofs.Session.Taking
import Mathlib.Logic.Relation

/-!
Attaching as a sequence of acts. Whichever protocol is followed and wherever it fails, no more happens than
that places are taken up and held, and that what was taken up is given back. So the holdings stay in step
with the kernel.
-/

namespace LoadableSched

variable {own : ProgramId → Prop} {may : IfIndex → Prop} {s s' : Holdings} {k k' : Kernel}

namespace Extension

def OwnsProgram (e : Extension) (k : Kernel) (p : ProgramId) : Prop :=
  ∃ id o, e.object = some id ∧ k.objects.get? id = some o ∧ p ∈ o.programs.values

theorem OwnsProgram.congr {e : Extension} (same : k'.objects = k.objects) (p : ProgramId) :
    e.OwnsProgram k' p ↔ e.OwnsProgram k p := by
  simp only [OwnsProgram, same]

theorem findProgram_made {e : Extension} {name : String} {p : ProgramHandle}
    (found : e.findProgram k name = .ok p) :
    ∃ id o, e.object = some id ∧ k.objects.get? id = some o ∧ o.programs.get? name = some p.id ∧
      k.programs.get? p.id = some ⟨p.name, p.sectionName⟩ := by
  simp only [findProgram, liveObject] at found
  cases object : e.object with
  | none => simp [object, Except.bind, bind] at found
  | some id =>
    simp only [object, Except.bind, bind] at found
    split at found
    · cases found
    · rename_i info looked
      cases found
      simp only [Kernel.findProgram?, Option.bind_eq_bind, Option.bind_eq_some_iff] at looked
      obtain ⟨o, there, program, named, q, loaded, same⟩ := looked
      cases Option.some.inj same
      exact ⟨id, o, rfl, there, named, loaded⟩

theorem findProgram_owns {e : Extension} {name : String} {p : ProgramHandle}
    (found : e.findProgram k name = .ok p) : e.OwnsProgram k p.id := by
  obtain ⟨id, o, object, there, named, _⟩ := findProgram_made found
  exact ⟨id, o, object, there, List.mem_map.mpr ⟨_, Table.mem_entries_of_get? named, rfl⟩⟩

end Extension

def Occupant.Runs (own : ProgramId → Prop) : Occupant → Prop
  | link (.program p) => own p
  | link (.cgroup p) => own p
  | link (.structOps _) => True
  | program p => own p
  | descriptor _ => True

theorem Occupant.Runs.mono {own' : ProgramId → Prop} {v : Occupant} (runs : v.Runs own)
    (wider : ∀ p, own p → own' p) : v.Runs own' := by
  cases v with
  | link link =>
    cases link with
    | program p | cgroup p => exact wider p runs
    | structOps map => trivial
  | program p => exact wider p runs
  | descriptor => trivial

/-- One act on behalf of a session that attaches programs of its own, and removes a discipline only from
an interface on which it holds nothing and where it may. -/
inductive Act (own : ProgramId → Prop) (may : IfIndex → Prop) :
    Holdings × Kernel → Holdings × Kernel → Prop where
  | link {s : Holdings} {k k' : Kernel} {p : ProgramHandle} {link : LinkId} (owned : own p.id)
      (made : k.attachProgram p.id = .ok (link, k')) :
      Act own may (s, k) (s.register (.link link p.name), k')
  | openCgroup {s : Holdings} {k k' : Kernel} {place : Place} {fd : Descriptor}
      (made : k.openDirectory place = .ok (fd, k')) :
      Act own may (s, k) (s.register (.descriptor fd), k')
  | linkCgroup {s : Holdings} {k k' : Kernel} {p : ProgramHandle} {fd : Descriptor} {link : LinkId}
      (owned : own p.id) (made : k.attachCgroup p.id fd = (.ok link, k')) :
      Act own may (s, k) (s.register (.link link p.name), k')
  | refuseCgroup {s : Holdings} {k k' : Kernel} {p : ProgramId} {fd : Descriptor} {e : Errno}
      (refused : k.attachCgroup p fd = (.error e, k')) : Act own may (s, k) (s, k')
  | giveBack {s s' : Holdings} {k k' : Kernel} {fd : Descriptor}
      (made : s.detach k (.descriptor fd) = .ok (s', k')) : Act own may (s, k) (s', k')
  | xdp {s : Holdings} {k k' : Kernel} {p : ProgramId} {ifindex : IfIndex} (owned : own p)
      (made : k.attachXdp ifindex p Kernel.ifNoneExists = .ok k') :
      Act own may (s, k) (s.register (.xdp ifindex Kernel.ifNoneExists), k')
  | clear {s : Holdings} {k k' : Kernel} {ifindex : IfIndex}
      (unheld : Attach.holdsFilterOn s ifindex = false) (allowed : may ifindex)
      (made : k.destroyQdisc ifindex = .ok k') : Act own may (s, k) (s, k')
  | discipline {s : Holdings} {k k' : Kernel} {ifindex : IfIndex}
      (made : k.createQdisc ifindex = .ok k') : Act own may (s, k) (s, k')
  | filter {s : Holdings} {k k' : Kernel} {p : ProgramId} {side : Side} (owned : own p)
      (made : k.attachFilter side p = .ok k') :
      Act own may (s, k) (s.register (.filter p side Attach.filterPriority), k')

abbrev Acts (own : ProgramId → Prop) (may : IfIndex → Prop) :
    Holdings × Kernel → Holdings × Kernel → Prop := Relation.ReflTransGen (Act own may)

namespace Act

theorem sustains {x y : Holdings × Kernel} (act : Act own may x y) :
    x.2.Sustains y.2 ∧ y.2.sched = x.2.sched := by
  cases act with
  | link owned made =>
    cases Kernel.attachProgram_made made
    exact ⟨⟨rfl, rfl, fun _ => .rfl⟩, rfl⟩
  | openCgroup made =>
    cases Kernel.openDirectory_made made
    exact ⟨⟨rfl, rfl, fun _ => .rfl⟩, rfl⟩
  | linkCgroup owned made =>
    cases Kernel.attachCgroup_made made
    exact ⟨⟨rfl, rfl, fun _ => .rfl⟩, rfl⟩
  | refuseCgroup refused =>
    obtain ⟨count, rfl⟩ := Kernel.attachCgroup_counted refused
    exact ⟨⟨rfl, rfl, fun _ => .rfl⟩, rfl⟩
  | giveBack made =>
    obtain ⟨_, released, _⟩ := Holdings.detach_made made
    cases Kernel.closeDescriptor_made released
    exact ⟨⟨rfl, rfl, fun id => by simp [Kernel.log]⟩, rfl⟩
  | xdp owned made =>
    obtain ⟨_, rfl⟩ := Kernel.attachXdp_made made
    exact ⟨⟨rfl, rfl, fun _ => .rfl⟩, rfl⟩
  | clear unheld allowed made =>
    obtain ⟨_, rfl⟩ := Kernel.destroyQdisc_made made
    exact ⟨⟨rfl, rfl, fun _ => .rfl⟩, rfl⟩
  | discipline made =>
    cases Kernel.createQdisc_made made
    exact ⟨⟨rfl, rfl, fun _ => .rfl⟩, rfl⟩
  | filter owned made =>
    obtain ⟨_, _, rfl⟩ := Kernel.attachFilter_made made
    exact ⟨⟨rfl, rfl, fun _ => .rfl⟩, rfl⟩

theorem held_maps {x y : Holdings × Kernel} (act : Act own may x y) {id : MapId} {name : String}
    (member : .map id name ∈ y.1.items) : .map id name ∈ x.1.items := by
  cases act with
  | link | openCgroup | linkCgroup | xdp | filter => simpa [Holdings.register] using member
  | refuseCgroup | clear | discipline => exact member
  | giveBack made =>
    obtain ⟨_, _, rfl⟩ := Holdings.detach_made made
    exact Holdings.mem_of_mem_eraseLast member

inductive Effect (own : ProgramId → Prop) (may : IfIndex → Prop) (s : Holdings) (k : Kernel) :
    Holdings → Kernel → Prop where
  | takes {k' : Kernel} {h : Holding} {a : Resource} {v : Occupant} (takes : k.Takes k' a v)
      (is : h.resource? = some a) (fits : h.Fits v) (runs : v.Runs own) (other : h.stage ≠ .structOps) :
      Effect own may s k (s.register h) k'
  | rests {k' : Kernel} (rests : k.Rests k') : Effect own may s k s k'
  | gives {k' : Kernel} {h : Holding} (member : h ∈ s.items) (made : h.releaseIn k = .ok k')
      (other : h.stage ≠ .structOps) : Effect own may s k (s.eraseLast h) k'
  | clears {k' : Kernel} {ifindex : IfIndex} (unheld : Attach.holdsFilterOn s ifindex = false)
      (allowed : may ifindex) (made : k.destroyQdisc ifindex = .ok k') : Effect own may s k s k'

theorem effect (numbered : k.Numbered) (act : Act own may (s, k) (s', k')) :
    Effect own may s k s' k' := by
  cases act with
  | link owned made =>
    exact .takes (Kernel.attachProgram_takes numbered made) rfl trivial owned (by simp [Holding.stage])
  | openCgroup made =>
    exact .takes (Kernel.openDirectory_takes made) rfl trivial trivial (by simp [Holding.stage])
  | linkCgroup owned made =>
    exact .takes (Kernel.attachCgroup_takes numbered made) rfl trivial owned (by simp [Holding.stage])
  | refuseCgroup refused => exact .rests (Kernel.attachCgroup_rests refused)
  | giveBack made =>
    obtain ⟨member, released, rfl⟩ := Holdings.detach_made made
    exact .gives member released (by simp [Holding.stage])
  | xdp owned made =>
    exact .takes (Kernel.attachXdp_takes made) rfl trivial owned (by simp [Holding.stage])
  | clear unheld allowed made => exact .clears unheld allowed made
  | discipline made => exact .rests (Kernel.createQdisc_rests made)
  | filter owned made =>
    exact .takes (Kernel.attachFilter_takes made) rfl rfl owned (by simp [Holding.stage])

end Act

theorem Acts.sustains {x y : Holdings × Kernel} (acts : Acts own may x y) : x.2.Sustains y.2 := by
  induction acts with
  | refl => exact .refl _
  | tail _ act ih => exact ih.trans act.sustains.1

/-! Holdings that are in step. -/

theorem Holding.eq_filter {h : Holding} {side : Side} (is : h.resource? = some (.filter side)) :
    ∃ program priority, h = .filter program side priority := by
  cases h with
  | filter program there priority =>
    cases Option.some.inj is
    exact ⟨program, priority, rfl⟩
  | link | structOps | xdp | descriptor | map => cases is

theorem Attach.holdsFilterOn_iff {ifindex : IfIndex} :
    Attach.holdsFilterOn s ifindex = true ↔
      ∃ h ∈ s.items, ∃ side, h.resource? = some (.filter side) ∧ side.ifindex = ifindex := by
  simp only [Attach.holdsFilterOn, List.any_eq_true]
  constructor
  · rintro ⟨h, member, on⟩
    cases h with
    | filter program side priority => exact ⟨_, member, side, rfl, by simpa using on⟩
    | link | structOps | xdp | descriptor | map => cases on
  · rintro ⟨h, member, side, is, on⟩
    obtain ⟨program, priority, rfl⟩ := Holding.eq_filter is
    exact ⟨_, member, by simpa using on⟩

theorem Attach.elsewhere {ifindex : IfIndex} (unheld : Attach.holdsFilterOn s ifindex = false) {h : Holding}
    (member : h ∈ s.items) {side : Side} (is : h.resource? = some (.filter side)) :
    side.ifindex ≠ ifindex := fun on =>
  Bool.false_ne_true (unheld.symm.trans (Attach.holdsFilterOn_iff.mpr ⟨h, member, side, is, on⟩))

theorem Holdings.Tracks.bare (tracks : s.Tracks k) {ifindex : IfIndex}
    (unheld : Attach.holdsFilterOn s ifindex = false) (side : Side) (on : side.ifindex = ifindex) :
    k.occupant? (.filter side) = none := by
  cases present : k.occupant? (.filter side) with
  | none => rfl
  | some v =>
    obtain ⟨h, member, is⟩ := tracks.held _ v present
    exact absurd on (Attach.elsewhere unheld member is)

theorem Holdings.Tracks.act (tracks : s.Tracks k) (act : Act own may (s, k) (s', k')) :
    s'.Tracks k' ∧ k.Spares k' := by
  cases act.effect tracks.numbered with
  | takes takes is fits runs other =>
    rename_i h a v
    have gains : k.Gains k' h.resource? v := is ▸ takes.toGains
    refine ⟨tracks.hold gains (fun _ => fits) ?_ ?_ (fun stage => absurd stage other) ?_, takes.toSpares⟩
    · intro none
      cases is.symm.trans none
    · rw [takes.sched, or_iff_left other]
    · exact takes.sched ▸ tracks.steady
  | rests rests => exact ⟨tracks.alike rests.toAlike, rests.toSpares⟩
  | gives member made other => exact tracks.release member made
  | clears unheld allowed made =>
    have rests := Kernel.destroyQdisc_rests made (tracks.bare unheld)
    exact ⟨tracks.alike rests.toAlike, rests.toSpares⟩

namespace Attach

variable {α : Type} {p : ProgramHandle} {e : Extension}

/-! The protocols. -/

theorem forEach_acts {one : Holdings → Kernel → α → Attached Holding}
    (acts : ∀ s' k' a, k'.objects = k.objects → Acts own may (s', k') (one s' k' a).2) (as : List α) :
    Acts own may (s, k) (forEach one s k as).2 := by
  induction as generalizing s k with
  | nil => exact .refl
  | cons a rest ih =>
    have first := acts s k a rfl
    unfold forEach
    generalize one s k a = result at first
    rcases result with ⟨_ | h, s₁, k₁⟩
    · exact first
    · have same : k₁.objects = k.objects := first.sustains.objects
      have later := ih (s := s₁) (k := k₁) fun s' k' a objects => acts s' k' a (objects.trans same)
      have all := first.trans later
      dsimp only at all ⊢
      generalize forEach one s₁ k₁ rest = result at all
      rcases result with ⟨_ | hs, s₂, k₂⟩ <;> exact all

theorem program_acts (owned : own p.id) : Acts own may (s, k) (program s k p).2 := by
  unfold program
  split
  · exact .refl
  · split
    · exact .refl
    · rename_i made
      exact .single (.link owned made)

theorem named_acts (owned : ∀ p, e.OwnsProgram k p → own p) (name : String) :
    Acts own may (s, k) (named e s k name).2 := by
  unfold named
  split
  · exact .refl
  · rename_i found
    exact program_acts (owned _ (Extension.findProgram_owns found))

theorem marked_acts (owned : ∀ p, e.OwnsProgram k p → own p) :
    Acts own may (s, k) (marked e s k).2 := by
  unfold marked
  split
  · exact .refl
  · refine forEach_acts (fun s' k' name objects => named_acts (fun p owns => ?_) name) _
    exact owned p ((Extension.OwnsProgram.congr objects p).mp owns)

theorem lsmNamed_acts (owned : ∀ p, e.OwnsProgram k p → own p) (name : String) :
    Acts own may (s, k) (lsmNamed e s k name).2 := by
  unfold lsmNamed lsm
  split
  · exact .refl
  · rename_i found
    split
    · exact .refl
    · exact program_acts (owned _ (Extension.findProgram_owns found))

theorem allLsm_acts (owned : ∀ p, e.OwnsProgram k p → own p) :
    Acts own may (s, k) (allLsm e s k).2 := by
  refine forEach_acts (fun s' k' name objects => lsmNamed_acts (fun p owns => ?_) name) _
  exact owned p ((Extension.OwnsProgram.congr objects p).mp owns)

theorem cgroupOnce_acts (owned : own p.id) (host : HostSettings) (name : String) :
    Acts own may (s, k) (cgroupOnce host s k p name).2 := by
  unfold cgroupOnce
  split
  · exact .refl
  · split
    · exact .refl
    · rename_i fd k₁ opened
      have first : Acts own may (s, k) (s.register (.descriptor fd), k₁) := .single (.openCgroup opened)
      dsimp only
      split
      · rename_i made
        exact first.tail (.linkCgroup owned made)
      · rename_i k₂ refused
        have second := first.tail (.refuseCgroup refused)
        -- The descriptor is held for the time of the attempt, so that giving it back is a release.
        cases back : (s.register (.descriptor fd)).detach k₂ (.descriptor fd) with
        | error failure => exact second
        | ok after => exact second.tail (.giveBack back)

theorem cgroupRetrying_acts (owned : own p.id) (host : HostSettings) (name : String) (retries : Nat) :
    Acts own may (s, k) (cgroupRetrying host p name retries s k).2 := by
  induction retries generalizing s k with
  | zero => exact cgroupOnce_acts owned host name
  | succ retries ih =>
    have first : Acts own may (s, k) (cgroupOnce host s k p name).2 := cgroupOnce_acts owned host name
    unfold cgroupRetrying
    generalize cgroupOnce host s k p name = result at first
    rcases result with ⟨_ | h, s₁, k₁⟩
    · exact first.trans ih
    · exact first

theorem cgroup_acts (owned : own p.id) (host : HostSettings) (name : String) :
    Acts own may (s, k) (cgroup host s k p name).2 := by
  unfold cgroup
  split
  · exact .refl
  · exact cgroupRetrying_acts owned host name _

theorem xdp_acts (owned : own p.id) (ifindexes : List IfIndex) :
    Acts own may (s, k) (xdp s k p ifindexes).2 := by
  refine forEach_acts (fun s' k' ifindex _ => ?_) ifindexes
  unfold xdpOne
  split
  · exact .refl
  · rename_i made
    exact .single (.xdp owned made)

theorem filterOn_acts (owned : own p.id) (side : Side) (target : String) :
    Acts own may (s, k) (filterOn s k p side target).2 := by
  unfold filterOn
  split
  · exact .refl
  · rename_i made
    exact .single (.filter owned made)

theorem filter_acts (owned : own p.id) (side : Side)
    (allowed : holdsFilterOn s side.ifindex = false → k.faults.qdiscCleanup = false → may side.ifindex) :
    Acts own may (s, k) (filter s k p side).2 := by
  unfold filter
  have first : Acts own may (s, k) (s, if holdsFilterOn s side.ifindex then k
      else (k.destroyQdisc side.ifindex).toOption.getD k) := by
    split
    · exact .refl
    · rename_i unheld
      cases made : k.destroyQdisc side.ifindex with
      | error e => exact .refl
      | ok k₁ =>
        have bare : holdsFilterOn s side.ifindex = false := by simpa using unheld
        exact .single (.clear bare (allowed bare (Kernel.destroyQdisc_made made).1) made)
  dsimp only
  generalize (if holdsFilterOn s side.ifindex then k
    else (k.destroyQdisc side.ifindex).toOption.getD k) = k₁ at first
  split
  · rename_i made
    exact (first.tail (.discipline made)).trans (filterOn_acts owned side _)
  · split
    · exact first.trans (filterOn_acts owned side _)
    · exact first

theorem structOps_cases (e : Extension) (s : Holdings) (k : Kernel) (map : String)
    (policy : Policy Memory) :
    (∃ failure, structOps e s k map policy = (.error failure, s, k) ∧
        e.findStructOps k map = .error failure) ∨
      (∃ failure id errno k', structOps e s k map policy = (.error failure, s, k') ∧
        k.attachStructOps id policy = (.error errno, k')) ∨
      ∃ id link name k', k.attachStructOps id policy = (.ok link, k') ∧
        structOps e s k map policy =
          (.ok (.structOps link name), s.register (.structOps link name), k') := by
  unfold structOps
  split
  · rename_i failed
    exact .inl ⟨_, rfl, failed⟩
  · split
    · rename_i refused
      exact .inr (.inl ⟨_, _, _, _, rfl, refused⟩)
    · rename_i made
      exact .inr (.inr ⟨_, _, _, _, made, rfl⟩)

end Attach

end LoadableSched
