import LoadableSched.Proofs.Policy.Shipped
import LoadableSched.Proofs.Session.Attaching
import LoadableSched.Proofs.Session.Dismantling

/-!
What a session can do to its kernel: every event of a run is a sequence of a few kinds of moves, or such
moves and the binding of a scheduler, or it happens around the session. What holds in all runs is shown
move by move.
-/

namespace LoadableSched

variable {may : IfIndex → Prop} {s s' : Session} {k k' : Kernel}

theorem Shipped.build_isShipped (p : Shipped) (t : Tunables) (maps : TaskMaps) (m : Memory) :
    (p.build t maps m).1.IsShipped := by
  cases p with
  | fifo => exact .fifo
  | roundRobin => exact .roundRobin _
  | ioPriority => exact .ioPriority _
  | weightedAverage => exact .ioPriority _

theorem Extension.findMap_found {e : Extension} {κ ν : Type} [Word κ] [Word ν] {name : String}
    {kind : MapKind} {handle : MapHandle} (found : e.findMap k κ ν name kind = .ok handle) :
    ∃ m, k.maps.get? handle.id = some m ∧ m.spec.name = handle.name := by
  simp only [findMap, liveObject] at found
  cases object : e.object with
  | none => simp [object, Except.bind, bind] at found
  | some id =>
    simp only [object, Except.bind, bind] at found
    split at found
    · cases found
    · rename_i info looked
      simp only [Kernel.findMap?, Option.bind_eq_bind, Option.bind_eq_some_iff] at looked
      obtain ⟨o, _, map, _, m, there, same⟩ := looked
      cases Option.some.inj same
      split at found
      · cases found
      · split at found
        · cases found
        · split at found
          · cases found
          · cases found
            exact ⟨m, there, rfl⟩

structure Kernel.Around (k k' : Kernel) : Prop where
  occupant : ∀ a, k'.occupant? a = k.occupant? a
  lastId : k'.lastId = k.lastId
  objects : k'.objects = k.objects
  maps : k'.maps = k.maps
  releases : k'.releases = k.releases
  qdiscs : k.qdiscs ⊆ k'.qdiscs

theorem Kernel.Around.sustains (around : k.Around k') : k.Sustains k' :=
  ⟨around.objects, around.maps, fun _ => by rw [around.releases]⟩

theorem Kernel.Around.alike (around : k.Around k') (calm : k'.sched = k.sched) : k.Alike k' where
  occupant := around.occupant
  lastId := Nat.le_of_eq around.lastId.symm
  policy := by rw [calm]
  steady before := calm ▸ before

theorem workload_alike (steady : k.sched.Steady) {op : SchedClass.Operation Memory}
    (spares : op.SparesPolicy) : k.Alike { k with sched := k.sched.step op } where
  occupant a := by cases a <;> rfl
  lastId := Nat.le_refl _
  policy := by
    have stands := SchedClass.step_spares steady.agrees steady.backed steady.healthy spares
    rw [stands.policy]
  steady before := by
    refine before.step op ?_
    cases op with
    | install policy => exact spares.elim
    | _ => trivial

namespace Session

/-- One move of a session. It clears an interface only where it may. -/
inductive Move (may : IfIndex → Prop) : Session × Kernel → Session × Kernel → Prop where
  | act {s : Session} {k k' : Kernel} {e : Extension} {holdings : Holdings}
      (loaded : s.extension = some e)
      (act : Act (e.OwnsProgram k) may (s.holdings, k) (holdings, k')) :
      Move may (s, k) ({ s with holdings }, k')
  | note {s : Session} {k : Kernel} {e : Extension} {id : MapId} {m : KernelMap}
      (loaded : s.extension = some e) (there : k.maps.get? id = some m)
      (new : .map id m.spec.name ∉ s.holdings.items) :
      Move may (s, k) ({ s with holdings := s.holdings.register (.map id m.spec.name) }, k)
  | memory {s : Session} {k : Kernel} (memory : Memory) : Move may (s, k) (s, k.setMemory memory)
  | refuseBinding {s : Session} {k k' : Kernel} {map : MapId} {policy : Policy Memory} {e : Errno}
      (conforms : ∃ own, policy.Conforms own)
      (refused : k.attachStructOps map policy = (.error e, k')) : Move may (s, k) (s, k')
  | release {s : Session} {k k' : Kernel} {h : Holding} (member : h ∈ s.holdings.items)
      (made : h.releaseIn k = .ok k') :
      Move may (s, k) ({ s with holdings := s.holdings.eraseLast h }, k')
  | enter {s : Session} {k : Kernel} (state : SessionState) (scheduler : Option (String × Nat))
      (unclosed : s.state ≠ .closed) (stays : state ≠ .closed)
      (unloaded : state = .unloaded → s.state = .unloaded) :
      Move may (s, k) ({ s with state, scheduler }, k)
  | load {s : Session} {k k' : Kernel} {image : Image} {e : Extension} (unloaded : s.state = .unloaded)
      (made : Extension.load k image = (.ok e, k')) :
      Move may (s, k) ({ s with extension := some e, state := .loaded }, k')
  | refuseLoad {s : Session} {k k' : Kernel} {image : Image} {failure : Failure}
      (unloaded : s.state = .unloaded) (refused : Extension.load k image = (.error failure, k')) :
      Move may (s, k) (s, k')
  | close {s : Session} {k : Kernel} (unclosed : s.state ≠ .closed) :
      Move may (s, k) (s.emptied, (Belonging.attempts k s.due).2)

abbrev Moves (may : IfIndex → Prop) : Session × Kernel → Session × Kernel → Prop :=
  Relation.ReflTransGen (Move may)

/-- Whether an event makes a session remove the discipline of an interface, if there is one. -/
def Sweeps (s : Session) (k : Kernel) (event : Event) (ifindex : IfIndex) : Prop :=
  ∃ name side e p, event = .attachFilter name side ∧ side.ifindex = ifindex ∧
    s.state.canAttach = true ∧ s.extension = some e ∧ e.findProgram k name = .ok p ∧
    Attach.holdsFilterOn s.holdings ifindex = false ∧ k.faults.qdiscCleanup = false

/-- What an event comes to. -/
inductive Course (s : Session) (k : Kernel) (event : Event) : Session × Kernel → Prop where
  | moves {after : Session × Kernel} (moves : Moves (s.Sweeps k event) (s, k) after) :
      Course s k event after
  /-- A scheduler is bound; before that no more than maps are opened. -/
  | binds {s₁ : Session} {k' : Kernel} {memory : Memory} {e : Extension} {map : MapId}
      {policy : Policy Memory} {link : LinkId} {name : String} {scheduler : Option (String × Nat)}
      (moves : Moves (s.Sweeps k event) (s, k) (s₁, k.setMemory memory))
      (loaded : s₁.extension = some e) (conforms : ∃ own, policy.Conforms own)
      (made : (k.setMemory memory).attachStructOps map policy = (.ok link, k')) :
      Course s k event ({ s₁ with
        holdings := s₁.holdings.register (.structOps link name), state := .attached, scheduler }, k')
  | around {k' : Kernel} (around : k.Around k') (alike : k.sched.Steady → k.Alike k')
      (calm : (∀ op spares, event ≠ .workload op spares) → k'.sched = k.sched) :
      Course s k event (s, k')

variable {α : Type}

theorem close_moves (may : IfIndex → Prop) (s : Session) (k : Kernel) : Moves may (s, k) (s.close k).2 := by
  by_cases closed : s.state = .closed
  · rw [close_closed closed k]
  · rw [close_eq closed k]
    exact .single (.close closed)

theorem closeAfter_eq (s : Session) (k : Kernel) (failure : Failure) :
    s.closeAfter (α := α) k failure = (.error failure, (s.close k).2) := rfl

theorem closeAfter_moves (failure : Failure) : Moves may (s, k) (s.closeAfter (α := α) k failure).2 :=
  close_moves may s k

theorem load_moves (image : Image) : Moves may (s, k) (s.load k image).2 := by
  unfold load
  split
  · exact .refl
  · rename_i unloaded
    split
    · rename_i made
      exact .single (.load (Decidable.not_not.mp unloaded) made)
    · rename_i refused
      refine Relation.ReflTransGen.trans ?_ (closeAfter_moves _)
      exact .single (.refuseLoad (Decidable.not_not.mp unloaded) refused)

theorem map_moves (κ ν : Type) [Word κ] [Word ν] (name : String) (kind : MapKind) :
    Moves may (s, k) ((s.map k κ ν name kind).2, k) := by
  unfold map liveExtension
  split
  · exact .refl
  · rename_i handle found
    dsimp only
    split
    · exact .refl
    · rename_i new
      split at found
      · rename_i e loaded
        obtain ⟨m, there, named⟩ := Extension.findMap_found found
        rw [Holdings.contains_iff_mem, ← named] at new
        rw [← named]
        exact .single (.note loaded there new)
      · cases found

theorem taskMap_moves (name : String) : Moves may (s, k) ((s.taskMap k name).2, k) := by
  unfold taskMap
  split
  · exact .refl
  · split
    · exact .refl
    · have looked : Moves may (s, k) ((s.map k UInt32 UInt64 name .lruHash).2, k) := map_moves ..
      generalize s.map k UInt32 UInt64 name .lruHash = result at looked
      rcases result with ⟨_ | handle, s'⟩ <;> exact looked

theorem schedulerMaps_moves (may : IfIndex → Prop) (s : Session) (k : Kernel) :
    Moves may (s, k) (s.schedulerMaps k).2 ∧
    ∃ memory, (s.schedulerMaps k).2.2 = k.setMemory memory := by
  unfold schedulerMaps
  dsimp only
  generalize k.memory.newTaskMaps = made
  obtain ⟨own, memory⟩ := made
  have first : Moves may (s, k) (s, k.setMemory memory) := .single (.memory memory)
  have second : Moves may (s, k.setMemory memory)
      ((s.taskMap (k.setMemory memory) Shipped.enqueueTimeMap).2, k.setMemory memory) :=
    taskMap_moves _
  dsimp only
  generalize s.taskMap (k.setMemory memory) Shipped.enqueueTimeMap = result at second
  rcases result with ⟨_ | enqueueTime, s₁⟩
  · exact ⟨first.trans second, memory, rfl⟩
  · have third : Moves may (s₁, k.setMemory memory)
        ((s₁.taskMap (k.setMemory memory) Shipped.sliceUsageMap).2, k.setMemory memory) :=
      taskMap_moves _
    have all := (first.trans second).trans third
    dsimp only at all ⊢
    generalize s₁.taskMap (k.setMemory memory) Shipped.sliceUsageMap = result at all
    rcases result with ⟨_ | sliceUsage, s₂⟩ <;> exact ⟨all, memory, rfl⟩

/-! Attaching. -/

theorem acts_moves {e : Extension} {holdings : Holdings} (loaded : s.extension = some e)
    (acts : Acts (e.OwnsProgram k) may (s.holdings, k) (holdings, k')) :
    Moves may (s, k) ({ s with holdings }, k') := by
  have each : ∀ y, Acts (e.OwnsProgram k) may (s.holdings, k) y →
      Moves may (s, k) ({ s with holdings := y.1 }, y.2) := by
    intro y acts
    induction acts with
    | refl => exact .refl
    | tail before act ih =>
      rename_i x y
      -- What the extension owns is the same at every act, because acts leave the objects alone.
      have same : e.OwnsProgram x.2 = e.OwnsProgram k :=
        funext fun p => propext (Extension.OwnsProgram.congr (Acts.sustains before).objects p)
      exact ih.tail (.act loaded (same ▸ act))
  exact each _ acts

theorem not_closed_of_canAttach (able : s.state.canAttach = true) : s.state ≠ .closed := by
  intro closed
  rw [closed] at able
  cases able

theorem attached_moves {e : Extension} {result : Attached α} (unclosed : s.state ≠ .closed)
    (loaded : s.extension = some e)
    (acts : Acts (e.OwnsProgram k) may (s.holdings, k) result.2) :
    Moves may (s, k) (s.attached result).2 := by
  obtain ⟨value, holdings, k'⟩ := result
  have first : Moves may (s, k) ({ s with holdings }, k') := acts_moves loaded acts
  cases value with
  | error failure => exact first.trans (closeAfter_moves failure)
  | ok value => exact first.tail (.enter .attached s.scheduler unclosed (by simp) (by simp))

theorem attachWith_moves (work : Extension → Holdings → Kernel → Attached α)
    (acts : ∀ e, s.state.canAttach = true → s.extension = some e →
      Acts (e.OwnsProgram k) may (s.holdings, k) (work e s.holdings k).2) :
    Moves may (s, k) (s.attachWith k work).2 := by
  unfold attachWith liveExtension
  split
  · exact .refl
  · rename_i able
    cases loaded : s.extension with
    | none => exact closeAfter_moves _
    | some e =>
      have able : s.state.canAttach = true := by simpa using able
      exact attached_moves (not_closed_of_canAttach able) loaded (acts e able loaded)

theorem attachProgramWith_moves (name : String) (work : ProgramHandle → Holdings → Kernel → Attached α)
    (acts : ∀ e p, s.state.canAttach = true → s.extension = some e → e.findProgram k name = .ok p →
      Acts (e.OwnsProgram k) may (s.holdings, k) (work p s.holdings k).2) :
    Moves may (s, k) (s.attachProgramWith k name work).2 := by
  refine attachWith_moves _ fun e able loaded => ?_
  split
  · exact .refl
  · rename_i p found
    exact acts e p able loaded found

theorem attachWith_structOps_cases (may : IfIndex → Prop) (s : Session) (k : Kernel) (map : String)
    {policy : Policy Memory} (conforms : ∃ own, policy.Conforms own) :
    let result := s.attachWith k fun e holdings k => Attach.structOps e holdings k map policy
    (∃ failure after, result = (.error failure, after) ∧ Moves may (s, k) after) ∨
      ∃ e id link name k', s.extension = some e ∧ k.attachStructOps id policy = (.ok link, k') ∧
        result = (.ok (.structOps link name), { s with
          holdings := s.holdings.register (.structOps link name), state := .attached }, k') := by
  intro result
  by_cases able : s.state.canAttach = true
  · cases loaded : s.extension with
    | none =>
      have same : result = s.closeAfter k (.illegalState ("session " ++ s.id ++ " has no extension")) := by
        simp [result, attachWith, able, liveExtension, loaded]
      exact .inl ⟨_, _, same.trans (closeAfter_eq ..), close_moves may s k⟩
    | some e =>
      have same : result = s.attached (Attach.structOps e s.holdings k map policy) := by
        simp [result, attachWith, able, liveExtension, loaded]
      rcases Attach.structOps_cases e s.holdings k map policy with
        ⟨failure, failed, _⟩ | ⟨failure, id, errno, k', failed, refused⟩ | ⟨id, link, name, k', made, bound⟩
      · rw [failed, attached, closeAfter_eq] at same
        exact .inl ⟨_, _, same, close_moves may s k⟩
      · rw [failed, attached, closeAfter_eq] at same
        exact .inl ⟨_, _, same, (Relation.ReflTransGen.single (.refuseBinding conforms refused)).trans
          (close_moves may s k')⟩
      · rw [bound, attached] at same
        exact .inr ⟨e, id, link, name, k', rfl, made, by rw [same, loaded]⟩
  · have same : result = (.error (s.wrongState "attach"), s, k) := by simp [result, attachWith, able]
    exact .inl ⟨_, _, same, .refl⟩

theorem attachScheduler_course (s : Session) (k : Kernel) (shipped : Shipped) :
    s.Course k (.attachScheduler shipped) (s.attachScheduler k shipped).2 := by
  unfold attachScheduler
  split
  · exact .moves .refl
  · split
    · exact .moves .refl
    · obtain ⟨looked, memory, same⟩ := schedulerMaps_moves (s.Sweeps k (.attachScheduler shipped)) s k
      generalize s.schedulerMaps k = result at looked same
      obtain ⟨_ | maps, s₁, k₁⟩ := result
      · exact .moves looked
      · dsimp only at looked same ⊢
        subst same
        have conforms := (shipped.build_isShipped s₁.tunables maps (k.setMemory memory).memory).conforms
        generalize shipped.build s₁.tunables maps (k.setMemory memory).memory = built at conforms
        obtain ⟨policy, memory'⟩ := built
        have ready : Moves (s.Sweeps k (.attachScheduler shipped)) (s, k)
            (s₁, k.setMemory memory'.newCounters.2) := looked.tail (.memory _)
        have all : k.setMemory memory'.newCounters.2 =
          (k.setMemory memory).setMemory memory'.newCounters.2 := rfl
        dsimp only
        rw [← all]
        rcases attachWith_structOps_cases (s.Sweeps k (.attachScheduler shipped)) s₁
            (k.setMemory memory'.newCounters.2) shipped.opsMap conforms with
          ⟨failure, after, same, moves⟩ | ⟨e, id, link, name, k', loaded, made, same⟩
        · rw [same]
          exact .moves (ready.trans moves)
        · rw [same]
          exact .binds ready loaded conforms made

/-! Events. -/

theorem detach_moves (h : Holding) : Moves may (s, k) (s.detach k h).2 := by
  unfold detach
  split
  · exact .refl
  · rename_i unclosed
    have unclosed : s.state ≠ .closed := by simpa [SessionState.isClosed] using unclosed
    split
    · exact .refl
    · rename_i made
      obtain ⟨member, released, rfl⟩ := Holdings.detach_made made
      have given : Moves may (s, k) ({ s with holdings := s.holdings.eraseLast h }, _) :=
        .single (.release member released)
      exact given.tail (.enter s.state _ unclosed unclosed fun same => same)

theorem start_moves : Moves may (s, k) (s.start.toOption.getD s, k) := by
  unfold start
  split
  · exact .refl
  · rename_i ready
    have unclosed : s.state ≠ .closed := by simp [Decidable.not_not.mp ready]
    exact .single (.enter .running s.scheduler unclosed (by simp) (by simp))

theorem run_moves : Moves may (s, k) (s.run k).2 := by
  have first : Moves may (s, k) (s.start.toOption.getD s, k) := start_moves
  unfold run
  cases started : s.start with
  | error failure => exact .refl
  | ok s' =>
    rw [started] at first
    exact first.trans (close_moves may s' k)

theorem report_moves : Moves may (s, k) (s, (s.report k).2) := by
  unfold report
  split
  · exact .refl
  · split
    · exact .single (.memory _)
    · exact .refl

theorem inject_around (k : Kernel) (injection : Injection) :
    k.Around (k.inject injection) ∧ (k.inject injection).sched = k.sched := by
  cases injection with
  | staleQdisc ifindex =>
    simp only [Kernel.inject]
    split
    · exact ⟨⟨fun _ => rfl, rfl, rfl, rfl, rfl, fun _ there => there⟩, rfl⟩
    · exact ⟨⟨fun a => by cases a <;> rfl, rfl, rfl, rfl, rfl, fun _ => List.mem_append_left _⟩, rfl⟩
  | cgroupAttaches | program | xdpDetach | linkDestroy | qdiscCleanup | nextLoad | clear =>
    exact ⟨⟨fun a => by cases a <;> rfl, rfl, rfl, rfl, rfl, fun _ there => there⟩, rfl⟩

theorem after_course (s : Session) (k : Kernel) (event : Event) :
    s.Course k event (s.after k event) := by
  cases event with
  | load image => exact .moves (load_moves image)
  | program name => exact .moves .refl
  | map κ ν name kind => exact .moves (map_moves κ ν name kind)
  | attachScheduler shipped => exact attachScheduler_course s k shipped
  | attach name =>
    exact .moves (attachProgramWith_moves name _ fun e p _ _ found =>
      Attach.program_acts (Extension.findProgram_owns found))
  | autoAttach => exact .moves (attachWith_moves _ fun e _ _ => Attach.marked_acts fun _ owns => owns)
  | attachLsm => exact .moves (attachWith_moves _ fun e _ _ => Attach.allLsm_acts fun _ owns => owns)
  | attachCgroup name cgroup =>
    exact .moves (attachProgramWith_moves name _ fun e p _ _ found =>
      Attach.cgroup_acts (Extension.findProgram_owns found) s.host cgroup)
  | attachXdp name ifindexes =>
    exact .moves (attachProgramWith_moves name _ fun e p _ _ found =>
      Attach.xdp_acts (Extension.findProgram_owns found) ifindexes)
  | attachFilter name side =>
    exact .moves (attachProgramWith_moves name _ fun e p able loaded found =>
      Attach.filter_acts (Extension.findProgram_owns found) side fun unheld unhindered =>
        ⟨name, side, e, p, rfl, rfl, able, loaded, found, unheld, unhindered⟩)
  | detach h => exact .moves (detach_moves h)
  | start => exact .moves start_moves
  | report => exact .moves report_moves
  | run => exact .moves run_moves
  | close => exact .moves (close_moves _ s k)
  | inject injection =>
    obtain ⟨around, calm⟩ := inject_around k injection
    exact .around around (fun _ => around.alike calm) fun _ => calm
  | files files =>
    have around : k.Around { k with files } :=
      ⟨fun a => by cases a <;> rfl, rfl, rfl, rfl, rfl, fun _ there => there⟩
    exact .around around (fun _ => around.alike rfl) fun _ => rfl
  | workload op spares =>
    exact .around ⟨fun a => by cases a <;> rfl, rfl, rfl, rfl, rfl, fun _ there => there⟩
      (fun steady => workload_alike steady spares) fun other => absurd rfl (other op spares)

end Session

end LoadableSched
