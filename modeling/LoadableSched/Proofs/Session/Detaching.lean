import LoadableSched.Proofs.Session.Reopening

/-!
What one detachment does. Each holding has a place or a map of its own, so that to give it back touches
nothing that another holding stands for; a refusal touches nothing at all.
-/

namespace LoadableSched

variable {s : Session} {k k' : Kernel} {h other : Holding}

namespace Holding

def map? : Holding → Option MapId
  | map id _ => some id
  | _ => none

/-- Whether the kernel has what a holding stands for: an occupant that suits it, or an open map. -/
structure Live (k : Kernel) (h : Holding) : Prop where
  occupant : ∀ a, h.resource? = some a → ∃ v, k.occupant? a = some v ∧ h.Fits v
  map : ∀ id, h.map? = some id → (k.maps.get? id).any (·.isOpen) = true

theorem map?_eq_some {id : MapId} : h.map? = some id ↔ ∃ name, h = .map id name := by
  cases h <;> simp [map?]

theorem map?_of_resource {a : Resource} (is : h.resource? = some a) : h.map? = none := by
  cases h <;> first | rfl | cases is

end Holding

/-- From `k` to `k'` the kernel gives up what a holding stands for, and enters that in its log. -/
structure Kernel.Yields (k k' : Kernel) (h : Holding) : Prop where
  occupant : ∀ a, k'.occupant? a = if h.resource? = some a then none else k.occupant? a
  maps : ∀ id, k'.maps.get? id =
    if h.map? = some id then (k.maps.get? id).map fun m => { m with isOpen := false }
    else k.maps.get? id
  sched : k'.sched = if h.stage = .structOps then k.sched.uninstall.2 else k.sched
  log : k'.releases = k.releases ++ (Belonging.holding h).record?.toList
  rest : k' = { k with
    links := k'.links, xdp := k'.xdp, filters := k'.filters, descriptors := k'.descriptors
    maps := k'.maps, sched := k'.sched, releases := k'.releases }

namespace Holding

theorem releaseIn_frame (made : h.releaseIn k = .ok k') : k' = { k with
    links := k'.links, xdp := k'.xdp, filters := k'.filters, descriptors := k'.descriptors
    maps := k'.maps, sched := k'.sched, releases := k'.releases } := by
  cases h with
  | link id | structOps id => obtain ⟨_, _, ⟨_, rfl⟩ | ⟨_, rfl⟩⟩ := Kernel.destroyLink_made made <;> rfl
  | xdp => cases Kernel.detachXdp_made made; rfl
  | filter => cases Kernel.detachFilter_made made; rfl
  | descriptor => cases Kernel.closeDescriptor_made made; rfl
  | map => cases Kernel.closeMap_made made; rfl

theorem releaseIn_yields
    (sound : ∀ a, h.resource? = some a → ∃ v, k.occupant? a = some v ∧ h.Fits v)
    (made : h.releaseIn k = .ok k') : k.Yields k' h where
  occupant := (releaseIn_clears made).occupant
  maps id := by
    obtain ⟨own, name, rfl, rfl⟩ | ⟨other, sustains⟩ := releaseIn_maps made
    · simp only [Kernel.log, Table.get?_modify, map?, Option.some.injEq, eq_comm]
    · have none : h.map? ≠ some id := fun same =>
        (map?_eq_some.mp same).elim fun name is => other id name is
      rw [if_neg none, sustains.maps]
  sched := by
    rcases releaseIn_sched sound made with ⟨stage, removed⟩ | ⟨stage, same⟩
    · rw [if_pos stage, removed]
    · rw [if_neg stage, same]
  log := by
    refine Belonging.releaseIn_log (fun id v is present => ?_) made
    obtain ⟨w, there, fits⟩ := sound _ is
    cases Option.some.inj (there.symm.trans present)
    exact fits
  rest := releaseIn_frame made

theorem releaseIn_ok_iff
    (sound : ∀ a, h.resource? = some a → ∃ v, k.occupant? a = some v ∧ h.Fits v) :
    (∃ k', h.releaseIn k = .ok k') ↔
      h.Live k ∧ ∀ a, h.resource? = some a → k.refuses a = false := by
  cases is : h.resource? with
  | some a =>
    have noMap : h.map? = none := map?_of_resource is
    constructor
    · rintro ⟨k', made⟩
      refine ⟨⟨sound, by simp [noMap]⟩, ?_⟩
      rintro _ ⟨⟩
      by_contra hindered
      cases made.symm.trans (releaseIn_of_refuses (by simpa using hindered) is)
    · rintro ⟨live, unhindered⟩
      obtain ⟨v, present, _⟩ := live.occupant a is
      exact releaseIn_of_occupied (unhindered a rfl) (by simp [present]) is
  | none =>
    cases h with
    | link | structOps | xdp | filter | descriptor => cases is
    | map id name =>
      have live : (map id name).Live k ↔ (k.maps.get? id).any (·.isOpen) = true :=
        ⟨fun live => live.map id rfl, fun isOpen => ⟨by rintro _ ⟨⟩, by rintro _ ⟨⟩; exact isOpen⟩⟩
      have ok : (∃ k', (map id name).releaseIn k = .ok k') ↔
          (k.maps.get? id).any (·.isOpen) = true := by
        simp only [releaseIn, Kernel.closeMap]
        cases k.maps.get? id with
        | none => simp
        | some m => cases opened : m.isOpen <;> simp [opened]
      simpa [live] using ok

theorem live_after (yields : k.Yields k' h)
    (apart : ∀ a, h.resource? = some a → other.resource? ≠ some a)
    (unlike : ∀ id, h.map? = some id → other.map? ≠ some id) : other.Live k' ↔ other.Live k := by
  have occupant : ∀ a, other.resource? = some a → k'.occupant? a = k.occupant? a := fun a is =>
    (yields.occupant a).trans (if_neg fun same => apart a same is)
  have maps : ∀ id, other.map? = some id → k'.maps.get? id = k.maps.get? id := fun id is =>
    (yields.maps id).trans (if_neg fun same => unlike id same is)
  constructor
  · exact fun live => ⟨fun a is => occupant a is ▸ live.occupant a is,
      fun id is => maps id is ▸ live.map id is⟩
  · exact fun live => ⟨fun a is => (occupant a is).symm ▸ live.occupant a is,
      fun id is => (maps id is).symm ▸ live.map id is⟩

theorem dead_after (yields : k.Yields k' h) : ¬ h.Live k' := by
  intro live
  cases is : h.resource? with
  | some a =>
    obtain ⟨v, present, _⟩ := live.occupant a is
    rw [yields.occupant, if_pos is] at present
    cases present
  | none =>
    cases h with
    | link | structOps | xdp | filter | descriptor => cases is
    | map id name =>
      have own : (map id name).map? = some id := rfl
      have opened := live.map id own
      rw [yields.maps, if_pos own] at opened
      cases there : k.maps.get? id <;> simp [there] at opened

end Holding

theorem Holdings.InStep.live {s : Holdings} (inStep : s.InStep k) (member : h ∈ s.items)
    (noMap : h.map? = none) : h.Live k where
  occupant := inStep.there h member
  map id is := by cases noMap.symm.trans is

theorem Holdings.eraseLast_between {s : Holdings} (nodup : s.items.Nodup) (member : h ∈ s.items) :
    ∃ early late, s.items = early ++ h :: late ∧ (s.eraseLast h).items = early ++ late := by
  obtain ⟨early, late, split⟩ := List.append_of_mem member
  refine ⟨early, late, split, ?_⟩
  rw [split] at nodup
  have absent : h ∉ late.reverse := by
    rw [List.mem_reverse]
    exact (List.nodup_cons.mp (List.nodup_append.mp nodup).2.1).1
  rw [eraseLast, split, List.reverse_append, List.reverse_cons, List.append_assoc,
    List.singleton_append, List.erase_append_right _ absent, List.erase_cons_head]
  simp

namespace Session

/-- From a session and its kernel to the next, exactly one holding was given back. -/
structure GivesBack (s : Session) (k : Kernel) (h : Holding) (s' : Session) (k' : Kernel) : Prop where
  between : ∃ early late, s.holdings.items = early ++ h :: late ∧ s'.holdings.items = early ++ late
  gone : h ∉ s'.holdings.items
  session : s' = { s with
    holdings := s'.holdings, scheduler := if h.stage = .structOps then none else s.scheduler }
  kernel : k.Yields k' h
  dead : ¬ h.Live k'
  others : ∀ other ∈ s'.holdings.items, (other.Live k' ↔ other.Live k)
  inStep : s'.holdings.InStep k'

theorem detach_eq (unclosed : s.state ≠ .closed) (k : Kernel) (h : Holding) :
    s.detach k h = if h ∈ s.holdings.items then
      match h.releaseIn k with
      | .ok k' => (.ok (), { s with
          holdings := s.holdings.eraseLast h
          scheduler := if h.stage = .structOps then none else s.scheduler }, k')
      | .error e => (.error (.detach h.text e), s, k)
    else (.error (Holdings.notHeld h), s, k) := by
  have isOpen : s.state.isClosed = false := decide_eq_false unclosed
  unfold detach Holdings.detach
  rw [isOpen]
  by_cases member : h ∈ s.holdings.items
  · rw [if_pos member, if_pos (Holdings.contains_iff_mem.mpr member)]
    simp only [Holding.release, Bool.false_eq_true, if_false]
    cases h.releaseIn k with
    | error e => rfl
    | ok k' => cases h <;> simp [Holding.stage]
  · rw [if_neg member, if_neg (Holdings.contains_iff_mem.not.mpr member)]
    rfl

theorem Charted.map_unique (charted : s.Charted k) (held : h ∈ s.holdings.items)
    (held' : other ∈ s.holdings.items) {id : MapId} (is : h.map? = some id)
    (is' : other.map? = some id) : h = other := by
  obtain ⟨name, rfl⟩ := Holding.map?_eq_some.mp is
  obtain ⟨name', rfl⟩ := Holding.map?_eq_some.mp is'
  rw [charted.name_unique held held']

theorem detach_givesBack (way : s.UnderWay k) (charted : s.Charted k) (member : h ∈ s.holdings.items)
    (made : h.releaseIn k = .ok k') :
    (s.detach k h).1 = .ok () ∧ s.GivesBack k h (s.detach k h).2.1 (s.detach k h).2.2 := by
  have tracks := way.tracks
  have yields := Holding.releaseIn_yields (tracks.there h member) made
  have detached := detach_eq way.state k h
  rw [if_pos member, made] at detached
  rw [detached]
  refine ⟨rfl, Holdings.eraseLast_between tracks.nodup member, ?_, rfl, yields,
    Holding.dead_after yields, fun other still => ?_, (tracks.release member made).1.toInStep⟩
  · exact fun still => ((Holdings.mem_eraseLast tracks.nodup).mp still).1 rfl
  · obtain ⟨different, held⟩ := (Holdings.mem_eraseLast tracks.nodup).mp still
    exact Holding.live_after yields
      (fun a is is' => different (tracks.unique other held h member a is' is))
      (fun id is is' => different (charted.map_unique held member is' is))

/-- A session and its kernel after some run of the only session of a host. -/
def Reached (s : Session) (k : Kernel) : Prop :=
  ∃ (cpus : Nat) (features : Features) (interfaces : List IfIndex) (files : FileTree)
    (settings : HostSettings) (id : String) (t : Tunables) (events : List Event),
    let host := Host.new cpus features interfaces files settings
    (host.newSession id t).afterAll host.kernel events = (s, k)

theorem reached_afterAll (cpus : Nat) (features : Features) (interfaces : List IfIndex) (files : FileTree)
    (settings : HostSettings) (id : String) (t : Tunables) (events : List Event) :
    let host := Host.new cpus features interfaces files settings
    let now := (host.newSession id t).afterAll host.kernel events
    now.1.Reached now.2 :=
  ⟨cpus, features, interfaces, files, settings, id, t, events, rfl⟩

theorem Reached.charted (reached : s.Reached k) : s.Charted k := by
  obtain ⟨cpus, features, interfaces, files, settings, id, t, events, made⟩ := reached
  have charted := (new_charted cpus features interfaces files settings id t).afterAll events
  rwa [made] at charted

theorem Reached.underWay (reached : s.Reached k) (unclosed : s.state ≠ .closed) : s.UnderWay k := by
  obtain ⟨cpus, features, interfaces, files, settings, id, t, events, made⟩ := reached
  have cases := afterAll_cases (new_underWay cpus features interfaces files settings id t) events
  rw [made] at cases
  exact cases.resolve_right fun ended => unclosed ended.1.state

/-- To detach something from a session that is not closed succeeds exactly when it is held and the kernel
takes it back, which it does if it is still there and no fault was injected for it. Then it alone leaves the
holdings and the kernel, and cannot be detached again. In all other cases nothing changes; what the kernel
refused to take back is tried again when the session is closed. -/
theorem detach_is_exact (reached : s.Reached k) (unclosed : s.state ≠ .closed) (h : Holding) :
    let result := s.detach k h
    (result.1 = .ok () ↔ h ∈ s.holdings.items ∧ ∃ k', h.releaseIn k = .ok k') ∧
    (h ∈ s.holdings.items → ((∃ k', h.releaseIn k = .ok k') ↔
      h.Live k ∧ ∀ a, h.resource? = some a → k.refuses a = false)) ∧
    (result.1 = .ok () → s.GivesBack k h result.2.1 result.2.2 ∧
      result.2.1.detach result.2.2 h =
        (.error (.illegalState (h.text ++ " is not attached to this session")), result.2)) ∧
    (h ∉ s.holdings.items →
      result = (.error (.illegalState (h.text ++ " is not attached to this session")), s, k)) ∧
    (∀ e, h ∈ s.holdings.items → h.releaseIn k = .error e →
      result = (.error (.detach h.text e), s, k) ∧ .holding h ∈ s.due ∧
        ∀ later, (s.close later).2 = (s.emptied, (Belonging.attempts later s.due).2)) := by
  intro result
  have way := reached.underWay unclosed
  have detached : result = _ := detach_eq unclosed k h
  have absent : h ∉ s.holdings.items → result = (.error (Holdings.notHeld h), s, k) := fun absent => by
    rw [detached, if_neg absent]
  have refused : ∀ e, h ∈ s.holdings.items → h.releaseIn k = .error e →
      result = (.error (.detach h.text e), s, k) := fun e member refused => by
    rw [detached, if_pos member, refused]
  have gives {k' : Kernel} (member : h ∈ s.holdings.items) (made : h.releaseIn k = .ok k') :=
    detach_givesBack way reached.charted member made
  have ok : result.1 = .ok () ↔ h ∈ s.holdings.items ∧ ∃ k', h.releaseIn k = .ok k' := by
    refine ⟨fun ok => ?_, fun ⟨member, k', made⟩ => (gives member made).1⟩
    by_cases member : h ∈ s.holdings.items
    · refine ⟨member, ?_⟩
      cases made : h.releaseIn k with
      | ok k' => exact ⟨k', rfl⟩
      | error e =>
        rw [refused e member made] at ok
        cases ok
    · rw [absent member] at ok
      cases ok
  refine ⟨ok, fun member => Holding.releaseIn_ok_iff (way.tracks.there h member), fun success => ?_,
    absent, fun e member failed => ⟨refused e member failed, holding_mem_due.mpr member, fun later => ?_⟩⟩
  · obtain ⟨member, k', made⟩ := ok.mp success
    have given := (gives member made).2
    refine ⟨given, ?_⟩
    have unclosed' : result.2.1.state ≠ .closed := by
      rw [given.session]
      exact unclosed
    rw [detach_eq unclosed', if_neg given.gone]
    rfl
  · rw [close_eq unclosed later]

def probeImage : Image :=
  let manifest := { Manifest.new "probes" with entryPoints := [⟨"probe", "kprobe/do_exit", false⟩] }
  ⟨manifest, Image.encode manifest⟩

/-- Of two links of one program the first can be detached, once, while the second stays. -/
theorem first_of_two_links_is_detached :
    let host := Host.new 1 {} [] .standard .default
    let events : List Event := [.load probeImage, .attach "probe", .attach "probe"]
    let now := (host.newSession "probing" .default).afterAll host.kernel events
    let result := now.1.detach now.2 (.link ⟨3⟩ "probe")
    now.1.Reached now.2 ∧ now.1.state ≠ .closed ∧
      now.1.holdings.items = [.link ⟨3⟩ "probe", .link ⟨4⟩ "probe"] ∧
      result.1 = .ok () ∧
      result.2.1.holdings.items = [.link ⟨4⟩ "probe"] ∧
      (Holding.link ⟨4⟩ "probe").Live result.2.2 ∧
      result.2.1.detach result.2.2 (.link ⟨3⟩ "probe") =
        (.error (.illegalState "probe (link#3) is not attached to this session"), result.2) := by
  intro host events now result
  have reached : now.1.Reached now.2 :=
    reached_afterAll 1 {} [] .standard .default "probing" .default events
  have unclosed : now.1.state ≠ .closed := by decide +kernel
  have held : now.1.holdings.items = [.link ⟨3⟩ "probe", .link ⟨4⟩ "probe"] := by decide +kernel
  have left : result.2.1.holdings.items = [.link ⟨4⟩ "probe"] := by decide +kernel
  have unhindered : now.2.refuses (.link ⟨3⟩) = false := by decide +kernel
  have occupied : now.2.occupant? (.link ⟨3⟩) ≠ none := by decide +kernel
  clear_value now
  have released := Holding.releaseIn_of_occupied (h := .link ⟨3⟩ "probe") unhindered occupied rfl
  obtain ⟨ok, _, gives, _⟩ := detach_is_exact reached unclosed (.link ⟨3⟩ "probe")
  have success : result.1 = .ok () := ok.mpr ⟨held ▸ List.mem_cons_self, released⟩
  obtain ⟨gives, again⟩ := gives success
  have stays : .link ⟨4⟩ "probe" ∈ result.2.1.holdings.items := left ▸ List.mem_cons_self
  exact ⟨reached, unclosed, held, success, left, gives.inStep.live stays rfl, again⟩

end Session

end LoadableSched
