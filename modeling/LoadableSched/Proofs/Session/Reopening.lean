import LoadableSched.Proofs.Session.Charting
import LoadableSched.Proofs.Session.Running
import Mathlib.Data.List.Nodup

/-!
What the end of a session reports. A release depends on no earlier one, so that each failure can be read
off the kernel before the first. Without faults the only holdings that the kernel cannot take back are
maps that were closed before and opened again.
-/

namespace LoadableSched

variable {k k' : Kernel} {h : Holding} {a : Resource}

/-! One release. -/

namespace Holding

def vacancy : Holding → Errno
  | link .. => .noEntry
  | structOps .. => .noEntry
  | xdp .. => .noEntry
  | filter .. => .noEntry
  | descriptor _ => .badDescriptor
  | map .. => .badDescriptor

theorem releaseIn_of_vacant (unhindered : k.refuses a = false) (vacant : k.occupant? a = none)
    (is : h.resource? = some a) : h.releaseIn k = .error h.vacancy := by
  cases h with
  | link id | structOps id =>
    cases Option.some.inj is
    simp only [Kernel.occupant?, Option.map_eq_none_iff] at vacant
    simp only [Kernel.refuses] at unhindered
    simp only [releaseIn, Kernel.destroyLink, unhindered, vacant, vacancy, Bool.false_eq_true, if_false]
  | xdp =>
    cases Option.some.inj is
    simp only [Kernel.occupant?, Option.map_eq_none_iff] at vacant
    simp only [Kernel.refuses] at unhindered
    simp only [releaseIn, Kernel.detachXdp, unhindered, vacant, vacancy, Table.contains_eq,
      Bool.false_eq_true, if_false, Option.isSome_none, Bool.not_false, if_true]
  | filter =>
    cases Option.some.inj is
    simp only [Kernel.occupant?, Option.map_eq_none_iff] at vacant
    simp [releaseIn, Kernel.detachFilter, vacant, vacancy, Table.contains_eq]
  | descriptor =>
    cases Option.some.inj is
    simp only [Kernel.occupant?, Option.map_eq_none_iff] at vacant
    simp [releaseIn, Kernel.closeDescriptor, Kernel.dropDescriptor, vacant, vacancy, Table.contains_eq]
  | map => cases is

theorem releaseIn_of_occupied (unhindered : k.refuses a = false) (occupied : k.occupant? a ≠ none)
    (is : h.resource? = some a) : ∃ k', h.releaseIn k = .ok k' := by
  cases made : h.releaseIn k with
  | ok k' => exact ⟨k', rfl⟩
  | error e =>
    rcases releaseIn_refused made is with hindered | vacant
    · cases hindered.symm.trans unhindered
    · exact absurd vacant occupied

end Holding

namespace Belonging

variable {b b' : Belonging}

def refusal? (k : Kernel) (b : Belonging) : Option Failure :=
  match b.release k with
  | .ok _ => none
  | .error failure => some failure

theorem refusal?_of_ok (made : h.releaseIn k = .ok k') : (holding h).refusal? k = none := by
  simp [refusal?, release, Holding.release, made]

theorem refusal?_of_error {e : Errno} (refused : h.releaseIn k = .error e) :
    (holding h).refusal? k = some (.detach h.text e) := by
  simp [refusal?, release, Holding.release, refused]

theorem refusal?_place (is : h.resource? = some a) (k : Kernel) :
    (holding h).refusal? k =
      if k.refuses a then some (.detach h.text .inputOutput)
      else if k.occupant? a = none then some (.detach h.text h.vacancy)
      else none := by
  split
  · rename_i hindered
    exact refusal?_of_error (Holding.releaseIn_of_refuses hindered is)
  · rename_i unhindered
    have unhindered : k.refuses a = false := by simpa using unhindered
    split
    · rename_i vacant
      exact refusal?_of_error (Holding.releaseIn_of_vacant unhindered vacant is)
    · rename_i occupied
      obtain ⟨k', made⟩ := Holding.releaseIn_of_occupied unhindered occupied is
      exact refusal?_of_ok made

theorem refusal?_map (id : MapId) (name : String) (k : Kernel) :
    (holding (.map id name)).refusal? k =
      if (k.maps.get? id).any (·.isOpen) then none
      else some (.detach (Holding.map id name).text .badDescriptor) := by
  cases there : k.maps.get? id with
  | none => exact refusal?_of_error (by simp [Holding.releaseIn, Kernel.closeMap, there])
  | some m =>
    cases opened : m.isOpen with
    | true =>
      rw [if_pos (by simp [opened])]
      exact refusal?_of_ok (by simp only [Holding.releaseIn, Kernel.closeMap, there, opened, if_true]; rfl)
    | false =>
      rw [if_neg (by simp [opened])]
      exact refusal?_of_error (by simp [Holding.releaseIn, Kernel.closeMap, there, opened])

theorem refusal?_extension (e : Extension) (k : Kernel) :
    (extension e).refusal? k =
      if e.object.all k.objects.contains then none
      else some (.detach ("extension " ++ e.name) .badDescriptor) := by
  obtain ⟨_ | id, manifest⟩ := e
  · rfl
  · cases there : k.objects.get? id <;>
      simp [refusal?, release, Extension.close, Kernel.closeObject, there, Table.contains_eq,
        Extension.name]

/-! Releases do not meddle with one another. -/

/-- The first of two belongings can be given back without a consequence for the second. -/
def Apart : Belonging → Belonging → Prop
  | holding h, holding h' =>
    (∀ a, h.resource? = some a → h'.resource? ≠ some a) ∧
      ∀ id name name', h = .map id name → h' ≠ .map id name'
  | holding _, extension _ => True
  | extension _, holding h => h.stage ≠ .maps
  | extension _, extension _ => False

theorem refusal?_after (apart : b.Apart b') (made : b.release k = .ok k') :
    b'.refusal? k' = b'.refusal? k := by
  -- A place keeps its occupant unless it is the one that is cleared.
  have place : ∀ h' a, b' = holding h' → h'.resource? = some a →
      k'.refuses a = k.refuses a ∧ k'.occupant? a = k.occupant? a := by
    rintro h' a rfl is
    cases b with
    | holding h =>
      have clears := Holding.releaseIn_clears (holding_release made)
      refine ⟨congrFun clears.refuses a, ?_⟩
      rw [clears.occupant, if_neg fun same => apart.1 a same is]
    | extension e =>
      obtain ⟨_, rfl⟩ | ⟨object, _, closed⟩ := extension_release made
      · exact ⟨rfl, rfl⟩
      · have adds := (Kernel.closeObject_made closed).1
        exact ⟨congrFun adds.refuses a, adds.occupant a⟩
  cases b' with
  | extension e =>
    cases b with
    | holding h => simp only [refusal?_extension, (Holding.releaseIn_rest (holding_release made)).1]
    | extension => exact apart.elim
  | holding h' =>
    cases is : h'.resource? with
    | some a =>
      obtain ⟨refuses, occupant⟩ := place h' a rfl is
      rw [refusal?_place is, refusal?_place is, refuses, occupant]
    | none =>
      cases h' with
      | link | structOps | xdp | filter | descriptor => cases is
      | map id name =>
        cases b with
        | extension e => exact absurd rfl apart
        | holding h =>
          rw [refusal?_map, refusal?_map]
          obtain ⟨id', name', rfl, rfl⟩ | ⟨_, sustains⟩ := Holding.releaseIn_maps (holding_release made)
          · have other : id ≠ id' := fun same => apart.2 id' name' name rfl (same ▸ rfl)
            simp only [Kernel.log, Table.get?_modify, if_neg other]
          · rw [sustains.maps]

theorem attempts_apart {bs : List Belonging} (apart : bs.Pairwise Apart) (k : Kernel) :
    failures (attempts k bs).1 = bs.filterMap (·.refusal? k) := by
  induction bs generalizing k with
  | nil => rfl
  | cons b rest ih =>
    obtain ⟨first, others⟩ := List.pairwise_cons.mp apart
    cases made : b.release k with
    | error failure =>
      simpa [attempts, made, failures, refusal?] using ih others k
    | ok k₁ =>
      have later : rest.filterMap (·.refusal? k₁) = rest.filterMap (·.refusal? k) :=
        List.filterMap_congr fun b' member => refusal?_after (first b' member) made
      have after := ih others k₁
      rw [later] at after
      have fine : b.refusal? k = none := by rw [refusal?, made]
      rw [List.filterMap_cons_none fine, ← after]
      simp [attempts, made, failures]

end Belonging

/-! The end of a session. -/

def Holding.isSpent (k : Kernel) : Holding → Bool
  | map id _ => k.releases.contains (.map id)
  | _ => false

def Belonging.spent? (k : Kernel) : Belonging → Option Failure
  | holding h => if h.isSpent k then some (.detach h.text .badDescriptor) else none
  | extension _ => none

namespace Session

variable {s : Session}

theorem due_nodup (nodup : s.holdings.items.Nodup) : s.due.Nodup := by
  rw [due, (Belonging.byRank_perm s.belongings).nodup_iff, belongings]
  refine List.nodup_append.mpr ⟨List.Nodup.map (fun _ _ => Belonging.holding.inj) nodup, ?_, ?_⟩
  · cases s.extension <;> simp
  · rintro b first _ second rfl
    obtain ⟨h, _, rfl⟩ := List.mem_map.mp first
    simp at second

theorem due_apart (tracks : s.holdings.Tracks k) (charted : s.Charted k) :
    s.due.Pairwise Belonging.Apart := by
  have ordered := (due_nodup tracks.nodup).and (Belonging.byRank_sorted s.belongings)
  refine ordered.imp_of_mem fun {b b'} member member' both => ?_
  obtain ⟨different, below⟩ := both
  cases b with
  | holding h =>
    cases b' with
    | holding h' =>
      have held := holding_mem_due.mp member
      have held' := holding_mem_due.mp member'
      refine ⟨fun a is is' => different ?_, ?_⟩
      · rw [tracks.unique h held h' held' a is is']
      · rintro id name name' rfl rfl
        cases charted.name_unique held held'
        exact different rfl
    | extension e => trivial
  | extension e =>
    cases b' with
    | holding h =>
      intro stage
      simp [Belonging.rank, stage, Stage.rank] at below
    | extension e' =>
      cases Option.some.inj ((extension_mem_due.mp member).symm.trans (extension_mem_due.mp member'))
      exact different rfl

theorem refusal?_due (way : s.UnderWay k) (charted : s.Charted k)
    (unhindered : ∀ a, k.refuses a = false) {b : Belonging} (member : b ∈ s.due) :
    b.refusal? k = b.spent? k := by
  cases b with
  | extension e =>
    have loaded := extension_mem_due.mp member
    have there : e.object.all k.objects.contains = true := by
      cases object : e.object with
      | none => rfl
      | some id => exact charted.present e id loaded object
    rw [Belonging.refusal?_extension, if_pos there]
    rfl
  | holding h =>
    have held := holding_mem_due.mp member
    cases is : h.resource? with
    | some a =>
      obtain ⟨v, present, _⟩ := way.tracks.there h held a is
      rw [Belonging.refusal?_place is, unhindered a, present]
      cases h with
      | map => cases is
      | link | structOps | xdp | filter | descriptor => rfl
    | none =>
      cases h with
      | link | structOps | xdp | filter | descriptor => cases is
      | map id name =>
        obtain ⟨m, there, _⟩ := charted.known id name held
        have opened := charted.logged id m there
        rw [Belonging.refusal?_map, there]
        by_cases closed : .map id ∈ k.releases
        · simp [Belonging.spent?, Holding.isSpent, closed, opened]
        · simp [Belonging.spent?, Holding.isSpent, closed, opened]

theorem close_failures (way : s.UnderWay k) (charted : s.Charted k)
    (unhindered : ∀ a, k.refuses a = false) :
    Belonging.failures (Belonging.attempts k s.due).1 =
      (s.holdings.items.reverse.filter (·.isSpent k)).map fun h => .detach h.text .badDescriptor := by
  have stage : ∀ h : Holding, h.isSpent k = true → h.stage = .maps := by
    rintro (_ | _ | _ | _ | _ | _) spent
    all_goals first | rfl | cases spent
  rw [Belonging.attempts_apart (due_apart way.tracks charted)]
  calc s.due.filterMap (·.refusal? k)
      = s.due.filterMap (·.spent? k) :=
        List.filterMap_congr fun b member => refusal?_due way charted unhindered member
    _ = (s.due.filter (·.rank = Stage.maps.rank)).filterMap (·.spent? k) := by
        rw [List.filterMap_filter]
        refine List.filterMap_congr fun b _ => ?_
        cases b with
        | extension e => simp [Belonging.spent?]
        | holding h =>
          by_cases spent : h.isSpent k = true
          · simp [Belonging.rank, stage h spent]
          · simp [Belonging.spent?, spent]
    _ = ((s.holdings.items.filter (·.stage = .maps)).reverse.map Belonging.holding).filterMap
          (·.spent? k) := by
        rw [due, Belonging.byRank_filter, belongings_at_stage]
    _ = (s.holdings.items.reverse.filter (·.isSpent k)).map fun h => .detach h.text .badDescriptor := by
        rw [List.filterMap_map, ← List.filter_reverse, List.filterMap_filter, ← List.filterMap_eq_map,
          List.filterMap_filter]
        refine List.filterMap_congr fun h _ => ?_
        by_cases spent : h.isSpent k = true
        · simp [Belonging.spent?, spent, stage h spent]
        · simp [Belonging.spent?, spent]

theorem close_reported (stands : s.UnderWay k ∨ s.Over k) (charted : s.Charted k)
    (unhindered : ∀ a, k.refuses a = false) :
    let spent := s.holdings.items.reverse.filter (·.isSpent k)
    (s.close k).1 = if spent = [] then .ok ()
      else .error (.teardown (spent.map fun h => .detach h.text .badDescriptor)) := by
  intro spent
  rcases stands with way | ended
  · rw [close_eq way.state]
    simp only [close_failures way charted unhindered, List.map_eq_nil_iff, spent]
  · have none : spent = [] := by simp [spent, ended.holdings]
    rw [if_pos none, close_closed ended.state]

/-- What the end of a session reports when no fault keeps the kernel from a release: the maps that the
session holds although they were closed before, the latest first. A map is held so when it was given back
and opened again, and it cannot be closed twice. Only without such a map a session closes cleanly. -/
theorem close_reports_reopened_maps (cpus : Nat) (features : Features) (interfaces : List IfIndex)
    (files : FileTree) (settings : HostSettings) (id : String) (t : Tunables) (events : List Event) :
    let h := Host.new cpus features interfaces files settings
    let now := (h.newSession id t).afterAll h.kernel events
    let spent := now.1.holdings.items.reverse.filter (·.isSpent now.2)
    (∀ a, now.2.refuses a = false) →
    (now.1.close now.2).1 =
        (if spent = [] then .ok ()
        else .error (.teardown (spent.map fun h => .detach h.text .badDescriptor))) ∧
      ((now.1.close now.2).1 = .ok () ↔
        ∀ map name, .map map name ∈ now.1.holdings.items → .map map ∉ now.2.releases) := by
  intro h now spent unhindered
  have charted : now.1.Charted now.2 :=
    (new_charted cpus features interfaces files settings id t).afterAll events
  have stands : now.1.UnderWay now.2 ∨ now.1.Over now.2 :=
    (afterAll_cases (new_underWay cpus features interfaces files settings id t) events).imp_right (·.1)
  have reported := close_reported stands charted unhindered
  refine ⟨reported, ?_⟩
  have fresh : spent = [] ↔
      ∀ map name, .map map name ∈ now.1.holdings.items → .map map ∉ now.2.releases := by
    rw [List.filter_eq_nil_iff]
    constructor
    · intro all map name member closed
      exact all _ (List.mem_reverse.mpr member) (by simpa [Holding.isSpent] using closed)
    · intro all h member
      cases h with
      | map id name => simpa [Holding.isSpent] using all id name (List.mem_reverse.mp member)
      | link | structOps | xdp | filter | descriptor => simp [Holding.isSpent]
  rw [reported, ← fresh]
  by_cases none : spent = [] <;> simp [none, spent]

def tallyImage : Image :=
  let manifest := { Manifest.new "tally" with maps := [⟨"hits", .hash, ⟨4, 8, 4⟩⟩] }
  ⟨manifest, Image.encode manifest⟩

/-- A map is held once, so that to open it twice does no harm. -/
theorem close_reports_nothing_after_two_looks :
    let h := Host.new 1 {} [] .standard .default
    let events : List Event :=
      [.load tallyImage, .map UInt32 UInt64 "hits" .hash, .map UInt32 UInt64 "hits" .hash]
    let now := (h.newSession "counting" .default).afterAll h.kernel events
    (∀ a, now.2.refuses a = false) ∧ now.1.holdings.items = [.map ⟨2⟩ "hits"] ∧
      (now.1.close now.2).1 = .ok () := by
  intro h events now
  have faultless : now.2.faults = {} := by decide +kernel
  have unhindered : ∀ a, now.2.refuses a = false := by
    intro a
    cases a <;> simp [Kernel.refuses, faultless]
  have unclosed : now.2.releases = [] := by decide +kernel
  refine ⟨unhindered, by decide +kernel, ?_⟩
  refine (close_reports_reopened_maps 1 {} [] .standard .default "counting" .default events
    unhindered).2.mpr fun map name _ closed => ?_
  rw [show ((h.newSession "counting" .default).afterAll h.kernel events).2.releases = [] from unclosed]
    at closed
  cases closed

/-- A map that was given back and opened again is held, but it cannot be closed once more. -/
theorem reopened_map_spoils_the_end :
    let h := Host.new 1 {} [] .standard .default
    let events : List Event :=
      [.load tallyImage, .map UInt32 UInt64 "hits" .hash, .detach (.map ⟨2⟩ "hits"),
        .map UInt32 UInt64 "hits" .hash]
    let now := (h.newSession "counting" .default).afterAll h.kernel events
    now.2.faults = {} ∧ now.1.holdings.items = [.map ⟨2⟩ "hits"] ∧ now.2.releases = [.map ⟨2⟩] ∧
      (now.1.close now.2).1.isOk = false := by
  decide +kernel

end Session

end LoadableSched
