import LoadableSched.Proofs.Session.Ordering

/-!
What a session knows of its links while others use the kernel too. Numbers are given out upwards, so that no
other link ever comes under the number of a holding: its link is there as it was, or gone for good.
-/

namespace LoadableSched

variable {may : IfIndex → Prop} {own : ProgramId → Prop} {k k' k'' : Kernel}

namespace Kernel

/-- From `k` to `k'` links come under new numbers only. -/
structure Ages (k k' : Kernel) : Prop where
  lastId : k.lastId ≤ k'.lastId
  links : ∀ id v, id.number ≤ k.lastId → k'.occupant? (.link id) = some v → k.occupant? (.link id) = some v

theorem Ages.refl (k : Kernel) : k.Ages k := ⟨Nat.le_refl _, fun _ _ _ present => present⟩

theorem Ages.trans (first : k.Ages k') (later : k'.Ages k'') : k.Ages k'' where
  lastId := Nat.le_trans first.lastId later.lastId
  links id v given present := by
    have between := later.links id v (Nat.le_trans given first.lastId) present
    exact first.links id v given between

theorem Ages.of_links (links : ∀ id, k'.occupant? (.link id) = k.occupant? (.link id))
    (lastId : k.lastId ≤ k'.lastId) : k.Ages k' :=
  ⟨lastId, fun id _ _ present => (links id).symm.trans present⟩

theorem Alike.ages (alike : k.Alike k') : k.Ages k' := .of_links (fun _ => alike.occupant _) alike.lastId

theorem Gains.ages {a : Option Resource} {v : Occupant} (gains : k.Gains k' a v) : k.Ages k' where
  lastId := gains.lastId
  links id w given present := by
    rw [gains.occupant] at present
    split at present
    · rename_i new
      have above := (gains.number id new).1
      omega
    · exact present

theorem Loses.ages {a : Option Resource} (loses : k.Loses k' a) : k.Ages k' where
  lastId := Nat.le_of_eq loses.lastId.symm
  links id v _ present := by
    rw [loses.occupant] at present
    split at present
    · cases present
    · exact present

theorem attachStructOps_ages (numbered : k.Numbered) {map : MapId} {policy : Policy Memory}
    {result : Except Errno LinkId} (outcome : k.attachStructOps map policy = (result, k')) : k.Ages k' := by
  cases result with
  | ok link => exact (attachStructOps_gains numbered outcome).1.ages
  | error e =>
    apply Ages.of_links
    · exact fun id => attachStructOps_occupant outcome _
    · rcases attachStructOps_refused outcome with rfl | ⟨_, _, rfl⟩ <;> exact Nat.le_refl _

end Kernel

theorem Act.ages {x y : Holdings × Kernel} (numbered : x.2.Numbered) (act : Act own may x y) :
    x.2.Ages y.2 := by
  obtain ⟨s, k⟩ := x
  obtain ⟨s', k'⟩ := y
  cases act.effect numbered with
  | takes takes => exact takes.toGains.ages
  | rests rests => exact rests.toAlike.ages
  | gives member made => exact (Holding.releaseIn_clears made).toLoses.ages
  | clears unheld allowed made =>
    obtain ⟨_, rfl⟩ := Kernel.destroyQdisc_made made
    exact .of_links (fun _ => rfl) (Nat.le_refl _)

theorem Belonging.release_ages {b : Belonging} (made : b.release k = .ok k') : k.Ages k' := by
  cases b with
  | holding h => exact (Holding.releaseIn_clears (holding_release made)).toLoses.ages
  | extension e =>
    obtain ⟨_, rfl⟩ | ⟨object, _, closed⟩ := extension_release made
    · exact .refl _
    · exact (Kernel.closeObject_made closed).1.toAlike.ages

structure Holding.Known (h : Holding) (k : Kernel) : Prop where
  given : ∀ id, h.resource? = some (.link id) → id.number ≤ k.lastId
  fits : (Belonging.holding h).Matches k

namespace Holding.Known

variable {h : Holding}

theorem age (known : h.Known k) (ages : k.Ages k') : h.Known k' where
  given id is := Nat.le_trans (known.given id is) ages.lastId
  fits id v is present := known.fits id v is (ages.links id v (known.given id is) present)

theorem taken {v : Occupant} (gains : k.Gains k' h.resource? v) (fits : h.Fits v) : h.Known k' where
  given id is := (gains.number id is).2
  fits id w is present := by
    rw [gains.occupant, if_pos is] at present
    cases present
    exact fits

theorem map (id : MapId) (name : String) : (Holding.map id name).Known k :=
  ⟨by rintro _ ⟨⟩, by rintro _ _ ⟨⟩⟩

end Holding.Known

namespace Session

variable {s s' : Session}

/-- A session knows the links that it holds, and has nothing once it is closed. -/
structure Knows (s : Session) (k : Kernel) : Prop where
  links : ∀ h ∈ s.holdings.items, h.Known k
  closed : s.state = .closed → s.extension = none ∧ s.holdings.items = []

namespace Knows

theorem age (knows : s.Knows k) (ages : k.Ages k') : s.Knows k' :=
  ⟨fun h member => (knows.links h member).age ages, knows.closed⟩

theorem unclosed (knows : s.Knows k) {e : Extension} (loaded : s.extension = some e) : s.state ≠ .closed := by
  intro closed
  cases loaded.symm.trans (knows.closed closed).1

theorem fits (knows : s.Knows k) : ∀ b ∈ s.due, b.Matches k := by
  intro b member
  cases b with
  | extension e => trivial
  | holding h => exact (knows.links h (holding_mem_due.mp member)).fits

theorem belongings (knows : s.Knows k) (closed : s.state = .closed) : s.belongings = [] := by
  obtain ⟨unloaded, empty⟩ := knows.closed closed
  simp [Session.belongings, unloaded, empty]

end Knows

theorem Move.knows {x y : Session × Kernel} (move : Move may x y) (numbered : x.2.Numbered)
    (knows : x.1.Knows x.2) : y.1.Knows y.2 ∧ x.2.Ages y.2 := by
  cases move with
  | act loaded act =>
    have ages := act.ages numbered
    refine ⟨⟨fun h member => ?_, fun closed => absurd closed (knows.unclosed loaded)⟩, ages⟩
    cases act.effect numbered with
    | takes takes is fits =>
      rcases Holdings.mem_register.mp member with before | rfl
      · exact (knows.links h before).age ages
      · exact .taken (is ▸ takes.toGains) fits
    | rests | clears => exact (knows.links h member).age ages
    | gives => exact (knows.links h (Holdings.mem_of_mem_eraseLast member)).age ages
  | note loaded there new =>
    refine ⟨⟨fun h member => ?_, fun closed => absurd closed (knows.unclosed loaded)⟩, .refl _⟩
    rcases Holdings.mem_register.mp member with before | rfl
    · exact knows.links h before
    · exact .map _ _
  | memory memory =>
    rename_i s k
    have ages := (k.setMemory_alike memory).ages
    exact ⟨knows.age ages, ages⟩
  | refuseBinding conforms refused =>
    have ages := Kernel.attachStructOps_ages numbered refused
    exact ⟨knows.age ages, ages⟩
  | release member made =>
    have ages := (Holding.releaseIn_clears made).toLoses.ages
    refine ⟨⟨fun h left => ?_, fun closed => ?_⟩, ages⟩
    · exact (knows.links h (Holdings.mem_of_mem_eraseLast left)).age ages
    · rw [(knows.closed closed).2] at member
      cases member
  | enter state scheduler unclosed stays =>
    exact ⟨⟨knows.links, fun closed => absurd closed stays⟩, .refl _⟩
  | load unloaded made =>
    have ages := (Extension.load_made made).1.toAlike.ages
    exact ⟨⟨(knows.age ages).links, by rintro ⟨⟩⟩, ages⟩
  | refuseLoad unloaded refused =>
    have ages := (Extension.load_refused refused).1.toAlike.ages
    exact ⟨knows.age ages, ages⟩
  | close unclosed =>
    refine ⟨⟨by rintro h ⟨⟩, fun _ => ⟨rfl, rfl⟩⟩, ?_⟩
    exact Belonging.attempts_keep (fun b _ k k' made before => before.trans (Belonging.release_ages made)) (.refl _)

theorem Moves.knows {x y : Session × Kernel} (moves : Moves may x y) (orderly : x.2.Orderly)
    (knows : x.1.Knows x.2) : y.1.Knows y.2 ∧ x.2.Ages y.2 := by
  induction moves with
  | refl => exact ⟨knows, .refl _⟩
  | tail before move ih =>
    obtain ⟨between, ages⟩ := ih
    obtain ⟨after, later⟩ := move.knows (Moves.orderly before orderly).numbered between
    exact ⟨after, ages.trans later⟩

theorem after_knows (orderly : k.Orderly) (knows : s.Knows k) (event : Event) :
    (s.after k event).1.Knows (s.after k event).2 ∧ k.Ages (s.after k event).2 := by
  have course := s.after_course k event
  generalize s.after k event = after at course
  cases course with
  | moves moves => exact moves.knows orderly knows
  | binds moves loaded conforms made =>
    obtain ⟨between, ages⟩ := Moves.knows moves orderly knows
    have numbered := (Moves.orderly moves orderly).numbered
    have later := Kernel.attachStructOps_ages numbered made
    refine ⟨⟨fun h member => ?_, by rintro ⟨⟩⟩, ages.trans later⟩
    rcases Holdings.mem_register.mp member with before | rfl
    · exact (between.links h before).age later
    · exact .taken (Kernel.attachStructOps_gains numbered made).1 trivial
  | around around alike calm =>
    have ages : k.Ages _ := .of_links (fun _ => around.occupant _) (Nat.le_of_eq around.lastId.symm)
    exact ⟨knows.age ages, ages⟩

end Session

end LoadableSched
