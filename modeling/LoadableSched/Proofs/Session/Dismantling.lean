import LoadableSched.Proofs.Session.Loading
import Mathlib.Data.List.Basic

/-!
The order of a teardown. Closing a session tries to give back all that belongs to it, each thing once, in
the order of dependency and of one kind the latest first. A refusal is noted, and the next thing is tried.
-/

namespace LoadableSched

/-- What a session gives back when it is closed. -/
inductive Belonging where
  | holding (h : Holding)
  | extension (e : Extension)

/-- The place of a stage in the order of release; the one that is left out is the extension's. -/
def Stage.rank : Stage → Nat
  | structOps => 0
  | links => 1
  | network => 2
  | trafficControl => 3
  | maps => 4
  | descriptors => 6

theorem Stage.rank_inj {a b : Stage} : a.rank = b.rank ↔ a = b := by
  cases a <;> cases b <;> simp [rank]

theorem Stage.rank_ne (stage : Stage) : stage.rank ≠ 5 := by cases stage <;> simp [rank]

def Release.rank : Release → Nat
  | structOps _ => 0
  | link _ => 1
  | xdp _ => 2
  | tc _ => 3
  | map _ => 4
  | object _ => 5
  | descriptor _ => 6

theorem Kernel.closeObject_log {k k' : Kernel} {id : ObjectId} (made : k.closeObject id = .ok k') :
    k'.releases = k.releases ++ [.object id] := by
  unfold closeObject at made
  split at made
  · cases made
  · cases Except.ok.inj made
    rfl

namespace Belonging

variable {k k' : Kernel} {b b' : Belonging}

def rank : Belonging → Nat
  | holding h => h.stage.rank
  | extension _ => 5

def release (k : Kernel) : Belonging → Except Failure Kernel
  | holding h => h.release k
  | extension e =>
    match e.close k with
    | (.ok (), _, k) => .ok k
    | (.error failure, _, _) => .error failure

/-- Tries belongings one after the other; each is noted with the failure if there was one. -/
def attempts (k : Kernel) : List Belonging → List (Belonging × Option Failure) × Kernel
  | [] => ([], k)
  | b :: rest =>
    match b.release k with
    | .ok k => ((b, none) :: (attempts k rest).1, (attempts k rest).2)
    | .error failure => ((b, some failure) :: (attempts k rest).1, (attempts k rest).2)

def failures (tried : List (Belonging × Option Failure)) : List Failure := tried.filterMap (·.2)

def released (tried : List (Belonging × Option Failure)) : List Belonging :=
  (tried.filter (·.2.isNone)).map (·.1)

theorem attempts_append (k : Kernel) (bs later : List Belonging) :
    attempts k (bs ++ later) =
      ((attempts k bs).1 ++ (attempts (attempts k bs).2 later).1,
        (attempts (attempts k bs).2 later).2) := by
  induction bs generalizing k with
  | nil => rfl
  | cons b rest ih =>
    simp only [List.cons_append, attempts]
    split <;> rw [ih] <;> rfl

theorem attempts_keep {P : Kernel → Prop} {bs : List Belonging}
    (keeps : ∀ b ∈ bs, ∀ k k', b.release k = .ok k' → P k → P k') (holds : P k) :
    P (attempts k bs).2 := by
  induction bs generalizing k with
  | nil => exact holds
  | cons b rest ih =>
    have later : ∀ b ∈ rest, ∀ k k', b.release k = .ok k' → P k → P k' := fun b member =>
      keeps b (List.mem_cons_of_mem _ member)
    unfold attempts
    split
    · rename_i k' made
      exact ih later (keeps b List.mem_cons_self k k' made holds)
    · exact ih later holds

theorem attempts_fst (k : Kernel) (bs : List Belonging) : (attempts k bs).1.map (·.1) = bs := by
  induction bs generalizing k with
  | nil => rfl
  | cons b rest ih =>
    unfold attempts
    split <;> simp [ih]

theorem released_sublist (k : Kernel) (bs : List Belonging) :
    (released (attempts k bs).1).Sublist bs := by
  have kept : (released (attempts k bs).1).Sublist ((attempts k bs).1.map (·.1)) :=
    List.filter_sublist.map _
  rwa [attempts_fst] at kept

/-! The order. -/

def byRank (bs : List Belonging) : List Belonging :=
  (List.range 7).flatMap fun rank => (bs.filter (·.rank = rank)).reverse

theorem rank_lt (b : Belonging) : b.rank < 7 := by
  cases b with
  | holding h =>
    simp only [rank]
    cases h.stage <;> decide
  | extension e => simp [rank]

theorem byRank_sorted (bs : List Belonging) : (byRank bs).Pairwise (·.rank ≤ ·.rank) := by
  have at_rank : ∀ rank b, b ∈ (bs.filter (·.rank = rank)).reverse → b.rank = rank := by
    intro rank b member
    exact of_decide_eq_true (List.mem_filter.mp (List.mem_reverse.mp member)).2
  refine List.pairwise_flatMap.mpr ⟨fun rank _ => ?_, ?_⟩
  · refine List.Pairwise.imp_of_mem ?_ (List.pairwise_of_forall fun _ _ => trivial)
    intro a b first second _
    exact Nat.le_of_eq ((at_rank rank a first).trans (at_rank rank b second).symm)
  · refine List.pairwise_lt_range.imp fun {low high} below a first b second => ?_
    rw [at_rank low a first, at_rank high b second]
    exact Nat.le_of_lt below

theorem byRank_filter (bs : List Belonging) (rank : Nat) :
    (byRank bs).filter (·.rank = rank) = (bs.filter (·.rank = rank)).reverse := by
  -- The range is cut short so that the induction can go from one rank to the next.
  have below : ∀ n, ((List.range n).flatMap fun low =>
      (bs.filter (·.rank = low)).reverse).filter (·.rank = rank) =
        if rank < n then (bs.filter (·.rank = rank)).reverse else [] := by
    intro n
    induction n with
    | zero => simp
    | succ n ih =>
      rw [List.range_succ, List.flatMap_append, List.filter_append, ih, List.flatMap_singleton,
        List.filter_reverse, List.filter_filter]
      by_cases same : rank = n
      · simp [same]
      · have none : bs.filter (fun b => b.rank = rank && b.rank = n) = [] := by
          refine List.filter_eq_nil_iff.mpr fun b _ => ?_
          simp only [Bool.and_eq_true, decide_eq_true_eq, not_and]
          omega
        have bound : rank < n + 1 ↔ rank < n := by omega
        simp only [bound, none, List.reverse_nil, List.append_nil]
  refine (below 7).trans ?_
  split
  · rfl
  · rename_i beyond
    symm
    rw [List.reverse_eq_nil_iff]
    refine List.filter_eq_nil_iff.mpr fun b _ => ?_
    simp only [decide_eq_true_eq]
    exact fun same => beyond (same ▸ b.rank_lt)

theorem byRank_perm (bs : List Belonging) : (byRank bs).Perm bs := by
  have below : ∀ n, ((List.range n).flatMap fun low => (bs.filter (·.rank = low)).reverse).Perm
      (bs.filter (·.rank < n)) := by
    intro n
    induction n with
    | zero => simp
    | succ n ih =>
      rw [List.range_succ, List.flatMap_append, List.flatMap_singleton]
      have split := List.filter_append_perm (fun b : Belonging => decide (b.rank < n))
        (bs.filter (·.rank < n + 1))
      rw [List.filter_filter, List.filter_filter] at split
      refine ((ih.append (List.reverse_perm _)).trans (.of_eq ?_)).trans split
      refine congrArg₂ (· ++ ·) (List.filter_congr fun b _ => ?_) (List.filter_congr fun b _ => ?_)
      · rw [Bool.eq_iff_iff]
        simp only [decide_eq_true_eq, Bool.and_eq_true]
        omega
      · rw [Bool.eq_iff_iff]
        simp only [decide_eq_true_eq, Bool.and_eq_true, Bool.not_eq_true', decide_eq_false_iff_not]
        omega
  refine (below 7).trans (.of_eq (List.filter_eq_self.mpr fun b _ => ?_))
  exact decide_eq_true b.rank_lt

/-! The kernel's log. -/

def record? : Belonging → Option Release
  | holding (.link id _) => some (.link id)
  | holding (.structOps id _) => some (.structOps id)
  | holding (.xdp ifindex _) => some (.xdp ifindex)
  | holding (.filter _ side _) => some (.tc side)
  | holding (.descriptor fd) => some (.descriptor fd)
  | holding (.map id _) => some (.map id)
  | extension e => e.object.map .object

theorem rank_of_record {r : Release} (made : b.record? = some r) : r.rank = b.rank := by
  cases b with
  | holding h => cases h <;> cases Option.some.inj made <;> rfl
  | extension e =>
    obtain ⟨object, _, rfl⟩ := Option.map_eq_some_iff.mp made
    rfl

def Matches (k : Kernel) : Belonging → Prop
  | holding h => ∀ id v, h.resource? = some (.link id) → k.occupant? (.link id) = some v → h.Fits v
  | extension _ => True

theorem releaseIn_log {h : Holding} (sound : (holding h).Matches k) (made : h.releaseIn k = .ok k') :
    k'.releases = k.releases ++ (holding h).record?.toList := by
  -- The log tells what a link was, and the holding says the same.
  have fits : ∀ id link, h.resource? = some (.link id) → k.links.get? id = some link →
      h.Fits (.link link) := fun id link is found =>
    sound id (.link link) is (by rw [Kernel.occupant?, found]; rfl)
  cases h with
  | link id program =>
    obtain ⟨link, found, ⟨⟨map, rfl⟩, _⟩ | ⟨_, rfl⟩⟩ := Kernel.destroyLink_made made
    · exact (fits id _ rfl found).elim
    · rfl
  | structOps id map =>
    obtain ⟨link, found, ⟨_, rfl⟩ | ⟨other, _⟩⟩ := Kernel.destroyLink_made made
    · rfl
    · have fits := fits id link rfl found
      cases link with
      | structOps map => exact absurd rfl (other map)
      | program | cgroup => exact fits.elim
  | xdp => rw [Kernel.detachXdp_made made]; rfl
  | filter => rw [Kernel.detachFilter_made made]; rfl
  | descriptor => rw [Kernel.closeDescriptor_made made]; rfl
  | map => rw [Kernel.closeMap_made made]; rfl

theorem holding_release {h : Holding} (made : (holding h).release k = .ok k') :
    h.releaseIn k = .ok k' := by
  obtain ⟨k₁, released, way⟩ | ⟨failure, _, failed, _⟩ := h.release_cases k
  · cases Except.ok.inj (released.symm.trans made)
    exact way
  · cases failed.symm.trans made

theorem release_of_releaseIn {h : Holding} (made : h.releaseIn k = .ok k') :
    (holding h).release k = .ok k' := by
  simp only [release, Holding.release, made]

theorem extension_release {e : Extension} (made : (extension e).release k = .ok k') :
    (e.object = none ∧ k' = k) ∨ ∃ object, e.object = some object ∧ k.closeObject object = .ok k' := by
  unfold release Extension.close at made
  cases loaded : e.object with
  | none =>
    simp only [loaded] at made
    exact .inl ⟨rfl, (Except.ok.inj made).symm⟩
  | some object =>
    simp only [loaded] at made
    cases closed : k.closeObject object with
    | ok k₁ =>
      simp only [closed] at made
      cases Except.ok.inj made
      exact .inr ⟨object, rfl, closed⟩
    | error errno => simp [closed] at made

theorem release_log (sound : b.Matches k) (made : b.release k = .ok k') :
    k'.releases = k.releases ++ b.record?.toList := by
  cases b with
  | holding h => exact releaseIn_log sound (holding_release made)
  | extension e =>
    obtain ⟨gone, rfl⟩ | ⟨object, loaded, closed⟩ := extension_release made
    · simp [record?, gone]
    · simp [record?, loaded, Kernel.closeObject_log closed]

theorem release_fades (made : b.release k = .ok k') : k.Fades k' := by
  cases b with
  | holding h => exact Holding.releaseIn_fades (holding_release made)
  | extension e =>
    obtain ⟨_, rfl⟩ | ⟨object, _, closed⟩ := extension_release made
    · exact .refl _
    · obtain ⟨adds, _, objects⟩ := Kernel.closeObject_made closed
      refine ⟨fun a v present => (adds.occupant a).symm.trans present, fun other present => ?_,
        adds.refuses, adds.bound⟩
      rw [Table.contains_eq, objects other] at present
      split at present
      · cases present
      · exact present

theorem attempts_fades (k : Kernel) (bs : List Belonging) : k.Fades (attempts k bs).2 :=
  attempts_keep (fun _ _ _ _ made before => Kernel.Fades.trans before (release_fades made)) (.refl k)

theorem release_keeps (made : b.release k = .ok k') (sound : b'.Matches k) : b'.Matches k' := by
  cases b' with
  | holding h => exact fun id v is present => sound id v is ((release_fades made).occupant _ v present)
  | extension e => trivial

theorem attempts_clear {bs : List Belonging} {h : Holding} {a : Resource} (member : holding h ∈ bs)
    (is : h.resource? = some a) : (attempts k bs).2.occupant? a = none ∨ k.refuses a = true := by
  obtain ⟨early, late, rfl⟩ := List.append_of_mem member
  have before := attempts_fades k early
  rw [attempts_append]
  generalize (attempts k early).2 = k₁ at before
  unfold attempts
  rcases h.release_cases k₁ with ⟨k₂, released, made⟩ | ⟨failure, e, failed, refused⟩
  · have cleared := (Holding.releaseIn_clears made).occupant a
    rw [if_pos is] at cleared
    simp only [release, released]
    exact .inl ((attempts_fades k₂ late).vacant cleared)
  · simp only [release, failed]
    rcases Holding.releaseIn_refused refused is with hindered | vacant
    · exact .inr (before.refuses ▸ hindered)
    · exact .inl ((attempts_fades k₁ late).vacant vacant)

theorem attempts_close {bs : List Belonging} {e : Extension} {id : ObjectId} (member : extension e ∈ bs)
    (object : e.object = some id) : (attempts k bs).2.objects.contains id = false := by
  obtain ⟨early, late, rfl⟩ := List.append_of_mem member
  rw [attempts_append]
  generalize (attempts k early).2 = k₁
  have gone : ∀ k₂ : Kernel, k₂.objects.get? id = none →
      (attempts k₂ late).2.objects.contains id = false := by
    intro k₂ absent
    rw [← Bool.not_eq_true]
    intro present
    have before := (attempts_fades k₂ late).objects id present
    rw [Table.contains_eq, absent] at before
    cases before
  cases closed : k₁.closeObject id with
  | error errno =>
    simp only [attempts, release, Extension.close, object, closed]
    exact gone k₁ (Kernel.closeObject_missing closed)
  | ok k₂ =>
    simp only [attempts, release, Extension.close, object, closed]
    exact gone k₂ (((Kernel.closeObject_made closed).2.2 id).trans (if_pos rfl))

theorem attempts_log {bs : List Belonging} (sound : ∀ b ∈ bs, b.Matches k) :
    (attempts k bs).2.releases =
      k.releases ++ (released (attempts k bs).1).filterMap record? := by
  induction bs generalizing k with
  | nil => simp [attempts, released]
  | cons b rest ih =>
    have others : ∀ b ∈ rest, b.Matches k := fun b member => sound b (List.mem_cons_of_mem _ member)
    unfold attempts
    split
    · rename_i k₁ made
      have later := ih fun b member => release_keeps made (others b member)
      simp only [later, release_log (sound b List.mem_cons_self) made, released, List.append_assoc]
      cases entered : b.record? <;> simp [entered]
    · simpa [released] using ih others

end Belonging

theorem Extension.close_cases (e : Extension) (k : Kernel) :
    (∃ k', e.close k = (.ok (), { e with object := none }, k') ∧
      (Belonging.extension e).release k = .ok k') ∨
    ∃ failure, e.close k = (.error failure, { e with object := none }, k) ∧
      (Belonging.extension e).release k = .error failure := by
  obtain ⟨_ | object, manifest⟩ := e
  · exact .inl ⟨k, rfl, rfl⟩
  · cases closed : k.closeObject object with
    | ok k' =>
      exact .inl ⟨k', by simp only [close, closed], by simp only [Belonging.release, close, closed]⟩
    | error errno =>
      refine .inr ⟨.detach ("extension " ++ manifest.name) errno, ?_, ?_⟩
      · simp only [close, closed, name]
      · simp only [Belonging.release, close, closed, name]

/-- From `k` to `k'` belongings were tried in this order, and the failures were added to a report. -/
structure Tries (k : Kernel) (r : Teardown) (due : List Belonging) (r' : Teardown) (k' : Kernel) :
    Prop where
  failures : r'.failures = r.failures ++ Belonging.failures (Belonging.attempts k due).1
  kernel : k' = (Belonging.attempts k due).2

variable {k k₁ k₂ : Kernel} {r r₁ r₂ : Teardown} {xs ys : List Belonging}

theorem Tries.trans (first : Tries k r xs r₁ k₁) (later : Tries k₁ r₁ ys r₂ k₂) :
    Tries k r (xs ++ ys) r₂ k₂ where
  failures := by
    rw [later.failures, first.failures, first.kernel, Belonging.attempts_append]
    simp [Belonging.failures]
  kernel := by rw [later.kernel, first.kernel, Belonging.attempts_append]

namespace Holdings

def due (s : Holdings) (stages : List Stage) : List Belonging :=
  stages.flatMap fun stage => (s.items.filter (·.stage = stage)).reverse.map .holding

theorem releaseEach_attempts (k : Kernel) (hs : List Holding) :
    (releaseEach k hs).1.2 = Belonging.failures (Belonging.attempts k (hs.map .holding)).1 ∧
      (releaseEach k hs).2 = (Belonging.attempts k (hs.map .holding)).2 := by
  induction hs generalizing k with
  | nil => exact ⟨rfl, rfl⟩
  | cons h rest ih =>
    simp only [releaseEach, List.map_cons, Belonging.attempts, Belonging.release]
    cases h.release k with
    | ok k' => exact ih k'
    | error failure => exact ⟨congrArg (failure :: ·) (ih k).1, (ih k).2⟩

theorem due_filter (items : List Holding) {p : Holding → Bool} {stages : List Stage}
    (keeps : ∀ h, h.stage ∈ stages → p h = true) : due ⟨items.filter p⟩ stages = due ⟨items⟩ stages := by
  refine List.flatMap_congr fun stage member => ?_
  rw [List.filter_filter]
  refine congrArg (fun hs => (List.reverse hs).map Belonging.holding) (List.filter_congr fun h _ => ?_)
  by_cases here : h.stage = stage
  · simp [here, keeps h (here ▸ member)]
  · simp [here]

theorem releaseStage_tries (s : Holdings) (k : Kernel) (r : Teardown) (stage : Stage) :
    Tries k r (s.due [stage]) (s.releaseStage k stage r).2.1 (s.releaseStage k stage r).2.2 := by
  obtain ⟨_, failures, kernel⟩ := s.releaseStage_eq k stage r
  obtain ⟨same, after⟩ := releaseEach_attempts k (s.items.filter (·.stage = stage)).reverse
  rw [due, List.flatMap_singleton]
  exact ⟨failures.trans (congrArg _ same), kernel.trans after⟩

theorem releaseStages_tries (s : Holdings) (k : Kernel) (r : Teardown) {stages : List Stage}
    (nodup : stages.Nodup) :
    Tries k r (s.due stages) (s.releaseStages k r stages).2.1 (s.releaseStages k r stages).2.2 := by
  induction stages generalizing s k r with
  | nil => exact ⟨(List.append_nil _).symm, rfl⟩
  | cons stage rest ih =>
    obtain ⟨fresh, nodup⟩ := List.nodup_cons.mp nodup
    have first := s.releaseStage_tries k r stage
    have later := ih (s.releaseStage k stage r).1 (s.releaseStage k stage r).2.2
      (s.releaseStage k stage r).2.1 nodup
    have others : ∀ h : Holding, h.stage ∈ rest → decide (h.stage ≠ stage) = true := by
      intro h member
      exact decide_eq_true fun same => fresh (same ▸ member)
    have untouched : (s.releaseStage k stage r).1.due rest = s.due rest := by
      rw [(s.releaseStage_eq k stage r).1]
      exact due_filter s.items others
    have split : s.due (stage :: rest) = s.due [stage] ++ s.due rest := by simp [due]
    rw [untouched] at later
    rw [split]
    exact first.trans later

end Holdings

namespace Session

variable {s : Session}

def belongings (s : Session) : List Belonging :=
  s.holdings.items.map .holding ++ s.extension.toList.map .extension

def due (s : Session) : List Belonging := Belonging.byRank s.belongings

theorem holding_mem_due {h : Holding} : .holding h ∈ s.due ↔ h ∈ s.holdings.items := by
  rw [due, (Belonging.byRank_perm s.belongings).mem_iff]
  simp [belongings]

theorem extension_mem_due {e : Extension} : .extension e ∈ s.due ↔ s.extension = some e := by
  rw [due, (Belonging.byRank_perm s.belongings).mem_iff]
  simp [belongings]

theorem belongings_at_stage (s : Session) (stage : Stage) :
    (s.belongings.filter (·.rank = stage.rank)).reverse =
      (s.holdings.items.filter (·.stage = stage)).reverse.map .holding := by
  have none : (s.extension.toList.map Belonging.extension).filter (·.rank = stage.rank) = [] := by
    refine List.filter_eq_nil_iff.mpr fun b member => ?_
    obtain ⟨e, _, rfl⟩ := List.mem_map.mp member
    exact fun same => stage.rank_ne (of_decide_eq_true same).symm
  rw [belongings, List.filter_append, none, List.append_nil, List.filter_map, List.map_reverse]
  refine congrArg (fun hs => (List.map Belonging.holding hs).reverse) (List.filter_congr fun h _ => ?_)
  simp [Belonging.rank, Stage.rank_inj]

theorem belongings_at_extension (s : Session) :
    (s.belongings.filter (·.rank = 5)).reverse = s.extension.toList.map .extension := by
  have none : (s.holdings.items.map Belonging.holding).filter (·.rank = 5) = [] := by
    refine List.filter_eq_nil_iff.mpr fun b member => ?_
    obtain ⟨h, _, rfl⟩ := List.mem_map.mp member
    exact fun same => h.stage.rank_ne (of_decide_eq_true same)
  rw [belongings, List.filter_append, none]
  cases s.extension <;> rfl

theorem due_eq (s : Session) :
    s.due = s.holdings.due stagesBeforeExtension ++
      (s.extension.toList.map .extension ++ s.holdings.due [.descriptors]) := by
  have ranks : List.range 7 =
      stagesBeforeExtension.map Stage.rank ++ ([5] ++ [Stage.descriptors.rank]) := by decide
  rw [due, Belonging.byRank, ranks, List.flatMap_append, List.flatMap_append, List.flatMap_map,
    List.flatMap_singleton, List.flatMap_singleton, belongings_at_extension]
  simp only [belongings_at_stage, Holdings.due, List.flatMap_singleton]

theorem closeExtension_tries (s : Session) (k : Kernel) (r : Teardown) :
    Tries k r (s.extension.toList.map .extension) (s.closeExtension k r).2.1
      (s.closeExtension k r).2.2 ∧ (s.closeExtension k r).1 = { s with extension := none } := by
  unfold closeExtension
  cases loaded : s.extension with
  | none => exact ⟨⟨(List.append_nil _).symm, rfl⟩, by simp [← loaded]⟩
  | some e =>
    simp only [Option.toList_some, List.map_cons, List.map_nil]
    rcases e.close_cases k with ⟨k', closed, released⟩ | ⟨failure, refused, failed⟩
    · rw [closed]
      exact ⟨⟨by simp [Belonging.attempts, Belonging.failures, released],
        by simp [Belonging.attempts, released]⟩, rfl⟩
    · rw [refused]
      exact ⟨⟨by simp [Belonging.attempts, Belonging.failures, failed],
        by simp [Belonging.attempts, failed]⟩, rfl⟩

theorem stage_before_extension (stage : Stage) :
    stage ∈ stagesBeforeExtension ∨ stage = .descriptors := by
  cases stage <;> decide

theorem nothing_after_stages (items : List Holding) :
    (items.filter (·.stage ∉ stagesBeforeExtension)).filter (·.stage ≠ .descriptors) = [] := by
  rw [List.filter_filter]
  refine List.filter_eq_nil_iff.mpr fun h _ => ?_
  rcases stage_before_extension h.stage with early | late
  · simp [early]
  · simp [late]

def emptied (s : Session) : Session :=
  { s with state := .closed, scheduler := none, extension := none, holdings := .empty }

theorem close_closed (closed : s.state = .closed) (k : Kernel) : s.close k = (.ok (), s, k) :=
  if_pos (decide_eq_true closed)

theorem close_eq (unclosed : s.state ≠ .closed) (k : Kernel) :
    let tried := Belonging.attempts k s.due
    let failures := Belonging.failures tried.1
    s.close k = (if failures = [] then .ok () else .error (.teardown failures), s.emptied, tried.2) := by
  have isOpen : s.state.isClosed = false := decide_eq_false unclosed
  intro tried failures
  have nodup : stagesBeforeExtension.Nodup := by decide
  have first := s.holdings.releaseStages_tries k .empty nodup
  have left := s.holdings.releaseStages_items k .empty stagesBeforeExtension
  -- Three steps: the stages before the extension, the extension, and the descriptors that are left then.
  unfold close teardown
  rw [isOpen]
  dsimp only
  generalize s.holdings.releaseStages k .empty stagesBeforeExtension = result at first left ⊢
  obtain ⟨holdings, r₁, k₁⟩ := result
  dsimp only at first left ⊢
  obtain ⟨second, same⟩ := closeExtension_tries
    { s with state := .closed, scheduler := none, holdings } k₁ r₁
  generalize closeExtension { s with state := .closed, scheduler := none, holdings } k₁ r₁ = result
    at second same ⊢
  obtain ⟨s₂, r₂, k₂⟩ := result
  cases same
  have last := holdings.releaseStage_tries k₂ r₂ .descriptors
  have rest := holdings.releaseStage_items k₂ .descriptors r₂
  generalize holdings.releaseStage k₂ .descriptors r₂ = result at last rest ⊢
  obtain ⟨⟨items⟩, r₃, k₃⟩ := result
  dsimp only at last rest ⊢
  have none : items = [] := by
    rw [rest, left]
    exact nothing_after_stages s.holdings.items
  have unseen : holdings.due [.descriptors] = s.holdings.due [.descriptors] := by
    have same : holdings = ⟨s.holdings.items.filter (·.stage ∉ stagesBeforeExtension)⟩ := by
      rw [← left]
    rw [same]
    refine Holdings.due_filter _ fun h member => ?_
    rw [List.mem_singleton.mp member]
    decide
  rw [unseen] at last
  obtain ⟨failed, kernel⟩ := first.trans (second.trans last)
  rw [← due_eq] at failed kernel
  subst none kernel
  have all : r₃.failures = failures := failed
  rw [Teardown.result, Teardown.isClean, all]
  simp only [List.isEmpty_iff]
  rfl

end Session

end LoadableSched
