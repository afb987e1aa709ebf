import SmartBft.Controller.Refinement
/-!
# Schedules that hold up the controller

`Decide` sends on the unbuffered `decisionChan` without looking at `Abort`, and the run loop
only receives it in its `select`. When the `select` takes a view change or the stop signal
instead, the run loop waits for the View's Future while the View waits for the run loop:
`decide_blocks_changeView_and_stop`. A leader in `getNextBatch` over an empty pool is not in
its `select` either, and `ViewChanged` closes the batcher only after its send is received:
`propose_blocks_viewChange`. `changeView` drains the token before its staleness check, and a
`ViewChanged` caller's `Close` can land after `changeView`'s `Reset`: an idle leader can be
left with no token or a closed batcher, `idle_leader_without_token_or_batcher`. Once the
run loop waits on a View in `Decide`, no run delivers, installs or proposes again: seen
through the abstract controller, only `Stop` goes on (`waitsOnDecide_labels`).

In a reachable state the run loop has no step only in its `select` with no case ready, in
`NextBatch` over an empty pool and an open batcher, waiting for a View that has not returned,
or after it exits (`runBlocked_iff`).
-/

namespace SmartBft.Controller

variable {cfg : Config}

/-! ## A view change or a stop against a decision in flight -/

def Loc.waitsForView : Loc → Bool
  | .wait _ _ | .exitWait => true
  | _ => false

/-- The run loop waits for the View's Future while the View is sending its decision. -/
def WaitsOnDecide (c : Ctl) : Prop := c.loc.waitsForView = true ∧ c.phase = .deciding

instance : DecidablePred WaitsOnDecide := fun c =>
  inferInstanceAs (Decidable (c.loc.waitsForView = true ∧ c.phase = .deciding))

/-- While the run loop waits for a View in `Decide`, its next statement cannot run. -/
theorem runStep_waitsOnDecide {c : Ctl} (hw : WaitsOnDecide c) : runStep cfg c = none := by
  obtain ⟨hl, hp⟩ := hw
  unfold runStep
  split <;> simp_all [Loc.waitsForView]

/-- Nothing gets the two out: the run loop waits for the View to return, and the View
for the run loop's `select`. -/
theorem waitsOnDecide_step {c c' : Ctl} {a : Act} (hw : WaitsOnDecide c)
    (h : step cfg c a = some c') : WaitsOnDecide c' := by
  obtain ⟨hl, hp⟩ := hw
  cases a <;> simp only [step] at h
  case run => simp [runStep_waitsOnDecide ⟨hl, hp⟩] at h
  case select k => split at h <;> simp_all [Loc.waitsForView]
  case nextBatch got => split at h <;> simp_all [Loc.waitsForView]
  case stop =>
    unfold stopStep at h
    split at h <;> cases h <;> exact ⟨hl, hp⟩
  case decide | observeAbort => split at h <;> simp_all
  case viewChanged | pool => cases h; exact ⟨hl, hp⟩
  case closeBatcher =>
    split at h <;> cases h
    exact ⟨hl, hp⟩

theorem waitsOnDecide_exec {c c' : Ctl} {as : List Act} (hw : WaitsOnDecide c)
    (h : exec cfg c as = some c') : WaitsOnDecide c' :=
  Schedule.run_induction waitsOnDecide_step hw h

/-- Node 1 in view 0: `ViewChanged(1, 0)` comes in, the View calls `Decide`, and the
`select` takes the view change; `changeView` aborts the View and waits for it. -/
def viewChangeAgainstDecide : List Act := [.viewChanged 1 0, .decide, .select .viewChange, .run, .run]

/-- The View calls `Decide`, `Stop` closes `stopChan`, and the `select` takes it. -/
def stopAgainstDecide : List Act := [.decide, .stop, .select .stop, .run]

theorem decide_blocks_changeView_and_stop :
    (∃ c, Reachable node1 c ∧ c.loc = .wait 1 0 ∧ WaitsOnDecide c ∧
      ∀ as c', exec node1 c as = some c' → WaitsOnDecide c') ∧
    (∃ c, Reachable node1 c ∧ c.loc = .exitWait ∧ c.stopped = true ∧ WaitsOnDecide c ∧
      ∀ as c', exec node1 c as = some c' → WaitsOnDecide c') :=
  ⟨⟨_, reachable_exec (Reachable.init 0 0)
      (show exec node1 (start node1 0 0) viewChangeAgainstDecide = some _ from rfl),
      rfl, ⟨rfl, rfl⟩, fun _ _ => waitsOnDecide_exec ⟨rfl, rfl⟩⟩,
    ⟨_, reachable_exec (Reachable.init 0 0)
      (show exec node1 (start node1 0 0) stopAgainstDecide = some _ from rfl),
      rfl, rfl, ⟨rfl, rfl⟩, fun _ _ => waitsOnDecide_exec ⟨rfl, rfl⟩⟩⟩

/-- While the run loop waits on a View in `Decide`, a step is at most `Stop`'s. -/
theorem waitsOnDecide_label {c c' : Ctl} {a : Act} (hw : WaitsOnDecide c)
    (h : step cfg c a = some c') : label c a = none ∨ label c a = some .stop := by
  cases a <;> simp only [step] at h
  case run => simp [runStep_waitsOnDecide hw] at h
  case stop =>
    simp only [label]
    split <;> simp
  all_goals exact .inl rfl

/-- Once the run loop waits on a View in `Decide`, the controller is dead: no run from there
delivers a decision, aborts or installs a View, proposes or exits. Only `Stop` goes on. -/
theorem waitsOnDecide_labels {c c' : Ctl} {as : List Act} (hw : WaitsOnDecide c)
    (h : exec cfg c as = some c') : ∀ e ∈ labels cfg c as, e = .stop := by
  induction as generalizing c with
  | nil => simp [labels]
  | cons a as ih =>
    simp only [exec, Schedule.run, Option.bind_eq_some] at h
    obtain ⟨c₁, h₁, h₂⟩ := h
    simp only [labels, h₁, List.mem_append]
    rintro e (he | he)
    · rcases waitsOnDecide_label hw h₁ with hn | hs
      · simp [hn] at he
      · simpa [hs] using he
    · exact ih (waitsOnDecide_step hw h₁) h₂ e he

/-- In the state of `decide_blocks_changeView_and_stop` for a view change, a new
`ViewChanged` caller and `Stop` run to the end: the only event is `Stop`'s. -/
theorem waitsOnDecide_labels_stop :
    ∃ c c', Reachable node1 c ∧ WaitsOnDecide c ∧
      exec node1 c [.viewChanged 2 0, .stop, .stop, .stop] = some c' ∧
      labels node1 c [.viewChanged 2 0, .stop, .stop, .stop] = [.stop] ∧
      ∀ e ∈ labels node1 c [.viewChanged 2 0, .stop, .stop, .stop], e = .stop :=
  have hr := reachable_exec (Reachable.init 0 0)
    (show exec node1 (start node1 0 0) viewChangeAgainstDecide = some _ from rfl)
  ⟨_, _, hr, ⟨rfl, rfl⟩, rfl, rfl, waitsOnDecide_labels ⟨rfl, rfl⟩ rfl⟩

/-! ## A leader waiting for requests -/

def Loc.inGetNextBatch : Loc → Bool
  | .nextBatch => true
  | .stopCheck got => !got
  | _ => false

/-- The run loop is in `getNextBatch` over an empty pool and an open batcher, the controller
is not stopped and no `ViewChanged` caller is about to close the batcher; a `ViewChanged`
caller is blocked in its send and the View in `Decide`. -/
def ProposeHoldsUp (c : Ctl) : Prop :=
  c.loc.inGetNextBatch = true ∧ c.poolEmpty = true ∧ c.batcherOpen = true ∧ c.stopped = false ∧
    c.closing = 0 ∧ c.pending ≠ [] ∧ c.phase = .deciding

instance : DecidablePred ProposeHoldsUp := fun c =>
  inferInstanceAs (Decidable (c.loc.inGetNextBatch = true ∧ c.poolEmpty = true ∧
    c.batcherOpen = true ∧ c.stopped = false ∧ c.closing = 0 ∧ c.pending ≠ [] ∧ c.phase = .deciding))

/-- Until a request is pooled or `Stop` is called, every step keeps them so. -/
theorem proposeHoldsUp_step {c c' : Ctl} {a : Act} (hw : ProposeHoldsUp c) (ha : a ≠ .pool false)
    (hs : a ≠ .stop) (h : step cfg c a = some c') : ProposeHoldsUp c' := by
  obtain ⟨hl, hpe, hbo, hst, hcl, hpd, hph⟩ := hw
  cases a <;> simp only [step] at h
  case run =>
    unfold runStep at h
    cases hloc : c.loc <;> simp only [hloc, Loc.inGetNextBatch, Bool.false_eq_true] at hl h
    case nextBatch => cases h
    case stopCheck got =>
      simp only [Bool.not_eq_true'] at hl
      simp only [hst, hl, Bool.false_eq_true, if_false, Option.some.injEq] at h
      subst h
      exact ⟨rfl, hpe, hbo, rfl, hcl, hpd, hph⟩
  case select k => split at h <;> simp_all [Loc.inGetNextBatch]
  case nextBatch got => split at h <;> cases got <;> simp_all [nextBatchReady]
  case decide | observeAbort => split at h <;> simp_all
  case viewChanged v sq =>
    cases h
    exact ⟨hl, hpe, hbo, hst, hcl, by simp, hph⟩
  case closeBatcher => split at h <;> simp_all
  case stop => exact absurd rfl hs
  case pool e =>
    cases h
    cases e
    · exact absurd rfl ha
    · exact ⟨hl, rfl, hbo, hst, hcl, hpd, hph⟩

theorem proposeHoldsUp_exec {c c' : Ctl} {as : List Act} (hw : ProposeHoldsUp c)
    (has : ∀ a ∈ as, a ≠ .pool false ∧ a ≠ .stop) (h : exec cfg c as = some c') :
    ProposeHoldsUp c' :=
  Schedule.run_induction_of (fun ha hw h => proposeHoldsUp_step hw ha.1 ha.2 h) has hw h

/-- Node 0 leads view 0 and holds the token; the `select` takes it over an empty pool, then
`ViewChanged(1, 0)` comes in and the View calls `Decide`. -/
def proposeAgainstViewChange : List Act := [.select .leaderToken, .viewChanged 1 0, .decide]

theorem propose_blocks_viewChange :
    ∃ c, Reachable node0 c ∧ ProposeHoldsUp c ∧
      ∀ as c', (∀ a ∈ as, a ≠ .pool false ∧ a ≠ .stop) → exec node0 c as = some c' →
        ProposeHoldsUp c' :=
  ⟨_, reachable_exec (Reachable.init 0 0)
      (show exec node0 (start node0 0 0) proposeAgainstViewChange = some _ from rfl),
    by decide, fun _ _ has => proposeHoldsUp_exec (by decide) has⟩

/-! ## An idle leader without its token or its batcher -/

/-- The run loop is idle in its `select`, the controller is not stopped, and this node leads
the current view with no proposal of its own since the View was installed or a decision
delivered. -/
def IdleLeader (cfg : Config) (c : Ctl) : Prop :=
  c.loc = .select ∧ c.stopped = false ∧ (iAmTheLeader cfg c).1 = true ∧ c.proposed = false

instance (cfg : Config) : DecidablePred (IdleLeader cfg) := fun c =>
  inferInstanceAs (Decidable (c.loc = .select ∧ c.stopped = false ∧ (iAmTheLeader cfg c).1 = true ∧
    c.proposed = false))

/-- Node 0 leads view 4; a stale `ViewChanged(3, 0)` drains its token, then returns at the
staleness check. -/
def staleViewChange : List Act := [.viewChanged 3 0, .select .viewChange, .run, .run]

/-- Node 1 in view 0: `ViewChanged(1, 0)` installs view 1, which node 1 leads; `changeView`
resets the batcher and takes the token, and then the caller's `Close` lands. -/
def closeAfterReset : List Act :=
  [.viewChanged 1 0, .select .viewChange, .run, .run, .observeAbort, .run, .run, .run, .run,
    .closeBatcher]

theorem idle_leader_without_token_or_batcher :
    (∃ c, Reachable node0 c ∧ IdleLeader node0 c ∧ c.token = false) ∧
    (∃ c, Reachable node1 c ∧ IdleLeader node1 c ∧ c.batcherOpen = false) :=
  ⟨⟨_, reachable_exec (Reachable.init 4 0)
      (show exec node0 (start node0 4 0) staleViewChange = some _ from rfl), by decide, rfl⟩,
    ⟨_, reachable_exec (Reachable.init 0 0)
      (show exec node1 (start node1 0 0) closeAfterReset = some _ from rfl), by decide, rfl⟩⟩

/-! ## Where the run loop blocks -/

/-- The run loop's goroutine has no step: not its next statement, no case of its `select`,
and no return from `NextBatch`. -/
def RunBlocked (cfg : Config) (c : Ctl) : Prop :=
  step cfg c .run = none ∧ (∀ k, step cfg c (.select k) = none) ∧
    ∀ got, step cfg c (.nextBatch got) = none

/-- No case of the `select` is ready. -/
theorem select_eq_none_iff {c : Ctl} :
    (∀ k, select c k = none) ↔
      c.phase ≠ .deciding ∧ c.pending = [] ∧ c.stopped = false ∧ c.token = false := by
  constructor
  · intro h
    have h1 := h .decision
    have h3 := h .stop
    have h4 := h .leaderToken
    simp only [select, ite_eq_right_iff, reduceCtorEq, imp_false, Bool.not_eq_true] at h1 h3 h4
    refine ⟨h1, ?_, h3, h4⟩
    cases hp : c.pending with
    | nil => rfl
    | cons p _ => simpa [select, hp] using h .viewChange
  · rintro ⟨h1, h2, h3, h4⟩ k
    cases k <;> simp [select, h1, h2, h3, h4]

/-- Every other statement of the run loop can always run: the hand-back because the View
waits in it whenever the loop stands at `deliver`. -/
theorem runBlocked_iff {c : Ctl} (hr : Reachable cfg c) :
    RunBlocked cfg c ↔
      (c.loc = .select ∧ c.phase ≠ .deciding ∧ c.pending = [] ∧ c.stopped = false ∧
        c.token = false) ∨
      (c.loc = .nextBatch ∧ c.poolEmpty = true ∧ c.batcherOpen = true) ∨
      (c.loc.waitsForView = true ∧ c.phase ≠ .returned) ∨ c.loc = .exited := by
  have hP := (reachable_inv hr).phaseAt
  unfold RunBlocked
  simp only [step]
  cases hl : c.loc <;> rw [hl] at hP <;>
    simp [runStep, hl, Loc.waitsForView, PhaseAt, select_eq_none_iff, nextBatchReady] at hP ⊢
  case deliver => exact hP
  case check => split <;> simp
  case nextBatch => exact and_comm

/-- In the state of `decide_blocks_changeView_and_stop`, the run loop has no step. -/
theorem runBlocked_viewChangeAgainstDecide :
    ∃ c, Reachable node1 c ∧ RunBlocked node1 c ∧
      (RunBlocked node1 c ↔
        (c.loc = .select ∧ c.phase ≠ .deciding ∧ c.pending = [] ∧ c.stopped = false ∧
          c.token = false) ∨
        (c.loc = .nextBatch ∧ c.poolEmpty = true ∧ c.batcherOpen = true) ∨
        (c.loc.waitsForView = true ∧ c.phase ≠ .returned) ∨ c.loc = .exited) :=
  have hr := reachable_exec (Reachable.init 0 0)
    (show exec node1 (start node1 0 0) viewChangeAgainstDecide = some _ from rfl)
  ⟨_, hr, (runBlocked_iff hr).2 (.inr (.inr (.inl ⟨rfl, by decide⟩))), runBlocked_iff hr⟩

end SmartBft.Controller
