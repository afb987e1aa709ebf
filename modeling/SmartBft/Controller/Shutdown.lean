import SmartBft.Controller.Blocking
import SmartBft.Controller.StopCallers
/-!
# What the run loop can still do

The run loop serves the other goroutines only at its `select`: a View in `Decide` waits there
for `<-c.decisionChan`, a `ViewChanged` caller for `<-c.viewChange`, and `run` returns there on
`<-c.stopChan`, then lets the View go with its deferred `Abort()` and `viewEnd.Wait()`.

A state is `Doomed` when the View is in `Decide` and the run loop is on its way to wait for it
without passing its `select` again: in `changeView` for a view that is not stale, or in its
deferred exit. From a state that is neither doomed nor exiting, some interleaving brings the
run loop back to its `select` with the View in its phase loop (`toSelect_of_inv`): a decision
in flight is delivered, an aborted View returns, and a `NextBatch` returns once requests come
in.

So from a reachable state some interleaving lets `run` return exactly when the state is not
doomed (`run_can_exit_iff`), and a `ViewChanged` caller blocked in its send, or a View in
`Decide`, can still be served exactly when the run loop is neither exiting nor doomed; otherwise
each stays blocked over every run (`blocked_served_iff`): once `run` has taken
`<-c.stopChan`, every `ViewChanged` call blocks forever.
-/

namespace SmartBft.Controller

variable {cfg : Config}

/-- The run loop gets to a `Wait` on the View before its `select`: in `changeView` for view `v`
when the current view number `n` is not past it, or in the deferred exit. -/
def Loc.headsToWait (n : Nat) : Loc → Bool
  | .relinquish v _ | .check v _ => decide (n ≤ v)
  | .wait _ _ | .exitAbort | .exitWait => true
  | _ => false

/-- The View is in `Decide` while the run loop heads to a `Wait` on it. -/
def Doomed (c : Ctl) : Prop := c.phase = .deciding ∧ c.loc.headsToWait c.viewNumber = true

instance : DecidablePred Doomed := fun c =>
  inferInstanceAs (Decidable (c.phase = .deciding ∧ c.loc.headsToWait c.viewNumber = true))

/-! ## A doomed controller stays doomed -/

theorem doomed_step {c c' : Ctl} {a : Act} (hd : Doomed c) (h : step cfg c a = some c') :
    Doomed c' := by
  obtain ⟨hp, hl⟩ := hd
  cases a <;> simp only [step] at h
  case run =>
    unfold runStep at h
    cases hc : c.loc <;> rw [hc] at hl <;> simp only [hc, Loc.headsToWait] at h hl
    case relinquish => cases h; exact ⟨hp, hl⟩
    case exitAbort => cases h; exact ⟨hp, rfl⟩
    case check v s =>
      split at h
      · simp only [getCurrentViewNumber, decide_eq_true_eq] at *; omega
      · cases h; exact ⟨hp, rfl⟩
    case wait | exitWait => split at h <;> simp_all
    all_goals cases hl
  case select =>
    split at h
    · rename_i hs; simp [hs, Loc.headsToWait] at hl
    · cases h
  case nextBatch =>
    split at h
    · rename_i hs; simp [hs.1, Loc.headsToWait] at hl
    · cases h
  case decide | observeAbort => split at h <;> simp_all
  case stop =>
    unfold stopStep at h
    split at h <;> cases h <;> exact ⟨hp, hl⟩
  case closeBatcher =>
    split at h <;> cases h
    exact ⟨hp, hl⟩
  case viewChanged | pool => cases h; exact ⟨hp, hl⟩

theorem doomed_exec {c c' : Ctl} {as : List Act} (hd : Doomed c) (h : exec cfg c as = some c') :
    Doomed c' :=
  Schedule.run_induction doomed_step hd h

/-! ## Schedules -/

variable (cfg) in
/-- Some schedule from `c` reaches a state where `P` holds. -/
def Reaches (P : Ctl → Prop) (c : Ctl) : Prop := ∃ as c', exec cfg c as = some c' ∧ P c'

section Reaches

variable {P Q : Ctl → Prop} {c : Ctl}

theorem Reaches.refl (h : P c) : Reaches cfg P c := ⟨[], c, rfl, h⟩

/-- A step that can be taken, from where `P` can be reached. -/
theorem Reaches.of_step (a : Act) (h : (step cfg c a).elim False (Reaches cfg P)) :
    Reaches cfg P c := by
  cases hc : step cfg c a with
  | none => rw [hc] at h; exact h.elim
  | some c' =>
    rw [hc] at h
    obtain ⟨as, c'', he, hp⟩ := h
    exact ⟨a :: as, c'', by rwa [exec, Schedule.run_cons_of_step hc], hp⟩

theorem Reaches.trans (h : Reaches cfg Q c) (h' : ∀ c', Q c' → Reaches cfg P c') :
    Reaches cfg P c := by
  obtain ⟨as, c₁, he₁, hq⟩ := h
  obtain ⟨bs, c₂, he₂, hp⟩ := h' c₁ hq
  rw [exec] at he₁ he₂
  exact ⟨as ++ bs, c₂, by rw [exec, Schedule.run_append, he₁, Option.some_bind, he₂], hp⟩

end Reaches

/-! ## Back to the `select` -/

/-- The run loop is back at its `select` with the View in its phase loop, and `stopChan` and
the `ViewChanged` callers are as in `c`. -/
def AtSelect (c c' : Ctl) : Prop :=
  c'.loc = .select ∧ c'.phase = .running ∧ c'.stopped = c.stopped ∧ c'.pending = c.pending ∧
    c'.closing = c.closing

section ToSelect

variable {c : Ctl}

/-- A decision in flight is delivered first: the `select` takes it, `Deliver` and the
hand-back run, and the claim. -/
theorem toSelect_select (hl : c.loc = .select) (hp : c.phase = .running ∨ c.phase = .deciding) :
    Reaches cfg (AtSelect c) c := by
  rcases hp with hp | hp
  · exact .refl ⟨hl, hp, rfl, rfl, rfl⟩
  refine .of_step (.select .decision) ?_
  simp only [step, select, hl, hp, Option.elim_some]
  refine .of_step .run ?_
  simp [step, runStep]
  refine .of_step .run ?_
  simp [step, runStep]
  split <;> exact .refl ⟨rfl, rfl, rfl, rfl, rfl⟩

theorem toSelect_claim (hl : c.loc = .claim) (hp : c.phase = .running ∨ c.phase = .deciding) :
    Reaches cfg (AtSelect c) c :=
  .of_step .run (by simp only [step, runStep, hl, Option.elim_some]; split <;> exact toSelect_select rfl hp)

theorem toSelect_deliver (hl : c.loc = .deliver) (hp : c.phase = .awaitingDelivery) :
    Reaches cfg (AtSelect c) c :=
  .of_step .run (by simp only [step, runStep, hl, hp, Option.elim_some]; exact toSelect_claim rfl (.inl rfl))

theorem toSelect_propose (hl : c.loc = .propose) (hp : c.phase = .running ∨ c.phase = .deciding) :
    Reaches cfg (AtSelect c) c :=
  .of_step .run (by simp only [step, runStep, hl, Option.elim_some]; exact toSelect_select rfl hp)

/-- `getNextBatch` got requests: it returns them to `propose`, or sees `stopChan` closed. -/
theorem toSelect_stopCheck_got (hl : c.loc = .stopCheck true)
    (hp : c.phase = .running ∨ c.phase = .deciding) : Reaches cfg (AtSelect c) c := by
  refine .of_step .run ?_
  simp only [step, runStep, hl, if_true]
  split
  · exact toSelect_select rfl hp
  · exact toSelect_propose rfl hp

/-- `NextBatch` returns once requests come in. -/
theorem toSelect_nextBatch (hl : c.loc = .nextBatch)
    (hp : c.phase = .running ∨ c.phase = .deciding) : Reaches cfg (AtSelect c) c := by
  have hgot : ∀ c₁ : Ctl, c₁.loc = .nextBatch → (c₁.phase = .running ∨ c₁.phase = .deciding) →
      c₁.poolEmpty = false → Reaches cfg (AtSelect c₁) c₁ := fun c₁ hl₁ hp₁ he₁ =>
    .of_step (.nextBatch true)
      (by simp only [step, hl₁, nextBatchReady, he₁, Option.elim_some]; exact toSelect_stopCheck_got rfl hp₁)
  cases he : c.poolEmpty
  · exact hgot c hl hp he
  · exact .of_step (.pool false) (by simp [step]; exact hgot _ hl hp rfl)

theorem toSelect_stopCheck {got : Bool} (hl : c.loc = .stopCheck got)
    (hp : c.phase = .running ∨ c.phase = .deciding) : Reaches cfg (AtSelect c) c := by
  cases got
  · refine .of_step .run ?_
    simp only [step, runStep, hl]
    split
    · exact toSelect_select rfl hp
    · exact toSelect_nextBatch rfl hp
  · exact toSelect_stopCheck_got hl hp

theorem toSelect_acquire (hl : c.loc = .acquire) (hp : c.phase = .running ∨ c.phase = .deciding) :
    Reaches cfg (AtSelect c) c :=
  .of_step .run (by simp only [step, runStep, hl, Option.elim_some]; exact toSelect_select rfl hp)

theorem toSelect_reset (hl : c.loc = .reset) (hp : c.phase = .running ∨ c.phase = .deciding) :
    Reaches cfg (AtSelect c) c :=
  .of_step .run (by simp only [step, runStep, hl, Option.elim_some]; exact toSelect_acquire rfl hp)

/-- `startView` runs a new View, and `changeView` goes back to the `select`. -/
theorem toSelect_install {s : Nat} (hl : c.loc = .install s) : Reaches cfg (AtSelect c) c :=
  .of_step .run (by
    simp only [step, runStep, hl, Option.elim_some]
    split
    · exact toSelect_reset rfl (.inl rfl)
    · exact toSelect_select rfl (.inl rfl))

/-- `changeView`'s `viewEnd.Wait()`: the aborted View returns. -/
theorem toSelect_wait {v s : Nat} (hl : c.loc = .wait v s) (hab : c.view.aborted = true)
    (hp : c.phase = .running ∨ c.phase = .returned) : Reaches cfg (AtSelect c) c := by
  have hret : ∀ c₁ : Ctl, c₁.loc = .wait v s → c₁.phase = .returned →
      Reaches cfg (AtSelect c₁) c₁ := fun c₁ hl₁ hp₁ =>
    .of_step .run (by simp only [step, runStep, hl₁, hp₁, Option.elim_some]; exact toSelect_install rfl)
  rcases hp with hp | hp
  · exact .of_step .observeAbort (by simp only [step, hp, hab, Option.elim_some]; exact hret _ hl rfl)
  · exact hret c hl hp

/-- The staleness check: back to the `select`, or abort the View and wait for it. -/
theorem toSelect_check {v s : Nat} (hl : c.loc = .check v s)
    (hp : c.phase = .running ∨ c.phase = .deciding) (hnd : c.phase = .deciding → v < c.viewNumber) :
    Reaches cfg (AtSelect c) c := by
  by_cases hv : v < c.viewNumber
  · exact .of_step .run (by
      simp only [step, runStep, hl, getCurrentViewNumber, hv, Option.elim_some]
      exact toSelect_select rfl hp)
  · have hrun : c.phase = .running := hp.resolve_right fun h => hv (hnd h)
    exact .of_step .run (by
      simp only [step, runStep, hl, getCurrentViewNumber, hv, Option.elim_some]
      exact toSelect_wait rfl rfl (.inl hrun))

theorem toSelect_relinquish {v s : Nat} (hl : c.loc = .relinquish v s)
    (hp : c.phase = .running ∨ c.phase = .deciding) (hnd : c.phase = .deciding → v < c.viewNumber) :
    Reaches cfg (AtSelect c) c :=
  .of_step .run (by simp only [step, runStep, hl, Option.elim_some]; exact toSelect_check rfl hp hnd)

end ToSelect

/-- A run loop that is neither exiting nor doomed gets back to its `select`. -/
theorem toSelect_of_inv {c : Ctl} (hi : Inv cfg c) (hne : c.loc.exiting = false)
    (hnd : ¬ Doomed c) : Reaches cfg (AtSelect c) c := by
  obtain ⟨hA, hP, -, -, -, -⟩ := hi
  have hnd' : c.phase = .deciding → c.loc.headsToWait c.viewNumber = false := fun hp =>
    Bool.eq_false_iff.2 fun h => hnd ⟨hp, h⟩
  cases hl : c.loc <;> rw [hl] at hA hP hnd' hne <;> simp only [Loc.headsToWait] at hnd'
  case select => exact toSelect_select hl hP
  case deliver => exact toSelect_deliver hl hP
  case claim => exact toSelect_claim hl hP
  case relinquish => exact toSelect_relinquish hl hP (by simpa using hnd')
  case check => exact toSelect_check hl hP (by simpa using hnd')
  case wait => exact toSelect_wait hl hA.2.2 (by cases h : c.phase <;> simp_all [PhaseAt])
  case install => exact toSelect_install hl
  case reset => exact toSelect_reset hl hP
  case acquire => exact toSelect_acquire hl hP
  case nextBatch => exact toSelect_nextBatch hl hP
  case stopCheck => exact toSelect_stopCheck hl hP
  case propose => exact toSelect_propose hl hP
  all_goals cases hne

/-! ## Out of `run` -/

section Exits

variable {c : Ctl}

/-- The deferred `viewEnd.Wait()`: the View sees the abort and returns. -/
theorem exits_exitWait (hl : c.loc = .exitWait) (hab : c.view.aborted = true)
    (hp : c.phase = .running ∨ c.phase = .returned) : Reaches cfg (·.loc = .exited) c := by
  have hret : ∀ c₁ : Ctl, c₁.loc = .exitWait → c₁.phase = .returned →
      Reaches cfg (·.loc = .exited) c₁ :=
    fun c₁ hl₁ hp₁ => .of_step .run (by simp only [step, runStep, hl₁, hp₁, Option.elim_some]; exact .refl rfl)
  rcases hp with hp | hp
  · exact .of_step .observeAbort (by simp only [step, hp, hab, Option.elim_some]; exact hret _ hl rfl)
  · exact hret c hl hp

theorem exits_exitAbort (hl : c.loc = .exitAbort) (hp : c.phase = .running) :
    Reaches cfg (·.loc = .exited) c :=
  .of_step .run (by simp only [step, runStep, hl, Option.elim_some]; exact exits_exitWait rfl rfl (.inl hp))

/-- The `select` takes `<-c.stopChan`. -/
theorem exits_select (hl : c.loc = .select) (hp : c.phase = .running) (hs : c.stopped = true) :
    Reaches cfg (·.loc = .exited) c :=
  .of_step (.select .stop) (by simp [step, select, hl, hs]; exact exits_exitAbort rfl hp)

end Exits

/-- With `stopChan` closed, a state that is not doomed lets the run loop out. -/
theorem exits_of_stopped {c : Ctl} (hi : Inv cfg c) (hs : c.stopped = true) (hnd : ¬ Doomed c) :
    Reaches cfg (·.loc = .exited) c := by
  cases hne : c.loc.exiting
  · exact (toSelect_of_inv hi hne hnd).trans fun c' ⟨hl, hp, hs', _⟩ =>
      exits_select hl hp (hs'.trans hs)
  · obtain ⟨hA, hP, -, -, -, -⟩ := hi
    have hnd' : c.phase = .deciding → c.loc.headsToWait c.viewNumber = false := fun hp =>
      Bool.eq_false_iff.2 fun h => hnd ⟨hp, h⟩
    cases hl : c.loc <;> rw [hl] at hA hP hnd' hne <;> simp only [Loc.headsToWait] at hnd'
    case exitAbort => exact exits_exitAbort hl (by cases h : c.phase <;> simp_all [PhaseAt])
    case exitWait => exact exits_exitWait hl hA.2 (by cases h : c.phase <;> simp_all [PhaseAt])
    case exited => exact .refl hl
    all_goals cases hne

/-- `stopChan` stays open until `Stop` starts. -/
theorem stopLoc_of_not_stopped {c : Ctl} (hr : Reachable cfg c) (hs : c.stopped = false) :
    c.stopLoc = .idle := by
  induction hr with
  | init v s =>
    unfold start
    dsimp only
    split <;> rfl
  | step a _ h ih =>
    by_cases ha : a = .stop
    · subst ha
      simp only [step, stopStep] at h
      split at h <;> cases h <;> simp_all [relinquishLeaderToken]
    · obtain ⟨h₁, h₂⟩ := step_keeps_stop ha h
      rw [h₂]
      exact ih (h₁ ▸ hs)

/-- From any reachable state, some interleaving of the controller's goroutines, `Stop` and
incoming requests brings the run loop out of `run` exactly when the View is not in `Decide` with
the run loop on its way to wait for it. Then `Stop` closes `stopChan`, a decision in flight is
delivered, the View sees its abort, and `run` returns through its `select`. Otherwise no
interleaving ever lets `run` return. -/
theorem run_can_exit_iff {c : Ctl} (hr : Reachable cfg c) :
    (∃ as c', exec cfg c as = some c' ∧ c'.loc = .exited) ↔ ¬ Doomed c := by
  constructor
  · rintro ⟨as, c', he, hl⟩ hd
    have hw := (doomed_exec hd he).2
    simp [hl, Loc.headsToWait] at hw
  · intro hnd
    cases hs : c.stopped
    · /- `Stop` has not started: its first statement closes `stopChan`. -/
      have h₁ : step cfg c .stop = some { c with stopped := true, stopLoc := .closeBatcher } := by
        simp [step, stopStep, stopLoc_of_not_stopped hr hs]
      refine Reaches.of_step .stop ?_
      rw [h₁]
      exact exits_of_stopped (reachable_inv (hr.step .stop h₁)) rfl hnd
    · exact exits_of_stopped (reachable_inv hr) hs hnd

/-- Node 1 after `Start(0, 0)`: `run` can return. After the View calls `Decide` and `Stop`'s
signal is taken first, it never can. -/
theorem run_can_exit_start :
    (∃ as c', exec node1 (start node1 0 0) as = some c' ∧ c'.loc = .exited) ∧
    ∃ c, Reachable node1 c ∧ ¬ ∃ as c', exec node1 c as = some c' ∧ c'.loc = .exited :=
  ⟨(run_can_exit_iff (.init 0 0)).2 (by decide),
    have hr := reachable_exec (Reachable.init 0 0)
      (show exec node1 (start node1 0 0) [.decide, .stop, .select .stop] = some _ from rfl)
    ⟨_, hr, fun h => (run_can_exit_iff hr).1 h (by decide)⟩⟩

/-! ## The goroutines blocked on the run loop -/

/-- The run loop is exiting, or waits on a View in `Decide`: it never gets back to its
`select`. -/
def Unserving (c : Ctl) : Prop := c.loc.exiting = true ∨ Doomed c

/-- Away from the `select` no `ViewChanged` caller's send is received: callers only join. -/
theorem pending_prefix_step {c c' : Ctl} {a : Act} (hl : c.loc ≠ .select)
    (h : step cfg c a = some c') : c.pending <+: c'.pending := by
  cases a <;> simp only [step] at h
  case select => simp [hl] at h
  case viewChanged => cases h; exact List.prefix_append _ _
  case run =>
    unfold runStep at h
    split at h <;> (try split at h) <;> cases h <;> (try split) <;> exact List.prefix_refl _
  case stop => unfold stopStep at h; split at h <;> cases h <;> exact List.prefix_refl _
  all_goals (try split at h) <;> cases h
  all_goals exact List.prefix_refl _

/-- The deferred exit only goes on, and the View does not leave `Decide` meanwhile. -/
theorem exiting_step {c c' : Ctl} {a : Act} (hl : c.loc.exiting = true)
    (h : step cfg c a = some c') :
    c'.loc.exiting = true ∧ (c.phase = .deciding → c'.phase = .deciding) := by
  cases a <;> simp only [step] at h
  case run =>
    unfold runStep at h
    cases hc : c.loc <;> simp only [hc, Loc.exiting] at h hl
    case exitAbort => cases h; exact ⟨rfl, id⟩
    case exitWait => split at h <;> cases h; exact ⟨rfl, id⟩
    case exited => cases h
    all_goals cases hl
  case select | nextBatch => split at h <;> simp_all [Loc.exiting]
  case decide | observeAbort =>
    split at h <;> cases h
    exact ⟨hl, fun hd => by simp_all⟩
  case stop => unfold stopStep at h; split at h <;> cases h <;> exact ⟨hl, id⟩
  case closeBatcher => split at h <;> cases h; exact ⟨hl, id⟩
  case viewChanged | pool => cases h; exact ⟨hl, id⟩

theorem unserving_step {c c' : Ctl} {a : Act} (hu : Unserving c) (h : step cfg c a = some c') :
    Unserving c' ∧ c.pending <+: c'.pending ∧ (c.phase = .deciding → c'.phase = .deciding) := by
  have hsel : c.loc ≠ .select := by
    rcases hu with hu | ⟨-, hu⟩ <;> intro hl <;> simp [hl, Loc.exiting, Loc.headsToWait] at hu
  rcases hu with hu | hd
  · obtain ⟨he, hp⟩ := exiting_step hu h
    exact ⟨.inl he, pending_prefix_step hsel h, hp⟩
  · have hd' := doomed_step hd h
    exact ⟨.inr hd', pending_prefix_step hsel h, fun _ => hd'.1⟩

theorem unserving_exec {c c' : Ctl} {as : List Act} (hu : Unserving c)
    (h : exec cfg c as = some c') :
    c.pending <+: c'.pending ∧ (c.phase = .deciding → c'.phase = .deciding) :=
  (@Schedule.run_induction _ _ (step cfg)
    (fun c' => Unserving c' ∧ c.pending <+: c'.pending ∧ (c.phase = .deciding → c'.phase = .deciding))
    (fun ⟨hu, hpre, hdec⟩ h => have ⟨hu', hpre', hdec'⟩ := unserving_step hu h
      ⟨hu', hpre.trans hpre', hdec' ∘ hdec⟩)
    c c' as ⟨hu, List.prefix_refl _, id⟩ h).2

/-- The `ViewChanged` callers past their send call `Batcher.Close()`. -/
theorem reaches_closed : ∀ (m : Nat) (c : Ctl), c.closing = m →
    Reaches cfg (fun c' => c'.pending = c.pending ∧ c'.closing = 0 ∧ c'.phase = c.phase) c
  | 0, _, h => .refl ⟨rfl, h, rfl⟩
  | m + 1, _, h => .of_step .closeBatcher (by simp [step, h]; exact reaches_closed m _ rfl)

/-- At its `select` with the View in its phase loop, the run loop takes every `ViewChanged`
caller's send in turn, each `changeView` coming back to the `select`. -/
theorem served_of_select : ∀ (m : Nat) (c : Ctl), c.pending.length = m → c.loc = .select →
    c.phase = .running →
      Reaches cfg (fun c' => c'.pending = [] ∧ c'.closing = 0 ∧ c'.phase = .running) c
  | 0, c, hm, _, hp => (reaches_closed c.closing c rfl).trans fun _ ⟨hpend, hcl, hph⟩ =>
      .refl ⟨hpend.trans (List.length_eq_zero.1 hm), hcl, hph.trans hp⟩
  | m + 1, c, hm, hl, hp => by
    cases hc : c.pending with
    | nil => simp [hc] at hm
    | cons vs rest =>
      obtain ⟨v, s⟩ := vs
      refine .of_step (.select .viewChange) ?_
      simp [step, select, hl, hc]
      exact Reaches.trans (toSelect_relinquish rfl (.inl hp) fun h => nomatch hp.symm.trans h)
        fun c' ⟨hl', hp', _, hpend', _⟩ =>
          served_of_select m c' (by simpa [hpend', hc] using hm) hl' hp'

/-- A goroutine blocked on the run loop, a `ViewChanged` caller in its send on `viewChange` or
the View in `Decide`'s send on `decisionChan`, can still be served exactly when the run loop is
neither exiting nor doomed. Then the run loop delivers the decision and takes every send in
turn, and each caller's `Batcher.Close()` runs. Otherwise none of them is ever served: over
every run, each caller blocked in its send stays blocked there, in the same order, and a View in
`Decide` stays there. So once `run` has taken `<-c.stopChan`, every `ViewChanged` call blocks
forever. -/
theorem blocked_served_iff {c : Ctl} (hr : Reachable cfg c)
    (hb : c.pending ≠ [] ∨ c.phase = .deciding) :
    ((∃ as c', exec cfg c as = some c' ∧ c'.pending = [] ∧ c'.closing = 0 ∧ c'.phase = .running) ↔
      c.loc.exiting = false ∧ ¬ Doomed c) ∧
    (c.loc.exiting = true ∨ Doomed c → ∀ as c', exec cfg c as = some c' →
      c.pending <+: c'.pending ∧ (c.phase = .deciding → c'.phase = .deciding)) := by
  refine ⟨⟨?_, ?_⟩, fun hu _ _ he => unserving_exec hu he⟩
  · rintro ⟨as, c', he, hpend, -, hph⟩
    by_contra hs
    have hu : Unserving c := by
      cases hex : c.loc.exiting
      · exact .inr (by_contra fun hd => hs ⟨hex, hd⟩)
      · exact .inl hex
    obtain ⟨hpre, hdec⟩ := unserving_exec hu he
    rcases hb with hb | hb
    · exact hb (List.prefix_nil.1 (hpend ▸ hpre))
    · exact absurd (hph.symm.trans (hdec hb)) nofun
  · rintro ⟨hne, hnd⟩
    exact (toSelect_of_inv (reachable_inv hr) hne hnd).trans fun c' ⟨hl, hp, _⟩ =>
      served_of_select _ c' rfl hl hp

/-- Node 1 after `Start(0, 0)`: a `ViewChanged(1, 0)` caller can be served. Once `Stop` has
closed `stopChan` and `run` has returned, a new `ViewChanged(1, 0)` caller stays blocked in its
send over every run. -/
theorem blocked_served_afterStop :
    ∃ c₁ c₂, Reachable node1 c₁ ∧ c₁.pending = [(1, 0)] ∧
      (∃ as c', exec node1 c₁ as = some c' ∧ c'.pending = [] ∧ c'.closing = 0 ∧
        c'.phase = .running) ∧
      Reachable node1 c₂ ∧ c₂.loc = .exited ∧ c₂.pending = [(1, 0)] ∧
      ∀ as c', exec node1 c₂ as = some c' → [(1, 0)] <+: c'.pending :=
  have hr₁ := reachable_exec (Reachable.init 0 0)
    (show exec node1 (start node1 0 0) [.viewChanged 1 0] = some _ from rfl)
  have hr₂ := reachable_exec (Reachable.init 0 0)
    (show exec node1 (start node1 0 0)
      [.stop, .select .stop, .run, .observeAbort, .run, .viewChanged 1 0] = some _ from rfl)
  ⟨_, _, hr₁, rfl, (blocked_served_iff hr₁ (.inl (List.cons_ne_nil _ _))).1.2 ⟨rfl, by decide⟩,
    hr₂, rfl, rfl,
    fun as c' h => ((blocked_served_iff hr₂ (.inl (List.cons_ne_nil _ _))).2 (.inl rfl) as c' h).1⟩

end SmartBft.Controller
