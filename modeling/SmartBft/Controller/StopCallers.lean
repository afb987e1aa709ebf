import SmartBft.Controller.Step
/-!
# `Stop` called more than once

`Controller.Stop` (controller.go) returns at once when `stopChan` is already closed, and
otherwise closes it, closes the Batcher and drains the leader token. The check and the close are
two statements: the `select` takes its default while `stopChan` is open, and `close` runs after
it. The controller model runs them as one step of one caller (`stopStep`). Here any number of
callers run `Stop` statement by statement, beside the controller's other goroutines (`Stops`).

With one caller the split changes nothing: every state it reaches is a state of the controller
model (`Stops.reachable_ctl`). With more, two callers can both take the default before either
closes, and the second `close(c.stopChan)` panics. From any state a panic can be reached exactly
when a caller is about to close a closed `stopChan`, or `stopChan` is open and two callers have
not yet got past their close (`Stop_panics_iff`). So a `Stop` that starts after another has
closed `stopChan` returns at its `select`, but two overlapping calls can panic.
-/

namespace SmartBft.Controller

/-- The statement a caller of `Stop` stands at. -/
inductive StopCall
  | idle
  /-- `select { case <-c.stopChan: return; default: }`. -/
  | select
  /-- `close(c.stopChan)`, after the `select` took its default. -/
  | close
  /-- `c.Batcher.Close()`. -/
  | closeBatcher
  /-- The `select` that drains the leader token. -/
  | drain
  | returned
  /-- `close` of a closed channel: the runtime panics. -/
  | panicked
deriving DecidableEq, Repr

/-- The caller has not got past its `close`. -/
def StopCall.beforeClose : StopCall → Bool
  | .idle | .select | .close => true
  | _ => false

/-- One statement of a caller of `Stop`; `none` once it has returned or panicked. The caller
that closed `stopChan` goes on as `stopStep` does, and `stopLoc` follows it. -/
def stopCall (c : Ctl) : StopCall → Option (Ctl × StopCall)
  | .idle => some (c, .select)
  | .select => some (c, if c.stopped then .returned else .close)
  | .close =>
    if c.stopped then some (c, .panicked)
    else some ({ c with stopped := true, stopLoc := .closeBatcher }, .closeBatcher)
  | .closeBatcher => some ({ c with batcherOpen := false, stopLoc := .drain }, .drain)
  | .drain => some ({ relinquishLeaderToken c with stopLoc := .done }, .returned)
  | .returned | .panicked => none

/-- The controller with `k` callers of `Stop`. -/
structure Stops (k : Nat) where
  ctl : Ctl
  calls : Fin k → StopCall

/-- A statement of a goroutine of the controller other than `Stop`'s, or of caller `i` of
`Stop`. -/
inductive StopsAct (k : Nat)
  | ctl (a : Act)
  | stop (i : Fin k)

variable (cfg : Config) {k : Nat}

def Stops.step (s : Stops k) : StopsAct k → Option (Stops k)
  | .ctl a =>
    if a = .stop then none else (Controller.step cfg s.ctl a).map fun c => { s with ctl := c }
  | .stop i => (stopCall s.ctl (s.calls i)).map fun r => ⟨r.1, Function.update s.calls i r.2⟩

def Stops.exec (s : Stops k) (as : List (StopsAct k)) : Option (Stops k) :=
  Schedule.run (Stops.step cfg) s as

/-- The states `Start` and any interleaving of the controller's goroutines and the callers of
`Stop` lead to. -/
inductive Stops.Reachable : Stops k → Prop
  | init (v s : Nat) : Stops.Reachable ⟨start cfg v s, fun _ => .idle⟩
  | step {s s' : Stops k} (a : StopsAct k) : Stops.Reachable s → s.step cfg a = some s' →
      Stops.Reachable s'

variable {cfg}

theorem Stops.reachable_exec {s s' : Stops k} {as : List (StopsAct k)} (hr : Stops.Reachable cfg s)
    (h : s.exec cfg as = some s') : Stops.Reachable cfg s' :=
  Schedule.run_induction (fun hr h => hr.step _ h) hr h

/-! ## What a step does to `stopChan` -/

/-- Only `Stop` closes `stopChan` or moves `stopLoc`. -/
theorem step_keeps_stop {c c' : Ctl} {a : Act} (ha : a ≠ .stop) (h : step cfg c a = some c') :
    c'.stopped = c.stopped ∧ c'.stopLoc = c.stopLoc := by
  cases a <;> simp only [step] at h
  case run =>
    unfold runStep at h
    split at h <;> (try split at h) <;> cases h <;> (try split) <;> exact ⟨rfl, rfl⟩
  case select case =>
    split at h
    · cases case <;> simp only [select] at h <;> (try split at h) <;> cases h <;> exact ⟨rfl, rfl⟩
    · cases h
  case stop => exact absurd rfl ha
  case nextBatch | decide | observeAbort | closeBatcher =>
    split at h <;> cases h
    exact ⟨rfl, rfl⟩
  case viewChanged | pool =>
    cases h
    exact ⟨rfl, rfl⟩

theorem Stops.step_ctl {s s' : Stops k} {a : Act} (h : s.step cfg (.ctl a) = some s') :
    a ≠ .stop ∧ Controller.step cfg s.ctl a = some s'.ctl ∧ s'.calls = s.calls := by
  simp only [Stops.step] at h
  split at h
  · cases h
  · rename_i ha
    obtain ⟨c, hc, rfl⟩ := Option.map_eq_some'.1 h
    exact ⟨ha, hc, rfl⟩

theorem Stops.step_stop {s s' : Stops k} {i : Fin k} (h : s.step cfg (.stop i) = some s') :
    ∃ pc, stopCall s.ctl (s.calls i) = some (s'.ctl, pc) ∧
      s'.calls = Function.update s.calls i pc := by
  simp only [Stops.step, Option.map_eq_some'] at h
  obtain ⟨⟨c, pc⟩, hc, rfl⟩ := h
  exact ⟨pc, hc, rfl⟩

/-! ## No caller can panic any more -/

/-- No caller has panicked; with `stopChan` closed none is about to close it; with it open at
most one caller has not got past its close. -/
structure NoPanic (s : Stops k) : Prop where
  not_panicked : ∀ i, s.calls i ≠ .panicked
  closed : s.ctl.stopped = true → ∀ i, s.calls i ≠ .close
  one_open : s.ctl.stopped = false →
    ∀ i j, (s.calls i).beforeClose = true → (s.calls j).beforeClose = true → i = j

/-- A step of caller `i` that keeps `stopChan` as it was and neither panics nor passes the
close keeps `NoPanic`. -/
theorem noPanic_update {s : Stops k} (hn : NoPanic s) {c : Ctl} (hstop : c.stopped = s.ctl.stopped)
    {i : Fin k} {pc : StopCall} (hp : pc ≠ .panicked) (hc : s.ctl.stopped = true → pc ≠ .close)
    (hb : pc.beforeClose = true → (s.calls i).beforeClose = true) :
    NoPanic ⟨c, Function.update s.calls i pc⟩ := by
  refine ⟨fun j => ?_, fun hs j => ?_, fun hs j j' hj hj' => ?_⟩
  · by_cases hji : j = i
    · subst hji; simpa using hp
    · simpa [Function.update_noteq hji] using hn.not_panicked j
  · rw [hstop] at hs
    by_cases hji : j = i
    · subst hji; simpa using hc hs
    · simpa [Function.update_noteq hji] using hn.closed hs j
  · have hbefore : ∀ l, (Function.update s.calls i pc l).beforeClose = true →
        (s.calls l).beforeClose = true := by
      intro l hl
      by_cases hli : l = i
      · subst hli; exact hb (by simpa using hl)
      · simpa [Function.update_noteq hli] using hl
    exact hn.one_open (hstop ▸ hs) j j' (hbefore j hj) (hbefore j' hj')

theorem noPanic_step {s s' : Stops k} {a : StopsAct k} (hn : NoPanic s)
    (h : s.step cfg a = some s') : NoPanic s' := by
  cases a with
  | ctl a =>
    obtain ⟨ha, hc, hcalls⟩ := Stops.step_ctl h
    have hstop := (step_keeps_stop ha hc).1
    exact ⟨hcalls ▸ hn.not_panicked, hstop ▸ hcalls ▸ hn.closed,
      hstop ▸ hcalls ▸ hn.one_open⟩
  | stop i =>
    obtain ⟨pc, hpc, hcalls⟩ := Stops.step_stop h
    obtain ⟨c', calls'⟩ := s'
    dsimp only at hpc hcalls
    subst hcalls
    cases hi : s.calls i <;> rw [hi] at hpc <;> simp only [stopCall] at hpc
    case idle =>
      cases hpc
      exact noPanic_update hn rfl nofun (fun _ => nofun) fun _ => hi ▸ rfl
    case select =>
      cases hpc
      exact noPanic_update hn rfl (by split <;> nofun) (fun hs => by simp [hs]) fun _ => hi ▸ rfl
    case close =>
      split at hpc
      · exact absurd hi (hn.closed ‹_› i)
      · rename_i hs
        cases hpc
        refine ⟨fun j => ?_, fun _ j => ?_, fun h => by simp at h⟩
        · by_cases hji : j = i
          · subst hji; simp
          · simpa [Function.update_noteq hji] using hn.not_panicked j
        · by_cases hji : j = i
          · subst hji; simp
          · simp only [Function.update_noteq hji]
            intro hjc
            exact hji (hn.one_open (by simpa using hs) j i (by rw [hjc]; rfl) (by rw [hi]; rfl))
    case closeBatcher | drain =>
      cases hpc
      exact noPanic_update hn (by rfl) (by nofun) (fun _ => by nofun) (by nofun)
    all_goals cases hpc

theorem noPanic_exec {s s' : Stops k} {as : List (StopsAct k)} (hn : NoPanic s)
    (h : s.exec cfg as = some s') : NoPanic s' :=
  Schedule.run_induction noPanic_step hn h

/-! ## Two callers before their close -/

/-- A caller that has not got past its close reaches it while `stopChan` stays open. -/
theorem exec_toClose (s : Stops k) (hs : s.ctl.stopped = false) {i : Fin k}
    (hi : (s.calls i).beforeClose = true) :
    ∃ as, s.exec cfg as = some ⟨s.ctl, Function.update s.calls i .close⟩ := by
  obtain ⟨c, calls⟩ := s
  dsimp only at hs hi ⊢
  cases hci : calls i <;> rw [hci] at hi <;> simp only [StopCall.beforeClose] at hi
  case idle =>
    refine ⟨[.stop i, .stop i], ?_⟩
    simp [Stops.exec, Schedule.run, Stops.step, stopCall, hci, hs]
  case select =>
    refine ⟨[.stop i], ?_⟩
    simp [Stops.exec, Schedule.run, Stops.step, stopCall, hci, hs]
  case close =>
    refine ⟨[], ?_⟩
    simp [Stops.exec, Schedule.run, ← hci]
  all_goals cases hi

/-- The conditions of `Stop_panics_iff` fail: no caller can panic any more. -/
theorem noPanic_of {s : Stops k}
    (h : ¬((∃ i, s.calls i = .panicked) ∨ (s.ctl.stopped = true ∧ ∃ i, s.calls i = .close) ∨
      (s.ctl.stopped = false ∧
        ∃ i j, i ≠ j ∧ (s.calls i).beforeClose = true ∧ (s.calls j).beforeClose = true))) :
    NoPanic s := by
  refine ⟨fun i hi => h (.inl ⟨i, hi⟩), fun hs i hi => h (.inr (.inl ⟨hs, i, hi⟩)),
    fun hs i j hi hj => ?_⟩
  by_contra hij
  exact h (.inr (.inr ⟨hs, i, j, hij, hi, hj⟩))

/-- From any state of the controller with its callers of `Stop`, some interleaving makes a
caller panic exactly when one already has, or one is about to close a closed `stopChan`, or
`stopChan` is open and two callers have not yet got past their close: then both take the
`select`'s default, one closes `stopChan`, and the other's `close` panics. -/
theorem Stop_panics_iff (s : Stops k) :
    (∃ as s', s.exec cfg as = some s' ∧ ∃ i, s'.calls i = .panicked) ↔
      (∃ i, s.calls i = .panicked) ∨ (s.ctl.stopped = true ∧ ∃ i, s.calls i = .close) ∨
        (s.ctl.stopped = false ∧
          ∃ i j, i ≠ j ∧ (s.calls i).beforeClose = true ∧ (s.calls j).beforeClose = true) := by
  constructor
  · rintro ⟨as, s', h, i, hi⟩
    by_contra hno
    exact (noPanic_exec (noPanic_of hno) h).not_panicked i hi
  · rintro (⟨i, hi⟩ | ⟨hs, i, hi⟩ | ⟨hs, i, j, hij, hi, hj⟩)
    · exact ⟨[], s, rfl, i, hi⟩
    · exact ⟨[.stop i], ⟨s.ctl, Function.update s.calls i .panicked⟩,
        by simp [Stops.exec, Schedule.run, Stops.step, stopCall, hi, hs], i, by simp⟩
    · -- both callers reach their close, `i` closes `stopChan`, `j` panics
      obtain ⟨as₁, h₁⟩ := exec_toClose s hs hi
      obtain ⟨as₂, h₂⟩ := exec_toClose ⟨s.ctl, Function.update s.calls i .close⟩ hs
        (show (Function.update s.calls i .close j).beforeClose = true by
          rwa [Function.update_noteq (Ne.symm hij)])
      have hfin : s.exec cfg (as₁ ++ as₂ ++ [.stop i, .stop j]) =
          some ⟨{ s.ctl with stopped := true, stopLoc := .closeBatcher },
            Function.update (Function.update (Function.update (Function.update s.calls i .close) j
              .close) i .closeBatcher) j .panicked⟩ := by
        rw [Stops.exec] at h₁ h₂ ⊢
        rw [Schedule.run_append, Schedule.run_append, h₁, Option.some_bind, h₂, Option.some_bind]
        simp [Stops.exec, Schedule.run, Stops.step, stopCall, hs, Function.update_noteq hij,
          Function.update_noteq (Ne.symm hij)]
      exact ⟨_, _, hfin, j, by simp⟩

/-- Two callers of `Stop` on the controller `Start(0, 0)` of node 1 can make it panic. -/
theorem Stop_panics_iff_twoCallers :
    ∃ as s', (⟨start node1 0 0, fun _ => .idle⟩ : Stops 2).exec node1 as = some s' ∧
      ∃ i, s'.calls i = .panicked :=
  (Stop_panics_iff _).2 (.inr (.inr ⟨rfl, 0, 1, by decide, rfl, rfl⟩))

/-! ## One caller: the controller model -/

/-- Where the controller model's `Stop` stands while its one caller stands at a statement. -/
def StopCall.stopLoc : StopCall → StopLoc
  | .idle | .select | .close => .idle
  | .closeBatcher => .closeBatcher
  | .drain => .drain
  | .returned | .panicked => .done

/-- With one caller, `stopLoc` follows it, `stopChan` is open until it closes it, and it has
not panicked. -/
structure OneCaller (s : Stops 1) : Prop where
  stopLoc : s.ctl.stopLoc = (s.calls 0).stopLoc
  open_before : (s.calls 0).beforeClose = true → s.ctl.stopped = false
  not_panicked : s.calls 0 ≠ .panicked

/-- A step of the one-caller system is a step of the controller model, or leaves the controller
as it was: the caller's `select` and `close` together are `stopStep`'s first statement. -/
theorem oneCaller_step {s s' : Stops 1} {a : StopsAct 1} (ho : OneCaller s)
    (h : s.step cfg a = some s') :
    OneCaller s' ∧ (s'.ctl = s.ctl ∨ ∃ a', step cfg s.ctl a' = some s'.ctl) := by
  cases a with
  | ctl a =>
    obtain ⟨ha, hc, hcalls⟩ := Stops.step_ctl h
    obtain ⟨hstop, hloc⟩ := step_keeps_stop ha hc
    exact ⟨⟨hloc.trans (hcalls ▸ ho.stopLoc), fun hb => hstop.trans (ho.open_before (hcalls ▸ hb)),
      hcalls ▸ ho.not_panicked⟩, .inr ⟨a, hc⟩⟩
  | stop i =>
    obtain rfl : i = 0 := Subsingleton.elim i 0
    obtain ⟨pc, hpc, hcalls⟩ := Stops.step_stop h
    obtain ⟨c', calls'⟩ := s'
    dsimp only at hpc hcalls ⊢
    subst hcalls
    have hloc := ho.stopLoc
    cases hi : s.calls 0 <;> rw [hi] at hpc hloc <;> simp only [stopCall, StopCall.stopLoc] at hpc hloc
    case idle =>
      cases hpc
      exact ⟨⟨by simpa [StopCall.stopLoc] using hloc, fun _ => ho.open_before (by rw [hi]; rfl),
        by simp⟩, .inl rfl⟩
    case select =>
      have hs := ho.open_before (by rw [hi]; rfl)
      simp only [hs] at hpc
      cases hpc
      exact ⟨⟨by simpa [StopCall.stopLoc] using hloc, fun _ => hs, by simp⟩, .inl rfl⟩
    case close =>
      have hs := ho.open_before (by rw [hi]; rfl)
      simp only [hs] at hpc
      cases hpc
      exact ⟨⟨by simp [StopCall.stopLoc], nofun, by simp⟩, .inr ⟨.stop, by simp [step, stopStep, hloc]⟩⟩
    case closeBatcher | drain =>
      cases hpc
      exact ⟨⟨by simp [StopCall.stopLoc], nofun, by simp⟩, .inr ⟨.stop, by simp [step, stopStep, hloc]⟩⟩
    all_goals cases hpc

/-- With one caller of `Stop`, splitting its `select` from its `close` changes nothing: every
state the controller and the caller reach is a state of the controller model, and the caller
never panics. So every result about the controller model holds for it. -/
theorem Stops.reachable_ctl {s : Stops 1} (hr : Stops.Reachable cfg s) :
    Controller.Reachable cfg s.ctl ∧ OneCaller s := by
  induction hr with
  | init v s =>
    have hs : (start cfg v s).stopped = false ∧ (start cfg v s).stopLoc = .idle := by
      dsimp only [start]; split <;> exact ⟨rfl, rfl⟩
    exact ⟨Controller.Reachable.init v s, ⟨hs.2, fun _ => hs.1, nofun⟩⟩
  | step a _ h ih =>
    obtain ⟨ho', hstep⟩ := oneCaller_step ih.2 h
    refine ⟨?_, ho'⟩
    rcases hstep with hc | ⟨a', ha'⟩
    · exact hc ▸ ih.1
    · exact ih.1.step a' ha'

/-- Node 1's controller, `Start(0, 0)`, and one `Stop` run to its end. -/
theorem Stops.reachable_ctl_stop :
    ∃ s : Stops 1, Stops.Reachable node1 s ∧ s.calls 0 = .returned ∧
      Controller.Reachable node1 s.ctl ∧ OneCaller s :=
  have hr := Stops.reachable_exec (Stops.Reachable.init 0 0)
    (show (⟨start node1 0 0, fun _ => .idle⟩ : Stops 1).exec node1
      [.stop 0, .stop 0, .stop 0, .stop 0, .stop 0] = some _ from rfl)
  ⟨_, hr, rfl, Stops.reachable_ctl hr⟩

end SmartBft.Controller
