import SmartBft.Controller.Invariants
/-!
# What the controller is for

Seen from its View and the application, the controller runs one View at a time. It
delivers the View's decisions, each moving the View's sequence up by one; it aborts the
View; once the View is aborted it may install a new one, numbered at least as high; it hands
batches to the View only while the View is live and this node leads it; and after `Stop` it
exits, having aborted the View. `AbsCtl` and `AbsCtl.step` say this and nothing else: no
goroutines, channels or token.

Each step of the controller is one abstract event or none (`label`), and it moves the
abstract state by that event (`step_refines`). So every run of the controller, seen through
`Ctl.toAbs`, is a run of the abstract controller on the run's labels (`exec_refines`), and
what the abstract controller does over its runs holds of the code: while no View is
installed, the installed View's sequence moves up by exactly the number of decisions
delivered (`exec_sequence`).
-/

namespace SmartBft.Controller

/-- The controller seen from its View and the application. -/
structure AbsCtl where
  /-- The installed View's number. -/
  number : Nat
  /-- The installed View's proposal sequence. -/
  sequence : Nat
  /-- The installed View was aborted. -/
  aborted : Bool
  stopped : Bool
  /-- `run` has returned. -/
  exited : Bool
deriving DecidableEq, Repr

inductive AbsEvent
  /-- A decision of the View reaches the application. -/
  | deliver
  | abort
  /-- The View `(number, sequence)` replaces the aborted one. -/
  | install (number sequence : Nat)
  /-- A batch is handed to the View. -/
  | propose
  | stop
  | exit
deriving DecidableEq, Repr

def AbsEvent.isInstall : AbsEvent → Bool
  | .install _ _ => true
  | _ => false

variable (cfg : Config)

/-- What the controller may do next. -/
def AbsCtl.step (a : AbsCtl) : AbsEvent → Option AbsCtl
  | .deliver =>
    if a.aborted = false ∧ a.exited = false then some { a with sequence := a.sequence + 1 }
    else none
  | .abort =>
    if a.aborted = false ∧ a.exited = false then some { a with aborted := true } else none
  | .install v s =>
    if a.aborted = true ∧ a.number ≤ v ∧ a.exited = false then
      some { a with number := v, sequence := s, aborted := false }
    else none
  | .propose =>
    if a.aborted = false ∧ a.number % cfg.n = cfg.id ∧ a.exited = false then some a else none
  | .stop => some { a with stopped := true }
  | .exit =>
    if a.stopped = true ∧ a.aborted = true ∧ a.exited = false then
      some { a with exited := true }
    else none

/-- One abstract event, or none. -/
def AbsCtl.next (a : AbsCtl) : Option AbsEvent → Option AbsCtl
  | none => some a
  | some e => a.step cfg e

def AbsCtl.exec (a : AbsCtl) (es : List AbsEvent) : Option AbsCtl := Schedule.run (AbsCtl.step cfg) a es

/-! ## Runs of the abstract controller -/

/-- Outside an install, an event keeps the View and moves its sequence by one exactly when
it delivers a decision. -/
theorem AbsCtl.step_sequence {a b : AbsCtl} {e : AbsEvent} (he : e.isInstall = false)
    (h : a.step cfg e = some b) :
    b.number = a.number ∧ b.sequence = a.sequence + if e = .deliver then 1 else 0 := by
  cases e <;> simp only [AbsEvent.isInstall, Bool.true_eq_false] at he <;>
    simp only [AbsCtl.step] at h <;> (try split at h) <;> cases h <;> simp

theorem AbsCtl.sequence_of_exec {a b : AbsCtl} {es : List AbsEvent}
    (hi : ∀ e ∈ es, e.isInstall = false) (h : a.exec cfg es = some b) :
    b.number = a.number ∧ b.sequence = a.sequence + es.count .deliver := by
  induction es generalizing a with
  | nil => cases h; exact ⟨rfl, rfl⟩
  | cons e es ih =>
    simp only [AbsCtl.exec, Schedule.run, Option.bind_eq_some] at h
    obtain ⟨m, hm, h⟩ := h
    obtain ⟨hn, hs⟩ := step_sequence cfg (hi e (List.mem_cons_self e es)) hm
    obtain ⟨hn', hs'⟩ := ih (fun e' he' => hi e' (List.mem_cons_of_mem e he')) h
    refine ⟨hn'.trans hn, ?_⟩
    rw [hs', hs, List.count_cons]
    simp only [beq_iff_eq]
    split_ifs <;> omega

/-! ## The controller refines it -/

def Ctl.toAbs (c : Ctl) : AbsCtl :=
  ⟨c.view.number, c.view.proposalSequence, c.view.aborted, c.stopped, c.loc == .exited⟩

/-- The abstract event of a step of the controller: delivering a decision, aborting the View
in `changeView` or on exit, installing a View, proposing, closing `stopChan`, returning. -/
def label (c : Ctl) : Act → Option AbsEvent
  | .run =>
    match c.loc with
    | .deliver => some .deliver
    | .check v _ => if getCurrentViewNumber c > v then none else some .abort
    | .install s => some (.install c.viewNumber s)
    | .propose => some .propose
    | .exitAbort => some .abort
    | .exitWait => some .exit
    | _ => none
  | .stop => if c.stopLoc = .idle then some .stop else none
  | _ => none

/-- The labels of a schedule's steps, up to the first that cannot run. -/
def labels (c : Ctl) : List Act → List AbsEvent
  | [] => []
  | a :: as =>
    match step cfg c a with
    | some c' => (label c a).toList ++ labels c' as
    | none => []

variable {cfg}

theorem step_refines_run {c c' : Ctl} (hi : Inv cfg c) (h : runStep cfg c = some c') :
    c.toAbs.next cfg (label c .run) = some c'.toAbs := by
  obtain ⟨hA, -, -, -, -, hE⟩ := hi
  unfold runStep at h
  simp only [label]
  split at h <;> rename_i hl <;> rw [hl] at hA hE <;> simp only [AtLoc, Live, Current] at hA <;>
    simp only [hl]
  · -- `deliverChan <-`
    split at h <;> cases h
    simp [AbsCtl.next, AbsCtl.step, Ctl.toAbs, hl, hA.1.1, View.advance]
  · cases h
    split <;> simp [AbsCtl.next, Ctl.toAbs, hl, acquireLeaderToken]
  · cases h
    simp [AbsCtl.next, Ctl.toAbs, hl, relinquishLeaderToken]
  · -- the staleness check, then `Abort()`
    split at h <;> cases h <;> rename_i hv <;>
      simp [AbsCtl.next, AbsCtl.step, Ctl.toAbs, hl, hv, hA.1, View.abort]
  · split at h <;> cases h
    simp [AbsCtl.next, Ctl.toAbs, hl, setCurrentViewNumber]
  · -- `startView(s)`
    cases h
    split <;> simp [AbsCtl.next, AbsCtl.step, Ctl.toAbs, hl, hA.1, hA.2]
  · cases h
    simp [AbsCtl.next, Ctl.toAbs, hl]
  · cases h
    simp [AbsCtl.next, Ctl.toAbs, hl, acquireLeaderToken]
  · cases h
    split <;> (try split) <;> simp [AbsCtl.next, Ctl.toAbs, hl]
  · -- `currView.Propose`
    cases h
    simp only [Leads, leaderID_eq] at hA
    simp [AbsCtl.next, AbsCtl.step, Ctl.toAbs, hl, hA.1.1, hA.1.2.1, hA.2]
  · -- deferred `Abort()`
    cases h
    simp [AbsCtl.next, AbsCtl.step, Ctl.toAbs, hl, hA.1, View.abort]
  · -- deferred `viewEnd.Wait()`
    split at h <;> cases h
    simp [AbsCtl.next, AbsCtl.step, Ctl.toAbs, hl, hA.2, hE rfl]
  all_goals cases h

theorem step_refines {c c' : Ctl} {a : Act} (hi : Inv cfg c) (h : step cfg c a = some c') :
    c.toAbs.next cfg (label c a) = some c'.toAbs := by
  cases a <;> simp only [step] at h
  case run => exact step_refines_run hi h
  case select k =>
    split at h
    · rename_i hl
      cases k <;> simp only [select] at h <;> split at h <;> cases h <;>
        simp [label, AbsCtl.next, Ctl.toAbs, hl]
    · cases h
  case nextBatch got =>
    split at h <;> cases h
    simp [label, AbsCtl.next, Ctl.toAbs, ‹_ ∧ _›.1]
  case stop =>
    unfold stopStep at h
    split at h <;> cases h <;>
      simp [label, AbsCtl.next, AbsCtl.step, Ctl.toAbs, *, relinquishLeaderToken]
  case decide | observeAbort | closeBatcher =>
    split at h <;> cases h
    rfl
  case viewChanged | pool => cases h; rfl

theorem exec_next {a b : AbsCtl} {o : Option AbsEvent} (h : a.next cfg o = some b)
    (es : List AbsEvent) : a.exec cfg (o.toList ++ es) = b.exec cfg es := by
  cases o with
  | none => cases h; rfl
  | some e => simp only [AbsCtl.next] at h; simp [AbsCtl.exec, Schedule.run, h]

/-- Every run of the controller is a run of the abstract controller on its labels. -/
theorem exec_refines {c c' : Ctl} {as : List Act} (hr : Reachable cfg c)
    (h : exec cfg c as = some c') : c.toAbs.exec cfg (labels cfg c as) = some c'.toAbs := by
  induction as generalizing c with
  | nil => cases h; rfl
  | cons a as ih =>
    simp only [exec, Schedule.run, Option.bind_eq_some] at h
    obtain ⟨c₁, h₁, h₂⟩ := h
    simp only [labels, h₁]
    rw [exec_next (step_refines (reachable_inv hr) h₁)]
    exact ih (hr.step a h₁) h₂

/-- `restartLower`, then `startView`: the run aborts view 0 and installs it again at
sequence 1. -/
theorem exec_refines_restart :
    ∃ c', exec node1 (start node1 0 5) (restartLower ++ [.run]) = some c' ∧
      labels node1 (start node1 0 5) (restartLower ++ [.run]) = [.abort, .install 0 1] ∧
      (start node1 0 5).toAbs.exec node1 (labels node1 (start node1 0 5) (restartLower ++ [.run])) =
        some c'.toAbs :=
  have h : exec node1 (start node1 0 5) (restartLower ++ [.run]) = some _ := rfl
  ⟨_, h, rfl, exec_refines (Reachable.init 0 5) h⟩

/-! ## What the code inherits -/

/-- While no View is installed, the installed View's sequence moves up by exactly the
number of decisions delivered: none is lost or counted twice. -/
theorem exec_sequence {c c' : Ctl} {as : List Act} (hr : Reachable cfg c)
    (h : exec cfg c as = some c') (hi : ∀ e ∈ labels cfg c as, e.isInstall = false) :
    c'.view.number = c.view.number ∧
      c'.view.proposalSequence = c.view.proposalSequence + (labels cfg c as).count .deliver :=
  AbsCtl.sequence_of_exec cfg hi (exec_refines hr h)

/-- Two decisions delivered in view 0 move the sequence from 5 to 7. -/
def twoDecisions : List Act :=
  [.decide, .select .decision, .run, .run, .decide, .select .decision, .run]

theorem exec_sequence_two :
    ∃ c', exec node1 (start node1 0 5) twoDecisions = some c' ∧
      (∀ e ∈ labels node1 (start node1 0 5) twoDecisions, e.isInstall = false) ∧
      (labels node1 (start node1 0 5) twoDecisions).count .deliver = 2 ∧
      c'.view.number = (start node1 0 5).view.number ∧
      c'.view.proposalSequence = (start node1 0 5).view.proposalSequence +
        (labels node1 (start node1 0 5) twoDecisions).count .deliver :=
  have h : exec node1 (start node1 0 5) twoDecisions = some _ := rfl
  have hi : ∀ e ∈ labels node1 (start node1 0 5) twoDecisions, e.isInstall = false := by decide
  ⟨_, h, hi, by decide, exec_sequence (Reachable.init 0 5) h hi⟩

end SmartBft.Controller
