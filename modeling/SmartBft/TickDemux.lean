import Mathlib.Data.Fintype.Fin
import SmartBft.Schedule
/-!
# The tick demultiplexer

`TickDemultiplexer` (util.go) fans one clock out to several consumers. `Start` launches a
goroutine that, until `stopChan` is closed, reads a tick from `In` and runs `tick`: one
goroutine per `Out` channel sends the tick on it, and a `WaitGroup` waits until every send is
done. `Stop` closes `stopChan` inside `stopOnce.Do` and waits until the goroutine has returned;
a second `Stop` returns once the first one's function has. `Consensus.Start` builds one over
the pool's, the leader monitor's and the view changer's clocks; `Consensus.Stop` stops it
first.

The state holds the statement the goroutine stands at, the `Out` channels whose sender in the
current tick is still in its send, and where `Stop` stands. An `Out` channel is an entry of
`td.Out`, indexed by `Fin k`; it receives a tick when its sender's send completes, which on the
unbuffered channels `Consensus` gives is when the consumer takes it. Consumers take their
ticks whenever they like, so the sends complete in any order, and `In` delivers any ticks.
`read` and `received` are not in the code: the ticks read from `In`, and those each `Out`
channel received.

In every state after `Start` (`TickDemultiplexer.Reachable`), each `Out` channel has received
the ticks read, in order, but for the tick being fanned out (`TickDemultiplexer.Inv`).
-/

namespace SmartBft

/-- The statement the demultiplexing goroutine stands at. -/
inductive DemuxLoc (T : Type)
  /-- The `select` over `td.stopChan` and `td.In`. -/
  | select
  /-- In `tick(now)`, at `wg.Wait()`. -/
  | tick (now : T)
  /-- Returned, after `td.running.Done()`. -/
  | exited
deriving DecidableEq, Repr

/-- Where the `Stop` that runs `stopOnce`'s function stands. -/
inductive DemuxStop
  | idle
  /-- After `close(td.stopChan)`: `td.running.Wait()`. -/
  | waiting
  | returned
deriving DecidableEq, Repr

structure TickDemultiplexer (T : Type) (k : Nat) where
  /-- `stopChan` is closed. -/
  stopClosed : Bool
  loc : DemuxLoc T
  /-- The `Out` channels whose sender of the current tick is still in its send. -/
  pending : Finset (Fin k)
  stop : DemuxStop
  /-- Not in the code: the ticks read from `In`, oldest first. -/
  read : List T
  /-- Not in the code: the ticks each `Out` channel received, oldest first. -/
  received : Fin k → List T

namespace TickDemultiplexer

variable {T : Type} {k : Nat}

/-- `Start()`: a new `stopChan`, `running.Add(1)`, and the goroutine at its `select`. -/
def Start : TickDemultiplexer T k := ⟨false, .select, ∅, .idle, [], fun _ => []⟩

inductive Act (T : Type) (k : Nat)
  /-- The `select` takes `<-td.stopChan` and the goroutine returns. -/
  | selectStop
  /-- The `select` takes `now := <-td.In`; `tick(now)` starts a sender per `Out` channel. -/
  | selectIn (now : T)
  /-- The sender for `Out[o]` completes `out <- now` and calls `wg.Done()`. -/
  | send (o : Fin k)
  /-- `wg.Wait()` returns, and so does `tick`. -/
  | tickDone
  /-- `Stop` closes `stopChan`. -/
  | stopClose
  /-- `td.running.Wait()` returns, and so does `Stop`. -/
  | stopReturn
deriving DecidableEq, Repr

/-- One goroutine executes its next statement; `none` when it is blocked. -/
def step (td : TickDemultiplexer T k) : Act T k → Option (TickDemultiplexer T k)
  | .selectStop =>
    match td.loc with
    | .select => if td.stopClosed then some { td with loc := .exited } else none
    | _ => none
  | .selectIn now =>
    match td.loc with
    | .select => some { td with loc := .tick now, pending := Finset.univ, read := td.read ++ [now] }
    | _ => none
  | .send o =>
    match td.loc with
    | .tick now =>
      if o ∈ td.pending then
        some { td with
          pending := td.pending.erase o,
          received := Function.update td.received o (td.received o ++ [now]) }
      else none
    | _ => none
  | .tickDone =>
    match td.loc with
    | .tick _ => if td.pending = ∅ then some { td with loc := .select } else none
    | _ => none
  | .stopClose => if td.stop = .idle then some { td with stopClosed := true, stop := .waiting } else none
  | .stopReturn =>
    match td.stop, td.loc with
    | .waiting, .exited => some { td with stop := .returned }
    | _, _ => none

/-- The states `Start` and any interleaving lead to. -/
inductive Reachable : TickDemultiplexer T k → Prop
  | start : Reachable Start
  | step {td td' : TickDemultiplexer T k} (a : Act T k) : Reachable td → td.step a = some td' →
      Reachable td'

def exec (td : TickDemultiplexer T k) (as : List (Act T k)) : Option (TickDemultiplexer T k) :=
  Schedule.run step td as

theorem reachable_exec {td td' : TickDemultiplexer T k} {as : List (Act T k)}
    (hr : Reachable td) (h : td.exec as = some td') : Reachable td' :=
  Schedule.run_induction (fun hr h => hr.step _ h) hr h

/-! ## What each step needs and does -/

section Steps

variable {td td' : TickDemultiplexer T k}

theorem selectStop_eq_some (h : td.step .selectStop = some td') :
    td.loc = .select ∧ td.stopClosed = true ∧ td' = { td with loc := .exited } := by
  simp only [step] at h
  split at h <;> try split at h
  all_goals cases h
  exact ⟨‹_›, ‹_›, rfl⟩

theorem selectIn_eq_some {now : T} (h : td.step (.selectIn now) = some td') :
    td.loc = .select ∧
      td' = { td with loc := .tick now, pending := Finset.univ, read := td.read ++ [now] } := by
  simp only [step] at h
  split at h <;> cases h
  exact ⟨‹_›, rfl⟩

theorem send_eq_some {o : Fin k} (h : td.step (.send o) = some td') :
    ∃ now, td.loc = .tick now ∧ o ∈ td.pending ∧ td' = { td with
      pending := td.pending.erase o,
      received := Function.update td.received o (td.received o ++ [now]) } := by
  simp only [step] at h
  split at h <;> try split at h
  all_goals cases h
  exact ⟨_, ‹_›, ‹_›, rfl⟩

theorem tickDone_eq_some (h : td.step .tickDone = some td') :
    ∃ now, td.loc = .tick now ∧ td.pending = ∅ ∧ td' = { td with loc := .select } := by
  simp only [step] at h
  split at h <;> try split at h
  all_goals cases h
  exact ⟨_, ‹_›, ‹_›, rfl⟩

theorem stopClose_eq_some (h : td.step .stopClose = some td') :
    td.stop = .idle ∧ td' = { td with stopClosed := true, stop := .waiting } := by
  simp only [step] at h
  split at h <;> cases h
  exact ⟨‹_›, rfl⟩

theorem stopReturn_eq_some (h : td.step .stopReturn = some td') :
    td.stop = .waiting ∧ td.loc = .exited ∧ td' = { td with stop := .returned } := by
  simp only [step] at h
  split at h <;> cases h
  exact ⟨‹_›, ‹_›, rfl⟩

end Steps

/-! ## The invariant -/

/-- Every `Out` channel has received every tick read. -/
def Caught (td : TickDemultiplexer T k) : Prop := ∀ o, td.received o = td.read

/-- What the `Out` channels have received while the goroutine stands at each statement. -/
def AtLoc (td : TickDemultiplexer T k) : DemuxLoc T → Prop
  | .select | .exited => td.pending = ∅ ∧ Caught td
  | .tick now => ∃ earlier, td.read = earlier ++ [now] ∧
      ∀ o, td.received o = if o ∈ td.pending then earlier else td.read

/-- `AtLoc` at the goroutine's statement, and `Stop` returns only after the goroutine has. -/
structure Inv (td : TickDemultiplexer T k) : Prop where
  atLoc : AtLoc td td.loc
  returned : td.stop = .returned → td.loc = .exited

theorem inv_start : Inv (Start : TickDemultiplexer T k) :=
  ⟨⟨rfl, fun _ => rfl⟩, nofun⟩

/-- `Inv` at a known statement of the goroutine. -/
theorem Inv.at {td : TickDemultiplexer T k} {l : DemuxLoc T} (hi : Inv td) (hl : td.loc = l) :
    AtLoc td l :=
  hl ▸ hi.atLoc

theorem inv_step {td td' : TickDemultiplexer T k} {a : Act T k} (hi : Inv td)
    (h : td.step a = some td') : Inv td' := by
  cases a with
  | selectStop =>
    obtain ⟨hl, -, rfl⟩ := selectStop_eq_some h
    exact ⟨hi.at hl, fun _ => rfl⟩
  | selectIn now =>
    obtain ⟨hl, rfl⟩ := selectIn_eq_some h
    refine ⟨⟨td.read, rfl, fun o => ?_⟩, fun hs => absurd (hi.returned hs) (by simp [hl])⟩
    simp [(hi.at hl).2 o]
  | send o =>
    obtain ⟨now, hl, ho, rfl⟩ := send_eq_some h
    obtain ⟨earlier, hread, hrec⟩ := hi.at hl
    refine ⟨?_, fun hs => absurd (hi.returned hs) (by simp [hl])⟩
    show AtLoc _ td.loc
    rw [hl]
    refine ⟨earlier, hread, fun o' => ?_⟩
    by_cases h' : o' = o
    · subst h'
      simp [hrec, ho, hread]
    · simp [Function.update_noteq h', h', hrec]
  | tickDone =>
    obtain ⟨now, hl, hp, rfl⟩ := tickDone_eq_some h
    obtain ⟨_, -, hrec⟩ := hi.at hl
    exact ⟨⟨hp, fun o => by simpa [hp] using hrec o⟩,
      fun hs => absurd (hi.returned hs) (by simp [hl])⟩
  | stopClose =>
    obtain ⟨-, rfl⟩ := stopClose_eq_some h
    exact ⟨hi.atLoc, nofun⟩
  | stopReturn =>
    obtain ⟨-, hl, rfl⟩ := stopReturn_eq_some h
    exact ⟨hi.atLoc, fun _ => hl⟩

theorem reachable_inv {td : TickDemultiplexer T k} (hr : Reachable td) : Inv td := by
  induction hr with
  | start => exact inv_start
  | step a _ h ih => exact inv_step ih h

/-! ## What the `Out` channels receive -/

section Received

variable {td : TickDemultiplexer T k}

/-- A channel whose sender is done has received every tick read. -/
theorem received_of_not_mem (hi : Inv td) {o : Fin k} (ho : o ∉ td.pending) :
    td.received o = td.read := by
  cases hl : td.loc with
  | tick now =>
    obtain ⟨_, -, hrec⟩ := hi.at hl
    simpa [ho] using hrec o
  | select | exited => exact (hi.at hl).2 o

/-- Each channel has received the ticks read, in order, all but possibly the one in flight. -/
theorem received_prefix_read (hi : Inv td) (o : Fin k) :
    td.received o <+: td.read ∧ td.read.length ≤ (td.received o).length + 1 := by
  by_cases ho : o ∈ td.pending
  · cases hl : td.loc with
    | tick now =>
      obtain ⟨earlier, hread, hrec⟩ := hi.at hl
      rw [hrec o, if_pos ho, hread]
      exact ⟨List.prefix_append _ _, by simp⟩
    | select | exited => simp [(hi.at hl).1] at ho
  · rw [received_of_not_mem hi ho]
    exact ⟨List.prefix_refl _, by omega⟩

/-- The `select` reads a tick only when every channel has received every tick before it. -/
theorem caught_of_selectIn (hi : Inv td) {now : T} {td' : TickDemultiplexer T k}
    (h : td.step (.selectIn now) = some td') : Caught td :=
  (hi.at (selectIn_eq_some h).1).2

/-- Once `Stop` has returned, so has the goroutine, and no statement is left to run. -/
theorem step_of_returned (hi : Inv td) (hs : td.stop = .returned) (a : Act T k) :
    td.step a = none := by
  have hl := hi.returned hs
  cases a <;> simp [step, hl, hs]

theorem exec_of_returned (hi : Inv td) (hs : td.stop = .returned) {as : List (Act T k)}
    {td' : TickDemultiplexer T k} (h : td.exec as = some td') : td' = td := by
  cases as with
  | nil => exact (Option.some.inj h).symm
  | cons a as => simp [exec, Schedule.run, step_of_returned hi hs a] at h

end Received

/-- After `Start`, whatever ticks `In` delivers and in whatever order the consumers take them,
each `Out` channel has received the ticks read from `In`, in the order read and each once, all
but possibly the tick being fanned out, and all of them once its sender is done. The `select`
reads a tick only when every channel has received every earlier one. When `Stop` has returned
every channel has received every tick read, and nothing is left to run, so no channel receives
another. -/
theorem tick_reaches_every_out {td : TickDemultiplexer T k} (hr : Reachable td) :
    (∀ o, td.received o <+: td.read ∧ td.read.length ≤ (td.received o).length + 1) ∧
    (∀ o, o ∉ td.pending → td.received o = td.read) ∧
    (∀ now td', td.step (.selectIn now) = some td' → ∀ o, td.received o = td.read) ∧
    (td.stop = .returned → (∀ o, td.received o = td.read) ∧
      ∀ as td', td.exec as = some td' → td'.received = td.received) := by
  have hi := reachable_inv hr
  refine ⟨received_prefix_read hi, fun o => received_of_not_mem hi,
    fun now td' h => caught_of_selectIn hi h, fun hs => ⟨fun o => ?_, fun as td' h => ?_⟩⟩
  · exact (hi.at (hi.returned hs)).2 o
  · rw [exec_of_returned hi hs h]

/-- One tick fanned out to three channels that take it in the order 2, 0, 1; then `Stop`. -/
def oneTick : List (Act Nat 3) :=
  [.selectIn 5, .send 2, .send 0, .send 1, .tickDone, .stopClose, .selectStop, .stopReturn]

theorem tick_reaches_every_out_oneTick :
    ∃ td : TickDemultiplexer Nat 3, Reachable td ∧ td.stop = .returned ∧ td.read = [5] ∧
      (∀ o, td.received o <+: td.read ∧ td.read.length ≤ (td.received o).length + 1) ∧
      (∀ o, o ∉ td.pending → td.received o = td.read) ∧
      (∀ now td', td.step (.selectIn now) = some td' → ∀ o, td.received o = td.read) ∧
      (td.stop = .returned → (∀ o, td.received o = td.read) ∧
        ∀ as td', td.exec as = some td' → td'.received = td.received) :=
  have hr := reachable_exec Reachable.start
    (show (Start : TickDemultiplexer Nat 3).exec oneTick = some _ from rfl)
  ⟨_, hr, rfl, rfl, tick_reaches_every_out hr⟩

/-! ## `Stop` waits for the tick in flight -/

section Waiting

variable {td td' : TickDemultiplexer T k} {now : T} {o : Fin k}

/-- While the tick in flight waits on channel `o`, every step but `o`'s send keeps it waiting
and brings `o` nothing. -/
theorem step_keeps_waiting (hl : td.loc = .tick now) (ho : o ∈ td.pending) {a : Act T k}
    (ha : a ≠ .send o) (h : td.step a = some td') :
    td'.loc = .tick now ∧ o ∈ td'.pending ∧ td'.received o = td.received o := by
  cases a with
  | selectStop => cases hl.symm.trans (selectStop_eq_some h).1
  | selectIn _ => cases hl.symm.trans (selectIn_eq_some h).1
  | send o' =>
    obtain ⟨-, -, -, rfl⟩ := send_eq_some h
    have hne : o ≠ o' := fun e => ha (e ▸ rfl)
    exact ⟨hl, Finset.mem_erase.2 ⟨hne, ho⟩, Function.update_noteq hne _ _⟩
  | tickDone =>
    obtain ⟨-, -, hp, -⟩ := tickDone_eq_some h
    simp [hp] at ho
  | stopClose =>
    obtain ⟨-, rfl⟩ := stopClose_eq_some h
    exact ⟨hl, ho, rfl⟩
  | stopReturn => cases hl.symm.trans (stopReturn_eq_some h).2.1

theorem exec_keeps_waiting {as : List (Act T k)} (hl : td.loc = .tick now) (ho : o ∈ td.pending)
    (has : Act.send o ∉ as) (h : td.exec as = some td') :
    td'.loc = .tick now ∧ o ∈ td'.pending ∧ td'.received o = td.received o :=
  @Schedule.run_induction_of _ _ step
    (fun td' => td'.loc = .tick now ∧ o ∈ td'.pending ∧ td'.received o = td.received o)
    (· ≠ .send o)
    (fun ha ⟨hl, ho, hrec⟩ h => have ⟨hl', ho', hrec'⟩ := step_keeps_waiting hl ho ha h
      ⟨hl', ho', hrec'.trans hrec⟩)
    td td' as (fun _ ha e => has (e ▸ ha)) ⟨hl, ho, rfl⟩ h

end Waiting

/-- `Stop` waits for the tick in flight: while channel `o` has not received it, no schedule
without `o`'s send lets `Stop` return, moves the goroutine on or brings `o` anything. -/
theorem Stop_waits_for_consumer {td td' : TickDemultiplexer T k} {now : T} {o : Fin k}
    {as : List (Act T k)} (hr : Reachable td) (hl : td.loc = .tick now) (ho : o ∈ td.pending)
    (has : Act.send o ∉ as) (h : td.exec as = some td') :
    td'.stop ≠ .returned ∧ td'.loc = .tick now ∧ o ∈ td'.pending ∧
      td'.received o = td.received o := by
  obtain ⟨hl', ho', hrec⟩ := exec_keeps_waiting hl ho has h
  refine ⟨fun hs => ?_, hl', ho', hrec⟩
  have := (reachable_inv (reachable_exec hr h)).returned hs
  rw [hl'] at this
  cases this

/-- Channel 1 has not taken tick 5 while `Stop` closes `stopChan` and channel 2 takes it. -/
theorem Stop_waits_for_consumer_slow :
    ∃ td td' : TickDemultiplexer Nat 3, Reachable td ∧ td.exec [.stopClose, .send 2] = some td' ∧
      td'.stop ≠ .returned ∧ td'.loc = .tick 5 ∧ 1 ∈ td'.pending ∧
      td'.received 1 = td.received 1 :=
  have hr := reachable_exec Reachable.start
    (show (Start : TickDemultiplexer Nat 3).exec [.selectIn 5, .send 0] = some _ from rfl)
  ⟨_, _, hr, rfl, Stop_waits_for_consumer hr rfl (by decide)
    (show Act.send 1 ∉ [.stopClose, .send 2] by decide) rfl⟩

end TickDemultiplexer

end SmartBft
