import SmartBft.Controller.State
import SmartBft.Schedule
/-!
# One step of the controller

`step` runs one goroutine for one statement, or lets the environment act: a caller enters
`ViewChanged`, `Stop` goes on, or requests enter or leave the pool. Go's `select` takes any
ready case, so the case is an argument of the step; so is the answer of
`Batcher.NextBatch`. A step that would block is `none`. `Reachable` is every state that
`start` and any interleaving of steps lead to.
-/

namespace SmartBft.Controller

/-- Modelled from the spec: view.go is not in the sources. `Abort()` signals the phase
loop to exit. -/
def View.abort (v : View) : View := { v with aborted := true }

/-- Modelled from the spec: the View advances its sequence once the delivery is
acknowledged. -/
def View.advance (v : View) : View := { v with proposalSequence := v.proposalSequence + 1 }

/-- Modelled from the spec: batcher.go is not in the sources. `NextBatch` returns
requests only from a non-empty pool, and returns none only once `Close` has unblocked it;
on an open batcher over an empty pool it blocks. -/
def nextBatchReady (c : Ctl) (got : Bool) : Bool :=
  if got then !c.poolEmpty else !c.batcherOpen

/-- The cases of `run`'s `select`. -/
inductive Case
  | decision
  | viewChange
  | stop
  | leaderToken
deriving DecidableEq, Repr

inductive Act
  | run
  /-- `run`'s `select` takes a ready case. -/
  | select (case : Case)
  /-- `Batcher.NextBatch()` returns, with requests when `got`. -/
  | nextBatch (got : Bool)
  /-- The View calls `Decide`. -/
  | decide
  /-- The View observes `Abort` and returns. -/
  | observeAbort
  /-- A caller enters `ViewChanged(v, s)` and blocks in its send. -/
  | viewChanged (v s : Nat)
  /-- A `ViewChanged` caller past its send calls `Batcher.Close()`. -/
  | closeBatcher
  /-- `Stop` executes its next statement. -/
  | stop
  | pool (empty : Bool)
deriving DecidableEq, Repr

variable (cfg : Config)

/-- `run`'s `select` takes `case`, if that case is ready. -/
def select (c : Ctl) : Case → Option Ctl
  | .decision =>
    -- `d := <-c.decisionChan`, `Application.Deliver`, `removeDeliveredFromPool`
    if c.phase = .deciding then
      some { c with phase := .awaitingDelivery, loc := .deliver, proposed := false }
    else none
  | .viewChange =>
    match c.pending with
    | (v, s) :: rest => some { c with pending := rest, closing := c.closing + 1, loc := .relinquish v s }
    | [] => none
  | .stop => if c.stopped then some { c with loc := .exitAbort } else none
  | .leaderToken =>
    if c.token then some { c with token := false, loc := .nextBatch, proposed := true } else none

/-- The run loop executes the statement at `c.loc`. It is `none` where the loop blocks,
and at `select` and `NextBatch`, whose outcome is a choice. -/
def runStep (c : Ctl) : Option Ctl :=
  match c.loc with
  | .deliver =>
    if c.phase = .awaitingDelivery then
      some { c with phase := .running, view := c.view.advance, loc := .claim }
    else none
  | .claim =>
    let c := { c with loc := .select }
    some (if (iAmTheLeader cfg c).1 then acquireLeaderToken c else c)
  | .relinquish v s => some { relinquishLeaderToken c with loc := .check v s }
  | .check v s =>
    if getCurrentViewNumber c > v then some { c with loc := .select }
    else some { c with view := c.view.abort, loc := .wait v s }
  | .wait v s =>
    if c.phase = .returned then some { setCurrentViewNumber c v with loc := .install s } else none
  | .install s =>
    let c := { c with view := startView cfg c s, phase := .running, proposed := false }
    some { c with loc := if (iAmTheLeader cfg c).1 then .reset else .select }
  | .reset => some { c with batcherOpen := true, loc := .acquire }
  | .acquire => some { acquireLeaderToken c with loc := .select }
  | .stopCheck got =>
    some { c with loc := if c.stopped then .select else if got then .propose else .nextBatch }
  | .propose => some { c with loc := .select }
  | .exitAbort => some { c with view := c.view.abort, loc := .exitWait }
  | .exitWait => if c.phase = .returned then some { c with loc := .exited } else none
  | .select | .nextBatch | .exited => none

/-- `Stop()` executes its next statement. There is one caller, so `stopChan` is still
open when it starts and `close(c.stopChan)` runs. -/
def stopStep (c : Ctl) : Option Ctl :=
  match c.stopLoc with
  | .idle => some { c with stopped := true, stopLoc := .closeBatcher }
  | .closeBatcher => some { c with batcherOpen := false, stopLoc := .drain }
  | .drain => some { relinquishLeaderToken c with stopLoc := .done }
  | .done => none

def step (c : Ctl) : Act → Option Ctl
  | .run => runStep cfg c
  | .select case => if c.loc = .select then select c case else none
  | .nextBatch got =>
    if c.loc = .nextBatch ∧ nextBatchReady c got then some { c with loc := .stopCheck got } else none
  | .decide => if c.phase = .running then some { c with phase := .deciding } else none
  | .observeAbort =>
    if c.phase = .running ∧ c.view.aborted then some { c with phase := .returned } else none
  | .viewChanged v s => some { c with pending := c.pending ++ [(v, s)] }
  | .closeBatcher =>
    if 0 < c.closing then some { c with closing := c.closing - 1, batcherOpen := false } else none
  | .stop => stopStep c
  | .pool empty => some { c with poolEmpty := empty }

/-- The states `Start` and any interleaving lead to. -/
inductive Reachable : Ctl → Prop
  | init (v s : Nat) : Reachable (start cfg v s)
  | step {c c' : Ctl} (a : Act) : Reachable c → step cfg c a = some c' → Reachable c'

/-- A schedule, run from `c`. -/
def exec (c : Ctl) (as : List Act) : Option Ctl := Schedule.run (step cfg) c as

variable {cfg} in
theorem reachable_exec {c c' : Ctl} {as : List Act} (hc : Reachable cfg c)
    (h : exec cfg c as = some c') : Reachable cfg c' :=
  Schedule.run_induction (fun hc h => hc.step _ h) hc h

end SmartBft.Controller
