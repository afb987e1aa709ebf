import SmartBft.Quorum
import SmartBft.Leader
/-!
# The controller's state

`Controller` (controller.go) is a set of goroutines that share channels: the run loop
(`run`), the current View's phase goroutine, the callers of `ViewChanged`, and the caller
of `Stop`. `Ctl` holds what they share, and for each goroutine the statement it stands
at. The unbuffered `decisionChan` and `deliverChan` are the View's place in `Decide`
(`Phase`); the one-slot `leaderToken` is a `Bool`; `stopChan` is `stopped`, true once closed.

The Batcher and the request pool are interfaces the sources do not implement. We keep of
them what the controller's blocking depends on: whether the batcher is open (`Close` shuts
it, `Reset` opens it again) and whether the pool is empty.
-/

namespace SmartBft.Controller

/-- `ID` and `N`. `Start` computes `leaderID`, a `% N`, so `N` is positive. -/
structure Config where
  id : Nat
  n : Nat
  n_pos : 0 < n

/-- Node 1 of a four-node cluster, which does not lead view 0. -/
def node1 : Config := ⟨1, 4, by decide⟩

/-- Node 0 of a four-node cluster, which leads views 0 and 4. -/
def node0 : Config := ⟨0, 4, by decide⟩

/-- The fields of `View` that the controller sets and reads back. -/
structure View where
  number : Nat
  leaderID : Nat
  quorum : Nat
  proposalSequence : Nat
  aborted : Bool
deriving DecidableEq, Repr

/-- Go's zero `View`, the value of `currView` before `Start` runs `startView`. -/
def View.zero : View := ⟨0, 0, 0, 0, false⟩

/-- Modelled from the spec: view.go is not in the sources. The View's phase goroutine
may call `Decide` at any point until it observes `Abort`; in `Decide` it sends on
`decisionChan`, then receives on `deliverChan`; its Future completes when it returns. -/
inductive Phase
  | running
  | deciding
  | awaitingDelivery
  | returned
deriving DecidableEq, Repr

/-- The statement the run loop stands at. -/
inductive Loc
  /-- `run`'s `select`. -/
  | select
  /-- After `Application.Deliver`: `c.deliverChan <- struct{}{}`. -/
  | deliver
  /-- After the hand-back: `if iAm { c.acquireLeaderToken() }`. -/
  | claim
  /-- `changeView(v, s)` begins: `c.relinquishLeaderToken()`. -/
  | relinquish (v s : Nat)
  /-- `if latestView > newViewNumber { return }`, else `c.currView.Abort()`. -/
  | check (v s : Nat)
  /-- `c.viewEnd.Wait()`, then `c.setCurrentViewNumber(v)`. -/
  | wait (v s : Nat)
  /-- `c.viewEnd = c.startView(s)`, then `if iAm`. -/
  | install (s : Nat)
  /-- `c.Batcher.Reset()`. -/
  | reset
  /-- `c.acquireLeaderToken()` at the end of `changeView`. -/
  | acquire
  /-- `getNextBatch`: `c.Batcher.NextBatch()`. -/
  | nextBatch
  /-- `getNextBatch`: `if c.stopped()`, then loop or return; `got` says whether the batch
  had requests. -/
  | stopCheck (got : Bool)
  /-- `propose`: `c.currView.Propose(proposal)`. -/
  | propose
  /-- `run`'s deferred `c.currView.Abort()`. -/
  | exitAbort
  /-- `run`'s deferred `c.viewEnd.Wait()`. -/
  | exitWait
  | exited
deriving DecidableEq, Repr

/-- The statement `Stop` stands at. -/
inductive StopLoc
  | idle
  /-- After `close(c.stopChan)`: `c.Batcher.Close()`. -/
  | closeBatcher
  /-- The `select` that drains the leader token. -/
  | drain
  | done
deriving DecidableEq, Repr

structure Ctl where
  /-- `currViewNumber`. -/
  viewNumber : Nat
  /-- `currView`. -/
  view : View
  phase : Phase
  /-- `leaderToken` holds its one token. -/
  token : Bool
  /-- `stopChan` is closed. -/
  stopped : Bool
  batcherOpen : Bool
  poolEmpty : Bool
  loc : Loc
  /-- `ViewChanged` callers blocked in their send on `viewChange`, first blocked first. -/
  pending : List (Nat × Nat)
  /-- `ViewChanged` callers whose send was received, before their `Batcher.Close()`. -/
  closing : Nat
  stopLoc : StopLoc
  /-- Not in the code: the run loop took the token since the View was installed or a
  decision delivered. -/
  proposed : Bool
deriving DecidableEq, Repr

variable (cfg : Config)

/-! ## The controller's functions -/

def getCurrentViewNumber (c : Ctl) : Nat := c.viewNumber

/-- `leaderID()`: `c.getCurrentViewNumber() % c.N`. -/
def leaderID (c : Ctl) : Nat := getCurrentViewNumber c % cfg.n

/-- `iAmTheLeader() (bool, uint64)`. -/
def iAmTheLeader (c : Ctl) : Bool × Nat :=
  let leader := leaderID cfg c
  (leader == cfg.id, leader)

def setCurrentViewNumber (c : Ctl) (viewNumber : Nat) : Ctl := { c with viewNumber := viewNumber }

/-- The View `startView(proposalSequence)` installs. `c.quorum` is `computeQuorum()`,
set by `Start`. -/
def startView (c : Ctl) (proposalSequence : Nat) : View where
  number := getCurrentViewNumber c
  leaderID := leaderID cfg c
  quorum := Controller.computeQuorum cfg.n
  proposalSequence := proposalSequence
  aborted := false

/-- `acquireLeaderToken()`: a send that does nothing when the slot is full. -/
def acquireLeaderToken (c : Ctl) : Ctl := { c with token := true }

/-- `relinquishLeaderToken()`: a receive that does nothing when the slot is empty. -/
def relinquishLeaderToken (c : Ctl) : Ctl := { c with token := false }

/-- The request-pool timeout handlers: nothing when this node leads, else `act` on the
leader. -/
def onLeaderTimeout {α : Type} (act : Nat → α) (c : Ctl) : Option α :=
  let (iAm, leaderID) := iAmTheLeader cfg c
  if iAm then none else some (act leaderID)

/-- `OnRequestTimeout`: the node `Comm.SendTransaction` forwards the request to. -/
def OnRequestTimeout (c : Ctl) : Option Nat := onLeaderTimeout cfg id c

/-- `OnLeaderFwdRequestTimeout`: `FailureDetector.Complain()`, which takes no argument. -/
def OnLeaderFwdRequestTimeout (c : Ctl) : Option Unit := onLeaderTimeout cfg (fun _ => ()) c

/-- `Start(startViewNumber, startProposalSequence)`, up to launching `run`. The channels
are new and the Batcher and pool are fresh. -/
def start (startViewNumber startProposalSequence : Nat) : Ctl :=
  let c : Ctl :=
    { viewNumber := startViewNumber, view := View.zero, phase := .running, token := false,
      stopped := false, batcherOpen := true, poolEmpty := true, loc := .select, pending := [],
      closing := 0, stopLoc := .idle, proposed := false }
  let c := { c with view := startView cfg c startProposalSequence }
  if (iAmTheLeader cfg c).1 then acquireLeaderToken c else c

/-! ## Reading the functions back -/

@[simp] theorem iAmTheLeader_fst (c : Ctl) :
    (iAmTheLeader cfg c).1 = true ↔ c.viewNumber % cfg.n = cfg.id := by
  simp [iAmTheLeader, leaderID, getCurrentViewNumber]

@[simp] theorem leaderID_eq (c : Ctl) : leaderID cfg c = c.viewNumber % cfg.n := rfl

@[simp] theorem startView_number (c : Ctl) (s : Nat) : (startView cfg c s).number = c.viewNumber := rfl

@[simp] theorem startView_leaderID (c : Ctl) (s : Nat) :
    (startView cfg c s).leaderID = c.viewNumber % cfg.n := rfl

@[simp] theorem startView_proposalSequence (c : Ctl) (s : Nat) :
    (startView cfg c s).proposalSequence = s := rfl

@[simp] theorem startView_aborted (c : Ctl) (s : Nat) : (startView cfg c s).aborted = false := rfl

/-- Both handlers act exactly when this node does not lead the current view. -/
theorem onLeaderTimeout_eq {α : Type} (act : Nat → α) (c : Ctl) :
    onLeaderTimeout cfg act c =
      if c.viewNumber % cfg.n = cfg.id then none else some (act (c.viewNumber % cfg.n)) := by
  simp only [onLeaderTimeout, iAmTheLeader, leaderID, getCurrentViewNumber, beq_iff_eq]

/-! ## `leaderID` and `getLeaderID` -/

/-- `leaderID()` does not read the membership. With the IDs `1, …, 4`, it names node 0 in
view 0, which is not a member, where `getLeaderID` names node 1; `startView` installs node
0 as the View's leader, node 1 is not the leader, and it forwards timed-out requests to
node 0. -/
theorem leaderID_not_member :
    leaderID node1 (start node1 0 0) = 0 ∧ getLeaderID 0 4 [1, 2, 3, 4] = some 1 ∧
      0 ∉ [1, 2, 3, 4] ∧ (start node1 0 0).view.leaderID = 0 ∧
      iAmTheLeader node1 (start node1 0 0) = (false, 0) ∧
      OnRequestTimeout node1 (start node1 0 0) = some 0 := by
  decide

end SmartBft.Controller
