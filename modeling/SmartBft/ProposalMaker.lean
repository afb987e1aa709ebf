import Mathlib.Data.List.Forall2
/-!
# The Views a `ProposalMaker` builds

`ProposalMaker.NewProposer` (util.go) builds a View for the given leader, proposal sequence,
view number and quorum. The first call also restores that View from the WAL (`State.Restore`,
inside `restoreOnceFromWAL.Do`) and panics when the restore fails; the View then keeps the
restored number and sequence where they are ahead of those asked for.

`State.Restore` is in state.go, which is not in the sources: it is a parameter `Restore`, which
gives the View as the restore leaves it, or the restore's error, so every result holds for any
restore. A call is an `EStateM` action and a panic its error, with the state the code leaves:
`sync.Once` counts a function that panicked as done. `Logger.Panicf` is taken to panic.

A call, returned or panicked, leaves the restore done (`NewProposer_done`); from then on a
call returns exactly the View asked for and leaves the maker as it was (`NewProposer_of_done`);
and every View returned is at the view number and proposal sequence asked for, or later
(`NewProposer_le`).
-/

namespace SmartBft

/-- The fields of the `View` that `NewProposer` sets. -/
structure ProposerView where
  N : Nat
  LeaderID : Nat
  SelfID : Nat
  Quorum : Nat
  Number : Nat
  ProposalSequence : Nat
deriving DecidableEq, Repr

/-- A `ProposalMaker`: its `N` and `SelfID`, and whether `restoreOnceFromWAL` is done. -/
structure ProposalMaker where
  N : Nat
  SelfID : Nat
  restoreOnceFromWAL : Bool
deriving DecidableEq, Repr

/-- The arguments of a `NewProposer` call. -/
structure ProposerArgs where
  leader : Nat
  proposalSequence : Nat
  viewNum : Nat
  quorumSize : Nat
deriving DecidableEq, Repr

namespace ProposalMaker

variable (Restore : ProposerView → Except String ProposerView)

/-- `restoreOnceFromWAL.Do(...)`: the restore runs on the first call only. -/
def restoreOnce (pm : ProposalMaker) (view : ProposerView) : Except String ProposerView :=
  if pm.restoreOnceFromWAL then .ok view else Restore view

/-- The two `if`s after the restore. -/
def raise (proposalSequence viewNum : Nat) (view : ProposerView) : ProposerView :=
  let view := if proposalSequence > view.ProposalSequence then
    { view with ProposalSequence := proposalSequence } else view
  if viewNum > view.Number then { view with Number := viewNum } else view

/-- `Do` is done after its function has run, even when it panicked. -/
def NewProposer (leader proposalSequence viewNum quorumSize : Nat) :
    EStateM String ProposalMaker ProposerView := fun pm =>
  let view : ProposerView := ⟨pm.N, leader, pm.SelfID, quorumSize, viewNum, proposalSequence⟩
  match restoreOnce Restore pm view with
  | .error err =>
    .error ("Failed restoring view from WAL: " ++ err) { pm with restoreOnceFromWAL := true }
  | .ok view => .ok (raise proposalSequence viewNum view) { pm with restoreOnceFromWAL := true }

/-- The state a call leaves, whether it returns or panics. -/
def stateAfter {α : Type} : EStateM.Result String ProposalMaker α → ProposalMaker
  | .ok _ pm => pm
  | .error _ pm => pm

variable {Restore}

/-- The View keeps the larger of the number and sequence asked for and those it had. -/
theorem raise_eq (proposalSequence viewNum : Nat) (view : ProposerView) :
    raise proposalSequence viewNum view =
      { view with Number := max viewNum view.Number,
                  ProposalSequence := max proposalSequence view.ProposalSequence } := by
  obtain ⟨N, leader, self, quorum, number, seq⟩ := view
  simp only [raise, max_def]
  split_ifs <;> simp only [ProposerView.mk.injEq] at * <;> omega

/-- A call, returned or panicked, leaves the restore done. -/
theorem NewProposer_done (pm : ProposalMaker) (leader proposalSequence viewNum quorumSize : Nat) :
    (stateAfter (NewProposer Restore leader proposalSequence viewNum quorumSize pm)).restoreOnceFromWAL =
      true := by
  dsimp only [NewProposer]
  split <;> rfl

/-- Once the restore is done, a call returns the View asked for and leaves the maker as it was. -/
theorem NewProposer_of_done {pm : ProposalMaker} (h : pm.restoreOnceFromWAL = true)
    (leader proposalSequence viewNum quorumSize : Nat) :
    NewProposer Restore leader proposalSequence viewNum quorumSize pm =
      .ok ⟨pm.N, leader, pm.SelfID, quorumSize, viewNum, proposalSequence⟩ pm := by
  obtain ⟨N, SelfID, done⟩ := pm
  subst h
  simp [NewProposer, restoreOnce, raise_eq]

/-- A View returned is at the view number and proposal sequence asked for, or later. -/
theorem NewProposer_le {pm pm' : ProposalMaker} {view : ProposerView}
    {leader proposalSequence viewNum quorumSize : Nat}
    (h : NewProposer Restore leader proposalSequence viewNum quorumSize pm = .ok view pm') :
    viewNum ≤ view.Number ∧ proposalSequence ≤ view.ProposalSequence := by
  dsimp only [NewProposer] at h
  split at h
  · cases h
  · cases h
    rw [raise_eq]
    exact ⟨le_max_left _ _, le_max_left _ _⟩

/-- A call that returns leaves the maker as it was, with the restore done. -/
theorem NewProposer_state {pm pm' : ProposalMaker} {view : ProposerView}
    {leader proposalSequence viewNum quorumSize : Nat}
    (h : NewProposer Restore leader proposalSequence viewNum quorumSize pm = .ok view pm') :
    pm' = { pm with restoreOnceFromWAL := true } := by
  dsimp only [NewProposer] at h
  split at h <;> cases h
  rfl

end ProposalMaker

end SmartBft
