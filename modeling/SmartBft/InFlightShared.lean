import SmartBft.InFlight
import SmartBft.Schedule
/-!
# `InFlightData` shared between goroutines

`InFlightData` keeps its proposal and prepares in an `atomic.Value`, so that goroutines can
load them while another stores. Each `Load` and each `Store` is atomic, and is one step here.
`StoreProposal` is one `Store`. `StorePrepares` is two: the `Load` of `ifp.InFlightProposal()`,
and, once the prepares are built, the `Store` of that proposal with them. `InFlightProposal` and
`InFlightPrepares` are one `Load` each: they read the value as it stands and change nothing, so
readers take no step of their own.

Any number of writer goroutines each make their own calls (`Writers`). However their steps
interleave, every value stored, and so every value a `Load` returns, holds a proposal and only
prepares that carry its digest: `StorePrepares` stores the proposal it loaded beside the
prepares it built over it. With at most one writer, every value is the one that the calls it has
made so far, made one after another, leave (`runCalls`), so every result about the sequential
model holds for what readers load (`InFlightData_shared`, `reachable_runCalls`).
-/

namespace SmartBft.InFlightData

variable {P Sig : Type} (digest : P → String)

/-- The calls made one after another from `ifp`, each on the state the one before leaves. -/
def runCalls (ifp : InFlightData P Sig) (calls : List (Call P Sig)) : InFlightData P Sig :=
  calls.foldl (fun ifp c => after ((c.apply digest).run ifp)) ifp

theorem runCalls_concat (ifp : InFlightData P Sig) (calls : List (Call P Sig)) (c : Call P Sig) :
    runCalls digest ifp (calls ++ [c]) = after ((c.apply digest).run (runCalls digest ifp calls)) := by
  simp [runCalls]

/-- What calls made one after another leave is a state of the sequential model. -/
theorem reachable_runCalls (calls : List (Call P Sig)) :
    Reachable digest (runCalls digest ⟨none⟩ calls) := by
  induction calls using List.reverseRecOn with
  | nil => exact .zero
  | append_singleton calls c ih => rw [runCalls_concat]; exact ih.call c

/-- `StorePrepares`' `Store`: the proposal its `Load` found, with the prepares built over it. -/
def storePrepared (prop : P) (view seq : Nat) (signatures : AList fun _ : Nat => Sig) :
    InFlightData P Sig :=
  ⟨some ⟨some prop, some (preparesOf view seq (digest prop) signatures)⟩⟩

/-- Where a writer goroutine stands. -/
inductive Writer (P Sig : Type)
  /-- Between calls, with the calls it has still to make. -/
  | ready (calls : List (Call P Sig))
  /-- In `StorePrepares`, after its `Load` found `prop`: its `Store`, then the calls after. -/
  | storing (prop : P) (view seq : Nat) (signatures : AList fun _ : Nat => Sig)
      (calls : List (Call P Sig))
  /-- `StorePrepares` found no proposal, and panicked. -/
  | panicked

/-- A writer's next `Load` or `Store`; `none` once it has made its calls or panicked. -/
def Writer.step (ifp : InFlightData P Sig) :
    Writer P Sig → Option (InFlightData P Sig × Writer P Sig)
  | .ready [] | .panicked => none
  | .ready (.storeProposal prop :: calls) => some (after (StoreProposal prop ifp), .ready calls)
  | .ready (.storePrepares view seq signatures :: calls) =>
    match ifp.InFlightProposal with
    | none => some (ifp, .panicked)
    | some prop => some (ifp, .storing prop view seq signatures calls)
  | .storing prop view seq signatures calls =>
    some (storePrepared digest prop view seq signatures, .ready calls)

/-- The calls a writer has still to make, the `StorePrepares` it is in included; `none` once it
has panicked. -/
def Writer.toMake : Writer P Sig → Option (List (Call P Sig))
  | .ready calls => some calls
  | .storing _ view seq signatures calls => some (.storePrepares view seq signatures :: calls)
  | .panicked => none

/-- The `atomic.Value` and `w` writer goroutines. -/
structure Writers (P Sig : Type) (w : Nat) where
  ifp : InFlightData P Sig
  writers : Fin w → Writer P Sig

variable {w : Nat}

/-- Writer `i` takes its next step. -/
def Writers.step (s : Writers P Sig w) (i : Fin w) : Option (Writers P Sig w) :=
  ((s.writers i).step digest s.ifp).map fun r => ⟨r.1, Function.update s.writers i r.2⟩

def Writers.exec (s : Writers P Sig w) (is : List (Fin w)) : Option (Writers P Sig w) :=
  Schedule.run (Writers.step digest) s is

/-- The zero `InFlightData{}`, and writer `i` with the calls `calls i` to make. -/
def Writers.start (calls : Fin w → List (Call P Sig)) : Writers P Sig w :=
  ⟨⟨none⟩, fun i => .ready (calls i)⟩

/-- The states that writers with the calls `calls` to make, from the zero `InFlightData{}`, and
any interleaving of their steps lead to. -/
inductive Writers.Reachable (calls : Fin w → List (Call P Sig)) : Writers P Sig w → Prop
  | start : Writers.Reachable calls (Writers.start calls)
  | step {s s' : Writers P Sig w} (i : Fin w) : Writers.Reachable calls s →
      s.step digest i = some s' → Writers.Reachable calls s'

variable {calls : Fin w → List (Call P Sig)}

theorem Writers.reachable_exec {s s' : Writers P Sig w} {is : List (Fin w)}
    (hr : Writers.Reachable digest calls s) (h : s.exec digest is = some s') :
    Writers.Reachable digest calls s' :=
  Schedule.run_induction (fun hr h => hr.step _ h) hr h

theorem Writers.step_eq_some {s s' : Writers P Sig w} {i : Fin w}
    (h : s.step digest i = some s') :
    ∃ wr, (s.writers i).step digest s.ifp = some (s'.ifp, wr) ∧
      s'.writers = Function.update s.writers i wr := by
  simp only [Writers.step, Option.map_eq_some'] at h
  obtain ⟨⟨ifp, wr⟩, hw, rfl⟩ := h
  exact ⟨wr, hw, rfl⟩

/-- With a proposal stored, `StorePrepares` leaves what its `Store` stores. -/
theorem after_StorePrepares {ifp : InFlightData P Sig} {prop : P}
    (h : ifp.InFlightProposal = some prop) (view seq : Nat)
    (signatures : AList fun _ : Nat => Sig) :
    after (StorePrepares digest view seq signatures ifp) =
      storePrepared digest prop view seq signatures := by
  simp only [StorePrepares, h]
  rfl

/-! ## Every value stored is consistent -/

theorem consistent_storePrepared (prop : P) (view seq : Nat)
    (signatures : AList fun _ : Nat => Sig) :
    Consistent digest (storePrepared digest prop view seq signatures) :=
  have hprop : Consistent digest (⟨some ⟨some prop, none⟩⟩ : InFlightData P Sig) := by
    rintro data ⟨⟩
    exact ⟨prop, rfl, nofun⟩
  consistent_apply digest hprop (.storePrepares view seq signatures)

theorem Writer.consistent_step {ifp ifp' : InFlightData P Sig} {wr wr' : Writer P Sig}
    (hc : Consistent digest ifp) (h : wr.step digest ifp = some (ifp', wr')) :
    Consistent digest ifp' := by
  cases wr with
  | ready calls =>
    rcases calls with _ | ⟨c, calls⟩
    · cases h
    cases c with
    | storeProposal prop =>
      cases h
      exact consistent_apply digest hc (.storeProposal prop)
    | storePrepares view seq signatures =>
      simp only [Writer.step] at h
      split at h <;> cases h <;> exact hc
  | storing prop view seq signatures calls =>
    cases h
    exact consistent_storePrepared digest prop view seq signatures
  | panicked => cases h

theorem Writers.reachable_consistent {s : Writers P Sig w}
    (hr : Writers.Reachable digest calls s) : Consistent digest s.ifp := by
  induction hr with
  | start => rintro data ⟨⟩
  | step i _ h ih =>
    obtain ⟨wr, hw, -⟩ := Writers.step_eq_some digest h
    exact Writer.consistent_step digest ih hw

/-! ## One writer -/

/-- The next call of a list, once the first `k` are made. -/
theorem take_succ_of_drop {α : Type} {l rest : List α} {k : Nat} {c : α}
    (h : l.drop k = c :: rest) : l.take (k + 1) = l.take k ++ [c] ∧ l.drop (k + 1) = rest := by
  have hc : l[k]? = some c := by rw [← List.head?_drop, h]; rfl
  refine ⟨by rw [List.take_succ, hc]; rfl, ?_⟩
  rw [← List.tail_drop, h]
  rfl

/-- A writer with the calls `calls` to make has made the first `k` of them and `ifp` is what
they leave; between the `Load` and the `Store` of its `StorePrepares`, the proposal it loaded is
still stored. -/
structure WriterAt (calls : List (Call P Sig)) (ifp : InFlightData P Sig) (wr : Writer P Sig) :
    Prop where
  made : ∃ k, ifp = runCalls digest ⟨none⟩ (calls.take k) ∧
    ∀ rest, wr.toMake = some rest → rest = calls.drop k
  storing : ∀ prop view seq signatures rest,
    wr = .storing prop view seq signatures rest → ifp.InFlightProposal = some prop

/-- A writer alone on the value makes its calls one after another. -/
theorem Writer.writerAt_step {calls : List (Call P Sig)} {ifp ifp' : InFlightData P Sig}
    {wr wr' : Writer P Sig} (hw : WriterAt digest calls ifp wr)
    (h : wr.step digest ifp = some (ifp', wr')) : WriterAt digest calls ifp' wr' := by
  obtain ⟨⟨k, hifp, hdrop⟩, hst⟩ := hw
  cases wr with
  | ready cs =>
    rcases cs with _ | ⟨c, rest⟩
    · cases h
    obtain ⟨htake, hdrop'⟩ := take_succ_of_drop (hdrop _ rfl).symm
    cases c with
    | storeProposal prop =>
      cases h
      refine ⟨⟨k + 1, ?_, fun r hr => by cases hr; exact hdrop'.symm⟩, nofun⟩
      rw [htake, runCalls_concat, ← hifp]
      rfl
    | storePrepares view seq signatures =>
      simp only [Writer.step] at h
      split at h <;> cases h
      · -- no proposal: `StorePrepares` panics
        exact ⟨⟨k, hifp, nofun⟩, nofun⟩
      · exact ⟨⟨k, hifp, fun r hr => by cases hr; exact hdrop _ rfl⟩,
          fun _ _ _ _ _ h => by cases h; assumption⟩
  | storing prop view seq signatures rest =>
    cases h
    obtain ⟨htake, hdrop'⟩ := take_succ_of_drop (hdrop _ rfl).symm
    refine ⟨⟨k + 1, ?_, fun r hr => by cases hr; exact hdrop'.symm⟩, nofun⟩
    rw [htake, runCalls_concat, ← hifp, ← after_StorePrepares digest (hst _ _ _ _ _ rfl)]
    rfl
  | panicked => cases h

theorem Writers.reachable_writerAt (hw : w ≤ 1) {s : Writers P Sig w}
    (hr : Writers.Reachable digest calls s) : ∀ i, WriterAt digest (calls i) s.ifp (s.writers i) := by
  induction hr with
  | start => exact fun i => ⟨⟨0, rfl, fun rest h => by cases h; rfl⟩, nofun⟩
  | step i _ h ih =>
    obtain ⟨wr, hstep, hwr⟩ := Writers.step_eq_some digest h
    intro j
    /- Writer `i` is the only writer. -/
    obtain rfl : j = i := Fin.ext (by omega)
    rw [hwr, Function.update_same]
    exact Writer.writerAt_step digest (ih j) hstep

/-- However the `Load`s and `Store`s of any number of writers interleave, every value the
`atomic.Value` holds, and so every value a reader's `InFlightProposal()` or
`InFlightPrepares()` loads, holds a proposal and only prepares carrying its digest. With at most
one writer, every such value is the one that the calls it has made so far, made one after
another, leave: the first `k` of its calls, where the calls it has still to make are the rest.
So it is a state of the sequential model, and what holds of those holds of it. -/
theorem InFlightData_shared {s : Writers P Sig w} (hr : Writers.Reachable digest calls s) :
    Consistent digest s.ifp ∧
      (w ≤ 1 → ∀ i, Reachable digest s.ifp ∧ ∃ k, s.ifp = runCalls digest ⟨none⟩ ((calls i).take k) ∧
        ∀ rest, (s.writers i).toMake = some rest → rest = (calls i).drop k) := by
  refine ⟨Writers.reachable_consistent digest hr, fun hw i => ?_⟩
  obtain ⟨k, hifp, hdrop⟩ := (Writers.reachable_writerAt digest hw hr i).made
  exact ⟨hifp ▸ reachable_runCalls digest _, k, hifp, hdrop⟩

/-- One writer stores a proposal, then its prepares from signers 1 and 2. -/
theorem InFlightData_shared_oneWriter :
    ∃ s : Writers String String 1,
      Writers.Reachable (· ++ "#") (fun _ => [.storeProposal "p", .storePrepares 0 1 twoSigners]) s ∧
      s.ifp.InFlightProposal = some "p" ∧ s.ifp.InFlightPrepares.isSome ∧
      Consistent (· ++ "#") s.ifp ∧
      (1 ≤ 1 → ∀ i, Reachable (· ++ "#") s.ifp ∧ ∃ k, s.ifp = runCalls (· ++ "#") ⟨none⟩
          ([.storeProposal "p", .storePrepares 0 1 twoSigners].take k) ∧
        ∀ rest, (s.writers i).toMake = some rest →
          rest = [.storeProposal "p", .storePrepares 0 1 twoSigners].drop k) :=
  have hr := Writers.reachable_exec _ Writers.Reachable.start
    (show Writers.exec (· ++ "#") (Writers.start fun _ : Fin 1 =>
        [.storeProposal "p", .storePrepares 0 1 twoSigners]) [0, 0, 0] = some _ from rfl)
  ⟨_, hr, rfl, rfl, InFlightData_shared _ hr⟩

end SmartBft.InFlightData
