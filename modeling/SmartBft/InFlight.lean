import Mathlib.Data.List.AList
/-!
# In-flight proposals

`InFlightData` (util.go) keeps the proposal in flight and the prepares collected for it, in an
`atomic.Value` that is empty until the first store. `StoreProposal` stores the new proposal
with no prepares; `StorePrepares` builds one `Prepare` per signer over the stored proposal's
digest and stores them beside that proposal, and panics when no proposal is stored.

A Go map `map[uint64]T` is an `AList` over `Nat`, and a nil map is `none`. `Digest()` is
defined in pkg/types, which is not in the sources: it is a parameter, so every result holds
for any digest function. A method is an `EStateM` action; a panic is its error, with the state
the code leaves, since `StorePrepares` panics before it stores.

Over every sequence of calls from the zero value (`InFlightData.Reachable`), every stored
prepare carries the stored proposal's digest (`InFlightData.Consistent`).
-/

namespace SmartBft

/-- `protos.Prepare` as `StorePrepares` fills it. -/
structure Prepare (Sig : Type) where
  seq : Nat
  view : Nat
  digest : String
  signature : Sig
deriving DecidableEq, Repr

/-- `inFlightProposalData`: a `*types.Proposal` and a `map[uint64]*protos.Prepare`. -/
structure InFlightProposalData (P Sig : Type) where
  proposal : Option P
  prepares : Option (AList fun _ : Nat => Prepare Sig)

/-- `InFlightData`: its `atomic.Value`, `none` before the first `Store`. -/
structure InFlightData (P Sig : Type) where
  v : Option (InFlightProposalData P Sig)

namespace InFlightData

variable {P Sig : Type} (digest : P → String)

def InFlightProposal (ifp : InFlightData P Sig) : Option P :=
  match ifp.v with
  | none => none
  | some data => data.proposal

def InFlightPrepares (ifp : InFlightData P Sig) : Option (AList fun _ : Nat => Prepare Sig) :=
  match ifp.v with
  | none => none
  | some data => data.prepares

def StoreProposal (prop : P) : EStateM String (InFlightData P Sig) Unit :=
  fun _ => .ok () ⟨some ⟨some prop, none⟩⟩

/-- `StorePrepares`' loop over `signatures`: `prepares[signer] = prepare`. -/
def preparesOf (view seq : Nat) (dig : String) (signatures : AList fun _ : Nat => Sig) :
    AList fun _ : Nat => Prepare Sig :=
  signatures.foldl (fun prepares signer sig => prepares.insert signer ⟨seq, view, dig, sig⟩) ∅

def StorePrepares (view seq : Nat) (signatures : AList fun _ : Nat => Sig) :
    EStateM String (InFlightData P Sig) Unit :=
  fun ifp =>
    match ifp.InFlightProposal with
    | none => .error "stored prepares but proposal is not initialized" ifp
    | some prop => .ok () ⟨some ⟨some prop, some (preparesOf view seq (digest prop) signatures)⟩⟩

inductive Call (P Sig : Type)
  | storeProposal (prop : P)
  | storePrepares (view seq : Nat) (signatures : AList fun _ : Nat => Sig)

def Call.apply : Call P Sig → EStateM String (InFlightData P Sig) Unit
  | .storeProposal prop => StoreProposal prop
  | .storePrepares view seq signatures => StorePrepares digest view seq signatures

/-- The state a call leaves, whether it returns or panics. -/
def after : EStateM.Result String (InFlightData P Sig) Unit → InFlightData P Sig
  | .ok _ ifp => ifp
  | .error _ ifp => ifp

/-- The states any sequence of calls leads to from the zero `InFlightData{}`. -/
inductive Reachable : InFlightData P Sig → Prop
  | zero : Reachable ⟨none⟩
  | call {ifp : InFlightData P Sig} (c : Call P Sig) : Reachable ifp →
      Reachable (after ((c.apply digest).run ifp))

/-! ## The prepares `StorePrepares` builds -/

/-- Inserting a list of entries with distinct keys: a key of the list gets its own entry. -/
theorem lookup_foldl_insert (f : Nat → Sig → Prepare Sig) (signer : Nat) :
    ∀ (l : List (Σ _ : Nat, Sig)) (acc : AList fun _ : Nat => Prepare Sig), l.NodupKeys →
      (l.foldl (fun r a => r.insert a.1 (f a.1 a.2)) acc).lookup signer =
        ((l.dlookup signer).map (f signer)).or (acc.lookup signer)
  | [], acc, _ => by simp
  | ⟨k, sig⟩ :: t, acc, h => by
    rw [List.nodupKeys_cons] at h
    rw [List.foldl_cons, lookup_foldl_insert f signer t _ h.2]
    by_cases hk : signer = k
    · subst hk
      simp [List.dlookup_eq_none.2 h.1, AList.lookup_insert]
    · simp [List.dlookup_cons_ne t ⟨k, sig⟩ hk, AList.lookup_insert_ne hk]

/-- Exactly one prepare per signer, with the signer's signature and the given view, sequence
and digest. -/
theorem lookup_preparesOf (view seq : Nat) (dig : String) (signatures : AList fun _ : Nat => Sig)
    (signer : Nat) :
    (preparesOf view seq dig signatures).lookup signer =
      (signatures.lookup signer).map fun sig => ⟨seq, view, dig, sig⟩ := by
  rw [preparesOf, AList.foldl]
  exact (lookup_foldl_insert (fun _ sig => ⟨seq, view, dig, sig⟩) signer signatures.entries ∅
    signatures.nodupKeys).trans (by simp [AList.lookup])

/-! ## The invariant -/

/-- A stored value holds a proposal, and every prepare stored beside it carries its digest. -/
def Consistent (ifp : InFlightData P Sig) : Prop :=
  ∀ data, ifp.v = some data → ∃ prop, data.proposal = some prop ∧
    ∀ ps, data.prepares = some ps → ∀ signer pr, ps.lookup signer = some pr → pr.digest = digest prop

theorem consistent_apply {ifp : InFlightData P Sig} (hc : Consistent digest ifp) (c : Call P Sig) :
    Consistent digest (after ((c.apply digest).run ifp)) := by
  cases c with
  | storeProposal prop =>
    rintro data ⟨⟩
    exact ⟨prop, rfl, by simp⟩
  | storePrepares view seq signatures =>
    show Consistent digest (after (StorePrepares digest view seq signatures ifp))
    simp only [StorePrepares]
    split
    · exact hc
    · rename_i prop _
      rintro data ⟨⟩
      refine ⟨prop, rfl, fun ps hps signer pr hpr => ?_⟩
      cases hps
      rw [lookup_preparesOf, Option.map_eq_some'] at hpr
      obtain ⟨sig, -, rfl⟩ := hpr
      rfl

theorem reachable_consistent {ifp : InFlightData P Sig} (hr : Reachable digest ifp) :
    Consistent digest ifp := by
  induction hr with
  | zero => rintro data ⟨⟩
  | call c _ ih => exact consistent_apply digest ih c

/-- Stored prepares come with a stored proposal whose digest they carry. -/
theorem prepares_digest {ifp : InFlightData P Sig} (hc : Consistent digest ifp)
    {ps : AList fun _ : Nat => Prepare Sig} (hps : ifp.InFlightPrepares = some ps) :
    ∃ prop, ifp.InFlightProposal = some prop ∧
      ∀ signer pr, ps.lookup signer = some pr → pr.digest = digest prop := by
  unfold InFlightPrepares at hps
  unfold InFlightProposal
  split at hps
  · cases hps
  · rename_i data hv
    obtain ⟨prop, hprop, hdig⟩ := hc data hv
    exact ⟨prop, by simp [hv, hprop], hdig ps hps⟩

/-- Over any sequence of calls, every prepare in `InFlightPrepares()` carries the digest of
`InFlightProposal()`, and there are prepares only with a proposal. `StoreProposal(p)` stores
`p` and drops every prepare; `StorePrepares(view, seq, sigs)` keeps the proposal and stores one
prepare per signer of `sigs`, with its signature, `view` and `seq`; with no proposal it panics
and leaves the state as it was. -/
theorem StorePrepares_matches_proposal {ifp : InFlightData P Sig} (hr : Reachable digest ifp) :
    (∀ ps signer pr, ifp.InFlightPrepares = some ps → ps.lookup signer = some pr →
      ∃ prop, ifp.InFlightProposal = some prop ∧ pr.digest = digest prop) ∧
    (ifp.InFlightPrepares.isSome → ifp.InFlightProposal.isSome) ∧
    (∀ prop : P, ∃ ifp', (StoreProposal prop).run ifp = .ok () ifp' ∧
      ifp'.InFlightProposal = some prop ∧ ifp'.InFlightPrepares = none) ∧
    (∀ prop view seq signatures, ifp.InFlightProposal = some prop →
      ∃ ifp' ps, (StorePrepares digest view seq signatures).run ifp = .ok () ifp' ∧
        ifp'.InFlightProposal = some prop ∧ ifp'.InFlightPrepares = some ps ∧
        ∀ signer, ps.lookup signer =
          (signatures.lookup signer).map fun sig => ⟨seq, view, digest prop, sig⟩) ∧
    (∀ view seq signatures, ifp.InFlightProposal = none →
      (StorePrepares digest view seq signatures).run ifp =
        .error "stored prepares but proposal is not initialized" ifp) := by
  have hc := reachable_consistent digest hr
  refine ⟨fun ps signer pr hps hpr => ?_, fun h => ?_, fun prop => ⟨_, rfl, rfl, rfl⟩,
    fun prop view seq signatures h => ⟨⟨some ⟨some prop, some (preparesOf view seq (digest prop)
      signatures)⟩⟩, _, ?_, rfl, rfl, lookup_preparesOf view seq _ signatures⟩,
    fun view seq signatures h => show StorePrepares digest _ _ _ ifp = _ by
      simp only [StorePrepares, h]⟩
  · obtain ⟨prop, hprop, hdig⟩ := prepares_digest digest hc hps
    exact ⟨prop, hprop, hdig signer pr hpr⟩
  · obtain ⟨ps, hps⟩ := Option.isSome_iff_exists.1 h
    obtain ⟨prop, hprop, -⟩ := prepares_digest digest hc hps
    simp [hprop]
  · show StorePrepares digest _ _ _ ifp = _
    simp only [StorePrepares, h]

/-- The signatures of signers 1 and 2. -/
def twoSigners : AList fun _ : Nat => String := [⟨1, "s1"⟩, ⟨2, "s2"⟩].toAList

/-- A proposal is stored, then its prepares from signers 1 and 2. -/
theorem StorePrepares_matches_proposal_twoSigners :
    ∃ ifp : InFlightData String String, Reachable (· ++ "#") ifp ∧
      ifp.InFlightProposal = some "p" ∧
      (∀ ps signer pr, ifp.InFlightPrepares = some ps → ps.lookup signer = some pr →
        ∃ prop, ifp.InFlightProposal = some prop ∧ pr.digest = prop ++ "#") ∧
      (ifp.InFlightPrepares.isSome → ifp.InFlightProposal.isSome) ∧
      (∀ prop : String, ∃ ifp', (StoreProposal prop).run ifp = .ok () ifp' ∧
        ifp'.InFlightProposal = some prop ∧ ifp'.InFlightPrepares = none) ∧
      (∀ prop view seq signatures, ifp.InFlightProposal = some prop →
        ∃ ifp' ps, (StorePrepares (· ++ "#") view seq signatures).run ifp = .ok () ifp' ∧
          ifp'.InFlightProposal = some prop ∧ ifp'.InFlightPrepares = some ps ∧
          ∀ signer, ps.lookup signer =
            (signatures.lookup signer).map fun sig => ⟨seq, view, prop ++ "#", sig⟩) ∧
      (∀ view seq signatures, ifp.InFlightProposal = none →
        (StorePrepares (· ++ "#") view seq signatures).run ifp =
          .error "stored prepares but proposal is not initialized" ifp) :=
  have hr := ((Reachable.zero : Reachable (· ++ "#") ⟨none⟩).call (.storeProposal "p")).call
    (.storePrepares 0 1 twoSigners)
  ⟨_, hr, rfl, StorePrepares_matches_proposal _ hr⟩

end InFlightData

end SmartBft
