import Mathlib.Algebra.Order.Floor
import Mathlib.Data.Rat.Floor
import Mathlib.Data.Finset.Card
/-!
# Quorum size

`computeQuorum` (util.go) sizes the quorum of an `N`-node cluster as `⌈(N + F + 1) / 2⌉`
with `F = (N - 1) / 3`; `Controller.computeQuorum` repeats the formula. Go computes the
ceiling in `float64`; we take it over exact rationals, as the doc comment's formula does.
Go's `(int(N) - 1) / 3` truncates towards zero, so it is `0` at `N = 0`, as `Nat`
subtraction is.

We prove the two properties the doc comment states (`F` is the largest `f` with
`3f + 1 ≤ N`, and two quorums share `F + 1` nodes), that the `N - F` correct nodes make a
quorum, and that `Q - 1` nodes would not be enough.
-/

namespace SmartBft

/-- `computeQuorum(N) (Q int, F int)`. -/
def computeQuorum (N : Nat) : Nat × Nat :=
  let F := (N - 1) / 3
  (⌈((N : ℚ) + F + 1) / 2⌉₊, F)

/-- `Controller.computeQuorum`: the same formula, for the controller's `N`. -/
def Controller.computeQuorum (N : Nat) : Nat :=
  (SmartBft.computeQuorum N).1

theorem computeQuorum_snd (N : Nat) : (computeQuorum N).2 = (N - 1) / 3 := rfl

/-- The ceiling over the rationals, as two bounds in `Nat`. -/
theorem computeQuorum_bounds (N : Nat) :
    N + (computeQuorum N).2 + 1 ≤ 2 * (computeQuorum N).1 ∧
      2 * (computeQuorum N).1 ≤ N + (computeQuorum N).2 + 2 := by
  simp only [computeQuorum]
  set F := (N - 1) / 3
  constructor
  · have h := Nat.le_ceil (((N : ℚ) + F + 1) / 2)
    have : ((N + F + 1 : ℕ) : ℚ) ≤ ((2 * ⌈((N : ℚ) + F + 1) / 2⌉₊ : ℕ) : ℚ) := by
      push_cast; linarith
    exact_mod_cast this
  · have hm : N + F + 1 ≤ 2 * ((N + F + 2) / 2) := by omega
    have h : ⌈((N : ℚ) + F + 1) / 2⌉₊ ≤ (N + F + 2) / 2 := by
      refine Nat.ceil_le.2 ((div_le_iff₀ (by norm_num)).2 ?_)
      have : ((N + F + 1 : ℕ) : ℚ) ≤ ((2 * ((N + F + 2) / 2) : ℕ) : ℚ) := by exact_mod_cast hm
      push_cast at this; linarith
    omega

/-! ## Faults tolerated -/

/-- `F = argmax (N ≥ 3f + 1)`. -/
theorem faults_argmax {N : Nat} (hN : 1 ≤ N) :
    3 * (computeQuorum N).2 + 1 ≤ N ∧ ∀ f, 3 * f + 1 ≤ N → f ≤ (computeQuorum N).2 := by
  rw [computeQuorum_snd]
  exact ⟨by omega, fun f hf => by omega⟩

/-! ## Quorums intersect -/

section Membership

variable {α : Type} [DecidableEq α] {M q₁ q₂ : Finset α}

/-- Two subsets of `M` share at least `|q₁| + |q₂| - |M|` members. -/
theorem card_add_card_le_inter (h₁ : q₁ ⊆ M) (h₂ : q₂ ⊆ M) :
    q₁.card + q₂.card ≤ M.card + (q₁ ∩ q₂).card := by
  have hu : (q₁ ∪ q₂).card ≤ M.card := Finset.card_le_card (Finset.union_subset h₁ h₂)
  have := Finset.card_union_add_card_inter q₁ q₂
  omega

/-- A set of more than `f` nodes is not covered by `f` faulty ones. -/
theorem exists_not_mem_of_card_lt {S B : Finset α} (h : B.card < S.card) : ∃ x ∈ S, x ∉ B := by
  by_contra hc
  push_neg at hc
  exact absurd (Finset.card_le_card hc) (by omega)

/-- Two quorums of an `N`-node membership share `F + 1` nodes, so with at most `F` faulty
nodes they share a correct one. -/
theorem quorum_inter {N : Nat} (hM : M.card = N) (h₁ : q₁ ⊆ M) (h₂ : q₂ ⊆ M)
    (hq₁ : (computeQuorum N).1 ≤ q₁.card) (hq₂ : (computeQuorum N).1 ≤ q₂.card) :
    (computeQuorum N).2 + 1 ≤ (q₁ ∩ q₂).card ∧
      ∀ B : Finset α, B.card ≤ (computeQuorum N).2 → ∃ x ∈ q₁ ∩ q₂, x ∉ B := by
  have hQ := (computeQuorum_bounds N).1
  have hi := card_add_card_le_inter h₁ h₂
  have hF : (computeQuorum N).2 + 1 ≤ (q₁ ∩ q₂).card := by omega
  exact ⟨hF, fun B hB => exists_not_mem_of_card_lt (by omega)⟩

/-- Two `k`-subsets of `M` that share no more than the `2k - |M|` members they must. -/
theorem exists_pair_inter_le {k : Nat} (hk : k ≤ M.card) :
    ∃ q₁ q₂, q₁ ⊆ M ∧ q₂ ⊆ M ∧ q₁.card = k ∧ q₂.card = k ∧ (q₁ ∩ q₂).card ≤ 2 * k - M.card := by
  obtain ⟨q₁, h₁, c₁⟩ := Finset.exists_subset_card_eq hk
  have hc : (M \ q₁).card = M.card - k := by rw [Finset.card_sdiff h₁, c₁]
  by_cases hle : k ≤ M.card - k
  · obtain ⟨q₂, h₂, c₂⟩ := Finset.exists_subset_card_eq (hc ▸ hle)
    have hd : Disjoint q₁ q₂ := Finset.disjoint_of_subset_right h₂ Finset.disjoint_sdiff
    refine ⟨q₁, q₂, h₁, h₂.trans Finset.sdiff_subset, c₁, c₂, ?_⟩
    simp [Finset.disjoint_iff_inter_eq_empty.1 hd]
  · obtain ⟨q₂, hs, h₂, c₂⟩ := Finset.exists_subsuperset_card_eq (Finset.sdiff_subset : M \ q₁ ⊆ M) (by omega) hk
    have hM : M.card ≤ (q₁ ∪ q₂).card := Finset.card_le_card
      (Finset.union_sdiff_of_subset h₁ ▸ Finset.union_subset_union_right hs)
    have := Finset.card_union_add_card_inter q₁ q₂
    exact ⟨q₁, q₂, h₁, h₂, c₁, c₂, by omega⟩

end Membership

theorem computeQuorum_intersection {N : Nat} (hN : 1 ≤ N) :
    (3 * (computeQuorum N).2 + 1 ≤ N ∧ ∀ f, 3 * f + 1 ≤ N → f ≤ (computeQuorum N).2) ∧
    ∀ {α : Type} [DecidableEq α] (M q₁ q₂ : Finset α), M.card = N → q₁ ⊆ M → q₂ ⊆ M →
      (computeQuorum N).1 ≤ q₁.card → (computeQuorum N).1 ≤ q₂.card →
      (computeQuorum N).2 + 1 ≤ (q₁ ∩ q₂).card ∧
        ∀ B : Finset α, B.card ≤ (computeQuorum N).2 → ∃ x ∈ q₁ ∩ q₂, x ∉ B :=
  ⟨faults_argmax hN, fun _ _ _ hM h₁ h₂ hq₁ hq₂ => quorum_inter hM h₁ h₂ hq₁ hq₂⟩

theorem computeQuorum_intersection_four :
    1 ≤ 4 ∧ (3 * (computeQuorum 4).2 + 1 ≤ 4 ∧ ∀ f, 3 * f + 1 ≤ 4 → f ≤ (computeQuorum 4).2) ∧
    ∀ {α : Type} [DecidableEq α] (M q₁ q₂ : Finset α), M.card = 4 → q₁ ⊆ M → q₂ ⊆ M →
      (computeQuorum 4).1 ≤ q₁.card → (computeQuorum 4).1 ≤ q₂.card →
      (computeQuorum 4).2 + 1 ≤ (q₁ ∩ q₂).card ∧
        ∀ B : Finset α, B.card ≤ (computeQuorum 4).2 → ∃ x ∈ q₁ ∩ q₂, x ∉ B :=
  ⟨by decide, computeQuorum_intersection (by decide)⟩

/-! ## The size is tight -/

/-- The `N - F` correct nodes make a quorum. -/
theorem quorum_le_correct {N : Nat} (hN : 1 ≤ N) : (computeQuorum N).1 ≤ N - (computeQuorum N).2 := by
  obtain ⟨h₁, h₂⟩ := computeQuorum_bounds N
  rw [computeQuorum_snd] at h₁ h₂ ⊢
  omega

theorem computeQuorum_tight {N : Nat} (hN : 1 ≤ N) :
    (computeQuorum N).1 ≤ N - (computeQuorum N).2 ∧
    ∀ {α : Type} [DecidableEq α] (M : Finset α), M.card = N →
      ∃ q₁ q₂, q₁ ⊆ M ∧ q₂ ⊆ M ∧ q₁.card = (computeQuorum N).1 - 1 ∧
        q₂.card = (computeQuorum N).1 - 1 ∧ (q₁ ∩ q₂).card ≤ (computeQuorum N).2 := by
  refine ⟨quorum_le_correct hN, fun M hM => ?_⟩
  have hQ := (computeQuorum_bounds N).2
  have hk : (computeQuorum N).1 - 1 ≤ M.card := by have := quorum_le_correct hN; omega
  obtain ⟨q₁, q₂, h₁, h₂, c₁, c₂, hi⟩ := exists_pair_inter_le hk
  exact ⟨q₁, q₂, h₁, h₂, c₁, c₂, by omega⟩

theorem computeQuorum_tight_seven :
    1 ≤ 7 ∧ (computeQuorum 7).1 ≤ 7 - (computeQuorum 7).2 ∧
    ∀ {α : Type} [DecidableEq α] (M : Finset α), M.card = 7 →
      ∃ q₁ q₂, q₁ ⊆ M ∧ q₂ ⊆ M ∧ q₁.card = (computeQuorum 7).1 - 1 ∧
        q₂.card = (computeQuorum 7).1 - 1 ∧ (q₁ ∩ q₂).card ≤ (computeQuorum 7).2 :=
  ⟨by decide, computeQuorum_tight (by decide)⟩

end SmartBft
