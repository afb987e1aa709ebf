import Mathlib.Data.List.Sort
import Mathlib.Data.Nat.ModEq
import Mathlib.Data.Finset.Card
/-!
# Leader rotation

`getLeaderID` (util.go) sorts the membership in place and picks the node at `view % N`.
Go panics when `N = 0` (division by zero) or when `view % N` is past the end of the list;
both are `none` here. View numbers and node IDs are `uint64`; `%` and `<` on them are the
operations on `Nat`, so we use `Nat`.

Replicas that learn the membership in any order agree on every leader
(`getLeaderID_perm`), and `N` consecutive views are led by the `N` nodes, one each
(`getLeaderID_rotation`).
-/

namespace SmartBft

/-- The membership after `getLeaderID`'s in-place `sort.Slice` by `nodes[i] < nodes[j]`. -/
def sortNodes (nodes : List Nat) : List Nat := nodes.insertionSort (· ≤ ·)

/-- `getLeaderID(view, N, nodes)`. -/
def getLeaderID (view N : Nat) (nodes : List Nat) : Option Nat :=
  if N = 0 then none else (sortNodes nodes)[view % N]?

/-! ## The sorted membership -/

theorem sortNodes_perm (l : List Nat) : (sortNodes l).Perm l := List.perm_insertionSort _ l

@[simp] theorem length_sortNodes (l : List Nat) : (sortNodes l).length = l.length :=
  (sortNodes_perm l).length_eq

theorem mem_sortNodes {l : List Nat} {x : Nat} : x ∈ sortNodes l ↔ x ∈ l := (sortNodes_perm l).mem_iff

/-- Sorting forgets the order the membership came in. -/
theorem sortNodes_eq_of_perm {a b : List Nat} (hp : a.Perm b) : sortNodes a = sortNodes b :=
  List.eq_of_perm_of_sorted ((sortNodes_perm a).trans (hp.trans (sortNodes_perm b).symm))
    (List.sorted_insertionSort _ a) (List.sorted_insertionSort _ b)

/-- A membership of distinct IDs sorts to distinct IDs. -/
theorem nodup_sortNodes {l : List Nat} (h : l.Nodup) : (sortNodes l).Nodup :=
  (sortNodes_perm l).nodup_iff.2 h

/-! ## Leaders -/

theorem getLeaderID_eq {nodes : List Nat} (hN : 0 < nodes.length) (view : Nat) :
    getLeaderID view nodes.length nodes =
      some ((sortNodes nodes).get ⟨view % nodes.length, by simpa using Nat.mod_lt view hN⟩) := by
  simp [getLeaderID, Nat.pos_iff_ne_zero.1 hN]

theorem getLeaderID_mem {nodes : List Nat} (hN : 0 < nodes.length) (view : Nat) :
    ∃ x ∈ nodes, getLeaderID view nodes.length nodes = some x :=
  ⟨_, mem_sortNodes.1 (List.get_mem _ _ _), getLeaderID_eq hN view⟩

/-- Over `N` consecutive views no node leads twice. -/
theorem getLeaderID_inj {nodes : List Nat} (hnd : nodes.Nodup) {view i j : Nat}
    (hi : i < nodes.length) (hj : j < nodes.length)
    (h : getLeaderID (view + i) nodes.length nodes = getLeaderID (view + j) nodes.length nodes) :
    i = j := by
  have hN : 0 < nodes.length := by omega
  rw [getLeaderID_eq hN, getLeaderID_eq hN, Option.some_inj, (nodup_sortNodes hnd).get_inj_iff,
    Fin.mk.injEq] at h
  have := Nat.ModEq.add_left_cancel' view h
  rwa [Nat.ModEq, Nat.mod_eq_of_lt hi, Nat.mod_eq_of_lt hj] at this

theorem getLeaderID_perm {view : Nat} {a b : List Nat} (hp : a.Perm b) (hN : 1 ≤ a.length) :
    getLeaderID view a.length a = getLeaderID view a.length b ∧
      ∃ x ∈ a, getLeaderID view a.length a = some x :=
  ⟨by simp only [getLeaderID, sortNodes_eq_of_perm hp], getLeaderID_mem hN view⟩

/-- In view 0 the membership `[4, 1, 3, 2]`, whose first entry is 4, and `[1, 2, 3, 4]` name the
same leader: both sort to `[1, 2, 3, 4]`. -/
theorem getLeaderID_perm_swap :
    [4, 1, 3, 2].Perm [1, 2, 3, 4] ∧ 1 ≤ [4, 1, 3, 2].length ∧
      getLeaderID 0 [4, 1, 3, 2].length [4, 1, 3, 2] = getLeaderID 0 [4, 1, 3, 2].length [1, 2, 3, 4] ∧
      ∃ x ∈ [4, 1, 3, 2], getLeaderID 0 [4, 1, 3, 2].length [4, 1, 3, 2] = some x :=
  have hp : [4, 1, 3, 2].Perm [1, 2, 3, 4] := by decide
  ⟨hp, by decide, getLeaderID_perm hp (by decide)⟩

/-- The leaders of `N` consecutive views, in order. -/
def leaderWindow (view : Nat) (nodes : List Nat) : List (Option Nat) :=
  (List.range nodes.length).map fun i => getLeaderID (view + i) nodes.length nodes

theorem nodup_leaderWindow {nodes : List Nat} (hnd : nodes.Nodup) (view : Nat) :
    (leaderWindow view nodes).Nodup :=
  (List.nodup_range _).map_on fun _ hi _ hj h =>
    getLeaderID_inj hnd (List.mem_range.1 hi) (List.mem_range.1 hj) h

theorem leaderWindow_perm {nodes : List Nat} (hnd : nodes.Nodup) (hN : 1 ≤ nodes.length)
    (view : Nat) : (leaderWindow view nodes).Perm (nodes.map some) := by
  refine ((nodup_leaderWindow hnd view).subperm fun o ho => ?_).perm_of_length_le (by simp [leaderWindow])
  obtain ⟨i, -, rfl⟩ := List.mem_map.1 ho
  obtain ⟨x, hx, he⟩ := getLeaderID_mem hN (view + i)
  exact he ▸ List.mem_map_of_mem some hx

example : leaderWindow 6 [4, 1, 3, 2] = [some 3, some 4, some 1, some 2] := by decide

/-- `F + 1` consecutive views, `F < N`, have a leader outside any `F` nodes. -/
theorem exists_leader_not_mem {nodes : List Nat} (hnd : nodes.Nodup) (view F : Nat)
    (hF : F < nodes.length) (B : Finset Nat) (hB : B.card ≤ F) :
    ∃ i ≤ F, ∃ x, getLeaderID (view + i) nodes.length nodes = some x ∧ x ∉ B := by
  by_contra hc
  push_neg at hc
  let T := (Finset.range (F + 1)).image fun i => getLeaderID (view + i) nodes.length nodes
  have hT : T.card = F + 1 := by
    rw [Finset.card_image_of_injOn, Finset.card_range]
    intro i hi j hj h
    exact getLeaderID_inj hnd (by simp at hi; omega) (by simp at hj; omega) h
  have hsub : T ⊆ B.image some := by
    intro o ho
    obtain ⟨i, hi, rfl⟩ := Finset.mem_image.1 ho
    obtain ⟨x, -, hx⟩ := getLeaderID_mem (show 0 < nodes.length by omega) (view + i)
    exact Finset.mem_image.2 ⟨x, hc i (by simp at hi; omega) x hx, hx.symm⟩
  have := (Finset.card_le_card hsub).trans Finset.card_image_le
  omega

theorem getLeaderID_rotation {nodes : List Nat} (hnd : nodes.Nodup) (hN : 1 ≤ nodes.length)
    (view : Nat) :
    (leaderWindow view nodes).Nodup ∧ (leaderWindow view nodes).Perm (nodes.map some) ∧
      ∀ (F : Nat) (B : Finset Nat), F < nodes.length → B.card ≤ F →
        ∃ i ≤ F, ∃ x, getLeaderID (view + i) nodes.length nodes = some x ∧ x ∉ B :=
  ⟨nodup_leaderWindow hnd view, leaderWindow_perm hnd hN view,
    fun F B hF hB => exists_leader_not_mem hnd view F hF B hB⟩

theorem getLeaderID_rotation_seven :
    [0, 1, 2, 3, 4, 5, 6].Nodup ∧ 1 ≤ [0, 1, 2, 3, 4, 5, 6].length ∧
      (leaderWindow 2 [0, 1, 2, 3, 4, 5, 6]).Nodup ∧
      (leaderWindow 2 [0, 1, 2, 3, 4, 5, 6]).Perm ([0, 1, 2, 3, 4, 5, 6].map some) ∧
      ∀ (F : Nat) (B : Finset Nat), F < [0, 1, 2, 3, 4, 5, 6].length → B.card ≤ F →
        ∃ i ≤ F, ∃ x, getLeaderID (2 + i) [0, 1, 2, 3, 4, 5, 6].length [0, 1, 2, 3, 4, 5, 6] = some x ∧
          x ∉ B :=
  ⟨by decide, by decide, getLeaderID_rotation (by decide) (by decide) 2⟩

end SmartBft
