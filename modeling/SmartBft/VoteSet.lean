import Mathlib.Data.Finset.Card
import SmartBft.Schedule
/-!
# Vote sets

`voteSet` (util.go) counts at most one vote per sender. `registerVote` drops a message that
fails `validVote` and a second message from a sender already in `voted`; otherwise it adds the
sender to `voted` and sends the vote on `votes`, a channel whose capacity `clear(n)` sets to
`n`. The View reads the votes from `votes` in its own time.

The View registers votes one at a time, so `votes` is a buffer and at most one sender blocked
on it: when the buffer is full, the `registerVote` in progress waits in its send, and the next
read moves its vote into the buffer, or, on an unbuffered channel, takes it directly. `sent`
and `received` are not in the code: every vote whose send completed since `clear`, and every
vote read.

In every state that `clear(n)` and any interleaving of `registerVote` calls and reads lead to
(`VoteSet.Reachable`), the votes accepted have distinct senders, each passed `validVote`, and
`voted` is exactly their senders (`VoteSet.Inv`). When `validVote` admits at most `n` voters,
no `registerVote` ever blocks and at most `n` votes are sent (`registerVote_counts_once`).
-/

namespace SmartBft

/-- `vote`: a message and its sender. -/
structure Vote (Msg : Type) where
  message : Msg
  sender : Nat
deriving DecidableEq, Repr

structure VoteSet (Msg : Type) where
  validVote : Nat → Msg → Bool
  voted : Finset Nat
  /-- The buffer of `votes`, oldest first. -/
  votes : List (Vote Msg)
  /-- The capacity `clear` gave `votes`. -/
  capacity : Nat
  /-- The vote of a `registerVote` blocked in its send on `votes`. -/
  sending : Option (Vote Msg)
  /-- Not in the code: the votes whose send on `votes` completed, oldest first. -/
  sent : List (Vote Msg)
  /-- Not in the code: the votes read from `votes`, oldest first. -/
  received : List (Vote Msg)

namespace VoteSet

variable {Msg : Type}

/-- `clear(n)`: the loop drains `votes`, then `voted` and `votes` are made anew, the channel
with capacity `n`. -/
def clear (vs : VoteSet Msg) (n : Nat) : VoteSet Msg :=
  { vs with voted := ∅, votes := [], capacity := n, sending := none, sent := [], received := [] }

/-- `vs.votes <- v`: into the buffer if it has room, else blocked. -/
def send (vs : VoteSet Msg) (v : Vote Msg) : VoteSet Msg :=
  if vs.votes.length < vs.capacity then
    { vs with votes := vs.votes ++ [v], sent := vs.sent ++ [v] }
  else { vs with sending := some v }

/-- `registerVote(voter, message)`, up to its send. -/
def registerVote (vs : VoteSet Msg) (voter : Nat) (message : Msg) : VoteSet Msg :=
  if !vs.validVote voter message then vs
  -- Received double vote
  else if voter ∈ vs.voted then vs
  else send { vs with voted := insert voter vs.voted } ⟨message, voter⟩

/-- `<-vs.votes`: the oldest vote, and a blocked sender's vote moves into the buffer; `none`
when there is no vote to read. -/
def read (vs : VoteSet Msg) : Option (Vote Msg × VoteSet Msg) :=
  match vs.votes, vs.sending with
  | v :: rest, none => some (v, { vs with votes := rest, received := vs.received ++ [v] })
  | v :: rest, some w =>
    some (v, { vs with
      votes := rest ++ [w], sending := none, sent := vs.sent ++ [w], received := vs.received ++ [v] })
  | [], some w =>
    some (w, { vs with sending := none, sent := vs.sent ++ [w], received := vs.received ++ [w] })
  | [], none => none

@[simp] theorem send_validVote (vs : VoteSet Msg) (v : Vote Msg) :
    (vs.send v).validVote = vs.validVote := by
  unfold send; split <;> rfl

@[simp] theorem send_voted (vs : VoteSet Msg) (v : Vote Msg) : (vs.send v).voted = vs.voted := by
  unfold send; split <;> rfl

@[simp] theorem send_capacity (vs : VoteSet Msg) (v : Vote Msg) :
    (vs.send v).capacity = vs.capacity := by
  unfold send; split <;> rfl

@[simp] theorem registerVote_validVote (vs : VoteSet Msg) (voter : Nat) (message : Msg) :
    (vs.registerVote voter message).validVote = vs.validVote := by
  unfold registerVote; split <;> (try split) <;> simp

inductive Act (Msg : Type)
  | registerVote (voter : Nat) (message : Msg)
  | read

/-- One call or read: a `registerVote` starts only once the previous one has returned. -/
def step (vs : VoteSet Msg) : Act Msg → Option (VoteSet Msg)
  | .registerVote voter message =>
    if vs.sending.isNone then some (vs.registerVote voter message) else none
  | .read => vs.read.map Prod.snd

/-- The states `clear(n)` and any sequence of calls and reads lead to. -/
inductive Reachable (n : Nat) : VoteSet Msg → Prop
  | clear (vs : VoteSet Msg) : Reachable n (vs.clear n)
  | step {vs vs' : VoteSet Msg} (a : Act Msg) : Reachable n vs → vs.step a = some vs' →
      Reachable n vs'

def exec (vs : VoteSet Msg) (as : List (Act Msg)) : Option (VoteSet Msg) := Schedule.run step vs as

theorem reachable_exec {n : Nat} {vs vs' : VoteSet Msg} {as : List (Act Msg)}
    (hr : Reachable n vs) (h : vs.exec as = some vs') : Reachable n vs' :=
  Schedule.run_induction (fun hr h => hr.step _ h) hr h

/-! ## What each step needs and does -/

section Steps

variable {vs vs' : VoteSet Msg}

/-- A read takes the oldest buffered vote, moving a blocked vote into the buffer, or takes the
blocked vote itself from an empty buffer. -/
theorem read_eq_some {v : Vote Msg} (h : vs.read = some (v, vs')) :
    (∃ rest, vs.votes = v :: rest ∧ vs.sending = none ∧
      vs' = { vs with votes := rest, received := vs.received ++ [v] }) ∨
    (∃ rest w, vs.votes = v :: rest ∧ vs.sending = some w ∧
      vs' = { vs with votes := rest ++ [w], sending := none, sent := vs.sent ++ [w],
                      received := vs.received ++ [v] }) ∨
    (vs.votes = [] ∧ vs.sending = some v ∧
      vs' = { vs with sending := none, sent := vs.sent ++ [v], received := vs.received ++ [v] }) := by
  unfold read at h
  split at h <;> cases h
  · exact .inl ⟨_, ‹_›, ‹_›, rfl⟩
  · exact .inr (.inl ⟨_, _, ‹_›, ‹_›, rfl⟩)
  · exact .inr (.inr ⟨‹_›, ‹_›, rfl⟩)

theorem step_registerVote_eq_some {voter : Nat} {message : Msg}
    (h : vs.step (.registerVote voter message) = some vs') :
    vs.sending = none ∧ vs' = vs.registerVote voter message := by
  simp only [step] at h
  split at h
  · cases h
    exact ⟨Option.isNone_iff_eq_none.1 ‹_›, rfl⟩
  · cases h

theorem step_read_eq_some (h : vs.step .read = some vs') : ∃ v, vs.read = some (v, vs') := by
  simp only [step, Option.map_eq_some'] at h
  obtain ⟨⟨v, _⟩, hread, rfl⟩ := h
  exact ⟨v, hread⟩

end Steps

/-! ## The invariant -/

/-- The votes `registerVote` accepted: those sent, and the blocked one. -/
def registered (vs : VoteSet Msg) : List (Vote Msg) := vs.sent ++ vs.sending.toList

/-- `votes` is a FIFO within its capacity `n` that blocks a sender only when full, and the votes
accepted are valid, one per sender, with `voted` their senders. -/
structure Inv (n : Nat) (vs : VoteSet Msg) : Prop where
  fifo : vs.sent = vs.received ++ vs.votes
  nodup : (vs.registered.map (·.sender)).Nodup
  valid : ∀ v ∈ vs.registered, vs.validVote v.sender v.message = true
  voted : vs.voted = (vs.registered.map (·.sender)).toFinset
  capacity : vs.capacity = n
  room : vs.votes.length ≤ n
  full : vs.sending.isSome → vs.votes.length = n

theorem inv_clear (vs : VoteSet Msg) (n : Nat) : Inv n (vs.clear n) :=
  ⟨rfl, List.nodup_nil, by simp [clear, registered], rfl, rfl, Nat.zero_le n, by simp [clear]⟩

/-- With no sender blocked, sending `v` accepts it, into the buffer or blocked, and `votes`
stays a FIFO within its capacity that blocks a sender only when full. -/
theorem send_spec (vs : VoteSet Msg) {n : Nat} (hs : vs.sending = none)
    (hf : vs.sent = vs.received ++ vs.votes) (hc : vs.capacity = n) (hr : vs.votes.length ≤ n)
    (v : Vote Msg) :
    (vs.send v).registered = vs.registered ++ [v] ∧
    (vs.send v).sent = (vs.send v).received ++ (vs.send v).votes ∧
    (vs.send v).votes.length ≤ n ∧ ((vs.send v).sending.isSome → (vs.send v).votes.length = n) := by
  unfold send
  split
  · exact ⟨by simp [registered, hs], by simp [hf], by simp; omega, by simp [hs]⟩
  · exact ⟨by simp [registered, hs], hf, hr, fun _ => by dsimp only; omega⟩

theorem inv_registerVote {n : Nat} {vs : VoteSet Msg} (hi : Inv n vs) (hs : vs.sending = none)
    (voter : Nat) (message : Msg) : Inv n (vs.registerVote voter message) := by
  unfold registerVote
  split
  · exact hi
  split
  · exact hi
  rename_i hvalid hfresh
  obtain ⟨hf, hn, hv, hd, hc, hr, -⟩ := hi
  simp only [Bool.not_eq_true', Bool.not_eq_false] at hvalid
  have hnew : voter ∉ vs.registered.map (·.sender) := by
    rw [hd] at hfresh
    simpa using hfresh
  obtain ⟨hreg, hf', hr', hfull'⟩ :=
    send_spec { vs with voted := insert voter vs.voted } hs hf hc hr ⟨message, voter⟩
  refine ⟨hf', ?_, ?_, ?_, by simpa using hc, hr', hfull'⟩
  · rw [hreg, List.map_append]
    exact hn.append (List.nodup_singleton _) (List.disjoint_singleton.2 hnew)
  · rw [hreg, send_validVote]
    exact List.forall_mem_append.2 ⟨hv, List.forall_mem_singleton.2 hvalid⟩
  · rw [hreg, send_voted, List.map_append, List.toFinset_append, hd]
    simp [registered, Finset.insert_eq, Finset.union_comm]

theorem inv_read {n : Nat} {vs : VoteSet Msg} {v : Vote Msg} {vs' : VoteSet Msg} (hi : Inv n vs)
    (h : vs.read = some (v, vs')) : Inv n vs' := by
  obtain ⟨hf, hn, hv, hd, hc, hr, hfull⟩ := hi
  rcases read_eq_some h with ⟨rest, hvotes, hsend, rfl⟩ | ⟨rest, w, hvotes, hsend, rfl⟩ |
    ⟨hvotes, hsend, rfl⟩
  · -- the oldest vote, no sender blocked
    rw [hvotes, List.length_cons] at hr
    exact ⟨by rw [hf, hvotes]; simp, hn, hv, hd, hc, by dsimp only; omega, by simp [hsend]⟩
  · -- the oldest vote, and the blocked vote moves into the buffer
    have hlen := hfull (by simp [hsend])
    rw [hvotes, List.length_cons] at hlen
    exact ⟨by rw [hf, hvotes]; simp, by simpa [registered, hsend] using hn,
      by simpa [registered, hsend] using hv, by simpa [registered, hsend] using hd, hc,
      by simp; omega, by simp⟩
  · -- an unbuffered channel hands over the blocked vote
    exact ⟨by simp [hf, hvotes], by simpa [registered, hsend] using hn,
      by simpa [registered, hsend] using hv, by simpa [registered, hsend] using hd, hc, hr,
      by simp⟩

theorem inv_step {n : Nat} {vs vs' : VoteSet Msg} {a : Act Msg} (hi : Inv n vs)
    (h : vs.step a = some vs') : Inv n vs' := by
  cases a with
  | registerVote voter message =>
    obtain ⟨hs, rfl⟩ := step_registerVote_eq_some h
    exact inv_registerVote hi hs voter message
  | read =>
    obtain ⟨v, hread⟩ := step_read_eq_some h
    exact inv_read hi hread

theorem reachable_inv {n : Nat} {vs : VoteSet Msg} (hr : Reachable n vs) : Inv n vs := by
  induction hr with
  | clear vs => exact inv_clear vs n
  | step a _ h ih => exact inv_step ih h

/-! ## At most `n` voters -/

/-- When `validVote` admits at most `n` voters, at most `n` votes are accepted. -/
theorem registered_length_le {n : Nat} {vs : VoteSet Msg} (hi : Inv n vs) {S : Finset Nat}
    (hS : S.card ≤ n) (hv : ∀ v m, vs.validVote v m = true → v ∈ S) :
    vs.registered.length ≤ n := by
  have hsub : (vs.registered.map (·.sender)).toFinset ⊆ S := by
    intro x hx
    obtain ⟨w, hw, rfl⟩ := List.mem_map.1 (List.mem_toFinset.1 hx)
    exact hv _ _ (hi.valid w hw)
  have hcard := Finset.card_le_card hsub
  rw [List.toFinset_card_of_nodup hi.nodup, List.length_map] at hcard
  omega

/-- A vote blocks only behind `n` votes sent, so with at most `n` accepted none blocks. -/
theorem sending_eq_none {n : Nat} {vs : VoteSet Msg} (hi : Inv n vs)
    (hlen : vs.registered.length ≤ n) : vs.sending = none := by
  cases hs : vs.sending with
  | none => rfl
  | some w =>
    have hfull := hi.full (by simp [hs])
    have hsent := congrArg List.length hi.fifo
    simp only [registered, hs, Option.toList_some, List.length_append, List.length_singleton]
      at hlen hsent
    omega

/-- After `clear(n)`, over any calls and reads: the votes sent have distinct senders and
each passed `validVote`; `voted` is their senders and that of a vote blocked in its send;
what was read is the first votes sent, so `Q` votes read come from `Q` voters; a voter already
in `voted` is not counted again; and when `validVote` admits at most `n` voters, no
`registerVote` blocks and at most `n` votes are sent. -/
theorem registerVote_counts_once {n : Nat} {vs : VoteSet Msg} (hr : Reachable n vs) :
    (vs.sent.map (·.sender)).Nodup ∧
    (∀ v ∈ vs.sent, vs.validVote v.sender v.message = true) ∧
    vs.voted = ((vs.sent ++ vs.sending.toList).map (·.sender)).toFinset ∧
    vs.received <+: vs.sent ∧ (vs.received.map (·.sender)).Nodup ∧
    (∀ voter message, voter ∈ vs.voted → vs.registerVote voter message = vs) ∧
    ((∃ S : Finset Nat, S.card ≤ n ∧ ∀ v m, vs.validVote v m = true → v ∈ S) →
      vs.sending = none ∧ vs.sent.length ≤ n) := by
  have hi := reachable_inv hr
  have hsent : (vs.sent.map (·.sender)).Nodup := by
    have h := hi.nodup
    rw [registered, List.map_append] at h
    exact (List.nodup_append.1 h).1
  have hfirst : vs.received <+: vs.sent := hi.fifo ▸ List.prefix_append _ _
  refine ⟨hsent, fun v hv => hi.valid v (List.mem_append_left _ hv), hi.voted, hfirst,
    (hfirst.sublist.map _).nodup hsent, fun voter message hvoter => ?_, ?_⟩
  · unfold registerVote
    split <;> simp [hvoter]
  · rintro ⟨S, hS, hv⟩
    have hlen := registered_length_le hi hS hv
    refine ⟨sending_eq_none hi hlen, le_trans ?_ hlen⟩
    simp [registered]

/-- Voters `0`, `1` and `2` are valid: a double vote from `0`, a vote from `7`, a vote from `1`,
then a read. -/
def doubleVote : List (Act String) :=
  [.registerVote 0 "a", .registerVote 0 "b", .registerVote 7 "c", .registerVote 1 "d", .read]

/-- A vote set whose `validVote` admits voters `0`, `1` and `2`. -/
def threeVoters : VoteSet String := ⟨fun v _ => decide (v < 3), ∅, [], 0, none, [], []⟩

theorem registerVote_counts_once_doubleVote :
    ∃ vs : VoteSet String, Reachable 3 vs ∧ vs.sent.map (·.sender) = [0, 1] ∧
      vs.received.map (·.sender) = [0] ∧
      (vs.sent.map (·.sender)).Nodup ∧
      (∀ v ∈ vs.sent, vs.validVote v.sender v.message = true) ∧
      vs.voted = ((vs.sent ++ vs.sending.toList).map (·.sender)).toFinset ∧
      vs.received <+: vs.sent ∧ (vs.received.map (·.sender)).Nodup ∧
      (∀ voter message, voter ∈ vs.voted → vs.registerVote voter message = vs) ∧
      ((∃ S : Finset Nat, S.card ≤ 3 ∧ ∀ v m, vs.validVote v m = true → v ∈ S) →
        vs.sending = none ∧ vs.sent.length ≤ 3) :=
  have hr := reachable_exec (Reachable.clear threeVoters : Reachable 3 _)
    (show (threeVoters.clear 3).exec doubleVote = some _ from rfl)
  ⟨_, hr, rfl, rfl, registerVote_counts_once hr⟩

/-! ## What a vote set counts

Not from the code: what the vote set is for. `firstVotes` keeps, of the votes registered in
turn, each voter's first valid one; `registerVote_refines_firstVotes` shows that the votes the
code accepts are exactly those, and that the View reads them in that order. -/

/-- The vote of a `registerVote` call; `none` for a read. -/
def Act.call? : Act Msg → Option (Nat × Msg)
  | .registerVote voter message => some (voter, message)
  | .read => none

/-- One vote as a vote set should count it: kept when valid and its voter has no vote kept. -/
def countVote (validVote : Nat → Msg → Bool) (kept : List (Vote Msg)) (voter : Nat)
    (message : Msg) : List (Vote Msg) :=
  if validVote voter message = true ∧ voter ∉ kept.map (·.sender) then kept ++ [⟨message, voter⟩]
  else kept

/-- Each voter's first valid vote, in the order of the calls. -/
def firstVotes (validVote : Nat → Msg → Bool) (calls : List (Nat × Msg)) : List (Vote Msg) :=
  calls.foldl (fun kept c => countVote validVote kept c.1 c.2) []

/-- `registerVote` accepts a vote exactly when `countVote` keeps it. -/
theorem registered_registerVote {n : Nat} {vs : VoteSet Msg} (hi : Inv n vs)
    (hs : vs.sending = none) (voter : Nat) (message : Msg) :
    (vs.registerVote voter message).registered =
      countVote vs.validVote vs.registered voter message := by
  have hmem : voter ∈ vs.voted ↔ voter ∈ vs.registered.map (·.sender) := by
    rw [hi.voted, List.mem_toFinset]
  unfold registerVote countVote
  by_cases hvalid : vs.validVote voter message = true
  · by_cases hfresh : voter ∈ vs.voted
    · simp [hvalid, hfresh, hmem.1 hfresh]
    · rw [if_neg (by simp [hvalid]), if_neg hfresh, if_pos ⟨hvalid, mt hmem.2 hfresh⟩]
      exact (send_spec { vs with voted := insert voter vs.voted } hs hi.fifo hi.capacity hi.room
        _).1
  · simp [hvalid]

/-- A read leaves the accepted votes as they were. -/
theorem registered_read {vs vs' : VoteSet Msg} {v : Vote Msg} (h : vs.read = some (v, vs')) :
    vs'.registered = vs.registered := by
  rcases read_eq_some h with ⟨-, -, hsend, rfl⟩ | ⟨-, _, -, hsend, rfl⟩ | ⟨-, hsend, rfl⟩ <;>
    simp [registered, hsend]

theorem validVote_step {vs vs' : VoteSet Msg} {a : Act Msg} (h : vs.step a = some vs') :
    vs'.validVote = vs.validVote := by
  cases a with
  | registerVote voter message =>
    obtain ⟨-, rfl⟩ := step_registerVote_eq_some h
    exact registerVote_validVote vs voter message
  | read =>
    obtain ⟨v, hread⟩ := step_read_eq_some h
    rcases read_eq_some hread with ⟨-, -, -, rfl⟩ | ⟨-, _, -, -, rfl⟩ | ⟨-, -, rfl⟩ <;> rfl

/-- Over a run, the accepted votes grow as `countVote` keeps the calls' votes. -/
theorem registered_exec {n : Nat} {vs vs' : VoteSet Msg} {as : List (Act Msg)} (hi : Inv n vs)
    (h : vs.exec as = some vs') :
    vs'.registered =
      (as.filterMap Act.call?).foldl (fun kept c => countVote vs.validVote kept c.1 c.2)
        vs.registered := by
  induction as generalizing vs with
  | nil => cases h; rfl
  | cons a as ih =>
    simp only [exec, Schedule.run, Option.bind_eq_some] at h
    obtain ⟨vs₁, h₁, h₂⟩ := h
    rw [ih (inv_step hi h₁) h₂, validVote_step h₁]
    cases a with
    | registerVote voter message =>
      obtain ⟨hs, rfl⟩ := step_registerVote_eq_some h₁
      rw [registered_registerVote hi hs]
      rfl
    | read =>
      obtain ⟨v, hread⟩ := step_read_eq_some h₁
      rw [registered_read hread]
      rfl

/-- After `clear(n)`, over any calls and reads, the votes accepted (sent, and one blocked in its
send) are each voter's first valid vote among the calls, in the order of the calls, and the
votes read are the first of them. -/
theorem registerVote_refines_firstVotes {n : Nat} (vs : VoteSet Msg) {as : List (Act Msg)}
    {vs' : VoteSet Msg} (h : (vs.clear n).exec as = some vs') :
    vs'.sent ++ vs'.sending.toList = firstVotes vs.validVote (as.filterMap Act.call?) ∧
      vs'.received <+: firstVotes vs.validVote (as.filterMap Act.call?) := by
  have hreg : vs'.registered = firstVotes vs.validVote (as.filterMap Act.call?) :=
    registered_exec (inv_clear vs n) h
  refine ⟨hreg, ?_⟩
  rw [← hreg, registered, (reachable_inv (reachable_exec (.clear vs) h)).fifo, List.append_assoc]
  exact List.prefix_append _ _

theorem registerVote_refines_firstVotes_doubleVote :
    ∃ vs', (threeVoters.clear 3).exec doubleVote = some vs' ∧
      firstVotes threeVoters.validVote (doubleVote.filterMap Act.call?) = [⟨"a", 0⟩, ⟨"d", 1⟩] ∧
      vs'.sent ++ vs'.sending.toList =
        firstVotes threeVoters.validVote (doubleVote.filterMap Act.call?) ∧
      vs'.received <+: firstVotes threeVoters.validVote (doubleVote.filterMap Act.call?) :=
  ⟨_, rfl, rfl, registerVote_refines_firstVotes threeVoters
    (show (threeVoters.clear 3).exec doubleVote = _ from rfl)⟩

end VoteSet

end SmartBft
