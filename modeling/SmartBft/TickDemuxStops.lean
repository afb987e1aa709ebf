import SmartBft.TickDemux
/-!
# `TickDemultiplexer.Stop` called more than once

`Stop` (util.go) runs its function, `close(td.stopChan)` then `td.running.Wait()`, inside
`stopOnce.Do`. `sync.Once` runs the function for the first caller only, and no call of `Do`
returns before that function has returned; it is taken here as its documentation states it.
Any number of callers run `Stop` beside the demultiplexing goroutine and the consumers
(`Stops`).

Unlike `Controller.Stop` (`Controller.Stop_panics_iff`), no interleaving closes `stopChan`
twice: no caller panics, and the demultiplexer only ever takes steps of the one-caller model,
so every result about that model holds. Every caller that has returned finds the goroutine
returned and every `Out` channel caught up with the ticks read (`Stop_once`).
-/

namespace SmartBft.TickDemultiplexer

/-- `stopOnce`: its function not yet called, running for one caller, or returned. -/
inductive OnceState
  | notDone
  | running
  | done
deriving DecidableEq, Repr

/-- The statement a caller of `Stop` stands at. -/
inductive StopCall
  | idle
  /-- In `stopOnce.Do`, while another caller runs the function. -/
  | waitOnce
  /-- The function: `close(td.stopChan)`. -/
  | close
  /-- The function: `td.running.Wait()`. -/
  | waitRunning
  | returned
  /-- `close` of a closed channel: the runtime panics. -/
  | panicked
deriving DecidableEq, Repr

/-- The caller runs `stopOnce`'s function. -/
def StopCall.inOnce : StopCall → Bool
  | .close | .waitRunning => true
  | _ => false

variable {T : Type} {k n : Nat}

/-- One statement of a caller of `Stop`; `none` while it is blocked, and once it has returned
or panicked. The function's two statements are the one-caller model's `stopClose` and
`stopReturn`. -/
def stopCall (td : TickDemultiplexer T k) (once : OnceState) :
    StopCall → Option (TickDemultiplexer T k × OnceState × StopCall)
  | .idle =>
    match once with
    | .notDone => some (td, .running, .close)
    | .running => some (td, .running, .waitOnce)
    | .done => some (td, .done, .returned)
  | .waitOnce => if once = .done then some (td, once, .returned) else none
  | .close =>
    if td.stopClosed then some (td, once, .panicked)
    else (td.step .stopClose).map fun td => (td, once, .waitRunning)
  | .waitRunning => (td.step .stopReturn).map fun td => (td, .done, .returned)
  | .returned | .panicked => none

/-- The demultiplexer with `n` callers of `Stop`. -/
structure Stops (T : Type) (k n : Nat) where
  td : TickDemultiplexer T k
  once : OnceState
  calls : Fin n → StopCall

/-- The statements that the callers of `Stop` run. -/
def Act.byStop : Act T k → Bool
  | .stopClose | .stopReturn => true
  | _ => false

/-- A statement of the demultiplexing goroutine or a consumer's receive, or of caller `i` of
`Stop`. -/
inductive StopsAct (T : Type) (k n : Nat)
  | demux (a : Act T k)
  | stop (i : Fin n)

def Stops.step (s : Stops T k n) : StopsAct T k n → Option (Stops T k n)
  | .demux a => if a.byStop then none else (s.td.step a).map fun td => { s with td := td }
  | .stop i =>
    (stopCall s.td s.once (s.calls i)).map fun r => ⟨r.1, r.2.1, Function.update s.calls i r.2.2⟩

def Stops.exec (s : Stops T k n) (as : List (StopsAct T k n)) : Option (Stops T k n) :=
  Schedule.run Stops.step s as

/-- The states `Start` and any interleaving of the goroutine, the consumers and the callers of
`Stop` lead to. -/
inductive Stops.Reachable : Stops T k n → Prop
  | start : Stops.Reachable ⟨Start, .notDone, fun _ => .idle⟩
  | step {s s' : Stops T k n} (a : StopsAct T k n) : Stops.Reachable s → s.step a = some s' →
      Stops.Reachable s'

theorem Stops.reachable_exec {s s' : Stops T k n} {as : List (StopsAct T k n)}
    (hr : Stops.Reachable s) (h : s.exec as = some s') : Stops.Reachable s' :=
  Schedule.run_induction (fun hr h => hr.step _ h) hr h

/-! ## What a step does -/

section Steps

variable {s s' : Stops T k n}

/-- The goroutine and the consumers leave `stopChan` and `Stop`'s place alone. -/
theorem step_keeps_stop {td td' : TickDemultiplexer T k} {a : Act T k} (ha : a.byStop = false)
    (h : td.step a = some td') : td'.stop = td.stop ∧ td'.stopClosed = td.stopClosed := by
  cases a with
  | selectStop => obtain ⟨-, -, rfl⟩ := selectStop_eq_some h; exact ⟨rfl, rfl⟩
  | selectIn _ => obtain ⟨-, rfl⟩ := selectIn_eq_some h; exact ⟨rfl, rfl⟩
  | send _ => obtain ⟨_, -, -, rfl⟩ := send_eq_some h; exact ⟨rfl, rfl⟩
  | tickDone => obtain ⟨_, -, -, rfl⟩ := tickDone_eq_some h; exact ⟨rfl, rfl⟩
  | stopClose | stopReturn => cases ha

theorem Stops.step_demux {a : Act T k} (h : s.step (.demux a) = some s') :
    a.byStop = false ∧ s.td.step a = some s'.td ∧ s'.once = s.once ∧ s'.calls = s.calls := by
  simp only [Stops.step] at h
  split at h
  · cases h
  · obtain ⟨td, htd, rfl⟩ := Option.map_eq_some'.1 h
    exact ⟨Bool.eq_false_iff.2 ‹_›, htd, rfl, rfl⟩

theorem Stops.step_stop {i : Fin n} (h : s.step (.stop i) = some s') :
    ∃ pc, stopCall s.td s.once (s.calls i) = some (s'.td, s'.once, pc) ∧
      s'.calls = Function.update s.calls i pc := by
  simp only [Stops.step, Option.map_eq_some'] at h
  obtain ⟨⟨td, once, pc⟩, hc, rfl⟩ := h
  exact ⟨pc, hc, rfl⟩

/-- Each step of the system is a step of the one-caller model or leaves the demultiplexer as
it was. -/
theorem Stops.step_td {a : StopsAct T k n} (h : s.step a = some s') :
    s'.td = s.td ∨ ∃ b, s.td.step b = some s'.td := by
  cases a with
  | demux a => exact .inr ⟨a, (Stops.step_demux h).2.1⟩
  | stop i =>
    obtain ⟨pc, hpc, -⟩ := Stops.step_stop h
    obtain ⟨td', once', calls'⟩ := s'
    dsimp only at hpc ⊢
    cases hi : s.calls i <;> rw [hi] at hpc <;> simp only [stopCall] at hpc
    case idle => split at hpc <;> cases hpc <;> exact .inl rfl
    case waitOnce =>
      split at hpc <;> cases hpc
      exact .inl rfl
    case close =>
      split at hpc
      · cases hpc; exact .inl rfl
      · obtain ⟨td, htd, he⟩ := Option.map_eq_some'.1 hpc
        cases he
        exact .inr ⟨.stopClose, htd⟩
    case waitRunning =>
      obtain ⟨td, htd, he⟩ := Option.map_eq_some'.1 hpc
      cases he
      exact .inr ⟨.stopReturn, htd⟩
    all_goals cases hpc

/-- The demultiplexer of the system is a state of the one-caller model. -/
theorem Stops.reachable_td {s : Stops T k n} (hr : Stops.Reachable s) :
    TickDemultiplexer.Reachable s.td := by
  induction hr with
  | start => exact .start
  | step a _ h ih =>
    rcases Stops.step_td h with he | ⟨b, hb⟩
    · exact he ▸ ih
    · exact ih.step b hb

end Steps

/-! ## One caller runs `stopOnce`'s function -/

section Once

variable {td td' : TickDemultiplexer T k} {once once' : OnceState}

/-- What holds while a caller stands at each statement. -/
def AtCall (td : TickDemultiplexer T k) (once : OnceState) : StopCall → Prop
  | .idle => True
  | .waitOnce => once ≠ .notDone
  | .close => once = .running ∧ td.stop = .idle
  | .waitRunning => once = .running ∧ td.stop = .waiting
  | .returned => once = .done
  | .panicked => False

theorem AtCall.running {c : StopCall} (h : AtCall td once c) (hc : c.inOnce = true) :
    once = .running := by
  cases c with
  | close | waitRunning => exact h.1
  | _ => cases hc

theorem AtCall.ne_panicked {c : StopCall} (h : AtCall td once c) : c ≠ .panicked := by
  rintro rfl
  exact h

/-- Where a caller outside `stopOnce`'s function stands does not depend on `stopChan`. -/
theorem AtCall.frame {c : StopCall} (hc : c.inOnce = false) (h : AtCall td once c)
    (hnd : once ≠ .notDone → once' ≠ .notDone) (hd : once = .done → once' = .done) :
    AtCall td' once' c := by
  cases c with
  | idle => trivial
  | waitOnce => exact hnd h
  | returned => exact hd h
  | panicked => exact h.elim
  | close | waitRunning => cases hc

theorem AtCall.of_stop_eq (h : td'.stop = td.stop) : ∀ {c}, AtCall td once c → AtCall td' once c
  | .idle, _ => trivial
  | .waitOnce, hc => hc
  | .close, hc | .waitRunning, hc => ⟨hc.1, h.trans hc.2⟩
  | .returned, hc => hc
  | .panicked, hc => hc

/-- Every caller stands where `stopOnce` and `stopChan` allow, exactly one runs the function
while it runs, and `stopChan` is closed once `Stop`'s function has passed its `close`. -/
structure OnceInv (s : Stops T k n) : Prop where
  atCall : ∀ i, AtCall s.td s.once (s.calls i)
  one_runs : ∀ i j, (s.calls i).inOnce → (s.calls j).inOnce → i = j
  running_one : s.once = .running → ∃ i, (s.calls i).inOnce = true
  notDone : s.once = .notDone → s.td.stop = .idle
  done : s.once = .done → s.td.stop = .returned
  open_idle : s.td.stop = .idle → s.td.stopClosed = false
  closed : s.td.stop ≠ .idle → s.td.stopClosed = true

theorem onceInv_start : OnceInv (⟨Start, .notDone, fun _ => .idle⟩ : Stops T k n) :=
  ⟨fun _ => trivial, fun _ _ h => (nomatch h), nofun, fun _ => rfl, nofun, fun _ => rfl,
    fun h => absurd rfl h⟩

/-- A step of caller `i` to `pc` keeps `OnceInv` when `pc` and every other caller's statement
fit the new state, and `pc` runs the function only if no other caller does. -/
theorem OnceInv.update {s : Stops T k n} (hi : OnceInv s) {i : Fin n} {pc : StopCall}
    (hpc : AtCall td once pc) (hj : ∀ j, j ≠ i → AtCall td once (s.calls j))
    (hone : pc.inOnce = true → ∀ j, j ≠ i → (s.calls j).inOnce = false)
    (hrun : once = .running → pc.inOnce = true ∨ ∃ j, j ≠ i ∧ (s.calls j).inOnce = true)
    (hnd : once = .notDone → td.stop = .idle) (hd : once = .done → td.stop = .returned)
    (ho : td.stop = .idle → td.stopClosed = false) (hcl : td.stop ≠ .idle → td.stopClosed = true) :
    OnceInv ⟨td, once, Function.update s.calls i pc⟩ := by
  refine ⟨fun j => ?_, fun j j' h h' => ?_, fun h => ?_, hnd, hd, ho, hcl⟩
  · by_cases hji : j = i
    · subst hji; simpa using hpc
    · simpa [Function.update_noteq hji] using hj j hji
  · by_cases hji : j = i <;> by_cases hj'i : j' = i
    · exact hji.trans hj'i.symm
    · subst hji
      simp only [Function.update_same, Function.update_noteq hj'i] at h h'
      simp [hone h j' hj'i] at h'
    · subst hj'i
      simp only [Function.update_same, Function.update_noteq hji] at h h'
      simp [hone h' j hji] at h
    · simp only [Function.update_noteq hji, Function.update_noteq hj'i] at h h'
      exact hi.one_runs j j' h h'
  · rcases hrun h with hpc | ⟨j, hji, hj⟩
    · exact ⟨i, by simpa using hpc⟩
    · exact ⟨j, by simpa [Function.update_noteq hji] using hj⟩

theorem onceInv_step {s s' : Stops T k n} {a : StopsAct T k n} (hi : OnceInv s)
    (h : s.step a = some s') : OnceInv s' := by
  cases a with
  | demux a =>
    obtain ⟨ha, htd, ho, hc⟩ := Stops.step_demux h
    obtain ⟨hs, hcl⟩ := step_keeps_stop ha htd
    refine ⟨fun i => ?_, hc ▸ hi.one_runs, fun h => hc ▸ hi.running_one (ho ▸ h),
      fun h => hs.trans (hi.notDone (ho ▸ h)), fun h => hs.trans (hi.done (ho ▸ h)),
      fun h => hcl.trans (hi.open_idle (hs ▸ h)), fun h => hcl.trans (hi.closed (hs ▸ h))⟩
    rw [hc, ho]
    exact (hi.atCall i).of_stop_eq hs
  | stop i =>
    obtain ⟨pc, hpc, hcalls⟩ := Stops.step_stop h
    obtain ⟨td, once, calls⟩ := s
    obtain ⟨td', once', calls'⟩ := s'
    dsimp only at hpc hcalls
    subst hcalls
    /- The other callers do not run the function while caller `i` does. -/
    have hnone : (calls i).inOnce = true → ∀ j, j ≠ i → (calls j).inOnce = false :=
      fun h j hj => Bool.eq_false_iff.2 fun h' => hj (hi.one_runs j i h' h)
    have hat : AtCall td once (calls i) := hi.atCall i
    cases hc : calls i <;> rw [hc] at hpc hnone hat <;> simp only [stopCall] at hpc
    case idle =>
      cases once <;> cases hpc
      case notDone =>
        have hout : ∀ j, (calls j).inOnce = false := fun j =>
          Bool.eq_false_iff.2 fun h => nomatch (hi.atCall j).running h
        exact hi.update ⟨rfl, hi.notDone rfl⟩
          (fun j _ => (hi.atCall j).frame (hout j) (fun h => absurd rfl h) nofun)
          (fun _ j _ => hout j) (fun _ => .inl rfl) nofun nofun hi.open_idle hi.closed
      case running =>
        /- The caller running the function is another one. -/
        have hother : ∃ j, j ≠ i ∧ (calls j).inOnce = true := by
          obtain ⟨j, hj⟩ := hi.running_one rfl
          exact ⟨j, ⟨fun hji => by rw [hji] at hj; simp [hc, StopCall.inOnce] at hj, hj⟩⟩
        exact hi.update nofun (fun j _ => hi.atCall j) (by nofun) (fun _ => .inr hother)
          hi.notDone hi.done hi.open_idle hi.closed
      case done =>
        exact hi.update rfl (fun j _ => hi.atCall j) (by nofun) nofun hi.notDone hi.done
          hi.open_idle hi.closed
    case waitOnce =>
      split at hpc <;> cases hpc
      rename_i hd
      subst hd
      exact hi.update rfl (fun j _ => hi.atCall j) (by nofun) nofun hi.notDone hi.done
        hi.open_idle hi.closed
    case close =>
      split at hpc
      · cases (hi.open_idle hat.2).symm.trans ‹_›
      · obtain ⟨td'', htd, he⟩ := Option.map_eq_some'.1 hpc
        cases he
        obtain ⟨-, rfl⟩ := stopClose_eq_some htd
        obtain ⟨hrun, -⟩ := hat
        subst hrun
        exact hi.update ⟨rfl, rfl⟩ (fun j hj => (hi.atCall j).frame (hnone rfl j hj) id id)
          (fun _ => hnone rfl) (fun _ => .inl rfl) nofun nofun nofun fun _ => rfl
    case waitRunning =>
      obtain ⟨td'', htd, he⟩ := Option.map_eq_some'.1 hpc
      cases he
      obtain ⟨-, -, rfl⟩ := stopReturn_eq_some htd
      exact hi.update rfl (fun j hj => (hi.atCall j).frame (hnone rfl j hj) nofun fun _ => rfl)
        (fun _ => hnone rfl) nofun nofun (fun _ => rfl) nofun
        fun _ => hi.closed (by rw [hat.2]; nofun)
    all_goals cases hpc

theorem Stops.reachable_onceInv {s : Stops T k n} (hr : Stops.Reachable s) : OnceInv s := by
  induction hr with
  | start => exact onceInv_start
  | step a _ h ih => exact onceInv_step ih h

end Once

/-- However many goroutines call `Stop`, and however their statements interleave with the
demultiplexer's and the consumers', no caller panics and at most one runs `stopOnce`'s
function. The demultiplexer only takes steps of the one-caller model, and every caller that has
returned finds the goroutine returned and every `Out` channel caught up with the ticks read. -/
theorem Stop_once {s : Stops T k n} (hr : Stops.Reachable s) :
    TickDemultiplexer.Reachable s.td ∧ (∀ i, s.calls i ≠ .panicked) ∧
      (∀ i j, (s.calls i).inOnce → (s.calls j).inOnce → i = j) ∧
      ∀ i, s.calls i = .returned → s.td.loc = .exited ∧ Caught s.td := by
  have hi := Stops.reachable_onceInv hr
  have htd := Stops.reachable_td hr
  refine ⟨htd, fun i => (hi.atCall i).ne_panicked, hi.one_runs, fun i hret => ?_⟩
  have hdone : s.once = .done := by simpa [hret, AtCall] using hi.atCall i
  have hl := (reachable_inv htd).returned (hi.done hdone)
  exact ⟨hl, ((reachable_inv htd).at hl).2⟩

/-- Two callers of `Stop` while a tick is fanned out to three channels: the second waits in
`stopOnce.Do` while the first closes `stopChan` and waits for the goroutine, and both return. -/
theorem Stop_once_twoCallers :
    ∃ s : Stops Nat 3 2, Stops.Reachable s ∧ s.calls 0 = .returned ∧ s.calls 1 = .returned ∧
      TickDemultiplexer.Reachable s.td ∧ (∀ i, s.calls i ≠ .panicked) ∧
      (∀ i j, (s.calls i).inOnce → (s.calls j).inOnce → i = j) ∧
      ∀ i, s.calls i = .returned → s.td.loc = .exited ∧ Caught s.td :=
  have hr := Stops.reachable_exec Stops.Reachable.start
    (show (⟨Start, .notDone, fun _ => .idle⟩ : Stops Nat 3 2).exec
      [.demux (.selectIn 5), .stop 0, .stop 1, .stop 0, .demux (.send 0), .demux (.send 1),
        .demux (.send 2), .demux .tickDone, .demux .selectStop, .stop 0, .stop 1] = some _
      from rfl)
  ⟨_, hr, rfl, rfl, Stop_once hr⟩

/-! ## Every caller can return -/

section Return

/-- Some schedule from `s` returns every caller of `Stop`. -/
def AllReturn (s : Stops T k n) : Prop :=
  ∃ as s', s.exec as = some s' ∧ ∀ i, s'.calls i = .returned

variable {s : Stops T k n}

/-- A step that can be taken, after which every caller can return. -/
theorem AllReturn.of_step (a : StopsAct T k n) (hr : Stops.Reachable s)
    (h : (s.step a).elim False fun s' => Stops.Reachable s' → AllReturn s') : AllReturn s := by
  cases hs : s.step a with
  | none => rw [hs] at h; exact h.elim
  | some s' =>
    rw [hs] at h
    obtain ⟨as, s'', he, hret⟩ := h (hr.step a hs)
    exact ⟨a :: as, s'', by rwa [Stops.exec, Schedule.run_cons_of_step hs], hret⟩

/-- Once `stopOnce`'s function has returned, each caller in `l` returns in turn. -/
theorem exec_return_done (l : List (Fin n)) :
    ∀ s : Stops T k n, Stops.Reachable s → s.once = .done →
      ∃ as s', s.exec as = some s' ∧ ∀ j, s'.calls j = if j ∈ l then .returned else s.calls j := by
  induction l with
  | nil => exact fun s _ _ => ⟨[], s, rfl, fun j => by simp⟩
  | cons i l ih =>
    intro s hr hd
    by_cases hret : s.calls i = .returned
    · obtain ⟨as, s', he, hc⟩ := ih s hr hd
      refine ⟨as, s', he, fun j => ?_⟩
      rw [hc j]
      by_cases hji : j = i
      · subst hji; simp [hret]
      · simp [hji]
    · have hat := (Stops.reachable_onceInv hr).atCall i
      have hstep : s.step (.stop i) = some ⟨s.td, s.once, Function.update s.calls i .returned⟩ := by
        cases hc : s.calls i <;> simp_all [Stops.step, stopCall, AtCall]
      obtain ⟨as, s', he, hc⟩ := ih _ (hr.step _ hstep) hd
      refine ⟨.stop i :: as, s', by rwa [Stops.exec, Schedule.run_cons_of_step hstep], fun j => ?_⟩
      rw [hc j]
      by_cases hji : j = i
      · subst hji; simp
      · simp [hji, Function.update_noteq hji]

theorem allReturn_of_done (hr : Stops.Reachable s) (hd : s.once = .done) : AllReturn s :=
  have ⟨as, s', he, hc⟩ := exec_return_done (List.finRange n) s hr hd
  ⟨as, s', he, fun j => by simp [hc j]⟩

/-- The caller running the function, at `td.running.Wait()`: the goroutine takes the closed
`stopChan` and returns, and so does the `Wait`. -/
theorem allReturn_of_waitRunning (hr : Stops.Reachable s) {i : Fin n}
    (hi : s.calls i = .waitRunning) (hl : s.td.loc = .select ∨ s.td.loc = .exited) :
    AllReturn s := by
  have ho := Stops.reachable_onceInv hr
  have hwait : s.td.stop = .waiting := (hi ▸ ho.atCall i : AtCall _ _ .waitRunning).2
  have hret : ∀ s₁ : Stops T k n, Stops.Reachable s₁ → s₁.calls i = .waitRunning →
      s₁.td.stop = .waiting → s₁.td.loc = .exited → AllReturn s₁ := fun s₁ hr₁ hi₁ hw₁ hl₁ =>
    AllReturn.of_step (.stop i) hr₁ (by
      simp only [Stops.step, stopCall, hi₁, step, hw₁, hl₁, Option.map_some', Option.elim_some]
      exact fun hr₂ => allReturn_of_done hr₂ rfl)
  rcases hl with hl | hl
  · refine AllReturn.of_step (.demux .selectStop) hr ?_
    simp only [Stops.step, Act.byStop, step, hl, ho.closed (by simp [hwait]), if_true, if_false, Option.map_some', Option.elim_some]
    exact fun hr₁ => hret _ hr₁ hi hwait rfl
  · exact hret s hr hi hwait hl

/-- With the goroutine at its `select` or returned: the caller running the function closes
`stopChan`, or, before any has started it, the first caller does. -/
theorem allReturn_of_select (hr : Stops.Reachable s)
    (hl : s.td.loc = .select ∨ s.td.loc = .exited) : AllReturn s := by
  have ho := Stops.reachable_onceInv hr
  have hclose : ∀ s₁ : Stops T k n, Stops.Reachable s₁ →
      (s₁.td.loc = .select ∨ s₁.td.loc = .exited) → ∀ i, s₁.calls i = .close → AllReturn s₁ := by
    intro s₁ hr₁ hl₁ i hi
    have ho₁ := Stops.reachable_onceInv hr₁
    have hidle : s₁.td.stop = .idle := (hi ▸ ho₁.atCall i : AtCall _ _ .close).2
    refine AllReturn.of_step (.stop i) hr₁ ?_
    simp only [Stops.step, stopCall, hi, ho₁.open_idle hidle, step, hidle, if_true, if_false, Option.map_some', Option.elim_some]
    exact fun hr₂ => allReturn_of_waitRunning hr₂
      (show Function.update s₁.calls i .waitRunning i = .waitRunning by simp) hl₁
  cases hon : s.once
  case notDone =>
    cases n with
    | zero => exact ⟨[], s, rfl, fun i => i.elim0⟩
    | succ n =>
      have hidle : s.calls 0 = .idle := by
        have := ho.atCall 0
        cases hc : s.calls 0 <;> simp_all [AtCall]
      refine AllReturn.of_step (.stop 0) hr ?_
      simp only [Stops.step, stopCall, hidle, hon, Option.map_some', Option.elim_some]
      exact fun hr₁ => hclose _ hr₁ hl 0 (by simp)
  case running =>
    obtain ⟨i, hi⟩ := ho.running_one hon
    cases hc : s.calls i <;> rw [hc] at hi <;> simp only [StopCall.inOnce] at hi
    case close => exact hclose s hr hl i hc
    case waitRunning => exact allReturn_of_waitRunning hr hc hl
    all_goals cases hi
  case done => exact allReturn_of_done hr hon

/-- The goroutine in `tick`: the consumers take the tick from every channel still pending, and
`wg.Wait()` returns. -/
theorem allReturn_of_tick (m : Nat) :
    ∀ s : Stops T k n, Stops.Reachable s → s.td.pending.card = m →
      ∀ now, s.td.loc = .tick now → AllReturn s := by
  induction m with
  | zero =>
    intro s hr hm now hl
    refine AllReturn.of_step (.demux .tickDone) hr ?_
    simp only [Stops.step, Act.byStop, step, hl, Finset.card_eq_zero.1 hm, if_true, if_false, Option.map_some', Option.elim_some]
    exact fun hr₁ => allReturn_of_select hr₁ (.inl rfl)
  | succ m ih =>
    intro s hr hm now hl
    obtain ⟨o, ho⟩ := Finset.card_pos.1 (by omega : 0 < s.td.pending.card)
    refine AllReturn.of_step (.demux (.send o)) hr ?_
    simp only [Stops.step, Act.byStop, step, hl, ho, if_true, if_false, Option.map_some', Option.elim_some]
    exact fun hr₁ => ih _ hr₁ (by simp [Finset.card_erase_of_mem ho, hm]) now (by simp [hl])

end Return

/-- Whatever has run, every caller of `Stop` can still return: the consumers take the tick in
flight, one caller closes `stopChan`, the goroutine takes it and returns, `running.Wait()`
returns, and every other caller's `stopOnce.Do` returns. So `Stop` waits on nothing but the
consumers' receives (`Stop_waits_for_consumer`). -/
theorem Stop_can_return {s : Stops T k n} (hr : Stops.Reachable s) :
    ∃ as s', s.exec as = some s' ∧ ∀ i, s'.calls i = .returned := by
  cases hl : s.td.loc with
  | select => exact allReturn_of_select hr (.inl hl)
  | exited => exact allReturn_of_select hr (.inr hl)
  | tick now => exact allReturn_of_tick _ s hr rfl now hl

/-- Two callers in `Stop` while a tick is fanned out to three channels: both can return. -/
theorem Stop_can_return_midTick :
    ∃ s : Stops Nat 3 2, Stops.Reachable s ∧ s.td.loc = .tick 5 ∧
      ∃ as s', s.exec as = some s' ∧ ∀ i, s'.calls i = .returned :=
  have hr := Stops.reachable_exec Stops.Reachable.start
    (show (⟨Start, .notDone, fun _ => .idle⟩ : Stops Nat 3 2).exec
      [.demux (.selectIn 5), .stop 0, .stop 1] = some _ from rfl)
  ⟨_, hr, rfl, Stop_can_return hr⟩

end SmartBft.TickDemultiplexer
