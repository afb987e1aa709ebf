import Mathlib.Data.Option.Basic
/-!
# Schedules

Each component is modelled by a step function `step : σ → α → Option σ`: an action names the
goroutine that moves and the choice it makes (the case a `select` takes, what a call returns),
and `none` is a step that blocks. A schedule is a list of actions taken in turn; it blocks at
the first action that does (`Schedule.run`).

What every step keeps, every schedule keeps (`run_induction`, and `run_induction_of` for the
schedules of some actions only): the run lemma of each model is this lemma at its step lemma.
-/

namespace SmartBft.Schedule

variable {σ α : Type} (step : σ → α → Option σ)

/-- The actions of a schedule taken in turn from `s`. -/
def run (s : σ) : List α → Option σ
  | [] => some s
  | a :: as => (step s a).bind (run · as)

theorem run_append (s : σ) (as bs : List α) :
    run step s (as ++ bs) = (run step s as).bind (run step · bs) := by
  induction as generalizing s with
  | nil => rfl
  | cons a as ih =>
    simp only [List.cons_append, run, Option.bind_assoc]
    cases step s a <;> simp [ih]

variable {step}

theorem run_cons_of_step {s s' : σ} {a : α} (h : step s a = some s') (as : List α) :
    run step s (a :: as) = run step s' as := by
  simp [run, h]

/-- What every step by an action of `Q` keeps, every schedule of such actions keeps. -/
theorem run_induction_of {P : σ → Prop} {Q : α → Prop}
    (hstep : ∀ {s s' : σ} {a : α}, Q a → P s → step s a = some s' → P s') {s s' : σ}
    {as : List α} (has : ∀ a ∈ as, Q a) (hs : P s) (h : run step s as = some s') : P s' := by
  induction as generalizing s with
  | nil => cases h; exact hs
  | cons a as ih =>
    simp only [run, Option.bind_eq_some] at h
    obtain ⟨s₁, h₁, h₂⟩ := h
    exact ih (fun b hb => has b (List.mem_cons_of_mem a hb))
      (hstep (has a (List.mem_cons_self a as)) hs h₁) h₂

/-- What every step keeps, every schedule keeps. -/
theorem run_induction {P : σ → Prop} (hstep : ∀ {s s' : σ} {a : α}, P s → step s a = some s' → P s')
    {s s' : σ} {as : List α} (hs : P s) (h : run step s as = some s') : P s' :=
  @run_induction_of σ α step P (fun _ => True) (fun _ => hstep) s s' as (fun _ _ => trivial) hs h

end SmartBft.Schedule
