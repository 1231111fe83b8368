import Mathlib.Data.List.Forall2

/-- The states reached from `init` by steps that each meet `ok` in the state they start from. -/
inductive Reach {σ ω : Type} (step : σ → ω → σ) (init : σ → Prop) (ok : σ → ω → Prop) : σ → Prop
  | start {s : σ} (h : init s) : Reach step init ok s
  | next {s : σ} {o : ω} (prior : Reach step init ok s) (h : ok s o) : Reach step init ok (step s o)

namespace Reach

variable {σ ω : Type} {step : σ → ω → σ} {init : σ → Prop} {ok ok' : σ → ω → Prop}

theorem invariant {I : σ → Prop} (base : ∀ s, init s → I s)
    (keep : ∀ s o, I s → ok s o → I (step s o)) {s : σ} (h : Reach step init ok s) : I s := by
  induction h with
  | start h => exact base _ h
  | next _ h ih => exact keep _ _ ih h

theorem mono (le : ∀ s o, ok s o → ok' s o) {s : σ} (h : Reach step init ok s) : Reach step init ok' s := by
  induction h with
  | start h => exact start h
  | next _ h ih => exact next ih (le _ _ h)

/-- Every step of a list meets `ok` in the state it starts from. -/
def Allowed (step : σ → ω → σ) (ok : σ → ω → Prop) : σ → List ω → Prop
  | _, [] => True
  | s, o :: os => ok s o ∧ Allowed step ok (step s o) os

instance decidableAllowed [∀ s o, Decidable (ok s o)] : ∀ s os, Decidable (Allowed step ok s os)
  | _, [] => .isTrue trivial
  | s, o :: os => @instDecidableAnd _ _ _ (decidableAllowed (step s o) os)

theorem foldl {s : σ} (h : Reach step init ok s) {os : List ω} (hos : Allowed step ok s os) :
    Reach step init ok (os.foldl step s) := by
  induction os generalizing s with
  | nil => exact h
  | cons o os ih => exact ih (next h hos.1) hos.2

theorem allowed_true (s : σ) (os : List ω) : Allowed step (fun _ _ => True) s os := by
  induction os generalizing s with
  | nil => trivial
  | cons o os ih => exact ⟨trivial, ih _⟩

end Reach

/-- Steps taken until one is refused: the state then, and whether all were taken. -/
def takeSteps {σ α : Type} (f : σ → α → Option σ) : σ → List α → σ × Bool
  | s, [] => (s, true)
  | s, x :: xs =>
    match f s x with
    | none => (s, false)
    | some s' => takeSteps f s' xs

/-- A run of steps on pairs in which the first part decides. -/
theorem takeSteps_fst {σ τ α : Type} {f : σ → α → Option σ} {g : σ × τ → α → Option (σ × τ)}
    (same : ∀ x a, (g x a).map Prod.fst = f x.1 a) (x : σ × τ) (xs : List α) :
    ((takeSteps g x xs).1.1, (takeSteps g x xs).2) = takeSteps f x.1 xs := by
  induction xs generalizing x with
  | nil => rfl
  | cons a xs ih =>
    have here := same x a
    unfold takeSteps
    cases step : g x a with
    | none =>
      rw [step] at here
      rw [← here]
      rfl
    | some y =>
      rw [step] at here
      rw [← here]
      exact ih y

/-- Fallible steps taken until one fails: the state it leaves, and the error. -/
def runAll {τ α ε : Type} (g : τ → α → τ × Except ε Unit) : τ → List α → τ × Except ε Unit
  | t, [] => (t, .ok ())
  | t, x :: xs =>
    match g t x with
    | (t', .error e) => (t', .error e)
    | (t', .ok ()) => runAll g t' xs

section Simulation

variable {σ τ α ε : Type} {f : σ → α → Option σ} {g : τ → α → τ × Except ε Unit}

theorem takeSteps_invariant {I : σ → Prop} {xs : List α}
    (keep : ∀ s s' x, x ∈ xs → f s x = some s' → I s → I s') {s : σ} (base : I s) : I (takeSteps f s xs).1 := by
  induction xs generalizing s with
  | nil => exact base
  | cons x xs ih =>
    unfold takeSteps
    split
    next => exact base
    next s' hs' =>
      exact ih (fun s s' y hy => keep s s' y (List.mem_cons_of_mem x hy)) (keep s s' x List.mem_cons_self hs' base)

theorem runAll_simulates {R : τ → σ → Prop}
    (refused : ∀ t s x, R t s → f s x = none → ∃ t' e, g t x = (t', .error e) ∧ R t' s)
    (taken : ∀ t s s' x, R t s → f s x = some s' → ∃ t', g t x = (t', .ok ()) ∧ R t' s')
    {t : τ} {s : σ} (base : R t s) (xs : List α) : R (runAll g t xs).1 (takeSteps f s xs).1 ∧
      ((runAll g t xs).2 = .ok () ↔ (takeSteps f s xs).2 = true) := by
  induction xs generalizing t s with
  | nil => exact ⟨base, by simp [runAll, takeSteps]⟩
  | cons x xs ih =>
    cases hx : f s x with
    | none =>
      obtain ⟨t', e, hg, ht'⟩ := refused t s x base hx
      simp only [runAll, takeSteps, hg, hx]
      exact ⟨ht', by simp⟩
    | some s' =>
      obtain ⟨t', hg, ht'⟩ := taken t s s' x base hx
      simp only [runAll, takeSteps, hg, hx]
      exact ih ht'

end Simulation

section Loops

variable {α β ε : Type} {f : α → Except ε β} {xs : List α}

theorem bind_eq_ok {x : Except ε α} {g : α → Except ε β} {b : β} (h : x >>= g = .ok b) :
    ∃ a, x = .ok a ∧ g a = .ok b := by
  cases x with
  | error e => cases h
  | ok a => exact ⟨a, rfl, h⟩

theorem mapM_eq_ok {g : α → β} (each : ∀ x ∈ xs, f x = .ok (g x)) : xs.mapM f = .ok (xs.map g) := by
  induction xs with
  | nil => rfl
  | cons x xs ih =>
    have head := each x List.mem_cons_self
    have tail := ih fun y mem => each y (List.mem_cons_of_mem x mem)
    rw [List.mapM_cons, head, tail]
    rfl

theorem forall₂_of_mapM {ys : List β} (found : xs.mapM f = .ok ys) : List.Forall₂ (fun x y => f x = .ok y) xs ys := by
  induction xs generalizing ys with
  | nil =>
    obtain rfl := Except.ok.inj found
    exact .nil
  | cons x xs ih =>
    rw [List.mapM_cons] at found
    obtain ⟨y, fx, found⟩ := bind_eq_ok found
    obtain ⟨zs, fxs, found⟩ := bind_eq_ok found
    obtain rfl := Except.ok.inj found
    exact .cons fx (ih fxs)

end Loops
