import Arbor.Error
import Mathlib.Data.List.Forall2

/-!
# Computations that may stop

Most operations of this library return an `Except`. These lemmas take a computation that returned a
result apart: a sequence of two steps returned one iff both steps did, and a computation over a list
returned one iff every step did.

The commands also change a state. What holds of them whatever the state is, is put together step by
step.

## Main definitions

* `Meets`: what is known of a result and of an error.
* `Ends`: the same for an action, in every state.
-/

namespace Arbor

variable {ε α β : Type}

@[simp] theorem pure_eq_ok (a : α) : (pure a : Except ε α) = .ok a := rfl

@[simp] theorem ok_bind (a : α) (f : α → Except ε β) : (Except.ok a >>= f) = f a := rfl

@[simp] theorem error_bind (e : ε) (f : α → Except ε β) :
    ((Except.error e : Except ε α) >>= f) = .error e := rfl

@[simp] theorem throw_eq_error (e : ε) : (throw e : Except ε α) = .error e := rfl

@[simp] theorem map_ok (f : α → β) (a : α) : (Except.ok a : Except ε α).map f = .ok (f a) := rfl

@[simp] theorem map_error (f : α → β) (e : ε) :
    (Except.error e : Except ε α).map f = .error e := rfl

theorem bind_eq_ok {x : Except ε α} {f : α → Except ε β} {b : β} :
    (x >>= f) = .ok b ↔ ∃ a, x = .ok a ∧ f a = .ok b := by
  cases x <;> simp

@[simp] theorem lift_ok (a : α) :
    (liftM (Except.ok a : Except Fault α) : Except Failure α) = .ok a := rfl

@[simp] theorem lift_error (fault : Fault) :
    (liftM (Except.error fault : Except Fault α) : Except Failure α) = .error (.fault fault) := rfl

theorem lift_eq_ok {x : Except Fault α} {a : α} :
    (liftM x : Except Failure α) = .ok a ↔ x = .ok a := by
  cases x <;> simp

theorem mapM_eq_ok {f : α → Except ε β} {xs : List α} {ys : List β} :
    xs.mapM f = .ok ys ↔ List.Forall₂ (fun x y => f x = .ok y) xs ys := by
  induction xs generalizing ys with
  | nil =>
    cases ys <;> simp
  | cons x xs ih =>
    rw [List.mapM_cons, bind_eq_ok]
    constructor
    · rintro ⟨y, hy, h⟩
      obtain ⟨zs, hz, rfl⟩ : ∃ zs, xs.mapM f = .ok zs ∧ y :: zs = ys := by
        simpa [bind_eq_ok] using h
      exact .cons hy (ih.1 hz)
    · rintro (_ | ⟨hy, hz⟩)
      exact ⟨_, hy, by simp [ih.2 hz]⟩

theorem exists_forall₂ {rel : α → β → Prop} {xs : List α} (each : ∀ x ∈ xs, ∃ y, rel x y) :
    ∃ ys, List.Forall₂ rel xs ys := by
  induction xs with
  | nil => exact ⟨[], .nil⟩
  | cons x xs ih =>
    obtain ⟨y, hy⟩ := each x (by simp)
    obtain ⟨ys, hys⟩ := ih fun z hz => each z (by simp [hz])
    exact ⟨y :: ys, .cons hy hys⟩

theorem forall₂_getElem? {rel : α → β → Prop} {xs : List α} {ys : List β}
    (h : List.Forall₂ rel xs ys) {i : Nat} {x : α} (hx : xs[i]? = some x) :
    ∃ y, ys[i]? = some y ∧ rel x y := by
  induction h generalizing i with
  | nil => simp at hx
  | cons first _ ih =>
    cases i with
    | zero =>
      obtain rfl := Option.some.inj hx
      exact ⟨_, rfl, first⟩
    | succ i => exact ih (by simpa using hx)

theorem forall₂_exists {rel : α → β → Prop} {xs : List α} {ys : List β}
    (h : List.Forall₂ rel xs ys) {y : β} (member : y ∈ ys) : ∃ x ∈ xs, rel x y := by
  induction h with
  | nil => simp at member
  | cons first _ ih =>
    obtain _ | ⟨_, later⟩ := member
    · exact ⟨_, by simp, first⟩
    · obtain ⟨x, hx, hr⟩ := ih later
      exact ⟨x, by simp [hx], hr⟩

theorem exists_mapM_eq_ok {f : α → Except ε β} {xs : List α} (each : ∀ x ∈ xs, ∃ y, f x = .ok y) :
    ∃ ys, xs.mapM f = .ok ys :=
  (exists_forall₂ each).imp fun _ => mapM_eq_ok.2

theorem findM?_eq_ok {f : α → Except ε Bool} {p : α → Bool} {xs : List α}
    (each : ∀ x ∈ xs, f x = .ok (p x)) : xs.findM? f = .ok (xs.find? p) := by
  induction xs with
  | nil => rfl
  | cons x xs ih =>
    have rest := ih fun y hy => each y (by simp [hy])
    cases found : p x <;> simp [List.findM?, each x (by simp), found, rest]

/-- A result has one property, an error the other. -/
def Meets (outcome : Except ε α) (post : α → Prop) (fail : ε → Prop) : Prop :=
  match outcome with
  | .ok a => post a
  | .error e => fail e

section Meets

variable {outcome : Except ε α} {post : α → Prop} {result : β → Prop} {fail : ε → Prop}

theorem Meets.bind {next : α → Except ε β} (first : Meets outcome post fail)
    (rest : ∀ a, post a → Meets (next a) result fail) : Meets (outcome >>= next) result fail := by
  cases outcome with
  | ok a => exact rest a first
  | error e => exact first

theorem Meets.mapError {δ : Type} {wrap : ε → δ} {wrapped : δ → Prop}
    (met : Meets outcome post fail) (h : ∀ e, fail e → wrapped (wrap e)) :
    Meets (outcome.mapError wrap) post wrapped := by
  cases outcome with
  | ok a => exact met
  | error e => exact h e met

end Meets

variable {σ : Type}

/-- Whatever the state is, the result of an action has one property and an error the other. -/
def Ends (action : ExceptT ε (StateM σ) α) (post : α → Prop) (fail : ε → Prop) : Prop :=
  ∀ state, Meets (action.run.run state).1 post fail

section Ends

variable {action : ExceptT ε (StateM σ) α} {post : α → Prop} {result : β → Prop} {fail : ε → Prop}

theorem run_bind_of_ok {next : α → ExceptT ε (StateM σ) β} {state middle : σ} {a : α}
    (first : action.run.run state = (.ok a, middle)) :
    (action >>= next).run.run state = (next a).run.run middle := by
  rw [ExceptT.run_bind, StateT.run_bind, first]
  rfl

theorem run_bind_of_error {next : α → ExceptT ε (StateM σ) β} {state middle : σ} {e : ε}
    (first : action.run.run state = (.error e, middle)) :
    (action >>= next).run.run state = (.error e, middle) := by
  rw [ExceptT.run_bind, StateT.run_bind, first]
  rfl

theorem Ends.exists_ok (ends : Ends action post fun _ => False) (state : σ) :
    ∃ a after, action.run.run state = (.ok a, after) ∧ post a := by
  have met := ends state
  rcases h : action.run.run state with ⟨outcome, after⟩
  rw [h] at met
  cases outcome with
  | ok a => exact ⟨a, after, rfl, met⟩
  | error e => exact met.elim

theorem Ends.returns {command : ExceptT ε (StateM σ) Unit}
    (ends : Ends command (fun _ => True) fun _ => False) (state : σ) :
    ∃ after, command.run.run state = (.ok (), after) := by
  obtain ⟨_, after, returned, _⟩ := ends.exists_ok state
  exact ⟨after, returned⟩

theorem Ends.of_error (ends : Ends action (fun _ => True) fail) {state after : σ} {e : ε}
    (failed : action.run.run state = (.error e, after)) : fail e := by
  have met := ends state
  rw [failed] at met
  exact met

/-- An action that never fails has whatever property of errors is asked for. -/
theorem Ends.safe (ends : Ends action post fun _ => False) : Ends action post fail := by
  intro state
  obtain ⟨a, after, returned, h⟩ := ends.exists_ok state
  rw [returned]
  exact h

theorem Ends.bind {next : α → ExceptT ε (StateM σ) β} (first : Ends action post fail)
    (rest : ∀ a, post a → Ends (next a) result fail) : Ends (action >>= next) result fail := by
  intro state
  have met := first state
  rcases h : action.run.run state with ⟨outcome, middle⟩
  rw [h] at met
  cases outcome with
  | ok a =>
    rw [run_bind_of_ok h]
    exact rest a met middle
  | error e =>
    rw [run_bind_of_error h]
    exact met

theorem Ends.mapError {δ : Type} {wrap : ε → δ} {wrapped : δ → Prop} (ends : Ends action post fail)
    (h : ∀ e, fail e → wrapped (wrap e)) :
    Ends (ExceptT.mk do return (← action.run).mapError wrap) post wrapped :=
  fun state => (ends state).mapError h

end Ends

end Arbor
