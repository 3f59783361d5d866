import Arbor.Build

/-!
# What a dialogue keeps up

A store is good for a build only as far as its entries can be trusted. `Dialogue.Keeps` is the
weakest condition under which a dialogue with a store of such entries puts only such entries itself
and returns a result as required. Answers may be errors, entries may be absent, and the clock may
show anything.

## Main definitions

* `Dialogue.Keeps`: what a dialogue keeps up.
* `Dialogue.Yields`: the result of a dialogue that needs no store.

## Main statements

* `keeps_bind`: a sequence keeps up what its parts keep up.
* `Keeps.run`: a run with a partner whose entries can be trusted returns a result as required.
-/

namespace Arbor.Build.Dialogue

variable {α β : Type} {entry : String → Bytes → Prop} {post : α → Prop}

/-- As long as every entry it gets satisfies `entry`, the dialogue puts only entries that satisfy
it, and what it returns satisfies `post`. -/
def Keeps (entry : String → Bytes → Prop) : Dialogue α → (α → Prop) → Prop
  | done a, post => post a
  | get key next, post =>
    ∀ answer, (∀ bytes, answer = .ok (some bytes) → entry key bytes) →
      (next answer).Keeps entry post
  | put key bytes next, post => entry key bytes ∧ ∀ answer, (next answer).Keeps entry post
  | note _ next, post => next.Keeps entry post
  | clock next, post => ∀ time, (next time).Keeps entry post

theorem Keeps.mono {d : Dialogue α} {weaker : α → Prop} (h : d.Keeps entry post)
    (imp : ∀ a, post a → weaker a) : d.Keeps entry weaker := by
  induction d with
  | done a => exact imp a h
  | get key next ih => exact fun answer ok => ih answer (h answer ok)
  | put key bytes next ih => exact ⟨h.1, fun answer => ih answer (h.2 answer)⟩
  | note event next ih => exact ih h
  | clock next ih => exact fun time => ih time (h time)

@[simp] theorem keeps_pure (a : α) : (pure a : Dialogue α).Keeps entry post ↔ post a := Iff.rfl

@[simp] theorem keeps_bind (d : Dialogue β) (f : β → Dialogue α) :
    (d >>= f).Keeps entry post ↔ d.Keeps entry fun b => (f b).Keeps entry post := by
  change (d.bind f).Keeps entry post ↔ _
  induction d with
  | done b => rfl
  | get key next ih => exact forall_congr' fun answer => imp_congr_right fun _ => ih answer
  | put key bytes next ih => exact and_congr_right fun _ => forall_congr' ih
  | note event next ih => exact ih
  | clock next ih => exact forall_congr' ih

@[simp] theorem keeps_fetch (key : String) {post : Except Error (Option Bytes) → Prop} :
    (fetch key).Keeps entry post ↔
      ∀ answer, (∀ bytes, answer = .ok (some bytes) → entry key bytes) → post answer := Iff.rfl

@[simp] theorem keeps_store (key : String) (bytes : Bytes) {post : Except Error Unit → Prop} :
    (store key bytes).Keeps entry post ↔ entry key bytes ∧ ∀ answer, post answer := Iff.rfl

@[simp] theorem keeps_report (event : Event) {post : Unit → Prop} :
    (report event).Keeps entry post ↔ post () := Iff.rfl

@[simp] theorem keeps_now {post : Nat → Prop} : now.Keeps entry post ↔ ∀ time, post time := Iff.rfl

@[simp] theorem keeps_reportAll (events : List Event) {post : Unit → Prop} :
    (reportAll events).Keeps entry post ↔ post () := by
  induction events with
  | nil => rfl
  | cons event rest ih => exact ih

/-- What is kept up whatever the answers are holds of the result of every run. -/
theorem Keeps.run {σ : Type} {partner : Partner (StateM σ)} {d : Dialogue α}
    (h : d.Keeps entry post)
    (honest : ∀ key state bytes, (partner.get key state).1 = .ok (some bytes) → entry key bytes)
    (state : σ) : post (d.run partner state).1 := by
  induction d generalizing state with
  | done a => exact h
  | get key next ih => exact ih _ (h _ fun bytes found => honest key state bytes found) _
  | put key bytes next ih => exact ih _ (h.2 _) _
  | note event next ih => exact ih h _
  | clock next ih => exact ih _ (h _) _

/-! ## Dialogues that need no store -/

/-- The dialogue asks for nothing, and returns `a` whatever its clock shows. -/
def Yields : Dialogue α → α → Prop
  | done b, a => a = b
  | get _ _, _ => False
  | put _ _ _, _ => False
  | note _ next, a => next.Yields a
  | clock next, a => ∀ time, (next time).Yields a

variable {a : α} {b : β}

@[simp] theorem yields_pure (a' : α) : (pure a' : Dialogue α).Yields a ↔ a = a' := Iff.rfl

@[simp] theorem yields_now (f : Nat → Dialogue α) :
    (now >>= f).Yields a ↔ ∀ time, (f time).Yields a := Iff.rfl

@[simp] theorem yields_report (event : Event) (f : Unit → Dialogue α) :
    (report event >>= f).Yields a ↔ (f ()).Yields a := Iff.rfl

theorem Yields.bind {d : Dialogue β} {f : β → Dialogue α} (first : d.Yields b)
    (next : (f b).Yields a) : (d >>= f).Yields a := by
  change (d.bind f).Yields a
  induction d with
  | done b' =>
    obtain rfl : b = b' := first
    exact next
  | get key step => exact first.elim
  | put key bytes step => exact first.elim
  | note event step ih => exact ih first
  | clock step ih => exact fun time => ih time (first time)

theorem Yields.keeps {d : Dialogue α} (h : d.Yields a) (holds : post a) : d.Keeps entry post := by
  induction d with
  | done b =>
    obtain rfl : a = b := h
    exact holds
  | get key next => exact h.elim
  | put key bytes next => exact h.elim
  | note event next ih => exact ih h
  | clock next ih => exact fun time => ih time (h time)

end Arbor.Build.Dialogue
