import Mathlib.Tactic

/-!
# Reasoning about stateful computations that may fail

Computations over a state that is *kept* when they fail are Lean's `EStateM`.
This module has two ways to reason about them:

* `wp m Q E s`: run from `s`, the computation `m` ends normally in a state
  satisfying `Q`, or fails in a state satisfying `E`. It computes through the
  structure of a program (`wp_bind`, `wp_ensure`, …).
* `Keeps I E m`: the computation keeps the invariant `I` for as long as it runs,
  and fails in a state satisfying `E`. It composes along the structure of a
  program (`Keeps.bind`, `Keeps.ensure`, …).

Programs are written with two ways to fail: on a condition (`ensure`), or on a
missing value (`okOr`).
-/

namespace Detta

variable {ε σ α β : Type}

/-! ## Failing programs -/

/-- Go on if the condition holds, and fail otherwise. -/
def ensure (c : Prop) [Decidable c] (e : ε) : EStateM ε σ Unit :=
  if c then pure () else throw e

/-- Go on with a value, and fail if there is none. -/
def okOr (o : Option α) (e : ε) : EStateM ε σ α :=
  match o with
  | some a => pure a
  | none => throw e

/-- Run an action if the condition holds. -/
def onlyIf (c : Prop) [Decidable c] (m : EStateM ε σ Unit) : EStateM ε σ Unit :=
  if c then m else pure ()

/-- Run an action on each element of a list, from the first to the last. -/
def forEach (l : List α) (f : α → EStateM ε σ Unit) : EStateM ε σ Unit :=
  match l with
  | [] => pure ()
  | a :: l => do
    f a
    forEach l f

/-- Change the state after a computation, whether it has failed or not. -/
def andThen (m : EStateM ε σ α) (f : σ → σ) : EStateM ε σ α := fun s =>
  match m s with
  | .ok a s' => .ok a (f s')
  | .error e s' => .error e (f s')

/-- The state in which a computation has ended or failed. -/
def endState : EStateM.Result ε σ α → σ
  | .ok _ s | .error _ s => s

variable {c : Prop}

theorem ensure_bind [Decidable c] {e : ε} {f : Unit → EStateM ε σ β} {s : σ} :
    (ensure c e >>= f) s = if c then f () s else .error e s := by
  unfold ensure
  split <;> rfl

theorem forEach_append (l l' : List α) (f : α → EStateM ε σ Unit) :
    forEach (l ++ l') f = forEach l f >>= fun _ => forEach l' f := by
  induction l with
  | nil => rfl
  | cons a l ih => simp only [List.cons_append, forEach, ih, bind_assoc]

theorem get_apply (s : σ) : (get : EStateM ε σ σ) s = .ok s s := rfl

theorem set_apply (s s' : σ) : (set s' : EStateM ε σ PUnit) s = .ok ⟨⟩ s' := rfl

theorem modify_apply (f : σ → σ) (s : σ) : (modify f : EStateM ε σ PUnit) s = .ok ⟨⟩ (f s) := rfl

/-! ## Weakest preconditions -/

/-- The computation ends in a state satisfying `Q`, or fails in one satisfying `E`. -/
def wp (m : EStateM ε σ α) (Q : α → σ → Prop) (E : ε → σ → Prop) (s : σ) : Prop :=
  match m s with
  | .ok a s' => Q a s'
  | .error e s' => E e s'

variable {Q : α → σ → Prop} {R : β → σ → Prop} {E : ε → σ → Prop} {s : σ}

theorem wp_of_ok {m : EStateM ε σ α} {a : α} {s' : σ} (h : m s = .ok a s') :
    wp m Q E s ↔ Q a s' := by
  simp [wp, h]

theorem wp_of_error {m : EStateM ε σ α} {e : ε} {s' : σ} (h : m s = .error e s') :
    wp m Q E s ↔ E e s' := by
  simp [wp, h]

@[simp] theorem wp_pure {a : α} : wp (pure a) Q E s ↔ Q a s := Iff.rfl

@[simp] theorem wp_throw {e : ε} : wp (throw e : EStateM ε σ α) Q E s ↔ E e s := Iff.rfl

@[simp] theorem wp_bind {m : EStateM ε σ α} {f : α → EStateM ε σ β} :
    wp (m >>= f) R E s ↔ wp m (fun a => wp (f a) R E) E s := by
  unfold wp
  simp only [bind, EStateM.bind]
  cases m s <;> rfl

@[simp] theorem wp_map {m : EStateM ε σ α} {f : α → β} :
    wp (f <$> m) R E s ↔ wp m (fun a => R (f a)) E s := by
  unfold wp
  simp only [Functor.map, EStateM.map]
  cases m s <;> rfl

@[simp] theorem wp_get {Q : σ → σ → Prop} : wp (get : EStateM ε σ σ) Q E s ↔ Q s s := Iff.rfl

@[simp] theorem wp_set {Q : PUnit → σ → Prop} {s' : σ} :
    wp (set s' : EStateM ε σ PUnit) Q E s ↔ Q ⟨⟩ s' := Iff.rfl

@[simp] theorem wp_modify {Q : Unit → σ → Prop} {f : σ → σ} :
    wp (modify f : EStateM ε σ Unit) Q E s ↔ Q () (f s) := Iff.rfl

@[simp] theorem wp_ensure {Q : Unit → σ → Prop} [Decidable c] {e : ε} :
    wp (ensure c e) Q E s ↔ (c → Q () s) ∧ (¬c → E e s) := by
  unfold ensure
  split
  next h => simp [h]
  next h => simp [h]

@[simp] theorem wp_okOr {o : Option α} {e : ε} :
    wp (okOr o e) Q E s ↔ (∀ a, o = some a → Q a s) ∧ (o = none → E e s) := by
  cases o <;> simp [okOr]

@[simp] theorem wp_andThen {m : EStateM ε σ α} {f : σ → σ} :
    wp (andThen m f) Q E s ↔ wp m (fun a s' => Q a (f s')) (fun e s' => E e (f s')) s := by
  unfold wp andThen
  cases m s <;> rfl

@[simp] theorem wp_onlyIf {Q : Unit → σ → Prop} [Decidable c] {m : EStateM ε σ Unit} :
    wp (onlyIf c m) Q E s ↔ (c → wp m Q E s) ∧ (¬c → Q () s) := by
  unfold onlyIf
  split
  next h => simp [h]
  next h => simp [h]

/-- What a computation has led to, from what it leads to. -/
theorem wp.of_ok {m : EStateM ε σ α} {a : α} {s' : σ} (h : m s = .ok a s')
    (hm : wp m Q (fun _ _ => True) s) : Q a s' :=
  (wp_of_ok h).1 hm

/-- Weaker postconditions have weaker preconditions. -/
theorem wp.mono {m : EStateM ε σ α} {Q' : α → σ → Prop} {E' : ε → σ → Prop}
    (h : wp m Q E s) (hQ : ∀ a s', Q a s' → Q' a s') (hE : ∀ e s', E e s' → E' e s') :
    wp m Q' E' s := by
  unfold wp at h ⊢
  cases hm : m s with
  | ok a s' => rw [hm] at h; exact hQ a s' h
  | error e s' => rw [hm] at h; exact hE e s' h

/-- The same, where nothing is said about failures. -/
theorem wp.imp {m : EStateM ε σ α} {Q' : α → σ → Prop} (h : wp m Q E s)
    (hQ : ∀ a s', Q a s' → Q' a s') : wp m Q' (fun _ _ => True) s :=
  h.mono hQ fun _ _ _ => trivial

/-- One computation after the other. -/
theorem wp.bind {m : EStateM ε σ α} {f : α → EStateM ε σ β} (h : wp m Q E s)
    (hf : ∀ a s', Q a s' → wp (f a) R E s') : wp (m >>= f) R E s :=
  wp_bind.2 (h.mono hf fun _ _ he => he)

section Bind

variable {f : Unit → EStateM ε σ β}

theorem wp.get {f : σ → EStateM ε σ β} (h : wp (f s) R E s) : wp (get >>= f) R E s := wp_bind.2 h

theorem wp.set {s' : σ} (h : wp (f ()) R E s') : wp (set s' >>= f) R E s := wp_bind.2 h

theorem wp.modify {g : σ → σ} (h : wp (f ()) R E (g s)) : wp (modify g >>= f) R E s := wp_bind.2 h

theorem wp.ensure [Decidable c] {e : ε} (h : (c → wp (f ()) R E s) ∧ (¬c → E e s)) :
    wp (ensure c e >>= f) R E s :=
  wp_bind.2 (wp_ensure.2 h)

theorem wp.okOr {o : Option α} {e : ε} {f : α → EStateM ε σ β}
    (h : (∀ a, o = some a → wp (f a) R E s) ∧ (o = none → E e s)) :
    wp (okOr o e >>= f) R E s :=
  wp_bind.2 (wp_okOr.2 h)

end Bind

/-- What holds after a computation that ends, and after one that fails, holds at the end. -/
theorem wp.endState {m : EStateM ε σ α} {P : σ → Prop} (h : wp m (fun _ => P) (fun _ => P) s) :
    P (endState (m s)) := by
  unfold wp at h
  unfold Detta.endState
  split <;> simpa only [*] using h

/-- What a computation does is what it does. -/
theorem wp_self (m : EStateM ε σ α) (s : σ) :
    wp m (fun a s' => m s = .ok a s') (fun e s' => m s = .error e s') s := by
  unfold wp
  split <;> assumption

/-- Two facts about the same run. -/
theorem wp.and {m : EStateM ε σ α} {Q' : α → σ → Prop} {E' : ε → σ → Prop}
    (h : wp m Q E s) (h' : wp m Q' E' s) :
    wp m (fun a s' => Q a s' ∧ Q' a s') (fun e s' => E e s' ∧ E' e s') s := by
  unfold wp at *
  cases hm : m s with
  | ok a s' => rw [hm] at h h'; exact ⟨h, h'⟩
  | error e s' => rw [hm] at h h'; exact ⟨h, h'⟩

/-! ## Computations that only read -/

/-- The computation leaves the state alone, also when it fails. -/
class Reads (m : EStateM ε σ α) : Prop where
  same : ∀ s, wp m (fun _ s' => s' = s) (fun _ s' => s' = s) s

namespace Reads

instance (a : α) : Reads (pure a : EStateM ε σ α) := ⟨fun _ => rfl⟩

instance (e : ε) : Reads (throw e : EStateM ε σ α) := ⟨fun _ => rfl⟩

instance : Reads (get : EStateM ε σ σ) := ⟨fun _ => rfl⟩

instance (c : Prop) [Decidable c] (e : ε) : Reads (ensure c e : EStateM ε σ Unit) :=
  ⟨fun _ => wp_ensure.2 ⟨fun _ => rfl, fun _ => rfl⟩⟩

instance (o : Option α) (e : ε) : Reads (okOr o e : EStateM ε σ α) :=
  ⟨fun _ => wp_okOr.2 ⟨fun _ _ => rfl, fun _ => rfl⟩⟩

instance (m : EStateM ε σ α) (f : α → EStateM ε σ β) [Reads m] [∀ a, Reads (f a)] :
    Reads (m >>= f) where
  same s := wp_bind.2 <| (same (m := m) s).mono
    (fun a s' h => h ▸ same (m := f a) s') fun _ _ h => h

/-- What holds before a computation that only reads holds after it. -/
theorem wp (m : EStateM ε σ α) [Reads m] (hQ : ∀ a, Q a s) (hE : ∀ e, E e s) :
    Detta.wp m Q E s :=
  (same (m := m) s).mono (fun a _ h => h ▸ hQ a) fun e _ h => h ▸ hE e

end Reads

/-- Go on after a computation that only reads. -/
theorem wp.skip {m : EStateM ε σ α} [Reads m] {f : α → EStateM ε σ β}
    (hf : ∀ a, wp (f a) R E s) (hE : ∀ e, E e s) : wp (m >>= f) R E s :=
  wp_bind.2 (Reads.wp m hf hE)

/-! ## Invariants of a computation -/

/-- The computation keeps `I` for as long as it runs, and fails in `E`. -/
def Keeps (I : σ → Prop) (E : ε → σ → Prop) (m : EStateM ε σ α) : Prop :=
  ∀ s, I s → wp m (fun _ => I) E s

namespace Keeps

variable {I : σ → Prop} {m : EStateM ε σ α}

/-- What is kept also by failing holds at the end. -/
theorem endState {I : σ → Prop} {s : σ} (h : Keeps I (fun _ => I) m) (hs : I s) :
    I (endState (m s)) := (h s hs).endState

theorem pure (a : α) : Keeps I E (Pure.pure a : EStateM ε σ α) := fun _ h => h

theorem bind {f : α → EStateM ε σ β} (hm : Keeps I E m) (hf : ∀ a, Keeps I E (f a)) :
    Keeps I E (m >>= f) := fun s h =>
  (hm s h).bind fun a s' => hf a s'

/-- Nothing is lost by only reading. -/
theorem reads (hE : ∀ s e, I s → E e s) [Reads m] : Keeps I E m := fun s h =>
  Reads.wp m (fun _ => h) fun e => hE s e h

theorem same [Reads m] : Keeps I (fun _ => I) m := reads fun _ _ h => h

theorem update {f : σ → σ} (hf : ∀ s, I s → I (f s)) :
    Keeps I E (modify f : EStateM ε σ Unit) := fun s h => hf s h

theorem onlyIf {c : Prop} [Decidable c] {m : EStateM ε σ Unit} (hm : Keeps I E m) :
    Keeps I E (Detta.onlyIf c m) := fun s h =>
  wp_onlyIf.2 ⟨fun _ => hm s h, fun _ => h⟩

/-- A loop keeps what each of its iterations keeps. -/
theorem forEach {l : List α} {f : α → EStateM ε σ Unit} (hf : ∀ a ∈ l, Keeps I E (f a)) :
    Keeps I E (Detta.forEach l f) := by
  induction l with
  | nil => exact Keeps.pure ()
  | cons a l ih =>
    refine Keeps.bind (hf a List.mem_cons_self) fun _ => ih fun b hb => ?_
    exact hf b (List.mem_cons_of_mem a hb)

end Keeps

end Detta
