import Mathlib.Tactic.Common

/-! Computations over a state that may give up part of the way, leaving the state
as they had changed it by then. Pre- and postconditions speak of both endings;
agreement compares one computation from two states. -/
namespace Mybmm

def Attempt (σ α : Type) : Type := σ → Option α × σ

namespace Attempt

variable {σ α β : Type}

instance : Monad (Attempt σ) where
  pure a := fun s => (some a,s)
  bind m f := fun s => match m s with
    | (some a,t) => f a t
    | (none,t) => (none,t)

def gets (f : σ → α) : Attempt σ α := fun s => (some (f s),s)

def modify (f : σ → σ) : Attempt σ Unit := fun s => (some (),f s)

def giveUp : Attempt σ α := fun s => (none,s)

def ofOption (o : Option α) : Attempt σ α := fun s => (o,s)

theorem bind_done {m : Attempt σ α} {f : α → Attempt σ β} {s t : σ} {a : α} (done : m s = (some a,t)) :
    (m >>= f) s = f a t := by
  simp only [bind,done]

theorem bind_gaveUp {m : Attempt σ α} {f : α → Attempt σ β} {s t : σ} (stopped : m s = (none,t)) :
    (m >>= f) s = (none,t) := by
  simp only [bind,stopped]

theorem bind_done_iff {m : Attempt σ α} {f : α → Attempt σ β} {s t : σ} {b : β} :
    (m >>= f) s = (some b,t) ↔ ∃ a u, m s = (some a,u) ∧ f a u = (some b,t) := by
  rcases result : m s with ⟨ending,u⟩
  cases ending with
  | none => simp [bind_gaveUp result]
  | some a => simp [bind_done result]

/-- From a state with `P`, finishing leaves `Q` and giving up leaves `E`. -/
def Triple (P : σ → Prop) (m : Attempt σ α) (Q : α → σ → Prop) (E : σ → Prop) : Prop :=
  ∀ s, P s → match m s with
    | (some a,t) => Q a t
    | (none,t) => E t

theorem Triple.done {P : σ → Prop} {m : Attempt σ α} {Q : α → σ → Prop} {E : σ → Prop}
    (triple : Triple P m Q E) {s t : σ} {a : α} (pre : P s) (result : m s = (some a,t)) : Q a t := by
  have post := triple s pre
  rwa [result] at post

theorem Triple.gaveUp {P : σ → Prop} {m : Attempt σ α} {Q : α → σ → Prop} {E : σ → Prop}
    (triple : Triple P m Q E) {s t : σ} (pre : P s) (result : m s = (none,t)) : E t := by
  have post := triple s pre
  rwa [result] at post

theorem Triple.ends {P I : σ → Prop} {m : Attempt σ α} (triple : Triple P m (fun _ => I) I) {s : σ}
    (pre : P s) : I (m s).2 := by
  have post := triple s pre
  rcases result : m s with ⟨ending,t⟩
  rw [result] at post
  cases ending with
  | none => exact post
  | some a => exact post

variable {P : σ → Prop} {E : σ → Prop}

theorem triple_pure {Q : α → σ → Prop} (a : α) (post : ∀ s, P s → Q a s) : Triple P (pure a) Q E := post

theorem triple_gets {Q : α → σ → Prop} (f : σ → α) (post : ∀ s, P s → Q (f s) s) :
    Triple P (gets f) Q E := post

theorem triple_modify {Q : Unit → σ → Prop} (f : σ → σ) (post : ∀ s, P s → Q () (f s)) :
    Triple P (modify f) Q E := post

theorem triple_giveUp {Q : α → σ → Prop} (post : ∀ s, P s → E s) : Triple P giveUp Q E := post

theorem triple_ofOption {Q : α → σ → Prop} (o : Option α) (found : ∀ a s, o = some a → P s → Q a s)
    (missing : ∀ s, P s → E s) : Triple P (ofOption o) Q E := by
  intro s pre
  cases o with
  | none => exact missing s pre
  | some a => exact found a s rfl pre

theorem triple_bind {m : Attempt σ α} {f : α → Attempt σ β} {Q : α → σ → Prop} {S : β → σ → Prop}
    (first : Triple P m Q E) (next : ∀ a, Triple (Q a) (f a) S E) : Triple P (m >>= f) S E := by
  intro s pre
  rcases result : m s with ⟨ending,t⟩
  cases ending with
  | none =>
    rw [bind_gaveUp result]
    exact first.gaveUp pre result
  | some a =>
    rw [bind_done result]
    exact next a t (first.done pre result)

theorem triple_and_left {p : Prop} {m : Attempt σ α} {Q : α → σ → Prop} :
    Triple (fun s => p ∧ P s) m Q E ↔ (p → Triple P m Q E) :=
  ⟨fun triple holds s pre => triple s ⟨holds,pre⟩,fun triple s pre => triple pre.1 s pre.2⟩

theorem triple_weaken {P' : σ → Prop} {m : Attempt σ α} {Q : α → σ → Prop} (triple : Triple P' m Q E)
    (pre : ∀ s, P s → P' s) : Triple P m Q E := fun s inv => triple s (pre s inv)

theorem triple_consequence {m : Attempt σ α} {Q S : α → σ → Prop} {F : σ → Prop} (triple : Triple P m Q E)
    (post : ∀ a s, Q a s → S a s) (failure : ∀ s, E s → F s) : Triple P m S F := by
  intro s pre
  have ended := triple s pre
  rcases result : m s with ⟨ending,t⟩
  rw [result] at ended
  cases ending with
  | none => exact failure t ended
  | some a => exact post a t ended

theorem triple_and {P' : σ → Prop} {E' : σ → Prop} {m : Attempt σ α} {Q Q' : α → σ → Prop}
    (left : Triple P m Q E) (right : Triple P' m Q' E') :
    Triple (fun s => P s ∧ P' s) m (fun a s => Q a s ∧ Q' a s) fun s => E s ∧ E' s := by
  intro s ⟨pre,pre'⟩
  have post := left s pre
  have post' := right s pre'
  rcases result : m s with ⟨ending,t⟩
  rw [result] at post post'
  cases ending with
  | none => exact ⟨post,post'⟩
  | some a => exact ⟨post,post'⟩

/-- What holds before, after, and wherever the computation gives up. -/
def Keeps (I : σ → Prop) (m : Attempt σ α) : Prop := Triple I m (fun _ => I) I

theorem keeps_bind {I : σ → Prop} {m : Attempt σ α} {f : α → Attempt σ β}
    (first : Keeps I m) (next : ∀ a, Keeps I (f a)) : Keeps I (m >>= f) := triple_bind first next

theorem keeps_pure {I : σ → Prop} (a : α) : Keeps I (pure a) := triple_pure a fun _ inv => inv

theorem keeps_gets {I : σ → Prop} (f : σ → α) : Keeps I (gets f) := triple_gets f fun _ inv => inv

theorem keeps_giveUp {I : σ → Prop} : Keeps I (giveUp : Attempt σ α) := triple_giveUp fun _ inv => inv

theorem keeps_ofOption {I : σ → Prop} (o : Option α) : Keeps I (ofOption o) :=
  triple_ofOption o (fun _ _ _ inv => inv) fun _ inv => inv

theorem keeps_modify {I : σ → Prop} (f : σ → σ) (kept : ∀ s, I s → I (f s)) : Keeps I (modify f) :=
  triple_modify f kept

/-! One computation from two states. -/

variable {R : σ → σ → Prop}

end Attempt

end Mybmm
