import Mathlib.Tactic.Common

/-! C functions over a state: they may return early with a code, and have no
meaning once an index leaves its array. -/
namespace Mybmm

def Routine (σ α : Type) : Type := σ → Option (Except Int α × σ)

namespace Routine

variable {σ α β : Type}

instance : Monad (Routine σ) where
  pure a := fun s => some (.ok a,s)
  bind m f := fun s => match m s with
    | none => none
    | some (.ok a,t) => f a t
    | some (.error code,t) => some (.error code,t)

def modify (f : σ → σ) : Routine σ Unit := fun s => some (.ok (),f s)

def gets (f : σ → α) : Routine σ α := fun s => some (.ok (f s),s)

def update (f : σ → Option σ) : Routine σ Unit := fun s => (f s).map fun t => (.ok (),t)

def index (o : Option α) : Routine σ α := fun s => o.map fun a => (.ok a,s)

/-- Returns the code when there is nothing to go on with. -/
def orReturn (code : Int) : Option α → Routine σ α
  | some a => fun s => some (.ok a,s)
  | none => fun s => some (.error code,s)

/-- What the caller sees: the code, zero at the end, and the state. -/
def returns (m : Routine σ Unit) (s : σ) : Option (Int × σ) :=
  (m s).map fun
    | (.ok _,t) => (0,t)
    | (.error code,t) => (code,t)

def value (m : Routine σ Int) (s : σ) : Option (Int × σ) :=
  (m s).map fun
    | (.ok v,t) => (v,t)
    | (.error code,t) => (code,t)

/-! How a routine goes on after its first part. -/

theorem bind_ok {m : Routine σ α} {f : α → Routine σ β} {s t : σ} {a : α} (first : m s = some (.ok a,t)) :
    (m >>= f) s = f a t := by
  simp only [bind,first]

theorem bind_error {m : Routine σ α} {f : α → Routine σ β} {s t : σ} {code : Int}
    (first : m s = some (.error code,t)) : (m >>= f) s = some (.error code,t) := by
  simp only [bind,first]

theorem bind_none {m : Routine σ α} {f : α → Routine σ β} {s : σ} (first : m s = none) : (m >>= f) s = none := by
  simp only [bind,first]

theorem bind_assoc {γ : Type} (m : Routine σ α) (f : α → Routine σ β) (g : β → Routine σ γ) :
    (m >>= f) >>= g = m >>= fun a => f a >>= g := by
  funext s
  cases first : m s with
  | none => rw [bind_none (bind_none first),bind_none first]
  | some ended =>
    obtain ⟨result,t⟩ := ended
    cases result with
    | error code => rw [bind_error (bind_error first),bind_error first]
    | ok a =>
      rw [bind_ok first]
      simp only [bind,first]

/-- How a routine that has ended got there: by a return in its first part, or through it. -/
theorem bind_inv {m : Routine σ α} {f : α → Routine σ β} {s t : σ} {r : Except Int β} (done : (m >>= f) s = some (r,t)) :
    (∃ code, m s = some (.error code,t) ∧ r = .error code) ∨ ∃ a u, m s = some (.ok a,u) ∧ f a u = some (r,t) := by
  cases ran : m s with
  | none => exact absurd (done.symm.trans (bind_none ran)) (by simp)
  | some ended =>
    obtain ⟨result,u⟩ := ended
    cases result with
    | error code =>
      rw [bind_error ran] at done
      obtain ⟨rfl,rfl⟩ := Prod.mk.inj (Option.some.inj done)
      exact Or.inl ⟨code,rfl,rfl⟩
    | ok a =>
      rw [bind_ok ran] at done
      exact Or.inr ⟨a,u,rfl,done⟩

theorem bind_ok_inv {m : Routine σ α} {f : α → Routine σ β} {s t : σ} {b : β} (done : (m >>= f) s = some (.ok b,t)) :
    ∃ a u, m s = some (.ok a,u) ∧ f a u = some (.ok b,t) := by
  rcases bind_inv done with ⟨code,_,failed⟩ | through
  · contradiction
  · exact through

theorem bind_update_inv {f : σ → Option σ} {g : Unit → Routine σ β} {s t : σ} {r : Except Int β}
    (done : (update f >>= g) s = some (r,t)) : ∃ u, f s = some u ∧ g () u = some (r,t) := by
  rcases bind_inv done with ⟨code,failed,_⟩ | ⟨_,u,changed,rest⟩
  · obtain ⟨_,_,same⟩ := Option.map_eq_some_iff.mp failed
    exact absurd (Prod.mk.inj same).1 (by simp)
  · obtain ⟨v,here,same⟩ := Option.map_eq_some_iff.mp changed
    obtain ⟨_,rfl⟩ := Prod.mk.inj same
    exact ⟨v,here,rest⟩

theorem bind_update_some {f : σ → Option σ} {g : Unit → Routine σ β} {s t : σ} (changed : f s = some t) :
    (update f >>= g) s = g () t := bind_ok (by simp [update,changed])

theorem bind_update_none {f : σ → Option σ} {g : Unit → Routine σ β} {s : σ} (outside : f s = none) :
    (update f >>= g) s = none := bind_none (by simp [update,outside])

theorem bind_gets {f : σ → α} {g : α → Routine σ β} (s : σ) : (gets f >>= g) s = g (f s) s := rfl

theorem bind_modify {f : σ → σ} {g : Unit → Routine σ β} (s : σ) : (modify f >>= g) s = g () (f s) := rfl

theorem bind_index {g : α → Routine σ β} (a : α) (s : σ) : (index (some a) >>= g) s = g a s := rfl

theorem bind_some {code : Int} {g : α → Routine σ β} (a : α) (s : σ) : (orReturn code (some a) >>= g) s = g a s := rfl

/-! One routine goes at least as far as another: where arrays are longer. -/

def Extends (m m' : Routine σ α) : Prop := ∀ s r, m s = some r → m' s = some r

theorem extends_refl (m : Routine σ α) : Extends m m := fun _ _ done => done

theorem extends_bind {m m' : Routine σ α} {f f' : α → Routine σ β} (first : Extends m m')
    (rest : ∀ a, Extends (f a) (f' a)) : Extends (m >>= f) (m' >>= f') := by
  rintro s ⟨r,t⟩ done
  rcases bind_inv done with ⟨code,failed,rfl⟩ | ⟨a,u,ran,goes⟩
  · exact bind_error (first s _ failed)
  · rw [bind_ok (first s _ ran)]
    exact rest a u _ goes

theorem extends_index {o o' : Option α} (longer : ∀ a, o = some a → o' = some a) :
    Extends (index (σ := σ) o) (index o') := by
  intro s r done
  cases here : o with
  | none =>
    rw [here] at done
    contradiction
  | some a =>
    rw [longer a here]
    rw [here] at done
    exact done

/-! What a routine does not change. -/

def Preserves (P : σ → Prop) (m : Routine σ α) : Prop := ∀ s r t, P s → m s = some (r,t) → P t

variable {P : σ → Prop}

theorem preserves_pure (a : α) : Preserves P (pure a : Routine σ α) := by
  intro s r t held done
  obtain ⟨rfl,rfl⟩ := Prod.mk.inj (Option.some.inj done)
  exact held

theorem preserves_bind {m : Routine σ α} {f : α → Routine σ β} (first : Preserves P m)
    (rest : ∀ a, Preserves P (f a)) : Preserves P (m >>= f) := by
  intro s r t held done
  rcases bind_inv done with ⟨code,failed,_⟩ | ⟨a,u,ran,goes⟩
  · exact first s _ t held failed
  · exact rest a u r t (first s _ u held ran) goes

theorem preserves_modify {f : σ → σ} (kept : ∀ s, P s → P (f s)) : Preserves P (modify f) := by
  intro s r t held done
  obtain ⟨_,rfl⟩ := Prod.mk.inj (Option.some.inj done)
  exact kept s held

theorem preserves_update {f : σ → Option σ} (kept : ∀ s t, P s → f s = some t → P t) : Preserves P (update f) := by
  intro s r t held done
  obtain ⟨u,changed,same⟩ := Option.map_eq_some_iff.mp done
  obtain ⟨_,rfl⟩ := Prod.mk.inj same
  exact kept s u held changed

theorem preserves_gets (f : σ → α) : Preserves P (gets f) := by
  intro s r t held done
  obtain ⟨_,rfl⟩ := Prod.mk.inj (Option.some.inj done)
  exact held

theorem preserves_index (o : Option α) : Preserves P (index o : Routine σ α) := by
  intro s r t held done
  obtain ⟨a,_,same⟩ := Option.map_eq_some_iff.mp done
  obtain ⟨_,rfl⟩ := Prod.mk.inj same
  exact held

theorem preserves_orReturn (code : Int) (o : Option α) : Preserves P (orReturn code o : Routine σ α) := by
  intro s r t held done
  cases o with
  | none =>
    obtain ⟨_,rfl⟩ := Prod.mk.inj (Option.some.inj done)
    exact held
  | some a =>
    obtain ⟨_,rfl⟩ := Prod.mk.inj (Option.some.inj done)
    exact held

theorem preserves_returns {m : Routine σ Unit} (kept : Preserves P m) {s t : σ} {code : Int} (held : P s)
    (returned : returns m s = some (code,t)) : P t := by
  obtain ⟨⟨result,u⟩,ran,same⟩ := Option.map_eq_some_iff.mp returned
  have after := kept s result u held ran
  cases result with
  | error code' =>
    obtain ⟨_,rfl⟩ := Prod.mk.inj same
    exact after
  | ok a =>
    obtain ⟨_,rfl⟩ := Prod.mk.inj same
    exact after

end Routine
end Mybmm
