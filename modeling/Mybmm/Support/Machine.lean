import Mathlib.Data.List.Basic

/-! Deterministic machines driven by one input a step. A step may stop the
machine for good; every step that is taken is kept with the state it starts in,
so a property of steps is a property of the run. -/
namespace Mybmm.Machine

variable {σ ι : Type*}

/-- The steps a run takes: each input consumed, with the state it is consumed in. -/
def visits (step : σ → ι → Option σ) : σ → List ι → List (σ × ι)
  | _, [] => []
  | s, i :: rest =>
    (s,i) :: match step s i with
      | none => []
      | some next => visits step next rest

theorem visits_invariant (step : σ → ι → Option σ) (inv : σ → Prop)
    (preserved : ∀ s i next, inv s → step s i = some next → inv next)
    (inputs : List ι) (s : σ) (initial : inv s) :
    ∀ visit ∈ visits step s inputs, inv visit.1 := by
  induction inputs generalizing s with
  | nil => simp [visits]
  | cons i rest ih =>
    intro visit member
    rcases List.mem_cons.mp member with rfl | later
    · exact initial
    · cases taken : step s i with
      | none => simp [taken] at later
      | some next =>
        simp only [taken] at later
        exact ih next (preserved s i next initial taken) visit later

theorem visits_iff (step : σ → ι → Option σ) (inv : σ → Prop)
    (preserved : ∀ s i next, inv s → step s i = some next → inv next)
    (P Q : σ → ι → Prop) (same : ∀ s i, inv s → (P s i ↔ Q s i))
    (inputs : List ι) (s : σ) (initial : inv s) :
    (∀ visit ∈ visits step s inputs, P visit.1 visit.2) ↔
      ∀ visit ∈ visits step s inputs, Q visit.1 visit.2 := by
  have kept := visits_invariant step inv preserved inputs s initial
  constructor
  · exact fun all visit member => (same _ _ (kept visit member)).mp (all visit member)
  · exact fun all visit member => (same _ _ (kept visit member)).mpr (all visit member)

/-- As `visits_iff`, for an invariant that a step keeps once it has the property. -/
theorem visits_iff_while (step : σ → ι → Option σ) (inv : σ → Prop) (P Q : σ → ι → Prop)
    (same : ∀ s i, inv s → (P s i ↔ Q s i))
    (preserved : ∀ s i next, inv s → Q s i → step s i = some next → inv next)
    (inputs : List ι) (s : σ) (initial : inv s) :
    (∀ visit ∈ visits step s inputs, P visit.1 visit.2) ↔
      ∀ visit ∈ visits step s inputs, Q visit.1 visit.2 := by
  induction inputs generalizing s with
  | nil => simp [visits]
  | cons i rest ih =>
    cases taken : step s i with
    | none => simp [visits,taken,same s i initial]
    | some next =>
      simp only [visits,taken,List.forall_mem_cons]
      rw [same s i initial]
      exact and_congr_right fun head => ih next (preserved s i next initial head taken)

/-- What a step keeps only when it is of some kind holds at a visit exactly when
it held at first and every step before was of that kind. -/
theorem visits_history (step : σ → ι → Option σ) (P : σ → Prop) (kind : σ → ι → Prop)
    (kept : ∀ s i next, step s i = some next → (P next ↔ P s ∧ kind s i))
    (before : List (σ × ι)) (visit : σ × ι) (after : List (σ × ι)) (inputs : List ι) (s : σ)
    (run : visits step s inputs = before ++ visit :: after) :
    P visit.1 ↔ P s ∧ ∀ earlier ∈ before, kind earlier.1 earlier.2 := by
  induction before generalizing inputs s with
  | nil =>
    cases inputs with
    | nil => simp [visits] at run
    | cons i rest =>
      obtain rfl : (s,i) = visit := (List.cons.inj run).1
      simp
  | cons first more ih =>
    cases inputs with
    | nil => simp [visits] at run
    | cons i rest =>
      obtain ⟨rfl,later⟩ := List.cons.inj run
      cases taken : step s i with
      | none => simp [taken] at later
      | some next =>
        simp only [taken] at later
        rw [ih rest next later,kept s i next taken]
        simp [and_assoc]

end Mybmm.Machine
