import Mybmm.Support.Machine

/-! Runs to their end, for machines whose steps are the turns of several parties in
any order: what each step keeps, and what the turns of one party bring about
whatever the others do in between. -/
namespace Mybmm.Machine

variable {σ ι : Type*}

def run (step : σ → ι → Option σ) : σ → List ι → Option σ
  | s, [] => some s
  | s, i :: rest => (step s i).bind fun next => run step next rest

variable {step : σ → ι → Option σ}

theorem run_cons {s t : σ} {i : ι} {rest : List ι} (done : run step s (i :: rest) = some t) :
    ∃ next, step s i = some next ∧ run step next rest = some t := Option.bind_eq_some_iff.mp done

theorem visits_input (step : σ → ι → Option σ) (inputs : List ι) (s : σ) (visit : σ × ι)
    (member : visit ∈ visits step s inputs) : visit.2 ∈ inputs := by
  induction inputs generalizing s with
  | nil => simp [visits] at member
  | cons i rest ih =>
    rcases List.mem_cons.mp member with rfl | later
    · exact List.mem_cons_self
    · cases taken : step s i with
      | none => simp [taken] at later
      | some next =>
        simp only [taken] at later
        exact List.mem_cons_of_mem i (ih next later)

theorem visits_total_iff (next : σ → ι → σ) (P : ι → Prop) (inputs : List ι) (s : σ) :
    (∀ visit ∈ visits (fun s i => some (next s i)) s inputs, P visit.2) ↔ ∀ i ∈ inputs, P i := by
  induction inputs generalizing s with
  | nil => simp [visits]
  | cons i rest ih =>
    simp only [visits,List.forall_mem_cons]
    exact and_congr_right fun _ => ih (next s i)

/-- What a step of a kind keeps, a run of steps of that kind keeps. -/
theorem run_invariant_while (inv : σ → Prop) (kind : σ → ι → Prop)
    (preserved : ∀ s i next, inv s → kind s i → step s i = some next → inv next)
    {inputs : List ι} {s t : σ} (initial : inv s) (all : ∀ visit ∈ visits step s inputs, kind visit.1 visit.2)
    (done : run step s inputs = some t) : inv t := by
  induction inputs generalizing s with
  | nil =>
    obtain rfl := Option.some.inj done
    exact initial
  | cons i rest ih =>
    obtain ⟨next,taken,later⟩ := run_cons done
    simp only [visits,taken,List.forall_mem_cons] at all
    exact ih (preserved s i next initial all.1 taken) all.2 later

theorem run_invariant (inv : σ → Prop) (preserved : ∀ s i next, inv s → step s i = some next → inv next)
    {inputs : List ι} {s t : σ} (initial : inv s) (done : run step s inputs = some t) : inv t :=
  run_invariant_while inv (fun _ _ => True) (fun s i next kept _ => preserved s i next kept) initial
    (fun _ _ => trivial) done

/-- The turns of a party count something down that the turns of the others leave
alone or lower. -/
theorem run_progress (inv : σ → Prop) (turn : ι → Bool) (left : σ → Nat)
    (preserved : ∀ s i next, inv s → step s i = some next → inv next)
    (others : ∀ s i next, inv s → step s i = some next → left next ≤ left s)
    (lowers : ∀ s i next, inv s → turn i → step s i = some next → left next ≤ left s - 1)
    {inputs : List ι} {s t : σ} (initial : inv s) (done : run step s inputs = some t) :
    left t ≤ left s - inputs.countP turn := by
  induction inputs generalizing s with
  | nil =>
    obtain rfl := Option.some.inj done
    simp
  | cons i rest ih =>
    obtain ⟨next,taken,later⟩ := run_cons done
    have bound := ih (preserved s i next initial taken) later
    have step := others s i next initial taken
    by_cases own : turn i
    · have lower := lowers s i next initial own taken
      simp only [List.countP_cons,own,if_true]
      omega
    · simp only [List.countP_cons,own]
      simp only [Bool.false_eq_true,if_false]
      omega

end Mybmm.Machine
