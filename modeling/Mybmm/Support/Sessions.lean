import Mybmm.Support.Machine

/-! Sessions that hold at most one handle, behind an interface of four calls. A call
tells what it acquires and releases, and a run keeps what is live; a release of
something that is not live stops the run. -/
namespace Mybmm.Sessions
open Machine

variable {σ η ω ρ υ χ : Type}

inductive Use (η : Type) where
  | acquired (handle : η)
  | released (handle : η)

def settle [DecidableEq η] : List η → List (Use η) → Option (List η)
  | live, [] => some live
  | live, .acquired h :: uses => settle (h :: live) uses
  | live, .released h :: uses => if h ∈ live then settle (live.erase h) uses else none

structure Reply (σ η : Type) where
  code : Int
  session : σ
  uses : List (Use η)

/-- The calls, each with what comes from outside in its course. -/
inductive Call (ω ρ υ χ : Type) where
  | opens (outcomes : ω)
  | reads (outcomes : ρ)
  | writes (outcomes : υ)
  | closes (outcomes : χ)

/-- A call need not return. -/
structure Transport (σ η ω ρ υ χ : Type) where
  held : σ → Option η
  opens : σ → ω → Option (Reply σ η)
  reads : σ → ρ → Option (Reply σ η)
  writes : σ → υ → Option (Reply σ η)
  closes : σ → χ → Option (Reply σ η)

namespace Transport

variable (t : Transport σ η ω ρ υ χ)

def call (s : σ) : Call ω ρ υ χ → Option (Reply σ η)
  | .opens outcomes => t.opens s outcomes
  | .reads outcomes => t.reads s outcomes
  | .writes outcomes => t.writes s outcomes
  | .closes outcomes => t.closes s outcomes

def step [DecidableEq η] (state : σ × List η) (c : Call ω ρ υ χ) : Option (σ × List η) :=
  (t.call state.1 c).bind fun r => (settle state.2 r.uses).map fun live => (r.session,live)

/-! What a run is to keep to. -/

def FailsClosed (s : σ) : Call ω ρ υ χ → Prop
  | .opens outcomes => ∀ r, t.opens s outcomes = some r → r.code ≠ 0 → t.held r.session = none
  | _ => True

/-- Success on a closed session comes with a handle of the call's own. -/
def Attempts (s : σ) : Call ω ρ υ χ → Prop
  | .opens outcomes => ∀ r, t.opens s outcomes = some r → r.code = 0 → t.held s = none →
      ∃ h, .acquired h ∈ r.uses ∧ t.held r.session = some h
  | _ => True

structure Tidy [DecidableEq η] (state : σ × List η) (c : Call ω ρ υ χ) : Prop where
  failsClosed : t.FailsClosed state.1 c
  attempts : t.Attempts state.1 c
  released : ∀ r, t.call state.1 c = some r → ∃ live, settle state.2 r.uses = some live

/-! What the calls do. -/

/-- How an open ends that does not keep what it failed with. -/
inductive Opened (s : σ) : Reply σ η → Prop where
  | already (h : η) (holds : t.held s = some h) : Opened s ⟨0,s,[]⟩
  | refused (code : Int) (next : σ) (failed : code ≠ 0) (closed : t.held next = none) : Opened s ⟨code,next,[]⟩
  | undone (code : Int) (next : σ) (h : η) (failed : code ≠ 0) (closed : t.held next = none) :
      Opened s ⟨code,next,[.acquired h,.released h]⟩
  | established (next : σ) (h : η) (holds : t.held next = some h) : Opened s ⟨0,next,[.acquired h]⟩

def Unchanged (s : σ) (r : Reply σ η) : Prop := r.uses = [] ∧ t.held r.session = t.held s

def Closed (s : σ) (r : Reply σ η) : Prop :=
  t.held r.session = none ∧ r.uses = (t.held s).toList.map Use.released

/-- The kind tells the opens that keep nothing they fail with. -/
structure Lawful (kind : σ → ω → Prop) : Prop where
  opens : ∀ s outcomes r, kind s outcomes → t.opens s outcomes = some r → t.Opened s r
  leaves : ∀ s outcomes, ¬ kind s outcomes → ∃ r, t.opens s outcomes = some r ∧ r.code ≠ 0 ∧ t.held r.session ≠ none
  reads : ∀ s outcomes r, t.reads s outcomes = some r → t.Unchanged s r
  writes : ∀ s outcomes r, t.writes s outcomes = some r → t.Unchanged s r
  closes : ∀ s outcomes r, t.closes s outcomes = some r → t.Closed s r

def Opening (kind : σ → ω → Prop) (s : σ) : Call ω ρ υ χ → Prop
  | .opens outcomes => kind s outcomes
  | _ => True

def Backed (s : σ) (live : List η) : Prop := ∀ h, t.held s = some h → h ∈ live

variable {t}

theorem backed_none {s : σ} {live : List η} (closed : t.held s = none) : t.Backed s live := by
  intro h holds
  rw [closed] at holds
  contradiction

section Rules

variable {s : σ} {r : Reply σ η} {live : List η}

theorem opened_closed (opened : t.Opened s r) (failed : r.code ≠ 0) : t.held r.session = none := by
  cases opened with
  | already => exact absurd rfl failed
  | refused _ _ _ closed => exact closed
  | undone _ _ _ _ closed => exact closed
  | established => exact absurd rfl failed

theorem opened_attempts (opened : t.Opened s r) (done : r.code = 0) (closed : t.held s = none) :
    ∃ h, .acquired h ∈ r.uses ∧ t.held r.session = some h := by
  cases opened with
  | already h holds =>
    rw [closed] at holds
    contradiction
  | refused _ _ failed => exact absurd done failed
  | undone _ _ _ failed => exact absurd done failed
  | established _ h holds => exact ⟨h,by simp,holds⟩

variable [DecidableEq η]

theorem opened_backed (opened : t.Opened s r) (backed : t.Backed s live) :
    ∃ left, settle live r.uses = some left ∧ t.Backed r.session left := by
  cases opened with
  | already => exact ⟨live,rfl,backed⟩
  | refused _ _ _ closed => exact ⟨live,rfl,backed_none closed⟩
  | undone _ _ h _ closed => exact ⟨live,by simp [settle],backed_none closed⟩
  | established _ h holds =>
    refine ⟨h :: live,rfl,fun other same => ?_⟩
    rw [Option.some.inj (same.symm.trans holds)]
    exact List.mem_cons_self

theorem unchanged_backed (unchanged : t.Unchanged s r) (backed : t.Backed s live) :
    ∃ left, settle live r.uses = some left ∧ t.Backed r.session left := by
  obtain ⟨none,same⟩ := unchanged
  refine ⟨live,by rw [none]; rfl,fun h holds => backed h ?_⟩
  rw [← same]
  exact holds

theorem closed_backed (given : t.Closed s r) (backed : t.Backed s live) :
    ∃ left, settle live r.uses = some left ∧ t.Backed r.session left := by
  obtain ⟨closed,uses⟩ := given
  rw [uses]
  cases holds : t.held s with
  | none => exact ⟨live,rfl,backed_none closed⟩
  | some h => exact ⟨live.erase h,by simp [settle,backed h holds],backed_none closed⟩

end Rules

variable {kind : σ → ω → Prop}

theorem failsClosed_iff (lawful : t.Lawful kind) (s : σ) (c : Call ω ρ υ χ) : t.FailsClosed s c ↔ Opening kind s c := by
  cases c with
  | opens outcomes =>
    constructor
    · intro fails
      by_contra bad
      obtain ⟨r,called,failed,holds⟩ := lawful.leaves s outcomes bad
      exact holds (fails r called failed)
    · exact fun good r called failed => opened_closed (lawful.opens s outcomes r good called) failed
  | reads outcomes | writes outcomes | closes outcomes => exact Iff.rfl

variable [DecidableEq η]

theorem lawful_backed (lawful : t.Lawful kind) (s : σ) (c : Call ω ρ υ χ) (r : Reply σ η) (live : List η)
    (good : Opening kind s c) (called : t.call s c = some r) (backed : t.Backed s live) :
    ∃ left, settle live r.uses = some left ∧ t.Backed r.session left := by
  cases c with
  | opens outcomes => exact opened_backed (lawful.opens s outcomes r good called) backed
  | reads outcomes => exact unchanged_backed (lawful.reads s outcomes r called) backed
  | writes outcomes => exact unchanged_backed (lawful.writes s outcomes r called) backed
  | closes outcomes => exact closed_backed (lawful.closes s outcomes r called) backed

theorem tidy_iff (lawful : t.Lawful kind) (state : σ × List η) (c : Call ω ρ υ χ) (backed : t.Backed state.1 state.2) :
    t.Tidy state c ↔ Opening kind state.1 c := by
  constructor
  · exact fun tidy => (failsClosed_iff lawful state.1 c).mp tidy.failsClosed
  · intro good
    refine { failsClosed := (failsClosed_iff lawful state.1 c).mpr good, attempts := ?_, released := ?_ }
    · cases c with
      | opens outcomes => exact fun r called => opened_attempts (lawful.opens state.1 outcomes r good called)
      | reads outcomes | writes outcomes | closes outcomes => exact trivial
    · intro r called
      obtain ⟨left,settled,_⟩ := lawful_backed lawful state.1 c r state.2 good called backed
      exact ⟨left,settled⟩

theorem step_backed (lawful : t.Lawful kind) (state : σ × List η) (c : Call ω ρ υ χ) (next : σ × List η)
    (backed : t.Backed state.1 state.2) (good : Opening kind state.1 c) (taken : t.step state c = some next) :
    t.Backed next.1 next.2 := by
  obtain ⟨r,called,settled⟩ := Option.bind_eq_some_iff.mp taken
  obtain ⟨left,same,rfl⟩ := Option.map_eq_some_iff.mp settled
  obtain ⟨other,also,kept⟩ := lawful_backed lawful state.1 c r state.2 good called backed
  obtain rfl := Option.some.inj (same.symm.trans also)
  exact kept

/-- A run is tidy throughout exactly when all of its opens are of the kind. -/
theorem run_tidy_iff (lawful : t.Lawful kind) (s : σ) (new : t.held s = none) (calls : List (Call ω ρ υ χ)) :
    (∀ visit ∈ visits t.step (s,[]) calls, t.Tidy visit.1 visit.2) ↔
      ∀ visit ∈ visits t.step (s,[]) calls, Opening kind visit.1.1 visit.2 :=
  visits_iff_while t.step (fun state => t.Backed state.1 state.2) t.Tidy (fun state c => Opening kind state.1 c)
    (tidy_iff lawful) (step_backed lawful) calls (s,[]) (backed_none new)

theorem run_tidy (lawful : t.Lawful fun _ _ => True) (s : σ) (new : t.held s = none) (calls : List (Call ω ρ υ χ)) :
    ∀ visit ∈ visits t.step (s,[]) calls, t.Tidy visit.1 visit.2 := by
  refine (run_tidy_iff lawful s new calls).mpr fun visit _ => ?_
  cases visit.2 <;> exact trivial

end Transport
end Mybmm.Sessions
