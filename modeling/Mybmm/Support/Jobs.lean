import Mathlib.Tactic.Common

/-! Jobs that are done in parts. A part goes on from where the job stands and may
change what the job is about; where there is no next part, the job has ended. -/
namespace Mybmm.Jobs

variable {β α : Type*}

/-- What a job comes to from where it stands. -/
inductive Ends (part : β → α → Option (β × α)) : β → α → α → Prop
  | last {b : β} {a : α} (ended : part b a = none) : Ends part b a a
  | next {b b' : β} {a a' z : α} (taken : part b a = some (b',a')) (later : Ends part b' a' z) : Ends part b a z

variable {part : β → α → Option (β × α)} {b b' : β} {a a' z : α}

theorem Ends.ended (ends : Ends part b a z) (ended : part b a = none) : a = z := by
  cases ends with
  | last => rfl
  | next taken later =>
    rw [ended] at taken
    contradiction

theorem Ends.taken (ends : Ends part b a z) (taken : part b a = some (b',a')) : Ends part b' a' z := by
  cases ends with
  | last ended =>
    rw [taken] at ended
    contradiction
  | next other later =>
    obtain ⟨rfl,rfl⟩ := Prod.mk.inj (Option.some.inj (taken.symm.trans other))
    exact later

end Mybmm.Jobs
