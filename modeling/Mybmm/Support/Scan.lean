import Mathlib.Data.List.Perm.Basic
import Mathlib.Data.List.Forall2

/-! Scans through containers that stop at the first item a test picks out. What
such a scan reports is independent of the order of the containers, and of the
items in each, exactly when all the items picked out report the same. -/
namespace Mybmm.Scan

variable {γ β ε δ : Type*}

/-- A relation between containers that allows any order of their items. -/
structure Reordering (items : γ → List β) (r : γ → γ → Prop) : Prop where
  same : ∀ c d, r c d → (items c).Perm (items d)
  any : ∀ c xs, (items c).Perm xs → ∃ d, r c d ∧ items d = xs

def Rearranged (r : γ → γ → Prop) (l l' : List γ) : Prop := ∃ mid, List.Forall₂ r l mid ∧ mid.Perm l'

def first (items : γ → List β) (classify : β → Option ε) (l : List γ) : Option ε :=
  (l.flatMap items).findSome? classify

variable {items : γ → List β} {r : γ → γ → Prop}

theorem rearranged_perm (reordering : Reordering items r) {l l' : List γ} (rearranged : Rearranged r l l') :
    (l.flatMap items).Perm (l'.flatMap items) := by
  obtain ⟨mid,related,moved⟩ := rearranged
  refine List.Perm.trans ?_ (moved.flatMap_right items)
  clear moved
  induction related with
  | nil => rfl
  | cons head tail ih =>
    rw [List.flatMap_cons,List.flatMap_cons]
    exact (reordering.same _ _ head).append ih

theorem exists_related (reordering : Reordering items r) (l : List γ) : ∃ mid, List.Forall₂ r l mid := by
  induction l with
  | nil => exact ⟨[],.nil⟩
  | cons c l ih =>
    obtain ⟨mid,related⟩ := ih
    obtain ⟨d,head,_⟩ := reordering.any c (items c) (.refl _)
    exact ⟨d :: mid,.cons head related⟩

theorem exists_rearranged (reordering : Reordering items r) (l : List γ) (x : β) (member : x ∈ l.flatMap items) :
    ∃ l' rest, Rearranged r l l' ∧ l'.flatMap items = x :: rest := by
  obtain ⟨c,here,inside⟩ := List.mem_flatMap.mp member
  obtain ⟨before,after,rfl⟩ := List.append_of_mem here
  obtain ⟨left,right,own⟩ := List.append_of_mem inside
  obtain ⟨d,head,items_d⟩ := reordering.any c (x :: (left ++ right)) (own ▸ List.perm_middle)
  obtain ⟨before',related⟩ := exists_related reordering before
  obtain ⟨after',related'⟩ := exists_related reordering after
  have moved : Rearranged r (before ++ c :: after) (d :: (before' ++ after')) :=
    ⟨before' ++ d :: after',List.rel_append related (.cons head related'),List.perm_middle⟩
  refine ⟨d :: (before' ++ after'),left ++ right ++ (before' ++ after').flatMap items,moved,?_⟩
  rw [List.flatMap_cons,items_d,List.cons_append]

/-- A scan reports the same under every order exactly when no two items it could
stop at report differently. -/
theorem first_rearranged_iff (reordering : Reordering items r) (classify : β → Option ε)
    (observe : Option ε → δ) (l : List γ) :
    (∀ l', Rearranged r l l' → observe (first items classify l') = observe (first items classify l)) ↔
      ∀ x ∈ l.flatMap items, ∀ y ∈ l.flatMap items, ∀ a b, classify x = some a → classify y = some b →
        observe (some a) = observe (some b) := by
  constructor
  · intro same x hx y hy a b picked picked'
    have leads (z : β) (member : z ∈ l.flatMap items) (c : ε) (stop : classify z = some c) :
        observe (some c) = observe (first items classify l) := by
      obtain ⟨l',rest,rearranged,head⟩ := exists_rearranged reordering l z member
      rw [← same l' rearranged,first,head,List.findSome?_cons,stop]
    rw [leads x hx a picked,leads y hy b picked']
  · intro agree l' rearranged
    have perm := rearranged_perm reordering rearranged
    cases found : first items classify l with
    | none =>
      have clear : first items classify l' = none := by
        rw [first,List.findSome?_eq_none_iff] at found ⊢
        exact fun x member => found x (perm.mem_iff.mpr member)
      rw [clear]
    | some a =>
      obtain ⟨x,member,picked⟩ := List.exists_of_findSome?_eq_some found
      have stops : (first items classify l').isSome := by
        rw [first,List.findSome?_isSome_iff]
        exact ⟨x,perm.mem_iff.mp member,by simp [picked]⟩
      obtain ⟨b,found'⟩ := Option.isSome_iff_exists.mp stops
      obtain ⟨y,member',picked'⟩ := List.exists_of_findSome?_eq_some found'
      rw [found']
      exact agree y (perm.mem_iff.mpr member') x member b a picked' picked

end Mybmm.Scan
