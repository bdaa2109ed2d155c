import Mathlib.Data.List.Induction
import Mybmm.Reconfig

/-! pack.c: what `pack_init` says the packs can do. config.h has a capability stand
for all of them. -/
namespace Mybmm.Capabilities
open Config Flags Modules Packs Attempt

def Has (cap : Capability) (capabilities : BitVec 16) : Prop := check capabilities cap = true

instance (cap : Capability) (capabilities : BitVec 16) : Decidable (Has cap capabilities) :=
  inferInstanceAs (Decidable (_ = true))

def AllHave (cap : Capability) (conf : Conf) : Prop := ∀ pp ∈ conf.packs, Has cap pp.capabilities

instance (cap : Capability) (conf : Conf) : Decidable (AllHave cap conf) :=
  inferInstanceAs (Decidable (∀ pp ∈ conf.packs, Has cap pp.capabilities))

/-- Both controls are the bank's exactly when they are every pack's. -/
def Intersection (conf : Conf) : Prop :=
  (Has .chargeControl conf.capabilities ↔ AllHave .chargeControl conf) ∧
    (Has .dischargeControl conf.capabilities ↔ AllHave .dischargeControl conf)

/-! The second loop of `pack_init`. -/

private theorem packControls_append (masks : List (BitVec 16)) (mask : BitVec 16) : packControls (masks ++ [mask]) =
    if !check mask Capability.chargeControl then (false,(packControls masks).2)
    else if !check mask Capability.dischargeControl then ((packControls masks).1,false)
    else packControls masks := by
  rw [packControls,List.foldl_append]
  rfl

private theorem controls_charge_iff (masks : List (BitVec 16)) :
    (packControls masks).1 = true ↔ ∀ mask ∈ masks, Has .chargeControl mask := by
  induction masks using List.reverseRecOn with
  | nil => simp [packControls]
  | append_singleton masks mask ih =>
    rw [packControls_append,List.forall_mem_append,List.forall_mem_singleton,← ih]
    cases charge : check mask Capability.chargeControl with
    | false => simp [Has,charge]
    | true => cases discharge : check mask Capability.dischargeControl <;> simp [Has,charge]

/-- The second control is asked only of the packs that have the first. -/
private theorem controls_discharge_iff (masks : List (BitVec 16)) :
    (packControls masks).2 = true ↔ ∀ mask ∈ masks, Has .chargeControl mask → Has .dischargeControl mask := by
  induction masks using List.reverseRecOn with
  | nil => simp [packControls]
  | append_singleton masks mask ih =>
    rw [packControls_append,List.forall_mem_append,List.forall_mem_singleton,← ih]
    cases charge : check mask Capability.chargeControl with
    | false => simp [Has,charge]
    | true => cases discharge : check mask Capability.dischargeControl <;> simp [Has,charge,discharge]

private theorem has_grant (controls : Bool × Bool) (capabilities : BitVec 16) :
    (Has .chargeControl (grant controls capabilities) ↔ controls.1 = true ∨ Has .chargeControl capabilities) ∧
      (Has .dischargeControl (grant controls capabilities) ↔ controls.2 = true ∨ Has .dischargeControl capabilities) := by
  obtain ⟨c,d⟩ := controls
  cases c <;> cases d <;> simp [Has,grant]

private theorem packInit_has (env : Env) (conf after : Conf) (done : packInit env conf = (some (),after))
    (filled : after.packs ≠ []) :
    (Has .chargeControl after.capabilities ↔ AllHave .chargeControl after ∨ Has .chargeControl conf.capabilities) ∧
      (Has .dischargeControl after.capabilities ↔
        (∀ pp ∈ after.packs, Has .chargeControl pp.capabilities → Has .dischargeControl pp.capabilities) ∨
          Has .dischargeControl conf.capabilities) := by
  have grants := packInit_grants (I := fun _ => True) env conf.capabilities (loads_ignores env fun _ _ _ => trivial)
    (fun _ _ _ _ _ => trivial) (fun _ _ _ => trivial) (fun _ _ _ => trivial) fun _ _ _ => trivial
  obtain ⟨same,_⟩ := grants.done ⟨rfl,trivial⟩ done
  have some : after.packs.map Pack.capabilities ≠ [] := fun none => filled (List.map_eq_nil_iff.mp none)
  rw [granted,if_neg some] at same
  obtain ⟨charge,discharge⟩ := has_grant (packControls (after.packs.map Pack.capabilities)) conf.capabilities
  rw [controls_charge_iff,List.forall_mem_map] at charge
  rw [controls_discharge_iff,List.forall_mem_map] at discharge
  rw [same]
  exact ⟨charge,discharge⟩

/-- Setting the bits up gives the intersection exactly when neither was left over from
before, and a pack without the second has the first. -/
theorem intersection_iff (env : Env) (conf after : Conf) (done : packInit env conf = (some (),after))
    (filled : after.packs ≠ []) :
    Intersection after ↔ (Has .chargeControl conf.capabilities → AllHave .chargeControl after) ∧
      (AllHave .dischargeControl after ∨ ¬ Has .dischargeControl conf.capabilities ∧
        ∃ pp ∈ after.packs, Has .chargeControl pp.capabilities ∧ ¬ Has .dischargeControl pp.capabilities) := by
  obtain ⟨charge,discharge⟩ := packInit_has env conf after done filled
  unfold Intersection
  rw [charge,discharge]
  apply and_congr
  · exact or_iff_left_iff_imp
  · have asked (all : AllHave .dischargeControl after) :
        ∀ pp ∈ after.packs, Has .chargeControl pp.capabilities → Has .dischargeControl pp.capabilities :=
      fun pp member _ => all pp member
    constructor
    · intro both
      by_cases all : AllHave .dischargeControl after
      · exact Or.inl all
      · obtain ⟨refused,fresh⟩ := not_or.mp (mt both.mp all)
        simp only [not_forall,exists_prop] at refused
        exact Or.inr ⟨fresh,refused⟩
    · rintro (all | ⟨fresh,pp,member,charge,none⟩)
      · exact iff_of_true (Or.inl (asked all)) all
      · refine iff_of_false (not_or.mpr ⟨fun given => none (given pp member charge),fresh⟩) ?_
        exact fun all => none (all pp member)

def fitted (masks : List (BitVec 16)) (capabilities : BitVec 16) : Conf :=
  { packs := masks.map fun mask => { capabilities := mask }, capabilities := capabilities }

theorem intersection_of_two : Intersection (packInit (Reconfig.bench none) (fitted [7,7] 0)).2 := by
  refine (intersection_iff (Reconfig.bench none) (fitted [7,7] 0) _ (Prod.ext ?_ rfl) ?_).mpr ⟨?_,Or.inl ?_⟩
  · decide +kernel
  · decide +kernel
  · decide +kernel
  · decide +kernel

/-- One pack of the `preh` driver, which has no capabilities. -/
theorem discharge_granted : (packInit (Reconfig.bench none) (fitted [0] 0)).1 = some () ∧
    ¬ Intersection (packInit (Reconfig.bench none) (fitted [0] 0)).2 := by
  refine ⟨by decide +kernel,fun both => ?_⟩
  have granted : Has .dischargeControl (packInit (Reconfig.bench none) (fitted [0] 0)).2.capabilities := by decide +kernel
  have all := both.2.mp granted
  revert all
  decide +kernel

end Mybmm.Capabilities
