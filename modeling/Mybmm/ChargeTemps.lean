import Mathlib.Algebra.Order.Field.Basic
import Mathlib.Algebra.Order.Field.Rat
import Mathlib.Tactic.FieldSimp
import Mybmm.Support.Progress
import Mybmm.Charge

/-! battery.c over the checks of one charge: what cold does to the charge rate, and at
which rise of the temperature the charge ends. -/
namespace Mybmm.ChargeTemps
open Config Battery Charge Libc Machine

structure Check where
  readings : Readings
  clock : Clock

def Check.temp (c : Check) : ℚ := c.readings.batteryTemp

def check (conf : Conf) (c : Check) : Conf := chargeCheck c.clock (sense conf c.readings)

/-- The charge goes on through all of the checks. -/
def Stays : Conf → List Check → Prop
  | conf, [] => isCharging conf = true
  | conf, c :: checks => isCharging conf = true ∧ Stays (check conf c) checks

instance decidableStays : (conf : Conf) → (checks : List Check) → Decidable (Stays conf checks)
  | conf, [] => inferInstanceAs (Decidable (isCharging conf = true))
  | conf, c :: checks =>
    have := decidableStays (check conf c) checks
    inferInstanceAs (Decidable (isCharging conf = true ∧ Stays (check conf c) checks))

/-! One check of a charge that goes on. -/

private theorem isCharging_sense (conf : Conf) (r : Readings) : isCharging (sense conf r) = isCharging conf := rfl

private theorem checkCC_kept (later : Int) (conf : Conf) :
    (checkCC later conf).chargeAmps = conf.chargeAmps ∧ (checkCC later conf).startTemp = conf.startTemp := by
  rcases checkCC_cases later conf with same | ⟨volts,same,_⟩
  · rw [same]
    exact ⟨rfl,rfl⟩
  · rw [same]
    exact ⟨rfl,rfl⟩

private theorem derate_startTemp (conf : Conf) : (derate conf).startTemp = conf.startTemp := by
  obtain ⟨amps,same⟩ := derate_amps conf
  rw [same]

private theorem chargeCheck_goes_on (clock : Clock) (conf : Conf) (charging : isCharging conf = true)
    (goes : isCharging (chargeCheck clock conf) = true) :
    (chargeCheck clock conf).chargeAmps = (derate conf).chargeAmps ∧
      (chargeCheck clock conf).startTemp = conf.startTemp := by
  unfold chargeCheck at goes ⊢
  rw [if_pos charging] at goes ⊢
  dsimp only at goes ⊢
  split_ifs at goes ⊢
  · simp at goes
  · simp at goes
  · exact ⟨(checkCC_kept _ _).1,(checkCC_kept _ _).2.trans (derate_startTemp conf)⟩
  · simp at goes
  · exact ⟨rfl,derate_startTemp conf⟩
  · exact ⟨rfl,derate_startTemp conf⟩

private theorem stays_append {conf : Conf} (checks : List Check) {more : List Check} (stays : Stays conf (checks ++ more)) :
    Stays conf checks ∧ Stays (checks.foldl check conf) more := by
  induction checks generalizing conf with
  | nil =>
    refine ⟨?_,stays⟩
    cases more with
    | nil => exact stays
    | cons c more => exact stays.1
  | cons c checks ih =>
    obtain ⟨first,rest⟩ := ih stays.2
    exact ⟨⟨stays.1,first⟩,rest⟩

private theorem stays_head {conf : Conf} {checks : List Check} (stays : Stays conf checks) : isCharging conf = true :=
  (stays_append [] stays).1

/-! The charge rate. -/

def base (conf : Conf) : ℚ :=
  if conf.userChargeAmps < 0 then conf.cRate * conf.capacity else conf.userChargeAmps

def derated (amps temp : ℚ) : ℚ := if temp ≤ 5 then amps / 4 else amps

/-- After every check the rate is what the check's own temperature asks for. -/
def DeratedOnce (conf : Conf) (checks : List Check) : Prop :=
  ∀ before c after, checks = before ++ c :: after →
    ((before ++ [c]).foldl check (chargeStart conf)).chargeAmps = derated (base conf) c.temp

def cold (c : Check) : Bool := decide (c.temp ≤ 5)

private theorem check_amps (conf : Conf) (c : Check) (charging : isCharging conf = true)
    (goes : isCharging (check conf c) = true) :
    (check conf c).chargeAmps = derated conf.chargeAmps c.temp := by
  rw [check,(chargeCheck_goes_on c.clock (sense conf c.readings) charging goes).1]
  unfold derate derated
  exact apply_ite Conf.chargeAmps _ _ _

private theorem derated_pow (amps : ℚ) (c : Check) : derated amps c.temp = amps / 4 ^ [c].countP cold := by
  unfold derated
  by_cases chill : c.temp ≤ 5
  · simp [cold,chill]
  · simp [cold,chill]

private theorem stays_amps (conf : Conf) (checks : List Check) (stays : Stays conf checks) :
    (checks.foldl check conf).chargeAmps = conf.chargeAmps / 4 ^ checks.countP cold := by
  induction checks generalizing conf with
  | nil => simp
  | cons c checks ih =>
    have amps := check_amps conf c stays.1 (stays_head stays.2)
    rw [List.foldl_cons,ih _ stays.2,amps,derated_pow,div_div,← pow_add,← List.countP_append]
    rfl

private theorem chargeStart_base (conf : Conf) :
    (chargeStart conf).chargeAmps = base conf ↔ truncate conf.capacity ≠ 0 ∨ conf.chargeAmps = base conf := by
  by_cases empty : truncate conf.capacity = 0
  · rw [chargeStart_empty conf empty]
    simp [empty]
  · rw [chargeStart_started conf empty]
    exact iff_of_true rfl (Or.inl empty)

private theorem split_amps_iff (conf : Conf) (before after : List Check) (c : Check)
    (stays : Stays (chargeStart conf) (before ++ c :: after)) :
    ((before ++ [c]).foldl check (chargeStart conf)).chargeAmps = derated (base conf) c.temp ↔
      (chargeStart conf).chargeAmps / 4 ^ before.countP cold = base conf := by
  have upTo : Stays (chargeStart conf) (before ++ [c]) := by
    rw [List.append_cons] at stays
    exact (stays_append _ stays).1
  rw [stays_amps _ _ upTo,derated_pow,List.countP_append,pow_add,← div_div]
  exact div_left_inj' (by positivity)

private theorem quartered_iff {amps : ℚ} {n : Nat} : amps / 4 ^ (n + 1) = amps ↔ amps = 0 := by
  have more : (1 : ℚ) < 4 ^ (n + 1) := one_lt_pow₀ (by decide) (by omega)
  constructor
  · intro same
    rw [div_eq_iff (by positivity)] at same
    nlinarith
  · rintro rfl
    simp

/-- Over the checks of a charge, cold counts once exactly when only the last of them is
cold, or there is nothing to divide. -/
theorem derated_once_iff (conf : Conf) (checks : List Check) (stays : Stays (chargeStart conf) checks) :
    DeratedOnce conf checks ↔ checks = [] ∨ ((truncate conf.capacity ≠ 0 ∨ conf.chargeAmps = base conf) ∧
      (base conf = 0 ∨ ∀ c ∈ checks.dropLast, 5 < c.temp)) := by
  constructor
  · intro once
    cases checks with
    | nil => exact Or.inl rfl
    | cons first rest =>
      have started : (chargeStart conf).chargeAmps = base conf := by
        have reduced := (split_amps_iff conf [] rest first stays).mp (once [] first rest rfl)
        simpa using reduced
      refine Or.inr ⟨(chargeStart_base conf).mp started,?_⟩
      by_cases zero : base conf = 0
      · exact Or.inl zero
      refine Or.inr fun c member => ?_
      by_contra chill
      obtain ⟨earlier,later,split⟩ := List.append_of_mem member
      obtain ⟨last,ends⟩ : ∃ last, (first :: rest).dropLast ++ [last] = first :: rest :=
        ⟨_,List.dropLast_append_getLast (List.cons_ne_nil first rest)⟩
      obtain ⟨d,after,next⟩ : ∃ d after, later ++ [last] = d :: after := List.exists_cons_of_ne_nil (by simp)
      have whole : first :: rest = (earlier ++ [c]) ++ d :: after := by
        rw [← ends,← next,split]
        simp
      have reduced := (split_amps_iff conf (earlier ++ [c]) after d (whole ▸ stays)).mp (once _ d after whole)
      have counted : (earlier ++ [c]).countP cold = earlier.countP cold + 1 := by
        simp [cold,not_lt.mp chill]
      rw [started,counted] at reduced
      exact zero (quartered_iff.mp reduced)
  · rintro (rfl | ⟨started,once⟩) before c after whole
    · simp at whole
    subst whole
    rw [split_amps_iff conf before after c stays,(chargeStart_base conf).mpr started]
    rcases once with zero | warm
    · simp [zero]
    · have none : before.countP cold = 0 := by
        rw [List.countP_eq_zero]
        intro d member
        have kept := warm d (by simp [List.dropLast_append_of_ne_nil,member])
        simp [cold,kept]
      simp [none]

def charged : Conf :=
  { capacity := 100, cRate := 1, userChargeAmps := -1, batteryTemp := 10, chargeTargetVoltage := 60, cellMax := 4 }

def sensed (temp : ℚ) : Check := ⟨⟨52,-20,temp,60,3,3⟩,⟨0,0,le_rfl⟩⟩

theorem derated_first : Stays (chargeStart charged) [sensed 10,sensed 3] ∧ DeratedOnce charged [sensed 10,sensed 3] := by
  have stays : Stays (chargeStart charged) [sensed 10,sensed 3] := by decide +kernel
  refine ⟨stays,(derated_once_iff charged [sensed 10,sensed 3] stays).mpr (Or.inr ⟨Or.inl ?_,Or.inr ?_⟩)⟩
  · decide +kernel
  · decide +kernel

/-- Two checks at three degrees leave a sixteenth. -/
theorem derated_twice :
    Stays (chargeStart charged) [sensed 10,sensed 3,sensed 3] ∧ ¬ DeratedOnce charged [sensed 10,sensed 3,sensed 3] := by
  refine ⟨by decide +kernel,fun once => ?_⟩
  have last := once [sensed 10,sensed 3] (sensed 3) [] rfl
  exact absurd last (by decide +kernel)

/-! The rise of the temperature. -/

def step (conf : Conf) (c : Check) : Option Conf := if isCharging (check conf c) then some (check conf c) else none

/-- The temperature is let pass and the two hours are over. -/
def TimedOut (conf : Conf) (c : Check) : Prop :=
  ¬ pct c.temp conf.startTemp > 5 ∧ conf.chargeMode = 2 ∧ conf.cvStartTime + hours 2 ≤ c.clock.now

def AbortsOnRise (start : ℚ) (conf : Conf) (c : Check) : Prop :=
  0 < c.temp → ¬ TimedOut conf c → (isCharging (check conf c) = false ↔ start + 5 < c.temp)

/-- The start lies between five degrees and five per cent below the temperature. -/
def Misjudged (start temp : ℚ) : Prop :=
  (temp - 5 ≤ start ∧ start < 0.95 * temp) ∨ (0.95 * temp ≤ start ∧ start < temp - 5)

instance (start temp : ℚ) : Decidable (Misjudged start temp) := inferInstanceAs (Decidable (_ ∨ _))

def Judged (start : ℚ) (conf : Conf) (c : Check) : Prop :=
  0 < c.temp → ¬ TimedOut conf c → ¬ Misjudged start c.temp

private theorem pct_iff {start temp : ℚ} (above : 0 < temp) : pct temp start > 5 ↔ start < 0.95 * temp := by
  have share : start / temp * 100 < 95 ↔ start < 0.95 * temp := by
    rw [div_mul_eq_mul_div,div_lt_iff₀ above]
    constructor <;> intro less <;> linarith
  rw [← share]
  unfold pct
  constructor <;> intro less <;> linarith

private theorem not_misjudged_iff {start temp : ℚ} : ¬ Misjudged start temp ↔ (start < 0.95 * temp ↔ start + 5 < temp) := by
  have rise : start + 5 < temp ↔ start < temp - 5 := by constructor <;> intro less <;> linarith
  rw [rise,Misjudged,← not_lt,← not_lt]
  tauto

private theorem check_ends_iff (conf : Conf) (c : Check) (charging : isCharging conf = true) (above : 0 < c.temp)
    (early : ¬ TimedOut conf c) : isCharging (check conf c) = false ↔ conf.startTemp < 0.95 * c.temp := by
  have goes := isCharging_chargeCheck c.clock (sense conf c.readings)
  rw [isCharging_sense,charging] at goes
  simp only [true_and,Bool.true_eq_false,false_and,or_false] at goes
  rw [check,← Bool.not_eq_true,goes,not_not,← pct_iff above]
  constructor
  · rintro (freezing | rise | ⟨mode,elapsed⟩)
    · exact absurd freezing (not_le.mpr above)
    · exact rise
    · by_contra passes
      exact early ⟨passes,mode,elapsed⟩
  · exact fun rise => Or.inr (Or.inl rise)

/-- The charge goes on, with the temperature that was noted when it started. -/
structure Noted (start : ℚ) (conf : Conf) : Prop where
  charging : isCharging conf = true
  noted : conf.startTemp = start

private theorem step_noted (start : ℚ) (conf : Conf) (c : Check) (next : Conf) (noted : Noted start conf)
    (taken : step conf c = some next) : Noted start next := by
  unfold step at taken
  split_ifs at taken with goes
  obtain rfl := Option.some.inj taken
  exact ⟨goes,(chargeCheck_goes_on c.clock (sense conf c.readings) noted.charging goes).2.trans noted.noted⟩

private theorem aborts_judged (start : ℚ) (conf : Conf) (c : Check) (noted : Noted start conf) :
    AbortsOnRise start conf c ↔ Judged start conf c := by
  refine forall_congr' fun above => forall_congr' fun early => ?_
  rw [check_ends_iff conf c noted.charging above early,noted.noted,not_misjudged_iff]

/-- A charge ends with the first rise of more than five degrees, and not before,
exactly when no temperature on the way is misjudged. -/
theorem aborts_iff (conf : Conf) (filled : truncate conf.capacity ≠ 0) (checks : List Check) :
    (∀ visit ∈ visits step (chargeStart conf) checks, AbortsOnRise conf.batteryTemp visit.1 visit.2) ↔
      ∀ visit ∈ visits step (chargeStart conf) checks, Judged conf.batteryTemp visit.1 visit.2 := by
  refine visits_iff step (Noted conf.batteryTemp) (step_noted conf.batteryTemp) _ _ (aborts_judged conf.batteryTemp)
    checks (chargeStart conf) ?_
  rw [chargeStart_started conf filled]
  exact ⟨isCharging_started conf,rfl⟩

theorem aborts_at_sixteen : truncate charged.capacity ≠ 0 ∧
    ∀ visit ∈ visits step (chargeStart charged) [sensed 10,sensed 16], AbortsOnRise 10 visit.1 visit.2 := by
  have filled : truncate charged.capacity ≠ 0 := by decide +kernel
  refine ⟨filled,(aborts_iff charged filled [sensed 10,sensed 16]).mpr fun visit member above early => ?_⟩
  have temps : ∀ c ∈ [sensed 10,sensed 16], ¬ Misjudged 10 c.temp := by decide +kernel
  exact temps visit.2 (visits_input step _ _ visit member)

theorem aborts_at_twelve :
    ¬ ∀ visit ∈ visits step (chargeStart charged) [sensed 12], AbortsOnRise 10 visit.1 visit.2 := by
  intro aborts
  have early : ¬ TimedOut (chargeStart charged) (sensed 12) := fun late => absurd late.2.1 (by decide +kernel)
  have ends := aborts (chargeStart charged,sensed 12) (by simp [visits]) (by decide +kernel) early
  have ended : isCharging (check (chargeStart charged) (sensed 12)) = false := by decide +kernel
  exact absurd (ends.mp ended) (by decide +kernel)

end Mybmm.ChargeTemps
