import Mathlib.Data.Rat.Floor
import Mathlib.Tactic.Linarith
import Mybmm.InverterWrites
import Mybmm.Runs
import Mybmm.SiReads

/-! si.c: what the frame with the limits tells the inverter, when it is read the way
`si_read` reads the inverter's own frames. Floats are exact fractions here; in single
precision 4.2 times 14 stays below 58.8 and is cut off a tenth lower. -/
namespace Mybmm.SiLimits
open Config Libc Arrays Battery Charge Modules Main Written Invariant Machine Can CanData CanSessions SiReads InverterWrites

def limitsFrame (conf : Conf) : RawFrame := frameOf 0x351 (limits conf)

structure Told where
  chargeVoltage : ℚ
  chargeAmps : ℚ
  dischargeAmps : ℚ
  dischargeVoltage : ℚ

def told (frame : RawFrame) : Told :=
  let data := frameData frame
  ⟨getshort data 0 / 10,getshort data 2 / 10,getshort data 4 / 10,getshort data 6 / 10⟩

/-- A figure in whole tenths, what is left of it cut off. -/
def inTenths (v : ℚ) : ℚ := truncate (v * 10) / 10

/-- The tenths of it go into a short. -/
def Fits (v : ℚ) : Prop := -2 ^ 15 ≤ truncate (v * 10) ∧ truncate (v * 10) < 2 ^ 15

/-! Numbers cut off towards zero. -/

private theorem truncate_nonneg {x : ℚ} (positive : 0 ≤ x) : truncate x = ⌊x⌋ := by
  rw [truncate,Int.tdiv_eq_ediv_of_nonneg (Rat.num_nonneg.mpr positive),Rat.floor_def']

private theorem truncate_neg (x : ℚ) : truncate (-x) = -truncate x := by
  rw [truncate,truncate,Rat.neg_num,Rat.neg_den,Int.neg_tdiv]

private theorem truncate_near (x : ℚ) : |x - truncate x| < 1 := by
  have nonneg (y : ℚ) (positive : 0 ≤ y) : |y - truncate y| < 1 := by
    have below : (⌊y⌋ : ℚ) ≤ y := Int.floor_le y
    have above : y < ⌊y⌋ + 1 := Int.lt_floor_add_one y
    rw [truncate_nonneg positive,abs_of_nonneg (by linarith)]
    linarith
  rcases le_total 0 x with positive | negative
  · exact nonneg x positive
  · have mirrored := nonneg (-x) (by linarith)
    have same : -x - ((truncate (-x) : Int) : ℚ) = -(x - truncate x) := by
      rw [truncate_neg,Int.cast_neg]
      ring
    rwa [same,abs_neg] at mirrored

private theorem inTenths_near (v : ℚ) : |inTenths v - v| < 1 / 10 := by
  have near := truncate_near (v * 10)
  have same : inTenths v - v = -(v * 10 - truncate (v * 10)) / 10 := by
    rw [inTenths]
    ring
  rw [same,abs_div,abs_neg,abs_of_pos (by norm_num : (0 : ℚ) < 10)]
  linarith

/-! What a short brings back. -/

private theorem putshort_word (n : Int) : (BitVec.ofInt 8 (n / 2 ^ 8) ++ BitVec.ofInt 8 n : BitVec 16) =
    BitVec.ofInt 16 n := by
  apply BitVec.eq_of_toNat_eq
  rw [BitVec.toNat_append,← Nat.shiftLeft_add_eq_or_of_lt (BitVec.isLt _),Nat.shiftLeft_eq]
  simp only [BitVec.toNat_ofInt]
  omega

private theorem short_exact (n : Int) : (BitVec.ofInt 16 n).toInt = n ↔ -2 ^ 15 ≤ n ∧ n < 2 ^ 15 := by
  rw [BitVec.toInt_ofInt,Int.bmod_def]
  split <;> omega

private theorem getshort_laid {frame : RawFrame} {k : Nat} {n : Int} (inside : k + 1 < 8)
    (low : byteAt frame (8 + k) = BitVec.ofInt 8 n) (high : byteAt frame (8 + k + 1) = BitVec.ofInt 8 (n / 2 ^ 8)) :
    getshort (frameData frame) k = (BitVec.ofInt 16 n).toInt := by
  have first : (frameData frame)[k]? = some (byteAt frame (8 + k)) := by
    have bound : k < 8 := by omega
    simp [frameData,bound]
  have second : (frameData frame)[k + 1]? = some (byteAt frame (8 + k + 1)) := by
    simp [frameData,inside,Nat.add_assoc]
  rw [getshort,first,second,Option.getD_some,Option.getD_some,low,high,putshort_word]

def shorts (conf : Conf) : Told where
  chargeVoltage := (BitVec.ofInt 16 (truncate (conf.chargeVoltage * 10))).toInt / 10
  chargeAmps := (BitVec.ofInt 16 (truncate (conf.chargeAmps * 10))).toInt / 10
  dischargeAmps := (BitVec.ofInt 16 (truncate (conf.dischargeAmps * 10))).toInt / 10
  dischargeVoltage := (BitVec.ofInt 16 (truncate (conf.dischargeVoltage * 10))).toInt / 10

private theorem told_shorts (conf : Conf) : told (limitsFrame conf) = shorts conf := by
  have first : getshort (frameData (limitsFrame conf)) 0 =
      (BitVec.ofInt 16 (truncate (conf.chargeVoltage * 10))).toInt := getshort_laid (by omega) rfl rfl
  have second : getshort (frameData (limitsFrame conf)) 2 =
      (BitVec.ofInt 16 (truncate (conf.chargeAmps * 10))).toInt := getshort_laid (by omega) rfl rfl
  have third : getshort (frameData (limitsFrame conf)) 4 =
      (BitVec.ofInt 16 (truncate (conf.dischargeAmps * 10))).toInt := getshort_laid (by omega) rfl rfl
  have fourth : getshort (frameData (limitsFrame conf)) 6 =
      (BitVec.ofInt 16 (truncate (conf.dischargeVoltage * 10))).toInt := getshort_laid (by omega) rfl rfl
  rw [told,first,second,third,fourth]
  rfl

private theorem short_told (v : ℚ) : ((BitVec.ofInt 16 (truncate (v * 10))).toInt / 10 : ℚ) = inTenths v ↔ Fits v := by
  rw [inTenths,div_left_inj' (by norm_num),Int.cast_inj,short_exact,Fits]

/-- What the inverter is told by what a pass writes. -/
structure Conveyed (w : Conf) : Prop where
  id : canId (limitsFrame w) = 0x351
  chargeVoltage : (told (limitsFrame w)).chargeVoltage = inTenths w.chargeVoltage ↔ Fits w.chargeVoltage
  chargeAmps : (told (limitsFrame w)).chargeAmps = inTenths w.chargeAmps ↔ Fits w.chargeAmps
  dischargeAmps : (told (limitsFrame w)).dischargeAmps = inTenths w.dischargeAmps ↔ Fits w.dischargeAmps
  dischargeVoltage : (told (limitsFrame w)).dischargeVoltage = inTenths w.dischargeVoltage ↔ Fits w.dischargeVoltage
  off : isCharging w = false → (told (limitsFrame w)).chargeAmps = 1 / 10
  setPoint : isCharging w = false ∨ w.chargeMode = 2 → Fits (setPoint w) →
    |(told (limitsFrame w)).chargeVoltage - setPoint w| < 1 / 10
  dischargeSetPoint : Fits (dischargeSetPoint w) →
    |(told (limitsFrame w)).dischargeVoltage - dischargeSetPoint w| < 1 / 10

private theorem conveyed_steady {w : Conf} (steady : Steady w) : Conveyed w := by
  have sound := steady.sound
  constructor
  · change (BitVec.extractLsb' 24 8 (0x351 : BitVec 32) ++ BitVec.extractLsb' 16 8 (0x351 : BitVec 32) ++
      BitVec.extractLsb' 8 8 (0x351 : BitVec 32) ++ BitVec.extractLsb' 0 8 (0x351 : BitVec 32) : BitVec 32) = 0x351
    decide
  · rw [told_shorts]
    exact short_told w.chargeVoltage
  · rw [told_shorts]
    exact short_told w.chargeAmps
  · rw [told_shorts]
    exact short_told w.dischargeAmps
  · rw [told_shorts]
    exact short_told w.dischargeVoltage
  · intro idle
    have trickle : truncate (0.1 * 10) = 1 := by decide +kernel
    rw [told_shorts,shorts,(sound.stopped idle).1,trickle]
    norm_num
  · intro settled fits
    have point : w.chargeVoltage = setPoint w := by
      cases charging : isCharging w with
      | false => exact (sound.stopped charging).2
      | true => exact sound.constant charging (settled.resolve_left (by simp [charging]))
    have read := (short_told (setPoint w)).mpr fits
    rw [told_shorts,shorts,point,read]
    exact inTenths_near _
  · intro fits
    have read := (short_told (dischargeSetPoint w)).mpr fits
    rw [told_shorts,shorts,sound.discharge,read]
    exact inTenths_near _

private theorem written_steady {i : Tick} {s : Loop} {w : Conf} (steady : Steady s.conf)
    (written : (pass i s).written = some w) :
    Steady w := by
  rw [written_eq] at written
  split at written
  · obtain rfl := Option.some.inj written
    exact softStart_steady s.startup _ (decided_steady i s steady)
  · contradiction

/-- In every run, whatever the devices answer and however often the file is read again. -/
theorem limits_conveyed (args : Args) (env : Env) (s : Loop) (started : start args env = some s) (inputs : List Tick) :
    ∀ visit ∈ visits step s inputs, ∀ w, (pass visit.2 visit.1).written = some w → Conveyed w := by
  intro visit member w written
  have steady := visits_invariant step (fun s => Steady s.conf) Runs.step_steady inputs s
    (start_steady args env s started).1 visit member
  exact conveyed_steady (written_steady steady written)

theorem limits_conveyed_sample : start Runs.bankArgs Runs.bankEnv = some Runs.booted ∧
    ∀ visit ∈ visits step Runs.booted [Runs.calm,Runs.calm,Runs.calm], ∀ w,
      (pass visit.2 visit.1).written = some w → Conveyed w :=
  ⟨Runs.booted_started,limits_conveyed Runs.bankArgs Runs.bankEnv Runs.booted Runs.booted_started _⟩

end Mybmm.SiLimits
