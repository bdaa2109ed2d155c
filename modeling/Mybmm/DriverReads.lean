import Mybmm.JbdBounds
import Mybmm.JkBounds
import Mybmm.Preh

/-! The reads of the three cell monitor drivers, with everything their transports
bring, and when a pack read this way is fit for its readers. -/
namespace Mybmm.DriverReads
open Cellmon Routine

inductive DriverRead where
  | jbd (s : Jbd.JbdSession) (can : Bool) (replies : Jbd.Replies)
  | jk (data : Jk.Buffer) (replies : Jk.Replies)
  | preh (info : Preh.PrehInfo) (answers : Preh.Answers)

/-- What a read makes of a pack. The cells of a preh pack are those `preh_new`
gave it. -/
def read (pp : PackInfo) : DriverRead → Option (Int × PackInfo)
  | .jbd s can replies => returns (Jbd.jbdRead s can replies) pp
  | .jk data replies => returns (Jk.jkRead data replies) pp
  | .preh info answers => returns (Preh.prehRead info answers) (Preh.prehNew pp)

def Within : DriverRead → Prop
  | .jbd _ can replies => if can then JbdBounds.CanWithin replies else JbdBounds.SerialWithin replies
  | .jk data replies => Jk.Within data replies
  | .preh info answers => Preh.probed answers info.cmus 0 ≤ maxTemps

theorem read_safe_iff (driver : DriverRead) (pp : PackInfo) : Safe (read pp driver) ↔ Within driver := by
  cases driver with
  | jbd s can replies =>
    cases can with
    | false => exact JbdBounds.serial_safe_iff s replies pp
    | true => exact JbdBounds.can_safe_iff s replies pp
  | jk data replies => exact JkBounds.jk_safe_iff data replies pp
  | preh info answers => exact Preh.preh_safe_iff info answers pp

/-- Every frame says what the one with the counts says: forty cells, two probes. -/
def fortyCells : Jbd.Replies := fun _ _ => some [40,2]

theorem forty_cells_kept : ¬ Safe (read blankPack (.jbd ⟨0⟩ true fortyCells)) := by
  have accepted (id : Nat) : Jbd.jbdCanGetCrc fortyCells id = some (Jbd.padded [40,2]) := rfl
  intro safe
  have within := (JbdBounds.can_safe_iff ⟨0⟩ fortyCells blankPack).mp safe
  have counts := (within (Jbd.padded [40,2]) (by rw [accepted]; rfl) (by rw [accepted]; rfl) (accepted 0x104)
    (fun j _ => by rw [accepted]; rfl) (fun j _ => by rw [accepted]; rfl)).1
  exact absurd counts (by decide)

end Mybmm.DriverReads
