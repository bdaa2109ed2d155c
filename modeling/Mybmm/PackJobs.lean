import Mybmm.Support.Jobs
import Mybmm.Packs

/-! pack.c: `pack_update` as a thread of the pool runs it, one statement at a time. -/
namespace Mybmm.PackJobs
open Config Flags Libc Packs Jobs

/-- The figures of a reading, stored one after another. -/
def writes (r : PackReading) : List (Pack → Pack) :=
  [fun pp => { pp with state := put pp.state .charging r.charging },
    fun pp => { pp with state := put pp.state .discharging r.discharging },
    fun pp => { pp with state := put pp.state .balancing r.balancing },
    fun pp => { pp with capacity := r.capacity },
    fun pp => { pp with voltage := r.voltage },
    fun pp => { pp with current := r.current },
    fun pp => { pp with temps := r.temps },
    fun pp => { pp with cellvolt := r.cellvolt }]

/-- The statement a thread comes to next. A read that has begun has figures left to
store, and then returns zero or not; `total` is the thread's own. -/
inductive Update where
  | opening
  | reading (left : List (Pack → Pack)) (answers : Bool)
  | closing (answers : Bool)
  | marking
  | greatest
  | least
  | scanning (i : Nat) (total : ℚ)
  | differing (total : ℚ)
  | averaging (total : ℚ)
  | replacing (total : ℚ)
  | returned

def part (cellCritHigh : ℚ) (reply : PackReply) : Update → Pack → Option (Update × Pack)
  | .opening, pp =>
    match reply with
    | .closed => some (.returned,pp)
    | .failed r => some (.reading (writes r) false,pp)
    | .read r => some (.reading (writes r) true,pp)
  | .reading (write :: left) answers, pp => some (.reading left answers,write pp)
  | .reading [] answers, pp => some (.closing answers,pp)
  | .closing answers, pp => some (if answers then .marking else .returned,pp)
  | .marking, pp => some (.greatest,{ pp with state := set pp.state PackState.updated })
  | .greatest, pp => some (.least,{ pp with cellMax := 0 })
  | .least, pp => some (.scanning 0 0,{ pp with cellMin := cellCritHigh })
  | .scanning i total, pp =>
    match pp.cellvolt[i]? with
    | none => some (.differing total,pp)
    | some v =>
      let pp := { pp with cellMin := if v < pp.cellMin then v else pp.cellMin }
      let pp := { pp with cellMax := if v > pp.cellMax then v else pp.cellMax }
      some (.scanning (i + 1) (total + v),pp)
  | .differing total, pp => some (.averaging total,{ pp with cellDiff := pp.cellMax - pp.cellMin })
  | .averaging total, pp => some (.replacing total,{ pp with cellAvg := total / pp.cellvolt.length })
  | .replacing total, pp =>
    some (.returned,{ pp with voltage := if truncate pp.voltage = 0 then total else pp.voltage })
  | .returned, _ => none

variable {cellCritHigh : ℚ} {reply : PackReply}

private theorem reading_ends (left : List (Pack → Pack)) (answers : Bool) {pp after : Pack}
    (later : Ends (part cellCritHigh reply) (.closing answers) (left.foldl (fun pp write => write pp) pp) after) :
    Ends (part cellCritHigh reply) (.reading left answers) pp after := by
  induction left generalizing pp with
  | nil => exact .next rfl later
  | cons write left ih => exact .next rfl (ih later)

/-- What the last statements leave, once the cells have been gone through. -/
def closed (extent : Extent) (pp : Pack) : Pack :=
  { pp with
    cellMin := extent.min
    cellMax := extent.max
    cellDiff := extent.max - extent.min
    cellAvg := extent.total / pp.cellvolt.length
    voltage := if truncate pp.voltage = 0 then extent.total else pp.voltage }

private theorem scanning_ends (left : List ℚ) {i : Nat} {total : ℚ} {pp : Pack} (rest : pp.cellvolt.drop i = left) :
    Ends (part cellCritHigh reply) (.scanning i total) pp
      (closed (left.foldl Extent.add ⟨pp.cellMin,pp.cellMax,total⟩) pp) := by
  induction left generalizing i total pp with
  | nil =>
    have past : pp.cellvolt[i]? = none := List.getElem?_eq_none (List.drop_eq_nil_iff.mp rest)
    have ended : part cellCritHigh reply (.scanning i total) pp = some (.differing total,pp) := by
      simp only [part,past]
    exact .next ended (.next rfl (.next rfl (.next rfl (.last rfl))))
  | cons v left ih =>
    have here : pp.cellvolt[i]? = some v := by
      rw [← List.head?_drop,rest]
      rfl
    have behind : pp.cellvolt.drop (i + 1) = left := by
      rw [← List.tail_drop,rest]
      rfl
    let next : Pack :=
      { pp with
        cellMin := if v < pp.cellMin then v else pp.cellMin
        cellMax := if v > pp.cellMax then v else pp.cellMax }
    have taken : part cellCritHigh reply (.scanning i total) pp = some (.scanning (i + 1) (total + v),next) := by
      simp only [part,here]
      rfl
    have later : Ends (part cellCritHigh reply) (.scanning (i + 1) (total + v)) next
        (closed (left.foldl Extent.add ⟨next.cellMin,next.cellMax,total + v⟩) next) := ih behind
    exact .next taken later

/-- Alone, a thread makes of the pack what `packUpdate` says. -/
theorem part_ends (cellCritHigh : ℚ) (reply : PackReply) (pp : Pack) :
    Ends (part cellCritHigh reply) .opening pp (packUpdate cellCritHigh reply pp) := by
  cases reply with
  | closed => exact .next rfl (.last rfl)
  | failed r => exact .next rfl (reading_ends _ _ (.next rfl (.last rfl)))
  | read r =>
    refine .next rfl (reading_ends _ _ (.next rfl (.next rfl (.next rfl (.next rfl ?_)))))
    exact scanning_ends (r.store pp).cellvolt rfl

end Mybmm.PackJobs
