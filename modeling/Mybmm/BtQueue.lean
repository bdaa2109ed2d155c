import Mybmm.Support.Machine
import Mybmm.Bt

/-! bt.c as a queue: the callback puts in what is notified, a read takes out what it
has room for, each in one go. The bytes a read has no room for are gone. -/
namespace Mybmm.BtQueue
open Arrays Machine Bt

/-- The session with what was notified and what was read since the write, and the
most bytes that were ever waiting to be read. -/
structure Line where
  session : BtSession
  notified : List Byte
  returned : List Byte
  most : Nat

inductive Event where
  | notify (bytes : List Byte)
  | read (buflen : Nat)

/-- Nothing is notified while a read waits. -/
def apply (s : Line) : Event → Line
  | .notify bytes =>
    let notified := s.notified ++ bytes
    { s with
      session := notificationCb s.session bytes
      notified := notified
      most := max s.most (notified.length - s.returned.length) }
  | .read buflen =>
    let (_,out,session) := btRead s.session buflen [] []
    { s with session := session, returned := s.returned ++ out }

def step (s : Line) (event : Event) : Option Line := some (apply s event)

/-- A write on a connection, whatever the session has collected by then. -/
def written (c : Nat) (data : List Byte) (not : Bool) (buf : List Byte) (writeChar : List Byte → Bool) : Line :=
  ⟨(btWrite ⟨some c,data,not⟩ buf writeChar).2,[],[],0⟩

/-- The buffer holds what was notified and not read yet, as long as that was never
more than it has room for. -/
structure Conserved (s : Line) : Prop where
  bounded : s.session.data.length ≤ dataSize
  unread : s.most ≤ dataSize → s.returned ++ s.session.data = s.notified

def TakesAll (s : Line) (event : Event) : Prop :=
  s.most ≤ dataSize → ∀ buflen, event = .read buflen → s.session.data.length ≤ buflen

def Connected (s : Line) : Prop := s.session.c ≠ none ∧ Conserved s

/-! One event. -/

private theorem notificationCb_bounded (s : BtSession) (bytes : List Byte) (bounded : s.data.length ≤ dataSize) :
    (notificationCb s bytes).data.length ≤ dataSize := by
  simp only [notificationCb,List.length_append,List.length_take]
  omega

private theorem notificationCb_room (s : BtSession) (bytes : List Byte) (room : s.data.length + bytes.length ≤ dataSize) :
    (notificationCb s bytes).data = s.data ++ bytes := by
  simp only [notificationCb]
  rw [List.take_of_length_le (by omega)]

private theorem notify_conserved (s : Line) (bytes : List Byte) (conserved : Conserved s) :
    Conserved (apply s (.notify bytes)) where
  bounded := notificationCb_bounded s.session bytes conserved.bounded
  unread within := by
    have before : s.most ≤ dataSize := Nat.le_trans (Nat.le_max_left _ _) within
    have waiting : (s.notified ++ bytes).length - s.returned.length ≤ dataSize := Nat.le_trans (Nat.le_max_right _ _) within
    have same := conserved.unread before
    have room : s.session.data.length + bytes.length ≤ dataSize := by
      simp only [← same,List.length_append] at waiting
      omega
    simp only [apply,notificationCb_room s.session bytes room]
    rw [← List.append_assoc,same]

private theorem btRead_atomic (s : BtSession) (buflen : Nat) (open' : s.c ≠ none) :
    (btRead s buflen [] []).2 = (s.data.take buflen,{ s with data := [] }) := by
  by_cases empty : s.data = []
  · obtain ⟨c,data,not⟩ := s
    subst empty
    simp [btRead,open',btWait,notificationCb]
  · simp [btRead,open',btWait,empty]

private theorem apply_read (s : Line) (buflen : Nat) (open' : s.session.c ≠ none) : apply s (.read buflen) =
    { s with session := { s.session with data := [] }, returned := s.returned ++ s.session.data.take buflen } := by
  simp only [apply,btRead_atomic s.session buflen open']

private theorem read_conserved_iff (s : Line) (buflen : Nat) (connected : Connected s) :
    Conserved (apply s (.read buflen)) ↔ (s.most ≤ dataSize → s.session.data.length ≤ buflen) := by
  obtain ⟨open',conserved⟩ := connected
  rw [apply_read s buflen open']
  constructor
  · intro kept within
    have same := kept.unread within
    simp only [List.append_nil] at same
    rw [← conserved.unread within,List.append_cancel_left_eq] at same
    have count := congrArg List.length same
    rw [List.length_take] at count
    omega
  · intro takes
    refine ⟨Nat.zero_le _,fun within => ?_⟩
    simp only [List.append_nil]
    rw [List.take_of_length_le (takes within)]
    exact conserved.unread within

private theorem apply_c (s : Line) (event : Event) (open' : s.session.c ≠ none) :
    (apply s event).session.c = s.session.c := by
  cases event with
  | notify bytes => rfl
  | read buflen => rw [apply_read s buflen open']

private theorem apply_conserved_iff (s : Line) (event : Event) (connected : Connected s) :
    (∀ next, step s event = some next → Conserved next) ↔ TakesAll s event := by
  simp only [step,Option.some.injEq,forall_eq']
  cases event with
  | notify bytes => exact iff_of_true (notify_conserved s bytes connected.2) (by simp [TakesAll])
  | read buflen => simpa [TakesAll] using read_conserved_iff s buflen connected

/-! Runs. -/

private theorem written_connected (c : Nat) (data : List Byte) (not : Bool) (buf : List Byte)
    (writeChar : List Byte → Bool) :
    Connected (written c data not buf writeChar) := by
  refine ⟨by simp [written,btWrite],?_,fun _ => ?_⟩
  · simp [written,btWrite]
  · simp [written,btWrite]

/-- After a write nothing is lost, and nothing comes out of turn, exactly when every
read takes all there is. -/
theorem conserved_iff (c : Nat) (data : List Byte) (not : Bool) (buf : List Byte) (writeChar : List Byte → Bool)
    (events : List Event) :
    (∀ visit ∈ visits step (written c data not buf writeChar) events, ∀ next, step visit.1 visit.2 = some next →
      Conserved next) ↔
      ∀ visit ∈ visits step (written c data not buf writeChar) events, TakesAll visit.1 visit.2 := by
  refine visits_iff_while step Connected (fun s event => ∀ next, step s event = some next → Conserved next) TakesAll
    apply_conserved_iff ?kept events _ (written_connected c data not buf writeChar)
  case kept =>
    intro s event next connected takes taken
    refine ⟨?_,(apply_conserved_iff s event connected).mpr takes next taken⟩
    obtain rfl := Option.some.inj taken
    rw [apply_c s event connected.1]
    exact connected.1

/-- Three hundred bytes, notified in two pieces, and a read with room for 256. -/
def piece : List Byte := List.replicate 150 0

private theorem piece_length : piece.length = 150 := List.length_replicate

theorem long_reply_cut :
    ¬ ∀ visit ∈ visits step (written 1 [] true [] fun _ => true) [.notify piece,.notify piece,.read 256],
      ∀ next, step visit.1 visit.2 = some next → Conserved next := by
  let line : Line := ⟨⟨some 1,piece ++ piece,true⟩,piece ++ piece,[],300⟩
  have collected : apply (apply (written 1 [] true [] fun _ => true) (.notify piece)) (.notify piece) = line := by
    simp [apply,notificationCb,written,btWrite,piece_length,dataSize,line,List.take_of_length_le]
  intro all
  have reached : (line,Event.read 256) ∈
      visits step (written 1 [] true [] fun _ => true) [.notify piece,.notify piece,.read 256] := by
    simp [visits,step,collected]
  have read : Conserved (apply line (.read 256)) := all _ reached _ rfl
  rw [apply_read line 256 (by simp [line])] at read
  have unread := congrArg List.length (read.unread (by decide))
  simp [line,piece_length] at unread

end Mybmm.BtQueue
