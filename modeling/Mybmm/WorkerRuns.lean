import Mybmm.WorkerPool

/-! What holds of a pool in every state it comes to, whoever takes the turns: the
flags, the work and the place of each worker go together, and what has been accepted
stays in one slot until it is completed. -/
namespace Mybmm.WorkerRuns
open Flags Machine WorkerPool

variable {δ : Type}

/-- How far the work has come that a slot is busy with. -/
def Stage (log : Log δ) (n : Nat) (work : δ) : Place δ → Prop
  | .running m other => (m,other) = (n,work) ∧ n ∈ log.started.map Prod.fst ∧ n ∉ log.completed
  | .ran => n ∈ log.completed
  | _ => n ∉ log.started.map Prod.fst

structure Tended (log : Log δ) (wp : WorkerInfo δ) : Prop where
  free : wp.busy = false → wp.place ∈ [.ready,.asleep,.exited] ∧ ∀ n work, wp.work = some (n,work) → n ∈ log.completed
  taken : wp.busy = true → ∃ n work, wp.work = some (n,work) ∧ Stage log n work wp.place

structure Sound (count : Nat) (workers : Nat → WorkerInfo δ) (log : Log δ) : Prop where
  tended : ∀ k, Tended log (workers k)
  issued : ∀ k n work, (workers k).work = some (n,work) → log.accepted[n]? = some work
  own : ∀ j k n one two, (workers j).work = some (n,one) → (workers k).work = some (n,two) → j = k
  once : (log.started.map Prod.fst).Nodup
  known : ∀ n work, (n,work) ∈ log.started → log.accepted[n]? = some work
  begun : ∀ n ∈ log.completed, n ∈ log.started.map Prod.fst
  held : ∀ n < log.accepted.length, n ∉ log.completed →
    ∃ k < count, (workers k).busy ∧ ∃ work, (workers k).work = some (n,work)

def Holds (pool : Pool δ) (n k : Nat) : Prop :=
  k < pool.count ∧ (pool.workers k).busy ∧ ∃ work, (pool.workers k).work = some (n,work)

/-- Of what a wait is for, all that is not completed lies ahead of it, as long as it
has found nothing busy. -/
def Ahead (pool : Pool δ) : Doing δ → Prop
  | .wait _ x busy since => since ≤ pool.log.accepted.length ∧
    (busy = 0 → ∀ n < since, n ∉ pool.log.completed → ∃ k, x ≤ k ∧ Holds pool n k)
  | _ => True

structure Inv (pool : Pool δ) : Prop where
  sound : Sound pool.count pool.workers pool.log
  ahead : ∀ c, Ahead pool (pool.callers c).doing

/-! A change of one slot that keeps its work. -/

def Agree (before after : Log δ) (n : Nat) : Prop :=
  (n ∈ after.started.map Prod.fst ↔ n ∈ before.started.map Prod.fst) ∧ (n ∈ after.completed ↔ n ∈ before.completed)

private theorem tended_agree {before after : Log δ} {wp : WorkerInfo δ} (tended : Tended before wp)
    (agree : ∀ n work, wp.work = some (n,work) → Agree before after n) : Tended after wp := by
  constructor
  · intro free
    obtain ⟨place,finished⟩ := tended.free free
    exact ⟨place,fun n work has => (agree n work has).2.mpr (finished n work has)⟩
  · intro taken
    obtain ⟨n,work,has,stage⟩ := tended.taken taken
    obtain ⟨started,completed⟩ := agree n work has
    refine ⟨n,work,has,?_⟩
    cases place : wp.place with
    | running m other =>
      rw [place] at stage
      exact ⟨stage.1,started.mpr stage.2.1,fun now => stage.2.2 (completed.mp now)⟩
    | ran =>
      rw [place] at stage
      exact completed.mpr stage
    | ready | asleep | picked | exited =>
      rw [place] at stage
      exact fun now => stage (started.mp now)

/-- What a turn does to slot `k` and to the log. -/
structure Turned (workers : Nat → WorkerInfo δ) (log : Log δ) (k : Nat) (wp : WorkerInfo δ) (after : Log δ) : Prop where
  work : wp.work = (workers k).work
  accepted : after.accepted = log.accepted
  tended : Tended after wp
  agree : ∀ n, (∀ work, (workers k).work ≠ some (n,work)) → Agree log after n
  completed : ∀ n ∈ log.completed, n ∈ after.completed
  busy : ∀ n work, wp.work = some (n,work) → n ∉ after.completed → (workers k).busy → wp.busy
  once : (after.started.map Prod.fst).Nodup
  known : ∀ n work, (n,work) ∈ after.started → log.accepted[n]? = some work
  begun : ∀ n ∈ after.completed, n ∈ after.started.map Prod.fst

theorem turned_holds {pool : Pool δ} {k : Nat} {wp : WorkerInfo δ} {after : Log δ}
    (turned : Turned pool.workers pool.log k wp after) (n j : Nat) (left : n ∉ after.completed)
    (holds : Holds pool n j) : Holds { pool.put k wp with log := after } n j := by
  obtain ⟨inside,busy,work,has⟩ := holds
  by_cases here : j = k
  · subst here
    have own : wp.work = some (n,work) := turned.work.trans has
    refine ⟨inside,?_,work,?_⟩
    · simpa [Pool.put] using turned.busy n work own left busy
    · simpa [Pool.put] using own
  · exact ⟨inside,by simpa [Pool.put,here] using busy,work,by simpa [Pool.put,here] using has⟩

theorem turned_works {workers : Nat → WorkerInfo δ} {log : Log δ} {k : Nat} {wp : WorkerInfo δ} {after : Log δ}
    (turned : Turned workers log k wp after) (j : Nat) : (Function.update workers k wp j).work = (workers j).work := by
  by_cases here : j = k
  · subst here
    simp [turned.work]
  · simp [here]

private theorem turned_sound {pool : Pool δ} {k : Nat} {wp : WorkerInfo δ} {after : Log δ}
    (sound : Sound pool.count pool.workers pool.log) (turned : Turned pool.workers pool.log k wp after) :
    Sound pool.count (pool.put k wp).workers after where
  tended := by
    intro j
    by_cases here : j = k
    · subst here
      simpa [Pool.put] using turned.tended
    · simp only [Pool.put,Function.update_of_ne here]
      refine tended_agree (sound.tended j) fun n work has => turned.agree n fun other also => here ?_
      exact sound.own j k n work other has also
  issued := by
    intro j n work has
    rw [Pool.put,turned_works turned] at has
    rw [turned.accepted]
    exact sound.issued j n work has
  own := by
    intro i j n one two first second
    rw [Pool.put,turned_works turned] at first second
    exact sound.own i j n one two first second
  once := turned.once
  known := by
    rw [turned.accepted]
    exact turned.known
  begun := turned.begun
  held := by
    intro n issued left
    rw [turned.accepted] at issued
    obtain ⟨j,holds⟩ := sound.held n issued fun done => left (turned.completed n done)
    exact ⟨j,turned_holds turned n j left holds⟩

theorem turned_inv {pool : Pool δ} {k : Nat} {wp : WorkerInfo δ} {after : Log δ} (inv : Inv pool)
    (turned : Turned pool.workers pool.log k wp after) : Inv { pool.put k wp with log := after } where
  sound := turned_sound inv.sound turned
  ahead := by
    intro c
    have before := inv.ahead c
    cases doing : (pool.callers c).doing with
    | wait timeout x busy since =>
      rw [doing] at before
      simp only [Pool.put,doing,Ahead]
      refine ⟨by rw [turned.accepted]; exact before.1,fun none n early left => ?_⟩
      obtain ⟨j,beyond,holds⟩ := before.2 none n early fun done => left (turned.completed n done)
      exact ⟨j,beyond,turned_holds turned n j left holds⟩
    | idle | exec work x | finish timeout x => simp [Pool.put,doing,Ahead]

private theorem turned_quiet {pool : Pool δ} {k : Nat} {wp : WorkerInfo δ} (inv : Inv pool)
    (tended : Tended pool.log wp) (work : wp.work = (pool.workers k).work)
    (busy : (pool.workers k).busy → wp.busy) : Turned pool.workers pool.log k wp pool.log where
  work := work
  accepted := rfl
  tended := tended
  agree := fun _ _ => ⟨Iff.rfl,Iff.rfl⟩
  completed := fun _ done => done
  busy := fun _ _ _ _ was => busy was
  once := inv.sound.once
  known := inv.sound.known
  begun := inv.sound.begun

/-! The turns of a worker. -/

theorem busy_of_place {log : Log δ} {wp : WorkerInfo δ} (tended : Tended log wp)
    (place : wp.place ∉ [.ready,.asleep,.exited]) : wp.busy = true := by
  by_contra free
  exact place (tended.free (Bool.not_eq_true _ ▸ free)).1

private theorem look_tended {log : Log δ} {wp : WorkerInfo δ} (tended : Tended log wp)
    (waits : wp.place = .ready ∨ wp.place = .asleep) : Tended log { wp with place := look wp } := by
  constructor
  · intro free
    refine ⟨?_,(tended.free free).2⟩
    have idle : wp.busy = false := free
    by_cases done : wp.done <;> simp [look,done,idle]
  · intro taken
    obtain ⟨n,work,has,stage⟩ := tended.taken taken
    have busy : wp.busy = true := taken
    refine ⟨n,work,has,?_⟩
    have waiting : n ∉ log.started.map Prod.fst := by
      rcases waits with place | place <;> rw [place] at stage <;> exact stage
    by_cases done : wp.done
    · simpa [look,done,Stage] using waiting
    · simpa [look,done,busy,Stage] using waiting

private theorem started_turned {pool : Pool δ} {k n : Nat} {work : δ} (inv : Inv pool)
    (place : (pool.workers k).place = .picked) (has : (pool.workers k).work = some (n,work)) :
    Turned pool.workers pool.log k { pool.workers k with place := .running n work }
      { pool.log with started := pool.log.started ++ [(n,work)] } := by
  have tended := inv.sound.tended k
  have busy : (pool.workers k).busy = true := busy_of_place tended (by simp [place])
  obtain ⟨m,other,also,stage⟩ := tended.taken busy
  obtain ⟨rfl,rfl⟩ : m = n ∧ other = work := by
    rw [has] at also
    exact ⟨(Prod.mk.inj (Option.some.inj also)).1.symm,(Prod.mk.inj (Option.some.inj also)).2.symm⟩
  rw [place] at stage
  have fresh : m ∉ pool.log.started.map Prod.fst := stage
  refine
    { work := rfl
      accepted := rfl
      tended := ⟨fun free => absurd (busy.symm.trans free) (by simp),fun _ => ?_⟩
      agree := fun i absent => ⟨?_,Iff.rfl⟩
      completed := fun _ done => done
      busy := fun _ _ _ _ was => was
      once := ?_
      known := ?_
      begun := ?_ }
  · exact ⟨m,other,has,rfl,by simp,fun done => fresh (inv.sound.begun m done)⟩
  · have apart : i ≠ m := fun same => absent other (same ▸ has)
    simp [apart]
  · rw [List.map_append,List.nodup_append]
    refine ⟨inv.sound.once,by simp,fun i before j last same => ?_⟩
    obtain rfl : j = m := by simpa using last
    exact fresh (same ▸ before)
  · intro i what member
    rcases List.mem_append.mp member with before | last
    · exact inv.sound.known i what before
    · obtain ⟨rfl,rfl⟩ : i = m ∧ what = other := by simpa using last
      exact inv.sound.issued k i what has
  · intro i done
    rw [List.map_append]
    exact List.mem_append_left _ (inv.sound.begun i done)

private theorem completed_turned {pool : Pool δ} {k n : Nat} {work : δ} (inv : Inv pool)
    (place : (pool.workers k).place = .running n work) :
    Turned pool.workers pool.log k { pool.workers k with place := .ran }
      { pool.log with completed := pool.log.completed ++ [n] } := by
  have tended := inv.sound.tended k
  have busy : (pool.workers k).busy = true := busy_of_place tended (by simp [place])
  obtain ⟨m,other,has,stage⟩ := tended.taken busy
  rw [place] at stage
  obtain ⟨same,started,_⟩ := stage
  obtain ⟨rfl,rfl⟩ := Prod.mk.inj same
  refine
    { work := rfl
      accepted := rfl
      tended := ⟨fun free => absurd (busy.symm.trans free) (by simp),fun _ => ?_⟩
      agree := fun i absent => ⟨Iff.rfl,?_⟩
      completed := fun _ done => List.mem_append_left _ done
      busy := fun _ _ _ _ was => was
      once := inv.sound.once
      known := inv.sound.known
      begun := ?_ }
  · exact ⟨n,work,has,by simp [Stage]⟩
  · have apart : i ≠ n := fun same => absent work (same ▸ has)
    simp [apart]
  · intro i done
    rcases List.mem_append.mp done with before | last
    · exact inv.sound.begun i before
    · obtain rfl : i = n := by simpa using last
      exact started

private theorem cleared_turned {pool : Pool δ} {k : Nat} (inv : Inv pool) (place : (pool.workers k).place = .ran) :
    Turned pool.workers pool.log k
      { pool.workers k with flags := clear (pool.workers k).flags WorkerFlag.busy, place := .ready } pool.log := by
  have tended := inv.sound.tended k
  have busy : (pool.workers k).busy = true := busy_of_place tended (by simp [place])
  obtain ⟨n,work,has,stage⟩ := tended.taken busy
  rw [place] at stage
  have finished (m : Nat) (other : δ) (also : (pool.workers k).work = some (m,other)) : m ∈ pool.log.completed := by
    rw [has] at also
    obtain ⟨rfl,_⟩ := Prod.mk.inj (Option.some.inj also)
    exact stage
  refine
    { work := rfl
      accepted := rfl
      tended := ⟨fun _ => ⟨by simp,finished⟩,fun taken => ?_⟩
      agree := fun _ _ => ⟨Iff.rfl,Iff.rfl⟩
      completed := fun _ done => done
      busy := fun m other also left _ => absurd (finished m other also) left
      once := inv.sound.once
      known := inv.sound.known
      begun := inv.sound.begun }
  simp [WorkerInfo.busy] at taken

/-- What the turn of worker `k` may be. -/
inductive WorkerTurn (pool : Pool δ) (k : Nat) : Pool δ → Prop where
  | looks (waits : (pool.workers k).place = .ready ∨ (pool.workers k).place = .asleep) :
      WorkerTurn pool k (pool.put k { pool.workers k with place := look (pool.workers k) })
  | starts (n : Nat) (work : δ) (place : (pool.workers k).place = .picked)
      (has : (pool.workers k).work = some (n,work)) :
      WorkerTurn pool k { pool.put k { pool.workers k with place := .running n work } with
        log := { pool.log with started := pool.log.started ++ [(n,work)] } }
  | completes (n : Nat) (work : δ) (place : (pool.workers k).place = .running n work) :
      WorkerTurn pool k { pool.put k { pool.workers k with place := .ran } with
        log := { pool.log with completed := pool.log.completed ++ [n] } }
  | clears (place : (pool.workers k).place = .ran) :
      WorkerTurn pool k (pool.put k
        { pool.workers k with flags := clear (pool.workers k).flags WorkerFlag.busy, place := .ready })

theorem worker_turn {pool : Pool δ} {k : Nat} {next : Pool δ} (taken : worker pool k = some next) :
    k < pool.count ∧ WorkerTurn pool k next := by
  unfold worker at taken
  by_cases beyond : pool.count ≤ k
  · simp [beyond] at taken
  rw [if_neg beyond] at taken
  refine ⟨Nat.lt_of_not_le beyond,?_⟩
  cases place : (pool.workers k).place with
  | ready | asleep =>
    simp only [place] at taken
    obtain rfl := Option.some.inj taken
    exact .looks (by simp [place])
  | picked =>
    simp only [place] at taken
    obtain ⟨⟨n,work⟩,has,rfl⟩ := Option.map_eq_some_iff.mp taken
    exact .starts n work place has
  | running n work =>
    simp only [place] at taken
    obtain rfl := Option.some.inj taken
    exact .completes n work place
  | ran =>
    simp only [place] at taken
    obtain rfl := Option.some.inj taken
    exact .clears place
  | exited => simp [place] at taken

theorem worker_turned {pool : Pool δ} {k : Nat} {next : Pool δ} (inv : Inv pool) (turn : WorkerTurn pool k next) :
    ∃ wp after, Turned pool.workers pool.log k wp after ∧ next = { pool.put k wp with log := after } := by
  cases turn with
  | looks waits => exact ⟨_,_,turned_quiet inv (look_tended (inv.sound.tended k) waits) rfl id,rfl⟩
  | starts n work place has => exact ⟨_,_,started_turned inv place has,rfl⟩
  | completes n work place => exact ⟨_,_,completed_turned inv place,rfl⟩
  | clears place => exact ⟨_,_,cleared_turned inv place,rfl⟩

private theorem worker_inv (pool : Pool δ) (k : Nat) (next : Pool δ) (inv : Inv pool) (taken : worker pool k = some next) :
    Inv next := by
  obtain ⟨wp,after,turned,rfl⟩ := worker_turned inv (worker_turn taken).2
  exact turned_inv inv turned

/-! The turns of a caller. -/

theorem callers_inv {pool : Pool δ} (inv : Inv pool) (c : Nat) (who : Caller δ) (ahead : Ahead pool who.doing) :
    Inv { pool with callers := Function.update pool.callers c who } where
  sound := inv.sound
  ahead := by
    intro other
    have same (doing : Doing δ) :
        Ahead { pool with callers := Function.update pool.callers c who } doing ↔ Ahead pool doing := by
      cases doing <;> exact Iff.rfl
    rw [same]
    by_cases own : other = c
    · subst own
      simpa using ahead
    · simpa [own] using inv.ahead other

private theorem goOn_inv {pool : Pool δ} (inv : Inv pool) (c : Nat) (doing : Doing δ) (ahead : Ahead pool doing) :
    Inv (pool.goOn c doing) := callers_inv inv c { pool.callers c with doing := doing } ahead

theorem ahead_restart {pool : Pool δ} (inv : Inv pool) (timeout : Int) (since : Nat)
    (issued : since ≤ pool.log.accepted.length) : Ahead pool (.wait timeout 0 0 since) := by
  refine ⟨issued,fun _ n early left => ?_⟩
  obtain ⟨k,holds⟩ := inv.sound.held n (by omega) left
  exact ⟨k,Nat.zero_le k,holds⟩

def given (pool : Pool δ) (x : Nat) (work : δ) : WorkerInfo δ where
  flags := set (pool.workers x).flags WorkerFlag.busy
  work := some (pool.log.accepted.length,work)
  place := signal (pool.workers x).place

def accepting (log : Log δ) (work : δ) : Log δ := { log with accepted := log.accepted ++ [work] }

section Accept

variable {pool : Pool δ} {x : Nat} (work : δ)

private theorem given_tended (inv : Inv pool) (free : (pool.workers x).busy = false) :
    Tended (accepting pool.log work) (given pool x work) := by
  have fresh : pool.log.accepted.length ∉ pool.log.started.map Prod.fst := by
    intro member
    obtain ⟨⟨n,other⟩,started,same⟩ := List.mem_map.mp member
    obtain rfl : n = pool.log.accepted.length := same
    have known := inv.sound.known _ _ started
    simp at known
  constructor
  · intro idle
    simp [given,WorkerInfo.busy] at idle
  · intro _
    refine ⟨_,work,rfl,?_⟩
    have place := ((inv.sound.tended x).free free).1
    simp only [List.mem_cons,List.not_mem_nil,or_false] at place
    rcases place with place | place | place <;> simpa [given,place,signal,Stage,accepting] using fresh

theorem accepting_holds (free : (pool.workers x).busy = false) (n k : Nat) (holds : Holds pool n k) :
    Holds { pool.put x (given pool x work) with log := accepting pool.log work } n k := by
  obtain ⟨inside,busy,other,has⟩ := holds
  have apart : k ≠ x := by
    rintro rfl
    rw [free] at busy
    contradiction
  exact ⟨inside,by simpa [Pool.put,apart] using busy,other,by simpa [Pool.put,apart] using has⟩

private theorem accepting_sound (inv : Inv pool) (inside : x < pool.count) (free : (pool.workers x).busy = false) :
    Sound pool.count (pool.put x (given pool x work)).workers (accepting pool.log work) where
  tended := by
    intro j
    by_cases here : j = x
    · subst here
      simpa [Pool.put] using given_tended work inv free
    · simp only [Pool.put,Function.update_of_ne here]
      exact tended_agree (inv.sound.tended j) fun _ _ _ => ⟨Iff.rfl,Iff.rfl⟩
  issued := by
    intro j n other has
    by_cases here : j = x
    · subst here
      obtain ⟨rfl,rfl⟩ : pool.log.accepted.length = n ∧ work = other := by simpa [Pool.put,given] using has
      simp [accepting]
    · have before := inv.sound.issued j n other (by simpa [Pool.put,here] using has)
      obtain ⟨bound,_⟩ := List.getElem?_eq_some_iff.mp before
      simpa [accepting,List.getElem?_append_left bound] using before
  own := by
    have news (j n : Nat) (other : δ) (apart : j ≠ x) (has : (pool.workers j).work = some (n,other)) :
        n ≠ pool.log.accepted.length := by
      obtain ⟨bound,_⟩ := List.getElem?_eq_some_iff.mp (inv.sound.issued j n other has)
      omega
    intro j k n one two first second
    by_cases left : j = x <;> by_cases right : k = x
    · exact left.trans right.symm
    · subst left
      simp only [Pool.put,Function.update_self,Function.update_of_ne right] at first second
      exact absurd (Prod.mk.inj (Option.some.inj first)).1.symm (news k n two right second)
    · subst right
      simp only [Pool.put,Function.update_self,Function.update_of_ne left] at first second
      exact absurd (Prod.mk.inj (Option.some.inj second)).1.symm (news j n one left first)
    · simp only [Pool.put,Function.update_of_ne left,Function.update_of_ne right] at first second
      exact inv.sound.own j k n one two first second
  once := inv.sound.once
  known := by
    intro n other started
    have before := inv.sound.known n other started
    obtain ⟨bound,_⟩ := List.getElem?_eq_some_iff.mp before
    simpa [accepting,List.getElem?_append_left bound] using before
  begun := inv.sound.begun
  held := by
    intro n issued left
    by_cases last : n = pool.log.accepted.length
    · subst last
      exact ⟨x,inside,by simp [Pool.put,given,WorkerInfo.busy],work,by simp [Pool.put,given]⟩
    · simp only [accepting,List.length_append,List.length_singleton] at issued
      obtain ⟨k,holds⟩ := inv.sound.held n (by omega) left
      exact ⟨k,accepting_holds work free n k holds⟩

private theorem accepting_inv (inv : Inv pool) (inside : x < pool.count) (free : (pool.workers x).busy = false) :
    Inv { pool.put x (given pool x work) with log := accepting pool.log work } where
  sound := accepting_sound work inv inside free
  ahead := by
    intro c
    have before := inv.ahead c
    cases doing : (pool.callers c).doing with
    | wait timeout y busy since =>
      rw [doing] at before
      simp only [Pool.put,doing,Ahead,accepting,List.length_append]
      refine ⟨Nat.le_add_right_of_le before.1,fun none n early left => ?_⟩
      obtain ⟨k,beyond,holds⟩ := before.2 none n early left
      exact ⟨k,beyond,accepting_holds work free n k holds⟩
    | idle | exec work x | finish timeout x => simp [Pool.put,doing,Ahead]

end Accept

private theorem workerExec_inv {pool : Pool δ} (inv : Inv pool) (c : Nat) (work : δ) (x : Nat) :
    Inv (workerExec pool c work x) := by
  unfold workerExec
  dsimp only
  by_cases beyond : pool.count ≤ x
  · rw [if_pos beyond]
    exact goOn_inv inv c _ trivial
  rw [if_neg beyond]
  by_cases busy : (pool.workers x).busy
  · rw [if_pos busy]
    exact goOn_inv inv c _ trivial
  · rw [if_neg busy]
    exact goOn_inv (accepting_inv work inv (by omega) (Bool.not_eq_true _ ▸ busy)) c .idle trivial

private theorem workerWait_inv {pool : Pool δ} (inv : Inv pool) (c : Nat) (timeout : Int) (x busy since : Nat)
    (expired : Bool) (ahead : Ahead pool (.wait timeout x busy since)) :
    Inv (workerWait pool c timeout x busy since expired) := by
  unfold workerWait
  split
  · refine goOn_inv inv c _ ⟨ahead.1,fun none n early left => ?_⟩
    by_cases found : (pool.workers x).busy
    · simp [found] at none
    · rw [if_neg found] at none
      obtain ⟨k,beyond,holds⟩ := ahead.2 none n early left
      have apart : k ≠ x := fun same => found (same ▸ holds.2.1)
      exact ⟨k,by omega,holds⟩
  · split
    · exact goOn_inv inv c _ trivial
    · exact goOn_inv inv c _ (ahead_restart inv timeout since ahead.1)

private theorem signal_tended {log : Log δ} {wp : WorkerInfo δ} (tended : Tended log wp) (flags : BitVec 16)
    (busy : check flags WorkerFlag.busy = wp.busy) :
    Tended log { wp with flags := flags, place := signal wp.place } := by
  constructor
  · intro free
    obtain ⟨place,finished⟩ := tended.free (busy.symm.trans free)
    refine ⟨?_,finished⟩
    simp only [List.mem_cons,List.not_mem_nil,or_false] at place
    rcases place with place | place | place <;> simp [place,signal]
  · intro taken
    obtain ⟨n,work,has,stage⟩ := tended.taken (busy.symm.trans taken)
    refine ⟨n,work,has,?_⟩
    cases place : wp.place <;> rw [place] at stage <;> exact stage

def marked (wp : WorkerInfo δ) : WorkerInfo δ :=
  { wp with flags := set wp.flags WorkerFlag.done, place := signal wp.place }

theorem marked_turned {pool : Pool δ} (inv : Inv pool) (x : Nat) :
    Turned pool.workers pool.log x (marked (pool.workers x)) pool.log := by
  have busy : check (set (pool.workers x).flags WorkerFlag.done) WorkerFlag.busy = (pool.workers x).busy := by
    simp [WorkerInfo.busy]
  exact turned_quiet inv (signal_tended (inv.sound.tended x) _ busy) rfl fun was => busy.trans was

private theorem workerFinish_inv {pool : Pool δ} (inv : Inv pool) (c : Nat) (timeout : Int) (x : Nat) :
    Inv (workerFinish pool c timeout x) := by
  unfold workerFinish
  dsimp only
  split
  · exact goOn_inv (turned_inv inv (marked_turned inv x)) c _ trivial
  · exact goOn_inv inv c _ (ahead_restart inv timeout _ (Nat.le_refl _))

/-- What a turn of caller `c` is, by what it was doing. -/
inductive CallerStep (pool : Pool δ) (c : Nat) (expired : Bool) : Pool δ → Prop where
  | begins {call : Call δ} {rest : List (Call δ)} (doing : (pool.callers c).doing = .idle)
      (calls : (pool.callers c).calls = call :: rest) :
      CallerStep pool c expired { pool with callers := Function.update pool.callers c ⟨rest,begins pool call⟩ }
  | exec {work : δ} {x : Nat} (doing : (pool.callers c).doing = .exec work x) :
      CallerStep pool c expired (workerExec pool c work x)
  | wait {timeout : Int} {x busy since : Nat} (doing : (pool.callers c).doing = .wait timeout x busy since) :
      CallerStep pool c expired (workerWait pool c timeout x busy since expired)
  | finish {timeout : Int} {x : Nat} (doing : (pool.callers c).doing = .finish timeout x) :
      CallerStep pool c expired (workerFinish pool c timeout x)

theorem caller_step {pool : Pool δ} {c : Nat} {expired : Bool} {next : Pool δ}
    (taken : caller pool c expired = some next) : CallerStep pool c expired next := by
  unfold caller at taken
  cases doing : (pool.callers c).doing with
  | idle =>
    simp only [doing] at taken
    cases calls : (pool.callers c).calls with
    | nil => simp [calls] at taken
    | cons call rest =>
      simp only [calls] at taken
      obtain rfl := Option.some.inj taken
      exact .begins doing calls
  | exec work x =>
    simp only [doing] at taken
    obtain rfl := Option.some.inj taken
    exact .exec doing
  | wait timeout x busy since =>
    simp only [doing] at taken
    obtain rfl := Option.some.inj taken
    exact .wait doing
  | finish timeout x =>
    simp only [doing] at taken
    obtain rfl := Option.some.inj taken
    exact .finish doing

/-- What the turn of caller `c` may be, as far as it concerns the workers. -/
inductive CallerTurn (pool : Pool δ) (c : Nat) : Pool δ → Prop where
  | passes (who : Caller δ) : CallerTurn pool c { pool with callers := Function.update pool.callers c who }
  | accepts (work : δ) (x : Nat) (doing : (pool.callers c).doing = .exec work x) (inside : x < pool.count)
      (free : (pool.workers x).busy = false) :
      CallerTurn pool c ({ pool.put x (given pool x work) with log := accepting pool.log work }.goOn c .idle)
  | marks (timeout : Int) (x : Nat) (doing : (pool.callers c).doing = .finish timeout x) (inside : x < pool.count) :
      CallerTurn pool c ((pool.put x (marked (pool.workers x))).goOn c (.finish timeout (x + 1)))

theorem caller_turn {pool : Pool δ} {c : Nat} {expired : Bool} {next : Pool δ}
    (taken : caller pool c expired = some next) : CallerTurn pool c next := by
  cases caller_step taken with
  | begins doing calls => exact .passes _
  | @exec work x doing =>
    dsimp only [workerExec]
    split
    · exact .passes _
    rename_i inside
    split
    · exact .passes _
    · rename_i free
      exact .accepts work x doing (Nat.lt_of_not_le inside) (Bool.not_eq_true _ ▸ free)
  | wait doing =>
    dsimp only [workerWait]
    split
    · exact .passes _
    · split <;> exact .passes _
  | @finish timeout x doing =>
    dsimp only [workerFinish]
    split
    · rename_i inside
      exact .marks timeout x doing inside
    · exact .passes _

private theorem caller_inv (pool : Pool δ) (c : Nat) (expired : Bool) (next : Pool δ) (inv : Inv pool)
    (taken : caller pool c expired = some next) : Inv next := by
  cases caller_step taken with
  | @begins call rest doing calls =>
    refine callers_inv inv c ⟨rest,begins pool call⟩ ?_
    cases call with
    | wait timeout => exact ahead_restart inv timeout _ (Nat.le_refl _)
    | exec work | finish timeout => exact trivial
  | exec doing => exact workerExec_inv inv c _ _
  | wait doing => exact workerWait_inv inv c _ _ _ _ expired (doing ▸ inv.ahead c)
  | finish doing => exact workerFinish_inv inv c _ _

theorem step_inv (pool : Pool δ) (event : Event) (next : Pool δ) (inv : Inv pool) (taken : step pool event = some next) :
    Inv next := by
  cases event with
  | worker k => exact worker_inv pool k next inv taken
  | caller c expired => exact caller_inv pool c expired next inv taken

theorem createPool_inv (count : Nat) (program : Nat → List (Call δ)) : Inv (createPool count program) where
  sound :=
    { tended := fun _ => ⟨fun _ => ⟨by simp [createPool],by simp [createPool]⟩,by simp [createPool,WorkerInfo.busy]⟩
      issued := by simp [createPool]
      own := by simp [createPool]
      once := by simp [createPool]
      known := by simp [createPool]
      begun := by simp [createPool]
      held := by simp [createPool] }
  ahead := fun _ => trivial

end Mybmm.WorkerRuns
