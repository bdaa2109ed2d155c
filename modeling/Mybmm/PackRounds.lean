import Mybmm.PackJobs
import Mybmm.WorkerFinish
import Mybmm.WorkerOnce

/-! pack.c: `pack_update_all` on a pool of threads. The packs are shared: the main
thread clears a pack before it gives its update to a worker, and goes over all of
them when `worker_wait` and `worker_killbusy` have returned. The work is the pack's
place in the list. Where `worker_killbusy` comes to a busy slot the model stops. -/
namespace Mybmm.PackRounds
open Config Flags Packs PackJobs Jobs Machine WorkerPool WorkerRuns WorkerOnce WorkerFinish

/-- Where the main thread stands, with the slot or pack it comes to next. The pool's
caller 0 is in the calls of the first loop. -/
inductive Main where
  | updating
  | killing (x : Nat)
  | recreating (x : Nat)
  | closing (i : Nat)
  | returned
deriving DecidableEq

/-- `sent` lists the packs that `pack_send_mqtt` was called for. -/
structure Round where
  pool : Pool Nat
  length : Nat
  packs : Nat → Pack
  jobs : Nat → Update := fun _ => .returned
  main : Main := .updating
  sent : List Nat := []

def cleared (pp : Pack) : Pack := { pp with state := clear pp.state PackState.updated }

def Round.listed (r : Round) : List Pack := (List.range r.length).map r.packs

def Round.turn (r : Round) (pool : Option (Pool Nat)) : Option Round := pool.map fun pool => { r with pool := pool }

section Turns

variable (replies : Nat → PackReply)

/-- A worker that is inside `pack_update` takes its next statement. -/
def workerTurn (r : Round) (k : Nat) : Option Round :=
  match (r.pool.workers k).place with
  | .running _ i =>
    match part updateCritHigh (replies i) (r.jobs k) (r.packs i) with
    | some (job,pp) => some { r with jobs := Function.update r.jobs k job, packs := Function.update r.packs i pp }
    | none => r.turn (worker r.pool k)
  | .picked => { r with jobs := Function.update r.jobs k .opening }.turn (worker r.pool k)
  | _ => r.turn (worker r.pool k)

def mainTurn (r : Round) (expired : Bool) : Option Round :=
  match r.main with
  | .updating =>
    match (r.pool.callers 0).doing, (r.pool.callers 0).calls with
    | .idle, [] => some { r with main := .killing 0 }
    | .idle, .exec i :: _ =>
      { r with packs := Function.update r.packs i (cleared (r.packs i)) }.turn (caller r.pool 0 expired)
    | _, _ => r.turn (caller r.pool 0 expired)
  | .killing x =>
    if r.pool.count ≤ x then some { r with main := .recreating 0 }
    else if (r.pool.workers x).busy then none
    else some { r with main := .killing (x + 1) }
  | .recreating x =>
    if r.pool.count ≤ x then some { r with main := .closing 0 }
    else if check (r.pool.workers x).flags WorkerFlag.kill then none
    else some { r with main := .recreating (x + 1) }
  | .closing i =>
    if r.length ≤ i then some { r with main := .returned }
    else some { r with
      main := .closing (i + 1)
      sent := if check (r.packs i).state PackState.updated then r.sent ++ [i] else r.sent }
  | .returned => none

def step (r : Round) : Event → Option Round
  | .worker k => workerTurn replies r k
  | .caller 0 expired => mainTurn r expired
  | .caller (_ + 1) _ => none

end Turns

def giving (i n : Nat) (wait : Int) : List (Call Nat) := (List.range' i (n - i)).map .exec ++ [.wait wait]

def firstOf (packs : List Pack) (i : Nat) : Pack := packs.getD i {}

def start (pool : Pool Nat) (packs : List Pack) (wait : Int) : Round where
  pool := { pool with callers := Function.update pool.callers 0 ⟨giving 0 packs.length wait,.idle⟩ }
  length := packs.length
  packs := firstOf packs

def replyTo (replies : List PackReply) (i : Nat) : PackReply := replies[i]?.getD .closed

/-- Rounds one after another, each with what the packs answer and the order of the turns. -/
def rounds (wait : Int) : Pool Nat → List Pack → List (List PackReply × List Event) →
    Option (Pool Nat × List Pack × List (List Nat))
  | pool, packs, [] => some (pool,packs,[])
  | pool, packs, (replies,events) :: rest => do
    let r ← run (step (replyTo replies)) (start pool packs wait) events
    if r.main = .returned then
      let (pool,packs,sent) ← rounds wait r.pool r.listed rest
      return (pool,packs,r.sent :: sent)
    else none

/-! What holds between the turns. -/

/-- Where the main thread stands: how many packs it has cleared, and how many it has given. -/
inductive Course (wait : Int) (r : Round) : Nat → Nat → Prop
  | between {i : Nat} (inside : i ≤ r.length) (main : r.main = .updating)
      (who : r.pool.callers 0 = ⟨giving i r.length wait,.idle⟩) : Course wait r i i
  | gives {i x : Nat} (inside : i < r.length) (main : r.main = .updating)
      (who : r.pool.callers 0 = ⟨giving (i + 1) r.length wait,.exec i x⟩) : Course wait r (i + 1) i
  | waits (main : r.main = .updating) (calls : (r.pool.callers 0).calls = [])
      (doing : (r.pool.callers 0).doing = .idle ∨
        ∃ x busy since, (r.pool.callers 0).doing = .wait wait x busy since) : Course wait r r.length r.length
  | kills {x : Nat} (main : r.main = .killing x) (who : r.pool.callers 0 = ⟨[],.idle⟩)
      (ahead : Ahead r.pool (.wait wait x 0 r.pool.log.accepted.length)) : Course wait r r.length r.length
  | ended (main : r.main ≠ .updating) (who : r.pool.callers 0 = ⟨[],.idle⟩)
      (done : ∀ n < r.pool.log.accepted.length, n ∈ r.pool.log.completed) : Course wait r r.length r.length

section Tracked

variable (replies : Nat → PackReply) (old : List Nat) (first : Nat → Pack)

def final (i : Nat) : Pack := packUpdate updateCritHigh (replies i) (cleared (first i))

/-- The packs by how far their work has come, `old` being the work of earlier rounds. -/
structure Tracked (clears gives : Nat) (r : Round) : Prop where
  kept : Kept r.pool
  others : ∀ c, r.pool.callers (c + 1) = ⟨[],.idle⟩
  accepted : r.pool.log.accepted = old ++ List.range gives
  past : ∀ n < old.length, n ∈ r.pool.log.completed
  order : gives ≤ clears
  untouched : ∀ i, clears ≤ i → r.packs i = first i
  waiting : ∀ i < clears, old.length + i ∉ r.pool.log.started.map Prod.fst → r.packs i = cleared (first i)
  working : ∀ k n i, (r.pool.workers k).place = .running n i →
    Ends (part updateCritHigh (replies i)) (r.jobs k) (r.packs i) (final replies first i)
  finished : ∀ i < gives, old.length + i ∈ r.pool.log.completed → r.packs i = final replies first i

end Tracked

section Runs

variable {replies : Nat → PackReply} {old : List Nat} {first : Nat → Pack} {clears gives : Nat} {r next : Round}

/-- The number of work is known by the pack it is for. -/
theorem Tracked.numbered (tracked : Tracked replies old first clears gives r) {k n i : Nat}
    (has : (r.pool.workers k).work = some (n,i)) (left : n ∉ r.pool.log.completed) :
    n = old.length + i ∧ i < gives := by
  have issued := tracked.kept.inv.sound.issued k n i has
  have new : old.length ≤ n := Nat.le_of_not_lt fun early => left (tracked.past n early)
  rw [tracked.accepted,List.getElem?_append_right new] at issued
  obtain ⟨inside,same⟩ := List.getElem?_eq_some_iff.mp issued
  rw [List.length_range] at inside
  rw [List.getElem_range] at same
  omega

structure InJob (old : List Nat) (gives : Nat) (r : Round) (k n i : Nat) : Prop where
  number : n = old.length + i
  given : i < gives
  work : (r.pool.workers k).work = some (n,i)
  started : n ∈ r.pool.log.started.map Prod.fst
  left : n ∉ r.pool.log.completed

theorem Tracked.inJob (tracked : Tracked replies old first clears gives r) {k n i : Nat}
    (place : (r.pool.workers k).place = .running n i) : InJob old gives r k n i := by
  have tended := tracked.kept.inv.sound.tended k
  obtain ⟨m,j,has,stage⟩ := tended.taken (busy_of_place tended (by simp [place]))
  rw [place] at stage
  obtain ⟨same,started,left⟩ := stage
  obtain ⟨rfl,rfl⟩ := Prod.mk.inj same
  obtain ⟨number,given⟩ := tracked.numbered has left
  exact ⟨number,given,has,started,left⟩

/-- A turn that concerns neither the work nor the packs. -/
theorem Tracked.quiet (tracked : Tracked replies old first clears gives r) (kept : Kept next.pool)
    (others : ∀ c, next.pool.callers (c + 1) = r.pool.callers (c + 1)) (log : next.pool.log = r.pool.log)
    (places : ∀ k n i, (next.pool.workers k).place = .running n i → (r.pool.workers k).place = .running n i)
    (packs : next.packs = r.packs) (jobs : next.jobs = r.jobs) : Tracked replies old first clears gives next where
  kept := kept
  others := fun c => (others c).trans (tracked.others c)
  accepted := log ▸ tracked.accepted
  past := log ▸ tracked.past
  order := tracked.order
  untouched := packs ▸ tracked.untouched
  waiting := by
    rw [log,packs]
    exact tracked.waiting
  working := by
    rw [packs,jobs]
    exact fun k n i place => tracked.working k n i (places k n i place)
  finished := by
    rw [log,packs]
    exact tracked.finished

/-! The turns of a worker. -/

private theorem job_tracked (tracked : Tracked replies old first clears gives r) {k n i : Nat} {job : Update} {pp : Pack}
    (place : (r.pool.workers k).place = .running n i)
    (taken : part updateCritHigh (replies i) (r.jobs k) (r.packs i) = some (job,pp)) :
    Tracked replies old first clears gives
      { r with jobs := Function.update r.jobs k job, packs := Function.update r.packs i pp } := by
  have inside := tracked.inJob place
  have order := tracked.order
  have given := inside.given
  refine { tracked with untouched := ?_, waiting := ?_, working := ?_, finished := ?_ }
  · intro j beyond
    have apart : j ≠ i := by omega
    simpa [apart] using tracked.untouched j beyond
  · intro j before waits
    have apart : j ≠ i := by
      rintro rfl
      exact waits (inside.number ▸ inside.started)
    simpa [apart] using tracked.waiting j before waits
  · intro j m l runs
    have runs : (r.pool.workers j).place = .running m l := runs
    by_cases here : j = k
    · subst here
      rw [place] at runs
      obtain ⟨rfl,rfl⟩ := Place.running.inj runs
      simpa using (tracked.working j n i place).taken taken
    · have other := tracked.inJob runs
      have apart : l ≠ i := by
        rintro rfl
        have number : m = n := other.number.trans inside.number.symm
        exact here (tracked.kept.inv.sound.own j k n l l (number ▸ other.work) inside.work)
      simpa [here,apart] using tracked.working j m l runs
  · intro j before done
    have apart : j ≠ i := by
      rintro rfl
      exact inside.left (inside.number ▸ done)
    simpa [apart] using tracked.finished j before done

private theorem starts_tracked (tracked : Tracked replies old first clears gives r) {k n i : Nat}
    (place : (r.pool.workers k).place = .picked) (has : (r.pool.workers k).work = some (n,i)) {pool : Pool Nat}
    (kept : Kept pool) (same : pool = { r.pool.put k { r.pool.workers k with place := .running n i } with
      log := { r.pool.log with started := r.pool.log.started ++ [(n,i)] } }) :
    Tracked replies old first clears gives
      { r with pool := pool, jobs := Function.update r.jobs k .opening } := by
  have tended := tracked.kept.inv.sound.tended k
  obtain ⟨m,j,also,stage⟩ := tended.taken (busy_of_place tended (by simp [place]))
  rw [has] at also
  obtain ⟨rfl,rfl⟩ := Prod.mk.inj (Option.some.inj also)
  rw [place] at stage
  have fresh : n ∉ r.pool.log.started.map Prod.fst := stage
  obtain ⟨number,given⟩ := tracked.numbered has fun done => fresh (tracked.kept.inv.sound.begun n done)
  have order := tracked.order
  subst same
  refine { tracked with kept := kept, waiting := ?_, working := ?_ }
  · intro l before waits
    rw [List.map_append] at waits
    exact tracked.waiting l before fun was => waits (List.mem_append_left _ was)
  · intro l m j runs
    by_cases here : l = k
    · subst here
      obtain ⟨rfl,rfl⟩ : n = m ∧ i = j := by simpa [Pool.put] using runs
      have before : r.packs i = cleared (first i) := tracked.waiting i (by omega) (number ▸ fresh)
      simp only [Function.update_self,before]
      exact part_ends _ _ _
    · have runs : (r.pool.workers l).place = .running m j := by simpa [Pool.put,here] using runs
      simpa [here] using tracked.working l m j runs

private theorem completes_tracked (tracked : Tracked replies old first clears gives r) {k n i : Nat}
    (place : (r.pool.workers k).place = .running n i)
    (ended : part updateCritHigh (replies i) (r.jobs k) (r.packs i) = none) {pool : Pool Nat}
    (kept : Kept pool) (same : pool = { r.pool.put k { r.pool.workers k with place := .ran } with
      log := { r.pool.log with completed := r.pool.log.completed ++ [n] } }) :
    Tracked replies old first clears gives { r with pool := pool } := by
  have inside := tracked.inJob place
  have number := inside.number
  subst same
  refine { tracked with kept := kept, past := ?_, working := ?_, finished := ?_ }
  · exact fun m early => List.mem_append_left _ (tracked.past m early)
  · intro l m j runs
    by_cases here : l = k
    · subst here
      simp [Pool.put] at runs
    · exact tracked.working l m j (by simpa [Pool.put,here] using runs)
  · intro j before done
    rcases List.mem_append.mp done with was | last
    · exact tracked.finished j before was
    · obtain rfl : j = i := by
        have := List.mem_singleton.mp last
        omega
      exact (tracked.working k n j place).ended ended

private theorem worker_kept {k : Nat} {pool : Pool Nat} (kept : Kept r.pool) (taken : worker r.pool k = some pool) :
    Kept pool :=
  step_kept r.pool (.worker k) pool kept taken

private theorem worker_tracked (tracked : Tracked replies old first clears gives r) {k : Nat}
    (taken : workerTurn replies r k = some next) : Tracked replies old first clears gives next := by
  unfold workerTurn at taken
  cases place : (r.pool.workers k).place with
  | running n i =>
    simp only [place] at taken
    cases job : part updateCritHigh (replies i) (r.jobs k) (r.packs i) with
    | some done =>
      simp only [job,Option.some.injEq] at taken
      subst taken
      exact job_tracked tracked place job
    | none =>
      simp only [job] at taken
      obtain ⟨pool,turn,rfl⟩ := Option.map_eq_some_iff.mp taken
      have kept := worker_kept tracked.kept turn
      cases (worker_turn turn).2 with
      | completes m j runs =>
        rw [place] at runs
        obtain ⟨rfl,rfl⟩ := Place.running.inj runs
        exact completes_tracked tracked place job kept rfl
      | looks waits => simp [place] at waits
      | starts m j picked has => simp [place] at picked
      | clears ran => simp [place] at ran
  | picked =>
    simp only [place] at taken
    obtain ⟨pool,turn,rfl⟩ := Option.map_eq_some_iff.mp taken
    have kept := worker_kept tracked.kept turn
    cases (worker_turn turn).2 with
    | starts n i picked has => exact starts_tracked tracked picked has kept rfl
    | looks waits => simp [place] at waits
    | completes n i runs => simp [place] at runs
    | clears ran => simp [place] at ran
  | ready | asleep | ran | exited =>
    simp only [place] at taken
    obtain ⟨pool,turn,rfl⟩ := Option.map_eq_some_iff.mp taken
    have kept := worker_kept tracked.kept turn
    cases (worker_turn turn).2 with
    | looks waits =>
      refine tracked.quiet kept (fun _ => rfl) rfl (fun j n i runs => ?_) rfl rfl
      by_cases here : j = k
      · subst here
        simp only [Pool.put,Function.update_self,look] at runs
        split at runs
        · contradiction
        · split at runs <;> contradiction
      · simpa [Pool.put,here] using runs
    | clears ran =>
      refine tracked.quiet kept (fun _ => rfl) rfl (fun j n i runs => ?_) rfl rfl
      by_cases here : j = k
      · subst here
        simp [Pool.put] at runs
      · simpa [Pool.put,here] using runs
    | starts n i picked has => simp [place] at picked
    | completes n i runs => simp [place] at runs

/-! The turns of the main thread. -/

private theorem caller_kept {expired : Bool} {pool : Pool Nat} (kept : Kept r.pool)
    (taken : caller r.pool 0 expired = some pool) :
    Kept pool := step_kept r.pool (.caller 0 expired) pool kept taken

/-- A turn in a call that gives no work. -/
private theorem passes_tracked (tracked : Tracked replies old first clears gives r) {pool : Pool Nat} (kept : Kept pool)
    {who : Caller Nat} (same : pool = { r.pool with callers := Function.update r.pool.callers 0 who }) :
    Tracked replies old first clears gives { r with pool := pool } := by
  subst same
  exact tracked.quiet kept (fun c => by simp) rfl (fun _ _ _ runs => runs) rfl rfl

private theorem main_tracked (tracked : Tracked replies old first clears gives r) (main : Main) (sent : List Nat) :
    Tracked replies old first clears gives { r with main := main, sent := sent } :=
  tracked.quiet tracked.kept (fun _ => rfl) rfl (fun _ _ _ runs => runs) rfl rfl

private theorem clears_tracked {i : Nat} (tracked : Tracked replies old first i i r) :
    Tracked replies old first (i + 1) i { r with packs := Function.update r.packs i (cleared (r.packs i)) } where
  kept := tracked.kept
  others := tracked.others
  accepted := tracked.accepted
  past := tracked.past
  order := Nat.le_succ i
  untouched := by
    intro j beyond
    have apart : j ≠ i := by omega
    simpa [apart] using tracked.untouched j (by omega)
  waiting := by
    intro j before waits
    by_cases here : j = i
    · subst here
      simpa using congrArg cleared (tracked.untouched j (Nat.le_refl j))
    · simpa [here] using tracked.waiting j (by omega) waits
  working := by
    intro k n j runs
    have given := (tracked.inJob runs).given
    have apart : j ≠ i := by omega
    simpa [apart] using tracked.working k n j runs
  finished := by
    intro j before done
    have apart : j ≠ i := by omega
    simpa [apart] using tracked.finished j before done

private theorem accepts_tracked {i x : Nat} (tracked : Tracked replies old first (i + 1) i r)
    (free : (r.pool.workers x).busy = false) {pool : Pool Nat} (kept : Kept pool)
    (same : pool = { r.pool.put x (given r.pool x i) with log := accepting r.pool.log i }.goOn 0 .idle) :
    Tracked replies old first (i + 1) (i + 1) { r with pool := pool } := by
  have fresh : old.length + i ∉ r.pool.log.started.map Prod.fst := by
    intro member
    obtain ⟨⟨n,j⟩,started,number⟩ := List.mem_map.mp member
    obtain ⟨inside,_⟩ := List.getElem?_eq_some_iff.mp (tracked.kept.inv.sound.known n j started)
    rw [tracked.accepted,List.length_append,List.length_range] at inside
    exact absurd number (by omega)
  subst same
  refine { tracked with kept := kept, others := ?_, accepted := ?_, order := Nat.le_refl _, working := ?_, finished := ?_ }
  · intro c
    simpa [Pool.goOn,Pool.put] using tracked.others c
  · simp [Pool.goOn,accepting,tracked.accepted,List.range_succ]
  · intro k n j runs
    by_cases here : k = x
    · subst here
      have place := ((tracked.kept.inv.sound.tended k).free free).1
      simp only [List.mem_cons,List.not_mem_nil,or_false] at place
      rcases place with place | place | place <;> simp [Pool.goOn,Pool.put,given,place,signal] at runs
    · exact tracked.working k n j (by simpa [Pool.goOn,Pool.put,here] using runs)
  · intro j before done
    by_cases last : j = i
    · subst last
      exact absurd (tracked.kept.inv.sound.begun _ done) fresh
    · exact tracked.finished j (by omega) done

/-! The main thread's course. -/

/-- The packs among the first that have answered. -/
def answered (replies : Nat → PackReply) (n : Nat) : List Nat := (List.range n).filter fun i => (replies i).answers

def SentFor (replies : Nat → PackReply) (r : Round) : Main → Prop
  | .closing i => i ≤ r.length ∧ r.sent = answered replies i
  | .returned => r.sent = answered replies r.length
  | _ => r.sent = []

structure Going (wait : Int) (replies : Nat → PackReply) (old : List Nat) (first : Nat → Pack) (clears gives : Nat)
    (r : Round) : Prop where
  course : Course wait r clears gives
  tracked : Tracked replies old first clears gives r
  sent : SentFor replies r r.main

variable {wait : Int}

theorem Going.none_sent (going : Going wait replies old first clears gives r)
    (main : r.main = .updating ∨ ∃ x, r.main = .killing x) : r.sent = [] := by
  have sent := going.sent
  rcases main with main | ⟨x,main⟩ <;> rwa [main] at sent

private theorem giving_cons {i n : Nat} (inside : i < n) : giving i n wait = .exec i :: giving (i + 1) n wait := by
  have more : n - i = (n - (i + 1)) + 1 := by omega
  rw [giving,more,List.range'_succ]
  rfl

private theorem giving_last (n : Nat) : giving n n wait = [.wait wait] := by simp [giving]

theorem workerTurn_pool {k : Nat} (taken : workerTurn replies r k = some next) :
    (next.pool = r.pool ∨ worker r.pool k = some next.pool) ∧ next.main = r.main ∧ next.length = r.length ∧
      next.sent = r.sent := by
  unfold workerTurn at taken
  split at taken
  · split at taken
    · obtain rfl := Option.some.inj taken
      exact ⟨Or.inl rfl,rfl,rfl,rfl⟩
    · obtain ⟨pool,turn,rfl⟩ := Option.map_eq_some_iff.mp taken
      exact ⟨Or.inr turn,rfl,rfl,rfl⟩
  · obtain ⟨pool,turn,rfl⟩ := Option.map_eq_some_iff.mp taken
    exact ⟨Or.inr turn,rfl,rfl,rfl⟩
  · obtain ⟨pool,turn,rfl⟩ := Option.map_eq_some_iff.mp taken
    exact ⟨Or.inr turn,rfl,rfl,rfl⟩

/-- What lies ahead of a scan does so after a worker's turn too. -/
private theorem worker_ahead {pool after : Pool Nat} {k : Nat} (inv : Inv pool) (doing : Doing Nat)
    (ahead : Ahead pool doing)
    (taken : worker pool k = some after) : Ahead after doing := by
  obtain ⟨wp,log,turned,rfl⟩ := worker_turned inv (worker_turn taken).2
  have scans := (turned_inv (callers_inv inv 0 ⟨[],doing⟩ ahead) turned).ahead 0
  simp only [Pool.put,Function.update_self] at scans
  cases doing with
  | wait timeout x busy since => exact scans
  | idle | exec work x | finish timeout x => exact trivial

private theorem worker_log {pool after : Pool Nat} {k : Nat} (inv : Inv pool) (taken : worker pool k = some after) :
    after.log.accepted = pool.log.accepted ∧ ∀ n ∈ pool.log.completed, n ∈ after.log.completed := by
  obtain ⟨wp,log,turned,rfl⟩ := worker_turned inv (worker_turn taken).2
  exact ⟨turned.accepted,turned.completed⟩

private theorem worker_going {k : Nat} (going : Going wait replies old first clears gives r)
    (taken : workerTurn replies r k = some next) : Going wait replies old first clears gives next := by
  obtain ⟨course,tracked,sent⟩ := going
  have after := worker_tracked tracked taken
  obtain ⟨turn,main,length,same⟩ := workerTurn_pool taken
  refine ⟨?_,after,?_⟩
  · have callers : next.pool.callers = r.pool.callers := by
      rcases turn with idle | turn
      · rw [idle]
      · exact (worker_leaves (worker_turn turn).2).1
    have log : next.pool.log.accepted = r.pool.log.accepted ∧
        ∀ n ∈ r.pool.log.completed, n ∈ next.pool.log.completed := by
      rcases turn with idle | turn
      · exact ⟨by rw [idle],by rw [idle]; exact fun _ done => done⟩
      · exact worker_log tracked.kept.inv turn
    cases course with
    | between inside updating who => exact .between (length ▸ inside) (main.trans updating) (by rw [callers,length,who])
    | gives inside updating who => exact .gives (length ▸ inside) (main.trans updating) (by rw [callers,length,who])
    | waits updating calls doing =>
      rw [← length]
      exact .waits (main.trans updating) (by rw [callers,calls]) (by rwa [callers])
    | kills killing who ahead =>
      rw [← length]
      refine .kills (main.trans killing) (by rw [callers,who]) ?_
      rw [log.1]
      rcases turn with idle | turn
      · rwa [idle]
      · exact worker_ahead tracked.kept.inv _ ahead turn
    | ended later who done =>
      rw [← length]
      exact .ended (main ▸ later) (by rw [callers,who]) fun n issued => log.2 n (done n (log.1 ▸ issued))
  · rw [main]
    cases at' : r.main <;> rw [at'] at sent <;> simpa only [SentFor,same,length] using sent

def Goes (wait : Int) (replies : Nat → PackReply) (old : List Nat) (first : Nat → Pack) (r : Round) : Prop :=
  ∃ clears gives, Going wait replies old first clears gives r

section MainTurns

variable {expired : Bool}

private theorem between_goes {i : Nat} (going : Going wait replies old first i i r) (inside : i ≤ r.length)
    (main : r.main = .updating) (who : r.pool.callers 0 = ⟨giving i r.length wait,.idle⟩)
    (taken : mainTurn r expired = some next) : Goes wait replies old first next := by
  have sent : r.sent = [] := going.none_sent (Or.inl main)
  by_cases last : i = r.length
  · rw [last,giving_last] at who
    simp only [mainTurn,main,who] at taken
    obtain ⟨pool,turn,rfl⟩ := Option.map_eq_some_iff.mp taken
    have kept := caller_kept going.tracked.kept turn
    simp only [caller,who,Option.some.injEq] at turn
    subst turn
    refine ⟨r.length,r.length,.waits main (by simp) (Or.inr ⟨0,0,r.pool.log.accepted.length,by simp [begins]⟩),?_,?_⟩
    · exact passes_tracked (last ▸ going.tracked) kept rfl
    · simpa only [main,SentFor] using sent
  · have before : i < r.length := Nat.lt_of_le_of_ne inside last
    rw [giving_cons before] at who
    simp only [mainTurn,main,who] at taken
    obtain ⟨pool,turn,rfl⟩ := Option.map_eq_some_iff.mp taken
    have kept := caller_kept going.tracked.kept turn
    simp only [caller,who,Option.some.injEq] at turn
    subst turn
    refine ⟨i + 1,i,.gives (x := 0) before rfl (by simp [begins]),?_,sent⟩
    simpa only [main] using passes_tracked (clears_tracked going.tracked) kept rfl

private theorem gives_goes {i x : Nat} (going : Going wait replies old first (i + 1) i r) (inside : i < r.length)
    (main : r.main = .updating) (who : r.pool.callers 0 = ⟨giving (i + 1) r.length wait,.exec i x⟩)
    (taken : mainTurn r expired = some next) : Goes wait replies old first next := by
  have sent : r.sent = [] := going.none_sent (Or.inl main)
  simp only [mainTurn,main,who] at taken
  obtain ⟨pool,turn,rfl⟩ := Option.map_eq_some_iff.mp taken
  have kept := caller_kept going.tracked.kept turn
  simp only [caller,who,Option.some.injEq] at turn
  unfold workerExec at turn
  dsimp only at turn
  split at turn
  · subst turn
    exact ⟨i + 1,i,.gives (x := 0) inside main (by simp [Pool.goOn,who]),passes_tracked going.tracked kept rfl,
      by simpa only [main,SentFor] using sent⟩
  split at turn
  · subst turn
    exact ⟨i + 1,i,.gives (x := x + 1) inside main (by simp [Pool.goOn,who]),passes_tracked going.tracked kept rfl,
      by simpa only [main,SentFor] using sent⟩
  · rename_i free
    subst turn
    exact ⟨i + 1,i + 1,.between inside main (by simp [Pool.goOn,Pool.put,who]),
      accepts_tracked going.tracked (Bool.not_eq_true _ ▸ free) kept rfl,by simpa only [main,SentFor] using sent⟩

private theorem waits_goes (going : Going wait replies old first r.length r.length r) (main : r.main = .updating)
    (calls : (r.pool.callers 0).calls = [])
    (doing : (r.pool.callers 0).doing = .idle ∨ ∃ x busy since, (r.pool.callers 0).doing = .wait wait x busy since)
    (taken : mainTurn r expired = some next) : Goes wait replies old first next := by
  have sent : r.sent = [] := going.none_sent (Or.inl main)
  rcases doing with idle | ⟨x,busy,since,waits⟩
  · simp only [mainTurn,main,idle,calls,Option.some.injEq] at taken
    subst taken
    refine ⟨r.length,r.length,.kills rfl (by rw [← idle,← calls]) ?_,main_tracked going.tracked (.killing 0) r.sent,sent⟩
    exact ahead_restart going.tracked.kept.inv wait _ (Nat.le_refl _)
  · simp only [mainTurn,main,waits] at taken
    obtain ⟨pool,turn,rfl⟩ := Option.map_eq_some_iff.mp taken
    have kept := caller_kept going.tracked.kept turn
    simp only [caller,waits,Option.some.injEq] at turn
    unfold workerWait at turn
    have course {doing : Doing Nat} (stays : doing = .idle ∨ ∃ x busy since, doing = .wait wait x busy since)
        (same : pool = r.pool.goOn 0 doing) : Goes wait replies old first { r with pool := pool } := by
      subst same
      exact ⟨r.length,r.length,.waits main (by simpa [Pool.goOn] using calls) (by simpa [Pool.goOn] using stays),
        passes_tracked going.tracked kept rfl,by simpa only [main,SentFor] using sent⟩
    split at turn
    · exact course (Or.inr ⟨_,_,_,rfl⟩) turn.symm
    split at turn
    · exact course (Or.inl rfl) turn.symm
    · exact course (Or.inr ⟨_,_,_,rfl⟩) turn.symm

private theorem kills_goes {x : Nat} (going : Going wait replies old first r.length r.length r) (main : r.main = .killing x)
    (who : r.pool.callers 0 = ⟨[],.idle⟩) (ahead : Ahead r.pool (.wait wait x 0 r.pool.log.accepted.length))
    (taken : mainTurn r expired = some next) : Goes wait replies old first next := by
  have sent : r.sent = [] := going.none_sent (Or.inr ⟨x,main⟩)
  simp only [mainTurn,main] at taken
  split at taken
  · rename_i last
    obtain rfl := Option.some.inj taken
    refine ⟨r.length,r.length,.ended (by simp) who fun n issued => ?_,main_tracked going.tracked (.recreating 0) r.sent,sent⟩
    by_contra left
    obtain ⟨k,beyond,inside,_⟩ := ahead.2 rfl n issued left
    omega
  split at taken
  · contradiction
  · rename_i free
    obtain rfl := Option.some.inj taken
    refine ⟨r.length,r.length,.kills rfl who ⟨ahead.1,fun _ n issued left => ?_⟩,
      main_tracked going.tracked (.killing (x + 1)) r.sent,sent⟩
    obtain ⟨k,beyond,holds⟩ := ahead.2 rfl n issued left
    have apart : k ≠ x := fun same => free (same ▸ holds.2.1)
    exact ⟨k,by omega,holds⟩

/-- A pack whose work is done is marked as updated exactly when it has answered. -/
private theorem final_updated (i : Nat) : check (final replies first i).state PackState.updated = (replies i).answers :=
  packUpdate_updated _ _ _ (by simp [cleared])

private theorem over_goes (going : Going wait replies old first r.length r.length r) (main : r.main ≠ .updating)
    (who : r.pool.callers 0 = ⟨[],.idle⟩) (done : ∀ n < r.pool.log.accepted.length, n ∈ r.pool.log.completed)
    (taken : mainTurn r expired = some next) : Goes wait replies old first next := by
  obtain ⟨_,tracked,sent⟩ := going
  have ended (main : Main) (sent : List Nat) (later : main ≠ .updating)
      (same : SentFor replies { r with main := main, sent := sent } main) :
      Goes wait replies old first { r with main := main, sent := sent } :=
    ⟨r.length,r.length,.ended later who done,main_tracked tracked main sent,same⟩
  cases at' : r.main with
  | updating => exact absurd at' main
  | killing x =>
    rw [at'] at sent
    simp only [mainTurn,at'] at taken
    split at taken
    · obtain rfl := Option.some.inj taken
      exact ended _ _ (by simp) sent
    split at taken
    · contradiction
    · obtain rfl := Option.some.inj taken
      exact ended _ _ (by simp) sent
  | recreating x =>
    rw [at'] at sent
    simp only [mainTurn,at'] at taken
    split at taken
    · obtain rfl := Option.some.inj taken
      exact ended _ _ (by simp) ⟨Nat.zero_le _,sent⟩
    split at taken
    · contradiction
    · obtain rfl := Option.some.inj taken
      exact ended _ _ (by simp) sent
  | closing i =>
    rw [at'] at sent
    obtain ⟨inside,sent⟩ := sent
    simp only [mainTurn,at'] at taken
    split at taken
    · rename_i last
      obtain rfl := Option.some.inj taken
      have same : i = r.length := by omega
      exact ended _ _ (by simp) (same ▸ sent)
    · rename_i more
      obtain rfl := Option.some.inj taken
      have before : i < r.length := by omega
      have number : old.length + i < r.pool.log.accepted.length := by
        rw [tracked.accepted,List.length_append,List.length_range]
        omega
      have updated : check (r.packs i).state PackState.updated = (replies i).answers := by
        rw [tracked.finished i before (done _ number),final_updated]
      refine ended _ _ (by simp) ⟨before,?_⟩
      rw [updated,sent,answered,answered,List.range_succ,List.filter_append]
      cases answers : (replies i).answers <;> simp [answers]
  | returned => simp [mainTurn,at'] at taken

end MainTurns

private theorem main_goes {expired : Bool} (goes : Goes wait replies old first r) (taken : mainTurn r expired = some next) :
    Goes wait replies old first next := by
  obtain ⟨clears,gives,going⟩ := goes
  cases going.course with
  | between inside main who => exact between_goes going inside main who taken
  | gives inside main who => exact gives_goes going inside main who taken
  | waits main calls doing => exact waits_goes going main calls doing taken
  | kills main who ahead => exact kills_goes going main who ahead taken
  | ended main who done => exact over_goes going main who done taken

theorem step_goes (r : Round) (event : Event) (next : Round) (goes : Goes wait replies old first r)
    (taken : step replies r event = some next) : Goes wait replies old first next := by
  match event with
  | .worker k =>
    obtain ⟨clears,gives,going⟩ := goes
    exact ⟨clears,gives,worker_going going taken⟩
  | .caller 0 expired => exact main_goes goes taken
  | .caller (c + 1) expired => simp [step] at taken

/-- A turn is one of the pool's, or leaves the pool alone. -/
theorem step_frame {event : Event} (taken : step replies r event = some next) :
    next.length = r.length ∧ (next.pool = r.pool ∨ WorkerPool.step r.pool event = some next.pool) := by
  match event with
  | .worker k =>
    obtain ⟨turn,_,length,_⟩ := workerTurn_pool taken
    exact ⟨length,turn⟩
  | .caller 0 expired =>
    simp only [step,mainTurn] at taken
    split at taken
    · split at taken
      · obtain rfl := Option.some.inj taken
        exact ⟨rfl,Or.inl rfl⟩
      · obtain ⟨pool,turn,rfl⟩ := Option.map_eq_some_iff.mp taken
        exact ⟨rfl,Or.inr turn⟩
      · obtain ⟨pool,turn,rfl⟩ := Option.map_eq_some_iff.mp taken
        exact ⟨rfl,Or.inr turn⟩
    · split at taken
      · obtain rfl := Option.some.inj taken
        exact ⟨rfl,Or.inl rfl⟩
      split at taken
      · contradiction
      · obtain rfl := Option.some.inj taken
        exact ⟨rfl,Or.inl rfl⟩
    · split at taken
      · obtain rfl := Option.some.inj taken
        exact ⟨rfl,Or.inl rfl⟩
      split at taken
      · contradiction
      · obtain rfl := Option.some.inj taken
        exact ⟨rfl,Or.inl rfl⟩
    · split at taken <;> obtain rfl := Option.some.inj taken <;> exact ⟨rfl,Or.inl rfl⟩
    · contradiction
  | .caller (c + 1) expired => simp [step] at taken

end Runs

end Mybmm.PackRounds
