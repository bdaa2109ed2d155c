import Mybmm.PackRounds

/-! Whole rounds over the packs. However the turns of the workers and of the main
thread fall, a round that comes to its end leaves what `packUpdateAll` says, and one
that is in time comes to no slot that `worker_killbusy` would kill. -/
namespace Mybmm.PackPasses
open Config Flags Packs Jobs Machine WorkerPool WorkerRuns WorkerOnce WorkerFinish PackRounds

/-- Between two rounds: nobody is in a call, and all work is done. -/
structure Rested (pool : Pool Nat) : Prop where
  kept : Kept pool
  idle : ∀ c, pool.callers c = ⟨[],.idle⟩
  done : ∀ n < pool.log.accepted.length, n ∈ pool.log.completed

private theorem createPool_rested (count : Nat) : Rested (createPool count fun _ => []) where
  kept := createPool_kept count _ (by simp)
  idle := fun _ => rfl
  done := by simp [createPool]

private theorem start_goes {pool : Pool Nat} (rested : Rested pool) (replies : Nat → PackReply) (packs : List Pack)
    (wait : Int) :
    Goes wait replies pool.log.accepted (firstOf packs) (start pool packs wait) := by
  have kept := rested.kept
  have free (c : Nat) : (start pool packs wait).pool.callers (c + 1) = ⟨[],.idle⟩ := by
    simpa [start] using rested.idle (c + 1)
  have own : (start pool packs wait).pool.callers 0 = ⟨giving 0 packs.length wait,.idle⟩ := by simp [start]
  refine ⟨0,0,.between (Nat.zero_le _) rfl own,?_,rfl⟩
  refine
    { kept := ⟨callers_inv kept.inv 0 _ trivial,⟨fun c timeout => ?_,fun c timeout x => ?_⟩,kept.attentive⟩
      others := free
      accepted := by simp [start]
      past := rested.done
      order := Nat.le_refl 0
      untouched := fun _ _ => rfl
      waiting := fun i before => absurd before (Nat.not_lt_zero i)
      working := fun k n i runs => ?_
      finished := fun i before => absurd before (Nat.not_lt_zero i) }
  · cases c with
    | zero =>
      rw [own]
      simp [giving]
    | succ c =>
      rw [free c]
      simp
  · cases c with
    | zero =>
      rw [own]
      simp
    | succ c =>
      rw [free c]
      simp
  · have runs : (pool.workers k).place = .running n i := runs
    have tended := kept.inv.sound.tended k
    obtain ⟨m,j,has,stage⟩ := tended.taken (busy_of_place tended (by simp [runs]))
    rw [runs] at stage
    obtain ⟨same,_,left⟩ := stage
    obtain ⟨rfl,rfl⟩ := Prod.mk.inj same
    obtain ⟨inside,_⟩ := List.getElem?_eq_some_iff.mp (kept.inv.sound.issued k n i has)
    exact absurd (rested.done n inside) left

private theorem updatePacks_range (count : Nat) (replies : List PackReply) (packs : List Pack) :
    updatePacks (some count) replies packs =
      (List.range packs.length).map (final (replyTo replies) (firstOf packs)) := by
  induction packs generalizing replies with
  | nil => rfl
  | cons pp rest ih =>
    have reply : replies.headD .closed = replyTo replies 0 := by cases replies <;> rfl
    have later : final (replyTo replies) (firstOf (pp :: rest)) ∘ Nat.succ =
        final (replyTo replies.tail) (firstOf rest) := by
      funext i
      cases replies <;> rfl
    rw [List.length_cons,List.range_succ_eq_map,List.map_cons,List.map_map,later,← ih,updatePacks,
      if_pos Option.isSome_some,reply]
    rfl

/-- A round that comes to its end, in whatever order the turns were taken. -/
private theorem round_refines {pool : Pool Nat} (rested : Rested pool) {replies : List PackReply} {packs : List Pack}
    {wait : Int} {events : List Event} {r : Round}
    (reached : run (step (replyTo replies)) (start pool packs wait) events = some r) (returned : r.main = .returned)
    (count : Nat) :
    Rested r.pool ∧ r.listed = updatePacks (some count) replies packs ∧
      r.sent = answered (replyTo replies) packs.length := by
  obtain ⟨clears,gives,course,tracked,sent⟩ :=
    run_invariant (Goes wait (replyTo replies) pool.log.accepted (firstOf packs)) step_goes
      (start_goes rested _ packs wait) reached
  have length : r.length = packs.length :=
    run_invariant (fun r => r.length = packs.length) (fun r event next same taken => (step_frame taken).1.trans same)
      rfl reached
  rw [returned,SentFor,length] at sent
  cases course with
  | ended main who done =>
    refine ⟨⟨tracked.kept,fun c => ?_,done⟩,?_,sent⟩
    · cases c with
      | zero => exact who
      | succ c => exact tracked.others c
    · rw [updatePacks_range,Round.listed,length]
      refine List.map_congr_left fun i member => tracked.finished i ?_ (done _ ?_)
      · rw [length]
        exact List.mem_range.mp member
      · have before := List.mem_range.mp member
        rw [tracked.accepted,List.length_append,List.length_range]
        omega
  | between _ main | gives _ main | waits main | kills main =>
    rw [returned] at main
    contradiction

theorem rounds_refine {conf : Conf} {count : Nat} (pooled : conf.packPool = some count) {wait : Int}
    {passes : List (List PackReply × List Event)} {pool : Pool Nat} {packs : List Pack} {sent : List (List Nat)}
    (done : rounds wait (createPool count fun _ => []) conf.packs passes = some (pool,packs,sent)) :
    packs = (passes.foldl (fun conf pass => packUpdateAll pass.1 conf) conf).packs ∧
      sent = passes.map fun pass => answered (replyTo pass.1) conf.packs.length := by
  have rested := createPool_rested count
  generalize createPool count (fun _ => []) = first at done rested
  induction passes generalizing conf first sent with
  | nil =>
    obtain ⟨rfl,rfl,rfl⟩ : first = pool ∧ conf.packs = packs ∧ [] = sent := by simpa [rounds] using done
    exact ⟨rfl,rfl⟩
  | cons pass rest ih =>
    obtain ⟨replies,events⟩ := pass
    rw [rounds] at done
    obtain ⟨r,reached,later⟩ := Option.bind_eq_some_iff.mp done
    split at later
    · rename_i returned
      obtain ⟨⟨last,packs',sent'⟩,others,same⟩ := Option.bind_eq_some_iff.mp later
      obtain ⟨rfl,rfl,rfl⟩ : last = pool ∧ packs' = packs ∧ r.sent :: sent' = sent := by simpa using same
      obtain ⟨rested',listed,answers⟩ := round_refines rested reached returned count
      have updated : r.listed = (packUpdateAll replies conf).packs := by rw [listed,packUpdateAll,pooled]
      have length : (packUpdateAll replies conf).packs.length = conf.packs.length := by
        rw [← updated,listed,updatePacks_range,List.length_map,List.length_range]
      have pooled' : (packUpdateAll replies conf).packPool = some count := pooled
      obtain ⟨packs,sends⟩ := ih pooled' r.pool (updated ▸ others) rested'
      rw [length] at sends
      exact ⟨packs,by rw [answers,sends]; rfl⟩
    · contradiction

/-! Two rounds over two packs: one answers at first, the other only fails. -/

def samplePacks : Conf := { packPool := some 2, packs := [{},{}] }

def sampleReading : PackReading where
  charging := true
  discharging := false
  balancing := false
  capacity := 100
  voltage := 13.2
  current := 5
  temps := [20.5]
  cellvolt := [3.3,3.31]

def inTurn (n : Nat) : List Event := (List.replicate n [.caller 0 false,.worker 0,.worker 1]).flatten

def samplePasses : List (List PackReply × List Event) :=
  [([.read sampleReading,.closed],(inTurn 40).take 118),([.closed,.failed sampleReading],(inTurn 40).take 91)]

private theorem samplePasses_done :
    (rounds 30 (createPool 2 fun _ => []) samplePacks.packs samplePasses).map (fun ended => ended.2.2) =
      some [[0],[]] := by decide +kernel

theorem rounds_refine_sample : ∃ pool packs sent,
    rounds 30 (createPool 2 fun _ => []) samplePacks.packs samplePasses = some (pool,packs,sent) ∧
      packs = (samplePasses.foldl (fun conf pass => packUpdateAll pass.1 conf) samplePacks).packs ∧
      sent = samplePasses.map fun pass => answered (replyTo pass.1) 2 := by
  obtain ⟨⟨pool,packs,sent⟩,done,_⟩ := Option.map_eq_some_iff.mp samplePasses_done
  have pooled : samplePacks.packPool = some 2 := rfl
  exact ⟨pool,packs,sent,done,rounds_refine pooled done⟩

section Calm

variable {replies : Nat → PackReply} {old : List Nat} {first : Nat → Pack} {r next : Round} {wait : Int}

/-! Nobody is killed in time. -/

def Unkilled (pool : Pool Nat) : Prop := ∀ k, check (pool.workers k).flags WorkerFlag.kill = false

private theorem pool_unkilled {pool after : Pool Nat} {event : Event} (unkilled : Unkilled pool)
    (taken : WorkerPool.step pool event = some after) : Unkilled after := by
  intro j
  have before := unkilled j
  cases event with
  | worker k =>
    cases (worker_turn taken).2 with
    | looks | starts | completes | clears => by_cases here : j = k <;> simp [Pool.put,here] <;> simpa [here] using before
  | caller c expired =>
    cases caller_turn taken with
    | passes who => exact before
    | accepts work x =>
      by_cases here : j = x <;> simp [Pool.goOn,Pool.put,given,here] <;> simpa [here] using before
    | marks timeout x =>
      by_cases here : j = x <;> simp [Pool.goOn,Pool.put,marked,here] <;> simpa [here] using before

private theorem step_unkilled {event : Event} (unkilled : Unkilled r.pool) (taken : step replies r event = some next) :
    Unkilled next.pool := by
  rcases (step_frame taken).2 with same | turn
  · rwa [same]
  · exact pool_unkilled unkilled turn

/-- What the main thread has found free stays free: it gives no more work. -/
structure Calm (pool : Pool Nat) (main : Main) : Prop where
  unkilled : Unkilled pool
  scanned : ∀ timeout x since, (pool.callers 0).doing = .wait timeout x 0 since →
    ∀ j < x, (pool.workers j).busy = false
  free : main ≠ .updating ∨ pool.callers 0 = ⟨[],.idle⟩ → ∀ j < pool.count, (pool.workers j).busy = false

private theorem worker_busy {pool after : Pool Nat} {k : Nat} (taken : worker pool k = some after) (j : Nat)
    (free : (pool.workers j).busy = false) : (after.workers j).busy = false := by
  by_cases here : j = k
  · subst here
    cases (worker_turn taken).2 with
    | looks | starts | completes => simpa [Pool.put,WorkerInfo.busy] using free
    | clears => simp [Pool.put,WorkerInfo.busy]
  · cases (worker_turn taken).2 <;> simpa [Pool.put,here] using free

private theorem worker_calm {pool after : Pool Nat} {main : Main} {k : Nat} (calm : Calm pool main)
    (taken : worker pool k = some after) : Calm after main := by
  have callers : after.callers = pool.callers := (worker_leaves (worker_turn taken).2).1
  have count : after.count = pool.count := step_count (show WorkerPool.step pool (.worker k) = some after from taken)
  constructor
  · exact pool_unkilled calm.unkilled (show WorkerPool.step pool (.worker k) = some after from taken)
  · intro timeout x since waits j before
    rw [callers] at waits
    exact worker_busy taken j (calm.scanned timeout x since waits j before)
  · intro past j inside
    rw [callers] at past
    exact worker_busy taken j (calm.free past j (count ▸ inside))

/-- A turn of the main thread is one in its calls, or leaves the pool alone. -/
private theorem mainTurn_cases {expired : Bool} (taken : mainTurn r expired = some next) :
    (r.main = .updating ∧ next.main = .updating ∧ caller r.pool 0 expired = some next.pool) ∨
      next.pool = r.pool ∧ (r.main = .updating → r.pool.callers 0 = ⟨[],.idle⟩) := by
  unfold mainTurn at taken
  split at taken
  · rename_i main
    split at taken
    · rename_i idle calls
      obtain rfl := Option.some.inj taken
      exact Or.inr ⟨rfl,fun _ => by rw [← idle,← calls]⟩
    · obtain ⟨pool,turn,rfl⟩ := Option.map_eq_some_iff.mp taken
      exact Or.inl ⟨main,main,turn⟩
    · obtain ⟨pool,turn,rfl⟩ := Option.map_eq_some_iff.mp taken
      exact Or.inl ⟨main,main,turn⟩
  · rename_i main
    split at taken
    · obtain rfl := Option.some.inj taken
      exact Or.inr ⟨rfl,by simp [main]⟩
    split at taken
    · contradiction
    · obtain rfl := Option.some.inj taken
      exact Or.inr ⟨rfl,by simp [main]⟩
  · rename_i main
    split at taken
    · obtain rfl := Option.some.inj taken
      exact Or.inr ⟨rfl,by simp [main]⟩
    split at taken
    · contradiction
    · obtain rfl := Option.some.inj taken
      exact Or.inr ⟨rfl,by simp [main]⟩
  · rename_i main
    split at taken <;> obtain rfl := Option.some.inj taken <;> exact Or.inr ⟨rfl,by simp [main]⟩
  · contradiction

private theorem calm_going {pool : Pool Nat} (unkilled : Unkilled pool) {doing : Doing Nat}
    (who : (pool.callers 0).doing = doing) (scanned : ∀ timeout x since, doing ≠ .wait timeout (x + 1) 0 since)
    (busy : pool.callers 0 ≠ ⟨[],.idle⟩) : Calm pool .updating where
  unkilled := unkilled
  scanned := by
    intro timeout x since waits j before
    obtain ⟨y,rfl⟩ := Nat.exists_eq_succ_of_ne_zero (Nat.ne_zero_of_lt before)
    exact absurd (who.symm.trans waits) (scanned timeout y since)
  free := by
    rintro (other | idle)
    · exact absurd rfl other
    · exact absurd idle busy

private theorem wait_calm {pool : Pool Nat} {timeout : Int} {x busy since : Nat} (calm : Calm pool .updating)
    (doing : (pool.callers 0).doing = .wait timeout x busy since)
    (unkilled : Unkilled (workerWait pool 0 timeout x busy since false)) :
    Calm (workerWait pool 0 timeout x busy since false) .updating := by
  unfold workerWait at unkilled ⊢
  split
  · rename_i inside
    rw [if_pos inside] at unkilled
    refine ⟨unkilled,?_,?_⟩
    · intro time y from' waits j before
      simp only [Pool.goOn,Function.update_self,Doing.wait.injEq] at waits
      obtain ⟨_,rfl,none,_⟩ := waits
      split at none
      · omega
      · rename_i free
        have free : (pool.workers x).busy = false := Bool.not_eq_true _ ▸ free
        by_cases here : j = x
        · exact here ▸ free
        · exact calm.scanned timeout x since (none ▸ doing) j (by omega)
    · intro past
      simp [Pool.goOn] at past
  rename_i past
  rw [if_neg past] at unkilled
  split
  · rename_i ended
    rw [if_pos ended] at unkilled
    have none : busy = 0 := by simpa using ended
    refine ⟨unkilled,fun time y from' waits => ?_,fun _ j inside => ?_⟩
    · simp [Pool.goOn] at waits
    · have inside : j < pool.count := inside
      exact calm.scanned timeout x since (none ▸ doing) j (by omega)
  · rename_i more
    rw [if_neg more] at unkilled
    have who : ((pool.goOn 0 (.wait timeout 0 0 since)).callers 0).doing = .wait timeout 0 0 since := by
      simp [Pool.goOn]
    exact calm_going unkilled who (by simp) fun idle => by simp [idle] at who

private theorem main_calm (goes : Goes wait replies old first r) (calm : Calm r.pool r.main)
    (taken : mainTurn r false = some next) : Calm next.pool next.main := by
  have unkilled : Unkilled next.pool := 
    step_unkilled calm.unkilled (show step replies r (.caller 0 false) = some next from taken)
  rcases mainTurn_cases taken with ⟨updating,main,turn⟩ | ⟨same,idle⟩
  · obtain ⟨clears,gives,going⟩ := goes
    have more {work : Nat} {x : Nat} (doing : (r.pool.callers 0).doing = .exec work x) :
        (r.pool.callers 0).calls ≠ [] := by
      cases going.course with
      | gives inside _ who => simp [who,giving]
      | between _ _ who | kills _ who | ended _ who => simp [who] at doing
      | waits _ _ waits => simp [doing] at waits
    rw [main]
    obtain ⟨pool,same⟩ : ∃ pool, next.pool = pool := ⟨_,rfl⟩
    rw [same] at turn unkilled ⊢
    cases caller_step turn with
    | @begins call rest doing calls =>
      refine calm_going unkilled rfl ?_ ?_
      · cases call <;> simp [begins]
      · cases call <;> simp [begins]
    | @exec work x doing =>
      have still {after : Pool Nat} {goesOn : Doing Nat} (unkilled : Unkilled (after.goOn 0 goesOn))
          (own : after.callers 0 = r.pool.callers 0) (other : goesOn = .idle ∨ ∃ y, goesOn = .exec work y) :
          Calm (after.goOn 0 goesOn) .updating := by
        have who : ((after.goOn 0 goesOn).callers 0).doing = goesOn := by simp [Pool.goOn]
        refine calm_going unkilled who ?_ fun idle => more doing ?_
        · rcases other with rfl | ⟨y,rfl⟩ <;> simp
        · have calls := congrArg Caller.calls idle
          simpa [Pool.goOn,own] using calls
      unfold workerExec at unkilled ⊢
      dsimp only at unkilled ⊢
      split
      · rename_i beyond
        rw [if_pos beyond] at unkilled
        exact still unkilled rfl (Or.inr ⟨_,rfl⟩)
      rename_i inside
      rw [if_neg inside] at unkilled
      split
      · rename_i busy
        rw [if_pos busy] at unkilled
        exact still unkilled rfl (Or.inr ⟨_,rfl⟩)
      · rename_i free
        rw [if_neg free] at unkilled
        have accepted : Calm (Pool.goOn { r.pool.put x (given r.pool x work) with log := accepting r.pool.log work } 0
          .idle) .updating := still unkilled rfl (Or.inl rfl)
        exact ⟨accepted.unkilled,accepted.scanned,accepted.free⟩
    | wait doing => exact wait_calm (updating ▸ calm) doing unkilled
    | finish doing => exact absurd doing (going.tracked.kept.untold.doing 0 _ _)
  · rw [same]
    refine ⟨calm.unkilled,calm.scanned,fun _ => ?_⟩
    by_cases main : r.main = .updating
    · exact calm.free (Or.inr (idle main))
    · exact calm.free (Or.inl main)

private theorem start_calm {pool : Pool Nat} (unkilled : Unkilled pool) (packs : List Pack) (wait : Int) :
    Calm (start pool packs wait).pool (start pool packs wait).main := by
  have who : ((start pool packs wait).pool.callers 0).doing = .idle := by simp [start]
  refine calm_going unkilled who (by simp) fun idle => ?_
  simp [start,giving] at idle

private theorem step_calm {event : Event} (goes : Goes wait replies old first r) (calm : Calm r.pool r.main)
    (inTime : event ≠ .caller 0 true) (taken : step replies r event = some next) : Calm next.pool next.main := by
  match event with
  | .worker k =>
    obtain ⟨turn,main,_,_⟩ := workerTurn_pool taken
    rw [main]
    rcases turn with idle | turn
    · rwa [idle]
    · exact worker_calm calm turn
  | .caller 0 false => exact main_calm goes calm taken
  | .caller 0 true => exact absurd rfl inTime
  | .caller (c + 1) expired => simp [PackRounds.step] at taken

private theorem calm_turns {r : Round} (calm : Calm r.pool r.main) (expired : Bool) :
    r.main = .returned ∨ (mainTurn r expired).isSome := by
  unfold mainTurn
  cases main : r.main with
  | updating =>
    refine Or.inr ?_
    dsimp only
    split
    · rfl
    · rename_i i rest doing calls
      simp [Round.turn,caller,doing,calls]
    · rename_i more other
      cases doing : (r.pool.callers 0).doing with
      | idle =>
        cases calls : (r.pool.callers 0).calls with
        | nil => exact absurd calls (more doing)
        | cons call rest => simp [Round.turn,caller,doing,calls]
      | exec | wait | finish => simp [Round.turn,caller,doing]
  | killing x =>
    refine Or.inr ?_
    dsimp only
    split
    · rfl
    · rename_i inside
      rw [if_neg (by simp [calm.free (Or.inl (by simp [main])) x (by omega)])]
      rfl
  | recreating x =>
    refine Or.inr ?_
    dsimp only
    split
    · rfl
    · rw [if_neg (by simp [calm.unkilled x])]
      rfl
  | closing i =>
    refine Or.inr ?_
    dsimp only
    split <;> rfl
  | returned => exact Or.inl rfl

private theorem rounds_rested {wait : Int} {passes : List (List PackReply × List Event)} {first pool : Pool Nat}
    {packs packs' : List Pack} {sent : List (List Nat)} (rested : Rested first) (unkilled : Unkilled first)
    (done : rounds wait first packs passes = some (pool,packs',sent)) : Rested pool ∧ Unkilled pool := by
  induction passes generalizing first packs sent with
  | nil =>
    obtain ⟨rfl,rfl,rfl⟩ : first = pool ∧ packs = packs' ∧ [] = sent := by simpa [rounds] using done
    exact ⟨rested,unkilled⟩
  | cons pass rest ih =>
    obtain ⟨replies,events⟩ := pass
    rw [rounds] at done
    obtain ⟨r,reached,later⟩ := Option.bind_eq_some_iff.mp done
    split at later
    · rename_i returned
      obtain ⟨⟨last,packs'',sent'⟩,others,same⟩ := Option.bind_eq_some_iff.mp later
      obtain ⟨rfl,rfl,rfl⟩ : last = pool ∧ packs'' = packs' ∧ r.sent :: sent' = sent := by simpa using same
      have unkilled' : Unkilled r.pool :=
        run_invariant (fun r => Unkilled r.pool) (fun r event next unkilled taken => step_unkilled unkilled taken)
          unkilled reached
      exact ih (round_refines rested reached returned 0).1 unkilled' others
    · contradiction

end Calm

/-- After any rounds, the main thread comes to no slot that it would kill in a round
whose wait is not out of time. -/
theorem none_killed {count : Nat} {wait : Int} {packs packs' : List Pack} {passes : List (List PackReply × List Event)}
    {pool : Pool Nat} {sent : List (List Nat)}
    (earlier : rounds wait (createPool count fun _ => []) packs passes = some (pool,packs',sent))
    {replies : List PackReply} {events : List Event} (inTime : .caller 0 true ∉ events) {r : Round}
    (reached : run (step (replyTo replies)) (start pool packs' wait) events = some r) (expired : Bool) :
    r.main = .returned ∨ (mainTurn r expired).isSome := by
  obtain ⟨rested,unkilled⟩ := rounds_rested (createPool_rested count) (fun _ => by simp [createPool]) earlier
  have kept := run_invariant_while
    (fun r => Goes wait (replyTo replies) pool.log.accepted (firstOf packs') r ∧ Calm r.pool r.main)
    (fun _ event => event ≠ .caller 0 true)
    (fun r event next both inTime taken => ⟨step_goes r event next both.1 taken,step_calm both.1 both.2 inTime taken⟩)
    ⟨start_goes rested _ packs' wait,start_calm unkilled packs' wait⟩
    (fun visit member same => inTime (same ▸ visits_input _ events _ visit member)) reached
  exact calm_turns kept.2 expired

def afterSample (pool : Pool Nat) (packs : List Pack) : Option Round :=
  run (step (replyTo [.closed])) (start pool packs 30) (inTurn 15)

theorem none_killed_sample : ∃ pool packs sent r,
    rounds 30 (createPool 2 fun _ => []) samplePacks.packs samplePasses = some (pool,packs,sent) ∧
      afterSample pool packs = some r ∧ (r.main = .returned ∨ (mainTurn r false).isSome) := by
  have runs : ((rounds 30 (createPool 2 fun _ => []) samplePacks.packs samplePasses).bind fun ended =>
      afterSample ended.1 ended.2.1).isSome = true := by decide +kernel
  obtain ⟨r,both⟩ := Option.isSome_iff_exists.mp runs
  obtain ⟨⟨pool,packs,sent⟩,done,reached⟩ := Option.bind_eq_some_iff.mp both
  have inTime : .caller 0 true ∉ inTurn 15 := by decide
  exact ⟨pool,packs,sent,r,done,reached,none_killed done inTime reached false⟩

end Mybmm.PackPasses
