import Mybmm.WorkerRuns

/-! A pool that is not told to finish: what it accepts is run, once, and a wait that
finds nothing busy has seen all of it through. -/
namespace Mybmm.WorkerOnce
open Flags Machine WorkerPool WorkerRuns

variable {δ : Type}

/-- What a pool is to keep to. A worker with work to start is not asleep and can
take its turn, and two turns are enough. -/
structure Exact (pool : Pool δ) : Prop where
  once : (pool.log.started.map Prod.fst).Nodup
  own : ∀ n work, (n,work) ∈ pool.log.started → pool.log.accepted[n]? = some work
  starts : ∀ n < pool.log.accepted.length, n ∉ pool.log.started.map Prod.fst → ∃ k < pool.count,
    (pool.workers k).place ≠ .asleep ∧ (step pool (.worker k)).isSome ∧
      ∀ events next, run step pool events = some next → 2 ≤ events.count (.worker k) →
        n ∈ next.log.started.map Prod.fst
  keeps : ∀ event next, step pool event = some next → ∀ k n work, (pool.workers k).work = some (n,work) →
    (next.workers k).work ≠ some (n,work) → n ∈ pool.log.completed
  waited : ∀ c timeout x since, (pool.callers c).doing = .wait timeout x 0 since → pool.count ≤ x →
    ∀ n < since, n ∈ pool.log.completed

/-! What the turns leave alone. -/

private theorem step_turned {pool : Pool δ} {event : Event} {next : Pool δ} (inv : Inv pool)
    (taken : step pool event = some next) :
    (∃ k wp, Turned pool.workers pool.log k wp next.log ∧ next.workers = Function.update pool.workers k wp) ∨
      (∃ x work, (pool.workers x).busy = false ∧ next.log = accepting pool.log work ∧
        next.workers = Function.update pool.workers x (given pool x work)) ∨
      next.log = pool.log ∧ next.workers = pool.workers := by
  cases event with
  | worker k =>
    obtain ⟨wp,after,turned,rfl⟩ := worker_turned inv (worker_turn taken).2
    exact Or.inl ⟨k,wp,turned,rfl⟩
  | caller c expired =>
    cases caller_turn taken with
    | passes who => exact Or.inr (Or.inr ⟨rfl,rfl⟩)
    | accepts work x doing inside free => exact Or.inr (Or.inl ⟨x,work,free,rfl,rfl⟩)
    | marks timeout x doing inside => exact Or.inl ⟨x,_,marked_turned inv x,rfl⟩

private theorem step_work {pool : Pool δ} {event : Event} {next : Pool δ} (inv : Inv pool)
    (taken : step pool event = some next) (k : Nat) :
    (next.workers k).work = (pool.workers k).work ∨ (pool.workers k).busy = false := by
  rcases step_turned inv taken with ⟨j,wp,turned,workers⟩ | ⟨x,work,free,_,workers⟩ | ⟨_,workers⟩ <;> rw [workers]
  · exact Or.inl (turned_works turned k)
  · by_cases here : k = x
    · exact Or.inr (here ▸ free)
    · simp [here]
  · exact Or.inl rfl

private theorem step_keeps {pool : Pool δ} {event : Event} {next : Pool δ} (inv : Inv pool)
    (taken : step pool event = some next) (k n : Nat) (work : δ) (has : (pool.workers k).work = some (n,work))
    (changed : (next.workers k).work ≠ some (n,work)) : n ∈ pool.log.completed := by
  rcases step_work inv taken k with same | free
  · exact absurd (same.trans has) changed
  · exact ((inv.sound.tended k).free free).2 n work has

/-! Nobody is told to finish, and work wakes whom it is given to. -/

structure Untold (pool : Pool δ) : Prop where
  calls : ∀ c timeout, .finish timeout ∉ (pool.callers c).calls
  doing : ∀ c timeout x, (pool.callers c).doing ≠ .finish timeout x

structure Attentive (wp : WorkerInfo δ) : Prop where
  done : wp.done = false
  stays : wp.place ≠ .exited
  awake : wp.busy = true → wp.place ≠ .asleep

private theorem goOn_untold {pool : Pool δ} (untold : Untold pool) (c : Nat) (doing : Doing δ)
    (other : ∀ timeout x, doing ≠ .finish timeout x) : Untold (pool.goOn c doing) where
  calls := by
    intro d timeout
    by_cases own : d = c
    · subst own
      simpa [Pool.goOn] using untold.calls d timeout
    · simpa [Pool.goOn,own] using untold.calls d timeout
  doing := by
    intro d timeout x
    by_cases own : d = c
    · subst own
      simpa [Pool.goOn] using other timeout x
    · simpa [Pool.goOn,own] using untold.doing d timeout x

private theorem caller_untold {pool : Pool δ} {c : Nat} {expired : Bool} {next : Pool δ} (untold : Untold pool)
    (taken : caller pool c expired = some next) : Untold next := by
  cases caller_step taken with
  | @begins call rest doing calls =>
    have fewer (timeout : Int) : .finish timeout ∉ call :: rest := calls ▸ untold.calls c timeout
    constructor
    · intro d timeout
      by_cases own : d = c
      · subst own
        simpa using fun member => fewer timeout (List.mem_cons_of_mem call member)
      · simpa [own] using untold.calls d timeout
    · intro d timeout x
      by_cases own : d = c
      · subst own
        cases call with
        | finish timeout => exact absurd List.mem_cons_self (fewer timeout)
        | exec work | wait timeout => simp [begins]
      · simpa [own] using untold.doing d timeout x
  | exec doing =>
    dsimp only [workerExec]
    split
    · exact goOn_untold untold c _ (by simp)
    split
    · exact goOn_untold untold c _ (by simp)
    · have passed := goOn_untold untold c .idle (by simp)
      exact ⟨passed.calls,passed.doing⟩
  | wait doing =>
    dsimp only [workerWait]
    split
    · exact goOn_untold untold c _ (by simp)
    · split <;> exact goOn_untold untold c _ (by simp)
  | finish doing => exact absurd doing (untold.doing c _ _)

private theorem worker_attentive {pool : Pool δ} {k : Nat} {next : Pool δ} (attentive : ∀ k, Attentive (pool.workers k))
    (turn : WorkerTurn pool k next) (j : Nat) : Attentive (next.workers j) := by
  by_cases here : j = k
  · subst here
    obtain ⟨done,stays,awake⟩ := attentive j
    cases turn with
    | looks waits =>
      simp only [Pool.put,Function.update_self]
      refine ⟨done,?_,fun taken => ?_⟩
      · by_cases busy : (pool.workers j).busy <;> simp [look,done,busy]
      · have busy : (pool.workers j).busy = true := taken
        simp [look,done,busy]
    | starts n work place has | completes n work place => simpa [Pool.put] using ⟨done,by simp,by simp⟩
    | clears place =>
      simp only [Pool.put,Function.update_self]
      refine ⟨?_,by simp,by simp⟩
      simpa [WorkerInfo.done] using done
  · have same : next.workers j = pool.workers j := by cases turn <;> simp [Pool.put,here]
    rw [same]
    exact attentive j

private theorem caller_attentive {pool : Pool δ} {c : Nat} {next : Pool δ} (untold : Untold pool)
    (attentive : ∀ k, Attentive (pool.workers k)) (turn : CallerTurn pool c next) (j : Nat) :
    Attentive (next.workers j) := by
  cases turn with
  | passes who => exact attentive j
  | accepts work x doing inside free =>
    by_cases here : j = x
    · subst here
      obtain ⟨done,stays,_⟩ := attentive j
      simp only [Pool.goOn,Pool.put,Function.update_self]
      refine ⟨by simpa [given,WorkerInfo.done] using done,?_,fun _ => ?_⟩
      · cases place : (pool.workers j).place <;> simp_all [given,signal]
      · cases place : (pool.workers j).place <;> simp [given,signal,place]
    · simpa [Pool.goOn,Pool.put,here] using attentive j
  | marks timeout x doing inside => exact absurd doing (untold.doing c timeout x)

structure Kept (pool : Pool δ) : Prop where
  inv : Inv pool
  untold : Untold pool
  attentive : ∀ k, Attentive (pool.workers k)

theorem step_kept (pool : Pool δ) (event : Event) (next : Pool δ) (kept : Kept pool)
    (taken : step pool event = some next) : Kept next := by
  refine ⟨step_inv pool event next kept.inv taken,?_,?_⟩
  · cases event with
    | worker k =>
      obtain ⟨wp,after,_,rfl⟩ := worker_turned kept.inv (worker_turn taken).2
      exact ⟨kept.untold.calls,kept.untold.doing⟩
    | caller c expired => exact caller_untold kept.untold taken
  · cases event with
    | worker k => exact worker_attentive kept.attentive (worker_turn taken).2
    | caller c expired => exact caller_attentive kept.untold kept.attentive (caller_turn taken)

theorem createPool_kept (count : Nat) (program : Nat → List (Call δ))
    (noFinish : ∀ c timeout, .finish timeout ∉ program c) : Kept (createPool count program) where
  inv := createPool_inv count program
  untold := ⟨noFinish,by simp [createPool]⟩
  attentive := fun _ => ⟨by simp [createPool,WorkerInfo.done],by simp [createPool],by simp [createPool]⟩

/-! How soon work starts. -/

private theorem step_started {pool : Pool δ} {event : Event} {next : Pool δ} (taken : step pool event = some next) (n : Nat)
    (started : n ∈ pool.log.started.map Prod.fst) : n ∈ next.log.started.map Prod.fst := by
  cases event with
  | worker k =>
    cases (worker_turn taken).2 with
    | starts m work place has =>
      rw [List.map_append]
      exact List.mem_append_left _ started
    | looks | completes | clears => exact started
  | caller c expired => cases caller_turn taken <;> exact started

theorem step_count {pool : Pool δ} {event : Event} {next : Pool δ} (taken : step pool event = some next) :
    next.count = pool.count := by
  cases event with
  | worker k => cases (worker_turn taken).2 <;> rfl
  | caller c expired => cases caller_turn taken <;> rfl

private theorem step_holds {pool : Pool δ} {event : Event} {next : Pool δ} (inv : Inv pool)
    (taken : step pool event = some next) (n k : Nat) (left : n ∉ next.log.completed) (holds : Holds pool n k) :
    Holds next n k := by
  have count := step_count taken
  rcases step_turned inv taken with ⟨j,wp,turned,workers⟩ | ⟨x,work,free,_,workers⟩ | ⟨_,workers⟩
  · simpa [Holds,Pool.put,workers,count] using turned_holds turned n k left holds
  · simpa [Holds,Pool.put,workers,count] using accepting_holds work free n k holds
  · simpa [Holds,workers,count] using holds

def turnsLeft (n k : Nat) (pool : Pool δ) : Nat :=
  if n ∈ pool.log.started.map Prod.fst then 0 else
  match (pool.workers k).place with
  | .picked => 1
  | _ => 2

structure Due (n k : Nat) (pool : Pool δ) : Prop where
  kept : Kept pool
  holds : n ∉ pool.log.started.map Prod.fst → Holds pool n k

private theorem holds_stage {pool : Pool δ} {n k : Nat} (inv : Inv pool) (holds : Holds pool n k) :
    ∃ work, (pool.workers k).work = some (n,work) ∧ Stage pool.log n work (pool.workers k).place := by
  obtain ⟨_,busy,work,has⟩ := holds
  obtain ⟨m,other,also,stage⟩ := (inv.sound.tended k).taken busy
  rw [has] at also
  obtain ⟨rfl,rfl⟩ := Prod.mk.inj (Option.some.inj also)
  exact ⟨work,has,stage⟩

private theorem due_place {pool : Pool δ} {n k : Nat} (due : Due n k pool) (waiting : n ∉ pool.log.started.map Prod.fst) :
    (pool.workers k).place = .ready ∨ (pool.workers k).place = .picked := by
  have holds := due.holds waiting
  obtain ⟨work,has,stage⟩ := holds_stage due.kept.inv holds
  obtain ⟨_,stays,awake⟩ := due.kept.attentive k
  cases place : (pool.workers k).place with
  | ready => exact Or.inl rfl
  | picked => exact Or.inr rfl
  | asleep => exact absurd place (awake holds.2.1)
  | exited => exact absurd place stays
  | running m other =>
    rw [place] at stage
    exact absurd stage.2.1 waiting
  | ran =>
    rw [place] at stage
    exact absurd (due.kept.inv.sound.begun n stage) waiting

private theorem step_due (n k : Nat) (pool : Pool δ) (event : Event) (next : Pool δ) (due : Due n k pool)
    (taken : step pool event = some next) : Due n k next where
  kept := step_kept pool event next due.kept taken
  holds := by
    intro waiting
    have before : n ∉ pool.log.started.map Prod.fst := fun started => waiting (step_started taken n started)
    have kept := step_kept pool event next due.kept taken
    exact step_holds due.kept.inv taken n k (fun done => waiting (kept.inv.sound.begun n done)) (due.holds before)

private theorem own_turn (n k : Nat) (pool : Pool δ) (next : Pool δ) (due : Due n k pool)
    (taken : step pool (.worker k) = some next) : turnsLeft n k next ≤ turnsLeft n k pool - 1 := by
  by_cases started : n ∈ pool.log.started.map Prod.fst
  · have still := step_started taken n started
    rw [turnsLeft,if_pos still]
    exact Nat.zero_le _
  have holds := due.holds started
  have busy : (pool.workers k).busy = true := holds.2.1
  have done := (due.kept.attentive k).done
  have place := due_place due started
  have turn := (worker_turn taken).2
  rw [turnsLeft,turnsLeft,if_neg started]
  cases turn with
  | looks waits =>
    have ready : (pool.workers k).place = .ready := by
      refine place.resolve_right fun picked => ?_
      rw [picked] at waits
      simp at waits
    simp [Pool.put,started,ready,look,done,busy]
  | starts m work picked has =>
    obtain ⟨other,also,_⟩ := holds_stage due.kept.inv holds
    rw [has] at also
    obtain ⟨rfl,rfl⟩ := Prod.mk.inj (Option.some.inj also)
    simp
  | completes m work running =>
    rw [running] at place
    simp at place
  | clears ran =>
    rw [ran] at place
    simp at place

private theorem other_turn (n k : Nat) (pool : Pool δ) (event : Event) (next : Pool δ) (due : Due n k pool)
    (taken : step pool event = some next) : turnsLeft n k next ≤ turnsLeft n k pool := by
  by_cases own : event = .worker k
  · subst own
    exact Nat.le_trans (own_turn n k pool next due taken) (Nat.sub_le _ _)
  by_cases started : n ∈ next.log.started.map Prod.fst
  · rw [turnsLeft,if_pos started]
    exact Nat.zero_le _
  have before : n ∉ pool.log.started.map Prod.fst := fun was => started (step_started taken n was)
  have same : (next.workers k).place = (pool.workers k).place := by
    have busy : (pool.workers k).busy = true := (due.holds before).2.1
    cases event with
    | worker j =>
      have apart : k ≠ j := fun same => own (by rw [same])
      cases (worker_turn taken).2 <;> simp [Pool.put,apart]
    | caller c expired =>
      cases caller_turn taken with
      | passes who => rfl
      | accepts work x doing inside free =>
        have apart : k ≠ x := by
          rintro rfl
          rw [busy] at free
          contradiction
        simp [Pool.goOn,Pool.put,apart]
      | marks timeout x doing inside => exact absurd doing (due.kept.untold.doing c timeout x)
  refine Nat.le_of_eq ?_
  rw [turnsLeft,turnsLeft,if_neg started,if_neg before,same]

private theorem two_turns {n k : Nat} {pool next : Pool δ} (due : Due n k pool) (events : List Event)
    (done : run step pool events = some next) (turns : 2 ≤ events.count (.worker k)) :
    n ∈ next.log.started.map Prod.fst := by
  have fewer := run_progress (Due n k) (fun event => event == .worker k) (turnsLeft n k) (step_due n k)
    (other_turn n k) (fun pool event next due own taken => ?own) due done
  case own =>
    obtain rfl : event = .worker k := by simpa using own
    exact own_turn n k pool next due taken
  have most : turnsLeft n k pool ≤ 2 := by
    unfold turnsLeft
    split
    · omega
    · split <;> omega
  have none : turnsLeft n k next = 0 := by
    rw [List.count] at turns
    omega
  by_contra waiting
  rw [turnsLeft,if_neg waiting] at none
  split at none <;> omega

/-- In every state that a pool comes to which is not told to finish. -/
theorem pool_exact (count : Nat) (program : Nat → List (Call δ)) (noFinish : ∀ c timeout, .finish timeout ∉ program c)
    (events : List Event) (pool : Pool δ) (reached : run step (createPool count program) events = some pool) :
    Exact pool := by
  have kept : Kept pool := run_invariant Kept step_kept (createPool_kept count program noFinish) reached
  have sound := kept.inv.sound
  refine
    { once := sound.once
      own := sound.known
      starts := fun n issued waiting => ?_
      keeps := fun event next taken k n work has changed => step_keeps kept.inv taken k n work has changed
      waited := fun c timeout x since doing last n early => ?_ }
  · obtain ⟨k,inside,holds⟩ := sound.held n issued fun done => waiting (sound.begun n done)
    have due : Due n k pool := ⟨kept,fun _ => ⟨inside,holds⟩⟩
    have place := due_place due waiting
    refine ⟨k,inside,?_,?_,fun events next done turns => two_turns due events done turns⟩
    · rcases place with place | place <;> simp [place]
    · obtain ⟨_,work,has⟩ := holds
      rcases place with place | place <;> simp [step,worker,Nat.not_le.mpr inside,place,has]
  · have ahead := kept.inv.ahead c
    rw [doing] at ahead
    by_contra left
    obtain ⟨k,beyond,inside,_⟩ := ahead.2 rfl n early left
    omega

/-! Two callers and two workers: the second caller finds the first slot taken. -/

def twoCallers : Nat → List (Call Char)
  | 0 => [.exec 'a',.wait 0]
  | 1 => [.exec 'b']
  | _ => []

def turns : List Event :=
  [.caller 0 false,.caller 0 false,.caller 1 false,.caller 1 false,.caller 1 false,.caller 0 false,.worker 0,.worker 1,
    .worker 1,.worker 0,.caller 0 false,.worker 1,.worker 1,.worker 0,.worker 0,.caller 0 false,.caller 0 false]

theorem pool_exact_two : ∃ pool, run step (createPool 2 twoCallers) turns = some pool ∧ Exact pool := by
  have runs : (run step (createPool 2 twoCallers) turns).isSome = true := by decide
  obtain ⟨pool,reached⟩ := Option.isSome_iff_exists.mp runs
  have noFinish (c : Nat) (timeout : Int) : .finish timeout ∉ twoCallers c := by
    match c with
    | 0 | 1 | _ + 2 => simp [twoCallers]
  exact ⟨pool,reached,pool_exact 2 twoCallers noFinish turns pool reached⟩

end Mybmm.WorkerOnce
