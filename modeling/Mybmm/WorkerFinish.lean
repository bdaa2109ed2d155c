import Mybmm.WorkerRuns

/-! A pool that is given work and then told to finish. A worker looks at the mark
before it looks at its work, so a slot that is marked too early loses what it holds. -/
namespace Mybmm.WorkerFinish
open Flags Machine WorkerPool WorkerRuns

variable {δ : Type}

/-- One caller gives the pool its work, and then finishes. -/
def finishing (count : Nat) (works : List δ) (timeout : Int) : Pool δ :=
  createPool count fun
    | 0 => works.map .exec ++ [.finish timeout]
    | _ + 1 => []

structure NothingLost (pool : Pool δ) : Prop where
  exits : ∀ k, (pool.workers k).place = .exited →
    ∀ n work, (pool.workers k).work = some (n,work) → n ∈ pool.log.completed
  waited : ∀ c timeout x since, (pool.callers c).doing = .wait timeout x 0 since → pool.count ≤ x →
    ∀ n < pool.log.accepted.length, n ∈ pool.log.completed

/-- However the workers go on. -/
def Safe (pool : Pool δ) : Prop :=
  ∀ events next, (∀ event ∈ events, ∃ k, event = .worker k) → run step pool events = some next → NothingLost next

/-- A slot with work that its worker has not come to. -/
def Unclaimed (wp : WorkerInfo δ) : Prop := wp.busy = true ∧ wp.place ∈ [.ready,.asleep]

/-- `worker_finish` marks no slot with unclaimed work. -/
def Claimed (pool : Pool δ) (event : Event) : Prop :=
  ∀ c expired, event = .caller c expired → ∀ timeout x, (pool.callers c).doing = .finish timeout x → x < pool.count →
    ¬ Unclaimed (pool.workers x)

/-! The caller's course: first no slot is marked, then no more work is given. -/

inductive Course (timeout : Int) (pool : Pool δ) : Prop where
  | gives (works : List δ) (calls : (pool.callers 0).calls = works.map .exec ++ [.finish timeout])
      (doing : (pool.callers 0).doing = .idle ∨ ∃ work x, (pool.callers 0).doing = .exec work x)
      (unmarked : ∀ k, (pool.workers k).done = false)
  | ends (calls : (pool.callers 0).calls = [])
      (doing : (pool.callers 0).doing = .idle ∨ (∃ x, (pool.callers 0).doing = .finish timeout x) ∨
        ∃ x busy, (pool.callers 0).doing = .wait timeout x busy pool.log.accepted.length)

/-- A marked worker has claimed its work, and only a marked one exits. -/
structure Settled (wp : WorkerInfo δ) : Prop where
  claimed : wp.done = true → wp.busy = true → wp.place ∉ [.ready,.asleep,.exited]
  exits : wp.place = .exited → wp.done = true

structure Orderly (timeout : Int) (pool : Pool δ) : Prop where
  inv : Inv pool
  others : ∀ c, (pool.callers (c + 1)).calls = [] ∧ (pool.callers (c + 1)).doing = .idle
  course : Course timeout pool
  settled : ∀ k, Settled (pool.workers k)

theorem worker_leaves {pool : Pool δ} {k : Nat} {next : Pool δ} (turn : WorkerTurn pool k next) :
    next.callers = pool.callers ∧ next.log.accepted = pool.log.accepted ∧
      ∀ j, (next.workers j).done = (pool.workers j).done := by
  cases turn with
  | looks | starts | completes | clears =>
    refine ⟨rfl,rfl,fun j => ?_⟩
    by_cases here : j = k
    · subst here
      simp [Pool.put,WorkerInfo.done]
    · simp [Pool.put,here]

private theorem worker_settled {pool : Pool δ} {k : Nat} {next : Pool δ} (settled : ∀ k, Settled (pool.workers k))
    (turn : WorkerTurn pool k next) (j : Nat) : Settled (next.workers j) := by
  by_cases here : j = k
  · subst here
    cases turn with
    | looks waits =>
      simp only [Pool.put,Function.update_self]
      constructor
      · intro done busy
        have away := (settled j).claimed done busy
        rcases waits with place | place <;> simp [place] at away
      · intro exited
        by_contra unmarked
        have unmarked : (pool.workers j).done = false := Bool.not_eq_true _ ▸ unmarked
        by_cases busy : (pool.workers j).busy <;> simp [look,unmarked,busy] at exited
    | starts | completes => simpa [Pool.put] using ⟨fun _ _ => by simp,by simp⟩
    | clears place =>
      simp only [Pool.put,Function.update_self]
      exact ⟨by simp [WorkerInfo.busy],by simp⟩
  · have same : next.workers j = pool.workers j := by cases turn <;> simp [Pool.put,here]
    rw [same]
    exact settled j

private theorem course_unmarked {timeout : Int} {pool : Pool δ} (course : Course timeout pool) {work : δ} {x : Nat}
    (doing : (pool.callers 0).doing = .exec work x) (k : Nat) : (pool.workers k).done = false := by
  cases course with
  | gives _ _ _ unmarked => exact unmarked k
  | ends _ other =>
    rw [doing] at other
    simp at other

private theorem caller_settled {timeout : Int} {pool : Pool δ} {expired : Bool} {next : Pool δ}
    (orderly : Orderly timeout pool)
    (claimed : Claimed pool (.caller 0 expired)) (turn : CallerTurn pool 0 next) (j : Nat) :
    Settled (next.workers j) := by
  have settled := orderly.settled
  cases turn with
  | passes who => exact settled j
  | accepts work x doing inside free =>
    by_cases here : j = x
    · subst here
      have unmarked := course_unmarked orderly.course doing j
      have stays : (pool.workers j).place ≠ .exited := by
        intro exited
        rw [(settled j).exits exited] at unmarked
        contradiction
      simp only [Pool.goOn,Pool.put,Function.update_self]
      constructor
      · intro done
        have same : (given pool j work).done = (pool.workers j).done := by simp [given,WorkerInfo.done]
        rw [same,unmarked] at done
        contradiction
      · intro exited
        cases place : (pool.workers j).place <;> simp_all [given,signal]
    · simpa [Pool.goOn,Pool.put,here] using settled j
  | marks timeout x doing inside =>
    by_cases here : j = x
    · subst here
      have waits := claimed 0 expired rfl timeout j doing inside
      simp only [Pool.goOn,Pool.put,Function.update_self]
      refine ⟨fun _ busy => ?_,fun _ => by simp [marked,WorkerInfo.done]⟩
      have busy : (pool.workers j).busy = true := by simpa [marked,WorkerInfo.busy] using busy
      have away : (pool.workers j).place ∉ [.ready,.asleep] := fun place => waits ⟨busy,place⟩
      have stays : (pool.workers j).place ≠ .exited := by
        intro exited
        exact (settled j).claimed ((settled j).exits exited) busy (by simp [exited])
      cases place : (pool.workers j).place <;> simp_all [marked,signal]
    · simpa [Pool.goOn,Pool.put,here] using settled j

private theorem caller_course {timeout : Int} {pool : Pool δ} {expired : Bool} {next : Pool δ} (course : Course timeout pool)
    (taken : caller pool 0 expired = some next) : Course timeout next := by
  unfold caller at taken
  cases course with
  | gives works calls doing unmarked =>
    rcases doing with idle | ⟨work,x,exec⟩
    · simp only [idle,calls] at taken
      cases works with
      | nil =>
        simp only [List.map_nil,List.nil_append] at taken
        obtain rfl := Option.some.inj taken
        exact .ends (by simp) (by simp [begins])
      | cons work works =>
        simp only [List.map_cons,List.cons_append] at taken
        obtain rfl := Option.some.inj taken
        exact .gives works (by simp) (by simp [begins]) unmarked
    · simp only [exec,workerExec] at taken
      obtain rfl := Option.some.inj taken
      split
      · exact .gives works (by simpa [Pool.goOn] using calls) (by simp [Pool.goOn]) unmarked
      split
      · exact .gives works (by simpa [Pool.goOn] using calls) (by simp [Pool.goOn]) unmarked
      · refine .gives works (by simpa [Pool.goOn,Pool.put] using calls) (by simp [Pool.goOn]) fun k => ?_
        by_cases here : k = x
        · subst here
          simpa [Pool.goOn,Pool.put,WorkerInfo.done] using unmarked k
        · simpa [Pool.goOn,Pool.put,here] using unmarked k
  | ends calls doing =>
    rcases doing with idle | ⟨x,finish⟩ | ⟨x,busy,wait⟩
    · simp [idle,calls] at taken
    · simp only [finish,workerFinish] at taken
      obtain rfl := Option.some.inj taken
      split
      · exact .ends (by simpa [Pool.goOn,Pool.put] using calls) (by simp [Pool.goOn])
      · exact .ends (by simpa [Pool.goOn] using calls) (by simp [Pool.goOn])
    · simp only [wait,workerWait] at taken
      obtain rfl := Option.some.inj taken
      split
      · exact .ends (by simpa [Pool.goOn] using calls) (by simp [Pool.goOn])
      · split
        · exact .ends (by simpa [Pool.goOn] using calls) (by simp [Pool.goOn])
        · exact .ends (by simpa [Pool.goOn] using calls) (by simp [Pool.goOn])

private theorem only_caller {timeout : Int} {pool : Pool δ} {c : Nat} {expired : Bool} {next : Pool δ}
    (orderly : Orderly timeout pool) (taken : caller pool c expired = some next) : c = 0 := by
  cases c with
  | zero => rfl
  | succ c =>
    obtain ⟨calls,doing⟩ := orderly.others c
    simp [caller,doing,calls] at taken

private theorem caller_others {pool : Pool δ} {next : Pool δ} (turn : CallerTurn pool 0 next) (c : Nat) :
    next.callers (c + 1) = pool.callers (c + 1) := by
  cases turn <;> simp [Pool.goOn,Pool.put]

private theorem worker_orderly {timeout : Int} {pool : Pool δ} {k : Nat} {next : Pool δ} (orderly : Orderly timeout pool)
    (taken : step pool (.worker k) = some next) : Orderly timeout next := by
  have turn := (worker_turn taken).2
  obtain ⟨callers,accepted,done⟩ := worker_leaves turn
  refine ⟨step_inv pool _ next orderly.inv taken,?_,?_,worker_settled orderly.settled turn⟩
  · rw [callers]
    exact orderly.others
  · cases orderly.course with
    | gives works calls doing unmarked =>
      exact .gives works (by rw [callers,calls]) (by rwa [callers]) fun k => (done k).trans (unmarked k)
    | ends calls doing => exact .ends (by rw [callers,calls]) (by rwa [callers,accepted])

private theorem step_orderly (timeout : Int) (pool : Pool δ) (event : Event) (next : Pool δ) (orderly : Orderly timeout pool)
    (claimed : Claimed pool event) (taken : step pool event = some next) : Orderly timeout next := by
  cases event with
  | worker k => exact worker_orderly orderly taken
  | caller c expired =>
    obtain rfl := only_caller orderly taken
    have turn := caller_turn taken
    refine ⟨step_inv pool _ next orderly.inv taken,fun c => ?_,caller_course orderly.course taken,
      caller_settled orderly claimed turn⟩
    rw [caller_others turn]
    exact orderly.others c

private theorem finishing_orderly (count : Nat) (works : List δ) (timeout : Int) :
    Orderly timeout (finishing count works timeout) where
  inv := createPool_inv count _
  others := fun _ => ⟨rfl,rfl⟩
  course := .gives works rfl (Or.inl rfl) fun _ => by simp [finishing,createPool,WorkerInfo.done]
  settled := fun _ => ⟨by simp [finishing,createPool,WorkerInfo.done],by simp [finishing,createPool]⟩

private theorem orderly_lossless {timeout : Int} {pool : Pool δ} (orderly : Orderly timeout pool) : NothingLost pool where
  exits := by
    intro k exited n work has
    have free : (pool.workers k).busy = false := by
      by_contra busy
      have busy : (pool.workers k).busy = true := by simpa using busy
      exact (orderly.settled k).claimed ((orderly.settled k).exits exited) busy (by simp [exited])
    exact ((orderly.inv.sound.tended k).free free).2 n work has
  waited := by
    intro c timeout x since doing last n issued
    have all : since = pool.log.accepted.length := by
      cases c with
      | zero =>
        cases orderly.course with
        | gives _ _ other => simp [doing] at other
        | ends _ other =>
          simp only [doing,reduceCtorEq,exists_false,false_or,Doing.wait.injEq] at other
          obtain ⟨_,_,_,_,_,same⟩ := other
          exact same
      | succ c =>
        rw [(orderly.others c).2] at doing
        contradiction
    have ahead := orderly.inv.ahead c
    rw [doing] at ahead
    by_contra left
    obtain ⟨k,beyond,inside,_⟩ := ahead.2 rfl n (all ▸ issued) left
    omega

private theorem orderly_safe {timeout : Int} {pool : Pool δ} (orderly : Orderly timeout pool) : Safe pool := by
  intro events next workers done
  refine orderly_lossless (run_invariant_while (Orderly timeout) Claimed (step_orderly timeout) orderly ?_ done)
  intro visit member
  obtain ⟨k,own⟩ := workers _ (visits_input step events pool visit member)
  rw [own]
  rintro c expired ⟨⟩

/-- Work that is marked before its worker comes to it is lost at the worker's next turn. -/
private theorem unclaimed_unsafe {pool : Pool δ} (inv : Inv pool) {c : Nat} (expired : Bool) {timeout : Int} {x : Nat}
    (doing : (pool.callers c).doing = .finish timeout x) (inside : x < pool.count)
    (unclaimed : Unclaimed (pool.workers x)) :
    ∃ next, step pool (.caller c expired) = some next ∧ ¬ Safe next := by
  obtain ⟨busy,place⟩ := unclaimed
  obtain ⟨n,work,has,stage⟩ := (inv.sound.tended x).taken busy
  have waiting : n ∉ pool.log.completed := by
    simp only [List.mem_cons,List.not_mem_nil,or_false] at place
    intro done
    rcases place with place | place <;> rw [place] at stage <;> exact stage (inv.sound.begun n done)
  let next := (pool.put x (marked (pool.workers x))).goOn c (.finish timeout (x + 1))
  have marks : step pool (.caller c expired) = some next := by
    simp only [step,caller,doing,workerFinish,if_pos inside]
    rfl
  refine ⟨next,marks,fun safe => waiting ?_⟩
  have own : next.workers x = marked (pool.workers x) := by simp [next,Pool.goOn,Pool.put]
  have waits : (marked (pool.workers x)).place = .ready := by
    simp only [List.mem_cons,List.not_mem_nil,or_false] at place
    rcases place with place | place <;> simp [marked,place,signal]
  have done : (marked (pool.workers x)).done = true := by simp [marked,WorkerInfo.done]
  have exits : step next (.worker x) = some (next.put x { marked (pool.workers x) with place := .exited }) := by
    have inside : ¬ next.count ≤ x := Nat.not_le.mpr inside
    simp [step,worker,inside,own,waits,look,done]
  have lossless := safe [.worker x] _ (by simp) (by rw [run,exits]; rfl)
  exact lossless.exits x (by simp [Pool.put]) n work (by simpa [Pool.put,marked] using has)

/-- Nothing is lost in a run, however the workers go on from its states, exactly when
every slot that is marked has had its work claimed. -/
theorem finish_iff (count : Nat) (works : List δ) (timeout : Int) (events : List Event) :
    (∀ visit ∈ visits step (finishing count works timeout) events,
      ∀ next, step visit.1 visit.2 = some next → Safe next) ↔
      ∀ visit ∈ visits step (finishing count works timeout) events, Claimed visit.1 visit.2 := by
  refine visits_iff_while step (Orderly timeout) (fun pool event => ∀ next, step pool event = some next → Safe next)
    Claimed ?same (step_orderly timeout) events _ (finishing_orderly count works timeout)
  case same =>
    intro pool event orderly
    constructor
    · rintro safe c expired rfl time x doing inside unclaimed
      obtain ⟨next,taken,lost⟩ := unclaimed_unsafe orderly.inv expired doing inside unclaimed
      exact lost (safe next taken)
    · exact fun claimed next taken => orderly_safe (step_orderly timeout pool event next orderly claimed taken)

/-! One worker, told to finish before it has woken up. -/

def early : List Event := [.caller 0 false,.caller 0 false,.caller 0 false,.caller 0 false,.worker 0]

theorem early_lost : ¬ ∀ events pool, run step (finishing 1 ['a'] 0) events = some pool → NothingLost pool := by
  intro lossless
  have runs : ((run step (finishing 1 ['a'] 0) early).map fun pool =>
      decide ((pool.workers 0).place = .exited ∧ (pool.workers 0).work = some (0,'a') ∧ pool.log.completed = [])) =
        some true := by decide
  obtain ⟨pool,reached,facts⟩ := Option.map_eq_some_iff.mp runs
  obtain ⟨exited,has,none⟩ := of_decide_eq_true facts
  have finished := (lossless early pool reached).exits 0 exited 0 'a' has
  rw [none] at finished
  contradiction

end Mybmm.WorkerFinish
