import Mathlib.Logic.Function.Basic
import Mybmm.Support.Flags
import Mybmm.Support.Progress

/-! worker.c: the threads of a pool and the threads that give them work, one step a
section between a lock and its unlock. A condition is signalled while its lock is
held; a thread may also wake without a signal. Work stands for a function and its
argument, and a null function is turned away before it comes to the pool. Nobody is
killed: `worker_cancel`, which `worker_finish` ends with, is left out. -/
namespace Mybmm.WorkerPool
open Flags Machine

variable {δ : Type}

inductive WorkerFlag where
  | busy | done | kill
deriving DecidableEq

instance : FlagSet WorkerFlag 16 where
  mask
    | .busy => 0x01
    | .done => 0x02
    | .kill => 0x04
  mask_ne_zero := by intro a; cases a <;> decide
  mask_disjoint := by
    intro a b ne
    cases a <;> cases b <;> first | rfl | exact absurd rfl ne

/-- Where a worker stands: before its lock, in the wait for its condition, about to
call the function it was given, inside it, back from it, or gone. -/
inductive Place (δ : Type) where
  | ready
  | asleep
  | picked
  | running (n : Nat) (work : δ)
  | ran
  | exited
deriving DecidableEq

/-- `n` numbers the work that was accepted; the code does not keep it. -/
structure WorkerInfo (δ : Type) where
  flags : BitVec 16 := 0
  work : Option (Nat × δ) := none
  place : Place δ := .ready

def WorkerInfo.busy (wp : WorkerInfo δ) : Bool := check wp.flags WorkerFlag.busy

def WorkerInfo.done (wp : WorkerInfo δ) : Bool := check wp.flags WorkerFlag.done

inductive Call (δ : Type) where
  | exec (work : δ)
  | wait (timeout : Int)
  | finish (timeout : Int)

/-- What a caller is in the middle of, with the slot it comes to next. For a wait
also how many it has found busy, and what had been accepted when it began. -/
inductive Doing (δ : Type) where
  | idle
  | exec (work : δ) (x : Nat)
  | wait (timeout : Int) (x busy since : Nat)
  | finish (timeout : Int) (x : Nat)

structure Caller (δ : Type) where
  calls : List (Call δ)
  doing : Doing δ := .idle

/-- What has happened to the work, by number. -/
structure Log (δ : Type) where
  accepted : List δ := []
  started : List (Nat × δ) := []
  completed : List Nat := []

structure Pool (δ : Type) where
  count : Nat
  workers : Nat → WorkerInfo δ
  callers : Nat → Caller δ
  log : Log δ := {}

def Pool.put (pool : Pool δ) (k : Nat) (wp : WorkerInfo δ) : Pool δ :=
  { pool with workers := Function.update pool.workers k wp }

def Pool.goOn (pool : Pool δ) (c : Nat) (doing : Doing δ) : Pool δ :=
  { pool with callers := Function.update pool.callers c { pool.callers c with doing := doing } }

def signal : Place δ → Place δ
  | .asleep => .ready
  | place => place

/-- A turn of a worker, or of a caller, who may find that its time is up. -/
inductive Event where
  | worker (k : Nat)
  | caller (c : Nat) (expired : Bool)
deriving DecidableEq

/-- The worker's test of its flags, from the lock to the unlock or the wait. -/
def look (wp : WorkerInfo δ) : Place δ :=
  if wp.done then .exited else if wp.busy then .picked else .asleep

def worker (pool : Pool δ) (k : Nat) : Option (Pool δ) :=
  let wp := pool.workers k
  if pool.count ≤ k then none else
  match wp.place with
  | .ready | .asleep => some (pool.put k { wp with place := look wp })
  | .picked => wp.work.map fun (n,work) =>
    { pool.put k { wp with place := .running n work } with
      log := { pool.log with started := pool.log.started ++ [(n,work)] } }
  | .running n _ => some
    { pool.put k { wp with place := .ran } with log := { pool.log with completed := pool.log.completed ++ [n] } }
  | .ran => some (pool.put k { wp with flags := clear wp.flags WorkerFlag.busy, place := .ready })
  | .exited => none

def workerExec (pool : Pool δ) (c : Nat) (work : δ) (x : Nat) : Pool δ :=
  let wp := pool.workers x
  if pool.count ≤ x then pool.goOn c (.exec work 0)
  else if wp.busy then pool.goOn c (.exec work (x + 1))
  else
    let given : WorkerInfo δ :=
      { flags := set wp.flags WorkerFlag.busy, work := some (pool.log.accepted.length,work), place := signal wp.place }
    { (pool.put x given).goOn c .idle with log := { pool.log with accepted := pool.log.accepted ++ [work] } }

def workerWait (pool : Pool δ) (c : Nat) (timeout : Int) (x busy since : Nat) (expired : Bool) : Pool δ :=
  if x < pool.count then
    pool.goOn c (.wait timeout (x + 1) (if (pool.workers x).busy then busy + 1 else busy) since)
  else if busy = 0 ∨ 0 < timeout ∧ expired then pool.goOn c .idle
  else pool.goOn c (.wait timeout 0 0 since)

def workerFinish (pool : Pool δ) (c : Nat) (timeout : Int) (x : Nat) : Pool δ :=
  let wp := pool.workers x
  if x < pool.count then
    (pool.put x { wp with flags := set wp.flags WorkerFlag.done, place := signal wp.place }).goOn c
      (.finish timeout (x + 1))
  else pool.goOn c (.wait timeout 0 0 pool.log.accepted.length)

def begins (pool : Pool δ) : Call δ → Doing δ
  | .exec work => .exec work 0
  | .wait timeout => .wait timeout 0 0 pool.log.accepted.length
  | .finish timeout => .finish timeout 0

def caller (pool : Pool δ) (c : Nat) (expired : Bool) : Option (Pool δ) :=
  match (pool.callers c).doing with
  | .idle =>
    match (pool.callers c).calls with
    | [] => none
    | call :: calls => some { pool with callers := Function.update pool.callers c ⟨calls,begins pool call⟩ }
  | .exec work x => some (workerExec pool c work x)
  | .wait timeout x busy since => some (workerWait pool c timeout x busy since expired)
  | .finish timeout x => some (workerFinish pool c timeout x)

def step (pool : Pool δ) : Event → Option (Pool δ)
  | .worker k => worker pool k
  | .caller c expired => caller pool c expired

def createPool (count : Nat) (program : Nat → List (Call δ)) : Pool δ where
  count := count
  workers := fun _ => {}
  callers := fun c => ⟨program c,.idle⟩

end Mybmm.WorkerPool
