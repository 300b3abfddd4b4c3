import Muduo.Base.ThreadSafeQueue

set_option autoImplicit false

/-! # MysqlPool (`src/net/Mysql/MysqlPool.cpp`)

The pool is a `ThreadSafeQueue` of connections and the flag `runing_`. The driver is not part of the
repository: a connection is its number in the loop of the constructor.

A thread is inside `GetConnection` while it is inside `pool_.WaitPop()`, and inside
`ReturnConnection` while it is inside `pool_.push()`. The test of `runing_` and the entry into the
function of the queue are one step, and the two statements of `close` are two. Whoever has got a
connection may hand it to `ReturnConnection`, in any thread, or destroy it. -/

/-- The number of a connection. -/
abbrev SqlConnection := Nat

structure MysqlPool where
  /-- `size_` -/
  size : Int
  /-- `pool_` -/
  pool : ThreadSafeQueue SqlConnection
  /-- `runing_` -/
  running : Bool
  /-- How many threads are in `close` behind `runing_ = false`. -/
  closing : Nat
  /-- A call of `close` has returned. -/
  closed : Bool
  /-- What `GetConnection` has returned and nobody has handed to `ReturnConnection` yet. -/
  borrowed : List SqlConnection
  /-- What `ReturnConnection` did not put into the pool. -/
  dropped : List SqlConnection
  /-- What its user has destroyed instead. -/
  destroyed : List SqlConnection

namespace MysqlPool

/-- The loop of the constructor, `n` threads being there. -/
def fill (n : Nat) : Nat → ThreadSafeQueue SqlConnection
  | 0 => ThreadSafeQueue.new SqlConnection n
  | i + 1 => (fill n i).pushAlone i (i + 1)

/-- The constructor. -/
def new (size : Int) (n : Nat) : MysqlPool where
  size := size
  pool := fill n size.toNat
  running := true
  closing := 0
  closed := false
  borrowed := []
  dropped := []
  destroyed := []

/-- The thread is outside of every function of the pool. -/
def outside (s : MysqlPool) (i : Nat) : Bool := s.pool.threads[i]? = some (.returned none)

/-- A step inside `pool_`. -/
def poolStep (s : MysqlPool) (a : ThreadSafeQueue.Action SqlConnection) : Option MysqlPool :=
  (s.pool.step a).map fun pool => { s with pool }

/-- `GetConnection()` until it is inside `pool_.WaitPop()`, or has returned null. -/
def getConnection (s : MysqlPool) (i : Nat) : Option MysqlPool :=
  if s.running then s.poolStep (.pop i .waitPop)
  else if s.outside i then some s else none

/-- `GetConnection()` returns a connection. -/
def got (s : MysqlPool) (i : Nat) : Option (SqlConnection × MysqlPool) :=
  match s.pool.threads[i]? with
  | some (.returned (some con)) =>
      (s.poolStep (.take i)).map fun s => (con, { s with borrowed := con :: s.borrowed })
  | _ => none

/-- `ReturnConnection(con)` until it is inside `pool_.push()`, or has returned. -/
def returnConnection (s : MysqlPool) (i : Nat) (con : SqlConnection) : Option MysqlPool :=
  if con ∈ s.borrowed then
    let s := { s with borrowed := s.borrowed.erase con }
    if s.running then s.poolStep (.push i con)
    else if s.outside i then some { s with dropped := con :: s.dropped } else none
  else none

/-- The destructor of a connection that has not been returned. -/
def destroy (s : MysqlPool) (con : SqlConnection) : Option MysqlPool :=
  if con ∈ s.borrowed then
    some { s with borrowed := s.borrowed.erase con, destroyed := con :: s.destroyed }
  else none

/-- `runing_ = false` -/
def close (s : MysqlPool) : MysqlPool := { s with running := false, closing := s.closing + 1 }

/-- `pool_.NotifyAll()`, with which `close` returns. -/
def notifyAll (s : MysqlPool) : Option MysqlPool :=
  if 0 < s.closing then
    some { s with pool := s.pool.notifyAll, closing := s.closing - 1, closed := true }
  else none

inductive Action
  | getConnection (i : Nat)
  /-- The thread goes on inside `pool_`. -/
  | next (i choice : Nat)
  /-- `cond_.wait` wakes up by itself. -/
  | wake (i : Nat)
  | got (i : Nat)
  | returnConnection (i : Nat) (con : SqlConnection)
  | destroy (con : SqlConnection)
  | close
  | notifyAll
deriving DecidableEq

def step (s : MysqlPool) : Action → Option MysqlPool
  | .getConnection i => s.getConnection i
  | .next i choice => s.poolStep (.next i choice)
  | .wake i => s.poolStep (.wake i)
  | .got i => (s.got i).map Prod.snd
  | .returnConnection i con => s.returnConnection i con
  | .destroy con => s.destroy con
  | .close => some s.close
  | .notifyAll => s.notifyAll

/-- A pool of `size` connections that `n` threads use. -/
def machine (size : Int) (n : Nat) : Machine MysqlPool Action where
  init s := s = new size n
  step := step

end MysqlPool
