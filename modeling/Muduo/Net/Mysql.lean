import Muduo.Net.MysqlPool

set_option autoImplicit false

/-! # Mysql (`src/net/Mysql/Mysql.cpp`)

Three functions that take a connection out of the pool, let the driver execute a statement with it,
and put it back. The driver may throw `sql::SQLException` at each statement: its answer is `none`
then, and otherwise what `executeQuery`, `executeUpdate` or `execute` has returned. -/

namespace Mysql

/-- The functions that execute a statement. -/
inductive Statement
  | query
  | update
  | exec
deriving DecidableEq

/-- What a function returns: `std::unique_ptr<sql::ResultSet>`, `int` or `bool`. -/
inductive Value
  | result (res : Option Int)
  | count (n : Int)
  | flag (b : Bool)
  /-- The exception of the driver leaves the function. -/
  | thrown
deriving DecidableEq

/-- What a function does when the driver has answered. -/
structure Ending where
  /-- It calls `ReturnConnection(con)`; otherwise `con` is destroyed. -/
  returnsConnection : Bool
  value : Value
deriving DecidableEq

/-- `Mysql::query`, which has no handler. -/
def query : Option Int → Ending
  | some res => ⟨true, .result (some res)⟩
  | none => ⟨false, .thrown⟩

/-- `Mysql::update` -/
def update : Option Int → Ending
  | some n => ⟨true, .count n⟩
  | none => ⟨true, .count 0⟩

/-- `Mysql::exec` -/
def exec : Option Int → Ending
  | some _ => ⟨true, .flag true⟩
  | none => ⟨true, .flag false⟩

def ending : Statement → Option Int → Ending
  | .query => query
  | .update => update
  | .exec => exec

/-- What it returns when `GetConnection` has returned null. -/
def Statement.valueOfNull : Statement → Value
  | .query => .result none
  | .update => .count 0
  | .exec => .flag false

/-- Where a thread is. -/
inductive Call
  | idle
  /-- Inside `GetConnection`. -/
  | getting (f : Statement)
  /-- Inside the driver. -/
  | executing (f : Statement) (con : SqlConnection)
  /-- Inside `ReturnConnection`, or behind it, or about to return without a connection. -/
  | returning (value : Value)
deriving DecidableEq

/-- The connection that a call has got and not returned. -/
def Call.con : Call → Option SqlConnection
  | .executing _ con => some con
  | _ => none

end Mysql

structure Mysql where
  pool : MysqlPool
  calls : List Mysql.Call

namespace Mysql

/-- The constructor, `n` threads being there. -/
def new (size : Int) (n : Nat) : Mysql where
  pool := MysqlPool.new size n
  calls := List.replicate n .idle

def poolStep (s : Mysql) (a : MysqlPool.Action) : Option Mysql :=
  (s.pool.step a).map fun pool => { s with pool }

def goTo (s : Mysql) (i : Nat) (call : Call) : Mysql := { s with calls := s.calls.set i call }

/-- The driver has answered. -/
def finish (s : Mysql) (i : Nat) (con : SqlConnection) (ending : Ending) : Option Mysql :=
  let a := if ending.returnsConnection then .returnConnection i con else .destroy con
  (s.poolStep a).map fun s => s.goTo i (.returning ending.value)

inductive Action
  /-- The thread calls a function. -/
  | call (i : Nat) (f : Statement)
  /-- The thread goes on inside `pool_`. -/
  | next (i choice : Nat)
  /-- `cond_.wait` wakes up by itself. -/
  | wake (i : Nat)
  /-- `GetConnection` returns a connection. -/
  | got (i : Nat)
  /-- The driver answers. -/
  | execute (i : Nat) (answer : Option Int)
  /-- The function returns. -/
  | returned (i : Nat)
  /-- `~Mysql`, up to `NotifyAll` in `close`. -/
  | close
  /-- `NotifyAll` in `close`. -/
  | notifyAll
deriving DecidableEq

def step (s : Mysql) : Action → Option Mysql
  | .call i f =>
      match s.calls[i]? with
      | some .idle =>
          (s.poolStep (.getConnection i)).map fun s =>
            s.goTo i (if s.pool.running then .getting f else .returning f.valueOfNull)
      | _ => none
  | .next i choice => s.poolStep (.next i choice)
  | .wake i => s.poolStep (.wake i)
  | .got i =>
      match s.calls[i]? with
      | some (.getting f) =>
          (s.pool.got i).map fun (con, pool) => { s with pool }.goTo i (.executing f con)
      | _ => none
  | .execute i answer =>
      match s.calls[i]? with
      | some (.executing f con) => s.finish i con (ending f answer)
      | _ => none
  | .returned i =>
      match s.calls[i]? with
      | some (.returning _) => if s.pool.outside i then some (s.goTo i .idle) else none
      | _ => none
  | .close => s.poolStep .close
  | .notifyAll => s.poolStep .notifyAll

/-- `n` threads use a `Mysql` with a pool of `size` connections. -/
def machine (size : Int) (n : Nat) : Machine Mysql Action where
  init s := s = new size n
  step := step

end Mysql
