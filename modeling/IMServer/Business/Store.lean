import IMServer.Base.KeyedSum
import IMServer.Base.Program
import IMServer.Business.Messages

/-!
# The stores behind the business functions

One command is one atomic step of Redis (`server/src/CachePool.cc`), of MySQL
(`server/src/MysqlUtil.cc`, schema `server/proto/im.sql`), of the connection pools, of the
clock and of `rand`, or of the routing table and the connections of `server/src/Server.h`.
The world also holds what the outside will answer: how far the clock moves before it is
read, the values of `rand`, and which store calls fail.

Redis is one key space. Keys do not expire: they live for a day and longer, and they hold no
zero byte. A value is a message or a string of bytes: the format of the business functions says
which of the two `setpb` stores. A statement that succeeds applies its arithmetic exactly; one
that MySQL refuses is a call that fails.
-/

namespace IMServer.Business

open IMServer.Base

/-- A connection object taken from a pool. -/
abbrev Handle := Nat

/-- A `TcpConnection`. -/
abbrev ConnId := Nat

/-- `TcpConnection.h`, `enum StateE`. -/
inductive ConnState where
  | kDisconnected
  | kConnecting
  | kConnected
  | kDisconnecting
  deriving DecidableEq, Repr

/-- What is stored under a Redis key. -/
inductive RedisValue where
  | hongbao (p : SendHongbao)
  | session (s : Session)
  /-- The decimal text of a time. -/
  | stamp (time : Int)
  | list (items : List (List UInt8))
  /-- Any other string. -/
  | bytes (value : List UInt8)
  deriving DecidableEq, Repr

/-- A row of `IMUser`; `im.sql:262–276`. -/
structure IMUser where
  id : Int := 0
  sex : Int := 0
  age : Int := 0
  name : String := ""
  nick : String := ""
  password : String := ""
  phone : String := ""
  email : String := ""
  created : Int := 0
  updated : Option Int := none
  signInfo : String := ""
  money : Int := 0
  deriving DecidableEq, Repr

/-- A row of `Hongbao`; `im.sql:280–293`. The log of shares is kept as the packet it is the
serialisation of. -/
structure HongbaoRow where
  hbkey : String := ""
  sender : String := ""
  money : Int := 0
  category : Int := 0
  count : Int := 0
  receiver : String := ""
  time : Int := 0
  leftmoney : Option Int := none
  leftcount : Int := 0
  roblog : Option SendHongbao := none
  deriving DecidableEq, Repr

/-- The statements `Mysql::Execute` is given. -/
inductive Statement where
  /-- `update IMUser set money=money+… where name = …`; a debit adds the negated amount. -/
  | addMoney (amount : Int) (name : String)
  /-- `insert into IMUser(…) values(…)`; the table gives the row its id. -/
  | insertUser (row : IMUser)
  /-- `insert into Hongbao(…) values(…)`. -/
  | insertHongbao (row : HongbaoRow)
  /-- `update Hongbao set leftmoney=…, leftcount=…, roblog=… where hbkey = …`. -/
  | updateHongbao (leftmoney leftcount : Int) (roblog : SendHongbao) (hbkey : String)
  /-- A text that is no statement: `%lf` has printed `inf` or `nan`. -/
  | malformed
  deriving DecidableEq, Repr

/-- How a store call ends. A call that is not `done` has failed; of a statement that MySQL was
given, `Mysql::MysqlQuery` may have lost the reply and sent it again; `MysqlUtil.cc:184–201`. -/
inductive Outcome where
  | done
  /-- No reply, and no effect. -/
  | noReply
  /-- `Init` or `Connect` of the connection failed. -/
  | noInit
  /-- The statement was applied, and its reply is lost. -/
  | replyLost
  /-- The statement was applied, its reply was lost, and it was sent and applied again. -/
  | resent
  /-- As before, and the second reply is lost too. -/
  | resentLost
  deriving DecidableEq, Repr

namespace Outcome

/-- What `Mysql::Execute` returns; `MysqlUtil.cc:262–287`. -/
def code : Outcome → Int
  | done | resent => 0
  | noInit => -1
  | noReply | replyLost | resentLost => -2

/-- How often MySQL has applied the statement. -/
def times : Outcome → Nat
  | noReply | noInit => 0
  | done | replyLost => 1
  | resent | resentLost => 2

end Outcome

/-- What `Execute` returns for a statement: MySQL refuses a text that is none. -/
def Statement.reply : Statement → Outcome → Int
  | .malformed, .noInit => -1
  | .malformed, _ => -2
  | _, o => o.code

/-- What the outside will answer; a list that is used up answers 0 and `done`. -/
structure Oracle where
  /-- Seconds that pass before each reading of the clock. -/
  ticks : List Nat := []
  /-- Values of `rand()`. -/
  draws : List Nat := []
  outcomes : List Outcome := []
  deriving DecidableEq, Repr

structure World where
  clock : Nat := 0
  oracle : Oracle := {}
  redis : AList (fun _ : String => RedisValue) := ∅
  imUser : List IMUser := []
  hongbao : List HongbaoRow := []
  /-- Calls of `StopRobHongbao` that wait in the timer queue, with their due time. -/
  timers : List (Nat × String × String) := []
  /-- `Server::connMap_`; an entry that holds a null pointer is no entry. -/
  connMap : String → Option ConnId := fun _ => none
  connState : ConnId → ConnState := fun _ => .kDisconnected
  /-- What reached `TcpConnection::sendInLoop`, in order. -/
  sent : List (ConnId × Outgoing) := []
  /-- Connections checked out of the two kinds of pools. -/
  cacheOut : List Handle := []
  mysqlOut : List Handle := []
  nextHandle : Handle := 0

/-- One atomic step of a business function. -/
inductive Cmd where
  /-- `time(NULL)`. -/
  | time
  /-- `rand()`. -/
  | rand
  /-- `CacheManager::getInstance`. -/
  | getInstance
  | getCacheConn (poolName : String)
  | relCacheConn (conn : Option Handle)
  /-- `MysqlLinkPool::GetConnection`. -/
  | getConnection
  | releaseConnection (ml : Option Handle)
  | get (key : String)
  | setex (key : String) (timeout : Int) (value : RedisValue)
  | setnx (key : String) (time : Int)
  | getset (key : String) (time : Int)
  | del (key : String)
  | lpush (key : String) (value : List UInt8)
  | lrange (key : String) (start stop : Int)
  | execute (stmt : Statement)
  /-- `select * from IMUser where name = … and password = …`. -/
  | queryLogin (name password : String)
  /-- `select * from IMUser where name = …`. -/
  | queryName (name : String)
  /-- `GServer->runAfter` of `StopRobHongbao`. -/
  | runAfter (delay : Nat) (key sender : String)
  | getConnByUsername (username : String)
  | saveUsernameConn (username : String) (conn : ConnId)
  /-- `TcpConnection::send`. -/
  | send (conn : ConnId) (message : Outgoing)
  deriving DecidableEq, Repr

/-- What a command returns. A pool returns `none` for a null pointer. `get` returns `none`
when `Init` fails, else the string value if there is one. -/
@[reducible]
def Reply : Cmd → Type
  | .time | .rand => Nat
  | .getInstance => Bool
  | .getCacheConn _ | .getConnection => Option Handle
  | .get _ => Option (Option RedisValue)
  | .getset _ _ => Option RedisValue
  | .setnx _ _ | .lpush _ _ | .execute _ => Int
  | .lrange _ _ _ => Option (List (List UInt8))
  | .queryLogin _ _ | .queryName _ => Option (List IMUser)
  | .getConnByUsername _ => Option ConnId
  | .relCacheConn _ | .releaseConnection _ | .setex _ _ _ | .del _ | .runAfter _ _ _
  | .saveUsernameConn _ _ | .send _ _ => Unit

namespace RedisValue

/-- The value of a string reply; a list is a reply of another type. -/
def string? : RedisValue → Option RedisValue
  | list _ => none
  | v => some v

/-- The elements of a list reply. -/
def items : RedisValue → List (List UInt8)
  | list xs => xs
  | _ => []

/-- Money a stored value holds. -/
def money : RedisValue → Int
  | hongbao p => p.leftmoney
  | _ => 0

end RedisValue

/-- The part of a list that `LRANGE` returns; negative indices count from the end. -/
def lrange (xs : List (List UInt8)) (start stop : Int) : List (List UInt8) :=
  let index (i : Int) : Int := if i < 0 then xs.length + i else i
  (xs.take (index stop + 1).toNat).drop (index start).toNat

namespace World

/-- How the next store call ends. -/
def outcome (w : World) : Outcome := w.oracle.outcomes.headD .done

/-- The world once the outcome of a store call is used. -/
def spend (w : World) : World :=
  { w with oracle := { w.oracle with outcomes := w.oracle.outcomes.tail } }

/-- Apply a statement to the tables. -/
def apply (w : World) : Statement → World
  | .addMoney amount name =>
    let add (r : IMUser) : IMUser := { r with money := r.money + amount }
    { w with imUser := updateWhere (·.name = name) add w.imUser }
  | .insertUser row =>
    let id := (w.imUser.map (·.id)).foldl max 0 + 1
    { w with imUser := w.imUser ++ [{ row with id := id }] }
  | .insertHongbao row => { w with hongbao := w.hongbao ++ [row] }
  | .updateHongbao leftmoney leftcount roblog hbkey =>
    let set (r : HongbaoRow) : HongbaoRow :=
      { r with leftmoney := some leftmoney, leftcount := leftcount, roblog := some roblog }
    { w with hongbao := updateWhere (·.hbkey = hbkey) set w.hongbao }
  | .malformed => w

/-- A statement leaves everything but the tables. -/
theorem apply_frame (w : World) (stmt : Statement) :
    ∃ users rows, w.apply stmt = { w with imUser := users, hongbao := rows } := by
  cases stmt with
  | addMoney amount name => exact ⟨_, _, rfl⟩
  | insertUser row => exact ⟨_, _, rfl⟩
  | insertHongbao row => exact ⟨_, _, rfl⟩
  | updateHongbao leftmoney leftcount roblog hbkey => exact ⟨_, _, rfl⟩
  | malformed => exact ⟨_, _, rfl⟩

/-- A statement moves the same money in every world with the same accounts. -/
theorem apply_imUser_congr {w w' : World} (h : w'.imUser = w.imUser) (stmt : Statement) :
    (w'.apply stmt).imUser = (w.apply stmt).imUser := by
  cases stmt <;> simp only [apply, h]

private theorem iterate_apply (stmt : Statement) (n : Nat) (w : World) :
    ∃ users rows, (apply · stmt)^[n] w = { w with imUser := users, hongbao := rows } := by
  induction n with
  | zero => exact ⟨_, _, rfl⟩
  | succ n ih =>
    obtain ⟨users, rows, h⟩ := ih
    rw [Function.iterate_succ_apply', h]
    exact apply_frame _ stmt

end World

/-- Execute one command. -/
def exec : (c : Cmd) → World → Reply c × World
  | .time, w =>
    let now := w.clock + w.oracle.ticks.headD 0
    (now, { w with clock := now, oracle := { w.oracle with ticks := w.oracle.ticks.tail } })
  | .rand, w =>
    (w.oracle.draws.headD 0, { w with oracle := { w.oracle with draws := w.oracle.draws.tail } })
  | .getInstance, w => (decide (w.outcome = .done), w.spend)
  | .getCacheConn _, w =>
    if w.outcome = .done then
      (some w.nextHandle, { w.spend with cacheOut := w.nextHandle :: w.cacheOut
                                         nextHandle := w.nextHandle + 1 })
    else (none, w.spend)
  | .relCacheConn conn, w => ((), { w with cacheOut := w.cacheOut.filter fun h => some h ≠ conn })
  | .getConnection, w =>
    if w.outcome = .done then
      (some w.nextHandle, { w.spend with mysqlOut := w.nextHandle :: w.mysqlOut
                                         nextHandle := w.nextHandle + 1 })
    else (none, w.spend)
  | .releaseConnection ml, w => ((), { w with mysqlOut := w.mysqlOut.filter fun h => some h ≠ ml })
  | .get key, w =>
    match w.outcome with
    | .done => (some ((w.redis.lookup key).bind RedisValue.string?), w.spend)
    | .noInit => (none, w.spend)
    | _ => (some none, w.spend)
  | .setex key _ value, w =>
    ((), if w.outcome = .done then { w.spend with redis := w.redis.insert key value } else w.spend)
  | .setnx key time, w =>
    if w.outcome = .done then
      if key ∈ w.redis then ((0 : Int), w.spend)
      else ((1 : Int), { w.spend with redis := w.redis.insert key (.stamp time) })
    else ((-1 : Int), w.spend)
  | .getset key time, w =>
    if w.outcome = .done then
      ((w.redis.lookup key).bind RedisValue.string?,
        { w.spend with redis := w.redis.insert key (.stamp time) })
    else (none, w.spend)
  | .del key, w =>
    ((), if w.outcome = .done then { w.spend with redis := w.redis.erase key } else w.spend)
  | .lpush key value, w =>
    if w.outcome = .done then
      match w.redis.lookup key with
      | none => ((1 : Int), { w.spend with redis := w.redis.insert key (.list [value]) })
      | some (.list xs) =>
        ((xs.length + 1 : Int), { w.spend with redis := w.redis.insert key (.list (value :: xs)) })
      -- a reply of the wrong type carries the integer 0
      | some _ => ((0 : Int), w.spend)
    else ((-1 : Int), w.spend)
  | .lrange key start stop, w =>
    if w.outcome = .done then
      (some (lrange ((w.redis.lookup key).elim [] RedisValue.items) start stop), w.spend)
    else (none, w.spend)
  | .execute stmt, w => (stmt.reply w.outcome, (World.apply · stmt)^[w.outcome.times] w.spend)
  | .queryLogin name password, w =>
    if w.outcome = .done then
      (some (w.imUser.filter fun r => r.name = name ∧ r.password = password), w.spend)
    else (none, w.spend)
  | .queryName name, w =>
    if w.outcome = .done then (some (w.imUser.filter (·.name = name)), w.spend)
    else (none, w.spend)
  | .runAfter delay key sender, w =>
    ((), { w with timers := w.timers ++ [(w.clock + delay, key, sender)] })
  | .getConnByUsername username, w => (w.connMap username, w)
  | .saveUsernameConn username conn, w =>
    ((), { w with connMap := Function.update w.connMap username (some conn) })
  -- `TcpConnection.cc:103–122`: only a connected connection takes the message
  | .send conn message, w =>
    ((), if w.connState conn = .kConnected then { w with sent := w.sent ++ [(conn, message)] }
         else w)

/-- `Execute` changes the tables only. -/
theorem exec_execute_frame (stmt : Statement) (w : World) :
    ∃ users rows, (exec (.execute stmt) w).2 = { w.spend with imUser := users, hongbao := rows } :=
  World.iterate_apply stmt w.outcome.times w.spend

section Outcome

variable {w : World}

/-- Nothing is left to be spent. -/
theorem World.spend_eq (hc : w.oracle.outcomes = []) : w.spend = w := by
  obtain ⟨clock, ⟨ticks, draws, outcomes⟩, _⟩ := w
  cases hc
  rfl

/-- The next call succeeds. -/
theorem outcome_calm (hc : w.oracle.outcomes = []) : w.outcome = .done := by
  rw [World.outcome, hc]
  rfl

/-- The manager. -/
theorem exec_getInstance (hc : w.oracle.outcomes = []) : exec .getInstance w = (true, w) := by
  simp [exec, outcome_calm hc, World.spend_eq hc]

end Outcome

/-- Why a business function does not return. -/
inductive Abort where
  /-- A member function is called on a null pointer. -/
  | nullPointer
  /-- A C++ exception that nothing catches. -/
  | exception
  /-- A write past the end of a local array. -/
  | overrun
  /-- An `int` division that the processor refuses. -/
  | trap
  deriving DecidableEq, Repr

/-- A business function. -/
abbrev Op (α : Type) := Prog Cmd Reply Abort α

/-- Issue one command. -/
abbrev issue (c : Cmd) : Op (Reply c) := Prog.request c

/-- The world after a function that has returned. -/
def returned {α : Type} : Except Abort α × World → Option World
  | (.ok _, w') => some w'
  | (.error _, _) => none

/-- The world of a call that has returned. -/
theorem eq_of_returned {α : Type} {r : Except Abort α × World} {w : World}
    (h : returned r = some w) : w = r.2 := by
  obtain ⟨res | res, w'⟩ := r
  · cases h
  · exact (Option.some.inj h).symm

end IMServer.Business
