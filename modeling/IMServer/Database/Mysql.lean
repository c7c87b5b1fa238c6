import Mathlib.Data.List.Basic

/-!
# One MySQL connection

`server/src/MysqlUtil.cc:154–287`. What the calls of the client library will answer is part of the
state, so that every pattern of outcomes is a state. The texts of errors and the result of a query
are left out: nothing here reads them.
-/

namespace IMServer.Database

/-- What becomes of a statement that is given to `mysql_query`. -/
inductive QueryOutcome where
  /-- It is applied, and reported so. -/
  | applied
  /-- It is applied, and reported as an error because the reply is lost. -/
  | replyLost
  /-- It is not applied, and reported as an error. -/
  | failed
  deriving DecidableEq, Repr

namespace QueryOutcome

/-- How often the server has applied the statement. -/
def times : QueryOutcome → Nat
  | applied | replyLost => 1
  | failed => 0

/-- What `mysql_query` returns. -/
def code : QueryOutcome → Int
  | applied => 0
  | replyLost | failed => 1

end QueryOutcome

/-- A handle of the client library: what its calls will answer, and the statements that the server
has applied. A list that is used up answers with success. -/
structure MYSQL where
  /-- Whether `mysql_real_connect` succeeds. -/
  connects : List Bool := []
  /-- Whether `mysql_ping` succeeds. -/
  pings : List Bool := []
  queries : List QueryOutcome := []
  applied : List String := []
  deriving DecidableEq, Repr

namespace MYSQL

/-- `mysql_real_connect`. -/
def realConnect (c : MYSQL) : Bool × MYSQL :=
  (c.connects.headD true, { c with connects := c.connects.tail })

/-- The next `mysql_ping` succeeds. -/
def alive (c : MYSQL) : Bool := c.pings.headD true

/-- `mysql_ping`. -/
def ping (c : MYSQL) : Int × MYSQL :=
  (if c.alive then 0 else 1, { c with pings := c.pings.tail })

/-- How the next `mysql_query` ends, and the one after it. -/
def outcome (c : MYSQL) : QueryOutcome := c.queries.headD .applied

def nextOutcome (c : MYSQL) : QueryOutcome := c.queries.tail.headD .applied

/-- `mysql_query`. -/
def query (c : MYSQL) (sql : String) : Int × MYSQL :=
  (c.outcome.code,
    { c with
      queries := c.queries.tail
      applied := c.applied ++ List.replicate c.outcome.times sql })

end MYSQL

/-- `Mysql::MysqlProp`; `MysqlUtil.cc:17–37`. -/
structure Mysql where
  connection : MYSQL := {}
  bConnected : Bool := false
  deriving DecidableEq, Repr

namespace Mysql

/-- `MysqlUtil.cc:154–172`. -/
def connect (m : Mysql) : Int × Mysql :=
  if m.bConnected then (0, m)
  else
    match m.connection.realConnect with
    | (true, connection) => (0, { connection, bConnected := true })
    | (false, connection) => (-1, { connection, bConnected := false })

/-- `MysqlUtil.cc:184–201`. -/
def mysqlQuery (ptMysql : MYSQL) (sSql : String) : Int × MYSQL :=
  match ptMysql.query sSql with
  | (ret, ptMysql) =>
    if ret ≠ 0 then
      match ptMysql.ping with
      | (alive, ptMysql) => if alive = 0 then ptMysql.query sSql else (ret, ptMysql)
    else (ret, ptMysql)

/-- `MysqlUtil.cc:251–260`. -/
def ping (m : Mysql) : Int × Mysql :=
  match m.connection.ping with
  | (ret, connection) =>
    if ret ≠ 0 then (-1, { connection, bConnected := false }) else (0, { m with connection })

/-- What `Query` and `Execute` do first: connect if need be, and once more if the connection does
not answer; `MysqlUtil.cc:264–277`. -/
def checkConnection (m : Mysql) : Bool × Mysql :=
  match m.connect with
  | (_, m) =>
    match m.connection.ping with
    | (ret, connection) =>
      if ret ≠ 0 then
        match connect { connection, bConnected := false } with
        | (ret, m) => if ret ≠ 0 then (false, { m with bConnected := false }) else (true, m)
      else (true, { m with connection })

/-- `MysqlUtil.cc:262–287`. -/
def execute (m : Mysql) (szSqlString : String) : Int × Mysql :=
  match m.checkConnection with
  | (false, m) => (-1, m)
  | (true, m) =>
    match mysqlQuery m.connection szSqlString with
    | (ret, connection) => (if ret ≠ 0 then -2 else 0, { m with connection })

end Mysql

/-! ### How often a statement is applied -/

/-- The reply of the first `mysql_query` is lost, `mysql_ping` succeeds, and the statement is
applied once more. -/
def MYSQL.Resends (c : MYSQL) : Prop :=
  c.outcome = .replyLost ∧ c.alive = true ∧ c.nextOutcome ≠ .failed
  deriving Decidable

/-- The statement is given to the server twice by one `Execute`, and applied both times. -/
def Mysql.Resends (m : Mysql) : Prop :=
  m.checkConnection.1 = true ∧ m.checkConnection.2.connection.Resends
  deriving Decidable

/-- A call has applied its statement at most once, and exactly once if it returns 0. -/
def AppliedOnce (sql : String) (m : Mysql) (r : Int × Mysql) : Prop :=
  ∃ n, r.2.connection.applied = m.connection.applied ++ List.replicate n sql ∧ n ≤ 1 ∧
    (r.1 = 0 → n = 1)

namespace Mysql

/-- `MysqlQuery` gives its statement to the server again when it has seen an error and the
connection answers. -/
theorem mysqlQuery_eq (c : MYSQL) (sql : String) :
    (mysqlQuery c sql).1 =
        (if c.outcome.code ≠ 0 ∧ c.alive = true then c.nextOutcome else c.outcome).code ∧
      (mysqlQuery c sql).2.applied = c.applied ++ List.replicate (c.outcome.times +
        if c.outcome.code ≠ 0 ∧ c.alive = true then c.nextOutcome.times else 0) sql := by
  have heq : mysqlQuery c sql = if c.outcome.code ≠ 0 then
      if (if c.alive then (0 : Int) else 1) = 0 then (c.query sql).2.ping.2.query sql
      else (c.outcome.code, (c.query sql).2.ping.2) else c.query sql := rfl
  rw [heq]
  by_cases hcode : c.outcome.code = 0
  · simp only [hcode, ne_eq, not_true_eq_false, false_and, if_false]
    exact ⟨hcode, rfl⟩
  cases c.alive with
  | false =>
    simp only [hcode, ne_eq, not_false_eq_true, Bool.false_eq_true, and_false, if_true, if_false]
    exact ⟨rfl, rfl⟩
  | true =>
    simp only [hcode, ne_eq, not_false_eq_true, and_self, if_true]
    rw [List.replicate_add, ← List.append_assoc]
    exact ⟨rfl, rfl⟩

/-- `MysqlQuery` applies a statement twice exactly when it resends it, and returns 0 only when it
has applied it. -/
theorem mysqlQuery_spec (c : MYSQL) (sql : String) :
    ∃ n, (mysqlQuery c sql).2.applied = c.applied ++ List.replicate n sql ∧
      (1 < n ↔ c.Resends) ∧ ((mysqlQuery c sql).1 = 0 → 0 < n) := by
  obtain ⟨hret, happlied⟩ := mysqlQuery_eq c sql
  refine ⟨_, happlied, ?_⟩
  rw [hret, MYSQL.Resends]
  cases c.outcome with
  | applied => simp [QueryOutcome.code, QueryOutcome.times]
  | replyLost =>
    cases c.alive <;> cases c.nextOutcome <;> decide
  | failed =>
    cases c.alive <;> cases c.nextOutcome <;> decide

private theorem connect_applied (m : Mysql) :
    m.connect.2.connection.applied = m.connection.applied := by
  unfold connect MYSQL.realConnect
  split
  · rfl
  · cases m.connection.connects.headD true with
    | false => rfl
    | true => rfl

/-- The check of the connection applies nothing. -/
theorem checkConnection_applied (m : Mysql) :
    m.checkConnection.2.connection.applied = m.connection.applied := by
  unfold checkConnection
  dsimp only
  split
  · split
    · exact (connect_applied _).trans (connect_applied m)
    · exact (connect_applied _).trans (connect_applied m)
  · exact connect_applied m

/-- What `Execute` applies is what its `MysqlQuery` applies. -/
theorem execute_spec (m : Mysql) (sql : String) :
    ∃ n, (m.execute sql).2.connection.applied = m.connection.applied ++ List.replicate n sql ∧
      (1 < n ↔ m.Resends) ∧ ((m.execute sql).1 = 0 → 0 < n) := by
  have hcheck := checkConnection_applied m
  unfold execute Resends
  generalize m.checkConnection = r at hcheck ⊢
  obtain ⟨_ | _, m'⟩ := r
  · refine ⟨0, ?_, by simp, by simp⟩
    rw [List.replicate_zero, List.append_nil]
    exact hcheck
  · obtain ⟨n, happlied, htwice, hret⟩ := mysqlQuery_spec m'.connection sql
    refine ⟨n, ?_, ?_, fun h => hret ?_⟩
    · rw [← hcheck]
      exact happlied
    · rw [htwice]
      simp
    · dsimp only at h
      split at h
      · cases h
      · next hzero => exact not_not.mp hzero

/-- For every statement and every pattern of outcomes: `Execute` applies it at most once, and
exactly once if it returns 0, exactly when it does not resend a statement whose reply was lost. -/
theorem execute_once_iff (m : Mysql) (sql : String) :
    AppliedOnce sql m (m.execute sql) ↔ ¬ m.Resends := by
  obtain ⟨n, happlied, htwice, hret⟩ := execute_spec m sql
  rw [← htwice]
  constructor
  · rintro ⟨k, hk, hle, -⟩
    have heq := List.append_cancel_left (happlied.symm.trans hk)
    have hlen := congrArg List.length heq
    rw [List.length_replicate, List.length_replicate] at hlen
    omega
  · intro hn
    refine ⟨n, happlied, by omega, fun h => ?_⟩
    have := hret h
    omega

/-- The reply to a debit is lost, the connection answers, and the debit is applied again: `Execute`
returns 0. -/
theorem execute_twice :
    let m : Mysql := { bConnected := true, connection := { queries := [.replyLost, .applied] } }
    let sql := "update IMUser set money=money-1.000000 where name = 'alice'"
    (m.execute sql).1 = 0 ∧ (m.execute sql).2.connection.applied = [sql, sql] := by
  decide

end Mysql
end IMServer.Database
