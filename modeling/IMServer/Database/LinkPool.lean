import IMServer.Base.Holders
import IMServer.Base.Run
import IMServer.Database.Mysql

/-!
# The pool of MySQL connections

`server/src/MysqlLinkPool.cc`. `GetConnection` and `ReleaseConnection` are critical sections, so
that a step is a whole call. A connection has an identity that no other connection ever has. The
state of the connection that a call pings, and what `CreateConnection` returns to it, come with
the call.
-/

namespace IMServer.Database

open IMServer.Base

universe u v

/-- A call of `GetConnection` that has returned. -/
structure GetCall (A : Type v) where
  /-- The first connection of the list. -/
  pooled : Option A
  /-- What its `Ping` returned. -/
  ping : Int
  deleted : Option A
  result : Option A
  deriving DecidableEq, Repr

/-- A healthy pooled connection is handed out itself, and a connection is deleted only when its
`Ping` has reported failure. -/
def GetCall.Reuses {A : Type v} (call : GetCall A) : Prop :=
  (call.pooled ≠ none → call.ping = 0 → call.result = call.pooled) ∧
    (call.deleted ≠ none → call.ping ≠ 0)

instance {A : Type v} [DecidableEq A] (call : GetCall A) : Decidable call.Reuses :=
  inferInstanceAs (Decidable (_ ∧ _))

/-- `MysqlLinkPool.h:16–21`, what the callers have got and not released, the connections that were
deleted, and the calls of `GetConnection` that have returned. -/
structure MysqlLinkPool (ι : Type u) (A : Type v) where
  curSize : Int
  maxSize : Nat
  connList : List A
  held : ι → List A
  deleted : List A
  calls : List (GetCall A)

/-- A call of a caller. The arguments of `get` are the state of the first connection of the list and
what `CreateConnection` returns, should it be called. -/
inductive PoolCall (ι : Type u) (A : Type v) where
  | get (i : ι) (front : Mysql) (created : Option A)
  | release (i : ι) (conn : A)
  deriving DecidableEq, Repr

namespace MysqlLinkPool

variable {ι : Type u} {A : Type v}

/-- `MysqlLinkPool.cc:15–19`, before `InitConnection`. -/
def new (maxSize : Nat) : MysqlLinkPool ι A where
  curSize := 0
  maxSize
  connList := []
  held _ := []
  deleted := []
  calls := []

/-- `MysqlLinkPool.cc:30–47`, with what the calls of `CreateConnection` return. -/
def initConnection (s : MysqlLinkPool ι A) : List (Option A) → MysqlLinkPool ι A
  | [] => s
  | some conn :: created =>
    initConnection { s with connList := s.connList ++ [conn], curSize := s.curSize + 1 } created
  | none :: created => initConnection s created

variable [DecidableEq ι]

/-- A call of `GetConnection` returns. -/
def returned (s : MysqlLinkPool ι A) (i : ι) (call : GetCall A) : MysqlLinkPool ι A :=
  { s with
    held := Function.update s.held i (call.result.toList ++ s.held i)
    calls := s.calls ++ [call] }

/-- `MysqlLinkPool.cc:66–110`. `Ping` returns 0 when the connection answers, and the connection is
deleted when `!con->Ping()`. -/
def getConnection (s : MysqlLinkPool ι A) (i : ι) (ping : Int) (created : Option A) :
    MysqlLinkPool ι A :=
  match s.connList with
  | con :: connList =>
    if ping = 0 then
      { s with
        connList
        deleted := s.deleted ++ [con]
        curSize := if created.isNone then s.curSize - 1 else s.curSize }.returned i
          ⟨some con, ping, some con, created⟩
    else { s with connList }.returned i ⟨some con, ping, none, some con⟩
  | [] =>
    if s.curSize < s.maxSize then
      { s with curSize := if created.isSome then s.curSize + 1 else s.curSize }.returned i
        ⟨none, ping, none, created⟩
    else s.returned i ⟨none, ping, none, none⟩

variable [DecidableEq A]

/-- `MysqlLinkPool.cc:113–120`. -/
def releaseConnection (s : MysqlLinkPool ι A) (i : ι) (conn : A) : MysqlLinkPool ι A :=
  { s with
    held := Function.update s.held i ((s.held i).erase conn)
    connList := s.connList ++ [conn] }

/-- No connection has or had this identity. -/
def IsFresh (s : MysqlLinkPool ι A) (conn : A) : Prop :=
  conn ∉ s.connList ∧ conn ∉ s.deleted ∧ ∀ i, conn ∉ s.held i

variable [Fintype ι]

instance (s : MysqlLinkPool ι A) (conn : A) : Decidable (s.IsFresh conn) :=
  inferInstanceAs (Decidable (_ ∧ _ ∧ _))

/-- A caller calls `GetConnection`, or releases a connection that it has got. A step that cannot
happen leaves everything as it is. -/
def step (s : MysqlLinkPool ι A) : PoolCall ι A → MysqlLinkPool ι A
  | .get i front created =>
    if ∀ conn ∈ created, s.IsFresh conn then s.getConnection i front.ping.1 created else s
  | .release i conn => if conn ∈ s.held i then s.releaseConnection i conn else s

end MysqlLinkPool

/-! ### Accounting -/

namespace MysqlLinkPool

variable {ι : Type u} {A : Type v} [Fintype ι] {s : MysqlLinkPool ι A} {i : ι}

/-- The number of pooled and of checked-out connections. -/
def size (s : MysqlLinkPool ι A) : Nat := s.connList.length + ∑ i, (s.held i).length

/-- The connections are counted, and a call reuses its connection exactly when it has not pinged a
healthy one. -/
structure Inv (maxSize : Nat) (s : MysqlLinkPool ι A) : Prop where
  maxSize_eq : s.maxSize = maxSize
  count : s.curSize = s.size
  le : s.curSize ≤ maxSize
  reuses : ∀ call ∈ s.calls, call.Reuses ↔ (call.pooled ≠ none → call.ping ≠ 0)

/-- As many connections are created as `CreateConnection` succeeds. -/
theorem initConnection_inv {maxSize n : Nat} (created : List (Option A)) (h : s.Inv maxSize)
    (hn : s.curSize ≤ n) (hroom : n + created.length ≤ maxSize) :
    (s.initConnection created).Inv maxSize := by
  induction created generalizing s n with
  | nil => exact h
  | cons c created ih =>
    rw [List.length_cons] at hroom
    cases c with
    | none => exact ih h hn (by omega)
    | some conn =>
      have hcount := h.count
      refine ih (n := n + 1) ⟨h.maxSize_eq, ?_, ?_, h.reuses⟩ ?_ (by omega)
      · simp only [size, List.length_append, List.length_singleton] at hcount ⊢
        omega
      · show s.curSize + 1 ≤ maxSize
        omega
      · show s.curSize + 1 ≤ (n + 1 : Nat)
        omega

variable [DecidableEq ι]

private theorem sum_length_update (held : ι → List A) (i : ι) (conns : List A) :
    ∑ j, (Function.update held i conns j).length + (held i).length =
      ∑ j, (held j).length + conns.length := by
  have h := congrArg Multiset.card
    (allHeld_update (fun l : List A => (l : Multiset A)) held i conns)
  simpa [allHeld] using h

private theorem size_returned (s : MysqlLinkPool ι A) (i : ι) (call : GetCall A) :
    (s.returned i call).size = s.size + call.result.toList.length := by
  have h := sum_length_update s.held i (call.result.toList ++ s.held i)
  rw [List.length_append] at h
  simp only [size, returned]
  omega

/-- A call returns, and the count has been adjusted to what it returns. -/
theorem Inv.returned {maxSize : Nat} {s' : MysqlLinkPool ι A} {call : GetCall A}
    (h : s.Inv maxSize) (hmax : s'.maxSize = s.maxSize) (hcalls : s'.calls = s.calls)
    (hcount : s'.curSize = s'.size + call.result.toList.length) (hle : s'.curSize ≤ maxSize)
    (hcall : call.Reuses ↔ (call.pooled ≠ none → call.ping ≠ 0)) :
    (s'.returned i call).Inv maxSize := by
  constructor
  · exact hmax.trans h.maxSize_eq
  · rw [size_returned]
    exact_mod_cast hcount
  · exact hle
  · intro c hc
    rcases List.mem_append.mp hc with hold | hnew
    · exact h.reuses c (hcalls ▸ hold)
    · rw [List.mem_singleton.mp hnew]
      exact hcall

private theorem Inv.getConnection
    {maxSize : Nat} (h : s.Inv maxSize) (ping : Int) (created : Option A) :
    (s.getConnection i ping created).Inv maxSize := by
  have hcount := h.count
  have hle := h.le
  rw [size] at hcount
  unfold MysqlLinkPool.getConnection
  split
  · next con connList hlist =>
    rw [hlist, List.length_cons] at hcount
    split
    · next hping =>
      refine h.returned rfl rfl ?_ ?_ (by simp [GetCall.Reuses, hping])
      · cases created with
        | none =>
          show s.curSize - 1 = (connList.length + ∑ i, (s.held i).length : Nat) + ((0 : Nat) : Int)
          omega
        | some conn =>
          show s.curSize = (connList.length + ∑ i, (s.held i).length : Nat) + ((1 : Nat) : Int)
          omega
      · cases created with
        | none =>
          show s.curSize - 1 ≤ maxSize
          omega
        | some conn => exact hle
    · next hping =>
      refine h.returned rfl rfl ?_ hle (by simp [GetCall.Reuses, hping])
      show s.curSize = (connList.length + ∑ i, (s.held i).length : Nat) + ((1 : Nat) : Int)
      omega
  · next hlist =>
    split
    · next hlt =>
      rw [h.maxSize_eq] at hlt
      refine h.returned rfl rfl ?_ ?_ (by simp [GetCall.Reuses])
      · cases created with
        | none =>
          show s.curSize = s.size + ((0 : Nat) : Int)
          rw [h.count, Int.natCast_zero, add_zero]
        | some conn =>
          show s.curSize + 1 = s.size + ((1 : Nat) : Int)
          rw [h.count, Int.natCast_one]
      · cases created with
        | none => exact hle
        | some conn => exact hlt
    · exact h.returned rfl rfl (h.count.trans (add_zero _).symm) hle (by simp [GetCall.Reuses])

variable [DecidableEq A]

private theorem Inv.releaseConnection {maxSize : Nat} {conn : A} (h : s.Inv maxSize)
    (hmem : conn ∈ s.held i) : (s.releaseConnection i conn).Inv maxSize := by
  have hcount := h.count
  refine ⟨h.maxSize_eq, ?_, h.le, h.reuses⟩
  have hsum := sum_length_update s.held i ((s.held i).erase conn)
  have hlen := List.length_erase_of_mem hmem
  have hpos := List.length_pos_of_mem hmem
  simp only [size, MysqlLinkPool.releaseConnection, List.length_append, List.length_singleton]
    at hcount ⊢
  omega

private theorem Inv.step {maxSize : Nat} (h : s.Inv maxSize) (e : PoolCall ι A) :
    (s.step e).Inv maxSize := by
  cases e with
  | get i front created =>
    rw [MysqlLinkPool.step]
    split
    · exact h.getConnection _ _
    · exact h
  | release i conn =>
    rw [MysqlLinkPool.step]
    split
    · next hmem => exact h.releaseConnection hmem
    · exact h

/-- Whatever the callers do and whatever `mysql_ping` and `CreateConnection` answer: `curSize` is
the number of pooled and checked-out connections and never exceeds `maxSize`; and every call hands a
healthy connection out, deleting only broken ones, exactly when no call has pinged a pooled
connection that answers. -/
theorem link_pool_reuses_iff {maxSize : Nat} {created : List (Option A)}
    (hlen : created.length = maxSize / 2) (calls : List (PoolCall ι A)) :
    let s := calls.foldl step ((new maxSize).initConnection created)
    s.curSize = s.connList.length + ∑ i, (s.held i).length ∧ s.curSize ≤ maxSize ∧
    ((∀ call ∈ s.calls, call.Reuses) ↔
      ∀ call ∈ s.calls, call.pooled ≠ none → call.ping ≠ 0) := by
  intro s
  have hstart : ((new maxSize).initConnection created : MysqlLinkPool ι A).Inv maxSize := by
    refine initConnection_inv (n := 0) created ⟨rfl, ?_, ?_, ?_⟩ le_rfl (by omega)
    · simp [new, size]
    · exact Int.natCast_nonneg maxSize
    · exact fun _ hc => absurd hc List.not_mem_nil
  have hinv : s.Inv maxSize :=
    foldl_invariant (Inv maxSize) (fun s e h _ => h.step e) calls hstart
      (Legal.of_forall (fun _ _ => trivial) _)
  refine ⟨?_, hinv.le, forall₂_congr hinv.reuses⟩
  rw [hinv.count, size]
  push_cast
  rfl

/-- A connection that does not answer is handed out, and given back. -/
theorem link_pool_broken_connection :
    let s := [.get 0 { connection := { pings := [false] } } none, .release 0 1].foldl step
      ((new 2 : MysqlLinkPool (Fin 1) Nat).initConnection [some 1])
    s.curSize = s.connList.length + ∑ i, (s.held i).length ∧ s.curSize ≤ (2 : Nat) ∧
    ((∀ call ∈ s.calls, call.Reuses) ↔
      ∀ call ∈ s.calls, call.pooled ≠ none → call.ping ≠ 0) :=
  link_pool_reuses_iff rfl _

/-- A connection that answers is deleted, and a new one is handed out. -/
theorem link_pool_deletes_healthy :
    let s := [.get 0 {} (some 2)].foldl step
      ((new 2 : MysqlLinkPool (Fin 1) Nat).initConnection [some 1])
    s.calls = [{ pooled := some 1, ping := 0, deleted := some 1, result := some 2 }] ∧
      ¬ ∀ call ∈ s.calls, call.Reuses := by
  decide

end MysqlLinkPool
end IMServer.Database
