import IMServer.Business.Sequential
import IMServer.Business.SqlStore

/-!
# Runs in which store calls may fail

The business functions of `server/src/BaseBusiness.cc` run alone, with any pattern of store calls
that fail, and with any server. What they do to the accounts and to Redis depends on the outcomes
of their calls, on the time and on nothing else of the world: one rule for each command says how
this ledger goes on.
-/

namespace IMServer.Business

open IMServer.Base

/-! ### Values read as messages -/

/-- A `GET` whose value is read. -/
def getAs {α : Type} (key : String) (read : Option RedisValue → Option α) : Op α :=
  .call (.get key) fun r => (r.bind read).elim (.throw .exception) .pure

/-- `get` as one command. -/
theorem get_eq (h : Handle) (key : String) : CacheConn.get (some h) key = getAs key some := by
  refine congrArg (Prog.call (Cmd.get key)) (funext fun r => ?_)
  cases r with
  | none => rfl
  | some v => rfl

/-- `getpb` as one command. -/
theorem getpb_eq {α : Type} (read : Option RedisValue → Option α) (h : Handle) (key : String) :
    CacheConn.getpb read (some h) key = getAs key read := by
  refine congrArg (Prog.call (Cmd.get key)) (funext fun r => ?_)
  cases r with
  | none => rfl
  | some v => cases hv : read v <;> simp [hv, Prog.bind, Pure.pure]

/-- `setpb` as one command. -/
theorem setpb_eq (fmt : Format) (h : Handle) (key : String) (timeout : Int) (v : RedisValue) :
    CacheConn.setpb fmt (some h) key timeout v =
      (fmt.store v).elim (.throw .overrun) fun v' => issue (.setex key timeout v') := by
  cases hv : fmt.store v with
  | none => simp only [CacheConn.setpb, hv]; rfl
  | some v' => simp only [CacheConn.setpb, hv]; rfl

/-! ### Values that the lock reads -/

/-- A value that reads as a time before `now`; `RedisLock.h:127`. -/
def Expired (wire : Wire) (value : Option RedisValue) (now : Nat) : Prop :=
  ∃ n, readsAs wire value = some n ∧ unsigned 32 n < now % 2 ^ 32

instance (wire : Wire) (value : Option RedisValue) (now : Nat) :
    Decidable (Expired wire value now) :=
  match h : readsAs wire value with
  | none => .isFalse fun ⟨_, hn, _⟩ => by rw [h] at hn; cases hn
  | some n => decidable_of_iff (unsigned 32 n < now % 2 ^ 32)
      ⟨fun hlt => ⟨n, h, hlt⟩, fun ⟨_, hn, hlt⟩ => by rw [h] at hn; cases hn; exact hlt⟩

/-- `stoi` throws or returns. -/
theorem stoi_eq (wire : Wire) (value : Option RedisValue) :
    RedisLock.stoi wire value = match readsAs wire value with
      | some t => .pure t
      | none => .throw .exception := rfl

/-- A list reads as no value does. -/
theorem readsAs_string (wire : Wire) (value : Option RedisValue) :
    readsAs wire (value.bind RedisValue.string?) = readsAs wire value := by
  rcases value with _ | (p | s | t | xs | bs) <;> rfl

/-! ### The parts of `lock` -/

/-- What `lock` does with a value that it has read: go on with the number if that is a time
that has run out, else return without the lock; `RedisLock.h:127–145`. -/
def judge (wire : Wire) (key : String) (e : Int) (h : Handle) (now : Nat)
    (value : Option RedisValue) (next : Int → Op RedisLock) : Op RedisLock := do
  let stamp ← RedisLock.stoi wire value
  if unsigned 32 stamp < now % 2 ^ 32 then next stamp
  else pure { cacheconn := some h, key, expiretime := e, locked := false, lockTimestamp := stamp }

/-- `lock` after it has read a time that has run out; `RedisLock.h:130–139`. -/
def overwrite (wire : Wire) (key : String) (e : Int) (h : Handle) (now : Nat) : Op RedisLock := do
  let value ← issue (.getset key (leaseEnd e now))
  judge wire key e h now value fun stamp =>
    pure { cacheconn := some h, key, expiretime := e, locked := true, lockTimestamp := stamp }

/-- `lock` after `SETNX` has failed; `RedisLock.h:123–145`. -/
def takeover (wire : Wire) (key : String) (e : Int) (h : Handle) (now : Nat) : Op RedisLock := do
  let value ← CacheConn.get (some h) key
  judge wire key e h now value fun _ => overwrite wire key e h now

/-- A time that has run out. -/
theorem judge_expired {wire : Wire} {key : String} {e : Int} {h : Handle} {now : Nat}
    {value : Option RedisValue} {next : Int → Op RedisLock} {n : Int}
    (hn : readsAs wire value = some n) (hlt : unsigned 32 n < now % 2 ^ 32) :
    judge wire key e h now value next = next n := by
  rw [judge, stoi_eq, hn]
  exact if_pos hlt

/-- `lock` after it has read the clock. -/
def trySetnx (wire : Wire) (key : String) (e : Int) (h : Handle) (now : Nat) : Op RedisLock :=
  .call (.setnx (RedisLock.getLockKey key) (leaseEnd e now)) fun value =>
    if value = 1 then
      pure { cacheconn := some h, key, expiretime := e, locked := true,
             lockTimestamp := leaseEnd e now }
    else takeover wire key e h now

/-- `lock` reads the clock first. -/
theorem lock_eq (wire : Wire) (key : String) (e t : Int) (h : Handle) :
    RedisLock.lock wire ⟨some h, key, e, false, t⟩ =
      .call .time (trySetnx wire key e h) := by
  refine congrArg (Prog.call Cmd.time) (funext fun now => ?_)
  refine congrArg (Prog.call _) (funext fun value => ?_)
  by_cases hv : value = 1
  · subst hv
    rfl
  · show ((if value = 1 then _ else _ : Op RedisLock).bind _) = if value = 1 then _ else _
    rw [if_neg hv, if_neg hv]
    rfl

/-! ### The ledger -/

/-- `IMUser` after a statement has been applied once. -/
def Server.accountsAfter (server : Server) (stmt : Statement) (users : List IMUser) :
    List IMUser :=
  (World.applyBy server stmt { imUser := users }).imUser

/-- The part of a world that the money depends on. -/
structure Ledger where
  outcomes : List Outcome
  redis : AList fun _ : String => RedisValue
  imUser : List IMUser
  clock : Nat
  ticks : List Nat
  draws : List Nat

def World.ledger (w : World) : Ledger :=
  ⟨w.oracle.outcomes, w.redis, w.imUser, w.clock, w.oracle.ticks, w.oracle.draws⟩

namespace Ledger

/-- How the next store call ends. -/
def outcome (b : Ledger) : Outcome := b.outcomes.headD .done

def spend (b : Ledger) : Ledger := { b with outcomes := b.outcomes.tail }

/-- What the clock reads next. -/
def now (b : Ledger) : Nat := b.clock + b.ticks.headD 0

/-- The clock has been read. -/
def ticked (b : Ledger) : Ledger := { b with clock := b.now, ticks := b.ticks.tail }

/-- The number that is drawn next. -/
def draw (b : Ledger) : Int := (b.draws.headD 0 : Int) % (199 - 1 + 1) + 1

/-- The ledger after `getRandomMoney`. -/
def shared (b : Ledger) (remainMoney leftPacksize : Int) : Ledger :=
  if drawsShare remainMoney leftPacksize then { b.ticked with draws := b.draws.tail } else b

/-- What a `GET` returns. -/
def get (b : Ledger) (key : String) : Option (Option RedisValue) :=
  match b.outcome with
  | .done => some ((b.redis.lookup key).bind RedisValue.string?)
  | .noInit => none
  | _ => some none

/-- A value is stored, unless the call fails. -/
def put (b : Ledger) (key : String) (v : RedisValue) : Ledger :=
  { b.spend with redis := if b.outcome = .done then b.redis.insert key v else b.redis }

/-- A key is deleted, unless the call fails. -/
def remove (b : Ledger) (key : String) : Ledger :=
  { b.spend with redis := if b.outcome = .done then b.redis.erase key else b.redis }

/-- A statement is given to a server. -/
def execute (b : Ledger) (server : Server) (stmt : Statement) : Ledger :=
  { b.spend with imUser := (server.accountsAfter stmt)^[b.outcome.times] b.imUser }

/-- A draw leaves the stores as they were. -/
theorem exists_shared (b : Ledger) (remainMoney leftPacksize : Int) :
    ∃ clock ticks draws, b.shared remainMoney leftPacksize = { b with clock, ticks, draws } := by
  unfold shared
  split
  · exact ⟨_, _, _, rfl⟩
  · exact ⟨_, _, _, rfl⟩

variable {b : Ledger}

private theorem put_done (ho : b.outcome = .done) (key : String) (v : RedisValue) :
    b.put key v = { b.spend with redis := b.redis.insert key v } := by
  rw [put, if_pos ho]

private theorem put_failed (ho : b.outcome ≠ .done) (key : String) (v : RedisValue) :
    b.put key v = b.spend := by
  rw [put, if_neg ho]
  rfl

private theorem remove_done (ho : b.outcome = .done) (key : String) :
    b.remove key = { b.spend with redis := b.redis.erase key } := by
  rw [remove, if_pos ho]

private theorem remove_failed (ho : b.outcome ≠ .done) (key : String) : b.remove key = b.spend := by
  rw [remove, if_neg ho]
  rfl

end Ledger

/-- How the store call number `n` of a function ends, when it is counted from 0. -/
def World.outcomeAt (w : World) (n : Nat) : Outcome := (Ledger.spend^[n] w.ledger).outcome

/-- What a `GET` returns that is the store call number `n`. -/
def World.getAt (w : World) (n : Nat) (key : String) : Option (Option RedisValue) :=
  (Ledger.spend^[n] w.ledger).get key

/-! ### Rules -/

section Rules

variable {α : Type} {server : Server} {Q : Except Abort α → World → Prop} {w : World} {b : Ledger}

/-- The clock is read. -/
theorem ends_time {f : Nat → Op α} (hw : w.ledger = b)
    (h : ∀ w', w'.ledger = b.ticked → Prog.Ends (execWith server) Q (f b.now) w') :
    Prog.Ends (execWith server) Q (issue .time >>= f) w := by
  subst hw
  exact h w.ticked rfl

/-- The MySQL connection, which may be null. -/
theorem ends_getConnection {f : Option Handle → Op α} (hw : w.ledger = b)
    (hnone : b.outcome ≠ .done → ∀ w', w'.ledger = b.spend →
      Prog.Ends (execWith server) Q (f none) w')
    (hsome : b.outcome = .done → ∀ h w', w'.ledger = b.spend →
      Prog.Ends (execWith server) Q (f (some h)) w') :
    Prog.Ends (execWith server) Q (issue .getConnection >>= f) w := by
  subst hw
  by_cases ho : w.outcome = .done
  · exact .request (if_pos ho) (hsome ho _ _ rfl)
  · exact .request (if_neg ho) (hnone ho _ rfl)

/-- The Redis connection: the manager may be null, and so may the connection. -/
theorem ends_cacheConn {name : String} {f : Bool → Option Handle → Op α} (hw : w.ledger = b)
    (habort : b.outcome ≠ .done → ∀ w', w'.ledger = b.spend → Q (.error .nullPointer) w')
    (hnone : b.outcome = .done → b.spend.outcome ≠ .done → ∀ w', w'.ledger = b.spend.spend →
      Prog.Ends (execWith server) Q (f true none) w')
    (hsome : b.outcome = .done → b.spend.outcome = .done → ∀ h w', w'.ledger = b.spend.spend →
      Prog.Ends (execWith server) Q (f true (some h)) w') :
    Prog.Ends (execWith server) Q (do
      let manager ← issue .getInstance
      let conn ← getCacheConn manager name
      f manager conn) w := by
  subst hw
  by_cases ho : w.outcome = .done
  · refine .request (Prod.ext (decide_eq_true ho) rfl) ?_
    by_cases ho' : w.spend.outcome = .done
    · exact .request (if_pos ho') (hsome ho ho' _ _ rfl)
    · exact .request (if_neg ho') (hnone ho ho' _ rfl)
  · refine .request (Prod.ext (decide_eq_false ho) rfl) ?_
    exact habort ho _ rfl

private theorem exec_get_ledger (key : String) (w : World) :
    exec (.get key) w = (w.ledger.get key, w.spend) := by
  have ho : w.ledger.outcome = w.outcome := rfl
  simp only [exec, Ledger.get, ho]
  cases w.outcome <;> rfl

/-- A value is read, or the call throws. -/
theorem ends_getAs {β : Type} {key : String} {read : Option RedisValue → Option β}
    {f : β → Op α} (hw : w.ledger = b)
    (hbad : (b.get key).bind read = none → ∀ w', w'.ledger = b.spend →
      Q (.error .exception) w')
    (hread : ∀ a, (b.get key).bind read = some a → ∀ w', w'.ledger = b.spend →
      Prog.Ends (execWith server) Q (f a) w') :
    Prog.Ends (execWith server) Q (getAs key read >>= f) w := by
  subst hw
  show Prog.Ends (execWith server) Q
    ((((exec (.get key) w).1.bind read).elim (.throw .exception) .pure : Op β).bind f)
    (exec (.get key) w).2
  rw [exec_get_ledger]
  cases hr : (w.ledger.get key).bind read with
  | none => exact hbad hr _ rfl
  | some a => exact hread a hr _ rfl

private theorem ends_setex {key : String} {timeout : Int} {v : RedisValue} {f : Unit → Op α}
    (hw : w.ledger = b)
    (h : ∀ w', w'.ledger = b.put key v → Prog.Ends (execWith server) Q (f ()) w') :
    Prog.Ends (execWith server) Q (issue (.setex key timeout v) >>= f) w := by
  subst hw
  refine h _ ?_
  show (if w.outcome = .done then _ else _ : World).ledger = _
  by_cases ho : w.outcome = .done
  · rw [if_pos ho, Ledger.put_done (b := w.ledger) ho]
    rfl
  · rw [if_neg ho, Ledger.put_failed (b := w.ledger) ho]
    rfl

/-- A key is deleted. -/
theorem ends_del {key : String} {f : Unit → Op α} (hw : w.ledger = b)
    (h : ∀ w', w'.ledger = b.remove key → Prog.Ends (execWith server) Q (f ()) w') :
    Prog.Ends (execWith server) Q (issue (.del key) >>= f) w := by
  subst hw
  refine h _ ?_
  show (if w.outcome = .done then _ else _ : World).ledger = _
  by_cases ho : w.outcome = .done
  · rw [if_pos ho, Ledger.remove_done (b := w.ledger) ho]
    rfl
  · rw [if_neg ho, Ledger.remove_failed (b := w.ledger) ho]
    rfl

private theorem ledger_applyBy (server : Server) (stmt : Statement) (v : World) :
    (v.applyBy server stmt).ledger =
      { v.ledger with imUser := server.accountsAfter stmt v.imUser } := by
  unfold Server.accountsAfter World.applyBy
  split
  · rfl
  · cases stmt <;> rfl

/-- A statement whose reply is not used. -/
theorem ends_execute {stmt : Statement} {p : Op α} (hw : w.ledger = b)
    (h : ∀ w', w'.ledger = b.execute server stmt → Prog.Ends (execWith server) Q p w') :
    Prog.Ends (execWith server) Q (do let _ ← issue (.execute stmt); p) w := by
  subst hw
  refine h _ ?_
  show ((World.applyBy server stmt)^[w.outcome.times] w.spend).ledger = _
  have hiterate : ∀ n (v : World), ((World.applyBy server stmt)^[n] v).ledger =
      { v.ledger with imUser := (server.accountsAfter stmt)^[n] v.imUser } := by
    intro n
    induction n with
    | zero => exact fun v => rfl
    | succ n ih =>
      intro v
      have hv := ledger_applyBy server stmt v
      rw [Function.iterate_succ_apply, ih, hv, Function.iterate_succ_apply]
      rw [show (World.applyBy server stmt v).imUser = _ from congrArg Ledger.imUser hv]
  exact hiterate _ _

/-- A statement on the table of packets, or none, leaves the accounts. -/
theorem ends_record {a : Amounts} {money : Int} {stmt : Int → Statement} {p : Op α}
    (hw : w.ledger = b) (hstmt : ∀ m users, server.accountsAfter (stmt m) users = users)
    (h : ∀ w', w'.ledger = b.spend → Prog.Ends (execWith server) Q p w') :
    Prog.Ends (execWith server) Q (do let _ ← issue (.execute (a.statement money stmt)); p) w := by
  have hsame : server.accountsAfter (a.statement money stmt) = id := by
    funext users
    unfold Amounts.statement
    cases a.printed money with
    | none => exact congrArg World.imUser (ite_self _)
    | some m => exact hstmt m users
  refine ends_execute hw fun w' hw' => h w' (hw'.trans ?_)
  rw [Ledger.execute, hsame, Function.iterate_id]
  rfl

/-- The record of a new packet. -/
theorem accountsAfter_insertHongbao (row : HongbaoRow) (users : List IMUser) :
    server.accountsAfter (.insertHongbao row) users = users := by
  unfold Server.accountsAfter World.applyBy
  split <;> rfl

/-- The record of an ended packet. -/
theorem accountsAfter_updateHongbao (leftmoney leftcount : Int) (roblog : SendHongbao)
    (hbkey : String) (users : List IMUser) :
    server.accountsAfter (.updateHongbao leftmoney leftcount roblog hbkey) users = users := by
  unfold Server.accountsAfter World.applyBy
  split <;> rfl

/-- The connections are given back. -/
theorem ends_release {conn ml : Option Handle} {a : α} (hw : w.ledger = b)
    (h : ∀ w', w'.ledger = b → Q (.ok a) w') :
    Prog.Ends (execWith server) Q
      (do relCacheConn true conn; issue (.releaseConnection ml); return a) w :=
  h _ hw

/-- The draw of a share, which may trap. -/
theorem ends_getRandomMoney {rem n : Int} {a : Amounts} {f : Int → Op α} (hw : w.ledger = b)
    (htrap : n ≠ 0 → a.traps rem n = true → ∀ w', w'.ledger = b → Q (.error .trap) w')
    (h : (n ≠ 0 → a.traps rem n = false) → ∀ w', w'.ledger = b.shared rem n →
      Prog.Ends (execWith server) Q (f (shareOf rem n b.draw)) w') :
    Prog.Ends (execWith server) Q (getRandomMoney rem n a >>= f) w := by
  subst hw
  by_cases hdivides : n ≠ 0 → a.traps rem n = false
  case neg =>
    obtain ⟨h0, ht⟩ := Classical.not_imp.mp hdivides
    rw [Bool.not_eq_false] at ht
    rw [getRandomMoney, if_neg h0, if_pos ht]
    exact htrap h0 ht w rfl
  replace h := h hdivides
  unfold getRandomMoney shareOf Ledger.shared drawsShare at *
  by_cases h0 : n = 0
  · simp only [h0, if_true, ne_eq, not_true_eq_false, decide_false, Bool.false_and] at h ⊢
    exact h w rfl
  rw [if_neg h0, if_neg (by rw [hdivides h0]; decide)]
  by_cases h1 : rem.tdiv n = 1
  · simp only [h0, h1, if_true, if_false, ne_eq, not_true_eq_false, decide_false, Bool.and_false,
      Bool.false_and] at h ⊢
    exact h w rfl
  rw [if_neg h1]
  by_cases hl : n = 1
  · simp only [hl, if_true, ne_eq, not_true_eq_false, decide_false, Bool.and_false] at h ⊢
    simp only [hl, Int.tdiv_one] at h1
    rw [if_neg (by decide), Int.tdiv_one, if_neg h1] at h
    exact h w rfl
  rw [if_neg hl]
  simp only [h0, h1, hl, if_false, ne_eq, not_false_eq_true, decide_true, Bool.and_self,
    if_true] at h
  exact h w.ticked.drawn rfl

/-- A message is stored, or written past the array. -/
theorem ends_setpb {fmt : Format} {c : Handle} {key : String} {timeout : Int} {v : RedisValue}
    {f : Unit → Op α} (hw : w.ledger = b)
    (hover : fmt.store v = none → Q (.error .overrun) w)
    (h : ∀ v', fmt.store v = some v' → ∀ w', w'.ledger = b.put key v' →
      Prog.Ends (execWith server) Q (f ()) w') :
    Prog.Ends (execWith server) Q (CacheConn.setpb fmt (some c) key timeout v >>= f) w := by
  rw [setpb_eq]
  cases hv : fmt.store v with
  | none => exact hover hv
  | some v' => exact ends_setex hw (h v' hv)

/-- `SETNX` answers 1 exactly when it succeeds and the key was free. -/
theorem exec_setnx_ledger (key : String) (t : Int) (w : World) :
    (w.outcome = .done ∧ key ∉ w.redis ∧ ∃ w', exec (.setnx key t) w = ((1 : Int), w') ∧
      w'.ledger = w.ledger.put key (.stamp t)) ∨
    (¬ (w.outcome = .done ∧ key ∉ w.redis) ∧ ∃ value : Int, value ≠ 1 ∧
      exec (.setnx key t) w = (value, w.spend)) := by
  by_cases ho : w.outcome = .done
  · by_cases hk : key ∈ w.redis
    · exact .inr ⟨fun h => h.2 hk, 0, by decide, (if_pos ho).trans (if_pos hk)⟩
    · refine .inl ⟨ho, hk, _, (if_pos ho).trans (if_neg hk), ?_⟩
      rw [Ledger.put_done (b := w.ledger) ho]
      rfl
  · exact .inr ⟨fun h => ho h.1, -1, by decide, if_neg ho⟩

/-- `GETSET` answers the old value, or nothing when it fails. -/
theorem exec_getset_ledger (key : String) (t : Int) (hw : w.ledger = b) :
    (b.outcome = .done ∧ ∃ w', exec (.getset key t) w =
      ((b.redis.lookup key).bind RedisValue.string?, w') ∧ w'.ledger = b.put key (.stamp t)) ∨
    (b.outcome ≠ .done ∧ ∃ w', exec (.getset key t) w = (none, w') ∧ w'.ledger = b.spend) := by
  subst hw
  by_cases ho : w.outcome = .done
  · refine .inl ⟨ho, _, if_pos ho, ?_⟩
    rw [Ledger.put_done (b := w.ledger) ho]
    rfl
  · exact .inr ⟨ho, _, if_neg ho, rfl⟩

/-- `lock` judges a value that it has read. -/
theorem ends_judge {wire : Wire} {h : Handle} {key : String} {e : Int} {now : Nat}
    {value : Option RedisValue} {next : Int → Op RedisLock} {f : RedisLock → Op α}
    (hbad : readsAs wire value = none → Q (.error .exception) w)
    (hheld : ∀ s, readsAs wire value = some s → ¬ unsigned 32 s < now % 2 ^ 32 →
      Prog.Ends (execWith server) Q (f ⟨some h, key, e, false, s⟩) w)
    (hexp : ∀ s, readsAs wire value = some s → unsigned 32 s < now % 2 ^ 32 →
      Prog.Ends (execWith server) Q (next s >>= f) w) :
    Prog.Ends (execWith server) Q (judge wire key e h now value next >>= f) w := by
  rw [judge, stoi_eq]
  cases hs : readsAs wire value with
  | none => exact hbad hs
  | some s =>
    show Prog.Ends (execWith server) Q
      ((if unsigned 32 s < now % 2 ^ 32 then _ else _ : Op RedisLock).bind f) w
    by_cases hlt : unsigned 32 s < now % 2 ^ 32
    · rw [if_pos hlt]
      exact hexp s hs hlt
    · rw [if_neg hlt]
      exact hheld s hs hlt

/-- A number was read by a call that succeeded. -/
theorem Ledger.readsAs_lookup {wire : Wire} {key : String} {v : Option RedisValue} {s : Int}
    (hget : b.get key = some v) (hs : readsAs wire v = some s) :
    readsAs wire ((b.redis.lookup key).bind RedisValue.string?) = some s := by
  unfold Ledger.get at hget
  split at hget
  · cases hget
    exact hs
  · cases hget
  · cases hget
    cases hs

/-- What a `GET` reads is a time that has run out. -/
def Ledger.ReadsExpired (wire : Wire) (b : Ledger) (key : String) (now : Nat) : Prop :=
  ∃ v, b.get key = some v ∧ Expired wire v now

/-- What a `GET` reads is a time that has not run out. -/
def Ledger.ReadsHeld (wire : Wire) (b : Ledger) (key : String) (now : Nat) : Prop :=
  ∃ v n, b.get key = some v ∧ readsAs wire v = some n ∧ ¬ unsigned 32 n < now % 2 ^ 32

/-- A time has run out or not. -/
theorem Ledger.ReadsHeld.not_expired {wire : Wire} {key : String} {now : Nat}
    (h : b.ReadsHeld wire key now) : ¬ b.ReadsExpired wire key now := by
  rintro ⟨v, hget, n, hn, hlt⟩
  obtain ⟨v', n', hget', hn', hge⟩ := h
  cases hget.symm.trans hget'
  cases hn.symm.trans hn'
  exact hge hlt

/-- After `SETNX` has failed: the key holds a number below the time and is overwritten, or it is
left as it is. -/
theorem ends_takeover {wire : Wire} {h : Handle} {key : String} {e : Int} {now : Nat}
    {f : RedisLock → Op α} (hw : w.ledger = b)
    (hbad : ¬ b.ReadsHeld wire key now →
      ¬ (b.ReadsExpired wire key now ∧ b.spend.outcome = .done) →
      ∀ o w', w'.ledger = { b with outcomes := o } → Q (.error .exception) w')
    (hheld : b.ReadsHeld wire key now → ∀ s o w', w'.ledger = { b with outcomes := o } →
      Prog.Ends (execWith server) Q (f ⟨some h, key, e, false, s⟩) w')
    (hover : b.ReadsExpired wire key now → b.spend.outcome = .done → ∀ s w',
      w'.ledger = b.spend.put key (.stamp (leaseEnd e now)) →
      Prog.Ends (execWith server) Q (f ⟨some h, key, e, true, s⟩) w') :
    Prog.Ends (execWith server) Q (takeover wire key e h now >>= f) w := by
  show Prog.Ends (execWith server) Q (((CacheConn.get (some h) key).bind fun v => _).bind f) w
  rw [get_eq, Prog.bind_assoc]
  refine ends_getAs hw (fun hnone w' hw' => ?_) fun v hget w' hw' => ?_
  · have hget : b.get key = none := by rwa [Option.bind_fun_some] at hnone
    refine hbad ?_ ?_ _ w' hw'
    · rintro ⟨v, n, hv, -⟩
      cases hget.symm.trans hv
    · rintro ⟨⟨v, hv, -⟩, -⟩
      cases hget.symm.trans hv
  rw [Option.bind_fun_some] at hget
  refine ends_judge (fun hnone => hbad ?_ ?_ _ w' hw')
    (fun s hs hge => hheld ⟨v, s, hget, hs, hge⟩ s _ w' hw') fun s hs hlt => ?_
  · rintro ⟨v', n, hv', hn, -⟩
    cases hget.symm.trans hv'
    cases hnone.symm.trans hn
  · rintro ⟨⟨v', hv', n, hn, -⟩, -⟩
    cases hget.symm.trans hv'
    cases hnone.symm.trans hn
  have hexpired : b.ReadsExpired wire key now := ⟨v, hget, s, hs, hlt⟩
  show Prog.Ends (execWith server) Q
    ((judge wire key e h now (exec (.getset key (leaseEnd e now)) w').1 _).bind f)
    (exec (.getset key (leaseEnd e now)) w').2
  obtain ⟨ho, w₁, hset, hw₁⟩ | ⟨ho, w₁, hset, hw₁⟩ :=
    exec_getset_ledger key (leaseEnd e now) hw'
  · have hold : readsAs wire ((b.spend.redis.lookup key).bind RedisValue.string?) = some s :=
      Ledger.readsAs_lookup (b := b) hget hs
    rw [hset, judge_expired hold hlt]
    exact hover hexpired ho s w₁ hw₁
  · rw [hset, judge, stoi_eq]
    exact hbad (fun hh => hh.not_expired hexpired) (fun hd => ho hd.2) _ w₁ hw₁

/-- `SETNX` takes the lock. -/
def Ledger.LockFree (b : Ledger) (key : String) : Prop :=
  b.outcome = .done ∧ RedisLock.getLockKey key ∉ b.redis

/-- The lock: it is free, or held, or its key holds a number below the time and is overwritten. -/
theorem ends_lock {wire : Wire} {h : Handle} {key : String} {e : Int} {f : RedisLock → Op α}
    (hw : w.ledger = b)
    (hfree : b.LockFree key → ∀ w',
      w'.ledger = b.ticked.put (RedisLock.getLockKey key) (.stamp (leaseEnd e b.now)) →
      Prog.Ends (execWith server) Q (f ⟨some h, key, e, true, leaseEnd e b.now⟩) w')
    (hbad : ¬ b.LockFree key → ¬ b.spend.ReadsHeld wire key b.now →
      ¬ (b.spend.ReadsExpired wire key b.now ∧ b.spend.spend.outcome = .done) →
      ∀ o w', w'.ledger = { b.ticked with outcomes := o } → Q (.error .exception) w')
    (hheld : ¬ b.LockFree key → b.spend.ReadsHeld wire key b.now →
      ∀ s o w', w'.ledger = { b.ticked with outcomes := o } →
      Prog.Ends (execWith server) Q (f ⟨some h, key, e, false, s⟩) w')
    (hover : ¬ b.LockFree key → b.spend.ReadsExpired wire key b.now →
      b.spend.spend.outcome = .done → ∀ s w',
      w'.ledger = b.ticked.spend.spend.put key (.stamp (leaseEnd e b.now)) →
      Prog.Ends (execWith server) Q (f ⟨some h, key, e, true, s⟩) w') :
    Prog.Ends (execWith server) Q (RedisLock.lock wire ⟨some h, key, e, false, 0⟩ >>= f) w := by
  subst hw
  rw [lock_eq]
  show Prog.Ends (execWith server) Q
    ((if (exec (.setnx (RedisLock.getLockKey key) (leaseEnd e w.now)) w.ticked).1 = 1 then _
      else takeover wire key e h w.now : Op RedisLock).bind f)
    (exec (.setnx (RedisLock.getLockKey key) (leaseEnd e w.now)) w.ticked).2
  obtain ⟨ho, hk, w₁, hexec, hw₁⟩ | ⟨hbusy, value, hv, hexec⟩ :=
    exec_setnx_ledger (RedisLock.getLockKey key) (leaseEnd e w.now) w.ticked
  · rw [hexec, if_pos rfl]
    exact hfree ⟨ho, hk⟩ _ hw₁
  · rw [hexec, if_neg hv]
    exact ends_takeover rfl (fun hh hx o w' hw' => hbad hbusy hh hx o w' hw')
      (fun hh s o w' hw' => hheld hbusy hh s o w' hw')
      fun hx ho s w' hw' => hover hbusy hx ho s w' hw'

end Rules

end IMServer.Business
