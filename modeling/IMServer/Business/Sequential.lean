import IMServer.Business.Operations

/-!
# Calls one after the other

What the store calls do when they succeed, how a login ends that runs alone, and the amounts, keys
and statements of the red-packet functions.
-/

namespace IMServer.Business

open IMServer.Base

/-- Every store call from here on succeeds. -/
def Calm (w : World) : Prop := w.oracle.outcomes = []

namespace World

/-- The next reading of the clock. -/
def now (w : World) : Nat := w.clock + w.oracle.ticks.headD 0

/-- The world after a reading of the clock. -/
def ticked (w : World) : World :=
  { w with clock := w.now, oracle := { w.oracle with ticks := w.oracle.ticks.tail } }

/-- The world after a call of `rand`. -/
def drawn (w : World) : World :=
  { w with oracle := { w.oracle with draws := w.oracle.draws.tail } }

/-- The world after a connection has been taken from a Redis pool. -/
def cacheTaken (w : World) : World :=
  { w with cacheOut := w.nextHandle :: w.cacheOut, nextHandle := w.nextHandle + 1 }

/-- The world after a connection has been taken from the MySQL pool. -/
def mysqlTaken (w : World) : World :=
  { w with mysqlOut := w.nextHandle :: w.mysqlOut, nextHandle := w.nextHandle + 1 }

/-- The world after a value has been stored under a key. -/
def put (w : World) (key : String) (v : RedisValue) : World :=
  { w with redis := w.redis.insert key v }

/-- The world after a key has been deleted. -/
def erase (w : World) (key : String) : World := { w with redis := w.redis.erase key }

end World

/-! ### Commands that succeed -/

section Exec

variable {w : World}

/-- The clock is read. -/
theorem exec_time (w : World) : exec .time w = (w.now, w.ticked) := rfl

/-- A Redis connection. -/
theorem exec_getCacheConn (hc : w.oracle.outcomes = []) (name : String) :
    exec (.getCacheConn name) w = (some w.nextHandle, w.cacheTaken) := by
  simp [exec, outcome_calm hc, World.spend_eq hc, World.cacheTaken]

/-- A MySQL connection. -/
theorem exec_getConnection (hc : w.oracle.outcomes = []) :
    exec .getConnection w = (some w.nextHandle, w.mysqlTaken) := by
  simp [exec, outcome_calm hc, World.spend_eq hc, World.mysqlTaken]

/-- `GET`. -/
theorem exec_get (hc : w.oracle.outcomes = []) (key : String) :
    exec (.get key) w = (some ((w.redis.lookup key).bind RedisValue.string?), w) := by
  simp [exec, outcome_calm hc, World.spend_eq hc]

/-- `SETEX`. -/
theorem exec_setex (hc : w.oracle.outcomes = []) (key : String) (t : Int) (v : RedisValue) :
    exec (.setex key t v) w = ((), w.put key v) := by
  simp [exec, outcome_calm hc, World.spend_eq hc, World.put]

/-- `SETNX` of a free key. -/
theorem exec_setnx_free (hc : w.oracle.outcomes = []) {key : String} (hk : key ∉ w.redis)
    (t : Int) :
    exec (.setnx key t) w = ((1 : Int), w.put key (.stamp t)) := by
  simp [exec, outcome_calm hc, World.spend_eq hc, hk, World.put]

/-- `SETNX` of a key that is taken. -/
theorem exec_setnx_taken (hc : w.oracle.outcomes = []) {key : String} (hk : key ∈ w.redis)
    (t : Int) :
    exec (.setnx key t) w = ((0 : Int), w) := by
  simp [exec, outcome_calm hc, World.spend_eq hc, hk]

/-- `GETSET`. -/
theorem exec_getset (hc : w.oracle.outcomes = []) (key : String) (t : Int) :
    exec (.getset key t) w =
      ((w.redis.lookup key).bind RedisValue.string?, w.put key (.stamp t)) := by
  simp [exec, outcome_calm hc, World.spend_eq hc, World.put]

/-- `DEL`. -/
theorem exec_del (hc : w.oracle.outcomes = []) (key : String) :
    exec (.del key) w = ((), w.erase key) := by
  simp [exec, outcome_calm hc, World.spend_eq hc, World.erase]

/-- A statement. -/
theorem exec_execute (hc : w.oracle.outcomes = []) (stmt : Statement) :
    exec (.execute stmt) w = (stmt.reply .done, w.apply stmt) := by
  simp [exec, outcome_calm hc, World.spend_eq hc, Outcome.times]

private theorem exec_queryLogin (hc : w.oracle.outcomes = []) (name password : String) :
    exec (.queryLogin name password) w =
      (some (w.imUser.filter fun r => r.name = name ∧ r.password = password), w) := by
  simp [exec, outcome_calm hc, World.spend_eq hc]

/-- A command after which every store call still succeeds. -/
theorem exec_calm (c : Cmd) (hc : w.oracle.outcomes = []) :
    (exec c w).2.oracle.outcomes = [] := by
  have hspend : w.spend.oracle.outcomes = [] := by rw [World.spend_eq hc, hc]
  cases c with
  | execute stmt =>
    obtain ⟨users, rows, h⟩ := exec_execute_frame stmt w
    rw [h]
    exact hspend
  | time => exact hc
  | rand => exact hc
  | _ =>
    dsimp only [exec]
    repeat' split
    all_goals first | exact hspend | exact hc

/-- A program after which every store call still succeeds. -/
theorem run_calm {α : Type} (p : Op α) (hc : w.oracle.outcomes = []) :
    (Prog.run exec p w).2.oracle.outcomes = [] := by
  induction p generalizing w with
  | pure a => exact hc
  | throw e => exact hc
  | call c next ih => exact ih _ (exec_calm c hc)

end Exec

/-! ### Logging in -/

/-- The rows that a user name and a password select. -/
def loginRows (w : World) (req : Login) : List IMUser :=
  w.imUser.filter fun r => r.name = req.username ∧ r.password = req.password

/-- A login that runs alone returns 0 exactly when a row matches, and then stores a session
made of the first one. -/
theorem login_spec (req : Login) (fmt : Format) {w : World} (hc : w.oracle.outcomes = [])
    (hstore : ∀ row ∈ (loginRows w req).head?,
      fmt.store (.session (newSession req.username row fmt.toAmounts)) ≠ none) :
    ∃ res w', Prog.run exec (login req fmt) w = (.ok res, w') ∧ w'.oracle.outcomes = [] ∧
      w'.imUser = w.imUser ∧ w'.connMap = w.connMap ∧ w'.connState = w.connState ∧
      w'.sent = w.sent ∧
      match loginRows w req with
      | [] => res.1 = -1 ∧ w'.redis = w.redis
      | row :: _ => res.1 = 0 ∧
        ∃ v, fmt.store (.session (newSession req.username row fmt.toAmounts)) = some v ∧
          w'.redis = w.redis.insert (sessionKey req.username) v := by
  have hc₁ : w.mysqlTaken.oracle.outcomes = [] := hc
  have hc₂ : w.mysqlTaken.cacheTaken.oracle.outcomes = [] := hc
  have hrows : (w.mysqlTaken.imUser.filter fun r =>
      decide (r.name = req.username ∧ r.password = req.password)) = loginRows w req := rfl
  simp only [login, loginChecked, Prog.run_bind, Prog.run_request, exec_getConnection hc,
    exec_getInstance hc₁, reduceCtorEq, Bool.true_eq_false, or_self, if_false,
    exec_queryLogin hc₁, hrows]
  cases hr : loginRows w req with
  | nil =>
    simp only [Prog.run_pure, relCacheConn, if_true, Prog.run_request]
    exact ⟨_, _, rfl, hc, rfl, rfl, rfl, rfl, rfl, rfl⟩
  | cons row rows =>
    obtain ⟨v, hv⟩ := Option.ne_none_iff_exists'.mp (hstore row (by rw [hr]; rfl))
    simp only [getCacheConn, if_true, Prog.run_bind, Prog.run_request, exec_getCacheConn hc₁,
      reduceCtorEq, if_false, CacheConn.setpb, hv, deref, Prog.run_pure, exec_setex hc₂,
      relCacheConn]
    exact ⟨_, _, rfl, hc, rfl, rfl, rfl, rfl, rfl, v, rfl, rfl⟩

/-! ### Red packets -/

/-- Nothing but the clock, the oracle and the pools differs. -/
structure SameStores (w w' : World) : Prop where
  outcomes : w'.oracle.outcomes = w.oracle.outcomes
  redis : w'.redis = w.redis
  imUser : w'.imUser = w.imUser

/-- The time `lock` writes when the clock reads `now`; `RedisLock.h:114–116`. -/
def leaseEnd (expiretime : Int) (now : Nat) : Int :=
  wrap 32 ((now % 2 ^ 32 : Nat) + expiretime + 1)

/-- The values `getRandomMoney` can return. -/
def Share (remainMoney leftPacksize g : Int) : Prop :=
  (leftPacksize = 0 ∧ g = 0) ∨
  (leftPacksize ≠ 0 ∧ remainMoney.tdiv leftPacksize = 1 ∧ g = 1) ∨
  (leftPacksize = 1 ∧ g = remainMoney) ∨
  (leftPacksize ≠ 0 ∧ leftPacksize ≠ 1 ∧
    ∃ draw, 1 ≤ draw ∧ draw ≤ 199 ∧ g = drawnMoney remainMoney leftPacksize draw)

/-- A share of a packet whose count is an `int`. -/
theorem takeShare_eq {p : SendHongbao} (h0 : 0 < p.leftcount) (hmax : p.leftcount < 2 ^ 31)
    (name : String) (g t : Int) (a : Amounts) :
    takeShare p name g t a =
      { p with
        leftmoney := a.sub p.leftmoney (a.ofCents g), leftcount := p.leftcount - 1,
        robitem := p.robitem ++ [{ name := name, money := a.ofCents g, time := t }],
        unset := p.unset.filter fun n => n ≠ 3 && n ≠ 6 } := by
  have hw : wrap 32 p.leftcount = p.leftcount := wrap_eq_self (by decide) (by omega) (by omega)
  have hw' : wrap 32 (p.leftcount - 1) = p.leftcount - 1 :=
    wrap_eq_self (by decide) (by omega) (by omega)
  rw [takeShare, hw, if_pos (by omega), hw']

/-- The range of `uniform_int_distribution`. -/
theorem draw_bounds (r : Nat) :
    1 ≤ (r : Int) % (199 - 1 + 1) + 1 ∧ (r : Int) % (199 - 1 + 1) + 1 ≤ 199 := by
  omega

/-- The value that `RAND(1, 199)` returns next. -/
def World.draw (w : World) : Int := (w.oracle.draws.headD 0 : Int) % (199 - 1 + 1) + 1

/-- The range of a draw. -/
theorem World.draw_bounds (w : World) : 1 ≤ w.draw ∧ w.draw ≤ 199 :=
  IMServer.Business.draw_bounds (w.oracle.draws.headD 0)

/-- What `getRandomMoney` returns for a draw. -/
def shareOf (remainMoney leftPacksize draw : Int) : Int :=
  if leftPacksize = 0 then 0
  else if remainMoney.tdiv leftPacksize = 1 then 1
  else if leftPacksize = 1 then remainMoney
  else drawnMoney remainMoney leftPacksize draw

/-- The share of a draw. -/
theorem share_shareOf (remainMoney leftPacksize : Int) (w : World) :
    Share remainMoney leftPacksize (shareOf remainMoney leftPacksize w.draw) := by
  unfold shareOf
  by_cases h0 : leftPacksize = 0
  · rw [if_pos h0]
    exact .inl ⟨h0, rfl⟩
  rw [if_neg h0]
  by_cases h1 : remainMoney.tdiv leftPacksize = 1
  · rw [if_pos h1]
    exact .inr (.inl ⟨h0, h1, rfl⟩)
  rw [if_neg h1]
  by_cases hl : leftPacksize = 1
  · rw [if_pos hl]
    exact .inr (.inr (.inl ⟨hl, rfl⟩))
  rw [if_neg hl]
  exact .inr (.inr (.inr ⟨h0, hl, w.draw, w.draw_bounds.1, w.draw_bounds.2, rfl⟩))

/-- `getRandomMoney` draws: the share is not decided by the count and the average. -/
def drawsShare (remainMoney leftPacksize : Int) : Bool :=
  leftPacksize ≠ 0 && remainMoney.tdiv leftPacksize ≠ 1 && leftPacksize ≠ 1

/-- The world after `getRandomMoney`: a draw reads the clock and calls `rand`. -/
def World.shared (w : World) (remainMoney leftPacksize : Int) : World :=
  if drawsShare remainMoney leftPacksize then w.ticked.drawn else w

/-- A list reads as no value does. -/
theorem hongbaoRead_string (wire : Wire) (value : Option RedisValue) :
    hongbaoRead wire (value.bind RedisValue.string?) = hongbaoRead wire value := by
  rcases value with _ | (p | s | t | xs | _ | ⟨b, bs⟩) <;> rfl

/-- Nor as a session. -/
theorem sessionRead_string (wire : Wire) (value : Option RedisValue) :
    sessionRead wire (value.bind RedisValue.string?) = sessionRead wire value := by
  rcases value with _ | (p | s | t | xs | _ | ⟨b, bs⟩) <;> rfl

/-! ### Keys of different kinds -/

private theorem append_ne_append {a b x y : String} (hx : x.toList ≠ []) (hy : y.toList ≠ [])
    (h : x.toList.getLast? ≠ y.toList.getLast?) : a ++ x ≠ b ++ y := by
  intro he
  have hl := congrArg (fun s : String => s.toList.getLast?) he
  simp only [String.toList_append, List.getLast?_append_of_ne_nil _ hx,
    List.getLast?_append_of_ne_nil _ hy] at hl
  exact h hl

/-- A packet is no lock. -/
theorem hongbaoKey_ne_getLockKey (sender : String) (now : Nat) (key : String) :
    hongbaoKey sender now ≠ RedisLock.getLockKey key :=
  append_ne_append (by decide) (by decide) (by decide)

/-- A packet is no session. -/
theorem hongbaoKey_ne_sessionKey (sender : String) (now : Nat) (username : String) :
    hongbaoKey sender now ≠ sessionKey username :=
  append_ne_append (by decide) (by decide) (by decide)

/-- A session is no lock. -/
theorem sessionKey_ne_getLockKey (username key : String) :
    sessionKey username ≠ RedisLock.getLockKey key :=
  append_ne_append (by decide) (by decide) (by decide)

/-- Stored messages are no session. -/
theorem messageKey_ne_sessionKey (receiver username : String) :
    messageKey receiver ≠ sessionKey username :=
  append_ne_append (by decide) (by decide) (by decide)

/-- A packet has a key. -/
theorem hongbaoKey_ne_empty (sender : String) (now : Nat) : hongbaoKey sender now ≠ "" := by
  intro h
  have := congrArg String.length h
  simp [hongbaoKey] at this

/-- A lock is not under the key that it locks. -/
theorem getLockKey_ne (key : String) : RedisLock.getLockKey key ≠ key := by
  intro h
  have := congrArg String.length h
  simp [RedisLock.getLockKey] at this

/-- `SendHongbao` answers that the money is not enough; `BaseBusiness.cc:440`. -/
def poor (req : Hongbaoreq) (s : Session) (amounts : Amounts := .cents) : Bool :=
  amounts.short s.userinfo.money req.money

/-- `RobHongbao` refuses: the packet has expired, or was grabbed by the same user, or is empty;
`BaseBusiness.cc:538–573`. -/
def refused (req : ReqRobHongbao) (r : Bool × SendHongbao) : Bool :=
  r.1 || r.2.robitem.any (·.name = req.selfname) || decide (r.2.leftcount = 0)

/-- The three refusals of a grab, and what it does otherwise. -/
theorem refused_split {β : Type} {M : β → Prop} {req : ReqRobHongbao} {empty : Bool}
    {p : SendHongbao} {a b c d : β} (hrefuse : refused req (empty, p) = true → M a ∧ M b ∧ M c)
    (htake : refused req (empty, p) = false → M d) :
    M (if empty then a else if p.robitem.any (·.name = req.selfname) then b else
      if p.leftcount = 0 then c else d) := by
  split
  · next hempty => exact (hrefuse (by simp [refused, hempty])).1
  split
  · next hrobbed => exact (hrefuse (by rw [refused, hrobbed, Bool.or_true, Bool.true_or])).2.1
  split
  · next hleft => exact (hrefuse (by simp [refused, hleft])).2.2
  · next hempty hrobbed hleft =>
    apply htake
    rw [refused, Bool.or_eq_false_iff, Bool.or_eq_false_iff]
    exact ⟨⟨Bool.eq_false_iff.mpr hempty, Bool.eq_false_iff.mpr hrobbed⟩, decide_eq_false hleft⟩

/-- A packet that is not refused has shares left, none of them the user's. -/
theorem of_not_refused {req : ReqRobHongbao} {r : Bool × SendHongbao}
    (h : refused req r = false) :
    r.1 = false ∧ (∀ item ∈ r.2.robitem, item.name ≠ req.selfname) ∧ r.2.leftcount ≠ 0 := by
  simpa [refused, and_assoc] using h

/-- The share that a grab of a packet gives, in cents. -/
def grabbed (fmt : Format) (p : SendHongbao) (w : World) : Int :=
  shareOf (fmt.toCents p.leftmoney) (wrap 32 p.leftcount) w.draw

/-- The time that a grab of a packet records: the clock is read by `lock`, by a draw, and for the
record. -/
def grabTime (fmt : Format) (p : SendHongbao) (w : World) : Nat :=
  (w.ticked.shared (fmt.toCents p.leftmoney) (wrap 32 p.leftcount)).now

/-- The packet that a grab stores. -/
def leftAfter (fmt : Format) (req : ReqRobHongbao) (p : SendHongbao) (w : World) : SendHongbao :=
  takeShare p req.selfname (grabbed fmt p w) (grabTime fmt p w) fmt.toAmounts

/-- The statement that credits a share; `BaseBusiness.cc:602`. -/
def creditShare (fmt : Format) (req : ReqRobHongbao) (g : Int) : Statement :=
  fmt.statement (fmt.ofCents g) fun money => .addMoney money req.selfname

/-- A share can be taken: no division traps, and the packet that is left fits. -/
structure Divisible (fmt : Format) (req : ReqRobHongbao) (p : SendHongbao) (w : World) : Prop where
  divides : wrap 32 p.leftcount ≠ 0 →
    fmt.traps (fmt.toCents p.leftmoney) (wrap 32 p.leftcount) = false
  fits : fmt.store (.hongbao (leftAfter fmt req p w)) ≠ none

/-- Nothing traps and everything fits where the store keeps the messages. -/
theorem divisible_exact (wire : Wire) (req : ReqRobHongbao) (p : SendHongbao) (w : World) :
    Divisible (Format.exact wire) req p w where
  divides _ := rfl
  fits := by rintro ⟨⟩

/-- The statement that refunds what is left; `BaseBusiness.cc:65`. -/
def refundLeft (fmt : Format) (p : SendHongbao) : Statement :=
  fmt.statement p.leftmoney fun leftmoney => .addMoney leftmoney p.sender

/-- The statement that debits an account; `BaseBusiness.cc:450`. -/
def debit (fmt : Format) (amount : Int) (name : String) : Statement :=
  fmt.statement amount fun money => .addMoney (-money) name

end IMServer.Business
