import IMServer.Business.Outcomes

/-!
# How the red-packet calls end

`SendHongbao`, `RobHongbao` and `StopRobHongbao` of `server/src/BaseBusiness.cc`, each of them
alone: from any state, with any outcomes of its store calls, in every format and against every
server. One theorem for each function says how it ends; what it does when every store call
succeeds is a case of that.
-/

namespace IMServer.Business

open IMServer.Base

/-! ### Calls that all succeed -/

section Calm

variable {w : World}

private theorem redis_spend_iterate (n : Nat) (b : Ledger) :
    (Ledger.spend^[n] b).redis = b.redis := by
  induction n with
  | zero => rfl
  | succ n ih =>
    rw [Function.iterate_succ_apply']
    exact ih

/-- Every call succeeds. -/
theorem outcomeAt_calm (hc : w.oracle.outcomes = []) (n : Nat) : w.outcomeAt n = .done := by
  have hspend : w.ledger.spend = w.ledger := by
    simp only [Ledger.spend, World.ledger, hc, List.tail_nil]
  rw [World.outcomeAt, Function.iterate_fixed hspend]
  exact outcome_calm hc

/-- A `GET` that succeeds. -/
theorem getAt_of_done {n : Nat} (ho : w.outcomeAt n = .done) (key : String) :
    w.getAt n key = some ((w.redis.lookup key).bind RedisValue.string?) := by
  rw [World.getAt, Ledger.get, show (Ledger.spend^[n] w.ledger).outcome = _ from ho,
    redis_spend_iterate]
  rfl

/-- How a program ends against the server that takes every statement as it is meant, and that every
store call after it succeeds too. -/
theorem exists_run_of_ends {α : Type} {Q : Except Abort α → World → Prop} {p : Op α}
    (hc : w.oracle.outcomes = []) (h : Prog.Ends (execWith .meant) Q p w) :
    ∃ res w', Prog.run exec p w = (res, w') ∧ w'.oracle.outcomes = [] ∧ Q res w' :=
  ⟨_, _, rfl, run_calm p hc, ends_meant h⟩

/-- What a statement that is taken as it is meant does to the accounts. -/
theorem accountsAfter_meant (stmt : Statement) (w : World) :
    Server.meant.accountsAfter stmt w.imUser = (w.apply stmt).imUser := by
  rw [Server.accountsAfter, applyBy_meant]
  have himUser : ({ imUser := w.imUser } : World).imUser = w.imUser := rfl
  exact World.apply_imUser_congr himUser stmt

end Calm

/-! ### `SendHongbao` -/

/-- The session that a call reads which is given its connections. -/
def sendRead (fmt : Format) (req : Hongbaoreq) (w : World) : Option Session :=
  if w.outcomeAt 0 = .done ∧ w.outcomeAt 1 = .done ∧ w.outcomeAt 3 = .done then
    (w.getAt 2 (sessionKey req.sender)).bind (sessionRead fmt.toWire)
  else none

/-- How a request for a packet ends. -/
inductive SendEnd (fmt : Format) (server : Server) (req : Hongbaoreq) (w : World) :
    Except Abort (Int × HongbaoResp) → World → Prop where
  /-- There is no connection or no session. -/
  | failed {res : Except Abort (Int × HongbaoResp)} {w' : World} (read : sendRead fmt req w = none)
      (answer : ∀ a, res = .ok a → a.2.isok = false) (redis : w'.redis = w.redis)
      (imUser : w'.imUser = w.imUser) : SendEnd fmt server req w res w'
  /-- The session does not show more money than the packet needs. -/
  | poor {w' : World} (s : Session) (read : sendRead fmt req w = some s)
      (short : poor req s fmt.toAmounts = true) (redis : w'.redis = w.redis)
      (imUser : w'.imUser = w.imUser) :
      SendEnd fmt server req w (.ok (-1, { isok := false, description := "money not enough" })) w'
  /-- The packet does not fit, and the account has been debited. -/
  | overrun {w' : World} (s : Session) (read : sendRead fmt req w = some s)
      (covered : poor req s fmt.toAmounts = false)
      (stored : fmt.store (.hongbao (newHongbao req)) = none) :
      SendEnd fmt server req w (.error .overrun) w'
  | sent {w' : World} (s : Session) (v : RedisValue) (read : sendRead fmt req w = some s)
      (covered : poor req s fmt.toAmounts = false)
      (stored : fmt.store (.hongbao (newHongbao req)) = some v)
      (redis : w'.redis = if w.outcomeAt 5 = .done then
        w.redis.insert (hongbaoKey req.sender w.now) v else w.redis)
      (imUser : w'.imUser = (server.accountsAfter (debit fmt req.money s.userinfo.name))^[
        (w.outcomeAt 4).times] w.imUser) :
      SendEnd fmt server req w
        (.ok (0, { isok := true, sender := req.sender,
                   hongbaokey := hongbaoKey req.sender w.now, description := "send ok" })) w'

/-- Reads leave everything as it was. -/
private theorem SendEnd.of_ledger {fmt : Format} {server : Server} {req : Hongbaoreq}
    {w w' : World} {res : Except Abort (Int × HongbaoResp)} {o : List Outcome}
    (read : sendRead fmt req w = none) (answer : ∀ a, res = .ok a → a.2.isok = false)
    (hw : w'.ledger = { w.ledger with outcomes := o }) : SendEnd fmt server req w res w' :=
  .failed read answer (congrArg Ledger.redis hw) (congrArg Ledger.imUser hw)

/-- How `SendHongbao` ends. -/
theorem sendHongbao_ends (fmt : Format) (server : Server) (req : Hongbaoreq) (w : World) :
    Prog.Ends (execWith server) (SendEnd fmt server req w) (sendHongbao fmt req) w := by
  refine ends_cacheConn rfl (fun h0 w' hw' => ?_) (fun h0 h1 w' hw' => ?_) fun h0 h1 h w' hw' => ?_
  · exact .of_ledger (if_neg fun hd => h0 hd.1) (by rintro a ⟨⟩) hw'
  · exact .of_ledger (if_neg fun hd => h1 hd.2.1) (by rintro a ⟨⟩; rfl) hw'
  show Prog.Ends _ _ (CacheConn.getpbSession fmt.toWire (some h) (sessionKey req.sender) >>= _) w'
  rw [CacheConn.getpbSession, getpb_eq]
  refine ends_getAs hw' (fun hget w' hw' => ?_) fun s hget w' hw' => ?_
  · refine .of_ledger ?_ (by rintro a ⟨⟩) hw'
    rw [sendRead, show (w.getAt 2 _).bind _ = none from hget]
    exact ite_self _
  refine ends_getConnection hw' (fun h3 w' hw' => ?_) fun h3 hm w' hw' => ?_
  · exact .of_ledger (if_neg fun hd => h3 hd.2.2) (by rintro a ⟨⟩; rfl) hw'
  have hread : sendRead fmt req w = some s := (if_pos ⟨h0, h1, h3⟩).trans hget
  show Prog.Ends _ _ (if poor req s fmt.toAmounts then _ else do
    let _ ← issue (.execute (debit fmt req.money s.userinfo.name))
    _) w'
  cases hpoor : poor req s fmt.toAmounts with
  | true => exact .poor s hread hpoor (congrArg Ledger.redis hw') (congrArg Ledger.imUser hw')
  | false =>
    refine ends_execute hw' fun w' hw' => ends_time hw' fun w' hw' =>
      ends_setpb hw' (fun hnone => .overrun s hread hpoor hnone) fun v hv w' hw' =>
      ends_record hw' (fun m => accountsAfter_insertHongbao _) fun w' hw' => ?_
    exact .sent s v hread hpoor hv (congrArg Ledger.redis hw') (congrArg Ledger.imUser hw')

/-- What a request for a packet that runs alone does, where it has read the session `s`. -/
inductive SendStep (fmt : Format) (req : Hongbaoreq) (s : Session) (w : World) :
    Int × HongbaoResp → World → Prop where
  /-- The session does not show more money than the packet needs. -/
  | refused {w' : World} (short : fmt.short s.userinfo.money req.money = true)
      (redis : w'.redis = w.redis) (imUser : w'.imUser = w.imUser) :
      SendStep fmt req s w (-1, { isok := false, description := "money not enough" }) w'
  /-- The account named in the session pays for a new packet. -/
  | sent {w' : World} (v : RedisValue) (covered : fmt.short s.userinfo.money req.money = false)
      (stored : fmt.store (.hongbao (newHongbao req)) = some v)
      (redis : w'.redis = w.redis.insert (hongbaoKey req.sender w.now) v)
      (imUser : w'.imUser = (w.apply (debit fmt req.money s.userinfo.name)).imUser) :
      SendStep fmt req s w (0, { isok := true, sender := req.sender,
                                 hongbaokey := hongbaoKey req.sender w.now,
                                 description := "send ok" }) w'

/-- A request for a packet that runs alone returns, and is refused or paid for. -/
theorem sendHongbao_spec (fmt : Format) (req : Hongbaoreq) {w : World}
    (hc : w.oracle.outcomes = []) {s : Session}
    (hread : sessionRead fmt.toWire (w.redis.lookup (sessionKey req.sender)) = some s)
    (hfits : fmt.short s.userinfo.money req.money = false →
      fmt.store (.hongbao (newHongbao req)) ≠ none) :
    ∃ res w', Prog.run exec (sendHongbao fmt req) w = (.ok res, w') ∧
      w'.oracle.outcomes = [] ∧ SendStep fmt req s w res w' := by
  have hdone := outcomeAt_calm hc
  have hsession : sendRead fmt req w = some s := by
    rw [sendRead, if_pos ⟨hdone 0, hdone 1, hdone 3⟩, getAt_of_done (hdone 2), Option.bind_some,
      sessionRead_string, hread]
  obtain ⟨res, w', hrun, hcalm, hend⟩ := exists_run_of_ends hc (sendHongbao_ends fmt .meant req w)
  cases hend with
  | failed read => cases hsession.symm.trans read
  | poor s' read short redis imUser =>
    cases hsession.symm.trans read
    exact ⟨_, w', hrun, hcalm, .refused short redis imUser⟩
  | overrun s' read covered stored =>
    cases hsession.symm.trans read
    exact absurd stored (hfits covered)
  | sent s' v read covered stored redis imUser =>
    cases hsession.symm.trans read
    rw [if_pos (hdone 5)] at redis
    rw [hdone 4] at imUser
    exact ⟨_, w', hrun, hcalm,
      .sent v covered stored redis (imUser.trans (accountsAfter_meant _ w))⟩

/-! ### `StopRobHongbao` -/

/-- What a call reads before it deletes the key. -/
def stopRead (fmt : Format) (key : String) (w : World) : Option (Bool × SendHongbao) :=
  if w.outcomeAt 0 = .done ∧ w.outcomeAt 1 = .done then
    (w.getAt 2 key).bind (hongbaoRead fmt.toWire)
  else none

/-- How the end of a packet ends. -/
inductive StopEnd (fmt : Format) (server : Server) (key : String) (w : World) :
    Except Abort Unit → World → Prop where
  | aborted {res : Except Abort Unit} {w' : World} (read : stopRead fmt key w = none)
      (redis : w'.redis = w.redis) : StopEnd fmt server key w res w'
  | ended {w' : World} (r : Bool × SendHongbao) (read : stopRead fmt key w = some r)
      (redis : w'.redis = if w.outcomeAt 3 = .done then w.redis.erase key else w.redis)
      (imUser : w'.imUser = if w.outcomeAt 4 = .done ∧ r.2.leftcount ≠ 0 then
        (server.accountsAfter (refundLeft fmt r.2))^[(w.outcomeAt 6).times] w.imUser
      else w.imUser) : StopEnd fmt server key w (.ok ()) w'

/-- How `StopRobHongbao` ends. -/
theorem stopRobHongbao_ends (fmt : Format) (server : Server) (key sender : String) (w : World) :
    Prog.Ends (execWith server) (StopEnd fmt server key w) (stopRobHongbao fmt key sender) w := by
  refine ends_cacheConn rfl (fun h0 w' hw' => ?_) (fun h0 h1 w' hw' => ?_) fun h0 h1 h w' hw' => ?_
  · exact .aborted (if_neg fun hd => h0 hd.1) (congrArg Ledger.redis hw')
  · exact .aborted (if_neg fun hd => h1 hd.2) (congrArg Ledger.redis hw')
  show Prog.Ends _ _ (CacheConn.getpbHongbao fmt.toWire (some h) key >>= _) w'
  rw [CacheConn.getpbHongbao, getpb_eq]
  have hstop : stopRead fmt key w = (w.getAt 2 key).bind (hongbaoRead fmt.toWire) :=
    if_pos ⟨h0, h1⟩
  refine ends_getAs hw' (fun hget w' hw' => ?_) fun r hget w' hw' => ?_
  · exact .aborted (hstop.trans hget) (congrArg Ledger.redis hw')
  have hread := hstop.trans hget
  refine ends_del hw' fun w' hw' => ?_
  refine ends_getConnection hw' (fun h4 w' hw' => ?_) fun h4 hm w' hw' => ?_
  · show StopEnd fmt server key w (.ok ()) w'
    refine .ended r hread (congrArg Ledger.redis hw') ?_
    rw [if_neg fun hd => h4 hd.1]
    exact congrArg Ledger.imUser hw'
  refine ends_record hw' (fun m => accountsAfter_updateHongbao _ _ _ _) fun w' hw' => ?_
  by_cases hleft : r.2.leftcount ≠ 0
  · rw [if_pos hleft]
    show Prog.Ends _ _ (do
      let _ ← issue (.execute (refundLeft fmt r.2))
      relCacheConn true (some h)
      issue (.releaseConnection (some hm))) w'
    refine ends_execute hw' fun w' hw' => ends_release hw' fun w' hw' => ?_
    refine .ended r hread (congrArg Ledger.redis hw') ?_
    rw [if_pos ⟨h4, hleft⟩]
    exact congrArg Ledger.imUser hw'
  · rw [if_neg hleft]
    refine ends_release hw' fun w' hw' => .ended r hread (congrArg Ledger.redis hw') ?_
    rw [if_neg fun hd => hleft hd.2]
    exact congrArg Ledger.imUser hw'

/-- The end of a packet that runs alone: the key is deleted and what is left goes back to the
sender, unless every share has been taken. -/
theorem stopRobHongbao_spec (fmt : Format) (key sender : String) {w : World}
    (hc : w.oracle.outcomes = []) {r : Bool × SendHongbao}
    (hread : hongbaoRead fmt.toWire (w.redis.lookup key) = some r) :
    ∃ w', Prog.run exec (stopRobHongbao fmt key sender) w = (.ok (), w') ∧
      w'.oracle.outcomes = [] ∧ w'.redis = w.redis.erase key ∧
      w'.imUser = if r.2.leftcount ≠ 0 then (w.apply (refundLeft fmt r.2)).imUser
        else w.imUser := by
  have hdone := outcomeAt_calm hc
  have hpacket : stopRead fmt key w = some r := by
    rw [stopRead, if_pos ⟨hdone 0, hdone 1⟩, getAt_of_done (hdone 2), Option.bind_some,
      hongbaoRead_string, hread]
  obtain ⟨res, w', hrun, hcalm, hend⟩ := exists_run_of_ends hc (stopRobHongbao_ends fmt .meant key sender w)
  cases hend with
  | aborted read => cases hpacket.symm.trans read
  | ended r' read redis imUser =>
    cases hpacket.symm.trans read
    rw [if_pos (hdone 3)] at redis
    refine ⟨w', hrun, hcalm, redis, imUser.trans ?_⟩
    rw [hdone 6, ← accountsAfter_meant]
    simp only [hdone 4, true_and]
    rfl

/-! ### `RobHongbao` -/

/-- The fourth store call is the `SETNX` that takes the lock. -/
def LockFree (req : ReqRobHongbao) (w : World) : Prop :=
  w.outcomeAt 3 = .done ∧ RedisLock.getLockKey req.hongbaokey ∉ w.redis

instance (req : ReqRobHongbao) (w : World) : Decidable (LockFree req w) :=
  inferInstanceAs (Decidable (_ ∧ _))

/-- What is read under the key of the packet is a time that has not run out. -/
def LockHeld (wire : Wire) (req : ReqRobHongbao) (w : World) : Prop :=
  (Ledger.spend^[4] w.ledger).ReadsHeld wire req.hongbaokey w.now

/-- What is read under the key of the packet is a time that has run out, and it is overwritten. -/
def LockExpired (wire : Wire) (req : ReqRobHongbao) (w : World) : Prop :=
  (Ledger.spend^[4] w.ledger).ReadsExpired wire req.hongbaokey w.now ∧ w.outcomeAt 5 = .done

/-- The ledger when `SETNX` has taken the lock. -/
def lockedLedger (req : ReqRobHongbao) (w : World) : Ledger :=
  (Ledger.spend^[3] w.ledger).ticked.put (RedisLock.getLockKey req.hongbaokey)
    (.stamp (leaseEnd 50000 w.now))

/-- The ledger when a time that had run out has been overwritten. -/
def overLedger (req : ReqRobHongbao) (w : World) : Ledger :=
  (Ledger.spend^[5] w.ledger).ticked.put req.hongbaokey (.stamp (leaseEnd 50000 w.now))

/-- What a grab reads under the lock. -/
def Ledger.packet (b : Ledger) (fmt : Format) (req : ReqRobHongbao) :
    Option (Bool × SendHongbao) :=
  (b.get req.hongbaokey).bind (hongbaoRead fmt.toWire)

/-- How a grab ends that has the lock, and with or without a MySQL connection. -/
inductive LockedEnd (fmt : Format) (server : Server) (req : ReqRobHongbao) (mysql : Bool)
    (w : World) (b : Ledger) : Except Abort (Int × RespRobHongbao) → World → Prop where
  | unread {w' : World} (read : b.packet fmt req = none) (redis : w'.redis = b.redis)
      (imUser : w'.imUser = w.imUser) :
      LockedEnd fmt server req mysql w b (.error .exception) w'
  | refused {text : String} {w' : World} (r : Bool × SendHongbao)
      (read : b.packet fmt req = some r) (refused : refused req r = true) (text_ne : text ≠ "")
      (redis : w'.redis = (b.spend.remove (RedisLock.getLockKey req.hongbaokey)).redis)
      (imUser : w'.imUser = w.imUser) :
      LockedEnd fmt server req mysql w b (.ok (0, refuseRob req text)) w'
  /-- The division traps, or what is left does not fit. -/
  | stuck {e : Abort} {w' : World} (p : SendHongbao) (read : b.packet fmt req = some (false, p))
      (given : Business.refused req (false, p) = false) (stuck : ¬ Divisible fmt req p w) :
      LockedEnd fmt server req mysql w b (.error e) w'
  /-- There is no MySQL connection, and the packet has been stored. -/
  | crashed {w' : World} (p : SendHongbao) (v : RedisValue)
      (read : b.packet fmt req = some (false, p))
      (given : Business.refused req (false, p) = false)
      (stored : fmt.store (.hongbao (leftAfter fmt req p w)) = some v) (missing : mysql = false)
      (redis : w'.redis = (b.spend.put req.hongbaokey v).redis) (imUser : w'.imUser = w.imUser) :
      LockedEnd fmt server req mysql w b (.error .nullPointer) w'
  | taken {w' : World} (p : SendHongbao) (v : RedisValue)
      (read : b.packet fmt req = some (false, p))
      (given : Business.refused req (false, p) = false) (divisible : Divisible fmt req p w)
      (stored : fmt.store (.hongbao (leftAfter fmt req p w)) = some v) (found : mysql = true)
      (redis : w'.redis = ((b.spend.put req.hongbaokey v).spend.remove
        (RedisLock.getLockKey req.hongbaokey)).redis)
      (imUser : w'.imUser = (server.accountsAfter (creditShare fmt req (grabbed fmt p w)))^[
        b.spend.spend.outcome.times] w.imUser) :
      LockedEnd fmt server req mysql w b
        (.ok (0, { hongbaokey := req.hongbaokey, sender := req.sender,
                   robmoney := fmt.ofCents (grabbed fmt p w), totalcount := p.count,
                   leftcount := (leftAfter fmt req p w).leftcount, isok := true,
                   description := "congratulation" })) w'

/-- How a grab ends that has a Redis connection and asks for the lock. -/
inductive AskedEnd (fmt : Format) (server : Server) (req : ReqRobHongbao) (mysql : Bool)
    (w : World) : Except Abort (Int × RespRobHongbao) → World → Prop where
  | silent {w' : World} (busy : ¬ LockFree req w) (held : LockHeld fmt.toWire req w)
      (redis : w'.redis = w.redis) (imUser : w'.imUser = w.imUser) :
      AskedEnd fmt server req mysql w (.ok (0, {})) w'
  | thrown {w' : World} (busy : ¬ LockFree req w) (held : ¬ LockHeld fmt.toWire req w)
      (expired : ¬ LockExpired fmt.toWire req w) (redis : w'.redis = w.redis)
      (imUser : w'.imUser = w.imUser) : AskedEnd fmt server req mysql w (.error .exception) w'
  | free {res : Except Abort (Int × RespRobHongbao)} {w' : World} (free : LockFree req w)
      (locked : LockedEnd fmt server req mysql w (lockedLedger req w) res w') :
      AskedEnd fmt server req mysql w res w'
  | overtaken {res : Except Abort (Int × RespRobHongbao)} {w' : World} (busy : ¬ LockFree req w)
      (expired : LockExpired fmt.toWire req w)
      (locked : LockedEnd fmt server req mysql w (overLedger req w) res w') :
      AskedEnd fmt server req mysql w res w'

/-- How a grab ends. -/
inductive RobEnd (fmt : Format) (server : Server) (req : ReqRobHongbao) (w : World) :
    Except Abort (Int × RespRobHongbao) → World → Prop where
  | noKey {w' : World} (noKey : req.hongbaokey = "") (redis : w'.redis = w.redis)
      (imUser : w'.imUser = w.imUser) :
      RobEnd fmt server req w (.ok (-1, refuseRob req "hongbao key is NULL")) w'
  | missing {w' : World} (missing : ¬ (w.outcomeAt 1 = .done ∧ w.outcomeAt 2 = .done))
      (redis : w'.redis = w.redis) (imUser : w'.imUser = w.imUser) :
      RobEnd fmt server req w (.error .nullPointer) w'
  | asked {res : Except Abort (Int × RespRobHongbao)} {w' : World} (key : req.hongbaokey ≠ "")
      (manager : w.outcomeAt 1 = .done) (conn : w.outcomeAt 2 = .done)
      (asked : AskedEnd fmt server req (decide (w.outcomeAt 0 = .done)) w res w') :
      RobEnd fmt server req w res w'

/-- A grab from the lock on; `BaseBusiness.cc:525–621`. -/
def robFrom (fmt : Format) (req : ReqRobHongbao) (manager : Bool) (ml conn : Option Handle) :
    Op (Int × RespRobHongbao) := do
  let lock ← RedisLock.lock fmt.toWire ⟨conn, req.hongbaokey, 50000, false, 0⟩
  if lock.locked then robLocked fmt req manager ml conn lock
  else
    relCacheConn manager conn
    issue (.releaseConnection ml)
    return (0, {})

section Rob

variable {fmt : Format} {server : Server} {req : ReqRobHongbao} {w : World}

/-- The lock is no packet. -/
theorem packet_lockedLedger (h : LockFree req w) :
    (lockedLedger req w).packet fmt req =
      (w.getAt 4 req.hongbaokey).bind (hongbaoRead fmt.toWire) := by
  have hredis : (lockedLedger req w).redis =
      w.redis.insert (RedisLock.getLockKey req.hongbaokey) (.stamp (leaseEnd 50000 w.now)) :=
    if_pos h.1
  rw [Ledger.packet, Ledger.get, hredis, AList.lookup_insert_ne (getLockKey_ne _).symm]
  rfl

/-- Under the lock; since the lock has read the clock nothing but Redis has changed. -/
theorem robLocked_ends {b : Ledger} {w' : World} (ml : Option Handle) (h : Handle) (ts : Int)
    (hb : ∃ o redis, b = { w.ticked.ledger with outcomes := o, redis := redis })
    (hw' : w'.ledger = b) :
    Prog.Ends (execWith server) (LockedEnd fmt server req ml.isSome w b)
      (robLocked fmt req true ml (some h) ⟨some h, req.hongbaokey, 50000, true, ts⟩) w' := by
  obtain ⟨o, redis, hb⟩ := hb
  have himUser : b.imUser = w.imUser := by
    rw [hb]
    rfl
  have hgrab : ∀ rem n, shareOf rem n b.spend.draw = shareOf rem n w.draw := by
    rw [hb]
    exact fun _ _ => rfl
  have htime : ∀ rem n, (b.spend.shared rem n).now = (w.ticked.shared rem n).now := by
    intro rem n
    rw [hb]
    unfold Ledger.shared World.shared
    split
    · rfl
    · rfl
  show Prog.Ends _ _ (CacheConn.getpbHongbao fmt.toWire (some h) req.hongbaokey >>= _) w'
  rw [CacheConn.getpbHongbao, getpb_eq]
  refine ends_getAs hw' (fun hbad w' hw' => ?_) fun r hr w' hw' => ?_
  · exact .unread hbad (congrArg Ledger.redis hw') ((congrArg Ledger.imUser hw').trans himUser)
  obtain ⟨empty, p⟩ := r
  have hrefuse : ∀ text : String, text ≠ "" → refused req (empty, p) = true →
      Prog.Ends (execWith server) (LockedEnd fmt server req ml.isSome w b)
        (do RedisLock.unlock ⟨some h, req.hongbaokey, 50000, true, ts⟩
            return (0, refuseRob req text) : Op (Int × RespRobHongbao)) w' := by
    intro text htext hrefused
    exact ends_del hw' fun w' hw' => .refused _ hr hrefused htext (congrArg Ledger.redis hw')
      ((congrArg Ledger.imUser hw').trans himUser)
  show Prog.Ends _ _ (if empty then _ else if p.robitem.any (·.name = req.selfname) then _ else
    if p.leftcount = 0 then _ else getRandomMoney _ _ _ >>= _) w'
  apply refused_split (M := fun q => Prog.Ends (execWith server) _ q w')
  · intro hrefused
    exact ⟨hrefuse _ (by decide) hrefused, hrefuse _ (by decide) hrefused,
      hrefuse _ (by decide) hrefused⟩
  intro hgiven
  obtain rfl : empty = false := (of_not_refused hgiven).1
  refine ends_getRandomMoney hw' (fun h0 ht w' hw' => ?_) fun hdivides w' hw' =>
    ends_time hw' fun w' hw' => ?_
  · refine .stuck p hr hgiven fun hd => ?_
    rw [hd.divides h0] at ht
    cases ht
  rw [hgrab, htime]
  obtain ⟨clock, ticks, draws, hshared⟩ :=
    b.spend.exists_shared (fmt.toCents p.leftmoney) (wrap 32 p.leftcount)
  rw [hshared] at hw'
  refine ends_setpb hw' (fun hnone => .stuck p hr hgiven fun hd => hd.fits hnone)
    fun v hv w' hw' => ?_
  have hdivisible : Divisible fmt req p w :=
    ⟨hdivides, fun hnone => by cases hnone.symm.trans hv⟩
  cases ml with
  | none =>
    exact .crashed p v hr hgiven hv rfl (congrArg Ledger.redis hw')
      ((congrArg Ledger.imUser hw').trans himUser)
  | some hm =>
    show Prog.Ends _ _ (do
      let _ ← issue (.execute (creditShare fmt req (grabbed fmt p w)))
      _) w'
    refine ends_execute hw' fun w' hw' => ends_del hw' fun w' hw' => ?_
    refine ends_release hw' fun w' hw' => ?_
    refine .taken p v hr hgiven hdivisible hv rfl (congrArg Ledger.redis hw') ?_
    rw [← himUser]
    exact congrArg Ledger.imUser hw'

/-- From the lock on, after three store calls. -/
theorem robFrom_ends {w' : World} (ml : Option Handle) (h : Handle)
    (hw' : w'.ledger = Ledger.spend^[3] w.ledger) :
    Prog.Ends (execWith server) (AskedEnd fmt server req ml.isSome w)
      (robFrom fmt req true ml (some h)) w' := by
  refine ends_lock hw' (fun hfree w' hw' => ?_) (fun hbusy hheld hover o w' hw' => ?_)
    (fun hbusy hheld s o w' hw' => ?_) fun hbusy hexp h5 s w' hw' => ?_
  · exact (robLocked_ends ml h _ ⟨_, _, rfl⟩ hw').mono fun _ _ => .free hfree
  · exact .thrown hbusy hheld hover (congrArg Ledger.redis hw') (congrArg Ledger.imUser hw')
  · exact ends_release hw' fun w' hw' =>
      .silent hbusy hheld (congrArg Ledger.redis hw') (congrArg Ledger.imUser hw')
  · exact (robLocked_ends ml h s ⟨_, _, rfl⟩ hw').mono fun _ _ => .overtaken hbusy ⟨hexp, h5⟩

/-- How `RobHongbao` ends. -/
theorem robHongbao_ends (fmt : Format) (server : Server) (req : ReqRobHongbao) (w : World) :
    Prog.Ends (execWith server) (RobEnd fmt server req w) (robHongbao fmt req) w := by
  unfold robHongbao
  by_cases hkey : req.hongbaokey = ""
  · rw [if_pos hkey]
    exact .noKey hkey rfl rfl
  rw [if_neg hkey]
  -- with or without the MySQL connection the call goes on
  have hconn : ∀ ml : Option Handle, ml.isSome = decide (w.outcomeAt 0 = .done) →
      ∀ w', w'.ledger = w.ledger.spend → Prog.Ends (execWith server) (RobEnd fmt server req w) (do
        let manager ← issue .getInstance
        let conn ← getCacheConn manager req.sender
        robFrom fmt req manager ml conn) w' := by
    intro ml hml w' hw'
    refine ends_cacheConn hw' (fun h1 w' hw' => ?_) (fun h1 h2 w' hw' => ?_)
      fun h1 h2 h w' hw' => ?_
    · exact .missing (fun hd => h1 hd.1) (congrArg Ledger.redis hw') (congrArg Ledger.imUser hw')
    · -- `lock` reads the clock and finds no connection
      exact .missing (fun hd => h2 hd.2) (congrArg Ledger.redis hw') (congrArg Ledger.imUser hw')
    · refine (robFrom_ends ml h hw').mono fun _ _ hend => .asked hkey h1 h2 ?_
      rwa [← hml]
  exact ends_getConnection rfl
    (fun h0 w' hw' => hconn none (decide_eq_false h0).symm w' hw')
    fun h0 hm w' hw' => hconn (some hm) (decide_eq_true h0).symm w' hw'

end Rob

/-- Taking and giving back the lock leaves every key as it was. -/
theorem lookup_lock_unlock {redis : AList fun _ : String => RedisValue} {lock : String}
    (hlock : lock ∉ redis) (v : RedisValue) (k : String) :
    ((redis.insert lock v).erase lock).lookup k = redis.lookup k := by
  by_cases hk : k = lock
  · subst hk
    rw [AList.lookup_erase, AList.lookup_eq_none.mpr hlock]
  · rw [AList.lookup_erase_ne hk, AList.lookup_insert_ne hk]

/-- So does storing a packet in between, for every other key. -/
theorem lookup_lock_put_unlock {redis : AList fun _ : String => RedisValue} {lock key : String}
    (hlock : lock ∉ redis) (hne : key ≠ lock) (s v : RedisValue) (k : String) :
    (((redis.insert lock s).insert key v).erase lock).lookup k =
      (redis.insert key v).lookup k := by
  by_cases hk : k = key
  · subst hk
    rw [AList.lookup_erase_ne hne, AList.lookup_insert, AList.lookup_insert]
  rw [AList.lookup_insert_ne hk, ← lookup_lock_unlock hlock s k]
  by_cases hl : k = lock
  · subst hl
    rw [AList.lookup_erase, AList.lookup_erase]
  · rw [AList.lookup_erase_ne hl, AList.lookup_erase_ne hl, AList.lookup_insert_ne hk]

/-- What a grab that runs alone does. -/
inductive RobStep (fmt : Format) (req : ReqRobHongbao) (w : World) :
    RespRobHongbao → World → Prop where
  /-- No share is taken. -/
  | refused {resp : RespRobHongbao} {w' : World} (r : Bool × SendHongbao)
      (read : hongbaoRead fmt.toWire (w.redis.lookup req.hongbaokey) = some r)
      (refused : refused req r = true) (isok : resp.isok = false)
      (redis : ∀ k, w'.redis.lookup k = w.redis.lookup k) (imUser : w'.imUser = w.imUser) :
      RobStep fmt req w resp w'
  /-- A share is moved from the packet to the account. -/
  | taken {resp : RespRobHongbao} {w' : World} (p : SendHongbao) (v : RedisValue)
      (read : hongbaoRead fmt.toWire (w.redis.lookup req.hongbaokey) = some (false, p))
      (first : ∀ item ∈ p.robitem, item.name ≠ req.selfname) (left : p.leftcount ≠ 0)
      (stored : fmt.store (.hongbao (leftAfter fmt req p w)) = some v)
      (answer : resp = { hongbaokey := req.hongbaokey, sender := req.sender,
                         robmoney := fmt.ofCents (grabbed fmt p w), totalcount := p.count,
                         leftcount := (leftAfter fmt req p w).leftcount,
                         isok := true, description := "congratulation" })
      (redis : ∀ k, w'.redis.lookup k = (w.redis.insert req.hongbaokey v).lookup k)
      (imUser : w'.imUser = (w.apply (creditShare fmt req (grabbed fmt p w))).imUser) :
      RobStep fmt req w resp w'

/-- A grab that runs alone on a free lock returns, and either takes no share or moves the one
that the next draw gives. -/
theorem robHongbao_spec (fmt : Format) (req : ReqRobHongbao) {w : World}
    (hc : w.oracle.outcomes = []) (hkey : req.hongbaokey ≠ "")
    (hlock : RedisLock.getLockKey req.hongbaokey ∉ w.redis) {r : Bool × SendHongbao}
    (hread : hongbaoRead fmt.toWire (w.redis.lookup req.hongbaokey) = some r)
    (hdivisible : refused req r = false → Divisible fmt req r.2 w) :
    ∃ resp w', Prog.run exec (robHongbao fmt req) w = (.ok (0, resp), w') ∧
      w'.oracle.outcomes = [] ∧ RobStep fmt req w resp w' := by
  have hdone := outcomeAt_calm hc
  have hfree : LockFree req w := ⟨hdone 3, hlock⟩
  have hpacket : (lockedLedger req w).packet fmt req = some r := by
    rw [packet_lockedLedger hfree, getAt_of_done (hdone 4), Option.bind_some, hongbaoRead_string,
      hread]
  have hredis : (lockedLedger req w).redis = w.redis.insert _ _ := if_pos hfree.1
  obtain ⟨res, w', hrun, hcalm, hend⟩ := exists_run_of_ends hc (robHongbao_ends fmt .meant req w)
  have hlocked : LockedEnd fmt .meant req (decide (w.outcomeAt 0 = .done)) w (lockedLedger req w)
      res w' := by
    cases hend with
    | noKey noKey => exact absurd noKey hkey
    | missing missing => exact absurd ⟨hdone 1, hdone 2⟩ missing
    | asked key manager conn asked =>
      cases asked with
      | free free locked => exact locked
      | silent busy => exact absurd hfree busy
      | thrown busy => exact absurd hfree busy
      | overtaken busy => exact absurd hfree busy
  cases hlocked with
  | unread read => cases hpacket.symm.trans read
  | refused r' read refused text_ne redis imUser =>
    cases hpacket.symm.trans read
    refine ⟨_, w', hrun, hcalm, .refused r hread refused rfl (fun k => ?_) imUser⟩
    have herased : w'.redis = (lockedLedger req w).redis.erase _ := redis.trans (if_pos (hdone 5))
    rw [herased, hredis]
    exact lookup_lock_unlock hlock _ k
  | stuck p read given stuck =>
    cases hpacket.symm.trans read
    exact absurd (hdivisible given) stuck
  | crashed p v read given stored missing =>
    rw [decide_eq_true (hdone 0)] at missing
    cases missing
  | taken p v read given divisible stored found redis imUser =>
    cases hpacket.symm.trans read
    obtain ⟨-, hfirst, hleft⟩ := of_not_refused given
    refine ⟨_, w', hrun, hcalm, .taken p v hread hfirst hleft stored rfl (fun k => ?_) ?_⟩
    · have herased : w'.redis = ((lockedLedger req w).spend.put req.hongbaokey v).redis.erase _ :=
        redis.trans (if_pos (hdone 7))
      have hput : ((lockedLedger req w).spend.put req.hongbaokey v).redis =
        (lockedLedger req w).redis.insert req.hongbaokey v := if_pos (hdone 5)
      rw [herased, hput, hredis]
      exact lookup_lock_put_unlock hlock (getLockKey_ne _).symm _ v k
    · rw [show (lockedLedger req w).spend.spend.outcome = .done from hdone 6] at imUser
      exact imUser.trans (accountsAfter_meant _ w)

end IMServer.Business
