import IMServer.Business.Calls
import IMServer.Business.ConnectionSlots

/-!
# Connections that are missing

`MysqlLinkPool::GetConnection`, `CacheManager::getInstance` and `CacheManager::GetCacheConn` may
each return a null pointer. Every business function of `server/src/BaseBusiness.cc` is followed
along the null pointers it gets, whatever else the stores reply: the theorem says for which of them
it uses none of them and reports a failure.
-/

namespace IMServer.Business

open IMServer.Base

/-- The call, and whether it reports a failure to its caller: by its return code, or by `isok` where
that is 0 on every way. A call without result reports nothing. -/
def Operation.reporting (fmt : Format) : Operation → Op Bool
  | .register info => do return (← Business.register info fmt.toAmounts).1 ≠ 0
  | .checkDuplication info => do return (← Business.checkDuplication info) ≠ 0
  | .login message => do return (← Business.login message fmt).1 ≠ 0
  | .sendCacheMessage username => do return (← Business.sendCacheMessage fmt.toWire username) ≠ 0
  | .cacheMessage username message => do
    return (← Business.cacheMessage fmt.toWire username message) ≠ 0
  | .sendHongbao req => do return (← Business.sendHongbao fmt req).1 ≠ 0
  | .robHongbao req => do return !(← Business.robHongbao fmt req).2.isok
  | .stopRobHongbao key sender => do
    Business.stopRobHongbao fmt key sender
    return false
  | .getFriendInfo reqinfo => do return (← Business.getFriendInfo fmt.toWire reqinfo) ≠ 0

/-- What a call was not given. -/
structure Missing where
  manager : Bool := false
  cache : Bool := false
  mysql : Bool := false
  deriving DecidableEq, Repr

namespace Missing

/-- Something was missing. -/
def any (m : Missing) : Bool := m.manager || m.cache || m.mysql

/-- Note the reply to a command. -/
def note (m : Missing) : (c : Cmd) → Reply c → Missing
  | .getInstance, false => { m with manager := true }
  | .getCacheConn _, none => { m with cache := true }
  | .getConnection, none => { m with mysql := true }
  | _, _ => m

end Missing

/-- Every command is allowed; the replies are noted. -/
def missingProtocol : Protocol Cmd Reply Missing where
  allow _ _ := True
  next := Missing.note

/-- No null pointer is used, and a call that was not given a connection reports a failure. -/
def NullSafe (m : Missing) : Except Abort Bool → Prop
  | .ok failure => m.any = true → failure = true
  | .error e => e ≠ .nullPointer ∧ m.any = false

/-- A grab takes no share: the lock, which it asks for after three store calls, is free and the
packet has expired, was grabbed before or is empty; or the lock is held until a later time; or it
is held until an earlier one, and the time that is written over the packet reads as such a
packet. -/
def GrabRefused (fmt : Format) (req : ReqRobHongbao) (w : World) : Prop :=
  (LockFree req w ∧ ∃ r, (w.getAt 4 req.hongbaokey).bind (hongbaoRead fmt.toWire) = some r ∧
    refused req r = true) ∨
  (¬ LockFree req w ∧ LockHeld fmt.toWire req w) ∨
  (¬ LockFree req w ∧ LockExpired fmt.toWire req w ∧ ∃ r,
    (overLedger req w).packet fmt req = some r ∧ refused req r = true)

/-- What may be missing, in the state before the call. A grab needs no MySQL connection if it has
no key or takes no share. -/
def Operation.Served (fmt : Format) (w : World) : Operation → Missing → Prop
  | .register _, m => m.mysql = false
  | .checkDuplication _, _ => True
  | .login _, m => m.manager = false ∧ m.cache = false
  | .sendCacheMessage _, m | .cacheMessage _ _, m | .sendHongbao _, m => m.manager = false
  | .robHongbao req, m => m.manager = false ∧ m.cache = false ∧
    (m.mysql = true → req.hongbaokey = "" ∨ GrabRefused fmt req w)
  | .stopRobHongbao _ _, m | .getFriendInfo _, m => m.any = false

/-- The call is safe exactly when it is served. -/
def Exact (fmt : Format) (w : World) (op : Operation) (m : Missing) (res : Except Abort Bool) :
    Prop :=
  NullSafe m res ↔ op.Served fmt w m

namespace Missing

section Follows

variable {α : Type} {fmt : Format} {w : World} {m : Missing}

/-- A part of a call that takes no connection and uses no null pointer. -/
def Quiet (m : Missing) (p : Op α) : Prop :=
  missingProtocol.Follows (fun m' res => m' = m ∧ ∀ e, res = .error e → e ≠ .nullPointer) m p

private theorem Quiet.bind {β : Type} {p : Op α} {f : α → Op β} (hp : Quiet m p)
    (hf : ∀ a, Quiet m (f a)) : Quiet m (p >>= f) := by
  refine Protocol.Follows.after (E := fun e => e ≠ Abort.nullPointer) hp (fun e he => ⟨rfl, ?_⟩) hf
  rintro e' h
  cases h
  exact he

private theorem quiet_pure (a : α) : Quiet m (pure a) := ⟨rfl, fun _ h => by cases h⟩

private theorem quiet_throw {e : Abort} (he : e ≠ .nullPointer) : Quiet m (.throw e : Op α) := by
  refine ⟨rfl, fun e' h => ?_⟩
  cases h
  exact he

/-- A command that is not noted. -/
theorem quiet_request {c : Cmd} (hc : ∀ r, m.note c r = m) : Quiet m (issue c) := by
  refine ⟨trivial, fun r => ?_⟩
  rw [show missingProtocol.next m c r = m from hc r]
  exact quiet_pure r

private theorem quiet_getAs (key : String) (read : Option RedisValue → Option α) :
    Quiet m (getAs key read) := by
  refine ⟨trivial, fun r => ?_⟩
  show Quiet m ((r.bind read).elim (.throw .exception) .pure)
  cases r.bind read with
  | none => exact quiet_throw (by decide)
  | some a => exact quiet_pure a

private theorem quiet_setpb (h : Handle) (key : String) (timeout : Int) (v : RedisValue) :
    Quiet m (CacheConn.setpb fmt (some h) key timeout v) := by
  rw [setpb_eq]
  cases fmt.store v with
  | none => exact quiet_throw (by decide)
  | some v' => exact quiet_request fun _ => rfl

private theorem quiet_getRandomMoney (rem n : Int) (a : Amounts) :
    Quiet m (getRandomMoney rem n a) := by
  unfold getRandomMoney
  split
  · exact quiet_pure _
  split
  · exact quiet_throw (by decide)
  split
  · exact quiet_pure _
  split
  · exact quiet_pure _
  · refine Quiet.bind (Quiet.bind (quiet_request fun _ => rfl) fun _ =>
      (quiet_request fun _ => rfl).bind fun _ => quiet_pure _) fun _ => quiet_pure _

private theorem quiet_sendAll (username : String) (msgs : List (List UInt8)) (ret : Int) :
    Quiet m (sendAll fmt.toWire username msgs ret) := by
  induction msgs with
  | nil => exact quiet_pure _
  | cons c msgs ih =>
    rw [sendAll]
    split
    · exact quiet_pure _
    · refine Quiet.bind (Quiet.bind (quiet_request fun _ => rfl) fun conn => ?_) fun _ => ih
      cases conn with
      | none => exact quiet_pure _
      | some conn => exact quiet_request fun _ => rfl

/-- A quiet part of a call. -/
theorem Quiet.follows {β : Type} {Q : Missing → Except Abort β → Prop} {p : Op α} {f : α → Op β}
    (hp : Quiet m p) (herr : ∀ e, e ≠ .nullPointer → Q m (.error e))
    (hf : ∀ a, missingProtocol.Follows Q m (f a)) : missingProtocol.Follows Q m (p >>= f) :=
  .after (E := fun e => e ≠ Abort.nullPointer) hp herr hf

private theorem follows_judge
    {Q : Missing → Except Abort α → Prop} {h : Handle} {key : String} {e : Int}
    {now : Nat} {value : Option RedisValue} {next : Int → Op RedisLock} {f : RedisLock → Op α}
    (herr : ∀ e, e ≠ .nullPointer → Q m (.error e))
    (hheld : ∀ t, missingProtocol.Follows Q m (f ⟨some h, key, e, false, t⟩))
    (hnext : ∀ t, missingProtocol.Follows Q m (next t >>= f)) :
    missingProtocol.Follows Q m (judge fmt.toWire key e h now value next >>= f) := by
  rw [judge, stoi_eq]
  cases readsAs fmt.toWire value with
  | none => exact herr _ (by decide)
  | some t =>
    show missingProtocol.Follows Q m
      ((if unsigned 32 t < now % 2 ^ 32 then _ else _ : Op RedisLock).bind f)
    split
    · exact hnext t
    · exact hheld t

/-- The lock over a connection that is there: it is taken or not, or a number is not read. -/
theorem follows_lock {Q : Missing → Except Abort α → Prop} {h : Handle} {key : String} {e : Int}
    {f : RedisLock → Op α} (herr : ∀ e, e ≠ .nullPointer → Q m (.error e))
    (hf : ∀ locked t, missingProtocol.Follows Q m (f ⟨some h, key, e, locked, t⟩)) :
    missingProtocol.Follows Q m (RedisLock.lock fmt.toWire ⟨some h, key, e, false, 0⟩ >>= f) := by
  rw [lock_eq]
  refine ⟨trivial, fun now => ⟨trivial, fun value => ?_⟩⟩
  show missingProtocol.Follows Q m
    ((if value = 1 then _ else takeover fmt.toWire key e h now : Op RedisLock).bind f)
  split
  · exact hf true _
  show missingProtocol.Follows Q m (((CacheConn.get (some h) key).bind fun v => _).bind f)
  rw [get_eq, Prog.bind_assoc]
  refine (quiet_getAs key some).follows herr fun v => ?_
  refine follows_judge herr (hf false) fun _ => ⟨trivial, fun v' => ?_⟩
  exact follows_judge herr (hf false) (hf true)

/-- The connections are given back. -/
theorem follows_release {Q : Missing → Except Abort α → Prop} {conn ml : Option Handle} {a : α}
    (h : Q m (.ok a)) :
    missingProtocol.Follows Q m
      (do relCacheConn true conn; issue (.releaseConnection ml); return a) :=
  ⟨trivial, fun _ => ⟨trivial, fun _ => h⟩⟩

/-! ### Ends of a call -/

variable {op : Operation}

private theorem exact_nullPointer (hs : ¬ op.Served fmt w m) :
    Exact fmt w op m (.error .nullPointer) :=
  iff_of_false (fun h => h.1 rfl) hs

/-- Something is missing, and the call does not say so. -/
theorem exact_silent (hm : m.any = true) (hs : ¬ op.Served fmt w m) :
    Exact fmt w op m (.ok false) :=
  iff_of_false (fun h => Bool.noConfusion (h hm)) hs

private theorem exact_reported (hs : op.Served fmt w m) : Exact fmt w op m (.ok true) :=
  iff_of_true (fun _ => rfl) hs

/-- Nothing is missing. -/
theorem exact_complete {failure : Bool} (hm : m.any = false) (hs : op.Served fmt w m) :
    Exact fmt w op m (.ok failure) := by
  refine iff_of_true (fun h => ?_) hs
  rw [hm] at h
  cases h

private theorem exact_error (hm : m.any = false) (hs : op.Served fmt w m) (e : Abort)
    (he : e ≠ .nullPointer) : Exact fmt w op m (.error e) :=
  iff_of_true ⟨he, hm⟩ hs

/-! ### The operations -/

/-- The ends of a call, seen as reports. -/
abbrev ExactBy (fmt : Format) (w : World) (op : Operation) (report : α → Bool) (m : Missing)
    (res : Except Abort α) : Prop :=
  Exact fmt w op m (res.map report)

private theorem follows_report {p : Op α} (report : α → Bool)
    (h : missingProtocol.Follows (ExactBy fmt w op report) m p) :
    missingProtocol.Follows (Exact fmt w op) m (do return report (← p)) := by
  refine .bind (h.mono fun m' res hm => ?_)
  cases res with
  | ok a => exact hm
  | error e => exact hm

private theorem follows_checkDuplication (info : Register) {Q : Missing → Except Abort α → Prop}
    {f : Int → Op α} (hnone : missingProtocol.Follows Q { m with mysql := true } (f (-1)))
    (hsome : ∀ ret, missingProtocol.Follows Q m (f ret)) :
    missingProtocol.Follows Q m (checkDuplication info >>= f) := by
  refine ⟨trivial, fun ml => ?_⟩
  cases ml with
  | none => exact ⟨trivial, fun _ => hnone⟩
  | some h =>
    refine ⟨trivial, fun rows => ?_⟩
    cases rows with
    | none => exact ⟨trivial, fun _ => hsome _⟩
    | some rows => exact ⟨trivial, fun _ => hsome _⟩

private theorem follows_register (info : Register) :
    missingProtocol.Follows (ExactBy fmt w (.register info) fun r => decide (r.1 ≠ 0)) {}
      (register info fmt.toAmounts) := by
  refine ⟨trivial, fun ml => ?_⟩
  cases ml with
  | none =>
    refine follows_checkDuplication info ⟨trivial, fun _ => ?_⟩ fun ret => ?_
    · exact exact_silent rfl Bool.noConfusion
    by_cases hret : ret ≠ 0
    · rw [if_pos hret]
      exact ⟨trivial, fun _ => exact_silent rfl Bool.noConfusion⟩
    · rw [if_neg hret]
      exact exact_nullPointer Bool.noConfusion
  | some h =>
    refine follows_checkDuplication info ⟨trivial, fun _ => ?_⟩ fun ret => ?_
    · exact exact_silent rfl Bool.noConfusion
    by_cases hret : ret ≠ 0
    · rw [if_pos hret]
      exact ⟨trivial, fun _ => exact_complete rfl rfl⟩
    · rw [if_neg hret]
      exact ⟨trivial, fun _ => ⟨trivial, fun _ => exact_complete rfl rfl⟩⟩

private theorem follows_login (message : Login) :
    missingProtocol.Follows (ExactBy fmt w (.login message) fun r => decide (r.1 ≠ 0)) {}
      (login message fmt) := by
  refine .request trivial fun ml => .request trivial fun manager => ?_
  cases manager with
  | false =>
    cases ml with
    | none => exact exact_nullPointer fun h => Bool.noConfusion h.1
    | some hm => exact exact_nullPointer fun h => Bool.noConfusion h.1
  | true =>
    cases ml with
    | none => exact follows_release (exact_reported ⟨rfl, rfl⟩)
    | some hm =>
      refine ⟨trivial, fun rows => ?_⟩
      rcases rows with _ | _ | ⟨row, rows⟩
      · exact follows_release (exact_complete rfl ⟨rfl, rfl⟩)
      · exact follows_release (exact_complete rfl ⟨rfl, rfl⟩)
      refine ⟨trivial, fun conn => ?_⟩
      cases conn with
      | none => exact follows_release (exact_silent rfl fun h => Bool.noConfusion h.2)
      | some h =>
        show missingProtocol.Follows _ {} (((CacheConn.setpb fmt (some h) _ _ _).bind _).bind _)
        rw [Prog.bind_assoc]
        exact (quiet_setpb _ _ _ _).follows (exact_error rfl ⟨rfl, rfl⟩) fun _ =>
          follows_release (exact_complete rfl ⟨rfl, rfl⟩)

private theorem follows_sendCacheMessage (username : String) :
    missingProtocol.Follows (ExactBy fmt w (.sendCacheMessage username) fun r => decide (r ≠ 0)) {}
      (sendCacheMessage fmt.toWire username) := by
  refine .request trivial fun manager => ?_
  cases manager with
  | false => exact exact_nullPointer Bool.noConfusion
  | true =>
    refine .request trivial fun conn => ?_
    cases conn with
    | none => exact ⟨trivial, fun _ => exact_reported rfl⟩
    | some h =>
      refine .request trivial fun msgs => ?_
      cases msgs with
      | none => exact ⟨trivial, fun _ => exact_complete rfl rfl⟩
      | some msgs =>
        refine (quiet_sendAll username msgs 0).follows (exact_error rfl rfl) fun ret => ?_
        exact ⟨trivial, fun _ => exact_complete rfl rfl⟩

private theorem follows_cacheMessage (username : String) (message : SingleChat) :
    missingProtocol.Follows
      (ExactBy fmt w (.cacheMessage username message) fun r => decide (r ≠ 0)) {}
      (cacheMessage fmt.toWire username message) := by
  refine .request trivial fun manager => ?_
  cases manager with
  | false => exact exact_nullPointer Bool.noConfusion
  | true =>
    refine .request trivial fun conn => ?_
    cases conn with
    | none => exact ⟨trivial, fun _ => exact_reported rfl⟩
    | some h => exact ⟨trivial, fun _ => ⟨trivial, fun _ => exact_complete rfl rfl⟩⟩

private theorem follows_sendHongbao (req : Hongbaoreq) :
    missingProtocol.Follows (ExactBy fmt w (.sendHongbao req) fun r => decide (r.1 ≠ 0)) {}
      (sendHongbao fmt req) := by
  refine .request trivial fun manager => ?_
  cases manager with
  | false => exact exact_nullPointer Bool.noConfusion
  | true =>
    refine .request trivial fun conn => ?_
    cases conn with
    | none => exact exact_reported rfl
    | some h =>
      show missingProtocol.Follows _ {} (CacheConn.getpbSession fmt.toWire (some h) _ >>= _)
      rw [CacheConn.getpbSession, getpb_eq]
      refine (quiet_getAs _ _).follows (exact_error rfl rfl) fun s => ?_
      refine .request trivial fun ml => ?_
      cases ml with
      | none => exact exact_reported rfl
      | some hm =>
        show missingProtocol.Follows _ {} (if fmt.short s.userinfo.money req.money then _ else _)
        split
        · exact exact_complete rfl rfl
        · refine .request trivial fun _ => .request trivial fun now => ?_
          refine (quiet_setpb _ _ _ _).follows (exact_error rfl rfl) fun _ => ?_
          exact .request trivial fun _ => .request trivial fun _ =>
            follows_release (exact_complete rfl rfl)

/-- A grab that has a Redis connection: with a MySQL connection it uses no null pointer, without
one it returns only if it takes no share. -/
def RobSafe (m : Missing) (ml : Option Handle) (m' : Missing)
    (res : Except Abort (Int × RespRobHongbao)) : Prop :=
  m' = m ∧ (ml.isSome = true → res ≠ .error .nullPointer) ∧
    (ml = none → ∀ a, res = .ok a → a.2.isok = false)

private theorem robSafe_error (ml : Option Handle) (e : Abort) (he : e ≠ .nullPointer) :
    RobSafe m ml m (.error e) := by
  refine ⟨rfl, fun _ h => ?_, fun _ a h => by cases h⟩
  cases h
  exact he rfl

private theorem robSafe_refused
    (ml : Option Handle) {a : Int × RespRobHongbao} (ha : a.2.isok = false) :
    RobSafe m ml m (.ok a) := by
  refine ⟨rfl, fun _ h => ?_, fun _ a' h => ?_⟩
  · cases h
  · cases h
    exact ha

/-- What is done under the lock: a share is only paid for with a MySQL connection. -/
theorem follows_robLocked (req : ReqRobHongbao) (ml : Option Handle) (h : Handle) (e t : Int) :
    missingProtocol.Follows (RobSafe m ml) m
      (robLocked fmt req true ml (some h) ⟨some h, req.hongbaokey, e, true, t⟩) := by
  show missingProtocol.Follows _ _ (CacheConn.getpbHongbao fmt.toWire (some h) _ >>= _)
  rw [CacheConn.getpbHongbao, getpb_eq]
  refine (quiet_getAs _ _).follows (robSafe_error ml) fun r => ?_
  obtain ⟨empty, p⟩ := r
  have hrefuse : ∀ description, missingProtocol.Follows (RobSafe m ml) m
      (do RedisLock.unlock ⟨some h, req.hongbaokey, e, true, t⟩
          return ((0 : Int), refuseRob req description) : Op (Int × RespRobHongbao)) :=
    fun _ => ⟨trivial, fun _ => robSafe_refused ml rfl⟩
  show missingProtocol.Follows _ _
    (if empty then _ else if p.robitem.any (·.name = req.selfname) then _ else
      if p.leftcount = 0 then _ else getRandomMoney _ _ _ >>= _)
  apply refused_split
  · intro _
    exact ⟨hrefuse _, hrefuse _, hrefuse _⟩
  intro _
  refine (quiet_getRandomMoney _ _ _).follows (robSafe_error ml) fun g =>
    .request trivial fun now => (quiet_setpb _ _ _ _).follows (robSafe_error ml) fun _ => ?_
  cases ml with
  | none => exact ⟨rfl, Bool.noConfusion, fun _ a h => by cases h⟩
  | some hm =>
    refine ⟨trivial, fun _ => ⟨trivial, fun _ => follows_release ⟨rfl, ?_, ?_⟩⟩⟩
    · exact fun _ h => by cases h
    · exact fun h => by cases h

private theorem follows_robFrom (req : ReqRobHongbao) (ml : Option Handle) (h : Handle) :
    missingProtocol.Follows (RobSafe m ml) m (robFrom fmt req true ml (some h)) := by
  refine follows_lock (robSafe_error ml) fun locked t => ?_
  cases locked with
  | true => exact follows_robLocked req ml h 50000 t
  | false => exact follows_release (robSafe_refused ml rfl)

private theorem follows_stopRobHongbao (key sender : String) :
    missingProtocol.Follows (ExactBy fmt w (.stopRobHongbao key sender) fun _ => false) {}
      (stopRobHongbao fmt key sender) := by
  refine .request trivial fun manager => ?_
  cases manager with
  | false => exact exact_nullPointer Bool.noConfusion
  | true =>
    refine .request trivial fun conn => ?_
    cases conn with
    | none => exact exact_nullPointer Bool.noConfusion
    | some h =>
      show missingProtocol.Follows _ {} (CacheConn.getpbHongbao fmt.toWire (some h) key >>= _)
      rw [CacheConn.getpbHongbao, getpb_eq]
      refine (quiet_getAs _ _).follows (exact_error rfl rfl) fun p =>
        ⟨trivial, fun _ => .request trivial fun ml => ?_⟩
      cases ml with
      | none => exact exact_silent rfl Bool.noConfusion
      | some hm =>
        refine .request trivial fun _ => ?_
        split
        · exact .request trivial fun _ => follows_release (exact_complete rfl rfl)
        · exact follows_release (exact_complete rfl rfl)

private theorem follows_getFriendInfo (reqinfo : GetFriendInfo) :
    missingProtocol.Follows (ExactBy fmt w (.getFriendInfo reqinfo) fun r => decide (r ≠ 0)) {}
      (getFriendInfo fmt.toWire reqinfo) := by
  refine .request trivial fun ml => .request trivial fun manager => ?_
  have hml : missingProtocol.next {} .getConnection ml = { mysql := ml.isNone } := by
    cases ml <;> rfl
  rw [hml]
  cases manager with
  | false => exact exact_nullPointer Bool.noConfusion
  | true =>
    refine .request trivial fun conn => ?_
    cases conn with
    | none => exact exact_silent rfl Bool.noConfusion
    | some h =>
      show missingProtocol.Follows _ _ (CacheConn.getpbUserInfo fmt.toWire (some h) _ >>= _)
      rw [CacheConn.getpbUserInfo, getpb_eq]
      cases ml with
      | none =>
        refine (quiet_getAs _ _).follows ?_ fun u => follows_release ?_
        · intro e _
          exact iff_of_false (fun hs => Bool.noConfusion hs.2) Bool.noConfusion
        · exact exact_silent rfl Bool.noConfusion
      | some hm =>
        exact (quiet_getAs _ _).follows (exact_error rfl rfl) fun u =>
          follows_release (exact_complete rfl rfl)

end Follows

end Missing

/-! ### A grab without a MySQL connection -/

section Grab

variable {fmt : Format} {req : ReqRobHongbao} {w w' : World}
  {res : Except Abort (Int × RespRobHongbao)}

/-- Under the lock, a grab without a MySQL connection returns only if it takes no share. -/
theorem lockedEnd_ok_iff {server : Server} {b : Ledger}
    (h : LockedEnd fmt server req false w b res w') :
    (∃ a, res = .ok a) ↔ ∃ r, b.packet fmt req = some r ∧ refused req r = true := by
  have hgiven : ∀ {p : SendHongbao}, b.packet fmt req = some (false, p) →
      refused req (false, p) = false →
      ¬ ∃ r, b.packet fmt req = some r ∧ refused req r = true := by
    rintro p hp hgiven ⟨r, hr, hrefused⟩
    cases hp.symm.trans hr
    rw [hgiven] at hrefused
    cases hrefused
  have herror : ∀ e : Abort, ¬ ∃ a : Int × RespRobHongbao, Except.error e = .ok a := by
    rintro e ⟨a, ha⟩
    cases ha
  cases h with
  | unread read =>
    refine iff_of_false (herror _) ?_
    rintro ⟨r, hr, -⟩
    cases read.symm.trans hr
  | refused r read refused => exact iff_of_true ⟨_, rfl⟩ ⟨r, read, refused⟩
  | stuck p read given => exact iff_of_false (herror _) (hgiven read given)
  | crashed p v read given => exact iff_of_false (herror _) (hgiven read given)
  | taken p v read given divisible stored found => cases found

/-- So does it from the lock on. -/
theorem askedEnd_ok_iff {server : Server} (h : AskedEnd fmt server req false w res w') :
    (∃ a, res = .ok a) ↔ GrabRefused fmt req w := by
  cases h with
  | silent busy held => exact iff_of_true ⟨_, rfl⟩ (.inr (.inl ⟨busy, held⟩))
  | thrown busy held expired =>
    refine iff_of_false ?_ ?_
    · rintro ⟨a, ha⟩
      cases ha
    · rintro (⟨hfree, -⟩ | ⟨-, hheld⟩ | ⟨-, hexpired, -⟩)
      · exact busy hfree
      · exact held hheld
      · exact expired hexpired
  | free free locked =>
    rw [lockedEnd_ok_iff locked, packet_lockedLedger free]
    constructor
    · exact fun hr => .inl ⟨free, hr⟩
    · rintro (⟨-, hr⟩ | ⟨hbusy, -⟩ | ⟨hbusy, -⟩)
      · exact hr
      · exact absurd free hbusy
      · exact absurd free hbusy
  | overtaken busy expired locked =>
    rw [lockedEnd_ok_iff locked]
    constructor
    · exact fun hr => .inr (.inr ⟨busy, expired, hr⟩)
    · rintro (⟨hfree, -⟩ | ⟨-, hheld⟩ | ⟨-, -, hr⟩)
      · exact absurd hfree busy
      · exact absurd expired.1 hheld.not_expired
      · exact hr

end Grab

/-- Watch a call along the connections it is not given. -/
abbrev watch : (c : Cmd) → World × Missing → Reply c × (World × Missing) :=
  missingProtocol.observe exec

/-- From the lock on, a grab is safe exactly when it has a MySQL connection or takes no share. -/
theorem exact_robFrom (fmt : Format) (req : ReqRobHongbao) (ml : Option Handle) (h : Handle)
    {w₀ w : World} (hkey : req.hongbaokey ≠ "") (hw : w.ledger = w₀.ledger.spend.spend.spend) :
    (robFrom fmt req true ml (some h)).Ends watch (fun res s =>
      Missing.ExactBy fmt w₀ (.robHongbao req) (fun r => !r.2.isok) s.2 res)
      (w, { mysql := ml.isNone }) := by
  have hfollows : missingProtocol.Follows (Missing.RobSafe { mysql := ml.isNone } ml)
      { mysql := ml.isNone } (robFrom fmt req true ml (some h)) :=
    Missing.follows_robFrom req ml h
  have hsafe : (robFrom fmt req true ml (some h)).Ends watch
      (fun res s => Missing.RobSafe { mysql := ml.isNone } ml s.2 res)
      (w, { mysql := ml.isNone }) := hfollows.ends w
  have hrun := (Protocol.run_observe exec missingProtocol (robFrom fmt req true ml (some h))
    (w, { mysql := ml.isNone })).1
  have hok : ml = none → ((∃ a, ((robFrom fmt req true ml (some h)).run exec w).1 = .ok a) ↔
      GrabRefused fmt req w₀) := by
    rintro rfl
    exact askedEnd_ok_iff (ends_meant (robFrom_ends none h hw))
  rw [← hrun] at hok
  obtain ⟨hm, hsome, hnone⟩ := hsafe
  show Exact fmt w₀ (.robHongbao req)
    ((robFrom fmt req true ml (some h)).run watch (w, { mysql := ml.isNone })).2.2 _
  rw [hm]
  generalize ((robFrom fmt req true ml (some h)).run watch
    (w, { mysql := ml.isNone })).1 = res at hsome hnone hok
  cases ml with
  | some hc =>
    have hserved : (Operation.robHongbao req).Served fmt w₀ {} := ⟨rfl, rfl, Bool.noConfusion⟩
    cases res with
    | ok a => exact Missing.exact_complete rfl hserved
    | error e => exact Missing.exact_error rfl hserved e fun he => hsome rfl (congrArg _ he)
  | none =>
    cases res with
    | ok a =>
      refine iff_of_true (fun _ => ?_) ⟨rfl, rfl, fun _ => .inr ((hok rfl).mp ⟨a, rfl⟩)⟩
      show (!a.2.isok) = true
      rw [hnone rfl a rfl]
      rfl
    | error e =>
      refine iff_of_false (fun hs => Bool.noConfusion hs.2) ?_
      rintro ⟨-, -, hserved⟩
      rcases hserved rfl with hkey' | hrefused
      · exact hkey hkey'
      · obtain ⟨a, ha⟩ := (hok rfl).mpr hrefused
        cases ha

/-- One command of a watched call. -/
theorem ends_watch {α : Type} {Q : Except Abort α → World × Missing → Prop} {c : Cmd}
    {f : Reply c → Op α} {w w' : World} {m : Missing} {r : Reply c} (hc : exec c w = (r, w'))
    (h : (f r).Ends watch Q (w', Missing.note m c r)) : (issue c >>= f).Ends watch Q (w, m) := by
  have hwatch : watch c (w, m) = (r, w', Missing.note m c r) := by
    show ((exec c w).1, (exec c w).2, Missing.note m c (exec c w).1) = _
    rw [hc]
  exact Prog.Ends.request hwatch h

/-- A grab asks for a MySQL connection, the manager and a Redis connection, and then for the
lock. -/
theorem exact_robHongbao (fmt : Format) (req : ReqRobHongbao) (w : World) :
    (robHongbao fmt req).Ends watch (fun res s =>
      Missing.ExactBy fmt w (.robHongbao req) (fun r => !r.2.isok) s.2 res) (w, {}) := by
  unfold robHongbao
  split
  · exact Missing.exact_reported ⟨rfl, rfl, Bool.noConfusion⟩
  rename_i hkey
  -- with or without the MySQL connection the call goes on
  have hrest : ∀ (ml : Option Handle) (w₁ : World), w₁.ledger = w.ledger.spend →
      Prog.Ends watch (fun res s =>
        Missing.ExactBy fmt w (.robHongbao req) (fun r => !r.2.isok) s.2 res) (do
        let manager ← issue .getInstance
        let conn ← getCacheConn manager req.sender
        robFrom fmt req manager ml conn) (w₁, { mysql := ml.isNone }) := by
    intro ml w₁ hw₁
    by_cases ho : w₁.outcome = .done
    · refine ends_watch (Prod.ext (decide_eq_true ho) rfl) ?_
      by_cases ho' : w₁.spend.outcome = .done
      · exact ends_watch (if_pos ho')
          (exact_robFrom fmt req ml _ hkey (congrArg (fun b : Ledger => b.spend.spend) hw₁))
      · refine ends_watch (if_neg ho') (ends_watch rfl ?_)
        exact Missing.exact_nullPointer fun h => Bool.noConfusion h.2.1
    · refine ends_watch (Prod.ext (decide_eq_false ho) rfl) ?_
      exact Missing.exact_nullPointer fun h => Bool.noConfusion h.1
  by_cases ho : w.outcome = .done
  · exact ends_watch (if_pos ho) (hrest (some _) _ rfl)
  · exact ends_watch (if_neg ho) (hrest none _ rfl)

/-- Every call is safe exactly when it is served. -/
theorem exact_reporting (fmt : Format) (op : Operation) (w : World) :
    (op.reporting fmt).Ends watch (fun res s => Exact fmt w op s.2 res) (w, {}) := by
  cases op with
  | robHongbao req => exact (Prog.ends_map _ _ _).mpr (exact_robHongbao fmt req w)
  | register info => exact (Missing.follows_report _ (Missing.follows_register info)).ends w
  | checkDuplication info =>
    have hserved : ∀ m, (Operation.checkDuplication info).Served fmt w m := fun _ => trivial
    have hfollows : missingProtocol.Follows (Exact fmt w (.checkDuplication info)) {}
        ((Operation.checkDuplication info).reporting fmt) := by
      refine Missing.follows_checkDuplication info ?_ fun ret => ?_
      · exact Missing.exact_reported (hserved _)
      · exact Missing.exact_complete rfl (hserved _)
    exact hfollows.ends w
  | login message => exact (Missing.follows_report _ (Missing.follows_login message)).ends w
  | sendCacheMessage username =>
    exact (Missing.follows_report _ (Missing.follows_sendCacheMessage username)).ends w
  | cacheMessage username message =>
    exact (Missing.follows_report _ (Missing.follows_cacheMessage username message)).ends w
  | sendHongbao req => exact (Missing.follows_report _ (Missing.follows_sendHongbao req)).ends w
  | stopRobHongbao key sender =>
    exact (Missing.follows_report (fun _ => false)
      (Missing.follows_stopRobHongbao key sender)).ends w
  | getFriendInfo reqinfo =>
    exact (Missing.follows_report _ (Missing.follows_getFriendInfo reqinfo)).ends w

/-- For every call, every world and every outcome of its store calls: no null pointer is used and
missing connections are reported exactly when the call was given those it is served by. -/
theorem nullSafe_iff_served (fmt : Format) (op : Operation) (w : World) :
    (op.reporting fmt).Ends watch (fun res s => NullSafe s.2 res) (w, {}) ↔
      (op.reporting fmt).Ends watch (fun _ s => op.Served fmt w s.2) (w, {}) :=
  exact_reporting fmt op w

/-- A user who has an account, and a third and a fourth store call that fail. -/
def noRedis (third : Outcome) : World :=
  { imUser := [{ name := "a" }], oracle := { outcomes := [.done, .done, third, .noInit] } }

/-- A grab without a Redis connection locks on the null pointer, and a login without one returns 0
without a session. -/
theorem null_cache_connection :
    ((Operation.robHongbao { hongbaokey := "k" }).reporting plainWire).Ends watch
      (fun res s => res = .error .nullPointer ∧ s.2.cache = true ∧ ¬ NullSafe s.2 res)
      (noRedis .noInit, {}) ∧
    ((Operation.login { username := "a" }).reporting plainWire).Ends watch
      (fun res s => res = .ok false ∧ s.2.cache = true ∧ ¬ NullSafe s.2 res) (noRedis .done, {}) :=
  ⟨⟨rfl, rfl, fun h => h.1 rfl⟩, ⟨rfl, rfl, fun h => Bool.noConfusion (h rfl)⟩⟩

end IMServer.Business
