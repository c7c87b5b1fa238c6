import IMServer.Business.Sequential

/-!
# What a business function leaves alone

The commands a program can use bound what it can change: the business functions neither enter
connections in the routing table nor send, and the delivery of stored messages changes
neither the routing table nor Redis.
-/

namespace IMServer.Business

open IMServer.Base

/-- A command that neither routes nor sends. -/
def Internal : Cmd → Prop
  | .saveUsernameConn _ _ | .send _ _ => False
  | _ => True

/-- A command of the delivery of stored messages. -/
def Delivers : Cmd → Prop
  | .getInstance | .getCacheConn _ | .relCacheConn _ | .lrange _ _ _ | .getConnByUsername _
  | .send _ _ => True
  | _ => False

private theorem exec_internal {c : Cmd} (hc : Internal c) (w : World) :
    (exec c w).2.connMap = w.connMap ∧ (exec c w).2.sent = w.sent := by
  cases c with
  | saveUsernameConn _ _ | send _ _ => exact hc.elim
  | execute stmt =>
    obtain ⟨users, rows, h⟩ := exec_execute_frame stmt w
    rw [h]
    exact ⟨rfl, rfl⟩
  | _ =>
    dsimp only [exec]
    repeat' split
    all_goals exact ⟨rfl, rfl⟩

private theorem exec_delivers {c : Cmd} (hc : Delivers c) (w : World) :
    (exec c w).2.redis = w.redis ∧ (exec c w).2.connMap = w.connMap ∧
      (w.oracle.outcomes = [] → (exec c w).2.oracle.outcomes = []) := by
  have hspend : w.oracle.outcomes = [] → w.spend.oracle.outcomes = [] := fun h => by
    rw [World.spend_eq h, h]
  cases c with
  | getInstance => exact ⟨rfl, rfl, hspend⟩
  | relCacheConn _ | getConnByUsername _ => exact ⟨rfl, rfl, id⟩
  | getCacheConn _ | lrange _ _ _ =>
    dsimp only [exec]
    split
    all_goals exact ⟨rfl, rfl, hspend⟩
  | send _ _ =>
    dsimp only [exec]
    split
    all_goals exact ⟨rfl, rfl, id⟩
  | _ => exact hc.elim

/-- No command opens or closes a connection. -/
theorem exec_connState (c : Cmd) (w : World) : (exec c w).2.connState = w.connState := by
  cases c with
  | execute stmt =>
    obtain ⟨users, rows, h⟩ := exec_execute_frame stmt w
    rw [h]
    rfl
  | _ =>
    dsimp only [exec]
    repeat' split
    all_goals rfl

/-- Nor does a program. -/
theorem run_connState {α : Type} (p : Op α) (w : World) :
    (Prog.run exec p w).2.connState = w.connState := by
  induction p generalizing w with
  | pure a => rfl
  | throw e => rfl
  | call c next ih => exact (ih _ _).trans (exec_connState c w)

/-- A program that neither routes nor sends leaves the routing table and what was sent. -/
theorem run_internal {α : Type} {p : Op α} (hp : Prog.Uses Internal p) (w : World) :
    (Prog.run exec p w).2.connMap = w.connMap ∧ (Prog.run exec p w).2.sent = w.sent := by
  refine hp.run_preserves exec (fun w' => w'.connMap = w.connMap ∧ w'.sent = w.sent)
    (fun c hc w' hw' => ?_) ⟨rfl, rfl⟩
  obtain ⟨hmap, hsent⟩ := exec_internal hc w'
  exact ⟨hmap.trans hw'.1, hsent.trans hw'.2⟩

/-- The delivery of stored messages leaves Redis and the routing table. -/
theorem run_delivers {α : Type} {p : Op α} (hp : Prog.Uses Delivers p) (w : World) :
    (Prog.run exec p w).2.redis = w.redis ∧ (Prog.run exec p w).2.connMap = w.connMap ∧
      (w.oracle.outcomes = [] → (Prog.run exec p w).2.oracle.outcomes = []) := by
  refine hp.run_preserves exec (fun w' => w'.redis = w.redis ∧ w'.connMap = w.connMap ∧
    (w.oracle.outcomes = [] → w'.oracle.outcomes = [])) (fun c hc w' hw' => ?_) ⟨rfl, rfl, id⟩
  obtain ⟨hredis, hmap, hcalm⟩ := exec_delivers hc w'
  exact ⟨hredis.trans hw'.1, hmap.trans hw'.2.1, fun h => hcalm (hw'.2.2 h)⟩

section Uses

open Prog

variable {allow : Cmd → Prop}

/-- A dereference issues nothing. -/
theorem uses_deref (p : Option Handle) : Uses allow (deref p) := by
  cases p with
  | none => exact uses_throw _
  | some h => exact uses_pure _

/-- A Redis connection is taken. -/
theorem uses_getCacheConn (h : ∀ name, allow (.getCacheConn name)) (manager : Bool)
    (name : String) : Uses allow (getCacheConn manager name) := by
  cases manager with
  | false => exact uses_throw _
  | true => exact uses_request (h _)

/-- A Redis connection is given back. -/
theorem uses_relCacheConn (h : ∀ conn, allow (.relCacheConn conn)) (manager : Bool)
    (conn : Option Handle) : Uses allow (relCacheConn manager conn) := by
  cases manager with
  | false => exact uses_throw _
  | true => exact uses_request (h _)

private theorem uses_get (h : ∀ key, allow (.get key)) (conn : Option Handle) (key : String) :
    Uses allow (CacheConn.get conn key) := by
  refine uses_bind (uses_deref _) fun _ => uses_bind (uses_request (h _)) fun r => ?_
  cases r with
  | none => exact uses_throw _
  | some v => exact uses_pure _

/-- A message is read. -/
theorem uses_getpb {α : Type} (h : ∀ key, allow (.get key)) (read : Option RedisValue → Option α)
    (conn : Option Handle) (key : String) : Uses allow (CacheConn.getpb read conn key) := by
  refine uses_bind (uses_get h _ _) fun v => ?_
  split
  · exact uses_pure _
  · exact uses_throw _

private theorem uses_setpb (fmt : Format) (conn : Option Handle) (key : String) (timeout : Int)
    (value : RedisValue) : Uses Internal (CacheConn.setpb fmt conn key timeout value) := by
  refine uses_bind (uses_deref _) fun _ => ?_
  split
  · exact uses_request trivial
  · exact uses_throw _

/-- `Login` neither routes nor sends. -/
theorem uses_login (message : Login) (fmt : Format) : Uses Internal (login message fmt) := by
  refine uses_bind (uses_request trivial) fun ml => uses_bind (uses_request trivial) fun manager =>
    uses_bind ?_ fun _ => uses_bind (uses_relCacheConn (fun _ => trivial) _ _) fun _ =>
    uses_bind (uses_request trivial) fun _ => uses_pure _
  unfold loginChecked
  split
  · exact uses_pure _
  refine uses_bind (uses_request trivial) fun rows => ?_
  rcases rows with _ | _ | ⟨row, rows⟩
  · exact uses_pure _
  · exact uses_pure _
  refine uses_bind (uses_getCacheConn (fun _ => trivial) _ _) fun conn => ?_
  split
  · exact uses_pure _
  · exact uses_bind (uses_setpb _ _ _ _ _) fun _ => uses_pure _

/-- `SendHongbao` neither routes nor sends. -/
theorem uses_sendHongbao (fmt : Format) (req : Hongbaoreq) :
    Uses Internal (sendHongbao fmt req) := by
  refine uses_bind (uses_request trivial) fun manager =>
    uses_bind (uses_getCacheConn (fun _ => trivial) _ _) fun conn => ?_
  split
  · exact uses_pure _
  refine uses_bind (uses_getpb (fun _ => trivial) _ _ _) fun session =>
    uses_bind (uses_request trivial) fun ml => ?_
  split
  · exact uses_pure _
  split
  · exact uses_pure _
  · exact uses_bind (uses_request trivial) fun _ => uses_bind (uses_request trivial) fun _ =>
      uses_bind (uses_setpb _ _ _ _ _) fun _ => uses_bind (uses_request trivial) fun _ =>
      uses_bind (uses_request trivial) fun _ =>
      uses_bind (uses_relCacheConn (fun _ => trivial) _ _) fun _ =>
      uses_bind (uses_request trivial) fun _ => uses_pure _

private theorem uses_stoi (wire : Wire) (value : Option RedisValue) :
    Uses allow (RedisLock.stoi wire value) := by
  unfold RedisLock.stoi
  split
  · exact uses_pure _
  · exact uses_throw _

private theorem uses_lock (wire : Wire) (l : RedisLock) :
    Uses Internal (RedisLock.lock wire l) := by
  refine uses_bind (uses_request trivial) fun now => uses_bind ?_ fun l => ?_
  · unfold RedisLock.tryLock
    split
    · exact uses_pure _
    · refine uses_bind (uses_deref _) fun _ => uses_bind (uses_request trivial) fun value => ?_
      split
      · exact uses_pure _
      · exact uses_pure _
  · split
    · exact uses_pure _
    refine uses_bind (uses_get (fun _ => trivial) _ _) fun _ => uses_bind (uses_stoi _ _)
      fun stamp => ?_
    split
    · refine uses_bind (uses_request trivial) fun _ => uses_bind (uses_stoi _ _) fun stamp => ?_
      split
      · exact uses_pure _
      · exact uses_pure _
    · exact uses_pure _

private theorem uses_unlock (l : RedisLock) : Uses Internal l.unlock := by
  unfold RedisLock.unlock
  split
  · exact uses_bind (uses_deref _) fun _ => uses_request trivial
  · exact uses_pure _

/-- A draw reads the clock and calls `rand`. -/
theorem uses_getRandomMoney (ht : allow .time) (hr : allow .rand) (remainMoney leftPacksize : Int)
    (amounts : Amounts) : Uses allow (getRandomMoney remainMoney leftPacksize amounts) := by
  unfold getRandomMoney
  split
  · exact uses_pure _
  split
  · exact uses_throw _
  split
  · exact uses_pure _
  split
  · exact uses_pure _
  · exact uses_bind (uses_bind (uses_request ht) fun _ => uses_bind (uses_request hr)
      fun _ => uses_pure _) fun _ => uses_pure _

/-- `RobHongbao` neither routes nor sends. -/
theorem uses_robHongbao (fmt : Format) (req : ReqRobHongbao) :
    Uses Internal (robHongbao fmt req) := by
  unfold robHongbao
  split
  · exact uses_pure _
  refine uses_bind (uses_request trivial) fun ml => uses_bind (uses_request trivial) fun manager =>
    uses_bind (uses_getCacheConn (fun _ => trivial) _ _) fun conn =>
    uses_bind (uses_lock _ _) fun lock => ?_
  have hrefuse : ∀ answer, Uses Internal (do lock.unlock; return (0, answer) :
      Op (Int × RespRobHongbao)) := fun _ => uses_bind (uses_unlock _) fun _ => uses_pure _
  split
  · refine uses_bind (uses_getpb (fun _ => trivial) _ _ _) fun ⟨empty, hongbao⟩ => ?_
    dsimp only
    split
    · exact hrefuse _
    split
    · exact hrefuse _
    split
    · exact hrefuse _
    · exact uses_bind (uses_getRandomMoney trivial trivial _ _ _) fun _ =>
        uses_bind (uses_request trivial) fun _ => uses_bind (uses_setpb _ _ _ _ _) fun _ =>
        uses_bind (uses_deref _) fun _ => uses_bind (uses_request trivial) fun _ =>
        uses_bind (uses_unlock _) fun _ =>
        uses_bind (uses_relCacheConn (fun _ => trivial) _ _) fun _ =>
        uses_bind (uses_request trivial) fun _ => uses_pure _
  · exact uses_bind (uses_relCacheConn (fun _ => trivial) _ _) fun _ =>
      uses_bind (uses_request trivial) fun _ => uses_pure _

/-- `CacheMessage` neither routes nor sends. -/
theorem uses_cacheMessage (wire : Wire) (username : String) (message : SingleChat) :
    Uses Internal (cacheMessage wire username message) := by
  refine uses_bind (uses_request trivial) fun manager =>
    uses_bind (uses_getCacheConn (fun _ => trivial) _ _) fun conn => ?_
  split
  · exact uses_bind (uses_relCacheConn (fun _ => trivial) _ _) fun _ => uses_pure _
  · exact uses_bind (uses_request trivial) fun _ =>
      uses_bind (uses_relCacheConn (fun _ => trivial) _ _) fun _ => uses_pure _

/-- The messages are sent one by one. -/
theorem uses_sendAll (hg : ∀ username, allow (.getConnByUsername username))
    (hs : ∀ conn message, allow (.send conn message)) (wire : Wire) (username : String)
    (msgs : List (List UInt8)) (ret : Int) : Uses allow (sendAll wire username msgs ret) := by
  induction msgs with
  | nil => exact uses_pure _
  | cons c msgs ih =>
    rw [sendAll]
    split
    · exact uses_pure _
    · refine uses_bind (uses_bind (uses_request (hg _)) fun conn => ?_) fun _ => ih
      cases conn with
      | none => exact uses_pure _
      | some conn => exact uses_request (hs _ _)

/-- `SendCacheMessage` delivers. -/
theorem uses_sendCacheMessage (wire : Wire) (username : String) :
    Uses Delivers (sendCacheMessage wire username) := by
  refine uses_bind (uses_request trivial) fun manager =>
    uses_bind (uses_getCacheConn (fun _ => trivial) _ _) fun conn => ?_
  split
  · exact uses_bind (uses_relCacheConn (fun _ => trivial) _ _) fun _ => uses_pure _
  have hrel : ∀ ret, Uses Delivers (do relCacheConn manager conn; return ret : Op Int) :=
    fun _ => uses_bind (uses_relCacheConn (fun _ => trivial) _ _) fun _ => uses_pure _
  refine uses_bind (uses_request trivial) fun msgs => ?_
  cases msgs with
  | none => exact hrel _
  | some msgs => exact uses_bind (uses_sendAll (fun _ => trivial) (fun _ _ => trivial) _ _ _ _) hrel

end Uses

end IMServer.Business
