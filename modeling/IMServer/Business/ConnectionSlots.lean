import IMServer.Base.Checkout
import IMServer.Business.Frames
import IMServer.Business.Outcomes

/-!
# Connections that are taken from the pools and given back

Every business function of `server/src/BaseBusiness.cc` takes connections from the pools of
`server/src/CachePool.cc:817–875` and `server/src/MysqlLinkPool.cc`. Each of them is followed
along its connections, whatever the stores reply: a function that returns has given back all
that it took exactly when it did not run into one of the early returns that give back nothing.
-/

namespace IMServer.Business

open IMServer.Base

/-! ### The operations -/

/-- A call of a business function. -/
inductive Operation where
  | register (info : Register)
  | checkDuplication (info : Register)
  | login (message : Login)
  | sendCacheMessage (username : String)
  | cacheMessage (username : String) (message : SingleChat)
  | sendHongbao (req : Hongbaoreq)
  | robHongbao (req : ReqRobHongbao)
  | stopRobHongbao (key sender : String)
  | getFriendInfo (reqinfo : GetFriendInfo)
  deriving DecidableEq, Repr

/-- The call, without its result. -/
def Operation.prog (fmt : Format) : Operation → Op Unit
  | .register info => do let _ ← Business.register info fmt.toAmounts
  | .checkDuplication info => do let _ ← Business.checkDuplication info
  | .login message => do let _ ← Business.login message fmt
  | .sendCacheMessage username => do let _ ← Business.sendCacheMessage fmt.toWire username
  | .cacheMessage username message => do let _ ← Business.cacheMessage fmt.toWire username message
  | .sendHongbao req => do let _ ← Business.sendHongbao fmt req
  | .robHongbao req => do let _ ← Business.robHongbao fmt req
  | .stopRobHongbao key sender => Business.stopRobHongbao fmt key sender
  | .getFriendInfo reqinfo => do let _ ← Business.getFriendInfo fmt.toWire reqinfo

/-! ### What a call holds -/

/-- The connections that a call holds. -/
structure Slots where
  cache : List Handle := []
  mysql : List Handle := []
  /-- The next `GET` of a grab reads the packet; before that it reads what the lock compares. -/
  reading : Bool := false
  /-- The call has run into an early return that gives nothing back. -/
  leaked : Bool := false
  deriving DecidableEq, Repr

/-- The reply with which a call runs into an early return that gives nothing back. -/
def Operation.leaks (fmt : Format) : Operation → Slots → (c : Cmd) → Reply c → Bool
  | .sendHongbao req, _, .get _, some v => (sessionRead fmt.toWire v).any (poor req · fmt.toAmounts)
  | .sendHongbao _, _, .getConnection, none => true
  | .robHongbao req, φ, .get _, some v => φ.reading && (hongbaoRead fmt.toWire v).any (refused req)
  | .stopRobHongbao _ _, _, .getConnection, none => true
  | .getFriendInfo _, φ, .getCacheConn _, none => !φ.mysql.isEmpty
  | _, _, _, _ => false

namespace Slots

def cacheAfter (held : List Handle) : (c : Cmd) → Reply c → List Handle
  | .getCacheConn _, some h => h :: held
  | .relCacheConn (some h), _ => held.erase h
  | _, _ => held

def mysqlAfter (held : List Handle) : (c : Cmd) → Reply c → List Handle
  | .getConnection, some h => h :: held
  | .releaseConnection (some h), _ => held.erase h
  | _, _ => held

def readingAfter (reading : Bool) : (c : Cmd) → Reply c → Bool
  | .setnx _ _, value => bif decide (value = 1) then true else reading
  | .getset _ _, _ => true
  | _, _ => reading

end Slots

/-- A call gives back only what it holds; `next` follows what it holds. -/
def slotProtocol (fmt : Format) (op : Operation) : Protocol Cmd Reply Slots where
  allow φ c := match c with
    | .relCacheConn (some h) => h ∈ φ.cache
    | .releaseConnection (some h) => h ∈ φ.mysql
    | _ => True
  next φ c r :=
    { cache := Slots.cacheAfter φ.cache c r
      mysql := Slots.mysqlAfter φ.mysql c r
      reading := Slots.readingAfter φ.reading c r
      leaked := bif op.leaks fmt φ c r then true else φ.leaked }

/-- A call that has returned holds nothing exactly when it has not leaked. -/
def Balanced {α : Type} (φ : Slots) : Except Abort α → Prop
  | .ok _ => (φ.cache = [] ∧ φ.mysql = []) ↔ φ.leaked = false
  | .error _ => True

/-! ### The operations follow their connections -/

private theorem Balanced.of_clear
    {α : Type} {φ : Slots} (a : α) (hc : φ.cache = []) (hm : φ.mysql = [])
    (hl : φ.leaked = false) : Balanced φ (.ok a) :=
  ⟨fun _ => hl, fun _ => ⟨hc, hm⟩⟩

private theorem Balanced.of_leaked {α : Type} {φ : Slots} (a : α) (hc : φ.cache ≠ [] ∨ φ.mysql ≠ [])
    (hl : φ.leaked = true) : Balanced φ (.ok a) := by
  constructor
  · rintro ⟨hcache, hmysql⟩
    exact (hc.elim (· hcache) (· hmysql)).elim
  · intro h
    rw [hl] at h
    cases h

/-- A command on which no call gains or loses a connection. -/
def Cmd.Quiet : Cmd → Prop
  | .time | .rand | .getInstance | .setex _ _ _ | .del _ | .lpush _ _ | .lrange _ _ _
  | .execute _ | .queryLogin _ _ | .queryName _ | .runAfter _ _ _ | .getConnByUsername _
  | .saveUsernameConn _ _ | .send _ _ => True
  | _ => False

namespace Slots

section Follows

variable {α : Type} {fmt : Format} {op : Operation} {φ : Slots}

private theorem slotProtocol_quiet {c : Cmd} (hc : c.Quiet) :
    (slotProtocol fmt op).allow φ c ∧ ∀ r, (slotProtocol fmt op).next φ c r = φ := by
  cases c with
  | getCacheConn _ | relCacheConn _ | getConnection | releaseConnection _ | get _ | setnx _ _
  | getset _ _ => exact hc.elim
  | _ =>
    refine ⟨trivial, fun r => ?_⟩
    cases op <;> rfl

/-- A quiet part of a call. -/
theorem follows_quiet {β : Type} {p : Op β} {f : β → Op α} (hp : Prog.Uses Cmd.Quiet p)
    (hf : ∀ b, (slotProtocol fmt op).Follows Balanced φ (f b)) :
    (slotProtocol fmt op).Follows Balanced φ (p >>= f) :=
  .bind_of_uses hp (fun _ hc => slotProtocol_quiet hc) (fun _ => trivial) hf

private theorem follows_discard {p : Op α} (h : (slotProtocol fmt op).Follows Balanced φ p) :
    (slotProtocol fmt op).Follows Balanced φ (do let _ ← p : Op Unit) := by
  refine .bind (h.mono fun φ' res hq => ?_)
  cases res with
  | ok a => exact hq
  | error e => trivial

private theorem leaks_relCacheConn (conn : Option Handle) (r : Unit) :
    op.leaks fmt φ (.relCacheConn conn) r = false := by
  cases op <;> rfl

private theorem leaks_releaseConnection (ml : Option Handle) (r : Unit) :
    op.leaks fmt φ (.releaseConnection ml) r = false := by
  cases op <;> rfl

/-- The Redis connection is given back. -/
theorem next_relCacheConn (conn : Option Handle) (mysql : List Handle) (b : Bool) :
    (slotProtocol fmt op).allow ⟨conn.toList, mysql, b, false⟩ (.relCacheConn conn) ∧
      ∀ r, (slotProtocol fmt op).next ⟨conn.toList, mysql, b, false⟩ (.relCacheConn conn) r =
        ⟨[], mysql, b, false⟩ := by
  cases conn with
  | none => exact ⟨trivial, fun r => by simp only [slotProtocol, leaks_relCacheConn]; rfl⟩
  | some h =>
    refine ⟨List.mem_singleton_self h, fun r => ?_⟩
    simp only [slotProtocol, leaks_relCacheConn, Slots.cacheAfter, Option.toList_some,
      List.erase_cons_head]
    rfl

/-- The MySQL connection taken last is given back. -/
theorem next_releaseConnection (cache rest : List Handle) (ml : Option Handle) (b : Bool) :
    (slotProtocol fmt op).allow ⟨cache, ml.toList ++ rest, b, false⟩ (.releaseConnection ml) ∧
      ∀ r, (slotProtocol fmt op).next ⟨cache, ml.toList ++ rest, b, false⟩
        (.releaseConnection ml) r = ⟨cache, rest, b, false⟩ := by
  cases ml with
  | none => exact ⟨trivial, fun r => by simp only [slotProtocol, leaks_releaseConnection]; rfl⟩
  | some h =>
    refine ⟨List.mem_cons_self, fun r => ?_⟩
    simp only [slotProtocol, leaks_releaseConnection, Slots.mysqlAfter, Option.toList_some,
      List.cons_append, List.nil_append, List.erase_cons_head]
    rfl

/-- A call that ends by giving back its MySQL connection. -/
theorem follows_releaseConnection (ml : Option Handle) (b : Bool) (a : α) :
    (slotProtocol fmt op).Follows Balanced ⟨[], ml.toList, b, false⟩
      (do issue (.releaseConnection ml); return a) := by
  obtain ⟨ha, hn⟩ := @next_releaseConnection fmt op [] [] ml b
  rw [List.append_nil] at ha hn
  refine .request ha fun r => ?_
  rw [hn]
  exact .of_clear a rfl rfl rfl

/-- A call that ends by giving back its Redis connection. -/
theorem follows_relCacheConn (conn : Option Handle) (b : Bool) (a : α) :
    (slotProtocol fmt op).Follows Balanced ⟨conn.toList, [], b, false⟩
      (do relCacheConn true conn; return a) := by
  obtain ⟨ha, hn⟩ := @next_relCacheConn fmt op conn [] b
  refine .request ha fun r => ?_
  rw [hn]
  exact .of_clear a rfl rfl rfl

/-- A call that ends by giving back both. -/
theorem follows_release (conn ml : Option Handle) (b : Bool) (a : α) :
    (slotProtocol fmt op).Follows Balanced ⟨conn.toList, ml.toList, b, false⟩
      (do relCacheConn true conn; issue (.releaseConnection ml); return a) := by
  obtain ⟨ha, hn⟩ := @next_relCacheConn fmt op conn ml.toList b
  refine .request ha fun r => ?_
  rw [hn]
  exact follows_releaseConnection ml b a

/-- A part of a call that reads a value. -/
theorem follows_getAs {β : Type} {key : String} {read : Option RedisValue → Option β}
    {f : β → Op α}
    (hf : ∀ v b, read v = some b → (slotProtocol fmt op).Follows Balanced
      ((slotProtocol fmt op).next φ (.get key) (some v)) (f b)) :
    (slotProtocol fmt op).Follows Balanced φ (getAs key read >>= f) := by
  refine ⟨trivial, fun r => ?_⟩
  cases r with
  | none => trivial
  | some v =>
    show (slotProtocol fmt op).Follows Balanced _ (((read v).elim _ _ : Op β).bind f)
    cases hv : read v with
    | none => trivial
    | some b => exact hf v b hv

/-- A part of a call that stores a message. -/
theorem follows_setpb {h : Handle} {key : String} {timeout : Int} {v : RedisValue}
    {f : Unit → Op α} (hf : ∀ b, (slotProtocol fmt op).Follows Balanced φ (f b)) :
    (slotProtocol fmt op).Follows Balanced φ
      (CacheConn.setpb fmt (some h) key timeout v >>= f) := by
  rw [setpb_eq]
  cases fmt.store v with
  | none => trivial
  | some v' => exact follows_quiet (Prog.uses_request trivial) hf

/-- The look-up takes a connection of its own and gives it back, whatever else is held. -/
theorem follows_checkDuplication (info : Register) {rest : List Handle} {f : Int → Op α}
    (hop : ∀ φ c r, op.leaks fmt φ c r = false)
    (hf : ∀ ret, (slotProtocol fmt op).Follows Balanced ⟨[], rest, false, false⟩ (f ret)) :
    (slotProtocol fmt op).Follows Balanced ⟨[], rest, false, false⟩
      (checkDuplication info >>= f) := by
  have hgive : ∀ (ml : Option Handle) (ret : Int), (slotProtocol fmt op).Follows Balanced
      ⟨[], ml.toList ++ rest, false, false⟩
      (do issue (.releaseConnection ml); f ret) := by
    intro ml ret
    obtain ⟨ha, hn⟩ := @next_releaseConnection fmt op [] rest ml false
    refine .request ha fun r => ?_
    rw [hn]
    exact hf ret
  refine ⟨trivial, fun ml => ?_⟩
  have hnext : (slotProtocol fmt op).next ⟨[], rest, false, false⟩ .getConnection ml =
      ⟨[], ml.toList ++ rest, false, false⟩ := by
    simp only [slotProtocol, hop]
    cases ml <;> rfl
  rw [hnext]
  cases ml with
  | none => exact hgive none (-1)
  | some h =>
    refine ⟨trivial, fun rows => ?_⟩
    rw [(slotProtocol_quiet (c := .queryName info.username) trivial).2]
    cases rows with
    | none => exact hgive (some h) (-1)
    | some rows => exact hgive (some h) _

private theorem follows_register (info : Register) :
    (slotProtocol fmt (.register info)).Follows Balanced {}
      (register info fmt.toAmounts) := by
  refine .request trivial fun ml => ?_
  have hheld : (slotProtocol fmt (.register info)).next {} .getConnection ml =
      ⟨[], ml.toList, false, false⟩ := by cases ml <;> rfl
  rw [hheld]
  refine follows_checkDuplication info (fun _ _ _ => rfl) fun ret => ?_
  by_cases hret : ret ≠ 0
  · rw [if_pos hret]
    exact follows_releaseConnection ml false _
  · rw [if_neg hret]
    cases ml with
    | none => trivial
    | some h => exact ⟨trivial, fun _ => follows_releaseConnection (some h) false _⟩

private theorem follows_login (message : Login) :
    (slotProtocol fmt (.login message)).Follows Balanced {} (login message fmt) := by
  refine .request trivial fun ml => .request trivial fun manager => ?_
  cases manager with
  | false =>
    cases ml with
    | none => trivial
    | some hm => trivial
  | true =>
    cases ml with
    | none => exact follows_release none none false _
    | some hm =>
      refine ⟨trivial, fun rows => ?_⟩
      rcases rows with _ | _ | ⟨row, rows⟩
      · exact follows_release none (some hm) false _
      · exact follows_release none (some hm) false _
      refine ⟨trivial, fun conn => ?_⟩
      cases conn with
      | none => exact follows_release none (some hm) false _
      | some h =>
        show (slotProtocol fmt (.login message)).Follows Balanced ⟨[h], [hm], false, false⟩
          (((CacheConn.setpb fmt (some h) _ _ _).bind _).bind _)
        rw [Prog.bind_assoc]
        exact follows_setpb fun _ => follows_release (some h) (some hm) false _

private theorem follows_cacheMessage (username : String) (message : SingleChat) :
    (slotProtocol fmt (.cacheMessage username message)).Follows Balanced {}
      (cacheMessage fmt.toWire username message) := by
  refine .request trivial fun manager => ?_
  cases manager with
  | false => trivial
  | true =>
    refine .request trivial fun conn => ?_
    cases conn with
    | none => exact follows_relCacheConn none false _
    | some h => exact ⟨trivial, fun _ => follows_relCacheConn (some h) false _⟩

private theorem follows_sendCacheMessage (username : String) :
    (slotProtocol fmt (.sendCacheMessage username)).Follows Balanced {}
      (sendCacheMessage fmt.toWire username) := by
  refine .request trivial fun manager => ?_
  cases manager with
  | false => trivial
  | true =>
    refine .request trivial fun conn => ?_
    cases conn with
    | none => exact follows_relCacheConn none false _
    | some h =>
      refine .request trivial fun msgs => ?_
      cases msgs with
      | none => exact follows_relCacheConn (some h) false _
      | some msgs =>
        exact follows_quiet (uses_sendAll (fun _ => trivial) (fun _ _ => trivial) _ _ _ _)
          fun ret => follows_relCacheConn (some h) false ret

private theorem follows_sendHongbao (req : Hongbaoreq) :
    (slotProtocol fmt (.sendHongbao req)).Follows Balanced {} (sendHongbao fmt req) := by
  refine .request trivial fun manager => ?_
  cases manager with
  | false => trivial
  | true =>
    refine .request trivial fun conn => ?_
    cases conn with
    | none => exact .of_clear _ rfl rfl rfl
    | some h =>
      show (slotProtocol fmt (.sendHongbao req)).Follows Balanced _
        (CacheConn.getpbSession fmt.toWire (some h) _ >>= _)
      rw [CacheConn.getpbSession, getpb_eq]
      refine follows_getAs fun v s hs => ?_
      have hleak : (sessionRead fmt.toWire v).any (poor req · fmt.toAmounts) =
          poor req s fmt.toAmounts := by
        rw [hs]
        rfl
      show (slotProtocol fmt (.sendHongbao req)).Follows Balanced
        ⟨[h], [], false, bif (sessionRead fmt.toWire v).any (poor req · fmt.toAmounts) then true
          else false⟩ _
      rw [hleak]
      refine .request trivial fun ml => ?_
      cases ml with
      | none => exact .of_leaked _ (.inl (List.cons_ne_nil h [])) rfl
      | some hm =>
        show (slotProtocol fmt (.sendHongbao req)).Follows Balanced
          ⟨[h], [hm], false, bif poor req s fmt.toAmounts then true else false⟩
          (if poor req s fmt.toAmounts then _ else _)
        cases poor req s fmt.toAmounts with
        | true => exact .of_leaked _ (.inl (List.cons_ne_nil h [])) rfl
        | false =>
          refine .request trivial fun _ => .request trivial fun now => ?_
          exact follows_setpb fun _ => .request trivial fun _ => .request trivial fun _ =>
            follows_release (some h) (some hm) false _

/-- A grab judges a value that the lock has read. -/
theorem follows_judge {h : Handle} {key : String} {e : Int} {now : Nat}
    {value : Option RedisValue} {next : Int → Op RedisLock} {f : RedisLock → Op α}
    (hfree : ∀ t, (slotProtocol fmt op).Follows Balanced φ (f ⟨some h, key, e, false, t⟩))
    (hnext : ∀ t, (slotProtocol fmt op).Follows Balanced φ (next t >>= f)) :
    (slotProtocol fmt op).Follows Balanced φ (judge fmt.toWire key e h now value next >>= f) := by
  rw [judge, stoi_eq]
  cases readsAs fmt.toWire value with
  | none => trivial
  | some t =>
    show (slotProtocol fmt op).Follows Balanced φ
      ((if unsigned 32 t < now % 2 ^ 32 then _ else _ : Op RedisLock).bind f)
    split
    · exact hnext t
    · exact hfree t

/-- A grab that is still outside the lock takes it, leaves it or takes it over. -/
theorem follows_lock {req : ReqRobHongbao} {h : Handle} {mysql : List Handle} {key : String}
    {e : Int} {f : RedisLock → Op α}
    (hlocked : ∀ t, (slotProtocol fmt (.robHongbao req)).Follows Balanced
      ⟨[h], mysql, true, false⟩ (f ⟨some h, key, e, true, t⟩))
    (hfree : ∀ b t, (slotProtocol fmt (.robHongbao req)).Follows Balanced
      ⟨[h], mysql, b, false⟩ (f ⟨some h, key, e, false, t⟩)) :
    (slotProtocol fmt (.robHongbao req)).Follows Balanced ⟨[h], mysql, false, false⟩
      (RedisLock.lock fmt.toWire ⟨some h, key, e, false, 0⟩ >>= f) := by
  rw [lock_eq]
  refine ⟨trivial, fun now => ⟨trivial, fun value => ?_⟩⟩
  show (slotProtocol fmt (.robHongbao req)).Follows Balanced
    ⟨[h], mysql, bif decide (value = 1) then true else false, false⟩
    ((if value = 1 then _ else takeover fmt.toWire key e h now : Op RedisLock).bind f)
  by_cases hv : value = 1
  · rw [if_pos hv, decide_eq_true hv]
    exact hlocked _
  rw [if_neg hv, decide_eq_false hv]
  refine ⟨trivial, fun r => ?_⟩
  cases r with
  | none => trivial
  | some v =>
    refine follows_judge (hfree false) fun _ => ⟨trivial, fun v' => ?_⟩
    exact follows_judge (hfree true) hlocked

/-- What is done under the lock: a refusal gives nothing back. -/
theorem follows_robLocked (req : ReqRobHongbao) (ml : Option Handle) (h : Handle)
    (e t : Int) :
    (slotProtocol fmt (.robHongbao req)).Follows Balanced ⟨[h], ml.toList, true, false⟩
      (robLocked fmt req true ml (some h) ⟨some h, req.hongbaokey, e, true, t⟩) := by
  show (slotProtocol fmt (.robHongbao req)).Follows Balanced _
    (CacheConn.getpbHongbao fmt.toWire (some h) _ >>= _)
  rw [CacheConn.getpbHongbao, getpb_eq]
  refine follows_getAs fun v ⟨empty, p⟩ hp => ?_
  have hleak : (hongbaoRead fmt.toWire v).any (refused req) = refused req (empty, p) := by
    rw [hp]
    rfl
  show (slotProtocol fmt (.robHongbao req)).Follows Balanced
    ⟨[h], ml.toList, true, bif (hongbaoRead fmt.toWire v).any (refused req) then true else false⟩ _
  rw [hleak]
  have hrefuse : ∀ answer, refused req (empty, p) = true →
      (slotProtocol fmt (.robHongbao req)).Follows Balanced
        ⟨[h], ml.toList, true, bif refused req (empty, p) then true else false⟩
        (do RedisLock.unlock ⟨some h, req.hongbaokey, e, true, t⟩; return ((0 : Int), answer) :
          Op (Int × RespRobHongbao)) := by
    intro answer hr
    rw [hr]
    exact ⟨trivial, fun _ => .of_leaked _ (.inl (List.cons_ne_nil h [])) rfl⟩
  show (slotProtocol fmt (.robHongbao req)).Follows Balanced _
    (if empty then _ else if p.robitem.any (·.name = req.selfname) then _ else
      if p.leftcount = 0 then _ else getRandomMoney _ _ _ >>= _)
  apply refused_split
  · intro hr
    exact ⟨hrefuse _ hr, hrefuse _ hr, hrefuse _ hr⟩
  intro hr
  rw [hr]
  refine follows_quiet (uses_getRandomMoney trivial trivial _ _ _) fun g =>
    .request trivial fun now => follows_setpb fun _ => ?_
  cases ml with
  | none => trivial
  | some hm =>
    exact ⟨trivial, fun _ => ⟨trivial, fun _ => follows_release (some h) (some hm) true _⟩⟩

private theorem follows_robHongbao (req : ReqRobHongbao) :
    (slotProtocol fmt (.robHongbao req)).Follows Balanced {} (robHongbao fmt req) := by
  unfold robHongbao
  by_cases hkey : req.hongbaokey = ""
  · rw [if_pos hkey]
    exact .of_clear _ rfl rfl rfl
  rw [if_neg hkey]
  refine .request trivial fun ml => .request trivial fun manager => ?_
  have hheld : (slotProtocol fmt (.robHongbao req)).next {} .getConnection ml =
      ⟨[], ml.toList, false, false⟩ := by cases ml <;> rfl
  rw [hheld]
  cases manager with
  | false => trivial
  | true =>
    refine .request trivial fun conn => ?_
    cases conn with
    | none => exact ⟨trivial, fun _ => trivial⟩
    | some h =>
      exact follows_lock (fun t => follows_robLocked req ml h 50000 t)
        fun b t => follows_release (some h) ml b _

private theorem follows_stopRobHongbao (key sender : String) :
    (slotProtocol fmt (.stopRobHongbao key sender)).Follows Balanced {}
      (stopRobHongbao fmt key sender) := by
  refine .request trivial fun manager => ?_
  cases manager with
  | false => trivial
  | true =>
    refine .request trivial fun conn => ?_
    cases conn with
    | none => trivial
    | some h =>
      show (slotProtocol fmt (.stopRobHongbao key sender)).Follows Balanced _
        (CacheConn.getpbHongbao fmt.toWire (some h) key >>= _)
      rw [CacheConn.getpbHongbao, getpb_eq]
      refine follows_getAs fun v p _ => ⟨trivial, fun _ => .request trivial fun ml => ?_⟩
      cases ml with
      | none => exact .of_leaked _ (.inl (List.cons_ne_nil h [])) rfl
      | some hm =>
        refine .request trivial fun _ => ?_
        by_cases hleft : p.2.leftcount ≠ 0
        · rw [if_pos hleft]
          exact .request trivial fun _ => follows_release (some h) (some hm) false ()
        · rw [if_neg hleft]
          exact follows_release (some h) (some hm) false ()

private theorem follows_getFriendInfo (reqinfo : GetFriendInfo) :
    (slotProtocol fmt (.getFriendInfo reqinfo)).Follows Balanced {}
      (getFriendInfo fmt.toWire reqinfo) := by
  refine .request trivial fun ml => .request trivial fun manager => ?_
  cases manager with
  | false => trivial
  | true =>
    refine .request trivial fun conn => ?_
    cases conn with
    | none =>
      cases ml with
      | none => exact .of_clear _ rfl rfl rfl
      | some hm => exact .of_leaked _ (.inr (List.cons_ne_nil hm [])) rfl
    | some h =>
      show (slotProtocol fmt (.getFriendInfo reqinfo)).Follows Balanced _
        (CacheConn.getpbUserInfo fmt.toWire (some h) _ >>= _)
      rw [CacheConn.getpbUserInfo, getpb_eq]
      refine follows_getAs fun v u _ => ?_
      cases ml with
      | none => exact follows_release (some h) none false _
      | some hm => exact follows_release (some h) (some hm) false _

/-- Every call holds nothing once it has returned, unless it has leaked. -/
theorem follows_prog (fmt : Format) (op : Operation) :
    (slotProtocol fmt op).Follows Balanced {} (op.prog fmt) := by
  cases op with
  | register info => exact follows_discard (follows_register info)
  | checkDuplication info =>
    exact follows_checkDuplication info (fun _ _ _ => rfl) fun _ => .of_clear _ rfl rfl rfl
  | login message => exact follows_discard (follows_login message)
  | sendCacheMessage username => exact follows_discard (follows_sendCacheMessage username)
  | cacheMessage username message =>
    exact follows_discard (follows_cacheMessage username message)
  | sendHongbao req => exact follows_discard (follows_sendHongbao req)
  | robHongbao req => exact follows_discard (follows_robHongbao req)
  | stopRobHongbao key sender => exact follows_stopRobHongbao key sender
  | getFriendInfo reqinfo => exact follows_discard (follows_getFriendInfo reqinfo)

end Follows

/-! ### The pools -/

section Pools

variable {ι : Type} {w₀ w : World} {φ : ι → Slots}

/-- What is checked out of the pools was so at the start, or one of the calls holds it. -/
structure Held (w₀ w : World) (φ : ι → Slots) : Prop where
  cache : CheckedOut w₀.cacheOut w.cacheOut (fun i => (φ i).cache) w.nextHandle
  mysql : CheckedOut w₀.mysqlOut w.mysqlOut (fun i => (φ i).mysql) w.nextHandle

/-- A command that neither takes a connection nor gives one back. -/
def KeepsPools : Cmd → Prop
  | .getCacheConn _ | .relCacheConn _ | .getConnection | .releaseConnection _ => False
  | _ => True

private theorem exec_keepsPools {c : Cmd} (hc : KeepsPools c) (w : World) :
    (exec c w).2.cacheOut = w.cacheOut ∧ (exec c w).2.mysqlOut = w.mysqlOut ∧
      (exec c w).2.nextHandle = w.nextHandle := by
  cases c with
  | getCacheConn _ | relCacheConn _ | getConnection | releaseConnection _ => exact hc.elim
  | execute stmt =>
    obtain ⟨users, rows, h⟩ := exec_execute_frame stmt w
    rw [h]
    exact ⟨rfl, rfl, rfl⟩
  | _ =>
    dsimp only [exec]
    repeat' split
    all_goals exact ⟨rfl, rfl, rfl⟩

private theorem after_keepsPools {c : Cmd} (hc : KeepsPools c) (held : List Handle) (r : Reply c) :
    cacheAfter held c r = held ∧ mysqlAfter held c r = held := by
  cases c with
  | getCacheConn _ | relCacheConn _ | getConnection | releaseConnection _ => exact hc.elim
  | _ => exact ⟨rfl, rfl⟩

variable [DecidableEq ι]

/-- The lists of one call change, those of the others do not. -/
theorem Held.of_update {i : ι} {ψ : Slots}
    (hc : CheckedOut w₀.cacheOut w.cacheOut
      (Function.update (fun j => (φ j).cache) i ψ.cache) w.nextHandle)
    (hm : CheckedOut w₀.mysqlOut w.mysqlOut
      (Function.update (fun j => (φ j).mysql) i ψ.mysql) w.nextHandle) :
    Held w₀ w (Function.update φ i ψ) := by
  constructor
  · convert hc using 1
    ext j : 1
    exact Function.apply_update (fun _ => Slots.cache) φ i ψ j
  · convert hm using 1
    ext j : 1
    exact Function.apply_update (fun _ => Slots.mysql) φ i ψ j

/-- A command that keeps the pools keeps what every call holds. -/
theorem Held.of_keepsPools {fmt : Format} {op : Operation} (h : Held w₀ w φ) (i : ι) {c : Cmd}
    (hc : KeepsPools c) :
    Held w₀ (exec c w).2
      (Function.update φ i ((slotProtocol fmt op).next (φ i) c (exec c w).1)) := by
  obtain ⟨hcache, hmysql, hnext⟩ := exec_keepsPools hc w
  refine .of_update ?_ ?_
  · rw [hcache, hnext, show ((slotProtocol fmt op).next (φ i) c _).cache = (φ i).cache from
      (after_keepsPools hc _ _).1]
    exact h.cache.update_same i
  · rw [hmysql, hnext, show ((slotProtocol fmt op).next (φ i) c _).mysql = (φ i).mysql from
      (after_keepsPools hc _ _).2]
    exact h.mysql.update_same i

/-- Giving back a null pointer changes no pool. -/
theorem filter_some_ne_none (out : List Handle) :
    out.filter (fun h => some h ≠ none) = out :=
  List.filter_eq_self.mpr fun h _ => decide_eq_true (Option.some_ne_none h)

/-- One command of one call. -/
theorem Held.step {fmt : Format} {op : Operation} (h : Held w₀ w φ) (i : ι) {c : Cmd}
    (ha : (slotProtocol fmt op).allow (φ i) c) :
    Held w₀ (exec c w).2
      (Function.update φ i ((slotProtocol fmt op).next (φ i) c (exec c w).1)) := by
  cases c with
  | getCacheConn name =>
    dsimp only [exec]
    split
    · exact .of_update (h.cache.take i) ((h.mysql.mono (Nat.le_succ _)).update_same i)
    · exact .of_update (h.cache.update_same i) (h.mysql.update_same i)
  | getConnection =>
    dsimp only [exec]
    split
    · exact .of_update ((h.cache.mono (Nat.le_succ _)).update_same i) (h.mysql.take i)
    · exact .of_update (h.cache.update_same i) (h.mysql.update_same i)
  | relCacheConn conn =>
    cases conn with
    | none =>
      refine .of_update ?_ (h.mysql.update_same i)
      show CheckedOut _ (w.cacheOut.filter fun h => some h ≠ none) _ _
      rw [filter_some_ne_none]
      exact h.cache.update_same i
    | some x => exact .of_update (h.cache.giveBack ha) (h.mysql.update_same i)
  | releaseConnection ml =>
    cases ml with
    | none =>
      refine .of_update (h.cache.update_same i) ?_
      show CheckedOut _ (w.mysqlOut.filter fun h => some h ≠ none) _ _
      rw [filter_some_ne_none]
      exact h.mysql.update_same i
    | some x => exact .of_update (h.cache.update_same i) (h.mysql.giveBack ha)
  | _ => exact h.of_keepsPools i trivial

end Pools

end Slots

/-! ### Calls in any order -/

section Calls

variable {ι : Type} [DecidableEq ι]

/-- The world, what each call holds and what is left of it. -/
abbrev SlotConfig (ι : Type) := Config ι Cmd Reply Abort Unit World Slots

/-- All calls before their first command. -/
def slotStart (fmt : Format) (op : ι → Operation) (w : World) : SlotConfig ι where
  world := w
  phase _ := {}
  thread i := (op i).prog fmt

/-- One call issues its next command. -/
def slotStep (fmt : Format) (op : ι → Operation) : SlotConfig ι → ι → SlotConfig ι :=
  Config.step exec fun i => slotProtocol fmt (op i)

/-- The next command of a call finds the stores so that the call will run into an early return
that gives nothing back. -/
def willLeak (fmt : Format) (op : ι → Operation) (s : SlotConfig ι) (i : ι) : Bool :=
  match s.thread i with
  | .call c _ => (op i).leaks fmt (s.phase i) c (exec c s.world).1
  | _ => false

variable {fmt : Format} {op : ι → Operation}

private theorem slotStep_leaked (s : SlotConfig ι) (i : ι) :
    (∀ j, ((slotStep fmt op s i).phase j).leaked = false) ↔
      willLeak fmt op s i = false ∧ ∀ j, (s.phase j).leaked = false := by
  rw [slotStep, Config.step, willLeak]
  cases ht : s.thread i with
  | pure a => exact (and_iff_right rfl).symm
  | throw e => exact (and_iff_right rfl).symm
  | call c next =>
    have hi : ((slotProtocol fmt (op i)).next (s.phase i) c (exec c s.world).1).leaked = false ↔
        (op i).leaks fmt (s.phase i) c (exec c s.world).1 = false ∧
          (s.phase i).leaked = false := by
      simp only [slotProtocol]
      cases (op i).leaks fmt (s.phase i) c (exec c s.world).1 <;> simp
    show (∀ j, (Function.update s.phase i _ j).leaked = false) ↔ _ ∧ _
    rw [Function.forall_update_iff s.phase fun _ φ => φ.leaked = false, hi]
    constructor
    · rintro ⟨⟨hl, hself⟩, hother⟩
      refine ⟨hl, fun j => ?_⟩
      by_cases hj : j = i
      · exact hj ▸ hself
      · exact hother j hj
    · rintro ⟨hl, h⟩
      exact ⟨⟨hl, h i⟩, fun j _ => h j⟩

private theorem foldl_leaked (schedule : List ι) (s : SlotConfig ι) :
    (∀ j, ((schedule.foldl (slotStep fmt op) s).phase j).leaked = false) ↔
      Legal (fun s i => some (slotStep fmt op s i)) (fun s i => willLeak fmt op s i = false) s
        schedule ∧ ∀ j, (s.phase j).leaked = false := by
  induction schedule generalizing s with
  | nil => exact (and_iff_right trivial).symm
  | cons i schedule ih =>
    rw [List.foldl_cons, ih, slotStep_leaked, Legal]
    tauto

/-- Along every schedule what is checked out is accounted for, and every call follows what it
holds. -/
theorem foldl_held (fmt : Format) (op : ι → Operation) {w : World}
    (hcache : ∀ h ∈ w.cacheOut, h < w.nextHandle) (hmysql : ∀ h ∈ w.mysqlOut, h < w.nextHandle)
    (schedule : List ι) :
    Slots.Held w (schedule.foldl (slotStep fmt op) (slotStart fmt op w)).world
        (schedule.foldl (slotStep fmt op) (slotStart fmt op w)).phase ∧
      ∀ i, (slotProtocol fmt (op i)).Follows Balanced
        ((schedule.foldl (slotStep fmt op) (slotStart fmt op w)).phase i)
        ((schedule.foldl (slotStep fmt op) (slotStart fmt op w)).thread i) := by
  have hl : Legal (fun s i => some (slotStep fmt op s i)) (fun _ _ => True) (slotStart fmt op w)
      schedule := Legal.of_forall (fun _ _ => trivial) _
  have hstart : Slots.Held w (slotStart fmt op w).world (slotStart fmt op w).phase :=
    ⟨.start hcache, .start hmysql⟩
  exact Config.run_invariant (Q := fun _ => Balanced)
    (fun s i c hs _ ha _ => Slots.Held.step hs i ha) schedule hstart
    (fun i => Slots.follows_prog fmt (op i)) hl

/-- What a call holds once it has returned, or before its first command. -/
theorem foldl_balanced (schedule : List ι) (w : World)
    (hfollows : ∀ i, (slotProtocol fmt (op i)).Follows Balanced
      ((schedule.foldl (slotStep fmt op) (slotStart fmt op w)).phase i)
      ((schedule.foldl (slotStep fmt op) (slotStart fmt op w)).thread i))
    (hret : ∀ i ∈ schedule, ∃ a,
      (schedule.foldl (slotStep fmt op) (slotStart fmt op w)).thread i = .pure a) (i : ι) :
    (((schedule.foldl (slotStep fmt op) (slotStart fmt op w)).phase i).cache = [] ∧
      ((schedule.foldl (slotStep fmt op) (slotStart fmt op w)).phase i).mysql = []) ↔
    ((schedule.foldl (slotStep fmt op) (slotStart fmt op w)).phase i).leaked = false :=
  Config.phase_of_returned (R := fun φ => (φ.cache = [] ∧ φ.mysql = []) ↔ φ.leaked = false)
    (hfollows i) (hret i) ⟨fun _ => rfl, fun _ => ⟨rfl, rfl⟩⟩ fun _ _ h => h

/-- Any number of calls of the business functions, their commands interleaved in any order and
every store call ending in any way, all of which have returned: the same connections are checked
out as before if and only if no call ran into one of the early returns that give nothing back,
namely a packet sent with too little money or without a MySQL connection, a grab that is
refused, a packet that ends without a MySQL connection, or the friend information without a
Redis connection. -/
theorem connections_returned_iff (fmt : Format) (op : ι → Operation) (w : World)
    (hcache : ∀ h ∈ w.cacheOut, h < w.nextHandle) (hmysql : ∀ h ∈ w.mysqlOut, h < w.nextHandle)
    (schedule : List ι)
    (hret : ∀ i ∈ schedule, ∃ a,
      (schedule.foldl (slotStep fmt op) (slotStart fmt op w)).thread i = .pure a) :
    ((∀ h, h ∈ (schedule.foldl (slotStep fmt op) (slotStart fmt op w)).world.cacheOut ↔
        h ∈ w.cacheOut) ∧
      ∀ h, h ∈ (schedule.foldl (slotStep fmt op) (slotStart fmt op w)).world.mysqlOut ↔
        h ∈ w.mysqlOut) ↔
    Legal (fun s i => some (slotStep fmt op s i)) (fun s i => willLeak fmt op s i = false)
      (slotStart fmt op w) schedule := by
  obtain ⟨hheld, hfollows⟩ := foldl_held fmt op hcache hmysql schedule
  rw [hheld.cache.same_iff, hheld.mysql.same_iff, ← forall_and]
  calc (∀ i, _ ∧ _)
      ↔ ∀ i, ((schedule.foldl (slotStep fmt op) (slotStart fmt op w)).phase i).leaked = false :=
        forall_congr' (foldl_balanced schedule w hfollows hret)
    _ ↔ _ := foldl_leaked schedule _
    _ ↔ _ := and_iff_left fun _ => rfl

/-- Alice has logged in and owns 500.00. -/
def aliceRich : World where
  redis := AList.insert "alice_session"
    (.session { islogin := true, userinfo := { name := "alice", money := 50000 } }) ∅
  imUser := [{ id := 1, name := "alice", money := 50000 }]

/-- Alice sends a packet of 100.00 while Bob registers. -/
def sendAndRegister : Bool → Operation
  | true => .sendHongbao { sender := "alice", money := 10000, count := 2 }
  | false => .register { username := "bob" }

/-- A request for a packet and a registration, in turns. -/
theorem connections_returned_alice :
    (∀ h, h ∈ ((List.replicate 12 [true, false]).flatten.foldl (slotStep plainWire sendAndRegister)
        (slotStart plainWire sendAndRegister aliceRich)).world.cacheOut ↔ h ∈ aliceRich.cacheOut) ∧
      ∀ h, h ∈ ((List.replicate 12 [true, false]).flatten.foldl
          (slotStep plainWire sendAndRegister)
          (slotStart plainWire sendAndRegister aliceRich)).world.mysqlOut ↔
        h ∈ aliceRich.mysqlOut :=
  (connections_returned_iff plainWire sendAndRegister aliceRich (by decide) (by decide)
    (List.replicate 12 [true, false]).flatten
    fun i _ => ⟨(), by cases i <;> rfl⟩).mpr (by decide)

/-- Alice without a session is told that the money is not enough, and one connection of each
pool stays checked out; the same happens to a grab of a packet that is gone. -/
theorem connections_not_returned :
    let send : Unit → Operation := fun _ => .sendHongbao { sender := "alice", money := 10000 }
    let rob : Unit → Operation := fun _ => .robHongbao { hongbaokey := "k", sender := "alice" }
    let sent := (List.replicate 4 ()).foldl (slotStep plainWire send) (slotStart plainWire send {})
    let robbed := (List.replicate 7 ()).foldl (slotStep plainWire rob) (slotStart plainWire rob {})
    (sent.thread () = .pure () ∧ sent.world.cacheOut = [0] ∧ sent.world.mysqlOut = [1]) ∧
      (robbed.thread () = .pure () ∧ robbed.world.cacheOut = [1] ∧
        robbed.world.mysqlOut = [0]) :=
  ⟨⟨rfl, rfl, rfl⟩, ⟨rfl, rfl, rfl⟩⟩

end Calls

end IMServer.Business
