import IMServer.Business.Sequential

/-!
# The phases of a grab and of the end of a packet

`RobHongbao` takes the lock, reads the packet, stores what is left of it, credits the share
and gives the lock back; `StopRobHongbao` reads the packet, deletes it and refunds the rest. A
protocol for each says which commands it may issue in which phase, and the programs follow
their protocols whatever the stores reply.
-/

namespace IMServer.Business

open IMServer.Base

/-! ### Phases -/

/-- How far a grab, or the end of the packet, has come. -/
inductive Phase where
  /-- A grab that does not hold the lock. -/
  | outside
  | locked
  /-- A grab that holds the lock and has read the packet. -/
  | read (p : SendHongbao)
  /-- The packet is stored without the share, which is not yet credited. -/
  | wrote (g : Int)
  | credited
  /-- The end of the packet, before it has read it. -/
  | waiting
  | fetched (p : SendHongbao)
  /-- The key is deleted, what was left is not yet refunded. -/
  | deleted (p : SendHongbao)
  | refunded
  /-- A store call has failed, or the lock was taken over from its holder. -/
  | lost
  deriving DecidableEq, Repr

namespace Phase

/-- A grab that has the lock. -/
def holds : Phase → Bool
  | locked | read _ | wrote _ | credited => true
  | _ => false

def isRead : Phase → Bool
  | read _ => true
  | _ => false

def isFetched : Phase → Bool
  | fetched _ => true
  | _ => false

/-- The end of the packet has deleted the key. -/
def hasDeleted : Phase → Bool
  | deleted _ | refunded | lost => true
  | _ => false

/-- What a grab has taken out of the packet and not yet credited. -/
def pending : Phase → Int
  | wrote g => g
  | _ => 0

/-- What was in the packet when it was deleted and may still be refunded. -/
def refund : Phase → Int
  | deleted p => p.leftmoney
  | _ => 0

end Phase

/-- A command that changes neither Redis nor the accounts, `get` apart. -/
def Cmd.Neutral : Cmd → Prop
  | .time | .rand | .getInstance | .getCacheConn _ | .relCacheConn _ | .getConnection
  | .releaseConnection _ | .execute (.updateHongbao _ _ _ _) => True
  | _ => False

/-- The takeover of a lock. -/
def Cmd.isGetset : Cmd → Bool
  | .getset _ _ => true
  | _ => false

/-- The phase of a grab after a command and its reply. -/
def robNext : Phase → (c : Cmd) → Reply c → Phase
  | .outside, .setnx _ _, value => if value = 1 then .locked else .outside
  | .outside, .getset _ _, _ => .lost
  | .locked, .get _, some (some (.hongbao p)) => .read p
  | .locked, .get _, some (some (.stamp _)) => .lost
  | .locked, .get _, some (some (.bytes _)) => .lost
  | .locked, .del _, _ => .outside
  | .read _, .del _, _ => .outside
  | .read p, .setex _ _ (.hongbao q), _ => .wrote (p.leftmoney - q.leftmoney)
  | .wrote _, .execute (.addMoney _ _), _ => .credited
  | .credited, .del _, _ => .outside
  | φ, _, _ => φ

/-- What a grab of `key` by `self` does in each phase. -/
def robProtocol (key self : String) : Protocol Cmd Reply Phase where
  allow φ c := c.Neutral ∨ match φ with
    | .outside => (∃ t, c = .setnx (RedisLock.getLockKey key) t) ∨ c = .get key ∨
        ∃ t, c = .getset key t
    | .locked => c = .get key ∨ c = .del (RedisLock.getLockKey key)
    | .read p => c = .del (RedisLock.getLockKey key) ∨ ∃ e g t, p.leftcount ≠ 0 ∧
        Share (toInt32 p.leftmoney) (wrap 32 p.leftcount) g ∧
        c = .setex key e (.hongbao (takeShare p self g t))
    | .wrote g => c = .execute (.addMoney g self)
    | .credited => c = .del (RedisLock.getLockKey key)
    | .lost => True
    | _ => False
  next := robNext

/-- The phase of the end of the packet after a command and its reply. -/
def stopNext : Phase → (c : Cmd) → Reply c → Phase
  | .waiting, .getInstance, false => .lost
  | .waiting, .getCacheConn _, none => .lost
  | .waiting, .get _, some (some (.hongbao p)) => .fetched p
  | .waiting, .get _, _ => .lost
  | .fetched p, .del _, _ => .deleted p
  | .deleted _, .execute (.addMoney _ _), _ => .refunded
  | φ, _, _ => φ

/-- What the end of the packet does in each phase. -/
def stopProtocol (key : String) : Protocol Cmd Reply Phase where
  allow φ c := c.Neutral ∨ match φ with
    | .waiting => c = .get key
    | .fetched _ => c = .del key
    | .deleted p => c = .execute (.addMoney p.leftmoney p.sender)
    | .lost => True
    | _ => False
  next := stopNext

/-! ### The programs follow the protocols -/

section Follows

variable {α : Type} {key self : String}

private theorem follows_lost_rob (p : Op α) :
    (robProtocol key self).Follows (fun _ _ => True) .lost p :=
  .of_absorbing (fun _ => Or.inr trivial) (fun _ _ => rfl) (fun _ => trivial) p

private theorem follows_lost_stop (p : Op α) :
    (stopProtocol key).Follows (fun φ _ => φ.hasDeleted = true) .lost p :=
  .of_absorbing (fun _ => Or.inr trivial) (fun _ _ => rfl) (fun _ => rfl) p

/-- The end of the packet returns only after it has deleted the key, unless a call fails. -/
theorem follows_stopRobHongbao (wire : Wire) (key sender : String) :
    (stopProtocol key).Follows (fun φ _ => φ.hasDeleted = true) .waiting
      (stopRobHongbao wire key sender) := by
  refine .request (.inl trivial) fun manager => ?_
  cases manager with
  | false => exact follows_lost_stop _
  | true =>
    refine .request (.inl trivial) fun conn => ?_
    cases conn with
    | none => exact follows_lost_stop _
    | some h =>
      refine ⟨.inr rfl, fun r => ?_⟩
      rcases r with _ | _ | (p | s | t | xs | bs)
      · exact follows_lost_stop _
      · exact follows_lost_stop _
      · refine ⟨.inr rfl, fun _ => .request (.inl trivial) fun ml => ?_⟩
        cases ml with
        | none => rfl
        | some hm =>
          refine .request (.inl trivial) fun _ => ?_
          by_cases hleft : p.leftcount ≠ 0
          · rw [if_pos hleft]
            exact .request (.inr rfl) fun _ => .request (.inl trivial) fun _ =>
              ⟨.inl trivial, fun _ => rfl⟩
          · rw [if_neg hleft]
            exact .request (.inl trivial) fun _ => ⟨.inl trivial, fun _ => rfl⟩
      · exact follows_lost_stop _
      · exact follows_lost_stop _
      · exact follows_lost_stop _
      · exact follows_lost_stop _

/-- The draw of a share keeps the phase. -/
theorem follows_getRandomMoney {Q : Phase → Except Abort α → Prop} {p : SendHongbao}
    {rem n : Int} {f : Int → Op α}
    (hf : ∀ g, Share rem n g → (robProtocol key self).Follows Q (.read p) (f g)) :
    (robProtocol key self).Follows Q (.read p) (getRandomMoney rem n >>= f) := by
  unfold getRandomMoney
  by_cases h0 : n = 0
  · rw [if_pos h0]
    exact hf 0 (.inl ⟨h0, rfl⟩)
  rw [if_neg h0]
  by_cases h1 : rem.tdiv n = 1
  · rw [if_pos h1]
    exact hf _ (.inr (.inl ⟨h0, h1, h1⟩))
  rw [if_neg h1]
  by_cases hl : n = 1
  · rw [if_pos hl]
    exact hf _ (.inr (.inr (.inl ⟨hl, rfl⟩)))
  rw [if_neg hl]
  refine ⟨.inl trivial, fun _ => ⟨.inl trivial, fun r => hf _ ?_⟩⟩
  exact .inr (.inr (.inr ⟨h0, hl, _, (draw_bounds r).1, (draw_bounds r).2, rfl⟩))

private theorem stoi_cases (wire : Wire) (value : Option RedisValue) :
    (∃ t, RedisLock.stoi wire value = .pure t) ∨
      RedisLock.stoi wire value = .throw .exception := by
  unfold RedisLock.stoi
  split
  · next t _ => exact .inl ⟨t, rfl⟩
  · exact .inr rfl

/-- The lock is taken by `SETNX`, not taken, or taken over with `GETSET`. -/
theorem follows_lock (wire : Wire) {h : Handle} {e : Int} {f : RedisLock → Op α}
    (hlocked : ∀ t, (robProtocol key self).Follows (fun _ _ => True) .locked
      (f ⟨some h, key, e, true, t⟩))
    (hfree : ∀ t, (robProtocol key self).Follows (fun _ _ => True) .outside
      (f ⟨some h, key, e, false, t⟩)) :
    (robProtocol key self).Follows (fun _ _ => True) .outside
      (RedisLock.lock wire ⟨some h, key, e, false, 0⟩ >>= f) := by
  refine ⟨.inl trivial, fun now => ⟨.inr (.inl ⟨_, rfl⟩), fun value => ?_⟩⟩
  by_cases hv : value = 1
  · subst hv
    exact hlocked _
  · show (robProtocol key self).Follows _ (if value = 1 then _ else _)
      (((if value = 1 then _ else _ : Op RedisLock).bind _).bind f)
    rw [if_neg hv, if_neg hv]
    refine ⟨.inr (.inr (.inl rfl)), fun r => ?_⟩
    cases r with
    | none => trivial
    | some v =>
      show (robProtocol key self).Follows _ .outside (((RedisLock.stoi wire v).bind _).bind f)
      obtain ⟨t, ht⟩ | ht := stoi_cases wire v
      · rw [ht]
        show (robProtocol key self).Follows _ .outside ((if _ then _ else _ : Op RedisLock).bind f)
        split
        · exact ⟨.inr (.inr (.inr ⟨_, rfl⟩)), fun _ => follows_lost_rob _⟩
        · exact hfree t
      · rw [ht]
        trivial

/-- What is done under the lock: the packet is read once, and stored once without the share
that is then credited. -/
theorem follows_robLocked (wire : Wire) (req : ReqRobHongbao) (ml : Option Handle) (h : Handle)
    (e t : Int) :
    (robProtocol req.hongbaokey req.selfname).Follows (fun _ _ => True) .locked
      (robLocked wire req true ml (some h) ⟨some h, req.hongbaokey, e, true, t⟩) := by
  refine ⟨.inr (.inl rfl), fun r => ?_⟩
  rcases r with _ | _ | (p | s | stamp | xs | bs)
  · trivial
  · exact ⟨.inr (.inr rfl), fun _ => trivial⟩
  · show (robProtocol req.hongbaokey req.selfname).Follows _ (.read p)
      (if p.robitem.any (·.name = req.selfname) then _ else
        if p.leftcount = 0 then _ else getRandomMoney _ _ >>= _)
    split
    · exact ⟨.inr (.inl rfl), fun _ => trivial⟩
    split
    · exact ⟨.inr (.inl rfl), fun _ => trivial⟩
    · next hleft =>
      refine follows_getRandomMoney fun g hg => .request (.inl trivial) fun time => ?_
      refine ⟨.inr (.inr ⟨_, g, time, hleft, hg, rfl⟩), fun _ => ?_⟩
      have hwrote : p.leftmoney - (takeShare p req.selfname g time).leftmoney = g :=
        Int.sub_sub_self _ _
      cases ml with
      | none => trivial
      | some hm =>
        refine ⟨.inr ?_, fun _ => ⟨.inr rfl, fun _ => ⟨.inl trivial, fun _ => ⟨.inl trivial, ?_⟩⟩⟩⟩
        · exact congrArg (fun money => Cmd.execute (.addMoney money req.selfname)) hwrote.symm
        · exact fun _ => trivial
  · exact ⟨.inr (.inr rfl), fun _ => trivial⟩
  · exact follows_lost_rob _
  · exact ⟨.inr (.inr rfl), fun _ => trivial⟩
  · exact follows_lost_rob _

/-- A grab follows its protocol. -/
theorem follows_robHongbao (wire : Wire) (req : ReqRobHongbao) :
    (robProtocol req.hongbaokey req.selfname).Follows (fun _ _ => True) .outside
      (robHongbao wire req) := by
  unfold robHongbao
  by_cases hkey : req.hongbaokey = ""
  · rw [if_pos hkey]
    trivial
  rw [if_neg hkey]
  refine .request (.inl trivial) fun ml => .request (.inl trivial) fun manager => ?_
  cases manager with
  | false => trivial
  | true =>
    refine .request (.inl trivial) fun conn => ?_
    cases conn with
    | none => exact ⟨.inl trivial, fun _ => trivial⟩
    | some h =>
      refine follows_lock wire (fun t => follows_robLocked wire req ml h 50000 t) fun t => ?_
      exact ⟨.inl trivial, fun _ => ⟨.inl trivial, fun _ => trivial⟩⟩

end Follows

end IMServer.Business
