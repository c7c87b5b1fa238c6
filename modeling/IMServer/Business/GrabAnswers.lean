import IMServer.Business.Calls
import IMServer.Business.Machine

/-!
# The answer to a grab

`RobHongbao` of `server/src/BaseBusiness.cc:508–621` with the lock of `server/src/RedisLock.h`,
when every store call succeeds: for every format, every key, every value stored under it, every
state of the lock key and every time, whether it answers and gives the lock back.
-/

namespace IMServer.Business

open IMServer.Base

/-- The lock object of a grab comes back locked; `BaseBusiness.cc:525–535`. -/
def Acquires (wire : Wire) (req : ReqRobHongbao) (w : World) : Prop :=
  req.hongbaokey ≠ "" ∧
    Prog.Ends exec (fun res _ => ∃ l, res = .ok l ∧ l.locked = true)
      (do
        let _ ← issue .getConnection
        let manager ← issue .getInstance
        let conn ← getCacheConn manager req.sender
        RedisLock.lock wire ⟨conn, req.hongbaokey, 50000, false, 0⟩) w

/-- The grab returns, its answer has a text, and a lock that it took is free again. -/
def Answers (wire : Wire) (req : ReqRobHongbao) (w : World) :
    Except Abort (Int × RespRobHongbao) → World → Prop
  | .ok (_, resp), w' => resp.description ≠ "" ∧
    (Acquires wire req w → RedisLock.getLockKey req.hongbaokey ∉ w'.redis)
  | .error _, _ => False

/-- A value reads as a packet of which no share is taken, or of which one can be taken: the division
of `getRandomMoney` does not trap, and the packet that is left fits into the array of `setpb`. -/
def Grabbable (fmt : Format) (req : ReqRobHongbao) (w : World) (value : Option RedisValue) : Prop :=
  ∃ r, hongbaoRead fmt.toWire value = some r ∧ (refused req r = false → Divisible fmt req r.2 w)

/-- The lock key is free and what is stored can be grabbed, or the lock key is held, what is stored
is a number below the time, and the time that is written over it can be grabbed. -/
def Answerable (fmt : Format) (req : ReqRobHongbao) (w : World) : Prop :=
  if RedisLock.getLockKey req.hongbaokey ∉ w.redis then
    Grabbable fmt req w (w.redis.lookup req.hongbaokey)
  else Expired fmt.toWire (w.redis.lookup req.hongbaokey) w.now ∧
    Grabbable fmt req w (some (.stamp (leaseEnd 50000 w.now)))

/-- When every store call succeeds, the lock is taken over where a number below the time is
stored. -/
theorem lockExpired_iff {wire : Wire} {req : ReqRobHongbao} {w : World} (hc : Calm w) :
    LockExpired wire req w ↔ Expired wire (w.redis.lookup req.hongbaokey) w.now := by
  have hget := getAt_of_done (outcomeAt_calm hc 4) req.hongbaokey
  constructor
  · rintro ⟨⟨v, hv, n, hn, hlt⟩, -⟩
    cases hget.symm.trans hv
    exact ⟨n, (readsAs_string wire _).symm.trans hn, hlt⟩
  · rintro ⟨n, hn, hlt⟩
    exact ⟨⟨_, hget, n, (readsAs_string wire _).trans hn, hlt⟩, outcomeAt_calm hc 5⟩

/-- A grab that holds the lock answers and gives it back exactly if what it reads can be
grabbed. -/
theorem answers_locked_iff {fmt : Format} {req : ReqRobHongbao} {w w' : World} {b : Ledger}
    {res : Except Abort (Int × RespRobHongbao)} {value : Option RedisValue}
    (h : LockedEnd fmt .meant req true w b res w')
    (hread : b.packet fmt req = hongbaoRead fmt.toWire value) (hrefused : b.spend.outcome = .done)
    (htaken : b.spend.spend.spend.outcome = .done) :
    Answers fmt.toWire req w res w' ↔ Grabbable fmt req w value := by
  have hfree : ∀ redis : AList fun _ : String => RedisValue,
      w'.redis = redis.erase (RedisLock.getLockKey req.hongbaokey) →
      RedisLock.getLockKey req.hongbaokey ∉ w'.redis := by
    intro redis hredis
    rw [hredis, AList.mem_erase]
    exact fun hmem => hmem.1 rfl
  unfold Grabbable
  rw [← hread]
  cases h with
  | unread read =>
    refine iff_of_false id ?_
    rintro ⟨r, hr, -⟩
    cases read.symm.trans hr
  | refused r read refused text_ne redis =>
    refine iff_of_true ⟨text_ne, fun _ => hfree _ (redis.trans (if_pos hrefused))⟩
      ⟨r, read, fun hgiven => ?_⟩
    rw [refused] at hgiven
    cases hgiven
  | stuck p read given stuck =>
    refine iff_of_false id ?_
    rintro ⟨r, hr, hdivisible⟩
    cases read.symm.trans hr
    exact stuck (hdivisible given)
  | crashed p v read given stored missing => cases missing
  | taken p v read given divisible stored found redis =>
    have htext : "congratulation" ≠ "" := by decide
    exact iff_of_true ⟨htext, fun _ => hfree _ (redis.trans (if_pos htaken))⟩
      ⟨_, read, fun _ => divisible⟩

/-- A packet of ten cents in two shares. -/
def tenCents : SendHongbao := newHongbao { money := Amounts.double.ofCents 10, count := 2 }

/-- That packet under the key, and a lock key that is free or held. -/
def grabbedPacket (held : Bool) : World :=
  let redis := (∅ : AList fun _ : String => RedisValue).insert "k" tenCents.stored
  { redis := if held then redis.insert "k_Lock" (.stamp 50001) else redis }

end IMServer.Business
