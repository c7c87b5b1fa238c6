import IMServer.Business.AtomicTransfers

/-!
# Money operations that are cut short

`RobHongbao` of `server/src/BaseBusiness.cc` under the failures of `AtomicTransfers`, and the three
functions together: in each of them a store call that fails, a statement that is sent again or a
packet that is not read back as it was stored lets the accounts and the packets part.
-/

namespace IMServer.Business

open IMServer.Base

/-! ### `RobHongbao` -/

/-- The grabber is credited with exactly the amount removed from the packet, or nothing is
touched and the answer is no success. -/
def RobAtomic (wire : Wire) (req : ReqRobHongbao) (w : World) :
    Except Abort (Int × RespRobHongbao) → World → Prop
  | .ok (_, resp), w' =>
    if resp.isok then
      Moved req.selfname ((centsLeft (packets wire w.redis req.hongbaokey) -
        centsLeft (packets wire w'.redis req.hongbaokey)) * 10000) w.imUser w'.imUser
    else Untouched wire w w'
  | .error _, w' => Untouched wire w w'

/-- The packet from which a call that has taken the lock takes a share. -/
def robRead (wire : Wire) (req : ReqRobHongbao) (w : World) : Option SendHongbao :=
  if req.hongbaokey ≠ "" ∧ w.outcomeAt 1 = .done ∧ w.outcomeAt 2 = .done ∧ LockFree req w then
    (((w.getAt 4 req.hongbaokey).bind (hongbaoRead (machine wire).toWire)).filter
      fun r => !refused req r).map Prod.snd
  else none

/-- The packet that is read keeps its books, what the grab leaves of it is kept by the store, and
the credit is read as it is meant. -/
def RobExact (wire : Wire) (req : ReqRobHongbao) (w : World) : Prop :=
  ∀ p ∈ robRead wire req w, (∃ c n, Booked c n p) ∧ (leftAfter (machine wire) req p w).Kept ∧
    (creditShare (machine wire) req (grabbed (machine wire) p w)).Meant 1

/-- A call that does not get the lock finds a number below the time under the key of the packet,
and overwrites it. -/
def TakesOver (wire : Wire) (req : ReqRobHongbao) (w : World) : Prop :=
  (req.hongbaokey ≠ "" ∧ w.outcomeAt 1 = .done ∧ w.outcomeAt 2 = .done ∧ ¬ LockFree req w) ∧
    LockExpired (machine wire).toWire req w

/-- How a call ends on the packets and the accounts. -/
inductive GrabEnd (wire : Wire) (req : ReqRobHongbao) (w : World) :
    Except Abort (Int × RespRobHongbao) → World → Prop where
  | refused {res : Except Abort (Int × RespRobHongbao)} {w' : World}
      (read : robRead wire req w = none) (taken : ¬ TakesOver wire req w)
      (answer : ∀ a, res = .ok a → a.2.isok = false)
      (redis : packets wire w'.redis = packets wire w.redis) (imUser : w'.imUser = w.imUser) :
      GrabEnd wire req w res w'
  /-- There is no MySQL connection. -/
  | crashed {w' : World} (p : SendHongbao) (read : robRead wire req w = some p)
      (mysql : w.outcomeAt 0 ≠ .done)
      (redis : packets wire w'.redis = if w.outcomeAt 5 = .done then
        Function.update (packets wire w.redis) req.hongbaokey
          (some (leftAfter (machine wire) req p w)) else packets wire w.redis)
      (imUser : w'.imUser = w.imUser) : GrabEnd wire req w (.error .nullPointer) w'
  | credited {resp : RespRobHongbao} {w' : World} (p : SendHongbao)
      (read : robRead wire req w = some p) (mysql : w.outcomeAt 0 = .done)
      (isok : resp.isok = true)
      (redis : packets wire w'.redis = if w.outcomeAt 5 = .done then
        Function.update (packets wire w.redis) req.hongbaokey
          (some (leftAfter (machine wire) req p w)) else packets wire w.redis)
      (imUser : w'.imUser = addMoney w.imUser
        ((w.outcomeAt 6).times * (grabbed (machine wire) p w * 10000)) req.selfname) :
      GrabEnd wire req w (.ok (0, resp)) w'
  | overwritten {res : Except Abort (Int × RespRobHongbao)} {w' : World}
      (taken : TakesOver wire req w)
      (gone : (machine wire).parseHongbao (leaseEnd 50000 w.now) = none →
        (∀ a, res = .ok a → a.2.isok = false) ∧ packets wire w'.redis req.hongbaokey = none) :
      GrabEnd wire req w res w'

section Rob

variable {wire : Wire} {foreign : Server} {req : ReqRobHongbao} {w : World}

/-- A value is stored next to other packets, unless the call fails. -/
theorem packets_put {b : Ledger} {P : String → Option SendHongbao} (h : packets wire b.redis = P)
    (key : String) (v : RedisValue) :
    packets wire (b.put key v).redis =
      if b.outcome = .done then Function.update P key (v.packet? wire) else P := by
  rw [Ledger.put, ← h]
  split
  · exact packets_insert v
  · rfl

/-- No packet is stored under the key that is deleted. -/
theorem packets_remove {b : Ledger} {P : String → Option SendHongbao}
    (h : packets wire b.redis = P) {key : String} (hk : P key = none) :
    packets wire (b.remove key).redis = P := by
  rw [Ledger.remove]
  split
  · rw [packets_erase, h, ← hk, Function.update_eq_self]
  · exact h

private theorem packets_lockedLedger (h : LockFree req w) :
    packets wire (lockedLedger req w).redis = packets wire w.redis := by
  have hlock : packets wire w.redis _ = none := packets_of_notMem h.2
  refine (packets_put rfl _ _).trans ((if_pos h.1).trans ?_)
  show Function.update (packets wire w.redis) _ none = _
  rw [← hlock, Function.update_eq_self]

/-- Under the lock that `SETNX` has taken. -/
theorem grabEnd_of_locked {w' : World} {res : Except Abort (Int × RespRobHongbao)}
    (htidy : ∀ r ∈ w.imUser, r.Tidy) (hexact : RobExact wire req w)
    (hpre : req.hongbaokey ≠ "" ∧ w.outcomeAt 1 = .done ∧ w.outcomeAt 2 = .done ∧ LockFree req w)
    (h : LockedEnd (machine wire) (textServer 1 foreign) req (decide (w.outcomeAt 0 = .done)) w
      (lockedLedger req w) res w') : GrabEnd wire req w res w' := by
  have hlock : packets wire w.redis _ = none := packets_of_notMem hpre.2.2.2.2
  have hover : ¬ TakesOver wire req w := fun ho => ho.1.2.2.2 hpre.2.2.2
  have hpackets : packets wire (lockedLedger req w).redis = _ := packets_lockedLedger hpre.2.2.2
  have hread : robRead wire req w = (((lockedLedger req w).packet (machine wire) req).filter
      fun r => !refused req r).map Prod.snd := by
    rw [robRead, if_pos hpre, packet_lockedLedger hpre.2.2.2]
  have htaken : ∀ {p : SendHongbao},
      (lockedLedger req w).packet (machine wire) req = some (false, p) →
      refused req (false, p) = false → robRead wire req w = some p := by
    intro p hp hgiven
    rw [hread, hp]
    simp [hgiven]
  have hput : ∀ {p : SendHongbao} {v : RedisValue}, robRead wire req w = some p →
      (machine wire).store (.hongbao (leftAfter (machine wire) req p w)) = some v →
      packets wire ((lockedLedger req w).spend.put req.hongbaokey v).redis =
        if w.outcomeAt 5 = .done then Function.update (packets wire w.redis) req.hongbaokey
          (some (leftAfter (machine wire) req p w)) else packets wire w.redis := by
    intro p v hp hv
    have hkept := (hexact p hp).2.1
    cases hkept.store.symm.trans hv
    rw [← hkept.packet?]
    apply packets_put
    exact hpackets
  cases h with
  | unread read redis imUser =>
    exact .refused (by rw [hread, read]; rfl) hover (by rintro a ⟨⟩)
      ((congrArg (packets wire) redis).trans hpackets) imUser
  | refused r read refused text_ne redis imUser =>
    refine .refused (by rw [hread, read]; simp [refused]) hover (by rintro a ⟨⟩; rfl) ?_ imUser
    rw [redis]
    exact packets_remove (b := (lockedLedger req w).spend) hpackets hlock
  | stuck p read given stuck =>
    obtain ⟨⟨c, n, hbooked⟩, hkept, -⟩ := hexact p (htaken read given)
    exact absurd ⟨fun _ => hbooked.traps wire, hkept.store_ne_none⟩ stuck
  | crashed p v read given stored missing redis imUser =>
    have hp := htaken read given
    exact .crashed p hp (of_decide_eq_false missing) (redis ▸ hput hp stored) imUser
  | taken p v read given divisible stored found redis imUser =>
    have hp := htaken read given
    obtain ⟨⟨c, n, hbooked⟩, -, hmeant⟩ := hexact p hp
    rw [hbooked.creditShare (of_not_refused given).2.2] at hmeant imUser
    rw [iterate_accountsAfter hmeant htidy] at imUser
    refine .credited p hp (of_decide_eq_true found) rfl ?_ imUser
    rw [redis]
    apply packets_remove
    · exact hput hp stored
    split
    · rw [Function.update_of_ne (getLockKey_ne _)]
      exact hlock
    · exact hlock

/-- Where a time is stored that is no packet, a `GET` finds nothing or throws. -/
theorem hongbaoRead_of_stamp {wire : Wire} {b : Ledger} {key : String} {t : Int}
    {r : Bool × SendHongbao} (hb : b.redis.lookup key = some (.stamp t))
    (hparse : wire.parseHongbao t = none) (hr : (b.get key).bind (hongbaoRead wire) = some r) :
    r.1 = true := by
  unfold Ledger.get at hr
  split at hr
  · rw [hb] at hr
    simp [hongbaoRead, RedisValue.string?, hparse] at hr
  · cases hr
  · cases hr
    rfl

/-- Under a lock that was taken over, the time stands where the packet was. -/
theorem grabEnd_of_over {w' : World} {res : Except Abort (Int × RespRobHongbao)}
    (hover : TakesOver wire req w)
    (h : LockedEnd (machine wire) (textServer 1 foreign) req (decide (w.outcomeAt 0 = .done)) w
      (overLedger req w) res w') : GrabEnd wire req w res w' := by
  refine .overwritten hover fun hparse => ?_
  have hlookup : (overLedger req w).redis.lookup req.hongbaokey =
      some (.stamp (leaseEnd 50000 w.now)) := by
    have hredis : (overLedger req w).redis = w.redis.insert _ _ := if_pos hover.2.2
    rw [hredis, AList.lookup_insert]
  have hgone : packets wire (overLedger req w).redis req.hongbaokey = none := by
    rw [packets, hlookup]
    rfl
  have hread : ∀ {p : SendHongbao},
      (overLedger req w).packet (machine wire) req ≠ some (false, p) := by
    intro p hp
    cases hongbaoRead_of_stamp hlookup hparse hp
  cases h with
  | unread read redis => exact ⟨by rintro a ⟨⟩, redis ▸ hgone⟩
  | refused r read refused text_ne redis =>
    refine ⟨by rintro a ⟨⟩; rfl, ?_⟩
    rw [redis, Ledger.remove]
    split
    · rw [packets_erase, Function.update_of_ne (getLockKey_ne _).symm]
      exact hgone
    · exact hgone
  | stuck p read => exact absurd read hread
  | crashed p v read => exact absurd read hread
  | taken p v read => exact absurd read hread

private theorem robHongbao_grabEnd (htidy : ∀ r ∈ w.imUser, r.Tidy) (hexact : RobExact wire req w) :
    Prog.Ends (execWith (textServer 1 foreign)) (GrabEnd wire req w)
      (robHongbao (machine wire) req) w := by
  refine (robHongbao_ends (machine wire) _ req w).mono fun res w' hend => ?_
  cases hend with
  | noKey noKey redis imUser =>
    exact .refused (if_neg fun hd => hd.1 noKey) (fun ho => ho.1.1 noKey) (by rintro a ⟨⟩; rfl)
      (by rw [redis]) imUser
  | missing missing redis imUser =>
    exact .refused (if_neg fun hd => missing ⟨hd.2.1, hd.2.2.1⟩)
      (fun ho => missing ⟨ho.1.2.1, ho.1.2.2.1⟩) (by rintro a ⟨⟩) (by rw [redis]) imUser
  | asked key manager conn asked =>
    cases asked with
    | silent busy held redis imUser =>
      exact .refused (if_neg fun hd => busy hd.2.2.2) (fun ho => held.not_expired ho.2.1)
        (by rintro a ⟨⟩; rfl) (by rw [redis]) imUser
    | thrown busy held expired redis imUser =>
      exact .refused (if_neg fun hd => busy hd.2.2.2) (fun ho => expired ho.2) (by rintro a ⟨⟩)
        (by rw [redis]) imUser
    | free free locked => exact grabEnd_of_locked htidy hexact ⟨key, manager, conn, free⟩ locked
    | overtaken busy expired locked =>
      exact grabEnd_of_over ⟨⟨key, manager, conn, busy⟩, expired⟩ locked

/-- Under the lock both writes reach their place, the credit the one account of the grabber, or
neither changes anything. -/
def RobWrites (req : ReqRobHongbao) (w : World) : Prop :=
  (w.outcomeAt 0 = .done ∧ w.outcomeAt 5 = .done ∧
    Reaches (w.outcomeAt 6) w.imUser req.selfname) ∨
  (w.outcomeAt 5 ≠ .done ∧ (w.outcomeAt 0 ≠ .done ∨ (w.outcomeAt 6).times = 0 ∨
    accounts w.imUser req.selfname = 0))

instance (req : ReqRobHongbao) (w : World) : Decidable (RobWrites req w) :=
  inferInstanceAs (Decidable (_ ∨ _))

/-- The lock is not taken over, and a share is taken from the packet that is stored and with both
writes or none. -/
def RobComplete (wire : Wire) (req : ReqRobHongbao) (w : World) : Prop :=
  ¬ TakesOver wire req w ∧ ∀ p ∈ robRead wire req w,
    packets wire w.redis req.hongbaokey = some p ∧ RobWrites req w

private theorem not_refused_of_robRead {p : SendHongbao} (h : robRead wire req w = some p) :
    refused req (false, p) = false := by
  unfold robRead at h
  split at h
  · obtain ⟨r, hr, rfl⟩ := Option.map_eq_some_iff.mp h
    have hgiven : refused req r = false := by simpa using (Option.filter_eq_some_iff.mp hr).2
    rwa [show (false, r.2) = r from Prod.ext (of_not_refused hgiven).1.symm rfl]
  · cases h

/-- What was removed from a stored packet. -/
theorem centsLeft_sub {w' : World} {p : SendHongbao} (hexact : RobExact wire req w)
    (hread : robRead wire req w = some p) (hp : packets wire w.redis req.hongbaokey = some p)
    (hredis : packets wire w'.redis = if w.outcomeAt 5 = .done then
      Function.update (packets wire w.redis) req.hongbaokey
        (some (leftAfter (machine wire) req p w)) else packets wire w.redis) :
    (centsLeft (packets wire w.redis req.hongbaokey) -
      centsLeft (packets wire w'.redis req.hongbaokey)) * 10000 =
      if w.outcomeAt 5 = .done then grabbed (machine wire) p w * 10000 else 0 := by
  obtain ⟨⟨c, n, hbooked⟩, hkept, -⟩ := hexact p hread
  have hcents : centsOf (leftAfter (machine wire) req p w).leftmoney =
      centsOf p.leftmoney - grabbed (machine wire) p w :=
    congrArg SendHongbao.leftmoney (hbooked.leftAfter (not_refused_of_robRead hread) hkept).2
  rw [hredis, hp]
  split
  · rw [Function.update_self]
    show (centsOf p.leftmoney - centsOf (leftAfter (machine wire) req p w).leftmoney) * 10000 = _
    rw [hcents, Int.sub_sub_self]
  · rw [hp, Int.sub_self, Int.zero_mul]

private theorem moved_share_iff {g : Int} (h0 : w.outcomeAt 0 = .done) :
    Moved req.selfname (if w.outcomeAt 5 = .done then g * 10000 else 0) w.imUser
        (addMoney w.imUser ((w.outcomeAt 6).times * (g * 10000)) req.selfname) ↔
      g = 0 ∨ RobWrites req w := by
  rw [RobWrites]
  by_cases h5 : w.outcomeAt 5 = .done
  · rw [if_pos h5, moved_times_iff]
    simp [h0, h5]
  · rw [if_neg h5, moved_addMoney_iff]
    simp [h0, h5, or_comm, or_left_comm]

private theorem leftAfter_ne (p : SendHongbao) : leftAfter (machine wire) req p w ≠ p := by
  intro h
  have := congrArg (·.robitem.length) h
  simp [leftAfter, takeShare] at this

private theorem robAtomic_of_untouched {w' : World} {res : Except Abort (Int × RespRobHongbao)}
    (h : Untouched wire w w') (answer : ∀ a, res = .ok a → a.2.isok = false) :
    RobAtomic wire req w res w' := by
  cases res with
  | error e => exact h
  | ok a =>
    show if a.2.isok = true then _ else _
    rw [if_neg (by rw [answer a rfl]; decide)]
    exact h

private theorem untouched_of_robAtomic {w' : World} {res : Except Abort (Int × RespRobHongbao)}
    (h : RobAtomic wire req w res w') (answer : ∀ a, res = .ok a → a.2.isok = false) :
    Untouched wire w w' := by
  cases res with
  | error e => exact h
  | ok a =>
    change if a.2.isok = true then _ else _ at h
    rwa [if_neg (by rw [answer a rfl]; decide)] at h

private theorem robAtomic_of_complete
    (htidy : ∀ r ∈ w.imUser, r.Tidy) (hexact : RobExact wire req w)
    (hc : RobComplete wire req w) :
    Prog.Ends (execWith (textServer 1 foreign)) (RobAtomic wire req w)
      (robHongbao (machine wire) req) w := by
  refine (robHongbao_grabEnd htidy hexact).mono fun res w' hend => ?_
  cases hend with
  | refused read taken answer redis imUser =>
    exact robAtomic_of_untouched (.of_eq imUser redis) answer
  | crashed p read mysql redis imUser =>
    obtain ⟨-, ⟨h0, -⟩ | ⟨h5, -⟩⟩ := hc.2 p read
    · exact absurd h0 mysql
    · exact .of_eq imUser (redis.trans (if_neg h5))
  | @credited resp w' p read mysql isok redis imUser =>
    obtain ⟨hp, hwrites⟩ := hc.2 p read
    show if resp.isok = true then _ else _
    rw [if_pos isok, centsLeft_sub hexact read hp redis, imUser, moved_share_iff mysql]
    exact .inr hwrites
  | overwritten taken gone => exact absurd taken hc.1

/-- What is read under the lock where a packet is stored. -/
theorem robRead_of_packets {p q : SendHongbao}
    (hp : packets wire w.redis req.hongbaokey = some p) (hq : robRead wire req w = some q) :
    q = p ∧ LockFree req w := by
  unfold robRead at hq
  split at hq
  · next hpre =>
    refine ⟨?_, hpre.2.2.2⟩
    by_cases h4 : w.outcomeAt 4 = .done
    · rw [getAt_of_done h4, Option.bind_some, read_of_packets hp] at hq
      obtain ⟨r, hr, rfl⟩ := Option.map_eq_some_iff.mp hq
      cases (Option.filter_eq_some_iff.mp hr).1
      rfl
    · rw [getAt_of_failed h4] at hq
      split at hq
      · cases hq
      · simp [hongbaoRead, refused] at hq
  · cases hq

/-- A call on a stored packet that is all or nothing meets the condition, unless the share was
nothing or a time reads as a packet. -/
theorem robComplete_of_atomic {p : SendHongbao} (htidy : ∀ r ∈ w.imUser, r.Tidy)
    (hexact : RobExact wire req w) (hp : packets wire w.redis req.hongbaokey = some p)
    (hatomic : Prog.Ends (execWith (textServer 1 foreign)) (RobAtomic wire req w)
      (robHongbao (machine wire) req) w) :
    RobComplete wire req w ∨ (machine wire).parseHongbao (leaseEnd 50000 w.now) ≠ none ∨
      grabbed (machine wire) p w = 0 := by
  refine (robHongbao_grabEnd htidy hexact).mono (R := fun res w' => RobAtomic wire req w res w' →
    RobComplete wire req w ∨ (machine wire).parseHongbao (leaseEnd 50000 w.now) ≠ none ∨
      grabbed (machine wire) p w = 0) (fun res w' hend ha => ?_) hatomic
  have hover : LockFree req w → ¬ TakesOver wire req w := fun hf ho => ho.1.2.2.2 hf
  have hcomplete : ∀ q, robRead wire req w = some q → RobWrites req w →
      RobComplete wire req w := by
    intro q hq hwrites
    obtain ⟨rfl, hfree⟩ := robRead_of_packets hp hq
    refine ⟨hover hfree, fun q' hq' => ?_⟩
    cases hq.symm.trans hq'
    exact ⟨hp, hwrites⟩
  cases hend with
  | refused read taken answer redis imUser =>
    refine .inl ⟨taken, fun q hq => ?_⟩
    cases read.symm.trans hq
  | crashed q read mysql redis imUser =>
    obtain ⟨rfl, -⟩ := robRead_of_packets hp read
    refine .inl (hcomplete q read (.inr ⟨fun h5 => ?_, .inl mysql⟩))
    have hkept := untouched_of_robAtomic ha (by rintro a ⟨⟩)
    have hsame := congrFun (redis.symm.trans hkept.2) req.hongbaokey
    rw [if_pos h5, Function.update_self, hp] at hsame
    exact leftAfter_ne _ (Option.some.inj hsame)
  | @credited resp w' q read mysql isok redis imUser =>
    obtain ⟨rfl, -⟩ := robRead_of_packets hp read
    change if resp.isok = true then _ else _ at ha
    rw [if_pos isok, centsLeft_sub hexact read hp redis, imUser, moved_share_iff mysql] at ha
    rcases ha with hg | hwrites
    · exact .inr (.inr hg)
    · exact .inl (hcomplete q read hwrites)
  | overwritten taken gone =>
    refine .inr (.inl fun hnone => ?_)
    obtain ⟨answer, hgone⟩ := gone hnone
    rw [(untouched_of_robAtomic ha answer).2, hp] at hgone
    cases hgone

end Rob

/-! ### All or nothing -/

/-- The three functions, from any state with tidy accounts and with any pattern of store calls that
fail and statements that are sent again, where the amounts are exact. `SendHongbao` is all or
nothing exactly when a call that goes on to its writes debits the one account of the sender, once,
and stores the packet; `StopRobHongbao` exactly when a call that deletes a packet refunds the one
account of its sender, once; `RobHongbao` when the lock is not taken over and both of its writes or
neither reach their place, and on a stored packet only then, unless the share was nothing or a time
reads as a packet. -/
theorem money_operations_atomic_iff (wire : Wire) (foreign : Server) (w : World)
    (htidy : ∀ r ∈ w.imUser, r.Tidy) :
    (∀ req, SendExact wire req w →
      (Prog.Ends (execWith (textServer 1 foreign)) (SendAtomic wire req w)
        (sendHongbao (machine wire) req) w ↔ SendComplete wire req w)) ∧
    (∀ req, RobExact wire req w → RobComplete wire req w →
      Prog.Ends (execWith (textServer 1 foreign)) (RobAtomic wire req w)
        (robHongbao (machine wire) req) w) ∧
    (∀ req p, RobExact wire req w → packets wire w.redis req.hongbaokey = some p →
      Prog.Ends (execWith (textServer 1 foreign)) (RobAtomic wire req w)
        (robHongbao (machine wire) req) w →
      RobComplete wire req w ∨ (machine wire).parseHongbao (leaseEnd 50000 w.now) ≠ none ∨
        grabbed (machine wire) p w = 0) ∧
    ∀ key sender, StopExact wire key w →
      (Prog.Ends (execWith (textServer 1 foreign)) (StopAtomic wire key w)
        (stopRobHongbao (machine wire) key sender) w ↔ StopComplete wire key w) :=
  ⟨fun _ => sendAtomic_iff htidy, fun _ => robAtomic_of_complete htidy,
    fun _ _ hexact => robComplete_of_atomic htidy hexact,
    fun _ sender => stopAtomic_iff sender htidy⟩

/-- A request of that user for a packet of some cents in two shares. -/
def aliceSends (cents : Int) : Hongbaoreq :=
  { sender := "alice", money := Amounts.double.ofCents cents, count := 2 }

/-- The two accounts, and a stored packet of 1.00 in two shares. The store calls end as listed. -/
def aliceWithPacket (outcomes : List Outcome) : World :=
  { aliceAndBob with
    oracle := { outcomes := outcomes, draws := [99] }
    redis := aliceAndBob.redis.insert "k" (newHongbao (aliceSends 100)).stored }

def bobRobs : ReqRobHongbao := { hongbaokey := "k", sender := "alice", selfname := "bob" }

/-- The balances after a call, and the cents under a key. -/
def moneyAfter {α : Type} (key : String) (r : Except Abort α × World) : List Int × Int :=
  (r.2.imUser.map (·.money), centsLeft (packets plainWire r.2.redis key))

private theorem sendExact_alice : SendExact plainWire (aliceSends 100) (aliceWithPacket []) where
  whole := by
    rw [show centsOf (aliceSends 100).money = 100 from centsOf_ofCents (by decide)]
    rfl
  small := by
    rw [show centsOf (aliceSends 100).money = 100 from centsOf_ofCents (by decide)]
    decide
  kept := by decide +kernel
  meant := by decide +kernel

/-- The packet of which Bob takes a share. -/
theorem booked_alice : Booked 100 (aliceSends 100).count (newHongbao (aliceSends 100)) :=
  booked_new (by decide +kernel) rfl (by decide) (by decide) (by decide) (by decide)

private theorem robExact_alice : RobExact plainWire bobRobs (aliceWithPacket []) := by
  intro p hp
  have hread : robRead plainWire bobRobs (aliceWithPacket []) =
      some (newHongbao (aliceSends 100)) := by decide +kernel
  cases hread.symm.trans hp
  exact ⟨⟨_, _, booked_alice⟩, by decide +kernel, by decide +kernel⟩

private theorem stopExact_alice : StopExact plainWire "k" (aliceWithPacket []) := by
  intro r hr _
  have hread : stopRead (machine plainWire) "k" (aliceWithPacket []) =
      some (false, newHongbao (aliceSends 100)) := by decide +kernel
  cases hread.symm.trans hr
  exact ⟨booked_alice.kept, booked_alice.whole, by decide +kernel⟩

/-- Calls that all succeed are all or nothing. -/
theorem money_operations_atomic_alice :
    Prog.Ends (execWith (textServer 1 .meant))
      (SendAtomic plainWire (aliceSends 100) (aliceWithPacket []))
      (sendHongbao (machine plainWire) (aliceSends 100)) (aliceWithPacket []) ∧
    Prog.Ends (execWith (textServer 1 .meant)) (RobAtomic plainWire bobRobs (aliceWithPacket []))
      (robHongbao (machine plainWire) bobRobs) (aliceWithPacket []) ∧
    Prog.Ends (execWith (textServer 1 .meant)) (StopAtomic plainWire "k" (aliceWithPacket []))
      (stopRobHongbao (machine plainWire) "k" "alice") (aliceWithPacket []) := by
  have hfree : LockFree bobRobs (aliceWithPacket []) := by decide +kernel
  have hrobbed : RobComplete plainWire bobRobs (aliceWithPacket []) :=
    And.intro (fun hover => hover.1.2.2.2 hfree) (by decide +kernel)
  have hsend := sendExact_alice
  have hrob := robExact_alice
  have hstop := stopExact_alice
  have hsent : SendComplete plainWire (aliceSends 100) (aliceWithPacket []) := by decide +kernel
  have hstopped : StopComplete plainWire "k" (aliceWithPacket []) := by decide +kernel
  have htidy : ∀ r ∈ (aliceWithPacket []).imUser, r.Tidy := by decide +kernel
  -- the runs are not evaluated
  generalize aliceWithPacket [] = w at *
  obtain ⟨hsend', hrob', -, hstop'⟩ := money_operations_atomic_iff plainWire .meant w htidy
  exact ⟨(hsend' _ hsend).mpr hsent, hrob' _ hrob hrobbed, (hstop' _ _ hstop).mpr hstopped⟩

/-- The debit fails and the packet is sent all the same; a debit that is sent again is applied
twice; a packet of 32.99 is stored as one of 32.01; the credit fails and the share is gone; there
is no MySQL connection for the refund and the packet is gone. -/
theorem money_operations_cut_short :
    (let r := Prog.run (execWith (textServer 1 .meant))
      (sendHongbao (machine plainWire) (aliceSends 100))
      (aliceWithPacket [.done, .done, .done, .done, .noReply])
     r.1.toOption.map (·.2.isok) = some true ∧
       moneyAfter "alice_0_HBcount" r = ([100000000, 0], 100)) ∧
    (let r := Prog.run (execWith (textServer 1 .meant))
      (sendHongbao (machine plainWire) (aliceSends 100))
      (aliceWithPacket [.done, .done, .done, .done, .resent])
     r.1.toOption.map (·.2.isok) = some true ∧
       moneyAfter "alice_0_HBcount" r = ([98000000, 0], 100)) ∧
    (let r := Prog.run (execWith (textServer 1 .meant))
      (sendHongbao (machine plainWire) (aliceSends 3299)) (aliceWithPacket [])
     r.1.toOption.map (·.2.isok) = some true ∧
       moneyAfter "alice_0_HBcount" r = ([67010000, 0], 3201)) ∧
    (let r := Prog.run (execWith (textServer 1 .meant)) (robHongbao (machine plainWire) bobRobs)
      (aliceWithPacket [.done, .done, .done, .done, .done, .done, .noReply])
     r.1.toOption.map (·.2.isok) = some true ∧ moneyAfter "k" r = ([100000000, 0], 50)) ∧
    (let r := Prog.run (execWith (textServer 1 .meant))
      (stopRobHongbao (machine plainWire) "k" "alice")
      (aliceWithPacket [.done, .done, .done, .done, .noReply])
     r.1 = .ok () ∧ packets plainWire r.2.redis "k" = none ∧
       moneyAfter "k" r = ([100000000, 0], 0)) := by
  decide +kernel

end IMServer.Business
