import IMServer.Business.Conservation

/-!
# Sending and ending a packet, cut short

`SendHongbao` and `StopRobHongbao` of `server/src/BaseBusiness.cc` each write to MySQL and to Redis
and look at the result of neither. Each of them runs alone, over the bytes and `double`s of the
source, from any state and with any of its store calls failing or its statements sent twice. MySQL
is given texts: what it does with one that is not read as it is meant is up to a server that
nothing is known of. Where the amounts are whole cents that are stored and printed exactly, and the
texts are read as they are meant, the theorems say for which patterns of failures the accounts and
the packets move together.
-/

namespace IMServer.Business

open IMServer.Base IMServer.Cache

/-! ### Packets -/

/-- The packet a value is read as. -/
def RedisValue.packet? (wire : Wire) : RedisValue → Option SendHongbao
  | .hongbao p => some p
  | .bytes (b :: bs) => (machine wire).parseHongbaoBytes (b :: bs)
  | _ => none

/-- The packets that are stored. -/
def packets (wire : Wire) (redis : AList fun _ : String => RedisValue) (key : String) :
    Option SendHongbao :=
  (redis.lookup key).bind (RedisValue.packet? wire)

/-- The cents that are left in a packet. -/
def centsLeft (p : Option SendHongbao) : Int := p.elim 0 fun p => centsOf p.leftmoney

section Packets

variable {wire : Wire} {redis : AList fun _ : String => RedisValue} {key : String}

/-- A value is stored. -/
theorem packets_insert (v : RedisValue) :
    packets wire (redis.insert key v) =
      Function.update (packets wire redis) key (v.packet? wire) := by
  ext1 k
  by_cases hk : k = key
  · subst hk
    rw [packets, AList.lookup_insert, Function.update_self]
    rfl
  · rw [packets, AList.lookup_insert_ne hk, Function.update_of_ne hk]
    rfl

/-- A key is deleted. -/
theorem packets_erase :
    packets wire (redis.erase key) = Function.update (packets wire redis) key none := by
  ext1 k
  by_cases hk : k = key
  · subst hk
    rw [packets, AList.lookup_erase, Function.update_self]
    rfl
  · rw [packets, AList.lookup_erase_ne hk, Function.update_of_ne hk]
    rfl

/-- No key, no packet. -/
theorem packets_of_notMem (h : key ∉ redis) : packets wire redis key = none := by
  rw [packets, AList.lookup_eq_none.mpr h]
  rfl

/-- A kept packet is the one that is stored. -/
theorem SendHongbao.Kept.packet? {p : SendHongbao} (h : p.Kept) :
    p.stored.packet? wire = some p := by
  have hread : hongbaoRead (machine wire).toWire (some p.stored) = some (false, p) := h.read
  unfold SendHongbao.stored at hread ⊢
  cases hs : p.serialize.map maskZero with
  | nil =>
    rw [hs] at hread
    cases hread
  | cons b bs =>
    rw [hs] at hread
    obtain ⟨q, hq, he⟩ := Option.map_eq_some_iff.mp hread
    cases he
    exact hq

/-- What `GET` returns for a stored packet is read as it. -/
theorem read_of_packets {p : SendHongbao} (h : packets wire redis key = some p) :
    hongbaoRead (machine wire).toWire ((redis.lookup key).bind RedisValue.string?) =
      some (false, p) := by
  obtain ⟨v, hv, hp⟩ := Option.bind_eq_some_iff.mp h
  rw [hv]
  rcases v with q | s | t | xs | (_ | ⟨b, bs⟩)
  · cases hp
    rfl
  · cases hp
  · cases hp
  · cases hp
  · cases hp
  · show Option.map _ ((machine wire).parseHongbaoBytes (b :: bs)) = _
    rw [show (machine wire).parseHongbaoBytes (b :: bs) = some p from hp]
    rfl

end Packets

/-- Balances and packets are as before. -/
def Untouched (wire : Wire) (w w' : World) : Prop :=
  (∀ n, balance w'.imUser n = balance w.imUser n) ∧ packets wire w'.redis = packets wire w.redis

/-- Accounts that are the same have the same balances. -/
theorem Untouched.of_eq {wire : Wire} {w w' : World} (hi : w'.imUser = w.imUser)
    (hp : packets wire w'.redis = packets wire w.redis) : Untouched wire w w' :=
  ⟨fun _ => by rw [hi], hp⟩

/-- A statement on a balance that is read as it is meant, applied several times. -/
theorem iterate_accountsAfter {foreign : Server} {amount : Int} {name : String}
    (hmeant : (Statement.addMoney amount name).Meant 1) {users : List IMUser}
    (htidy : ∀ r ∈ users, r.Tidy) (n : Nat) :
    ((textServer 1 foreign).accountsAfter (.addMoney amount name))^[n] users =
      addMoney users (n * amount) name := by
  induction n with
  | zero =>
    rw [Nat.cast_zero, Int.zero_mul, addMoney_zero]
    rfl
  | succ n ih =>
    rw [Function.iterate_succ_apply', ih, Nat.cast_succ, Int.add_mul, Int.one_mul,
      ← addMoney_addMoney]
    have htidy' := @tidy_apply (.addMoney (n * amount) name) hmeant.1 { imUser := users } htidy
    have hrefuses : (textServer 1 foreign).refuses (.addMoney amount name) = false := by
      simp [textServer, hmeant]
    unfold Server.accountsAfter World.applyBy
    rw [hrefuses]
    exact if_pos ⟨hmeant, htidy'⟩

/-! ### `SendHongbao` -/

/-- The sender is debited by exactly the amount and the packet is stored, or nothing is touched
and the answer is no success. -/
def SendAtomic (wire : Wire) (req : Hongbaoreq) (w : World) :
    Except Abort (Int × HongbaoResp) → World → Prop
  | .ok (_, resp), w' =>
    if resp.isok then
      Moved req.sender (-(centsOf req.money * 10000)) w.imUser w'.imUser ∧
        packets wire w'.redis resp.hongbaokey = some (newHongbao req)
    else Untouched wire w w'
  | .error _, w' => Untouched wire w w'

/-- The session with which a call goes on to the debit. -/
def sendSession (wire : Wire) (req : Hongbaoreq) (w : World) : Option Session :=
  (sendRead (machine wire) req w).filter fun s => !poor req s (machine wire).toAmounts

/-- The amount is a number of cents, the packet is kept, and the debit is read as it is meant. -/
structure SendExact (wire : Wire) (req : Hongbaoreq) (w : World) : Prop where
  whole : req.money = Amounts.double.ofCents (centsOf req.money)
  small : Small (centsOf req.money)
  kept : (newHongbao req).Kept
  meant : ∀ s ∈ sendSession wire req w,
    (debit (machine wire) req.money s.userinfo.name).Meant 1

section Send

variable {wire : Wire} {foreign : Server} {req : Hongbaoreq} {w : World}

/-- When a call goes on to its writes, the debit reaches the one account of the sender, and the
packet is stored, or was stored before. -/
def SendComplete (wire : Wire) (req : Hongbaoreq) (w : World) : Prop :=
  ∀ s ∈ sendSession wire req w,
    (centsOf req.money = 0 ∨ s.userinfo.name = req.sender ∧
      Reaches (w.outcomeAt 4) w.imUser req.sender) ∧
    (w.outcomeAt 5 = .done ∨
      packets wire w.redis (hongbaoKey req.sender w.now) = some (newHongbao req))
  deriving Decidable

/-- The debit is exact only on the one account of the sender. -/
theorem moved_debit_iff {users : List IMUser} {sender name : String} {cents : Int} {o : Outcome} :
    Moved sender (-(cents * 10000)) users (addMoney users (o.times * -(cents * 10000)) name) ↔
      cents = 0 ∨ name = sender ∧ Reaches o users sender := by
  by_cases hname : name = sender
  · subst hname
    rw [moved_times_iff]
    simp
  · by_cases hc : cents = 0
    · simp [hc, addMoney_zero, moved_self_iff]
    refine iff_of_false (fun h => ?_) (by simp [hname, hc])
    have := h.eq_zero (Ne.symm hname)
    omega

/-- `SendHongbao` is all or nothing exactly when it is complete. -/
theorem sendAtomic_iff (htidy : ∀ r ∈ w.imUser, r.Tidy) (hexact : SendExact wire req w) :
    Prog.Ends (execWith (textServer 1 foreign)) (SendAtomic wire req w)
      (sendHongbao (machine wire) req) w ↔ SendComplete wire req w := by
  have hkept : ∀ {res : Except Abort (Int × HongbaoResp)} {w' : World},
      sendSession wire req w = none → (∀ a, res = .ok a → a.2.isok = false) →
      w'.redis = w.redis → w'.imUser = w.imUser →
      (SendAtomic wire req w res w' ↔ SendComplete wire req w) := by
    intro res w' session answer redis imUser
    refine iff_of_true ?_ fun s hs => ?_
    · have hkept : Untouched wire w w' := .of_eq imUser (by rw [redis])
      cases res with
      | error e => exact hkept
      | ok a =>
        show if a.2.isok = true then _ else _
        rw [if_neg (by rw [answer a rfl]; decide)]
        exact hkept
    · rw [session] at hs
      cases hs
  refine (sendHongbao_ends (machine wire) _ req w).iff_of fun res w' hend => ?_
  cases hend with
  | failed read answer redis imUser =>
    exact hkept (by rw [sendSession, read]; rfl) answer redis imUser
  | poor s read short redis imUser =>
    exact hkept (by rw [sendSession, read]; simp [short]) (by rintro a ⟨⟩; rfl) redis imUser
  | overrun s read covered stored => exact absurd stored hexact.kept.store_ne_none
  | sent s v read covered stored redis imUser =>
    have hsession : sendSession wire req w = some s := by
      rw [sendSession, read]
      simp [covered]
    have hdebit := debit_whole hexact.whole hexact.small wire s.userinfo.name
    have hmeant := hexact.meant s hsession
    rw [hdebit] at hmeant imUser
    rw [iterate_accountsAfter hmeant htidy] at imUser
    cases hexact.kept.store.symm.trans stored
    have hstore : packets wire w'.redis (hongbaoKey req.sender w.now) = some (newHongbao req) ↔
        w.outcomeAt 5 = .done ∨
          packets wire w.redis (hongbaoKey req.sender w.now) = some (newHongbao req) := by
      rw [redis]
      split
      · next h5 =>
        rw [packets_insert, Function.update_self]
        simp [h5, hexact.kept.packet?]
      · next h5 => simp [h5]
    show _ ∧ _ ↔ _
    rw [imUser, moved_debit_iff, hstore, SendComplete, hsession]
    simp

end Send

/-! ### `StopRobHongbao` -/

/-- A packet with shares left is removed only if its sender is refunded exactly what is left. -/
def StopAtomic (wire : Wire) (key : String) (w : World) (_ : Except Abort Unit) (w' : World) :
    Prop :=
  ∀ p ∈ packets wire w.redis key, 0 < p.leftcount → packets wire w'.redis key = none →
    Moved p.sender (centsOf p.leftmoney * 10000) w.imUser w'.imUser

/-- What is left in the packet that is read is a number of cents, and the refund is read as it is
meant. -/
def StopExact (wire : Wire) (key : String) (w : World) : Prop :=
  ∀ r ∈ stopRead (machine wire) key w, r.2.leftcount ≠ 0 →
    r.2.Kept ∧ r.2.Whole ∧ (refundLeft (machine wire) r.2).Meant 1

section Stop

variable {wire : Wire} {foreign : Server} {key : String} {w : World}

/-- When a call deletes the key of a packet with money and shares left, it has read the packet,
has a MySQL connection, and the refund reaches the one account of the sender. -/
def StopComplete (wire : Wire) (key : String) (w : World) : Prop :=
  ∀ p ∈ packets wire w.redis key, 0 < p.leftcount →
    w.outcomeAt 0 = .done → w.outcomeAt 1 = .done → w.outcomeAt 2 ≠ .noInit →
    w.outcomeAt 3 = .done →
    centsOf p.leftmoney = 0 ∨ w.outcomeAt 2 = .done ∧ w.outcomeAt 4 = .done ∧
      Reaches (w.outcomeAt 6) w.imUser p.sender
  deriving Decidable

/-- A `GET` that fails throws, or reads nothing. -/
theorem getAt_of_failed {n : Nat} (ho : w.outcomeAt n ≠ .done) (key : String) :
    w.getAt n key = if w.outcomeAt n = .noInit then none else some none := by
  have hget : w.getAt n key = (Ledger.spend^[n] w.ledger).get key := rfl
  have houtcome : (Ledger.spend^[n] w.ledger).outcome = w.outcomeAt n := rfl
  rw [hget, Ledger.get, houtcome]
  cases hn : w.outcomeAt n with
  | done => exact absurd hn ho
  | _ => rfl

/-- What the end of a stored packet has read, and what follows for the refund. -/
theorem moved_refund_iff {p : SendHongbao} {r : Bool × SendHongbao} {users : List IMUser}
    (hp : packets wire w.redis key = some p) (hleft : 0 < p.leftcount)
    (hread : (w.getAt 2 key).bind (hongbaoRead (machine wire).toWire) = some r)
    (himUser : users = if w.outcomeAt 4 = .done ∧ r.2.leftcount ≠ 0 then
      addMoney w.imUser ((w.outcomeAt 6).times * (centsOf r.2.leftmoney * 10000)) r.2.sender
      else w.imUser) :
    Moved p.sender (centsOf p.leftmoney * 10000) w.imUser users ↔
      centsOf p.leftmoney = 0 ∨ w.outcomeAt 2 = .done ∧ w.outcomeAt 4 = .done ∧
        Reaches (w.outcomeAt 6) w.imUser p.sender := by
  by_cases h2 : w.outcomeAt 2 = .done
  · rw [getAt_of_done h2, Option.bind_some, read_of_packets hp] at hread
    cases hread
    rw [himUser]
    split
    · next hd =>
      rw [moved_times_iff]
      simp [h2, hd.1]
    · next hd =>
      rw [moved_self_iff]
      have h4 : w.outcomeAt 4 ≠ .done := fun h4 => hd ⟨h4, hleft.ne'⟩
      simp [h4]
  · rw [getAt_of_failed h2] at hread
    split at hread
    · cases hread
    · cases hread
      rw [himUser, if_neg fun hd => hd.2 rfl, moved_self_iff]
      simp [h2]

/-- `StopRobHongbao` is all or nothing exactly when it is complete. -/
theorem stopAtomic_iff (sender : String) (htidy : ∀ r ∈ w.imUser, r.Tidy)
    (hexact : StopExact wire key w) :
    Prog.Ends (execWith (textServer 1 foreign)) (StopAtomic wire key w)
      (stopRobHongbao (machine wire) key sender) w ↔ StopComplete wire key w := by
  refine (stopRobHongbao_ends (machine wire) _ key sender w).iff_of fun res w' hend => ?_
  unfold StopAtomic StopComplete
  refine forall_congr' fun p => forall_congr' fun hp => forall_congr' fun hleft => ?_
  rw [Option.mem_def] at hp
  cases hend with
  | aborted read redis =>
    constructor
    · intro _ h0 h1 h2 _
      rw [stopRead, if_pos ⟨h0, h1⟩] at read
      by_cases ho : w.outcomeAt 2 = .done
      · rw [getAt_of_done ho, Option.bind_some, read_of_packets hp] at read
        cases read
      · rw [getAt_of_failed ho, if_neg h2] at read
        cases read
    · intro _ hnone
      rw [redis, hp] at hnone
      cases hnone
  | ended r read redis imUser =>
    obtain ⟨⟨h0, h1⟩, hread⟩ : (w.outcomeAt 0 = .done ∧ w.outcomeAt 1 = .done) ∧
        (w.getAt 2 key).bind (hongbaoRead (machine wire).toWire) = some r := by
      unfold stopRead at read
      split at read
      · next hd => exact ⟨hd, read⟩
      · cases read
    have h2 : w.outcomeAt 2 ≠ .noInit := by
      intro h2
      rw [getAt_of_failed (by rw [h2]; decide), if_pos h2] at hread
      cases hread
    have hgone : packets wire w'.redis key = none ↔ w.outcomeAt 3 = .done := by
      rw [redis]
      split
      · next h3 =>
        rw [packets_erase, Function.update_self]
        simp [h3]
      · next h3 => simp [h3, hp]
    have hrefunded : w'.imUser = if w.outcomeAt 4 = .done ∧ r.2.leftcount ≠ 0 then
        addMoney w.imUser ((w.outcomeAt 6).times * (centsOf r.2.leftmoney * 10000)) r.2.sender
        else w.imUser := by
      rw [imUser]
      split
      · next hd =>
        obtain ⟨hkept, hwhole, hmeant⟩ := hexact r read hd.2
        rw [hwhole.refundLeft hkept] at hmeant ⊢
        exact iterate_accountsAfter hmeant htidy _
      · rfl
    rw [hgone, moved_refund_iff hp hleft hread hrefunded]
    simp only [h0, h1, h2, ne_eq, not_false_eq_true, forall_true_left]

end Stop

end IMServer.Business
