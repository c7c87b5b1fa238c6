import IMServer.Business.Accounting
import IMServer.Business.Accounts

/-!
# Where money goes

Any calls of `SendHongbao`, `RobHongbao` and `StopRobHongbao` one after the other, over the bytes
and `double`s of the source, every store call succeeding and every packet that is written kept by
the store. The balances and the money in stored packets add up to the same sum before and after
every call exactly when no packet that still holds money is overwritten by a new one under the same
key, and none is deleted as emptied. A packet that is not kept loses money by itself.
-/

namespace IMServer.Business

open IMServer.Base

/-- A call of one of the three functions. -/
inductive HongbaoCall where
  | send (req : Hongbaoreq)
  | rob (req : ReqRobHongbao)
  | stop (key sender : String)
  deriving DecidableEq, Repr

/-- Run a call to its end; `none` when it does not return. -/
def callStep (fmt : Format) (w : World) : HongbaoCall → Option World
  | .send req => returned (Prog.run exec (sendHongbao fmt req) w)
  | .rob req => returned (Prog.run exec (robHongbao fmt req) w)
  | .stop key sender => returned (Prog.run exec (stopRobHongbao fmt key sender) w)

/-! ### Money in packets -/

/-- The cents in a value, as a packet. -/
def packetMoney (wire : Wire) (v : RedisValue) : Int :=
  (hongbaoRead (machine wire).toWire (some v)).elim 0 fun r => centsOf r.2.leftmoney

/-- The cents under a key. -/
def moneyUnder (wire : Wire) (w : World) (key : String) : Int :=
  (w.redis.lookup key).elim 0 (packetMoney wire)

/-- The balances and the money in packets, in millionths. -/
def moneyHeld (wire : Wire) (w : World) : Int :=
  balances w.imUser + 10000 * sumValues (packetMoney wire) w.redis

/-- A packet that is kept, of a registered sender, with its books. -/
def Held (names : List String) (v : RedisValue) : Prop :=
  ∃ p c n, v = SendHongbao.stored p ∧ Booked c n p ∧ Registered names p.sender

/-- A value that is read as a packet without shares and without money. -/
def Idle (wire : Wire) (v : RedisValue) : Prop :=
  ∃ r ∈ hongbaoRead (machine wire).toWire (some v),
    r.2.leftcount = 0 ∧ centsOf r.2.leftmoney = 0
  deriving Decidable

private theorem packetMoney_stored {wire : Wire} {p : SendHongbao} (h : p.Kept) :
    packetMoney wire p.stored = centsOf p.leftmoney := by
  rw [packetMoney, h.read]
  rfl

/-- Between calls: no lock is held, every session that is read names a registered user, and what is
stored elsewhere is a packet or holds no money. -/
structure Settled (wire : Wire) (names : List String) (w : World) : Prop where
  calm : w.oracle.outcomes = []
  names_eq : w.imUser.map (·.name) = names
  no_lock : ∀ k, w.redis.lookup (RedisLock.getLockKey k) = none
  session : ∀ name, ∃ s, sessionRead (machine wire).toWire (w.redis.lookup (sessionKey name)) =
    some s ∧ (s = {} ∨ Registered names s.userinfo.name)
  value : ∀ k v, w.redis.lookup k = some v →
    Idle wire v ∨ (∀ name, k ≠ sessionKey name) ∧ Held names v

namespace Settled

variable {wire : Wire} {names : List String} {w w' : World}

/-- A step that stores at most one packet, under a key that is neither that of a lock nor that of a
session, and deletes values, keeps the world settled. -/
theorem of_lookup (h : Settled wire names w) (hc : w'.oracle.outcomes = [])
    (hn : w'.imUser.map (·.name) = w.imUser.map (·.name))
    (hnew : ∀ k v, w'.redis.lookup k = some v → w.redis.lookup k = some v ∨
      (∀ k', k ≠ RedisLock.getLockKey k') ∧ (∀ name, k ≠ sessionKey name) ∧ Held names v) :
    Settled wire names w' where
  calm := hc
  names_eq := hn.trans h.names_eq
  no_lock k := by
    rw [Option.eq_none_iff_forall_ne_some]
    intro v hv
    rcases hnew _ v hv with hold | ⟨hne, -⟩
    · rw [h.no_lock k] at hold
      cases hold
    · exact hne k rfl
  session name := by
    cases hv : w'.redis.lookup (sessionKey name) with
    | none => exact ⟨{}, rfl, .inl rfl⟩
    | some v =>
      rcases hnew _ v hv with hold | ⟨-, hne, -⟩
      · rw [← hold]
        exact h.session name
      · exact absurd rfl (hne name)
  value k v hv := by
    rcases hnew k v hv with hold | ⟨-, hne, hheld⟩
    · exact h.value k v hold
    · exact .inr ⟨hne, hheld⟩

/-- What is under a key can be read as a packet. -/
theorem read (h : Settled wire names w) (key : String) :
    ∃ r, hongbaoRead (machine wire).toWire (w.redis.lookup key) = some r ∧
      (r.2.leftcount = 0 ∧ centsOf r.2.leftmoney = 0 ∨
        ∃ p c n, r = (false, p) ∧ w.redis.lookup key = some p.stored ∧ Booked c n p ∧
          Registered names p.sender ∧ ∀ name, key ≠ sessionKey name) := by
  cases hv : w.redis.lookup key with
  | none => exact ⟨(true, {}), rfl, .inl ⟨rfl, centsOf_zero⟩⟩
  | some v =>
    rcases h.value key v hv with ⟨r, hread, hcount, hzero⟩ | ⟨hne, p, c, n, rfl, hbooked, hreg⟩
    · exact ⟨r, hread, .inl ⟨hcount, hzero⟩⟩
    · exact ⟨(false, p), hbooked.kept.read, .inr ⟨p, c, n, rfl, rfl, hbooked, hreg, hne⟩⟩

end Settled

/-! ### Calls -/

/-- A call by registered users, with an amount of positive cents that no draw overflows and at
least one share. -/
def HongbaoCall.Proper (names : List String) : HongbaoCall → Prop
  | .send req => Registered names req.sender ∧
    req.money = Amounts.double.ofCents (centsOf req.money) ∧ 0 < centsOf req.money ∧
    centsOf req.money * 199 < 2 ^ 31 ∧ 1 ≤ req.count ∧ req.count < 2 ^ 31
  | .rob req => Registered names req.selfname
  | .stop _ _ => True

instance (names : List String) (call : HongbaoCall) : Decidable (call.Proper names) :=
  match call with
  | .send _ => inferInstanceAs (Decidable (_ ∧ _ ∧ _ ∧ _ ∧ _ ∧ _))
  | .rob _ => inferInstanceAs (Decidable (Registered _ _))
  | .stop _ _ => inferInstanceAs (Decidable True)

/-- The packet that the call writes has no byte `~` and fits in the array. -/
def HongbaoCall.WritesKept (wire : Wire) (w : World) : HongbaoCall → Prop
  | .send req => (newHongbao req).Kept
  | .rob req => ∀ r ∈ hongbaoRead (machine wire).toWire (w.redis.lookup req.hongbaokey),
    refused req r = false → (leftAfter (machine wire) req r.2 w).Kept
  | .stop _ _ => True

instance (wire : Wire) (w : World) (call : HongbaoCall) : Decidable (call.WritesKept wire w) :=
  match call with
  | .send req => inferInstanceAs (Decidable (newHongbao req).Kept)
  | .rob req => inferInstanceAs (Decidable (∀ r ∈ hongbaoRead (machine wire).toWire
      (w.redis.lookup req.hongbaokey), refused req r = false →
        (leftAfter (machine wire) req r.2 w).Kept))
  | .stop _ _ => inferInstanceAs (Decidable True)

/-- A new packet finds no money under its key, and a packet that is deleted without a refund
holds none. -/
def HongbaoCall.Keeps (wire : Wire) (w : World) : HongbaoCall → Prop
  | .send req =>
    ∀ s ∈ sessionRead (machine wire).toWire (w.redis.lookup (sessionKey req.sender)),
      poor req s (machine wire).toAmounts = false →
        moneyUnder wire w (hongbaoKey req.sender w.now) = 0
  | .rob _ => True
  | .stop key _ =>
    ∀ r ∈ hongbaoRead (machine wire).toWire (w.redis.lookup key),
      r.2.leftcount = 0 → centsOf r.2.leftmoney = 0

section Call

variable {wire : Wire} {names : List String} {w : World}

/-- A request for a packet keeps the sum exactly when it overwrites no money. -/
theorem send_keeps_iff (h : Settled wire names w) {req : Hongbaoreq}
    (hp : (HongbaoCall.send req).Proper names)
    (hkept : (HongbaoCall.send req).WritesKept wire w) :
    ∃ w', callStep (machine wire) w (.send req) = some w' ∧ Settled wire names w' ∧
      (moneyHeld wire w' = moneyHeld wire w ↔ (HongbaoCall.send req).Keeps wire w) := by
  obtain ⟨hreg, hmoney, hpos, hmax, hn, hn'⟩ := hp
  have hkept : (newHongbao req).Kept := hkept
  have hsmall : Small (centsOf req.money) := ⟨by omega, by omega⟩
  obtain ⟨s, hs, hname⟩ := h.session req.sender
  obtain ⟨res, w', hrun, hc, hstep⟩ := sendHongbao_spec (machine wire) req h.calm hs
    fun _ => hkept.store_ne_none
  refine ⟨w', by rw [callStep, hrun]; rfl, ?_⟩
  have hkeeps : (HongbaoCall.send req).Keeps wire w ↔
      ((machine wire).short s.userinfo.money req.money = false →
        moneyUnder wire w (hongbaoKey req.sender w.now) = 0) := by
    rw [HongbaoCall.Keeps, hs]
    simp only [Option.mem_def, Option.some.injEq, forall_eq', poor]
  rw [hkeeps]
  cases hstep with
  | refused short redis imUser =>
    refine ⟨h.of_lookup hc (by rw [imUser]) fun k v hv => .inl (redis ▸ hv), ?_⟩
    rw [moneyHeld, moneyHeld, redis, imUser, short]
    simp
  | sent v covered stored redis imUser =>
    rw [hkept.store] at stored
    cases stored
    -- a session that is not there covers nothing
    have hname : Registered (w.imUser.map (·.name)) s.userinfo.name := by
      rw [h.names_eq]
      refine hname.resolve_left ?_
      rintro rfl
      rw [hmoney] at covered
      exact absurd ((short_zero hpos hsmall).symm.trans covered) (by decide)
    rw [debit_whole hmoney hsmall] at imUser
    have hnames : w'.imUser.map (·.name) = w.imUser.map (·.name) := by
      rw [imUser, World.imUser_addMoney, names_addMoney]
    refine ⟨h.of_lookup hc hnames fun k v hv => ?_, ?_⟩
    · rw [redis] at hv
      by_cases hk : k = hongbaoKey req.sender w.now
      · subst hk
        rw [AList.lookup_insert] at hv
        exact .inr ⟨hongbaoKey_ne_getLockKey _ _, hongbaoKey_ne_sessionKey _ _, _, _, _,
          (Option.some.inj hv).symm, booked_new hkept hmoney hpos.le hmax (by omega) hn', hreg⟩
      · rw [AList.lookup_insert_ne hk] at hv
        exact .inl hv
    · have hnew : packetMoney wire (newHongbao req).stored = centsOf req.money :=
        packetMoney_stored hkept
      rw [moneyHeld, moneyHeld, redis, imUser, World.imUser_addMoney,
        hname.balances_addMoney, sumValues_insert, hnew,
        covered, forall_prop_of_true rfl, moneyUnder]
      omega

/-- The end of a packet keeps the sum exactly when it deletes no money without a refund. -/
theorem stop_keeps_iff (h : Settled wire names w) (key sender : String) :
    ∃ w', callStep (machine wire) w (.stop key sender) = some w' ∧ Settled wire names w' ∧
      (moneyHeld wire w' = moneyHeld wire w ↔ (HongbaoCall.stop key sender).Keeps wire w) := by
  obtain ⟨r, hread, hcases⟩ := h.read key
  obtain ⟨w', hrun, hc, redis, imUser⟩ := stopRobHongbao_spec (machine wire) key sender h.calm hread
  refine ⟨w', by rw [callStep, hrun]; rfl, ?_⟩
  have hold : ∀ k v, w'.redis.lookup k = some v → w.redis.lookup k = some v := by
    intro k v hv
    rw [redis] at hv
    by_cases hk : k = key
    · subst hk
      rw [AList.lookup_erase] at hv
      cases hv
    · rwa [AList.lookup_erase_ne hk] at hv
  have hkeeps : (HongbaoCall.stop key sender).Keeps wire w ↔
      (r.2.leftcount = 0 → centsOf r.2.leftmoney = 0) := by
    rw [HongbaoCall.Keeps, hread]
    simp only [Option.mem_def, Option.some.injEq, forall_eq']
  have hunder : moneyUnder wire w key = centsOf r.2.leftmoney := by
    rw [moneyUnder]
    cases hv : w.redis.lookup key with
    | none =>
      rw [hv] at hread
      cases hread
      exact centsOf_zero.symm
    | some v =>
      rw [hv] at hread
      rw [Option.elim_some, packetMoney, hread]
      rfl
  have hsum : sumValues (packetMoney wire) w'.redis =
      sumValues (packetMoney wire) w.redis - centsOf r.2.leftmoney := by
    rw [redis, sumValues_erase, ← hunder, moneyUnder]
  rw [hkeeps]
  by_cases hleft : r.2.leftcount = 0
  · rw [if_neg (not_not_intro hleft)] at imUser
    refine ⟨h.of_lookup hc (by rw [imUser]) fun k v hv => .inl (hold k v hv), ?_⟩
    rw [moneyHeld, moneyHeld, imUser, hsum, forall_prop_of_true hleft]
    omega
  · obtain ⟨p, c, n, rfl, -, hbooked, hreg, -⟩ := hcases.resolve_left fun hz => hleft hz.1
    rw [if_pos hleft, hbooked.whole.refundLeft hbooked.kept] at imUser
    have hnames : w'.imUser.map (·.name) = w.imUser.map (·.name) := by
      rw [imUser, World.imUser_addMoney, names_addMoney]
    refine ⟨h.of_lookup hc hnames fun k v hv => .inl (hold k v hv), ?_⟩
    rw [← h.names_eq] at hreg
    rw [moneyHeld, moneyHeld, imUser, hsum, World.imUser_addMoney, hreg.balances_addMoney]
    simp only [hleft, false_implies, iff_true]
    omega

/-- A grab keeps the sum, even where the cast loses a cent. -/
theorem rob_keeps (h : Settled wire names w) {req : ReqRobHongbao}
    (hp : (HongbaoCall.rob req).Proper names)
    (hkept : (HongbaoCall.rob req).WritesKept wire w) :
    ∃ w', callStep (machine wire) w (.rob req) = some w' ∧ Settled wire names w' ∧
      moneyHeld wire w' = moneyHeld wire w := by
  by_cases hkey : req.hongbaokey = ""
  · refine ⟨w, ?_, h, rfl⟩
    simp [callStep, robHongbao, hkey, returned]
  have hlock := AList.lookup_eq_none.mp (h.no_lock req.hongbaokey)
  obtain ⟨r, hread, hcases⟩ := h.read req.hongbaokey
  -- a grab that is refused leaves everything as it was
  have hsame : ∀ w', w'.oracle.outcomes = [] → (∀ k, w'.redis.lookup k = w.redis.lookup k) →
      w'.imUser = w.imUser → Settled wire names w' ∧ moneyHeld wire w' = moneyHeld wire w := by
    intro w' hc redis imUser
    refine ⟨h.of_lookup hc (by rw [imUser]) fun k v hv => .inl (redis k ▸ hv), ?_⟩
    rw [moneyHeld, moneyHeld, imUser, sumValues_congr _ redis]
  rcases hcases with ⟨hleft, -⟩ | ⟨p, c, n, rfl, hlook, hbooked, hreg, hne⟩
  · obtain ⟨resp, w', hrun, hc, -, redis, imUser⟩ :=
      robHongbao_gone (machine wire) h.calm hkey hlock hread hleft
    exact ⟨w', by rw [callStep, hrun]; rfl, hsame w' hc redis imUser⟩
  · obtain ⟨resp, w', hrun, hc, hstep⟩ := hbooked.robHongbao_spec wire h.calm hkey hlock hlook
      (hkept _ hread)
    refine ⟨w', by rw [callStep, hrun]; rfl, ?_⟩
    cases hstep with
    | refused _ _ redis imUser => exact hsame w' hc redis imUser
    | taken hgiven _ _ _ redis imUser =>
      have hkept' := hkept _ hread hgiven
      obtain ⟨hbooked', hcents⟩ := hbooked.leftAfter hgiven hkept'
      have hnolock : ∀ k', req.hongbaokey ≠ RedisLock.getLockKey k' := by
        intro k' hk
        rw [hk, h.no_lock k'] at hlook
        cases hlook
      have hnames : w'.imUser.map (·.name) = w.imUser.map (·.name) := by
        rw [imUser, World.imUser_addMoney, names_addMoney]
      refine ⟨h.of_lookup hc hnames fun k v hv => ?_, ?_⟩
      · rw [redis] at hv
        by_cases hk : k = req.hongbaokey
        · subst hk
          rw [AList.lookup_insert] at hv
          exact .inr ⟨hnolock, hne, _, c, n, (Option.some.inj hv).symm, hbooked', hreg⟩
        · rw [AList.lookup_insert_ne hk] at hv
          exact .inl hv
      · have hself : Registered (w.imUser.map (·.name)) req.selfname := by
          rw [h.names_eq]
          exact hp
        have hmoney : centsOf (leftAfter (machine wire) req p w).leftmoney =
            centsOf p.leftmoney - grabbed (machine wire) p w :=
          congrArg SendHongbao.leftmoney hcents
        rw [moneyHeld, moneyHeld, imUser, sumValues_congr _ redis, World.imUser_addMoney,
          hself.balances_addMoney,
          sumValues_insert, hlook, Option.elim_some, packetMoney_stored hbooked.kept,
          packetMoney_stored hkept', hmoney]
        omega

end Call

/-! ### Whole runs -/

/-- The session of a user with a hundred euros. -/
def aliceSession : Session :=
  newSession "alice" { name := "alice", money := 100000000 } Amounts.double

/-- An account of a hundred euros, logged in, and one of nothing; the first share that is drawn is
the average. -/
def aliceAndBob : World :=
  { imUser := [{ name := "alice", password := "pw", money := 100000000 }, { name := "bob" }]
    redis := (∅ : AList _).insert (sessionKey "alice") aliceSession.stored
    oracle := { draws := [99] } }

private theorem lookup_aliceAndBob {k : String} {v : RedisValue}
    (h : aliceAndBob.redis.lookup k = some v) :
    k = sessionKey "alice" ∧ v = aliceSession.stored := by
  by_cases hk : k = sessionKey "alice"
  · subst hk
    rw [aliceAndBob, AList.lookup_insert] at h
    exact ⟨rfl, (Option.some.inj h).symm⟩
  · rw [aliceAndBob, AList.lookup_insert_ne hk, AList.lookup_empty] at h
    cases h

/-- The two accounts have no packet yet. -/
theorem idle_aliceAndBob {k : String} {v : RedisValue}
    (h : aliceAndBob.redis.lookup k = some v) : Idle plainWire v := by
  rw [(lookup_aliceAndBob h).2]
  decide +kernel

/-- The two accounts are settled. -/
theorem settled_aliceAndBob : Settled plainWire ["alice", "bob"] aliceAndBob := by
  have hkept : aliceSession.Kept := by decide +kernel
  refine ⟨rfl, rfl, fun k => ?_, fun name => ?_, fun k v hv => .inl (idle_aliceAndBob hv)⟩
  · rw [Option.eq_none_iff_forall_ne_some]
    intro v hv
    exact sessionKey_ne_getLockKey "alice" k (lookup_aliceAndBob hv).1.symm
  · cases hv : aliceAndBob.redis.lookup (sessionKey name) with
    | none => exact ⟨{}, rfl, .inl rfl⟩
    | some v =>
      rw [(lookup_aliceAndBob hv).2]
      exact ⟨aliceSession, hkept.read, .inr (by decide)⟩

/-- A request for a packet of some cents by that user. -/
def sendCents (cents count : Int) : HongbaoCall :=
  .send { sender := "alice", money := Amounts.double.ofCents cents, count := count }

/-- The sums before any call and after each of some calls. -/
def sums (calls : List HongbaoCall) : List (Option Int) :=
  calls.inits.map fun cs =>
    (run (callStep (machine plainWire)) aliceAndBob cs).map (moneyHeld plainWire)

/-- A packet of one euro in two shares, and a grab of it. -/
def sendAndGrab : List HongbaoCall :=
  [sendCents 100 2, .rob { hongbaokey := hongbaoKey "alice" 0, selfname := "bob" }]

end IMServer.Business
