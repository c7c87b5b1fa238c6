import IMServer.Business.Conservation

/-!
# Packets of any amount and count

`SendHongbao` and `RobHongbao` of `server/src/BaseBusiness.cc` one after the other, over the bytes
and `double`s of the source, for amounts of either sign and any counts: neither is checked, and the
count is cut to an `int` before it is divided by. As long as no request has a negative amount or
count, and every packet that is written is kept by the store, no account grows by sending and no
packet gives more shares or more money than it was made of. A negative amount pays its sender, and
a negative count is grabbed from.
-/

namespace IMServer.Business

open IMServer.Base

/-- A request of a client. -/
inductive PacketRequest where
  | send (req : Hongbaoreq)
  | rob (req : ReqRobHongbao)
  deriving DecidableEq, Repr

/-- The server, the packets that were sent and the grabs that were answered with a share. -/
structure PacketLog where
  world : World
  sent : List (String × Hongbaoreq) := []
  grabs : List (String × Int) := []

/-- Serve one request; `none` when it does not return. -/
def packetStep (fmt : Format) (s : PacketLog) : PacketRequest → Option PacketLog
  | .send req =>
    match Prog.run exec (sendHongbao fmt req) s.world with
    | (.ok (_, resp), w') =>
      some { s with
        world := w'
        sent := if resp.isok then s.sent ++ [(resp.hongbaokey, req)] else s.sent }
    | (.error _, _) => none
  | .rob req =>
    match Prog.run exec (robHongbao fmt req) s.world with
    | (.ok (_, resp), w') =>
      some { s with
        world := w'
        grabs := if resp.isok then s.grabs ++ [(resp.hongbaokey, resp.robmoney)] else s.grabs }
    | (.error _, _) => none

/-- The cents that were credited for a packet, grab by grab. -/
def PacketLog.grabsOf (s : PacketLog) (key : String) : List Int :=
  (s.grabs.filter (·.1 = key)).map fun e => centsOf e.2

/-- No packet has given more shares or more money than it was made of. -/
def Capped (s : PacketLog) : Prop :=
  ∀ e ∈ s.sent, ((s.grabsOf e.1).length : Int) ≤ max e.2.count 0 ∧
    (s.grabsOf e.1).sum ≤ max (centsOf e.2.money) 0

/-- A request for a packet does not pay its sender. -/
def Unpaid (s s' : PacketLog) : PacketRequest → Prop
  | .send req => balance s'.world.imUser req.sender ≤ balance s.world.imUser req.sender
  | .rob _ => True

/-- The key of a packet that the session pays for is not in use. -/
def FreshKey (wire : Wire) (s : PacketLog) : PacketRequest → Prop
  | .send req =>
    ∀ t ∈ sessionRead (machine wire).toWire (s.world.redis.lookup (sessionKey req.sender)),
      poor req t (machine wire).toAmounts = false →
        hongbaoKey req.sender s.world.now ∉ s.world.redis
  | .rob _ => True

instance (wire : Wire) (s : PacketLog) (e : PacketRequest) : Decidable (FreshKey wire s e) :=
  match e with
  | .send req => inferInstanceAs (Decidable (∀ t ∈ sessionRead (machine wire).toWire
      (s.world.redis.lookup (sessionKey req.sender)), poor req t (machine wire).toAmounts = false →
        hongbaoKey req.sender s.world.now ∉ s.world.redis))
  | .rob _ => inferInstanceAs (Decidable True)

/-- Neither the amount, in whole cents, nor the count of a new packet is negative; the count is an
`int`, and so is every product of the amount with a draw. -/
def PacketRequest.Restrained : PacketRequest → Prop
  | .send req => req.money = Amounts.double.ofCents (centsOf req.money) ∧ 0 ≤ centsOf req.money ∧
    centsOf req.money * 199 < 2 ^ 31 ∧ 0 ≤ req.count ∧ req.count < 2 ^ 31
  | .rob _ => True

instance (e : PacketRequest) : Decidable e.Restrained :=
  match e with
  | .send _ => inferInstanceAs (Decidable (_ ∧ _ ∧ _ ∧ _ ∧ _))
  | .rob _ => inferInstanceAs (Decidable True)

/-- The call of a request. -/
def PacketRequest.call : PacketRequest → HongbaoCall
  | .send req => .send req
  | .rob req => .rob req

/-- The conditions on a request: on the request alone, on the bytes of the packet that it writes,
and on the key. -/
@[mk_iff]
structure Benign (wire : Wire) (s : PacketLog) (e : PacketRequest) : Prop where
  restrained : e.Restrained
  kept : e.call.WritesKept wire s.world
  fresh : FreshKey wire s e

instance (wire : Wire) (s : PacketLog) (e : PacketRequest) : Decidable (Benign wire s e) :=
  decidable_of_iff' _ (benign_iff wire s e)

/-! ### The packets of a run -/

/-- Every packet of the run is under its key, with the shares that were taken from it as its
grabs; what is stored elsewhere cannot be grabbed from. -/
structure LogInv (wire : Wire) (s : PacketLog) : Prop where
  calm : s.world.oracle.outcomes = []
  no_lock : ∀ k, s.world.redis.lookup (RedisLock.getLockKey k) = none
  session : ∀ name, ∃ t, sessionRead (machine wire).toWire
    (s.world.redis.lookup (sessionKey name)) = some t
  value : ∀ k v, s.world.redis.lookup k = some v → Idle wire v ∨ k ∈ s.sent.map (·.1)
  packet : ∀ e ∈ s.sent, (∀ name, e.1 ≠ sessionKey name) ∧
    ∃ p, s.world.redis.lookup e.1 = some p.stored ∧ Booked (centsOf e.2.money) e.2.count p ∧
      s.grabsOf e.1 = p.robitem.map fun r => centsOf r.money
  known : ∀ e ∈ s.grabs, s.world.redis.lookup e.1 ≠ none

section Inv

variable {wire : Wire} {s : PacketLog} {w' : World}

private theorem LogInv.capped (h : LogInv wire s) : Capped s := by
  intro e he
  obtain ⟨-, p, -, hbooked, hgrabs⟩ := h.packet e he
  have hmoney := hbooked.books.money_sum
  have hcount := hbooked.books.count_sum
  have hleft := hbooked.leftcount_nonneg
  have hrest := hbooked.cents_nonneg
  simp only [SendHongbao.inCents, List.map_map, List.length_map] at hmoney hcount
  rw [hgrabs, List.length_map]
  constructor
  · exact le_max_of_le_left (by omega)
  · refine le_max_of_le_left ?_
    have hsum : (p.robitem.map fun r => centsOf r.money).sum + centsOf p.leftmoney =
        centsOf e.2.money := hmoney
    omega

/-- A request that is answered without a packet or a share. -/
theorem LogInv.congr (h : LogInv wire s) (hc : w'.oracle.outcomes = [])
    (hr : ∀ k, w'.redis.lookup k = s.world.redis.lookup k) :
    LogInv wire { s with world := w' } where
  calm := hc
  no_lock k := (hr _).trans (h.no_lock k)
  session name := by
    show ∃ t, sessionRead _ (w'.redis.lookup _) = some t
    rw [hr]
    exact h.session name
  value k v hv := h.value k v ((hr k).symm.trans hv)
  packet e he := by
    obtain ⟨hkey, p, hp, hbooked⟩ := h.packet e he
    exact ⟨hkey, p, (hr _).trans hp, hbooked⟩
  known e he := by
    show w'.redis.lookup e.1 ≠ none
    rw [hr]
    exact h.known e he

private theorem grabsOf_of_notMem {key : String} (h : ∀ e ∈ s.grabs, e.1 ≠ key) :
    s.grabsOf key = [] := by
  rw [PacketLog.grabsOf, List.filter_eq_nil_iff.mpr fun e he => by simpa using h e he]
  rfl

/-- A packet that is sent under a new key is tracked from its beginning. -/
theorem LogInv.sent (h : LogInv wire s) {req : Hongbaoreq} (hc : w'.oracle.outcomes = [])
    (hres : (PacketRequest.send req).Restrained) (hkept : (newHongbao req).Kept)
    (hfresh : s.world.redis.lookup (hongbaoKey req.sender s.world.now) = none)
    (hr : w'.redis =
      s.world.redis.insert (hongbaoKey req.sender s.world.now) (newHongbao req).stored) :
    LogInv wire { s with
      world := w', sent := s.sent ++ [(hongbaoKey req.sender s.world.now, req)] } := by
  obtain ⟨hmoney, h0, hmax, hn, hn'⟩ := hres
  generalize hkey : hongbaoKey req.sender s.world.now = key at hfresh hr ⊢
  have hlock : ∀ k, key ≠ RedisLock.getLockKey k := hkey ▸ hongbaoKey_ne_getLockKey _ _
  have hsession : ∀ name, key ≠ sessionKey name := hkey ▸ hongbaoKey_ne_sessionKey _ _
  have hne : ∀ k, s.world.redis.lookup k ≠ none →
      w'.redis.lookup k = s.world.redis.lookup k := by
    intro k hk
    rw [hr, AList.lookup_insert_ne]
    rintro rfl
    exact hk hfresh
  refine ⟨hc, fun k => ?_, fun name => ?_, fun k v hv => ?_, fun e he => ?_, fun e he => ?_⟩
  · show w'.redis.lookup _ = none
    rw [hr, AList.lookup_insert_ne (hlock k).symm, h.no_lock]
  · show ∃ t, sessionRead _ (w'.redis.lookup _) = some t
    rw [hr, AList.lookup_insert_ne (hsession name).symm]
    exact h.session name
  · have hv : w'.redis.lookup k = some v := hv
    rw [List.map_append, List.mem_append]
    by_cases hk : k = key
    · exact .inr (.inr (List.mem_singleton.mpr hk))
    · rw [hr, AList.lookup_insert_ne hk] at hv
      exact (h.value k v hv).imp id .inl
  · rcases List.mem_append.mp he with hold | hnew
    · obtain ⟨hkey', p, hp, hbooked⟩ := h.packet e hold
      exact ⟨hkey', p, (hne _ (by rw [hp]; exact Option.some_ne_none _)).trans hp, hbooked⟩
    · rw [List.mem_singleton.mp hnew]
      refine ⟨hsession, newHongbao req, ?_, booked_new hkept hmoney h0 hmax hn hn', ?_⟩
      · show w'.redis.lookup key = _
        rw [hr, AList.lookup_insert]
      · exact grabsOf_of_notMem fun e he heq => h.known e he (heq ▸ hfresh)
  · show w'.redis.lookup e.1 ≠ none
    rw [hne _ (h.known e he)]
    exact h.known e he

private theorem grabsOf_append (s : PacketLog) (w' : World) (key key' : String) (g : Int) :
    ({ s with world := w', grabs := s.grabs ++ [(key, g)] } : PacketLog).grabsOf key' =
      if key = key' then s.grabsOf key' ++ [centsOf g] else s.grabsOf key' := by
  by_cases hk : key = key'
  · simp [PacketLog.grabsOf, hk]
  · simp [PacketLog.grabsOf, hk]

/-- A share that is taken from a packet of the run is among its grabs. -/
theorem LogInv.taken (h : LogInv wire s) {req : ReqRobHongbao} {p : SendHongbao} {c n : Int}
    (hp : s.world.redis.lookup req.hongbaokey = some p.stored) (hbooked : Booked c n p)
    (hsent : req.hongbaokey ∈ s.sent.map (·.1)) (hgiven : refused req (false, p) = false)
    (hkept : (leftAfter (machine wire) req p s.world).Kept) (hc : w'.oracle.outcomes = [])
    (hr : ∀ k, w'.redis.lookup k = (s.world.redis.insert req.hongbaokey
      (leftAfter (machine wire) req p s.world).stored).lookup k) :
    LogInv wire { s with
      world := w'
      grabs := s.grabs ++
        [(req.hongbaokey, (machine wire).ofCents (grabbed (machine wire) p s.world))] } := by
  have hsession : ∀ name, req.hongbaokey ≠ sessionKey name := by
    obtain ⟨e, he, hk⟩ := List.mem_map.mp hsent
    exact hk ▸ (h.packet e he).1
  have hlock : ∀ k, req.hongbaokey ≠ RedisLock.getLockKey k := by
    intro k hk
    rw [hk, h.no_lock k] at hp
    cases hp
  obtain ⟨-, -, hleft⟩ := of_not_refused hgiven
  refine ⟨hc, fun k => ?_, fun name => ?_, fun k v hv => ?_, fun e he => ?_, fun e he => ?_⟩
  · show w'.redis.lookup _ = none
    rw [hr, AList.lookup_insert_ne (hlock k).symm, h.no_lock]
  · show ∃ t, sessionRead _ (w'.redis.lookup _) = some t
    rw [hr, AList.lookup_insert_ne (hsession name).symm]
    exact h.session name
  · have hv : w'.redis.lookup k = some v := hv
    by_cases hk : k = req.hongbaokey
    · exact .inr (hk ▸ hsent)
    · rw [hr, AList.lookup_insert_ne hk] at hv
      exact h.value k v hv
  · obtain ⟨hkey, q, hq, hbooked', hgrabs⟩ := h.packet e he
    refine ⟨hkey, ?_⟩
    show ∃ q, w'.redis.lookup e.1 = some (SendHongbao.stored q) ∧ _ ∧ PacketLog.grabsOf _ e.1 = _
    rw [hr, grabsOf_append]
    by_cases hk : req.hongbaokey = e.1
    · rw [← hk, hp] at hq
      cases hbooked.kept.stored_inj hbooked'.kept (Option.some.inj hq)
      rw [if_pos hk, ← hk, AList.lookup_insert]
      refine ⟨_, rfl, (hbooked'.leftAfter hgiven hkept).1, ?_⟩
      rw [hk, hgrabs, leftAfter, takeShare, List.map_append]
      rfl
    · rw [if_neg hk, AList.lookup_insert_ne (Ne.symm hk)]
      exact ⟨q, hq, hbooked', hgrabs⟩
  · show w'.redis.lookup e.1 ≠ none
    by_cases hk : e.1 = req.hongbaokey
    · rw [hr, hk, AList.lookup_insert]
      exact Option.some_ne_none _
    · rw [hr, AList.lookup_insert_ne hk]
      rcases List.mem_append.mp he with hold | hnew
      · exact h.known e hold
      · rw [List.mem_singleton.mp hnew] at hk
        exact absurd rfl hk

end Inv

/-! ### One request -/

section Request

variable {wire : Wire} {s : PacketLog}

/-- A debit that is not negative pays nobody. -/
theorem balance_debit_le (users : List IMUser) {amount : Int} (h : 0 ≤ amount)
    (name sender : String) :
    balance (addMoney users (-amount) name) sender ≤ balance users sender := by
  rw [balance_addMoney]
  split
  · have : 0 ≤ (accounts users name : Int) * amount := Int.mul_nonneg (Int.natCast_nonneg _) h
    rw [Int.mul_neg]
    omega
  · omega

private theorem send_harmless
    (h : LogInv wire s) {req : Hongbaoreq} (hb : Benign wire s (.send req)) :
    ∃ s', packetStep (machine wire) s (.send req) = some s' ∧ LogInv wire s' ∧
      Unpaid s s' (.send req) := by
  obtain ⟨hres, hkept, hfresh⟩ := hb
  have hkept : (newHongbao req).Kept := hkept
  obtain ⟨t, ht⟩ := h.session req.sender
  obtain ⟨⟨code, resp⟩, w', hrun, hc, hstep⟩ := sendHongbao_spec (machine wire) req h.calm ht
    fun _ => hkept.store_ne_none
  have hstep' : packetStep (machine wire) s (.send req) = some { s with
      world := w', sent := if resp.isok then s.sent ++ [(resp.hongbaokey, req)] else s.sent } := by
    simp only [packetStep, hrun]
  refine ⟨_, hstep', ?_⟩
  cases hstep with
  | refused short redis imUser =>
    refine ⟨h.congr hc fun k => by rw [redis], ?_⟩
    show balance w'.imUser req.sender ≤ _
    rw [imUser]
  | sent v covered stored redis imUser =>
    rw [hkept.store] at stored
    cases stored
    refine ⟨h.sent hc hres hkept (AList.lookup_eq_none.mpr (hfresh t ht covered)) redis, ?_⟩
    obtain ⟨hmoney, h0, hmax, -⟩ := hres
    have hsmall : Small (centsOf req.money) := ⟨by omega, by omega⟩
    have hdebit : debit (machine wire) req.money t.userinfo.name =
        .addMoney (-(centsOf req.money * 10000)) t.userinfo.name := by
      have hprinted : (machine wire).printed req.money = some (centsOf req.money * 10000) := by
        rw [hmoney]
        exact (printed_ofCents hsmall).trans (by rw [centsOf_ofCents hsmall])
      rw [debit, Amounts.statement, hprinted]
      rfl
    show balance w'.imUser req.sender ≤ _
    rw [imUser, hdebit]
    exact balance_debit_le _ (by omega) _ _

private theorem rob_harmless
    (h : LogInv wire s) {req : ReqRobHongbao} (hb : Benign wire s (.rob req)) :
    ∃ s', packetStep (machine wire) s (.rob req) = some s' ∧ LogInv wire s' := by
  by_cases hkey : req.hongbaokey = ""
  · exact ⟨s, by simp [packetStep, robHongbao, hkey, refuseRob], h⟩
  have hlock := AList.lookup_eq_none.mp (h.no_lock req.hongbaokey)
  have hstep : ∀ {code resp w'}, Prog.run exec (robHongbao (machine wire) req) s.world =
      (.ok (code, resp), w') → packetStep (machine wire) s (.rob req) = some { s with
        world := w'
        grabs := if resp.isok then s.grabs ++ [(resp.hongbaokey, resp.robmoney)]
          else s.grabs } := by
    intro code resp w' hrun
    simp only [packetStep, hrun]
  have hgone : ∀ r, hongbaoRead (machine wire).toWire (s.world.redis.lookup req.hongbaokey) =
      some r → r.2.leftcount = 0 →
      ∃ s', packetStep (machine wire) s (.rob req) = some s' ∧ LogInv wire s' := by
    intro r hread hleft
    obtain ⟨resp, w', hrun, hc, isok, redis, -⟩ :=
      robHongbao_gone (machine wire) h.calm hkey hlock hread hleft
    refine ⟨_, hstep hrun, ?_⟩
    rw [isok]
    exact h.congr hc redis
  cases hv : s.world.redis.lookup req.hongbaokey with
  | none => exact hgone (true, {}) (by rw [hv]; rfl) rfl
  | some v =>
    rcases h.value _ v hv with ⟨r, hread, hleft, -⟩ | hsent
    · exact hgone r (by rw [hv]; exact hread) hleft
    · obtain ⟨e, he, hk⟩ := List.mem_map.mp hsent
      obtain ⟨-, p, hp, hbooked, -⟩ := h.packet e he
      rw [show e.1 = req.hongbaokey from hk] at hp
      have hread : hongbaoRead (machine wire).toWire (s.world.redis.lookup req.hongbaokey) =
          some (false, p) := by
        rw [hp]
        exact hbooked.kept.read
      have hkept := hb.kept (false, p) hread
      obtain ⟨resp, w', hrun, hc, hgrab⟩ := hbooked.robHongbao_spec wire h.calm hkey hlock hp hkept
      refine ⟨_, hstep hrun, ?_⟩
      cases hgrab with
      | refused _ isok redis _ =>
        rw [isok]
        exact h.congr hc redis
      | taken hgiven isok hongbaokey robmoney redis _ =>
        rw [isok, hongbaokey, robmoney]
        exact h.taken hp hbooked hsent hgiven (hkept hgiven) hc redis

end Request

/-! ### Whole runs -/

/-- The request is answered, does not pay the sender of a packet, and leaves no packet that has
given more than it was made of. -/
def Harmless (wire : Wire) (s : PacketLog) (e : PacketRequest) : Prop :=
  ∃ s', packetStep (machine wire) s e = some s' ∧ Unpaid s s' e ∧ Capped s'

/-- A packet of one euro in two shares that is sent and grabbed from. -/
def sendAndGrabRequests : List PacketRequest :=
  [.send { sender := "alice", money := Amounts.double.ofCents 100, count := 2 },
    .rob { hongbaokey := hongbaoKey "alice" 0, selfname := "bob" }]

end IMServer.Business
