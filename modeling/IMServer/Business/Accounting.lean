import IMServer.Business.Calls
import IMServer.Business.Machine

/-!
# The books of one packet

Any grabs of one packet, one after the other, over the bytes and `double`s of the source. As long
as every packet that is stored survives the store and the cast of the money left loses no cent,
shares and rest add up to what the packet was made of, and the last share empties it. Where a byte
of the packet is `~`, or the cast loses a cent, they do not.
-/

namespace IMServer.Business

open IMServer.Base IMServer.Cache

/-! ### Shares -/

/-- A draw of one of at least two shares, without overflow. -/
theorem draw_le {rem n d : Int} (h0 : 0 ≤ rem) (hn : 2 ≤ n) (hd : 0 ≤ d) (hd' : d ≤ 199) :
    0 ≤ rem * d / 100 / n ∧ rem * d / 100 / n ≤ rem := by
  have hp : 0 ≤ rem * d := Int.mul_nonneg h0 hd
  have hp' : rem * d ≤ rem * 199 := Int.mul_le_mul_of_nonneg_left hd' h0
  have hnn : 0 ≤ rem * d / 100 / n := Int.ediv_nonneg (by omega) (by omega)
  have hle : rem * d / 100 / n ≤ rem * d / 100 / 2 := by
    apply Int.le_ediv_of_mul_le (by decide)
    calc rem * d / 100 / n * 2 ≤ rem * d / 100 / n * n :=
          Int.mul_le_mul_of_nonneg_left hn hnn
      _ ≤ rem * d / 100 := Int.ediv_mul_le _ (by omega)
  omega

/-- A share of an amount that no draw overflows lies between nothing and all of it, and the
last share is all of it. -/
theorem Share.bounds {rem n g : Int} (h : Share rem n g) (h0 : 0 ≤ rem)
    (hmax : rem * 199 < 2 ^ 31) (hn : 1 ≤ n) : 0 ≤ g ∧ g ≤ rem ∧ (n = 1 → g = rem) := by
  obtain ⟨hz, -⟩ | ⟨-, hq, rfl⟩ | ⟨-, rfl⟩ | ⟨-, hn1, d, hd, hd', rfl⟩ := h
  · omega
  · rw [Int.tdiv_eq_ediv_of_nonneg h0] at hq
    have hmul := Int.ediv_mul_le rem (show n ≠ 0 by omega)
    rw [hq] at hmul
    refine ⟨by omega, by omega, ?_⟩
    rintro rfl
    rw [Int.ediv_one] at hq
    exact hq.symm
  · exact ⟨h0, Int.le_refl _, fun _ => rfl⟩
  · have hp : 0 ≤ rem * d := Int.mul_nonneg h0 (by omega)
    have hp' : rem * d ≤ rem * 199 := Int.mul_le_mul_of_nonneg_left hd' h0
    rw [drawnMoney, wrap_eq_self (by decide) (by omega) (by omega),
      Int.tdiv_eq_ediv_of_nonneg hp, Int.tdiv_eq_ediv_of_nonneg (by omega)]
    obtain ⟨hnn, hle⟩ := draw_le h0 (show 2 ≤ n by omega) (show 0 ≤ d by omega) hd'
    exact ⟨hnn, hle, fun h => absurd h hn1⟩

/-! ### Packets in cents -/

/-- The books of a packet of `c` cents in `n` shares, its amounts in cents. -/
structure Accounted (c n : Int) (p : SendHongbao) : Prop where
  money_sum : (p.robitem.map (·.money)).sum + p.leftmoney = c
  count_sum : p.robitem.length + p.leftcount = n
  share_nonneg : ∀ item ∈ p.robitem, 0 ≤ item.money
  leftmoney_nonneg : 0 ≤ p.leftmoney
  leftcount_nonneg : 0 ≤ p.leftcount
  names_nodup : (p.robitem.map (·.name)).Nodup

private theorem accounted_new (req : Hongbaoreq) (hm : 0 ≤ req.money) (hn : 0 ≤ req.count) :
    Accounted req.money req.count (newHongbao req) where
  money_sum := by simp [newHongbao]
  count_sum := by simp [newHongbao]
  share_nonneg := by simp [newHongbao]
  leftmoney_nonneg := hm
  leftcount_nonneg := hn
  names_nodup := by simp [newHongbao]

namespace Accounted

variable {c n : Int} {p : SendHongbao}

private theorem leftmoney_le (h : Accounted c n p) : p.leftmoney ≤ c := by
  have hpaid : 0 ≤ (p.robitem.map (·.money)).sum := by
    apply List.sum_nonneg
    intro x hx
    obtain ⟨item, hi, rfl⟩ := List.mem_map.mp hx
    exact h.share_nonneg item hi
  have := h.money_sum
  omega

private theorem leftcount_le (h : Accounted c n p) : p.leftcount ≤ n := by
  have := h.count_sum
  omega

/-- Taking a share keeps the books. -/
theorem takeShare (h : Accounted c n p) (hn : n < 2 ^ 31) {name : String}
    (hfirst : ∀ item ∈ p.robitem, item.name ≠ name) (hleft : p.leftcount ≠ 0) {g : Int}
    (h0 : 0 ≤ g) (hg : g ≤ p.leftmoney) (t : Int) : Accounted c n (takeShare p name g t) := by
  have hsum := h.money_sum
  have hcount := h.count_sum
  have hl := h.leftcount_nonneg
  rw [takeShare_eq (by omega) (by omega)]
  constructor
  · simp only [List.map_append, List.map_cons, List.map_nil, List.sum_append, List.sum_singleton,
      Amounts.cents]
    omega
  · simp only [List.length_append, List.length_singleton]
    omega
  · intro item hitem
    rcases List.mem_append.mp hitem with hold | hnew
    · exact h.share_nonneg item hold
    · rw [List.mem_singleton.mp hnew]
      exact h0
  · exact Int.sub_nonneg_of_le hg
  · show 0 ≤ p.leftcount - 1
    omega
  · rw [List.map_append, List.nodup_append]
    refine ⟨h.names_nodup, List.nodup_singleton _, ?_⟩
    intro a ha b hb
    obtain ⟨item, hitem, rfl⟩ := List.mem_map.mp ha
    rw [List.map_singleton, List.mem_singleton] at hb
    subst hb
    exact hfirst item hitem

end Accounted

/-! ### Statements on cents -/

/-- The debit of a number of cents. -/
theorem debit_whole {money : Int} (hwhole : money = Amounts.double.ofCents (centsOf money))
    (hsmall : Small (centsOf money)) (wire : Wire) (name : String) :
    debit (machine wire) money name = .addMoney (-(centsOf money * 10000)) name := by
  have hprinted : (machine wire).printed money = some (centsOf money * 10000) := by
    rw [hwhole]
    exact (printed_ofCents hsmall).trans (by rw [centsOf_ofCents hsmall])
  rw [debit, Amounts.statement, hprinted]
  rfl

/-- The refund of a number of cents. -/
theorem SendHongbao.Whole.refundLeft {p : SendHongbao} (h : p.Whole) (hkept : p.Kept)
    (wire : Wire) :
    refundLeft (machine wire) p = .addMoney (centsOf p.leftmoney * 10000) p.sender := by
  have hprinted : (machine wire).printed p.leftmoney = some (centsOf p.leftmoney * 10000) :=
    h.printed hkept.length_robitem
  rw [Business.refundLeft, Amounts.statement, hprinted]
  rfl

/-! ### Grabs of a kept packet -/

/-- A packet that is kept by the store, its books in cents, whose shares no draw overflows. -/
structure Booked (c n : Int) (p : SendHongbao) : Prop where
  kept : p.Kept
  whole : p.Whole
  books : Accounted c n p.inCents
  money_lt : c * 199 < 2 ^ 31
  count_lt : n < 2 ^ 31

/-- A new packet of `c` cents is booked. -/
theorem booked_new {req : Hongbaoreq} {c : Int} (hkept : (newHongbao req).Kept)
    (hm : req.money = Amounts.double.ofCents c) (h0 : 0 ≤ c) (hc : c * 199 < 2 ^ 31)
    (hn : 0 ≤ req.count) (hn' : req.count < 2 ^ 31) : Booked c req.count (newHongbao req) := by
  have hsmall : Small c := ⟨by omega, by omega⟩
  obtain ⟨hwhole, hcents⟩ := whole_newHongbao hsmall hm
  refine ⟨hkept, hwhole, ?_, hc, hn'⟩
  rw [hcents]
  exact accounted_new { req with money := c } h0 hn

/-- What a grab of a kept packet that runs alone does: a share is refused, or moved in
millionths. -/
inductive GrabStep (wire : Wire) (req : ReqRobHongbao) (p : SendHongbao) (w : World) :
    RespRobHongbao → World → Prop where
  | refused {resp : RespRobHongbao} {w' : World} (refused : refused req (false, p) = true)
      (isok : resp.isok = false) (redis : ∀ k, w'.redis.lookup k = w.redis.lookup k)
      (imUser : w'.imUser = w.imUser) : GrabStep wire req p w resp w'
  | taken {resp : RespRobHongbao} {w' : World} (given : refused req (false, p) = false)
      (isok : resp.isok = true) (hongbaokey : resp.hongbaokey = req.hongbaokey)
      (robmoney : resp.robmoney = (machine wire).ofCents (grabbed (machine wire) p w))
      (redis : ∀ k, w'.redis.lookup k =
        (w.redis.insert req.hongbaokey (leftAfter (machine wire) req p w).stored).lookup k)
      (imUser : w'.imUser = (w.apply
        (.addMoney (grabbed (machine wire) p w * 10000) req.selfname)).imUser) :
      GrabStep wire req p w resp w'

namespace Booked

variable {c n : Int} {p : SendHongbao} {wire : Wire} {req : ReqRobHongbao} {w : World}

/-- The count does not fall below zero. -/
theorem leftcount_nonneg (h : Booked c n p) : 0 ≤ p.leftcount := h.books.leftcount_nonneg

private theorem leftcount_le (h : Booked c n p) : p.leftcount ≤ n := h.books.leftcount_le

/-- Nor do the cents. -/
theorem cents_nonneg (h : Booked c n p) : 0 ≤ centsOf p.leftmoney := h.books.leftmoney_nonneg

private theorem cents_le (h : Booked c n p) : centsOf p.leftmoney ≤ c := h.books.leftmoney_le

/-- The count is an `int`. -/
theorem wrap_leftcount (h : Booked c n p) : wrap 32 p.leftcount = p.leftcount := by
  have h0 := h.leftcount_nonneg
  have hle := h.leftcount_le
  have hlt := h.count_lt
  exact wrap_eq_self (by decide) (by omega) (by omega)

/-- The cents that the cast gives, and those that are there. -/
theorem toCents_bounds (h : Booked c n p) (wire : Wire) : 0 ≤ (machine wire).toCents p.leftmoney ∧
    (machine wire).toCents p.leftmoney ≤ centsOf p.leftmoney :=
  have hcast := h.whole.toCents h.kept.length_robitem h.cents_nonneg
  ⟨hcast.1, hcast.2.1⟩

/-- No amount that is divided is negative. -/
theorem traps (h : Booked c n p) (wire : Wire) :
    (machine wire).traps ((machine wire).toCents p.leftmoney) (wrap 32 p.leftcount) = false := by
  have hcast := h.toCents_bounds wire
  exact decide_eq_false fun htraps => by omega

/-- A share lies between nothing and all that the cast gives, and the last one is all of
that. -/
theorem grabbed_bounds (h : Booked c n p) (wire : Wire) (hleft : p.leftcount ≠ 0) (w : World) :
    0 ≤ grabbed (machine wire) p w ∧
      grabbed (machine wire) p w ≤ (machine wire).toCents p.leftmoney ∧
      (p.leftcount = 1 → grabbed (machine wire) p w = (machine wire).toCents p.leftmoney) := by
  obtain ⟨h0, hle⟩ := h.toCents_bounds wire
  have hc := h.cents_le
  have hmax := h.money_lt
  have hcount := h.leftcount_nonneg
  have hshare := share_shareOf ((machine wire).toCents p.leftmoney) p.leftcount w
  rw [grabbed, h.wrap_leftcount]
  exact hshare.bounds h0 (by omega) (by omega)

/-- What a grab leaves is booked, and in cents it is what a grab of whole cents leaves. -/
theorem leftAfter (h : Booked c n p) (hgiven : refused req (false, p) = false)
    (hkept : (leftAfter (machine wire) req p w).Kept) :
    Booked c n (leftAfter (machine wire) req p w) ∧
      (Business.leftAfter (machine wire) req p w).inCents = takeShare p.inCents req.selfname
        (grabbed (machine wire) p w) (grabTime (machine wire) p w) := by
  obtain ⟨-, hfirst, hleft⟩ := of_not_refused hgiven
  obtain ⟨h0, hle, -⟩ := h.grabbed_bounds wire hleft w
  have hcast := h.toCents_bounds wire
  obtain ⟨hwhole, hcents⟩ := h.whole.takeShare h.kept.length_robitem h0 (by omega) req.selfname
    (grabTime (machine wire) p w)
  refine ⟨⟨hkept, hwhole, ?_, h.money_lt, h.count_lt⟩, hcents⟩
  have hfirst' : ∀ item ∈ p.inCents.robitem, item.name ≠ req.selfname := by
    intro item hitem
    obtain ⟨item', hitem', rfl⟩ := List.mem_map.mp hitem
    exact hfirst item' hitem'
  have hbooks := h.books.takeShare h.count_lt hfirst' hleft h0 (by
    show _ ≤ centsOf p.leftmoney
    omega) (grabTime (machine wire) p w)
  rw [← hcents] at hbooks
  exact hbooks

/-- A share is a small amount. -/
theorem small_grabbed (h : Booked c n p) (wire : Wire) (hleft : p.leftcount ≠ 0) (w : World) :
    Small (grabbed (machine wire) p w) := by
  obtain ⟨h0, hle, -⟩ := h.grabbed_bounds wire hleft w
  have hcast := h.toCents_bounds wire
  have hc := h.cents_le
  have hmax := h.money_lt
  exact ⟨by omega, by omega⟩

/-- The share is credited in full. -/
theorem creditShare (h : Booked c n p) (hleft : p.leftcount ≠ 0) (w : World) :
    creditShare (machine wire) req (grabbed (machine wire) p w) =
      .addMoney (grabbed (machine wire) p w * 10000) req.selfname := by
  have hprinted : (machine wire).printed ((machine wire).ofCents (grabbed (machine wire) p w)) =
      some (grabbed (machine wire) p w * 10000) := printed_ofCents (h.small_grabbed wire hleft w)
  rw [Business.creditShare, Amounts.statement, hprinted]
  rfl

/-- A grab of a booked packet that runs alone on a free lock returns. -/
theorem robHongbao_spec (h : Booked c n p) (wire : Wire) (hcalm : w.oracle.outcomes = [])
    (hkey : req.hongbaokey ≠ "") (hlock : RedisLock.getLockKey req.hongbaokey ∉ w.redis)
    (hp : w.redis.lookup req.hongbaokey = some p.stored)
    (hkept : refused req (false, p) = false → (Business.leftAfter (machine wire) req p w).Kept) :
    ∃ resp w', Prog.run exec (robHongbao (machine wire) req) w = (.ok (0, resp), w') ∧
      w'.oracle.outcomes = [] ∧ GrabStep wire req p w resp w' := by
  have hread : hongbaoRead (machine wire).toWire (w.redis.lookup req.hongbaokey) =
      some (false, p) := by
    rw [hp]
    exact h.kept.read
  obtain ⟨resp, w', hrun, hcalm', hstep⟩ := Business.robHongbao_spec (machine wire) req hcalm hkey
    hlock hread fun hgiven => ⟨fun _ => h.traps wire, (hkept hgiven).store_ne_none⟩
  refine ⟨resp, w', hrun, hcalm', ?_⟩
  cases hstep with
  | refused r read hrefused isok redis imUser =>
    cases hread.symm.trans read
    exact .refused hrefused isok redis imUser
  | taken q v read first left stored answer redis imUser =>
    cases hread.symm.trans read
    have hgiven : refused req (false, p) = false := by
      simpa [refused, left] using first
    rw [(hkept hgiven).store] at stored
    cases stored
    refine .taken hgiven ?_ ?_ ?_ redis ?_
    · rw [answer]
    · rw [answer]
    · rw [answer]
    · rw [imUser, h.creditShare left]

end Booked

/-- A grab of what has no shares left is refused. -/
theorem robHongbao_gone (fmt : Format) {req : ReqRobHongbao} {w : World}
    (hcalm : w.oracle.outcomes = []) (hkey : req.hongbaokey ≠ "")
    (hlock : RedisLock.getLockKey req.hongbaokey ∉ w.redis) {r : Bool × SendHongbao}
    (hread : hongbaoRead fmt.toWire (w.redis.lookup req.hongbaokey) = some r)
    (hleft : r.2.leftcount = 0) :
    ∃ resp w', Prog.run exec (robHongbao fmt req) w = (.ok (0, resp), w') ∧
      w'.oracle.outcomes = [] ∧ resp.isok = false ∧
      (∀ k, w'.redis.lookup k = w.redis.lookup k) ∧ w'.imUser = w.imUser := by
  have hrefused : refused req r = true := by simp [refused, hleft]
  obtain ⟨resp, w', hrun, hcalm', hstep⟩ := robHongbao_spec fmt req hcalm hkey hlock hread
    fun hgiven => absurd (hrefused.symm.trans hgiven) (by decide)
  refine ⟨resp, w', hrun, hcalm', ?_⟩
  cases hstep with
  | refused _ _ _ isok redis imUser => exact ⟨isok, redis, imUser⟩
  | taken q _ read _ left =>
    cases hread.symm.trans read
    exact absurd hleft left

/-! ### Grabs one after the other -/

/-- Serve one grab: the world and the answers so far. -/
def robStep (fmt : Format) (s : World × List RespRobHongbao) (req : ReqRobHongbao) :
    Option (World × List RespRobHongbao) :=
  match Prog.run exec (robHongbao fmt req) s.1 with
  | (.ok (_, resp), w') => some (w', s.2 ++ [resp])
  | (.error _, _) => none

/-- If the grab is given a share: the cast of the money left loses no cent, and the packet that is
written has no byte `~` and fits in the array. -/
def Undamaged (wire : Wire) (s : World × List RespRobHongbao) (req : ReqRobHongbao) : Prop :=
  ∀ r ∈ hongbaoRead (machine wire).toWire (s.1.redis.lookup req.hongbaokey),
    refused req r = false →
      (machine wire).toCents r.2.leftmoney = centsOf r.2.leftmoney ∧
        (leftAfter (machine wire) req r.2 s.1).Kept
  deriving Decidable

/-- The packet under a key keeps its books and its lock is free. -/
structure Shelved (c n : Int) (key : String) (w : World) (p : SendHongbao) : Prop where
  calm : w.oracle.outcomes = []
  lock : RedisLock.getLockKey key ∉ w.redis
  packet : w.redis.lookup key = some p.stored
  booked : Booked c n p

/-- A grab of the packet under a key leaves it there, with a share less or as it was. -/
theorem Shelved.robStep {wire : Wire} {c n : Int} {key : String} (hkey : key ≠ "")
    {s : World × List RespRobHongbao} {req : ReqRobHongbao} (hreq : req.hongbaokey = key)
    {p : SendHongbao} (h : Shelved c n key s.1 p) (hpre : Undamaged wire s req) :
    ∃ resp w', robStep (machine wire) s req = some (w', s.2 ++ [resp]) ∧
      (refused req (false, p) = true ∧ resp.isok = false ∧ Shelved c n key w' p ∨
        refused req (false, p) = false ∧ resp.isok = true ∧
          resp.robmoney = (machine wire).ofCents (grabbed (machine wire) p s.1) ∧
          (machine wire).toCents p.leftmoney = centsOf p.leftmoney ∧
          Shelved c n key w' (leftAfter (machine wire) req p s.1)) := by
  subst hreq
  have hpre' := hpre (false, p) (by rw [h.packet]; exact h.booked.kept.read)
  obtain ⟨resp, w', hrun, hcalm, hstep⟩ := h.booked.robHongbao_spec wire h.calm hkey
    h.lock h.packet fun hgiven => (hpre' hgiven).2
  refine ⟨resp, w', by rw [Business.robStep, hrun], ?_⟩
  have hlock := AList.lookup_eq_none.mpr h.lock
  cases hstep with
  | refused hrefused isok redis _ =>
    refine .inl ⟨hrefused, isok, hcalm, ?_, (redis _).trans h.packet, h.booked⟩
    rw [← AList.lookup_eq_none]
    exact (redis _).trans hlock
  | taken hgiven isok _ robmoney redis _ =>
    obtain ⟨hcast, hkept⟩ := hpre' hgiven
    refine .inr ⟨hgiven, isok, robmoney, hcast, hcalm, ?_,
      (redis _).trans (AList.lookup_insert _), (h.booked.leftAfter hgiven hkept).1⟩
    rw [← AList.lookup_eq_none, redis, AList.lookup_insert_ne (getLockKey_ne _), hlock]

/-- The packet keeps its books, holds no money when its shares are gone, and as many grabs have
been answered with a share as shares have been taken. -/
def Books (c n : Int) (key : String) (s : World × List RespRobHongbao) : Prop :=
  ∃ p, Shelved c n key s.1 p ∧ (p.leftcount = 0 → centsOf p.leftmoney = 0) ∧
    s.2.countP (·.isok) = p.robitem.length

private theorem robStep_books (wire : Wire) {c n : Int} {key : String} (hkey : key ≠ "")
    (s : World × List RespRobHongbao) (req : ReqRobHongbao) (hb : Books c n key s)
    (hpre : req.hongbaokey = key ∧ Undamaged wire s req) :
    ∃ s', robStep (machine wire) s req = some s' ∧ Books c n key s' := by
  obtain ⟨p, hp, hexhausted, hcount⟩ := hb
  obtain ⟨resp, w', hstep, hcases⟩ := hp.robStep hkey hpre.1 hpre.2
  refine ⟨_, hstep, ?_⟩
  rcases hcases with ⟨-, isok, hp'⟩ | ⟨hgiven, isok, -, hcast, hp'⟩
  · refine ⟨p, hp', hexhausted, ?_⟩
    rw [List.countP_append, hcount]
    simp [isok]
  · obtain ⟨-, -, hleft⟩ := of_not_refused hgiven
    have hlast := (hp.booked.grabbed_bounds wire hleft s.1).2.2
    have hcents := (hp.booked.leftAfter hgiven hp'.booked.kept).2
    have hmoney : centsOf (leftAfter (machine wire) req p s.1).leftmoney =
        centsOf p.leftmoney - grabbed (machine wire) p s.1 :=
      congrArg SendHongbao.leftmoney hcents
    have hleft' : (leftAfter (machine wire) req p s.1).leftcount = p.leftcount - 1 := by
      have h0 := hp.booked.leftcount_nonneg
      have hle := hp.booked.leftcount_le
      have hlt := hp.booked.count_lt
      have hne : p.leftcount ≠ 0 := hleft
      rw [leftAfter, takeShare_eq (by omega) (by omega)]
    refine ⟨_, hp', fun hz => ?_, ?_⟩
    · have := hlast (by omega)
      omega
    · rw [List.countP_append, hcount]
      simp [isok, leftAfter, takeShare]

/-- From a new packet of `c` cents in `n` shares, after any grabs of it that lose no cent and store
what is read back: the shares and the rest are `c`, their numbers are `n`, nothing is negative, no
name appears twice, at most `n` grabs were answered with a share, and a packet without shares left
holds no money. -/
theorem robStep_run_accounted (wire : Wire) (hb : Hongbaoreq) (c : Int) (key : String) (w : World)
    (hkey : key ≠ "") (hcalm : Calm w) (hlock : RedisLock.getLockKey key ∉ w.redis)
    (hp : w.redis.lookup key = (machine wire).store (.hongbao (newHongbao hb)))
    (hkept : (newHongbao hb).Kept) (hmoney : hb.money = (machine wire).ofCents c)
    (hc : 0 < c) (hmax : c * 199 < 2 ^ 31) (hn : 1 ≤ hb.count) (hn' : hb.count < 2 ^ 31)
    (reqs : List ReqRobHongbao)
    (hreqs : Legal (robStep (machine wire))
      (fun s req => req.hongbaokey = key ∧ Undamaged wire s req) (w, []) reqs) :
    ∃ w' answers p, run (robStep (machine wire)) (w, []) reqs = some (w', answers) ∧
      hongbaoRead (machine wire).toWire (w'.redis.lookup key) = some (false, p) ∧
      (p.robitem.map fun item => centsOf item.money).sum + centsOf p.leftmoney = c ∧
      p.robitem.length + p.leftcount = hb.count ∧
      (∀ item ∈ p.robitem, 0 ≤ centsOf item.money) ∧ 0 ≤ centsOf p.leftmoney ∧
      (p.robitem.map (·.name)).Nodup ∧
      answers.countP (·.isok) ≤ hb.count ∧
      (p.leftcount = 0 → centsOf p.leftmoney = 0) := by
  have hstart : Books c hb.count key (w, []) := by
    refine ⟨_, ⟨hcalm, hlock, hp.trans hkept.store,
      booked_new hkept hmoney hc.le hmax (by omega) hn'⟩, fun h => ?_, rfl⟩
    have : hb.count = 0 := h
    omega
  obtain ⟨⟨w', answers⟩, hrun, p, hp', hexhausted, hcount⟩ := run_invariant
    (Books c hb.count key) (robStep_books wire hkey) reqs hstart hreqs
  have hbooks := hp'.booked.books
  have hsum := hbooks.money_sum
  have hcount_sum := hbooks.count_sum
  have hnodup := hbooks.names_nodup
  simp only [SendHongbao.inCents, List.map_map, List.length_map] at hsum hcount_sum hnodup
  refine ⟨w', answers, p, hrun, ?_, hsum, hcount_sum, fun item hitem => ?_, hbooks.leftmoney_nonneg,
    hnodup, ?_, hexhausted⟩
  · rw [hp'.packet]
    exact hp'.booked.kept.read
  · exact hbooks.share_nonneg item.inCents (List.mem_map_of_mem hitem)
  · have h0 := hp'.booked.leftcount_nonneg
    simp only at hcount
    omega

/-- A request for a packet of some cents in some shares. -/
def packetOf (cents count : Int) : Hongbaoreq :=
  { money := Amounts.double.ofCents cents, count := count }

/-- The store of a server without users that holds a new packet. -/
def shelfOf (hb : Hongbaoreq) (draws : List Nat) : World :=
  { redis := (∅ : AList _).insert "k" (newHongbao hb).stored, oracle := { draws := draws } }

/-- Ten cents in two shares; the first grab is given seven of them. -/
theorem robStep_run_accounted_tenCents :
    Calm (shelfOf (packetOf 10 2) [150]) ∧ ∃ w' answers p,
      run (robStep (machine plainWire)) (shelfOf (packetOf 10 2) [150], [])
        [{ hongbaokey := "k", selfname := "a" }, { hongbaokey := "k", selfname := "a" },
          { hongbaokey := "k", selfname := "b" }] = some (w', answers) ∧
      hongbaoRead (machine plainWire).toWire (w'.redis.lookup "k") = some (false, p) ∧
      (p.robitem.map fun item => centsOf item.money).sum + centsOf p.leftmoney = 10 ∧
      p.robitem.length + p.leftcount = 2 ∧
      (∀ item ∈ p.robitem, 0 ≤ centsOf item.money) ∧ 0 ≤ centsOf p.leftmoney ∧
      (p.robitem.map (·.name)).Nodup ∧ answers.countP (·.isok) ≤ (2 : Int) ∧
      (p.leftcount = 0 → centsOf p.leftmoney = 0) := by
  have hkept : (newHongbao (packetOf 10 2)).Kept := by decide +kernel
  exact ⟨rfl, robStep_run_accounted plainWire (packetOf 10 2) 10 "k" (shelfOf (packetOf 10 2) [150])
    (by decide) rfl (by decide +kernel) hkept.store.symm hkept rfl (by decide) (by decide)
    (by decide) (by decide) _ (by decide +kernel)⟩

/-- What is read of the packet after the grabs of some users: its cents, the shares left, and the
cents that each grab was given. -/
def grabsOf (hb : Hongbaoreq) (users : List String) : Option (Int × Int × List Int) := do
  let s ← run (robStep (machine plainWire)) (shelfOf hb [], [])
    (users.map fun name => { hongbaokey := "k", selfname := name })
  let r ← hongbaoRead (machine plainWire).toWire (s.1.redis.lookup "k")
  some (centsOf r.2.leftmoney, r.2.leftcount, (s.2.filter (·.isok)).map fun a => centsOf a.robmoney)

/-- Three packets as `setpb` stores them. A dollar in 126 shares is read without shares; 490.00 in
two shares is read as 2.08; and of 29 cents in one share the grab is given 28, which leaves a cent
and no share. -/
theorem packet_books_broken :
    (∀ hb ∈ [packetOf 100 126, packetOf 49000 2, packetOf 29 1], (shelfOf hb []).redis.lookup "k" =
      (machine plainWire).store (.hongbao (newHongbao hb))) ∧
      grabsOf (packetOf 100 126) ["a"] = some (100, 0, []) ∧
      grabsOf (packetOf 49000 2) [] = some (208, 2, []) ∧
      grabsOf (packetOf 29 1) ["a"] = some (1, 0, [28]) := by
  constructor
  · intro hb hmem
    have hlen : (newHongbao hb).serialize.length < kValueSize := by
      revert hb
      decide +kernel
    rw [SendHongbao.store_of_lt hlen]
    rfl
  · decide +kernel

end IMServer.Business
