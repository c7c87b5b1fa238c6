import IMServer.Business.Accounting
import Mathlib.Tactic.Linarith

/-!
# What a grab of a funded packet pays

The draws of `getRandomMoney` (`server/src/BaseBusiness.cc:484–505`) on a packet that holds at
least one cent for each of its shares, over the bytes and `double`s of the source: while no cent is
lost and every packet survives the store, the packet stays funded whatever is drawn, but a low draw
rounds a share down to nothing.
-/

namespace IMServer.Business

open IMServer.Base

/-- At least one cent for every share that is left, and no draw that overflows. -/
structure Funded (p : SendHongbao) : Prop where
  leftcount_nonneg : 0 ≤ p.leftcount
  leftcount_le : p.leftcount ≤ p.leftmoney
  small : p.leftmoney * 199 < 2 ^ 31

/-- A draw whose share is at least one cent. -/
def Pays (p : SendHongbao) (draw : Int) : Prop :=
  p.leftcount = 1 ∨ p.leftmoney / p.leftcount = 1 ∨ 100 * p.leftcount ≤ p.leftmoney * draw

/-! ### One share -/

section Share

variable {rem n d : Int}

/-- A draw in whole cents, without overflow. -/
theorem drawnMoney_eq (h0 : 0 ≤ rem) (hmax : rem * 199 < 2 ^ 31) (hd : 0 ≤ d) (hd' : d ≤ 199) :
    drawnMoney rem n d = rem * d / 100 / n := by
  have hp : 0 ≤ rem * d := Int.mul_nonneg h0 hd
  have hp' : rem * d ≤ rem * 199 := Int.mul_le_mul_of_nonneg_left hd' h0
  rw [drawnMoney, wrap_eq_self (by decide) (by omega) (by omega),
    Int.tdiv_eq_ediv_of_nonneg hp, Int.tdiv_eq_ediv_of_nonneg (by omega)]

/-- When a share of a funded amount is at least one cent. -/
theorem one_le_shareOf_iff (hn : 1 ≤ n) (hle : n ≤ rem) (hmax : rem * 199 < 2 ^ 31) (hd : 1 ≤ d)
    (hd' : d ≤ 199) :
    1 ≤ shareOf rem n d ↔ n = 1 ∨ rem / n = 1 ∨ 100 * n ≤ rem * d := by
  rw [shareOf, if_neg (by omega), Int.tdiv_eq_ediv_of_nonneg (by omega)]
  by_cases h1 : rem / n = 1
  · rw [if_pos h1]
    exact iff_of_true (Int.le_refl 1) (.inr (.inl h1))
  rw [if_neg h1]
  by_cases hl : n = 1
  · rw [if_pos hl]
    exact iff_of_true (by omega) (.inl hl)
  rw [if_neg hl, drawnMoney_eq (by omega) hmax (by omega) hd', Int.le_ediv_iff_mul_le (by omega),
    Int.le_ediv_iff_mul_le (by omega)]
  simp only [hl, h1, false_or]
  omega

/-- A share leaves a cent for each of the others. -/
theorem shareOf_leaves (hn : 1 ≤ n) (hle : n ≤ rem) (hmax : rem * 199 < 2 ^ 31) (hd : 1 ≤ d)
    (hd' : d ≤ 199) : 0 ≤ shareOf rem n d ∧ n - 1 ≤ rem - shareOf rem n d := by
  rw [shareOf, if_neg (by omega), Int.tdiv_eq_ediv_of_nonneg (by omega)]
  by_cases h1 : rem / n = 1
  · rw [if_pos h1]
    omega
  rw [if_neg h1]
  by_cases hl : n = 1
  · rw [if_pos hl]
    omega
  rw [if_neg hl, drawnMoney_eq (by omega) hmax (by omega) hd']
  have hp : 0 ≤ rem * d := Int.mul_nonneg (by omega) (by omega)
  have hp' : rem * d ≤ rem * 199 := Int.mul_le_mul_of_nonneg_left hd' (by omega)
  refine ⟨Int.ediv_nonneg (by omega) (by omega), ?_⟩
  -- the average is at least two cents, as it is not one
  have htwo : 2 * n ≤ rem := by
    have hone : 1 ≤ rem / n := (Int.le_ediv_iff_mul_le (by omega)).mpr (by omega)
    have h2 : 2 ≤ rem / n := by omega
    exact (Int.le_ediv_iff_mul_le (by omega)).mp h2
  have hmul : rem * d / 100 / n * n ≤ rem * d / 100 := Int.ediv_mul_le _ (by omega)
  have hcents : rem * d / 100 * 100 ≤ rem * 199 := by omega
  generalize rem * d / 100 / n = g at hmul ⊢
  by_contra hlt
  have hg : (rem - n + 2) * n ≤ g * n := Int.mul_le_mul_of_nonneg_right (by omega) (by omega)
  have hn2 : 0 ≤ (n - 2) * n := Int.mul_nonneg (by omega) (by omega)
  have hmore : 0 ≤ (n - 2) * (rem - 2 * n) := Int.mul_nonneg (by omega) (by omega)
  linarith

end Share

/-! ### One grab -/

/-- Taking a share leaves the packet funded. -/
theorem Funded.takeShare {p : SendHongbao} (h : Funded p) (hleft : p.leftcount ≠ 0) {draw : Int}
    (hd : 1 ≤ draw) (hd' : draw ≤ 199) (name : String) (t : Int) :
    Funded (takeShare p name (shareOf p.leftmoney p.leftcount draw) t) := by
  have hc := h.leftcount_nonneg
  have hm := h.leftcount_le
  have hs := h.small
  obtain ⟨h0, hrest⟩ := shareOf_leaves (by omega) hm hs hd hd'
  rw [takeShare_eq (by omega) (by omega)]
  constructor
  · show 0 ≤ p.leftcount - 1
    omega
  · exact hrest
  · show (p.leftmoney - shareOf p.leftmoney p.leftcount draw) * 199 < 2 ^ 31
    omega

/-- A funded packet lies under the key, and its lock is free. -/
def Stocked (c n : Int) (key : String) (s : World × List RespRobHongbao) : Prop :=
  ∃ p, Shelved c n key s.1 p ∧ Funded p.inCents

/-- Every grab that was answered with a share was paid for. -/
def AllPaid (s : World × List RespRobHongbao) : Prop :=
  ∀ resp ∈ s.2, resp.isok = true → 1 ≤ centsOf resp.robmoney

/-- If the next grab is given a share, the draw pays at least one cent. -/
def PaysNext (wire : Wire) (s : World × List RespRobHongbao) (req : ReqRobHongbao) : Prop :=
  ∀ r ∈ hongbaoRead (machine wire).toWire (s.1.redis.lookup req.hongbaokey),
    refused req r = false → Pays r.2.inCents s.1.draw

private theorem robStep_stocked (wire : Wire) {c n : Int} {key : String} (hkey : key ≠ "")
    (s : World × List RespRobHongbao) (req : ReqRobHongbao) (hs : Stocked c n key s)
    (hpre : req.hongbaokey = key ∧ Undamaged wire s req) :
    ∃ s', robStep (machine wire) s req = some s' ∧ Stocked c n key s' ∧
      (AllPaid s' ↔ AllPaid s ∧ PaysNext wire s req) := by
  obtain ⟨p, hp, hfund⟩ := hs
  obtain ⟨resp, w', hstep, hcases⟩ := hp.robStep hkey hpre.1 hpre.2
  have hread : hongbaoRead (machine wire).toWire (s.1.redis.lookup req.hongbaokey) =
      some (false, p) := by
    rw [hpre.1, hp.packet]
    exact hp.booked.kept.read
  have hall : AllPaid (w', s.2 ++ [resp]) ↔
      AllPaid s ∧ (resp.isok = true → 1 ≤ centsOf resp.robmoney) := by
    simp only [AllPaid, List.mem_append, List.mem_singleton, or_imp, forall_and, forall_eq]
  have hnext : PaysNext wire s req ↔
      (refused req (false, p) = false → Pays p.inCents s.1.draw) := by
    rw [PaysNext, hread]
    simp only [Option.mem_def, Option.some.injEq, forall_eq']
  refine ⟨_, hstep, ?_⟩
  rw [hall, hnext]
  rcases hcases with ⟨hrefused, isok, hp'⟩ | ⟨hgiven, isok, robmoney, hcast, hp'⟩
  · refine ⟨⟨p, hp', hfund⟩, ?_⟩
    simp [hrefused, isok]
  · obtain ⟨-, -, hleft⟩ := of_not_refused hgiven
    obtain ⟨hd, hd'⟩ := s.1.draw_bounds
    have hcount := hfund.leftcount_nonneg
    have hleft' : p.inCents.leftcount ≠ 0 := hleft
    have hshare : grabbed (machine wire) p s.1 =
        shareOf p.inCents.leftmoney p.inCents.leftcount s.1.draw := by
      rw [grabbed, hcast, hp.booked.wrap_leftcount]
      rfl
    have hsmall := hp.booked.small_grabbed wire hleft s.1
    refine ⟨⟨_, hp', ?_⟩, ?_⟩
    · rw [(hp.booked.leftAfter hgiven hp'.booked.kept).2, hshare]
      exact hfund.takeShare hleft' hd hd' _ _
    · have hpaid : centsOf resp.robmoney =
          shareOf p.inCents.leftmoney p.inCents.leftcount s.1.draw := by
        rw [robmoney, ← hshare]
        exact centsOf_ofCents hsmall
      have hpays : 1 ≤ shareOf p.inCents.leftmoney p.inCents.leftcount s.1.draw ↔
          Pays p.inCents s.1.draw :=
        one_le_shareOf_iff (by omega) hfund.leftcount_le hfund.small hd hd'
      rw [hpaid, hpays]
      simp only [isok, hgiven, forall_true_left]

/-- From a new packet of at least as many cents as shares, after any grabs of it that lose no cent
and store what is read back: the packet holds at least one cent for each share that is left, and
every share that was given is at least one cent exactly when no draw was too low for the packet it
met. -/
theorem robStep_run_pays_iff (wire : Wire) (hb : Hongbaoreq) (c : Int) (key : String) (w : World)
    (hkey : key ≠ "") (hcalm : Calm w) (hlock : RedisLock.getLockKey key ∉ w.redis)
    (hp : w.redis.lookup key = (machine wire).store (.hongbao (newHongbao hb)))
    (hkept : (newHongbao hb).Kept) (hmoney : hb.money = (machine wire).ofCents c)
    (hn : 0 ≤ hb.count) (hle : hb.count ≤ c) (hmax : c * 199 < 2 ^ 31)
    (reqs : List ReqRobHongbao)
    (hreqs : Legal (robStep (machine wire))
      (fun s req => req.hongbaokey = key ∧ Undamaged wire s req) (w, []) reqs) :
    ∃ w' answers p, run (robStep (machine wire)) (w, []) reqs = some (w', answers) ∧
      hongbaoRead (machine wire).toWire (w'.redis.lookup key) = some (false, p) ∧
      p.leftcount ≤ centsOf p.leftmoney ∧
      ((∀ resp ∈ answers, resp.isok = true → 1 ≤ centsOf resp.robmoney) ↔
        Legal (robStep (machine wire)) (PaysNext wire) (w, []) reqs) := by
  have hstart : Stocked c hb.count key (w, []) := by
    refine ⟨_, ⟨hcalm, hlock, hp.trans hkept.store,
      booked_new hkept hmoney (by omega) hmax hn (by omega)⟩, ?_⟩
    rw [(whole_newHongbao ⟨by omega, by omega⟩ hmoney).2]
    exact ⟨hn, hle, hmax⟩
  obtain ⟨⟨w', answers⟩, hrun, ⟨p, hp', hfund⟩, hpaid⟩ := run_good_iff (Stocked c hb.count key)
    (robStep_stocked wire hkey) reqs hstart hreqs
  refine ⟨w', answers, p, hrun, ?_, hfund.leftcount_le, hpaid.trans (and_iff_right ?_)⟩
  · rw [hp'.packet]
    exact hp'.booked.kept.read
  · exact fun resp hresp => absurd hresp List.not_mem_nil

/-- Two grabs of a dollar in two shares. -/
def twoGrabs : List ReqRobHongbao :=
  [{ hongbaokey := "k", selfname := "a" }, { hongbaokey := "k", selfname := "b" }]

/-- A dollar in two shares. -/
theorem robStep_run_pays_oneDollar :
    Calm (shelfOf (packetOf 100 2) [0]) ∧ ∃ w' answers p,
      run (robStep (machine plainWire)) (shelfOf (packetOf 100 2) [0], []) twoGrabs =
        some (w', answers) ∧
      hongbaoRead (machine plainWire).toWire (w'.redis.lookup "k") = some (false, p) ∧
      p.leftcount ≤ centsOf p.leftmoney ∧
      ((∀ resp ∈ answers, resp.isok = true → 1 ≤ centsOf resp.robmoney) ↔
        Legal (robStep (machine plainWire)) (PaysNext plainWire)
          (shelfOf (packetOf 100 2) [0], []) twoGrabs) := by
  have hkept : (newHongbao (packetOf 100 2)).Kept := by decide +kernel
  exact ⟨rfl, robStep_run_pays_iff plainWire (packetOf 100 2) 100 "k" (shelfOf (packetOf 100 2) [0])
    (by decide) rfl (by decide +kernel) hkept.store.symm hkept rfl (by decide) (by decide)
    (by decide) _ (by decide +kernel)⟩

/-- The lowest draw: the first of two users takes nothing of a dollar, the second takes all of
it. -/
theorem oneDollar_pays_nothing :
    (shelfOf (packetOf 100 2) [0]).redis.lookup "k" =
        (machine plainWire).store (.hongbao (newHongbao (packetOf 100 2))) ∧
      (run (robStep (machine plainWire)) (shelfOf (packetOf 100 2) [0], []) twoGrabs).map
        (fun s => s.2.map fun resp => (resp.isok, centsOf resp.robmoney)) =
          some [(true, 0), (true, 100)] := by
  have hkept : (newHongbao (packetOf 100 2)).Kept := by decide +kernel
  exact ⟨hkept.store.symm, by decide +kernel⟩

end IMServer.Business
