import IMServer.Business.Accounts
import IMServer.Business.Calls
import IMServer.Business.Machine

/-!
# Spending after a login

`SendHongbao` compares the amount with the balance that the session recorded at the login and
debits the account in MySQL; the session is not written back. Every request that the session, as
Redis gives it back, is not short of is accepted, however much has been spent since. Amounts are
counted as `%lf` prints them into the debit.
-/

namespace IMServer.Business

open IMServer.Base

/-- Serve one request: the world, and the requests so far with their answers. -/
def sendStep (fmt : Format) (s : World × List (Hongbaoreq × HongbaoResp)) (req : Hongbaoreq) :
    Option (World × List (Hongbaoreq × HongbaoResp)) :=
  match Prog.run exec (sendHongbao fmt req) s.1 with
  | (.ok (_, resp), w') => some (w', s.2 ++ [(req, resp)])
  | (.error _, _) => none

/-- Whether a request is answered with `isok`. -/
def accepts (fmt : Format) (w : World) (req : Hongbaoreq) : Bool :=
  match Prog.run exec (sendHongbao fmt req) w with
  | (.ok (_, resp), _) => resp.isok
  | (.error _, _) => false

/-- The amount that a request is debited with, in the tables. -/
def printedMoney (fmt : Format) (req : Hongbaoreq) : Int := (fmt.printed req.money).getD 0

/-- The amounts of the requests that were answered with `isok`. -/
def acceptedMoney (fmt : Format) (log : List (Hongbaoreq × HongbaoResp)) : Int :=
  ((log.filter (·.2.isok)).map fun e => printedMoney fmt e.1).sum

/-- The session shows more money than the request needs; `BaseBusiness.cc:440`. -/
def covers (fmt : Format) (s : Session) (req : Hongbaoreq) : Bool :=
  !fmt.short s.userinfo.money req.money

/-- The amounts of the requests that a session covers one by one. -/
def coveredMoney (fmt : Format) (s : Session) (reqs : List Hongbaoreq) : Int :=
  ((reqs.filter (covers fmt s)).map (printedMoney fmt)).sum

/-- A request of a user: its amount is printed as a positive number, and its packet fits. -/
structure Payable (fmt : Format) (username : String) (req : Hongbaoreq) : Prop where
  sender : req.sender = username
  money_pos : 0 < printedMoney fmt req
  fits : fmt.store (.hongbao (newHongbao req)) ≠ none

/-- The session of a user is read as `s`. -/
structure LoggedIn (fmt : Format) (username : String) (s : Session) (w : World) : Prop where
  calm : w.oracle.outcomes = []
  session : sessionRead fmt.toWire (w.redis.lookup (sessionKey username)) = some s

/-! ### One request -/

section Request

variable {fmt : Format} {username : String} {session : Session}

private theorem debit_eq {req : Hongbaoreq} (h : 0 < printedMoney fmt req) (name : String) :
    debit fmt req.money name = .addMoney (-printedMoney fmt req) name := by
  unfold printedMoney at h ⊢
  rw [debit, Amounts.statement]
  cases hp : fmt.printed req.money with
  | none =>
    rw [hp] at h
    exact absurd h (by decide)
  | some m => rfl

/-- A request of a logged-in user is accepted exactly when the session covers it; an accepted one
takes the amount from the account that the session names. -/
theorem sendStep_spec (s : World × List (Hongbaoreq × HongbaoResp))
    (h : LoggedIn fmt username session s.1) {req : Hongbaoreq} (hreq : Payable fmt username req) :
    ∃ resp w', sendStep fmt s req = some (w', s.2 ++ [(req, resp)]) ∧
      LoggedIn fmt username session w' ∧ resp.isok = covers fmt session req ∧
      accepts fmt s.1 req = covers fmt session req ∧
      w'.imUser = if covers fmt session req then
          (s.1.apply (.addMoney (-printedMoney fmt req) session.userinfo.name)).imUser
        else s.1.imUser := by
  obtain ⟨rfl, hpos, hfits⟩ := hreq
  obtain ⟨⟨code, resp⟩, w', hrun, hc, hstep⟩ := sendHongbao_spec fmt req h.calm h.session
    fun _ => hfits
  have hacc : accepts fmt s.1 req = resp.isok := by rw [accepts, hrun]
  refine ⟨resp, w', by rw [sendStep, hrun], ?_⟩
  rw [hacc]
  cases hstep with
  | refused short redis imUser =>
    have hcovers : covers fmt session req = false := by rw [covers, short]; rfl
    rw [hcovers]
    exact ⟨⟨hc, redis ▸ h.session⟩, rfl, rfl, imUser⟩
  | sent v covered stored redis imUser =>
    have hcovers : covers fmt session req = true := by rw [covers, covered]; rfl
    rw [hcovers]
    refine ⟨⟨hc, ?_⟩, rfl, rfl, ?_⟩
    · rw [redis, AList.lookup_insert_ne (hongbaoKey_ne_sessionKey _ _ _).symm, h.session]
    · rw [imUser, debit_eq hpos, if_pos rfl]

private theorem coveredMoney_cons (req : Hongbaoreq) (reqs : List Hongbaoreq) :
    coveredMoney fmt session (req :: reqs) =
      (if covers fmt session req then printedMoney fmt req else 0) +
        coveredMoney fmt session reqs := by
  cases h : covers fmt session req <;> simp [coveredMoney, h]

private theorem coveredMoney_nonneg {reqs : List Hongbaoreq}
    (h : ∀ req ∈ reqs, Payable fmt username req) : 0 ≤ coveredMoney fmt session reqs := by
  apply List.sum_nonneg
  intro x hx
  obtain ⟨req, hr, rfl⟩ := List.mem_map.mp hx
  exact (h req (List.mem_of_mem_filter hr)).money_pos.le

/-! ### A run of requests -/

/-- Along a run of requests the accepted ones are those that the session covers. -/
theorem run_sendStep (reqs : List Hongbaoreq) (s : World × List (Hongbaoreq × HongbaoResp))
    (h : LoggedIn fmt username session s.1) (hreqs : ∀ req ∈ reqs, Payable fmt username req) :
    ∃ w' log, run (sendStep fmt) s reqs = some (w', log) ∧
      acceptedMoney fmt log = acceptedMoney fmt s.2 + coveredMoney fmt session reqs := by
  induction reqs generalizing s with
  | nil => exact ⟨s.1, s.2, rfl, by simp [coveredMoney]⟩
  | cons req reqs ih =>
    obtain ⟨resp, w₁, hstep, h₁, hok, -, -⟩ := sendStep_spec s h (hreqs req List.mem_cons_self)
    obtain ⟨w', log, hrun, hacc⟩ := ih (w₁, s.2 ++ [(req, resp)]) h₁
      fun r hr => hreqs r (List.mem_cons_of_mem _ hr)
    refine ⟨w', log, by simp [run, hstep, hrun], ?_⟩
    have hadd : acceptedMoney fmt (s.2 ++ [(req, resp)]) =
        acceptedMoney fmt s.2 + if covers fmt session req then printedMoney fmt req else 0 := by
      cases hcov : covers fmt session req <;> simp [acceptedMoney, hok, hcov]
    rw [hacc, coveredMoney_cons, hadd, Int.add_assoc]

/-- The requests a run accepts all find their amount in the account exactly when the amounts that
the session covers do not exceed the account together. -/
theorem legal_covered_iff (hname : session.userinfo.name = username) (reqs : List Hongbaoreq)
    (s : World × List (Hongbaoreq × HongbaoResp)) (h : LoggedIn fmt username session s.1)
    (haccount : Registered (s.1.imUser.map (·.name)) username)
    (hbal : 0 ≤ balance s.1.imUser username) (hreqs : ∀ req ∈ reqs, Payable fmt username req) :
    Legal (sendStep fmt) (fun s req => accepts fmt s.1 req = true →
        printedMoney fmt req ≤ balance s.1.imUser username) s reqs ↔
      coveredMoney fmt session reqs ≤ balance s.1.imUser username := by
  induction reqs generalizing s with
  | nil => simpa [Legal, coveredMoney] using hbal
  | cons req reqs ih =>
    have hreqs' : ∀ r ∈ reqs, Payable fmt username r :=
      fun r hr => hreqs r (List.mem_cons_of_mem _ hr)
    have hrest : 0 ≤ coveredMoney fmt session reqs := coveredMoney_nonneg hreqs'
    have hp := (hreqs req List.mem_cons_self).money_pos
    obtain ⟨resp, w₁, hstep, h₁, -, hacc, himUser⟩ :=
      sendStep_spec s h (hreqs req List.mem_cons_self)
    rw [hname, World.imUser_addMoney] at himUser
    simp only [Legal, hstep, hacc]
    rw [coveredMoney_cons]
    cases hcov : covers fmt session req with
    | true =>
      rw [hcov, if_pos rfl] at himUser
      have hb₁ : balance w₁.imUser username =
          balance s.1.imUser username + -printedMoney fmt req := by
        rw [himUser, balance_addMoney, if_pos rfl, haccount.accounts, Nat.cast_one, one_mul]
      have ih := fun hbal => ih (w₁, s.2 ++ [(req, resp)]) h₁
        (by rw [himUser, names_addMoney]; exact haccount) hbal hreqs'
      simp only [hb₁] at ih
      simp only [forall_true_left, if_true]
      constructor
      · rintro ⟨hle, hl⟩
        have := (ih (by omega)).mp hl
        omega
      · intro hle
        exact ⟨by omega, (ih (by omega)).mpr (by omega)⟩
    | false =>
      rw [hcov, if_neg Bool.false_ne_true] at himUser
      have ih := ih (w₁, s.2 ++ [(req, resp)]) h₁ (by rw [himUser]; exact haccount)
        (by rw [himUser]; exact hbal) hreqs'
      rw [himUser] at ih
      simpa using ih

end Request

/-! ### After a login -/

/-- A login with the password of the only account of its name succeeds and stores a session. -/
theorem login_succeeds {fmt : Format} {w : World} {req : Login} {row : IMUser} {v : RedisValue}
    (hc : Calm w) (hreg : w.imUser.filter (·.name = req.username) = [row])
    (hpassword : row.password = req.password)
    (hv : fmt.store (.session (newSession req.username row fmt.toAmounts)) = some v) :
    ∃ res w', Prog.run exec (login req fmt) w = (.ok res, w') ∧ res.1 = 0 ∧
      w'.oracle.outcomes = [] ∧ w'.imUser = w.imUser ∧
      w'.redis.lookup (sessionKey req.username) = some v := by
  have hrows : loginRows w req = [row] := by
    have hsel : loginRows w req = [row].filter (·.password = req.password) := by
      rw [← hreg, loginRows, List.filter_filter]
      simp only [Bool.decide_and, Bool.and_comm]
    rw [hsel]
    simp [hpassword]
  obtain ⟨res, w', hrun, hc', himUser, -, -, -, hrow⟩ := login_spec req fmt hc (by
    rw [hrows]
    intro row' hrow'
    rw [← Option.some.inj hrow', hv]
    exact Option.some_ne_none v)
  rw [hrows] at hrow
  obtain ⟨hres, v', hv', hredis⟩ := hrow
  rw [hv] at hv'
  cases hv'
  exact ⟨res, w', hrun, hres, hc', himUser, by rw [hredis, AList.lookup_insert]⟩

/-- The only row of a name is its account. -/
theorem account_of_filter {users : List IMUser} {name : String} {row : IMUser}
    (h : users.filter (·.name = name) = [row]) :
    Registered (users.map (·.name)) name ∧ balance users name = row.money := by
  have hcount : users.countP (·.name = name) = 1 := by rw [List.countP_eq_length_filter, h]; rfl
  constructor
  · rw [Registered, List.count, List.countP_map]
    exact hcount
  · rw [balance_eq_filter, h]
    simp

/-- An account of a hundred euros. -/
def hundredRow : IMUser := { name := "alice", password := "pw", money := 100000000 }

/-- A server with that account, and a clock that moves between requests. -/
def hundredEuros : World := { imUser := [hundredRow], oracle := { ticks := [1, 1] } }

/-- The world after the user of that account has logged in. -/
def afterLogin : World :=
  (Prog.run exec (login { username := "alice", password := "pw" } (machine plainWire))
    hundredEuros).2

/-- A request for a packet of sixty euros. -/
def sixtyEuros : Hongbaoreq :=
  { sender := "alice", money := Amounts.double.ofCents 6000, count := 1 }

end IMServer.Business
