import IMServer.Business.Outcomes
import IMServer.Business.Registration

/-!
# The answer to a registration

`Register` of `server/src/BaseBusiness.cc:77–126` alone, for every table and every outcome of its
store calls: what it answers, and what it has done to the table. MySQL reads the texts; the results
are about requests whose texts are read as they are meant.
-/

namespace IMServer.Business

open IMServer.Base

/-- A new row of the requested name is in the table. -/
def Inserted (info : Register) (users users' : List IMUser) : Prop :=
  ∃ row, row.name = info.username ∧ users' = users ++ [row]

/-- The answer says whether a row was inserted, and a request that is refused is answered with a
text and leaves the table alone. -/
structure Reports (info : Register) (users users' : List IMUser) (res : Int × Response) :
    Prop where
  result : res.2.result = true ↔ Inserted info users users'
  ret : res.1 = 0 ↔ Inserted info users users'
  refused : info.username ∈ users.map (·.name) ∨ ¬ Inserted info users users' →
    res.2.result = false ∧ res.2.description ≠ "" ∧ users' = users

/-- The registration returns, and reports. -/
def RegisterReports (info : Register) (w : World) :
    Except Abort (Int × Response) → World → Prop
  | .ok res, w' => Reports info w.imUser w'.imUser res
  | .error _, _ => False

/-- How a registration that runs alone ends, with the table it leaves. Its store calls are its
connection, the connection of the look-up, the look-up and the insertion. -/
inductive RegisterEnd (info : Register) (w : World) :
    Except Abort (Int × Response) → List IMUser → Prop where
  /-- The name is in use, or could not be looked up. -/
  | repeated (taken : w.outcomeAt 1 = .done → w.outcomeAt 2 = .done →
      info.username ∈ usernames w) :
      RegisterEnd info w (.ok (0, { result := true, description := "" })) w.imUser
  /-- The name is free and there is no connection to insert it. -/
  | noConnection (failed : w.outcomeAt 0 ≠ .done) :
      RegisterEnd info w (.error .nullPointer) w.imUser
  /-- The insertion was executed, as often as its outcome says. -/
  | executed (done : ∀ n < 3, w.outcomeAt n = .done) (free : info.username ∉ usernames w)
      (rows : List IMUser) (count : rows.length = (w.outcomeAt 3).times)
      (names : ∀ row ∈ rows, row.name = info.username) (res : Int × Response)
      (result : res.2 = { result := decide ((w.outcomeAt 3).code = 0), description := "" })
      (ret : res.1 = if (w.outcomeAt 3).code = 0 then 0 else -1) :
      RegisterEnd info w (.ok res) (w.imUser ++ rows)

/-! ### The look-up and the insertion -/

section Rules

variable {α : Type} {Q : Except Abort α → World → Prop} {w : World} {b : Ledger}

private theorem ends_queryName {name : String} {f : Option (List IMUser) → Op α} (hw : w.ledger = b)
    (hnone : b.outcome ≠ .done → ∀ w', w'.ledger = b.spend →
      Prog.Ends (execWith .meant) Q (f none) w')
    (hrows : b.outcome = .done → ∀ w', w'.ledger = b.spend →
      Prog.Ends (execWith .meant) Q (f (some (b.imUser.filter (·.name = name)))) w') :
    Prog.Ends (execWith .meant) Q (issue (.queryName name) >>= f) w := by
  subst hw
  by_cases ho : w.outcome = .done
  · exact .request (congrArg (·, w.spend) (if_pos ho)) (hrows ho _ rfl)
  · exact .request (congrArg (·, w.spend) (if_neg ho)) (hnone ho _ rfl)

/-- The look-up answers 0 exactly when both of its calls succeed and the name is free. -/
theorem ends_checkDuplication {info : Register} {f : Int → Op α} (hw : w.ledger = b)
    (hrepeat : (b.outcome = .done → b.spend.outcome = .done →
        info.username ∈ b.imUser.map (·.name)) →
      ∀ w' : World, w'.imUser = b.imUser → Prog.Ends (execWith .meant) Q (f (-1)) w')
    (hfree : b.outcome = .done → b.spend.outcome = .done →
      info.username ∉ b.imUser.map (·.name) →
      ∀ w', w'.ledger = b.spend.spend → Prog.Ends (execWith .meant) Q (f 0) w') :
    Prog.Ends (execWith .meant) Q (checkDuplication info >>= f) w := by
  refine ends_getConnection hw (fun ho w₁ hw₁ => ?_) fun ho h w₁ hw₁ => ?_
  · exact hrepeat (fun hdone => absurd hdone ho) _ (congrArg Ledger.imUser hw₁)
  refine ends_queryName hw₁ (fun ho' w₂ hw₂ => ?_) fun ho' w₂ hw₂ => ?_
  · exact hrepeat (fun _ hdone => absurd hdone ho') _ (congrArg Ledger.imUser hw₂)
  cases hrows : b.spend.imUser.filter (·.name = info.username) with
  | nil =>
    have hnone : ∀ row ∈ b.spend.imUser, row.name ≠ info.username := by
      simpa [List.filter_eq_nil_iff] using hrows
    refine hfree ho ho' (fun hmem => ?_) _ hw₂
    obtain ⟨row, hrow, hname⟩ := List.mem_map.mp hmem
    exact hnone row hrow hname
  | cons row rows =>
    refine hrepeat (fun _ _ => ?_) _ (congrArg Ledger.imUser hw₂)
    have hrow : row ∈ b.imUser.filter (·.name = info.username) :=
      hrows ▸ List.mem_cons_self
    rw [List.mem_filter, decide_eq_true_iff] at hrow
    exact List.mem_map.mpr ⟨row, hrow⟩

/-- A row is inserted as often as its statement is applied. -/
theorem imUser_iterate (row : IMUser) (n : Nat) (w : World) :
    ∃ rows : List IMUser, ((World.apply · (.insertUser row))^[n] w).imUser = w.imUser ++ rows ∧
      rows.length = n ∧ ∀ r ∈ rows, r.name = row.name := by
  induction n generalizing w with
  | zero => exact ⟨[], (List.append_nil _).symm, rfl, by simp⟩
  | succ n ih =>
    obtain ⟨rows, himUser, hlength, hnames⟩ := ih (w.apply (.insertUser row))
    refine ⟨{ row with id := (w.imUser.map (·.id)).foldl max 0 + 1 } :: rows, ?_, ?_, ?_⟩
    · rw [Function.iterate_succ_apply, himUser]
      exact List.append_assoc ..
    · rw [List.length_cons, hlength]
    · intro r hr
      rcases List.mem_cons.mp hr with rfl | hr
      · rfl
      · exact hnames r hr

private theorem ends_insertUser {row : IMUser} {f : Int → Op α} (hw : w.ledger = b)
    (hdone : ∀ rows : List IMUser, rows.length = b.outcome.times →
      (∀ r ∈ rows, r.name = row.name) → ∀ w' : World, w'.imUser = b.imUser ++ rows →
      Prog.Ends (execWith .meant) Q (f b.outcome.code) w') :
    Prog.Ends (execWith .meant) Q (issue (.execute (.insertUser row)) >>= f) w := by
  subst hw
  obtain ⟨rows, himUser, hlength, hnames⟩ := imUser_iterate row w.outcome.times w.spend
  exact .request (execWith_meant _ w) (hdone rows hlength hnames _ himUser)

end Rules

private theorem register_ends (info : Register) (w : World) :
    Prog.Ends (execWith .meant) (fun res w' => RegisterEnd info w res w'.imUser)
      (register info) w := by
  have hrepeated (w' : World) (hw' : w'.imUser = w.imUser)
      (hused : w.outcomeAt 1 = .done → w.outcomeAt 2 = .done → info.username ∈ usernames w) :
      RegisterEnd info w (.ok (0, { result := true, description := "" })) w'.imUser := by
    rw [hw']
    exact .repeated hused
  refine ends_getConnection rfl (fun h₀ w₁ hw₁ => ?_) fun h₀ h w₁ hw₁ => ?_
  · refine ends_checkDuplication hw₁ (fun hused w₂ hw₂ => hrepeated w₂ hw₂ hused)
      fun _ _ _ w₂ hw₂ => ?_
    show RegisterEnd info w (.error .nullPointer) w₂.imUser
    rw [show w₂.imUser = w.imUser from congrArg Ledger.imUser hw₂]
    exact .noConnection h₀
  · refine ends_checkDuplication hw₁ (fun hused w₂ hw₂ => hrepeated w₂ hw₂ hused)
      fun h₁ h₂ hfree w₂ hw₂ => ?_
    refine ends_insertUser hw₂ fun rows hlength hnames w₃ hw₃ => ?_
    show RegisterEnd info w (.ok _) w₃.imUser
    rw [hw₃]
    refine .executed (fun n hn => ?_) hfree rows hlength hnames _ rfl ?_
    · obtain rfl | rfl | rfl : n = 0 ∨ n = 1 ∨ n = 2 := by omega
      · exact h₀
      · exact h₁
      · exact h₂
    · by_cases hcode : (w.outcomeAt 3).code = 0
      · exact (if_pos (decide_eq_true hcode)).trans (if_pos hcode).symm
      · exact (if_neg (mt of_decide_eq_true hcode)).trans (if_neg hcode).symm

/-- Where the texts are read as they are meant, a registration runs as if MySQL were given the
statements. -/
theorem run_register_plain (foreign : Server) {info : Register} (hplain : info.Plain) {w : World}
    (htidy : TidyAccounts w) :
    Prog.run (execWith (textServer 10000 foreign)) (register info) w =
      Prog.run (execWith .meant) (register info) w := by
  refine Prog.Uses.run_congr TidyAccounts ?_ (follows_register info).uses htidy
  rintro c ⟨φ, ha⟩ w' hw'
  rw [execWith_meant]
  exact execWith_of_allow foreign hplain ha hw'

/-- A table is no longer than itself. -/
theorem not_inserted_self (info : Register) (users : List IMUser) :
    ¬ Inserted info users users := by
  rintro ⟨row, -, hrow⟩
  exact absurd (congrArg List.length hrow) (by simp)

/-- A new row is one more. -/
theorem inserted_length {info : Register} {users users' : List IMUser}
    (h : Inserted info users users') : users'.length = users.length + 1 := by
  obtain ⟨row, -, rfl⟩ := h
  exact List.length_append

/-- A registration that was executed reports what happened exactly when its insertion was. -/
theorem reports_executed_iff {info : Register} {w : World} {rows : List IMUser}
    (hcount : rows.length = (w.outcomeAt 3).times)
    (hnames : ∀ row ∈ rows, row.name = info.username) (free : info.username ∉ usernames w)
    {res : Int × Response}
    (hresult : res.2 = { result := decide ((w.outcomeAt 3).code = 0), description := "" })
    (hret : res.1 = if (w.outcomeAt 3).code = 0 then 0 else -1) :
    Reports info w.imUser (w.imUser ++ rows) res ↔ w.outcomeAt 3 = .done := by
  obtain ⟨ret, resp⟩ := res
  cases hresult
  cases hret
  have hinserted : Inserted info w.imUser (w.imUser ++ rows) ↔ rows.length = 1 := by
    constructor
    · intro h
      have := inserted_length h
      rw [List.length_append] at this
      omega
    · intro h
      obtain ⟨row, rfl⟩ := List.length_eq_one_iff.mp h
      exact ⟨row, hnames row (List.mem_singleton_self row), rfl⟩
  rw [hcount] at hinserted
  generalize w.outcomeAt 3 = o at hinserted
  cases o with
  | done =>
    have hnew := hinserted.mpr rfl
    exact iff_of_true ⟨iff_of_true rfl hnew, iff_of_true rfl hnew,
      fun h => (h.elim free (· hnew)).elim⟩ rfl
  | resent =>
    refine iff_of_false (fun h => ?_) (by decide)
    exact absurd (hinserted.mp (h.result.mp rfl)) (by decide)
  | replyLost =>
    refine iff_of_false (fun h => ?_) (by decide)
    exact Bool.noConfusion (h.result.mpr (hinserted.mpr rfl))
  | noReply | noInit | resentLost =>
    refine iff_of_false (fun h => (h.refused (.inr fun hnew => ?_)).2.1 rfl) (by decide)
    exact absurd (hinserted.mp hnew) (by decide)

/-- The answer reports what happened exactly when every store call succeeds and the name was
free: a name in use and a failed look-up are answered like a success, a failed insertion is
answered without a text, and so is one whose reply was lost. -/
theorem register_reports_iff (foreign : Server) (info : Register) (hplain : info.Plain) (w : World)
    (htidy : TidyAccounts w) :
    Prog.Ends (execWith (textServer 10000 foreign)) (RegisterReports info w) (register info) w ↔
      (∀ n < 4, w.outcomeAt n = .done) ∧ info.username ∉ usernames w := by
  have hends : Prog.Ends (execWith (textServer 10000 foreign))
      (fun res w' => RegisterEnd info w res w'.imUser) (register info) w := by
    unfold Prog.Ends
    rw [run_register_plain foreign hplain htidy]
    exact register_ends info w
  refine hends.iff_of fun res w' hend => ?_
  generalize husers : w'.imUser = users at hend
  cases hend with
  | repeated taken =>
    refine iff_of_false (fun h => ?_) fun h => ?_
    · refine not_inserted_self info w.imUser ?_
      simpa [husers] using h.result
    · exact h.2 (taken (h.1 1 (by omega)) (h.1 2 (by omega)))
  | noConnection failed => exact iff_of_false id fun h => failed (h.1 0 (by omega))
  | executed done free rows count names res result ret =>
    show Reports info w.imUser w'.imUser res ↔ _
    rw [husers, reports_executed_iff count names free result ret]
    constructor
    · intro h₃
      refine ⟨fun n hn => ?_, free⟩
      obtain hn | rfl : n < 3 ∨ n = 3 := by omega
      · exact done n hn
      · exact h₃
    · exact fun h => h.1 3 (by omega)

/-- Alice has an account. -/
def aliceOnly : World := { imUser := [{ name := "alice" }] }

/-- A first registration of a plain name is reported. -/
theorem register_reports_bob :
    Prog.Ends (execWith (textServer 10000 .meant)) (RegisterReports { username := "bob" } aliceOnly)
      (register { username := "bob" }) aliceOnly :=
  (register_reports_iff .meant { username := "bob" } (by decide +kernel) aliceOnly
    (by decide +kernel)).mpr ⟨by decide, by decide⟩

/-- A registration that answers `true` and leaves the table as it was. -/
def AcceptedInVain (w : World) (res : Except Abort (Int × Response)) (w' : World) : Prop :=
  res = .ok (0, { result := true, description := "" }) ∧ w'.imUser = w.imUser

private theorem not_reports_of_acceptedInVain
    {info : Register} {p : Op (Int × Response)} {w : World}
    {server : Server} (h : Prog.Ends (execWith server) (AcceptedInVain w) p w) :
    ¬ Prog.Ends (execWith server) (RegisterReports info w) p w := by
  obtain ⟨hres, himUser⟩ := h
  unfold Prog.Ends
  rw [hres]
  intro hreports
  refine not_inserted_self info w.imUser ?_
  rw [RegisterReports, himUser] at hreports
  exact hreports.result.mp rfl

/-- A second registration of a name returns 0 and answers `true`, with the table as it was; and so
does one of a name that is not in use, which the query reads as a condition. -/
theorem register_used_name_accepted :
    (∀ info ∈ [{ username := "alice" }, { username := "x' or '1'='1" }],
      Prog.Ends (execWith (textServer 10000 .meant)) (AcceptedInVain aliceOnly) (register info)
          aliceOnly ∧
        ¬ Prog.Ends (execWith (textServer 10000 .meant)) (RegisterReports info aliceOnly)
          (register info) aliceOnly) ∧
    "x' or '1'='1" ∉ usernames aliceOnly := by
  refine ⟨?_, by decide⟩
  have haccepted : ∀ info ∈ [({ username := "alice" } : Register), { username := "x' or '1'='1" }],
      Prog.Ends (execWith (textServer 10000 .meant)) (AcceptedInVain aliceOnly) (register info)
        aliceOnly := by
    unfold Prog.Ends AcceptedInVain
    decide +kernel
  exact fun info hinfo =>
    ⟨haccepted info hinfo, not_reports_of_acceptedInVain (haccepted info hinfo)⟩

end IMServer.Business
