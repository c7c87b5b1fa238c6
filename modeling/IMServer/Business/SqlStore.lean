import IMServer.Business.SqlText
import IMServer.Business.Store
import IMServer.Cache.Encoding
import IMServer.Database.Mysql

/-!
# MySQL and the text it is given

`Store.lean` applies a statement as it is meant. Here the server is a parameter: what it makes of
a statement, and which rows a query selects. `textServer` reads the text that `snprintf` writes
(`BaseBusiness.cc:97–107, 143, 450, 602`): a statement on `IMUser` whose text has the tokens it is
meant to have, and whose values the columns of `im.sql:262–276` hold as they are, is applied as it
is meant; any other text is left to an arbitrary server. What becomes of the table of packets is
not followed.
-/

namespace IMServer.Business

open IMServer.Base IMServer.Cache IMServer.Database

/-! ### `Execute` -/

/-- However a call of `Mysql::Execute` goes, it ends as one of the outcomes of a store call. -/
theorem execute_outcome (m : Mysql) (sql : String) :
    ∃ o : Outcome, (m.execute sql).1 = o.code ∧
      (m.execute sql).2.connection.applied =
        m.connection.applied ++ List.replicate o.times sql := by
  have hcheck := Mysql.checkConnection_applied m
  unfold Mysql.execute
  generalize m.checkConnection = r at hcheck ⊢
  obtain ⟨_ | _, m'⟩ := r
  · exact ⟨.noInit, rfl, hcheck.trans (List.append_nil _).symm⟩
  · obtain ⟨hret, happlied⟩ := Mysql.mysqlQuery_eq m'.connection sql
    dsimp only
    rw [hret, happlied, hcheck]
    cases m'.connection.outcome with
    | applied => exact ⟨.done, rfl, rfl⟩
    | replyLost =>
      cases m'.connection.alive with
      | false => exact ⟨.replyLost, rfl, rfl⟩
      | true =>
        cases m'.connection.nextOutcome with
        | applied => exact ⟨.resent, rfl, rfl⟩
        | replyLost => exact ⟨.resentLost, rfl, rfl⟩
        | failed => exact ⟨.replyLost, rfl, rfl⟩
    | failed =>
      cases m'.connection.alive with
      | false => exact ⟨.noReply, rfl, rfl⟩
      | true =>
        cases m'.connection.nextOutcome with
        | applied => exact ⟨.done, rfl, rfl⟩
        | replyLost => exact ⟨.replyLost, rfl, rfl⟩
        | failed => exact ⟨.noReply, rfl, rfl⟩

/-- Every outcome is one of `Mysql::Execute`. -/
theorem exists_execute (o : Outcome) (sql : String) :
    ∃ m : Mysql, (m.execute sql).1 = o.code ∧
      (m.execute sql).2.connection.applied =
        m.connection.applied ++ List.replicate o.times sql := by
  cases o with
  | done => exact ⟨{}, rfl, rfl⟩
  | noReply => exact ⟨{ connection := { queries := [.failed, .failed] } }, rfl, rfl⟩
  | noInit =>
    exact ⟨{ connection := { connects := [false, false], pings := [false] } }, rfl, rfl⟩
  | replyLost => exact ⟨{ connection := { queries := [.replyLost, .failed] } }, rfl, rfl⟩
  | resent => exact ⟨{ connection := { queries := [.replyLost] } }, rfl, rfl⟩
  | resentLost => exact ⟨{ connection := { queries := [.replyLost, .replyLost] } }, rfl, rfl⟩

/-! ### Servers -/

/-- What MySQL makes of the statements and queries of the business functions. -/
structure Server where
  /-- The text is refused. -/
  refuses : Statement → Bool
  /-- `IMUser` after a statement on it. -/
  imUser : Statement → List IMUser → List IMUser
  /-- `Hongbao` after a statement on it. -/
  hongbao : Statement → List HongbaoRow → List HongbaoRow
  /-- The rows that the query of `CheckDuplication` selects; `none` when it is refused. -/
  queryName : String → List IMUser → Option (List IMUser)
  /-- The rows that the query of `Login` selects. -/
  queryLogin : String → String → List IMUser → Option (List IMUser)

/-- Apply a statement once: its text names one table. -/
def World.applyBy (server : Server) (stmt : Statement) (w : World) : World :=
  if server.refuses stmt then w
  else
    match stmt with
    | .addMoney _ _ | .insertUser _ => { w with imUser := server.imUser stmt w.imUser }
    | .insertHongbao _ | .updateHongbao _ _ _ _ =>
      { w with hongbao := server.hongbao stmt w.hongbao }
    | .malformed => w

/-- What `Execute` returns. -/
def Server.reply (server : Server) (stmt : Statement) (o : Outcome) : Int :=
  if server.refuses stmt then if o = .noInit then -1 else -2 else o.code

/-- Execute one command against a server. -/
def execWith (server : Server) : (c : Cmd) → World → Reply c × World
  | .execute stmt, w =>
    (server.reply stmt w.outcome, (World.applyBy server stmt)^[w.outcome.times] w.spend)
  | .queryLogin name password, w =>
    (if w.outcome = .done then server.queryLogin name password w.imUser else none, w.spend)
  | .queryName name, w =>
    (if w.outcome = .done then server.queryName name w.imUser else none, w.spend)
  | c, w => exec c w

/-- The server that takes every statement as it is meant. -/
def Server.meant : Server where
  refuses stmt := decide (stmt = .malformed)
  imUser stmt users := (World.apply { imUser := users } stmt).imUser
  hongbao stmt rows := (World.apply { hongbao := rows } stmt).hongbao
  queryName name users := some (users.filter (·.name = name))
  queryLogin name password users :=
    some (users.filter fun r => r.name = name ∧ r.password = password)

/-- That server applies the statement itself. -/
theorem applyBy_meant (stmt : Statement) : World.applyBy .meant stmt = (·.apply stmt) := by
  funext w
  cases stmt with
  | addMoney amount name => rfl
  | insertUser row => rfl
  | insertHongbao row => rfl
  | updateHongbao leftmoney leftcount roblog hbkey => rfl
  | malformed => rfl

private theorem reply_meant (stmt : Statement) (o : Outcome) :
    Server.meant.reply stmt o = stmt.reply o := by
  cases stmt with
  | malformed => cases o <;> rfl
  | _ => rfl

/-- `exec` is the handler of that server. -/
theorem execWith_meant (c : Cmd) (w : World) : execWith .meant c w = exec c w := by
  cases c with
  | execute stmt =>
    show (Server.meant.reply stmt w.outcome, (World.applyBy .meant stmt)^[_] w.spend) = _
    rw [applyBy_meant, reply_meant]
    rfl
  | queryLogin name password =>
    show (if w.outcome = .done then _ else _, w.spend) =
      if w.outcome = .done then (_, w.spend) else (_, w.spend)
    split
    · rfl
    · rfl
  | queryName name =>
    show (if w.outcome = .done then _ else _, w.spend) =
      if w.outcome = .done then (_, w.spend) else (_, w.spend)
    split
    · rfl
    · rfl
  | _ => rfl

/-- Its runs are those of `exec`. -/
theorem ends_meant {α : Type} {Q : Except Abort α → World → Prop} {p : Op α} {w : World}
    (h : Prog.Ends (execWith .meant) Q p w) : Prog.Ends exec Q p w := by
  rwa [show execWith .meant = exec from funext fun c => funext (execWith_meant c)] at h

/-! ### Texts that are stored and compared as they are -/

/-- ASCII without a zero byte and without a blank at the end: `utf8mb4_bin` compares such texts as
they are. -/
def Tidy (s : String) : Prop :=
  (∀ c ∈ s.toList, 0 < c.toNat ∧ c.toNat < 128) ∧ s.toList.getLast? ≠ some ' '

instance (s : String) : Decidable (Tidy s) :=
  haveI := List.decidableBAll (fun c : Char => 0 < c.toNat ∧ c.toNat < 128) s.toList
  inferInstanceAs (Decidable (_ ∧ _))

/-- The name and the password of an account are tidy. -/
def IMUser.Tidy (r : IMUser) : Prop := Business.Tidy r.name ∧ Business.Tidy r.password

instance (r : IMUser) : Decidable r.Tidy := inferInstanceAs (Decidable (_ ∧ _))

/-- Every value of a row is held by its column as it is; `im.sql:262–276`. -/
@[mk_iff]
structure IMUser.Fits (r : IMUser) : Prop where
  sex : 0 ≤ r.sex ∧ r.sex < 256
  age : 0 ≤ r.age ∧ r.age < 256
  name : Business.Tidy r.name ∧ r.name.length ≤ 32
  nick : Business.Tidy r.nick ∧ r.nick.length ≤ 32
  password : Business.Tidy r.password ∧ r.password.length ≤ 32
  phone : Business.Tidy r.phone ∧ r.phone.length ≤ 11
  email : Business.Tidy r.email ∧ r.email.length ≤ 64
  created : 0 ≤ r.created ∧ r.created < 2 ^ 64
  signInfo : Business.Tidy r.signInfo ∧ r.signInfo.length ≤ 128

instance (r : IMUser) : Decidable r.Fits := decidable_of_iff' _ r.fits_iff

private theorem zero_notMem_cString (bs : List UInt8) : 0 ∉ cString bs :=
  fun h => absurd (List.mem_takeWhile_imp h) (by decide)

/-- What `c_str()` gives for a text. -/
def cstr (s : String) : CString := ⟨cString (bytesOf s), zero_notMem_cString _⟩

private theorem zero_notMem_bytesOf {s : String} (h : Tidy s) : 0 ∉ bytesOf s := by
  intro hmem
  obtain ⟨c, hc, he⟩ := List.mem_map.mp hmem
  have hbound := h.1 c hc
  have hnat := congrArg UInt8.toNat he
  rw [UInt8.toNat_ofNat'] at hnat
  have hzero : c.toNat % 2 ^ 8 = 0 := hnat
  omega

private theorem cstr_of_tidy {s : String} (h : Tidy s) : (cstr s).bytes = bytesOf s :=
  cString_of_notMem (zero_notMem_bytesOf h)

private theorem map_byte_inj {l l' : List Char} (hl : ∀ c ∈ l, c.toNat < 128)
    (hl' : ∀ c ∈ l', c.toNat < 128)
    (h : l.map (fun c => UInt8.ofNat c.toNat) = l'.map fun c => UInt8.ofNat c.toNat) : l = l' := by
  induction l generalizing l' with
  | nil => exact (List.map_eq_nil_iff.mp h.symm).symm
  | cons c l ih =>
    cases l' with
    | nil => cases h
    | cons c' l' =>
      obtain ⟨hhead, htail⟩ := List.cons.inj h
      have hc := hl c List.mem_cons_self
      have hc' := hl' c' List.mem_cons_self
      have hnat := congrArg UInt8.toNat hhead
      rw [UInt8.toNat_ofNat', UInt8.toNat_ofNat', Nat.mod_eq_of_lt (by omega),
        Nat.mod_eq_of_lt (by omega)] at hnat
      rw [Char.toNat_inj.mp hnat, ih (fun d hd => hl d (List.mem_cons_of_mem c hd))
        (fun d hd => hl' d (List.mem_cons_of_mem c' hd)) htail]

/-- Tidy texts are equal when their bytes are. -/
theorem bytesOf_inj {s t : String} (hs : Tidy s) (ht : Tidy t) :
    bytesOf s = bytesOf t ↔ s = t := by
  refine ⟨fun h => String.toList_inj.mp ?_, fun h => by rw [h]⟩
  exact map_byte_inj (fun c hc => (hs.1 c hc).2) (fun c hc => (ht.1 c hc).2) h

/-! ### Statements as texts -/

/-- The server reads the tokens that were meant. -/
def Query.Read (q : Query) : Prop := Sql.tokenise q.sql = some q.tokens
  deriving Decidable

/-- The texts that a statement on `IMUser` is printed as, where an amount of the table is `unit`
millionths: a debit is a subtraction, a credit an addition. -/
def Statement.queries (unit : Int) : Statement → List Query
  | .addMoney amount name =>
    [.subMoney (-amount * unit) (cstr name), .addMoney (amount * unit) (cstr name)]
  | .insertUser r =>
    [.register r.sex r.age (cstr r.name) (cstr r.nick) (cstr r.password) (cstr r.phone)
      (cstr r.email) r.created (cstr r.signInfo) (r.money * unit)]
  | .insertHongbao _ | .updateHongbao _ _ _ _ | .malformed => []

/-- The values of a statement on `IMUser` are compared and stored as they are. -/
def Statement.Fits : Statement → Prop
  | .addMoney _ name => Tidy name
  | .insertUser r => r.Fits
  | .insertHongbao _ | .updateHongbao _ _ _ _ | .malformed => False

instance (stmt : Statement) : Decidable stmt.Fits :=
  match stmt with
  | .addMoney _ name => inferInstanceAs (Decidable (Tidy name))
  | .insertUser r => inferInstanceAs (Decidable r.Fits)
  | .insertHongbao _ | .updateHongbao _ _ _ _ | .malformed => inferInstanceAs (Decidable False)

/-- MySQL does with the statement what is meant. -/
def Statement.Meant (unit : Int) (stmt : Statement) : Prop :=
  stmt.Fits ∧ ∀ q ∈ stmt.queries unit, q.Read

instance (unit : Int) (stmt : Statement) : Decidable (stmt.Meant unit) :=
  haveI := List.decidableBAll (fun q : Query => q.Read) (stmt.queries unit)
  inferInstanceAs (Decidable (_ ∧ _))

/-- The columns of an account that the queries compare. -/
def IMUser.compared (r : IMUser) : UserRow := ⟨bytesOf r.name, bytesOf r.password⟩

/-- A literal that ends in a blank is compared without it. -/
def endsTidy : Sql.Token → Bool
  | .literal v => v.getLast? ≠ some space
  | .word _ | .symbol _ => true

/-- The rows that the text of a query selects, where it compares tidy texts only. -/
def selectRows (sql : List UInt8) (users : List IMUser) : Option (List IMUser) :=
  if ((Sql.tokenise sql).any fun ts => ts.all endsTidy) ∧ (∀ r ∈ users, r.Tidy) ∧
      (users.all fun r => (selects sql r.compared).isSome) then
    some (users.filter fun r => selects sql r.compared = some true)
  else none

/-- MySQL is given the text. What it does with a text that is not read as it is meant is up to
`foreign`. -/
def textServer (unit : Int) (foreign : Server) : Server where
  refuses stmt := !decide (stmt.Meant unit) && foreign.refuses stmt
  imUser stmt users :=
    if stmt.Meant unit ∧ ∀ r ∈ users, r.Tidy then Server.meant.imUser stmt users
    else foreign.imUser stmt users
  hongbao := foreign.hongbao
  queryName name users :=
    (selectRows (Query.checkDuplication (cstr name)).sql users).or (foreign.queryName name users)
  queryLogin name password users :=
    (selectRows (Query.login (cstr name) (cstr password)).sql users).or
      (foreign.queryLogin name password users)

section TextServer

variable {unit : Int} {foreign : Server}

/-- A statement on `IMUser` that is read as it is meant. -/
theorem applyBy_textServer {stmt : Statement} (h : stmt.Meant unit) {w : World}
    (hw : ∀ r ∈ w.imUser, r.Tidy) :
    World.applyBy (textServer unit foreign) stmt w = w.apply stmt := by
  have hrefuses : (textServer unit foreign).refuses stmt = false := by
    simp [textServer, h]
  have himUser : (textServer unit foreign).imUser stmt w.imUser =
      Server.meant.imUser stmt w.imUser := if_pos ⟨h, hw⟩
  unfold World.applyBy
  rw [hrefuses]
  cases stmt with
  | addMoney amount name => exact congrArg (fun users => { w with imUser := users }) himUser
  | insertUser row => exact congrArg (fun users => { w with imUser := users }) himUser
  | insertHongbao row => exact h.1.elim
  | updateHongbao leftmoney leftcount roblog hbkey => exact h.1.elim
  | malformed => exact h.1.elim

private theorem reply_textServer {stmt : Statement} (h : stmt.Meant unit) (o : Outcome) :
    (textServer unit foreign).reply stmt o = stmt.reply o := by
  have hrefuses : (textServer unit foreign).refuses stmt = false := by
    simp [textServer, h]
  rw [Server.reply, hrefuses]
  cases stmt with
  | malformed => exact h.1.elim
  | _ => rfl

/-- A statement leaves the names and passwords tidy. -/
theorem tidy_apply {stmt : Statement} (h : stmt.Fits) {w : World} (hw : ∀ r ∈ w.imUser, r.Tidy) :
    ∀ r ∈ (w.apply stmt).imUser, r.Tidy := by
  cases stmt with
  | addMoney amount name =>
    intro r hr
    obtain ⟨r', hr', rfl⟩ := List.mem_map.mp hr
    dsimp only
    split
    · exact hw r' hr'
    · exact hw r' hr'
  | insertUser row =>
    intro r hr
    rcases List.mem_append.mp hr with hr | hr
    · exact hw r hr
    · rw [List.mem_singleton.mp hr]
      exact ⟨h.name.1, h.password.1⟩
  | insertHongbao row => exact h.elim
  | updateHongbao leftmoney leftcount roblog hbkey => exact h.elim
  | malformed => exact h.elim

/-- A meant statement is executed as `exec` executes it, on tidy accounts, which stay so. -/
theorem execWith_execute {stmt : Statement} (h : stmt.Meant unit) {w : World}
    (hw : ∀ r ∈ w.imUser, r.Tidy) :
    execWith (textServer unit foreign) (.execute stmt) w = exec (.execute stmt) w ∧
      ∀ r ∈ (exec (.execute stmt) w).2.imUser, r.Tidy := by
  have hiterate : ∀ n (v : World), (∀ r ∈ v.imUser, r.Tidy) →
      (World.applyBy (textServer unit foreign) stmt)^[n] v = (World.apply · stmt)^[n] v ∧
        ∀ r ∈ ((World.apply · stmt)^[n] v).imUser, r.Tidy := by
    intro n
    induction n with
    | zero => exact fun v hv => ⟨rfl, hv⟩
    | succ n ih =>
      intro v hv
      rw [Function.iterate_succ_apply, Function.iterate_succ_apply, applyBy_textServer h hv]
      exact ih _ (tidy_apply h.1 hv)
  obtain ⟨heq, htidy⟩ := hiterate w.outcome.times w.spend hw
  refine ⟨?_, htidy⟩
  show ((textServer unit foreign).reply stmt w.outcome, _) = (stmt.reply w.outcome, _)
  rw [reply_textServer h, heq]

private theorem getLast?_bytesOf {s : String} (h : Tidy s) : (bytesOf s).getLast? ≠ some space := by
  rw [bytesOf, List.getLast?_map]
  intro he
  obtain ⟨c, hc, hb⟩ := Option.map_eq_some_iff.mp he
  have hbound := h.1 c (List.mem_of_getLast? hc)
  have hnat := congrArg UInt8.toNat hb
  rw [UInt8.toNat_ofNat', Nat.mod_eq_of_lt (by omega)] at hnat
  have hspace : c = ' ' := Char.toNat_inj.mp hnat
  exact h.2 (hc.trans (congrArg some hspace))

/-- The query of `CheckDuplication` for a tidy name that is read as it is meant. -/
theorem queryName_textServer {name : String} (hname : Tidy name)
    (hread : (Query.checkDuplication (cstr name)).Read) {users : List IMUser}
    (hw : ∀ r ∈ users, r.Tidy) :
    (textServer unit foreign).queryName name users = some (users.filter (·.name = name)) := by
  have hselects : ∀ r ∈ users, selects (Query.checkDuplication (cstr name)).sql r.compared =
      some (decide (r.name = name)) := by
    intro r hr
    rw [Query.selects_of_tokens_checkDuplication hread, cstr_of_tidy hname]
    simp only [IMUser.compared, bytesOf_inj (hw r hr).1 hname]
  have hrows : selectRows (Query.checkDuplication (cstr name)).sql users =
      some (users.filter (·.name = name)) := by
    rw [selectRows, if_pos]
    · congr 1
      refine List.filter_congr fun r hr => ?_
      rw [hselects r hr]
      simp
    · refine ⟨?_, hw, ?_⟩
      · rw [show Sql.tokenise _ = some _ from hread, Option.any_some]
        have htokens : (Query.checkDuplication (cstr name)).tokens =
            [keyword "select", symbol '*', keyword "from", keyword "IMUser", keyword "where",
              keyword "name", symbol '=', .literal (cstr name).bytes] := rfl
        simpa [htokens, keyword, symbol, endsTidy, cstr_of_tidy hname] using
          getLast?_bytesOf hname
      · rw [List.all_eq_true]
        intro r hr
        rw [hselects r hr]
        rfl
  rw [show (textServer unit foreign).queryName name users = (selectRows _ _).or _ from rfl, hrows,
    Option.some_or]

end TextServer

end IMServer.Business
