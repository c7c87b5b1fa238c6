import IMServer.Business.Machine
import IMServer.Database.ResultCursor

/-!
# The session that a login stores

`server/src/BaseBusiness.cc:293–347`, with the columns of `server/proto/im.sql:262–276` as the texts
that MySQL sends and `IM::UserInfo` of `server/proto/IM.proto:148–161` as it is filled from them.
The fields are looked up by name in the stored result. Three of the names are no columns, numbers
are read as `int`, and texts end at their first zero byte. The session is then passed to `setpb`,
and what counts is what `getpb` makes of it.
-/

namespace IMServer.Business.Account

open IMServer.Base IMServer.Database
open IMServer.Cache (cString cString_eq_self_iff cString_of_notMem kValueSize tilde)

/-! ### Numbers in text -/

/-- The nearest `long`. -/
def clamp64 (x : Int) : Int := max (-2 ^ 63) (min x (2 ^ 63 - 1))

/-- The digits a text starts with, as a number. -/
def leadingDigits (s : Text) : Nat := readDigits (s.takeWhile fun b => IsDigit b)

/-- `strtol` in base ten. -/
def strtol (s : Text) : Int :=
  match s.dropWhile isSpace with
  | [] => 0
  | b :: s =>
    if b = 45 then clamp64 (-leadingDigits s)
    else if b = 43 then clamp64 (leadingDigits s)
    else clamp64 (leadingDigits (b :: s))

/-- `atoi` of the C library: `strtol`, converted to `int`. -/
def atoi (s : Text) : Int := wrap 32 (strtol s)

/-- How MySQL prints a double, and `atof`, which reads it back; a double is its 64 bits. -/
structure DoubleText where
  print : UInt64 → Text
  atof : Text → UInt64
  atof_print : ∀ x, atof (print x) = x

/-! ### The table and the message -/

/-- A row of `IMUser`; `im.sql:262–276`. Columns that may be `NULL` are optional. -/
structure IMUserRow where
  id : Nat
  sex : Nat
  age : Option Nat
  name : Text
  nick : Option Text
  password : Text
  phone : Option Text
  email : Option Text
  created : Nat
  updated : Option Nat
  signInfo : Text
  money : UInt64
  /-- `int unsigned`. -/
  id_lt : id < 2 ^ 32
  /-- `tinyint unsigned`. -/
  sex_lt : sex < 2 ^ 8
  age_lt : ∀ a ∈ age, a < 2 ^ 8
  /-- `bigint unsigned`. -/
  created_lt : created < 2 ^ 64
  updated_lt : ∀ u ∈ updated, u < 2 ^ 64

private theorem IMUserRow.age_getD_lt (r : IMUserRow) : r.age.getD 0 < 2 ^ 8 := by
  cases ha : r.age with
  | none => decide
  | some a => exact r.age_lt a (by rw [ha]; rfl)

section Login

variable (double : DoubleText)

/-- The columns of `select * from IMUser`. -/
def columns : List Text :=
  [bytesOf "id", bytesOf "sex", bytesOf "age", bytesOf "name", bytesOf "nick", bytesOf "password",
    bytesOf "phone", bytesOf "email", bytesOf "created", bytesOf "updated", bytesOf "sign_info",
    bytesOf "money"]

/-- The texts of a row. -/
def cells (r : IMUserRow) : Row :=
  [some (numeral r.id), some (numeral r.sex), r.age.map numeral, some r.name, r.nick,
    some r.password, r.phone, r.email, some (numeral r.created), r.updated.map numeral,
    some r.signInfo, some (double.print r.money)]

/-- The result of the query of a login. -/
def userTable (rows : List IMUserRow) : Table where
  fields := columns
  rows := rows.map (cells double)
  width := by
    intro row hrow
    obtain ⟨r, -, rfl⟩ := List.mem_map.mp hrow
    rfl
  distinct := by decide

/-- `ml->GetField(0, name)`. -/
def field (name : String) (ml : MysqlProp) : Option (Text × MysqlProp) :=
  ml.getFieldNamed 0 (some (bytesOf name))

/-- Fill the user of a session; `BaseBusiness.cc:331–342`. -/
def readUser (ml : MysqlProp) : Option (UserInfo × MysqlProp) := do
  let (id, ml) ← field "id" ml
  let (sex, ml) ← field "sex" ml
  let (age, ml) ← field "age" ml
  let (name, ml) ← field "name" ml
  let (nick, ml) ← field "nick" ml
  let (phone, ml) ← field "passwd" ml
  let (email, ml) ← field "email" ml
  let (createtime, ml) ← field "createtime" ml
  let (updatetime, ml) ← field "updatetime" ml
  let (signInfo, ml) ← field "sign_info" ml
  let (money, ml) ← field "money" ml
  let user :=
    { id := atoi id, sex := atoi sex, age := atoi age, name := textOf (cString name),
      nick := textOf (cString nick), phone := textOf (cString phone),
      email := textOf (cString email), createtime := atoi createtime,
      updatetime := atoi updatetime, signInfo := textOf (cString signInfo),
      money := (double.atof money).toNat }
  some (user, ml)

/-- The user of the session that a login stores when the query has these rows, none when there is
no record; `BaseBusiness.cc:297–347`. -/
def loginUser (ml : MysqlProp) (rows : List IMUserRow) :
    Option (Option UserInfo) := do
  let ml := (ml.storeResult (some (userTable double rows))).2
  if ml.iRows = 0 then some none
  else do
    let (user, _) ← readUser double ml
    some (some user)

/-- The session of a user; `BaseBusiness.cc:344–346`. -/
def sessionOf (username : String) (user : UserInfo) : Session where
  islogin := true
  hashkey := djbHash username
  redisname := redisname username
  userinfo := user

/-- What `getpb` reads of the session after the `setpb` of the login; `BaseBusiness.cc:347`. -/
def cachedSession (wire : Wire) (ml : MysqlProp) (username : String) (rows : List IMUserRow) :
    Option Session := do
  let user ← (← loginUser double ml rows)
  let value ← (machine wire).store (.session (sessionOf username user))
  sessionRead (machine wire).toWire (some value)

/-- The fields of a session have the values of the columns of the same meaning. -/
structure Mirrors (user : UserInfo) (r : IMUserRow) : Prop where
  id : user.id = r.id
  sex : user.sex = r.sex
  age : user.age = r.age.getD 0
  name : user.name = textOf r.name
  nick : user.nick = textOf (r.nick.getD [])
  phone : user.phone = textOf (r.phone.getD [])
  email : user.email = textOf (r.email.getD [])
  createtime : user.createtime = r.created
  updatetime : user.updatetime = r.updated.getD 0
  signInfo : user.signInfo = textOf r.signInfo
  money : user.money = r.money.toNat

/-- A row that a session can mirror: nothing in the columns that are not read, an id that is an
`int`, and texts without a zero byte. -/
structure Readable (r : IMUserRow) : Prop where
  id_lt : r.id < 2 ^ 31
  name : 0 ∉ r.name
  nick : 0 ∉ r.nick.getD []
  email : 0 ∉ r.email.getD []
  signInfo : 0 ∉ r.signInfo
  phone : r.phone.getD [] = []
  created : r.created = 0
  updated : r.updated.getD 0 = 0

/-! ### What is read -/

private theorem atoi_numeral {n : Nat} (h : n < 2 ^ 63) : atoi (numeral n) = wrap 32 n := by
  have hall : (numeral n).takeWhile (fun b => IsDigit b) = numeral n :=
    List.takeWhile_eq_self_iff.mpr fun b hb => decide_eq_true (isDigit_of_mem_numeral hb)
  have hread : clamp64 (leadingDigits (numeral n)) = n := by
    rw [leadingDigits, hall, readDigits_numeral, clamp64]
    omega
  obtain ⟨b, rest, hcons⟩ := List.exists_cons_of_ne_nil (numeral_ne_nil n)
  have hb : IsDigit b := isDigit_of_mem_numeral (n := n) (hcons ▸ List.mem_cons_self)
  have hspace : isSpace b = false := by
    have h48 := hb.1
    simp only [isSpace, Bool.or_eq_false_iff, Bool.and_eq_false_iff, decide_eq_false_iff_not,
      UInt8.le_iff_toNat_le, UInt8.reduceToNat]
    refine ⟨?_, .inr (by omega)⟩
    rintro rfl
    exact absurd h48 (by decide)
  rw [hcons] at hread
  rw [atoi, strtol, hcons, List.dropWhile_cons, if_neg (by simp [hspace])]
  dsimp only
  rw [if_neg, if_neg, hread]
  · rintro rfl
    exact absurd hb (by decide)
  · rintro rfl
    exact absurd hb (by decide)

private theorem atoi_optional {o : Option Nat} (h : ∀ n ∈ o, n < 2 ^ 31) :
    atoi ((o.map numeral).getD []) = o.getD 0 := by
  cases o with
  | none => rfl
  | some n =>
    have hn : n < 2 ^ 31 := h n rfl
    rw [Option.map_some, Option.getD_some, Option.getD_some, atoi_numeral (by omega)]
    exact wrap_eq_self (by decide) (by omega) (by omega)

/-- What a login reads of a row. -/
def userOf (r : IMUserRow) : UserInfo where
  id := wrap 32 r.id
  sex := r.sex
  age := r.age.getD 0
  name := textOf (cString r.name)
  nick := textOf (cString (r.nick.getD []))
  phone := ""
  email := textOf (cString (r.email.getD []))
  createtime := 0
  updatetime := 0
  signInfo := textOf (cString r.signInfo)
  money := r.money.toNat

/-- No byte of the session of a row is `~`, and it fits in the array of `setpb`. -/
def Clean (username : String) (r : IMUserRow) : Prop :=
  tilde ∉ (sessionOf username (userOf r)).serialize ∧
    (sessionOf username (userOf r)).serialize.length < kValueSize
  deriving Decidable

/-- A field of the first row. -/
theorem atFirst_field {t : Table} {ml : MysqlProp} (h : AtFirst t ml)
    (hrows : 0 < t.rows.length % 2 ^ 32) (name : String) :
    ∃ ml', field name ml = some (t.firstNamed (bytesOf name), ml') ∧ AtFirst t ml' :=
  h.getFieldNamed hrows (bytesOf name)

private theorem readUser_eq {r : IMUserRow} {rows : List IMUserRow} {ml : MysqlProp}
    (h : AtFirst (userTable double (r :: rows)) ml) (hrows : 0 < (r :: rows).length % 2 ^ 32) :
    ∃ ml', readUser double ml = some (userOf r, ml') := by
  have hrows' : 0 < (userTable double (r :: rows)).rows.length % 2 ^ 32 := by
    rw [show (userTable double (r :: rows)).rows = (r :: rows).map (cells double) from rfl,
      List.length_map]
    exact hrows
  obtain ⟨m₁, e₁, h⟩ := atFirst_field h hrows' "id"
  obtain ⟨m₂, e₂, h⟩ := atFirst_field h hrows' "sex"
  obtain ⟨m₃, e₃, h⟩ := atFirst_field h hrows' "age"
  obtain ⟨m₄, e₄, h⟩ := atFirst_field h hrows' "name"
  obtain ⟨m₅, e₅, h⟩ := atFirst_field h hrows' "nick"
  obtain ⟨m₆, e₆, h⟩ := atFirst_field h hrows' "passwd"
  obtain ⟨m₇, e₇, h⟩ := atFirst_field h hrows' "email"
  obtain ⟨m₈, e₈, h⟩ := atFirst_field h hrows' "createtime"
  obtain ⟨m₉, e₉, h⟩ := atFirst_field h hrows' "updatetime"
  obtain ⟨m₁₀, e₁₀, h⟩ := atFirst_field h hrows' "sign_info"
  obtain ⟨m₁₁, e₁₁, -⟩ := atFirst_field h hrows' "money"
  refine ⟨m₁₁, ?_⟩
  have hid : atoi (numeral r.id) = wrap 32 r.id := atoi_numeral (by have := r.id_lt; omega)
  have hsex : atoi (numeral r.sex) = r.sex := by
    have hlt := r.sex_lt
    rw [atoi_numeral (by omega)]
    exact wrap_eq_self (by decide) (by omega) (by omega)
  have hage : atoi ((r.age.map numeral).getD []) = r.age.getD 0 := atoi_optional fun a ha => by
    have := r.age_lt a ha
    omega
  refine Option.bind_eq_some_iff.mpr ⟨_, e₁, Option.bind_eq_some_iff.mpr ⟨_, e₂,
    Option.bind_eq_some_iff.mpr ⟨_, e₃, Option.bind_eq_some_iff.mpr ⟨_, e₄,
    Option.bind_eq_some_iff.mpr ⟨_, e₅, Option.bind_eq_some_iff.mpr ⟨_, e₆,
    Option.bind_eq_some_iff.mpr ⟨_, e₇, Option.bind_eq_some_iff.mpr ⟨_, e₈,
    Option.bind_eq_some_iff.mpr ⟨_, e₉, Option.bind_eq_some_iff.mpr ⟨_, e₁₀,
    Option.bind_eq_some_iff.mpr ⟨_, e₁₁, ?_⟩⟩⟩⟩⟩⟩⟩⟩⟩⟩⟩
  rw [userOf, ← hid, ← hsex, ← hage, ← double.atof_print r.money]
  rfl

private theorem wrap_id_eq_iff (r : IMUserRow) : wrap 32 r.id = (r.id : Int) ↔ r.id < 2 ^ 31 := by
  have hlt := r.id_lt
  constructor
  · intro h
    have hmax : (r.id : Int).bmod (2 ^ 32) < (2 ^ 32 + 1) / 2 := Int.bmod_lt (by decide)
    rw [← wrap, h] at hmax
    omega
  · intro h
    exact wrap_eq_self (by decide) (by omega) (by omega)

private theorem textOf_cString_eq_iff (bs : Text) : textOf (cString bs) = textOf bs ↔ 0 ∉ bs := by
  rw [← cString_eq_self_iff]
  constructor
  · intro h
    rw [← bytesOf_textOf (cString bs), h, bytesOf_textOf]
  · intro h
    rw [h]

/-- A user read of a row mirrors it exactly when the row is readable. -/
theorem mirrors_userOf_iff (r : IMUserRow) : Mirrors (userOf r) r ↔ Readable r := by
  constructor
  · rintro ⟨hid, -, -, hname, hnick, hphone, hemail, hcreated, hupdated, hsign, -⟩
    simp only [userOf] at hid hname hnick hphone hemail hcreated hupdated hsign
    have hphone' : r.phone.getD [] = [] := by
      rw [← bytesOf_textOf (r.phone.getD []), ← hphone]
      rfl
    exact ⟨(wrap_id_eq_iff r).mp hid, (textOf_cString_eq_iff _).mp hname,
      (textOf_cString_eq_iff _).mp hnick, (textOf_cString_eq_iff _).mp hemail,
      (textOf_cString_eq_iff _).mp hsign, hphone', by omega, by omega⟩
  · rintro ⟨hid, hname, hnick, hemail, hsign, hphone, hcreated, hupdated⟩
    refine ⟨?_, rfl, rfl, (textOf_cString_eq_iff _).mpr hname,
      (textOf_cString_eq_iff _).mpr hnick, ?_, (textOf_cString_eq_iff _).mpr hemail, ?_, ?_,
      (textOf_cString_eq_iff _).mpr hsign, rfl⟩
    · simp only [userOf]
      exact (wrap_id_eq_iff r).mpr hid
    · rw [hphone]
      rfl
    · rw [hcreated, userOf, Int.natCast_zero]
    · rw [hupdated, userOf, Int.natCast_zero]

private theorem isInt64_djbHash (str : String) : IsInt64 (djbHash str) := by
  have hlt := unsigned_lt 31 (str.toUTF8.toList.foldl
    (fun hash c => wrap 32 (hash * 33 + wrap 8 c.toNat)) 5381)
  simp only [djbHash, IsInt64]
  omega

private theorem byteText_redisname (name : String) : ByteText (redisname name) := by
  have hpool : djbHash name % 3 + 1 = 1 ∨ djbHash name % 3 + 1 = 2 ∨ djbHash name % 3 + 1 = 3 := by
    omega
  rw [redisname]
  rcases hpool with h | h | h
  · rw [h]
    decide
  · rw [h]
    decide
  · rw [h]
    decide

/-- Every user that a login reads has values that the fields can hold. -/
theorem plain_userOf (r : IMUserRow) : (userOf r).Plain := by
  have hid : -2 ^ 31 ≤ wrap 32 r.id ∧ wrap 32 r.id < 2 ^ 31 :=
    ⟨Int.le_bmod (by decide), Int.bmod_lt (by decide)⟩
  have hsex := r.sex_lt
  have hage := r.age_getD_lt
  have hmoney := r.money.toNat_lt
  constructor
  case name => exact byteText_textOf _
  case nick => exact byteText_textOf _
  case phone => exact byteText_textOf []
  case email => exact byteText_textOf _
  case signInfo => exact byteText_textOf _
  all_goals simp only [userOf, IsInt64, IsBits]
  all_goals omega

private theorem plain_sessionOf (username : String) (r : IMUserRow) :
    (sessionOf username (userOf r)).Plain where
  hashkey := isInt64_djbHash username
  ip := byteText_textOf []
  redisname := byteText_redisname username
  userinfo := plain_userOf r

/-- A row as the business functions see it: texts up to their first zero byte, and a balance in
millionths. -/
def IMUserRow.imUser (r : IMUserRow) (millionths : Int) : IMUser where
  id := r.id
  sex := r.sex
  age := r.age.getD 0
  name := textOf (cString r.name)
  nick := textOf (cString (r.nick.getD []))
  email := textOf (cString (r.email.getD []))
  signInfo := textOf (cString r.signInfo)
  money := millionths

/-- The session of a row is the one that `newSession` makes of it. -/
theorem sessionOf_eq_newSession (username : String) (r : IMUserRow) {millionths : Int}
    (hmoney : (r.money.toNat : Int) = Amounts.double.atof millionths) :
    sessionOf username (userOf r) =
      newSession username (r.imUser millionths) Amounts.double := by
  have hsex : wrap 32 r.sex = r.sex := by
    have := r.sex_lt
    exact wrap_eq_self (by decide) (by omega) (by omega)
  have hage : wrap 32 (r.age.getD 0 : Nat) = (r.age.getD 0 : Nat) := by
    have := r.age_getD_lt
    exact wrap_eq_self (by decide) (by omega) (by omega)
  simp only [sessionOf, userOf, newSession, IMUserRow.imUser, hmoney, hsex, hage]

private theorem loginUser_nil (ml : MysqlProp) : loginUser double ml [] = some none := by
  rw [loginUser, MysqlProp.storeResult]
  rfl

/-- The user of the session is read of the first row. -/
theorem loginUser_cons {ml : MysqlProp} {v : View} (h : Rep ml v) (r : IMUserRow)
    (rows : List IMUserRow) : loginUser double ml (r :: rows) =
      some (if (r :: rows).length % 2 ^ 32 = 0 then none else some (userOf r)) := by
  have hrows : (ml.storeResult (some (userTable double (r :: rows)))).2.iRows =
      (r :: rows).length % 2 ^ 32 := by
    rw [MysqlProp.storeResult]
    exact congrArg (· % 2 ^ 32) (List.length_map _)
  rw [loginUser]
  dsimp only
  rw [hrows]
  split
  · rfl
  · next hne =>
    obtain ⟨ml', heq⟩ := readUser_eq double (atFirst_storeResult h (userTable double (r :: rows)))
      (by omega)
    rw [heq]
    rfl

/-- The session that is read back is that of the first row, if that is clean. -/
theorem cachedSession_cons {ml : MysqlProp} {v : View} (h : Rep ml v) (wire : Wire)
    (username : String) (r : IMUserRow) (rows : List IMUserRow) (hclean : Clean username r) :
    cachedSession double wire ml username (r :: rows) =
      if (r :: rows).length % 2 ^ 32 = 0 then none else some (sessionOf username (userOf r)) := by
  have hkept : (sessionOf username (userOf r)).Kept :=
    ⟨plain_sessionOf username r, hclean.1, hclean.2⟩
  rw [cachedSession, loginUser_cons double h]
  split
  · rfl
  · simp only [Option.bind_eq_bind, Option.bind_some, hkept.store, hkept.read]

/-- Whatever the connection was used for before, and if the session of the first row has no byte `~`
and fits in the array: the session that is read back mirrors every row that matches exactly when
there is one such row and it is readable. -/
theorem login_mirrors_iff (wire : Wire) {ml : MysqlProp} {v : View} (h : Rep ml v)
    (username : String) (rows : List IMUserRow) (hkey : (rows.map IMUserRow.id).Nodup)
    (hclean : ∀ r ∈ rows.head?, Clean username r) :
    (∃ s, cachedSession double wire ml username rows = some s ∧
        ∀ r ∈ rows, Mirrors s.userinfo r) ↔
      ∃ r, rows = [r] ∧ Readable r := by
  constructor
  · rintro ⟨s, hlogin, hall⟩
    cases rows with
    | nil =>
      rw [cachedSession, loginUser_nil double] at hlogin
      cases hlogin
    | cons r rest =>
      rw [cachedSession_cons double h wire username r rest (hclean r rfl)] at hlogin
      split at hlogin
      · cases hlogin
      obtain rfl := Option.some.inj hlogin
      have hr : Mirrors (userOf r) r := hall r List.mem_cons_self
      refine ⟨r, ?_, (mirrors_userOf_iff r).mp hr⟩
      -- a second row would have the same id
      cases rest with
      | nil => rfl
      | cons r' rest =>
        have hr' : Mirrors (userOf r) r' := hall r' (List.mem_cons_of_mem r List.mem_cons_self)
        have heq : r.id = r'.id := Int.ofNat_inj.mp (hr.id.symm.trans hr'.id)
        rw [List.map_cons, List.map_cons, List.nodup_cons] at hkey
        exact absurd (heq ▸ List.mem_cons_self) hkey.1
  · rintro ⟨r, rfl, hr⟩
    refine ⟨sessionOf username (userOf r), ?_, ?_⟩
    · rw [cachedSession_cons double h wire username r [] (hclean r rfl),
        if_neg (by rw [List.length_singleton]; decide)]
    · intro r' hr'
      rw [List.mem_singleton.mp hr']
      exact (mirrors_userOf_iff r).mpr hr

end Login

/-- Doubles printed as the numbers of their patterns. -/
def patternText : DoubleText where
  print x := numeral x.toNat
  atof s := UInt64.ofNat (readDigits s)
  atof_print x := by rw [readDigits_numeral, UInt64.ofNat_toNat]

/-- The account of `bob`, with an id, a nickname, a phone number, the time at which it was created
and a balance. -/
def bob (id : Fin 200) (nick phone : Text) (created : Fin (2 ^ 40)) (money : UInt64) :
    IMUserRow where
  id := id
  sex := 1
  age := some 30
  name := bytesOf "bob"
  nick := some nick
  password := bytesOf "secret"
  phone := some phone
  email := none
  created := created
  updated := none
  signInfo := []
  money := money
  id_lt := by omega
  sex_lt := by decide
  age_lt := by decide
  created_lt := by omega
  updated_lt := by decide

/-- A hundred, and 490. -/
def hundred : UInt64 := 0x4059000000000000

def fourHundredNinety : UInt64 := 0x407EA00000000000

/-- What is read back of a row of `bob`. -/
def cachedBob (r : IMUserRow) : Option UserInfo :=
  (cachedSession patternText plainWire {} "bob" [r]).map (·.userinfo)

/-- The phone number and the time of an account are lost; an id of 126 is read back as 0, a `~` in
the nickname as a zero byte, and a balance of 490 as 2.078125. -/
theorem login_loses_phone :
    (cachedBob (bob 7 [] (bytesOf "5550100") 1555000000 hundred)).map
        (fun u => (u.phone, u.createtime)) = some ("", 0) ∧
      (cachedBob (bob 126 [] [] 0 hundred)).map (·.id) = some 0 ∧
      (cachedBob (bob 7 (bytesOf "b~b") [] 0 hundred)).map (fun u => bytesOf u.nick) =
        some [98, 0, 98] ∧
      (cachedBob (bob 7 [] [] 0 fourHundredNinety)).map (·.money) =
        some (0x4000A00000000000 : UInt64).toNat := by
  decide +kernel

/-- A row of usual texts. -/
theorem login_mirrors_iff_bob :
    Rep {} {} ∧ Readable (bob 7 [] [] 0 hundred) ∧
      ∃ s, cachedSession patternText plainWire {} "bob" [bob 7 [] [] 0 hundred] = some s ∧
        ∀ r ∈ [bob 7 [] [] 0 hundred], Mirrors s.userinfo r := by
  have hrep : Rep {} {} := .empty rfl rfl
  have hread : Readable (bob 7 [] [] 0 hundred) :=
    ⟨by decide, by decide, by decide, by decide, by decide, rfl, rfl, rfl⟩
  have hclean : Clean "bob" (bob 7 [] [] 0 hundred) := by decide +kernel
  have hkey : ([bob 7 [] [] 0 hundred].map IMUserRow.id).Nodup := List.nodup_singleton _
  exact ⟨hrep, hread, (login_mirrors_iff patternText plainWire hrep "bob" _ hkey
    (by rintro r ⟨⟩; exact hclean)).mpr ⟨_, rfl, hread⟩⟩

end IMServer.Business.Account
