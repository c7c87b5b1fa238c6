import IMServer.Base.Decimal
import IMServer.Base.Sql

/-!
# The SQL text of the business functions

Every statement is written by `snprintf` into a buffer of 1024 bytes, its string fields between
quotes as they are (`BaseBusiness.cc:55–66, 97–107, 143, 293–295, 450, 464, 602`). The text is
read back with the rules MySQL has for string literals. An amount of money is the number of
millionths that `%lf` prints of a `double`.
-/

namespace IMServer.Business

open IMServer.Base IMServer.Base.Sql

/-! ### What `snprintf` writes -/

/-- What `c_str()` points to. -/
structure CString where
  bytes : List UInt8
  no_nul : 0 ∉ bytes

def sign (n : Int) : List UInt8 := if n < 0 then bytesOf "-" else []

/-- `%d` and `%lld`. -/
def printInt (n : Int) : List UInt8 := sign n ++ numeral n.natAbs

/-- The digits of an amount with six decimals. -/
def decimals (millionths : Nat) : List UInt8 :=
  numeral (millionths / 1000000) ++ bytesOf "." ++
    [100000, 10000, 1000, 100, 10, 1].flatMap fun unit => numeral (millionths / unit % 10)

/-- `%lf`. -/
def printLf (millionths : Int) : List UInt8 := sign millionths ++ decimals millionths.natAbs

example : printInt (-120) = bytesOf "-120" ∧ printLf 1000000000 = bytesOf "1000.000000" ∧
    printLf (-50000) = bytesOf "-0.050000" := by decide

/-- The buffers are `char sql[1024]`. -/
def kSqlSize : Nat := 1024

/-- `snprintf(sql, sizeof(sql), …)`: what the buffer holds before its terminator. -/
def snprintf (text : List UInt8) : List UInt8 := text.take (kSqlSize - 1)

/-! ### The tokens of printed numbers -/

def keyword (s : String) : Token := .word (bytesOf s)

def symbol (c : Char) : Token := .symbol (UInt8.ofNat c.toNat)

def signTokens (n : Int) : List Token := if n < 0 then [symbol '-'] else []

def intTokens (n : Int) : List Token := signTokens n ++ [.word (numeral n.natAbs)]

def lfTokens (millionths : Int) : List Token :=
  signTokens millionths ++ [.word (decimals millionths.natAbs)]

private theorem isWordByte_numeral (n : Nat) : ∀ b ∈ numeral n, isWordByte b = true := by
  intro b hb
  have hd := isDigit_of_mem_numeral hb
  rw [IsDigit] at hd
  simp only [isWordByte, Bool.or_eq_true, Bool.and_eq_true, decide_eq_true_eq,
    UInt8.le_iff_toNat_le, UInt8.reduceToNat]
  omega

private theorem isWordByte_decimals (n : Nat) : ∀ b ∈ decimals n, isWordByte b = true := by
  intro b hb
  simp only [decimals, List.mem_append, List.mem_flatMap] at hb
  rcases hb with (h | h) | ⟨unit, -, h⟩
  · exact isWordByte_numeral _ b h
  · exact List.all_eq_true.mp (show (bytesOf ".").all isWordByte = true by decide) b h
  · exact isWordByte_numeral _ b h

private theorem decimals_ne_nil (n : Nat) : decimals n ≠ [] := by
  simp [decimals, numeral_ne_nil]

/-- A plain text and its tokens. -/
structure Reads (t : List UInt8) (ts : List Token) : Prop where
  plain : Plain t
  tokens : textTokens t = ts

private theorem reads_text {t : List UInt8} (h : Plain t) : Reads t (textTokens t) := ⟨h, rfl⟩

private theorem Reads.append
    {s t : List UInt8} {ss ts : List Token} (hs : Reads s ss) (ht : Reads t ts)
    (h : Boundary s t) : Reads (s ++ t) (ss ++ ts) := by
  refine ⟨plain_append hs.plain ht.plain, ?_⟩
  rw [textTokens_append hs.plain ht.plain h, hs.tokens, ht.tokens]

private theorem reads_signed (n : Int) {ds : List UInt8} (h : ∀ b ∈ ds, isWordByte b = true)
    (hne : ds ≠ []) : Reads (sign n ++ ds) (signTokens n ++ [.word ds]) := by
  have hs : Reads (sign n) (signTokens n) ∧ Boundary (sign n) ds := by
    rw [sign, signTokens]
    split
    · exact ⟨⟨by decide, rfl⟩, .inr fun b hb => by cases hb; rfl⟩
    · exact ⟨⟨by decide, rfl⟩, .inr fun b hb => by cases hb⟩
  exact hs.1.append ⟨plain_of_isWordByte h, textTokens_word h hne⟩ hs.2

private theorem reads_printInt (n : Int) : Reads (printInt n) (intTokens n) :=
  reads_signed n (isWordByte_numeral _) (numeral_ne_nil _)

private theorem reads_printLf (millionths : Int) :
    Reads (printLf millionths) (lfTokens millionths) :=
  reads_signed millionths (isWordByte_decimals _) (decimals_ne_nil _)

/-! ### Format strings -/

/-- A part of a format string, with what is printed for it. -/
inductive Piece where
  | text (t : String)
  /-- `%d` or `%lld`. -/
  | int (n : Int)
  /-- `%lf`. -/
  | lf (millionths : Int)
  /-- `'%s'`. -/
  | str (f : CString)

namespace Piece

def print : Piece → List UInt8
  | text t => bytesOf t
  | int n => printInt n
  | lf millionths => printLf millionths
  | str f => quoteByte :: (f.bytes ++ [quoteByte])

/-- The tokens a part stands for: its own, those of its number, or one literal. -/
def tokens : Piece → List Token
  | text t => textTokens (bytesOf t)
  | int n => intTokens n
  | lf millionths => lfTokens millionths
  | str f => [.literal f.bytes]

/-- The text opens no literal. -/
def plain : Piece → Bool
  | text t => decide (Plain (bytesOf t))
  | int _ | lf _ | str _ => true

/-- What may come after a part: a number stands between bytes that are in no word, and after a
string field the text goes on with a separator. -/
def mayPrecede : Piece → List Piece → Bool
  | text _, [] | text _, str _ :: _ => true
  | text t, int _ :: _ | text t, lf _ :: _ => (bytesOf t).getLast?.all fun b => !isWordByte b
  | text _, text _ :: _ => false
  | int _, [] | lf _, [] | str _, [] => true
  | int _, text t :: _ | lf _, text t :: _ => (bytesOf t).head?.any fun b => !isWordByte b
  | str _, text t :: _ => (bytesOf t).head?.any isSeparator
  | int _, _ :: _ | lf _, _ :: _ | str _, _ :: _ => false

end Piece

def wellSpaced : List Piece → Bool
  | [] => true
  | p :: ps => p.plain && p.mayPrecede ps && wellSpaced ps

/-- What is printed before the first string field. -/
def lead : List Piece → List UInt8
  | [] | .str _ :: _ => []
  | .text t :: ps => bytesOf t ++ lead ps
  | .int n :: ps => printInt n ++ lead ps
  | .lf millionths :: ps => printLf millionths ++ lead ps

/-- The tokens before the first string field. -/
def leadTokens : List Piece → List Token
  | [] | .str _ :: _ => []
  | .text t :: ps => textTokens (bytesOf t) ++ leadTokens ps
  | .int n :: ps => intTokens n ++ leadTokens ps
  | .lf millionths :: ps => lfTokens millionths ++ leadTokens ps

/-- The string fields, each with what is printed up to the next one. -/
def slots : List Piece → List Slot
  | [] => []
  | .str f :: ps => ⟨f.bytes, lead ps⟩ :: slots ps
  | .text _ :: ps | .int _ :: ps | .lf _ :: ps => slots ps

/-- The string fields. -/
def fields : List Piece → List CString
  | [] => []
  | .str f :: ps => f :: fields ps
  | .text _ :: ps | .int _ :: ps | .lf _ :: ps => fields ps

private theorem print_eq (ps : List Piece) :
    ps.flatMap Piece.print = lead ps ++ (slots ps).flatMap Slot.render := by
  induction ps with
  | nil => rfl
  | cons p ps ih => cases p <;> simp [Piece.print, lead, slots, Slot.render, ih]

private theorem value_slots (ps : List Piece) :
    (slots ps).map Slot.value = (fields ps).map CString.bytes := by
  induction ps with
  | nil => rfl
  | cons p ps ih => cases p <;> simp [slots, fields, ih]

private theorem wellSpaced_cons {p : Piece} {ps : List Piece} (h : wellSpaced (p :: ps) = true) :
    p.plain = true ∧ p.mayPrecede ps = true ∧ wellSpaced ps = true := by
  simpa [wellSpaced, and_assoc] using h

/-- No word runs from a text into the number behind it. -/
theorem boundary_text {t : String} {ps : List Piece}
    (h : (Piece.text t).mayPrecede ps = true) : Boundary (bytesOf t) (lead ps) := by
  cases ps with
  | nil => exact .inl fun b hb => by cases hb
  | cons p ps =>
    cases p with
    | text u => cases h
    | int n => exact .inr fun b hb => by simpa [hb] using (Option.all_eq_true _ _).mp h b hb
    | lf millionths => exact .inr fun b hb => by simpa [hb] using (Option.all_eq_true _ _).mp h b hb
    | str f => exact .inl fun b hb => by cases hb

/-- What follows begins as the text that comes next does. -/
theorem head_lead {t : String} {P : UInt8 → Bool} (h : (bytesOf t).head?.any P = true)
    (ps : List Piece) : ∃ b rest, lead (.text t :: ps) = b :: rest ∧ P b = true := by
  rw [lead]
  cases ht : bytesOf t with
  | nil =>
    rw [ht] at h
    cases h
  | cons b rest =>
    rw [ht] at h
    exact ⟨b, rest ++ lead ps, rfl, h⟩

private theorem mayPrecede_lf (n : Int) (ps : List Piece) :
    (Piece.lf n).mayPrecede ps = (Piece.int n).mayPrecede ps := by
  rcases ps with _ | ⟨p, ps⟩
  · rfl
  · cases p <;> rfl

/-- No word runs from a number into what is behind it. -/
theorem boundary_number {num : List UInt8} {n : Int} {ps : List Piece}
    (h : (Piece.int n).mayPrecede ps = true) : Boundary num (lead ps) := by
  left
  cases ps with
  | nil => exact fun b hb => by cases hb
  | cons p ps =>
    cases p with
    | text u =>
      obtain ⟨c, rest, hl, hc⟩ := head_lead h ps
      intro b hb
      rw [hl] at hb
      cases hb
      simpa using hc
    | int n => cases h
    | lf millionths => cases h
    | str f => cases h

private theorem reads_lead {ps : List Piece} (h : wellSpaced ps = true) :
    Reads (lead ps) (leadTokens ps) := by
  induction ps with
  | nil => exact ⟨by decide, rfl⟩
  | cons p ps ih =>
    obtain ⟨hp, hnext, htail⟩ := wellSpaced_cons h
    have hrest := ih htail
    cases p with
    | text t => exact (reads_text (of_decide_eq_true hp)).append hrest (boundary_text hnext)
    | int n => exact (reads_printInt n).append hrest (boundary_number hnext)
    | lf millionths =>
      rw [mayPrecede_lf] at hnext
      exact (reads_printLf millionths).append hrest (boundary_number hnext)
    | str f => exact ⟨fun b hb => absurd hb List.not_mem_nil, rfl⟩

private theorem plain_slots {ps : List Piece} (h : wellSpaced ps = true) :
    ∀ t ∈ (slots ps).map Slot.text, Plain t := by
  induction ps with
  | nil => exact fun t ht => absurd ht List.not_mem_nil
  | cons p ps ih =>
    obtain ⟨-, -, htail⟩ := wellSpaced_cons h
    have hrest := ih htail
    cases p with
    | text t => exact hrest
    | int n => exact hrest
    | lf millionths => exact hrest
    | str f =>
      intro t ht
      rcases List.mem_cons.mp ht with rfl | ht
      · exact (reads_lead htail).plain
      · exact hrest t ht

private theorem separated_slots {ps : List Piece} (h : wellSpaced ps = true) :
    Separated (slots ps) := by
  induction ps with
  | nil => trivial
  | cons p ps ih =>
    obtain ⟨-, hnext, htail⟩ := wellSpaced_cons h
    have hrest := ih htail
    cases p with
    | text t => exact hrest
    | int n => exact hrest
    | lf millionths => exact hrest
    | str f =>
      cases ps with
      | nil => exact ⟨fun b hb => (by cases hb), fun _ => rfl, trivial⟩
      | cons p ps =>
        cases p with
        | text t =>
          obtain ⟨b, rest, hl, hb⟩ := head_lead hnext ps
          refine ⟨?_, ?_, hrest⟩
          · intro c hc
            simp only [hl, List.head?_cons, Option.mem_def, Option.some.injEq] at hc
            exact hc ▸ hb
          · intro hnil
            rw [hl] at hnil
            cases hnil
        | int n => cases hnext
        | lf millionths => cases hnext
        | str f => cases hnext

/-- A format string with its arguments, as a statement with quoted values. -/
def toStatement (ps : List Piece) (h : wellSpaced ps = true) : Statement where
  first := lead ps
  slots := slots ps
  plain := by
    intro t ht
    rcases List.mem_cons.mp ht with rfl | ht
    · exact (reads_lead h).plain
    · exact plain_slots h t ht
  separated := separated_slots h

private theorem tokens_toStatement {ps : List Piece} (h : wellSpaced ps = true) :
    (toStatement ps h).tokens = ps.flatMap Piece.tokens := by
  rw [Statement.tokens, toStatement, (reads_lead h).tokens]
  induction ps with
  | nil => rfl
  | cons p ps ih =>
    obtain ⟨-, -, htail⟩ := wellSpaced_cons h
    have hrest := ih htail
    cases p with
    | text t => simp [leadTokens, slots, Piece.tokens, ← hrest]
    | int n => simp [leadTokens, slots, Piece.tokens, ← hrest]
    | lf millionths => simp [leadTokens, slots, Piece.tokens, ← hrest]
    | str f =>
      simp [leadTokens, slots, Piece.tokens, ← hrest, (reads_lead htail).tokens]

/-- Printed into `n` bytes, a format string keeps its tokens exactly if every string field is
clean and only blanks are cut off. -/
theorem tokenise_print_iff {ps : List Piece} (h : wellSpaced ps = true) (n : Nat) :
    tokenise ((ps.flatMap Piece.print).take n) = some (ps.flatMap Piece.tokens) ↔
      (∀ f ∈ fields ps, Clean f.bytes) ∧
        ∀ b ∈ (ps.flatMap Piece.print).drop n, isSpace b = true := by
  have hiff := (toStatement ps h).tokenise_take_iff n
  have hvalues : (∀ s ∈ slots ps, Clean s.value) ↔ ∀ f ∈ fields ps, Clean f.bytes := by
    rw [← List.forall_mem_map, value_slots, List.forall_mem_map]
  rw [tokens_toStatement h] at hiff
  rw [print_eq, ← hvalues]
  exact hiff

/-! ### The statements -/

/-- A statement the business functions send, with what is printed into it. -/
inductive Query where
  /-- `Login`, `BaseBusiness.cc:293–295`. -/
  | login (username password : CString)
  /-- `CheckDuplication`, line 143. -/
  | checkDuplication (username : CString)
  /-- `Register`, lines 97–107. -/
  | register (sex age : Int) (username nickname password mobile email : CString)
    (timestamp : Int) (signInfo : CString) (money : Int)
  /-- `SendHongbao`, line 450: the money and the name of the session. -/
  | subMoney (money : Int) (name : CString)
  /-- `SendHongbao`, line 464. -/
  | insertHongbao (hbkey sender : CString) (money category count : Int) (receiver : CString)
    (timestamp : Int)
  /-- `RobHongbao`, line 602, and the refund of `StopRobHongbao`, line 65. -/
  | addMoney (money : Int) (name : CString)
  /-- `StopRobHongbao`, lines 56–57. -/
  | updateHongbao (leftmoney leftcount : Int) (roblog hbkey : CString)

namespace Query

def format : Query → List Piece
  | login username password =>
    [.text "select * from IMUser where name = ", .str username, .text " and password = ",
      .str password]
  | checkDuplication username => [.text "select * from IMUser where name = ", .str username]
  | register sex age username nickname password mobile email timestamp signInfo money =>
    [.text
      "insert into IMUser(sex,age,name,nick,password,phone,email,created,sign_info,money) values(",
      .int sex, .text ", ", .int age, .text ",", .str username, .text ",", .str nickname,
      .text ",", .str password, .text ",", .str mobile, .text ",", .str email, .text ",",
      .int timestamp, .text ",", .str signInfo, .text ",", .lf money, .text ")"]
  | subMoney money name =>
    [.text "update IMUser set money=money-", .lf money, .text " where name = ", .str name]
  | insertHongbao hbkey sender money category count receiver timestamp =>
    [.text "insert into Hongbao(hbkey,sender,money,category,count,receiver,time) values(",
      .str hbkey, .text ",", .str sender, .text ",", .lf money, .text ",", .int category,
      .text ",", .int count, .text ",", .str receiver, .text ",", .int timestamp, .text ")"]
  | addMoney money name =>
    [.text "update IMUser set money=money+", .lf money, .text " where name = ", .str name,
      .text " "]
  | updateHongbao leftmoney leftcount roblog hbkey =>
    [.text "update Hongbao set leftmoney=", .lf leftmoney, .text ", leftcount = ",
      .int leftcount, .text ",roblog= ", .str roblog, .text "  where hbkey = ", .str hbkey]

/-- The text before any cut. -/
def text (q : Query) : List UInt8 := q.format.flatMap Piece.print

/-- What the server is given. -/
def sql (q : Query) : List UInt8 := snprintf q.text

/-- The tokens the statement is meant to have. -/
def tokens (q : Query) : List Token := q.format.flatMap Piece.tokens

private theorem wellSpaced_format (q : Query) : wellSpaced q.format = true := by
  cases q <;> rfl

private theorem text_tokens_iff (q : Query) :
    tokenise q.sql = some q.tokens ↔ (∀ f ∈ fields q.format, Clean f.bytes) ∧
      ∀ b ∈ q.text.drop (kSqlSize - 1), isSpace b = true :=
  tokenise_print_iff q.wellSpaced_format (kSqlSize - 1)

end Query

example (username password : CString) : (Query.login username password).tokens =
    [keyword "select", symbol '*', keyword "from", keyword "IMUser", keyword "where",
      keyword "name", symbol '=', .literal username.bytes, keyword "and", keyword "password",
      symbol '=', .literal password.bytes] := by
  rfl

/-! ### The rows a query selects -/

/-- The columns of `IMUser` that the queries compare. -/
structure UserRow where
  name : List UInt8
  password : List UInt8
  deriving DecidableEq, Repr

/-- What a side of an equation stands for in a row. -/
def operand (row : UserRow) : Token → Option (List UInt8)
  | .literal v => some v
  | .word w =>
    if w = bytesOf "name" then some row.name
    else if w = bytesOf "password" then some row.password
    else none
  | .symbol _ => none

/-- Whether a row satisfies equations joined by `and` and `or`; `acc` is the conjunction so far. -/
def condition (row : UserRow) (acc : Bool) : List Token → Option Bool
  | [a, eq, b] => do
    guard (eq = symbol '=')
    some (acc && decide ((← operand row a) = (← operand row b)))
  | a :: eq :: b :: c :: rest => do
    guard (eq = symbol '=')
    let holds := acc && decide ((← operand row a) = (← operand row b))
    if c = keyword "and" then condition row holds rest
    else if c = keyword "or" then (condition row true rest).map (holds || ·)
    else none
  | _ => none

/-- Whether `select * from IMUser where …` selects a row; `none` for any other text. -/
def selects (sql : List UInt8) (row : UserRow) : Option Bool := do
  let ts ← tokenise sql
  guard (ts.take 5 =
    [keyword "select", symbol '*', keyword "from", keyword "IMUser", keyword "where"])
  condition row true (ts.drop 5)

namespace Query

private theorem selects_of_tokens_login {sql : List UInt8} {username password : CString}
    (h : tokenise sql = some (login username password).tokens) (row : UserRow) :
    selects sql row =
      some (decide (row.name = username.bytes) && decide (row.password = password.bytes)) := by
  rw [selects, h]
  rfl

/-- The query of `CheckDuplication` selects by name. -/
theorem selects_of_tokens_checkDuplication {sql : List UInt8} {username : CString}
    (h : tokenise sql = some (checkDuplication username).tokens) (row : UserRow) :
    selects sql row = some (decide (row.name = username.bytes)) := by
  rw [selects, h]
  rfl

/-- The server reads the statement that was meant, and `Login` selects only the rows with the
given name and password. -/
def Unaltered (q : Query) : Prop :=
  tokenise q.sql = some q.tokens ∧
    ∀ username password, q = login username password → ∀ row, selects q.sql row = some true →
      row.name = username.bytes ∧ row.password = password.bytes

/-- A statement is read as it was meant exactly if every string field is clean and at most
blanks were cut off at the end of the buffer. -/
theorem unaltered_iff (q : Query) :
    q.Unaltered ↔ (∀ f ∈ fields q.format, Clean f.bytes) ∧
      ∀ b ∈ q.text.drop (kSqlSize - 1), isSpace b = true := by
  rw [← text_tokens_iff, Unaltered]
  refine ⟨fun h => h.1, fun h => ⟨h, ?_⟩⟩
  rintro username password rfl row hrow
  rw [selects_of_tokens_login h, Option.some.injEq, Bool.and_eq_true, decide_eq_true_eq,
    decide_eq_true_eq] at hrow
  exact hrow

private theorem length_text_checkDuplication (username : CString) :
    (checkDuplication username).text.length = username.bytes.length + 36 := by
  have htable : (bytesOf "select * from IMUser where name = ").length = 34 := by decide
  simp [text, format, Piece.print, htable]
  omega

/-- Behind a name of 987 bytes the password is cut off: `Login` asks what `CheckDuplication`
asks. -/
theorem sql_login_of_long_name {username : CString} (h : username.bytes.length = 987)
    (password : CString) : (login username password).sql = (checkDuplication username).sql := by
  have htext : (login username password).text = (checkDuplication username).text ++
      (bytesOf " and password = " ++ (Piece.str password).print) := by
    simp [text, format, Piece.print]
  have hlen : (checkDuplication username).text.length = kSqlSize - 1 := by
    rw [length_text_checkDuplication, h, kSqlSize]
  rw [sql, sql, snprintf, snprintf, htext, List.take_append_of_le_length (Nat.le_of_eq hlen.symm)]

/-- A clean name of 987 bytes is selected with any password. -/
theorem selects_login_of_long_name {username : CString} (h : username.bytes.length = 987)
    (hclean : Clean username.bytes) (password : CString) (row : UserRow) :
    selects (login username password).sql row = some (decide (row.name = username.bytes)) := by
  rw [sql_login_of_long_name h]
  apply selects_of_tokens_checkDuplication
  refine (text_tokens_iff _).mpr ⟨?_, ?_⟩
  · simpa [format, fields] using hclean
  · have hlen : (checkDuplication username).text.length ≤ kSqlSize - 1 := by
      rw [length_text_checkDuplication, h]
      decide
    rw [List.drop_of_length_le hlen]
    exact fun b hb => absurd hb List.not_mem_nil

/-- `alice`. -/
def alice : CString := ⟨bytesOf "alice", by decide⟩

/-- A password that ends its literal: `' or '1'='1`. -/
def orTrue : CString := ⟨bytesOf "' or '1'='1", by decide⟩

/-- A name of 987 letters. -/
def longName : CString :=
  ⟨List.replicate 987 97, fun h => absurd (List.eq_of_mem_replicate h) (by decide)⟩

/-- The password `' or '1'='1` selects every row, and a name of 987 bytes is selected with any
password. -/
theorem login_selects_others :
    (¬ (login alice orTrue).Unaltered ∧
      selects (login alice orTrue).sql ⟨bytesOf "bob", bytesOf "secret"⟩ = some true) ∧
    (¬ (login longName alice).Unaltered ∧
      selects (login longName alice).sql ⟨longName.bytes, bytesOf "secret"⟩ = some true) := by
  have hbob : selects (login alice orTrue).sql ⟨bytesOf "bob", bytesOf "secret"⟩ = some true := by
    decide +kernel
  have hlong : selects (login longName alice).sql ⟨longName.bytes, bytesOf "secret"⟩ =
      some true := by
    rw [selects_login_of_long_name List.length_replicate (clean_of_forall ?_), decide_eq_true rfl]
    intro b hb
    rw [List.eq_of_mem_replicate hb]
    decide
  refine ⟨⟨fun h => ?_, hbob⟩, ⟨fun h => ?_, hlong⟩⟩
  · exact absurd (h.2 alice orTrue rfl _ hbob).1 (by decide)
  · exact absurd (h.2 longName alice rfl _ hlong).2 (by decide)

end Query

end IMServer.Business
