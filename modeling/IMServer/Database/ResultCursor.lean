import IMServer.Base.Bytes
import IMServer.Base.CheckedInt
import IMServer.Base.Run
import Mathlib.Data.List.Nodup
import Mathlib.Logic.Function.Basic

/-!
# The stored result of a query

`server/src/MysqlUtil.cc:308–368` and `381–510`: the members of `Mysql` that read a stored result.
The client library keeps a cursor of its own; `iRowNum` and `row` are what the wrapper remembers of
it, so that a read of the row that was fetched last fetches nothing and a read of the row after it
does not seek. A null pointer that is followed, an index outside a row and an overflow of `iRowNum`
are `none`. The texts of errors and `FieldNameList` are left out: nothing here reads them.

Every mix of sequential and random reads returns what the current table holds, until the row with
the number 2³¹ - 1 has been fetched: `iRowNum + 1` is then not an `int`.
-/

namespace IMServer.Database

open IMServer.Base

/-- The values of a row, `none` for SQL `NULL`. -/
abbrev Row := List (Option Text)

/-- A result: every row has a value for each column, and no two columns have one name. -/
structure Table where
  fields : List Text
  rows : List Row
  width : ∀ row ∈ rows, row.length = fields.length
  distinct : fields.Nodup

/-- A stored result of the client library with its cursors. -/
structure MYSQL_RES where
  table : Table
  /-- The row that `mysql_fetch_row` returns next. -/
  dataCursor : Nat := 0
  /-- The column that `mysql_fetch_field` returns next. -/
  currentField : Nat := 0
  /-- The row whose lengths `mysql_fetch_lengths` returns. -/
  currentRow : Option Row := none

namespace MYSQL_RES

/-- `mysql_fetch_row`. -/
def fetchRow (res : MYSQL_RES) : Option Row × MYSQL_RES :=
  match res.table.rows[res.dataCursor]? with
  | some row => (some row, { res with dataCursor := res.dataCursor + 1, currentRow := some row })
  | none => (none, { res with currentRow := none })

/-- `mysql_data_seek`. -/
def dataSeek (res : MYSQL_RES) (offset : Nat) : MYSQL_RES :=
  { res with dataCursor := offset, currentRow := none }

/-- `mysql_fetch_field`, a null pointer after the last column. -/
def fetchField (res : MYSQL_RES) : Option Text × MYSQL_RES :=
  (res.table.fields[res.currentField]?, { res with currentField := res.currentField + 1 })

/-- `mysql_fetch_lengths`, a null pointer when no row is current. -/
def fetchLengths (res : MYSQL_RES) : Option (List Nat) :=
  res.currentRow.map fun row => row.map fun value => (value.getD []).length

end MYSQL_RES

/-- The members of `Mysql::MysqlProp` about the stored result; `MysqlUtil.cc:17–37`. -/
structure MysqlProp where
  iField : Nat := 0
  iRows : Nat := 0
  result : Option MYSQL_RES := none
  row : Option Row := none
  fieldIndex : Text → Option Nat := fun _ => none
  bFieldIndexInitialized : Bool := false
  iRowNum : Int := -1

namespace MysqlProp

/-- `MysqlUtil.cc:308–323`. -/
def freeResult (m : MysqlProp) : MysqlProp where
  fieldIndex := if m.bFieldIndexInitialized then fun _ => none else m.fieldIndex

/-- `MysqlUtil.cc:325–339`, with what `mysql_store_result` returns. -/
def storeResult (m : MysqlProp) (stored : Option Table) : Int × MysqlProp :=
  match stored with
  | none => (-1, m.freeResult)
  | some table =>
    (0, { m.freeResult with
      result := some { table }
      iField := table.fields.length % 2 ^ 32
      iRows := table.rows.length % 2 ^ 32 })

/-- The loop of `InitFieldName` from the column `i` on; `MysqlUtil.cc:359–364`. -/
def initFields : Nat → Nat → MYSQL_RES → (Text → Option Nat) →
    Option (MYSQL_RES × (Text → Option Nat))
  | 0, _, res, index => some (res, index)
  | n + 1, i, res, index =>
    match res.fetchField with
    | (none, _) => none
    | (some name, res) => initFields n (i + 1) res (Function.update index name (some i))

/-- `MysqlUtil.cc:351–368`. -/
def initFieldName (m : MysqlProp) : Option MysqlProp :=
  match m.bFieldIndexInitialized, m.result with
  | false, some res => do
    let (res, index) ← initFields res.table.fields.length 0 res m.fieldIndex
    some { m with result := some res, fieldIndex := index, bFieldIndexInitialized := true }
  | _, _ => some m

/-- No such row, or no result; `MysqlUtil.cc:383`, `445`. -/
def OutOfRange (m : MysqlProp) (iRow : Int) : Prop :=
  iRow < 0 ∨ m.iRows ≤ iRow.toNat ∨ m.result.isNone
  deriving Decidable

/-- Fetch a row that is not the one fetched last, with a seek unless it is the next one;
`MysqlUtil.cc:394–399`, `475–481`. -/
def fetch (m : MysqlProp) (iRow : Int) : Option MysqlProp := do
  let res ← m.result
  let seek ← if m.iRowNum = -1 then some true
    else (add32 m.iRowNum 1).map fun next => decide (iRow ≠ next)
  let fetched := (if seek then res.dataSeek iRow.toNat else res).fetchRow
  some { m with iRowNum := iRow, row := fetched.1, result := some fetched.2 }

/-- `row[iField]`. -/
def value (m : MysqlProp) (iField : Nat) : Option (Option Text) := m.row.bind (·[iField]?)

/-- `MysqlUtil.cc:381–406`. -/
def getField (m : MysqlProp) (iRow : Int) (iField : Nat) : Option (Text × MysqlProp) :=
  if m.OutOfRange iRow then some ([], m)
  else if iRow = m.iRowNum ∧ m.row.isSome then do
    let p ← m.value iField
    some (p.getD [], m)
  else do
    let m ← m.fetch iRow
    let p ← m.value iField
    some (p.getD [], m)

/-- `MysqlUtil.cc:433–441`. -/
def getFieldNamed (m : MysqlProp) (iRow : Int) (szFieldName : Option Text) :
    Option (Text × MysqlProp) := do
  let m ← m.initFieldName
  match szFieldName.bind m.fieldIndex with
  | none => some ([], m)
  | some iField => m.getField iRow iField

/-- `MysqlUtil.cc:443–498`. -/
def getFieldLen (m : MysqlProp) (iRow : Int) (iField : Nat) : Option ((Text × Nat) × MysqlProp) :=
  if m.OutOfRange iRow then some (([], 0), m)
  else if iRow = m.iRowNum ∧ m.row.isSome then do
    match ← m.value iField with
    | none => some (([], 0), m)
    | some p =>
      match m.result.bind MYSQL_RES.fetchLengths with
      | none => some (([], 0), m)
      | some lengths => do
        let iLen ← lengths[iField]?
        some ((p, iLen), m)
  else do
    let m ← m.fetch iRow
    match m.result.bind MYSQL_RES.fetchLengths with
    | none => some (([], 0), m)
    | some lengths => do
      match ← m.value iField with
      | none => some (([], 0), m)
      | some p => do
        let iLen ← lengths[iField]?
        some ((p, iLen), m)

/-- `MysqlUtil.cc:500–510`. A null name leaves `iLen` as it was. -/
def getFieldNamedLen (m : MysqlProp) (iRow : Int) (szFieldName : Option Text) (iLen : Nat) :
    Option ((Text × Nat) × MysqlProp) := do
  let m ← m.initFieldName
  match szFieldName with
  | none => some (([], iLen), m)
  | some name =>
    match m.fieldIndex name with
    | none => some (([], 0), m)
    | some iField => m.getFieldLen iRow iField

/-- `MysqlUtil.cc:418–431`. -/
def getNextRow (m : MysqlProp) : Option (Option Row × MysqlProp) :=
  match m.result with
  | none => some (none, m)
  | some res =>
    match res.fetchRow with
    | (none, res) => some (none, { m with row := none, result := some res, iRowNum := -1 })
    | (some row, res) => do
      let iRowNum ← add32 m.iRowNum 1
      some (some row, { m with row := some row, result := some res, iRowNum })

end MysqlProp

/-! ### Calls -/

inductive Call where
  /-- `StoreResult`, with what `mysql_store_result` returns. -/
  | storeResult (stored : Option Table)
  | freeResult
  | getField (iRow : Int) (iField : Nat)
  | getFieldNamed (iRow : Int) (szFieldName : Option Text)
  | getFieldLen (iRow : Int) (iField : Nat)
  | getFieldNamedLen (iRow : Int) (szFieldName : Option Text) (iLen : Nat)
  | getNextRow

inductive Answer where
  | code (ret : Int)
  | text (p : Text)
  | textLen (p : Text) (iLen : Nat)
  | row (row : Option Row)
  deriving DecidableEq, Repr

namespace MysqlProp

def call (m : MysqlProp) : Call → Option (Answer × MysqlProp)
  | .storeResult stored => some (.code (m.storeResult stored).1, (m.storeResult stored).2)
  | .freeResult => some (.code 0, m.freeResult)
  | .getField iRow iField => (m.getField iRow iField).map fun r => (.text r.1, r.2)
  | .getFieldNamed iRow name => (m.getFieldNamed iRow name).map fun r => (.text r.1, r.2)
  | .getFieldLen iRow iField =>
    (m.getFieldLen iRow iField).map fun r => (.textLen r.1.1 r.1.2, r.2)
  | .getFieldNamedLen iRow name iLen =>
    (m.getFieldNamedLen iRow name iLen).map fun r => (.textLen r.1.1 r.1.2, r.2)
  | .getNextRow => m.getNextRow.map fun r => (.row r.1, r.2)

/-- One call, with the answers so far. -/
def step (s : MysqlProp × List Answer) (c : Call) : Option (MysqlProp × List Answer) :=
  (s.1.call c).map fun r => (r.2, s.2 ++ [r.1])

end MysqlProp

/-! ### What the calls are for -/

/-- The current table, the row that was fetched last if it is current, and the row after it. -/
structure View where
  table : Option Table := none
  last : Option Nat := none
  next : Nat := 0

namespace View

/-- `iRows`, an `unsigned int`. -/
def iRows (v : View) : Nat := (v.table.elim 0 fun t => t.rows.length) % 2 ^ 32

/-- The row is below `iRows`. -/
def InRange (v : View) (iRow : Int) : Prop := 0 ≤ iRow ∧ iRow.toNat < v.iRows
  deriving Decidable

/-- A row of the current table. -/
def row (v : View) (r : Nat) : Option Row := v.table.bind fun t => t.rows[r]?

/-- A cell of the current table; the empty text for `NULL` and for a row out of range. -/
def text (v : View) (iRow : Int) (iField : Nat) : Text :=
  if v.InRange iRow then (((v.row iRow.toNat).bind (·[iField]?)).getD none).getD [] else []

/-- The column of a name. -/
def column (v : View) (name : Text) : Option Nat := v.table.bind fun t => t.fields.idxOf? name

/-- A row in range has been fetched. -/
def fetched (v : View) (iRow : Int) : View :=
  if v.InRange iRow then { v with last := some iRow.toNat, next := iRow.toNat + 1 } else v

/-- The answer by random access to the current table, and what is fetched by it. -/
def answer (v : View) : Call → Answer × View
  | .storeResult stored => (.code (if stored.isSome then 0 else -1), { table := stored })
  | .freeResult => (.code 0, {})
  | .getField iRow iField => (.text (v.text iRow iField), v.fetched iRow)
  | .getFieldNamed iRow name =>
    match name.bind v.column with
    | none => (.text [], v)
    | some iField => (.text (v.text iRow iField), v.fetched iRow)
  | .getFieldLen iRow iField =>
    (.textLen (v.text iRow iField) (v.text iRow iField).length, v.fetched iRow)
  | .getFieldNamedLen iRow name iLen =>
    match name with
    | none => (.textLen [] iLen, v)
    | some name =>
      match v.column name with
      | none => (.textLen [] 0, v)
      | some iField =>
        (.textLen (v.text iRow iField) (v.text iRow iField).length, v.fetched iRow)
  | .getNextRow =>
    match v.row v.next with
    | none => (.row none, { v with last := none })
    | some row => (.row (some row), { v with last := some v.next, next := v.next + 1 })

def step (s : View × List Answer) (c : Call) : View × List Answer :=
  ((s.1.answer c).2, s.2 ++ [(s.1.answer c).1])

/-- Row numbers are `int` values and column indices are within the table. -/
def Within (v : View) : Call → Prop
  | .getField iRow iField | .getFieldLen iRow iField =>
    iRow < 2 ^ 31 ∧ ∀ t, v.table = some t → iField < t.fields.length
  | .getFieldNamed iRow _ | .getFieldNamedLen iRow _ _ => iRow < 2 ^ 31
  | .storeResult _ | .freeResult | .getNextRow => True

/-- The last `int` is the number of the row that was fetched last, and another row is read. -/
def Refetches (v : View) (iRow : Int) : Prop :=
  v.last = some (2 ^ 31 - 1) ∧ v.InRange iRow ∧ iRow ≠ 2 ^ 31 - 1

/-- The call computes `iRowNum + 1` for the last `int`. -/
def Overflows (v : View) : Call → Prop
  | .getField iRow _ | .getFieldLen iRow _ => v.Refetches iRow
  | .getFieldNamed iRow name | .getFieldNamedLen iRow name _ =>
    (name.bind v.column).isSome ∧ v.Refetches iRow
  | .getNextRow => v.last = some (2 ^ 31 - 1) ∧ (v.row v.next).isSome
  | .storeResult _ | .freeResult => False

end View

/-! ### The index of the columns -/

namespace MysqlProp

/-- One more column is indexed. -/
theorem update_index_iff {t : Table} {i : Nat} (hlt : i < t.fields.length)
    {index : Text → Option Nat}
    (h : ∀ name j, index name = some j ↔ j < i ∧ t.fields[j]? = some name) (name : Text) (j : Nat) :
    Function.update index t.fields[i] (some i) name = some j ↔
      j < i + 1 ∧ t.fields[j]? = some name := by
  have hname : t.fields[i]? = some t.fields[i] := List.getElem?_eq_getElem hlt
  by_cases hn : name = t.fields[i]
  · rw [hn, Function.update_self, Option.some.injEq]
    constructor
    · rintro rfl
      exact ⟨Nat.lt_succ_self i, hname⟩
    · rintro ⟨-, hget⟩
      exact (List.getElem?_inj hlt t.distinct).mp (hname.trans hget.symm)
  · rw [Function.update_of_ne hn, h]
    have hne : t.fields[j]? = some name → j ≠ i := by
      rintro hget rfl
      exact hn (Option.some.inj (hget.symm.trans hname))
    constructor
    · rintro ⟨hj, hget⟩
      exact ⟨by omega, hget⟩
    · rintro ⟨hj, hget⟩
      have := hne hget
      exact ⟨by omega, hget⟩

/-- The loop of `InitFieldName` has indexed the columns before `i`, and indexes the rest. -/
theorem initFields_eq (n i : Nat) (res : MYSQL_RES) (index : Text → Option Nat)
    (hcur : res.currentField = i) (hn : i + n = res.table.fields.length)
    (hindex : ∀ name j, index name = some j ↔ j < i ∧ res.table.fields[j]? = some name) :
    ∃ index', initFields n i res index = some ({ res with currentField := i + n }, index') ∧
      ∀ name j, index' name = some j ↔ res.table.fields[j]? = some name := by
  induction n generalizing i res index with
  | zero =>
    refine ⟨index, by rw [initFields, Nat.add_zero, ← hcur], fun name j => ?_⟩
    rw [hindex]
    refine and_iff_right_of_imp fun hj => ?_
    have := (List.getElem?_eq_some_iff.mp hj).1
    omega
  | succ n ih =>
    have hlt : i < res.table.fields.length := by omega
    have hname : res.table.fields[i]? = some res.table.fields[i] := List.getElem?_eq_getElem hlt
    have hfetch : res.fetchField =
        (some res.table.fields[i], { res with currentField := i + 1 }) := by
      rw [MYSQL_RES.fetchField, hcur, hname]
    obtain ⟨index', heq, hspec⟩ := ih (i + 1) { res with currentField := i + 1 } _ rfl
      (by dsimp only; omega) (update_index_iff hlt hindex)
    refine ⟨index', ?_, hspec⟩
    rw [initFields, hfetch]
    dsimp only
    rw [heq, Nat.add_right_comm, Nat.add_assoc]

/-- In a list without repetitions, the index of a value is where it stands. -/
theorem idxOf?_eq_some_iff {l : List Text} (h : l.Nodup) {name : Text} {j : Nat} :
    l.idxOf? name = some j ↔ l[j]? = some name := by
  rw [List.idxOf?, List.findIdx?_eq_some_iff_getElem, List.getElem?_eq_some_iff]
  refine exists_congr fun hj => ?_
  rw [beq_iff_eq]
  refine and_iff_left_of_imp fun hget k hk heq => ?_
  have := (h.getElem_inj_iff).mp (hget.trans (beq_iff_eq.mp heq).symm)
  omega

end MysqlProp

/-! ### The wrapper follows the view -/

/-- A result is stored, its cursor is where the view has it, and what the wrapper remembers of it
is the row that was fetched last. -/
structure Stored (m : MysqlProp) (v : View) (t : Table) (res : MYSQL_RES) : Prop where
  table : v.table = some t
  result : m.result = some res
  res_table : res.table = t
  cursor : res.dataCursor = v.next
  iRows : m.iRows = t.rows.length % 2 ^ 32
  row : m.row = v.last.bind (t.rows[·]?)
  current : res.currentRow = m.row
  iRowNum : m.iRowNum = v.last.elim (-1) fun r => (r : Int)
  last : ∀ r, v.last = some r → r < 2 ^ 31 ∧ r < t.rows.length ∧ v.next = r + 1
  -- no row is current before the first and after the last
  idle : v.last = none → v.next = 0 ∨ t.rows.length ≤ v.next
  index : m.fieldIndex =
    if m.bFieldIndexInitialized then fun name => t.fields.idxOf? name else fun _ => none
  unread : m.bFieldIndexInitialized = false → res.currentField = 0

/-- There is no result, or it is stored. -/
inductive Rep (m : MysqlProp) (v : View) : Prop
  | empty : m = {} → v = {} → Rep m v
  | stored {t : Table} {res : MYSQL_RES} : Stored m v t res → Rep m v

namespace MYSQL_RES

/-- A row that is there is fetched, and the cursor moves behind it. -/
theorem fetchRow_eq {res : MYSQL_RES} {r : Nat} {row : Row} (hcur : res.dataCursor = r)
    (hrow : res.table.rows[r]? = some row) :
    res.fetchRow = (some row, { res with dataCursor := r + 1, currentRow := some row }) := by
  subst hcur
  rw [fetchRow, hrow]

end MYSQL_RES

namespace MysqlProp

/-- Make a row current: nothing is fetched when it is already. -/
def position (m : MysqlProp) (iRow : Int) : Option MysqlProp :=
  if iRow = m.iRowNum ∧ m.row.isSome then some m else m.fetch iRow

private theorem getField_eq (m : MysqlProp) (iRow : Int) (iField : Nat) :
    m.getField iRow iField = if m.OutOfRange iRow then some ([], m)
      else (m.position iRow).bind fun m => (m.value iField).map fun p => (p.getD [], m) := by
  unfold getField position
  split
  · rfl
  · split <;> simp only [Option.bind_eq_bind, Option.bind_some, Option.map_eq_bind] <;> rfl

end MysqlProp

namespace Stored

variable {m : MysqlProp} {v : View} {t : Table} {res : MYSQL_RES}

private theorem iRows_eq (h : Stored m v t res) : m.iRows = v.iRows := by
  rw [h.iRows, View.iRows, h.table]
  rfl

private theorem row_eq (h : Stored m v t res) (r : Nat) : v.row r = t.rows[r]? := by
  rw [View.row, h.table]
  rfl

private theorem outOfRange_iff (h : Stored m v t res) (iRow : Int) :
    m.OutOfRange iRow ↔ ¬ v.InRange iRow := by
  rw [MysqlProp.OutOfRange, View.InRange, h.iRows_eq, h.result]
  simp only [Option.isNone_some, Bool.false_eq_true, or_false]
  omega

/-- A row in range is a row of the table. -/
theorem exists_row (h : Stored m v t res) {iRow : Int} (hr : v.InRange iRow) :
    ∃ row, t.rows[iRow.toNat]? = some row := by
  obtain ⟨-, hlt⟩ := hr
  rw [← h.iRows_eq, h.iRows] at hlt
  have hle : t.rows.length % 2 ^ 32 ≤ t.rows.length := Nat.mod_le _ _
  exact ⟨_, List.getElem?_eq_getElem (by omega)⟩

/-- The state after the row `r` has been fetched. -/
theorem fetched (h : Stored m v t res) {iRow : Int} (hr : v.InRange iRow) (hmax : iRow < 2 ^ 31)
    {row : Row} (hrow : t.rows[iRow.toNat]? = some row) :
    Stored
      { m with
        iRowNum := iRow
        row := some row
        result := some { res with dataCursor := iRow.toNat + 1, currentRow := some row } }
      (v.fetched iRow) t { res with dataCursor := iRow.toNat + 1, currentRow := some row } := by
  have h0 := hr.1
  rw [View.fetched, if_pos hr]
  refine ⟨h.table, rfl, h.res_table, rfl, h.iRows, hrow.symm, rfl, ?_, ?_, ?_, h.index, h.unread⟩
  · exact (Int.toNat_of_nonneg h0).symm
  · intro r hlast
    obtain rfl := Option.some.inj hlast
    exact ⟨by omega, (List.getElem?_eq_some_iff.mp hrow).1, rfl⟩
  · intro hlast
    cases hlast

/-- The row fetched last is current. -/
theorem fetched_of_cached (h : Stored m v t res) {iRow : Int} (hr : v.InRange iRow)
    (hc : iRow = m.iRowNum) : v.fetched iRow = v := by
  have h0 := hr.1
  rw [View.fetched, if_pos hr]
  cases hlast : v.last with
  | none =>
    have hn := h.iRowNum
    rw [hlast, Option.elim_none] at hn
    omega
  | some r =>
    have hn := h.iRowNum
    rw [hlast, Option.elim_some] at hn
    obtain ⟨-, -, hnext⟩ := h.last r hlast
    obtain rfl : iRow.toNat = r := by omega
    cases v
    simp only at hlast hnext
    rw [hlast, hnext]

/-- A row in range becomes current unless `iRowNum + 1` overflows on the way. -/
theorem position (h : Stored m v t res) {iRow : Int} (hr : v.InRange iRow) (hmax : iRow < 2 ^ 31)
    (hno : ¬ v.Refetches iRow) :
    ∃ m' res', m.position iRow = some m' ∧ Stored m' (v.fetched iRow) t res' := by
  unfold MysqlProp.position
  by_cases hc : iRow = m.iRowNum ∧ m.row.isSome
  · rw [if_pos hc, h.fetched_of_cached hr hc.1]
    exact ⟨m, res, rfl, h⟩
  obtain ⟨row, hrow⟩ := h.exists_row hr
  have hseek : (res.dataSeek iRow.toNat).fetchRow =
      (some row, { res with dataCursor := iRow.toNat + 1, currentRow := some row }) :=
    MYSQL_RES.fetchRow_eq rfl (h.res_table ▸ hrow)
  rw [if_neg hc, MysqlProp.fetch, h.result]
  refine ⟨_, _, ?_, h.fetched hr hmax hrow⟩
  cases hlast : v.last with
  | none =>
    have hn := h.iRowNum
    rw [hlast, Option.elim_none] at hn
    simp only [hn, Option.bind_eq_bind, Option.bind_some, if_true, hseek]
  | some l =>
    have hn := h.iRowNum
    rw [hlast, Option.elim_some] at hn
    obtain ⟨hl, hlt, hnext⟩ := h.last l hlast
    have hsome : m.row.isSome := by
      rw [h.row, hlast, Option.bind_some, List.getElem?_eq_getElem hlt]
      rfl
    have hne : iRow ≠ l := fun heq => hc ⟨heq.trans hn.symm, hsome⟩
    have hadd : add32 m.iRowNum 1 = some ((l : Int) + 1) := by
      rw [hn]
      refine add32_eq (by omega) ?_
      by_contra hge
      obtain rfl : l = 2 ^ 31 - 1 := by omega
      exact hno ⟨hlast, hr, by simpa using hne⟩
    have hneg : m.iRowNum ≠ -1 := by omega
    simp only [Option.bind_eq_bind, Option.bind_some, if_neg hneg, hadd, Option.map_some]
    by_cases hnx : iRow = (l : Int) + 1
    · have hcur : res.fetchRow =
          (some row, { res with dataCursor := iRow.toNat + 1, currentRow := some row }) :=
        MYSQL_RES.fetchRow_eq (by rw [h.cursor, hnext]; omega) (h.res_table ▸ hrow)
      simp only [decide_eq_false (not_not_intro hnx), Bool.false_eq_true, if_false, hcur]
    · simp only [ne_eq, hnx, not_false_eq_true, decide_true, if_true, hseek]

/-- A read of another row after the last `int`. -/
theorem position_eq_none (h : Stored m v t res) {iRow : Int} (hre : v.Refetches iRow) :
    m.position iRow = none := by
  obtain ⟨hlast, hr, hne⟩ := hre
  have hn := h.iRowNum
  rw [hlast, Option.elim_some] at hn
  have hadd : add32 m.iRowNum 1 = none := by
    rw [hn]
    exact int32_eq_none (by omega)
  have hneg : m.iRowNum ≠ -1 := by omega
  rw [MysqlProp.position, if_neg (by omega), MysqlProp.fetch, h.result]
  simp only [Option.bind_eq_bind, Option.bind_some, if_neg hneg, hadd, Option.map_none,
    Option.bind_none]

/-- What is read of a row once it is current. -/
theorem read (h : Stored m v t res) {iRow : Int} (hr : v.InRange iRow) (hmax : iRow < 2 ^ 31)
    (hno : ¬ v.Refetches iRow) {iField : Nat} (hcol : iField < t.fields.length) :
    ∃ m' res' lengths p, m.position iRow = some m' ∧ Stored m' (v.fetched iRow) t res' ∧
      m'.value iField = some p ∧ res'.fetchLengths = some lengths ∧
      lengths[iField]? = some (p.getD []).length ∧ v.text iRow iField = p.getD [] := by
  obtain ⟨m', res', hpos, h'⟩ := h.position hr hmax hno
  obtain ⟨row, hrow⟩ := h.exists_row hr
  have hwidth : iField < row.length := by
    rw [t.width row (List.mem_of_getElem? hrow)]
    exact hcol
  have hcell : row[iField]? = some row[iField] := List.getElem?_eq_getElem hwidth
  have hcur : m'.row = some row := by
    rw [h'.row, View.fetched, if_pos hr, Option.bind_some, hrow]
  refine ⟨m', res', row.map fun value => (value.getD []).length, row[iField], hpos, h', ?_, ?_, ?_,
    ?_⟩
  · rw [MysqlProp.value, hcur, Option.bind_some, hcell]
  · rw [MYSQL_RES.fetchLengths, h'.current, hcur, Option.map_some]
  · rw [List.getElem?_map, hcell, Option.map_some]
  · rw [View.text, if_pos hr, h.row_eq, hrow, Option.bind_some, hcell, Option.getD_some]

private theorem getField (h : Stored m v t res) {iRow : Int} (hmax : iRow < 2 ^ 31) {iField : Nat}
    (hcol : iField < t.fields.length) (hno : ¬ v.Refetches iRow) :
    ∃ m' res', m.getField iRow iField = some (v.text iRow iField, m') ∧
      Stored m' (v.fetched iRow) t res' := by
  rw [MysqlProp.getField_eq]
  by_cases hr : v.InRange iRow
  · rw [if_neg (by rw [h.outOfRange_iff]; exact not_not_intro hr)]
    obtain ⟨m', res', -, p, hpos, h', hval, -, -, htext⟩ := h.read hr hmax hno hcol
    exact ⟨m', res', by rw [hpos, Option.bind_some, hval, htext, Option.map_some], h'⟩
  · rw [if_pos ((h.outOfRange_iff iRow).mpr hr), View.text, if_neg hr, View.fetched, if_neg hr]
    exact ⟨m, res, rfl, h⟩

private theorem getField_eq_none (h : Stored m v t res) {iRow : Int} (iField : Nat)
    (hre : v.Refetches iRow) : m.getField iRow iField = none := by
  rw [MysqlProp.getField_eq, if_neg (by rw [h.outOfRange_iff]; exact not_not_intro hre.2.1),
    h.position_eq_none hre, Option.bind_none]

/-- The overload with a length reads the same value. -/
theorem getFieldLen (h : Stored m v t res) {iRow : Int} (hmax : iRow < 2 ^ 31) {iField : Nat}
    (hcol : iField < t.fields.length) (hno : ¬ v.Refetches iRow) :
    ∃ m' res', m.getFieldLen iRow iField =
        some ((v.text iRow iField, (v.text iRow iField).length), m') ∧
      Stored m' (v.fetched iRow) t res' := by
  unfold MysqlProp.getFieldLen
  by_cases hr : v.InRange iRow
  · rw [if_neg (by rw [h.outOfRange_iff]; exact not_not_intro hr)]
    obtain ⟨m', res', lengths, p, hpos, h', hval, hlens, hlen, htext⟩ := h.read hr hmax hno hcol
    refine ⟨m', res', ?_, h'⟩
    have hlens' : m'.result.bind MYSQL_RES.fetchLengths = some lengths := by
      rw [h'.result, Option.bind_some, hlens]
    unfold MysqlProp.position at hpos
    split at hpos
    · next hc =>
      obtain rfl := Option.some.inj hpos
      rw [if_pos hc, hval, htext]
      cases p with
      | none => rfl
      | some text =>
        simp only [Option.bind_eq_bind, Option.bind_some, hlens', hlen, Option.getD_some]
    · next hc =>
      rw [if_neg hc, hpos, htext]
      simp only [Option.bind_eq_bind, Option.bind_some, hlens', hval]
      cases p with
      | none => rfl
      | some text => simp only [hlen, Option.bind_some, Option.getD_some]
  · rw [if_pos ((h.outOfRange_iff iRow).mpr hr), View.text, if_neg hr, View.fetched, if_neg hr]
    exact ⟨m, res, rfl, h⟩

private theorem getFieldLen_eq_none (h : Stored m v t res) {iRow : Int} (iField : Nat)
    (hre : v.Refetches iRow) : m.getFieldLen iRow iField = none := by
  have hpos := h.position_eq_none hre
  unfold MysqlProp.position at hpos
  split at hpos
  · cases hpos
  · next hc =>
    rw [MysqlProp.getFieldLen, if_neg (by rw [h.outOfRange_iff]; exact not_not_intro hre.2.1),
      if_neg hc, hpos]
    rfl

/-- The columns are indexed at the first read by name. -/
theorem initFieldName (h : Stored m v t res) :
    ∃ m' res', m.initFieldName = some m' ∧ Stored m' v t res' ∧ m'.fieldIndex = v.column := by
  have hcol : v.column = fun name => t.fields.idxOf? name := by
    funext name
    rw [View.column, h.table, Option.bind_some]
  unfold MysqlProp.initFieldName
  cases hi : m.bFieldIndexInitialized with
  | true =>
    refine ⟨m, res, rfl, h, ?_⟩
    rw [h.index, hi, if_pos rfl, hcol]
  | false =>
    obtain rfl := h.res_table
    have hindex : m.fieldIndex = fun _ => none := by
      rw [h.index, hi, if_neg Bool.false_ne_true]
    obtain ⟨index, heq, hspec⟩ := MysqlProp.initFields_eq res.table.fields.length 0 res m.fieldIndex
      (h.unread hi) (Nat.zero_add _) (by simp [hindex])
    have hfun : index = fun name => res.table.fields.idxOf? name := by
      funext name
      ext j
      rw [hspec, MysqlProp.idxOf?_eq_some_iff res.table.distinct]
    rw [h.result]
    simp only [heq, Option.bind_eq_bind, Option.bind_some]
    refine ⟨_, { res with currentField := 0 + res.table.fields.length }, rfl, ?_,
      by rw [hcol, hfun]⟩
    refine ⟨h.table, rfl, rfl, h.cursor, h.iRows, h.row, h.current, h.iRowNum, h.last, h.idle, ?_,
      ?_⟩
    · rw [hfun, if_pos rfl]
    · intro hf
      cases hf

/-- The number of the next row is one more than that of the last one. -/
theorem iRowNum_succ (h : Stored m v t res) {row : Row} (hrow : v.row v.next = some row)
    (hno : v.last ≠ some (2 ^ 31 - 1)) : m.iRowNum + 1 = v.next ∧ v.next < 2 ^ 31 := by
  have hn := h.iRowNum
  have hlt : v.next < t.rows.length := by
    rw [h.row_eq] at hrow
    exact (List.getElem?_eq_some_iff.mp hrow).1
  cases hlast : v.last with
  | none =>
    rw [hlast, Option.elim_none] at hn
    have := h.idle hlast
    omega
  | some r =>
    rw [hlast, Option.elim_some] at hn
    obtain ⟨hr, -, hnext⟩ := h.last r hlast
    have hne : r ≠ 2 ^ 31 - 1 := fun heq => hno (heq ▸ hlast)
    omega

/-- The next row, unless its number is not an `int`. -/
theorem getNextRow (h : Stored m v t res)
    (hno : ¬ (v.last = some (2 ^ 31 - 1) ∧ (v.row v.next).isSome)) :
    ∃ m' res', m.getNextRow = some (v.row v.next, m') ∧
      Stored m' (v.answer .getNextRow).2 t res' := by
  rw [MysqlProp.getNextRow, h.result, View.answer]
  cases hrow : v.row v.next with
  | none =>
    have hfetch : res.fetchRow = (none, { res with currentRow := none }) := by
      rw [MYSQL_RES.fetchRow, h.cursor, h.res_table, ← h.row_eq, hrow]
    dsimp only
    rw [hfetch]
    refine ⟨_, { res with currentRow := none }, rfl, ?_⟩
    refine ⟨h.table, rfl, h.res_table, h.cursor, h.iRows, rfl, rfl, rfl, ?_, ?_, h.index, h.unread⟩
    · intro r hr
      cases hr
    · rw [h.row_eq, List.getElem?_eq_none_iff] at hrow
      exact fun _ => .inr hrow
  | some row =>
    have hget : t.rows[v.next]? = some row := by rw [← h.row_eq, hrow]
    have hlt := (List.getElem?_eq_some_iff.mp hget).1
    have hfetch : res.fetchRow =
        (some row, { res with dataCursor := v.next + 1, currentRow := some row }) :=
      MYSQL_RES.fetchRow_eq h.cursor (h.res_table ▸ hget)
    have hnum := h.iRowNum_succ hrow fun hlast => hno ⟨hlast, by rw [hrow]; rfl⟩
    have hadd : add32 m.iRowNum 1 = some (v.next : Int) := by
      rw [add32_eq (by omega) (by omega), hnum.1]
    dsimp only
    rw [hfetch]
    simp only [hadd, Option.bind_eq_bind, Option.bind_some]
    refine ⟨_, { res with dataCursor := v.next + 1, currentRow := some row }, rfl, ?_⟩
    refine ⟨h.table, rfl, h.res_table, rfl, h.iRows, hget.symm, rfl, rfl, ?_, ?_, h.index, h.unread⟩
    · intro r hr
      obtain rfl := Option.some.inj hr
      exact ⟨hnum.2, hlt, rfl⟩
    · intro hr
      cases hr

private theorem getNextRow_eq_none (h : Stored m v t res) (hlast : v.last = some (2 ^ 31 - 1))
    (hrow : (v.row v.next).isSome) : m.getNextRow = none := by
  obtain ⟨row, hrow⟩ := Option.isSome_iff_exists.mp hrow
  have hn := h.iRowNum
  rw [hlast, Option.elim_some] at hn
  have hadd : add32 m.iRowNum 1 = none := by
    rw [hn]
    exact int32_eq_none (by omega)
  have hfetch : res.fetchRow =
      (some row, { res with dataCursor := v.next + 1, currentRow := some row }) :=
    MYSQL_RES.fetchRow_eq h.cursor (by rw [h.res_table, ← h.row_eq, hrow])
  rw [MysqlProp.getNextRow, h.result]
  dsimp only
  rw [hfetch]
  simp only [hadd, Option.bind_eq_bind, Option.bind_none]

end Stored

/-! ### One call -/

namespace View

private theorem not_inRange_empty (iRow : Int) : ¬ InRange {} iRow := by
  rintro ⟨-, hlt⟩
  exact Nat.not_lt_zero _ hlt

private theorem text_empty (iRow : Int) (iField : Nat) : text {} iRow iField = [] :=
  if_neg (not_inRange_empty iRow)

private theorem fetched_empty (iRow : Int) : fetched {} iRow = {} := if_neg (not_inRange_empty iRow)

end View

/-- Without a result every member of `Mysql` that reads one returns the empty string. -/
theorem MysqlProp.outOfRange_empty (iRow : Int) : MysqlProp.OutOfRange {} iRow := .inr (.inr rfl)

namespace Rep

variable {m : MysqlProp} {v : View}

private theorem freeResult_eq (h : Rep m v) : m.freeResult = {} := by
  have hindex : (if m.bFieldIndexInitialized then fun _ => none else m.fieldIndex) =
      fun _ => none := by
    cases h with
    | empty hm hv => rw [hm]; rfl
    | stored h =>
      rw [h.index]
      cases m.bFieldIndexInitialized <;> rfl
  rw [MysqlProp.freeResult, hindex]

private theorem storeResult (h : Rep m v) (stored : Option Table) :
    (m.storeResult stored).1 = (if stored.isSome then 0 else -1) ∧
      Rep (m.storeResult stored).2 { table := stored } := by
  unfold MysqlProp.storeResult
  rw [h.freeResult_eq]
  cases stored with
  | none => exact ⟨rfl, .empty rfl rfl⟩
  | some t =>
    have hlast : ∀ r : Nat, none = some r →
        r < 2 ^ 31 ∧ r < t.rows.length ∧ 0 = r + 1 := by
      intro r hr
      cases hr
    exact ⟨rfl, .stored ⟨rfl, rfl, rfl, rfl, rfl, rfl, rfl, rfl, hlast, fun _ => .inl rfl, rfl,
      fun _ => rfl⟩⟩

private theorem getField
    (h : Rep m v) {iRow : Int} {iField : Nat} (hw : v.Within (.getField iRow iField))
    (hno : ¬ v.Refetches iRow) :
    ∃ m', m.getField iRow iField = some (v.text iRow iField, m') ∧ Rep m' (v.fetched iRow) := by
  cases h with
  | empty hm hv =>
    subst hm hv
    rw [View.text_empty, View.fetched_empty, MysqlProp.getField,
      if_pos (MysqlProp.outOfRange_empty iRow)]
    exact ⟨{}, rfl, .empty rfl rfl⟩
  | stored h =>
    obtain ⟨m', res', heq, h'⟩ := h.getField hw.1 (hw.2 _ h.table) hno
    exact ⟨m', heq, .stored h'⟩

private theorem getFieldLen (h : Rep m v) {iRow : Int} {iField : Nat}
    (hw : v.Within (.getFieldLen iRow iField)) (hno : ¬ v.Refetches iRow) :
    ∃ m', m.getFieldLen iRow iField =
        some ((v.text iRow iField, (v.text iRow iField).length), m') ∧
      Rep m' (v.fetched iRow) := by
  cases h with
  | empty hm hv =>
    subst hm hv
    rw [View.text_empty, View.fetched_empty, MysqlProp.getFieldLen,
      if_pos (MysqlProp.outOfRange_empty iRow)]
    exact ⟨{}, rfl, .empty rfl rfl⟩
  | stored h =>
    obtain ⟨m', res', heq, h'⟩ := h.getFieldLen hw.1 (hw.2 _ h.table) hno
    exact ⟨m', heq, .stored h'⟩

private theorem getNextRow (h : Rep m v) (hno : ¬ v.Overflows .getNextRow) :
    ∃ m', m.getNextRow = some (v.row v.next, m') ∧ Rep m' (v.answer .getNextRow).2 := by
  cases h with
  | empty hm hv =>
    subst hm hv
    exact ⟨{}, rfl, .empty rfl rfl⟩
  | stored h =>
    obtain ⟨m', res', heq, h'⟩ := h.getNextRow hno
    exact ⟨m', heq, .stored h'⟩

/-- After `InitFieldName`, names are looked up in the current table. -/
theorem initFieldName (h : Rep m v) :
    ∃ m', m.initFieldName = some m' ∧ Rep m' v ∧ m'.fieldIndex = v.column := by
  cases h with
  | empty hm hv =>
    subst hm hv
    exact ⟨{}, rfl, .empty rfl rfl, rfl⟩
  | stored h =>
    obtain ⟨m', res', heq, h', hindex⟩ := h.initFieldName
    exact ⟨m', heq, .stored h', hindex⟩

private theorem column_lt
    {name : Text} {iField : Nat} (hcol : v.column name = some iField) (t : Table)
    (ht : v.table = some t) : iField < t.fields.length := by
  rw [View.column, ht, Option.bind_some, MysqlProp.idxOf?_eq_some_iff t.distinct] at hcol
  exact (List.getElem?_eq_some_iff.mp hcol).1

/-- One call answers as random access to the current table does. -/
theorem call (h : Rep m v) {c : Call} (hw : v.Within c) (hno : ¬ v.Overflows c) :
    ∃ m', m.call c = some ((v.answer c).1, m') ∧ Rep m' (v.answer c).2 := by
  cases c with
  | storeResult stored =>
    obtain ⟨hret, hrep⟩ := h.storeResult stored
    exact ⟨_, by rw [MysqlProp.call, hret, View.answer], hrep⟩
  | freeResult => exact ⟨{}, by rw [MysqlProp.call, h.freeResult_eq, View.answer], .empty rfl rfl⟩
  | getField iRow iField =>
    obtain ⟨m', heq, h'⟩ := h.getField hw hno
    exact ⟨m', by rw [MysqlProp.call, heq, Option.map_some, View.answer], h'⟩
  | getFieldLen iRow iField =>
    obtain ⟨m', heq, h'⟩ := h.getFieldLen hw hno
    exact ⟨m', by rw [MysqlProp.call, heq, Option.map_some, View.answer], h'⟩
  | getNextRow =>
    obtain ⟨m', heq, h'⟩ := h.getNextRow hno
    refine ⟨m', ?_, h'⟩
    unfold View.answer
    rw [MysqlProp.call, heq, Option.map_some]
    cases v.row v.next <;> rfl
  | getFieldNamed iRow name =>
    obtain ⟨m₁, hinit, h₁, hindex⟩ := h.initFieldName
    unfold MysqlProp.call View.answer MysqlProp.getFieldNamed
    simp only [hinit, Option.bind_eq_bind, Option.bind_some, hindex]
    cases hcol : name.bind v.column with
    | none => exact ⟨m₁, rfl, h₁⟩
    | some iField =>
      obtain ⟨n, -, hn⟩ := Option.bind_eq_some_iff.mp hcol
      have hre : ¬ v.Refetches iRow := fun hre => hno ⟨by rw [hcol]; rfl, hre⟩
      obtain ⟨m', heq, h'⟩ := h₁.getField ⟨hw, column_lt hn⟩ hre
      exact ⟨m', by dsimp only; rw [heq, Option.map_some], h'⟩
  | getFieldNamedLen iRow name iLen =>
    obtain ⟨m₁, hinit, h₁, hindex⟩ := h.initFieldName
    unfold MysqlProp.call View.answer MysqlProp.getFieldNamedLen
    simp only [hinit, Option.bind_eq_bind, Option.bind_some, hindex]
    cases name with
    | none => exact ⟨m₁, rfl, h₁⟩
    | some n =>
      dsimp only
      cases hcol : v.column n with
      | none => exact ⟨m₁, rfl, h₁⟩
      | some iField =>
        have hre : ¬ v.Refetches iRow := fun hre => hno ⟨by rw [Option.bind_some, hcol]; rfl, hre⟩
        obtain ⟨m', heq, h'⟩ := h₁.getFieldLen ⟨hw, column_lt hcol⟩ hre
        exact ⟨m', by dsimp only; rw [heq, Option.map_some], h'⟩

/-- The last `int` is the number of a row of a stored result. -/
theorem exists_stored (h : Rep m v) {r : Nat} (hlast : v.last = some r) :
    ∃ t res, Stored m v t res := by
  cases h with
  | empty hm hv =>
    subst hv
    cases hlast
  | stored h => exact ⟨_, _, h⟩

/-- A call that computes `iRowNum + 1` for the last `int` is undefined. -/
theorem call_eq_none (h : Rep m v) {c : Call} (hov : v.Overflows c) : m.call c = none := by
  cases c with
  | storeResult stored => cases hov
  | freeResult => cases hov
  | getField iRow iField =>
    obtain ⟨t, res, h⟩ := h.exists_stored hov.1
    rw [MysqlProp.call, h.getField_eq_none iField hov, Option.map_none]
  | getFieldLen iRow iField =>
    obtain ⟨t, res, h⟩ := h.exists_stored hov.1
    rw [MysqlProp.call, h.getFieldLen_eq_none iField hov, Option.map_none]
  | getNextRow =>
    obtain ⟨t, res, h⟩ := h.exists_stored hov.1
    rw [MysqlProp.call, h.getNextRow_eq_none hov.1 hov.2, Option.map_none]
  | getFieldNamed iRow name =>
    obtain ⟨hcol, hre⟩ := hov
    obtain ⟨iField, hcol⟩ := Option.isSome_iff_exists.mp hcol
    obtain ⟨m₁, hinit, h₁, hindex⟩ := h.initFieldName
    obtain ⟨t, res, h₁⟩ := h₁.exists_stored hre.1
    unfold MysqlProp.call MysqlProp.getFieldNamed
    simp only [hinit, Option.bind_eq_bind, Option.bind_some, hindex, hcol,
      h₁.getField_eq_none iField hre, Option.map_none]
  | getFieldNamedLen iRow name iLen =>
    obtain ⟨hcol, hre⟩ := hov
    obtain ⟨iField, hcol⟩ := Option.isSome_iff_exists.mp hcol
    obtain ⟨n, rfl, hn⟩ := Option.bind_eq_some_iff.mp hcol
    obtain ⟨m₁, hinit, h₁, hindex⟩ := h.initFieldName
    obtain ⟨t, res, h₁⟩ := h₁.exists_stored hre.1
    unfold MysqlProp.call MysqlProp.getFieldNamedLen
    simp only [hinit, Option.bind_eq_bind, Option.bind_some, hindex, hn,
      h₁.getFieldLen_eq_none iField hre, Option.map_none]

end Rep

/-! ### Runs -/

/-- Random access to the current table, call by call. -/
def View.answers (calls : List Call) : List Answer :=
  (calls.foldl View.step ({}, [])).2

/-- Every call keeps the row numbers and the columns in range. -/
def WithinRange (calls : List Call) : Prop :=
  Legal (fun s c => some (View.step s c)) (fun s c => s.1.Within c) ({}, []) calls

/-- No call computes `iRowNum + 1` for the last `int`. -/
def NoOverflow (calls : List Call) : Prop :=
  Legal (fun s c => some (View.step s c)) (fun s c => ¬ s.1.Overflows c) ({}, []) calls

/-- The wrapper follows the view, and both have given the same answers. -/
def Follows (s : MysqlProp × List Answer) (a : View × List Answer) : Prop :=
  Rep s.1 a.1 ∧ s.2 = a.2

private theorem Follows.step {s : MysqlProp × List Answer} {a : View × List Answer} {c : Call}
    (h : Follows s a) (hw : a.1.Within c) (hno : ¬ a.1.Overflows c) :
    ∃ s', MysqlProp.step s c = some s' ∧ Follows s' (View.step a c) := by
  obtain ⟨m', heq, hrep⟩ := h.1.call hw hno
  refine ⟨(m', s.2 ++ [(a.1.answer c).1]), by rw [MysqlProp.step, heq, Option.map_some], hrep, ?_⟩
  rw [h.2]
  rfl

private theorem Follows.step_eq_none
    {s : MysqlProp × List Answer} {a : View × List Answer} {c : Call}
    (h : Follows s a) (hov : a.1.Overflows c) : MysqlProp.step s c = none := by
  rw [MysqlProp.step, h.1.call_eq_none hov, Option.map_none]

private theorem run_simulates (calls : List Call) (hw : WithinRange calls) :
    (NoOverflow calls → ∃ m, run MysqlProp.step ({}, []) calls = some (m, View.answers calls)) ∧
      (¬ NoOverflow calls → run MysqlProp.step ({}, []) calls = none) := by
  have hok : ∀ s a c, Follows s a → a.1.Within c → ¬ a.1.Overflows c →
      ∃ s', MysqlProp.step s c = some s' ∧ Follows s' (View.step a c) :=
    fun _ _ _ h hw hno => h.step hw hno
  have hbad : ∀ s a c, Follows s a → a.1.Within c → ¬ ¬ a.1.Overflows c →
      MysqlProp.step s c = none := fun _ _ _ h _ hov => h.step_eq_none (not_not.mp hov)
  have hinit : Follows ({}, []) ({}, []) := ⟨.empty rfl rfl, rfl⟩
  obtain ⟨hgood, hfail⟩ := run_simulation_or_fails Follows hok hbad calls hinit hw
  refine ⟨fun hno => ?_, hfail⟩
  obtain ⟨⟨m, log⟩, heq, -, hlog⟩ := hgood hno
  exact ⟨m, by rw [heq, View.answers, ← hlog]⟩

/-! ### Reads of the first row -/

/-- The value of the first row in a named column; the empty text for `NULL` and an unknown name. -/
def Table.firstNamed (t : Table) (name : Text) : Text :=
  (t.fields.idxOf? name).elim [] fun iField => ((t.rows[0]?.bind (·[iField]?)).getD none).getD []

/-- The table is stored, and no row but the first has been fetched. -/
def AtFirst (t : Table) (m : MysqlProp) : Prop :=
  ∃ v, Rep m v ∧ v.table = some t ∧ v.last.getD 0 = 0

/-- A stored result starts at its first row. -/
theorem atFirst_storeResult {m : MysqlProp} {v : View} (h : Rep m v) (t : Table) :
    AtFirst t (m.storeResult (some t)).2 :=
  ⟨_, (h.storeResult (some t)).2, rfl, rfl⟩

/-- Reading the first row by name does not leave it. -/
theorem AtFirst.getFieldNamed {t : Table} {m : MysqlProp} (h : AtFirst t m)
    (hrows : 0 < t.rows.length % 2 ^ 32) (name : Text) :
    ∃ m', m.getFieldNamed 0 (some name) = some (t.firstNamed name, m') ∧ AtFirst t m' := by
  obtain ⟨v, hrep, ht, hlast⟩ := h
  have hr : v.InRange 0 := by
    refine ⟨Int.le_refl 0, ?_⟩
    rw [View.iRows, ht]
    exact hrows
  have hre : ¬ v.Refetches 0 := by
    rintro ⟨hmax, -, -⟩
    rw [hmax] at hlast
    exact absurd hlast (by decide)
  have hno : ¬ v.Overflows (.getFieldNamed 0 (some name)) := fun hov => hre hov.2
  have hmax : (0 : Int) < 2 ^ 31 := by decide
  obtain ⟨m', heq, hrep'⟩ := hrep.call (c := .getFieldNamed 0 (some name)) hmax hno
  have hfirst : (v.answer (.getFieldNamed 0 (some name))).1 = .text (t.firstNamed name) ∧
      (v.answer (.getFieldNamed 0 (some name))).2.table = some t ∧
      (v.answer (.getFieldNamed 0 (some name))).2.last.getD 0 = 0 := by
    unfold View.answer
    simp only [Option.bind_some, View.column, ht, Table.firstNamed]
    cases t.fields.idxOf? name with
    | none => exact ⟨rfl, ht, hlast⟩
    | some iField =>
      dsimp only
      rw [View.text, View.fetched, if_pos hr, if_pos hr, View.row, ht]
      exact ⟨rfl, rfl, rfl⟩
  rw [hfirst.1, MysqlProp.call] at heq
  obtain ⟨⟨p, m₁⟩, hget, hp⟩ := Option.map_eq_some_iff.mp heq
  obtain ⟨htext, rfl⟩ := Prod.mk.inj hp
  obtain rfl : p = t.firstNamed name := Answer.text.inj htext
  exact ⟨m₁, hget, _, hrep', hfirst.2⟩

/-! ### Tables whose row numbers are `int` values -/

/-- The call stores no table with 2³¹ rows. -/
def Call.Small (c : Call) : Prop := ∀ t, c = .storeResult (some t) → t.rows.length < 2 ^ 31

/-- The current table has fewer than 2³¹ rows, and the row fetched last is one of them. -/
structure View.Small (v : View) : Prop where
  rows : ∀ t, v.table = some t → t.rows.length < 2 ^ 31
  last : ∀ r, v.last = some r → (v.row r).isSome

namespace View.Small

variable {v : View}

private theorem last_ne (h : v.Small) : v.last ≠ some (2 ^ 31 - 1) := by
  intro hlast
  obtain ⟨row, hrow⟩ := Option.isSome_iff_exists.mp (h.last _ hlast)
  obtain ⟨t, ht, hget⟩ := Option.bind_eq_some_iff.mp hrow
  have := h.rows t ht
  have := (List.getElem?_eq_some_iff.mp hget).1
  omega

private theorem not_overflows (h : v.Small) (c : Call) : ¬ v.Overflows c := by
  intro hov
  cases c with
  | storeResult stored => exact hov
  | freeResult => exact hov
  | getField iRow iField => exact h.last_ne hov.1
  | getFieldLen iRow iField => exact h.last_ne hov.1
  | getFieldNamed iRow name => exact h.last_ne hov.2.1
  | getFieldNamedLen iRow name iLen => exact h.last_ne hov.2.1
  | getNextRow => exact h.last_ne hov.1

private theorem fetched (h : v.Small) (iRow : Int) : (v.fetched iRow).Small := by
  unfold View.fetched
  split
  · next hr =>
    refine ⟨h.rows, fun r hlast => ?_⟩
    obtain rfl := Option.some.inj hlast
    obtain ⟨-, hlt⟩ := hr
    unfold View.row
    cases ht : v.table with
    | none =>
      rw [View.iRows, ht] at hlt
      exact absurd hlt (Nat.not_lt_zero _)
    | some t =>
      rw [View.iRows, ht, Option.elim_some] at hlt
      have hle : t.rows.length % 2 ^ 32 ≤ t.rows.length := Nat.mod_le _ _
      rw [Option.bind_some, List.getElem?_eq_getElem (by omega)]
      rfl
  · exact h

private theorem answer (h : v.Small) {c : Call} (hc : c.Small) : (v.answer c).2.Small := by
  cases c with
  | storeResult stored =>
    refine ⟨fun t ht => hc t ?_, fun r hr => ?_⟩
    · rw [show stored = some t from ht]
    · cases hr
  | freeResult =>
    refine ⟨fun t ht => ?_, fun r hr => ?_⟩
    · cases ht
    · cases hr
  | getField iRow iField => exact h.fetched iRow
  | getFieldLen iRow iField => exact h.fetched iRow
  | getFieldNamed iRow name =>
    unfold View.answer
    dsimp only
    split
    · exact h
    · exact h.fetched iRow
  | getFieldNamedLen iRow name iLen =>
    unfold View.answer
    dsimp only
    split
    · exact h
    · split
      · exact h
      · exact h.fetched iRow
  | getNextRow =>
    unfold View.answer
    dsimp only
    split
    · refine ⟨h.rows, fun r hr => ?_⟩
      cases hr
    · next row hrow =>
      refine ⟨h.rows, fun r hr => ?_⟩
      obtain rfl := Option.some.inj hr
      exact Option.isSome_iff_exists.mpr ⟨row, hrow⟩

end View.Small

private theorem noOverflow_of_small {calls : List Call} (h : ∀ c ∈ calls, c.Small) :
    NoOverflow calls := by
  have hempty : View.Small {} := by
    refine ⟨fun t ht => ?_, fun r hr => ?_⟩
    · cases ht
    · cases hr
  refine (legal_congr (P := fun _ _ => True) (fun s : View × List Answer => s.1.Small) ?_ calls h
    hempty).mp (Legal.of_forall (fun _ _ => trivial) _)
  intro s c hs hc
  refine ⟨iff_of_true trivial (hs.not_overflows c), fun _ s' heq => ?_⟩
  obtain rfl := Option.some.inj heq
  exact hs.answer hc

/-- Every mix of reads answers as random access to the current table does exactly when none of them
computes `iRowNum + 1` for the last `int`, which needs a table of at least 2³¹ rows. -/
theorem result_cursor_agrees_iff (calls : List Call) (hw : WithinRange calls) :
    ((∃ m, run MysqlProp.step ({}, []) calls = some (m, View.answers calls)) ↔ NoOverflow calls) ∧
      ((∀ c ∈ calls, c.Small) → NoOverflow calls) := by
  obtain ⟨hgood, hfail⟩ := run_simulates calls hw
  refine ⟨⟨?_, hgood⟩, noOverflow_of_small⟩
  rintro ⟨m, heq⟩
  by_contra hno
  rw [hfail hno] at heq
  cases heq

/-- A table with one column `i` and `n` rows that hold `1`. -/
def onesTable (n : Nat) : Table where
  fields := [[105]]
  rows := List.replicate n [some [49]]
  width := by
    intro row hrow
    rw [List.eq_of_mem_replicate hrow]
    rfl
  distinct := List.nodup_singleton _

/-- The last row of 2³¹ is read, and then the first. -/
def lastThenFirst (t : Table) : List Call :=
  [.storeResult (some t), .getField (2 ^ 31 - 1) 0, .getField 0 0]

private theorem withinRange_lastThenFirst {t : Table} (h : 0 < t.fields.length) :
    WithinRange (lastThenFirst t) := by
  have hcol : ∀ (iRow : Int) (t' : Table), (View.fetched { table := some t } iRow).table = some t' →
      0 < t'.fields.length := by
    intro iRow t' ht'
    unfold View.fetched at ht'
    split at ht' <;> exact Option.some.inj ht' ▸ h
  refine ⟨trivial, ⟨by decide, fun t' ht' => Option.some.inj ht' ▸ h⟩, ⟨by decide, hcol _⟩, trivial⟩

private theorem not_noOverflow_lastThenFirst {t : Table} (h : t.rows.length = 2 ^ 31) :
    ¬ NoOverflow (lastThenFirst t) := by
  have hrows : View.iRows { table := some t } = 2 ^ 31 := by
    rw [View.iRows, Option.elim_some, h]
    rfl
  have hlast : View.fetched { table := some t } (2 ^ 31 - 1) =
      { table := some t, last := some (2 ^ 31 - 1), next := 2 ^ 31 } := by
    rw [View.fetched, if_pos ⟨by decide, by rw [hrows]; decide⟩]
    rfl
  intro hno
  refine hno.2.2.1 ?_
  show View.Refetches (View.fetched { table := some t } (2 ^ 31 - 1)) 0
  rw [hlast]
  refine ⟨rfl, ⟨by decide, ?_⟩, by decide⟩
  show (0 : Int).toNat < View.iRows { table := some t }
  rw [hrows]
  decide

/-- The first row is not read again once the last of 2³¹ rows has been: the number of the row after
it overflows. -/
theorem result_cursor_overflows :
    WithinRange (lastThenFirst (onesTable (2 ^ 31))) ∧
      run MysqlProp.step ({}, []) (lastThenFirst (onesTable (2 ^ 31))) = none := by
  have hw : WithinRange (lastThenFirst (onesTable (2 ^ 31))) :=
    withinRange_lastThenFirst Nat.one_pos
  exact ⟨hw, (run_simulates _ hw).2 (not_noOverflow_lastThenFirst List.length_replicate)⟩

/-- From the last row of two to the first. -/
theorem result_cursor_agrees_iff_onesTable :
    WithinRange (lastThenFirst (onesTable 2)) ∧
      ((∃ m, run MysqlProp.step ({}, []) (lastThenFirst (onesTable 2)) =
        some (m, View.answers (lastThenFirst (onesTable 2)))) ↔
          NoOverflow (lastThenFirst (onesTable 2))) := by
  have hw : WithinRange (lastThenFirst (onesTable 2)) := withinRange_lastThenFirst Nat.one_pos
  exact ⟨hw, (result_cursor_agrees_iff _ hw).1⟩

end IMServer.Database
