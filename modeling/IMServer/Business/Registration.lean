import IMServer.Business.Sequential
import IMServer.Business.SqlStore

/-!
# Registrations that run at the same time

`Register` and `CheckDuplication` of `server/src/BaseBusiness.cc:77–158` look a name up with one
statement and insert the row with another, on different connections; the table of
`server/proto/im.sql:260–276` has no key on the name. Any number of registrations, their commands
interleaved in any order and their statements read by MySQL from their texts: where the texts are
read as they are meant, the names stay distinct along every run in which no registration finds
a name free while another one of that name is between its look-up and its insertion, and no
insertion is sent twice.
-/

namespace IMServer.Business

open IMServer.Base

/-! ### What a registration does -/

/-- How far a registration has come. -/
inductive RegisterPhase where
  /-- The name has not been looked up. -/
  | fresh
  /-- The name was free when it was looked up, and the row is not inserted yet. -/
  | checked
  | done
  deriving DecidableEq, Repr

/-- The phase after a command and its reply. -/
def registerNext : RegisterPhase → (c : Cmd) → Reply c → RegisterPhase
  | .fresh, .queryName _, some [] => .checked
  | .fresh, .queryName _, _ => .done
  | .checked, .execute _, _ => .done
  | φ, _, _ => φ

/-- A registration looks its name up, and inserts its row only after it has found it free. -/
def registerProtocol (info : Register) : Protocol Cmd Reply RegisterPhase where
  allow φ c := match c with
    | .getConnection | .releaseConnection _ => True
    | .queryName name => φ = .fresh ∧ name = info.username
    | .execute stmt => φ = .checked ∧ stmt = .insertUser (newUser info)
    | _ => False
  next := registerNext

/-- A registration that returns has inserted the row of a name it has found free. -/
def NotPending {α : Type} (φ : RegisterPhase) : Except Abort α → Prop
  | .ok _ => φ ≠ .checked
  | .error _ => True

/-- A registration follows its protocol. -/
theorem follows_register (info : Register) :
    (registerProtocol info).Follows NotPending .fresh (register info) := by
  refine .request trivial fun ml => ⟨trivial, fun own => ?_⟩
  cases own with
  | none => exact ⟨trivial, fun _ => .request trivial fun _ => nofun⟩
  | some h =>
    refine ⟨⟨rfl, rfl⟩, fun rows => ?_⟩
    rcases rows with _ | _ | ⟨row, rows⟩
    · exact ⟨trivial, fun _ => .request trivial fun _ => nofun⟩
    · refine ⟨trivial, fun _ => ?_⟩
      cases ml with
      | none => trivial
      | some hm => exact ⟨⟨rfl, rfl⟩, fun ret => ⟨trivial, fun _ => nofun⟩⟩
    · exact ⟨trivial, fun _ => .request trivial fun _ => nofun⟩

/-! ### One command -/

/-- The names in the table. -/
def usernames (w : World) : List String := w.imUser.map (·.name)

/-- What a command of a registration does to the names and to its phase. -/
inductive RegisterStep (info : Register) (w : World) (c : Cmd) (φ : RegisterPhase) :
    List String → RegisterPhase → Prop where
  /-- A connection is taken or given back. -/
  | keep : RegisterStep info w c φ (usernames w) φ
  /-- The name is in use, or the look-up fails. -/
  | refused (fresh : φ = .fresh) : RegisterStep info w c φ (usernames w) .done
  | found (fresh : φ = .fresh) (select : c = .queryName info.username)
      (outcome : w.outcome = .done) (free : info.username ∉ usernames w) :
      RegisterStep info w c φ (usernames w) .checked
  /-- The row is inserted as often as its statement is applied. -/
  | inserted (checked : φ = .checked) (row : c = .execute (.insertUser (newUser info))) :
      RegisterStep info w c φ (usernames w ++ List.replicate w.outcome.times info.username) .done

private theorem exec_queryName (name : String) (w : World) :
    exec (.queryName name) w =
      (if w.outcome = .done then some (w.imUser.filter (·.name = name)) else none, w.spend) := by
  dsimp only [exec]
  split
  · rfl
  · rfl

private theorem notMem_usernames_iff (name : String) (w : World) :
    name ∉ usernames w ↔ w.imUser.filter (·.name = name) = [] := by
  simp [usernames, List.filter_eq_nil_iff]

private theorem registerNext_getConnection (φ : RegisterPhase) (r : Option Handle) :
    registerNext φ .getConnection r = φ := by
  cases φ <;> rfl

private theorem registerNext_releaseConnection (φ : RegisterPhase) (ml : Option Handle) :
    registerNext φ (.releaseConnection ml) () = φ := by
  cases φ <;> rfl

private theorem usernames_apply (row : IMUser) (w : World) :
    usernames (w.apply (.insertUser row)) = usernames w ++ [row.name] := by
  simp [usernames, World.apply]

private theorem usernames_iterate (row : IMUser) (n : Nat) (w : World) :
    usernames ((World.apply · (.insertUser row))^[n] w) =
      usernames w ++ List.replicate n row.name := by
  induction n generalizing w with
  | zero => exact (List.append_nil _).symm
  | succ n ih =>
    rw [Function.iterate_succ_apply, ih, usernames_apply, List.append_assoc]
    rfl

/-- Every command that the protocol allows is one of these. -/
theorem registerStep_of_allow {info : Register} {w : World} {c : Cmd} {φ : RegisterPhase}
    (ha : (registerProtocol info).allow φ c) :
    RegisterStep info w c φ (usernames (exec c w).2) (registerNext φ c (exec c w).1) := by
  cases c with
  | getConnection =>
    rw [registerNext_getConnection]
    dsimp only [exec]
    split
    · exact .keep
    · exact .keep
  | releaseConnection ml =>
    rw [registerNext_releaseConnection]
    exact .keep
  | queryName name =>
    obtain ⟨rfl, rfl⟩ := ha
    rw [exec_queryName]
    by_cases hout : w.outcome = .done
    · rw [if_pos hout]
      cases hrows : w.imUser.filter (·.name = info.username) with
      | nil => exact .found rfl rfl hout ((notMem_usernames_iff _ _).mpr hrows)
      | cons row rows => exact .refused rfl
    · rw [if_neg hout]
      exact .refused rfl
  | execute stmt =>
    obtain ⟨rfl, rfl⟩ := ha
    dsimp only [exec]
    rw [usernames_iterate]
    exact .inserted rfl rfl
  | _ => exact ha.elim

/-! ### The texts -/

/-- Both statements of a registration are read as they are meant, where a cent is ten thousand
millionths. -/
structure Register.Plain (info : Register) : Prop where
  insert : (Statement.insertUser (newUser info)).Meant 10000
  select : (Query.checkDuplication (cstr info.username)).Read

instance (info : Register) : Decidable info.Plain :=
  decidable_of_iff ((Statement.insertUser (newUser info)).Meant 10000 ∧
    (Query.checkDuplication (cstr info.username)).Read) ⟨fun h => ⟨h.1, h.2⟩, fun h => ⟨h.1, h.2⟩⟩

/-- The names and passwords of all accounts are tidy. -/
def TidyAccounts (w : World) : Prop := ∀ r ∈ w.imUser, r.Tidy

instance (w : World) : Decidable (TidyAccounts w) :=
  inferInstanceAs (Decidable (∀ r ∈ w.imUser, r.Tidy))

/-- On the commands of a plain registration MySQL does what is meant, and the accounts stay
tidy. -/
theorem execWith_of_allow (foreign : Server) {info : Register} {w : World} {c : Cmd}
    {φ : RegisterPhase} (hplain : info.Plain) (ha : (registerProtocol info).allow φ c)
    (hw : TidyAccounts w) :
    execWith (textServer 10000 foreign) c w = exec c w ∧ TidyAccounts (exec c w).2 := by
  cases c with
  | getConnection =>
    refine ⟨rfl, ?_⟩
    dsimp only [exec]
    split
    · exact hw
    · exact hw
  | releaseConnection ml => exact ⟨rfl, hw⟩
  | queryName name =>
    obtain ⟨-, rfl⟩ := ha
    have hname : Tidy info.username := hplain.insert.1.name.1
    rw [exec_queryName]
    refine ⟨?_, hw⟩
    show (if w.outcome = .done then _ else _, w.spend) = _
    rw [queryName_textServer hname hplain.select hw]
  | execute stmt =>
    obtain ⟨-, rfl⟩ := ha
    exact execWith_execute hplain.insert hw
  | _ => exact ha.elim

/-! ### Registrations in any order -/

section Registrations

variable {ι : Type} [DecidableEq ι]

/-- The world, the phases and what is left of the registrations. -/
abbrev RegisterConfig (ι : Type) := Config ι Cmd Reply Abort (Int × Response) World RegisterPhase

/-- All registrations before their first command. -/
def registerStart (req : ι → Register) (w : World) : RegisterConfig ι where
  world := w
  phase _ := .fresh
  thread i := register (req i)

/-- One registration issues its next command, whose text MySQL reads. -/
def registerStep (foreign : Server) (req : ι → Register) :
    RegisterConfig ι → ι → RegisterConfig ι :=
  Config.step (execWith (textServer 10000 foreign)) fun i => registerProtocol (req i)

/-- A registration is about to find its name free while another one of that name has found it
free and not yet inserted it. -/
def Overlaps (req : ι → Register) (s : RegisterConfig ι) (i : ι) : Prop :=
  s.nextCommand i = some (.queryName (req i).username) ∧ s.world.outcome = .done ∧
    (req i).username ∉ usernames s.world ∧
    ∃ j, s.phase j = .checked ∧ (req j).username = (req i).username

instance [Fintype ι] (req : ι → Register) (s : RegisterConfig ι) (i : ι) :
    Decidable (Overlaps req s i) :=
  inferInstanceAs (Decidable (_ ∧ _ ∧ _ ∧ _))

/-- A registration is about to insert its row twice: the reply to the first statement is lost. -/
def Resends (req : ι → Register) (s : RegisterConfig ι) (i : ι) : Prop :=
  s.nextCommand i = some (.execute (.insertUser (newUser (req i)))) ∧ 1 < s.world.outcome.times

instance (req : ι → Register) (s : RegisterConfig ι) (i : ι) : Decidable (Resends req s i) :=
  inferInstanceAs (Decidable (_ ∧ _))

/-- The next command neither overlaps with another registration nor is sent twice. -/
def Apart (req : ι → Register) (s : RegisterConfig ι) (i : ι) : Prop :=
  ¬ Overlaps req s i ∧ ¬ Resends req s i

instance [Fintype ι] (req : ι → Register) (s : RegisterConfig ι) (i : ι) :
    Decidable (Apart req s i) :=
  inferInstanceAs (Decidable (_ ∧ _))

/-- The names are distinct, and a name that was found free is still free and found free by one
registration only. -/
structure Distinct (req : ι → Register) (names : List String) (φ : ι → RegisterPhase) : Prop where
  nodup : names.Nodup
  free : ∀ i, φ i = .checked → (req i).username ∉ names
  alone : ∀ i j, φ i = .checked → φ j = .checked → (req i).username = (req j).username → i = j

variable {foreign : Server} {req : ι → Register} {w : World} {φ : ι → RegisterPhase} {i j : ι}

private theorem update_done_eq_checked :
    Function.update φ i .done j = .checked ↔ j ≠ i ∧ φ j = .checked := by
  by_cases hj : j = i
  · subst hj
    simp
  · simp [hj]

private theorem update_checked_eq_checked :
    Function.update φ i .checked j = .checked ↔ j = i ∨ φ j = .checked := by
  by_cases hj : j = i
  · subst hj
    simp
  · simp [hj]

namespace Distinct

variable {names : List String}

omit [DecidableEq ι] in
/-- Names that differ at the start. -/
theorem start (h : names.Nodup) : Distinct req names fun _ => .fresh := ⟨h, nofun, nofun⟩

/-- A registration ends without a row. -/
theorem end_refused (h : Distinct req names φ) :
    Distinct req names (Function.update φ i .done) := by
  constructor
  · exact h.nodup
  · intro j hj
    exact h.free j (update_done_eq_checked.mp hj).2
  · intro j k hj hk
    exact h.alone j k (update_done_eq_checked.mp hj).2 (update_done_eq_checked.mp hk).2

/-- A registration finds its name free. -/
theorem find (h : Distinct req names φ) (hfree : (req i).username ∉ names)
    (hother : ∀ j, φ j = .checked → (req j).username ≠ (req i).username) :
    Distinct req names (Function.update φ i .checked) := by
  constructor
  · exact h.nodup
  · intro j hj
    rcases update_checked_eq_checked.mp hj with rfl | hj
    · exact hfree
    · exact h.free j hj
  · intro j k hj hk hname
    rcases update_checked_eq_checked.mp hj with hji | hj' <;>
      rcases update_checked_eq_checked.mp hk with hki | hk'
    · rw [hji, hki]
    · exact absurd (hji ▸ hname.symm) (hother k hk')
    · exact absurd (hki ▸ hname) (hother j hj')
    · exact h.alone j k hj' hk' hname

/-- A registration inserts the name it has found free. -/
theorem insert (h : Distinct req names φ) (hi : φ i = .checked) :
    Distinct req (names ++ [(req i).username]) (Function.update φ i .done) := by
  constructor
  · rw [List.nodup_append_comm]
    exact List.nodup_cons.mpr ⟨h.free i hi, h.nodup⟩
  · intro j hj hmem
    obtain ⟨hne, hj⟩ := update_done_eq_checked.mp hj
    rcases List.mem_append.mp hmem with hmem | hmem
    · exact h.free j hj hmem
    · exact hne (h.alone j i hj hi (List.mem_singleton.mp hmem))
  · intro j k hj hk
    exact h.alone j k (update_done_eq_checked.mp hj).2 (update_done_eq_checked.mp hk).2

/-- A step that does not overlap with another registration of the name. -/
theorem step {c : Cmd} {names : List String} {ψ : RegisterPhase}
    (h : Distinct req (usernames w) φ) (hs : RegisterStep (req i) w c (φ i) names ψ)
    (hother : c = .queryName (req i).username → w.outcome = .done →
      (req i).username ∉ usernames w → ∀ j, φ j = .checked → (req j).username ≠ (req i).username)
    (honce : c = .execute (.insertUser (newUser (req i))) → w.outcome.times ≤ 1) :
    Distinct req names (Function.update φ i ψ) := by
  cases hs with
  | keep =>
    rw [Function.update_eq_self]
    exact h
  | refused fresh => exact h.end_refused
  | found fresh select outcome free => exact h.find free (hother select outcome free)
  | inserted checked row =>
    obtain htimes | htimes := Nat.le_one_iff_eq_zero_or_eq_one.mp (honce row)
    · rw [htimes, List.replicate_zero, List.append_nil]
      exact h.end_refused
    · rw [htimes]
      exact h.insert checked

end Distinct

/-! ### Two registrations of one name -/

/-- `1` while a registration has found its name free and not yet inserted it. -/
def RegisterPhase.pending : RegisterPhase → Nat
  | .checked => 1
  | _ => 0

/-- The rows of a name and the pending rows of two registrations of it are two at least. -/
def Doubled (name : String) (i j : ι) (names : List String) (φ : ι → RegisterPhase) : Prop :=
  2 ≤ names.count name + (φ i).pending + (φ j).pending

private theorem pending_update (k : ι) (ψ : RegisterPhase) :
    (Function.update φ k ψ i).pending = if i = k then ψ.pending else (φ i).pending := by
  rw [Function.update_apply]
  split
  · rfl
  · rfl

namespace Doubled

variable {name : String} {names : List String}

/-- The phase of one registration moves on, and with it the rows. -/
theorem of_le {k : ι} {ψ : RegisterPhase} (hij : i ≠ j) (h : Doubled name i j (usernames w) φ)
    (hle : (usernames w).count name ≤ names.count name)
    (hk : k = i ∨ k = j → (usernames w).count name + (φ k).pending ≤
      names.count name + ψ.pending) : Doubled name i j names (Function.update φ k ψ) := by
  unfold Doubled at *
  rw [pending_update, pending_update]
  by_cases hi : i = k
  · subst hi
    have := hk (.inl rfl)
    rw [if_pos rfl, if_neg hij.symm]
    omega
  · by_cases hj : j = k
    · subst hj
      have := hk (.inr rfl)
      rw [if_neg hi, if_pos rfl]
      omega
    · rw [if_neg hi, if_neg hj]
      omega

/-- A step of any registration, when the stores do not fail. -/
theorem step {k : ι} {c : Cmd} {ψ : RegisterPhase} (hij : i ≠ j) (hi : (req i).username = name)
    (hj : (req j).username = name) (hout : w.outcome = .done)
    (h : Doubled name i j (usernames w) φ) (hs : RegisterStep (req k) w c (φ k) names ψ) :
    Doubled name i j names (Function.update φ k ψ) := by
  cases hs with
  | keep => exact h.of_le hij le_rfl fun _ => le_rfl
  | refused fresh => exact h.of_le hij le_rfl fun _ => by rw [fresh]; exact le_rfl
  | found fresh select outcome free =>
    exact h.of_le hij le_rfl fun _ => by rw [fresh]; exact Nat.le_succ _
  | inserted checked row =>
    rw [hout]
    refine h.of_le hij ?_ fun hk => ?_
    · rw [List.count_append]
      exact Nat.le_add_right _ _
    · have hname : (req k).username = name := by
        rcases hk with rfl | rfl
        · exact hi
        · exact hj
      rw [checked, hname, List.count_append, List.count_replicate_self]
      exact le_rfl

omit [DecidableEq ι] in
/-- Two registrations of a name that both went through. -/
theorem not_nodup (h : Doubled name i j names φ) (hi : φ i ≠ .checked) (hj : φ j ≠ .checked) :
    ¬ names.Nodup := by
  intro hn
  have hle := List.nodup_iff_count_le_one.mp hn name
  have hpending : ∀ ψ : RegisterPhase, ψ ≠ .checked → ψ.pending = 0 := by
    intro ψ hψ
    cases ψ with
    | checked => exact absurd rfl hψ
    | _ => rfl
  unfold Doubled at h
  rw [hpending _ hi, hpending _ hj] at h
  omega

end Doubled

/-! ### All registrations -/

/-- What holds along a run without overlaps. -/
def KeepsDistinct (req : ι → Register) (w : World) (φ : ι → RegisterPhase) : Prop :=
  TidyAccounts w ∧ Distinct req (usernames w) φ

/-- No store call fails, and the accounts are tidy. -/
def KeepsCalm (w : World) (_ : ι → RegisterPhase) : Prop :=
  TidyAccounts w ∧ w.oracle.outcomes = []

/-- What holds along a run without failures after two registrations of one name overlap. -/
def KeepsDoubled (name : String) (i j : ι) (w : World) (φ : ι → RegisterPhase) : Prop :=
  KeepsCalm w φ ∧ Doubled name i j (usernames w) φ

private theorem exec_calm_of_allow {info : Register} {c : Cmd} {ψ : RegisterPhase}
    (ha : (registerProtocol info).allow ψ c) (hw : w.oracle.outcomes = []) :
    (exec c w).2.oracle.outcomes = [] := by
  cases c with
  | getConnection =>
    rw [exec_getConnection hw]
    exact hw
  | releaseConnection ml => exact hw
  | queryName name =>
    rw [exec_queryName, World.spend_eq hw]
    exact hw
  | execute stmt =>
    obtain ⟨-, rfl⟩ := ha
    rw [exec_execute hw]
    exact hw
  | _ => exact ha.elim

section Steps

variable (hplain : ∀ i, (req i).Plain)

include hplain

private theorem keepsDistinct_step (s : RegisterConfig ι) (i : ι) (c : Cmd)
    (h : KeepsDistinct req s.world s.phase) (hc : s.nextCommand i = some c)
    (ha : (registerProtocol (req i)).allow (s.phase i) c) (hapart : Apart req s i) :
    KeepsDistinct req (execWith (textServer 10000 foreign) c s.world).2
      (Function.update s.phase i
        (registerNext (s.phase i) c (execWith (textServer 10000 foreign) c s.world).1)) := by
  obtain ⟨heq, htidy⟩ := execWith_of_allow foreign (hplain i) ha h.1
  rw [heq]
  refine ⟨htidy, h.2.step (registerStep_of_allow ha) ?_ ?_⟩
  · intro hselect hout hfree j hj hname
    exact hapart.1 ⟨hselect ▸ hc, hout, hfree, j, hj, hname⟩
  · intro hrow
    exact Nat.le_of_not_lt fun htimes => hapart.2 ⟨hrow ▸ hc, htimes⟩

omit [DecidableEq ι] in
/-- Calls that succeed go on succeeding. -/
theorem keepsCalm_step (foreign : Server) (s : RegisterConfig ι) (i : ι) (c : Cmd)
    (h : KeepsCalm s.world s.phase) (ha : (registerProtocol (req i)).allow (s.phase i) c)
    (φ : ι → RegisterPhase) :
    KeepsCalm (execWith (textServer 10000 foreign) c s.world).2 φ := by
  obtain ⟨heq, htidy⟩ := execWith_of_allow foreign (hplain i) ha h.1
  rw [heq]
  exact ⟨htidy, exec_calm_of_allow ha h.2⟩

private theorem keepsDoubled_step {name : String} {i j : ι} (hij : i ≠ j)
    (hi : (req i).username = name) (hj : (req j).username = name) (s : RegisterConfig ι) (k : ι)
    (c : Cmd) (h : KeepsDoubled name i j s.world s.phase)
    (ha : (registerProtocol (req k)).allow (s.phase k) c) :
    KeepsDoubled name i j (execWith (textServer 10000 foreign) c s.world).2
      (Function.update s.phase k
        (registerNext (s.phase k) c (execWith (textServer 10000 foreign) c s.world).1)) := by
  refine ⟨keepsCalm_step hplain foreign s k c h.1 ha _, ?_⟩
  rw [(execWith_of_allow foreign (hplain k) ha h.1.1).1]
  exact h.2.step hij hi hj (outcome_calm h.1.2) (registerStep_of_allow ha)

/-- After an overlap both registrations are about to insert the name. -/
theorem keepsDoubled_of_overlaps {s : RegisterConfig ι} {i : ι} (hcalm : KeepsCalm s.world s.phase)
    (hfollow : ∀ i, (registerProtocol (req i)).Follows NotPending (s.phase i) (s.thread i))
    (h : Overlaps req s i) :
    ∃ j, i ≠ j ∧ (req j).username = (req i).username ∧
      KeepsDoubled (req i).username i j (registerStep foreign req s i).world
        (registerStep foreign req s i).phase := by
  obtain ⟨hnext, hout, hfree, j, hj, hname⟩ := h
  rw [Config.nextCommand] at hnext
  have hf := hfollow i
  rw [registerStep, Config.step]
  cases ht : s.thread i with
  | pure a => rw [ht] at hnext; cases hnext
  | throw e => rw [ht] at hnext; cases hnext
  | call c next =>
    rw [ht] at hnext hf
    cases hnext
    have hfresh : s.phase i = .fresh := hf.1.1
    have hij : i ≠ j := by
      rintro rfl
      rw [hj] at hfresh
      cases hfresh
    refine ⟨j, hij, hname, keepsCalm_step hplain foreign s i _ hcalm hf.1 _, ?_⟩
    show Doubled _ i j _ (Function.update s.phase i (registerNext (s.phase i) _ _))
    rw [(execWith_of_allow foreign (hplain i) hf.1 hcalm.1).1, hfresh, exec_queryName, if_pos hout,
      (notMem_usernames_iff _ _).mp hfree]
    unfold Doubled
    rw [pending_update, pending_update, if_pos rfl, if_neg hij.symm, hj]
    exact Nat.le_add_left _ _

/-- Without overlaps and repeated insertions the names stay distinct. -/
theorem nodup_of_legal (htidy : TidyAccounts w) (hnames : (usernames w).Nodup) {schedule : List ι}
    (hl : Legal (fun s i => some (registerStep foreign req s i)) (Apart req)
      (registerStart req w) schedule) :
    (usernames (schedule.foldl (registerStep foreign req) (registerStart req w)).world).Nodup := by
  have hstart : KeepsDistinct req (registerStart req w).world (registerStart req w).phase :=
    ⟨htidy, Distinct.start hnames⟩
  exact (Config.run_invariant (keepsDistinct_step hplain) schedule hstart
    (fun i => follows_register (req i)) hl).1.2.nodup

omit hplain in
/-- A registration that has returned, or has not begun, has no row to insert. -/
theorem foldl_not_checked {schedule : List ι}
    (hfollow : ∀ i, (registerProtocol (req i)).Follows NotPending
      ((schedule.foldl (registerStep foreign req) (registerStart req w)).phase i)
      ((schedule.foldl (registerStep foreign req) (registerStart req w)).thread i))
    (hret : ∀ i ∈ schedule, ∃ a,
      (schedule.foldl (registerStep foreign req) (registerStart req w)).thread i = .pure a)
    (i : ι) :
    (schedule.foldl (registerStep foreign req) (registerStart req w)).phase i ≠ .checked :=
  Config.phase_of_returned (R := fun φ => φ ≠ .checked) (hfollow i) (hret i) nofun fun _ _ h => h

/-- An overlap ends with two rows of one name. -/
theorem not_nodup_of_not_legal (htidy : TidyAccounts w) (hcalm : w.oracle.outcomes = [])
    {schedule : List ι}
    (hl : ¬ Legal (fun s i => some (registerStep foreign req s i)) (Apart req)
      (registerStart req w) schedule)
    (hret : ∀ i ∈ schedule, ∃ a,
      (schedule.foldl (registerStep foreign req) (registerStart req w)).thread i = .pure a) :
    ¬ (usernames (schedule.foldl (registerStep foreign req)
      (registerStart req w)).world).Nodup := by
  have hfree : ∀ (s : RegisterConfig ι) (es : List ι),
      Legal (fun s i => some (registerStep foreign req s i)) (fun _ _ => True) s es :=
    fun s es => Legal.of_forall (fun _ _ => trivial) s
  obtain ⟨xs, i, ys, rfl, hover⟩ := exists_of_not_legal hl
  have hstart : KeepsCalm (registerStart req w).world (registerStart req w).phase :=
    ⟨htidy, hcalm⟩
  -- up to the overlap only the calm of the stores matters
  obtain ⟨hcalm', hfollow⟩ := Config.run_invariant
    (fun s k c hs _ ha _ => keepsCalm_step hplain foreign s k c hs ha _) xs hstart
    (fun i => follows_register (req i)) (hfree _ xs)
  have hoverlap : Overlaps req (xs.foldl (registerStep foreign req) (registerStart req w)) i := by
    by_contra hno
    refine hover ⟨hno, fun hresends => ?_⟩
    have hdone : (xs.foldl (registerStep foreign req) (registerStart req w)).world.outcome =
        .done := outcome_calm hcalm'.2
    have htimes := hresends.2
    rw [hdone] at htimes
    exact absurd htimes (by decide)
  obtain ⟨j, hij, hname, hdoubled⟩ := keepsDoubled_of_overlaps hplain hcalm' hfollow hoverlap
  -- from there on the two registrations own two rows of the name
  obtain ⟨⟨-, hend⟩, hfollow'⟩ := Config.run_invariant
    (fun s k c hs _ ha _ => keepsDoubled_step hplain hij rfl hname s k c hs ha) ys hdoubled
    (Config.follows_step hfollow i) (hfree _ ys)
  have hfold : (xs ++ i :: ys).foldl (registerStep foreign req) (registerStart req w) =
      ys.foldl (registerStep foreign req)
        (registerStep foreign req
          (xs.foldl (registerStep foreign req) (registerStart req w)) i) := by
    rw [List.foldl_append, List.foldl_cons]
  have hchecked := foldl_not_checked (hfold ▸ hfollow') hret
  rw [hfold] at hchecked ⊢
  exact hend.not_nodup (hchecked i) (hchecked j)

end Steps

/-- Any number of registrations whose texts are read as they are meant, of any names, their commands
interleaved in any order and every store call ending in any way: along every run without an overlap
and without an insertion that is sent twice the names in the table stay distinct. When no store call
fails and every registration has returned, they are distinct only if there was no overlap. -/
theorem usernames_distinct_iff (foreign : Server) (req : ι → Register)
    (hplain : ∀ i, (req i).Plain) (w : World) (htidy : TidyAccounts w)
    (hnames : (usernames w).Nodup) (schedule : List ι) :
    (Legal (fun s i => some (registerStep foreign req s i)) (Apart req) (registerStart req w)
        schedule →
      (usernames (schedule.foldl (registerStep foreign req) (registerStart req w)).world).Nodup) ∧
    (w.oracle.outcomes = [] →
      (∀ i ∈ schedule, ∃ a,
        (schedule.foldl (registerStep foreign req) (registerStart req w)).thread i = .pure a) →
      (usernames (schedule.foldl (registerStep foreign req) (registerStart req w)).world).Nodup →
      Legal (fun s i => some (registerStep foreign req s i)) (Apart req) (registerStart req w)
        schedule) :=
  ⟨nodup_of_legal hplain htidy hnames, fun hcalm hret hnodup => not_not.mp fun hl =>
    not_nodup_of_not_legal hplain htidy hcalm hl hret hnodup⟩

/-- Two registrations of Bob. -/
def bobTwice : Bool → Register := fun _ => { username := "bob" }

set_option maxRecDepth 20000 in
/-- One after the other, the second is refused. -/
theorem usernames_distinct_bob :
    (usernames ((List.replicate 8 true ++ List.replicate 8 false).foldl
      (registerStep .meant bobTwice) (registerStart bobTwice {})).world).Nodup ∧
    Legal (fun s i => some (registerStep .meant bobTwice s i)) (Apart bobTwice)
      (registerStart bobTwice {}) (List.replicate 8 true ++ List.replicate 8 false) :=
  have h := usernames_distinct_iff .meant bobTwice (by decide +kernel) {} (by decide) (by decide)
    (List.replicate 8 true ++ List.replicate 8 false)
  ⟨h.1 (by decide +kernel), h.2 rfl (fun i _ => by cases i <;> exact ⟨_, rfl⟩) (by decide +kernel)⟩

/-- In turns, both find the name free and insert it. -/
theorem usernames_repeated :
    (usernames ({} : World)).Nodup ∧ (∀ i, (bobTwice i).Plain) ∧
    usernames ((List.replicate 8 [true, false]).flatten.foldl (registerStep .meant bobTwice)
      (registerStart bobTwice {})).world = ["bob", "bob"] :=
  ⟨by decide, by decide +kernel, by decide +kernel⟩

end Registrations

end IMServer.Business
