import IMServer.Business.Store

/-!
# Balances

The money of one name and of all of them, and what an amount that is added to an account does to
it. Nothing keeps two rows of `IMUser` from having the same name, and a statement may be applied
more than once.
-/

namespace IMServer.Business

open IMServer.Base

/-- An amount is added to the accounts of a name. -/
def addMoney (users : List IMUser) (amount : Int) (name : String) : List IMUser :=
  updateWhere (·.name = name) (fun r => { r with money := r.money + amount }) users

/-- The number of accounts of a name. -/
def accounts (users : List IMUser) (name : String) : Nat := users.countP (·.name = name)

/-- The money in the accounts of a name. -/
def balance (users : List IMUser) (name : String) : Int :=
  (users.map fun r => if r.name = name then r.money else 0).sum

/-- The sum of all balances. -/
def balances (users : List IMUser) : Int := (users.map (·.money)).sum

/-- The name is that of exactly one account. -/
def Registered (names : List String) (name : String) : Prop := names.count name = 1
  deriving Decidable

/-- The statement adds to balances. -/
theorem World.imUser_addMoney (w : World) (amount : Int) (name : String) :
    (w.apply (.addMoney amount name)).imUser = addMoney w.imUser amount name := rfl

/-- No statement on a balance renames an account. -/
theorem names_addMoney (users : List IMUser) (amount : Int) (name : String) :
    (addMoney users amount name).map (·.name) = users.map (·.name) := by
  simp only [addMoney, updateWhere, List.map_map]
  refine List.map_congr_left fun r _ => ?_
  simp only [Function.comp]
  split <;> rfl

/-- A balance sums the rows of the name. -/
theorem balance_eq_filter (users : List IMUser) (name : String) :
    balance users name = ((users.filter (·.name = name)).map (·.money)).sum := by
  induction users with
  | nil => rfl
  | cons r users ih =>
    rw [balance] at ih ⊢
    by_cases hr : r.name = name
    · simp [hr, ih]
    · simp [hr, ih]

/-- Every account of the name is given the amount. -/
theorem balance_addMoney (users : List IMUser) (amount : Int) (name n : String) :
    balance (addMoney users amount name) n =
      balance users n + if n = name then accounts users name * amount else 0 := by
  have hsum := sum_updateWhere (fun r : IMUser => if r.name = n then r.money else 0)
    (fun r => decide (r.name = name)) (fun r => { r with money := r.money + amount })
    (if n = name then amount else 0) (fun r hr => ?_) users
  · rw [balance, addMoney, hsum, balance, accounts]
    split
    · rfl
    · rw [mul_zero]
  · have hname : r.name = name := of_decide_eq_true hr
    by_cases hn : n = name
    · simp [hn, hname]
    · simp [hn, hname, Ne.symm hn]

/-- The sum of all balances grows with every account of the name. -/
theorem balances_addMoney (users : List IMUser) (amount : Int) (name : String) :
    balances (addMoney users amount name) = balances users + accounts users name * amount :=
  sum_updateWhere (fun r : IMUser => r.money) (fun r => decide (r.name = name))
    (fun r => { r with money := r.money + amount }) amount (fun _ _ => rfl) users

/-- A registered name has one account. -/
theorem Registered.accounts {users : List IMUser} {name : String}
    (h : Registered (users.map (·.name)) name) : accounts users name = 1 := by
  rw [Registered, List.count, List.countP_map] at h
  exact h

/-- An amount added to a registered account is added to the sum of balances. -/
theorem Registered.balances_addMoney {users : List IMUser} {name : String}
    (h : Registered (users.map (·.name)) name) (amount : Int) :
    balances (addMoney users amount name) = balances users + amount := by
  rw [Business.balances_addMoney, h.accounts, Nat.cast_one, one_mul]

/-! ### Moves -/

/-- The balance of one name, and of no other, moves by an amount. -/
def Moved (name : String) (amount : Int) (users users' : List IMUser) : Prop :=
  ∀ n, balance users' n = balance users n + if n = name then amount else 0

/-- A statement reaches the one account of a name, once. -/
def Reaches (o : Outcome) (users : List IMUser) (name : String) : Prop :=
  o.times = 1 ∧ accounts users name = 1
  deriving Decidable

/-- What is added to the accounts of a name moves its balance by that for each of them. -/
theorem moved_addMoney_iff {users : List IMUser} {name : String} {amount moved : Int} :
    Moved name moved users (addMoney users amount name) ↔
      accounts users name * amount = moved := by
  constructor
  · intro h
    have := h name
    rw [balance_addMoney, if_pos rfl, if_pos rfl] at this
    omega
  · rintro rfl n
    exact balance_addMoney users amount name n

/-- An amount added elsewhere is no move of the name. -/
theorem Moved.eq_zero {users : List IMUser} {name other : String} {amount moved : Int}
    (h : Moved name moved users (addMoney users amount other)) (hne : name ≠ other) :
    moved = 0 := by
  have := h name
  rw [balance_addMoney, if_neg hne, if_pos rfl] at this
  omega

/-- Nothing is added. -/
theorem addMoney_zero (users : List IMUser) (name : String) : addMoney users 0 name = users := by
  refine List.map_id'' (fun r => ?_) users
  split
  · simp only [Int.add_zero]
  · rfl

/-- What is left as it was has moved by nothing. -/
theorem moved_self_iff {users : List IMUser} {name : String} {moved : Int} :
    Moved name moved users users ↔ moved = 0 := by
  have h := @moved_addMoney_iff users name 0 moved
  rw [addMoney_zero, Int.mul_zero] at h
  exact h.trans eq_comm

/-- A statement moves a balance by its amount exactly when it reaches the account. -/
theorem moved_times_iff {users : List IMUser} {name : String} {amount : Int} {o : Outcome} :
    Moved name amount users (addMoney users (o.times * amount) name) ↔
      amount = 0 ∨ Reaches o users name := by
  by_cases ha : amount = 0
  · simp [ha, addMoney_zero, moved_self_iff]
  rw [moved_addMoney_iff, ← Int.mul_assoc, mul_eq_right₀ ha, ← Nat.cast_mul, Nat.cast_eq_one,
    mul_eq_one, Reaches, and_comm]
  simp [ha]

/-- Two amounts are added as their sum. -/
theorem addMoney_addMoney (users : List IMUser) (a a' : Int) (name : String) :
    addMoney (addMoney users a name) a' name = addMoney users (a + a') name := by
  simp only [addMoney, updateWhere, List.map_map]
  refine List.map_congr_left fun r _ => ?_
  by_cases hr : r.name = name
  · simp [hr, Int.add_assoc]
  · simp [hr]

end IMServer.Business
