import IMServer.Base.Holders
import IMServer.Base.Run

/-!
# The pool of cache connections

`server/src/CachePool.cc:775–875`. Clients take connections out of a free list and give them
back; when the list is empty a connection is created as long as there are fewer than the maximum,
and otherwise the client waits. A step is a critical section: from `Lock` to `Unlock` or `Wait`,
or from the end of a wait to the next one of these. A client that waits may go on at any time, so
that signals make no difference to what can happen.

A connection is its address; `new` may return any address that no connection has.
-/

namespace IMServer.Cache

open IMServer.Base

universe u v

/-- `CachePool.cc:14`. -/
def MIN_CACHE_CONN_CNT : Nat := 2

/-- What a client does and holds. -/
structure CacheClient (A : Type v) where
  /-- It is in `m_lock.Wait`. -/
  waiting : Bool := false
  held : List A := []
  deriving DecidableEq, Repr

/-- The connections a client holds. -/
def CacheClient.conns {A : Type v} (c : CacheClient A) : Multiset A := c.held

/-- A call of `GetCacheConn` that has returned. -/
structure CacheCall (A : Type v) where
  /-- Whether `Init` succeeded, if the call has created a connection. -/
  init : Option Bool
  result : Option A
  deriving DecidableEq, Repr

/-- `CachePool.h:93–96`, the clients, and the calls of `GetCacheConn` that have returned. -/
structure CachePool (ι : Type u) (A : Type v) where
  curConnCnt : Nat
  maxConnCnt : Nat
  freeList : List A
  client : ι → CacheClient A
  calls : List (CacheCall A)

/-- A step of a client. The arguments of `get` and `wake` are the address of the connection, should
one be created, and whether its `Init` succeeds. -/
inductive CacheEvent (ι : Type u) (A : Type v) where
  | get (i : ι) (conn : A) (ok : Bool)
  /-- The client returns from `m_lock.Wait`. -/
  | wake (i : ι) (conn : A) (ok : Bool)
  | release (i : ι) (conn : A)
  deriving DecidableEq, Repr

namespace CachePool

variable {ι : Type u} {A : Type v}

/-- `CachePool.cc:775–783`. -/
def new (maxConnCnt : Nat) : CachePool ι A where
  curConnCnt := MIN_CACHE_CONN_CNT
  maxConnCnt
  freeList := []
  client _ := {}
  calls := []

/-- The loop of `Init`, with the addresses of the new connections and whether their `Init`
succeeds; `none` when one fails, lines 799–815. -/
def init (s : CachePool ι A) : List (A × Bool) → Option (CachePool ι A)
  | [] => some s
  | (conn, ok) :: conns =>
    if ok then init { s with freeList := s.freeList ++ [conn] } conns else none

variable [DecidableEq ι]

def setClient (s : CachePool ι A) (i : ι) (c : CacheClient A) : CachePool ι A :=
  { s with client := Function.update s.client i c }

/-- The end of `GetCacheConn`; lines 847–852. -/
def popFront (s : CachePool ι A) (i : ι) (init : Option Bool) : CachePool ι A :=
  match s.freeList with
  | [] => s
  | conn :: freeList =>
    { s.setClient i { waiting := false, held := conn :: (s.client i).held } with
      freeList
      calls := s.calls ++ [⟨init, some conn⟩] }

/-- The return in the middle of the loop; lines 831–837. -/
def returnNull (s : CachePool ι A) (i : ι) (init : Option Bool) : CachePool ι A :=
  { s.setClient i { s.client i with waiting := false } with calls := s.calls ++ [⟨init, none⟩] }

/-- No connection has this address. -/
def IsFresh (s : CachePool ι A) (conn : A) : Prop :=
  conn ∉ s.freeList ∧ ∀ i, conn ∉ (s.client i).held

variable [DecidableEq A] [Fintype ι]

instance (s : CachePool ι A) (conn : A) : Decidable (s.IsFresh conn) :=
  inferInstanceAs (Decidable (_ ∧ _))

/-- One turn of the loop of `GetCacheConn` and, when the list is not empty after it, the rest;
lines 821–852. -/
def getCacheConn (s : CachePool ι A) (i : ι) (conn : A) (ok : Bool) : CachePool ι A :=
  if s.freeList.isEmpty then
    if s.maxConnCnt ≤ s.curConnCnt then s.setClient i { s.client i with waiting := true }
    else if s.IsFresh conn then
      if ok then
        { s with
          freeList := s.freeList ++ [conn]
          curConnCnt := s.curConnCnt + 1 }.popFront i (some ok)
      else s.returnNull i (some ok)
    else s
  else s.popFront i none

/-- `CachePool.cc:855–875`. -/
def relCacheConn (s : CachePool ι A) (i : ι) (conn : A) : CachePool ι A :=
  { s.setClient i { s.client i with held := (s.client i).held.erase conn } with
    freeList := if conn ∈ s.freeList then s.freeList else s.freeList ++ [conn] }

/-- A client that does not wait calls `GetCacheConn`, or releases a connection that it holds. A step
that cannot happen leaves everything as it is. -/
def step (s : CachePool ι A) : CacheEvent ι A → CachePool ι A
  | .get i conn ok => if (s.client i).waiting then s else s.getCacheConn i conn ok
  | .wake i conn ok => if (s.client i).waiting then s.getCacheConn i conn ok else s
  | .release i conn =>
    if (s.client i).waiting = false ∧ conn ∈ (s.client i).held then s.relCacheConn i conn else s

end CachePool

/-! ### Accounting -/

namespace CachePool

variable {ι : Type u} {A : Type v} {s s' : CachePool ι A} {i : ι} {conn : A}

/-- A successful `Init` puts all new connections into the free list. -/
theorem init_eq_some {l : List (A × Bool)} (h : s.init l = some s') :
    s' = { s with freeList := s.freeList ++ l.map Prod.fst } := by
  induction l generalizing s with
  | nil =>
    obtain rfl := Option.some.inj h
    rw [List.map_nil, List.append_nil]
  | cons p l ih =>
    rw [init] at h
    split at h
    · rw [ih h, List.append_assoc]
      rfl
    · cases h

private theorem popFront_maxConnCnt [DecidableEq ι] {init : Option Bool} :
    (s.popFront i init).maxConnCnt = s.maxConnCnt := by
  unfold popFront
  split <;> rfl

variable [Fintype ι]

/-- All connections: the free ones and those that clients hold. -/
def conns (s : CachePool ι A) : Multiset A :=
  s.freeList + allHeld CacheClient.conns s.client

/-- The connections are distinct, and as many as are counted. -/
structure Inv (s : CachePool ι A) : Prop where
  nodup : s.conns.Nodup
  count : s.conns.card = s.curConnCnt
  le : s.curConnCnt ≤ s.maxConnCnt
  calls : ∀ call ∈ s.calls, call.result = none → call.init = some false

private theorem inv_of_init {maxConnCnt : Nat} (hmax : 2 ≤ maxConnCnt) {l : List (A × Bool)}
    (hlen : l.length = MIN_CACHE_CONN_CNT) (hnew : (l.map Prod.fst).Nodup)
    (h : (new maxConnCnt).init l = some s) : s.Inv ∧ s.maxConnCnt = maxConnCnt := by
  have hs := init_eq_some h
  have hheld : allHeld CacheClient.conns (new maxConnCnt : CachePool ι A).client = 0 :=
    allHeld_eq_zero fun _ => rfl
  have hconns : s.conns = (l.map Prod.fst : List A) := by
    rw [hs]
    exact (congrArg _ hheld).trans (add_zero _)
  refine ⟨⟨?_, ?_, ?_, fun call hmem => ?_⟩, by rw [hs]; rfl⟩
  · rw [hconns]
    exact hnew
  · rw [hconns, Multiset.coe_card, List.length_map, hlen, hs]
    rfl
  · rw [hs]
    exact hmax
  · rw [hs] at hmem
    cases hmem

/-- The connections, their number and its bound stay, and a call that has returned `NULL` has seen
`Init` fail. -/
theorem Inv.keep (h : s.Inv) (calls : List (CacheCall A)) (hconns : s'.conns = s.conns)
    (hcur : s'.curConnCnt = s.curConnCnt) (hmax : s'.maxConnCnt = s.maxConnCnt)
    (hcalls : s'.calls = s.calls ++ calls)
    (hnull : ∀ call ∈ calls, call.result = none → call.init = some false) : s'.Inv := by
  refine ⟨hconns ▸ h.nodup, ?_, ?_, ?_⟩
  · rw [hconns, hcur, h.count]
  · rw [hcur, hmax]
    exact h.le
  · intro call hmem
    rw [hcalls, List.mem_append] at hmem
    exact hmem.elim (h.calls call) (hnull call)

private theorem notMem_conns (h : s.IsFresh conn) : conn ∉ s.conns := by
  rw [conns, Multiset.mem_add, allHeld, Multiset.mem_sum]
  rintro (hfree | ⟨i, -, hheld⟩)
  · exact h.1 hfree
  · exact h.2 i hheld

/-- A new connection is free and is counted. -/
theorem Inv.create (h : s.Inv) (hfresh : s.IsFresh conn) (hlt : s.curConnCnt < s.maxConnCnt) :
    ({ s with freeList := s.freeList ++ [conn], curConnCnt := s.curConnCnt + 1 } :
      CachePool ι A).Inv := by
  have hconns : ({ s with freeList := s.freeList ++ [conn], curConnCnt := s.curConnCnt + 1 } :
      CachePool ι A).conns = conn ::ₘ s.conns := by
    change ((s.freeList ++ [conn] : List A) : Multiset A) + allHeld _ s.client = _
    rw [Multiset.coe_eq_coe.mpr (List.perm_append_singleton conn s.freeList),
      ← Multiset.cons_coe, Multiset.cons_add]
    rfl
  refine ⟨?_, ?_, hlt, h.calls⟩
  · rw [hconns, Multiset.nodup_cons]
    exact ⟨notMem_conns hfresh, h.nodup⟩
  · rw [hconns, Multiset.card_cons, h.count]

variable [DecidableEq ι]

/-- A connection that goes from the free list to a client, or back, is the same connection. -/
theorem conns_setClient {freeList : List A} {c : CacheClient A} {calls : List (CacheCall A)}
    (h : (freeList : Multiset A) + c.conns = s.freeList + (s.client i).conns) :
    ({ s.setClient i c with freeList, calls } : CachePool ι A).conns = s.conns :=
  add_allHeld_update h

private theorem Inv.popFront (h : s.Inv) (init : Option Bool) : (s.popFront i init).Inv := by
  unfold CachePool.popFront
  split
  · exact h
  · next conn freeList hf =>
    refine h.keep [⟨init, some conn⟩] (conns_setClient ?_) rfl rfl rfl (by simp)
    rw [hf, CacheClient.conns, ← Multiset.cons_coe, ← Multiset.cons_coe, Multiset.add_cons,
      Multiset.cons_add]
    rfl

private theorem Inv.returnNull (h : s.Inv) : (s.returnNull i (some false)).Inv :=
  h.keep [⟨some false, none⟩] (conns_setClient rfl) rfl rfl rfl (by simp)

private theorem Inv.wait (h : s.Inv) : (s.setClient i { s.client i with waiting := true }).Inv :=
  h.keep [] (conns_setClient rfl) rfl rfl (List.append_nil _).symm (by simp)

variable [DecidableEq A]

private theorem Inv.getCacheConn {ok : Bool} (h : s.Inv) : (s.getCacheConn i conn ok).Inv := by
  unfold CachePool.getCacheConn
  split_ifs with _ hmax hfresh hok
  · exact h.wait
  · exact (h.create hfresh (Nat.lt_of_not_le hmax)).popFront _
  · rw [Bool.eq_false_of_not_eq_true hok]
    exact h.returnNull
  · exact h
  · exact h.popFront none

/-- A connection that a client holds is not in the free list, so that it is put there. -/
theorem Inv.relCacheConn (h : s.Inv) (hmem : conn ∈ (s.client i).held) :
    (s.relCacheConn i conn).Inv := by
  have hfree : conn ∉ s.freeList := by
    have hdisj := (Multiset.nodup_add.mp h.nodup).2.2
    exact fun hf => Multiset.disjoint_left.mp hdisj hf
      (Multiset.mem_of_le (le_allHeld i) hmem)
  rw [CachePool.relCacheConn, if_neg hfree]
  refine h.keep [] (conns_setClient ?_) rfl rfl (List.append_nil _).symm (by simp)
  rw [CacheClient.conns, CacheClient.conns, ← Multiset.coe_add, add_assoc]
  exact congrArg _ (Multiset.coe_eq_coe.mpr (List.perm_cons_erase hmem).symm)

private theorem Inv.step (h : s.Inv) (e : CacheEvent ι A) : (s.step e).Inv := by
  cases e with
  | get i conn ok =>
    rw [CachePool.step]
    split
    · exact h
    · exact h.getCacheConn
  | wake i conn ok =>
    rw [CachePool.step]
    split
    · exact h.getCacheConn
    · exact h
  | release i conn =>
    rw [CachePool.step]
    split
    · next hmem => exact h.relCacheConn hmem.2
    · exact h

private theorem step_maxConnCnt (s : CachePool ι A) (e : CacheEvent ι A) :
    (s.step e).maxConnCnt = s.maxConnCnt := by
  cases e with
  | get i conn ok | wake i conn ok =>
    simp only [step, getCacheConn]
    split_ifs <;> first | rfl | exact popFront_maxConnCnt
  | release i conn =>
    rw [step]
    split <;> rfl

/-- Whatever the clients do after a successful `Init`: the free connections are distinct, no
connection is free and held or held by two clients, the count is the number of free and held
connections and never exceeds the maximum, and a call of `GetCacheConn` has returned `NULL` only
when the `Init` of a connection that it created failed. -/
theorem cache_pool_accounts {maxConnCnt : Nat} (hmax : 2 ≤ maxConnCnt) {l : List (A × Bool)}
    (hlen : l.length = MIN_CACHE_CONN_CNT) (hnew : (l.map Prod.fst).Nodup) {s₀ : CachePool ι A}
    (hinit : (new maxConnCnt).init l = some s₀) (events : List (CacheEvent ι A)) :
    let s := events.foldl step s₀
    s.freeList.Nodup ∧
    (∀ i, (s.client i).held.Nodup ∧ ∀ conn ∈ (s.client i).held, conn ∉ s.freeList) ∧
    (∀ i j conn, conn ∈ (s.client i).held → conn ∈ (s.client j).held → i = j) ∧
    s.curConnCnt = s.freeList.length + ∑ i, (s.client i).held.length ∧
    s.curConnCnt ≤ maxConnCnt ∧
    ∀ call ∈ s.calls, call.result = none → call.init = some false := by
  intro s
  obtain ⟨hinv, hsize⟩ : s.Inv ∧ s.maxConnCnt = maxConnCnt :=
    foldl_invariant (fun s : CachePool ι A => s.Inv ∧ s.maxConnCnt = maxConnCnt)
      (fun s e h _ => ⟨h.1.step e, (step_maxConnCnt s e).trans h.2⟩) events
      (inv_of_init hmax hlen hnew hinit) (Legal.of_forall (fun _ _ => trivial) _)
  obtain ⟨hfree, hheld, hdisj⟩ := Multiset.nodup_add.mp hinv.nodup
  refine ⟨hfree, fun i => ⟨?_, fun conn hmem hf => ?_⟩, fun i j conn => holder_unique hheld, ?_,
    hsize ▸ hinv.le, hinv.calls⟩
  · exact Multiset.nodup_of_le (le_allHeld (f := CacheClient.conns) i) hheld
  · exact Multiset.disjoint_left.mp hdisj hf (Multiset.mem_of_le (le_allHeld i) hmem)
  · rw [← hinv.count, conns, Multiset.card_add, allHeld, Multiset.card_sum]
    rfl

/-- Two clients and a pool of two connections: one client takes both, the other waits until one is
given back. -/
theorem cache_pool_two_clients :
    let s := [.get 0 3 true, .get 0 3 true, .get 1 3 true, .release 0 1, .wake 1 3 true].foldl step
      ({ (new 2 : CachePool (Fin 2) Nat) with freeList := [1, 2] })
    s.curConnCnt = s.freeList.length + ∑ i, (s.client i).held.length ∧ s.curConnCnt ≤ 2 :=
  have h := cache_pool_accounts (ι := Fin 2) (Nat.le_refl 2) (l := [(1, true), (2, true)]) rfl
    (by decide) rfl
    [.get 0 3 true, .get 0 3 true, .get 1 3 true, .release 0 1, .wake 1 3 true]
  ⟨h.2.2.2.1, h.2.2.2.2.1⟩

end CachePool

end IMServer.Cache
