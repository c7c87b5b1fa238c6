import IMServer.Cache.BulkRead
import Mathlib.Data.Fintype.Card

/-!
# The contexts of the cache connections

Every function of `CacheConn` that talks to Redis begins with `Init`, which stores a new cluster
context in `m_pContext` and does not free the old one (`server/src/CachePool.cc:18–57`). The context
is freed when there is no reply, and `m_pContext` is then reset by all the functions but `isExists`.
Contexts are numbered in the order of their creation; what is sent and returned is left out.

A context whose command got a reply is never freed, unless the connection is destroyed before its
next command.
-/

namespace IMServer.Cache

open IMServer.Base IMServer.Cache.CacheConn

universe u

/-- The functions of `CacheConn` that begin with `Init`; `CachePool.cc:66–713`. -/
inductive CacheCommand where
  | get
  | setex
  | setnx
  | expire
  | set
  | getset
  | del
  | mget (keys : List (List UInt8))
  | isExists
  | hdel
  | hget
  | hgetAll
  | hset
  | hincrBy
  | incrBy
  | hmset
  | hmget
  | incr
  | decr
  | lpush
  | rpush
  | llen
  | lrange
  deriving DecidableEq, Repr

/-- It returns after `Init`, before it sends anything; lines 258–261 and 278–281. -/
def CacheCommand.returnsEarly : CacheCommand → Bool
  | .mget keys => keys.isEmpty || (joinKeys keys).isEmpty
  | _ => false

/-- `m_pContext` is set to `NULL` when the context has been freed. -/
def CacheCommand.resets : CacheCommand → Bool
  | .isExists => false
  | _ => true

/-- What happens in a command. -/
inductive CommandOutcome where
  /-- `redisClusterContextInit` returns `NULL`. -/
  | noContext
  /-- `redisClusterCommand` returns `NULL`. -/
  | noReply
  | replied
  deriving DecidableEq, Repr

/-- `m_pContext` of each connection, and the contexts that were created and freed. -/
structure CacheContexts (ι : Type u) where
  context : ι → Option Nat
  created : Nat
  freed : List Nat

/-- What happens to the contexts. -/
inductive ContextEvent (ι : Type u) where
  /-- The pool calls `Init` on a connection; `ok` if there is a context. -/
  | init (i : ι) (ok : Bool)
  | command (i : ι) (c : CacheCommand) (o : CommandOutcome)
  deriving DecidableEq, Repr

namespace CacheContexts

variable {ι : Type u}

/-- The connections have been constructed; `CachePool.cc:18–23`. -/
def start : CacheContexts ι where
  context _ := none
  created := 0
  freed := []

variable [DecidableEq ι]

/-- `CachePool.cc:37–57`. -/
def init (s : CacheContexts ι) (i : ι) (ok : Bool) : CacheContexts ι :=
  if ok then
    { s with context := Function.update s.context i (some s.created), created := s.created + 1 }
  else { s with context := Function.update s.context i none }

/-- `redisClusterFree(m_pContext)`, and `m_pContext = NULL` if it is reset. -/
def free (s : CacheContexts ι) (i : ι) (resets : Bool) : CacheContexts ι :=
  { s with
    freed := s.freed ++ (s.context i).toList
    context := if resets then Function.update s.context i none else s.context }

/-- The course that the commands have in common. -/
def command (s : CacheContexts ι) (i : ι) (c : CacheCommand) : CommandOutcome → CacheContexts ι
  | .noContext => s.init i false
  | .noReply => if c.returnsEarly then s.init i true else (s.init i true).free i c.resets
  | .replied => s.init i true

/-- `CachePool.cc:25–32`. -/
def destroy (s : CacheContexts ι) (i : ι) : CacheContexts ι := s.free i true

def step (s : CacheContexts ι) : ContextEvent ι → CacheContexts ι
  | .init i ok => s.init i ok
  | .command i c o => s.command i c o

end CacheContexts

namespace ContextEvent

variable {ι : Type u}

/-- The connection it is about. -/
def conn : ContextEvent ι → ι
  | .init i _ | .command i _ _ => i

/-- It creates a context and does not free it. -/
def keeps : ContextEvent ι → Bool
  | .init _ ok => ok
  | .command _ _ .noContext => false
  | .command _ c .noReply => c.returnsEarly
  | .command _ _ .replied => true

end ContextEvent

namespace CacheContexts

variable {ι : Type u} [DecidableEq ι] {s : CacheContexts ι}

/-- The last event of a connection. -/
def lastOf (events : List (ContextEvent ι)) (i : ι) : Option (ContextEvent ι) :=
  (events.filter (·.conn = i)).getLast?

private theorem lastOf_append_self (events : List (ContextEvent ι)) (e : ContextEvent ι) :
    lastOf (events ++ [e]) e.conn = some e := by
  simp [lastOf]

private theorem lastOf_append_of_ne (events : List (ContextEvent ι)) {e : ContextEvent ι} {i : ι}
    (h : i ≠ e.conn) : lastOf (events ++ [e]) i = lastOf events i := by
  simp [lastOf, h.symm]

/-- `m_pContext` has been freed. -/
def Dangling (s : CacheContexts ι) (i : ι) : Prop := ∃ c ∈ s.context i, c ∈ s.freed

/-- What holds after a run. -/
structure Ledger (events : List (ContextEvent ι)) (s : CacheContexts ι) : Prop where
  count : s.created = s.freed.length + events.countP ContextEvent.keeps
  nodup : s.freed.Nodup
  freed_lt : ∀ c ∈ s.freed, c < s.created
  context_lt : ∀ i, ∀ c ∈ s.context i, c < s.created
  dangling : ∀ i, s.Dangling i ↔ lastOf events i = some (.command i .isExists .noReply)

private theorem ledger_start : Ledger [] (start : CacheContexts ι) := by
  refine ⟨rfl, List.nodup_nil, List.forall_mem_nil _, fun i c hc => ?_, fun i => ?_⟩
  · cases hc
  · refine iff_of_false ?_ (fun h => by cases h)
    rintro ⟨c, hc, -⟩
    cases hc

namespace Ledger

variable {events : List (ContextEvent ι)}

/-- The other connections are left alone: their contexts are old ones. -/
theorem dangling_of_ne (h : Ledger events s) (s' : CacheContexts ι) {e : ContextEvent ι}
    (hfreed : ∀ c ∈ s'.freed, c ∈ s.freed ∨ c = s.created) (hsub : s.freed ⊆ s'.freed) {i : ι}
    (hi : i ≠ e.conn) (hctx : s'.context i = s.context i) :
    s'.Dangling i ↔ lastOf (events ++ [e]) i = some (.command i .isExists .noReply) := by
  rw [lastOf_append_of_ne events hi, ← h.dangling i, Dangling, Dangling, hctx]
  constructor
  · rintro ⟨c, hc, hmem⟩
    refine ⟨c, hc, (hfreed c hmem).resolve_right ?_⟩
    exact (h.context_lt i c hc).ne
  · rintro ⟨c, hc, hmem⟩
    exact ⟨c, hc, hsub hmem⟩

/-- There is no context. -/
theorem init_false (h : Ledger events s) {e : ContextEvent ι} (he : e.keeps = false)
    (hne : e ≠ .command e.conn .isExists .noReply) :
    Ledger (events ++ [e]) (s.init e.conn false) := by
  refine ⟨?_, h.nodup, h.freed_lt, fun i c hc => ?_, fun i => ?_⟩
  · rw [List.countP_append, List.countP_singleton, he]
    exact h.count
  · by_cases hi : i = e.conn
    · simp [init, hi] at hc
    · exact h.context_lt i c (by simpa [init, hi] using hc)
  · by_cases hi : i = e.conn
    · subst hi
      rw [lastOf_append_self]
      refine iff_of_false ?_ fun hs => hne (Option.some.inj hs)
      rintro ⟨c, hc, -⟩
      simp [init] at hc
    · exact h.dangling_of_ne (s.init e.conn false) (fun c hc => .inl hc) (List.Subset.refl _) hi
        (by simp [init, hi])

/-- There is a context, and it stays. -/
theorem init_true (h : Ledger events s) {e : ContextEvent ι} (he : e.keeps = true)
    (hne : e ≠ .command e.conn .isExists .noReply) :
    Ledger (events ++ [e]) (s.init e.conn true) := by
  refine ⟨?_, h.nodup, fun c hc => ?_, fun i c hc => ?_, fun i => ?_⟩
  · rw [List.countP_append, List.countP_singleton, he]
    have := h.count
    simp only [init, if_true]
    omega
  · exact (h.freed_lt c hc).trans (Nat.lt_succ_self _)
  · by_cases hi : i = e.conn
    · simp only [init, hi, if_true, Function.update_self, Option.mem_some_iff] at hc
      exact hc ▸ Nat.lt_succ_self _
    · exact (h.context_lt i c (by simpa [init, hi] using hc)).trans (Nat.lt_succ_self _)
  · by_cases hi : i = e.conn
    · subst hi
      rw [lastOf_append_self]
      refine iff_of_false ?_ fun hs => hne (Option.some.inj hs)
      rintro ⟨c, hc, hmem⟩
      simp only [init, if_true, Function.update_self, Option.mem_some_iff] at hc
      exact (h.freed_lt c hmem).ne hc.symm
    · exact h.dangling_of_ne (s.init e.conn true) (fun c hc => .inl hc) (List.Subset.refl _) hi
        (by simp [init, hi])

/-- The context is freed again. -/
theorem noReply (h : Ledger events s) (i : ι) {c : CacheCommand} (hc : c.returnsEarly = false) :
    Ledger (events ++ [.command i c .noReply]) ((s.init i true).free i c.resets) := by
  have hfreed : ((s.init i true).free i c.resets).freed = s.freed ++ [s.created] := by
    simp [init, free]
  have hcreated : ((s.init i true).free i c.resets).created = s.created + 1 := by simp [init, free]
  refine ⟨?_, ?_, fun d hd => ?_, fun j d hd => ?_, fun j => ?_⟩
  · rw [hcreated, hfreed, List.countP_append, List.countP_singleton, List.length_append,
      List.length_singleton]
    have := h.count
    simp only [ContextEvent.keeps, hc, Bool.false_eq_true, if_false]
    omega
  · rw [hfreed, List.nodup_append]
    refine ⟨h.nodup, List.nodup_singleton _, fun d hd d' hd' => ?_⟩
    rw [List.mem_singleton.mp hd']
    exact (h.freed_lt d hd).ne
  · rw [hcreated]
    rw [hfreed, List.mem_append, List.mem_singleton] at hd
    rcases hd with hd | rfl
    · exact (h.freed_lt d hd).trans (Nat.lt_succ_self _)
    · exact Nat.lt_succ_self _
  · rw [hcreated]
    by_cases hj : j = i
    · subst hj
      cases hr : c.resets with
      | true => simp [free, hr] at hd
      | false =>
        simp only [free, hr, init, if_true, Bool.false_eq_true, if_false, Function.update_self,
          Option.mem_some_iff] at hd
        exact hd ▸ Nat.lt_succ_self _
    · have hctx : ((s.init i true).free i c.resets).context j = s.context j := by
        cases c.resets <;> simp [init, free, hj]
      rw [hctx] at hd
      exact (h.context_lt j d hd).trans (Nat.lt_succ_self _)
  · by_cases hj : j = i
    · subst hj
      have hlast : lastOf (events ++ [.command j c .noReply]) j = some (.command j c .noReply) :=
        lastOf_append_self events (.command j c .noReply)
      rw [hlast]
      cases c with
      | isExists =>
        refine iff_of_true ⟨s.created, ?_, by simp [hfreed]⟩ rfl
        simp [init, free, CacheCommand.resets]
      | _ =>
        refine iff_of_false ?_ (by simp)
        rintro ⟨d, hd, -⟩
        simp [free, CacheCommand.resets] at hd
    · refine h.dangling_of_ne ((s.init i true).free i c.resets) (fun d hd => ?_) ?_ hj ?_
      · simpa [hfreed] using hd
      · rw [hfreed]
        exact List.subset_append_left _ _
      · cases c.resets <;> simp [init, free, hj]

private theorem step (h : Ledger events s) (e : ContextEvent ι) :
    Ledger (events ++ [e]) (s.step e) := by
  cases e with
  | init i ok =>
    cases ok with
    | false => exact h.init_false (e := .init i false) rfl (fun he => by cases he)
    | true => exact h.init_true (e := .init i true) rfl (fun he => by cases he)
  | command i c o =>
    cases o with
    | noContext => exact h.init_false (e := .command i c .noContext) rfl (fun he => by cases he)
    | replied => exact h.init_true (e := .command i c .replied) rfl (fun he => by cases he)
    | noReply =>
      rw [CacheContexts.step, command]
      cases hc : c.returnsEarly with
      | true =>
        refine h.init_true (e := .command i c .noReply) hc fun he => ?_
        cases he
        cases hc
      | false => exact h.noReply i hc

private theorem run (events : List (ContextEvent ι)) :
    Ledger events (events.foldl CacheContexts.step start) := by
  induction events using List.reverseRecOn with
  | nil => exact ledger_start
  | append_singleton events e ih =>
    rw [List.foldl_append]
    exact ih.step e

end Ledger

/-- The contexts that were not freed and that no connection has any more. -/
def lost [Fintype ι] (s : CacheContexts ι) : Finset Nat :=
  (Finset.range s.created).filter fun c => c ∉ s.freed ∧ ∀ i, s.context i ≠ some c

omit [DecidableEq ι] in
/-- A context was freed, or is that of a connection, or is lost. -/
theorem created_le [Fintype ι] (s : CacheContexts ι) :
    s.created ≤ s.freed.length + s.lost.card + Fintype.card ι := by
  have hsub : Finset.range s.created ⊆
      s.freed.toFinset ∪ s.lost ∪ Finset.univ.image fun i => (s.context i).getD 0 := by
    intro c hc
    by_cases hf : c ∈ s.freed
    · exact Finset.mem_union_left _ (Finset.mem_union_left _ (List.mem_toFinset.mpr hf))
    by_cases hi : ∃ i, s.context i = some c
    · obtain ⟨i, hi⟩ := hi
      refine Finset.mem_union_right _ (Finset.mem_image.mpr ⟨i, Finset.mem_univ i, ?_⟩)
      rw [hi]
      rfl
    · refine Finset.mem_union_left _ (Finset.mem_union_right _ (Finset.mem_filter.mpr ⟨hc, hf, ?_⟩))
      exact not_exists.mp hi
  have hcard := (Finset.card_le_card hsub).trans ((Finset.card_union_le _ _).trans
    (Nat.add_le_add_right (Finset.card_union_le _ _) _))
  have hfreed := s.freed.toFinset_card_le
  have himage : (Finset.univ.image fun i => (s.context i).getD 0).card ≤ Fintype.card ι :=
    Finset.card_image_le
  rw [Finset.card_range] at hcard
  omega

/-- In every run of commands on the connections of a pool, whatever Redis answers: no context is
freed twice; as many are left as there were commands that got a reply or returned before sending
anything, and calls of `Init` by the pool; and all of these but one for each connection are lost.
When a connection is destroyed, its context is freed a second time exactly if its last command was
`isExists` and got no reply. -/
theorem contexts_are_lost [Fintype ι] (events : List (ContextEvent ι)) :
    let s := events.foldl step start
    s.freed.Nodup ∧ (∀ c ∈ s.freed, c < s.created) ∧
      s.created = s.freed.length + events.countP ContextEvent.keeps ∧
      events.countP ContextEvent.keeps ≤ s.lost.card + Fintype.card ι ∧
      ∀ i, (s.destroy i).freed.Nodup ↔
        lastOf events i ≠ some (.command i .isExists .noReply) := by
  intro s
  have h : Ledger events s := Ledger.run events
  refine ⟨h.nodup, h.freed_lt, h.count, ?_, fun i => ?_⟩
  · have hle := s.created_le
    have hcount := h.count
    omega
  · rw [Ne, ← h.dangling i, destroy, free, List.nodup_append]
    cases hc : s.context i with
    | none => simp [Dangling, hc, h.nodup]
    | some c =>
      have hd : s.Dangling i ↔ c ∈ s.freed := by simp [Dangling, hc]
      rw [hd, Option.toList_some]
      constructor
      · rintro ⟨-, -, hne⟩ hmem
        exact hne c hmem c (List.mem_singleton_self c) rfl
      · intro hn
        refine ⟨h.nodup, List.nodup_singleton c, fun d hd e he => ?_⟩
        rw [List.mem_singleton.mp he]
        exact fun hdc => hn (hdc ▸ hd)

end CacheContexts

end IMServer.Cache
