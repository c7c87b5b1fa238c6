import IMServer.Business.Machine
import IMServer.Business.Outcomes

/-!
# Clients of one lock

Any number of clients, each with its own `RedisLock` (`server/src/RedisLock.h`) on one key,
call `lock` and `unlock` while their Redis commands interleave. A client whose `SETNX` fails
looks for a time that has run out under the protected key itself, where the red packet is
stored: the lock is exclusive exactly as long as what is stored there does not read as a
number below the clock.
-/

namespace IMServer.Business

open IMServer.Base IMServer.Cache

/-! ### Clients -/

/-- The calls a client makes on its lock. -/
inductive LockCall where
  | lock
  | unlock
  deriving DecidableEq, Repr

/-- A call on a lock, with the lock as the call leaves it. -/
def LockCall.program (wire : Wire) (l : RedisLock) : LockCall → Op RedisLock
  | .lock => l.lock wire
  | .unlock => do
    l.unlock
    pure { l with locked := false }

/-- A client, with its lock as the last call that returned has left it. -/
structure LockClient where
  lock : RedisLock
  /-- The call that has not returned, and what is left of it. -/
  running : Option (LockCall × Op RedisLock) := none
  /-- The lease the client wrote when it took the lock, until it deletes the lock key. -/
  held : Option Int := none

/-- The client is between a `lock` that returned true and its `unlock`. -/
def LockClient.inside (c : LockClient) : Bool :=
  c.lock.locked && match c.running with
    | some (.unlock, _) => false
    | _ => true

/-- The lease a client holds after a command. -/
def heldAfter (held : Option Int) : (c : Cmd) → Reply c → Option Int
  | .setnx _ time, value => if value = 1 then some time else held
  | .getset _ time, _ => some time
  | .del _, _ => none
  | _, _ => held

/-- The stores and the clients. -/
structure LockState where
  world : World
  client : Nat → LockClient

namespace LockState

/-- The state when the client `i` and the world have changed. -/
def withClient (s : LockState) (i : Nat) (w : World) (c : LockClient) : LockState where
  world := w
  client := Function.update s.client i c

/-- The client that was set. -/
@[simp] theorem client_withClient {s : LockState} {i : Nat} {w : World} {c : LockClient} :
    (s.withClient i w c).client i = c := Function.update_self ..

private theorem client_withClient_of_ne {s : LockState} {i j : Nat} {w : World} {c : LockClient}
    (h : j ≠ i) : (s.withClient i w c).client j = s.client j := Function.update_of_ne h ..

/-- No client holds the lock past the lease it wrote. -/
def Leased (s : LockState) : Prop := ∀ i, ∀ t ∈ (s.client i).held, (s.world.clock : Int) ≤ t

/-- At most one client is inside. -/
def AtMostOne (s : LockState) : Prop :=
  ∀ i j, (s.client i).inside = true → (s.client j).inside = true → i = j

end LockState

/-- A client makes a call, or what it is doing goes on by one command or returns. -/
inductive LockEvent where
  | call (i : Nat) (c : LockCall)
  | step (i : Nat)
  deriving DecidableEq, Repr

/-- A client makes one call at a time; one that has thrown does nothing more. -/
def lockStep (wire : Wire) (s : LockState) : LockEvent → LockState
  | .call i c =>
    match (s.client i).running with
    | none =>
      s.withClient i s.world
        { s.client i with running := some (c, c.program wire (s.client i).lock) }
    | some _ => s
  | .step i =>
    match (s.client i).running with
    | some (_, .pure l) => s.withClient i s.world { s.client i with lock := l, running := none }
    | some (c, .call cmd next) =>
      s.withClient i (exec cmd s.world).2
        { s.client i with
          running := some (c, next (exec cmd s.world).1)
          held := heldAfter (s.client i).held cmd (exec cmd s.world).1 }
    | _ => s

/-- Every client has made its lock and called nothing. -/
def lockStart (key : String) (expiretime : Int) (w : World) : LockState where
  world := w
  client i := { lock := ⟨some i, key, expiretime, false, 0⟩ }

/-! ### What a call does -/

/-- How far a call has come. -/
inductive LockPhase where
  | start
  | timed (now : Nat)
  /-- `SETNX` has found the lock key. -/
  | failed (now : Nat)
  /-- The value under the protected key has run out. -/
  | expired (now : Nat)
  | taken
  /-- `lock` on a lock that the client has. -/
  | kept
  /-- `unlock` before it has deleted the lock key. -/
  | freeing
  /-- The call ends without the lock. -/
  | free
  /-- The protected key has been overwritten. -/
  | lost
  deriving DecidableEq, Repr

/-- The client has the lock key. -/
def LockPhase.holds : LockPhase → Bool
  | taken | kept | freeing => true
  | _ => false

/-- The time a client has read and may still use. -/
def LockPhase.time : LockPhase → Option Nat
  | timed now | failed now | expired now => some now
  | _ => none

/-- The phase of a call after a command and its reply. -/
def lockNext (wire : Wire) : LockPhase → (c : Cmd) → Reply c → LockPhase
  | .start, .time, now => .timed now
  | .timed now, .setnx _ _, value => if value = 1 then .taken else .failed now
  | .failed now, .get _, some value => if Expired wire value now then .expired now else .free
  | .expired _, .getset _ _, _ => .lost
  | .freeing, .del _, _ => .free
  | φ, _, _ => φ

/-- What a call does in each phase. -/
def lockProtocol (wire : Wire) (key : String) (expiretime : Int) :
    Protocol Cmd Reply LockPhase where
  allow φ c := match φ with
    | .start | .kept => c = .time
    | .timed now => c = .setnx (RedisLock.getLockKey key) (leaseEnd expiretime now)
    | .failed _ => c = .get key
    | .expired now => c = .getset key (leaseEnd expiretime now)
    | .freeing => c = .del (RedisLock.getLockKey key)
    | .taken | .free => False
    | .lost => True
  next := lockNext wire

/-- The lock of the client with the connection `h`. -/
structure RedisLock.Own (key : String) (expiretime : Int) (h : Handle) (l : RedisLock) :
    Prop where
  cacheconn : l.cacheconn = some h
  key : l.key = key
  expiretime : l.expiretime = expiretime

/-- What a call returns in the phase in which it ends. -/
def LockReturn (key : String) (expiretime : Int) (h : Handle) (φ : LockPhase) :
    Except Abort RedisLock → Prop
  | .error _ => True
  | .ok l => φ = .lost ∨ l.Own key expiretime h ∧ l.locked = φ.holds

/-- The phase in which a call begins. -/
def LockCall.phase (locked : Bool) : LockCall → LockPhase
  | .lock => if locked then .kept else .start
  | .unlock => if locked then .freeing else .free

section Follows

variable {wire : Wire} {key : String} {e : Int} {h : Handle}

private theorem follows_lost_lock (p : Op RedisLock) :
    (lockProtocol wire key e).Follows (LockReturn key e h) .lost p := by
  refine .of_absorbing (fun _ => trivial) (fun _ _ => rfl) (fun res => ?_) p
  cases res with
  | error _ => trivial
  | ok l => exact .inl rfl

/-- The value under the key decides. -/
theorem follows_takeover {now : Nat} :
    (lockProtocol wire key e).Follows (LockReturn key e h) (.failed now)
      (takeover wire key e h now) := by
  refine ⟨rfl, fun r => ?_⟩
  cases r with
  | none => trivial
  | some v =>
    show (lockProtocol wire key e).Follows _ (if Expired wire v now then _ else _)
      (judge wire key e h now v _)
    by_cases hx : Expired wire v now
    · rw [if_pos hx, judge_expired hx.choose_spec.1 hx.choose_spec.2]
      exact ⟨rfl, fun _ => follows_lost_lock _⟩
    · rw [if_neg hx]
      cases hn : readsAs wire v with
      | none =>
        rw [judge, stoi_eq, hn]
        trivial
      | some n =>
        rw [judge, stoi_eq, hn]
        show (lockProtocol wire key e).Follows _ _ (if unsigned 32 n < now % 2 ^ 32 then _ else _)
        rw [if_neg fun hlt => hx ⟨n, hn, hlt⟩]
        exact .inr ⟨⟨rfl, rfl, rfl⟩, rfl⟩

private theorem follows_lockCall {l : RedisLock} (hl : l.Own key e h) (c : LockCall) :
    (lockProtocol wire key e).Follows (LockReturn key e h) (c.phase l.locked)
      (c.program wire l) := by
  obtain ⟨conn, key', e', locked, t⟩ := l
  obtain ⟨rfl, rfl, rfl⟩ := hl
  cases c with
  | lock =>
    cases locked with
    | true => exact ⟨rfl, fun now => .inr ⟨⟨rfl, rfl, rfl⟩, rfl⟩⟩
    | false =>
      show (lockProtocol wire _ _).Follows _ .start (RedisLock.lock wire ⟨_, _, _, false, t⟩)
      rw [lock_eq]
      refine ⟨rfl, fun now => ⟨rfl, fun value => ?_⟩⟩
      show (lockProtocol wire _ _).Follows _ (if value = 1 then _ else _)
        (if value = 1 then _ else _)
      split
      · exact .inr ⟨⟨rfl, rfl, rfl⟩, rfl⟩
      · exact follows_takeover
  | unlock =>
    cases locked with
    | true => exact ⟨rfl, fun _ => .inr ⟨⟨rfl, rfl, rfl⟩, rfl⟩⟩
    | false => exact .inr ⟨⟨rfl, rfl, rfl⟩, rfl⟩

end Follows

/-! ### While the protected key is not overwritten -/

section Invariant

variable (wire : Wire) (key : String) (e : Int) (w₀ : World)

/-- What is known in a phase of a call when the clock reads `clock`. -/
structure PhaseOk (clock : Nat) (φ : LockPhase) (held : Option Int) : Prop where
  not_lost : φ ≠ .lost
  held : held.isSome = φ.holds
  time : ∀ now, φ.time = some now → w₀.clock ≤ now ∧ now ≤ clock
  expired : ∀ now, φ = .expired now → Expired wire (w₀.redis.lookup key) now

/-- A client, with the lease it holds. -/
structure ClientOk (clock : Nat) (i : Nat) (c : LockClient) : Prop where
  own : c.lock.Own key e i
  idle : c.running = none → c.held.isSome = c.lock.locked
  busy : ∀ call p, c.running = some (call, p) → ∃ φ,
    (lockProtocol wire key e).Follows (LockReturn key e i) φ p ∧
      PhaseOk wire key w₀ clock φ c.held ∧ (call = .lock → c.lock.locked = true → φ = .kept)

/-- The client with a lease is the only one, and the lock key is there exactly while there is
one; the protected key is as it was. -/
structure LockInv (s : LockState) : Prop where
  calm : s.world.oracle.outcomes = []
  contents : s.world.redis.lookup key = w₀.redis.lookup key
  clock : w₀.clock ≤ s.world.clock
  holder : ∀ i j, (s.client i).held.isSome = true → (s.client j).held.isSome = true → i = j
  lockKey : RedisLock.getLockKey key ∈ s.world.redis ↔ ∃ i, (s.client i).held.isSome = true
  client : ∀ i, ClientOk wire key e w₀ s.world.clock i (s.client i)

variable {wire key e w₀}

private theorem PhaseOk.mono {clock clock' : Nat} {φ : LockPhase} {held : Option Int}
    (h : PhaseOk wire key w₀ clock φ held) (hle : clock ≤ clock') :
    PhaseOk wire key w₀ clock' φ held :=
  { h with time := fun now hφ => ⟨(h.time now hφ).1, (h.time now hφ).2.trans hle⟩ }

private theorem ClientOk.mono {clock clock' i : Nat} {c : LockClient}
    (h : ClientOk wire key e w₀ clock i c) (hle : clock ≤ clock') :
    ClientOk wire key e w₀ clock' i c := by
  refine { h with busy := fun call p hp => ?_ }
  obtain ⟨φ, hf, hφ, hkept⟩ := h.busy call p hp
  exact ⟨φ, hf, hφ.mono hle, hkept⟩

/-- A client that is inside holds a lease. -/
theorem ClientOk.held_of_inside {clock i : Nat} {c : LockClient}
    (h : ClientOk wire key e w₀ clock i c) (hin : c.inside = true) : c.held.isSome = true := by
  obtain ⟨hlocked, hrun⟩ := Bool.and_eq_true_iff.mp hin
  cases hr : c.running with
  | none => rw [h.idle hr, hlocked]
  | some run =>
    obtain ⟨call, p⟩ := run
    obtain ⟨φ, -, hφ, hkept⟩ := h.busy call p hr
    cases call with
    | lock => rw [hφ.held, hkept rfl hlocked]; rfl
    | unlock => simp [hr] at hrun

private theorem LockInv.atMostOne {s : LockState} (h : LockInv wire key e w₀ s) : s.AtMostOne :=
  fun i j hi hj => h.holder i j ((h.client i).held_of_inside hi) ((h.client j).held_of_inside hj)

/-- The world and one client change; the other clients are as they were. -/
theorem LockInv.update {s : LockState} (h : LockInv wire key e w₀ s) {i : Nat} {w : World}
    {c : LockClient} (hcalm : w.oracle.outcomes = [])
    (hcontents : w.redis.lookup key = s.world.redis.lookup key) (hclock : s.world.clock ≤ w.clock)
    (hc : ClientOk wire key e w₀ w.clock i c)
    (hother : c.held.isSome = true → ∀ j, j ≠ i → (s.client j).held.isSome = false)
    (hkey : RedisLock.getLockKey key ∈ w.redis ↔
      c.held.isSome = true ∨ ∃ j, j ≠ i ∧ (s.client j).held.isSome = true) :
    LockInv wire key e w₀ (s.withClient i w c) := by
  have hself : (s.withClient i w c).client i = c := LockState.client_withClient
  have hne : ∀ j, j ≠ i → (s.withClient i w c).client j = s.client j :=
    fun j hj => LockState.client_withClient_of_ne hj
  refine ⟨hcalm, hcontents.trans h.contents, h.clock.trans hclock, fun j k hj hk => ?_,
    hkey.trans ⟨?_, ?_⟩, fun j => ?_⟩
  · by_cases hji : j = i <;> by_cases hki : k = i
    · rw [hji, hki]
    · subst hji
      rw [hself] at hj
      rw [hne k hki, hother hj k hki] at hk
      cases hk
    · subst hki
      rw [hself] at hk
      rw [hne j hji, hother hk j hji] at hj
      cases hj
    · rw [hne j hji] at hj
      rw [hne k hki] at hk
      exact h.holder j k hj hk
  · rintro (hc | ⟨j, hj, hheld⟩)
    · exact ⟨i, by rwa [hself]⟩
    · exact ⟨j, by rwa [hne j hj]⟩
  · rintro ⟨j, hj⟩
    by_cases hji : j = i
    · subst hji
      exact .inl (by rwa [hself] at hj)
    · exact .inr ⟨j, hji, by rwa [hne j hji] at hj⟩
  · by_cases hji : j = i
    · subst hji
      rwa [hself]
    · rw [hne j hji]
      exact (h.client j).mono hclock

/-- The world and one client change, but neither the lock key nor the lease of the client. -/
theorem LockInv.update_same {s : LockState} (h : LockInv wire key e w₀ s) {i : Nat} {w : World}
    {c : LockClient} (hcalm : w.oracle.outcomes = []) (hredis : w.redis = s.world.redis)
    (hclock : s.world.clock ≤ w.clock) (hc : ClientOk wire key e w₀ w.clock i c)
    (hheld : c.held.isSome = (s.client i).held.isSome) :
    LockInv wire key e w₀ (s.withClient i w c) := by
  refine h.update hcalm (by rw [hredis]) hclock hc (fun hs j hj => ?_) ?_
  · rw [hheld] at hs
    exact Bool.eq_false_iff.mpr fun hj' => hj (h.holder j i hj' hs)
  · rw [hredis, h.lockKey, hheld]
    refine ⟨fun ⟨j, hj⟩ => ?_, ?_⟩
    · by_cases hji : j = i
      · subst hji
        exact .inl hj
      · exact .inr ⟨j, hji, hj⟩
    · rintro (hi | ⟨j, -, hj⟩)
      · exact ⟨i, hi⟩
      · exact ⟨j, hj⟩

private theorem LockInv.start (hcalm : w₀.oracle.outcomes = [])
    (hfree : RedisLock.getLockKey key ∉ w₀.redis) :
    LockInv wire key e w₀ (lockStart key e w₀) where
  calm := hcalm
  contents := rfl
  clock := le_rfl
  holder := nofun
  lockKey := ⟨fun h => absurd h hfree, nofun⟩
  client _ := ⟨⟨rfl, rfl, rfl⟩, fun _ => rfl, nofun⟩

private theorem LockInv.call
    {s : LockState} (h : LockInv wire key e w₀ s) (i : Nat) (c : LockCall) :
    LockInv wire key e w₀ (lockStep wire s (.call i c)) := by
  cases hr : (s.client i).running with
  | some _ => simpa only [lockStep, hr] using h
  | none =>
    simp only [lockStep, hr]
    have hown := (h.client i).own
    have hheld := (h.client i).idle hr
    refine h.update_same (w := s.world) h.calm rfl le_rfl ⟨hown, nofun, fun call p hp => ?_⟩ rfl
    obtain ⟨rfl, rfl⟩ : c = call ∧ c.program wire (s.client i).lock = p := by simpa using hp
    refine ⟨c.phase (s.client i).lock.locked, follows_lockCall hown c, ?_, fun hc hlocked => ?_⟩
    · cases c <;> cases hl : (s.client i).lock.locked <;> rw [hl] at hheld <;>
        exact ⟨nofun, hheld, nofun, nofun⟩
    · subst hc
      rw [hlocked]
      rfl

private theorem LockInv.ret
    {s : LockState} (h : LockInv wire key e w₀ s) {i : Nat} {call : LockCall}
    {l : RedisLock} (hr : (s.client i).running = some (call, .pure l)) :
    LockInv wire key e w₀
      (s.withClient i s.world { s.client i with lock := l, running := none }) := by
  obtain ⟨φ, hf, hφ, -⟩ := (h.client i).busy call _ hr
  obtain hlost | ⟨hown, hlocked⟩ := hf
  · exact absurd hlost hφ.not_lost
  · exact h.update_same (w := s.world) h.calm rfl le_rfl
      ⟨hown, fun _ => hφ.held.trans hlocked.symm, nofun⟩ rfl

/-- The client after a command of its call, in the phase the reply leads to. -/
theorem ClientOk.command {clock clock' i : Nat} {c : LockClient} {call : LockCall} {cmd : Cmd}
    {next : Reply cmd → Op RedisLock} {φ : LockPhase} (h : ClientOk wire key e w₀ clock i c)
    (hnext : ∀ r, (lockProtocol wire key e).Follows (LockReturn key e i) (lockNext wire φ cmd r)
      (next r))
    (hkept : call = .lock → c.lock.locked = true → φ = .kept) (r : Reply cmd)
    (hok : PhaseOk wire key w₀ clock' (lockNext wire φ cmd r) (heldAfter c.held cmd r)) :
    ClientOk wire key e w₀ clock' i
      { c with running := some (call, next r), held := heldAfter c.held cmd r } := by
  refine ⟨h.own, nofun, fun call' p hp => ?_⟩
  obtain ⟨rfl, rfl⟩ : call = call' ∧ next r = p := by simpa using hp
  refine ⟨_, hnext r, hok, fun hc hl => ?_⟩
  rw [hkept hc hl]
  rfl

/-- The phase after the `GET`, of a value that reads as the one at the start. -/
theorem PhaseOk.get {clock now : Nat} {held : Option Int} {v : Option RedisValue}
    (h : PhaseOk wire key w₀ clock (.failed now) held)
    (hv : Expired wire v now → Expired wire (w₀.redis.lookup key) now) :
    PhaseOk wire key w₀ clock (lockNext wire (.failed now) (.get key) (some v)) held := by
  show PhaseOk wire key w₀ clock (if Expired wire v now then .expired now else .free) held
  split
  · next hx =>
    refine ⟨nofun, h.held, fun now' hn => ?_, fun now' hn => ?_⟩
    · exact h.time now' hn
    · cases hn
      exact hv hx
  · exact ⟨nofun, h.held, nofun, nofun⟩

/-- A command other than `GETSET` keeps the invariant. -/
theorem LockInv.command {s : LockState} (h : LockInv wire key e w₀ s) {i : Nat}
    {call : LockCall} {cmd : Cmd} {next : Reply cmd → Op RedisLock}
    (hr : (s.client i).running = some (call, .call cmd next))
    (hset : ∀ k t, cmd ≠ .getset k t) :
    LockInv wire key e w₀ (lockStep wire s (.step i)) := by
  obtain ⟨φ, ⟨ha, hnext⟩, hφ, hkept⟩ := (h.client i).busy call _ hr
  simp only [lockStep, hr]
  have hclient := fun clock r => @ClientOk.command wire key e w₀ _ clock i _ call cmd next φ
    (h.client i) hnext hkept r
  cases φ with
  | start =>
    obtain rfl : cmd = .time := ha
    refine h.update_same (w := s.world.ticked) h.calm rfl (Nat.le_add_right _ _)
      (hclient _ _ ⟨nofun, hφ.held, fun now hn => ?_, nofun⟩) rfl
    cases hn
    exact ⟨h.clock.trans (Nat.le_add_right _ _), le_rfl⟩
  | kept =>
    obtain rfl : cmd = .time := ha
    exact h.update_same (w := s.world.ticked) h.calm rfl (Nat.le_add_right _ _)
      (hclient _ _ ⟨nofun, hφ.held, nofun, nofun⟩) rfl
  | timed now =>
    obtain rfl : cmd = .setnx (RedisLock.getLockKey key) (leaseEnd e now) := ha
    have htime := hφ.time now rfl
    have hnone : (s.client i).held.isSome = false := hφ.held
    by_cases hk : RedisLock.getLockKey key ∈ s.world.redis
    · rw [exec_setnx_taken h.calm hk]
      refine h.update_same (w := s.world) h.calm rfl le_rfl
        (hclient _ _ ⟨nofun, hnone, fun now' hn => ?_, nofun⟩) rfl
      cases hn
      exact htime
    · rw [exec_setnx_free h.calm hk]
      refine h.update (w := s.world.put _ _) h.calm ?_ le_rfl
        (hclient _ _ ⟨nofun, rfl, nofun, nofun⟩) (fun _ j hj => ?_) ?_
      · exact AList.lookup_insert_ne (getLockKey_ne key).symm
      · exact Bool.eq_false_iff.mpr fun hj' => hk (h.lockKey.mpr ⟨j, hj'⟩)
      · exact ⟨fun _ => .inl rfl, fun _ => (AList.mem_insert _).mpr (.inl rfl)⟩
  | failed now =>
    obtain rfl : cmd = .get key := ha
    rw [exec_get h.calm]
    refine h.update_same (w := s.world) h.calm rfl le_rfl (hclient _ _ (hφ.get fun hx => ?_)) rfl
    rwa [Expired, readsAs_string, h.contents] at hx
  | expired now => exact absurd ha (hset _ _)
  | taken => exact ha.elim
  | freeing =>
    obtain rfl : cmd = .del (RedisLock.getLockKey key) := ha
    have hheld : (s.client i).held.isSome = true := hφ.held
    rw [exec_del h.calm]
    refine h.update (w := s.world.erase _) h.calm ?_ le_rfl
      (hclient _ _ ⟨nofun, rfl, nofun, nofun⟩) nofun ?_
    · exact AList.lookup_erase_ne (getLockKey_ne key).symm
    · refine ⟨fun hk => absurd rfl (AList.mem_erase.mp hk).1, ?_⟩
      rintro (hi | ⟨j, hj, hj'⟩)
      · cases hi
      · exact absurd (h.holder j i hj' hheld) hj
  | free => exact ha.elim
  | lost => exact absurd rfl hφ.not_lost

/-- `GETSET` is issued only for a value that has run out. -/
theorem LockInv.getset {s : LockState} (h : LockInv wire key e w₀ s) {i : Nat}
    {call : LockCall} {k : String} {t : Int} {next : Reply (.getset k t) → Op RedisLock}
    (hr : (s.client i).running = some (call, .call (.getset k t) next)) :
    ∃ now, t = leaseEnd e now ∧ w₀.clock ≤ now ∧ now ≤ s.world.clock ∧
      Expired wire (w₀.redis.lookup key) now := by
  obtain ⟨φ, hf, hφ, -⟩ := (h.client i).busy call _ hr
  have ha := hf.1
  cases φ with
  | expired now =>
    obtain ⟨rfl, rfl⟩ : k = key ∧ t = leaseEnd e now := by simpa [lockProtocol] using ha
    obtain ⟨hle, hle'⟩ := hφ.time now rfl
    exact ⟨now, rfl, hle, hle', hφ.expired now rfl⟩
  | lost => exact absurd rfl hφ.not_lost
  | _ => cases ha

/-- A command does not change who is inside. -/
theorem inside_command {s : LockState} {i : Nat} {call : LockCall} {cmd : Cmd}
    {next : Reply cmd → Op RedisLock} (hr : (s.client i).running = some (call, .call cmd next))
    (j : Nat) : ((lockStep wire s (.step i)).client j).inside = (s.client j).inside := by
  simp only [lockStep, hr]
  by_cases hj : j = i
  · subst hj
    rw [LockState.client_withClient]
    cases call <;> simp [LockClient.inside, hr]
  · rw [LockState.client_withClient_of_ne hj]

/-- A state of a run: at most one client is inside, and as long as the leases are kept the
protected key has not been overwritten. -/
def LeaseInv (wire : Wire) (key : String) (e : Int) (w₀ : World) (s : LockState) : Prop :=
  s.AtMostOne ∧ (s.Leased → LockInv wire key e w₀ s)

/-- A client that overwrites the protected key writes a lease that has already run out. -/
theorem LockInv.step {s : LockState} (h : LockInv wire key e w₀ s)
    (hcond : ∀ t : Nat, w₀.clock ≤ t → (t : Int) ≤ leaseEnd e t →
      ¬ Expired wire (w₀.redis.lookup key) t) (ev : LockEvent) :
    LeaseInv wire key e w₀ (lockStep wire s ev) := by
  have of_inv : ∀ {s'}, LockInv wire key e w₀ s' → LeaseInv wire key e w₀ s' :=
    fun h' => ⟨h'.atMostOne, fun _ => h'⟩
  cases ev with
  | call i c => exact of_inv (h.call i c)
  | step i =>
    cases hr : (s.client i).running with
    | none => simpa only [lockStep, hr] using of_inv h
    | some run =>
      obtain ⟨call, p⟩ := run
      cases p with
      | pure l => simpa only [lockStep, hr] using of_inv (h.ret hr)
      | throw a => simpa only [lockStep, hr] using of_inv h
      | call cmd next =>
        by_cases hset : ∀ k t, cmd ≠ .getset k t
        · exact of_inv (h.command hr hset)
        · push Not at hset
          obtain ⟨k, t, rfl⟩ := hset
          obtain ⟨now, rfl, hle, hle', hx⟩ := h.getset hr
          refine ⟨fun a b ha hb => ?_, fun hleased => ?_⟩
          · rw [inside_command hr] at ha hb
            exact h.atMostOne a b ha hb
          · have hheld : ((lockStep wire s (.step i)).client i).held = some (leaseEnd e now) := by
              simp [lockStep, hr, heldAfter]
            have hclock : (lockStep wire s (.step i)).world.clock = s.world.clock := by
              simp only [lockStep, hr, LockState.withClient, exec]
              split <;> rfl
            have hlease := hleased i _ hheld
            rw [hclock] at hlease
            exact absurd hx (hcond now hle (le_trans (by exact_mod_cast hle') hlease))

end Invariant

/-! ### A run in which two clients are inside -/

section OneClient

variable {wire : Wire} {s : LockState} {i : Nat} {w w' : World} {c : LockClient}

private theorem withClient_withClient (c' : LockClient) :
    (s.withClient i w c).withClient i w' c' = s.withClient i w' c' := by
  simp [LockState.withClient]

private theorem lockStep_return {call : LockCall} {l : RedisLock}
    (hr : c.running = some (call, .pure l)) :
    lockStep wire (s.withClient i w c) (.step i) =
      s.withClient i w { c with lock := l, running := none } := by
  simp only [lockStep, LockState.client_withClient, hr]
  exact withClient_withClient _

private theorem lockStep_command {call : LockCall} {cmd : Cmd} {next : Reply cmd → Op RedisLock}
    {r : Reply cmd} (hr : c.running = some (call, .call cmd next)) (hx : exec cmd w = (r, w')) :
    lockStep wire (s.withClient i w c) (.step i) =
      s.withClient i w' { c with running := some (call, next r)
                                 held := heldAfter c.held cmd r } := by
  have hw : (s.withClient i w c).world = w := rfl
  simp only [lockStep, LockState.client_withClient, hr, hw, hx]
  exact withClient_withClient _

private theorem leased_withClient
    (hother : ∀ j, j ≠ i → ∀ t ∈ (s.client j).held, (w.clock : Int) ≤ t)
    (hself : ∀ t ∈ c.held, (w.clock : Int) ≤ t) : (s.withClient i w c).Leased := by
  intro j t ht
  by_cases hj : j = i
  · subst hj
    rw [LockState.client_withClient] at ht
    exact hself t ht
  · rw [LockState.client_withClient_of_ne hj] at ht
    exact hother j hj t ht

end OneClient

section Locking

variable {wire : Wire} {key : String} {e : Int} {s : LockState} {i : Nat} {w : World}

/-- A client in the middle of a call of `lock`, with `p` left to do. -/
def lockingClient (key : String) (e : Int) (i : Nat) (held : Option Int) (p : Op RedisLock) :
    LockClient :=
  { lock := ⟨some i, key, e, false, 0⟩, running := some (.lock, p), held := held }

/-- A client whose call of `lock` has returned with the lock. -/
def lockedClient (key : String) (e : Int) (i : Nat) (lease stamp : Int) : LockClient :=
  { lock := ⟨some i, key, e, true, stamp⟩, held := some lease }

private theorem lockStep_begin (hc : s.client i = { lock := ⟨some i, key, e, false, 0⟩ }) :
    lockStep wire s (.call i .lock) =
      s.withClient i s.world
        (lockingClient key e i none (.call .time (trySetnx wire key e i))) := by
  have hr : (s.client i).running = none := by rw [hc]
  simp only [lockStep, hr]
  rw [hc, ← lock_eq wire key e 0 i]
  rfl

private theorem lockStep_time :
    lockStep wire (s.withClient i w
        (lockingClient key e i none (.call .time (trySetnx wire key e i)))) (.step i) =
      s.withClient i w.ticked (lockingClient key e i none (trySetnx wire key e i w.now)) :=
  lockStep_command rfl (exec_time w)

private theorem lockStep_setnx_free (hcalm : w.oracle.outcomes = [])
    (hfree : RedisLock.getLockKey key ∉ w.redis) (now : Nat) :
    lockStep wire (s.withClient i w (lockingClient key e i none (trySetnx wire key e i now)))
        (.step i) =
      s.withClient i (w.put (RedisLock.getLockKey key) (.stamp (leaseEnd e now)))
        (lockingClient key e i (some (leaseEnd e now))
          (pure ⟨some i, key, e, true, leaseEnd e now⟩)) := by
  rw [lockStep_command rfl (exec_setnx_free hcalm hfree _)]
  rfl

private theorem lockStep_setnx_taken (hcalm : w.oracle.outcomes = [])
    (htaken : RedisLock.getLockKey key ∈ w.redis) (now : Nat) :
    lockStep wire (s.withClient i w (lockingClient key e i none (trySetnx wire key e i now)))
        (.step i) =
      s.withClient i w (lockingClient key e i none (takeover wire key e i now)) := by
  rw [lockStep_command rfl (exec_setnx_taken hcalm htaken _)]
  rfl

private theorem lockStep_get (hcalm : w.oracle.outcomes = []) {now : Nat} {n : Int}
    (hn : readsAs wire (w.redis.lookup key) = some n) (hlt : unsigned 32 n < now % 2 ^ 32) :
    lockStep wire (s.withClient i w (lockingClient key e i none (takeover wire key e i now)))
        (.step i) =
      s.withClient i w (lockingClient key e i none (overwrite wire key e i now)) := by
  rw [lockStep_command rfl (exec_get hcalm key)]
  refine congrArg (fun p => s.withClient i w (lockingClient key e i none p)) ?_
  exact judge_expired (by rwa [readsAs_string]) hlt

private theorem lockStep_getset (hcalm : w.oracle.outcomes = []) {now : Nat} {n : Int}
    (hn : readsAs wire (w.redis.lookup key) = some n) (hlt : unsigned 32 n < now % 2 ^ 32) :
    lockStep wire (s.withClient i w (lockingClient key e i none (overwrite wire key e i now)))
        (.step i) =
      s.withClient i (w.put key (.stamp (leaseEnd e now)))
        (lockingClient key e i (some (leaseEnd e now)) (pure ⟨some i, key, e, true, n⟩)) := by
  rw [lockStep_command rfl (exec_getset hcalm key _)]
  refine congrArg (fun p => s.withClient i _ (lockingClient key e i _ p)) ?_
  exact judge_expired (by rwa [readsAs_string]) hlt

private theorem lockStep_done {lease stamp : Int} :
    lockStep wire (s.withClient i w (lockingClient key e i (some lease)
        (pure ⟨some i, key, e, true, stamp⟩))) (.step i) =
      s.withClient i w (lockedClient key e i lease stamp) :=
  lockStep_return rfl

/-- The lock key is free: `SETNX` takes the lock. -/
theorem lock_takes (wire : Wire) (hc : s.client i = { lock := ⟨some i, key, e, false, 0⟩ })
    (hcalm : s.world.oracle.outcomes = []) (hfree : RedisLock.getLockKey key ∉ s.world.redis)
    (hheld : ∀ j, ∀ t ∈ (s.client j).held, (s.world.now : Int) ≤ t)
    (hlease : (s.world.now : Int) ≤ leaseEnd e s.world.now) :
    Legal (fun s ev => some (lockStep wire s ev)) (fun s _ => s.Leased) s
      [.call i .lock, .step i, .step i, .step i] ∧
    [.call i .lock, .step i, .step i, .step i].foldl (lockStep wire) s =
      s.withClient i (s.world.ticked.put (RedisLock.getLockKey key)
          (.stamp (leaseEnd e s.world.now)))
        (lockedClient key e i (leaseEnd e s.world.now) (leaseEnd e s.world.now)) := by
  have hbefore : s.Leased :=
    fun j t ht => le_trans (by exact_mod_cast Nat.le_add_right _ _) (hheld j t ht)
  have hcalm' : s.world.ticked.oracle.outcomes = [] := hcalm
  have hfree' : RedisLock.getLockKey key ∉ s.world.ticked.redis := hfree
  have hself : ∀ t ∈ some (leaseEnd e s.world.now), (s.world.now : Int) ≤ t := by
    simpa using hlease
  simp only [Legal, List.foldl, lockStep_begin hc, lockStep_time,
    lockStep_setnx_free hcalm' hfree', lockStep_done]
  exact ⟨⟨hbefore, leased_withClient (fun j _ => hbefore j) nofun,
    leased_withClient (fun j _ => hheld j) nofun, leased_withClient (fun j _ => hheld j) hself,
    trivial⟩, trivial⟩

/-- The lock key is taken, but what is under the protected key reads as a time before the
clock: `GETSET` takes the lock over. -/
theorem lock_takes_over (wire : Wire)
    (hc : s.client i = { lock := ⟨some i, key, e, false, 0⟩ })
    (hcalm : s.world.oracle.outcomes = []) (htaken : RedisLock.getLockKey key ∈ s.world.redis)
    {n : Int} (hn : readsAs wire (s.world.redis.lookup key) = some n)
    (hlt : unsigned 32 n < s.world.now % 2 ^ 32)
    (hheld : ∀ j, ∀ t ∈ (s.client j).held, (s.world.now : Int) ≤ t)
    (hlease : (s.world.now : Int) ≤ leaseEnd e s.world.now) :
    Legal (fun s ev => some (lockStep wire s ev)) (fun s _ => s.Leased) s
      [.call i .lock, .step i, .step i, .step i, .step i, .step i] ∧
    [.call i .lock, .step i, .step i, .step i, .step i, .step i].foldl (lockStep wire) s =
      s.withClient i (s.world.ticked.put key (.stamp (leaseEnd e s.world.now)))
        (lockedClient key e i (leaseEnd e s.world.now) n) := by
  have hbefore : s.Leased :=
    fun j t ht => le_trans (by exact_mod_cast Nat.le_add_right _ _) (hheld j t ht)
  have hcalm' : s.world.ticked.oracle.outcomes = [] := hcalm
  have htaken' : RedisLock.getLockKey key ∈ s.world.ticked.redis := htaken
  have hn' : readsAs wire (s.world.ticked.redis.lookup key) = some n := hn
  have hother : ∀ j, j ≠ i → ∀ t ∈ (s.client j).held, (s.world.now : Int) ≤ t :=
    fun j _ => hheld j
  have hself : ∀ t ∈ some (leaseEnd e s.world.now), (s.world.now : Int) ≤ t := by
    simpa using hlease
  simp only [Legal, List.foldl, lockStep_begin hc, lockStep_time,
    lockStep_setnx_taken hcalm' htaken', lockStep_get hcalm' hn' hlt,
    lockStep_getset hcalm' hn' hlt, lockStep_done]
  exact ⟨⟨hbefore, leased_withClient (fun j _ => hbefore j) nofun, leased_withClient hother nofun,
    leased_withClient hother nofun, leased_withClient hother nofun,
    leased_withClient hother hself, trivial⟩, trivial⟩

end Locking

/-! ### When the lock excludes -/

/-- The same world with another course of the clock. -/
def World.withTicks (w : World) (ticks : List Nat) : World :=
  { w with oracle := { w.oracle with ticks } }

/-- The client 0 calls `lock` and gets the lock, then the client 1. -/
def lockBoth : List LockEvent :=
  [.call 0 .lock, .step 0, .step 0, .step 0] ++
    [.call 1 .lock, .step 1, .step 1, .step 1, .step 1, .step 1]

/-- A value that reads as a time before the clock lets a second client lock. -/
theorem lockBoth_inside {wire : Wire} {key : String} {e : Int} {w : World}
    (hcalm : w.oracle.outcomes = []) (hfree : RedisLock.getLockKey key ∉ w.redis)
    (hticks : w.oracle.ticks.tail = []) (hlease : (w.now : Int) ≤ leaseEnd e w.now)
    (hx : Expired wire (w.redis.lookup key) w.now) :
    Legal (fun s ev => some (lockStep wire s ev)) (fun s _ => s.Leased)
        (lockStart key e w) lockBoth ∧
      ((lockBoth.foldl (lockStep wire) (lockStart key e w)).client 0).inside = true ∧
      ((lockBoth.foldl (lockStep wire) (lockStart key e w)).client 1).inside = true := by
  obtain ⟨n, hn, hlt⟩ := hx
  -- the clients 0 and 1 lock one after the other, at one time of the clock
  obtain ⟨hl₀, hrun₀⟩ := lock_takes wire (s := lockStart key e w) (i := 0) rfl hcalm hfree
    (fun _ => nofun) hlease
  generalize hs₁ : (lockStart key e w).withClient 0 _ _ = s₁ at hrun₀
  have hworld : s₁.world = w.ticked.put (RedisLock.getLockKey key)
      (.stamp (leaseEnd e w.now)) := by rw [← hs₁]; rfl
  have hnow : s₁.world.now = w.now := by
    rw [hworld]
    show w.now + w.oracle.ticks.tail.headD 0 = w.now
    rw [hticks]
    rfl
  have hheld : ∀ j, ∀ t ∈ (s₁.client j).held, (s₁.world.now : Int) ≤ t := by
    intro j t ht
    rw [hnow]
    by_cases hj : j = 0
    · subst hj
      rw [← hs₁, LockState.client_withClient] at ht
      obtain rfl := Option.mem_some_iff.mp ht
      exact hlease
    · rw [← hs₁, LockState.client_withClient_of_ne hj] at ht
      exact absurd ht (Option.not_mem_none t)
  have hn₁ : readsAs wire (s₁.world.redis.lookup key) = some n := by
    rw [hworld, ← hn]
    exact congrArg (readsAs wire) (AList.lookup_insert_ne (getLockKey_ne key).symm)
  have htaken : RedisLock.getLockKey key ∈ s₁.world.redis := by
    rw [hworld]
    exact (AList.mem_insert _).mpr (.inl rfl)
  have hclient : s₁.client 1 = { lock := ⟨some 1, key, e, false, 0⟩ } := by
    rw [← hs₁]
    exact LockState.client_withClient_of_ne (by decide)
  obtain ⟨hl₁, hrun₁⟩ := lock_takes_over wire hclient (by rw [hworld]; exact hcalm) htaken hn₁
    (by rwa [hnow]) hheld (by rwa [hnow])
  refine ⟨legal_append.mpr ⟨hl₀, by rw [hrun₀]; exact hl₁⟩, ?_⟩
  rw [lockBoth, List.foldl_append, hrun₀, hrun₁]
  constructor
  · rw [LockState.client_withClient_of_ne (by decide), ← hs₁, LockState.client_withClient]
    rfl
  · rw [LockState.client_withClient]
    rfl

/-- Whatever the clients call and however their commands interleave, as long as the leases are
kept at most one client is inside, exactly when the value under the protected key does not
read as a time before the clock while a lock can be held. -/
theorem lock_exclusive_iff (wire : Wire) (key : String) (expiretime : Int) (w : World)
    (hcalm : Calm w) (hfree : RedisLock.getLockKey key ∉ w.redis) :
    (∀ (ticks : List Nat) (events : List LockEvent),
      Legal (fun s ev => some (lockStep wire s ev)) (fun s _ => s.Leased)
        (lockStart key expiretime (w.withTicks ticks)) events →
      (events.foldl (lockStep wire) (lockStart key expiretime (w.withTicks ticks))).AtMostOne) ↔
    ∀ t : Nat, w.clock ≤ t → (t : Int) ≤ leaseEnd expiretime t →
      ¬ Expired wire (w.redis.lookup key) t := by
  refine ⟨fun h t ht hlease hx => ?_, fun hcond ticks events hl => ?_⟩
  · have hnow : (w.withTicks [t - w.clock]).now = t := Nat.add_sub_cancel' ht
    obtain ⟨hl, h₀, h₁⟩ := lockBoth_inside (w := w.withTicks [t - w.clock]) hcalm hfree
      rfl (by rwa [hnow]) (by rwa [hnow])
    exact absurd (h _ _ hl 0 1 h₀ h₁) (by decide)
  · have hstart : LockInv wire key expiretime (w.withTicks ticks)
        (lockStart key expiretime (w.withTicks ticks)) := .start hcalm hfree
    have hstep : ∀ s ev, LeaseInv wire key expiretime (w.withTicks ticks) s → s.Leased →
        LeaseInv wire key expiretime (w.withTicks ticks) (lockStep wire s ev) :=
      fun s ev hs hleased => (hs.2 hleased).step hcond ev
    exact (foldl_invariant _ hstep events ⟨hstart.atMostOne, fun _ => hstart⟩ hl).1

/-! ### Packets that read as numbers -/

/-- A packet of 1.00 in two shares as it is stored, in November 2023. -/
def packetFrom (sender : String) : World :=
  { clock := 1700000000
    redis := (∅ : AList _).insert "k"
      (newHongbao { sender := sender, money := Amounts.double.ofCents 100, count := 2 }).stored }

/-- The line feed that starts the packet and the tab that is the length of the name are blanks,
and the name of nine digits is a time before the clock: while the client 0 is inside, the client 1
takes the lock over from it. -/
theorem lock_two_inside :
    let wire := (machine plainWire).toWire
    let w := packetFrom "123456789"
    let start := lockStart "k" 50000 w
    let s := lockBoth.foldl (lockStep wire) start
    Calm w ∧ RedisLock.getLockKey "k" ∉ w.redis ∧
      Legal (fun s ev => some (lockStep wire s ev)) (fun s _ => s.Leased) start lockBoth ∧
      (s.client 0).inside = true ∧ (s.client 1).inside = true := by
  intro wire w
  have hfree : RedisLock.getLockKey "k" ∉ w.redis := by decide +kernel
  have hreads : readsAs wire (w.redis.lookup "k") = some 123456789 := by decide +kernel
  exact ⟨rfl, hfree, lockBoth_inside rfl hfree rfl (by decide) ⟨123456789, hreads, by decide⟩⟩

/-- The packet of a sender whose name does not start with a digit keeps the lock exclusive. -/
theorem lock_exclusive_alice :
    let wire := (machine plainWire).toWire
    let w := packetFrom "alice"
    Calm w ∧ RedisLock.getLockKey "k" ∉ w.redis ∧
      ∀ (ticks : List Nat) (events : List LockEvent),
        Legal (fun s ev => some (lockStep wire s ev)) (fun s _ => s.Leased)
          (lockStart "k" 50000 (w.withTicks ticks)) events →
        (events.foldl (lockStep wire) (lockStart "k" 50000 (w.withTicks ticks))).AtMostOne := by
  intro wire w
  have hfree : RedisLock.getLockKey "k" ∉ w.redis := by decide +kernel
  have hreads : readsAs wire (w.redis.lookup "k") = none := by decide +kernel
  refine ⟨rfl, hfree, (lock_exclusive_iff wire "k" 50000 w rfl hfree).mpr ?_⟩
  rintro t - - ⟨n, hn, -⟩
  cases hreads.symm.trans hn

end IMServer.Business
