import IMServer.Business.Accounting
import IMServer.Business.Accounts
import IMServer.Business.PacketPhases

/-!
# Grabs of a packet while it ends

Any number of `RobHongbao` calls and one `StopRobHongbao` for the same packet, their commands
interleaved in any order, every store call succeeding. `RobHongbao` works on the packet under
the lock; `StopRobHongbao` reads and deletes it without. An invariant of the store and of the
phases of the threads holds along every schedule that keeps the two apart.
-/

namespace IMServer.Business

open IMServer.Base

/-! ### The invariant -/

/-- A packet whose shares no draw overflows. -/
structure Sound (p : SendHongbao) : Prop where
  leftmoney_nonneg : 0 ≤ p.leftmoney
  leftmoney_lt : p.leftmoney * 199 < 2 ^ 31
  leftcount_nonneg : 0 ≤ p.leftcount
  leftcount_lt : p.leftcount < 2 ^ 31

private theorem Sound.share_bounds
    {p : SendHongbao} (h : Sound p) (hleft : p.leftcount ≠ 0) {g : Int}
    (hg : Share (toInt32 p.leftmoney) (wrap 32 p.leftcount) g) : 0 ≤ g ∧ g ≤ p.leftmoney := by
  obtain ⟨h0, hmax, hn, hn'⟩ := h
  rw [wrap_eq_self (by decide) (by omega) (by omega),
    show toInt32 p.leftmoney = p.leftmoney from if_pos ⟨by omega, by omega⟩] at hg
  obtain ⟨hg0, hle, -⟩ := hg.bounds h0 hmax (by omega)
  exact ⟨hg0, hle⟩

private theorem Sound.takeShare {p : SendHongbao} (h : Sound p) (hleft : p.leftcount ≠ 0) {g : Int}
    (hg : Share (toInt32 p.leftmoney) (wrap 32 p.leftcount) g) (name : String) (t : Int) :
    Sound (takeShare p name g t) := by
  obtain ⟨hg0, hle⟩ := h.share_bounds hleft hg
  obtain ⟨h0, hmax, hn, hn'⟩ := h
  have hcount : (Business.takeShare p name g t).leftcount = p.leftcount - 1 := by
    rw [takeShare_eq (by omega) hn']
  have hmoney : (Business.takeShare p name g t).leftmoney = p.leftmoney - g := rfl
  constructor <;> omega

/-- The money under a key. -/
def moneyAt (w : World) (key : String) : Int := (w.redis.lookup key).elim 0 RedisValue.money

/-- What is stored under the key of the packet while its end is in a phase. -/
def PacketAt (key : String) (w : World) : Phase → Prop
  | .waiting => ∃ p, w.redis.lookup key = some (.hongbao p) ∧ Sound p
  | .fetched p => w.redis.lookup key = some (.hongbao p) ∧ Sound p
  | .deleted p => w.redis.lookup key = none ∧ Sound p
  | .refunded => w.redis.lookup key = none
  | _ => False

/-- The store while a grab is in phase `φ`, every other grab outside the lock, and the end of
the packet in phase `ψ`. The balances, the packet and what is on its way to an account stay
within `base`. -/
structure Consistent (base : Int) (key : String) (w : World) (φ ψ : Phase) : Prop where
  calm : w.oracle.outcomes = []
  names : (w.imUser.map (·.name)).Nodup
  lock : φ.holds = true → RedisLock.getLockKey key ∈ w.redis
  read : ∀ p, φ = .read p → w.redis.lookup key = some (.hongbao p)
  apart : φ.isRead = true → ψ.isFetched = false
  packet : PacketAt key w ψ
  pending_nonneg : 0 ≤ φ.pending
  money : balances w.imUser + moneyAt w key + ψ.refund + φ.pending ≤ base

/-- An amount added to an account adds at most that much where no two accounts share a
name. -/
theorem balances_addMoney_le {w : World} (h : (w.imUser.map (·.name)).Nodup) {amount : Int}
    (ha : 0 ≤ amount) (name : String) :
    balances (w.apply (.addMoney amount name)).imUser ≤ balances w.imUser + amount := by
  have hcount : accounts w.imUser name ≤ 1 := by
    have := List.nodup_iff_count_le_one.mp h name
    rwa [List.count, List.countP_map] at this
  have hle : (accounts w.imUser name : Int) * amount ≤ 1 * amount :=
    Int.mul_le_mul_of_nonneg_right (by exact_mod_cast hcount) ha
  rw [World.imUser_addMoney, balances_addMoney]
  omega

namespace Consistent

variable {base : Int} {key self : String} {w w' : World} {φ ψ : Phase} {c : Cmd}

/-- A step of a grab that leaves the packet and the accounts as they are. -/
theorem of_packet (h : Consistent base key w φ ψ) (hc : w'.oracle.outcomes = [])
    (hu : w'.imUser = w.imUser) (hk : w'.redis.lookup key = w.redis.lookup key) {φ' : Phase}
    (hlock : φ'.holds = true → RedisLock.getLockKey key ∈ w'.redis)
    (hread : ∀ p, φ' = .read p → w.redis.lookup key = some (.hongbao p) ∧ ψ.isFetched = false)
    (hpend : φ'.pending = φ.pending) : Consistent base key w' φ' ψ where
  calm := hc
  names := hu ▸ h.names
  lock := hlock
  read p hp := hk.trans (hread p hp).1
  apart hr := by
    cases φ' with
    | read p => exact (hread p rfl).2
    | _ => cases hr
  packet := by
    have heq : PacketAt key w' ψ = PacketAt key w ψ := by cases ψ <;> simp only [PacketAt, hk]
    rw [heq]
    exact h.packet
  pending_nonneg := hpend ▸ h.pending_nonneg
  money := by
    rw [moneyAt, hk, hu, hpend]
    exact h.money

private theorem of_same (h : Consistent base key w φ ψ) (hs : SameStores w w') :
    Consistent base key w' φ ψ := by
  refine h.of_packet (hs.outcomes.trans h.calm) hs.imUser (by rw [hs.redis]) ?_ ?_ rfl
  · rw [hs.redis]
    exact h.lock
  · rintro p rfl
    exact ⟨h.read p rfl, h.apart rfl⟩

/-- A packet that can be read has not been deleted and is not being deleted. -/
theorem waiting_of_read {p : SendHongbao} (h : Consistent base key w (.read p) ψ) :
    ψ = .waiting ∧ Sound p := by
  have hp := h.packet
  have hr := h.read p rfl
  cases ψ with
  | waiting =>
    obtain ⟨q, hq, hs⟩ := hp
    rw [hr] at hq
    cases hq
    exact ⟨rfl, hs⟩
  | fetched q => cases h.apart rfl
  | deleted q => cases hr.symm.trans hp.1
  | refunded => cases hr.symm.trans hp
  | _ => exact hp.elim

private theorem lookup_cases (h : Consistent base key w φ ψ) :
    w.redis.lookup key = none ∨ ∃ p, w.redis.lookup key = some (.hongbao p) := by
  have hp := h.packet
  cases ψ with
  | waiting => exact .inr ⟨hp.choose, hp.choose_spec.1⟩
  | fetched p => exact .inr ⟨p, hp.1⟩
  | deleted p => exact .inl hp.1
  | refunded => exact .inl hp
  | _ => exact hp.elim

private theorem lookup_of_deleted (h : Consistent base key w φ ψ) (hd : ψ.hasDeleted = true) :
    w.redis.lookup key = none := by
  have hp := h.packet
  cases ψ with
  | deleted p => exact hp.1
  | refunded => exact hp
  | lost => exact hp.elim
  | _ => cases hd

private theorem moneyAt_nonneg (h : Consistent base key w φ ψ) : 0 ≤ moneyAt w key + ψ.refund := by
  have hp := h.packet
  rw [moneyAt]
  cases ψ with
  | waiting =>
    obtain ⟨p, hp, hs⟩ := hp
    simpa [hp, RedisValue.money, Phase.refund] using hs.leftmoney_nonneg
  | fetched p => simpa [hp.1, RedisValue.money, Phase.refund] using hp.2.leftmoney_nonneg
  | deleted p => simpa [hp.1, Phase.refund] using hp.2.leftmoney_nonneg
  | refunded =>
    rw [PacketAt] at hp
    simp [hp, Phase.refund]
  | _ => exact hp.elim

/-! Steps of a grab. -/

private theorem take_lock (h : Consistent base key w .outside ψ) (t : Int) :
    Consistent base key (w.put (RedisLock.getLockKey key) (.stamp t)) .locked ψ := by
  refine h.of_packet ?_ ?_ ?_ ?_ ?_ rfl
  · exact h.calm
  · rfl
  · exact AList.lookup_insert_ne (getLockKey_ne key).symm
  · exact fun _ => (AList.mem_insert _).mpr (.inl rfl)
  · exact nofun

private theorem read_packet (h : Consistent base key w .locked ψ) {p : SendHongbao}
    (hp : w.redis.lookup key = some (.hongbao p)) (hf : ψ.isFetched = false) :
    Consistent base key w (.read p) ψ := by
  refine h.of_packet h.calm rfl rfl (fun _ => h.lock rfl) (fun q hq => ?_) rfl
  cases hq
  exact ⟨hp, hf⟩

private theorem store_packet {p : SendHongbao} (h : Consistent base key w (.read p) ψ)
    (hleft : p.leftcount ≠ 0) {g : Int}
    (hg : Share (toInt32 p.leftmoney) (wrap 32 p.leftcount) g) (t : Int) :
    Consistent base key (w.put key (.hongbao (takeShare p self g t))) (.wrote g) ψ := by
  obtain ⟨rfl, hs⟩ := h.waiting_of_read
  have hlook : (w.put key (.hongbao (takeShare p self g t))).redis.lookup key =
      some (.hongbao (takeShare p self g t)) := AList.lookup_insert _
  refine ⟨h.calm, h.names, fun _ => (AList.mem_insert _).mpr (.inr (h.lock rfl)), nofun, nofun,
    ⟨_, hlook, hs.takeShare hleft hg _ _⟩, (hs.share_bounds hleft hg).1, ?_⟩
  have hm := h.money
  rw [moneyAt, h.read p rfl] at hm
  rw [moneyAt, hlook]
  simp only [Option.elim_some, RedisValue.money, Phase.pending, Phase.refund, takeShare,
    Amounts.cents, World.put] at hm ⊢
  omega

private theorem credit {g : Int} (h : Consistent base key w (.wrote g) ψ) :
    Consistent base key (w.apply (.addMoney g self)) .credited ψ := by
  refine ⟨h.calm, (names_addMoney w.imUser g self).symm ▸ h.names, fun _ => h.lock rfl, nofun,
    nofun, h.packet, le_rfl, ?_⟩
  have hle := balances_addMoney_le h.names h.pending_nonneg self
  have hm := h.money
  simp only [Phase.pending] at hm hle ⊢
  rw [show moneyAt (w.apply (.addMoney g self)) key = moneyAt w key from rfl]
  omega

private theorem release_lock (h : Consistent base key w φ ψ) (hpend : φ.pending = 0) :
    Consistent base key (w.erase (RedisLock.getLockKey key)) .outside ψ := by
  refine h.of_packet ?_ ?_ ?_ nofun nofun hpend.symm
  · exact h.calm
  · rfl
  · exact AList.lookup_erase_ne (getLockKey_ne key).symm

/-! Steps of the end of the packet. -/

private theorem fetch_packet (h : Consistent base key w φ .waiting) (hr : φ.isRead = false) :
    ∃ p, w.redis.lookup key = some (.hongbao p) ∧ Consistent base key w φ (.fetched p) := by
  obtain ⟨p, hp, hs⟩ := h.packet
  refine ⟨p, hp, h.calm, h.names, h.lock, h.read, fun h' => ?_, ⟨hp, hs⟩, h.pending_nonneg, h.money⟩
  rw [hr] at h'
  cases h'

private theorem delete_packet {p : SendHongbao} (h : Consistent base key w φ (.fetched p)) :
    Consistent base key (w.erase key) φ (.deleted p) := by
  obtain ⟨hp, hs⟩ := h.packet
  have hlook : (w.erase key).redis.lookup key = none := AList.lookup_erase _ _
  refine ⟨h.calm, h.names, fun hh => ?_, fun q hq => ?_, fun _ => rfl, ⟨hlook, hs⟩,
    h.pending_nonneg, ?_⟩
  · exact AList.mem_erase.mpr ⟨getLockKey_ne key, h.lock hh⟩
  · subst hq
    cases h.apart rfl
  · have hm := h.money
    rw [moneyAt, hp] at hm
    rw [moneyAt, hlook]
    simpa [RedisValue.money, Phase.refund, World.erase] using hm

private theorem refund_packet {p : SendHongbao} (h : Consistent base key w φ (.deleted p)) :
    Consistent base key (w.apply (.addMoney p.leftmoney p.sender)) φ .refunded := by
  obtain ⟨hp, hs⟩ := h.packet
  refine ⟨h.calm, (names_addMoney w.imUser _ _).symm ▸ h.names, h.lock, h.read, fun _ => rfl, hp,
    h.pending_nonneg, ?_⟩
  have hle := balances_addMoney_le h.names hs.leftmoney_nonneg p.sender
  have hm := h.money
  simp only [Phase.refund] at hm ⊢
  rw [show moneyAt (w.apply (.addMoney p.leftmoney p.sender)) key = moneyAt w key from rfl]
  omega

/-! ### One command -/

private theorem exec_neutral (hn : c.Neutral) (hc : w.oracle.outcomes = []) :
    SameStores w (exec c w).2 := by
  cases c with
  | time | rand | relCacheConn _ | releaseConnection _ => exact ⟨rfl, rfl, rfl⟩
  | getInstance =>
    rw [exec_getInstance hc]
    exact ⟨rfl, rfl, rfl⟩
  | getCacheConn name =>
    rw [exec_getCacheConn hc]
    exact ⟨rfl, rfl, rfl⟩
  | getConnection =>
    rw [exec_getConnection hc]
    exact ⟨rfl, rfl, rfl⟩
  | execute stmt =>
    rw [exec_execute hc]
    cases stmt with
    | updateHongbao _ _ _ _ => exact ⟨rfl, rfl, rfl⟩
    | _ => exact hn.elim
  | _ => exact hn.elim

private theorem robNext_neutral (hn : c.Neutral) (φ : Phase) (r : Reply c) : robNext φ c r = φ := by
  cases c with
  | execute stmt =>
    cases stmt with
    | updateHongbao _ _ _ _ => cases φ <;> rfl
    | _ => exact hn.elim
  | time | rand | getInstance | getCacheConn _ | relCacheConn _ | getConnection
  | releaseConnection _ => cases φ <;> rfl
  | _ => exact hn.elim

private theorem stopNext_neutral (hn : c.Neutral) (ψ : Phase) (hc : w.oracle.outcomes = []) :
    stopNext ψ c (exec c w).1 = ψ := by
  cases c with
  | execute stmt =>
    cases stmt with
    | updateHongbao _ _ _ _ => cases ψ <;> rfl
    | _ => exact hn.elim
  | getInstance =>
    rw [exec_getInstance hc]
    cases ψ <;> rfl
  | getCacheConn name =>
    rw [exec_getCacheConn hc]
    cases ψ <;> rfl
  | time | rand | relCacheConn _ | getConnection | releaseConnection _ => cases ψ <;> rfl
  | _ => exact hn.elim

/-- A command of the grab that holds the lock; afterwards it still does, or no one does. -/
theorem holder_step (h : Consistent base key w φ ψ) (hφ : φ.holds = true)
    (ha : (robProtocol key self).allow φ c)
    (hget : φ = .locked → c = .get key → ψ.isFetched = false) :
    Consistent base key (exec c w).2 (robNext φ c (exec c w).1) ψ ∧
      ((robNext φ c (exec c w).1).holds = true ∨ robNext φ c (exec c w).1 = .outside) := by
  rcases ha with hn | ha
  · rw [robNext_neutral hn]
    exact ⟨h.of_same (exec_neutral hn h.calm), .inl hφ⟩
  cases φ with
  | locked =>
    obtain rfl | rfl := ha
    · rw [exec_get h.calm]
      obtain hp | ⟨p, hp⟩ := h.lookup_cases
      · rw [hp]
        exact ⟨h, .inl rfl⟩
      · rw [hp]
        exact ⟨h.read_packet hp (hget rfl rfl), .inl rfl⟩
    · rw [exec_del h.calm]
      exact ⟨h.release_lock rfl, .inr rfl⟩
  | read p =>
    obtain rfl | ⟨e, g, t, hleft, hg, rfl⟩ := ha
    · rw [exec_del h.calm]
      exact ⟨h.release_lock rfl, .inr rfl⟩
    · rw [exec_setex h.calm]
      have hwrote : p.leftmoney - (takeShare p self g t).leftmoney = g := Int.sub_sub_self _ _
      refine ⟨?_, .inl rfl⟩
      show Consistent base key _ (.wrote (_ - _)) ψ
      rw [hwrote]
      exact h.store_packet hleft hg t
  | wrote g =>
    cases ha
    rw [exec_execute h.calm]
    exact ⟨h.credit, .inl rfl⟩
  | credited =>
    cases ha
    rw [exec_del h.calm]
    exact ⟨h.release_lock rfl, .inr rfl⟩
  | _ => cases hφ

/-- A command of a grab outside the lock: it stays there, or takes the lock, which then was
free. -/
theorem outside_step (h : Consistent base key w φ ψ) (ha : (robProtocol key self).allow .outside c)
    (hg : c.isGetset = false) :
    (robNext .outside c (exec c w).1 = .outside ∧ Consistent base key (exec c w).2 φ ψ) ∨
    (robNext .outside c (exec c w).1 = .locked ∧ φ.holds = false ∧
      (φ = .outside → Consistent base key (exec c w).2 .locked ψ)) := by
  obtain hn | ⟨t, rfl⟩ | rfl | ⟨t, rfl⟩ := ha
  · exact .inl ⟨robNext_neutral hn _ _, h.of_same (exec_neutral hn h.calm)⟩
  · by_cases hk : RedisLock.getLockKey key ∈ w.redis
    · left
      rw [exec_setnx_taken h.calm hk]
      exact ⟨rfl, h⟩
    · right
      rw [exec_setnx_free h.calm hk]
      refine ⟨rfl, ?_, ?_⟩
      · exact Bool.eq_false_iff.mpr fun hh => hk (h.lock hh)
      · rintro rfl
        exact h.take_lock t
  · left
    rw [exec_get h.calm]
    exact ⟨rfl, h⟩
  · cases hg

/-- A command of the end of the packet. -/
theorem stop_step (h : Consistent base key w φ ψ) (ha : (stopProtocol key).allow ψ c)
    (hget : c = .get key → φ.isRead = false) :
    Consistent base key (exec c w).2 φ (stopNext ψ c (exec c w).1) := by
  rcases ha with hn | ha
  · rw [stopNext_neutral hn ψ h.calm]
    exact h.of_same (exec_neutral hn h.calm)
  cases ψ with
  | waiting =>
    cases ha
    obtain ⟨p, hp, h'⟩ := h.fetch_packet (hget rfl)
    rw [exec_get h.calm, hp]
    exact h'
  | fetched p =>
    cases ha
    rw [exec_del h.calm]
    exact h.delete_packet
  | deleted p =>
    cases ha
    rw [exec_execute h.calm]
    exact h.refund_packet
  | lost => exact h.packet.elim
  | _ => exact ha.elim

end Consistent

/-! ### All threads -/

section Threads

variable {κ : Type}

/-- The end of a packet and the grabs of it. -/
def packetThread (wire : Wire) (key sender : String) (req : κ → ReqRobHongbao) :
    Option κ → Op Unit
  | none => stopRobHongbao wire key sender
  | some j => do
    let _ ← robHongbao wire (req j)
    pure ()

/-- What each of the threads does in each of its phases. -/
def packetProtocol (key : String) (req : κ → ReqRobHongbao) :
    Option κ → Protocol Cmd Reply Phase
  | none => stopProtocol key
  | some j => robProtocol key (req j).selfname

/-- The world, the phases and what is left of the threads. -/
abbrev PacketConfig (κ : Type) := Config (Option κ) Cmd Reply Abort Unit World Phase

/-- All threads before their first command. -/
def packetStart (wire : Wire) (key sender : String) (req : κ → ReqRobHongbao) (w : World) :
    PacketConfig κ where
  world := w
  phase i := i.elim .waiting fun _ => .outside
  thread := packetThread wire key sender req

/-- The end of the packet does not read it between a grab's `GET` and `SETEX`, no grab reads
it between the `GET` and the `DEL` of the end, and no lock is taken over. -/
def KeptApart (key : String) (s : PacketConfig κ) : Option κ → Prop
  | none => s.nextCommand none = some (.get key) → ∀ j, (s.phase (some j)).isRead = false
  | some j =>
    (s.phase (some j) = .locked → s.nextCommand (some j) = some (.get key) →
      (s.phase none).isFetched = false) ∧
    (s.nextCommand (some j)).any Cmd.isGetset = false

instance [Fintype κ] (key : String) (s : PacketConfig κ) :
    (i : Option κ) → Decidable (KeptApart key s i)
  | none => inferInstanceAs (Decidable (_ → ∀ _, _))
  | some _ => inferInstanceAs (Decidable ((_ → _ → _) ∧ _))

/-- At most one grab holds the lock, and the store is consistent with its phase. -/
def Exclusive (base : Int) (key : String) (w : World) (phase : Option κ → Phase) : Prop :=
  (Consistent base key w .outside (phase none) ∧ ∀ j, phase (some j) = .outside) ∨
  ∃ h, (phase (some h)).holds = true ∧ Consistent base key w (phase (some h)) (phase none) ∧
    ∀ j, j ≠ h → phase (some j) = .outside

private theorem Exclusive.consistent
    {base : Int} {key : String} {w : World} {phase : Option κ → Phase}
    (h : Exclusive base key w phase) : ∃ φ, Consistent base key w φ (phase none) := by
  rcases h with ⟨hc, -⟩ | ⟨_, -, hc, -⟩
  · exact ⟨_, hc⟩
  · exact ⟨_, hc⟩

/-- The end of the packet has deleted the key when it ends. -/
def endsIn : Option κ → Phase → Except Abort Unit → Prop
  | none, φ, _ => φ.hasDeleted = true
  | some _, _, _ => True

private theorem follows_packetThread (wire : Wire) (key sender : String) (req : κ → ReqRobHongbao)
    (hreq : ∀ j, (req j).hongbaokey = key) (i : Option κ) :
    (packetProtocol key req i).Follows (endsIn i) (i.elim .waiting fun _ => .outside)
      (packetThread wire key sender req i) := by
  cases i with
  | none => exact follows_stopRobHongbao wire key sender
  | some j =>
    have h := follows_robHongbao wire (req j)
    rw [hreq j] at h
    refine .bind (h.mono fun φ res _ => ?_)
    cases res <;> trivial

variable [DecidableEq κ]

/-- Let the threads issue their commands in the order of a schedule. -/
def packetRun (key : String) (req : κ → ReqRobHongbao) (s : PacketConfig κ)
    (schedule : List (Option κ)) : PacketConfig κ :=
  schedule.foldl (Config.step exec (packetProtocol key req)) s

section Exclusive

variable {base : Int} {key : String} {w : World} {phase : Option κ → Phase} {j : κ}

/-- The grab `j` does not hold the lock, nor does any other. -/
theorem Exclusive.idle (hc : Consistent base key w .outside (phase none))
    (hout : ∀ i, i ≠ j → phase (some i) = .outside) :
    Exclusive base key w (Function.update phase (some j) .outside) := by
  refine .inl ⟨by simpa using hc, fun i => ?_⟩
  by_cases hi : i = j
  · simp [hi]
  · simpa [hi] using hout i hi

/-- The grab `j` holds the lock, and no other. -/
theorem Exclusive.held {φ : Phase} (hφ : φ.holds = true)
    (hc : Consistent base key w φ (phase none))
    (hout : ∀ i, i ≠ j → phase (some i) = .outside) :
    Exclusive base key w (Function.update phase (some j) φ) := by
  refine .inr ⟨j, by simpa using hφ, by simpa using hc, fun i hi => ?_⟩
  simpa [hi] using hout i hi

end Exclusive

/-- A command of one thread, the end of the packet or a grab. -/
theorem exclusive_step {base : Int} {key : String} {req : κ → ReqRobHongbao}
    (s : PacketConfig κ) (i : Option κ) (c : Cmd) (hs : Exclusive base key s.world s.phase)
    (hnext : s.nextCommand i = some c)
    (ha : (packetProtocol key req i).allow (s.phase i) c) (hcond : KeptApart key s i) :
    Exclusive base key (exec c s.world).2 (Function.update s.phase i
      ((packetProtocol key req i).next (s.phase i) c (exec c s.world).1)) := by
  cases i with
  | none =>
    have hphase : ∀ j, Function.update s.phase none
        ((stopProtocol key).next (s.phase none) c (exec c s.world).1) (some j) =
          s.phase (some j) := fun j => Function.update_of_ne (by simp) _ _
    rcases hs with ⟨hc, hout⟩ | ⟨h, hh, hc, hout⟩
    · left
      simp only [packetProtocol, hphase, Function.update_self]
      exact ⟨hc.stop_step ha fun _ => rfl, hout⟩
    · right
      refine ⟨h, ?_⟩
      simp only [packetProtocol, hphase, Function.update_self]
      refine ⟨hh, hc.stop_step ha fun hget => ?_, hout⟩
      subst hget
      exact hcond hnext h
  | some j =>
    obtain ⟨hread, hget⟩ := hcond
    rw [hnext] at hread hget
    show Exclusive base key _ (Function.update s.phase (some j)
      (robNext (s.phase (some j)) c (exec c s.world).1))
    rcases hs with ⟨hc, hout⟩ | ⟨h, hh, hc, hout⟩
    · rw [hout j] at ha ⊢
      obtain ⟨hn, hc'⟩ | ⟨hn, -, hc'⟩ := hc.outside_step ha hget
      · rw [hn]
        exact .idle hc' fun i _ => hout i
      · rw [hn]
        exact .held rfl (hc' rfl) fun i _ => hout i
    · by_cases hj : j = h
      · subst hj
        obtain ⟨hc', hh' | hn⟩ := hc.holder_step hh ha fun hl hg => hread hl (congrArg some hg)
        · exact .held hh' hc' hout
        · rw [hn] at hc' ⊢
          exact .idle hc' hout
      · rw [hout j hj] at ha ⊢
        obtain ⟨hn, hc'⟩ | ⟨-, hfree, -⟩ := hc.outside_step ha hget
        · rw [hn, ← hout j hj, Function.update_eq_self]
          exact .inr ⟨h, hh, hc', hout⟩
        · rw [hh] at hfree
          cases hfree

/-- Whatever the order of the commands, as long as the end of the packet and the grabs are
kept apart: the balances grow by no more than the packet held, and once the end has returned
nothing is left under the key. -/
theorem packetRun_never_pays_twice (wire : Wire) (key sender : String) (req : κ → ReqRobHongbao)
    (w : World) (p : SendHongbao) (hcalm : Calm w) (hnames : (w.imUser.map (·.name)).Nodup)
    (hp : w.redis.lookup key = some (.hongbao p)) (hsound : Sound p)
    (hreq : ∀ j, (req j).hongbaokey = key) (schedule : List (Option κ))
    (hl : Legal (fun s i => some (Config.step exec (packetProtocol key req) s i)) (KeptApart key)
      (packetStart wire key sender req w) schedule) :
    let s := packetRun key req (packetStart wire key sender req w) schedule
    balances s.world.imUser ≤ balances w.imUser + p.leftmoney ∧
      (s.Ended none → s.world.redis.lookup key = none) := by
  have hstart : Exclusive (balances w.imUser + p.leftmoney) key w
      (packetStart wire key sender req w).phase := by
    refine .inl ⟨⟨hcalm, hnames, nofun, nofun, nofun, ⟨p, hp, hsound⟩, le_rfl, ?_⟩, fun _ => rfl⟩
    rw [moneyAt, hp]
    simp [packetStart, RedisValue.money, Phase.refund, Phase.pending]
  obtain ⟨hex, hfollow⟩ := Config.run_invariant exclusive_step schedule hstart
    (follows_packetThread wire key sender req hreq) hl
  obtain ⟨φ, hc⟩ := hex.consistent
  refine ⟨?_, fun hend => ?_⟩
  · have hmoney := hc.money
    have hnonneg := hc.moneyAt_nonneg
    have hpending := hc.pending_nonneg
    simp only [packetRun]
    omega
  · obtain ⟨_, hdeleted⟩ := hend.exists_result (hfollow none)
    exact hc.lookup_of_deleted hdeleted

end Threads

/-- A packet of a hundred cents in two shares, and a draw of half of it. -/
def halfOfPacket : World :=
  { imUser := [{ name := "alice", money := 500 }, { name := "bob", money := 500 }]
    redis := (∅ : AList _).insert "k"
      (.hongbao (newHongbao { sender := "alice", money := 100, count := 2 }))
    oracle := { draws := [99] } }

/-- Bob's grab of that packet. -/
def bobGrabs (_ : Unit) : ReqRobHongbao :=
  { hongbaokey := "k", sender := "alice", selfname := "bob" }

/-- The packet ends after Bob has read it and before Bob has stored what is left: Alice gets
the hundred cents back, Bob is credited fifty, and the packet is in the store again. -/
theorem packetRun_pays_twice :
    let start := packetStart plainWire "k" "alice" bobGrabs halfOfPacket
    let s := packetRun "k" bobGrabs start
      (List.replicate 6 (some ()) ++ List.replicate 9 none ++ List.replicate 8 (some ()))
    Calm halfOfPacket ∧ s.Ended none ∧ s.Ended (some ()) ∧
      balances s.world.imUser = balances halfOfPacket.imUser + 150 ∧
      ∃ p, s.world.redis.lookup "k" = some (.hongbao p) ∧ p.leftcount = 1 ∧ p.leftmoney = 50 :=
  ⟨rfl, rfl, rfl, rfl, _, rfl, rfl, rfl⟩

/-- A schedule in which the packet ends after Bob has stored what is left and before Bob is
credited. -/
def keptApartSchedule : List (Option Unit) :=
  List.replicate 5 (some ()) ++ List.replicate 2 none ++ List.replicate 5 (some ()) ++
    List.replicate 2 none ++ List.replicate 4 (some ()) ++ List.replicate 5 none

/-- A grab and the end of the packet, kept apart. -/
theorem packetRun_never_pays_twice_bob :
    let start := packetStart plainWire "k" "alice" bobGrabs halfOfPacket
    let s := packetRun "k" bobGrabs start keptApartSchedule
    Legal (fun s i => some (Config.step exec (packetProtocol "k" bobGrabs) s i)) (KeptApart "k")
      start keptApartSchedule ∧ s.Ended none ∧
    balances s.world.imUser ≤ balances halfOfPacket.imUser + 100 ∧
      (s.Ended none → s.world.redis.lookup "k" = none) := by
  have hl : Legal (fun s i => some (Config.step exec (packetProtocol "k" bobGrabs) s i))
      (KeptApart "k") (packetStart plainWire "k" "alice" bobGrabs halfOfPacket)
      keptApartSchedule := by decide
  exact ⟨hl, rfl, packetRun_never_pays_twice plainWire "k" "alice" bobGrabs halfOfPacket _ rfl
    (by decide) rfl ⟨by decide, by decide, by decide, by decide⟩ (fun _ => rfl) _ hl⟩

end IMServer.Business
