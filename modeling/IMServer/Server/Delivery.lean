import IMServer.Server.Handlers

/-!
# Delivery of chat messages

A text message reaches a connection that is connected, or the list of its receiver in Redis,
exactly when the routing table has no entry for the receiver or one that is connected. Nothing
removes an entry when its connection closes.
-/

namespace IMServer.Server

open IMServer.Base IMServer.Business

/-- The messages stored for a user. -/
def cached (w : World) (username : String) : List (List UInt8) :=
  (w.redis.lookup (messageKey username)).elim [] RedisValue.items

/-- The message was taken by a connected connection, or pushed on the list of its receiver. -/
def Handed (wire : Wire) (message : SingleChat) (w w' : World) : Prop :=
  (∃ conn, w.connState conn = .kConnected ∧ w'.sent = w.sent ++ [(conn, .chat message)]) ∨
  w'.redis.lookup (messageKey message.receiver) =
    some (.list (cachedBytes wire message :: cached w message.receiver))

/-- The entry of the receiver, if there is one, is connected. -/
def Reachable (w : World) (message : SingleChat) : Prop :=
  ∀ conn, w.connMap message.receiver = some conn → w.connState conn = .kConnected

/-- Every store call succeeds, and only lists are stored under the keys of messages. -/
structure Tidy (w : World) : Prop where
  calm : w.oracle.outcomes = []
  lists : ∀ username v, w.redis.lookup (messageKey username) = some v → ∃ xs, v = .list xs

/-! ### One event -/

private theorem exec_lpush {w : World} (h : Tidy w) (username : String) (value : List UInt8) :
    (exec (.lpush (messageKey username) value) w).2 =
      w.put (messageKey username) (.list (value :: cached w username)) := by
  have hc := h.calm
  cases hv : w.redis.lookup (messageKey username) with
  | none => simp [exec, outcome_calm hc, World.spend_eq hc, hv, cached, World.put]
  | some v =>
    obtain ⟨xs, rfl⟩ := h.lists username v hv
    simp [exec, outcome_calm hc, World.spend_eq hc, hv, cached, World.put, RedisValue.items]

/-- A message is put in front of those stored. -/
theorem run_cacheMessage (wire : Wire) {w : World} (h : Tidy w) (username : String)
    (message : SingleChat) :
    ∃ w', Prog.run exec (cacheMessage wire username message) w = (.ok 0, w') ∧
      w'.oracle.outcomes = [] ∧
      w'.redis = w.redis.insert (messageKey username)
        (.list (cachedBytes wire message :: cached w username)) := by
  have hpush := exec_lpush (w := w.cacheTaken) ⟨h.calm, h.lists⟩ username (cachedBytes wire message)
  simp only [cacheMessage, Prog.run_bind, Prog.run_request, exec_getInstance h.calm, getCacheConn,
    if_true, exec_getCacheConn h.calm, reduceCtorEq, if_false, relCacheConn, Prog.run_pure]
  rw [hpush]
  exact ⟨_, rfl, h.calm, rfl⟩

/-- A text message is handed on exactly when its receiver can be reached. -/
theorem chat_handed_iff (wire : Wire) {w : World} (h : Tidy w) {message : SingleChat}
    (htype : message.type = 0) :
    ∃ w', serverStep wire w (.chat message) = some w' ∧ Tidy w' ∧
      (Handed wire message w w' ↔ Reachable w message) := by
  simp only [serverStep, singleChat, chatConnected, htype, if_true, Prog.run_bind,
    Prog.run_request]
  cases hconn : w.connMap message.receiver with
  | none =>
    obtain ⟨w', hrun, hc, hredis⟩ := run_cacheMessage wire h message.receiver message
    simp only [exec, hconn, Prog.run_bind, hrun, Prog.run_pure, returned]
    have hlook : w'.redis.lookup (messageKey message.receiver) =
        some (.list (cachedBytes wire message :: cached w message.receiver)) := by
      rw [hredis, AList.lookup_insert]
    refine ⟨w', rfl, ⟨hc, fun u v hv => ?_⟩, iff_of_true (.inr hlook) ?_⟩
    · by_cases hu : messageKey u = messageKey message.receiver
      · rw [hu, hlook] at hv
        exact ⟨_, (Option.some.inj hv).symm⟩
      · rw [hredis, AList.lookup_insert_ne hu] at hv
        exact h.lists u v hv
    · intro conn hc'
      rw [hconn] at hc'
      cases hc'
  | some conn =>
    simp only [exec, hconn, Prog.run_request, returned]
    have hreach : Reachable w message ↔ w.connState conn = .kConnected := by
      simp [Reachable, hconn]
    rw [hreach]
    by_cases hstate : w.connState conn = .kConnected
    · rw [if_pos hstate]
      exact ⟨_, rfl, ⟨h.calm, h.lists⟩, iff_of_true (.inl ⟨conn, hstate, rfl⟩) hstate⟩
    · rw [if_neg hstate]
      refine ⟨_, rfl, h, iff_of_false ?_ hstate⟩
      rintro (⟨conn', -, hsent⟩ | hlist)
      · have := congrArg List.length hsent
        simp at this
      · have := congrArg List.length (congrArg (fun v => v.elim [] RedisValue.items) hlist)
        simp [cached, RedisValue.items] at this

private theorem Tidy.of_lookup {w w' : World} (h : Tidy w) (hc : w'.oracle.outcomes = [])
    (hl : ∀ username, w'.redis.lookup (messageKey username) =
      w.redis.lookup (messageKey username)) : Tidy w' :=
  ⟨hc, fun username v hv => h.lists username v (hl username ▸ hv)⟩

/-- A login stores a session at most, which is no list of messages. -/
theorem login_tidy (wire : Wire) {w w' : World} (h : Tidy w) (conn : ConnId) (message : Login)
    (hs : serverStep wire w (.login conn message) = some w') : Tidy w' := by
  obtain ⟨⟨isOK, answer⟩, w₂, hrun, hc₂, -, -, -, -, hres⟩ := login_spec message
    plainWire (w := entered w message.username conn) h.calm fun _ _ => by rintro ⟨⟩
  have h₂ : Tidy w₂ := by
    refine h.of_lookup hc₂ fun username => ?_
    split at hres
    · rw [hres.2]
      rfl
    · obtain ⟨-, v, -, hredis⟩ := hres
      rw [hredis, AList.lookup_insert_ne (messageKey_ne_sessionKey _ _)]
      rfl
  rw [serverStep, run_login, hrun] at hs
  obtain ⟨hredis, -, hcalm⟩ := run_delivers
    (uses_answerLogin wire conn message.username isOK answer) w₂
  rw [eq_of_returned hs]
  exact h₂.of_lookup (hcalm hc₂) fun _ => by rw [hredis]

/-! ### Whole runs -/

/-- Along any run of connections, logins, text messages and closes: every message is handed
to a connected connection or stored for its receiver exactly when the entry of every receiver
is connected, or missing, at that moment. -/
theorem chats_handed_iff (wire : Wire) (w : World) (hw : Tidy w) (events : List Event)
    (htext : ∀ e ∈ events, ∀ message, e = .chat message → message.type = 0) :
    Legal (serverStep wire) (fun w e => ∀ message, e = .chat message →
        ∃ w', serverStep wire w e = some w' ∧ Handed wire message w w') w events ↔
      Legal (serverStep wire) (fun w e => ∀ message, e = .chat message → Reachable w message) w
        events := by
  refine legal_congr Tidy (fun w e h htext => ?_) events htext hw
  cases e with
  | chat message =>
    obtain ⟨w', hrun, h', hiff⟩ := chat_handed_iff wire h (htext message rfl)
    rw [hrun]
    simp only [Event.chat.injEq, Option.some.injEq, exists_eq_left', forall_eq']
    exact ⟨hiff, fun _ => h'⟩
  | login conn message =>
    exact ⟨by simp, fun _ w' hs => login_tidy wire h conn message hs⟩
  | established conn =>
    refine ⟨by simp, fun _ w' hs => ?_⟩
    rw [eq_setState_of_established hs]
    exact ⟨h.calm, h.lists⟩
  | close conn =>
    refine ⟨by simp, fun _ w' hs => ?_⟩
    rw [eq_setState_of_close hs]
    exact ⟨h.calm, h.lists⟩

/-- Alice has an account and a connection. -/
def aliceConnected : World :=
  { imUser := [{ name := "alice", password := "pw" }]
    connState := Function.update (fun _ => .kDisconnected) 7 .kConnected }

private theorem tidy_aliceConnected : Tidy aliceConnected :=
  ⟨rfl, fun _ v hv => by cases hv⟩

/-- After Alice has logged in and the connection has closed, a message for Alice is neither
sent nor stored. -/
theorem chat_dropped :
    let message : SingleChat := { receiver := "alice", sender := "bob", message := "hi" }
    Tidy aliceConnected ∧ ∃ w₁ w₂,
      run (serverStep plainWire) aliceConnected
        [.login 7 { username := "alice", password := "pw" }, .close 7] = some w₁ ∧
      serverStep plainWire w₁ (.chat message) = some w₂ ∧ ¬ Handed plainWire message w₁ w₂ := by
  refine ⟨tidy_aliceConnected, _, _, rfl, rfl, ?_⟩
  rintro (⟨conn, -, hsent⟩ | hlist)
  · cases congrArg List.length hsent
  · cases hlist

/-- Alice logs in and is written to. -/
theorem chats_handed_iff_alice :
    let events := [Event.login 7 { username := "alice", password := "pw" },
      .chat { receiver := "alice", sender := "bob", message := "hi" }]
    Tidy aliceConnected ∧
      (Legal (serverStep plainWire) (fun w e => ∀ message, e = .chat message →
          ∃ w', serverStep plainWire w e = some w' ∧ Handed plainWire message w w')
          aliceConnected events ↔
        Legal (serverStep plainWire) (fun w e => ∀ message, e = .chat message →
          Reachable w message) aliceConnected events) := by
  refine ⟨tidy_aliceConnected, chats_handed_iff plainWire _ tidy_aliceConnected _ ?_⟩
  intro e he message hm
  subst hm
  simp only [List.mem_cons, reduceCtorEq, Event.chat.injEq, List.not_mem_nil, or_false,
    false_or] at he
  rw [he]

end IMServer.Server
