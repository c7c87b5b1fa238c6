import IMServer.Server.Delivery

/-!
# Messages for users who are offline

`cacheMessage` and `sendCacheMessage` of `server/src/BaseBusiness.cc:160–268` over the history of
one user: messages are pushed on the front of a list, a login sends the whole list from its
front, and nothing ever takes an element off it. The messages therefore come in the opposite
order, and again at every login.
-/

namespace IMServer.Server

open IMServer.Base IMServer.Business IMServer.Cache

/-! ### What is stored and what is read back -/

/-- What is pushed is the serialisation with its zero bytes replaced. -/
theorem cachedBytes_eq (wire : Wire) (message : SingleChat) :
    cachedBytes wire message = (wire.serializeChat message).map maskZero := by
  rw [cachedBytes, replaceFromZero, List.take_length, List.drop_length, List.append_nil]
  exact cString_of_notMem (zero_notMem_masked _)

private theorem tilde_notMem_replaceToZero (s : List UInt8) : tilde ∉ replaceToZero s := by
  intro h
  obtain ⟨b, -, hb⟩ := List.mem_map.mp h
  split at hb
  · exact absurd hb (by decide)
  · next hne => exact hne hb

/-- `LRANGE key 0 -1` is the whole list. -/
theorem lrange_all (xs : List (List UInt8)) : lrange xs 0 (-1) = xs := by
  simp [lrange]

/-- The messages that `sendAll` sends: those before the first that does not parse. -/
def parsed (wire : Wire) : List (List UInt8) → List SingleChat
  | [] => []
  | c :: msgs =>
    match wire.parseChat (replaceToZero c) with
    | none => []
    | some chat => chat :: parsed wire msgs

private theorem run_sendAll (wire : Wire) {w : World} {username : String} {conn : ConnId}
    (hconn : w.connMap username = some conn) (hstate : w.connState conn = .kConnected)
    (msgs : List (List UInt8)) (ret : Int) :
    ∃ r, Prog.run exec (sendAll wire username msgs ret) w =
      (.ok r, { w with sent := w.sent ++ (parsed wire msgs).map fun m => (conn, .chat m) }) := by
  induction msgs generalizing w with
  | nil => exact ⟨ret, by simp [sendAll, parsed]⟩
  | cons c msgs ih =>
    rw [sendAll, parsed]
    cases wire.parseChat (replaceToZero c) with
    | none => exact ⟨-1, by simp⟩
    | some chat =>
      have hsend : Prog.run exec (serverSend username (.chat chat)) w =
          (.ok (), { w with sent := w.sent ++ [(conn, .chat chat)] }) := by
        simp [serverSend, Prog.run_bind, exec, hconn, hstate]
      obtain ⟨r, hr⟩ := ih (w := { w with sent := w.sent ++ [(conn, .chat chat)] }) hconn hstate
      refine ⟨r, ?_⟩
      rw [Prog.run_bind, hsend]
      simp only [hr, List.map_cons, List.append_assoc, List.singleton_append]

/-- `sendCacheMessage` sends what parses of the list of the user. -/
theorem run_sendCacheMessage (wire : Wire) {w : World} (hc : w.oracle.outcomes = [])
    {username : String} {conn : ConnId} (hconn : w.connMap username = some conn)
    (hstate : w.connState conn = .kConnected) :
    ∃ r w', Prog.run exec (sendCacheMessage wire username) w = (.ok r, w') ∧
      w'.sent = w.sent ++ (parsed wire (cached w username)).map fun m => (conn, .chat m) := by
  have hlrange : exec (.lrange (messageKey username) 0 (-1)) w.cacheTaken =
      (some (cached w username), w.cacheTaken) := by
    have hc' : w.cacheTaken.oracle.outcomes = [] := hc
    simp only [exec, outcome_calm hc', World.spend_eq hc', if_true, lrange_all]
    rfl
  obtain ⟨r, hr⟩ := run_sendAll wire (w := w.cacheTaken) hconn hstate (cached w username) 0
  simp only [sendCacheMessage, Prog.run_bind, Prog.run_request, exec_getInstance hc, getCacheConn,
    if_true, exec_getCacheConn hc, reduceCtorEq, if_false, hlrange, hr, relCacheConn,
    Prog.run_pure]
  exact ⟨r, _, rfl, rfl⟩

/-- The chats among what was sent on a connection. -/
def chatsOn (conn : ConnId) (sent : List (ConnId × Outgoing)) : List SingleChat :=
  sent.filterMap fun
    | (c, .chat m) => if c = conn then some m else none
    | _ => none

/-- A login with a matching password, on a connection that is connected, sends what parses of
the list of the user, and leaves the list. -/
theorem login_sends (wire : Wire) {w : World} (h : Tidy w) {conn : ConnId}
    (hstate : w.connState conn = .kConnected) {message : Login} (hrows : loginRows w message ≠ []) :
    ∃ w', serverStep wire w (.login conn message) = some w' ∧ Tidy w' ∧
      cached w' message.username = cached w message.username ∧
      chatsOn conn (w'.sent.drop w.sent.length) = parsed wire (cached w message.username) := by
  obtain ⟨⟨isOK, answer⟩, w₂, hrun, hc₂, -, hmap, hst, hsent, hres⟩ := login_spec message
    plainWire (w := entered w message.username conn) h.calm fun _ _ => by rintro ⟨⟩
  have hok : isOK = 0 ∧ cached w₂ message.username = cached w message.username := by
    split at hres
    · next hnil => exact absurd hnil hrows
    · obtain ⟨hok, v, -, hredis⟩ := hres
      refine ⟨hok, ?_⟩
      rw [cached, hredis, AList.lookup_insert_ne (messageKey_ne_sessionKey _ _)]
      rfl
  have hst₂ : w₂.connState conn = .kConnected := hst ▸ hstate
  have hmap₂ : w₂.connMap message.username = some conn := by
    rw [hmap]
    exact Function.update_self ..
  obtain ⟨r, w₃, hrun₃, hsent₃⟩ := run_sendCacheMessage wire
    (w := { w₂ with sent := w₂.sent ++ [(conn, .response answer)] }) hc₂ hmap₂ hst₂
  have hstep : serverStep wire w (.login conn message) = some w₃ := by
    rw [serverStep, run_login, hrun]
    simp only [answerLogin, Prog.run_bind, Prog.run_request, exec, hst₂, if_true, hok.1, hrun₃,
      Prog.run_pure, returned]
  have hredis := (run_delivers (uses_sendCacheMessage wire message.username)
    { w₂ with sent := w₂.sent ++ [(conn, .response answer)] }).1
  rw [hrun₃] at hredis
  have hcached₃ : cached w₃ message.username = cached w message.username := by
    rw [← hok.2, cached, hredis]
    rfl
  refine ⟨w₃, hstep, login_tidy wire h conn message hstep, hcached₃, ?_⟩
  have hparsed : cached { w₂ with sent := w₂.sent ++ [(conn, .response answer)] }
      message.username = cached w message.username := hok.2
  rw [hsent₃, hparsed]
  simp only [hsent, entered, List.append_assoc, List.drop_left, chatsOn, List.singleton_append,
    List.filterMap_cons, List.filterMap_map, Function.comp_def, if_true, List.filterMap_some]

/-! ### Histories -/

/-- What happens to the messages of one user. -/
inductive Visit where
  | cache (message : SingleChat)
  /-- A login, with the chats it sends. -/
  | login (chats : List SingleChat)
  deriving DecidableEq, Repr

/-- The messages that were cached, oldest first. -/
def cachings (log : List Visit) : List SingleChat :=
  log.filterMap fun
    | .cache message => some message
    | .login _ => none

/-- The messages that were sent by logins. -/
def deliveries (log : List Visit) : List SingleChat :=
  log.flatMap fun
    | .cache _ => []
    | .login chats => chats

/-- What can have happened, since there was no message for a user, when the world is as it is:
messages are cached, the user logs in on a connection that stays connected, and anything else
happens that leaves the list of the user. -/
inductive History (wire : Wire) (username : String) : List Visit → World → Prop where
  | empty {w : World} : Tidy w → cached w username = [] → History wire username [] w
  | cache {log : List Visit} {w : World} (message : SingleChat) : History wire username log w →
    History wire username (log ++ [.cache message])
      (Prog.run exec (cacheMessage wire username message) w).2
  | login {log : List Visit} {w w' : World} (conn : ConnId) (message : Login) :
    History wire username log w → message.username = username →
    w.connState conn = .kConnected → loginRows w message ≠ [] →
    serverStep wire w (.login conn message) = some w' →
    History wire username (log ++ [.login (chatsOn conn (w'.sent.drop w.sent.length))]) w'
  | other {log : List Visit} {w w' : World} : History wire username log w → Tidy w' →
    cached w' username = cached w username → History wire username log w'

section History

variable {wire : Wire} {username : String} {log : List Visit} {w : World}

/-- The list of a user holds every message that was cached, the newest in front. -/
theorem History.stored (h : History wire username log w) :
    Tidy w ∧ cached w username = ((cachings log).map (cachedBytes wire)).reverse := by
  induction h with
  | empty ht hnil => exact ⟨ht, by simp [hnil, cachings]⟩
  | cache message _ ih =>
    obtain ⟨w', hrun, hc, hredis⟩ := run_cacheMessage wire ih.1 username message
    rw [hrun]
    refine ⟨⟨hc, fun u v hv => ?_⟩, ?_⟩
    · by_cases hu : messageKey u = messageKey username
      · rw [hredis, hu, AList.lookup_insert] at hv
        exact ⟨_, (Option.some.inj hv).symm⟩
      · rw [hredis, AList.lookup_insert_ne hu] at hv
        exact ih.1.lists u v hv
    · rw [cached, hredis, AList.lookup_insert, Option.elim_some, RedisValue.items, ih.2]
      simp [cachings]
  | login conn message _ hu hstate hrows hstep ih =>
    obtain ⟨w', hstep', ht, hcached, -⟩ := login_sends wire ih.1 hstate hrows
    obtain rfl := Option.some.inj (hstep.symm.trans hstep')
    refine ⟨ht, ?_⟩
    rw [← hu, hcached, hu, ih.2]
    simp [cachings]
  | other _ ht hcached ih => exact ⟨ht, hcached.trans ih.2⟩

end History

/-! ### Order -/

/-- A message comes back as it was exactly when its serialisation has no byte `~`. -/
theorem replaceToZero_cachedBytes_iff (wire : Wire) (message : SingleChat) :
    replaceToZero (cachedBytes wire message) = wire.serializeChat message ↔
      tilde ∉ wire.serializeChat message := by
  rw [cachedBytes_eq, replaceToZero_masked_iff]

private theorem parsed_map {wire : Wire} {messages : List SingleChat}
    (h : ∀ m ∈ messages, wire.parseChat (replaceToZero (cachedBytes wire m)) = some m) :
    parsed wire (messages.map (cachedBytes wire)) = messages := by
  induction messages with
  | nil => rfl
  | cons m messages ih =>
    rw [List.forall_mem_cons] at h
    rw [List.map_cons, parsed, h.1]
    exact congrArg _ (ih h.2)

/-- Whatever comes back has no byte `~` in its serialisation. -/
theorem tilde_notMem_of_parsed {wire : Wire}
    (hparse : ∀ s m, wire.parseChat s = some m → wire.serializeChat m = s)
    {items : List (List UInt8)} {m : SingleChat} (hm : m ∈ parsed wire items) :
    tilde ∉ wire.serializeChat m := by
  induction items with
  | nil => cases hm
  | cons c items ih =>
    rw [parsed] at hm
    cases hp : wire.parseChat (replaceToZero c) with
    | none =>
      rw [hp] at hm
      cases hm
    | some chat =>
      rw [hp] at hm
      rcases List.mem_cons.mp hm with rfl | hm
      · rw [hparse _ _ hp]
        exact tilde_notMem_replaceToZero c
      · exact ih hm

/-- The list is read back as the messages in their order exactly when no serialisation has a
byte `~` and the messages read the same backwards. -/
theorem parsed_reverse_iff {wire : Wire} {messages : List SingleChat}
    (hserialize : ∀ m ∈ messages, wire.parseChat (wire.serializeChat m) = some m)
    (hparse : ∀ s m, wire.parseChat s = some m → wire.serializeChat m = s) :
    parsed wire ((messages.map (cachedBytes wire)).reverse) = messages ↔
      (∀ m ∈ messages, tilde ∉ wire.serializeChat m) ∧ messages.reverse = messages := by
  have hback : (∀ m ∈ messages, tilde ∉ wire.serializeChat m) →
      parsed wire ((messages.map (cachedBytes wire)).reverse) = messages.reverse := by
    intro htilde
    rw [← List.map_reverse]
    refine parsed_map fun m hm => ?_
    rw [List.mem_reverse] at hm
    rw [(replaceToZero_cachedBytes_iff wire m).mpr (htilde m hm)]
    exact hserialize m hm
  constructor
  · intro h
    have htilde : ∀ m ∈ messages, tilde ∉ wire.serializeChat m :=
      fun m hm => tilde_notMem_of_parsed hparse (h.symm ▸ hm)
    exact ⟨htilde, (hback htilde).symm.trans h⟩
  · rintro ⟨htilde, hrev⟩
    exact (hback htilde).trans hrev

/-- After messages have been cached for a user since the list was empty, the next
`sendCacheMessage` sends exactly these messages, in the order in which they were cached, if and
only if no serialisation has a byte `~` and the messages read the same backwards. -/
theorem offline_messages_in_order_iff (wire : Wire) (username : String)
    (messages : List SingleChat)
    (hserialize : ∀ m ∈ messages, wire.parseChat (wire.serializeChat m) = some m)
    (hparse : ∀ s m, wire.parseChat s = some m → wire.serializeChat m = s) (w : World)
    (h : History wire username (messages.map .cache) w) (conn : ConnId)
    (hconn : w.connMap username = some conn) (hstate : w.connState conn = .kConnected) :
    (Prog.run exec (sendCacheMessage wire username) w).2.sent =
        w.sent ++ messages.map (fun m => (conn, .chat m)) ↔
      (∀ m ∈ messages, tilde ∉ wire.serializeChat m) ∧ messages.reverse = messages := by
  obtain ⟨ht, hcached⟩ := h.stored
  have hmessages : cachings (messages.map .cache) = messages := by
    simp [cachings, List.filterMap_map]
  rw [hmessages] at hcached
  obtain ⟨r, w', hrun, hsent⟩ := run_sendCacheMessage wire ht.calm hconn hstate
  rw [hrun, hsent, hcached, ← parsed_reverse_iff hserialize hparse]
  constructor
  · intro heq
    refine List.map_injective_iff.mpr ?_ (List.append_cancel_left heq)
    intro m m' hm
    simpa using hm
  · intro heq
    rw [heq]

/-- Two chats, and a format that knows them and one more: their serialisations are the bytes 1,
2 and `~`. -/
def chatHi : SingleChat := { receiver := "alice", sender := "bob", message := "hi" }

def chatYo : SingleChat := { receiver := "alice", sender := "bob", message := "yo" }

def chatWave : SingleChat := { receiver := "alice", sender := "bob", message := "~" }

def chatWire : Wire :=
  { plainWire with
    serializeChat := fun m => if m = chatHi then [1] else if m = chatYo then [2] else
      if m = chatWave then [tilde] else []
    parseChat := fun s => if s = [1] then some chatHi else if s = [2] then some chatYo else
      if s = [tilde] then some chatWave else none }

private theorem chatWire_parse
    (s : List UInt8) (m : SingleChat) (h : chatWire.parseChat s = some m) :
    chatWire.serializeChat m = s := by
  simp only [chatWire] at h
  split at h
  · next hs => rw [← Option.some.inj h, hs]; rfl
  split at h
  · next hs => rw [← Option.some.inj h, hs]; rfl
  split at h
  · next hs => rw [← Option.some.inj h, hs]; rfl
  · cases h

/-- Alice comes online: the connection 7 is entered for them. -/
def aliceOnline (w : World) : World :=
  { w with
    connMap := Function.update w.connMap "alice" (some 7)
    connState := Function.update w.connState 7 .kConnected }

/-- The world after messages have been cached for Alice, who is then online. -/
def afterCaching (messages : List SingleChat) : World :=
  aliceOnline (messages.foldl
    (fun w m => (Prog.run exec (cacheMessage chatWire "alice" m) w).2) {})

private theorem history_cachings (messages : List SingleChat) {log : List Visit} {w : World}
    (h : History chatWire "alice" log w) :
    History chatWire "alice" (log ++ messages.map .cache) (messages.foldl
      (fun w m => (Prog.run exec (cacheMessage chatWire "alice" m) w).2) w) := by
  induction messages generalizing log w with
  | nil =>
    rw [List.map_nil, List.append_nil]
    exact h
  | cons m messages ih =>
    have h' := ih (h.cache m)
    rw [List.append_assoc] at h'
    exact h'

private theorem history_afterCaching (messages : List SingleChat) :
    History chatWire "alice" (messages.map .cache) (afterCaching messages) := by
  have hempty : Tidy {} := ⟨rfl, fun _ _ hv => by cases hv⟩
  have h := history_cachings messages (.empty hempty rfl)
  exact .other h ⟨h.stored.1.calm, h.stored.1.lists⟩ rfl

/-- One message. -/
theorem offline_messages_in_order_hi :
    (Prog.run exec (sendCacheMessage chatWire "alice") (afterCaching [chatHi])).2.sent =
      [(7, .chat chatHi)] :=
  (offline_messages_in_order_iff chatWire "alice" [chatHi] (by decide) chatWire_parse
    (afterCaching [chatHi]) (history_afterCaching [chatHi]) 7 rfl rfl).mpr
    ⟨by decide, rfl⟩

/-- Two messages come in the opposite order, and one with a byte `~` does not come at all. -/
theorem offline_messages_reversed :
    History chatWire "alice" [.cache chatHi, .cache chatYo] (afterCaching [chatHi, chatYo]) ∧
    (Prog.run exec (sendCacheMessage chatWire "alice") (afterCaching [chatHi, chatYo])).2.sent =
      [(7, .chat chatYo), (7, .chat chatHi)] ∧
    History chatWire "alice" [.cache chatWave] (afterCaching [chatWave]) ∧
    (Prog.run exec (sendCacheMessage chatWire "alice") (afterCaching [chatWave])).2.sent = [] ∧
    (∀ m ∈ [chatHi, chatYo, chatWave],
      chatWire.parseChat (chatWire.serializeChat m) = some m) ∧
    ∀ s m, chatWire.parseChat s = some m → chatWire.serializeChat m = s :=
  ⟨history_afterCaching [chatHi, chatYo], rfl, history_afterCaching [chatWave], rfl, by decide,
    chatWire_parse⟩

/-! ### Delivery -/

/-- After every login, the messages that logins have sent are, in some order, those that were
cached. -/
def DeliveredOnce (log : List Visit) : Prop :=
  ∀ before chats after, log = before ++ .login chats :: after →
    (deliveries (before ++ [.login chats])).Perm (cachings before)

/-- Two logins follow the caching of a message. -/
def SecondLogin (log : List Visit) : Prop :=
  ∃ message chats chats', List.Sublist [.cache message, .login chats, .login chats'] log

/-- Every login sends all that was cached before it, the newest first. -/
def SendsAll (log : List Visit) : Prop :=
  ∀ before chats after, log = before ++ .login chats :: after → chats = (cachings before).reverse

private theorem mem_cachings {log : List Visit} {m : SingleChat} :
    m ∈ cachings log ↔ .cache m ∈ log := by
  simp only [cachings, List.mem_filterMap]
  constructor
  · rintro ⟨v, hv, hm⟩
    cases v with
    | cache m' => exact Option.some.inj hm ▸ hv
    | login chats => cases hm
  · intro h
    exact ⟨_, h, rfl⟩

private theorem mem_deliveries {log : List Visit} {m : SingleChat} :
    m ∈ deliveries log ↔ ∃ chats, .login chats ∈ log ∧ m ∈ chats := by
  simp only [deliveries, List.mem_flatMap]
  constructor
  · rintro ⟨v, hv, hm⟩
    cases v with
    | cache m' => cases hm
    | login chats => exact ⟨chats, hv, hm⟩
  · rintro ⟨chats, hlogin, hm⟩
    exact ⟨_, hlogin, hm⟩

private theorem SendsAll.concat {log : List Visit} {v : Visit} (h : SendsAll log)
    (hv : ∀ chats, v = .login chats → chats = (cachings log).reverse) :
    SendsAll (log ++ [v]) := by
  intro before chats after heq
  rcases List.eq_nil_or_concat after with rfl | ⟨after, x, rfl⟩
  · obtain ⟨rfl, hlast⟩ := List.append_inj' heq rfl
    exact hv chats (List.singleton_inj.mp hlast)
  · rw [List.concat_eq_append, ← List.cons_append, ← List.append_assoc] at heq
    exact h before chats after (List.append_inj' heq rfl).1

private theorem History.sendsAll {wire : Wire} {username : String} {log : List Visit} {w : World}
    (h : History wire username log w)
    (hp : ∀ m ∈ cachings log, wire.parseChat (replaceToZero (cachedBytes wire m)) = some m) :
    SendsAll log := by
  induction h with
  | empty _ _ =>
    intro before chats after heq
    simp at heq
  | cache message _ ih =>
    refine (ih fun m hm => hp m ?_).concat nofun
    rw [mem_cachings] at hm ⊢
    exact List.mem_append_left _ hm
  | @login log w w' conn message hlog hu hstate hrows hstep ih =>
    have hcachings : cachings (log ++ [.login (chatsOn conn (w'.sent.drop w.sent.length))]) =
        cachings log := by simp [cachings]
    rw [hcachings] at hp
    refine (ih hp).concat ?_
    rintro _ ⟨⟩
    obtain ⟨ht, hcached⟩ := hlog.stored
    obtain ⟨w'', hstep', -, -, hchats⟩ := login_sends wire ht hstate hrows
    obtain rfl := Option.some.inj (hstep.symm.trans hstep')
    rw [hchats, hu, hcached, ← List.map_reverse]
    exact parsed_map fun m hm => hp m (List.mem_reverse.mp hm)
  | other _ _ _ ih => exact ih hp

/-- After a login, what was sent is what was cached exactly when nothing had been sent before. -/
theorem SendsAll.perm_iff {log before after : List Visit} {chats : List SingleChat}
    (h : SendsAll log) (heq : log = before ++ .login chats :: after) :
    (deliveries (before ++ [.login chats])).Perm (cachings before) ↔ deliveries before = [] := by
  have hchats : chats.Perm (cachings before) := by
    rw [h before chats after heq]
    exact List.reverse_perm _
  have happend : deliveries (before ++ [.login chats]) = deliveries before ++ chats := by
    simp [deliveries]
  rw [happend]
  constructor
  · intro hp
    have hlen := hp.length_eq
    rw [List.length_append, hchats.length_eq] at hlen
    exact List.eq_nil_of_length_eq_zero (by omega)
  · intro hnil
    rw [hnil, List.nil_append]
    exact hchats

/-- When every login sends all that was cached, every message is sent once exactly when no
caching is followed by two logins. -/
theorem SendsAll.deliveredOnce_iff {log : List Visit} (h : SendsAll log) :
    DeliveredOnce log ↔ ¬ SecondLogin log := by
  constructor
  · rintro honce ⟨m, chats, chats', hsub⟩
    obtain ⟨l₁, rest, rfl, hm, hsub₁⟩ := List.cons_sublist_iff.mp hsub
    obtain ⟨l₂, l₃, rfl, hchats, hsub₂⟩ := List.cons_sublist_iff.mp hsub₁
    obtain ⟨a, b, rfl⟩ := List.append_of_mem hchats
    obtain ⟨c, d, rfl⟩ := List.append_of_mem (List.singleton_sublist.mp hsub₂)
    have hsplit : l₁ ++ (a ++ .login chats :: b ++ (c ++ .login chats' :: d)) =
        l₁ ++ (a ++ .login chats :: b) ++ c ++ .login chats' :: d := by simp
    have hnil := (h.perm_iff hsplit).mp (honce _ _ _ hsplit)
    have hmem : m ∈ chats := by
      rw [h (l₁ ++ a) chats (b ++ (c ++ .login chats' :: d)) (by simp), List.mem_reverse,
        mem_cachings]
      exact List.mem_append_left _ hm
    have hsent : m ∈ deliveries (l₁ ++ (a ++ .login chats :: b) ++ c) :=
      mem_deliveries.mpr ⟨chats, by simp, hmem⟩
    rw [hnil] at hsent
    cases hsent
  · intro hsecond before chats after heq
    rw [h.perm_iff heq, List.eq_nil_iff_forall_not_mem]
    intro m hsent
    obtain ⟨chats', hlogin, hm⟩ := mem_deliveries.mp hsent
    obtain ⟨a, b, rfl⟩ := List.append_of_mem hlogin
    have hcached : .cache m ∈ a := by
      rw [h a chats' (b ++ .login chats :: after) (by rw [heq]; simp), List.mem_reverse] at hm
      exact mem_cachings.mp hm
    refine hsecond ⟨m, chats', chats, heq ▸ ?_⟩
    rw [List.append_assoc]
    refine List.cons_sublist_iff.mpr ⟨a, _, rfl, hcached, ?_⟩
    refine List.cons_sublist_iff.mpr ⟨.login chats' :: b, _, rfl, List.mem_cons_self, ?_⟩
    exact List.singleton_sublist.mpr List.mem_cons_self

/-- In every history of a user whose cached messages parse again, each message is sent by
exactly one of the logins that follow it if and only if no caching is followed by two logins. -/
theorem offline_messages_once_iff (wire : Wire) (username : String) (log : List Visit) (w : World)
    (h : History wire username log w)
    (hp : ∀ m ∈ cachings log, wire.parseChat (replaceToZero (cachedBytes wire m)) = some m) :
    DeliveredOnce log ↔ ¬ SecondLogin log :=
  (h.sendsAll hp).deliveredOnce_iff

/-- Alice has an account and is offline. -/
def aliceOffline : World := { imUser := [{ name := "alice", password := "pw" }] }

/-- A message is cached for Alice, who then comes online. -/
def hiCached : World :=
  aliceOnline (Prog.run exec (cacheMessage chatWire "alice" chatHi) aliceOffline).2

private theorem history_hiCached : History chatWire "alice" [.cache chatHi] hiCached := by
  have hempty : Tidy aliceOffline := ⟨rfl, fun _ _ hv => by cases hv⟩
  have h : History chatWire "alice" [.cache chatHi] _ := .cache chatHi (.empty hempty rfl)
  exact .other h ⟨h.stored.1.calm, h.stored.1.lists⟩ rfl

/-- Alice logs in on their connection. -/
def aliceLogin : Login := { username := "alice", password := "pw" }

/-- A message that is stored and delivered. -/
theorem offline_messages_once_alice :
    ∃ w, History chatWire "alice" [.cache chatHi, .login [chatHi]] w ∧
      DeliveredOnce [.cache chatHi, .login [chatHi]] := by
  have h : History chatWire "alice" [.cache chatHi, .login [chatHi]] _ :=
    .login 7 aliceLogin history_hiCached rfl rfl (by decide) rfl
  refine ⟨_, h, (offline_messages_once_iff chatWire "alice" _ _ h (by decide)).mpr ?_⟩
  rintro ⟨m, chats, chats', hsub⟩
  have hlen := hsub.length_le
  simp at hlen

/-- A message that was cached once is sent by both logins that follow. -/
theorem offline_message_sent_twice :
    ∃ w, History chatWire "alice" [.cache chatHi, .login [chatHi], .login [chatHi]] w ∧
      (∀ m ∈ cachings [.cache chatHi, .login [chatHi], .login [chatHi]],
        chatWire.parseChat (replaceToZero (cachedBytes chatWire m)) = some m) ∧
      ¬ DeliveredOnce [.cache chatHi, .login [chatHi], .login [chatHi]] := by
  have h₁ : History chatWire "alice" [.cache chatHi, .login [chatHi]] _ :=
    .login 7 aliceLogin history_hiCached rfl rfl (by decide) rfl
  have h₂ : History chatWire "alice" [.cache chatHi, .login [chatHi], .login [chatHi]] _ :=
    .login 7 aliceLogin h₁ rfl rfl (by decide) rfl
  refine ⟨_, h₂, by decide, fun honce => ?_⟩
  have hlen := (honce [.cache chatHi, .login [chatHi]] [chatHi] [] rfl).length_eq
  cases hlen

end IMServer.Server
