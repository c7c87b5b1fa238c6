import IMServer.Business.Calls
import IMServer.Server.Handlers

/-!
# A red packet in a chat

`Server::SingleChat` (`server/src/Server.cc:134–192`) and `Client::SingleChat`
(`client/src/Client.cc:153–207`) pass a red packet between two users: a request of type 1, its
answer of type 2 to the receiver, the grab of type 3 that the receiver's client sends back, and the
answer of type 4. The answer of type 2 names no receiver, so the grab is routed by the empty name.
-/

namespace IMServer.Chat

open IMServer.Base IMServer.Business IMServer.Server

/-- `Client.h:68`, and the packets that the program of the client knows; `main.cc:9`. -/
structure Client where
  username_ : String
  redPackets : AList fun _ : String => String := ∅

/-- `Client::SingleChat`: the client, and what it sends back; `Client.cc:153–207`. Messages of
other types are only logged. -/
def Client.singleChat (c : Client) (message : SingleChat) : Client × List SingleChat :=
  if message.type = 2 ∧ message.hbrsp.isok then
    ({ c with redPackets := c.redPackets.insert message.hbrsp.sender message.hbrsp.hongbaokey },
      [{ type := 3
         sender := c.username_
         receiver := message.receiver
         robhbreq := { hongbaokey := message.hbrsp.hongbaokey, sender := message.hbrsp.sender,
                       selfname := c.username_ } }])
  else (c, [])

/-- A request of type 1 that `SendHongbao` accepts, for a receiver who is connected, while every
store call succeeds. -/
structure Accepted (connB : ConnId) (request : SingleChat) (w : World) : Prop where
  calm : Calm w
  type : request.type = 1
  receiver : w.connMap request.receiver = some connB
  connected : w.connState connB = .kConnected
  session : ∃ s, w.redis.lookup (sessionKey request.hbreq.sender) = some (.session s) ∧
    request.hbreq.money < s.userinfo.money

/-- The world after a message has been sent on a connection. -/
def delivered (w : World) (conn : ConnId) (message : SingleChat) : World :=
  { w with sent := w.sent ++ [(conn, .chat message)] }

/-- The exchange goes through: the receiver is sent an answer of type 2, the client of the receiver
sends a message of type 3, and the server serves that by a grab of the packet for the receiver and
sends its answer on the receiver's connection. -/
def Closes (wire : Wire) (c : Client) (connB : ConnId) (request : SingleChat) (w : World) : Prop :=
  ∃ w₁ chat₂ chat₃ ret robhbrsp w₂,
    Prog.run exec (singleChat wire request) w = (.ok (), w₁) ∧
    w₁.sent = w.sent ++ [(connB, .chat chat₂)] ∧ chat₂.type = 2 ∧
    w₁.redis.lookup chat₂.hbrsp.hongbaokey = some (.hongbao (newHongbao request.hbreq)) ∧
    (c.singleChat chat₂).2 = [chat₃] ∧ chat₃.type = 3 ∧
    Prog.run exec (robHongbao wire { hongbaokey := chat₂.hbrsp.hongbaokey
                                     sender := request.hbreq.sender
                                     selfname := c.username_ }) w₁ = (.ok (ret, robhbrsp), w₂) ∧
    Prog.run exec (singleChat wire chat₃) w₁ =
      (.ok (), delivered w₂ connB { robhbrsp := robhbrsp, type := 4 })

/-! ### The three steps -/

private theorem exec_send_connected {w : World} {conn : ConnId} (h : w.connState conn = .kConnected)
    (message : SingleChat) :
    exec (.send conn (.chat message)) w = ((), delivered w conn message) :=
  congrArg (Prod.mk ()) (if_pos h)

/-- The message of type 2 about a packet. -/
def packetMessage (sender key : String) : SingleChat :=
  { type := 2
    hbrsp := { isok := true, sender := sender, hongbaokey := key, description := "send ok" } }

/-- The message of type 3 that a client sends for it. -/
def grabMessage (c : Client) (sender key : String) : SingleChat :=
  { type := 3, sender := c.username_
    robhbreq := { hongbaokey := key, sender := sender, selfname := c.username_ } }

private theorem singleChat_packetMessage (c : Client) (sender key : String) :
    (c.singleChat (packetMessage sender key)).2 = [grabMessage c sender key] := rfl

/-- The first step: the packet is stored and its answer is sent to the receiver. -/
theorem run_request (wire : Wire) {connB : ConnId} {request : SingleChat} {w : World}
    (h : Accepted connB request w) :
    ∃ w', w'.oracle.outcomes = [] ∧
      w'.redis = w.redis.insert (hongbaoKey request.hbreq.sender w.now)
        (.hongbao (newHongbao request.hbreq)) ∧
      w'.connMap = w.connMap ∧ w'.connState = w.connState ∧ w'.sent = w.sent ∧
      Prog.run exec (singleChat wire request) w = (.ok (), delivered w' connB
        (packetMessage request.hbreq.sender (hongbaoKey request.hbreq.sender w.now))) := by
  obtain ⟨s, hs, hmoney⟩ := h.session
  have hread : sessionRead wire (w.redis.lookup (sessionKey request.hbreq.sender)) = some s := by
    rw [hs]
    rfl
  obtain ⟨res, w', hrun, hc, hstep⟩ := sendHongbao_spec wire request.hbreq h.calm hread
    fun _ => by rintro ⟨⟩
  have hstate : w'.connState = w.connState := by
    rw [← run_connState (sendHongbao wire request.hbreq) w, hrun]
  have hframe := run_internal (uses_sendHongbao wire request.hbreq) w
  rw [hrun] at hframe
  cases hstep with
  | refused short redis imUser =>
    have hlt : (s.userinfo.money - request.hbreq.money) * 10000 < 1 := of_decide_eq_true short
    omega
  | sent v covered stored redis imUser =>
    cases stored
    refine ⟨w', hc, redis, hframe.1, hstate, hframe.2, ?_⟩
    have hconn : w'.connState connB = .kConnected := by rw [hstate, h.connected]
    have hlook : exec (.getConnByUsername request.receiver) w = (some connB, w) := by
      rw [← h.receiver]
      rfl
    simp only [singleChat, Prog.run_bind, Prog.run_request, hlook, chatConnected, h.type,
      one_ne_zero, if_false, if_true, hrun, exec_send_connected hconn]
    rfl

/-- The third step, for a grab that returns: it is served for the connection under the empty name,
or pushed on the list of messages for the empty name. -/
theorem run_grabMessage (wire : Wire) {c : Client} {sender key : String} {w w₂ : World} {ret : Int}
    {robhbrsp : RespRobHongbao}
    (hrob : Prog.run exec (robHongbao wire
      { hongbaokey := key, sender := sender, selfname := c.username_ }) w =
        (.ok (ret, robhbrsp), w₂)) :
    (∀ conn, w.connMap "" = some conn →
      Prog.run exec (singleChat wire (grabMessage c sender key)) w =
        (.ok (), (exec (.send conn (.chat { robhbrsp := robhbrsp, type := 4 })) w₂).2)) ∧
    (w.connMap "" = none →
      (Prog.run exec (singleChat wire (grabMessage c sender key)) w).2.sent = w.sent) := by
  have hlook : exec (.getConnByUsername "") w = (w.connMap "", w) := rfl
  constructor
  · intro conn hconn
    rw [hconn] at hlook
    simp [singleChat, grabMessage, Prog.run_bind, hlook, chatConnected, hrob]
  · intro hnone
    rw [hnone] at hlook
    have hframe := run_internal (uses_cacheMessage wire "" (grabMessage c sender key)) w
    simp only [singleChat, Prog.run_bind, Prog.run_request, grabMessage, hlook] at hframe ⊢
    generalize Prog.run exec (cacheMessage wire "" _) w = r at hframe ⊢
    rcases r with ⟨_ | _, w'⟩
    · exact hframe.2
    · exact hframe.2

private theorem delivered_ne (w : World) (conn : ConnId) (message : SingleChat) {sent : List _}
    (h : sent = w.sent) : (delivered w conn message).sent ≠ sent := by
  intro heq
  have := congrArg List.length (heq.trans h)
  simp [delivered] at this

/-- The answer to the grab reaches a connection exactly when that is entered under the empty
name. -/
theorem run_grabMessage_iff (wire : Wire) {c : Client} {sender key : String} {w w₂ : World}
    {ret : Int} {robhbrsp : RespRobHongbao} {connB : ConnId}
    (hrob : Prog.run exec (robHongbao wire
      { hongbaokey := key, sender := sender, selfname := c.username_ }) w =
        (.ok (ret, robhbrsp), w₂)) (hconn : w.connState connB = .kConnected) :
    Prog.run exec (singleChat wire (grabMessage c sender key)) w =
        (.ok (), delivered w₂ connB { robhbrsp := robhbrsp, type := 4 }) ↔
      w.connMap "" = some connB := by
  obtain ⟨hserved, hcached⟩ := run_grabMessage wire hrob
  have hsent := (run_internal (uses_robHongbao wire
    { hongbaokey := key, sender := sender, selfname := c.username_ }) w).2
  have hstate := run_connState (robHongbao wire
    { hongbaokey := key, sender := sender, selfname := c.username_ }) w
  rw [hrob] at hsent hstate
  have hconn₂ : w₂.connState connB = .kConnected := by
    rw [← hconn, ← hstate]
  constructor
  · intro hrun
    cases hmap : w.connMap "" with
    | none =>
      have hlost := hcached hmap
      rw [hrun] at hlost
      exact absurd hlost (delivered_ne w₂ connB _ hsent.symm)
    | some conn =>
      rw [hserved conn hmap] at hrun
      by_cases hc : w₂.connState conn = .kConnected
      · rw [exec_send_connected hc] at hrun
        have hlast := congrArg (fun r => r.2.sent.getLast?) hrun
        simp only [delivered, List.getLast?_concat, Option.some.injEq, Prod.mk.injEq, and_true]
          at hlast
        rw [hlast]
      · have hdrop : (exec (.send conn (.chat { robhbrsp := robhbrsp, type := 4 })) w₂).2 = w₂ :=
          if_neg hc
        rw [hdrop] at hrun
        exact absurd (congrArg (·.2.sent) hrun).symm (delivered_ne w₂ connB _ rfl)
  · intro hmap
    rw [hserved connB hmap, exec_send_connected hconn₂]

/-- The exchange goes through exactly when the connection of the receiver is also entered under the
empty name. -/
theorem exchange_closes_iff (wire : Wire) (c : Client) (connB : ConnId) (request : SingleChat)
    (w : World) (h : Accepted connB request w)
    (hlock : RedisLock.getLockKey (hongbaoKey request.hbreq.sender w.now) ∉ w.redis) :
    Closes wire c connB request w ↔ w.connMap "" = some connB := by
  obtain ⟨w', hc, hredis, hmap, hstate, hsent, hrun⟩ := run_request wire h
  generalize hkey : hongbaoKey request.hbreq.sender w.now = key at *
  have hpacket : w'.redis.lookup key = some (.hongbao (newHongbao request.hbreq)) := by
    rw [hredis, AList.lookup_insert]
  have hfree : RedisLock.getLockKey key ∉ w'.redis := by
    rw [hredis, AList.mem_insert]
    exact fun hmem => hmem.elim (getLockKey_ne key) hlock
  generalize hw₁ : delivered w' connB (packetMessage request.hbreq.sender key) = w₁ at hrun
  have hsent₁ : w₁.sent =
      w.sent ++ [(connB, .chat (packetMessage request.hbreq.sender key))] := by
    rw [← hw₁, ← hsent]
    rfl
  have hpacket₁ : hongbaoRead wire (w₁.redis.lookup key) =
      some (false, newHongbao request.hbreq) := by
    rw [← hw₁]
    exact congrArg _ hpacket
  obtain ⟨robhbrsp, w₂, hrob, -, -⟩ := robHongbao_spec wire (w := w₁)
    { hongbaokey := key, sender := request.hbreq.sender, selfname := c.username_ }
    (by rw [← hw₁]; exact hc) (hkey ▸ hongbaoKey_ne_empty _ _) (by rw [← hw₁]; exact hfree)
    (r := (false, newHongbao request.hbreq)) hpacket₁ fun _ => divisible_exact _ _ _ _
  have hconn : w₁.connState connB = .kConnected := by
    rw [← hw₁, ← h.connected, ← hstate]
    rfl
  have hmap₁ : w₁.connMap = w.connMap := by
    rw [← hw₁, ← hmap]
    rfl
  rw [← hmap₁, ← run_grabMessage_iff wire hrob hconn]
  constructor
  · rintro ⟨v₁, chat₂, chat₃, ret, resp, v₂, hrun', hsent', -, -, hclient, -, hrob', hlast⟩
    cases hrun.symm.trans hrun'
    have hchat : packetMessage request.hbreq.sender key = chat₂ := by
      simpa using hsent₁.symm.trans hsent'
    subst hchat
    cases (singleChat_packetMessage c request.hbreq.sender key).symm.trans hclient
    cases hrob.symm.trans hrob'
    exact hlast
  · intro hlast
    refine ⟨w₁, _, _, 0, robhbrsp, w₂, hrun, hsent₁, rfl, ?_,
      singleChat_packetMessage c request.hbreq.sender key, rfl, hrob, hlast⟩
    rw [← hw₁]
    exact hpacket

/-- Alice and Bob are logged in and connected. -/
def aliceAndBob : World :=
  { imUser := [{ name := "alice", money := 1000 }, { name := "bob", money := 1000 }]
    redis := (∅ : AList _).insert (sessionKey "alice")
      (.session { userinfo := { name := "alice", money := 1000 } })
    connMap := Function.update (Function.update (fun _ => none) "alice" (some 1)) "bob" (some 2)
    connState := fun _ => .kConnected }

/-- Alice sends Bob a dollar. -/
def oneDollarForBob : SingleChat :=
  { sender := "alice", receiver := "bob", type := 1
    hbreq := { sender := "alice", receiver := "bob", money := 100, count := 1 } }

private theorem accepted_oneDollarForBob : Accepted 2 oneDollarForBob aliceAndBob where
  calm := rfl
  type := rfl
  receiver := rfl
  connected := rfl
  session := ⟨_, rfl, by decide⟩

/-- A packet of a dollar for Bob. -/
theorem exchange_closes_aliceAndBob :
    Accepted 2 oneDollarForBob aliceAndBob ∧
      (Closes plainWire { username_ := "bob" } 2 oneDollarForBob aliceAndBob ↔
        aliceAndBob.connMap "" = some 2) :=
  ⟨accepted_oneDollarForBob, exchange_closes_iff plainWire { username_ := "bob" } 2
    oneDollarForBob aliceAndBob accepted_oneDollarForBob (by decide)⟩

/-- Bob's grab is stored as a message for the empty name, and nothing is sent. -/
theorem grab_stored_for_nobody :
    ∃ w₁ chat₃ w₂, Prog.run exec (singleChat plainWire oneDollarForBob) aliceAndBob = (.ok (), w₁) ∧
      w₁.sent = [(2, .chat (packetMessage "alice" (hongbaoKey "alice" 0)))] ∧
      (Client.singleChat { username_ := "bob" }
        (packetMessage "alice" (hongbaoKey "alice" 0))).2 = [chat₃] ∧ chat₃.receiver = "" ∧
      Prog.run exec (singleChat plainWire chat₃) w₁ = (.ok (), w₂) ∧ w₂.sent = w₁.sent ∧
      w₂.redis.lookup (messageKey "") = some (.list [cachedBytes plainWire chat₃]) :=
  ⟨_, _, _, rfl, rfl, rfl, rfl, rfl, rfl, rfl⟩

end IMServer.Chat
