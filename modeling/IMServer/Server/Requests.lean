import IMServer.Base.Interleaved
import IMServer.Net.CodecStream
import IMServer.Net.Dispatcher
import IMServer.Server.Handlers

/-!
# From bytes to handlers

The server as its constructor wires it up (`server/src/Server.cc:19–65`): the bytes that arrive on
the connections of one loop go through `ProtobufCodec::onMessage` and
`ProtobufDispatcher::onProtobufMessage` to the handler of the message's type. In whatever pieces
and whatever order of connections they arrive, the server does what it would do if the requests
were handed to it one by one.
-/

namespace IMServer.Server

open IMServer.Base IMServer.Net IMServer.Business

/-! ### The handlers and the dispatcher -/

/-- The message types without a handler; `server/proto/IM.proto`. -/
inductive OtherType where
  | HongbaoResp
  | RespRobHongbao
  | AddFriend
  | GetFriendInfo
  | FriendInfo
  | FriendList
  | Response
  | Session
  | UserInfo
  | SendHongbao
  | RobLog
  deriving DecidableEq, Repr

/-- `Message::GetDescriptor`. -/
inductive Descriptor where
  | Login
  | Register
  | SingleChat
  | ReqRobHongbao
  | GroupChat
  | Hongbaoreq
  | other (t : OtherType)
  deriving DecidableEq, Repr

/-- The fields of a message; of a group chat and of the other types none is read. -/
def Fields : Descriptor → Type
  | .Login => Business.Login
  | .Register => Business.Register
  | .SingleChat => Business.SingleChat
  | .ReqRobHongbao => Business.ReqRobHongbao
  | .Hongbaoreq => Business.Hongbaoreq
  | .GroupChat | .other _ => Unit

/-- A message that the codec has parsed. -/
abbrev Request := (d : Descriptor) × Fields d

/-- `Server::Register`; `Server.cc:120–133`. -/
def register (conn : ConnId) (message : Business.Register) : Op Unit := do
  let (_, answer) ← Business.register message
  issue (.send conn (.response answer))

/-- `Server::GroupChat`; `Server.cc:193–208`. It only prints. -/
def groupChat : Op Unit := pure ()

/-- `Server::SendHongbao`; `Server.cc:210–227`. -/
def sendHongbao (wire : Wire) (conn : ConnId) (message : Hongbaoreq) : Op Unit := do
  let (_, answer) ← Business.sendHongbao wire message
  issue (.send conn (.hongbaoResp answer))

/-- `Server::RobHongbao`; `Server.cc:228–242`. -/
def robHongbao (wire : Wire) (conn : ConnId) (message : ReqRobHongbao) : Op Unit := do
  let (_, answer) ← Business.robHongbao wire message
  issue (.send conn (.robHongbaoResp answer))

/-- `Server::onUnknownMessage`; `Server.h:34–39`. It only logs. -/
def onUnknownMessage (_message : Request) (_conn : ConnId) : Op Unit := pure ()

/-- `Server.cc:20`, `43–55`. -/
def dispatcher (wire : Wire) : ProtobufDispatcher Fields (ConnId → Op Unit) :=
  let self : ProtobufDispatcher Fields (ConnId → Op Unit) := { defaultCallback := onUnknownMessage }
  let self := self.registerMessageCallback .Login fun message conn => login wire conn message
  let self := self.registerMessageCallback .Register fun message conn => register conn message
  let self := self.registerMessageCallback .SingleChat fun message _ => singleChat wire message
  let self := self.registerMessageCallback .ReqRobHongbao fun message conn =>
    robHongbao wire conn message
  let self := self.registerMessageCallback .GroupChat fun _ _ => groupChat
  self.registerMessageCallback .Hongbaoreq fun message conn => sendHongbao wire conn message

/-! ### Bytes -/

/-- The server and the `inputBuffer_` of every connection. -/
structure OnWire where
  world : World
  input : ConnId → Buffer := fun _ => .new kInitialSize

/-- `ProtobufCodec::defaultErrorCallback` with `TcpConnection::shutdown`; `codec.cc:86–97`,
`TcpConnection.cc:184–193`. -/
def defaultErrorCallback (w : World) (conn : ConnId) : World :=
  if w.connState conn = .kConnected then setState w conn .kDisconnecting else w

/-- A call of `messageCallback_` or of `errorCallback_`. -/
def signalStep (wire : Wire) (w : World) : ConnId × Signal Request ErrorCode → Option World
  | (conn, .item message) => do
    let handler ← (dispatcher wire).onProtobufMessage message
    returned (Prog.run exec (handler conn) w)
  | (conn, .error _) => some (defaultErrorCallback w conn)

/-- Bytes arrive on a connection; `TcpConnection.cc:337–346`, `codec.cc:107–139`. -/
def chunkStep (wire : Wire) (pb : Protobuf Request) (s : OnWire) (e : ConnId × List UInt8) :
    Option OnWire := do
  let buf ← (s.input e.1).readFd (some e.2)
  let (signals, buf) ← onMessage pb buf
  let world ← run (signalStep wire) s.world (signals.map (Prod.mk e.1))
  some { world, input := Function.update s.input e.1 buf }

/-- What `readv` delivers fits into the room it is offered. -/
def Fits (s : OnWire) (e : ConnId × List UInt8) : Prop :=
  e.2.length ≤ (s.input e.1).writableBytes + kExtrabuf

/-- A chunk is drained behind what its connection has left unread. -/
theorem chunkStep_eq (wire : Wire) (pb : Protobuf Request) {s : OnWire}
    {pending : ConnId → List UInt8} (h : ∀ conn, (s.input conn).Rep (pending conn))
    {conn : ConnId} {data : List UInt8} (hf : Fits s (conn, data)) :
    ∃ buf, buf.Rep ((frameDecoder pb).drain (pending conn ++ data)).2 ∧
      chunkStep wire pb s (conn, data) =
        (run (signalStep wire) s.world (((frameDecoder pb).drain (pending conn ++ data)).1.map
          (Prod.mk conn))).map fun world => ⟨world, Function.update s.input conn buf⟩ := by
  obtain ⟨b₁, h₁, hr₁⟩ := Buffer.readFd_spec (h conn) (some data)
    (by intro d hd; cases hd; exact hf)
  rw [Option.getD_some] at hr₁
  obtain ⟨b₂, h₂, hr₂⟩ := onMessage_spec pb hr₁
  refine ⟨b₂, hr₂, ?_⟩
  simp only [chunkStep, h₁, h₂, Option.bind_eq_bind, Option.bind_some, Option.map_eq_bind]
  rfl

/-- The server driven by bytes makes the calls that the decoder makes of them. -/
theorem run_chunkStep (wire : Wire) (pb : Protobuf Request) (events : List (ConnId × List UInt8))
    {s : OnWire} (pending : ConnId → List UInt8) (h : ∀ conn, (s.input conn).Rep (pending conn))
    (hl : Legal (chunkStep wire pb) Fits s events) :
    (run (chunkStep wire pb) s events).map OnWire.world =
      run (signalStep wire) s.world ((frameDecoder pb).feedAll pending events) := by
  induction events generalizing s pending with
  | nil => rfl
  | cons e events ih =>
    obtain ⟨conn, data⟩ := e
    obtain ⟨buf, hr, hs⟩ := chunkStep_eq wire pb h hl.1
    rw [run, Decoder.feedAll, run_append]
    cases hw : run (signalStep wire) s.world
        (((frameDecoder pb).drain (pending conn ++ data)).1.map (Prod.mk conn)) with
    | none => rw [hs, hw, Option.map_none, Option.bind_none, Option.bind_none, Option.map_none]
    | some world =>
      rw [hw, Option.map_some] at hs
      rw [hs, Option.bind_some, Option.bind_some]
      refine ih _ (fun c => ?_) (hl.tail hs)
      by_cases hc : c = conn
      · subst hc
        simp only [Function.update_self]
        exact hr
      · simp only [Function.update_of_ne hc]
        exact h c

/-! ### Requests -/

/-- One request, handed to the server as a whole. -/
def requestStep (wire : Wire) (w : World) : ConnId × Request → Option World
  | (conn, ⟨.Login, m⟩) => serverStep wire w (.login conn m)
  | (_, ⟨.SingleChat, m⟩) => serverStep wire w (.chat m)
  | (conn, ⟨.Register, m⟩) => returned (Prog.run exec (register conn m) w)
  | (conn, ⟨.ReqRobHongbao, m⟩) => returned (Prog.run exec (robHongbao wire conn m) w)
  | (conn, ⟨.Hongbaoreq, m⟩) => returned (Prog.run exec (sendHongbao wire conn m) w)
  | (_, ⟨.GroupChat, _⟩) | (_, ⟨.other _, _⟩) => some w

/-- The dispatcher finds the handler of every type, and logs the types without one. -/
theorem signalStep_item (wire : Wire) (w : World) (conn : ConnId) (m : Request) :
    signalStep wire w (conn, .item m) = requestStep wire w (conn, m) := by
  obtain ⟨d, m⟩ := m
  cases d <;> rfl

private theorem run_signalStep (wire : Wire) (requests : List (ConnId × Request)) (w : World) :
    run (signalStep wire) w (requests.map fun x => (x.1, .item x.2)) =
      run (requestStep wire) w requests := by
  induction requests generalizing w with
  | nil => rfl
  | cons x requests ih =>
    rw [List.map_cons, run, run, signalStep_item]
    exact Option.bind_congr fun w' _ => ih w'

/-- A stream that begins with the frames of some messages is drained into these first. -/
private theorem prefix_items_drain {Msg : Type} (pb : Protobuf Msg) {msgs : List Msg}
    (h : ∀ m ∈ msgs, Transmissible pb m) {xs : List UInt8}
    (hx : (msgs.map (frame pb)).flatten <+: xs) :
    msgs <+: items ((frameDecoder pb).drain xs).1 := by
  obtain ⟨ys, rfl⟩ := hx
  have hd := drain_frames pb h
  have hn : firstError ((frameDecoder pb).drain (msgs.map (frame pb)).flatten).1 = none := by
    rw [hd]
    exact firstError_map_item msgs
  rw [(frameDecoder pb).drain_append _ ys hn, hd, items_append, items_map_item]
  exact List.prefix_append _ _

/-- However the bytes of the clients are cut and interleaved, as long as every connection carries
a beginning of the frames of its requests, the server ends as if requests were handed to it one by
one: for every connection exactly the ones whose frames have arrived, in order, each to the handler
of its type. -/
theorem requests_are_served (wire : Wire) (pb : Protobuf Request) (w : World)
    (requests : ConnId → List Request) (ht : ∀ conn, ∀ m ∈ requests conn, Transmissible pb m)
    (events : List (ConnId × List UInt8))
    (hl : Legal (chunkStep wire pb) Fits { world := w } events)
    (hb : ∀ conn, (ofSource conn events).flatten <+: ((requests conn).map (frame pb)).flatten) :
    ∃ served : List (ConnId × Request),
      (run (chunkStep wire pb) { world := w } events).map OnWire.world =
        run (requestStep wire) w served ∧
      ∀ conn, ofSource conn served <+: requests conn ∧
        (∀ arrived, arrived <+: requests conn →
          (arrived.map (frame pb)).flatten <+: (ofSource conn events).flatten →
          arrived <+: ofSource conn served) ∧
        ((ofSource conn events).flatten = ((requests conn).map (frame pb)).flatten →
          ofSource conn served = requests conn) := by
  have hw : (frameDecoder pb).head [] = .wait := rfl
  have hrun := run_chunkStep wire pb events (s := { world := w }) (fun _ => [])
    (fun _ => Buffer.rep_new kInitialSize) hl
  -- the signals of one connection are those of draining its bytes at once
  have hsig : ∀ conn, items (ofSource conn ((frameDecoder pb).feedAll (fun _ => []) events)) =
        items ((frameDecoder pb).drain (ofSource conn events).flatten).1 ∧
      firstError (ofSource conn ((frameDecoder pb).feedAll (fun _ => []) events)) =
        firstError ((frameDecoder pb).drain (ofSource conn events).flatten).1 := by
    intro conn
    have hf := (frameDecoder pb).feed_signals (ofSource conn events) hw
    rwa [← (frameDecoder pb).ofSource_feedAll conn events fun _ => []] at hf
  have herr : ∀ conn,
      firstError (ofSource conn ((frameDecoder pb).feedAll (fun _ => []) events)) = none := by
    intro conn
    obtain ⟨got, hgot, -⟩ := drain_of_prefix pb (ht conn) (hb conn)
    rw [(hsig conn).2, hgot]
    exact firstError_map_item got
  obtain ⟨served, hserved⟩ := exists_items herr
  rw [hserved, run_signalStep] at hrun
  refine ⟨served, hrun, fun conn => ?_⟩
  have hitems : ofSource conn served =
      items ((frameDecoder pb).drain (ofSource conn events).flatten).1 := by
    rw [← (hsig conn).1, hserved, ofSource_map conn Signal.item, items_map_item]
  rw [hitems]
  refine ⟨?_, fun arrived ha hframes => ?_, fun hall => ?_⟩
  · obtain ⟨got, hgot, hp⟩ := drain_of_prefix pb (ht conn) (hb conn)
    rw [hgot, items_map_item]
    exact hp
  · exact prefix_items_drain pb (fun m hm => ht conn m (ha.subset hm)) hframes
  · rw [hall, drain_frames pb (ht conn), items_map_item]

/-- One registered type, whose only message has no payload. -/
def onlyMessage (m : Request) : Protobuf Request where
  Descriptor := Unit
  Prototype := Unit
  typeName _ := [76]
  serialize _ := []
  findMessageTypeByName name := if name = [76] then some () else none
  getPrototype _ := some ()
  parseFromArray _ _ := some m
  adler32 data := (data.map UInt8.toNat).sum
  find_nil := rfl

/-- A login that arrives in two pieces, with a read on another connection between them, and the
beginning of a second one. -/
theorem requests_are_served_login :
    let m : Request := ⟨.Login, { username := "alice", password := "pw" }⟩
    let bytes := frame (onlyMessage m) m
    let events : List (ConnId × List UInt8) :=
      [(7, bytes.take 5), (8, []), (7, bytes.drop 5), (7, bytes.take 3)]
    ∃ served, (run (chunkStep plainWire (onlyMessage m)) { world := {} } events).map OnWire.world =
      run (requestStep plainWire) {} served ∧ ofSource 7 served <+: [m, m] ∧
      [m] <+: ofSource 7 served := by
  intro m bytes events
  have ht : Transmissible (onlyMessage m) m := ⟨⟨(), rfl, rfl⟩, by decide⟩
  have hfits : ∀ e ∈ events, e.2.length ≤ kExtrabuf := by
    have hlen : bytes.length ≤ kExtrabuf := by
      simp only [bytes, frame, List.length_append, length_beBytes, length_frameBody]
      decide
    simp only [events, List.forall_mem_cons, List.length_take, List.length_drop, List.length_nil]
    exact ⟨by omega, by omega, by omega, by omega, List.forall_mem_nil _⟩
  have hl : Legal (chunkStep plainWire (onlyMessage m)) Fits { world := {} } events :=
    (Legal.of_forall hfits _).mono fun s e h => Nat.le_trans h (Nat.le_add_left _ _)
  have hseven : (ofSource 7 events).flatten = bytes ++ bytes.take 3 := by
    simp [events, ofSource, ← List.append_assoc]
  obtain ⟨served, hrun, hs⟩ := requests_are_served plainWire (onlyMessage m) {}
    (fun conn => if conn = 7 then [m, m] else [])
    (by
      intro conn m' hm'
      split at hm'
      · rw [List.mem_cons, List.mem_singleton, or_self] at hm'
        rwa [hm']
      · cases hm')
    events hl
    (by
      intro conn
      split
      · next hc =>
        rw [hc, hseven]
        refine ⟨bytes.drop 3, ?_⟩
        simp [bytes]
      · next hc =>
        have hn : ∀ c ∈ ofSource conn events, c = [] := by
          simp [events, ofSource, List.filter_cons, Ne.symm hc]
        simp [List.flatten_eq_nil_iff.mpr hn])
  refine ⟨served, hrun, (hs 7).1, (hs 7).2.1 [m] ⟨[m], rfl⟩ ?_⟩
  rw [hseven]
  refine ⟨bytes.take 3, ?_⟩
  simp [bytes]

end IMServer.Server
