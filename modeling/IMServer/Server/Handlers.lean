import IMServer.Business.Frames

/-!
# The handlers of the server

`Login` and `SingleChat` of `server/src/Server.cc` as programs, the life of a connection in
`server/src/TcpConnection.cc`, and the server as a machine that takes one event after the
other.
-/

namespace IMServer.Server

open IMServer.Base IMServer.Business

/-- The answer to a login and, after a successful one, the messages that wait;
`Server.cc:103–112`. -/
def answerLogin (wire : Wire) (conn : ConnId) (username : String) (isOK : Int)
    (answer : Response) : Op Unit := do
  issue (.send conn (.response answer))
  if isOK = 0 then
    let _ ← sendCacheMessage wire username

/-- `Server::Login`; `Server.cc:93–116`. The connection is entered before the password is
checked. -/
def login (wire : Wire) (conn : ConnId) (message : Login) : Op Unit := do
  issue (.saveUsernameConn message.username conn)
  let (isOK, answer) ← Business.login message
  answerLogin wire conn message.username isOK answer

/-- What is done for a receiver with a connection; `Server.cc:143–182`. -/
def chatConnected (wire : Wire) (conn : ConnId) (message : SingleChat) : Op Unit := do
  if message.type = 0 then issue (.send conn (.chat message))
  else if message.type = 1 then
    let (_, hbrsp) ← sendHongbao wire message.hbreq
    issue (.send conn (.chat { hbrsp := hbrsp, type := 2 }))
  else if message.type = 3 then
    let (_, robhbrsp) ← robHongbao wire message.robhbreq
    issue (.send conn (.chat { robhbrsp := robhbrsp, type := 4 }))

/-- `Server::SingleChat`; `Server.cc:134–192`. The connection the request came on is not
used. -/
def singleChat (wire : Wire) (message : SingleChat) : Op Unit := do
  match ← issue (.getConnByUsername message.receiver) with
  | some conn => chatConnected wire conn message
  | none =>
    let _ ← cacheMessage wire message.receiver message

/-- The answer to a login delivers. -/
theorem uses_answerLogin (wire : Wire) (conn : ConnId) (username : String) (isOK : Int)
    (answer : Response) : Prog.Uses Delivers (answerLogin wire conn username isOK answer) := by
  refine Prog.uses_bind (Prog.uses_request trivial) fun _ => ?_
  split
  · exact Prog.uses_bind (uses_sendCacheMessage _ _) fun _ => Prog.uses_pure _
  · exact Prog.uses_pure _

/-- The world once a connection is entered for a user. -/
def entered (w : World) (username : String) (conn : ConnId) : World :=
  { w with connMap := Function.update w.connMap username (some conn) }

/-- A login enters the connection, checks the password and answers. -/
theorem run_login (wire : Wire) (conn : ConnId) (message : Login) (w : World) :
    Prog.run exec (login wire conn message) w =
      match Prog.run exec (Business.login message) (entered w message.username conn) with
      | (.ok res, w') => Prog.run exec (answerLogin wire conn message.username res.1 res.2) w'
      | (.error e, w') => (.error e, w') := by
  rw [login, Prog.run_bind, Prog.run_request]
  show Prog.run exec (Business.login message >>= _) (entered w message.username conn) = _
  rw [Prog.run_bind]
  rcases Prog.run exec (Business.login message) (entered w message.username conn) with ⟨_ | _, _⟩
  · rfl
  · rfl

/-- Give a connection a state. -/
def setState (w : World) (conn : ConnId) (state : ConnState) : World :=
  { w with connState := Function.update w.connState conn state }

/-- `TcpConnection::connectEstablished`, `TcpConnection.cc:313–322`; `none` when the assertion
fails. -/
def connectEstablished (w : World) (conn : ConnId) : Option World :=
  if w.connState conn = .kConnecting then some (setState w conn .kConnected) else none

/-- `TcpConnection::handleClose`, `TcpConnection.cc:398–411`; `none` when the assertion fails.
`Server::onConnection`, which it calls, only logs: the call of `delUsernameConn` is commented
out in `Server.cc:90`. -/
def handleClose (w : World) (conn : ConnId) : Option World :=
  if w.connState conn = .kConnected ∨ w.connState conn = .kDisconnecting then
    some (setState w conn .kDisconnected)
  else none

/-- A connection is established. -/
theorem eq_setState_of_established {w w' : World} {conn : ConnId}
    (h : connectEstablished w conn = some w') : w' = setState w conn .kConnected := by
  unfold connectEstablished at h
  split at h
  · exact (Option.some.inj h).symm
  · cases h

/-- A connection is closed. -/
theorem eq_setState_of_close {w w' : World} {conn : ConnId}
    (h : handleClose w conn = some w') : w' = setState w conn .kDisconnected := by
  unfold handleClose at h
  split at h
  · exact (Option.some.inj h).symm
  · cases h

/-- What happens to the server. -/
inductive Event where
  | established (conn : ConnId)
  | login (conn : ConnId) (message : Login)
  | chat (message : SingleChat)
  | close (conn : ConnId)
  deriving DecidableEq, Repr

/-- Serve one event; `none` when the server does not survive it. -/
def serverStep (wire : Wire) (w : World) : Event → Option World
  | .established conn => connectEstablished w conn
  | .login conn message => returned (Prog.run exec (login wire conn message) w)
  | .chat message => returned (Prog.run exec (singleChat wire message) w)
  | .close conn => handleClose w conn

end IMServer.Server
