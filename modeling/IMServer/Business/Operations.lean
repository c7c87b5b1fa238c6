import IMServer.Business.Store
import IMServer.Cache.Encoding

/-!
# The business functions

`server/src/BaseBusiness.cc` and `server/src/RedisLock.h` as programs over the stores,
statement by statement: connections that may be null, early returns that give nothing back,
texts and return codes included.

The functions take a format: what `setpb` stores for a message and `getpb` makes of a value, and
how amounts are computed with. `Format.exact` keeps messages as they are and counts whole cents;
`IMServer.Business.Machine` has the bytes and the `double`s of the source. `int` arithmetic that
overflows wraps.
-/

namespace IMServer.Business

open IMServer.Base IMServer.Cache

/-- How bytes of one kind of value read as another kind, and how chats are serialised. -/
structure Wire where
  /-- `std::stoi` of a stored packet or session; `none` when it throws. -/
  stoiHongbao : SendHongbao → Option Int
  stoiSession : Session → Option Int
  /-- The decimal text of a time parsed as a message. -/
  parseHongbao : Int → Option SendHongbao
  parseSession : Int → Option Session
  /-- Any other string, read in the same ways. -/
  stoiBytes : List UInt8 → Option Int := fun _ => none
  parseHongbaoBytes : List UInt8 → Option SendHongbao := fun _ => none
  parseSessionBytes : List UInt8 → Option Session := fun _ => none
  /-- A stored value parsed as a `UserInfo`. -/
  parseUserInfo : RedisValue → Option UserInfo := fun _ => some {}
  serializeChat : SingleChat → List UInt8
  parseChat : List UInt8 → Option SingleChat

/-- A format in which no message reads as a number and no number as a message, with chats
that are their text. -/
def plainWire : Wire where
  stoiHongbao _ := none
  stoiSession _ := none
  parseHongbao _ := none
  parseSession _ := none
  serializeChat chat := chat.message.toUTF8.toList
  parseChat _ := none

/-- `static_cast<int>` of a number of cents; out of range it is the least `int`. -/
def toInt32 (cents : Int) : Int :=
  if -2 ^ 31 ≤ cents ∧ cents < 2 ^ 31 then cents else -2 ^ 31

/-- How the amounts of messages are computed with, and what they are in the tables. -/
structure Amounts where
  /-- `static_cast<int>(x * 100)`; `BaseBusiness.cc:579`. -/
  toCents : Int → Int
  /-- `static_cast<double>(g / 100.00)`; `BaseBusiness.cc:585`. -/
  ofCents : Int → Int
  /-- `x - y`; `BaseBusiness.cc:585`. -/
  sub : Int → Int → Int
  /-- `x - y < 0.000001`; `BaseBusiness.cc:440`. -/
  short : Int → Int → Bool
  /-- What `%lf` prints, as an amount of the tables; `none` when it is no number. -/
  printed : Int → Option Int
  /-- `atof` of a column; `BaseBusiness.cc:342`. -/
  atof : Int → Int
  /-- The 10000.0 of a new account, in the tables; `BaseBusiness.cc:95`. -/
  opening : Int
  /-- The processor refuses `x / y` of two `int`s; `BaseBusiness.cc:492`. -/
  traps : Int → Int → Bool

namespace Amounts

/-- Whole cents, in messages and in tables; the bound 0.000001 is a ten-thousandth of a cent. -/
def cents : Amounts where
  toCents := toInt32
  ofCents g := g
  sub x y := x - y
  short x y := decide ((x - y) * 10000 < 1)
  printed := some
  atof x := x
  opening := 1000000
  traps _ _ := false

/-- The statement that an amount is printed into. -/
def statement (a : Amounts) (amount : Int) (stmt : Int → Statement) : Statement :=
  (a.printed amount).elim .malformed stmt

end Amounts

/-- A representation of messages in Redis and of amounts. -/
structure Format extends Wire, Amounts where
  /-- What `setpb` sends to Redis; `none` when it writes past its array. -/
  store : RedisValue → Option RedisValue

/-- Messages are kept as they are, amounts are whole cents. -/
def Format.exact (wire : Wire) : Format := { wire, Amounts.cents with store := some }

instance : Coe Wire Format := ⟨Format.exact⟩

/-- `IMComm.cc:7–15`, over signed characters. -/
def djbHash (str : String) : Int :=
  let hash := str.toUTF8.toList.foldl (fun hash c => wrap 32 (hash * 33 + wrap 8 c.toNat)) 5381
  unsigned 31 hash

/-- The pool that a name is hashed to; `BaseBusiness.cc:32–35`. -/
def redisname (name : String) : String := "Master" ++ toString (djbHash name % 3 + 1)

/-- Use of a pointer. -/
def deref (p : Option Handle) : Op Unit :=
  match p with
  | some _ => pure ()
  | none => .throw .nullPointer

/-- `CacheManager::getInstance()->GetCacheConn(…)`. -/
def getCacheConn (manager : Bool) (name : String) : Op (Option Handle) :=
  if manager then issue (.getCacheConn (redisname name)) else .throw .nullPointer

/-- `pCacheManager->RelCacheConn(…)`. -/
def relCacheConn (manager : Bool) (conn : Option Handle) : Op Unit :=
  if manager then issue (.relCacheConn conn) else .throw .nullPointer

/-! ### `CacheConn` -/

/-- What `getpb` makes of a value as a packet, and whether the value was empty; `none` is the
exception. No field of a session has the number and type of a packet's. -/
def hongbaoRead (wire : Wire) : Option RedisValue → Option (Bool × SendHongbao)
  | some (.hongbao p) => some (false, p)
  | some (.session _) => some (false, {})
  | some (.stamp t) => (wire.parseHongbao t).map fun p => (false, p)
  | some (.bytes (b :: bs)) => (wire.parseHongbaoBytes (b :: bs)).map fun p => (false, p)
  | _ => some (true, {})

/-- What `getpb` makes of a value as a session. -/
def sessionRead (wire : Wire) : Option RedisValue → Option Session
  | some (.session s) => some s
  | some (.stamp t) => wire.parseSession t
  | some (.bytes (b :: bs)) => wire.parseSessionBytes (b :: bs)
  | _ => some {}

/-- What `getpb` makes of a value as a `UserInfo`. -/
def userInfoRead (wire : Wire) : Option RedisValue → Option UserInfo
  | some value => wire.parseUserInfo value
  | none => some {}

/-- The number that `std::stoi` reads in a value; `none` when it throws. -/
def readsAs (wire : Wire) : Option RedisValue → Option Int
  | some (.stamp t) => some t
  | some (.hongbao p) => wire.stoiHongbao p
  | some (.session s) => wire.stoiSession s
  | some (.bytes bs) => wire.stoiBytes bs
  | _ => none

namespace CacheConn

/-- `CachePool.cc:66–99`; `none` is the empty string. -/
def get (conn : Option Handle) (key : String) : Op (Option RedisValue) := do
  deref conn
  match ← issue (.get key) with
  | some value => pure value
  -- a string made of `nullptr`
  | none => .throw .exception

/-- `getpb` into a new object, whose value is read with its type; `CachePool.cc:716–744`. -/
def getpb {α : Type} (read : Option RedisValue → Option α) (conn : Option Handle) (key : String) :
    Op α := do
  match read (← get conn key) with
  | some a => pure a
  -- a string made of `nullptr`
  | none => .throw .exception

/-- Whether the returned string is empty, and the object. -/
def getpbHongbao (wire : Wire) : Option Handle → String → Op (Bool × SendHongbao) :=
  getpb (hongbaoRead wire)

def getpbSession (wire : Wire) : Option Handle → String → Op Session := getpb (sessionRead wire)

def getpbUserInfo (wire : Wire) : Option Handle → String → Op UserInfo := getpb (userInfoRead wire)

/-- `CachePool.cc:746–772`. -/
def setpb (fmt : Format) (conn : Option Handle) (key : String) (timeout : Int)
    (value : RedisValue) : Op Unit := do
  deref conn
  match fmt.store value with
  | some v => issue (.setex key timeout v)
  | none => .throw .overrun

/-- `CachePool.cc:225–248`. -/
def del (conn : Option Handle) (key : String) : Op Unit := do
  deref conn
  issue (.del key)

end CacheConn

/-! ### `RedisLock` -/

structure RedisLock where
  cacheconn : Option Handle
  key : String
  expiretime : Int
  locked : Bool := false
  lockTimestamp : Int := 0

namespace RedisLock

/-- `RedisLock.h:49–53`. -/
def getLockKey (key : String) : String := key ++ "_Lock"

/-- `std::stoi` of a string value. -/
def stoi (wire : Wire) (value : Option RedisValue) : Op Int :=
  match readsAs wire value with
  | some t => pure t
  | none => .throw .exception

/-- `RedisLock.h:57–79`. -/
def tryLock (l : RedisLock) (time : Int) : Op RedisLock := do
  if l.locked then pure l
  else
    deref l.cacheconn
    let value ← issue (.setnx (getLockKey l.key) time)
    if value = 1 then pure { l with locked := true } else pure l

/-- `RedisLock.h:112–148`. What is read and set when the lock is taken is `key`, not the
lock key. -/
def lock (wire : Wire) (l : RedisLock) : Op RedisLock := do
  let now : Nat ← issue .time
  let uiCurTime : Nat := now % 2 ^ 32
  let time := wrap 32 (uiCurTime + l.expiretime + 1)
  let l ← l.tryLock time
  if l.locked then pure { l with lockTimestamp := time }
  else
    let value ← CacheConn.get l.cacheconn l.key
    let stamp ← stoi wire value
    if unsigned 32 stamp < uiCurTime then
      let value ← issue (.getset l.key time)
      let stamp ← stoi wire value
      if unsigned 32 stamp < uiCurTime then
        pure { l with locked := true, lockTimestamp := stamp }
      else pure { l with lockTimestamp := stamp }
    else pure { l with lockTimestamp := stamp }

/-- `RedisLock.h:92–110`. -/
def unlock (l : RedisLock) : Op Unit :=
  if l.locked then CacheConn.del l.cacheconn (getLockKey l.key) else pure ()

end RedisLock

/-! ### Registering -/

/-- Look the name up, on a connection of its own; `BaseBusiness.cc:128–158`. The text of the query
is `Query.checkDuplication`; `textServer` gives it to MySQL. -/
def checkDuplication (info : Register) : Op Int := do
  let ml ← issue .getConnection
  let ret ← (if ml = none then pure (-1) else do
    match ← issue (.queryName info.username) with
    | none => pure (-1)
    | some rows => pure (if 0 < rows.length then -1 else 0))
  issue (.releaseConnection ml)
  return ret

/-- The row a request asks for; `BaseBusiness.cc:95–107`. What MySQL makes of the text is a matter
of `Statement.Meant`. -/
def newUser (info : Register) (amounts : Amounts := .cents) : IMUser where
  sex := info.sex
  age := wrap 32 info.age
  name := info.username
  nick := info.nickname
  password := info.password
  phone := info.mobile
  email := info.email
  created := info.timestamp
  signInfo := info.signInfo
  money := amounts.opening

/-- `BaseBusiness.cc:77–126`. The texts are assigned to the result, which they make true, so
that a name in use is answered like a success and no text is ever sent. The text of the insertion is
`Query.register`. -/
def register (info : Register) (amounts : Amounts := .cents) : Op (Int × Response) := do
  let ml ← issue .getConnection
  let repeated ← checkDuplication info
  let registerResult ← (if repeated ≠ 0 then pure true else do
    deref ml
    let ret ← issue (.execute (.insertUser (newUser info amounts)))
    pure (ret = 0))
  issue (.releaseConnection ml)
  return (if registerResult then 0 else -1, { result := registerResult, description := "" })

/-! ### Logging in -/

/-- The key of a session; `BaseBusiness.cc:327`. -/
def sessionKey (username : String) : String := username ++ "_session"

/-- The session made of the first row of the result; `BaseBusiness.cc:330–346`. The table has
no columns `passwd`, `createtime` and `updatetime`: they read as the empty string. -/
def newSession (username : String) (row : IMUser) (amounts : Amounts := .cents) : Session where
  islogin := true
  hashkey := djbHash username
  redisname := redisname username
  userinfo :=
    { id := wrap 32 row.id, sex := wrap 32 row.sex, age := wrap 32 row.age, name := row.name,
      nick := row.nick, phone := "", email := row.email, createtime := 0, updatetime := 0,
      signInfo := row.signInfo, money := amounts.atof row.money }

/-- The part that ends early with `break`: result, description and Redis connection;
`BaseBusiness.cc:284–348`. -/
def loginChecked (login : Login) (manager : Bool) (ml : Option Handle)
    (fmt : Format := plainWire) : Op (Bool × String × Option Handle) := do
  if ml = none ∨ manager = false then return (false, "server error", none)
  match ← issue (.queryLogin login.username login.password) with
  | none => return (false, "server error", none)
  | some [] => return (false, "Login failed! username or password not matched!", none)
  | some (row :: _) =>
    let conn ← getCacheConn manager login.username
    if conn = none then return (true, "Login success!", none)
    CacheConn.setpb fmt conn (sessionKey login.username) (86400 * 2)
      (.session (newSession login.username row fmt.toAmounts))
    return (true, "Login success!", conn)

/-- `BaseBusiness.cc:270–357`. -/
def login (login : Login) (fmt : Format := plainWire) : Op (Int × Response) := do
  let ml ← issue .getConnection
  let manager ← issue .getInstance
  let (loginResult, loginInfo, conn) ← loginChecked login manager ml fmt
  relCacheConn manager conn
  issue (.releaseConnection ml)
  return (if loginResult then 0 else -1, { result := loginResult, description := loginInfo })

/-- `BaseBusiness.cc:360–393`; what is read is not used. -/
def getFriendInfo (wire : Wire) (reqinfo : GetFriendInfo) : Op Int := do
  let ml ← issue .getConnection
  let manager ← issue .getInstance
  let conn ← getCacheConn manager reqinfo.sender
  if conn = none then return 0
  let _ ← CacheConn.getpbUserInfo wire conn (sessionKey reqinfo.sender)
  relCacheConn manager conn
  issue (.releaseConnection ml)
  return 0

/-! ### Messages for users who are offline -/

/-- The key of the list of messages for a user; `BaseBusiness.cc:186`, `249`. -/
def messageKey (username : String) : String := username ++ "_message"

/-- What is pushed for a message; `BaseBusiness.cc:250–257`. -/
def cachedBytes (wire : Wire) (message : SingleChat) : List UInt8 :=
  cString (replaceFromZero (wire.serializeChat message) (wire.serializeChat message).length)

/-- `BaseBusiness.cc:221–267`. -/
def cacheMessage (wire : Wire) (username : String) (message : SingleChat) : Op Int := do
  let manager ← issue .getInstance
  let conn ← getCacheConn manager username
  if conn = none then
    relCacheConn manager conn
    return -1
  let _ ← issue (.lpush (messageKey username) (cachedBytes wire message))
  relCacheConn manager conn
  return 0

/-- `Server::send`; `Server.h:85–93`. -/
def serverSend (username : String) (message : Outgoing) : Op Unit := do
  match ← issue (.getConnByUsername username) with
  | some conn => issue (.send conn message)
  | none => pure ()

/-- Send messages until one does not parse; `BaseBusiness.cc:193–212`. -/
def sendAll (wire : Wire) (username : String) : List (List UInt8) → Int → Op Int
  | [], ret => pure ret
  | c :: msgs, ret => do
    match wire.parseChat (replaceToZero c) with
    | none => pure (-1)
    | some chat =>
      serverSend username (.chat chat)
      sendAll wire username msgs ret

/-- `BaseBusiness.cc:160–219`. -/
def sendCacheMessage (wire : Wire) (username : String) : Op Int := do
  let manager ← issue .getInstance
  let conn ← getCacheConn manager username
  if conn = none then
    relCacheConn manager conn
    return -1
  let ret ← match ← issue (.lrange (messageKey username) 0 (-1)) with
    | some msgs => sendAll wire username msgs 0
    | none => pure (-1)
  relCacheConn manager conn
  return ret

/-! ### Red packets -/

/-- `BaseBusiness.cc:623–627`. -/
def rand (n m : Int) : Op Int := do
  let _ ← issue .time
  let r : Nat ← issue .rand
  pure ((r : Int) % (m - n + 1) + n)

/-- The share a draw gives; `BaseBusiness.cc:502`. -/
def drawnMoney (remainMoney leftPacksize draw : Int) : Int :=
  ((wrap 32 (remainMoney * draw)).tdiv 100).tdiv leftPacksize

/-- `BaseBusiness.cc:484–505`. -/
def getRandomMoney (remainMoney leftPacksize : Int) (amounts : Amounts := .cents) : Op Int := do
  if leftPacksize = 0 then pure 0
  else if amounts.traps remainMoney leftPacksize then .throw .trap
  else if remainMoney.tdiv leftPacksize = 1 then pure (remainMoney.tdiv leftPacksize)
  else if leftPacksize = 1 then pure remainMoney
  else
    let draw ← rand 1 199
    pure (drawnMoney remainMoney leftPacksize draw)

/-- The packet a request asks for; `BaseBusiness.cc:398–406`. -/
def newHongbao (req : Hongbaoreq) : SendHongbao where
  sender := req.sender
  money := req.money
  leftmoney := req.money
  leftcount := req.count
  count := req.count
  receiver := req.receiver
  category := req.category
  timestamp := req.timestamp

/-- The key of a packet sent at a time; `BaseBusiness.cc:457–459`. -/
def hongbaoKey (sender : String) (now : Nat) : String :=
  sender ++ "_" ++ toString (now % 2 ^ 32) ++ "_HBcount"

/-- `BaseBusiness.cc:396–480`. -/
def sendHongbao (fmt : Format) (req : Hongbaoreq) : Op (Int × HongbaoResp) := do
  let hongbao := newHongbao req
  let manager ← issue .getInstance
  let conn ← getCacheConn manager hongbao.sender
  if conn = none then return (-1, {})
  let session ← CacheConn.getpbSession fmt.toWire conn (sessionKey hongbao.sender)
  let ml ← issue .getConnection
  if ml = none then return (-1, {})
  if fmt.short session.userinfo.money hongbao.money then
    return (-1, { isok := false, description := "money not enough" })
  let _ ← issue (.execute (fmt.statement hongbao.money fun money =>
    .addMoney (-money) session.userinfo.name))
  let now : Nat ← issue .time
  let key := hongbaoKey hongbao.sender now
  CacheConn.setpb fmt conn key 90000 (.hongbao hongbao)
  let _ ← issue (.execute (fmt.statement hongbao.money fun money => .insertHongbao
    { hbkey := key, sender := hongbao.sender, money := money,
      category := wrap 32 hongbao.category, count := wrap 32 hongbao.count,
      receiver := hongbao.receiver, time := hongbao.timestamp }))
  issue (.runAfter 6 key hongbao.sender)
  relCacheConn manager conn
  issue (.releaseConnection ml)
  return (0, { isok := true, sender := hongbao.sender, hongbaokey := key,
               description := "send ok" })

/-- The packet after a share has been taken; `BaseBusiness.cc:580–592`. -/
def takeShare (hongbao : SendHongbao) (name : String) (getmoney time : Int)
    (amounts : Amounts := .cents) : SendHongbao :=
  let leftcount := wrap 32 hongbao.leftcount
  { hongbao with
    leftmoney := amounts.sub hongbao.leftmoney (amounts.ofCents getmoney)
    leftcount := if leftcount ≠ 0 then wrap 32 (leftcount - 1) else 0
    robitem := hongbao.robitem ++
      [{ name := name, money := amounts.ofCents getmoney, time := time }]
    -- the numbers of `leftmoney` and `leftcount`
    unset := hongbao.unset.filter fun n => n ≠ 3 && n ≠ 6 }

/-- An answer that refuses a request; `BaseBusiness.cc:517–520` and the like. -/
def refuseRob (req : ReqRobHongbao) (description : String) : RespRobHongbao :=
  { hongbaokey := req.hongbaokey, sender := req.sender, isok := false,
    description := description }

/-- What is done under the lock; `BaseBusiness.cc:538–613`, and the return of the connections
where it goes on to that. -/
def robLocked (fmt : Format) (req : ReqRobHongbao) (manager : Bool) (ml conn : Option Handle)
    (lock : RedisLock) : Op (Int × RespRobHongbao) := do
  let (empty, hongbao) ← CacheConn.getpbHongbao fmt.toWire conn req.hongbaokey
  if empty then
    lock.unlock
    return (0, refuseRob req "sorry redpacket expired")
  if hongbao.robitem.any (·.name = req.selfname) then
    lock.unlock
    return (0, refuseRob req "you have robed")
  if hongbao.leftcount = 0 then
    lock.unlock
    return (0, refuseRob req "sorry The red packets are gone")
  let getmoney ← getRandomMoney (fmt.toCents hongbao.leftmoney) (wrap 32 hongbao.leftcount)
    fmt.toAmounts
  let time : Nat ← issue .time
  let taken := takeShare hongbao req.selfname getmoney time fmt.toAmounts
  CacheConn.setpb fmt conn req.hongbaokey 86400 (.hongbao taken)
  deref ml
  let _ ← issue (.execute (fmt.statement (fmt.ofCents getmoney) fun money =>
    .addMoney money req.selfname))
  lock.unlock
  relCacheConn manager conn
  issue (.releaseConnection ml)
  return (0, { hongbaokey := req.hongbaokey, sender := req.sender, robmoney := fmt.ofCents getmoney,
               totalcount := hongbao.count, leftcount := taken.leftcount, isok := true,
               description := "congratulation" })

/-- `BaseBusiness.cc:508–621`. -/
def robHongbao (fmt : Format) (req : ReqRobHongbao) : Op (Int × RespRobHongbao) := do
  if req.hongbaokey = "" then return (-1, refuseRob req "hongbao key is NULL")
  let ml ← issue .getConnection
  let manager ← issue .getInstance
  let conn ← getCacheConn manager req.sender
  let lock ← RedisLock.lock fmt.toWire ⟨conn, req.hongbaokey, 50000, false, 0⟩
  if lock.locked then robLocked fmt req manager ml conn lock
  else
    relCacheConn manager conn
    issue (.releaseConnection ml)
    return (0, {})

/-- `BaseBusiness.cc:30–75`. -/
def stopRobHongbao (fmt : Format) (key sender : String) : Op Unit := do
  let manager ← issue .getInstance
  let conn ← getCacheConn manager sender
  let (_, hongbao) ← CacheConn.getpbHongbao fmt.toWire conn key
  CacheConn.del conn key
  let ml ← issue .getConnection
  if ml = none then return ()
  let _ ← issue (.execute (fmt.statement hongbao.leftmoney fun leftmoney =>
    .updateHongbao leftmoney (wrap 32 hongbao.leftcount) hongbao key))
  if hongbao.leftcount ≠ 0 then
    let _ ← issue (.execute (fmt.statement hongbao.leftmoney fun leftmoney =>
      .addMoney leftmoney hongbao.sender))
  relCacheConn manager conn
  issue (.releaseConnection ml)

end IMServer.Business
