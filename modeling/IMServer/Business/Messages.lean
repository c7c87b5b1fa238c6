import IMServer.Base.Bytes

/-!
# Messages

The messages of `server/proto/IM.proto` that the business functions read and write. A `double`
is an `Int`, which a format of amounts reads: as whole cents, or as the 64 bits of the number.
Absent optional fields have the protobuf default. A packet is parsed, changed and serialised
again, so it also keeps which of its fields are absent and what it does not know.
-/

namespace IMServer.Business

/-- `IM.proto:8–13`. -/
structure Login where
  username : String := ""
  password : String := ""
  timestamp : Int := 0
  deriving DecidableEq, Repr

/-- `IM.proto:16–27`. -/
structure Register where
  username : String := ""
  password : String := ""
  mobile : String := ""
  nickname : String := ""
  sex : Int := 0
  age : Int := 0
  timestamp : Int := 0
  signInfo : String := ""
  email : String := ""
  deriving DecidableEq, Repr

/-- `IM.proto:44–52`. -/
structure Hongbaoreq where
  sender : String := ""
  money : Int := 0
  category : Int := 0
  count : Int := 0
  receiver : String := ""
  timestamp : Int := 0
  deriving DecidableEq, Repr

/-- `IM.proto:56–62`. -/
structure HongbaoResp where
  hongbaokey : String := ""
  sender : String := ""
  isok : Bool := false
  description : String := ""
  deriving DecidableEq, Repr

/-- `IM.proto:65–70`. -/
structure ReqRobHongbao where
  hongbaokey : String := ""
  sender : String := ""
  selfname : String := ""
  deriving DecidableEq, Repr

/-- `IM.proto:73–82`. -/
structure RespRobHongbao where
  hongbaokey : String := ""
  sender : String := ""
  robmoney : Int := 0
  totalcount : Int := 0
  leftcount : Int := 0
  isok : Bool := false
  description : String := ""
  deriving DecidableEq, Repr

/-- `IM.proto:30–41`. -/
structure SingleChat where
  receiver : String := ""
  sender : String := ""
  type : Int := 0
  message : String := ""
  hbreq : Hongbaoreq := {}
  hbrsp : HongbaoResp := {}
  robhbreq : ReqRobHongbao := {}
  robhbrsp : RespRobHongbao := {}
  timestamp : Int := 0
  deriving DecidableEq, Repr

/-- `IM.proto:103–108`. -/
structure GetFriendInfo where
  sender : String := ""
  friend : String := ""
  timestamp : Int := 0
  deriving DecidableEq, Repr

/-- `IM.proto:130–134`. -/
structure Response where
  result : Bool := false
  description : String := ""
  deriving DecidableEq, Repr

/-- `IM.proto:148–161`. -/
structure UserInfo where
  id : Int := 0
  sex : Int := 0
  age : Int := 0
  name : String := ""
  nick : String := ""
  phone : String := ""
  email : String := ""
  createtime : Int := 0
  updatetime : Int := 0
  signInfo : String := ""
  money : Int := 0
  deriving DecidableEq, Repr

/-- `IM.proto:138–145`. -/
structure Session where
  islogin : Bool := false
  hashkey : Int := 0
  ip : String := ""
  redisname : String := ""
  userinfo : UserInfo := {}
  deriving DecidableEq, Repr

/-- One share taken from a packet; `IM.proto:178–183`. -/
structure RobLog where
  name : String := ""
  money : Int := 0
  time : Int := 0
  /-- The numbers of the fields that are absent. -/
  unset : List Nat := []
  /-- The serialisation of the fields that the message type does not have. -/
  unknown : List UInt8 := []
  deriving DecidableEq, Repr

/-- A red packet; `IM.proto:164–175`. -/
structure SendHongbao where
  sender : String := ""
  money : Int := 0
  leftmoney : Int := 0
  category : Int := 0
  count : Int := 0
  leftcount : Int := 0
  receiver : String := ""
  robitem : List RobLog := []
  timestamp : Int := 0
  /-- The numbers of the fields that are absent. -/
  unset : List Nat := []
  /-- The serialisation of the fields that the message type does not have. -/
  unknown : List UInt8 := []
  deriving DecidableEq, Repr

/-- What the server sends on a connection. -/
inductive Outgoing where
  | response (m : Response)
  | chat (m : SingleChat)
  | hongbaoResp (m : HongbaoResp)
  | robHongbaoResp (m : RespRobHongbao)
  deriving DecidableEq, Repr

end IMServer.Business
