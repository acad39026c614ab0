import OncWire.Message.Call

/-!
# Replies

The header of a reply: the number of the call, the direction, and either the
outcome of an accepted call or the reason why it was denied.  The results of
the procedure follow the header and are no part of it.
-/

namespace OncWire

/-! ### Bodies -/

/-- The versions that a server supports. -/
structure MismatchInfo where
  /-- The lowest one. -/
  low : UInt32
  /-- The highest one. -/
  high : UInt32
  deriving DecidableEq, Repr

instance : Wire MismatchInfo where
  shape := .record "MismatchInfo" (.fields [.uint32, .uint32])
  toVal i := (i.low, i.high, ())
  ofVal := fun (low, high, ()) => ⟨low, high⟩
  ofVal_toVal _ := rfl

/-- The outcome of an accepted call. -/
structure AcceptedReply where
  /-- The verifier of the server. -/
  verf : OpaqueAuth
  /-- How the call ended. -/
  stat : AcceptStat
  deriving DecidableEq, Repr

instance : Wire AcceptedReply where
  shape := .record "AcceptedReply" (.fields [Wire.shape OpaqueAuth, .enumeration .acceptStat])
  toVal r := (Wire.toVal r.verf, r.stat, ())
  ofVal := fun (verf, stat, ()) => ⟨Wire.ofVal verf, stat⟩
  ofVal_toVal _ := rfl

/-- Why a call was denied. -/
inductive RejectedReply
  /-- The server does not speak the version of the protocol. -/
  | rpcMismatch (info : MismatchInfo)
  /-- The server does not accept the credentials. -/
  | authError (stat : AuthStat)
  deriving DecidableEq, Repr

/-- The reason as a member of its enumeration. -/
def RejectedReply.discriminant : RejectedReply → RejectStat
  | rpcMismatch _ => .rpcMismatch
  | authError _ => .authError

instance : Wire RejectedReply where
  shape := .union (.enumeration .rejectStat) fun
    | RejectStat.rpcMismatch => Wire.shape MismatchInfo
    | RejectStat.authError => .enumeration .authStat
  toVal
    | .rpcMismatch info => ⟨RejectStat.rpcMismatch, Wire.toVal info⟩
    | .authError stat => ⟨RejectStat.authError, stat⟩
  ofVal
    | ⟨RejectStat.rpcMismatch, info⟩ => .rpcMismatch (Wire.ofVal info)
    | ⟨RejectStat.authError, stat⟩ => .authError stat
  ofVal_toVal r := by cases r <;> rfl

/-- What a server answers. -/
inductive ReplyBody
  /-- The call was taken up. -/
  | accepted (reply : AcceptedReply)
  /-- The call was denied. -/
  | denied (reply : RejectedReply)
  deriving DecidableEq, Repr

/-- Whether the call was taken up, as a member of its enumeration. -/
def ReplyBody.discriminant : ReplyBody → ReplyStat
  | accepted _ => .accepted
  | denied _ => .denied

instance : Wire ReplyBody where
  shape := .union (.enumeration .replyStat) fun
    | ReplyStat.accepted => Wire.shape AcceptedReply
    | ReplyStat.denied => Wire.shape RejectedReply
  toVal
    | .accepted reply => ⟨ReplyStat.accepted, Wire.toVal reply⟩
    | .denied reply => ⟨ReplyStat.denied, Wire.toVal reply⟩
  ofVal
    | ⟨ReplyStat.accepted, reply⟩ => .accepted (Wire.ofVal reply)
    | ⟨ReplyStat.denied, reply⟩ => .denied (Wire.ofVal reply)
  ofVal_toVal b := by
    cases b with
    | accepted reply => rfl
    | denied reply => cases reply <;> rfl

/-! ### Headers -/

/-- The header of a reply. -/
structure ReplyMessage where
  /-- The number of the call. -/
  xid : UInt32
  /-- The direction, which in a genuine reply is that of a reply. -/
  mtype : MsgType
  /-- What the server answers. -/
  body : ReplyBody
  deriving DecidableEq, Repr

instance : Wire ReplyMessage where
  shape := .record "RpcMsgReply" (.fields [.uint32, .enumeration .msgType, Wire.shape ReplyBody])
  toVal m := (m.xid, m.mtype, Wire.toVal m.body, ())
  ofVal := fun (xid, mtype, body, ()) => ⟨xid, mtype, Wire.ofVal body⟩
  ofVal_toVal m := congrArg (ReplyMessage.mk m.xid m.mtype) (Wire.ofVal_toVal m.body)

namespace ReplyMessage

/-- The header of a genuine reply. -/
def new (xid : UInt32) (body : ReplyBody) : ReplyMessage := ⟨xid, .reply, body⟩

/-- An accepted call, with an empty verifier. -/
def accepted (xid : UInt32) (stat : AcceptStat) : ReplyMessage :=
  new xid (.accepted ⟨.none, stat⟩)

/-- A denied call, because only one version of the protocol is spoken here. -/
def rpcMismatch (xid : UInt32) : ReplyMessage :=
  new xid (.denied (.rpcMismatch ⟨rpcVersion, rpcVersion⟩))

/-- A denied call, because of its credentials. -/
def authError (xid : UInt32) (stat : AuthStat) : ReplyMessage :=
  new xid (.denied (.authError stat))

end ReplyMessage

end OncWire
