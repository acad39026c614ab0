import OncWire.Message.Reply

/-!
# Messages in either direction

A peer that does not know yet whether a message is a call or a reply reads a
`Message`, whose direction selects its body.  Calls and replies are messages by
`Message.ofCall` and `Message.ofReply`, which go by the type of the header and
not by the direction written in it.
-/

namespace OncWire

/-- The body of a message in either direction. -/
inductive MessageBody
  | call (body : CallBody)
  | reply (body : ReplyBody)
  deriving DecidableEq, Repr

/-- The direction of a body. -/
def MessageBody.discriminant : MessageBody → MsgType
  | call _ => .call
  | reply _ => .reply

instance : Wire MessageBody where
  shape := .union (.enumeration .msgType) fun
    | MsgType.call => Wire.shape CallBody
    | MsgType.reply => Wire.shape ReplyBody
  toVal
    | .call body => ⟨MsgType.call, Wire.toVal body⟩
    | .reply body => ⟨MsgType.reply, Wire.toVal body⟩
  ofVal
    | ⟨MsgType.call, body⟩ => .call (Wire.ofVal body)
    | ⟨MsgType.reply, body⟩ => .reply (Wire.ofVal body)
  ofVal_toVal b := by
    cases b with
    | call body => rfl
    | reply body => exact congrArg MessageBody.reply (Wire.ofVal_toVal body)

/-- A message in either direction. -/
structure Message where
  /-- The number of the call. -/
  xid : UInt32
  /-- The body, and with it the direction. -/
  body : MessageBody
  deriving DecidableEq, Repr

instance : Wire Message where
  shape := .record "RpcMsg" (.fields [.uint32, Wire.shape MessageBody])
  toVal m := (m.xid, Wire.toVal m.body, ())
  ofVal := fun (xid, body, ()) => ⟨xid, Wire.ofVal body⟩
  ofVal_toVal m := congrArg (Message.mk m.xid) (Wire.ofVal_toVal m.body)

namespace Message

/-- A call as a message. -/
def ofCall (m : CallMessage) : Message := ⟨m.xid, .call m.body⟩

/-- A reply as a message. -/
def ofReply (m : ReplyMessage) : Message := ⟨m.xid, .reply m.body⟩

end Message

end OncWire
