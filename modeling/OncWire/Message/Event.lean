import OncWire.Enumeration

/-!
# Events

What a reader or writer of messages tells an observer.  Each event is kept with
what it is about; its level, its message and its fields as text are computed
from that.
-/

namespace OncWire

/-- How much an event matters. -/
inductive Level
  | trace
  | debug
  deriving DecidableEq, Repr

/-- The name of a level. -/
def Level.label : Level → String
  | trace => "TRACE"
  | debug => "DEBUG"

/-- Something an observer is told. -/
inductive Event
  /-- The header of a call was read and accepted. -/
  | callDecoded (xid prog vers proc : UInt32)
  /-- The header of a reply was read and accepted. -/
  | replyDecoded (xid : UInt32) (stat : ReplyStat)
  /-- A header was read that goes in the other direction. -/
  | unexpectedMessageType (xid : UInt32) (expected got : MsgType)
  /-- A call carries a credential or verifier with too long a body. -/
  | oversizedAuthBody (xid : UInt32) (length : Nat)
  /-- A credential that was to be opened has another flavor. -/
  | notAuthSys (flavor : AuthFlavor)
  /-- The header of an accepted reply is about to be written. -/
  | writingAcceptedReply (xid : UInt32) (status : AcceptStat)
  deriving DecidableEq, Repr

namespace Event

/-- The level of an event. -/
def level : Event → Level
  | callDecoded .. | replyDecoded .. | writingAcceptedReply .. => .trace
  | unexpectedMessageType .. | oversizedAuthBody .. | notAuthSys .. => .debug

/-- The message of an event. -/
def message : Event → String
  | callDecoded .. => "decoded call header"
  | replyDecoded .. => "decoded reply header"
  | unexpectedMessageType .. => "unexpected message type"
  | oversizedAuthBody .. => "oversized auth body"
  | notAuthSys .. => "credential is not AUTH_SYS"
  | writingAcceptedReply .. => "writing accepted reply header"

/-- The names and texts of the fields of an event. -/
def fields : Event → List (String × String)
  | callDecoded xid prog vers proc =>
    [("xid", toString xid), ("prog", toString prog), ("vers", toString vers),
      ("proc_", toString proc)]
  | replyDecoded xid stat => [("xid", toString xid), ("stat", Enumerated.label stat)]
  | unexpectedMessageType xid expected got =>
    [("xid", toString xid), ("expected", Enumerated.label expected),
      ("got", Enumerated.label got)]
  | oversizedAuthBody xid length => [("xid", toString xid), ("len", toString length)]
  | notAuthSys flavor => [("flavor", Enumerated.label flavor)]
  | writingAcceptedReply xid status =>
    [("xid", toString xid), ("status", Enumerated.label status)]

end Event

/-- A result together with the events on the way to it. -/
structure Traced (α : Type) where
  /-- The events, in the order in which they happened. -/
  events : List Event
  /-- The result. -/
  result : α

end OncWire
