import OncWire.Message.Reply

/-!
# Acknowledging a call

Most replies accept a call and carry an empty verifier.  Their header has a
fixed length and is laid out directly: the number of the call, the direction,
the acceptance, the flavor and the length of the verifier, the outcome.
-/

namespace OncWire

/-- The length of the header of an accepted reply with an empty verifier. -/
def acceptedReplyLength : Nat := 24

/-- The header of an accepted reply with an empty verifier. -/
def acceptedHeader (status : AcceptStat) (xid : UInt32) : Bytes :=
  [xid, Enumerated.code MsgType.reply, Enumerated.code ReplyStat.accepted,
    Enumerated.code AuthFlavor.none, 0, Enumerated.code status].flatMap wordBytes

/-- The header of the reply to a call that succeeded. -/
def successReply (xid : UInt32) : Bytes := acceptedHeader .success xid

@[simp] theorem length_acceptedHeader (status : AcceptStat) (xid : UInt32) :
    (acceptedHeader status xid).length = acceptedReplyLength := by
  simp [acceptedHeader, acceptedReplyLength]

example : successReply 42 =
    [0, 0, 0, 42, 0, 0, 0, 1, 0, 0, 0, 0, 0, 0, 0, 0, 0, 0, 0, 0, 0, 0, 0, 0] := by decide

end OncWire
