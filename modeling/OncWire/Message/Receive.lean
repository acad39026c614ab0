import OncWire.Message

/-!
# Receiving headers

Whoever receives a call or a reply reads its header, sees whether it goes in
the right direction and carries credentials of an allowed length, and hands on
the bytes that follow it.  A header that can be read but is turned away leaves
the same bytes as one that is accepted.
-/

namespace OncWire

/-- The verdict on a header that could be read: the events that report it, and the fault for
which it is turned away, if it is. -/
structure Verdict where
  /-- The events. -/
  events : List Event
  /-- Why the header is turned away. -/
  fault : Option Fault

/-- Reads a header and passes a verdict on it. -/
def receive {α : Type} [Wire α] (lim : Limits) (judge : α → Verdict) (input : Bytes) :
    Traced (Reading α) :=
  match Wire.decode lim input with
  | .error f rest => ⟨[], .error f rest⟩
  | .ok header rest =>
    let verdict := judge header
    match verdict.fault with
    | none => ⟨verdict.events, .ok header rest⟩
    | some f => ⟨verdict.events, .error f rest⟩

/-- The verdict on a call.  It has to be one by its direction, and then the credential and after
it the verifier has to have a body of an allowed length. -/
def CallMessage.verdict (m : CallMessage) : Verdict :=
  if m.mtype ≠ .call then
    ⟨[.unexpectedMessageType m.xid .call m.mtype], some (.unexpectedMessageType .call m.mtype)⟩
  else
    match [m.body.cred, m.body.verf].find? (·.oversize?.isSome) with
    | some auth => ⟨[.oversizedAuthBody m.xid auth.body.length], auth.oversize?⟩
    | none => ⟨[.callDecoded m.xid m.body.prog m.body.vers m.body.proc], none⟩

/-- The verdict on a reply.  It has to be one by its direction, and then the verifier of an
accepted call has to have a body of an allowed length. -/
def ReplyMessage.verdict (m : ReplyMessage) : Verdict :=
  if m.mtype ≠ .reply then
    ⟨[.unexpectedMessageType m.xid .reply m.mtype], some (.unexpectedMessageType .reply m.mtype)⟩
  else
    let oversize? := match m.body with
      | .accepted reply => reply.verf.oversize?
      | .denied _ => none
    match oversize? with
    | some f => ⟨[], some f⟩
    | none => ⟨[.replyDecoded m.xid m.body.discriminant], none⟩

/-- Receives a call. -/
def decodeCall (lim : Limits) (input : Bytes) : Traced (Reading CallMessage) :=
  receive lim CallMessage.verdict input

/-- Receives a reply. -/
def decodeReply (input : Bytes) : Traced (Reading ReplyMessage) :=
  receive .none ReplyMessage.verdict input

end OncWire
