import Mathlib.Tactic.Common
import OncWire.Proofs.ReplyHeader

/-!
# How headers are reported

Whoever receives a header reports it by one event: at the level of a trace if the header
is accepted, at the level of debugging if it is turned away (`Traced.Reports`).  A header
that cannot be read is not reported, since not even its number is known.

The verdict on a call keeps to this in every case.  The verdict on a reply does not: an
accepted call with too long a body of its verifier is turned away without an event,
though the same body is reported in a call.  Every other reply is reported
(`headers_reported_once`).
-/

namespace OncWire

/-! ### Reports -/

/-- The only event of a verdict gives the number of the header, at the level of a trace if the
header is accepted and at that of debugging if it is turned away. -/
def Verdict.Reports (v : Verdict) (xid : UInt32) : Prop :=
  ∃ e, v.events = [e] ∧ ("xid", toString xid) ∈ e.fields ∧
    e.level = if v.fault = none then .trace else .debug

/-- The only event on the way to an outcome gives the number of a header, at the level of a trace if
the outcome is a header and at that of debugging if it is a fault. -/
def Traced.Reports {α : Type} (t : Traced (Reading α)) (xid : UInt32) : Prop :=
  ∃ e, t.events = [e] ∧ ("xid", toString xid) ∈ e.fields ∧
    e.level = match t.result with
      | .ok _ _ => .trace
      | .error _ _ => .debug

section Receive

variable {α : Type} [Wire α] {lim : Limits} {judge : α → Verdict} {b r : Bytes} {a : α}

/-- Where a header can be read the events are those of the verdict. -/
lemma events_receive_of_ok (h : Wire.decode lim b = .ok a r) :
    (receive lim judge b).events = (judge a).events := by
  rw [receive, h]
  cases hfault : (judge a).fault <;> simp only [hfault]

/-- A header that is turned away leaves the bytes after it. -/
lemma receive_of_refused {events : List Event} {f : Fault} (h : Wire.decode lim b = .ok a r)
    (hjudge : judge a = ⟨events, some f⟩) : receive lim judge b = ⟨events, .error f r⟩ := by
  rw [receive, h]
  simp only [hjudge]

/-- A header that cannot be read is not reported. -/
lemma events_receive_of_error {f : Fault} (h : (Wire.decode lim b : Reading α) = .error f r) :
    (receive lim judge b).events = [] := by
  rw [receive, h]

/-- A header that can be read is reported if the verdict reports it. -/
lemma reports_receive {xid : UInt32} (h : Wire.decode lim b = .ok a r)
    (hjudge : (judge a).Reports xid) : (receive lim judge b).Reports xid := by
  obtain ⟨e, hevents, hxid, hlevel⟩ := hjudge
  refine ⟨e, (events_receive_of_ok h).trans hevents, hxid, hlevel.trans ?_⟩
  rw [result_receive_of_ok h]
  cases (judge a).fault with
  | none => rfl
  | some f => rfl

end Receive

/-! ### Verdicts -/

/-- The verdict on a call reports it. -/
lemma CallMessage.reports_verdict (c : CallMessage) : c.verdict.Reports c.xid := by
  unfold CallMessage.verdict
  split
  · exact ⟨_, rfl, List.mem_cons_self, rfl⟩
  · split
    case h_1 auth hfind =>
      -- What was found is oversized, so there is a fault.
      have hsome := List.find?_some hfind
      obtain ⟨f, hf⟩ := Option.isSome_iff_exists.mp hsome
      refine ⟨_, rfl, List.mem_cons_self, ?_⟩
      rw [hf]
      rfl
    case h_2 => exact ⟨_, rfl, List.mem_cons_self, rfl⟩

namespace ReplyMessage

variable {c : ReplyMessage}

/-- An accepted call with too long a body of its verifier is turned away without an event. -/
lemma verdict_of_oversized (hdir : c.mtype = .reply) (h : 400 < c.body.verifierLength) :
    c.verdict = ⟨[], some (.lengthOverflow 400 c.body.verifierLength)⟩ := by
  obtain ⟨xid, mtype, body⟩ := c
  obtain rfl : mtype = .reply := hdir
  cases body with
  | denied reply => exact absurd h (by simp [ReplyBody.verifierLength])
  | accepted reply =>
    have hlen : 400 < reply.verf.body.length := h
    have hverf := reply.verf.oversize?_eq
    rw [if_pos hlen] at hverf
    simp [verdict, hverf, ReplyBody.verifierLength]

/-- The verdict on every other reply reports it. -/
lemma reports_verdict (h : c.mtype = .reply → c.body.verifierLength ≤ 400) :
    c.verdict.Reports c.xid := by
  obtain ⟨xid, mtype, body⟩ := c
  cases mtype with
  | call => exact ⟨_, rfl, List.mem_cons_self, rfl⟩
  | reply =>
    cases body with
    | denied reply => exact ⟨_, rfl, List.mem_cons_self, rfl⟩
    | accepted reply =>
      have hlen : ¬ 400 < reply.verf.body.length := Nat.not_lt.mpr (h rfl)
      have hverf := reply.verf.oversize?_eq
      rw [if_neg hlen] at hverf
      refine ⟨.replyDecoded xid .accepted, ?_, List.mem_cons_self, ?_⟩
      · simp [verdict, hverf, ReplyBody.discriminant]
      · simp [verdict, hverf, Event.level]

end ReplyMessage

/-! ### The law -/

/-- How headers and credentials are reported.

A call or a reply that cannot be read is not reported.  Every call that can be read is reported by
one event, which gives its number, at the level of a trace if the call is accepted and at that of
debugging if it is turned away, be it for its direction, its credential or its verifier.  It is the
same with every reply, except that no event reports one that is turned away for too long a body of
its verifier.

Where a credential is to be opened, one event at the level of debugging reports that it has another
flavor; one that has the right flavor is not reported. -/
theorem headers_reported_once (lim : Limits) (b : Bytes) (a : OpaqueAuth) :
    ((∀ f r, (Wire.decode lim b : Reading CallMessage) = .error f r →
        (decodeCall lim b).events = []) ∧
      ∀ (c : CallMessage) (r : Bytes), Wire.decode lim b = .ok c r →
        (decodeCall lim b).Reports c.xid) ∧
    ((∀ f r, (Wire.decode .none b : Reading ReplyMessage) = .error f r →
        (decodeReply b).events = []) ∧
      ∀ (c : ReplyMessage) (r : Bytes), Wire.decode .none b = .ok c r →
        if c.mtype = .reply ∧ 400 < c.body.verifierLength then
          (decodeReply b).events = [] ∧
            (decodeReply b).result = .error (.lengthOverflow 400 c.body.verifierLength) r
        else (decodeReply b).Reports c.xid) ∧
    if a.flavor = .sys then a.sysParms.events = []
    else ∃ e, a.sysParms.events = [e] ∧ e.level = .debug := by
  refine ⟨⟨fun f r hread => events_receive_of_error hread,
      fun c r hread => reports_receive hread c.reports_verdict⟩,
    ⟨fun f r hread => events_receive_of_error hread, fun c r hread => ?reply⟩, ?credential⟩
  case reply =>
    by_cases hsilent : c.mtype = .reply ∧ 400 < c.body.verifierLength
    · have hrun : decodeReply b = ⟨[], .error (.lengthOverflow 400 c.body.verifierLength) r⟩ :=
        receive_of_refused hread (ReplyMessage.verdict_of_oversized hsilent.1 hsilent.2)
      rw [if_pos hsilent, hrun]
      exact ⟨rfl, rfl⟩
    · have hverdict := ReplyMessage.reports_verdict fun hdir =>
        Nat.not_lt.mp fun hlt => hsilent ⟨hdir, hlt⟩
      rw [if_neg hsilent]
      exact reports_receive hread hverdict
  case credential =>
    by_cases hflavor : a.flavor = .sys
    · rw [if_pos hflavor, OpaqueAuth.sysParms, if_pos hflavor]
    · rw [if_neg hflavor, OpaqueAuth.sysParms, if_neg hflavor]
      exact ⟨_, rfl, rfl⟩

/-- A call is reported when it is accepted, and a reply as well.  Neither can be read as the other,
and then nothing is reported. -/
theorem headers_reported_once_call_and_reply :
    let call : Bytes := [0, 0, 0, 5, 0, 0, 0, 0, 0, 0, 0, 2, 0, 0, 0, 1, 0, 0, 0, 1, 0, 0, 0, 0,
      0, 0, 0, 0, 0, 0, 0, 0, 0, 0, 0, 0, 0, 0, 0, 0]
    let reply : Bytes := [0, 0, 0, 6, 0, 0, 0, 1, 0, 0, 0, 0, 0, 0, 0, 0, 0, 0, 0, 0, 0, 0, 0, 0]
    (Wire.decode .none call = .ok (CallMessage.new 5 (.new 1 1 0)) [] ∧
      (decodeCall .none call).Reports 5) ∧
    ((Wire.decode .none call : Reading ReplyMessage) = .error (.unmappedDiscriminant 2 "ReplyStat")
        (call.drop 12) ∧
      (decodeReply call).events = []) ∧
    (Wire.decode .none reply = .ok (ReplyMessage.accepted 6 .success) [] ∧
      (decodeReply reply).Reports 6) ∧
    (Wire.decode .none reply : Reading CallMessage) = .error .unexpectedEof [] ∧
      (decodeCall .none reply).events = [] := by
  intro call reply
  have hcall : Wire.decode .none call = .ok (CallMessage.new 5 (.new 1 1 0)) [] := by
    decide +kernel
  have hcall' : (Wire.decode .none call : Reading ReplyMessage) =
      .error (.unmappedDiscriminant 2 "ReplyStat") (call.drop 12) := by decide +kernel
  have hreply : Wire.decode .none reply = .ok (ReplyMessage.accepted 6 .success) [] := by
    decide +kernel
  have hreply' : (Wire.decode .none reply : Reading CallMessage) = .error .unexpectedEof [] := by
    decide +kernel
  obtain ⟨⟨-, hreport⟩, ⟨hsilent, -⟩, -⟩ := headers_reported_once .none call .none
  obtain ⟨⟨hsilent', -⟩, ⟨-, hreport'⟩, -⟩ := headers_reported_once .none reply .none
  exact ⟨⟨hcall, hreport _ _ hcall⟩, ⟨hcall', hsilent _ _ hcall'⟩, ⟨hreply, hreport' _ _ hreply⟩,
    hreply', hsilent' _ _ hreply'⟩

/-- A reply with a verifier of 401 bytes can be read and is turned away, and no event reports it.  A
call with the same verifier is reported. -/
theorem oversized_verifier_reported_in_calls_only :
    let verf : OpaqueAuth := ⟨.none, List.replicate 401 0⟩
    let auth : Bytes := [0, 0, 0, 0, 0, 0, 1, 145] ++ List.replicate 404 0
    let reply : Bytes := [0, 0, 0, 5, 0, 0, 0, 1, 0, 0, 0, 0] ++ auth ++ [0, 0, 0, 0]
    let call : Bytes := [0, 0, 0, 5, 0, 0, 0, 0, 0, 0, 0, 2, 0, 0, 0, 1, 0, 0, 0, 1, 0, 0, 0, 0,
      0, 0, 0, 0, 0, 0, 0, 0] ++ auth
    (Wire.decode .none reply = .ok (ReplyMessage.new 5 (.accepted ⟨verf, .success⟩)) [] ∧
      (decodeReply reply).result = .error (.lengthOverflow 400 401) [] ∧
      (decodeReply reply).events = [] ∧ ¬ (decodeReply reply).Reports 5) ∧
    (Wire.decode .none call = .ok (CallMessage.new 5 ((CallBody.new 1 1 0).withVerf verf)) [] ∧
      (decodeCall .none call).result = .error (.lengthOverflow 400 401) [] ∧
      (decodeCall .none call).events = [.oversizedAuthBody 5 401]) := by
  intro verf auth reply call
  have hevents : (decodeReply reply).events = [] := by decide +kernel
  have hsilent : ¬ (decodeReply reply).Reports 5 := by
    rintro ⟨e, he, -⟩
    rw [hevents] at he
    cases he
  refine ⟨⟨?_, ?_, hevents, hsilent⟩, ?_, ?_, ?_⟩ <;> decide +kernel

end OncWire
