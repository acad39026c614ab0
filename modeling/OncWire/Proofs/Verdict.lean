import Mathlib.Tactic.Common
import OncWire.Proofs.Locality

/-!
# What becomes of a header

A header that can be read is accepted or turned away by a verdict, and in both cases
the bytes after it are left.  The faults of the two verdicts are written out here as
the checks that they consist of, in the order in which they are made.
-/

namespace OncWire

section Receive

variable {α : Type} [Wire α] {lim : Limits} {judge : α → Verdict} {b r : Bytes} {a : α}

/-- A header that can be read is accepted unless the verdict has a fault. -/
lemma result_receive_of_ok (h : Wire.decode lim b = .ok a r) :
    (receive lim judge b).result =
      match (judge a).fault with
      | none => .ok a r
      | some f => .error f r := by
  have hrun := congrFun (result_receive lim judge) b
  refine hrun.trans ((Decoder.bind_of_ok h).trans ?_)
  cases (judge a).fault with
  | none => rfl
  | some f => rfl

/-- A header that cannot be read is not judged. -/
lemma result_receive_of_error {f : Fault} (h : (Wire.decode lim b : Reading α) = .error f r) :
    (receive lim judge b).result = .error f r :=
  (congrFun (result_receive lim judge) b).trans (Decoder.bind_of_error h)

/-- A header is accepted exactly when it can be read and the verdict has no fault. -/
lemma result_receive_eq_ok_iff :
    (receive lim judge b).result = .ok a r ↔
      Wire.decode lim b = .ok a r ∧ (judge a).fault = none := by
  constructor
  · intro h
    have hrun := (congrFun (result_receive lim judge) b).symm.trans h
    obtain ⟨a', q, hread, hjudge⟩ := Decoder.bind_eq_ok_iff.mp hrun
    cases hfault : (judge a').fault with
    | none =>
      rw [hfault] at hjudge
      cases hjudge
      exact ⟨hread, hfault⟩
    | some f =>
      rw [hfault] at hjudge
      cases hjudge
  · rintro ⟨hread, hfault⟩
    rw [result_receive_of_ok hread, hfault]

end Receive

/-- The fault of an oversized credential, if it is one, as a comparison of lengths. -/
lemma OpaqueAuth.oversize?_eq (a : OpaqueAuth) :
    a.oversize? =
      if 400 < a.body.length then some (.lengthOverflow 400 a.body.length) else Option.none := rfl

/-- A call is turned away for its direction, then for its credential, then for its verifier. -/
lemma CallMessage.fault_verdict (c : CallMessage) :
    c.verdict.fault =
      if c.mtype = .reply then some (.unexpectedMessageType .call .reply)
      else if 400 < c.body.cred.body.length then
        some (.lengthOverflow 400 c.body.cred.body.length)
      else if 400 < c.body.verf.body.length then
        some (.lengthOverflow 400 c.body.verf.body.length)
      else none := by
  have hcred := c.body.cred.oversize?_eq
  have hverf := c.body.verf.oversize?_eq
  unfold CallMessage.verdict
  cases hdir : c.mtype with
  | reply => simp
  | call =>
    by_cases hc : 400 < c.body.cred.body.length
    · rw [if_pos hc] at hcred
      simp [hcred, hc]
    · rw [if_neg hc] at hcred
      by_cases hv : 400 < c.body.verf.body.length
      · rw [if_pos hv] at hverf
        simp [hcred, hverf, hc, hv]
      · rw [if_neg hv] at hverf
        simp [hcred, hverf, hc, hv]

/-- A reply is turned away for its direction, then for the verifier of an accepted call. -/
lemma ReplyMessage.fault_verdict (c : ReplyMessage) :
    c.verdict.fault =
      if c.mtype = .call then some (.unexpectedMessageType .reply .call)
      else match c.body with
        | .accepted reply =>
          if 400 < reply.verf.body.length then some (.lengthOverflow 400 reply.verf.body.length)
          else none
        | .denied _ => none := by
  unfold ReplyMessage.verdict
  cases hdir : c.mtype with
  | call => simp
  | reply =>
    cases hbody : c.body with
    | denied reply => simp
    | accepted reply =>
      have hverf := reply.verf.oversize?_eq
      by_cases hv : 400 < reply.verf.body.length
      · rw [if_pos hv] at hverf
        simp [hverf, hv]
      · rw [if_neg hv] at hverf
        simp [hverf, hv]

/-- What becomes of a call that can be read. -/
lemma result_decodeCall_of_ok {lim : Limits} {b r : Bytes} {c : CallMessage}
    (h : Wire.decode lim b = .ok c r) : (decodeCall lim b).result =
      if c.mtype = .reply then .error (.unexpectedMessageType .call .reply) r
      else if 400 < c.body.cred.body.length then
        .error (.lengthOverflow 400 c.body.cred.body.length) r
      else if 400 < c.body.verf.body.length then
        .error (.lengthOverflow 400 c.body.verf.body.length) r
      else .ok c r := by
  rw [decodeCall, result_receive_of_ok h, CallMessage.fault_verdict]
  by_cases hdir : c.mtype = .reply
  · rw [if_pos hdir, if_pos hdir]
  · rw [if_neg hdir, if_neg hdir]
    by_cases hc : 400 < c.body.cred.body.length
    · rw [if_pos hc, if_pos hc]
    · rw [if_neg hc, if_neg hc]
      by_cases hv : 400 < c.body.verf.body.length
      · rw [if_pos hv, if_pos hv]
      · rw [if_neg hv, if_neg hv]

/-- What becomes of a reply that can be read. -/
lemma result_decodeReply_of_ok {b r : Bytes} {c : ReplyMessage}
    (h : Wire.decode .none b = .ok c r) : (decodeReply b).result =
      if c.mtype = .call then .error (.unexpectedMessageType .reply .call) r
      else match c.body with
        | .accepted reply =>
          if 400 < reply.verf.body.length then
            .error (.lengthOverflow 400 reply.verf.body.length) r
          else .ok c r
        | .denied _ => .ok c r := by
  rw [decodeReply, result_receive_of_ok h, ReplyMessage.fault_verdict]
  by_cases hdir : c.mtype = .call
  · rw [if_pos hdir, if_pos hdir]
  · rw [if_neg hdir, if_neg hdir]
    cases c.body with
    | denied reply => rfl
    | accepted reply =>
      by_cases hv : 400 < reply.verf.body.length
      · simp only [if_pos hv]
      · simp only [if_neg hv]

/-- A call is accepted exactly when it can be read, goes in the right direction and carries no
oversized credential or verifier. -/
lemma decodeCall_eq_ok_iff {lim : Limits} {b r : Bytes} {c : CallMessage} :
    (decodeCall lim b).result = .ok c r ↔
      Wire.decode lim b = .ok c r ∧ c.mtype = .call ∧ c.body.cred.body.length ≤ 400 ∧
        c.body.verf.body.length ≤ 400 := by
  rw [decodeCall, result_receive_eq_ok_iff, CallMessage.fault_verdict]
  refine and_congr_right fun _ => ?_
  cases hdir : c.mtype with
  | reply => simp
  | call =>
    by_cases hc : 400 < c.body.cred.body.length
    · simp [hc, Nat.not_le.mpr hc]
    · by_cases hv : 400 < c.body.verf.body.length
      · simp [hc, hv]
      · simp [hc, hv, Nat.not_lt.mp hc, Nat.not_lt.mp hv]

/-- A reply is accepted only if it can be read and goes in the right direction. -/
lemma decode_of_decodeReply {b r : Bytes} {c : ReplyMessage}
    (h : (decodeReply b).result = .ok c r) : Wire.decode .none b = .ok c r ∧ c.mtype = .reply := by
  rw [decodeReply, result_receive_eq_ok_iff, ReplyMessage.fault_verdict] at h
  refine ⟨h.1, ?_⟩
  cases hdir : c.mtype with
  | reply => rfl
  | call => simp [hdir] at h

end OncWire
