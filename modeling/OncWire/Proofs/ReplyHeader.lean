import Mathlib.Tactic.Common
import OncWire.Proofs.CallHeader
import OncWire.Proofs.Canonical

/-!
# The header of a reply

A reply accepts a call or denies it, and a denial has one of two reasons, so a header
has one of three layouts (`ReplyMessage.form`).  Only the header of an accepted call
has a part of variable length, the body of the verifier of the server, and with it a
place for padding that is left open in the layout.

Each discriminant selects one layout, and no word stands for two discriminants.  A
reply is therefore read exactly where its own layout stands in front of the input
(`ReplyMessage.decode_eq_ok_iff`).  The direction and the greatest length of a
verifier are looked at only after that.
-/

namespace OncWire

/-- A member of an enumeration is read from its own code and from no other word. -/
lemma Word.decode_enumeration_eq_ok_iff {e : Enumeration} {m : e.Member} {w : UInt32} :
    Word.decode (.enumeration e) w = .ok m ↔ w = Enumerated.code m := by
  constructor
  · intro h
    have hcode : Word.encode (.enumeration e) m = .ok w := Word.encode_of_decode h
    exact (Except.ok.inj hcode).symm
  · rintro rfl
    exact Word.decode_of_encode rfl

namespace Shape

variable {lim : Limits} {b r : Bytes}

/-- A member of an enumeration is read exactly where its code stands in front. -/
lemma decode_enumeration_eq_ok_iff {e : Enumeration} {m : e.Member} :
    (enumeration e).decode lim b = .ok m r ↔ b = wordBytes (Enumerated.code m) ++ r := by
  rw [decode_word_eq_ok_iff]
  constructor
  · rintro ⟨x, hx, rfl⟩
    rw [Word.decode_enumeration_eq_ok_iff.mp hx]
  · rintro rfl
    exact ⟨_, Word.decode_enumeration_eq_ok_iff.mpr rfl, rfl⟩

/-- The arm of a member of an enumeration is read behind the code of that member. -/
lemma decode_switch_eq_ok_iff {e : Enumeration} {arm : e.Member → Shape}
    {v : (m : e.Member) × (arm m).Val} :
    (union (.enumeration e) arm).decode lim b = .ok v r ↔
      ∃ q, b = wordBytes (Enumerated.code v.1) ++ q ∧ (arm v.1).decode lim q = .ok v.2 r := by
  rw [decode_union_eq_ok_iff]
  constructor
  · rintro ⟨x, q, hx, rfl, hv⟩
    rw [Word.decode_enumeration_eq_ok_iff.mp hx]
    exact ⟨q, rfl, hv⟩
  · rintro ⟨q, rfl, hv⟩
    exact ⟨_, q, Word.decode_enumeration_eq_ok_iff.mpr rfl, rfl, hv⟩

end Shape

/-- A credential is read exactly where it is laid out in front, with allowed padding. -/
lemma OpaqueAuth.decode_eq_ok_iff {lim : Limits} {b r : Bytes} {a : OpaqueAuth} :
    Wire.decode lim b = .ok a r ↔ a.body.length ≤ lim.maxLength.toNat ∧
      ∃ pad, lim.AllowsPad a.body.length pad ∧ b = a.form pad ++ r := by
  have hlim := lim.maxLength.toNat_lt
  constructor
  · exact form_of_decode
  · rintro ⟨hmax, pad, hpad, rfl⟩
    rw [decode_form (by omega) hpad, if_neg (by omega)]

/-! ### Denied calls -/

namespace MismatchInfo

variable {lim : Limits} {b r : Bytes} {info : MismatchInfo}

/-- The bytes of a range of versions. -/
def form (info : MismatchInfo) : Bytes := wordBytes info.low ++ wordBytes info.high

/-- A range of versions is written as its two bounds. -/
lemma encode_eq (info : MismatchInfo) : Wire.encode info = ⟨info.form, none⟩ := by
  have hhigh : Encoding.ofWord info.high ++ .nothing = .ofWord info.high :=
    Encoding.append_nothing _
  have hwords : Wire.encode info = .ofWord info.low ++ (.ofWord info.high ++ .nothing) := rfl
  rw [hwords, hhigh]
  rfl

/-- A range of versions is read as its two bounds. -/
lemma decode_eq (lim : Limits) : (Wire.decode lim : Decoder MismatchInfo) = (do
    let low ← Decoder.word
    return ⟨low, ← Decoder.word⟩) := by
  simp only [Wire.decode, Wire.shape, Shape.decode, Word.decode, Decoder.ofExcept, bind_assoc,
    pure_bind]
  rfl

/-- A range of versions is read exactly where its two bounds stand in front. -/
lemma decode_eq_ok_iff : Wire.decode lim b = .ok info r ↔ b = info.form ++ r := by
  rw [decode_eq]
  simp only [Decoder.bind_eq_ok_iff, Decoder.word_eq_ok_iff]
  unfold form
  constructor
  · rintro ⟨low, _, rfl, high, _, rfl, hpure⟩
    cases hpure
    exact (List.append_assoc _ _ _).symm
  · rintro rfl
    exact ⟨info.low, _, List.append_assoc _ _ _, info.high, r, rfl, rfl⟩

end MismatchInfo

namespace RejectedReply

variable {lim : Limits} {b r : Bytes} {reply : RejectedReply}

/-- The bytes of a reason why a call was denied. -/
def form : RejectedReply → Bytes
  | rpcMismatch info => wordBytes (Enumerated.code RejectStat.rpcMismatch) ++ info.form
  | authError stat =>
    wordBytes (Enumerated.code RejectStat.authError) ++ wordBytes (Enumerated.code stat)

/-- A reason is written as it is laid out. -/
lemma encode_eq (reply : RejectedReply) : Wire.encode reply = ⟨reply.form, none⟩ := by
  cases reply with
  | rpcMismatch info =>
    have hunion : Wire.encode (rpcMismatch info) =
        .ofWord (Enumerated.code RejectStat.rpcMismatch) ++ Wire.encode info := rfl
    rw [hunion, info.encode_eq]
    rfl
  | authError stat => rfl

/-- A reason is read exactly where it is laid out in front. -/
lemma decode_eq_ok_iff : Wire.decode lim b = .ok reply r ↔ b = reply.form ++ r := by
  rw [LawfulWire.decode_eq_ok_iff]
  cases reply with
  | rpcMismatch info =>
    have harm : (Wire.shape RejectedReply).decode lim b = .ok (Wire.toVal (rpcMismatch info)) r ↔
        ∃ q, b = wordBytes (Enumerated.code RejectStat.rpcMismatch) ++ q ∧
          (Wire.shape MismatchInfo).decode lim q = .ok (Wire.toVal info) r :=
      Shape.decode_switch_eq_ok_iff
    rw [harm, form, List.append_assoc]
    simp only [← LawfulWire.decode_eq_ok_iff, MismatchInfo.decode_eq_ok_iff, exists_eq_right]
  | authError stat =>
    have harm : (Wire.shape RejectedReply).decode lim b = .ok (Wire.toVal (authError stat)) r ↔
        ∃ q, b = wordBytes (Enumerated.code RejectStat.authError) ++ q ∧
          q = wordBytes (Enumerated.code stat) ++ r :=
      Shape.decode_switch_eq_ok_iff.trans <| exists_congr fun _ =>
        and_congr_right fun _ => Shape.decode_enumeration_eq_ok_iff
    rw [harm, form, List.append_assoc, exists_eq_right]

end RejectedReply

/-! ### Accepted calls -/

namespace AcceptedReply

variable {lim : Limits} {b r : Bytes} {reply : AcceptedReply}

/-- The bytes of an outcome, with the given padding behind its verifier. -/
def form (reply : AcceptedReply) (pad : Bytes) : Bytes :=
  reply.verf.form pad ++ wordBytes (Enumerated.code reply.stat)

/-- An outcome is written as its verifier and its code. -/
lemma encode_eq (reply : AcceptedReply) :
    Wire.encode reply = Wire.encode reply.verf ++ .ofWord (Enumerated.code reply.stat) := by
  have hstat : Encoding.ofWord (Enumerated.code reply.stat) ++ .nothing =
      .ofWord (Enumerated.code reply.stat) := Encoding.append_nothing _
  rw [← hstat]
  rfl

/-- An outcome is read as its verifier and its code. -/
lemma decode_eq (lim : Limits) : (Wire.decode lim : Decoder AcceptedReply) = (do
    let verf ← Wire.decode lim
    return ⟨verf, ← (Shape.enumeration .acceptStat).decode lim⟩) := by
  simp only [Wire.decode, Wire.shape, Shape.decode, bind_assoc, pure_bind]
  rfl

/-- An outcome is read exactly where it is laid out in front, with allowed padding. -/
lemma decode_eq_ok_iff :
    Wire.decode lim b = .ok reply r ↔ reply.verf.body.length ≤ lim.maxLength.toNat ∧
      ∃ pad, lim.AllowsPad reply.verf.body.length pad ∧ b = reply.form pad ++ r := by
  rw [decode_eq]
  simp only [Decoder.bind_eq_ok_iff, OpaqueAuth.decode_eq_ok_iff]
  unfold form
  constructor
  · rintro ⟨verf, q, ⟨hmax, pad, hpad, rfl⟩, stat, q', hstat, hpure⟩
    cases hpure
    have hq : q = wordBytes (Enumerated.code stat) ++ r :=
      Shape.decode_enumeration_eq_ok_iff.mp hstat
    rw [hq]
    exact ⟨hmax, pad, hpad, (List.append_assoc _ _ _).symm⟩
  · rintro ⟨hmax, pad, hpad, rfl⟩
    exact ⟨reply.verf, _, ⟨hmax, pad, hpad, List.append_assoc _ _ _⟩, reply.stat, r,
      Shape.decode_enumeration_eq_ok_iff.mpr rfl, rfl⟩

end AcceptedReply

/-! ### Bodies and headers -/

namespace ReplyBody

variable {lim : Limits} {b r : Bytes} {body : ReplyBody}

/-- The length of the body of the verifier; a denied call has none. -/
def verifierLength : ReplyBody → Nat
  | accepted reply => reply.verf.body.length
  | denied _ => 0

/-- The bytes of what a server answers, with the given padding behind the verifier of an accepted
call. -/
def form : ReplyBody → Bytes → Bytes
  | accepted reply, pad => wordBytes (Enumerated.code ReplyStat.accepted) ++ reply.form pad
  | denied reply, _ => wordBytes (Enumerated.code ReplyStat.denied) ++ reply.form

/-- The answer to an accepted call is written behind its discriminant. -/
lemma encode_accepted (reply : AcceptedReply) :
    Wire.encode (accepted reply) =
      .ofWord (Enumerated.code ReplyStat.accepted) ++ Wire.encode reply := rfl

/-- The answer to a denied call is written behind its discriminant. -/
lemma encode_denied (reply : RejectedReply) :
    Wire.encode (denied reply) =
      .ofWord (Enumerated.code ReplyStat.denied) ++ Wire.encode reply := rfl

/-- An answer is written completely exactly if the length of its verifier fits a word. -/
lemma fault_encode_eq_none_iff :
    (Wire.encode body).fault = none ↔ body.verifierLength ≤ 4294967295 := by
  cases body with
  | accepted reply =>
    have hword : ∀ w : UInt32, (Encoding.ofWord w).fault = none := fun _ => rfl
    rw [encode_accepted, reply.encode_eq]
    simp only [Encoding.fault_append_eq_none_iff, hword, true_and, and_true,
      OpaqueAuth.fault_encode_eq_none_iff, verifierLength]
  | denied reply =>
    rw [encode_denied, reply.encode_eq]
    exact iff_of_true rfl (Nat.zero_le _)

/-- An answer is written with zero padding. -/
lemma encode_eq_form (h : body.verifierLength ≤ 4294967295) :
    Wire.encode body = ⟨body.form (padding body.verifierLength), none⟩ := by
  cases body with
  | accepted reply =>
    rw [encode_accepted, reply.encode_eq, OpaqueAuth.encode_eq_form h]
    rfl
  | denied reply =>
    rw [encode_denied, reply.encode_eq]
    rfl

/-- An answer is read exactly where it is laid out in front, with allowed padding. -/
lemma decode_eq_ok_iff :
    Wire.decode lim b = .ok body r ↔ body.verifierLength ≤ lim.maxLength.toNat ∧
      ∃ pad, lim.AllowsPad body.verifierLength pad ∧ b = body.form pad ++ r := by
  rw [LawfulWire.decode_eq_ok_iff]
  cases body with
  | accepted reply =>
    have harm : (Wire.shape ReplyBody).decode lim b = .ok (Wire.toVal (accepted reply)) r ↔
        ∃ q, b = wordBytes (Enumerated.code ReplyStat.accepted) ++ q ∧
          (Wire.shape AcceptedReply).decode lim q = .ok (Wire.toVal reply) r :=
      Shape.decode_switch_eq_ok_iff
    rw [harm]
    simp only [← LawfulWire.decode_eq_ok_iff, AcceptedReply.decode_eq_ok_iff]
    constructor
    · rintro ⟨_, rfl, hmax, pad, hpad, rfl⟩
      exact ⟨hmax, pad, hpad, (List.append_assoc _ _ _).symm⟩
    · rintro ⟨hmax, pad, hpad, rfl⟩
      exact ⟨_, List.append_assoc _ _ _, hmax, pad, hpad, rfl⟩
  | denied reply =>
    have harm : (Wire.shape ReplyBody).decode lim b = .ok (Wire.toVal (denied reply)) r ↔
        ∃ q, b = wordBytes (Enumerated.code ReplyStat.denied) ++ q ∧
          (Wire.shape RejectedReply).decode lim q = .ok (Wire.toVal reply) r :=
      Shape.decode_switch_eq_ok_iff
    rw [harm]
    simp only [← LawfulWire.decode_eq_ok_iff, RejectedReply.decode_eq_ok_iff]
    constructor
    · rintro ⟨_, rfl, rfl⟩
      exact ⟨Nat.zero_le _, padding 0, lim.allowsPad_padding 0, (List.append_assoc _ _ _).symm⟩
    · rintro ⟨-, -, -, rfl⟩
      exact ⟨_, List.append_assoc _ _ _, rfl⟩

end ReplyBody

namespace ReplyMessage

variable {lim : Limits} {b r pad : Bytes} {c : ReplyMessage}

/-- The bytes of the header of a reply, with the given padding behind the verifier of an accepted
call. -/
def form (c : ReplyMessage) (pad : Bytes) : Bytes :=
  wordBytes c.xid ++ (wordBytes (Enumerated.code c.mtype) ++ c.body.form pad)

/-- The length of a header: that of an accepted call has whole units for the verifier, the others
have fixed lengths. -/
lemma length_form (hpad : pad.length = padLength c.body.verifierLength) :
    (c.form pad).length = match c.body with
      | .accepted reply => 24 + 4 * ((reply.verf.body.length + 3) / 4)
      | .denied (.rpcMismatch _) => 24
      | .denied (.authError _) => 20 := by
  obtain ⟨xid, mtype, body⟩ := c
  cases body with
  | accepted reply =>
    have hverf : (reply.verf.form pad).length = _ := reply.verf.length_form hpad
    simp only [form, ReplyBody.form, AcceptedReply.form, List.length_append, length_wordBytes, hverf]
    omega
  | denied reply =>
    cases reply with
    | rpcMismatch info | authError stat => rfl

/-- A header is written completely exactly if the length of its verifier fits a word. -/
lemma fault_encode_eq_none_iff :
    (Wire.encode c).fault = none ↔ c.body.verifierLength ≤ 4294967295 := by
  have hword : ∀ w : UInt32, (Encoding.ofWord w).fault = none := fun _ => rfl
  rw [Message.encode_reply]
  simp only [Encoding.fault_append_eq_none_iff, hword, true_and, ReplyBody.fault_encode_eq_none_iff]

/-- A header is written with zero padding. -/
lemma encode_eq_form (h : c.body.verifierLength ≤ 4294967295) :
    Wire.encode c = ⟨c.form (padding c.body.verifierLength), none⟩ := by
  rw [Message.encode_reply, ReplyBody.encode_eq_form h]
  rfl

/-- A header is read exactly where it is laid out in front, with allowed padding. -/
lemma decode_eq_ok_iff :
    Wire.decode lim b = .ok c r ↔ c.body.verifierLength ≤ lim.maxLength.toNat ∧
      ∃ pad, lim.AllowsPad c.body.verifierLength pad ∧ b = c.form pad ++ r := by
  rw [Message.decode_reply_eq_ok_iff]
  simp only [Message.takePreamble_eq_ok_iff, ReplyBody.decode_eq_ok_iff]
  unfold form
  constructor
  · rintro ⟨_, rfl, hmax, pad, hpad, rfl⟩
    exact ⟨hmax, pad, hpad, by simp only [List.append_assoc]⟩
  · rintro ⟨hmax, pad, hpad, rfl⟩
    exact ⟨_, by simp only [List.append_assoc], hmax, pad, hpad, rfl⟩

/-- What was written is read back, without a limit on the length of the verifier. -/
lemma decode_of_encode {w : Bytes} (h : Wire.encode c = ⟨w, none⟩) (r : Bytes) :
    Wire.decode .none (w ++ r) = .ok c r := by
  have hfit : c.body.verifierLength ≤ 4294967295 := fault_encode_eq_none_iff.mp (by rw [h])
  have hw : w = c.form (padding c.body.verifierLength) :=
    congrArg Encoding.bytes (h.symm.trans (encode_eq_form hfit))
  rw [hw]
  exact decode_eq_ok_iff.mpr ⟨hfit, _, Limits.none.allowsPad_padding _, rfl⟩

end ReplyMessage

/-! ### The law -/

/-- A reply is accepted exactly when it can be read, goes in the right direction and carries no
oversized verifier. -/
lemma decodeReply_eq_ok_iff {b r : Bytes} {c : ReplyMessage} :
    (decodeReply b).result = .ok c r ↔
      Wire.decode .none b = .ok c r ∧ c.mtype = .reply ∧ c.body.verifierLength ≤ 400 := by
  rw [decodeReply, result_receive_eq_ok_iff, ReplyMessage.fault_verdict]
  refine and_congr_right fun _ => ?_
  cases hdir : c.mtype with
  | call => simp
  | reply =>
    cases hbody : c.body with
    | denied reply => simp [ReplyBody.verifierLength]
    | accepted reply =>
      have hlen : (ReplyBody.accepted reply).verifierLength = reply.verf.body.length := rfl
      by_cases hverf : 400 < reply.verf.body.length
      · simp [hverf, hlen]
      · simp [hverf, hlen, Nat.not_lt.mp hverf]

/-- Receiving a reply undoes writing its header.

A header that was written completely is refused if it goes in the direction of a call, and then if
it accepts a call with too long a body of its verifier.  Otherwise it is received as it was, with
the bytes after it.

Conversely, what is received goes in the direction of a reply, with a verifier of an allowed length
if there is one, and its header takes the bytes that it is written as, up to the padding of that
verifier.  These are twenty-four bytes and whole units for the body of the verifier, or twenty-four
bytes for a mismatch of versions, or twenty for credentials that are not accepted.

In particular every reply that is made here, with an empty verifier or for one of the two reasons,
is received as it was, whatever follows it. -/
theorem decodeReply_inverts_encode :
    (∀ (c : ReplyMessage) (w results : Bytes), Wire.encode c = ⟨w, none⟩ →
      Reading.outcome (decodeReply (w ++ results)).result =
        if c.mtype = .call then .error (.unexpectedMessageType .reply .call)
        else match c.body with
          | .accepted reply =>
            if 400 < reply.verf.body.length then
              .error (.lengthOverflow 400 reply.verf.body.length)
            else .ok (c, results)
          | .denied _ => .ok (c, results)) ∧
    (∀ (b rest : Bytes) (c : ReplyMessage), (decodeReply b).result = .ok c rest →
      c.mtype = .reply ∧ c.body.verifierLength ≤ 400 ∧
        ∃ pad, pad.length = padLength c.body.verifierLength ∧ b = c.form pad ++ rest ∧
          Wire.encode c = ⟨c.form (padding c.body.verifierLength), none⟩ ∧
          (c.form pad).length = match c.body with
            | .accepted reply => 24 + 4 * ((reply.verf.body.length + 3) / 4)
            | .denied (.rpcMismatch _) => 24
            | .denied (.authError _) => 20) ∧
    ∀ (xid : UInt32) (stat : AcceptStat) (why : AuthStat) (results : Bytes),
      ∀ c ∈ [ReplyMessage.accepted xid stat, .rpcMismatch xid, .authError xid why],
        c.xid = xid ∧ ∃ w, Wire.encode c = ⟨w, none⟩ ∧
          (decodeReply (w ++ results)).result = .ok c results := by
  refine ⟨fun c w results hw => ?_, fun b rest c h => ?_, fun xid stat why results c hc => ?_⟩
  · have hread : Wire.decode .none (w ++ results) = .ok c results :=
      ReplyMessage.decode_of_encode hw results
    rw [result_decodeReply_of_ok hread]
    unfold Reading.outcome
    by_cases hdir : c.mtype = .call
    · rw [if_pos hdir, if_pos hdir]
    · rw [if_neg hdir, if_neg hdir]
      cases c.body with
      | denied reply => rfl
      | accepted reply =>
        by_cases hverf : 400 < reply.verf.body.length
        · simp only [if_pos hverf]
        · simp only [if_neg hverf]
  · obtain ⟨hread, hdir, hverf⟩ := decodeReply_eq_ok_iff.mp h
    obtain ⟨-, pad, hpad, hb⟩ := ReplyMessage.decode_eq_ok_iff.mp hread
    have hfit : c.body.verifierLength ≤ 4294967295 := by omega
    exact ⟨hdir, hverf, pad, hpad.length_eq, hb, ReplyMessage.encode_eq_form hfit,
      ReplyMessage.length_form hpad.length_eq⟩
  · have hmade : c.xid = xid ∧ c.mtype = .reply ∧ c.body.verifierLength = 0 := by
      simp only [List.mem_cons, List.not_mem_nil, or_false] at hc
      rcases hc with rfl | rfl | rfl
      · exact ⟨rfl, rfl, rfl⟩
      · exact ⟨rfl, rfl, rfl⟩
      · exact ⟨rfl, rfl, rfl⟩
    obtain ⟨hxid, hdir, hverf⟩ := hmade
    have hw : Wire.encode c = ⟨_, none⟩ := ReplyMessage.encode_eq_form (by omega)
    have hread : Wire.decode .none (_ ++ results) = .ok c results :=
      ReplyMessage.decode_of_encode hw results
    exact ⟨hxid, _, hw, decodeReply_eq_ok_iff.mpr ⟨hread, hdir, by omega⟩⟩

/-- The direction of a call where a reply is expected is reported by the two codes. -/
example : (Fault.unexpectedMessageType .reply .call).message =
    "unexpected message type 0 (expected 1)" := by decide +kernel

/-- An accepted call with a verifier of five bytes is received, also with other bytes than zero for
its padding, and refused in the other direction. -/
theorem decodeReply_inverts_encode_five_byte_verifier :
    let m : ReplyMessage := .new 7 (.accepted ⟨⟨.short, [1, 2, 3, 4, 5]⟩, .procUnavail⟩)
    let c : ReplyMessage := { m with mtype := .call }
    let u : Bytes := [0, 0, 0, 7, 0, 0, 0, 1, 0, 0, 0, 0, 0, 0, 0, 2, 0, 0, 0, 5, 1, 2, 3, 4, 5,
      0, 0, 0, 0, 0, 0, 3]
    let w : Bytes := [0, 0, 0, 7, 0, 0, 0, 0, 0, 0, 0, 0, 0, 0, 0, 2, 0, 0, 0, 5, 1, 2, 3, 4, 5,
      0, 0, 0, 0, 0, 0, 3]
    let b : Bytes := [0, 0, 0, 7, 0, 0, 0, 1, 0, 0, 0, 0, 0, 0, 0, 2, 0, 0, 0, 5, 1, 2, 3, 4, 5,
      6, 7, 8, 0, 0, 0, 3]
    (Wire.encode m = ⟨u, none⟩ ∧
      Reading.outcome (decodeReply (u ++ [9])).result = .ok (m, [9])) ∧
    (Wire.encode c = ⟨w, none⟩ ∧ Reading.outcome (decodeReply (w ++ [9])).result =
      .error (.unexpectedMessageType .reply .call)) ∧
    ((decodeReply (b ++ [9])).result = .ok m [9] ∧
      ∃ pad, b ++ [9] = m.form pad ++ [9] ∧ (m.form pad).length = 32) ∧
    ReplyMessage.rpcMismatch 5 ∈
        [ReplyMessage.accepted 5 .success, .rpcMismatch 5, .authError 5 .tooWeak] ∧
      ∃ w, Wire.encode (ReplyMessage.rpcMismatch 5) = ⟨w, none⟩ ∧
        (decodeReply (w ++ [9])).result = .ok (.rpcMismatch 5) [9] := by
  intro m c u w b
  obtain ⟨hreceive, hlaid, hmade⟩ := decodeReply_inverts_encode
  have hu : Wire.encode m = ⟨u, none⟩ := by decide +kernel
  have hw : Wire.encode c = ⟨w, none⟩ := by decide +kernel
  have hb : (decodeReply (b ++ [9])).result = .ok m [9] := by decide +kernel
  have hmem : ReplyMessage.rpcMismatch 5 ∈
      [ReplyMessage.accepted 5 .success, .rpcMismatch 5, .authError 5 .tooWeak] := by simp
  refine ⟨⟨hu, ?_⟩, ⟨hw, ?_⟩, ⟨hb, ?_⟩, hmem, ?_⟩
  · exact (hreceive m u [9] hu).trans rfl
  · exact (hreceive c w [9] hw).trans rfl
  · obtain ⟨-, -, pad, -, hform, -, hlen⟩ := hlaid (b ++ [9]) [9] m hb
    exact ⟨pad, hform, hlen⟩
  · exact (hmade 5 .success .tooWeak [9] _ hmem).2

end OncWire
