import Mathlib.Tactic.Common
import OncWire.Proofs.Encoding
import OncWire.Proofs.Verdict

/-!
# One format for both directions

A call, a reply and a message in either direction begin alike: with the number of
the call and the direction, which together are taken by `Message.takePreamble`.  A
call or a reply then reads its own body, whatever the direction, and looks at the
direction only when the body is there.  A message in either direction lets the
direction select the body.

Where the direction is the one that belongs to the body the two readings are the same
computation (`Message.run_ofCall`, `Message.run_ofReply`), and where it is none they
fail alike.  Everything that `message_agrees_with_envelopes` says of values, faults
and positions follows from that.
-/

namespace OncWire

namespace Message

variable {lim : Limits} {b q r rest : Bytes} {x t : UInt32} {d : MsgType}

/-! ### The words in front of a body -/

/-- Takes the number of the call and the direction. -/
def takePreamble : Decoder (UInt32 × MsgType) := do
  let xid ← Decoder.word
  return (xid, ← Decoder.ofExcept (Word.decode (.enumeration .msgType) (← Decoder.word)))

/-- A direction is read from its own word only. -/
lemma decode_msgType_eq_ok_iff :
    Word.decode (.enumeration .msgType) t = .ok d ↔ t = Enumerated.code d := by
  constructor
  · intro h
    have hcode := Word.encode_of_decode h
    exact (Except.ok.inj hcode).symm
  · rintro rfl
    exact Word.decode_of_encode rfl

/-- Any other word is refused with the name of the enumeration. -/
lemma decode_msgType_of_ne (hcall : t ≠ 0) (hreply : t ≠ 1) :
    Word.decode (.enumeration .msgType) t = .error (.unmappedDiscriminant t "MsgType") := by
  have hnone : Enumerated.ofCode? (α := Enumeration.msgType.Member) t = none := by
    refine Enumerated.ofCode?_eq_none_iff.mpr fun d => ?_
    cases d with
    | call => exact hcall.symm
    | reply => exact hreply.symm
  rw [Word.decode_enumeration, hnone]
  rfl

/-- The two words are taken exactly where they stand in front. -/
lemma takePreamble_eq_ok_iff :
    takePreamble b = .ok (x, d) q ↔
      b = wordBytes x ++ (wordBytes (Enumerated.code d) ++ q) := by
  rw [takePreamble]
  simp only [Decoder.bind_eq_ok_iff, Decoder.word_eq_ok_iff, Decoder.ofExcept_eq_ok_iff]
  constructor
  · rintro ⟨_, _, rfl, w, _, rfl, _, _, ⟨hw, rfl⟩, hpure⟩
    cases hpure
    rw [decode_msgType_eq_ok_iff.mp hw]
  · rintro rfl
    exact ⟨x, _, rfl, _, _, rfl, d, q, ⟨decode_msgType_eq_ok_iff.mpr rfl, rfl⟩, rfl⟩

/-- A word that is no direction is refused once it is taken. -/
lemma takePreamble_of_ne (hcall : t ≠ 0) (hreply : t ≠ 1) :
    takePreamble (wordBytes x ++ (wordBytes t ++ rest)) =
      .error (.unmappedDiscriminant t "MsgType") rest := by
  rw [takePreamble, Decoder.bind_of_ok (Decoder.word_append x _),
    Decoder.bind_of_ok (Decoder.word_append t _), decode_msgType_of_ne hcall hreply]
  rfl

/-! ### Bodies behind the preamble -/

/-- A structure of a number, a direction and a body is read as the preamble and the body. -/
lemma decode_envelope (lim : Limits) (name : String) (s : Shape) :
    (Shape.record name (.fields [.uint32, .enumeration .msgType, s])).decode lim = (do
      let p ← takePreamble
      return (p.1, p.2, ← s.decode lim, ())) := by
  have hword : Shape.uint32.decode lim = Decoder.word := by
    rw [Shape.decode]
    exact bind_pure _
  rw [Shape.decode, Shape.decode, hword]
  simp only [Shape.decode, takePreamble, bind_assoc, pure_bind]

/-- A structure of a number and a union by direction is read as the preamble and the selected
arm. -/
lemma decode_switch (lim : Limits) (name : String) (arm : MsgType → Shape) :
    (Shape.record name (.fields [.uint32, .union (.enumeration .msgType) arm])).decode lim = (do
      let p ← takePreamble
      return (p.1, ⟨p.2, ← (arm p.2).decode lim⟩, ())) := by
  have hword : Shape.uint32.decode lim = Decoder.word := by
    rw [Shape.decode]
    exact bind_pure _
  rw [Shape.decode, Shape.decode, hword]
  simp only [Shape.decode, takePreamble, bind_assoc, pure_bind]

/-- A call is read as the preamble and the body of a call, whatever the direction. -/
lemma decode_call (lim : Limits) : (Wire.decode lim : Decoder CallMessage) = (do
    let p ← takePreamble
    return ⟨p.1, p.2, ← Wire.decode lim⟩) := by
  have hshape := decode_envelope lim "CallMessage" (Wire.shape CallBody)
  rw [Wire.decode]
  refine (congrArg (· >>= fun v => pure (Wire.ofVal v)) hshape).trans ?_
  simp only [bind_assoc, pure_bind, Wire.decode]
  rfl

/-- A reply is read as the preamble and the body of a reply, whatever the direction. -/
lemma decode_reply (lim : Limits) : (Wire.decode lim : Decoder ReplyMessage) = (do
    let p ← takePreamble
    return ⟨p.1, p.2, ← Wire.decode lim⟩) := by
  have hshape := decode_envelope lim "ReplyMessage" (Wire.shape ReplyBody)
  rw [Wire.decode]
  refine (congrArg (· >>= fun v => pure (Wire.ofVal v)) hshape).trans ?_
  simp only [bind_assoc, pure_bind, Wire.decode]
  rfl

/-- A message is read as the preamble and the body that the direction selects. -/
lemma decode_message (lim : Limits) : (Wire.decode lim : Decoder Message) = (do
    let p ← takePreamble
    match p.2 with
    | .call => return ⟨p.1, .call (← Wire.decode lim)⟩
    | .reply => return ⟨p.1, .reply (← Wire.decode lim)⟩) := by
  rw [Wire.decode]
  refine (congrArg (· >>= fun v => pure (Wire.ofVal v)) (decode_switch lim "Message" _)).trans ?_
  simp only [bind_assoc, pure_bind, Wire.decode]
  refine congrArg _ (funext fun p => ?_)
  obtain ⟨x, d⟩ := p
  cases d with
  | call => rfl
  | reply => rfl

/-- What is put together from a preamble and a body is there exactly when both are. -/
lemma envelope_eq_ok_iff {α β : Type} {body : Decoder α} {mk : UInt32 → MsgType → α → β} {m : β} :
    (do let p ← takePreamble; return mk p.1 p.2 (← body) : Decoder β) b = .ok m r ↔
      ∃ x d v q, takePreamble b = .ok (x, d) q ∧ body q = .ok v r ∧ m = mk x d v := by
  simp only [Decoder.bind_eq_ok_iff]
  constructor
  · rintro ⟨⟨x, d⟩, q, hp, v, _, hv, hpure⟩
    cases hpure
    exact ⟨x, d, v, q, hp, hv, rfl⟩
  · rintro ⟨x, d, v, q, hp, hv, rfl⟩
    exact ⟨(x, d), q, hp, v, r, hv, rfl⟩

/-- A call is there exactly when its preamble and its body are. -/
lemma decode_call_eq_ok_iff {c : CallMessage} :
    Wire.decode lim b = .ok c r ↔
      ∃ q, takePreamble b = .ok (c.xid, c.mtype) q ∧ Wire.decode lim q = .ok c.body r := by
  rw [decode_call, envelope_eq_ok_iff]
  constructor
  · rintro ⟨x, d, v, q, hp, hv, rfl⟩
    exact ⟨q, hp, hv⟩
  · rintro ⟨q, hp, hv⟩
    exact ⟨c.xid, c.mtype, c.body, q, hp, hv, rfl⟩

/-- A reply is there exactly when its preamble and its body are. -/
lemma decode_reply_eq_ok_iff {c : ReplyMessage} :
    Wire.decode lim b = .ok c r ↔
      ∃ q, takePreamble b = .ok (c.xid, c.mtype) q ∧ Wire.decode lim q = .ok c.body r := by
  rw [decode_reply, envelope_eq_ok_iff]
  constructor
  · rintro ⟨x, d, v, q, hp, hv, rfl⟩
    exact ⟨q, hp, hv⟩
  · rintro ⟨q, hp, hv⟩
    exact ⟨c.xid, c.mtype, c.body, q, hp, hv, rfl⟩

/-- Behind the direction of a call, a message is read as a call is. -/
lemma run_ofCall (h : takePreamble b = .ok (x, .call) q) :
    (Wire.decode lim b : Reading Message) =
      (do return ofCall (← Wire.decode lim) : Decoder Message) b := by
  rw [decode_message, decode_call]
  simp only [bind_assoc, pure_bind]
  rw [Decoder.bind_of_ok h, Decoder.bind_of_ok h]
  rfl

/-- Behind the direction of a reply, a message is read as a reply is. -/
lemma run_ofReply (h : takePreamble b = .ok (x, .reply) q) :
    (Wire.decode lim b : Reading Message) =
      (do return ofReply (← Wire.decode lim) : Decoder Message) b := by
  rw [decode_message, decode_reply]
  simp only [bind_assoc, pure_bind]
  rw [Decoder.bind_of_ok h, Decoder.bind_of_ok h]
  rfl

/-- A genuine call is read as a message. -/
lemma decode_ofCall {c : CallMessage} (hdir : c.mtype = .call)
    (h : Wire.decode lim b = .ok c r) : Wire.decode lim b = .ok (ofCall c) r := by
  obtain ⟨q, hp, -⟩ := decode_call_eq_ok_iff.mp h
  rw [hdir] at hp
  rw [run_ofCall hp, Decoder.bind_of_ok h]
  rfl

/-- A genuine reply is read as a message. -/
lemma decode_ofReply {c : ReplyMessage} (hdir : c.mtype = .reply)
    (h : Wire.decode lim b = .ok c r) : Wire.decode lim b = .ok (ofReply c) r := by
  obtain ⟨q, hp, -⟩ := decode_reply_eq_ok_iff.mp h
  rw [hdir] at hp
  rw [run_ofReply hp, Decoder.bind_of_ok h]
  rfl

/-- A message is there exactly when it is a genuine call or a genuine reply. -/
lemma decode_message_eq_ok_iff {m : Message} :
    Wire.decode lim b = .ok m r ↔
      (∃ c : CallMessage, Wire.decode lim b = .ok c r ∧ c.mtype = .call ∧ m = ofCall c) ∨
      ∃ c : ReplyMessage, Wire.decode lim b = .ok c r ∧ c.mtype = .reply ∧ m = ofReply c := by
  constructor
  · intro h
    have hmessage := h
    rw [decode_message] at hmessage
    obtain ⟨⟨x, d⟩, q, hp, -⟩ := Decoder.bind_eq_ok_iff.mp hmessage
    -- The direction decides whether the message was read as a call or as a reply.
    cases d with
    | call =>
      rw [run_ofCall hp] at h
      obtain ⟨c, _, hc, hpure⟩ := Decoder.bind_eq_ok_iff.mp h
      cases hpure
      obtain ⟨q', hp', -⟩ := decode_call_eq_ok_iff.mp hc
      have hpair := (EStateM.Result.ok.inj (hp.symm.trans hp')).1
      exact .inl ⟨c, hc, (congrArg Prod.snd hpair).symm, rfl⟩
    | reply =>
      rw [run_ofReply hp] at h
      obtain ⟨c, _, hc, hpure⟩ := Decoder.bind_eq_ok_iff.mp h
      cases hpure
      obtain ⟨q', hp', -⟩ := decode_reply_eq_ok_iff.mp hc
      have hpair := (EStateM.Result.ok.inj (hp.symm.trans hp')).1
      exact .inr ⟨c, hc, (congrArg Prod.snd hpair).symm, rfl⟩
  · rintro (⟨c, hc, hdir, rfl⟩ | ⟨c, hc, hdir, rfl⟩)
    · exact decode_ofCall hdir hc
    · exact decode_ofReply hdir hc

/-- A message that comes from a genuine call is read as that call. -/
lemma decode_of_ofCall {c : CallMessage} (hdir : c.mtype = .call)
    (h : Wire.decode lim b = .ok (ofCall c) r) : Wire.decode lim b = .ok c r := by
  rcases decode_message_eq_ok_iff.mp h with ⟨c', hc', hdir', hm⟩ | ⟨c', -, -, hm⟩
  · obtain ⟨hxid, hbody⟩ := Message.mk.inj hm
    obtain ⟨xid, mtype, body⟩ := c
    obtain ⟨xid', mtype', body'⟩ := c'
    obtain rfl : xid = xid' := hxid
    obtain rfl : body = body' := MessageBody.call.inj hbody
    obtain rfl : mtype = .call := hdir
    obtain rfl : mtype' = .call := hdir'
    exact hc'
  · have hbody := congrArg Message.body hm
    cases hbody

/-- A message that comes from a genuine reply is read as that reply. -/
lemma decode_of_ofReply {c : ReplyMessage} (hdir : c.mtype = .reply)
    (h : Wire.decode lim b = .ok (ofReply c) r) : Wire.decode lim b = .ok c r := by
  rcases decode_message_eq_ok_iff.mp h with ⟨c', -, -, hm⟩ | ⟨c', hc', hdir', hm⟩
  · have hbody := congrArg Message.body hm
    cases hbody
  · obtain ⟨hxid, hbody⟩ := Message.mk.inj hm
    obtain ⟨xid, mtype, body⟩ := c
    obtain ⟨xid', mtype', body'⟩ := c'
    obtain rfl : xid = xid' := hxid
    obtain rfl : body = body' := MessageBody.reply.inj hbody
    obtain rfl : mtype = .reply := hdir
    obtain rfl : mtype' = .reply := hdir'
    exact hc'

/-- No input holds both a genuine call and a genuine reply, under whatever limits. -/
lemma not_call_and_reply {lim' : Limits} {c : CallMessage} {c' : ReplyMessage} {r' : Bytes}
    (h : Wire.decode lim b = .ok c r) (hdir : c.mtype = .call)
    (h' : Wire.decode lim' b = .ok c' r') (hdir' : c'.mtype = .reply) : False := by
  obtain ⟨q, hp, -⟩ := decode_call_eq_ok_iff.mp h
  obtain ⟨q', hp', -⟩ := decode_reply_eq_ok_iff.mp h'
  have hpair := (EStateM.Result.ok.inj (hp.symm.trans hp')).1
  have hmtype : c.mtype = c'.mtype := congrArg Prod.snd hpair
  rw [hdir, hdir'] at hmtype
  cases hmtype

/-! ### Writing -/

/-- A structure of a number, a direction and a body is written as these three. -/
lemma encode_envelope (name : String) (s : Shape) (x : UInt32) (d : MsgType) (v : s.Val) :
    (Shape.record name (.fields [.uint32, .enumeration .msgType, s])).encode (x, d, v, ()) =
      .ofWord x ++ (.ofWord (Enumerated.code d) ++ s.encode v) := by
  simp only [Shape.encode, Word.encode, Encoding.ofExcept, Encoding.append_nothing]

/-- A call is written as its number, its direction and its body. -/
lemma encode_call (c : CallMessage) :
    Wire.encode c = .ofWord c.xid ++ (.ofWord (Enumerated.code c.mtype) ++ Wire.encode c.body) :=
  encode_envelope "CallMessage" (Wire.shape CallBody) c.xid c.mtype (Wire.toVal c.body)

/-- A reply is written as its number, its direction and its body. -/
lemma encode_reply (c : ReplyMessage) :
    Wire.encode c = .ofWord c.xid ++ (.ofWord (Enumerated.code c.mtype) ++ Wire.encode c.body) :=
  encode_envelope "ReplyMessage" (Wire.shape ReplyBody) c.xid c.mtype (Wire.toVal c.body)

/-- The message of a call is written as its number, the direction of a call and its body. -/
lemma encode_ofCall (c : CallMessage) :
    Wire.encode (ofCall c) =
      .ofWord c.xid ++ (.ofWord (Enumerated.code MsgType.call) ++ Wire.encode c.body) := by
  have hbody : Wire.encode (MessageBody.call c.body) =
      .ofWord (Enumerated.code MsgType.call) ++ Wire.encode c.body := rfl
  rw [← hbody, ← Encoding.append_nothing (Wire.encode (MessageBody.call c.body))]
  rfl

/-- The message of a reply is written as its number, the direction of a reply and its body. -/
lemma encode_ofReply (c : ReplyMessage) :
    Wire.encode (ofReply c) =
      .ofWord c.xid ++ (.ofWord (Enumerated.code MsgType.reply) ++ Wire.encode c.body) := by
  have hbody : Wire.encode (MessageBody.reply c.body) =
      .ofWord (Enumerated.code MsgType.reply) ++ Wire.encode c.body := rfl
  rw [← hbody, ← Encoding.append_nothing (Wire.encode (MessageBody.reply c.body))]
  rfl

/-- Two envelopes that differ at most in the direction are the same exactly if they do not. -/
lemma envelope_inj {d' : MsgType} {e : Encoding} :
    Encoding.ofWord x ++ (.ofWord (Enumerated.code d) ++ e) =
      Encoding.ofWord x ++ (.ofWord (Enumerated.code d') ++ e) ↔ d = d' := by
  rw [Encoding.ofWord_append_inj, Encoding.ofWord_append_inj]
  constructor
  · rintro ⟨-, hcode, -⟩
    exact Enumerated.code_injective hcode
  · rintro rfl
    exact ⟨rfl, rfl, rfl⟩

end Message

/-! ### The law -/

open Message in
/-- Messages in either direction and the two envelopes are one format.

Writing: a message is written as the call or the reply that it comes from, with the direction that
belongs to it.  Reading: a message is read exactly where a call or a reply with its own direction
is, as the same value; behind the direction of a call it is refused exactly as a call is, behind the
direction of a reply as a reply is, and all three refuse any other word in the same way.  Receiving:
nothing is accepted both as a call and as a reply, what is accepted is a message, and a message is
accepted unless a credential or verifier in it is too long. -/
theorem message_agrees_with_envelopes :
    (∀ c : CallMessage, Wire.encode (ofCall c) = Wire.encode { c with mtype := .call } ∧
      (Wire.encode (ofCall c) = Wire.encode c ↔ c.mtype = .call)) ∧
    (∀ c : ReplyMessage, Wire.encode (ofReply c) = Wire.encode { c with mtype := .reply } ∧
      (Wire.encode (ofReply c) = Wire.encode c ↔ c.mtype = .reply)) ∧
    (∀ (lim : Limits) (b r : Bytes) (m : Message), Wire.decode lim b = .ok m r ↔
      (∃ c : CallMessage, Wire.decode lim b = .ok c r ∧ c.mtype = .call ∧ m = ofCall c) ∨
      ∃ c : ReplyMessage, Wire.decode lim b = .ok c r ∧ c.mtype = .reply ∧ m = ofReply c) ∧
    (∀ (lim : Limits) (x : UInt32) (body r : Bytes) (f : Fault),
      let b := wordBytes x ++ (wordBytes 0 ++ body)
      (Wire.decode lim b : Reading Message) = .error f r ↔
        (Wire.decode lim b : Reading CallMessage) = .error f r) ∧
    (∀ (lim : Limits) (x : UInt32) (body r : Bytes) (f : Fault),
      let b := wordBytes x ++ (wordBytes 1 ++ body)
      (Wire.decode lim b : Reading Message) = .error f r ↔
        (Wire.decode lim b : Reading ReplyMessage) = .error f r) ∧
    (∀ (lim : Limits) (x t : UInt32) (body : Bytes), t ≠ 0 → t ≠ 1 →
      let b := wordBytes x ++ (wordBytes t ++ body)
      (Wire.decode lim b : Reading Message) = .error (.unmappedDiscriminant t "MsgType") body ∧
      (Wire.decode lim b : Reading CallMessage) =
        .error (.unmappedDiscriminant t "MsgType") body ∧
      (Wire.decode lim b : Reading ReplyMessage) =
        .error (.unmappedDiscriminant t "MsgType") body) ∧
    (∀ (lim : Limits) (b r r' : Bytes) (c : CallMessage) (c' : ReplyMessage),
      ¬ ((decodeCall lim b).result = .ok c r ∧ (decodeReply b).result = .ok c' r')) ∧
    (∀ (lim : Limits) (b r : Bytes) (c : CallMessage),
      (decodeCall lim b).result = .ok c r → Wire.decode lim b = .ok (ofCall c) r) ∧
    (∀ (b r : Bytes) (c : ReplyMessage),
      (decodeReply b).result = .ok c r → Wire.decode .none b = .ok (ofReply c) r) ∧
    (∀ (lim : Limits) (b r : Bytes) (c : CallMessage), c.mtype = .call →
      Wire.decode lim b = .ok (ofCall c) r → (decodeCall lim b).result =
        if 400 < c.body.cred.body.length then
          .error (.lengthOverflow 400 c.body.cred.body.length) r
        else if 400 < c.body.verf.body.length then
          .error (.lengthOverflow 400 c.body.verf.body.length) r
        else .ok c r) ∧
    (∀ (b r : Bytes) (c : ReplyMessage), c.mtype = .reply →
      Wire.decode .none b = .ok (ofReply c) r → (decodeReply b).result =
        match c.body with
        | .accepted reply =>
          if 400 < reply.verf.body.length then
            .error (.lengthOverflow 400 reply.verf.body.length) r
          else .ok c r
        | .denied _ => .ok c r) := by
  refine ⟨fun c => ⟨?_, ?_⟩, fun c => ⟨?_, ?_⟩, fun lim b r m => decode_message_eq_ok_iff,
    fun lim x body r f => ?_, fun lim x body r f => ?_, fun lim x t body h h' => ?_,
    fun lim b r r' c c' => ?_, fun lim b r c h => ?_, fun b r c h => ?_,
    fun lim b r c hdir h => ?_, fun b r c hdir h => ?_⟩
  · rw [encode_ofCall, encode_call]
  · rw [encode_ofCall, encode_call, envelope_inj, eq_comm]
  · rw [encode_ofReply, encode_reply]
  · rw [encode_ofReply, encode_reply, envelope_inj, eq_comm]
  · have hp : takePreamble (wordBytes x ++ (wordBytes 0 ++ body)) = .ok (x, .call) body :=
      takePreamble_eq_ok_iff.mpr rfl
    intro b
    rw [run_ofCall (b := b) hp, Decoder.map_eq_error_iff]
  · have hp : takePreamble (wordBytes x ++ (wordBytes 1 ++ body)) = .ok (x, .reply) body :=
      takePreamble_eq_ok_iff.mpr rfl
    intro b
    rw [run_ofReply (b := b) hp, Decoder.map_eq_error_iff]
  · have hp : takePreamble (wordBytes x ++ (wordBytes t ++ body)) =
        .error (.unmappedDiscriminant t "MsgType") body := takePreamble_of_ne h h'
    rw [decode_message, decode_call, decode_reply]
    exact ⟨Decoder.bind_of_error hp, Decoder.bind_of_error hp, Decoder.bind_of_error hp⟩
  · rintro ⟨hcall, hreply⟩
    obtain ⟨hc, hdir, -⟩ := decodeCall_eq_ok_iff.mp hcall
    obtain ⟨hc', hdir'⟩ := decode_of_decodeReply hreply
    exact not_call_and_reply hc hdir hc' hdir'
  · obtain ⟨hc, hdir, -⟩ := decodeCall_eq_ok_iff.mp h
    exact decode_ofCall hdir hc
  · obtain ⟨hc, hdir⟩ := decode_of_decodeReply h
    exact decode_ofReply hdir hc
  · have hgenuine : ¬ c.mtype = .reply := by rw [hdir]; decide
    rw [result_decodeCall_of_ok (decode_of_ofCall hdir h), if_neg hgenuine]
  · have hgenuine : ¬ c.mtype = .call := by rw [hdir]; decide
    rw [result_decodeReply_of_ok (decode_of_ofReply hdir h)]
    refine (if_neg hgenuine).trans ?_
    cases c.body with
    | accepted reply => rfl
    | denied reply => rfl

/-- A call is received as a message and not as a reply, a reply is received as a message, and a word
that is no direction is refused by all three. -/
theorem message_agrees_with_envelopes_call_reply_and_stray_word :
    let c : CallMessage := .new 7 ((CallBody.new 100003 3 1).withCred ⟨.short, [1, 2, 3, 4, 5]⟩)
    let w : Bytes := [0, 0, 0, 7, 0, 0, 0, 0, 0, 0, 0, 2, 0, 1, 134, 163, 0, 0, 0, 3, 0, 0, 0, 1,
      0, 0, 0, 2, 0, 0, 0, 5, 1, 2, 3, 4, 5, 0, 0, 0, 0, 0, 0, 0, 0, 0, 0, 0]
    let m : ReplyMessage := .authError 5 .tooWeak
    let u : Bytes := [0, 0, 0, 5, 0, 0, 0, 1, 0, 0, 0, 1, 0, 0, 0, 1, 0, 0, 0, 5]
    ((decodeCall ⟨5, true⟩ (w ++ [9])).result = .ok c [9] ∧
      Wire.decode ⟨5, true⟩ (w ++ [9]) = .ok (Message.ofCall c) [9] ∧
      c.mtype = .call ∧ (decodeCall ⟨5, true⟩ (w ++ [9])).result = .ok c [9]) ∧
    ((decodeReply (u ++ [9])).result = .ok m [9] ∧
      Wire.decode .none (u ++ [9]) = .ok (Message.ofReply m) [9] ∧
      m.mtype = .reply ∧ (decodeReply (u ++ [9])).result = .ok m [9]) ∧
    (2 : UInt32) ≠ 0 ∧ (2 : UInt32) ≠ 1 ∧
      (Wire.decode .none (wordBytes 7 ++ (wordBytes 2 ++ [1])) : Reading Message) =
        .error (.unmappedDiscriminant 2 "MsgType") [1] := by
  obtain ⟨-, -, -, -, -, hstray, -, hcall, hreply, haccept, haccept'⟩ :=
    message_agrees_with_envelopes
  intro c w m u
  have hc : (decodeCall ⟨5, true⟩ (w ++ [9])).result = .ok c [9] := by decide +kernel
  have hm : (decodeReply (u ++ [9])).result = .ok m [9] := by decide +kernel
  have hmessage := hcall ⟨5, true⟩ (w ++ [9]) [9] c hc
  have hmessage' := hreply (u ++ [9]) [9] m hm
  refine ⟨⟨hc, hmessage, rfl, ?_⟩, ⟨hm, hmessage', rfl, ?_⟩, by decide, by decide, ?_⟩
  · exact haccept ⟨5, true⟩ (w ++ [9]) [9] c rfl hmessage
  · exact haccept' (u ++ [9]) [9] m rfl hmessage'
  · exact (hstray .none 7 2 [1] (by decide) (by decide)).1

end OncWire
