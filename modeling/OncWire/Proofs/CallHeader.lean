import Mathlib.Tactic.Common
import OncWire.Proofs.Envelope

/-!
# The header of a call

The bytes of a header are laid out here in full (`CallMessage.form`), with two places
left open: the padding behind the bodies of the credential and of the verifier.  A
header that is written has zero bytes there, and a reader that is not strict allows
any.

What becomes of a laid out header is known for all lengths of the two bodies
(`CallMessage.decode_form`): a body above the limit of the reader ends the reading
behind its length, the credential first.  Only a header that was read is judged by
its direction and by the greatest length of a credential, so these come last.
-/

namespace OncWire

/-- What a reading is worth to who asked for it: the value with the bytes left after it, or the
fault. -/
def Reading.outcome {α : Type} : Reading α → Except Fault (α × Bytes)
  | .ok v rest => .ok (v, rest)
  | .error f _ => .error f

/-- The given bytes may stand as padding behind data of `n` bytes. -/
structure Limits.AllowsPad (lim : Limits) (n : Nat) (pad : Bytes) : Prop where
  /-- They fill the data up to whole units. -/
  length_eq : pad.length = padLength n
  /-- For a strict reader they are zero. -/
  zero_of_strict : lim.strictPadding → ∀ x ∈ pad, x = 0

/-- Zero bytes may stand as padding for every reader. -/
lemma Limits.allowsPad_padding (lim : Limits) (n : Nat) : lim.AllowsPad n (padding n) :=
  ⟨length_padding n, fun _ _ hx => List.eq_of_mem_replicate hx⟩

/-- What a strict reader allows as padding is the padding that is written. -/
lemma Limits.AllowsPad.eq_padding {lim : Limits} {n : Nat} {pad : Bytes}
    (h : lim.AllowsPad n pad) (hstrict : lim.strictPadding) : pad = padding n := by
  rw [padding, ← h.length_eq]
  exact List.eq_replicate_of_mem (h.zero_of_strict hstrict)

/-- Data and its padding fill the least number of whole units that can hold the data. -/
lemma add_padLength_eq (n : Nat) : n + padLength n = 4 * ((n + 3) / 4) := by
  unfold padLength
  omega

/-- What becomes of data whose length is stated as it is. -/
lemma Decoder.data_append {lim : Limits} {bs pad : Bytes} (hbs : bs.length ≤ 4294967295)
    (hpad : lim.AllowsPad bs.length pad) (r : Bytes) :
    data lim (wordBytes (UInt32.ofNat bs.length) ++ (bs ++ (pad ++ r))) =
      if lim.maxLength.toNat < bs.length then
        .error (.lengthOverflow lim.maxLength.toNat bs.length) (bs ++ (pad ++ r))
      else .ok bs r := by
  have hlen : (UInt32.ofNat bs.length).toNat = bs.length := by
    rw [UInt32.toNat_ofNat']
    omega
  have hrest : ¬ (bs ++ (pad ++ r)).length < bs.length * 1 := by
    rw [List.length_append]
    omega
  have hmax : lim.maxLength < UInt32.ofNat bs.length ↔ lim.maxLength.toNat < bs.length := by
    rw [UInt32.lt_iff_toNat_lt, hlen]
  have hlength := length_wordBytes_append lim 1 (UInt32.ofNat bs.length) (bs ++ (pad ++ r))
  simp only [hlen, hmax, if_neg hrest] at hlength
  by_cases hover : lim.maxLength.toNat < bs.length
  · rw [if_pos hover] at hlength ⊢
    exact bind_of_error hlength
  · rw [if_neg hover] at hlength ⊢
    refine (bind_of_ok hlength).trans ?_
    exact padded_eq_ok_iff.mpr ⟨rfl, pad, hpad.length_eq, rfl, hpad.zero_of_strict⟩

/-- Data is taken exactly where it is in front of the input, behind its length and with allowed
padding. -/
lemma Decoder.data_eq_ok_iff {lim : Limits} {b bs r : Bytes} :
    data lim b = .ok bs r ↔ bs.length ≤ lim.maxLength.toNat ∧ ∃ pad, lim.AllowsPad bs.length pad ∧
      b = wordBytes (UInt32.ofNat bs.length) ++ (bs ++ (pad ++ r)) := by
  have hlim := lim.maxLength.toNat_lt
  constructor
  · intro h
    obtain ⟨n, q, hn, hpadded⟩ := bind_eq_ok_iff.mp h
    obtain ⟨hmax, -, rfl⟩ := length_eq_ok_iff.mp hn
    obtain ⟨rfl, pad, hpad, rfl, hstrict⟩ := padded_eq_ok_iff.mp hpadded
    exact ⟨hmax, pad, ⟨hpad, hstrict⟩, rfl⟩
  · rintro ⟨hmax, pad, hpad, rfl⟩
    rw [data_append (by omega) hpad r, if_neg (by omega)]

/-! ### Credentials -/

namespace OpaqueAuth

variable {lim : Limits} {b r : Bytes} {a : OpaqueAuth}

/-- The bytes of a credential, with the given padding behind its body. -/
def form (a : OpaqueAuth) (pad : Bytes) : Bytes :=
  wordBytes (Enumerated.code a.flavor) ++
    (wordBytes (UInt32.ofNat a.body.length) ++ (a.body ++ pad))

/-- The length of a credential. -/
lemma length_form (a : OpaqueAuth) {pad : Bytes} (hpad : pad.length = padLength a.body.length) :
    (a.form pad).length = 8 + 4 * ((a.body.length + 3) / 4) := by
  have hround := add_padLength_eq a.body.length
  unfold form
  simp only [List.length_append, length_wordBytes, hpad]
  omega

/-- A credential is written as its flavor and then its body. -/
lemma encode_eq (a : OpaqueAuth) :
    Wire.encode a = .ofWord (Enumerated.code a.flavor) ++ .data a.body := by
  have hbody : Encoding.data a.body ++ .nothing = .data a.body := Encoding.append_nothing _
  rw [← hbody]
  rfl

/-- A credential is written completely exactly if the length of its body fits a word. -/
lemma fault_encode_eq_none_iff : (Wire.encode a).fault = .none ↔ a.body.length ≤ 4294967295 := by
  rw [encode_eq, Encoding.fault_append_eq_none_iff, Encoding.data,
    Encoding.fault_append_eq_none_iff, Encoding.fault_append_eq_none_iff, Encoding.length]
  by_cases h : a.body.length ≤ 4294967295
  · simp [h, Encoding.ofWord, Encoding.ofBytes]
  · simp [h, Encoding.fail]

/-- A credential is written with zero padding. -/
lemma encode_eq_form (h : a.body.length ≤ 4294967295) :
    Wire.encode a = ⟨a.form (padding a.body.length), .none⟩ := by
  rw [encode_eq, Encoding.data, Encoding.length, if_pos h, Encoding.append_assoc]
  rfl

/-- A credential is read as its flavor and then its body. -/
lemma decode_eq (lim : Limits) : (Wire.decode lim : Decoder OpaqueAuth) = (do
    let flavor ← (Shape.enumeration .authFlavor).decode lim
    return ⟨flavor, ← Decoder.data lim⟩) := by
  rw [Wire.decode]
  simp only [Wire.shape, Shape.decode, bind_assoc, pure_bind]
  rfl

/-- The flavor in front of a credential is read as that flavor. -/
lemma decode_flavor (flavor : AuthFlavor) (r : Bytes) :
    (Shape.enumeration .authFlavor).decode lim (wordBytes (Enumerated.code flavor) ++ r) =
      .ok flavor r :=
  Shape.decode_word_eq_ok_iff.mpr
    ⟨Enumerated.code flavor, Word.decode_of_encode (k := .enumeration .authFlavor) rfl, rfl⟩

/-- What becomes of a laid out credential. -/
lemma decode_form {pad : Bytes} (hbody : a.body.length ≤ 4294967295)
    (hpad : lim.AllowsPad a.body.length pad) (r : Bytes) :
    Wire.decode lim (a.form pad ++ r) =
      if lim.maxLength.toNat < a.body.length then
        .error (.lengthOverflow lim.maxLength.toNat a.body.length) (a.body ++ (pad ++ r))
      else .ok a r := by
  have hdata := Decoder.data_append hbody hpad r
  rw [decode_eq, form, List.append_assoc, List.append_assoc, List.append_assoc,
    Decoder.bind_of_ok (decode_flavor a.flavor _)]
  by_cases hmax : lim.maxLength.toNat < a.body.length
  · rw [if_pos hmax] at hdata ⊢
    exact Decoder.bind_of_error hdata
  · rw [if_neg hmax] at hdata ⊢
    exact Decoder.bind_of_ok hdata

/-- A credential that is read is laid out in front of the input. -/
lemma form_of_decode (h : Wire.decode lim b = .ok a r) :
    a.body.length ≤ lim.maxLength.toNat ∧
      ∃ pad, lim.AllowsPad a.body.length pad ∧ b = a.form pad ++ r := by
  rw [decode_eq] at h
  obtain ⟨flavor, q, hflavor, hrest⟩ := Decoder.bind_eq_ok_iff.mp h
  obtain ⟨body, q', hbody, hpure⟩ := Decoder.bind_eq_ok_iff.mp hrest
  cases hpure
  obtain ⟨x, hx, rfl⟩ := Shape.decode_word_eq_ok_iff.mp hflavor
  obtain rfl : Enumerated.code flavor = x := Except.ok.inj (Word.encode_of_decode hx)
  obtain ⟨hmax, pad, hpad, rfl⟩ := Decoder.data_eq_ok_iff.mp hbody
  refine ⟨hmax, pad, hpad, ?_⟩
  unfold form
  simp only [List.append_assoc]

end OpaqueAuth

/-! ### Calls -/

namespace CallBody

variable {lim : Limits} {b r p q : Bytes} {c : CallBody}

/-- The bytes of the body of a call, with the given padding behind its credential and its
verifier. -/
def form (c : CallBody) (p q : Bytes) : Bytes :=
  wordBytes c.rpcvers ++ (wordBytes c.prog ++ (wordBytes c.vers ++ (wordBytes c.proc ++
    (c.cred.form p ++ c.verf.form q))))

/-- The body of a call is written word by word, then its credential and its verifier. -/
lemma encode_eq (c : CallBody) :
    Wire.encode c = .ofWord c.rpcvers ++ (.ofWord c.prog ++ (.ofWord c.vers ++ (.ofWord c.proc ++
      (Wire.encode c.cred ++ Wire.encode c.verf)))) := by
  have hverf : Wire.encode c.verf ++ .nothing = Wire.encode c.verf := Encoding.append_nothing _
  rw [← hverf]
  rfl

/-- The body of a call is read word by word, then its credential and its verifier. -/
lemma decode_eq (lim : Limits) : (Wire.decode lim : Decoder CallBody) = (do
    let rpcvers ← Decoder.word
    let prog ← Decoder.word
    let vers ← Decoder.word
    let proc ← Decoder.word
    let cred ← Wire.decode lim
    return ⟨rpcvers, prog, vers, proc, cred, ← Wire.decode lim⟩) := by
  simp only [Wire.decode, Wire.shape, Shape.decode, Word.decode, Decoder.ofExcept, bind_assoc,
    pure_bind]
  rfl

/-- What becomes of the laid out body of a call: the credential comes before the verifier. -/
lemma decode_form (hcred : c.cred.body.length ≤ 4294967295)
    (hverf : c.verf.body.length ≤ 4294967295) (hp : lim.AllowsPad c.cred.body.length p)
    (hq : lim.AllowsPad c.verf.body.length q) (r : Bytes) :
    Wire.decode lim (c.form p q ++ r) =
      if lim.maxLength.toNat < c.cred.body.length then
        .error (.lengthOverflow lim.maxLength.toNat c.cred.body.length)
          (c.cred.body ++ (p ++ (c.verf.form q ++ r)))
      else if lim.maxLength.toNat < c.verf.body.length then
        .error (.lengthOverflow lim.maxLength.toNat c.verf.body.length)
          (c.verf.body ++ (q ++ r))
      else .ok c r := by
  have hreadCred := OpaqueAuth.decode_form hcred hp (c.verf.form q ++ r)
  have hreadVerf := OpaqueAuth.decode_form hverf hq r
  rw [decode_eq, form]
  simp only [List.append_assoc]
  rw [Decoder.bind_of_ok (Decoder.word_append c.rpcvers _),
    Decoder.bind_of_ok (Decoder.word_append c.prog _),
    Decoder.bind_of_ok (Decoder.word_append c.vers _),
    Decoder.bind_of_ok (Decoder.word_append c.proc _)]
  by_cases hover : lim.maxLength.toNat < c.cred.body.length
  · rw [if_pos hover] at hreadCred ⊢
    exact Decoder.bind_of_error hreadCred
  · rw [if_neg hover] at hreadCred ⊢
    rw [Decoder.bind_of_ok hreadCred]
    by_cases hover' : lim.maxLength.toNat < c.verf.body.length
    · rw [if_pos hover'] at hreadVerf ⊢
      exact Decoder.bind_of_error hreadVerf
    · rw [if_neg hover'] at hreadVerf ⊢
      exact Decoder.bind_of_ok hreadVerf

/-- The body of a call that is read is laid out in front of the input. -/
lemma form_of_decode (h : Wire.decode lim b = .ok c r) :
    c.cred.body.length ≤ lim.maxLength.toNat ∧ c.verf.body.length ≤ lim.maxLength.toNat ∧
      ∃ p q, lim.AllowsPad c.cred.body.length p ∧ lim.AllowsPad c.verf.body.length q ∧
        b = c.form p q ++ r := by
  rw [decode_eq] at h
  simp only [Decoder.bind_eq_ok_iff, Decoder.word_eq_ok_iff] at h
  obtain ⟨rpcvers, _, rfl, prog, _, rfl, vers, _, rfl, proc, _, rfl, cred, _, hcred, verf, _,
    hverf, hpure⟩ := h
  cases hpure
  obtain ⟨hmax, p, hp, rfl⟩ := OpaqueAuth.form_of_decode hcred
  obtain ⟨hmax', q, hq, rfl⟩ := OpaqueAuth.form_of_decode hverf
  refine ⟨hmax, hmax', p, q, hp, hq, ?_⟩
  unfold form
  simp only [List.append_assoc]

end CallBody

namespace CallMessage

variable {lim : Limits} {b r p q : Bytes} {c : CallMessage}

/-- The bytes of the header of a call, with the given padding behind its credential and its
verifier. -/
def form (c : CallMessage) (p q : Bytes) : Bytes :=
  wordBytes c.xid ++ (wordBytes (Enumerated.code c.mtype) ++ c.body.form p q)

/-- The length of a header: forty bytes, and whole units for the two bodies. -/
lemma length_form (hp : p.length = padLength c.body.cred.body.length)
    (hq : q.length = padLength c.body.verf.body.length) :
    (c.form p q).length = 40 + 4 * ((c.body.cred.body.length + 3) / 4) +
      4 * ((c.body.verf.body.length + 3) / 4) := by
  have hcred := c.body.cred.length_form hp
  have hverf := c.body.verf.length_form hq
  unfold form CallBody.form
  simp only [List.length_append, length_wordBytes, hcred, hverf]
  omega

/-- A header is written completely exactly if the lengths of both bodies fit a word. -/
lemma fault_encode_eq_none_iff : (Wire.encode c).fault = none ↔
    c.body.cred.body.length ≤ 4294967295 ∧ c.body.verf.body.length ≤ 4294967295 := by
  have hword : ∀ w : UInt32, (Encoding.ofWord w).fault = none := fun _ => rfl
  rw [Message.encode_call, CallBody.encode_eq]
  simp only [Encoding.fault_append_eq_none_iff, hword, true_and,
    OpaqueAuth.fault_encode_eq_none_iff]

/-- A header is written with zero padding. -/
lemma encode_eq_form (h : c.body.cred.body.length ≤ 4294967295)
    (h' : c.body.verf.body.length ≤ 4294967295) :
    Wire.encode c = ⟨c.form (padding c.body.cred.body.length)
      (padding c.body.verf.body.length), none⟩ := by
  rw [Message.encode_call, CallBody.encode_eq, OpaqueAuth.encode_eq_form h,
    OpaqueAuth.encode_eq_form h']
  rfl

/-- What becomes of a laid out header when it is read. -/
lemma decode_form (hcred : c.body.cred.body.length ≤ 4294967295)
    (hverf : c.body.verf.body.length ≤ 4294967295)
    (hp : lim.AllowsPad c.body.cred.body.length p)
    (hq : lim.AllowsPad c.body.verf.body.length q) (r : Bytes) :
    Wire.decode lim (c.form p q ++ r) =
      if lim.maxLength.toNat < c.body.cred.body.length then
        .error (.lengthOverflow lim.maxLength.toNat c.body.cred.body.length)
          (c.body.cred.body ++ (p ++ (c.body.verf.form q ++ r)))
      else if lim.maxLength.toNat < c.body.verf.body.length then
        .error (.lengthOverflow lim.maxLength.toNat c.body.verf.body.length)
          (c.body.verf.body ++ (q ++ r))
      else .ok c r := by
  have hbody := CallBody.decode_form hcred hverf hp hq r
  have hpreamble : Message.takePreamble (c.form p q ++ r) =
      .ok (c.xid, c.mtype) (c.body.form p q ++ r) := by
    refine Message.takePreamble_eq_ok_iff.mpr ?_
    unfold form
    simp only [List.append_assoc]
  rw [Message.decode_call, Decoder.bind_of_ok hpreamble]
  by_cases hover : lim.maxLength.toNat < c.body.cred.body.length
  · rw [if_pos hover] at hbody ⊢
    exact Decoder.bind_of_error hbody
  · rw [if_neg hover] at hbody ⊢
    by_cases hover' : lim.maxLength.toNat < c.body.verf.body.length
    · rw [if_pos hover'] at hbody ⊢
      exact Decoder.bind_of_error hbody
    · rw [if_neg hover'] at hbody ⊢
      exact Decoder.bind_of_ok hbody

/-- A header that is read is laid out in front of the input. -/
lemma form_of_decode (h : Wire.decode lim b = .ok c r) :
    c.body.cred.body.length ≤ lim.maxLength.toNat ∧
      c.body.verf.body.length ≤ lim.maxLength.toNat ∧
      ∃ p q, lim.AllowsPad c.body.cred.body.length p ∧
        lim.AllowsPad c.body.verf.body.length q ∧ b = c.form p q ++ r := by
  obtain ⟨q', hpreamble, hbody⟩ := Message.decode_call_eq_ok_iff.mp h
  obtain ⟨hmax, hmax', p, q, hp, hq, rfl⟩ := CallBody.form_of_decode hbody
  refine ⟨hmax, hmax', p, q, hp, hq, ?_⟩
  rw [Message.takePreamble_eq_ok_iff.mp hpreamble]
  unfold form
  simp only [List.append_assoc]

end CallMessage

/-! ### The law -/

/-- Receiving a call undoes writing its header, within limits.

A header that was written completely is refused for the first of these that it runs into: the limit
of the reader on its credential, the same on its verifier, its direction, the greatest length of a
credential, the same for its verifier.  Otherwise it is received as it was, with the bytes after it.

Conversely, what is received is a call within both limits, and its header takes the bytes that it is
written as, up to padding: forty bytes, and whole units for the bodies of its credential and
verifier. -/
theorem decodeCall_inverts_encode :
    (∀ (c : CallMessage) (lim : Limits) (w args : Bytes), Wire.encode c = ⟨w, none⟩ →
      Reading.outcome (decodeCall lim (w ++ args)).result =
        if lim.maxLength.toNat < c.body.cred.body.length then
          .error (.lengthOverflow lim.maxLength.toNat c.body.cred.body.length)
        else if lim.maxLength.toNat < c.body.verf.body.length then
          .error (.lengthOverflow lim.maxLength.toNat c.body.verf.body.length)
        else if c.mtype = .reply then .error (.unexpectedMessageType .call .reply)
        else if 400 < c.body.cred.body.length then
          .error (.lengthOverflow 400 c.body.cred.body.length)
        else if 400 < c.body.verf.body.length then
          .error (.lengthOverflow 400 c.body.verf.body.length)
        else .ok (c, args)) ∧
    ∀ (lim : Limits) (b rest : Bytes) (c : CallMessage),
      (decodeCall lim b).result = .ok c rest →
      c.mtype = .call ∧ c.body.cred.body.length ≤ 400 ∧ c.body.verf.body.length ≤ 400 ∧
        c.body.cred.body.length ≤ lim.maxLength.toNat ∧
        c.body.verf.body.length ≤ lim.maxLength.toNat ∧
        ∃ p q, p.length = padLength c.body.cred.body.length ∧
          q.length = padLength c.body.verf.body.length ∧ b = c.form p q ++ rest ∧
          Wire.encode c = ⟨c.form (padding c.body.cred.body.length)
            (padding c.body.verf.body.length), none⟩ ∧
          (lim.strictPadding → Wire.encode c = ⟨c.form p q, none⟩) ∧
          (c.form p q).length = 40 + 4 * ((c.body.cred.body.length + 3) / 4) +
            4 * ((c.body.verf.body.length + 3) / 4) := by
  constructor
  · intro c lim w args hw
    have hfit : (Wire.encode c).fault = none := by rw [hw]
    obtain ⟨hcred, hverf⟩ := CallMessage.fault_encode_eq_none_iff.mp hfit
    have hform := CallMessage.encode_eq_form hcred hverf
    obtain rfl : w = _ := congrArg Encoding.bytes (hw.symm.trans hform)
    have hread := CallMessage.decode_form hcred hverf (lim.allowsPad_padding _)
      (lim.allowsPad_padding _) args
    by_cases hover : lim.maxLength.toNat < c.body.cred.body.length
    · rw [if_pos hover] at hread ⊢
      rw [decodeCall, result_receive_of_error hread]
      rfl
    · rw [if_neg hover] at hread ⊢
      by_cases hover' : lim.maxLength.toNat < c.body.verf.body.length
      · rw [if_pos hover'] at hread ⊢
        rw [decodeCall, result_receive_of_error hread]
        rfl
      · rw [if_neg hover'] at hread ⊢
        rw [result_decodeCall_of_ok hread]
        unfold Reading.outcome
        split_ifs <;> rfl
  · intro lim b rest c h
    obtain ⟨hread, hdir, hcred, hverf⟩ := decodeCall_eq_ok_iff.mp h
    obtain ⟨hmax, hmax', p, q, hp, hq, hb⟩ := CallMessage.form_of_decode hread
    have hform := CallMessage.encode_eq_form (c := c) (by omega) (by omega)
    refine ⟨hdir, hcred, hverf, hmax, hmax', p, q, hp.length_eq, hq.length_eq, hb, hform,
      fun hstrict => ?_, CallMessage.length_form hp.length_eq hq.length_eq⟩
    rw [hform, ← hp.eq_padding hstrict, ← hq.eq_padding hstrict]

/-- The direction of a reply where a call is expected is reported by the two codes. -/
example : (Fault.unexpectedMessageType .call .reply).message =
    "unexpected message type 1 (expected 0)" := by decide +kernel

/-- A call whose verifier is above the limit of the reader and that goes in the other direction is
refused for the verifier; without that limit it is refused for its direction; and as a call it is
received, with the bytes of its header written again for a strict reader. -/
theorem decodeCall_inverts_encode_five_byte_verifier :
    let c : CallMessage := ⟨7, .reply, (CallBody.new 100003 3 1).withVerf ⟨.short, [1, 2, 3, 4, 5]⟩⟩
    let m : CallMessage := { c with mtype := .call }
    let w : Bytes := [0, 0, 0, 7, 0, 0, 0, 1, 0, 0, 0, 2, 0, 1, 134, 163, 0, 0, 0, 3, 0, 0, 0, 1,
      0, 0, 0, 0, 0, 0, 0, 0, 0, 0, 0, 2, 0, 0, 0, 5, 1, 2, 3, 4, 5, 0, 0, 0]
    let u : Bytes := [0, 0, 0, 7, 0, 0, 0, 0, 0, 0, 0, 2, 0, 1, 134, 163, 0, 0, 0, 3, 0, 0, 0, 1,
      0, 0, 0, 0, 0, 0, 0, 0, 0, 0, 0, 2, 0, 0, 0, 5, 1, 2, 3, 4, 5, 0, 0, 0]
    (Wire.encode c = ⟨w, none⟩ ∧
      Reading.outcome (decodeCall ⟨4, false⟩ (w ++ [9])).result = .error (.lengthOverflow 4 5) ∧
      Reading.outcome (decodeCall .none (w ++ [9])).result =
        .error (.unexpectedMessageType .call .reply)) ∧
    (decodeCall ⟨5, true⟩ (u ++ [9])).result = .ok m [9] ∧
      ∃ v, u ++ [9] = v ++ [9] ∧ v.length = 48 ∧ Wire.encode m = ⟨v, none⟩ := by
  intro c m w u
  have hw : Wire.encode c = ⟨w, none⟩ := by decide +kernel
  have hm : (decodeCall ⟨5, true⟩ (u ++ [9])).result = .ok m [9] := by decide +kernel
  refine ⟨⟨hw, ?_, ?_⟩, hm, ?_⟩
  · exact (decodeCall_inverts_encode.1 c ⟨4, false⟩ w [9] hw).trans rfl
  · exact (decodeCall_inverts_encode.1 c .none w [9] hw).trans rfl
  · obtain ⟨-, -, -, -, -, p, q, -, -, hb, -, hexact, hlen⟩ :=
      decodeCall_inverts_encode.2 ⟨5, true⟩ (u ++ [9]) [9] m hm
    have hcred : m.body.cred.body.length = 0 := rfl
    have hverf : m.body.verf.body.length = 5 := rfl
    rw [hcred, hverf] at hlen
    exact ⟨m.form p q, hb, hlen, hexact rfl⟩

end OncWire
