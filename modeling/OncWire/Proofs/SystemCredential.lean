import Mathlib.Tactic.Common
import OncWire.Proofs.CallHeader
import OncWire.Proofs.Layout

/-!
# Credentials of the system flavor

The parameters of a credential of the system flavor are wrapped in its body and opened
again, each within the same limits: a machine name of at most 255 bytes and at
most 16 groups.

The body is laid out here in full (`AuthSysParms.form`), with the padding behind
the machine name left open.  Within the limits it has at most 340 bytes for any padding
(`AuthSysParms.length_form_le`), so a credential that is wrapped is never too long
for the header of a call, and a body that opens never was.  Opening reads exactly the
laid out bodies (`OpaqueAuth.result_sysParms_eq_ok_iff`), and wrapping writes the one
with zero padding (`OpaqueAuth.ofSysParms_eq`).
-/

namespace OncWire

/-- The length of the UTF-8 form of a string. -/
lemma length_utf8 (s : String) : (utf8 s).length = s.utf8ByteSize := Array.length_toList

/-- Words are taken one by one exactly where they are in front of the input. -/
lemma Decoder.times_word_eq_ok_iff {n : Nat} {b r : Bytes}
    {ws : { items : List UInt32 // items.length = n }} :
    times word n b = .ok ws r ↔ b = ws.val.flatMap wordBytes ++ r := by
  induction n generalizing b with
  | zero =>
    obtain ⟨ws, hws⟩ := ws
    obtain rfl := List.length_eq_zero_iff.mp hws
    constructor
    · intro h
      cases h
      rfl
    · rintro rfl
      rfl
  | succ n ih =>
    obtain ⟨ws, hws⟩ := ws
    obtain ⟨w, ws, rfl⟩ := List.exists_cons_of_length_eq_add_one hws
    rw [times_succ_eq_ok_iff, List.flatMap_cons, List.append_assoc]
    constructor
    · rintro ⟨x, q, ys, hx, hys, hcons⟩
      obtain ⟨rfl, rfl⟩ := List.cons.inj hcons
      rw [word_eq_ok_iff.mp hx, ih.mp hys]
    · rintro rfl
      exact ⟨w, _, ⟨ws, Nat.succ.inj hws⟩, word_append w _, ih.mpr rfl, rfl⟩

/-- Words take four bytes each. -/
lemma length_flatMap_wordBytes (ws : List UInt32) :
    (ws.flatMap wordBytes).length = 4 * ws.length := by
  induction ws with
  | nil => rfl
  | cons w ws ih =>
    rw [List.flatMap_cons, List.length_append, length_wordBytes, ih, List.length_cons]
    omega

/-- Words that are the items of a counted run are written one after another. -/
lemma Encoding.concat_item_ofWord (ws : List UInt32) :
    concat (ws.map fun w => (ofWord w).item) = ofBytes (ws.flatMap wordBytes) := by
  induction ws with
  | nil => rfl
  | cons w ws ih =>
    rw [List.map_cons, concat_cons, ih, (HasUnit.ofWord w).item_eq, ofWord, ofBytes_append_ofBytes,
      List.flatMap_cons]

/-! ### Parameters -/

namespace AuthSysParms

variable {lim : Limits} {b r pad : Bytes} {p : AuthSysParms}

/-- The machine name and the number of groups are within their limits. -/
structure WithinLimits (p : AuthSysParms) : Prop where
  /-- The machine name has at most 255 bytes. -/
  machineName_le : p.machineName.utf8ByteSize ≤ 255
  /-- There are at most 16 groups. -/
  gids_le : p.gids.length ≤ 16

/-- The bytes of parameters, with the given padding behind the machine name. -/
def form (p : AuthSysParms) (pad : Bytes) : Bytes :=
  wordBytes p.stamp ++ (wordBytes (UInt32.ofNat p.machineName.utf8ByteSize) ++
    (utf8 p.machineName ++ (pad ++ (wordBytes p.uid ++ (wordBytes p.gid ++
      (wordBytes (UInt32.ofNat p.gids.length) ++ p.gids.flatMap wordBytes))))))

/-- The length of parameters: five words, whole units for the machine name, and the groups. -/
lemma length_form (hpad : pad.length = padLength p.machineName.utf8ByteSize) :
    (p.form pad).length =
      20 + 4 * ((p.machineName.utf8ByteSize + 3) / 4) + 4 * p.gids.length := by
  have hround := add_padLength_eq p.machineName.utf8ByteSize
  unfold form
  simp only [List.length_append, length_wordBytes, length_utf8, length_flatMap_wordBytes, hpad]
  omega

/-- Within the limits parameters take at most 340 bytes. -/
lemma length_form_le (h : p.WithinLimits)
    (hpad : pad.length = padLength p.machineName.utf8ByteSize) : (p.form pad).length ≤ 340 := by
  have hname := h.machineName_le
  have hgids := h.gids_le
  rw [length_form hpad]
  omega

/-- The fault of parameters above a limit, as comparisons. -/
lemma oversize?_eq (p : AuthSysParms) : p.oversize? =
    if 255 < p.machineName.utf8ByteSize then
      some (.lengthOverflow 255 p.machineName.utf8ByteSize)
    else if 16 < p.gids.length then some (.lengthOverflow 16 p.gids.length)
    else none := by
  unfold oversize? Fault.ofLength? maxMachineName maxAuthGids
  by_cases hname : 255 < p.machineName.utf8ByteSize
  · rw [if_pos hname, if_pos hname]
    rfl
  · rw [if_neg hname, if_neg hname]
    rfl

/-- No limit is exceeded exactly when both are kept. -/
lemma oversize?_eq_none_iff : p.oversize? = none ↔ p.WithinLimits := by
  rw [oversize?_eq]
  constructor
  · intro h
    by_cases hname : 255 < p.machineName.utf8ByteSize
    · rw [if_pos hname] at h
      cases h
    · rw [if_neg hname] at h
      by_cases hgids : 16 < p.gids.length
      · rw [if_pos hgids] at h
        cases h
      · exact ⟨Nat.not_lt.mp hname, Nat.not_lt.mp hgids⟩
  · rintro ⟨hname, hgids⟩
    rw [if_neg (Nat.not_lt.mpr hname), if_neg (Nat.not_lt.mpr hgids)]

/-- Parameters are written one after another. -/
lemma encode_eq (p : AuthSysParms) :
    Wire.encode p = .ofWord p.stamp ++ (.data (utf8 p.machineName) ++ (.ofWord p.uid ++
      (.ofWord p.gid ++ (.length p.gids.length ++ .ofBytes (p.gids.flatMap wordBytes))))) := by
  have hgids : (Shape.seq .known .uint32).encode ⟨p.gids, none⟩ =
      .length p.gids.length ++ .ofBytes (p.gids.flatMap wordBytes) := by
    rw [← Encoding.concat_item_ofWord, Shape.encode_seq]
    rfl
  rw [← hgids, ← Encoding.append_nothing (Shape.encode _ _)]
  rfl

/-- Within the limits parameters are written with zero padding. -/
lemma encode_eq_form (h : p.WithinLimits) :
    Wire.encode p = ⟨p.form (padding p.machineName.utf8ByteSize), none⟩ := by
  have hname : (utf8 p.machineName).length ≤ 4294967295 := by
    have := h.machineName_le
    rw [length_utf8]
    omega
  have hgids : p.gids.length ≤ 4294967295 := by
    have := h.gids_le
    omega
  rw [encode_eq, Encoding.data, Encoding.length, if_pos hname, Encoding.length, if_pos hgids,
    length_utf8, Encoding.append_assoc]
  rfl

/-- Parameters are read one after another. -/
lemma decode_eq (lim : Limits) : (Wire.decode lim : Decoder AuthSysParms) = (do
    let stamp ← Decoder.word
    let machineName ← Decoder.text lim
    let uid ← Decoder.word
    let gid ← Decoder.word
    let n ← Decoder.length lim 4
    return ⟨stamp, machineName, uid, gid, (← Decoder.times Decoder.word n).val⟩) := by
  simp only [Wire.decode, Wire.shape, Shape.decode, Word.decode_uint32, Decoder.ofExcept,
    bind_assoc, pure_bind, bind_pure]
  rfl

/-- Parameters are read exactly where they are laid out in front of the input. -/
lemma decode_eq_ok_iff : Wire.decode lim b = .ok p r ↔
    p.machineName.utf8ByteSize ≤ lim.maxLength.toNat ∧ p.gids.length ≤ lim.maxLength.toNat ∧
      ∃ pad, lim.AllowsPad p.machineName.utf8ByteSize pad ∧ b = p.form pad ++ r := by
  rw [decode_eq, ← length_utf8]
  simp only [Decoder.bind_eq_ok_iff, Decoder.word_eq_ok_iff, Decoder.text_eq_ok_iff,
    Decoder.data_eq_ok_iff, Decoder.length_eq_ok_iff, Decoder.times_word_eq_ok_iff]
  unfold form
  simp only [List.append_assoc]
  constructor
  · rintro ⟨stamp, _, rfl, name, _, ⟨hname, pad, hpad, rfl⟩, uid, _, rfl, gid, _, rfl, n, _,
      ⟨hn, -, rfl⟩, ⟨gids, rfl⟩, _, rfl, hpure⟩
    cases hpure
    refine ⟨hname, hn, pad, hpad, ?_⟩
    rw [length_utf8]
  · rintro ⟨hname, hgids, pad, hpad, rfl⟩
    have hleft : p.gids.length * 4 ≤ (p.gids.flatMap wordBytes ++ r).length := by
      rw [List.length_append, length_flatMap_wordBytes]
      omega
    refine ⟨p.stamp, _, rfl, p.machineName, _, ⟨hname, pad, hpad, ?_⟩, p.uid, _, rfl, p.gid, _,
      rfl, p.gids.length, _, ⟨hgids, hleft, rfl⟩, ⟨p.gids, rfl⟩, _, rfl, rfl⟩
    rw [length_utf8]

end AuthSysParms

/-! ### Wrapping and opening -/

namespace OpaqueAuth

variable {a : OpaqueAuth} {p : AuthSysParms}

/-- Within the limits parameters are wrapped: their body never exceeds that of a credential. -/
lemma ofSysParms_of_withinLimits (h : p.WithinLimits) :
    ofSysParms p = .ok ⟨.sys, p.form (padding p.machineName.utf8ByteSize)⟩ := by
  have hparms : p.oversize? = Option.none := AuthSysParms.oversize?_eq_none_iff.mpr h
  have hlen := AuthSysParms.length_form_le h (length_padding p.machineName.utf8ByteSize)
  have hauth : oversize? ⟨.sys, p.form (padding p.machineName.utf8ByteSize)⟩ = Option.none := by
    rw [oversize?_eq, if_neg (Nat.not_lt.mpr (Nat.le_trans hlen (by decide)))]
  unfold ofSysParms
  rw [hparms, AuthSysParms.encode_eq_form h]
  simp only [Encoding.toExcept, bind, Except.bind, hauth]
  rfl

/-- Parameters above a limit are refused, for the machine name before the groups, and all others are
wrapped with zero padding. -/
lemma ofSysParms_eq (p : AuthSysParms) :
    ofSysParms p =
      if 255 < p.machineName.utf8ByteSize then
        .error (.lengthOverflow 255 p.machineName.utf8ByteSize)
      else if 16 < p.gids.length then .error (.lengthOverflow 16 p.gids.length)
      else .ok ⟨.sys, p.form (padding p.machineName.utf8ByteSize)⟩ := by
  have hparms := p.oversize?_eq
  by_cases hname : 255 < p.machineName.utf8ByteSize
  · rw [if_pos hname] at hparms ⊢
    rw [ofSysParms, hparms]
    rfl
  · by_cases hgids : 16 < p.gids.length
    · rw [if_neg hname, if_pos hgids] at hparms ⊢
      rw [ofSysParms, hparms]
      rfl
    · rw [if_neg hname, if_neg hgids]
      exact ofSysParms_of_withinLimits ⟨Nat.not_lt.mp hname, Nat.not_lt.mp hgids⟩

/-- Parameters are wrapped exactly within the limits. -/
lemma ofSysParms_eq_ok_iff :
    ofSysParms p = .ok a ↔
      p.WithinLimits ∧ a = ⟨.sys, p.form (padding p.machineName.utf8ByteSize)⟩ := by
  constructor
  · intro h
    have heq := ofSysParms_eq p
    rw [h] at heq
    split_ifs at heq with hname hgids
    exact ⟨⟨Nat.not_lt.mp hname, Nat.not_lt.mp hgids⟩, Except.ok.inj heq⟩
  · rintro ⟨hlimits, rfl⟩
    exact ofSysParms_of_withinLimits hlimits

/-- A body is opened exactly if it is all that is laid out of parameters within the limits, with any
padding. -/
lemma sysParmsOfBody_eq_ok_iff {body : Bytes} :
    sysParmsOfBody body = .ok p ↔ p.WithinLimits ∧
      ∃ pad, pad.length = padLength p.machineName.utf8ByteSize ∧ body = p.form pad := by
  constructor
  · intro h
    unfold sysParmsOfBody at h
    split at h
    case h_1 => cases h
    case h_2 p' rest hread =>
      split at h
      case isFalse => cases h
      case isTrue hrest =>
        split at h
        case h_1 => cases h
        case h_2 hlimits =>
          cases h
          obtain ⟨-, -, pad, hpad, hbody⟩ := AuthSysParms.decode_eq_ok_iff.mp hread
          rw [hrest, List.append_nil] at hbody
          exact ⟨AuthSysParms.oversize?_eq_none_iff.mp hlimits, pad, hpad.length_eq, hbody⟩
  · rintro ⟨hlimits, pad, hpad, rfl⟩
    have hname := hlimits.machineName_le
    have hgids := hlimits.gids_le
    have hmax : Limits.none.maxLength.toNat = 4294967295 := rfl
    -- A reader without limits allows any bytes as padding.
    have hallows : Limits.none.AllowsPad p.machineName.utf8ByteSize pad :=
      ⟨hpad, fun hstrict => absurd hstrict Bool.false_ne_true⟩
    have hread : Wire.decode .none (p.form pad) = .ok p [] :=
      AuthSysParms.decode_eq_ok_iff.mpr
        ⟨by omega, by omega, pad, hallows, (List.append_nil _).symm⟩
    rw [sysParmsOfBody, hread]
    simp only [if_true, AuthSysParms.oversize?_eq_none_iff.mpr hlimits]

/-- A credential is opened exactly if it is of the system flavor and its body is opened. -/
lemma result_sysParms_eq_ok_iff :
    a.sysParms.result = .ok p ↔ a.flavor = .sys ∧ p.WithinLimits ∧
      ∃ pad, pad.length = padLength p.machineName.utf8ByteSize ∧ a.body = p.form pad := by
  rw [← sysParmsOfBody_eq_ok_iff]
  unfold sysParms
  by_cases hflavor : a.flavor = .sys
  · simp [hflavor]
  · simp [hflavor]

end OpaqueAuth

/-! ### The law -/

/-- Wrapping the parameters of a credential and opening it are inverse, within the same limits.

Wrapping fails for a machine name above 255 bytes, and else for more than 16 groups, and otherwise
it yields a credential of the system flavor; its body has at most 340 bytes, so the greatest length
of a body refuses none.  Such a credential opens to the parameters.

A credential that opens is of the system flavor with a body of at most 340 bytes.  Its parameters
can be wrapped, and then the body is the same up to the padding behind the machine name, which is
zero.

A call with such a credential is received as it was written, whatever the arguments behind it, and
its credential opens to the parameters. -/
theorem sysParms_inverts_ofSysParms :
    (∀ p : AuthSysParms, OpaqueAuth.ofSysParms p =
      if 255 < p.machineName.utf8ByteSize then
        .error (.lengthOverflow 255 p.machineName.utf8ByteSize)
      else if 16 < p.gids.length then .error (.lengthOverflow 16 p.gids.length)
      else .ok ⟨.sys, p.form (padding p.machineName.utf8ByteSize)⟩) ∧
    (∀ (p : AuthSysParms) (a : OpaqueAuth), OpaqueAuth.ofSysParms p = .ok a →
      a.flavor = .sys ∧ a.body.length ≤ 340 ∧ a.sysParms.result = .ok p) ∧
    (∀ (a : OpaqueAuth) (p : AuthSysParms), a.sysParms.result = .ok p →
      a.flavor = .sys ∧ a.body.length ≤ 340 ∧ p.machineName.utf8ByteSize ≤ 255 ∧
        p.gids.length ≤ 16 ∧ ∃ pad, pad.length = padLength p.machineName.utf8ByteSize ∧
          a.body = p.form pad ∧
          OpaqueAuth.ofSysParms p = .ok ⟨.sys, p.form (padding p.machineName.utf8ByteSize)⟩) ∧
    ∀ (p : AuthSysParms) (a : OpaqueAuth) (lim : Limits) (xid prog vers proc : UInt32)
      (args : Bytes), OpaqueAuth.ofSysParms p = .ok a → 340 ≤ lim.maxLength.toNat →
      let c := CallMessage.new xid ((CallBody.new prog vers proc).withCred a)
      ∃ w, Wire.encode c = ⟨w, none⟩ ∧ (decodeCall lim (w ++ args)).result = .ok c args ∧
        c.body.cred.sysParms.result = .ok p := by
  have hopens (p : AuthSysParms) (a : OpaqueAuth) (h : OpaqueAuth.ofSysParms p = .ok a) :
      a.flavor = .sys ∧ a.body.length ≤ 340 ∧ a.sysParms.result = .ok p := by
    obtain ⟨hlimits, rfl⟩ := OpaqueAuth.ofSysParms_eq_ok_iff.mp h
    have hpad := length_padding p.machineName.utf8ByteSize
    exact ⟨rfl, AuthSysParms.length_form_le hlimits hpad,
      OpaqueAuth.result_sysParms_eq_ok_iff.mpr ⟨rfl, hlimits, _, hpad, rfl⟩⟩
  refine ⟨OpaqueAuth.ofSysParms_eq, hopens, fun a p h => ?_, ?_⟩
  · obtain ⟨hflavor, hlimits, pad, hpad, hbody⟩ := OpaqueAuth.result_sysParms_eq_ok_iff.mp h
    refine ⟨hflavor, ?_, hlimits.machineName_le, hlimits.gids_le, pad, hpad, hbody,
      OpaqueAuth.ofSysParms_of_withinLimits hlimits⟩
    rw [hbody]
    exact AuthSysParms.length_form_le hlimits hpad
  · intro p a lim xid prog vers proc args h hlim c
    obtain ⟨-, hbody, hparms⟩ := hopens p a h
    have hcred : c.body.cred.body.length ≤ 340 := hbody
    have hverf : c.body.verf.body.length = 0 := rfl
    have hread := CallMessage.decode_form (c := c) (by omega) (by omega)
      (lim.allowsPad_padding _) (lim.allowsPad_padding _) args
    rw [if_neg (by omega), if_neg (by omega)] at hread
    refine ⟨_, CallMessage.encode_eq_form (by omega) (by omega), ?_, hparms⟩
    exact decodeCall_eq_ok_iff.mpr ⟨hread, rfl, by omega, by omega⟩

/-- A machine name of five bytes is wrapped with three zero bytes of padding, and a body with three
other bytes there opens to the same parameters.  A call with the wrapped parameters is received in
front of its arguments. -/
theorem sysParms_inverts_ofSysParms_five_byte_name :
    let p : AuthSysParms := ⟨9, "hosts", 1000, 100, [4, 24]⟩
    let body (x y z : UInt8) : Bytes := [0, 0, 0, 9, 0, 0, 0, 5, 104, 111, 115, 116, 115, x, y, z,
      0, 0, 3, 232, 0, 0, 0, 100, 0, 0, 0, 2, 0, 0, 0, 4, 0, 0, 0, 24]
    let a : OpaqueAuth := ⟨.sys, body 0 0 0⟩
    let c := CallMessage.new 7 ((CallBody.new 100003 3 1).withCred a)
    (OpaqueAuth.ofSysParms p = .ok a ∧ a.sysParms.result = .ok p) ∧
    (OpaqueAuth.sysParms ⟨.sys, body 1 2 3⟩).result = .ok p ∧
      (∃ pad, pad.length = 3 ∧ body 1 2 3 = p.form pad) ∧
    340 ≤ Limits.none.maxLength.toNat ∧ ∃ w, Wire.encode c = ⟨w, none⟩ ∧
      (decodeCall .none (w ++ [1, 2])).result = .ok c [1, 2] ∧
      c.body.cred.sysParms.result = .ok p := by
  intro p body a c
  obtain ⟨-, hopens, hwraps, hcall⟩ := sysParms_inverts_ofSysParms
  have hwrap : OpaqueAuth.ofSysParms p = .ok a := by decide +kernel
  have hopen : (OpaqueAuth.sysParms ⟨.sys, body 1 2 3⟩).result = .ok p := by decide +kernel
  have hlim : 340 ≤ Limits.none.maxLength.toNat := by decide
  have hname : padLength p.machineName.utf8ByteSize = 3 := by decide +kernel
  refine ⟨⟨hwrap, (hopens p a hwrap).2.2⟩, hopen, ?_, hlim, ?_⟩
  · obtain ⟨-, -, -, -, pad, hpad, hbody, -⟩ := hwraps ⟨.sys, body 1 2 3⟩ p hopen
    exact ⟨pad, hpad.trans hname, hbody⟩
  · exact hcall p a .none 7 100003 3 1 [1, 2] hwrap hlim

end OncWire
