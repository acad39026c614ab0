import Mathlib.Logic.Equiv.Defs
import Mathlib.Tactic.Common
import OncWire.Message
import OncWire.Proofs.Reading
import OncWire.Samples
import OncWire.Shape.Write

/-!
# Three forms of a choice

Data that is one of several things can be described as a union, whose discriminant is
a protocol enumeration or a truth value, as the variants of an enum, and, if it is
either something or nothing, as an optional value.  A union looks its discriminant
up, an enum compares the index with the number of its variants, and an optional value
has a flag; on the wire all three are the same.

What they have in common is `Codec.Selects`: a word below the number of arms, and
behind it the arm of that word.  Two codecs that select among the same arms agree
(`Codec.Selects.agreesWith`) in all but the fault with which they refuse a word that
selects nothing.
-/

namespace OncWire

/-! ### Codecs -/

/-- The ways in which values of a type are written and read. -/
structure Codec (α : Type) where
  /-- The form of a value. -/
  encode : α → Encoding
  /-- Hands a value to a sink, piece by piece. -/
  write : α → Writing
  /-- Reads a value. -/
  decode : Limits → Decoder α

/-- Values of a shape as they are written and read. -/
def Shape.codec (s : Shape) : Codec s.Val := ⟨s.encode, s.write, fun lim => s.decode lim⟩

/-- Values of a type with a wire form as they are written and read. -/
def Wire.codec (α : Type) [Wire α] : Codec α :=
  ⟨Wire.encode, fun a => (Wire.shape α).write (Wire.toVal a), Wire.decode⟩

namespace Codec

variable {α β : Type}

/-- Two codecs for a choice among `n` arms that differ at most in the fault with which they refuse
a word that selects none of them. -/
structure AgreesWith (c : Codec α) (c' : Codec β) (e : α ≃ β) (n : Nat)
    (refusal refusal' : UInt32 → Fault) : Prop where
  /-- Corresponding values have the same form: the same bytes, and the same fault behind them if
  there is one. -/
  encode (a : α) : c.encode a = c'.encode (e a)
  /-- Corresponding values are handed to a sink in the same writes. -/
  write (a : α) : c.write a = c'.write (e a)
  /-- Corresponding values are read from the same bytes, and the same bytes are left. -/
  decode_eq_ok_iff (lim : Limits) (b r : Bytes) (a : α) :
    c.decode lim b = .ok a r ↔ c'.decode lim b = .ok (e a) r
  /-- A word that selects no arm is refused once it is taken, by each codec in its own way. -/
  decode_refused (lim : Limits) (w : UInt32) (r : Bytes) (h : n ≤ w.toNat) :
    c.decode lim (wordBytes w ++ r) = .error (refusal w) r ∧
      c'.decode lim (wordBytes w ++ r) = .error (refusal' w) r
  /-- Every other fault is the same, and the same bytes are left. -/
  decode_eq_error_iff (lim : Limits) (b r : Bytes) (f : Fault)
    (h : ∀ w q, b = wordBytes w ++ q → w.toNat < n) :
    c.decode lim b = .error f r ↔ c'.decode lim b = .error f r

/-! ### Selecting an arm -/

/-- The codec writes and reads a word below the number of arms, and behind it the arm of that word.
Every other word is refused. -/
structure Selects (c : Codec α) {n : Nat} {arm : Fin n → Shape}
    (e : α ≃ (i : Fin n) × (arm i).Val) (refusal : UInt32 → Fault) : Prop where
  /-- The word stands in front of the arm. -/
  encode (a : α) : c.encode a = .ofWord (UInt32.ofNat (e a).1) ++ (arm (e a).1).encode (e a).2
  /-- The word is handed over before the arm. -/
  write (a : α) : c.write a = (do
    Writing.word (UInt32.ofNat (e a).1)
    (arm (e a).1).write (e a).2)
  /-- Without a word there is nothing to read. -/
  decode_short (lim : Limits) (b : Bytes) (h : b.length < 4) :
    c.decode lim b = .error .unexpectedEof b
  /-- Behind its word an arm is read. -/
  decode_arm (lim : Limits) (i : Fin n) (q : Bytes) :
    c.decode lim (wordBytes (UInt32.ofNat i) ++ q) =
      (do return e.symm ⟨i, ← (arm i).decode lim⟩ : Decoder α) q
  /-- A word that selects no arm is refused once it is taken. -/
  decode_refused (lim : Limits) (w : UInt32) (q : Bytes) (h : n ≤ w.toNat) :
    c.decode lim (wordBytes w ++ q) = .error (refusal w) q

namespace Selects

variable {c : Codec α} {c' : Codec β} {n : Nat} {arm : Fin n → Shape}
  {e : α ≃ (i : Fin n) × (arm i).Val} {e' : β ≃ (i : Fin n) × (arm i).Val}
  {refusal refusal' : UInt32 → Fault} {lim : Limits} {b : Bytes}

/-- Unless a word is refused, one codec reads what the other does. -/
lemma decode_eq (h : c.Selects e refusal) (h' : c'.Selects e' refusal') {e₀ : α ≃ β}
    (he : ∀ a, e' (e₀ a) = e a) (hb : ∀ w q, b = wordBytes w ++ q → w.toNat < n) :
    c'.decode lim b = (do return e₀ (← c.decode lim) : Decoder β) b := by
  cases hword : Decoder.word b with
  | error f r =>
    obtain ⟨-, -, hshort⟩ := Decoder.word_eq_error_iff.mp hword
    rw [h'.decode_short lim b hshort, Decoder.bind_of_error (h.decode_short lim b hshort)]
  | ok w q =>
    obtain rfl := Decoder.word_eq_ok_iff.mp hword
    have hi := hb w q rfl
    have hw : UInt32.ofNat (⟨w.toNat, hi⟩ : Fin n) = w := UInt32.ofNat_toNat
    have hread := h.decode_arm lim ⟨w.toNat, hi⟩ q
    have hread' := h'.decode_arm lim ⟨w.toNat, hi⟩ q
    rw [hw] at hread hread'
    have hvalue : ∀ x, e₀ (e.symm x) = e'.symm x := fun x => by
      rw [Equiv.eq_symm_apply, he, Equiv.apply_symm_apply]
    rw [hread']
    cases hrun : (arm ⟨w.toNat, hi⟩).decode lim q with
    | ok v r =>
      rw [Decoder.bind_of_ok hrun] at hread ⊢
      rw [Decoder.bind_of_ok hread, hvalue]
    | error f r =>
      rw [Decoder.bind_of_error hrun] at hread ⊢
      rw [Decoder.bind_of_error hread]

/-- Codecs that select among the same arms agree. -/
theorem agreesWith (h : c.Selects e refusal) (h' : c'.Selects e' refusal') {e₀ : α ≃ β}
    (he : ∀ a, e' (e₀ a) = e a) : c.AgreesWith c' e₀ n refusal refusal' where
  encode a := by rw [h.encode, h'.encode, he]
  write a := by rw [h.write, h'.write, he]
  decode_eq_ok_iff lim b r a := by
    by_cases hb : ∀ w q, b = wordBytes w ++ q → w.toNat < n
    · rw [decode_eq h h' he hb, Decoder.map_eq_ok_iff]
      constructor
      · exact fun hread => ⟨a, hread, rfl⟩
      · rintro ⟨x, hread, hx⟩
        rwa [← e₀.injective hx]
    · -- A word that selects nothing is no value to either of them.
      simp only [not_forall, Nat.not_lt] at hb
      obtain ⟨w, q, rfl, hw⟩ := hb
      rw [h.decode_refused lim w q hw, h'.decode_refused lim w q hw]
      simp
  decode_refused lim w r hw := ⟨h.decode_refused lim w r hw, h'.decode_refused lim w r hw⟩
  decode_eq_error_iff lim b r f hb := by rw [decode_eq h h' he hb, Decoder.map_eq_error_iff]

end Selects

end Codec

/-! ### The three forms -/

/-- A word that is at least two is neither of two flags. -/
lemma ne_flag_of_two_le {w : UInt32} (h : 2 ≤ w.toNat) : w ≠ 0 ∧ w ≠ 1 := by
  constructor <;> rintro rfl <;> exact absurd h (by decide)

/-- The fault of an index that is above those of the variants of an enum. -/
def Fault.unmappedIndex (name : String) (n : Nat) (w : UInt32) : Fault :=
  .unmappedDiscriminant w s!"{name} variant index below {n}"

/-- The variants of an enum are selected by their indices. -/
lemma Shape.selects_variants (name : String) {n : Nat} (hn : n ≤ 4294967296)
    (arm : Fin n → Shape) :
    (variants name n arm).codec.Selects (Equiv.refl _) (.unmappedIndex name n) where
  encode _ := rfl
  write _ := rfl
  decode_short _ _ h := Decoder.bind_of_error (Decoder.word_eq_error_iff.mpr ⟨rfl, rfl, h⟩)
  decode_arm lim i q := by
    obtain ⟨i, hi⟩ := i
    have hindex : (UInt32.ofNat i).toNat = i := by
      rw [UInt32.toNat_ofNat']
      omega
    refine (Decoder.bind_of_ok (Decoder.word_append _ q)).trans ?_
    generalize UInt32.ofNat i = w at hindex
    subst hindex
    rw [dif_pos hi]
    rfl
  decode_refused lim w q h := by
    refine (Decoder.bind_of_ok (Decoder.word_append w q)).trans ?_
    rw [dif_neg (Nat.not_lt.mpr h)]
    rfl

/-- A choice between two arms. -/
def Shape.either (s t : Shape) : Fin 2 → Shape
  | 0 => s
  | 1 => t

/-- An enum of two variants. -/
def Codec.enum (name : String) (s t : Shape) : Codec ((i : Fin 2) × (Shape.either s t i).Val) :=
  (Shape.variants name 2 (Shape.either s t)).codec

/-- An optional value is the second of two variants, the first of which has no payload. -/
def Shape.optionVariant (s : Shape) : Option s.Val ≃ (i : Fin 2) × (either .void s i).Val where
  toFun
    | none => ⟨0, ()⟩
    | some v => ⟨1, v⟩
  invFun
    | ⟨0, _⟩ => none
    | ⟨1, v⟩ => some v
  left_inv v := by cases v <;> rfl
  right_inv
    | ⟨0, _⟩ => rfl
    | ⟨1, _⟩ => rfl

/-- An optional value is selected by its flag. -/
lemma Shape.selects_option (s : Shape) :
    (option s).codec.Selects s.optionVariant .invalidOption where
  encode v := by
    cases v with
    | none => exact (Encoding.append_nothing _).symm
    | some v => rfl
  write v := by
    cases v with
    | none => exact (bind_pure _).symm
    | some v => rfl
  decode_short _ _ h := Decoder.bind_of_error (Decoder.word_eq_error_iff.mpr ⟨rfl, rfl, h⟩)
  decode_arm lim i q := by
    refine (Decoder.bind_of_ok (Decoder.word_append _ q)).trans ?_
    match i with
    | 0 => rfl
    | 1 => rfl
  decode_refused lim w q h := by
    refine (Decoder.bind_of_ok (Decoder.word_append w q)).trans ?_
    obtain ⟨hzero, hone⟩ := ne_flag_of_two_le h
    rw [if_neg hzero, if_neg hone]
    rfl

/-- A union is selected by its discriminant if the values of that are numbered and every other
word is refused. -/
lemma Codec.selects_of_union {α : Type} {c : Codec α} {n : Nat} {arm : Fin n → Shape}
    {e : α ≃ (i : Fin n) × (arm i).Val} {refusal : UInt32 → Fault} (tag : Word)
    {arm' : tag.Val → Shape} {ofVal : (Shape.union tag arm').Val → α} (value : Fin n → tag.Val)
    (hencode : ∀ a, c.encode a = .ofWord (UInt32.ofNat (e a).1) ++ (arm (e a).1).encode (e a).2)
    (hwrite : ∀ a, c.write a = (do
      Writing.word (UInt32.ofNat (e a).1)
      (arm (e a).1).write (e a).2))
    (hdecode : ∀ lim, c.decode lim = do return ofVal (← (Shape.union tag arm').decode lim))
    (hvalue : ∀ i : Fin n, tag.decode (UInt32.ofNat i) = .ok (value i))
    (harm : ∀ lim i, (do return ofVal ⟨value i, ← (arm' (value i)).decode lim⟩ : Decoder α) =
      do return e.symm ⟨i, ← (arm i).decode lim⟩)
    (hrefusal : ∀ w : UInt32, n ≤ w.toNat → tag.decode w = .error (refusal w)) :
    c.Selects e refusal := by
  have hrun : ∀ lim, c.decode lim = do
      let d ← Decoder.ofExcept (tag.decode (← Decoder.word))
      return ofVal ⟨d, ← (arm' d).decode lim⟩ := fun lim => by
    simp only [hdecode, Shape.decode, bind_assoc, pure_bind]
  refine ⟨hencode, hwrite, fun lim b h => ?short, fun lim i q => ?arm, fun lim w q h => ?refused⟩
  case short =>
    rw [hrun]
    exact Decoder.bind_of_error (Decoder.word_eq_error_iff.mpr ⟨rfl, rfl, h⟩)
  case arm =>
    rw [hrun, Decoder.bind_of_ok (Decoder.word_append _ q), hvalue, ← harm]
    rfl
  case refused =>
    rw [hrun, Decoder.bind_of_ok (Decoder.word_append w q), hrefusal w h]
    rfl

/-- A word above the codes of an enumeration is no member of it. -/
lemma Word.decode_enumeration_of_le {e : Enumeration} {n : Nat}
    (hcode : ∀ m : e.Member, (Enumerated.code m).toNat < n) {w : UInt32} (hw : n ≤ w.toNat) :
    (enumeration e).decode w = .error (.unmappedDiscriminant w e.title) := by
  have hnone : Enumerated.ofCode? (α := e.Member) w = none := by
    rw [Enumerated.ofCode?_eq_none_iff]
    rintro m rfl
    exact absurd (hcode m) (Nat.not_lt.mpr hw)
  rw [decode_enumeration, hnone]

/-- A word above 1 is no truth value. -/
lemma Word.decode_bool_of_le {w : UInt32} (hw : 2 ≤ w.toNat) :
    bool.decode w = .error (.invalidBool w) := by
  obtain ⟨hzero, hone⟩ := ne_flag_of_two_le hw
  rw [decode, if_neg hzero, if_neg hone]

/-! ### The unions of the protocol as enums -/

/-- Why a call was denied, as one of two variants. -/
def RejectedReply.variant : RejectedReply ≃
    (i : Fin 2) × (Shape.either (Wire.shape MismatchInfo) (.enumeration .authStat) i).Val where
  toFun
    | rpcMismatch info => ⟨0, Wire.toVal info⟩
    | authError stat => ⟨1, stat⟩
  invFun
    | ⟨0, info⟩ => rpcMismatch (Wire.ofVal info)
    | ⟨1, stat⟩ => authError stat
  left_inv r := by cases r <;> rfl
  right_inv
    | ⟨0, _⟩ => rfl
    | ⟨1, _⟩ => rfl

/-- Why a call was denied is selected by a member of its enumeration. -/
lemma RejectedReply.selects : (Wire.codec RejectedReply).Selects variant
    (.unmappedDiscriminant · "RejectStat") := by
  refine Codec.selects_of_union (.enumeration .rejectStat)
    (fun | 0 => RejectStat.rpcMismatch | 1 => RejectStat.authError)
    (fun r => ?encode) (fun r => ?write) (fun _ => rfl) (fun i => ?value) (fun _ i => ?arm)
    (fun w hw => ?refusal)
  case encode | write => cases r <;> rfl
  case value | arm => match i with | 0 => rfl | 1 => rfl
  case refusal => exact Word.decode_enumeration_of_le (fun m => by cases m <;> decide) hw

/-- What a server answers, as one of two variants. -/
def ReplyBody.variant : ReplyBody ≃
    (i : Fin 2) × (Shape.either (Wire.shape AcceptedReply) (Wire.shape RejectedReply) i).Val where
  toFun
    | accepted reply => ⟨0, Wire.toVal reply⟩
    | denied reply => ⟨1, Wire.toVal reply⟩
  invFun
    | ⟨0, reply⟩ => accepted (Wire.ofVal reply)
    | ⟨1, reply⟩ => denied (Wire.ofVal reply)
  left_inv b := by
    cases b with
    | accepted reply => rfl
    | denied reply => cases reply <;> rfl
  right_inv
    | ⟨0, _⟩ => rfl
    | ⟨1, ⟨RejectStat.rpcMismatch, _⟩⟩ => rfl
    | ⟨1, ⟨RejectStat.authError, _⟩⟩ => rfl

/-- What a server answers is selected by whether the call was taken up. -/
lemma ReplyBody.selects : (Wire.codec ReplyBody).Selects variant
    (.unmappedDiscriminant · "ReplyStat") := by
  refine Codec.selects_of_union (.enumeration .replyStat)
    (fun | 0 => ReplyStat.accepted | 1 => ReplyStat.denied)
    (fun b => ?encode) (fun b => ?write) (fun _ => rfl) (fun i => ?value) (fun _ i => ?arm)
    (fun w hw => ?refusal)
  case encode | write => cases b <;> rfl
  case value | arm => match i with | 0 => rfl | 1 => rfl
  case refusal => exact Word.decode_enumeration_of_le (fun m => by cases m <;> decide) hw

/-- The body of a message, as one of two variants. -/
def MessageBody.variant : MessageBody ≃
    (i : Fin 2) × (Shape.either (Wire.shape CallBody) (Wire.shape ReplyBody) i).Val where
  toFun
    | call body => ⟨0, Wire.toVal body⟩
    | reply body => ⟨1, Wire.toVal body⟩
  invFun
    | ⟨0, body⟩ => call (Wire.ofVal body)
    | ⟨1, body⟩ => reply (Wire.ofVal body)
  left_inv b := by
    cases b with
    | call body => rfl
    | reply body => exact congrArg reply (Wire.ofVal_toVal body)
  right_inv
    | ⟨0, _⟩ => rfl
    | ⟨1, ⟨ReplyStat.accepted, _⟩⟩ => rfl
    | ⟨1, ⟨ReplyStat.denied, ⟨RejectStat.rpcMismatch, _⟩⟩⟩ => rfl
    | ⟨1, ⟨ReplyStat.denied, ⟨RejectStat.authError, _⟩⟩⟩ => rfl

/-- The body of a message is selected by the direction. -/
lemma MessageBody.selects : (Wire.codec MessageBody).Selects variant
    (.unmappedDiscriminant · "MsgType") := by
  refine Codec.selects_of_union (.enumeration .msgType)
    (fun | 0 => MsgType.call | 1 => MsgType.reply)
    (fun b => ?encode) (fun b => ?write) (fun _ => rfl) (fun i => ?value) (fun _ i => ?arm)
    (fun w hw => ?refusal)
  case encode | write => cases b <;> rfl
  case value | arm => match i with | 0 => rfl | 1 => rfl
  case refusal => exact Word.decode_enumeration_of_le (fun m => by cases m <;> decide) hw

/-- A switch as one of two variants. -/
def Switch.variant : Switch ≃ (i : Fin 2) × (Shape.either .void .text i).Val where
  toFun
    | off => ⟨0, ()⟩
    | on label => ⟨1, label⟩
  invFun
    | ⟨0, _⟩ => off
    | ⟨1, label⟩ => on label
  left_inv a := by cases a <;> rfl
  right_inv
    | ⟨0, _⟩ => rfl
    | ⟨1, _⟩ => rfl

/-- A switch is selected by a truth value. -/
lemma Switch.selects : (Wire.codec Switch).Selects variant .invalidBool := by
  refine Codec.selects_of_union .bool (fun | 0 => false | 1 => true)
    (fun a => ?encode) (fun a => ?write) (fun _ => rfl) (fun i => ?value) (fun _ i => ?arm)
    (fun _ hw => Word.decode_bool_of_le hw)
  case encode | write => cases a <;> rfl
  case value | arm => match i with | 0 => rfl | 1 => rfl

/-- The label of a switch that is on. -/
def Switch.label? : Switch ≃ Option String where
  toFun
    | off => none
    | on label => some label
  invFun
    | none => off
    | some label => on label
  left_inv a := by cases a <;> rfl
  right_inv a := by cases a <;> rfl

/-! ### Agreement -/

/-- The three forms of a choice agree.  Each union of the protocol agrees with the enum of its arms,
in the order of the discriminants; a switch with an enum and with an optional string; and every
optional value with an enum.  They differ in the fault with which a word that selects nothing is
refused: each has its own, and each gives the word. -/
theorem choices_agree (name : String) :
    (Wire.codec RejectedReply).AgreesWith
      (.enum name (Wire.shape MismatchInfo) (.enumeration .authStat)) RejectedReply.variant 2
      (.unmappedDiscriminant · "RejectStat") (.unmappedIndex name 2) ∧
    (Wire.codec ReplyBody).AgreesWith
      (.enum name (Wire.shape AcceptedReply) (Wire.shape RejectedReply)) ReplyBody.variant 2
      (.unmappedDiscriminant · "ReplyStat") (.unmappedIndex name 2) ∧
    (Wire.codec MessageBody).AgreesWith
      (.enum name (Wire.shape CallBody) (Wire.shape ReplyBody)) MessageBody.variant 2
      (.unmappedDiscriminant · "MsgType") (.unmappedIndex name 2) ∧
    (Wire.codec Switch).AgreesWith
      (.enum name .void .text) Switch.variant 2 .invalidBool (.unmappedIndex name 2) ∧
    (Wire.codec Switch).AgreesWith
      (Shape.option .text).codec Switch.label? 2 .invalidBool .invalidOption ∧
    ∀ s : Shape, (Shape.option s).codec.AgreesWith
      (.enum name .void s) s.optionVariant 2 .invalidOption (.unmappedIndex name 2) := by
  have henum : ∀ s t : Shape, (Codec.enum name s t).Selects (Equiv.refl _)
      (.unmappedIndex name 2) := fun s t =>
    Shape.selects_variants name (by decide) (Shape.either s t)
  refine ⟨?_, ?_, ?_, ?_, ?_, fun s => ?_⟩
  · exact RejectedReply.selects.agreesWith (henum _ _) fun _ => rfl
  · exact ReplyBody.selects.agreesWith (henum _ _) fun _ => rfl
  · exact MessageBody.selects.agreesWith (henum _ _) fun _ => rfl
  · exact Switch.selects.agreesWith (henum _ _) fun _ => rfl
  · exact Switch.selects.agreesWith (Shape.selects_option .text) fun a => by cases a <;> rfl
  · exact s.selects_option.agreesWith (henum _ _) fun _ => rfl

/-- The word 2 is refused by each of the three forms of a switch, and the same bytes are left. -/
example :
    let b : Bytes := [0, 0, 0, 2, 9]
    (Wire.decode .none b : Reading Switch) = .error (.invalidBool 2) [9] ∧
    (Codec.enum "Switch" .void .text).decode .none b =
      .error (.unmappedDiscriminant 2 "Switch variant index below 2") [9] ∧
    (Shape.option .text).decode .none b = .error (.invalidOption 2) [9] := by
  decide +kernel

end OncWire
