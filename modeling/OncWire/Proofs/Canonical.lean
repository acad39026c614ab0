import Mathlib.Tactic.Common
import OncWire.Proofs.Encoding
import OncWire.Proofs.Inversion
import OncWire.Proofs.Padding
import OncWire.Proofs.Width

/-!
# Writing what was read

A reader accepts nothing but forms of values.  The bytes that it takes for a value
are the form of that value, except that a reader that is not strict allows any bytes
as padding; and there is one kind of value that can be read and not written, namely
one with a counted run whose items take no bytes.  `reencode_of_decode` states both.

The bytes of a value spell its encoding (`Spells`) when clearing their padding gives
the bytes of the encoding.  This composes along `++`, like the decoders and the
encodings themselves, so each elementary decoder has to be looked at only once.
-/

namespace OncWire

/-- The given bytes, whose padding is marked by the mask, are what the encoding writes once their
padding is cleared, unless the value is refused.  For a strict reader the padding is clear. -/
structure Spells (strict : Bool) (w : Bytes) (mask : List Bool) (e : Encoding) (refused : Prop) :
    Prop where
  /-- There is a mark for each byte. -/
  length_eq : mask.length = w.length
  /-- A strict reader finds zero padding only. -/
  clear_of_strict : strict → clearPadding mask w = w
  /-- What is not refused is written completely. -/
  complete : ¬ refused → e = ⟨clearPadding mask w, none⟩
  /-- A value is refused for an item that takes no bytes. -/
  fault_of_refused : refused → e.fault = some (.unsupported .zeroWidthItem)

namespace Spells

variable {strict : Bool} {w w' : Bytes} {mask mask' : List Bool} {e e' : Encoding}
  {refused refused' : Prop}

/-! ### Composition -/

/-- Content that is written as it was read. -/
lemma ofBytes {n : Nat} (h : w.length = n) : Spells strict w (content n) (.ofBytes w) False where
  length_eq := by rw [length_content, h]
  clear_of_strict _ := by rw [← h, clearPadding_content]
  complete _ := by rw [← h, clearPadding_content, Encoding.ofBytes]
  fault_of_refused := False.elim

/-- No bytes are read where nothing is written. -/
lemma nothing : Spells strict [] [] .nothing False := ofBytes rfl

/-- A refusal may be described in other words. -/
lemma congr (h : Spells strict w mask e refused) (hiff : refused' ↔ refused) :
    Spells strict w mask e refused' := by
  rwa [propext hiff]

/-- One part after another spells one encoding after the other. -/
lemma append (h : Spells strict w mask e refused) (h' : Spells strict w' mask' e' refused') :
    Spells strict (w ++ w') (mask ++ mask') (e ++ e') (refused ∨ refused') where
  length_eq := by rw [List.length_append, List.length_append, h.length_eq, h'.length_eq]
  clear_of_strict hs := by
    rw [clearPadding_append h.length_eq, h.clear_of_strict hs, h'.clear_of_strict hs]
  complete hne := by
    rw [not_or] at hne
    rw [h.complete hne.1, h'.complete hne.2, clearPadding_append h.length_eq]
    rfl
  fault_of_refused href := by
    by_cases hleft : refused
    · rw [Encoding.append_of_fault (h.fault_of_refused hleft), h.fault_of_refused hleft]
    · rw [h.complete hleft]
      exact h'.fault_of_refused (href.resolve_left hleft)

/-- What comes after a part that is never refused is refused for its own sake. -/
lemma prepend (h : Spells strict w mask e False) (h' : Spells strict w' mask' e' refused') :
    Spells strict (w ++ w') (mask ++ mask') (e ++ e') refused' :=
  (h.append h').congr (false_or _).symm.to_iff

/-- An item is refused if its parts are, or if it takes no bytes. -/
lemma item {empty : Prop} (h : Spells strict w mask e refused) (hempty : empty ↔ w = []) :
    Spells strict w mask e.item (empty ∨ refused) where
  length_eq := h.length_eq
  clear_of_strict := h.clear_of_strict
  complete hne := by
    rw [not_or, hempty] at hne
    have he := h.complete hne.2
    have hbytes : e.bytes ≠ [] := by
      rw [he, ← List.length_pos_iff, length_clearPadding h.length_eq]
      exact List.length_pos_iff.mpr hne.1
    rw [Encoding.item_of_ne_nil hbytes, he]
  fault_of_refused href := by
    -- A fault in the item wins over its having no bytes.
    by_cases hparts : refused
    · rw [Encoding.item_of_fault (h.fault_of_refused hparts), h.fault_of_refused hparts]
    · obtain rfl : w = [] := hempty.mp (href.resolve_right hparts)
      rw [h.complete hparts, clearPadding, List.zipWith_nil_right]
      rfl

/-! ### Words and data -/

/-- A word is written as it was read. -/
lemma word (x : UInt32) : Spells strict (wordBytes x) (content 4) (.ofWord x) False :=
  ofBytes (length_wordBytes x)

/-- A word that was read as a scalar is the word of that scalar. -/
lemma scalar {k : Word} {v : k.Val} {x : UInt32} (h : k.decode x = .ok v) :
    Spells strict (wordBytes x) (content 4) (.ofExcept (k.encode v)) False := by
  rw [Word.encode_of_decode h]
  exact word x

/-- A length that was read within a limit is written as it was read. -/
lemma length {lim : Limits} {n : Nat} (h : n ≤ lim.maxLength.toNat) :
    Spells strict (wordBytes (UInt32.ofNat n)) (content 4) (.length n) False := by
  have hmax := lim.maxLength.toNat_lt
  rw [Encoding.length, if_pos (by omega)]
  exact word _

/-- Data that was read is written with zero padding. -/
lemma data {lim : Limits} {b r bs : Bytes} (h : Decoder.data lim b = .ok bs r) :
    ∃ w, b = w ++ r ∧
      Spells lim.strictPadding w (dataMask bs.length) (.data bs) False := by
  obtain ⟨n, q, hn, hbs⟩ := Decoder.bind_eq_ok_iff.mp h
  obtain ⟨hmax, -, rfl⟩ := Decoder.length_eq_ok_iff.mp hn
  obtain ⟨rfl, pad, hpad, rfl, hstrict⟩ := Decoder.padded_eq_ok_iff.mp hbs
  have hclear := clearPadding_data (UInt32.ofNat bs.length) bs hpad
  refine ⟨wordBytes (UInt32.ofNat bs.length) ++ (bs ++ pad), ?_, ?_, fun hs => ?_, fun _ => ?_,
    False.elim⟩
  · simp only [List.append_assoc]
  · rw [length_dataMask]
    simp only [List.length_append, length_wordBytes, hpad, Nat.add_assoc]
  · rw [hclear, List.eq_replicate_of_mem (hstrict hs), hpad]
    rfl
  · have hlim := lim.maxLength.toNat_lt
    rw [hclear, Encoding.data, Encoding.length, if_pos (by omega), Encoding.append_assoc]
    rfl

end Spells

namespace Decoder

variable {α β : Type} {lim : Limits}

/-! ### Decoders -/

/-- The bytes that the decoder takes for a value spell the encoding of the value. -/
def Respells (lim : Limits) (d : Decoder α) (mask : α → List Bool) (enc : α → Encoding)
    (refused : α → Prop) : Prop :=
  ∀ ⦃b r : Bytes⦄ ⦃v : α⦄, d b = .ok v r →
    ∃ w, b = w ++ r ∧ Spells lim.strictPadding w (mask v) (enc v) (refused v)

namespace Respells

variable {d : Decoder α} {mask : α → List Bool} {enc : α → Encoding} {refused : α → Prop}

/-- An item is refused if it takes no bytes. -/
lemma item {empty : Prop} (h : d.Respells lim mask enc refused)
    (hempty : ∀ ⦃w r : Bytes⦄ ⦃v : α⦄, d (w ++ r) = .ok v r → (empty ↔ w = [])) :
    d.Respells lim mask (fun v => (enc v).item) fun v => empty ∨ refused v := by
  intro b r v hrun
  obtain ⟨w, rfl, hw⟩ := h hrun
  exact ⟨w, rfl, hw.item (hempty hrun)⟩

/-- The parts of an entry are written one after the other. -/
lemma entry {d' : Decoder β} {mask' : β → List Bool} {enc' : β → Encoding} {refused' : β → Prop}
    (h : d.Respells lim mask enc refused) (h' : d'.Respells lim mask' enc' refused') :
    Respells lim (do let x ← d; return (x, ← d') : Decoder (α × β))
      (fun x => mask x.1 ++ mask' x.2) (fun x => enc x.1 ++ enc' x.2)
      fun x => refused x.1 ∨ refused' x.2 := by
  intro b r v hrun
  obtain ⟨x, q, hx, hrest⟩ := bind_eq_ok_iff.mp hrun
  obtain ⟨y, q', hy, hpure⟩ := bind_eq_ok_iff.mp hrest
  cases hpure
  obtain ⟨w, rfl, hw⟩ := h hx
  obtain ⟨w', rfl, hw'⟩ := h' hy
  exact ⟨w ++ w', by rw [List.append_assoc], hw.append hw'⟩

/-- Repeated items are written one after another, and refused if one of them is. -/
lemma times (h : d.Respells lim mask enc refused) (n : Nat) :
    (times d n).Respells lim (fun xs => xs.val.flatMap mask)
      (fun xs => .concat (xs.val.map enc)) fun xs => ∃ x ∈ xs.val, refused x := by
  intro b r xs hrun
  induction n generalizing b with
  | zero =>
    cases hrun
    exact ⟨[], rfl, Spells.nothing.congr (by simp)⟩
  | succ n ih =>
    obtain ⟨xs, hlen⟩ := xs
    obtain ⟨x, q, ys, hx, hys, rfl : xs = x :: ys.val⟩ := times_succ_eq_ok_iff.mp hrun
    obtain ⟨w, rfl, hw⟩ := h hx
    obtain ⟨w', rfl, hw'⟩ := ih hys
    refine ⟨w ++ w', by rw [List.append_assoc], ?_⟩
    simp only [List.flatMap_cons, List.map_cons, Encoding.concat_cons]
    exact (hw.append hw').congr (by simp)

/-- A counted run is written as its count and then item by item. -/
lemma counted (h : d.Respells lim mask enc refused) {unit n : Nat} {b q r : Bytes}
    {xs : { items : List α // items.length = n }} (hn : Decoder.length lim unit b = .ok n q)
    (hxs : Decoder.times d n q = .ok xs r) :
    ∃ w, b = w ++ r ∧ Spells lim.strictPadding w (content 4 ++ xs.val.flatMap mask)
      (.length xs.val.length ++ .concat (xs.val.map enc)) (∃ x ∈ xs.val, refused x) := by
  obtain ⟨hmax, -, rfl⟩ := length_eq_ok_iff.mp hn
  obtain ⟨w, rfl, hw⟩ := h.times n hxs
  obtain ⟨xs, rfl⟩ := xs
  exact ⟨_, (List.append_assoc _ _ _).symm, (Spells.length hmax).prepend hw⟩

end Respells

end Decoder

/-- The nodes of a linked list are written as they were read. -/
lemma Chain.respells_decodeNodes (lim : Limits) (fuel : Nat) :
    (decodeNodes fuel).Respells lim (fun c => content (8 * c.toList.length))
      (fun c => .ofWord c.head ++ nodes c.tail) fun _ => False := by
  intro b r c hrun
  induction fuel generalizing b c with
  | zero => cases hrun
  | succ fuel ih =>
    obtain ⟨x, ⟨rfl, rfl⟩ | ⟨q, c', rfl, rfl, hc'⟩⟩ := decodeNodes_succ_eq_ok_iff.mp hrun
    · refine ⟨wordBytes x ++ wordBytes 0, by rw [List.append_assoc], ?_⟩
      exact (Spells.word x).prepend (Spells.word 0)
    · obtain ⟨w, rfl, hw⟩ := ih hc'
      have hmask : content (8 * (Chain.mk x c'.toList).toList.length) =
          content 4 ++ (content 4 ++ content (8 * c'.toList.length)) := by
        rw [← content_add, ← content_add]
        congr 1
        change 8 * (c'.toList.length + 1) = _
        omega
      have hform : Encoding.ofWord x ++ nodes c'.toList =
          .ofWord x ++ (.ofWord 1 ++ (.ofWord c'.head ++ nodes c'.tail)) := by
        rw [toList, nodes, Encoding.append_assoc]
      refine ⟨wordBytes x ++ (wordBytes 1 ++ w), by simp only [List.append_assoc], ?_⟩
      change Spells _ _ (content (8 * (Chain.mk x c'.toList).toList.length))
        (.ofWord x ++ nodes c'.toList) False
      rw [hmask, hform]
      exact (Spells.word x).prepend ((Spells.word 1).prepend hw)

/-- Each node of a linked list takes eight bytes. -/
lemma Chain.append_of_decode {b r : Bytes} {c : Chain} (hrun : Chain.decode b = .ok c r) :
    ∃ w, b = w ++ r ∧ w.length = 8 * c.toList.length := by
  obtain ⟨w, hb, hw⟩ := respells_decodeNodes .none _ hrun
  have hlen := hw.length_eq
  rw [length_content] at hlen
  exact ⟨w, hb, hlen.symm⟩

namespace Shape

/-! ### Values of shapes -/

/-- Every value that is read of a shape that can be rewritten is written as it was read, up to
padding, unless it has an item without bytes. -/
lemma respells_decode {s : Shape} (hs : s.Rewritable) (lim : Limits) :
    (s.decode lim).Respells lim s.padMask s.encode s.HasZeroWidthItem := by
  intro b r v hrun
  induction s generalizing b r with
  | void =>
    cases hrun
    exact ⟨[], rfl, Spells.nothing⟩
  | word k =>
    obtain ⟨x, hx, rfl⟩ := decode_word_eq_ok_iff.mp hrun
    exact ⟨wordBytes x, rfl, Spells.scalar hx⟩
  | hyper k =>
    obtain rfl := decode_hyper_eq_ok_iff.mp hrun
    exact ⟨hyperBytes (k.encode v), rfl, Spells.ofBytes (length_hyperBytes _)⟩
  | huge signed => cases hrun
  | any skipped => cases hrun
  | text => exact Spells.data (Decoder.text_eq_ok_iff.mp hrun)
  | bytes => exact Spells.data hrun
  | option s ih =>
    rcases decode_option_eq_ok_iff.mp hrun with ⟨rfl, rfl⟩ | ⟨x, q, rfl, rfl, hx⟩
    · exact ⟨wordBytes 0, rfl, (Spells.word 0).congr (by simp [HasZeroWidthItem])⟩
    · obtain ⟨w, rfl, hw⟩ := ih hs hx
      refine ⟨wordBytes 1 ++ w, by rw [List.append_assoc], ?_⟩
      exact ((Spells.word 1).prepend hw).congr (by simp [HasZeroWidthItem])
  | seq c s ih =>
    obtain ⟨rfl, hs⟩ := hs
    obtain ⟨n, q, xs, hn, hxs, rfl⟩ := decode_seq_eq_ok_iff.mp hrun
    have hitem := Decoder.Respells.item (fun _ _ _ h => ih hs h) fun _ _ _ h => zeroWidth_iff h
    rw [encode_seq]
    exact hitem.counted hn hxs
  | map c k t ihk iht =>
    obtain ⟨rfl, hk, ht⟩ := hs
    obtain ⟨n, q, xs, hn, hxs, rfl⟩ := decode_map_eq_ok_iff.mp hrun
    have hkey := Decoder.Respells.item (fun _ _ _ h => ihk hk h) fun _ _ _ h => zeroWidth_iff h
    have hval := Decoder.Respells.item (fun _ _ _ h => iht ht h) fun _ _ _ h => zeroWidth_iff h
    rw [encode_map]
    exact (hkey.entry hval).counted hn hxs
  | array n s ih => exact Decoder.Respells.times (fun _ _ _ h => ih hs h) n hrun
  | pair s t ihs iht =>
    exact Decoder.Respells.entry (fun _ _ _ h => ihs hs.1 h) (fun _ _ _ h => iht hs.2 h) hrun
  | record name s ih => exact ih hs hrun
  | variants name n arm ih =>
    obtain ⟨x, q, hx, rfl, hv⟩ := decode_variants_eq_ok_iff.mp hrun
    obtain ⟨w, rfl, hw⟩ := ih _ (hs _) hv
    have hindex : UInt32.ofNat v.1 = x := by rw [← hx, UInt32.ofNat_toNat]
    refine ⟨wordBytes x ++ w, by rw [List.append_assoc], ?_⟩
    rw [encode, hindex]
    exact (Spells.word x).prepend hw
  | union tag arm ih =>
    obtain ⟨x, q, hx, rfl, hv⟩ := decode_union_eq_ok_iff.mp hrun
    obtain ⟨w, rfl, hw⟩ := ih v.1 (hs v.1) hv
    exact ⟨wordBytes x ++ w, by rw [List.append_assoc], (Spells.scalar hx).prepend hw⟩
  | unassigned code name => cases hrun
  | surplus s t _ _ => exact (decode_surplus_ne_ok hrun).elim
  | chain => exact Chain.respells_decodeNodes lim _ hrun
  | sortedMap => exact hs.elim

/-- Nothing is declared and no surplus is carried in a value that is read. -/
lemma plain_of_decode {s : Shape} {lim : Limits} {b r : Bytes} {v : s.Val}
    (hrun : s.decode lim b = .ok v r) : s.Plain v := by
  induction s generalizing b r with
  | option s ih =>
    rcases decode_option_eq_ok_iff.mp hrun with ⟨rfl, -⟩ | ⟨x, q, rfl, -, hx⟩
    · exact fun x hx => nomatch hx
    · rintro _ ⟨⟩
      exact ih hx
  | seq c s ih =>
    obtain ⟨n, q, xs, -, hxs, rfl⟩ := decode_seq_eq_ok_iff.mp hrun
    exact ⟨rfl, Decoder.forall_of_times (fun _ _ _ h => ih h) hxs⟩
  | map c k t ihk iht =>
    obtain ⟨n, q, xs, -, hxs, rfl⟩ := decode_map_eq_ok_iff.mp hrun
    refine ⟨rfl, Decoder.forall_of_times (fun b r x hx => ?_) hxs⟩
    obtain ⟨q, hkey, hval⟩ := decode_pair_eq_ok_iff.mp hx
    exact ⟨ihk hkey, iht hval⟩
  | array n s ih => exact Decoder.forall_of_times (fun _ _ _ h => ih h) hrun
  | pair s t ihs iht =>
    obtain ⟨q, hs, ht⟩ := decode_pair_eq_ok_iff.mp hrun
    exact ⟨ihs hs, iht ht⟩
  | record name s ih => exact ih hrun
  | variants name n arm ih =>
    obtain ⟨x, q, -, -, hv⟩ := decode_variants_eq_ok_iff.mp hrun
    exact ih v.1 hv
  | union tag arm ih =>
    obtain ⟨x, q, -, -, hv⟩ := decode_union_eq_ok_iff.mp hrun
    exact ih v.1 hv
  | surplus s t _ _ => exact (decode_surplus_ne_ok hrun).elim
  | _ => trivial

/-- Where every item of a counted run takes bytes, no value has an item without bytes. -/
lemma not_hasZeroWidthItem {s : Shape} (hs : s.ZeroWidthItemFree) (v : s.Val) :
    ¬ s.HasZeroWidthItem v := by
  induction s with
  | option s ih =>
    rintro ⟨x, -, hx⟩
    exact ih hs x hx
  | seq c s ih =>
    rintro ⟨x, -, hwidth | hx⟩
    · exact Bool.eq_false_iff.mp hs.1 hwidth
    · exact ih hs.2 x hx
  | map c k t ihk iht =>
    obtain ⟨hk, ht, hsk, hst⟩ := hs
    rintro ⟨x, -, (hwidth | hx) | hwidth | hx⟩
    · exact Bool.eq_false_iff.mp hk hwidth
    · exact ihk hsk x.1 hx
    · exact Bool.eq_false_iff.mp ht hwidth
    · exact iht hst x.2 hx
  | array n s ih =>
    rintro ⟨x, -, hx⟩
    exact ih hs x hx
  | pair s t ihs iht => exact fun h => h.elim (ihs hs.1 v.1) (iht hs.2 v.2)
  | record name s ih => exact ih hs v
  | variants name n arm ih => exact ih v.1 (hs v.1) v.2
  | union tag arm ih => exact ih v.1 (hs v.1) v.2
  | surplus s t ihs iht => exact fun h => h.elim (ihs hs.1 v.1) (iht hs.2 v.2)
  | _ => exact id

end Shape

/-- A value of a type with a wire form is read exactly where its value of the shape is. -/
lemma LawfulWire.decode_eq_ok_iff {α : Type} [Wire α] [LawfulWire α] {lim : Limits} {b r : Bytes}
    {a : α} :
    Wire.decode lim b = .ok a r ↔ (Wire.shape α).decode lim b = .ok (Wire.toVal a) r := by
  constructor
  · intro h
    obtain ⟨v, q, hv, hpure⟩ := Decoder.bind_eq_ok_iff.mp h
    cases hpure
    rwa [toVal_ofVal v (Shape.plain_of_decode hv)]
  · intro h
    refine Decoder.bind_eq_ok_iff.mpr ⟨Wire.toVal a, r, h, ?_⟩
    rw [Wire.ofVal_toVal, Decoder.pure_run]

/-! ### Canonicity -/

/-- A value that was read can be written again, as the bytes that were taken for it with zero for
their padding, which a strict reader has found to be zero already.  The only values that are
refused, and with the only fault, are those with an item of a counted run that takes no bytes;
types with a wire form have no such values. -/
theorem reencode_of_decode :
    (∀ (s : Shape) (lim : Limits) (b r : Bytes) (v : s.Val), s.Rewritable →
      s.decode lim b = .ok v r → ∃ w, b = w ++ r ∧ (s.padMask v).length = w.length ∧
        (lim.strictPadding → clearPadding (s.padMask v) w = w) ∧
        (¬ s.HasZeroWidthItem v → s.encode v = ⟨clearPadding (s.padMask v) w, none⟩) ∧
        (s.HasZeroWidthItem v → (s.encode v).fault = some (.unsupported .zeroWidthItem))) ∧
    ∀ (α : Type) [Wire α] [LawfulWire α] (lim : Limits) (b r : Bytes) (a : α),
      Wire.decode lim b = .ok a r →
      let mask := (Wire.shape α).padMask (Wire.toVal a)
      ∃ w, b = w ++ r ∧ mask.length = w.length ∧
        (lim.strictPadding → clearPadding mask w = w) ∧
        Wire.encode a = ⟨clearPadding mask w, none⟩ := by
  constructor
  · intro s lim b r v hs hrun
    obtain ⟨w, hb, hw⟩ := Shape.respells_decode hs lim hrun
    exact ⟨w, hb, hw.length_eq, hw.clear_of_strict, hw.complete, hw.fault_of_refused⟩
  · intro α _ _ lim b r a hrun
    obtain ⟨v, q, hv, hpure⟩ := Decoder.bind_eq_ok_iff.mp hrun
    cases hpure
    obtain ⟨w, hb, hw⟩ := Shape.respells_decode (LawfulWire.rewritable (α := α)) lim hv
    have hval : Wire.toVal (Wire.ofVal v : α) = v :=
      LawfulWire.toVal_ofVal v (Shape.plain_of_decode hv)
    have hfree := Shape.not_hasZeroWidthItem (LawfulWire.zeroWidthItemFree (α := α)) v
    rw [hval, Wire.encode, hval]
    exact ⟨w, hb, hw.length_eq, hw.clear_of_strict, hw.complete hfree⟩

/-- A string with other bytes than zero as padding is written with zero padding, an item without
bytes is refused, and a reply is written as it was read. -/
theorem reencode_of_decode_text_void_and_reply :
    let s : Shape := .seq .known .text
    let v : s.Val := ⟨["a"], none⟩
    let b : Bytes := [0, 0, 0, 1, 0, 0, 0, 1, 97, 1, 2, 3, 9]
    let t : Shape := .seq .known .void
    let u : t.Val := ⟨[()], none⟩
    let m : ReplyMessage := .authError 5 .tooWeak
    let c : Bytes := [0, 0, 0, 5, 0, 0, 0, 1, 0, 0, 0, 1, 0, 0, 0, 1, 0, 0, 0, 5]
    (s.Rewritable ∧ s.decode .none b = .ok v [9] ∧
      ∃ w, b = w ++ [9] ∧ s.encode v = ⟨clearPadding (s.padMask v) w, none⟩) ∧
    (t.Rewritable ∧ t.decode .none [0, 0, 0, 1, 7, 7, 7, 7] = .ok u [7, 7, 7, 7] ∧
      (t.encode u).fault = some (.unsupported .zeroWidthItem)) ∧
    Wire.decode ⟨0, true⟩ c = .ok m [] ∧ ∃ w, c = w ++ [] ∧ Wire.encode m = ⟨w, none⟩ := by
  intro s v b t u m c
  have hs : s.Rewritable := ⟨rfl, trivial⟩
  have hv : s.decode .none b = .ok v [9] := by decide +kernel
  have ht : t.Rewritable := ⟨rfl, trivial⟩
  have hu : t.decode .none [0, 0, 0, 1, 7, 7, 7, 7] = .ok u [7, 7, 7, 7] := by decide +kernel
  have hm : Wire.decode ⟨0, true⟩ c = .ok m [] := by decide +kernel
  have hitem : t.HasZeroWidthItem u := ⟨(), List.mem_cons_self, .inl rfl⟩
  refine ⟨⟨hs, hv, ?_⟩, ⟨ht, hu, ?_⟩, hm, ?_⟩
  · obtain ⟨w, hb, -, -, hcomplete, -⟩ := reencode_of_decode.1 s .none b [9] v hs hv
    exact ⟨w, hb, hcomplete fun ⟨_, _, h⟩ => h.elim nofun id⟩
  · obtain ⟨w, -, -, -, -, hfault⟩ := reencode_of_decode.1 t .none _ _ u ht hu
    exact hfault hitem
  · obtain ⟨w, hc, -, hclear, hform⟩ := reencode_of_decode.2 ReplyMessage ⟨0, true⟩ c [] m hm
    exact ⟨w, hc, by rw [hform, hclear rfl]⟩

end OncWire
