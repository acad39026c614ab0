import Mathlib.Tactic.Common
import OncWire.Proofs.Admissible
import OncWire.Proofs.Encoding
import OncWire.Proofs.Reading

/-!
# Reading what was written

A value that was written completely is read back as it is, whatever follows its
form: `Shape.decode_encode_append`.  The reader's limit has to admit the lengths
in the value, and the value has to be plain.

The law is compositional.  A decoder reads an encoding as a value
(`Decoder.Reads`) when it takes exactly the bytes of the encoding and yields that
value in front of any input; this composes along `++`, and every shape is read
by a composition that mirrors the one by which it is written.  Only the check of a
count looks beyond its own word.  It never refuses what was written, because a
complete run takes at least four bytes for each item (`Reads.length_bind`).
-/

namespace OncWire

namespace Decoder

variable {α β : Type} {lim : Limits}

/-- In front of any input the decoder takes exactly the bytes of a complete encoding, and yields
the given value. -/
def Reads (d : Decoder α) (e : Encoding) (v : α) : Prop :=
  e.fault = none → ∀ rest, d (e.bytes ++ rest) = .ok v rest

namespace Reads

variable {d : Decoder α} {e e' : Encoding} {v x : α}

/-! ### Composition -/

/-- Nothing is read as a value that is at hand. -/
lemma nothing (v : α) : Reads (pure v) .nothing v := fun _ _ => rfl

/-- Nothing has to be read back of what was refused. -/
lemma of_fault {f : Fault} (h : e.fault = some f) : Reads d e v := by
  intro hnone
  rw [h] at hnone
  cases hnone

/-- What is written one after another is read one after another. -/
lemma bind {g : α → Decoder β} {y : β} (hd : Reads d e x) (hg : Reads (g x) e' y) :
    Reads (d >>= g) (e ++ e') y := by
  intro h rest
  obtain ⟨he, he'⟩ := Encoding.fault_append_eq_none_iff.mp h
  rw [Encoding.append_of_complete he, List.append_assoc, bind_of_ok (hd he _)]
  exact hg he' rest

/-- A value that needs nothing more to be read is handed on. -/
lemma bind_pure {g : α → Decoder β} {y : β} (hd : Reads d e x) (hg : g x = pure y) :
    Reads (d >>= g) e y := by
  intro he rest
  rw [bind_of_ok (hd he rest), hg, pure_run]

/-- An item of a run is read as what it is. -/
lemma item (h : Reads d e v) : Reads d e.item v := by
  intro he rest
  have hitem := Encoding.item_of_complete he
  rw [hitem] at he ⊢
  exact h he rest

/-! ### Words, data and counted runs -/

/-- A word is read back. -/
lemma word (w : UInt32) : Reads word (.ofWord w) w := fun _ rest => word_append w rest

/-- A hyper is read back. -/
lemma hyper (h : UInt64) : Reads hyper (.ofHyper h) h := fun _ rest => hyper_append h rest

/-- A scalar of one word is read back. -/
lemma scalar (k : Word) (v : k.Val) :
    Reads (do ofExcept (k.decode (← Decoder.word))) (.ofExcept (k.encode v)) v := by
  cases h : k.encode v with
  | error f => exact of_fault rfl
  | ok w =>
    intro _ rest
    have hw : k.decode w = .ok v := Word.decode_of_encode h
    rw [Encoding.ofExcept, Encoding.ofWord, Encoding.ofBytes, bind_of_ok (word_append w rest), hw]
    rfl

/-- A count is read back in front of a run that takes enough bytes for it. -/
lemma length_bind {n unit : Nat} {g : Nat → Decoder β} {y : β}
    (hn : n ≤ lim.maxLength.toNat) (hlen : e.fault = none → n * unit ≤ e.bytes.length)
    (hg : Reads (g n) e y) : Reads (length lim unit >>= g) (.length n ++ e) y := by
  intro h rest
  have hmax := lim.maxLength.toNat_lt
  obtain ⟨-, he⟩ := Encoding.fault_append_eq_none_iff.mp h
  have hword : Encoding.length n = .ofWord (UInt32.ofNat n) := if_pos (by omega)
  have hrun : length lim unit (wordBytes (UInt32.ofNat n) ++ (e.bytes ++ rest)) =
      .ok n (e.bytes ++ rest) := by
    -- The check looks at all the bytes that are left, and the run alone has enough of them.
    refine length_eq_ok_iff.mpr ⟨hn, ?_, rfl⟩
    have := hlen he
    rw [List.length_append]
    omega
  rw [hword, Encoding.append_of_complete rfl, List.append_assoc]
  exact (bind_of_ok hrun).trans (hg he rest)

/-- Data is read back. -/
lemma data {bs : Bytes} (h : bs.length ≤ lim.maxLength.toNat) :
    Reads (data lim) (.data bs) bs := by
  rw [Encoding.data, Encoding.append_assoc, Encoding.ofBytes_append_ofBytes]
  refine length_bind h (fun _ => ?_) fun _ rest => ?_
  · simp [Encoding.ofBytes]
  · refine padded_eq_ok_iff.mpr
      ⟨rfl, padding bs.length, length_padding _, List.append_assoc _ _ _, fun _ x hx => ?_⟩
    exact List.eq_of_mem_replicate hx

/-- A string is read back. -/
lemma text {s : String} (h : (utf8 s).length ≤ lim.maxLength.toNat) :
    Reads (text lim) (.data (utf8 s)) s :=
  fun he rest => text_eq_ok_iff.mpr (data h he rest)

/-- A run of items is read back when each of them is. -/
lemma times {enc : α → Encoding} {n : Nat} (xs : { items : List α // items.length = n })
    (h : ∀ x ∈ xs.val, Reads d (enc x) x) : Reads (times d n) (.concat (xs.val.map enc)) xs := by
  obtain ⟨xs, rfl⟩ := xs
  induction xs with
  | nil => exact nothing _
  | cons x xs ih =>
    intro he rest
    simp only [List.map_cons, Encoding.concat_cons] at he ⊢
    obtain ⟨hx, hxs⟩ := Encoding.fault_append_eq_none_iff.mp he
    rw [Encoding.append_of_complete hx, List.append_assoc]
    refine times_succ_eq_ok_iff.mpr ⟨x, _, ⟨xs, rfl⟩, h x List.mem_cons_self hx _, ?_, rfl⟩
    exact ih (fun y hy => h y (List.mem_cons_of_mem _ hy)) hxs rest

/-- A counted run is read back when each of its items is and takes at least `unit` bytes. -/
lemma counted {enc : α → Encoding} {unit : Nat} {xs : List α} (g : List α → β)
    (hn : xs.length ≤ lim.maxLength.toNat)
    (hunit : ∀ x ∈ xs, (enc x).fault = none → unit ≤ (enc x).bytes.length)
    (h : ∀ x ∈ xs, Reads d (enc x) x) :
    Reads (do let n ← length lim unit; return g (← Decoder.times d n).val)
      (.length xs.length ++ .concat (xs.map enc)) (g xs) := by
  refine length_bind hn (fun hfault => ?_) ?_
  · have hwidth : ∀ e ∈ xs.map enc, e.fault = none → unit ≤ e.bytes.length := by
      intro e he
      obtain ⟨x, hx, rfl⟩ := List.mem_map.mp he
      exact hunit x hx
    have hlen := Encoding.mul_length_le_concat hwidth hfault
    rwa [List.length_map] at hlen
  · exact (times ⟨xs, rfl⟩ h).bind_pure rfl

/-- The two parts of an entry are read back one after the other. -/
lemma entry {d' : Decoder β} {y : β} (hx : Reads d e x) (hy : Reads d' e' y) :
    Reads (do let a ← d; return (a, ← d')) (e ++ e') (x, y) :=
  hx.bind (hy.bind_pure rfl)

end Reads

end Decoder

/-! ### Linked lists -/

namespace Chain

/-- The nodes after the first are written completely, in eight bytes each and a last flag. -/
lemma nodes_complete (ws : List UInt32) :
    (nodes ws).fault = none ∧ (nodes ws).bytes.length = 8 * ws.length + 4 := by
  induction ws with
  | nil => exact ⟨rfl, length_wordBytes 0⟩
  | cons w ws ih =>
    obtain ⟨hfault, hlen⟩ := ih
    have hnode : (Encoding.ofWord 1 ++ Encoding.ofWord w).bytes.length = 8 := rfl
    rw [nodes, Encoding.append_of_complete rfl, List.length_append, List.length_cons, hnode, hlen]
    exact ⟨hfault, by omega⟩

/-- A linked list is read back if there is fuel for each of its nodes. -/
lemma reads_decodeNodes {ws : List UInt32} {fuel : Nat} (h : ws.length < fuel) (w : UInt32) :
    (decodeNodes fuel).Reads (.ofWord w ++ nodes ws) ⟨w, ws⟩ := by
  obtain ⟨fuel, rfl⟩ : ∃ k, fuel = k + 1 := ⟨fuel - 1, by omega⟩
  refine (Decoder.Reads.word w).bind ?_
  induction ws generalizing w fuel with
  | nil => exact (Decoder.Reads.word 0).bind_pure rfl
  | cons x ws ih =>
    rw [List.length_cons] at h
    obtain ⟨fuel, rfl⟩ : ∃ k, fuel = k + 1 := ⟨fuel - 1, by omega⟩
    have hnext : (decodeNodes (fuel + 1)).Reads (.ofWord x ++ nodes ws) ⟨x, ws⟩ :=
      (Decoder.Reads.word x).bind (ih x fuel (by omega))
    rw [nodes, Encoding.append_assoc]
    exact (Decoder.Reads.word 1).bind (hnext.bind_pure rfl)

/-- A linked list is read back: the bytes that are left give fuel for all of its nodes. -/
lemma reads_decode (c : Chain) : Chain.decode.Reads (.ofWord c.head ++ nodes c.tail) c := by
  intro h rest
  have hlen : c.tail.length <
      ((Encoding.ofWord c.head ++ nodes c.tail).bytes ++ rest).length / 8 + 1 := by
    rw [Encoding.append_of_complete rfl]
    simp only [List.length_append, (nodes_complete c.tail).2]
    omega
  exact reads_decodeNodes hlen c.head h rest

end Chain

/-! ### Values of shapes -/

namespace Shape

open Decoder (Reads)

/-- A plain value of a well-formed shape is read back from its form when the limit admits its
lengths. -/
lemma reads_encode {s : Shape} (hs : s.WellFormed) {v : s.Val} (hv : s.Plain v) {lim : Limits}
    (hlim : ∀ n ∈ s.lengths v, n ≤ lim.maxLength.toNat) : (s.decode lim).Reads (s.encode v) v := by
  induction s with
  | void => exact Reads.nothing ()
  | word k => exact Reads.scalar k v
  | hyper k =>
    refine (Reads.hyper (k.encode v)).bind_pure ?_
    rw [Hyper.decode_encode]
  | huge signed => exact Reads.of_fault rfl
  | any skipped => exact v.elim
  | text => exact Reads.text (hlim _ List.mem_cons_self)
  | bytes => exact Reads.data (hlim _ List.mem_cons_self)
  | option s ih =>
    cases v with
    | none => exact (Reads.word 0).bind_pure rfl
    | some x => exact (Reads.word 1).bind ((ih hs (hv x rfl) hlim).bind_pure rfl)
  | seq c s ih =>
    cases c with
    | unknown => exact Reads.of_fault rfl
    | known =>
      obtain ⟨items, declared⟩ := v
      obtain ⟨rfl : declared = none, hitems⟩ := hv
      rw [encode_seq]
      refine Reads.counted (fun items => (⟨items, none⟩ : Counted s.Val))
        (hlim _ List.mem_cons_self) (fun x _ => (s.whole_encode x).four_le_length_item)
        fun x hx => ?_
      refine (ih hs (hitems x hx) fun n hn => ?_).item
      exact hlim n (List.mem_cons_of_mem _ (List.mem_flatMap.mpr ⟨x, hx, hn⟩))
  | map c k t ihk iht =>
    cases c with
    | unknown => exact Reads.of_fault rfl
    | known =>
      obtain ⟨items, declared⟩ := v
      obtain ⟨rfl : declared = none, hitems⟩ := hv
      have hentry : ∀ x ∈ items, ∀ n ∈ k.lengths x.1 ++ t.lengths x.2,
          n ≤ lim.maxLength.toNat := fun x hx n hn =>
        hlim n (List.mem_cons_of_mem _ (List.mem_flatMap.mpr ⟨x, hx, hn⟩))
      rw [encode_map]
      refine Reads.counted (fun items => (⟨items, none⟩ : Counted (k.Val × t.Val)))
        (hlim _ List.mem_cons_self) (fun x _ h => ?_) fun x hx => ?_
      · exact Encoding.eight_le_length_entry (k.whole_encode x.1) (t.whole_encode x.2) h
      · refine Reads.entry (ihk hs.1 (hitems x hx).1 fun n hn => ?_).item
          (iht hs.2 (hitems x hx).2 fun n hn => ?_).item
        · exact hentry x hx n (List.mem_append_left _ hn)
        · exact hentry x hx n (List.mem_append_right _ hn)
  | array n s ih =>
    refine Reads.times v fun x hx => ih hs (hv x hx) fun n hn => ?_
    exact hlim n (List.mem_flatMap.mpr ⟨x, hx, hn⟩)
  | pair s t ihs iht =>
    refine Reads.entry (ihs hs.1 hv.1 fun n hn => ?_) (iht hs.2 hv.2 fun n hn => ?_)
    · exact hlim n (List.mem_append_left _ hn)
    · exact hlim n (List.mem_append_right _ hn)
  | record name s ih => exact ih hs hv hlim
  | variants name n arm ih =>
    obtain ⟨⟨i, hi⟩, x⟩ := v
    have hx := ih ⟨i, hi⟩ (hs.2 _) hv hlim
    have hindex : (UInt32.ofNat i).toNat = i := by
      have := hs.1
      rw [UInt32.toNat_ofNat']
      omega
    refine (Reads.word (UInt32.ofNat i)).bind ?_
    -- The index that is read is the one that was written, but not syntactically.
    generalize UInt32.ofNat i = w at hindex
    subst hindex
    rw [dif_pos hi]
    exact hx.bind_pure rfl
  | union tag arm ih =>
    obtain ⟨d, x⟩ := v
    have hx := ih d (hs d) hv hlim
    have hrun := (Reads.scalar tag d).bind
      (g := fun d => do return (⟨d, ← (arm d).decode lim⟩ : (union tag arm).Val))
      (hx.bind_pure rfl)
    rwa [bind_assoc] at hrun
  | unassigned code name => exact v.elim
  | surplus s t ihs iht => exact hv.elim
  | chain => exact Chain.reads_decode v
  | sortedMap =>
    rw [encode_sortedMap]
    -- The reader sorts the entries again, which changes nothing.
    have hv : SortedMap.ofList v.items = v := SortedMap.ofList_items v
    conv => arg 3; rw [← hv]
    refine Reads.counted SortedMap.ofList (hlim _ List.mem_cons_self) (fun x _ h => ?_)
      fun x hx => ?_
    · exact Encoding.eight_le_length_entry (Encoding.whole_ofWord x.1) (Encoding.whole_data _) h
    · refine Reads.entry (Reads.word x.1).item (Reads.text ?_).item
      exact hlim _ (List.mem_cons_of_mem _ (List.mem_map.mpr ⟨x, hx, rfl⟩))

end Shape

/-! ### The round trip -/

/-- A value that was written completely is read back as it is, and what follows its form is left.
This holds of every plain value of a well-formed shape and of every plain value of a type with a
wire form, under every limit that admits the lengths in the value. -/
theorem decode_encode_append :
    (∀ (s : Shape) (v : s.Val) (lim : Limits) (w rest : Bytes), s.WellFormed → s.Plain v →
      (∀ n ∈ s.lengths v, n ≤ lim.maxLength.toNat) → s.encode v = ⟨w, none⟩ →
      s.decode lim (w ++ rest) = .ok v rest) ∧
    ∀ (α : Type) [Wire α] [LawfulWire α] (a : α) (lim : Limits) (w rest : Bytes),
      (Wire.shape α).Plain (Wire.toVal a) →
      (∀ n ∈ (Wire.shape α).lengths (Wire.toVal a), n ≤ lim.maxLength.toNat) →
      Wire.encode a = ⟨w, none⟩ → Wire.decode lim (w ++ rest) = .ok a rest := by
  constructor
  · intro s v lim w rest hs hv hlim hw
    have hread := Shape.reads_encode hs hv hlim
    rw [hw] at hread
    exact hread rfl rest
  · intro α _ _ a lim w rest ha hlim hw
    have hread := (Shape.reads_encode LawfulWire.wellFormed ha hlim).bind_pure
      (g := fun v => pure (Wire.ofVal v : α)) rfl
    rw [Wire.ofVal_toVal] at hread
    rw [Wire.encode] at hw
    rw [hw] at hread
    exact hread rfl rest

/-- A map with a repeated key, and a denied reply, are read back in front of other bytes. -/
theorem decode_encode_append_map_and_reply :
    let s : Shape := .map .known .uint32 (.option .text)
    let v : s.Val := ⟨[(7, some "abc"), (7, none)], none⟩
    let w : Bytes := [0, 0, 0, 2, 0, 0, 0, 7, 0, 0, 0, 1, 0, 0, 0, 3, 97, 98, 99, 0,
      0, 0, 0, 7, 0, 0, 0, 0]
    let m : ReplyMessage := .authError 5 .tooWeak
    let u : Bytes := [0, 0, 0, 5, 0, 0, 0, 1, 0, 0, 0, 1, 0, 0, 0, 1, 0, 0, 0, 5]
    (s.WellFormed ∧ s.Plain v ∧ (∀ n ∈ s.lengths v, n ≤ 3) ∧ s.encode v = ⟨w, none⟩ ∧
      s.decode ⟨3, true⟩ (w ++ [9]) = .ok v [9]) ∧
    (Wire.shape ReplyMessage).Plain (Wire.toVal m) ∧ Wire.encode m = ⟨u, none⟩ ∧
      Wire.decode ⟨0, true⟩ (u ++ [9]) = .ok m [9] := by
  intro s v w m u
  have hs : s.WellFormed := ⟨trivial, trivial⟩
  have hv : s.Plain v := by simp [s, v, Shape.Plain]
  have hlim : ∀ n ∈ s.lengths v, n ≤ 3 := by decide +kernel
  have hw : s.encode v = ⟨w, none⟩ := by decide +kernel
  have hm : (Wire.shape ReplyMessage).Plain (Wire.toVal m) := by
    simp [m, Wire.shape, Wire.toVal, Shape.Plain, ReplyMessage.authError, ReplyMessage.new]
  have hu : Wire.encode m = ⟨u, none⟩ := by decide +kernel
  refine ⟨⟨hs, hv, hlim, hw, ?_⟩, hm, hu, ?_⟩
  · exact decode_encode_append.1 s v ⟨3, true⟩ w [9] hs hv hlim hw
  · exact decode_encode_append.2 ReplyMessage m ⟨0, true⟩ u [9] hm (by decide +kernel) hu

end OncWire
