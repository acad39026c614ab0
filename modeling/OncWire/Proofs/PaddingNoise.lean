import Mathlib.Tactic.Common
import OncWire.Proofs.Padding
import OncWire.Proofs.RoundTrip

/-!
# Padding carries no information

A value is read back from its form also when any of its padding is overwritten.  A
reader that is not strict never notices.  A strict reader fails unless all the padding
is zero, and then right behind the first padding that is not: what it leaves is what
`behindStain` finds in the mask of the value and the bytes, without any reading.

As for the round trip, the law is compositional.  A decoder recovers a value from an
encoding with a mask (`Decoder.Recovers`) when every way to overwrite the marked bytes
has the outcome that the marks tell.  Where two parts are written one after the
other, the marks of the second do not begin with padding, so no run of padding goes
across the border and the first stain of the whole is that of the first part that has
one (`behindStain_append`).
-/

namespace OncWire

/-! ### Overwritten bytes -/

/-- The bytes `x` come from the bytes `w` by putting any others in the place of marked ones. -/
structure Overwritten (mask : List Bool) (w x : Bytes) : Prop where
  /-- There are as many bytes as before. -/
  length_eq : x.length = w.length
  /-- A byte without a mark stays. -/
  getElem?_eq (i : Nat) : mask[i]? ≠ some true → x[i]? = w[i]?

namespace Overwritten

variable {mask mask' : List Bool} {w u x : Bytes}

/-- Content stays as it is. -/
lemma eq_of_content {n : Nat} (h : Overwritten (content n) w x) : x = w := by
  refine List.ext_getElem? fun i => h.getElem?_eq i fun hmark => ?_
  have hmem : true ∈ content n := List.mem_of_getElem? hmark
  cases List.eq_of_mem_replicate hmem

/-- One part is overwritten independently of the other. -/
lemma append (h : Overwritten (mask ++ mask') (w ++ u) x) (hlen : mask.length = w.length) :
    ∃ w' u', x = w' ++ u' ∧ Overwritten mask w w' ∧ Overwritten mask' u u' := by
  have hx : x.length = w.length + u.length := by rw [h.length_eq, List.length_append]
  obtain ⟨w', u', rfl, hw'⟩ : ∃ w' u', x = w' ++ u' ∧ w'.length = w.length := by
    refine ⟨x.take w.length, x.drop w.length, (List.take_append_drop _ _).symm, ?_⟩
    rw [List.length_take]
    omega
  rw [List.length_append] at hx
  refine ⟨w', u', rfl, ⟨hw', fun i hi => ?_⟩, ⟨by omega, fun i hi => ?_⟩⟩
  · by_cases hlt : i < w.length
    · have hpart := h.getElem?_eq i
      rw [List.getElem?_append_left (by omega), List.getElem?_append_left (by omega),
        List.getElem?_append_left hlt] at hpart
      exact hpart hi
    · rw [List.getElem?_eq_none (by omega), List.getElem?_eq_none (by omega)]
  · have hpart := h.getElem?_eq (w.length + i)
    rw [List.getElem?_append_right (by omega), List.getElem?_append_right (by omega),
      List.getElem?_append_right (by omega), hlen, hw', Nat.add_sub_cancel_left] at hpart
    exact hpart hi

/-- Only the bytes that are there have to be compared. -/
lemma iff_forall_lt : Overwritten mask w x ↔
    x.length = w.length ∧ ∀ i < w.length, mask[i]? ≠ some true → x[i]? = w[i]? := by
  constructor
  · exact fun h => ⟨h.length_eq, fun i _ => h.getElem?_eq i⟩
  · rintro ⟨hlen, hbytes⟩
    refine ⟨hlen, fun i hi => ?_⟩
    by_cases hlt : i < w.length
    · exact hbytes i hlt hi
    · rw [List.getElem?_eq_none (by omega), List.getElem?_eq_none (by omega)]

/-- Whether bytes are overwritten can be decided. -/
instance instDecidable : Decidable (Overwritten mask w x) := decidable_of_iff' _ iff_forall_lt

end Overwritten

/-! ### Stains -/

/-- What comes behind the first run of marked bytes that has another byte than zero. -/
def behindStain : List Bool → Bytes → Option Bytes
  | true :: mask, x :: w =>
    if x = 0 then behindStain mask w else some (w.drop (mask.takeWhile id).length)
  | false :: mask, _ :: w => behindStain mask w
  | _, _ => none

/-- There is no stain exactly where all marked bytes are zero. -/
lemma behindStain_eq_none_iff {mask : List Bool} {w : Bytes} (h : mask.length = w.length) :
    behindStain mask w = none ↔ ∀ i : Nat, mask[i]? = some true → w[i]? = some 0 := by
  induction mask generalizing w with
  | nil => simp [behindStain]
  | cons mark mask ih =>
    obtain ⟨x, w, rfl⟩ := List.exists_cons_of_length_eq_add_one h.symm
    have hrest := ih (Nat.succ.inj h)
    constructor
    · intro hnone i hi
      cases i with
      | zero =>
        obtain rfl : mark = true := by simpa using hi
        by_cases hx : x = 0
        · rw [hx]
          rfl
        · simp [behindStain, hx] at hnone
      | succ i =>
        refine hrest.mp ?_ i hi
        cases mark with
        | false => exact hnone
        | true =>
          by_cases hx : x = 0
          · simpa [behindStain, hx] using hnone
          · simp [behindStain, hx] at hnone
    · intro hzero
      have htail : behindStain mask w = none := hrest.mpr fun i hi => hzero (i + 1) hi
      cases mark with
      | false => exact htail
      | true =>
        obtain rfl : x = 0 := by simpa using hzero 0 rfl
        exact htail

/-- Content has no stain, and what follows it has its own. -/
lemma behindStain_content_append (bs : Bytes) (mask : List Bool) (w : Bytes) :
    behindStain (content bs.length ++ mask) (bs ++ w) = behindStain mask w := by
  induction bs with
  | nil => rfl
  | cons x bs ih => exact ih

/-- Padding that is not zero is a stain with nothing behind it. -/
lemma behindStain_replicate (pad : Bytes) :
    behindStain (List.replicate pad.length true) pad =
      if ∃ x ∈ pad, x ≠ 0 then some [] else none := by
  induction pad with
  | nil => rfl
  | cons x pad ih =>
    have hrun : (List.replicate pad.length true).takeWhile id = List.replicate pad.length true := by
      simp
    by_cases hx : x = 0
    · simpa [behindStain, List.replicate_succ, hx] using ih
    · simp [behindStain, List.replicate_succ, hx, hrun]

/-- A run of padding ends where content begins. -/
lemma takeWhile_marks_append (mask : List Bool) {mask' : List Bool}
    (hhead : mask'.head? ≠ some true) : (mask ++ mask').takeWhile id = mask.takeWhile id := by
  induction mask with
  | nil =>
    cases mask' with
    | nil => rfl
    | cons mark mask' =>
      have hmark : mark = false := by simpa using hhead
      rw [hmark]
      rfl
  | cons mark mask ih =>
    cases mark with
    | false => rfl
    | true => exact congrArg (true :: ·) ih

/-- The first stain of two parts is that of the first part, if it has one, or else that of the
second. -/
lemma behindStain_append {mask mask' : List Bool} {w w' : Bytes} (hlen : mask.length = w.length)
    (hhead : mask'.head? ≠ some true) :
    behindStain (mask ++ mask') (w ++ w') =
      match behindStain mask w with
      | none => behindStain mask' w'
      | some q => some (q ++ w') := by
  induction mask generalizing w with
  | nil =>
    obtain rfl : w = [] := List.eq_nil_of_length_eq_zero hlen.symm
    rfl
  | cons mark mask ih =>
    obtain ⟨x, w, rfl⟩ := List.exists_cons_of_length_eq_add_one hlen.symm
    have hrest := ih (Nat.succ.inj hlen)
    cases mark with
    | false => exact hrest
    | true =>
      by_cases hx : x = 0
      · simpa [behindStain, hx] using hrest
      · have hmask : mask.length = w.length := Nat.succ.inj hlen
        have hrun : (mask.takeWhile id).length ≤ w.length :=
          hmask ▸ (List.takeWhile_prefix id).length_le
        simp only [List.cons_append, behindStain, if_neg hx, takeWhile_marks_append mask hhead,
          List.drop_append_of_le_length hrun]

/-- What comes behind the padding that a reader refuses, if it refuses any. -/
def Limits.behindRefused (lim : Limits) (mask : List Bool) (w : Bytes) : Option Bytes :=
  if lim.strictPadding then behindStain mask w else .none

namespace Limits

variable {lim : Limits}

/-- Nothing is refused exactly if the reader is not strict or all marked bytes are zero. -/
lemma behindRefused_eq_none_iff {mask : List Bool} {w : Bytes} (h : mask.length = w.length) :
    lim.behindRefused mask w = .none ↔
      (lim.strictPadding → ∀ i : Nat, mask[i]? = some true → w[i]? = some 0) := by
  rw [behindRefused, ← behindStain_eq_none_iff h]
  by_cases hs : lim.strictPadding
  · rw [if_pos hs, imp_iff_right hs]
  · rw [if_neg hs]
    exact iff_of_true rfl fun hstrict => (hs hstrict).elim

/-- Nothing is refused of content. -/
lemma behindRefused_content (lim : Limits) (bs : Bytes) :
    lim.behindRefused (content bs.length) bs = .none := by
  have hnone : behindStain (content bs.length) bs = .none := by
    have happend := behindStain_content_append bs [] []
    rwa [List.append_nil, List.append_nil] at happend
  rw [behindRefused, hnone, ite_self]

/-- Nothing is refused of a word, and what follows it is refused on its own. -/
lemma behindRefused_word_append (n : UInt32) (mask : List Bool) (w : Bytes) :
    lim.behindRefused (content 4 ++ mask) (wordBytes n ++ w) = lim.behindRefused mask w := by
  have hstain : behindStain (content 4 ++ mask) (wordBytes n ++ w) = behindStain mask w :=
    behindStain_content_append (wordBytes n) mask w
  rw [behindRefused, behindRefused, hstain]

/-- What is refused of two parts is what is refused of the first, or else of the second. -/
lemma behindRefused_append {mask mask' : List Bool} {w w' : Bytes} (hlen : mask.length = w.length)
    (hhead : mask'.head? ≠ some true) :
    lim.behindRefused (mask ++ mask') (w ++ w') =
      match lim.behindRefused mask w with
      | .none => lim.behindRefused mask' w'
      | some q => some (q ++ w') := by
  unfold behindRefused
  by_cases hs : lim.strictPadding
  · rw [if_pos hs, if_pos hs, if_pos hs, behindStain_append hlen hhead]
  · rw [if_neg hs, if_neg hs, if_neg hs]

end Limits

/-! ### Recovering values -/

namespace Decoder

variable {α β : Type} {lim : Limits}

/-- The decoder recovers a value from its encoding, however the marked bytes are overwritten, or
fails behind the first padding that it refuses. -/
structure Recovers (lim : Limits) (d : Decoder α) (e : Encoding) (mask : List Bool) (v : α) :
    Prop where
  /-- There is a mark for each byte. -/
  length_eq : e.fault = none → mask.length = e.bytes.length
  /-- Padding does not come first. -/
  head_ne : mask.head? ≠ some true
  /-- What becomes of the bytes, with any padding and in front of any others. -/
  run : e.fault = none → ∀ ⦃x : Bytes⦄, Overwritten mask e.bytes x → ∀ rest, d (x ++ rest) =
    match lim.behindRefused mask x with
    | none => .ok v rest
    | some q => .error .invalidPadding (q ++ rest)

/-- Where nothing is padding, recovering a value is reading it. -/
lemma Reads.recovers {d : Decoder α} {e : Encoding} {v : α} {n : Nat} (h : Reads d e v)
    (hlen : e.fault = none → e.bytes.length = n) : Recovers lim d e (content n) v where
  length_eq he := by rw [length_content, hlen he]
  head_ne := by cases n <;> simp [content, List.replicate_succ]
  run he x hx rest := by
    rw [hx.eq_of_content, ← hlen he, lim.behindRefused_content]
    exact h he rest

namespace Recovers

variable {d : Decoder α} {e e' : Encoding} {mask mask' : List Bool} {v x : α}

/-- Nothing is recovered as a value that is at hand. -/
lemma nothing (v : α) : Recovers lim (pure v) .nothing [] v :=
  (Reads.nothing v).recovers fun _ => rfl

/-- Nothing has to be recovered of what was refused. -/
lemma of_fault {f : Fault} (h : e.fault = some f) (hmask : mask.head? ≠ some true) :
    Recovers lim d e mask v where
  length_eq hnone := by
    rw [h] at hnone
    cases hnone
  head_ne := hmask
  run hnone := by
    rw [h] at hnone
    cases hnone

/-- What is written one after another is recovered one after another. -/
lemma bind {g : α → Decoder β} {y : β} (hd : Recovers lim d e mask x)
    (hg : Recovers lim (g x) e' mask' y) : Recovers lim (d >>= g) (e ++ e') (mask ++ mask') y where
  length_eq h := by
    obtain ⟨he, he'⟩ := Encoding.fault_append_eq_none_iff.mp h
    rw [Encoding.append_of_complete he, List.length_append, List.length_append, hd.length_eq he,
      hg.length_eq he']
  head_ne := by
    cases mask with
    | nil => exact hg.head_ne
    | cons mark mask => exact hd.head_ne
  run h z hz rest := by
    obtain ⟨he, he'⟩ := Encoding.fault_append_eq_none_iff.mp h
    rw [Encoding.append_of_complete he] at hz
    obtain ⟨w, u, rfl, hw, hu⟩ := hz.append (hd.length_eq he)
    have hlen : mask.length = w.length := by rw [hd.length_eq he, hw.length_eq]
    have hfirst := hd.run he hw (u ++ rest)
    rw [List.append_assoc, Limits.behindRefused_append hlen hg.head_ne]
    cases hstain : lim.behindRefused mask w with
    | some q =>
      rw [hstain] at hfirst
      simp only [bind_of_error hfirst, List.append_assoc]
    | none =>
      rw [hstain] at hfirst
      rw [bind_of_ok hfirst]
      exact hg.run he' hu rest

/-- A value that needs nothing more to be recovered is handed on. -/
lemma bind_pure {g : α → Decoder β} {y : β} (hd : Recovers lim d e mask x) (hg : g x = pure y) :
    Recovers lim (d >>= g) e mask y := by
  have hnothing : Recovers lim (g x) .nothing [] y := hg ▸ nothing y
  have hbind := hd.bind hnothing
  rwa [Encoding.append_nothing, List.append_nil] at hbind

/-- An item of a run is recovered as what it is. -/
lemma item (h : Recovers lim d e mask v) : Recovers lim d e.item mask v where
  length_eq he := by
    have hitem := Encoding.item_of_complete he
    rw [hitem] at he ⊢
    exact h.length_eq he
  head_ne := h.head_ne
  run he := by
    have hitem := Encoding.item_of_complete he
    rw [hitem] at he ⊢
    exact h.run he

/-- A word is recovered. -/
lemma word (w : UInt32) : Recovers lim Decoder.word (.ofWord w) (content 4) w :=
  (Reads.word w).recovers fun _ => length_wordBytes w

/-- A scalar of one word is recovered. -/
lemma scalar (k : Word) (v : k.Val) :
    Recovers lim (do ofExcept (k.decode (← Decoder.word))) (.ofExcept (k.encode v)) (content 4)
      v := by
  refine (Reads.scalar k v).recovers fun he => ?_
  cases h : k.encode v with
  | ok w => exact length_wordBytes w
  | error f =>
    rw [h] at he
    cases he

/-- A count is recovered in front of a run that takes enough bytes for it. -/
lemma length_bind {n unit : Nat} {g : Nat → Decoder β} {y : β} (hn : n ≤ lim.maxLength.toNat)
    (hlen : e.fault = none → n * unit ≤ e.bytes.length) (hg : Recovers lim (g n) e mask y) :
    Recovers lim (length lim unit >>= g) (.length n ++ e) (content 4 ++ mask) y := by
  have hmax := lim.maxLength.toNat_lt
  have hword : Encoding.length n = .ofWord (UInt32.ofNat n) := if_pos (by omega)
  have hwidth : (content 4).length = (Encoding.ofWord (UInt32.ofNat n)).bytes.length := rfl
  rw [hword]
  refine ⟨fun h => ?_, nofun, fun h z hz rest => ?_⟩
  all_goals obtain ⟨-, he⟩ := Encoding.fault_append_eq_none_iff.mp h
  · rw [Encoding.append_of_complete rfl, List.length_append, List.length_append, hwidth,
      hg.length_eq he]
  · rw [Encoding.append_of_complete rfl] at hz
    obtain ⟨w, u, rfl, hw, hu⟩ := hz.append hwidth
    obtain rfl : w = wordBytes (UInt32.ofNat n) := hw.eq_of_content
    have hrun : length lim unit (wordBytes (UInt32.ofNat n) ++ (u ++ rest)) = .ok n (u ++ rest) := by
      -- The check looks at all the bytes that are left, and the run alone has enough of them.
      refine length_eq_ok_iff.mpr ⟨hn, ?_, rfl⟩
      have := hlen he
      rw [List.length_append, hu.length_eq]
      omega
    rw [List.append_assoc, bind_of_ok hrun, Limits.behindRefused_word_append]
    exact hg.run he hu rest

/-- Data of a known length is recovered, or refused for its own padding. -/
lemma padded (bs : Bytes) :
    Recovers lim (Decoder.padded lim bs.length) (.ofBytes (bs ++ padding bs.length))
      (content bs.length ++ List.replicate (padLength bs.length) true) bs where
  length_eq _ := by
    simp only [Encoding.ofBytes, List.length_append, length_content, List.length_replicate,
      length_padding]
  head_ne := by
    cases bs with
    | nil => simp [content, padLength]
    | cons x bs => simp [content, List.replicate_succ]
  run _ z hz rest := by
    obtain ⟨w, pad, rfl, hw, hpad⟩ := hz.append (length_content _)
    obtain rfl : w = bs := hw.eq_of_content
    have hlen : padLength w.length = pad.length := by rw [hpad.length_eq, length_padding]
    have hstain : behindStain (content w.length ++ List.replicate (padLength w.length) true)
        (w ++ pad) = if ∃ x ∈ pad, x ≠ 0 then some [] else none := by
      rw [behindStain_content_append, hlen, behindStain_replicate]
    rw [List.append_assoc, Limits.behindRefused, hstain]
    by_cases hdirty : lim.strictPadding ∧ ∃ x ∈ pad, x ≠ 0
    · rw [if_pos hdirty.1, if_pos hdirty.2]
      exact padded_eq_error_iff.mpr
        (.inr ⟨w, rfl, .inr ⟨pad, hlen.symm, rfl, hdirty.1, hdirty.2, rfl⟩⟩)
    · have hread : Decoder.padded lim w.length (w ++ (pad ++ rest)) = .ok w rest := by
        refine padded_eq_ok_iff.mpr ⟨rfl, pad, hlen.symm, rfl, fun hs x hx => ?_⟩
        by_contra hne
        exact hdirty ⟨hs, x, hx, hne⟩
      rw [hread]
      by_cases hs : lim.strictPadding
      · rw [if_pos hs, if_neg fun hx => hdirty ⟨hs, hx⟩]
      · rw [if_neg hs]

/-- Data is recovered, or refused for its own padding. -/
lemma data {bs : Bytes} (h : bs.length ≤ lim.maxLength.toNat) :
    Recovers lim (Decoder.data lim) (.data bs) (dataMask bs.length) bs := by
  have hmask : dataMask bs.length =
      content 4 ++ (content bs.length ++ List.replicate (padLength bs.length) true) := by
    rw [dataMask, content_add, List.append_assoc]
  rw [Encoding.data, Encoding.append_assoc, Encoding.ofBytes_append_ofBytes, hmask]
  exact length_bind h (fun _ => by simp [Encoding.ofBytes]) (padded bs)

/-- A string is recovered, or refused for its own padding. -/
lemma text {s : String} (h : (utf8 s).length ≤ lim.maxLength.toNat) :
    Recovers lim (Decoder.text lim) (.data (utf8 s)) (dataMask (utf8 s).length) s := by
  refine (data h).bind_pure ?_
  rw [ofUtf8?_utf8]

/-- A run of items is recovered when each of them is. -/
lemma times {enc : α → Encoding} {marks : α → List Bool} {n : Nat}
    (xs : { items : List α // items.length = n })
    (h : ∀ x ∈ xs.val, Recovers lim d (enc x) (marks x) x) :
    Recovers lim (Decoder.times d n) (.concat (xs.val.map enc)) (xs.val.flatMap marks) xs := by
  obtain ⟨xs, rfl⟩ := xs
  induction xs with
  | nil => exact nothing _
  | cons x xs ih =>
    have hx := h x List.mem_cons_self
    have hxs := ih fun y hy => h y (List.mem_cons_of_mem _ hy)
    exact hx.bind (hxs.bind_pure rfl)

/-- A counted run is recovered when each of its items is and takes at least `unit` bytes. -/
lemma counted {enc : α → Encoding} {marks : α → List Bool} {unit : Nat} {xs : List α}
    (g : List α → β) (hn : xs.length ≤ lim.maxLength.toNat)
    (hunit : ∀ x ∈ xs, (enc x).fault = none → unit ≤ (enc x).bytes.length)
    (h : ∀ x ∈ xs, Recovers lim d (enc x) (marks x) x) :
    Recovers lim (do let n ← length lim unit; return g (← Decoder.times d n).val)
      (.length xs.length ++ .concat (xs.map enc)) (content 4 ++ xs.flatMap marks) (g xs) := by
  refine length_bind hn (fun hfault => ?_) ((times ⟨xs, rfl⟩ h).bind_pure rfl)
  have hwidth : ∀ e ∈ xs.map enc, e.fault = none → unit ≤ e.bytes.length := by
    intro e he
    obtain ⟨x, hx, rfl⟩ := List.mem_map.mp he
    exact hunit x hx
  have hlen := Encoding.mul_length_le_concat hwidth hfault
  rwa [List.length_map] at hlen

/-- The two parts of an entry are recovered one after the other. -/
lemma entry {d' : Decoder β} {y : β} (hx : Recovers lim d e mask x)
    (hy : Recovers lim d' e' mask' y) :
    Recovers lim (do let a ← d; return (a, ← d')) (e ++ e') (mask ++ mask') (x, y) :=
  hx.bind (hy.bind_pure rfl)

end Recovers

end Decoder

namespace Shape

open Decoder (Recovers Reads)

/-- A plain value of a well-formed shape is recovered from its form when the limit admits its
lengths. -/
lemma recovers_encode {s : Shape} (hs : s.WellFormed) {v : s.Val} (hv : s.Plain v) {lim : Limits}
    (hlim : ∀ n ∈ s.lengths v, n ≤ lim.maxLength.toNat) :
    Recovers lim (s.decode lim) (s.encode v) (s.padMask v) v := by
  induction s with
  | void => exact Recovers.nothing ()
  | word k => exact Recovers.scalar k v
  | hyper k => exact (reads_encode hs hv hlim).recovers fun _ => length_hyperBytes _
  | huge signed => exact Recovers.of_fault rfl nofun
  | any skipped => exact v.elim
  | text => exact Recovers.text (hlim _ List.mem_cons_self)
  | bytes => exact Recovers.data (hlim _ List.mem_cons_self)
  | option s ih =>
    cases v with
    | none => exact (Recovers.word 0).bind_pure rfl
    | some x => exact (Recovers.word 1).bind ((ih hs (hv x rfl) hlim).bind_pure rfl)
  | seq c s ih =>
    cases c with
    | unknown => exact Recovers.of_fault rfl nofun
    | known =>
      obtain ⟨items, declared⟩ := v
      obtain ⟨rfl : declared = none, hitems⟩ := hv
      rw [encode_seq]
      refine Recovers.counted (fun items => (⟨items, none⟩ : Counted s.Val))
        (hlim _ List.mem_cons_self) (fun x _ => (s.whole_encode x).four_le_length_item)
        fun x hx => ?_
      refine (ih hs (hitems x hx) fun n hn => ?_).item
      exact hlim n (List.mem_cons_of_mem _ (List.mem_flatMap.mpr ⟨x, hx, hn⟩))
  | map c k t ihk iht =>
    cases c with
    | unknown => exact Recovers.of_fault rfl nofun
    | known =>
      obtain ⟨items, declared⟩ := v
      obtain ⟨rfl : declared = none, hitems⟩ := hv
      have hentry : ∀ x ∈ items, ∀ n ∈ k.lengths x.1 ++ t.lengths x.2,
          n ≤ lim.maxLength.toNat := fun x hx n hn =>
        hlim n (List.mem_cons_of_mem _ (List.mem_flatMap.mpr ⟨x, hx, hn⟩))
      rw [encode_map]
      refine Recovers.counted (fun items => (⟨items, none⟩ : Counted (k.Val × t.Val)))
        (hlim _ List.mem_cons_self) (fun x _ h => ?_) fun x hx => ?_
      · exact Encoding.eight_le_length_entry (k.whole_encode x.1) (t.whole_encode x.2) h
      · refine Recovers.entry (ihk hs.1 (hitems x hx).1 fun n hn => ?_).item
          (iht hs.2 (hitems x hx).2 fun n hn => ?_).item
        · exact hentry x hx n (List.mem_append_left _ hn)
        · exact hentry x hx n (List.mem_append_right _ hn)
  | array n s ih =>
    refine Recovers.times v fun x hx => ih hs (hv x hx) fun n hn => ?_
    exact hlim n (List.mem_flatMap.mpr ⟨x, hx, hn⟩)
  | pair s t ihs iht =>
    refine Recovers.entry (ihs hs.1 hv.1 fun n hn => ?_) (iht hs.2 hv.2 fun n hn => ?_)
    · exact hlim n (List.mem_append_left _ hn)
    · exact hlim n (List.mem_append_right _ hn)
  | record name s ih => exact ih hs hv hlim
  | variants name n arm ih =>
    obtain ⟨⟨i, hi⟩, x⟩ := v
    have hx := ih ⟨i, hi⟩ (hs.2 _) hv hlim
    have hindex : (UInt32.ofNat i).toNat = i := by
      have := hs.1
      rw [UInt32.toNat_ofNat']
      omega
    refine (Recovers.word (UInt32.ofNat i)).bind ?_
    -- The index that is read is the one that was written, but not syntactically.
    generalize UInt32.ofNat i = w at hindex
    subst hindex
    rw [dif_pos hi]
    exact hx.bind_pure rfl
  | union tag arm ih =>
    obtain ⟨d, x⟩ := v
    have hx := ih d (hs d) hv hlim
    have hrun := (Recovers.scalar tag d).bind
      (g := fun d => do return (⟨d, ← (arm d).decode lim⟩ : (union tag arm).Val))
      (hx.bind_pure rfl)
    rwa [bind_assoc] at hrun
  | unassigned code name => exact v.elim
  | surplus s t ihs iht => exact hv.elim
  | chain =>
    have hnodes := (Chain.nodes_complete v.tail).2
    refine (Chain.reads_decode v).recovers fun _ => ?_
    rw [Encoding.append_of_complete rfl, List.length_append, hnodes]
    change 4 + (8 * v.tail.length + 4) = 8 * (v.tail.length + 1)
    omega
  | sortedMap =>
    rw [encode_sortedMap]
    -- The reader sorts the entries again, which changes nothing.
    have hv : SortedMap.ofList v.items = v := SortedMap.ofList_items v
    conv => arg 5; rw [← hv]
    refine Recovers.counted SortedMap.ofList (hlim _ List.mem_cons_self) (fun x _ h => ?_)
      fun x hx => ?_
    · exact Encoding.eight_le_length_entry (Encoding.whole_ofWord x.1) (Encoding.whole_data _) h
    · refine Recovers.entry (Recovers.word x.1).item (Recovers.text ?_).item
      exact hlim _ (List.mem_cons_of_mem _ (List.mem_map.mpr ⟨x, hx, rfl⟩))

end Shape

/-! ### The law -/

/-- Padding carries no information.

Take a plain value of a well-formed shape, or of a type with a wire form, its form, a reader whose
limit admits the lengths in the value, and put any bytes in the place of padding.  A reader that
refuses none of the padding, because it is not strict or because all of it is zero, reads the same
value, with the bytes after it.  Any other reader fails for the padding, and leaves what comes
behind the first run of padding that is not zero. -/
theorem decode_overwritten_padding :
    (∀ (s : Shape) (v : s.Val) (lim : Limits) (w x rest : Bytes), s.WellFormed → s.Plain v →
      (∀ n ∈ s.lengths v, n ≤ lim.maxLength.toNat) → s.encode v = ⟨w, none⟩ →
      Overwritten (s.padMask v) w x →
      (s.padMask v).length = x.length ∧
      (lim.behindRefused (s.padMask v) x = none ↔
        (lim.strictPadding → ∀ i : Nat, (s.padMask v)[i]? = some true → x[i]? = some 0)) ∧
      s.decode lim (x ++ rest) =
        match lim.behindRefused (s.padMask v) x with
        | none => .ok v rest
        | some q => .error .invalidPadding (q ++ rest)) ∧
    ∀ (α : Type) [Wire α] [LawfulWire α] (a : α) (lim : Limits) (w x rest : Bytes),
      let mask := (Wire.shape α).padMask (Wire.toVal a)
      (Wire.shape α).Plain (Wire.toVal a) →
      (∀ n ∈ (Wire.shape α).lengths (Wire.toVal a), n ≤ lim.maxLength.toNat) →
      Wire.encode a = ⟨w, none⟩ → Overwritten mask w x →
      mask.length = x.length ∧
      (lim.behindRefused mask x = none ↔
        (lim.strictPadding → ∀ i : Nat, mask[i]? = some true → x[i]? = some 0)) ∧
      Wire.decode lim (x ++ rest) =
        match lim.behindRefused mask x with
        | none => .ok a rest
        | some q => .error .invalidPadding (q ++ rest) := by
  constructor
  · intro s v lim w x rest hs hv hlim hw hx
    have hrec := Shape.recovers_encode hs hv hlim
    rw [hw] at hrec
    have hlen : (s.padMask v).length = x.length := (hrec.length_eq rfl).trans hx.length_eq.symm
    exact ⟨hlen, Limits.behindRefused_eq_none_iff hlen, hrec.run rfl hx rest⟩
  · intro α _ _ a lim w x rest mask ha hlim hw hx
    have hrec := (Shape.recovers_encode LawfulWire.wellFormed ha hlim).bind_pure
      (g := fun v => pure (Wire.ofVal v : α)) rfl
    rw [Wire.ofVal_toVal] at hrec
    rw [Wire.encode] at hw
    rw [hw] at hrec
    have hlen : mask.length = x.length := (hrec.length_eq rfl).trans hx.length_eq.symm
    exact ⟨hlen, Limits.behindRefused_eq_none_iff hlen, hrec.run rfl hx rest⟩

/-- Of two strings with other padding than zero a strict reader refuses the first, right behind it,
and a reader that is not strict reads both.  A credential is refused in the same way. -/
theorem decode_overwritten_padding_two_texts :
    let s : Shape := .seq .known .text
    let v : s.Val := ⟨["a", "bc"], none⟩
    let w : Bytes := [0, 0, 0, 2, 0, 0, 0, 1, 97, 0, 0, 0, 0, 0, 0, 2, 98, 99, 0, 0]
    let x : Bytes := [0, 0, 0, 2, 0, 0, 0, 1, 97, 0, 8, 0, 0, 0, 0, 2, 98, 99, 7, 0]
    let a : Creds := .gss [5]
    let u : Bytes := [0, 0, 0, 6, 0, 0, 0, 1, 5, 0, 0, 0]
    let y : Bytes := [0, 0, 0, 6, 0, 0, 0, 1, 5, 0, 0, 4]
    (s.WellFormed ∧ s.Plain v ∧ (∀ n ∈ s.lengths v, n ≤ 2) ∧ s.encode v = ⟨w, none⟩ ∧
      Overwritten (s.padMask v) w x ∧ s.decode ⟨2, false⟩ (x ++ [9]) = .ok v [9] ∧
      s.decode ⟨2, true⟩ (x ++ [9]) =
        .error .invalidPadding [0, 0, 0, 2, 98, 99, 7, 0, 9]) ∧
    (Wire.shape Creds).Plain (Wire.toVal a) ∧ Wire.encode a = ⟨u, none⟩ ∧
      Overwritten ((Wire.shape Creds).padMask (Wire.toVal a)) u y ∧
      (Wire.decode ⟨1, true⟩ (y ++ [9]) : Reading Creds) = .error .invalidPadding [9] := by
  intro s v w x a u y
  have hs : s.WellFormed := trivial
  have hv : s.Plain v := by simp [s, v, Shape.Plain]
  have hlim : ∀ n ∈ s.lengths v, n ≤ 2 := by decide +kernel
  have hw : s.encode v = ⟨w, none⟩ := by decide +kernel
  have hx : Overwritten (s.padMask v) w x := by decide +kernel
  have ha : (Wire.shape Creds).Plain (Wire.toVal a) := trivial
  have hu : Wire.encode a = ⟨u, none⟩ := by decide +kernel
  have hy : Overwritten ((Wire.shape Creds).padMask (Wire.toVal a)) u y := by decide +kernel
  obtain ⟨hshape, htype⟩ := decode_overwritten_padding
  refine ⟨⟨hs, hv, hlim, hw, hx, ?_, ?_⟩, ha, hu, hy, ?_⟩
  · exact (hshape s v ⟨2, false⟩ w x [9] hs hv hlim hw hx).2.2
  · exact (hshape s v ⟨2, true⟩ w x [9] hs hv hlim hw hx).2.2
  · exact (htype Creds a ⟨1, true⟩ u y [9] ha (by decide +kernel) hu hy).2.2

end OncWire
