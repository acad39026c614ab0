import Mathlib.Tactic.Common
import OncWire.Proofs.Canonical

/-!
# What limits change

Under tighter limits a reader does what it does under looser ones, except that it may
fail for the sake of its limits (`Shape.relaxes_decode`).  And it fails for their sake
only where it has to: apart from sorted maps, what is accepted under some limits is
what is accepted without any, if the lengths and counts in the value and the padding
in its bytes keep to the limits (`Shape.gauged_decode`).  A sorted map may hold fewer
entries than were read, so its value does not tell the count that was compared.

The first law compares two runs and is closed under composition of decoders.  So is
the second, once it is known what limits are compared with in each value: the lengths
and counts and the marks of the padding of a composed value are those of its parts,
one after the other (`Gauge`).
-/

namespace OncWire

/-! ### Limits -/

namespace Limits

/-- Whatever is within the first limits is within the second ones. -/
structure TighterThan (lim lim' : Limits) : Prop where
  /-- The greatest length and count is not greater. -/
  maxLength_le : lim.maxLength ≤ lim'.maxLength
  /-- Padding has to be zero where the other limits say so. -/
  strict_of_strict : lim'.strictPadding → lim.strictPadding

/-- The fault is raised for the sake of the limits. -/
def Raises (lim : Limits) : Fault → Prop
  | .lengthOverflow max _ => max = lim.maxLength.toNat
  | .invalidPadding => True
  | _ => False

/-- All limits are tighter than none. -/
lemma tighterThan_none (lim : Limits) : lim.TighterThan .none where
  maxLength_le := UInt32.le_iff_toNat_le.mpr (Nat.le_of_lt_succ lim.maxLength.toNat_lt)
  strict_of_strict h := by cases h

end Limits

/-- What limits are compared with in a value that is read. -/
structure Gauge where
  /-- The lengths and counts, in the order in which they are read. -/
  lengths : List Nat := []
  /-- The marks of the bytes that are taken; padding is marked. -/
  mask : List Bool := []

/-- The lengths and the marks of one part, then those of the next. -/
instance : Append Gauge where
  append g g' := ⟨g.lengths ++ g'.lengths, g.mask ++ g'.mask⟩

namespace Gauge

variable {α : Type}

/-- The lengths and the marks of all items of a list, one item after the other. -/
def all (gauge : α → Gauge) (xs : List α) : Gauge where
  lengths := xs.flatMap fun x => (gauge x).lengths
  mask := xs.flatMap fun x => (gauge x).mask

/-- Nothing is compared after the last part. -/
lemma append_empty (g : Gauge) : g ++ ({} : Gauge) = g := by
  change Gauge.mk (g.lengths ++ []) (g.mask ++ []) = g
  rw [List.append_nil, List.append_nil]

end Gauge

/-- The lengths and the marks of a value. -/
def Shape.gauge (s : Shape) (v : s.Val) : Gauge := ⟨s.lengths v, s.padMask v⟩

/-- The bytes that are taken for a value, and the lengths in it, keep to the limits. -/
structure Limits.Admits (lim : Limits) (g : Gauge) (w : Bytes) : Prop where
  /-- No length or count is above the greatest one. -/
  le_maxLength : ∀ n ∈ g.lengths, n ≤ lim.maxLength.toNat
  /-- Where padding has to be zero, it is. -/
  clear_of_strict : lim.strictPadding → clearPadding g.mask w = w

namespace Limits.Admits

variable {lim : Limits} {g g' : Gauge} {w w' : Bytes}

/-- Content without lengths keeps to all limits. -/
lemma content (lim : Limits) (w : Bytes) : lim.Admits ⟨[], content w.length⟩ w where
  le_maxLength := nofun
  clear_of_strict _ := clearPadding_content w

/-- Limits are kept by two parts when they are kept by each of them. -/
lemma append_iff (h : g.mask.length = w.length) :
    lim.Admits (g ++ g') (w ++ w') ↔ lim.Admits g w ∧ lim.Admits g' w' := by
  have hsplit : clearPadding (g ++ g').mask (w ++ w') = w ++ w' ↔
      clearPadding g.mask w = w ∧ clearPadding g'.mask w' = w' := by
    change clearPadding (g.mask ++ g'.mask) (w ++ w') = w ++ w' ↔ _
    rw [clearPadding_append h]
    exact ⟨fun happ => List.append_inj happ (length_clearPadding h),
      fun ⟨hl, hr⟩ => by rw [hl, hr]⟩
  constructor
  · rintro ⟨hle, hclear⟩
    exact ⟨⟨fun n hn => hle n (List.mem_append_left _ hn), fun hs => (hsplit.mp (hclear hs)).1⟩,
      fun n hn => hle n (List.mem_append_right _ hn), fun hs => (hsplit.mp (hclear hs)).2⟩
  · rintro ⟨h, h'⟩
    refine ⟨fun n hn => ?_, fun hs => hsplit.mpr ⟨h.clear_of_strict hs, h'.clear_of_strict hs⟩⟩
    rcases List.mem_append.mp hn with hn | hn
    · exact h.le_maxLength n hn
    · exact h'.le_maxLength n hn

end Limits.Admits

namespace Decoder

variable {α β : Type} {lim lim' : Limits}

/-! ### Comparing two readers -/

/-- The second decoder does what the first does, except where the first fails for the sake of its
limits. -/
def Relaxes (lim : Limits) (d d' : Decoder α) : Prop :=
  ∀ b, d' b = d b ∨ ∃ f r, d b = .error f r ∧ lim.Raises f

namespace Relaxes

/-- A decoder does what it does itself. -/
lemma refl (d : Decoder α) : Relaxes lim d d := fun _ => .inl rfl

/-- Composed decoders are compared part by part. -/
lemma bind {d d' : Decoder α} {g g' : α → Decoder β} (hd : Relaxes lim d d')
    (hg : ∀ v, Relaxes lim (g v) (g' v)) : Relaxes lim (d >>= g) (d' >>= g') := by
  intro b
  rcases hd b with hsame | ⟨f, r, hf, hraises⟩
  · cases hrun : d b with
    | error f r =>
      rw [hrun] at hsame
      exact .inl ((bind_of_error hsame).trans (bind_of_error hrun).symm)
    | ok v q =>
      rw [hrun] at hsame
      rw [bind_of_ok hsame, bind_of_ok hrun]
      exact hg v q
  · exact .inr ⟨f, r, bind_of_error hf, hraises⟩

/-- Handing on a value makes no difference. -/
lemma map {d d' : Decoder α} (hd : Relaxes lim d d') (g : α → β) :
    Relaxes lim (do return g (← d)) (do return g (← d')) :=
  hd.bind fun v => refl (Pure.pure (g v))

/-- Repeated items are compared one by one. -/
lemma times {d d' : Decoder α} (hd : Relaxes lim d d') (n : Nat) :
    Relaxes lim (times d n) (times d' n) := by
  induction n with
  | zero => exact refl _
  | succ n ih => exact hd.bind fun x => ih.map _

/-- The two parts of an entry are compared one after the other. -/
lemma entry {d d' : Decoder α} {e e' : Decoder β} (hd : Relaxes lim d d')
    (he : Relaxes lim e e') :
    Relaxes lim (do let x ← d; return (x, ← e) : Decoder (α × β))
      (do let x ← d'; return (x, ← e')) :=
  hd.bind fun x => he.map fun y => (x, y)

/-- A length is honoured under looser limits, or refused for the same reason, unless it is above
the tighter ones. -/
lemma length (h : lim.TighterThan lim') (unit : Nat) :
    Relaxes lim (length lim unit) (length lim' unit) := by
  refine (refl Decoder.word).bind fun w => ?_
  intro b
  by_cases hover : lim.maxLength < w
  · refine .inr ⟨.lengthOverflow lim.maxLength.toNat w.toNat, b, ?_, rfl⟩
    rw [if_pos hover]
    rfl
  · have hover' : ¬ lim'.maxLength < w := fun hlt =>
      hover (UInt32.lt_of_le_of_lt h.maxLength_le hlt)
    rw [if_neg hover, if_neg hover']
    exact .inl rfl

/-- Data is taken under looser limits, or refused for the same reason, unless its padding offends a
strict reader. -/
lemma padded (h : lim.TighterThan lim') (n : Nat) :
    Relaxes lim (padded lim n) (padded lim' n) := by
  refine (refl (Decoder.take n)).bind fun bs => (refl (Decoder.take _)).bind fun pad => ?_
  intro b
  by_cases hdirty : lim.strictPadding ∧ ∃ x ∈ pad, x ≠ 0
  · refine .inr ⟨.invalidPadding, b, ?_, trivial⟩
    rw [if_pos hdirty]
    rfl
  · have hclean : ¬ (lim'.strictPadding ∧ ∃ x ∈ pad, x ≠ 0) := fun hd =>
      hdirty ⟨h.strict_of_strict hd.1, hd.2⟩
    rw [if_neg hdirty, if_neg hclean]
    exact .inl rfl

/-- Data of variable length is compared by its length and then by its bytes. -/
lemma data (h : lim.TighterThan lim') : Relaxes lim (data lim) (data lim') :=
  (length h 1).bind fun n => padded h n

/-- Strings are compared as data. -/
lemma text (h : lim.TighterThan lim') : Relaxes lim (text lim) (text lim') :=
  (data h).bind fun _ => refl _

end Relaxes

end Decoder

/-- Under looser limits a value is read as under tighter ones, unless it was refused for the sake of
these. -/
lemma Shape.relaxes_decode {lim lim' : Limits} (h : lim.TighterThan lim') (s : Shape) :
    Decoder.Relaxes lim (s.decode lim) (s.decode lim') := by
  induction s with
  | text => exact Decoder.Relaxes.text h
  | bytes => exact Decoder.Relaxes.data h
  | option s ih =>
    refine (Decoder.Relaxes.refl Decoder.word).bind fun flag => ?_
    by_cases hzero : flag = 0
    · rw [if_pos hzero, if_pos hzero]
      exact Decoder.Relaxes.refl _
    · rw [if_neg hzero, if_neg hzero]
      by_cases hone : flag = 1
      · rw [if_pos hone, if_pos hone]
        exact ih.map some
      · rw [if_neg hone, if_neg hone]
        exact Decoder.Relaxes.refl _
  | seq c s ih =>
    exact (Decoder.Relaxes.length h 4).bind fun n => (ih.times n).map _
  | map c k t ihk iht =>
    exact (Decoder.Relaxes.length h 8).bind fun n => ((ihk.entry iht).times n).map _
  | array n s ih => exact ih.times n
  | pair s t ihs iht => exact ihs.entry iht
  | record name s ih => exact ih
  | variants name n arm ih =>
    refine (Decoder.Relaxes.refl Decoder.word).bind fun index => ?_
    by_cases hindex : index.toNat < n
    · rw [dif_pos hindex, dif_pos hindex]
      exact (ih ⟨index.toNat, hindex⟩).map _
    · rw [dif_neg hindex, dif_neg hindex]
      exact Decoder.Relaxes.refl _
  | union tag arm ih =>
    exact (Decoder.Relaxes.refl Decoder.word).bind fun w =>
      (Decoder.Relaxes.refl (Decoder.ofExcept _)).bind fun d => (ih d).map _
  | surplus s t ihs _ => exact ihs.bind fun _ => Decoder.Relaxes.refl _
  | sortedMap =>
    have hkey : Decoder.Relaxes lim Decoder.word Decoder.word := Decoder.Relaxes.refl _
    have hentry := hkey.entry (Decoder.Relaxes.text h)
    exact (Decoder.Relaxes.length h 8).bind fun n => (hentry.times n).map _
  | _ => exact Decoder.Relaxes.refl _

namespace Decoder

variable {α β : Type}

/-! ### What limits are compared with -/

/-- Under limits a value is accepted where it is accepted without any, if it keeps to the limits. -/
structure Gauged (d : Limits → Decoder α) (gauge : α → Gauge) : Prop where
  /-- There is a mark for each byte that is taken. -/
  marked ⦃lim : Limits⦄ ⦃b r : Bytes⦄ ⦃v : α⦄ : d lim b = .ok v r →
    ∃ w, b = w ++ r ∧ (gauge v).mask.length = w.length
  /-- Limits refuse a value only for its own sake. -/
  ok_iff (lim : Limits) ⦃w r : Bytes⦄ ⦃v : α⦄ : (gauge v).mask.length = w.length →
    (d lim (w ++ r) = .ok v r ↔ d .none (w ++ r) = .ok v r ∧ lim.Admits (gauge v) w)

namespace Gauged

/-- What takes content whatever the limits are has nothing for them to refuse. -/
lemma ofContent {d : Decoder α} {gauge : α → Gauge}
    (h : ∀ ⦃b r : Bytes⦄ ⦃v : α⦄, d b = .ok v r →
      ∃ w, b = w ++ r ∧ gauge v = ⟨[], content w.length⟩) :
    Gauged (fun _ => d) gauge where
  marked lim b r v hrun := by
    obtain ⟨w, hb, hgauge⟩ := h hrun
    exact ⟨w, hb, by rw [hgauge, length_content]⟩
  ok_iff lim w r v _ := by
    refine ⟨fun hrun => ⟨hrun, ?_⟩, And.left⟩
    obtain ⟨w', hb, hgauge⟩ := h hrun
    obtain rfl : w = w' := List.append_cancel_right hb
    rw [hgauge]
    exact .content lim w

/-- Yielding a value takes nothing. -/
lemma pure {gauge : α → Gauge} {v : α} (h : gauge v = {}) :
    Gauged (fun _ => Pure.pure v) gauge :=
  ofContent fun b r u hrun => by
    cases hrun
    exact ⟨[], rfl, h⟩

/-- A fault is no value. -/
lemma throw (f : Fault) (gauge : α → Gauge) :
    Gauged (fun _ => (MonadExcept.throw f : Decoder α)) gauge :=
  ofContent fun b r v hrun => by cases hrun

/-- Passing on an outcome takes nothing. -/
lemma ofExcept (e : Except Fault α) : Gauged (fun _ => Decoder.ofExcept e) fun _ => {} :=
  ofContent fun b r v hrun => by
    obtain ⟨-, rfl⟩ := ofExcept_eq_ok_iff.mp hrun
    exact ⟨[], rfl, rfl⟩

/-- A composed value is compared with limits part by part. -/
lemma bind {d : Limits → Decoder α} {g : Limits → α → Decoder β} {gauge : α → Gauge}
    {total : β → Gauge} (gauge' : α → β → Gauge) (hd : Gauged d gauge)
    (hg : ∀ v, Gauged (fun lim => g lim v) (gauge' v))
    (htotal : ∀ ⦃lim v q u r⦄, g lim v q = .ok u r → total u = gauge v ++ gauge' v u) :
    Gauged (fun lim => d lim >>= g lim) total := by
  -- A run of the whole is a run of each part on its own bytes.
  have hsplit : ∀ {lim : Limits} {b r : Bytes} {u : β}, (d lim >>= g lim) b = .ok u r →
      ∃ v w w', b = w ++ (w' ++ r) ∧ d lim (w ++ (w' ++ r)) = .ok v (w' ++ r) ∧
        g lim v (w' ++ r) = .ok u r ∧ (gauge v).mask.length = w.length ∧
        (gauge' v u).mask.length = w'.length := by
    intro lim b r u hrun
    obtain ⟨v, q, hv, hu⟩ := bind_eq_ok_iff.mp hrun
    obtain ⟨w, rfl, hw⟩ := hd.marked hv
    obtain ⟨w', rfl, hw'⟩ := (hg v).marked hu
    exact ⟨v, w, w', rfl, hv, hu, hw, hw'⟩
  constructor
  · intro lim b r u hrun
    obtain ⟨v, w, w', rfl, -, hu, hw, hw'⟩ := hsplit hrun
    refine ⟨w ++ w', (List.append_assoc _ _ _).symm, ?_⟩
    rw [htotal hu, List.length_append, ← hw, ← hw']
    exact List.length_append
  · intro lim x r u _
    constructor
    · intro hrun
      obtain ⟨v, w, w', hb, hv, hu, hw, hw'⟩ := hsplit hrun
      obtain ⟨hv, hadm⟩ := (hd.ok_iff lim hw).mp hv
      obtain ⟨hnone, hadm'⟩ := ((hg v).ok_iff lim hw').mp hu
      obtain rfl : x = w ++ w' := List.append_cancel_right (hb.trans (List.append_assoc _ _ _).symm)
      rw [hb, htotal hu, Limits.Admits.append_iff hw]
      exact ⟨bind_eq_ok_iff.mpr ⟨v, _, hv, hnone⟩, hadm, hadm'⟩
    · rintro ⟨hrun, hadm⟩
      obtain ⟨v, w, w', hb, hv, hu, hw, hw'⟩ := hsplit hrun
      obtain rfl : x = w ++ w' := List.append_cancel_right (hb.trans (List.append_assoc _ _ _).symm)
      rw [htotal hu, Limits.Admits.append_iff hw] at hadm
      rw [hb]
      exact bind_eq_ok_iff.mpr
        ⟨v, _, (hd.ok_iff lim hw).mpr ⟨hv, hadm.1⟩, ((hg v).ok_iff lim hw').mpr ⟨hu, hadm.2⟩⟩

/-- Handing on a value adds nothing to compare. -/
lemma map {d : Limits → Decoder α} {gauge : α → Gauge} {total : β → Gauge} (hd : Gauged d gauge)
    (f : α → β) (h : ∀ v, total (f v) = gauge v) :
    Gauged (fun lim => do return f (← d lim)) total :=
  hd.bind (fun _ _ => {}) (fun _ => pure rfl) fun lim v q u r hrun => by
    cases hrun
    rw [h, Gauge.append_empty]

/-- The two parts of an entry are compared one after the other. -/
lemma entry {d : Limits → Decoder α} {e : Limits → Decoder β} {gauge : α → Gauge}
    {gauge' : β → Gauge} (hd : Gauged d gauge) (he : Gauged e gauge') :
    Gauged (fun lim => do let x ← d lim; return (x, ← e lim))
      fun v => gauge v.1 ++ gauge' v.2 :=
  hd.bind (fun _ v => gauge' v.2) (fun x => he.map (fun y => (x, y)) fun _ => rfl)
    fun lim x q v r hrun => by
      obtain ⟨y, q', -, hpure⟩ := bind_eq_ok_iff.mp hrun
      cases hpure
      rfl

/-- Repeated items are compared one by one. -/
lemma times {d : Limits → Decoder α} {gauge : α → Gauge} (hd : Gauged d gauge) (n : Nat) :
    Gauged (fun lim => times (d lim) n) fun xs => .all gauge xs.val := by
  induction n with
  | zero => exact pure rfl
  | succ n ih =>
    refine hd.bind (fun _ xs => .all gauge xs.val.tail) (fun x => ih.map _ fun ys => rfl) ?_
    intro lim x q xs r hrun
    obtain ⟨ys, q', -, hpure⟩ := bind_eq_ok_iff.mp hrun
    cases hpure
    rfl

/-- A word is content. -/
lemma word : Gauged (fun _ => Decoder.word) fun _ => ⟨[], content 4⟩ :=
  ofContent fun b r w hrun => ⟨wordBytes w, word_eq_ok_iff.mp hrun, by rw [length_wordBytes]⟩

/-- A length is compared with the greatest one. -/
lemma length (unit : Nat) :
    Gauged (fun lim => Decoder.length lim unit) fun n => ⟨[n], content 4⟩ where
  marked lim b r n hrun := by
    obtain ⟨-, -, rfl⟩ := length_eq_ok_iff.mp hrun
    exact ⟨_, rfl, by rw [length_content, length_wordBytes]⟩
  ok_iff lim w r n hw := by
    rw [length_content] at hw
    rw [length_eq_ok_iff, length_eq_ok_iff]
    constructor
    · rintro ⟨hmax, hrun⟩
      have hnone := UInt32.le_iff_toNat_le.mp lim.tighterThan_none.maxLength_le
      refine ⟨⟨Nat.le_trans hmax hnone, hrun⟩, fun m hm => ?_, fun _ => ?_⟩
      · rwa [List.mem_singleton.mp hm]
      · rw [hw, clearPadding_content]
    · rintro ⟨⟨-, hrun⟩, hadm⟩
      exact ⟨hadm.le_maxLength n (List.mem_singleton_self n), hrun⟩

/-- The padding of data has to be zero for a strict reader. -/
lemma padded (n : Nat) : Gauged (fun lim => Decoder.padded lim n)
    fun _ => ⟨[], content n ++ List.replicate (padLength n) true⟩ where
  marked lim b r bs hrun := by
    obtain ⟨hbs, pad, hpad, rfl, -⟩ := padded_eq_ok_iff.mp hrun
    refine ⟨bs ++ pad, (List.append_assoc _ _ _).symm, ?_⟩
    rw [List.length_append, List.length_append, length_content, List.length_replicate, hbs, hpad]
  ok_iff lim w r bs hw := by
    have hclear : ∀ {pad : Bytes}, bs.length = n → pad.length = padLength n →
        (clearPadding (content n ++ List.replicate (padLength n) true) (bs ++ pad) = bs ++ pad ↔
          ∀ x ∈ pad, x = 0) := by
      intro pad hbs hpad
      rw [← hpad, ← hbs, clearPadding_append (length_content _), clearPadding_content,
        List.append_cancel_left_eq, clearPadding_replicate_eq_iff]
    rw [padded_eq_ok_iff, padded_eq_ok_iff]
    constructor
    · rintro ⟨hbs, pad, hpad, hb, hstrict⟩
      rw [← List.append_assoc] at hb
      obtain rfl : w = bs ++ pad := List.append_cancel_right hb
      exact ⟨⟨hbs, pad, hpad, List.append_assoc _ _ _, nofun⟩, nofun,
        fun hs => (hclear hbs hpad).mpr (hstrict hs)⟩
    · rintro ⟨⟨hbs, pad, hpad, hb, -⟩, hadm⟩
      rw [← List.append_assoc] at hb
      obtain rfl : w = bs ++ pad := List.append_cancel_right hb
      exact ⟨hbs, pad, hpad, List.append_assoc _ _ _,
        fun hs => (hclear hbs hpad).mp (hadm.clear_of_strict hs)⟩

/-- Data of variable length is compared by its length and its padding. -/
lemma data : Gauged Decoder.data fun bs => ⟨[bs.length], dataMask bs.length⟩ :=
  (length 1).bind (fun n _ => ⟨[], content n ++ List.replicate (padLength n) true⟩) padded
    fun lim n q bs r hrun => by
      obtain ⟨rfl, -⟩ := padded_eq_ok_iff.mp hrun
      rw [dataMask, content_add, List.append_assoc]
      rfl

/-- Strings are compared as data. -/
lemma text : Gauged Decoder.text fun s => ⟨[(utf8 s).length], dataMask (utf8 s).length⟩ where
  marked lim b r s hrun := data.marked (text_eq_ok_iff.mp hrun)
  ok_iff lim w r s hw := by
    rw [text_eq_ok_iff, text_eq_ok_iff]
    exact data.ok_iff lim hw

/-- The items of a run are compared after their count. -/
lemma counted {d : Limits → Decoder α} {gauge : α → Gauge} (hd : Gauged d gauge) (unit : Nat) :
    Gauged
      (fun lim => do
        let n ← Decoder.length lim unit
        return (⟨(← Decoder.times (d lim) n).val, none⟩ : Counted α))
      fun v => ⟨[v.items.length], content 4⟩ ++ .all gauge v.items :=
  (length unit).bind (fun _ v => .all gauge v.items)
    (fun n => (hd.times n).map (fun xs => (⟨xs.val, none⟩ : Counted α)) fun _ => rfl)
    fun lim n q v r hrun => by
      obtain ⟨⟨xs, rfl⟩, q', -, hpure⟩ := bind_eq_ok_iff.mp hrun
      cases hpure
      rfl

end Gauged

end Decoder

/-- Apart from sorted maps, limits refuse a value only for its own lengths, counts and padding. -/
lemma Shape.gauged_decode {s : Shape} (hs : s.SortedMapFree) :
    Decoder.Gauged (fun lim => s.decode lim) s.gauge := by
  induction s with
  | void => exact Decoder.Gauged.pure rfl
  | word k =>
    refine Decoder.Gauged.ofContent (d := (word k).decode .none) fun b r v hrun => ?_
    obtain ⟨x, -, rfl⟩ := decode_word_eq_ok_iff.mp hrun
    exact ⟨wordBytes x, rfl, by rw [length_wordBytes]; rfl⟩
  | hyper k =>
    refine Decoder.Gauged.ofContent (d := (hyper k).decode .none) fun b r v hrun => ?_
    obtain rfl := decode_hyper_eq_ok_iff.mp hrun
    exact ⟨hyperBytes (k.encode v), rfl, by rw [length_hyperBytes]; rfl⟩
  | huge signed => exact Decoder.Gauged.throw _ _
  | any skipped => exact Decoder.Gauged.throw _ _
  | text => exact Decoder.Gauged.text
  | bytes => exact Decoder.Gauged.data
  | option s ih =>
    refine Decoder.Gauged.word.bind (fun _ v => v.elim {} s.gauge) (fun flag => ?_) ?_
    · by_cases hzero : flag = 0
      · simp only [if_pos hzero]
        exact Decoder.Gauged.pure rfl
      · simp only [if_neg hzero]
        by_cases hone : flag = 1
        · simp only [if_pos hone]
          exact (ih hs).map some fun _ => rfl
        · simp only [if_neg hone]
          exact Decoder.Gauged.throw _ _
    · rintro lim flag q (_ | x) r -
      · exact (Gauge.append_empty _).symm
      · rfl
  | seq c s ih => exact (ih hs).counted 4
  | map c k t ihk iht => exact ((ihk hs.1).entry (iht hs.2)).counted 8
  | array n s ih => exact (ih hs).times n
  | pair s t ihs iht => exact (ihs hs.1).entry (iht hs.2)
  | record name s ih => exact ih hs
  | variants name n arm ih =>
    refine Decoder.Gauged.word.bind (fun _ v => (arm v.1).gauge v.2) (fun index => ?_)
      fun _ _ _ _ _ _ => rfl
    by_cases hindex : index.toNat < n
    · simp only [dif_pos hindex]
      exact (ih _ (hs _)).map _ fun _ => rfl
    · simp only [dif_neg hindex]
      exact Decoder.Gauged.throw _ _
  | union tag arm ih =>
    refine Decoder.Gauged.word.bind (fun _ v => (arm v.1).gauge v.2) (fun w => ?_)
      fun _ _ _ _ _ _ => rfl
    exact (Decoder.Gauged.ofExcept _).bind (fun _ v => (arm v.1).gauge v.2)
      (fun d => (ih d (hs d)).map _ fun _ => rfl) fun _ _ _ _ _ _ => rfl
  | unassigned code name => exact Decoder.Gauged.throw _ _
  | surplus s t ihs _ =>
    exact (ihs hs.1).bind (fun _ _ => {}) (fun _ => Decoder.Gauged.throw _ _)
      fun _ _ _ _ _ hrun => by cases hrun
  | chain =>
    refine Decoder.Gauged.ofContent fun b r c hrun => ?_
    obtain ⟨w, hb, hw⟩ := Chain.append_of_decode hrun
    exact ⟨w, hb, by rw [hw]; rfl⟩
  | sortedMap => exact hs.elim

/-! ### The law -/

/-- Where one reader relaxes another, it accepts what the other accepts, and raises what the other
raises other than for the sake of its limits. -/
lemma Decoder.Relaxes.ok_and_error {α : Type} {lim : Limits} {d d' : Decoder α}
    (h : Relaxes lim d d') (b : Bytes) :
    (∀ v r, d b = .ok v r → d' b = .ok v r) ∧
      ∀ f r, d b = .error f r → (∀ n, f ≠ .lengthOverflow lim.maxLength.toNat n) →
        f ≠ .invalidPadding → d' b = .error f r := by
  refine ⟨fun v r hrun => ?_, fun f r hrun hlen hpad => ?_⟩
  · rcases h b with hsame | ⟨f, q, hf, -⟩
    · rw [hsame, hrun]
    · rw [hrun] at hf
      cases hf
  · rcases h b with hsame | ⟨g, q, hg, hraises⟩
    · rw [hsame, hrun]
    · rw [hrun] at hg
      cases hg
      cases f with
      | lengthOverflow max n =>
        obtain rfl : max = lim.maxLength.toNat := hraises
        exact (hlen n rfl).elim
      | invalidPadding => exact (hpad rfl).elim
      | _ => exact hraises.elim

/-- Where limits refuse a value only for its own sake, it is accepted under them exactly if it is
accepted without any, its lengths are within the limit, and its padding is zero for a strict
reader. -/
lemma Decoder.Gauged.ok_iff_none {α : Type} {d : Limits → Decoder α} {gauge : α → Gauge}
    (h : Gauged d gauge) {lim : Limits} {b r : Bytes} {v : α} :
    d lim b = .ok v r ↔ d .none b = .ok v r ∧
      (∀ n ∈ (gauge v).lengths, n ≤ lim.maxLength.toNat) ∧
      (lim.strictPadding → ∃ w, b = w ++ r ∧ (gauge v).mask.length = w.length ∧
        clearPadding (gauge v).mask w = w) := by
  constructor
  · intro hrun
    obtain ⟨w, rfl, hw⟩ := h.marked hrun
    obtain ⟨hnone, hle, hclear⟩ := (h.ok_iff lim hw).mp hrun
    exact ⟨hnone, hle, fun hs => ⟨w, rfl, hw, hclear hs⟩⟩
  · rintro ⟨hnone, hle, hclear⟩
    obtain ⟨w, rfl, hw⟩ := h.marked hnone
    refine (h.ok_iff lim hw).mpr ⟨hnone, hle, fun hs => ?_⟩
    obtain ⟨w', hb, -, hw'⟩ := hclear hs
    obtain rfl : w = w' := List.append_cancel_right hb
    exact hw'

/-- Under looser limits a reader accepts what it accepts under tighter ones, as the same value and
with the same rest, and raises the same fault unless this was raised for the sake of the tighter
limits.  And, sorted maps apart, it accepts under some limits exactly what it accepts without any
if the lengths and counts in the value are within the limit and, for a strict reader, its padding
is zero. -/
theorem decode_under_limits :
    (∀ (s : Shape) (lim lim' : Limits) (b : Bytes), lim.TighterThan lim' →
      (∀ v r, s.decode lim b = .ok v r → s.decode lim' b = .ok v r) ∧
      ∀ f r, s.decode lim b = .error f r → (∀ n, f ≠ .lengthOverflow lim.maxLength.toNat n) →
        f ≠ .invalidPadding → s.decode lim' b = .error f r) ∧
    (∀ (s : Shape) (lim : Limits) (b r : Bytes) (v : s.Val), s.SortedMapFree →
      (s.decode lim b = .ok v r ↔ s.decode .none b = .ok v r ∧
        (∀ n ∈ s.lengths v, n ≤ lim.maxLength.toNat) ∧
        (lim.strictPadding → ∃ w, b = w ++ r ∧ (s.padMask v).length = w.length ∧
          clearPadding (s.padMask v) w = w))) ∧
    (∀ (α : Type) [Wire α] (lim lim' : Limits) (b : Bytes), lim.TighterThan lim' →
      (∀ (a : α) (r : Bytes), Wire.decode lim b = .ok a r → Wire.decode lim' b = .ok a r) ∧
      ∀ f r, (Wire.decode lim : Decoder α) b = .error f r →
        (∀ n, f ≠ .lengthOverflow lim.maxLength.toNat n) → f ≠ .invalidPadding →
          (Wire.decode lim' : Decoder α) b = .error f r) ∧
    ∀ (α : Type) [Wire α] [LawfulWire α] (lim : Limits) (b r : Bytes) (a : α),
      let v := Wire.toVal a
      let mask := (Wire.shape α).padMask v
      Wire.decode lim b = .ok a r ↔ Wire.decode .none b = .ok a r ∧
        (∀ n ∈ (Wire.shape α).lengths v, n ≤ lim.maxLength.toNat) ∧
        (lim.strictPadding → ∃ w, b = w ++ r ∧ mask.length = w.length ∧
          clearPadding mask w = w) := by
  refine ⟨fun s lim lim' b h => ?_, fun s lim b r v hs => ?_, fun α _ lim lim' b h => ?_,
    fun α _ _ lim b r a => ?_⟩
  · exact (s.relaxes_decode h).ok_and_error b
  · exact (Shape.gauged_decode hs).ok_iff_none
  · exact (((Wire.shape α).relaxes_decode h).map Wire.ofVal).ok_and_error b
  · have hs := (LawfulWire.rewritable (α := α)).sortedMapFree
    intro v mask
    rw [LawfulWire.decode_eq_ok_iff, LawfulWire.decode_eq_ok_iff]
    exact (Shape.gauged_decode hs).ok_iff_none

/-- A list of one string is read under limits and under looser ones, and bytes that are no string
are refused under both; the list is read under the limits since it keeps to them. -/
theorem decode_under_limits_texts :
    let s : Shape := .seq .known .text
    let lim : Limits := ⟨1, true⟩
    let lim' : Limits := ⟨3, false⟩
    let v : s.Val := ⟨["a"], none⟩
    let b : Bytes := [0, 0, 0, 1, 0, 0, 0, 1, 97, 0, 0, 0, 9]
    let c : Bytes := [0, 0, 0, 1, 0, 0, 0, 1, 255, 0, 0, 0, 9]
    lim.TighterThan lim' ∧
      (s.decode lim b = .ok v [9] ∧ s.decode lim' b = .ok v [9]) ∧
      (s.decode lim c = .error .invalidString [9] ∧ s.decode lim' c = .error .invalidString [9]) ∧
      s.SortedMapFree ∧ s.decode .none b = .ok v [9] ∧ (∀ n ∈ s.lengths v, n ≤ 1) ∧
      ∃ w, b = w ++ [9] ∧ (s.padMask v).length = w.length ∧ clearPadding (s.padMask v) w = w := by
  intro s lim lim' v b c
  have htight : lim.TighterThan lim' := ⟨by decide, nofun⟩
  have hb : s.decode lim b = .ok v [9] := by decide +kernel
  have hc : s.decode lim c = .error .invalidString [9] := by decide +kernel
  have hs : s.SortedMapFree := trivial
  obtain ⟨hok, -⟩ := decode_under_limits.1 s lim lim' b htight
  obtain ⟨-, herror⟩ := decode_under_limits.1 s lim lim' c htight
  obtain ⟨hnone, hle, hclear⟩ := (decode_under_limits.2.1 s lim b [9] v hs).mp hb
  exact ⟨htight, ⟨hb, hok v [9] hb⟩, ⟨hc, herror .invalidString [9] hc nofun nofun⟩, hs, hnone, hle,
    hclear rfl⟩

/-- Two entries for one key are one entry of a sorted map, but their count is two. -/
example :
    let b : Bytes := [0, 0, 0, 2, 0, 0, 0, 7, 0, 0, 0, 0, 0, 0, 0, 7, 0, 0, 0, 0]
    Shape.sortedMap.decode .none b = .ok (.ofList [(7, "")]) [] ∧
      Shape.sortedMap.decode ⟨1, false⟩ b = .error (.lengthOverflow 1 2) (b.drop 4) := by
  decide +kernel

end OncWire
