import Mathlib.Tactic.Common
import OncWire.Proofs.Admissible
import OncWire.Proofs.Inversion

/-!
# How many bytes a value takes

Whether a value takes any bytes is decided by its shape.  A reader takes none for
a value of zero width (`Shape.rest_of_zeroWidth`) and at least four for every
other (`Shape.takes_four`), so it can tell from the bytes that are left how many
items of a run there may be at most.
-/

namespace OncWire

namespace Decoder

variable {α β : Type} {lim : Limits}

/-- Whenever it yields a value, the decoder has taken at least `n` bytes. -/
def Takes (n : Nat) (d : Decoder α) : Prop :=
  ∀ ⦃b r : Bytes⦄ ⦃v : α⦄, d b = .ok v r → r.length + n ≤ b.length

namespace Takes

/-- What takes at least some bytes takes at least fewer. -/
lemma mono {m n : Nat} {d : Decoder α} (h : Takes n d) (hmn : m ≤ n) : Takes m d := by
  intro b r v hrun
  have := h hrun
  omega

/-- Yielding a value takes no bytes. -/
lemma pure (v : α) : Takes 0 (pure v : Decoder α) := by
  intro b r u hrun
  cases hrun
  exact Nat.le_refl _

/-- A fault is no value. -/
lemma throw (n : Nat) (f : Fault) : Takes n (throw f : Decoder α) := by
  intro b r v hrun
  cases hrun

/-- What two decoders take adds up. -/
lemma bind {m n : Nat} {d : Decoder α} {g : α → Decoder β} (hd : Takes m d)
    (hg : ∀ v, Takes n (g v)) : Takes (m + n) (d >>= g) := by
  intro b r u hrun
  obtain ⟨v, q, hv, hu⟩ := bind_eq_ok_iff.mp hrun
  have hm := hd hv
  have hn := hg v hu
  omega

/-- A composed decoder takes at least what its first part takes. -/
lemma left {m : Nat} {d : Decoder α} {g : α → Decoder β} (hd : Takes m d)
    (hg : ∀ v, Takes 0 (g v)) : Takes m (d >>= g) :=
  hd.bind hg

/-- Handing on a value takes no more bytes. -/
lemma map {m : Nat} {d : Decoder α} (hd : Takes m d) (g : α → β) :
    Takes m (do return g (← d)) :=
  hd.left fun v => pure (g v)

/-- A word takes four bytes. -/
lemma word : Takes 4 word := by
  intro b r w hrun
  obtain rfl := word_eq_ok_iff.mp hrun
  rw [List.length_append, length_wordBytes]
  omega

/-- A hyper takes eight bytes. -/
lemma hyper : Takes 8 hyper := by
  intro b r h hrun
  obtain rfl := hyper_eq_ok_iff.mp hrun
  rw [List.length_append, length_hyperBytes]
  omega

/-- A length takes four bytes. -/
lemma length (unit : Nat) : Takes 4 (length lim unit) := by
  intro b r n hrun
  obtain ⟨-, -, rfl⟩ := length_eq_ok_iff.mp hrun
  rw [List.length_append, length_wordBytes]
  omega

/-- Data takes its bytes and maybe padding. -/
lemma padded (n : Nat) : Takes n (padded lim n) := by
  intro b r bs hrun
  obtain ⟨rfl, pad, -, rfl, -⟩ := padded_eq_ok_iff.mp hrun
  simp only [List.length_append]
  omega

/-- Taking at least no bytes survives composition. -/
lemma composable : Composable (Takes 0) where
  pure := pure
  throw := throw 0
  bind := bind
  word := word.mono (by decide)

/-- Taking at least no bytes holds of every decoder of shapes. -/
lemma closed (lim : Limits) : Closed lim (Takes 0) where
  toComposable := composable
  hyper := hyper.mono (by decide)
  length unit := (length unit).mono (by decide)
  padded n := (padded n).mono (Nat.zero_le n)
  chain := fun _ _ _ hrun => composable.decodeNodes _ hrun

/-- What an item takes adds up over a repetition. -/
lemma times {m : Nat} {d : Decoder α} (hd : Takes m d) (n : Nat) : Takes (n * m) (times d n) := by
  induction n with
  | zero => exact (pure _).mono (by omega)
  | succ n ih => exact (hd.bind fun x => ih.map _).mono (by rw [Nat.succ_mul]; omega)

/-- The parts of an entry take their bytes one after the other. -/
lemma entry {m n : Nat} {d : Decoder α} {e : Decoder β} (hd : Takes m d) (he : Takes n e) :
    Takes (m + n) (do let x ← d; return (x, ← e) : Decoder (α × β)) :=
  hd.bind fun x => he.map fun y => (x, y)

/-- Data of variable length takes at least four bytes. -/
lemma data : Takes 4 (data lim) :=
  (length 1).left fun n => (padded n).mono (Nat.zero_le n)

/-- A string takes at least four bytes. -/
lemma text : Takes 4 (text lim) := fun _ _ _ hrun => data (text_eq_ok_iff.mp hrun)

/-- A linked list takes at least four bytes. -/
lemma chain : Takes 4 Chain.decode := by
  intro b r c hrun
  have hnodes : Takes 4 (Chain.decodeNodes (b.length / 8 + 1)) := word.left fun w => ?_
  · exact hnodes hrun
  refine composable.bind composable.word fun flag => ?_
  split
  · exact pure _
  · split
    · exact (composable.decodeNodes _).map _
    · exact throw 0 _

end Takes

end Decoder

namespace Shape

open Decoder (Takes)

variable {lim : Limits}

/-- Every value that is read is taken from the front of the input. -/
lemma takes_zero (s : Shape) : Takes 0 (s.decode lim) := (Takes.closed lim).shape s

/-- A value that is not of zero width takes at least four bytes. -/
theorem takes_four {s : Shape} (h : s.zeroWidth = false) : Takes 4 (s.decode lim) := by
  induction s with
  | void => cases h
  | word k => exact Takes.word.left fun w => (Takes.closed lim).ofExcept _
  | hyper k => exact (Takes.hyper.map _).mono (by decide)
  | huge signed => exact Takes.throw 4 _
  | any skipped => exact Takes.throw 4 _
  | text => exact Takes.text
  | bytes => exact Takes.data
  | option s _ =>
    refine Takes.word.left fun flag => ?_
    split
    · exact Takes.pure _
    · split
      · exact s.takes_zero.map _
      · exact Takes.throw 0 _
  | seq c s _ =>
    exact (Takes.length 4).left fun n => ((Takes.closed lim).times s.takes_zero n).map _
  | map c k t _ _ =>
    exact (Takes.length 8).left fun n =>
      ((Takes.closed lim).times ((Takes.closed lim).entry k.takes_zero t.takes_zero) n).map _
  | array n s ih =>
    simp only [zeroWidth, Bool.or_eq_false_iff, beq_eq_false_iff_ne] at h
    exact ((ih h.2).times n).mono (by omega)
  | pair s t ihs iht =>
    simp only [zeroWidth, Bool.and_eq_false_iff] at h
    rcases h with hs | ht
    · exact (ihs hs).entry t.takes_zero
    · exact (s.takes_zero.entry (iht ht)).mono (by decide)
  | record name s ih => exact ih h
  | variants name n arm _ =>
    refine Takes.word.left fun index => ?_
    split
    · exact (arm _).takes_zero.map _
    · exact Takes.throw 0 _
  | union tag arm _ =>
    exact Takes.word.left fun w =>
      (Takes.closed lim).bind ((Takes.closed lim).ofExcept _) fun d => (arm d).takes_zero.map _
  | unassigned code name => exact Takes.throw 4 _
  | surplus s t _ _ => exact fun _ _ _ hrun => (decode_surplus_ne_ok hrun).elim
  | chain => exact Takes.chain
  | sortedMap =>
    refine (Takes.length 8).left fun n => Takes.map ?_ _
    exact (Takes.closed lim).times
      ((Takes.closed lim).entry (Takes.closed lim).word (Takes.closed lim).text) n

/-- A value of zero width takes no bytes. -/
theorem rest_of_zeroWidth {s : Shape} (h : s.zeroWidth = true) {b r : Bytes} {v : s.Val}
    (hrun : s.decode lim b = .ok v r) : r = b := by
  induction s generalizing b r with
  | void =>
    cases hrun
    rfl
  | array n s ih =>
    simp only [zeroWidth, Bool.or_eq_true, beq_iff_eq] at h
    rcases h with rfl | hs
    · cases hrun
      rfl
    · change Decoder.times (s.decode lim) n b = .ok v r at hrun
      induction n generalizing b with
      | zero =>
        cases hrun
        rfl
      | succ n ihn =>
        obtain ⟨x, q, ys, hx, hys, -⟩ := Decoder.times_succ_eq_ok_iff.mp hrun
        rw [ihn hys, ih hs hx]
  | pair s t ihs iht =>
    simp only [zeroWidth, Bool.and_eq_true] at h
    obtain ⟨q, hx, hy⟩ := decode_pair_eq_ok_iff.mp hrun
    rw [iht h.2 hy, ihs h.1 hx]
  | record name s ih => exact ih h hrun
  | surplus s t _ _ => exact (decode_surplus_ne_ok hrun).elim
  | _ => cases h

/-- A value that was taken off the front of an input took bytes exactly when its shape does. -/
theorem zeroWidth_iff {s : Shape} {w r : Bytes} {v : s.Val}
    (hrun : s.decode lim (w ++ r) = .ok v r) : s.zeroWidth = true ↔ w = [] := by
  constructor
  · intro h
    simpa using (rest_of_zeroWidth h hrun).symm
  · rintro rfl
    by_contra h
    have := takes_four (Bool.eq_false_iff.mpr h) hrun
    rw [List.nil_append] at this
    omega

end Shape

end OncWire
