import Mathlib.Tactic.Common
import OncWire.Proofs.RefusedWords
import OncWire.Shape.OfIntegers

/-!
# Unions held in memory

A union is built from integers in memory by the same readers of values that make
scalars of the words on the wire.  Where an arm takes at most one unsigned word, a list
of integers therefore stands for the value that is read from their words, and is refused
with the complaint behind the fault of the decoder (`toExcept_decode_union`).  Only an
integer that is missing is told apart: on the wire it is the end of the input.

Whatever the arms are, a union is refused because an integer is missing, or with a
complaint that names one of the integers and what was expected in its place
(`Complaint.TrueOf`, `refused_union`).
-/

namespace OncWire

/-! ### What a complaint says -/

/-- An integer is out of the range of a scalar that is made of integers. -/
def Word.Exceeds : Word → Nat → Prop
  | narrow k, n => k.greatest < n
  | int32, n => 2147483647 < n
  | nonzero, n => n = 0 ∨ 4294967295 < n
  | _, n => 4294967295 < n

/-- An integer is out of the range of the scalar that a shape is. -/
def Shape.Exceeds : Shape → Nat → Prop
  | word k, n => k.Exceeds n
  | hyper _, n => 9223372036854775807 < n
  | _, _ => False

/-- What a complaint says about the integer `n`, from which a value of the shape was to be built, is
true.  It names the integer and what is expected where a value of the shape is; if that is an
integer, this one is out of range.  A discriminant that selects nothing is expected to belong to
the enumeration of that title. -/
def Complaint.TrueOf (s : Shape) (n : Nat) : Complaint → Prop
  | invalidType found expected => found = .unsigned n ∧ expected = s.expected
  | invalidValue found expected => found = .unsigned n ∧
    (expected = s.expected ∧ s.Exceeds n ∨
      ∃ w title, w.toNat = n ∧ expected = discriminantOf ++ title ∧ s.Unmaps w title)
  | oddRead w => w.toNat = n ∧ w % 2 = 1
  | _ => False

/-- A composition of outcomes is refused exactly where one of its parts is. -/
lemma Complaint.bind_eq_error_iff {α β : Type} {x : Except Complaint α} {f : α → Except Complaint β}
    {c : Complaint} :
    (x >>= f) = .error c ↔ x = .error c ∨ ∃ v, x = .ok v ∧ f v = .error c := by
  cases x with
  | error why => simp [bind, Except.bind]
  | ok v => simp [bind, Except.bind]

namespace Word

/-- A word of which a reader of values makes nothing is named in the complaint. -/
lemma trueOf_of_ofWord {k : Word} {w : UInt32} {c : Complaint} (h : k.ofWord w = .error c) :
    c.TrueOf (.word k) w.toNat := by
  cases k with
  | bool | char =>
    cases h
    exact ⟨rfl, rfl⟩
  | narrow k =>
    simp only [ofWord] at h
    split at h
    case isTrue => cases h
    case isFalse hmax =>
      cases h
      exact ⟨rfl, .inl ⟨rfl, Int.not_le.mp hmax⟩⟩
  | int32 =>
    simp only [ofWord] at h
    split at h
    case isTrue => cases h
    case isFalse hmax =>
      cases h
      exact ⟨rfl, .inl ⟨rfl, Nat.not_le.mp hmax⟩⟩
  | uint32 | float32 => cases h
  | enumeration e =>
    simp only [ofWord] at h
    split at h
    case h_1 => cases h
    case h_2 hnone =>
      cases h
      exact ⟨rfl, .inr ⟨w, e.title, rfl, rfl, rfl, Enumerated.ofCode?_eq_none_iff.mp hnone⟩⟩
  | even =>
    simp only [ofWord] at h
    split at h
    case isTrue => cases h
    case isFalse hodd =>
      cases h
      have htrue : w % 2 = 1 := by grind
      exact ⟨rfl, htrue⟩
  | nonzero =>
    simp only [ofWord] at h
    split at h
    case isTrue => cases h
    case isFalse hzero =>
      cases h
      have htrue : w.toNat = 0 := congrArg UInt32.toNat (not_not.mp hzero)
      exact ⟨rfl, .inl ⟨rfl, .inl htrue⟩⟩

/-- An integer that is too large for a word is out of the range of every scalar. -/
lemma exceeds_of_lt (k : Word) {n : Nat} (h : 4294967295 < n) : k.Exceeds n := by
  cases k with
  | narrow k => cases k <;> simp only [Exceeds, Narrow.greatest] <;> omega
  | int32 => exact Nat.lt_trans (by decide) h
  | nonzero => exact .inr h
  | _ => exact h

/-- An integer of which a reader of values makes no scalar is named in the complaint. -/
lemma trueOf_of_ofInteger {k : Word} {n : Nat} {c : Complaint} (h : k.ofInteger n = .error c) :
    c.TrueOf (.word k) n := by
  unfold ofInteger at h
  split at h
  case isTrue hfits =>
    have hword : (UInt32.ofNat n).toNat = n :=
      UInt32.toNat_ofNat_of_lt' (Nat.lt_of_le_of_lt hfits (by decide))
    have htrue := trueOf_of_ofWord h
    rwa [hword] at htrue
  case isFalse hlarge =>
    have hexceeds := k.exceeds_of_lt (Nat.not_le.mp hlarge)
    cases k with
    | float32 => cases h
    | bool | char =>
      cases h
      exact ⟨rfl, rfl⟩
    | _ =>
      cases h
      exact ⟨rfl, .inl ⟨rfl, hexceeds⟩⟩

end Word

namespace Shape

/-- An integer from which no value of a shape can be built is named in the complaint. -/
lemma trueOf_of_ofInteger {s : Shape} {n : Nat} {c : Complaint} (h : s.ofInteger n = .error c) :
    c.TrueOf s n := by
  cases s with
  | word k => exact Word.trueOf_of_ofInteger h
  | hyper k =>
    cases k with
    | int64 =>
      simp only [ofInteger, Hyper.ofInteger] at h
      split at h
      case isTrue => cases h
      case isFalse hmax =>
        cases h
        exact ⟨rfl, .inl ⟨rfl, Nat.not_le.mp hmax⟩⟩
    | uint64 | float64 => cases h
  | huge signed => cases h
  | _ =>
    cases h
    exact ⟨rfl, rfl⟩

/-! ### Complaints about unions -/

/-- The shapes of the values that an arm takes from integers, one from each. -/
def items : Shape → List Shape
  | void => []
  | unassigned _ _ => []
  | surplus s t => [s, t]
  | s => [s]

/-- The next value is refused where no integer is left, or with a complaint about the next one. -/
lemma nextItem_eq_error_iff {s : Shape} {ws : List UInt32} {c : Complaint} :
    s.nextItem ws = .error c ↔
      ws = [] ∧ c = .missingArm ∨ ∃ w ws', ws = w :: ws' ∧ s.ofInteger w.toNat = .error c := by
  cases ws with
  | nil => simp [nextItem, eq_comm]
  | cons w ws =>
    cases hw : s.ofInteger w.toNat with
    | ok v => simp [nextItem, hw, bind, Except.bind, pure, Except.pure]
    | error why => simp [nextItem, hw, bind, Except.bind]

/-- The next value is built from the next integer. -/
lemma nextItem_eq_ok_iff {s : Shape} {ws rest : List UInt32} {v : s.Val} :
    s.nextItem ws = .ok (v, rest) ↔ ∃ w, ws = w :: rest ∧ s.ofInteger w.toNat = .ok v := by
  cases ws with
  | nil => simp [nextItem]
  | cons w ws =>
    cases hw : s.ofInteger w.toNat with
    | ok u => simp [nextItem, hw, bind, Except.bind, pure, Except.pure, and_comm]
    | error why => simp [nextItem, hw, bind, Except.bind]

/-- An arm of one value is refused where no integer is left, or with a complaint about the first. -/
lemma refused_item {s : Shape} {ws : List UInt32} {c : Complaint}
    (h : (do let (v, _) ← s.nextItem ws; return v) = Except.error c) :
    ws.length < 1 ∧ c = .missingArm ∨ ∃ p ∈ [s].zip ws, c.TrueOf p.1 p.2.toNat := by
  rcases Complaint.bind_eq_error_iff.mp h with hitem | ⟨v, -, hpure⟩
  · rcases nextItem_eq_error_iff.mp hitem with ⟨rfl, rfl⟩ | ⟨w, ws', rfl, hw⟩
    · exact .inl ⟨Nat.one_pos, rfl⟩
    · exact .inr ⟨(s, w), .head _, trueOf_of_ofInteger hw⟩
  · cases hpure

/-- An arm is refused because it belongs to no discriminant, because an integer is missing, or with
a complaint about one of the integers. -/
lemma refused_arm {s : Shape} {ws : List UInt32} {c : Complaint}
    (h : s.armOfIntegers ws = .error c) :
    (∃ code title, s = unassigned code title ∧ c = .unmapped code title) ∨
      ws.length < s.items.length ∧ c = .missingArm ∨
      ∃ p ∈ s.items.zip ws, c.TrueOf p.1 p.2.toNat := by
  cases s with
  | void => cases h
  | unassigned code title =>
    cases h
    exact .inl ⟨code, title, rfl, rfl⟩
  | surplus s t =>
    right
    rcases Complaint.bind_eq_error_iff.mp h with hfirst | ⟨⟨v, rest⟩, hfirst, hrest⟩
    · rcases nextItem_eq_error_iff.mp hfirst with ⟨rfl, rfl⟩ | ⟨w, ws', rfl, hw⟩
      · exact .inl ⟨Nat.two_pos, rfl⟩
      · exact .inr ⟨(s, w), .head _, trueOf_of_ofInteger hw⟩
    · obtain ⟨w, rfl, -⟩ := nextItem_eq_ok_iff.mp hfirst
      rcases Complaint.bind_eq_error_iff.mp hrest with hsecond | ⟨u, -, hpure⟩
      · rcases nextItem_eq_error_iff.mp hsecond with ⟨rfl, rfl⟩ | ⟨x, ws', rfl, hx⟩
        · exact .inl ⟨Nat.lt_add_one 1, rfl⟩
        · exact .inr ⟨(t, x), .tail _ (.head _), trueOf_of_ofInteger hx⟩
      · cases hpure
  | _ => exact .inr (refused_item h)

end Shape

/-- A union is refused because it has no discriminant, because the first integer is none, or because
of the arm that the first integer selects.  Each complaint about an integer is true of it. -/
theorem refused_union {tag : Word} {arm : tag.Val → Shape} {ws : List UInt32} {c : Complaint}
    (h : (Shape.union tag arm).ofIntegers ws = .error c) :
    ws = [] ∧ c = .missingDiscriminant ∨
      ∃ w ws', ws = w :: ws' ∧
        (c.TrueOf (.word tag) w.toNat ∨
          ∃ d, tag.ofWord w = .ok d ∧
            ((∃ code title, arm d = .unassigned code title ∧ c = .unmapped code title) ∨
              ws'.length < (arm d).items.length ∧ c = .missingArm ∨
              ∃ p ∈ (arm d).items.zip ws', c.TrueOf p.1 p.2.toNat)) := by
  cases ws with
  | nil =>
    cases h
    exact .inl ⟨rfl, rfl⟩
  | cons w ws =>
    refine .inr ⟨w, ws, rfl, ?_⟩
    rcases Complaint.bind_eq_error_iff.mp h with htag | ⟨d, hd, harm⟩
    · exact .inl (Word.trueOf_of_ofInteger htag)
    · rw [Word.ofInteger_toNat] at hd
      rcases Complaint.bind_eq_error_iff.mp harm with harm | ⟨v, -, hpure⟩
      · exact .inr ⟨d, hd, Shape.refused_arm harm⟩
      · cases hpure

/-- A record is expected under its own name. -/
example : (Wire.shape RejectedReply).ofIntegers [0, 7] =
    .error (.invalidType (.unsigned 7) "struct MismatchInfo") := by decide

/-! ### Unions in memory and on the wire -/

/-- The fault for a complaint about integers that were taken from the wire.  Where one is missing
the input has ended. -/
def Complaint.onWire : Complaint → Fault
  | invalidLength _ _ => .unexpectedEof
  | why => .ofComplaint why

/-- The scalars that are read from the wire as an unsigned word. -/
def Word.Unsigned : Word → Prop
  | uint32 | enumeration _ | even | nonzero => True
  | _ => False

/-- The shapes that take at most one unsigned word. -/
def Shape.AtMostWord : Shape → Prop
  | void => True
  | word k => k.Unsigned
  | unassigned _ _ => True
  | _ => False

namespace Word

/-- A word of which a reader of values makes nothing is no missing one. -/
lemma onWire_of_ofWord {k : Word} {w : UInt32} {c : Complaint} (h : k.ofWord w = .error c) :
    c.onWire = .ofComplaint c := by
  have htrue := trueOf_of_ofWord h
  cases c with
  | invalidLength n expected => exact htrue.elim
  | _ => rfl

/-- An unsigned word is read from the wire and from memory by the same reader of values. -/
lemma decode_eq_ofInteger {k : Word} (hk : k.Unsigned) (w : UInt32) :
    k.decode w = (k.ofInteger w.toNat).mapError Complaint.onWire := by
  have hdecode : k.decode w = (k.ofWord w).mapError .ofComplaint := by
    cases k with
    | uint32 | enumeration e | even | nonzero => rfl
    | _ => exact hk.elim
  rw [hdecode, ofInteger_toNat]
  cases hw : k.ofWord w with
  | ok v => rfl
  | error c => exact congrArg Except.error (onWire_of_ofWord hw).symm

end Word

/-- The outcome of a scalar in front of an input, and of what goes on after it. -/
lemma Decoder.toExcept_scalar_bind {α : Type} {k : Word} (hk : k.Unsigned) (g : k.Val → Decoder α)
    (w : UInt32) (b : Bytes) :
    Reading.toExcept
        ((Decoder.word >>= fun x => Decoder.ofExcept (k.decode x) >>= g) (wordBytes w ++ b)) =
      (k.ofInteger w.toNat).mapError Complaint.onWire >>= fun v => Reading.toExcept (g v b) := by
  rw [bind_of_ok (word_append w b), Word.decode_eq_ofInteger hk]
  cases k.ofInteger w.toNat with
  | ok v => rfl
  | error c => rfl

/-- Where a word is to be taken and there is none, the input has ended. -/
lemma Decoder.toExcept_word_bind_nil {α : Type} (g : UInt32 → Decoder α) :
    Reading.toExcept ((Decoder.word >>= g) []) = .error .unexpectedEof := by
  have hword : Decoder.word [] = .error .unexpectedEof [] := by decide
  rw [bind_of_error hword]
  rfl

/-- Handing on a value hands on its outcome. -/
lemma Decoder.toExcept_map {α β : Type} (d : Decoder α) (g : α → β) (b : Bytes) :
    Reading.toExcept ((do return g (← d) : Decoder β) b) = (Reading.toExcept (d b)).map g := by
  cases hd : d b with
  | ok v r =>
    rw [bind_of_ok hd]
    rfl
  | error f r =>
    rw [bind_of_error hd]
    rfl

/-- Handing on a value and naming the fault of a refusal can be done in either order. -/
lemma Complaint.mapError_map {α β : Type} (x : Except Complaint α) (g : α → β) :
    (do return g (← x) : Except Complaint β).mapError Complaint.onWire =
      (x.mapError Complaint.onWire).map g := by
  cases x with
  | ok v => rfl
  | error c => rfl

/-- An arm that takes at most one unsigned word is read from the wire as it is built in memory. -/
lemma Shape.toExcept_decode_arm {s : Shape} (hs : s.AtMostWord) (lim : Limits)
    (ws : List UInt32) :
    Reading.toExcept (s.decode lim (ws.flatMap wordBytes)) =
      (s.armOfIntegers ws).mapError Complaint.onWire := by
  cases s with
  | void => rfl
  | unassigned code title => rfl
  | word k =>
    cases ws with
    | nil => exact Decoder.toExcept_word_bind_nil _
    | cons w ws =>
      have hword := Decoder.toExcept_scalar_bind hs pure w (ws.flatMap wordBytes)
      rw [List.flatMap_cons]
      simp only [bind_pure] at hword
      refine Eq.trans hword ?_
      simp only [armOfIntegers, nextItem, ofInteger]
      cases k.ofInteger w.toNat with
      | ok v => rfl
      | error c => rfl
  | _ => exact hs.elim

/-- A union is read from the words of some integers as it is built from the integers, if its
discriminant is an unsigned word and the arm that this selects takes at most one: the value is the
same, and what was complained about is the fault. -/
theorem toExcept_decode_union {tag : Word} {arm : tag.Val → Shape} (htag : tag.Unsigned)
    (ws : List UInt32) (harm : ∀ w ∈ ws.head?, ∀ d, tag.ofWord w = .ok d → (arm d).AtMostWord)
    (lim : Limits) :
    Reading.toExcept ((Shape.union tag arm).decode lim (ws.flatMap wordBytes)) =
      ((Shape.union tag arm).ofIntegers ws).mapError Complaint.onWire := by
  cases ws with
  | nil => exact Decoder.toExcept_word_bind_nil _
  | cons w ws =>
    rw [List.flatMap_cons]
    -- Both sides go on from the same discriminant, or stop at the same complaint about it.
    refine (Decoder.toExcept_scalar_bind htag _ w _).trans ?_
    simp only [Shape.ofIntegers, Word.ofInteger_toNat]
    cases hd : tag.ofWord w with
    | error c => rfl
    | ok d =>
      refine (Decoder.toExcept_map _ _ _).trans ?_
      rw [Shape.toExcept_decode_arm (harm w rfl d hd)]
      exact (Complaint.mapError_map _ _).symm

end OncWire
