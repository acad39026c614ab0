import Mathlib.Tactic.Common
import OncWire.Proofs.Reading

/-!
# Reading values, shape by shape

When reading a value of a composed shape yields a value: what the parts of the shape
yield then, and where in the input they are read.  Each law is an equivalence, one
for each way in which shapes are composed.
-/

namespace OncWire

/-- A linked list with some fuel is read as its last node, or as a node and the list after it. -/
lemma Chain.decodeNodes_succ_eq_ok_iff {fuel : Nat} {b r : Bytes} {c : Chain} :
    decodeNodes (fuel + 1) b = .ok c r ↔
      ∃ w, (c = ⟨w, []⟩ ∧ b = wordBytes w ++ (wordBytes 0 ++ r)) ∨
        ∃ q c', c = ⟨w, c'.toList⟩ ∧ b = wordBytes w ++ (wordBytes 1 ++ q) ∧
          decodeNodes fuel q = .ok c' r := by
  rw [decodeNodes]
  simp only [Decoder.bind_eq_ok_iff, Decoder.word_eq_ok_iff]
  constructor
  · rintro ⟨w, _, rfl, flag, q, rfl, hrest⟩
    refine ⟨w, ?_⟩
    split at hrest
    · rename_i hzero
      subst hzero
      cases hrest
      exact .inl ⟨rfl, rfl⟩
    · split at hrest
      · rename_i hone
        subst hone
        obtain ⟨c', q', hc', hpure⟩ := Decoder.bind_eq_ok_iff.mp hrest
        cases hpure
        exact .inr ⟨q, c', rfl, rfl, hc'⟩
      · cases hrest
  · rintro ⟨w, ⟨rfl, rfl⟩ | ⟨q, c', rfl, rfl, hc'⟩⟩
    · exact ⟨w, _, rfl, 0, r, rfl, rfl⟩
    · exact ⟨w, _, rfl, 1, q, rfl, Decoder.bind_eq_ok_iff.mpr ⟨c', r, hc', rfl⟩⟩

namespace Shape

variable {lim : Limits} {b r : Bytes}

/-! ### Scalars -/

/-- A scalar of one word is read from a word that stands for it. -/
lemma decode_word_eq_ok_iff {k : Word} {v : k.Val} :
    (word k).decode lim b = .ok v r ↔ ∃ x, k.decode x = .ok v ∧ b = wordBytes x ++ r := by
  refine Decoder.bind_eq_ok_iff.trans ?_
  simp only [Decoder.word_eq_ok_iff, Decoder.ofExcept_eq_ok_iff]
  constructor
  · rintro ⟨x, q, rfl, hx, rfl⟩
    exact ⟨x, hx, rfl⟩
  · rintro ⟨x, hx, rfl⟩
    exact ⟨x, r, rfl, hx, rfl⟩

/-- A scalar of two words is read from its own hyper. -/
lemma decode_hyper_eq_ok_iff {k : Hyper} {v : k.Val} :
    (hyper k).decode lim b = .ok v r ↔ b = hyperBytes (k.encode v) ++ r := by
  refine Decoder.bind_eq_ok_iff.trans ?_
  simp only [Decoder.hyper_eq_ok_iff]
  constructor
  · rintro ⟨x, q, rfl, hpure⟩
    cases hpure
    rw [Hyper.encode_decode]
  · rintro rfl
    refine ⟨k.encode v, r, rfl, ?_⟩
    rw [Hyper.decode_encode, Decoder.pure_run]

/-! ### Options, products and sums -/

/-- An optional value is absent behind the flag 0, and read behind the flag 1. -/
lemma decode_option_eq_ok_iff {s : Shape} {v : Option s.Val} :
    (option s).decode lim b = .ok v r ↔
      (v = none ∧ b = wordBytes 0 ++ r) ∨
      ∃ x q, v = some x ∧ b = wordBytes 1 ++ q ∧ s.decode lim q = .ok x r := by
  refine Decoder.bind_eq_ok_iff.trans ?_
  simp only [Decoder.word_eq_ok_iff]
  constructor
  · rintro ⟨flag, q, rfl, hrest⟩
    split at hrest
    · rename_i hzero
      subst hzero
      cases hrest
      exact .inl ⟨rfl, rfl⟩
    · split at hrest
      · rename_i hone
        subst hone
        obtain ⟨x, q', hx, hpure⟩ := Decoder.bind_eq_ok_iff.mp hrest
        cases hpure
        exact .inr ⟨x, q, rfl, rfl, hx⟩
      · cases hrest
  · rintro (⟨rfl, rfl⟩ | ⟨x, q, rfl, rfl, hx⟩)
    · exact ⟨0, r, rfl, rfl⟩
    · exact ⟨1, q, rfl, Decoder.bind_eq_ok_iff.mpr ⟨x, r, hx, rfl⟩⟩

/-- The parts of a pair are read one after the other. -/
lemma decode_pair_eq_ok_iff {s t : Shape} {v : s.Val × t.Val} :
    (pair s t).decode lim b = .ok v r ↔
      ∃ q, s.decode lim b = .ok v.1 q ∧ t.decode lim q = .ok v.2 r := by
  refine Decoder.bind_eq_ok_iff.trans ?_
  simp only [Decoder.bind_eq_ok_iff]
  constructor
  · rintro ⟨x, q, hx, y, q', hy, hpure⟩
    cases hpure
    exact ⟨q, hx, hy⟩
  · rintro ⟨q, hx, hy⟩
    exact ⟨v.1, q, hx, v.2, r, hy, rfl⟩

/-- A variant is read behind its index. -/
lemma decode_variants_eq_ok_iff {name : String} {n : Nat} {arm : Fin n → Shape}
    {v : (i : Fin n) × (arm i).Val} :
    (variants name n arm).decode lim b = .ok v r ↔
      ∃ x q, UInt32.toNat x = v.1 ∧ b = wordBytes x ++ q ∧
        (arm v.1).decode lim q = .ok v.2 r := by
  refine Decoder.bind_eq_ok_iff.trans ?_
  simp only [Decoder.word_eq_ok_iff]
  constructor
  · rintro ⟨x, q, rfl, hrest⟩
    split at hrest
    · obtain ⟨y, q', hy, hpure⟩ := Decoder.bind_eq_ok_iff.mp hrest
      cases hpure
      exact ⟨x, q, rfl, rfl, hy⟩
    · cases hrest
  · obtain ⟨⟨i, hi⟩, y⟩ := v
    rintro ⟨x, q, hx : x.toNat = i, rfl, hy⟩
    subst hx
    refine ⟨x, q, rfl, ?_⟩
    rw [dif_pos hi]
    exact Decoder.bind_eq_ok_iff.mpr ⟨y, r, hy, rfl⟩

/-- The arm of a union is read behind a word that stands for its discriminant. -/
lemma decode_union_eq_ok_iff {tag : Word} {arm : tag.Val → Shape}
    {v : (d : tag.Val) × (arm d).Val} :
    (union tag arm).decode lim b = .ok v r ↔
      ∃ x q, tag.decode x = .ok v.1 ∧ b = wordBytes x ++ q ∧
        (arm v.1).decode lim q = .ok v.2 r := by
  refine Decoder.bind_eq_ok_iff.trans ?_
  simp only [Decoder.bind_eq_ok_iff, Decoder.word_eq_ok_iff, Decoder.ofExcept_eq_ok_iff]
  constructor
  · rintro ⟨x, q, rfl, d, _, ⟨hd, rfl⟩, y, q', hy, hpure⟩
    cases hpure
    exact ⟨x, _, hd, rfl, hy⟩
  · rintro ⟨x, q, hd, rfl, hy⟩
    exact ⟨x, q, rfl, v.1, q, ⟨hd, rfl⟩, v.2, r, hy, rfl⟩

/-- A surplus value is never read. -/
lemma decode_surplus_ne_ok {s t : Shape} {v : s.Val × t.Val} :
    (surplus s t).decode lim b ≠ .ok v r := by
  intro hrun
  obtain ⟨x, q, -, hthrow⟩ := Decoder.bind_eq_ok_iff.mp hrun
  cases hthrow

/-! ### Counted runs -/

/-- The items of a run are read behind their count. -/
lemma decode_seq_eq_ok_iff {c : Count} {s : Shape} {v : Counted s.Val} :
    (seq c s).decode lim b = .ok v r ↔
      ∃ n q xs, Decoder.length lim 4 b = .ok n q ∧
        Decoder.times (s.decode lim) n q = .ok xs r ∧ v = ⟨xs.val, none⟩ := by
  refine Decoder.bind_eq_ok_iff.trans ?_
  simp only [Decoder.bind_eq_ok_iff]
  constructor
  · rintro ⟨n, q, hn, xs, q', hxs, hpure⟩
    cases hpure
    exact ⟨n, q, xs, hn, hxs, rfl⟩
  · rintro ⟨n, q, xs, hn, hxs, rfl⟩
    exact ⟨n, q, hn, xs, r, hxs, rfl⟩

/-- The entries of a map are read as pairs behind their count. -/
lemma decode_map_eq_ok_iff {c : Count} {k s : Shape} {v : Counted (k.Val × s.Val)} :
    (map c k s).decode lim b = .ok v r ↔
      ∃ n q xs, Decoder.length lim 8 b = .ok n q ∧
        Decoder.times ((pair k s).decode lim) n q = .ok xs r ∧ v = ⟨xs.val, none⟩ := by
  refine Decoder.bind_eq_ok_iff.trans ?_
  simp only [Decoder.bind_eq_ok_iff]
  constructor
  · rintro ⟨n, q, hn, xs, q', hxs, hpure⟩
    cases hpure
    exact ⟨n, q, xs, hn, hxs, rfl⟩
  · rintro ⟨n, q, xs, hn, hxs, rfl⟩
    exact ⟨n, q, hn, xs, r, hxs, rfl⟩

end Shape

end OncWire
