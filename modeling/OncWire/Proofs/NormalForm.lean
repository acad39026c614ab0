import Mathlib.Data.List.Induction
import Mathlib.Data.List.Sort
import OncWire.Proofs.Layout
import OncWire.Proofs.RoundTrip
import OncWire.Proofs.Tightening

/-!
# Sorted maps as normal forms

A list of entries has a normal form: of the entries for one key only the last is kept,
and what is kept is sorted by key (`SortedMap.normalForm`).  A sorted map is built by
putting one entry after another into its place.  This comes to the same, since the
entries of both are the last ones for their keys and a strictly increasing list is
determined by its members (`SortedMap.items_ofList_eq_normalForm`).

On the wire a sorted map is a plain map from words to strings, read with all that it
repeats and written in its normal form (`sortedMap_is_normal_form_of_map`).  A reader
compares its limit with the count on the wire, a writer writes the count of the normal
form.  The second is never greater than the first, because a normal form has entries of
the list only (`SortedMap.subperm_normalForm`); therefore what was accepted under some
limits is accepted under them again once it has been written anew.
-/

namespace OncWire

namespace SortedMap

variable {α : Type} {e f : UInt32 × α} {es fs : List (UInt32 × α)}

/-! ### The last entry for each key -/

/-- The entry is in the list, and no entry after it has the same key. -/
def IsLast (e : UInt32 × α) (es : List (UInt32 × α)) : Prop :=
  ∃ before after, es = before ++ e :: after ∧ ∀ f ∈ after, f.1 ≠ e.1

/-- An empty list has no last entry. -/
lemma not_isLast_nil : ¬ IsLast e [] := by
  rintro ⟨before, after, hnil, -⟩
  exact List.append_ne_nil_of_right_ne_nil before (List.cons_ne_nil e after) hnil.symm

/-- An entry in front of others is the last for its key if none of the others has this key. -/
lemma isLast_cons_iff :
    IsLast e (f :: es) ↔ IsLast e es ∨ e = f ∧ ∀ g ∈ es, g.1 ≠ e.1 := by
  constructor
  · rintro ⟨before, after, hes, hafter⟩
    rcases List.cons_eq_append_iff.mp hes with ⟨rfl, hcons⟩ | ⟨before, rfl, rfl⟩
    · obtain ⟨rfl, rfl⟩ := List.cons.inj hcons
      exact .inr ⟨rfl, hafter⟩
    · exact .inl ⟨before, after, rfl, hafter⟩
  · rintro (⟨before, after, rfl, hafter⟩ | ⟨rfl, hes⟩)
    · exact ⟨f :: before, after, rfl, hafter⟩
    · exact ⟨[], es, rfl, hes⟩

/-- An entry behind others is the last for its key, and those with other keys stay what they
were. -/
lemma isLast_concat_iff : IsLast e (es ++ [f]) ↔ e = f ∨ IsLast e es ∧ e.1 ≠ f.1 := by
  induction es with
  | nil => simp [isLast_cons_iff, not_isLast_nil]
  | cons g es ih =>
    rw [List.cons_append, isLast_cons_iff, isLast_cons_iff, ih]
    simp only [List.forall_mem_append, List.forall_mem_singleton]
    constructor
    · rintro ((rfl | ⟨hlast, hne⟩) | ⟨rfl, hes, hne⟩)
      · exact .inl rfl
      · exact .inr ⟨.inl hlast, hne⟩
      · exact .inr ⟨.inr ⟨rfl, hes⟩, Ne.symm hne⟩
    · rintro (rfl | ⟨hlast | ⟨rfl, hes⟩, hne⟩)
      · exact .inl (.inl rfl)
      · exact .inl (.inr ⟨hlast, hne⟩)
      · exact .inr ⟨rfl, hes, Ne.symm hne⟩

/-! ### Normal forms -/

/-- The normal form of a list of entries: only the last entry for each key, sorted by key. -/
def normalForm (es : List (UInt32 × α)) : List (UInt32 × α) :=
  -- The filter goes from the end to the front, so the entry that it keeps for a key is the last.
  (es.pwFilter fun e f => e.1 ≠ f.1).insertionSort fun e f => e.1 ≤ f.1

/-- The entries that are kept are the last ones for their keys. -/
lemma mem_normalForm_iff : e ∈ normalForm es ↔ IsLast e es := by
  rw [normalForm, List.mem_insertionSort]
  induction es with
  | nil => simp [not_isLast_nil]
  | cons f es ih =>
    -- An entry is dropped only for one with its key, so the keys of those that are kept are all.
    have hkeys : (∀ g ∈ es.pwFilter fun e f => e.1 ≠ f.1, f.1 ≠ g.1) ↔ ∀ g ∈ es, f.1 ≠ g.1 := by
      refine List.forall_mem_pwFilter (R := fun e f : UInt32 × α => e.1 ≠ f.1) ?_ f es
      intro x y z hxz
      by_contra hsame
      rw [not_or, not_not, not_not] at hsame
      exact hxz (hsame.1.trans hsame.2)
    rw [isLast_cons_iff, ← ih]
    by_cases hf : ∀ g ∈ es, f.1 ≠ g.1
    · rw [List.pwFilter_cons_of_pos (hkeys.mpr hf), List.mem_cons, or_comm]
      refine or_congr_right ⟨?_, fun h => h.1⟩
      rintro rfl
      exact ⟨rfl, fun g hg => Ne.symm (hf g hg)⟩
    · rw [List.pwFilter_cons_of_neg (fun h => hf (hkeys.mp h))]
      refine (or_iff_left ?_).symm
      rintro ⟨rfl, hes⟩
      exact hf fun g hg => Ne.symm (hes g hg)

/-- A normal form has entries of the list only, each as often as the list at most. -/
lemma subperm_normalForm (es : List (UInt32 × α)) : (normalForm es).Subperm es :=
  ⟨_, (List.perm_insertionSort _ _).symm, List.pwFilter_sublist es⟩

/-- A normal form is in strictly increasing order of the key. -/
lemma sorted_normalForm (es : List (UInt32 × α)) : (normalForm es).Pairwise (·.1 < ·.1) := by
  have : Std.Total fun e f : UInt32 × α => e.1 ≤ f.1 := ⟨fun e f => UInt32.le_total e.1 f.1⟩
  have : IsTrans (UInt32 × α) fun e f => e.1 ≤ f.1 := ⟨fun _ _ _ => UInt32.le_trans⟩
  have hle : (normalForm es).Pairwise fun e f => e.1 ≤ f.1 := List.pairwise_insertionSort _ _
  have hne : (normalForm es).Pairwise fun e f => e.1 ≠ f.1 :=
    (List.perm_insertionSort _ _).symm.pairwise (List.pairwise_pwFilter es) Ne.symm
  exact hle.imp₂ (fun _ _ => UInt32.lt_of_le_of_ne) hne

/-! ### The map of a list of entries -/

/-- The entries after an insertion are the new one and those before that have other keys. -/
lemma mem_insertEntry_iff (h : fs.Pairwise (·.1 < ·.1)) :
    f ∈ insertEntry e fs ↔ f = e ∨ f ∈ fs ∧ f.1 ≠ e.1 := by
  induction fs with
  | nil => simp [insertEntry]
  | cons g gs ih =>
    obtain ⟨hg, hgs⟩ := List.pairwise_cons.mp h
    have habove : e.1 ≤ g.1 → ∀ x ∈ gs, x.1 ≠ e.1 := by
      intro hle x hx heq
      have hlt : g.1 < e.1 := heq ▸ hg x hx
      exact UInt32.lt_irrefl _ (UInt32.lt_of_le_of_lt hle hlt)
    unfold insertEntry
    split
    case isTrue hlt =>
      have hne : ∀ x ∈ g :: gs, x.1 ≠ e.1 :=
        List.forall_mem_cons.mpr ⟨Ne.symm (UInt32.ne_of_lt hlt), habove (UInt32.le_of_lt hlt)⟩
      rw [List.mem_cons]
      exact or_congr_right ⟨fun hf => ⟨hf, hne f hf⟩, fun hf => hf.1⟩
    case isFalse hlt =>
      split
      case isTrue heq =>
        rw [List.mem_cons, List.mem_cons]
        refine or_congr_right ⟨fun hf => ⟨.inr hf, habove (UInt32.le_of_eq heq) f hf⟩, ?_⟩
        rintro ⟨rfl | hf, hne⟩
        · exact (hne heq.symm).elim
        · exact hf
      case isFalse hne =>
        rw [List.mem_cons, List.mem_cons, ih hgs]
        constructor
        · rintro (rfl | rfl | ⟨hf, hkey⟩)
          · exact .inr ⟨.inl rfl, Ne.symm hne⟩
          · exact .inl rfl
          · exact .inr ⟨.inr hf, hkey⟩
        · rintro (rfl | ⟨rfl | hf, hkey⟩)
          · exact .inr (.inl rfl)
          · exact .inl rfl
          · exact .inr (.inr ⟨hf, hkey⟩)

/-- The entries of the map of a list are the last ones for their keys. -/
lemma mem_items_ofList_iff : e ∈ (ofList es).items ↔ IsLast e es := by
  -- Entries are put into the map from the front of the list on, so the last one is split off.
  induction es using List.reverseRecOn with
  | nil => simp [ofList, empty, not_isLast_nil]
  | append_singleton es f ih =>
    have hinsert : ofList (es ++ [f]) = (ofList es).insert f := List.foldl_concat ..
    rw [hinsert, isLast_concat_iff, ← ih]
    exact mem_insertEntry_iff (ofList es).sorted

/-- The map of a list holds the normal form of the list. -/
theorem items_ofList_eq_normalForm (es : List (UInt32 × α)) :
    (ofList es).items = normalForm es := by
  have : Std.Irrefl fun e f : UInt32 × α => e.1 < f.1 := ⟨fun e => UInt32.lt_irrefl e.1⟩
  have : Std.Antisymm fun e f : UInt32 × α => e.1 < f.1 :=
    ⟨fun _ _ hef hfe => (UInt32.lt_asymm hef hfe).elim⟩
  apply (ofList es).sorted.eq_of_mem_iff (sorted_normalForm es)
  intro e
  rw [mem_items_ofList_iff, mem_normalForm_iff]

example : normalForm [(7, 'b'), (3, 'a'), (7, 'c')] = [(3, 'a'), (7, 'c')] := by decide

/-- Sorted maps with the same entries are the same. -/
lemma items_inj {m m' : SortedMap α} : m.items = m'.items ↔ m = m' := by
  constructor
  · intro h
    rw [← ofList_items m, h, ofList_items]
  · rintro rfl
    rfl

/-- Lists of entries make the same map exactly when they have the same normal form. -/
lemma ofList_eq_iff : ofList es = ofList fs ↔ normalForm es = normalForm fs := by
  rw [← items_inj, items_ofList_eq_normalForm, items_ofList_eq_normalForm]

end SortedMap

/-! ### Sorted maps on the wire -/

/-- The plain map from words to strings, with its entries in the order of the wire. -/
abbrev Shape.wordMap : Shape := .map .known .uint32 .text

/-- The entries of a sorted map as a plain map. -/
abbrev SortedMap.toWordMap (m : SortedMap String) : Shape.wordMap.Val := ⟨m.items, none⟩

namespace Shape

variable {lim : Limits} {b r w : Bytes} {m m' : SortedMap String}

/-- A sorted map is written as the plain map of its entries. -/
lemma encode_sortedMap_eq (m : SortedMap String) :
    sortedMap.encode m = wordMap.encode m.toWordMap := rfl

/-- A sorted map is written to any sink as the plain map of its entries. -/
lemma write_sortedMap_eq (m : SortedMap String) :
    sortedMap.write m = wordMap.write m.toWordMap := rfl

/-- A sorted map is read as a plain map, and then the entries are put into it one by one. -/
lemma decode_sortedMap_eq (lim : Limits) :
    sortedMap.decode lim = (do return SortedMap.ofList (← wordMap.decode lim).items) := by
  simp only [decode, Word.decode_uint32, Decoder.ofExcept, bind_assoc, pure_bind, bind_pure]

/-- A sorted map is read exactly where a plain map is of whose entries it is the map. -/
lemma decode_sortedMap_eq_ok_iff :
    sortedMap.decode lim b = .ok m r ↔
      ∃ v, wordMap.decode lim b = .ok v r ∧ SortedMap.ofList v.items = m := by
  rw [decode_sortedMap_eq, Decoder.map_eq_ok_iff]

/-- A sorted map is refused exactly where a plain map is, with the same fault. -/
lemma decode_sortedMap_eq_error_iff {f : Fault} :
    sortedMap.decode lim b = .error f r ↔ wordMap.decode lim b = .error f r := by
  rw [decode_sortedMap_eq, Decoder.map_eq_error_iff]

/-! ### Lengths -/

/-- The lengths in a plain map are the number of its entries and the lengths of its strings. -/
lemma lengths_wordMap (es : List (UInt32 × String)) :
    wordMap.lengths ⟨es, none⟩ = es.length :: es.map fun e => (utf8 e.2).length := by
  rw [List.map_eq_flatMap]
  rfl

/-- The lengths in a sorted map are those in the plain map of its entries. -/
lemma lengths_toWordMap (m : SortedMap String) :
    wordMap.lengths m.toWordMap = sortedMap.lengths m :=
  lengths_wordMap m.items

/-- A sorted map is written completely exactly when its count and the lengths of its strings fit
a word. -/
lemma fault_encode_sortedMap_eq_none_iff :
    (sortedMap.encode m).fault = none ↔ ∀ n ∈ sortedMap.lengths m, n ≤ 4294967295 := by
  have hfits : ∀ n, (Place.length n).fault = none ↔ n ≤ 4294967295 := by
    intro n
    simp [Place.fault, Fault.ofLength?]
  rw [encode_eq_written, Place.fault_written_eq_none_iff, ← lengths_toWordMap, lengths_wordMap]
  simp only [layout, Place.ofData, List.forall_mem_cons, List.forall_mem_flatMap,
    List.forall_mem_map, hfits]
  simp [Place.fault]

/-- A limit on the lengths in a plain map is kept by the sorted map of its entries. -/
lemma le_of_mem_lengths_ofList {es : List (UInt32 × String)} {n : Nat}
    (h : ∀ k ∈ wordMap.lengths ⟨es, none⟩, k ≤ n) :
    ∀ k ∈ sortedMap.lengths (.ofList es), k ≤ n := by
  rw [lengths_wordMap] at h
  rw [← lengths_toWordMap, lengths_wordMap, SortedMap.items_ofList_eq_normalForm]
  simp only [List.forall_mem_cons, List.forall_mem_map] at h ⊢
  obtain ⟨hcount, hitems⟩ := h
  have hsub := SortedMap.subperm_normalForm es
  exact ⟨Nat.le_trans hsub.length_le hcount, fun e he => hitems e (hsub.subset he)⟩

/-! ### Reading what was written -/

/-- A sorted map that is written completely is read back under exactly those limits that admit the
lengths in it. -/
lemma decode_encode_sortedMap_iff (hw : sortedMap.encode m = ⟨w, none⟩) :
    sortedMap.decode lim (w ++ r) = .ok m r ↔
      ∀ n ∈ sortedMap.lengths m, n ≤ lim.maxLength.toNat := by
  constructor
  · intro hrun
    obtain ⟨v, hv, -⟩ := decode_sortedMap_eq_ok_iff.mp hrun
    obtain ⟨hnone, hlengths, -⟩ :=
      (gauged_decode (s := wordMap) ⟨trivial, trivial⟩).ok_iff_none.mp hv
    -- Another plain map may have the same sorted one, but it is not read from these bytes.
    have hfits : ∀ n ∈ wordMap.lengths m.toWordMap, n ≤ Limits.none.maxLength.toNat := by
      rw [lengths_toWordMap]
      exact fault_encode_sortedMap_eq_none_iff.mp (by rw [hw])
    have hread := reads_encode (s := wordMap) ⟨trivial, trivial⟩
      ⟨rfl, fun _ _ => ⟨trivial, trivial⟩⟩ hfits
    rw [← encode_sortedMap_eq, hw] at hread
    rw [hread rfl r] at hnone
    cases hnone
    rwa [← lengths_toWordMap]
  · intro hlim
    have hread := reads_encode (s := sortedMap) (v := m) trivial trivial hlim
    rw [hw] at hread
    exact hread rfl r

/-- A reader without limits reads back every sorted map that is written completely. -/
lemma decode_none_of_encode_sortedMap (hw : sortedMap.encode m = ⟨w, none⟩) :
    sortedMap.decode .none (w ++ r) = .ok m r :=
  (decode_encode_sortedMap_iff hw).mpr (fault_encode_sortedMap_eq_none_iff.mp (by rw [hw]))

/-- No other sorted map is written completely as the same bytes. -/
lemma encode_sortedMap_eq_iff (hw : sortedMap.encode m = ⟨w, none⟩) :
    sortedMap.encode m' = ⟨w, none⟩ ↔ m' = m := by
  constructor
  · intro hw'
    have hread : sortedMap.decode .none (w ++ []) = .ok m [] := decode_none_of_encode_sortedMap hw
    rw [decode_none_of_encode_sortedMap hw'] at hread
    cases hread
    rfl
  · rintro rfl
    exact hw

/-- What was read as a sorted map is written completely, and is read back under the same limits. -/
lemma encode_of_decode_sortedMap (hrun : sortedMap.decode lim b = .ok m r) :
    ∃ w, sortedMap.encode m = ⟨w, none⟩ ∧ sortedMap.decode lim w = .ok m [] := by
  obtain ⟨v, hv, rfl⟩ := decode_sortedMap_eq_ok_iff.mp hrun
  obtain ⟨-, hlengths, -⟩ :=
    (gauged_decode (s := wordMap) ⟨trivial, trivial⟩).ok_iff_none.mp hv
  have hlim := le_of_mem_lengths_ofList hlengths
  have hmax := lim.maxLength.toNat_lt
  have hfault : (sortedMap.encode (.ofList v.items)).fault = none := by
    apply fault_encode_sortedMap_eq_none_iff.mpr
    intro n hn
    have hle := hlim n hn
    omega
  have hw : sortedMap.encode (.ofList v.items) =
      ⟨(sortedMap.encode (.ofList v.items)).bytes, none⟩ := by rw [← hfault]
  have hback := (decode_encode_sortedMap_iff (r := []) hw).mpr hlim
  rw [List.append_nil] at hback
  exact ⟨_, hw, hback⟩

/-! ### Writing what was read -/

/-- What is written of the value that is read from the front of some bytes. -/
def reencode (lim : Limits) (s : Shape) (b : Bytes) : Except Fault Bytes := do
  (s.encode (← Reading.toExcept (s.decode lim b))).toExcept

/-- Bytes are rewritten exactly where a value is read from them and is written completely. -/
lemma reencode_eq_ok_iff {s : Shape} :
    s.reencode lim b = .ok w ↔ ∃ v r, s.decode lim b = .ok v r ∧ s.encode v = ⟨w, none⟩ := by
  have hform : ∀ e : Encoding, e.toExcept = .ok w ↔ e = ⟨w, none⟩ := by
    rintro ⟨bytes, _ | f⟩
    · simp [Encoding.toExcept]
    · simp [Encoding.toExcept]
  unfold reencode
  cases hrun : s.decode lim b with
  | error f r => simp [Reading.toExcept, bind, Except.bind]
  | ok v r => simp [Reading.toExcept, bind, Except.bind, hform]

end Shape

/-! ### The law -/

section

open Shape (sortedMap wordMap)
open SortedMap (normalForm ofList)

/-- A sorted map is the normal form of the plain map.

The map of a list holds the normal form of the list.  It is written as the plain map of this normal
form, also as far as it can be written at all and to any sink; and it is written completely exactly
when its count and the lengths of its strings fit a word.  A sorted map is read where a plain map
is, from the same bytes, and holds the normal form of what the plain map holds; where the plain map
is refused, it is refused with the same fault and the same rest.  What is written completely is read
back in front of any bytes, under exactly those limits that admit the lengths in it, and it is the
form of just the lists with the same normal form.  What was accepted can be written, and to read
this and write it again changes nothing any more. -/
theorem sortedMap_is_normal_form_of_map :
    (∀ es : List (UInt32 × String), (ofList es).items = normalForm es ∧
      sortedMap.encode (ofList es) = wordMap.encode ⟨normalForm es, none⟩ ∧
      sortedMap.write (ofList es) = wordMap.write ⟨normalForm es, none⟩ ∧
      ((sortedMap.encode (ofList es)).fault = none ↔
        ∀ n ∈ sortedMap.lengths (ofList es), n ≤ 4294967295)) ∧
    (∀ (lim : Limits) (b r : Bytes),
      (∀ m, sortedMap.decode lim b = .ok m r ↔
        ∃ v, wordMap.decode lim b = .ok v r ∧ m.items = normalForm v.items) ∧
      ∀ f, sortedMap.decode lim b = .error f r ↔ wordMap.decode lim b = .error f r) ∧
    (∀ (es : List (UInt32 × String)) (w : Bytes), sortedMap.encode (ofList es) = ⟨w, none⟩ →
      (∀ rest, sortedMap.decode .none (w ++ rest) = .ok (ofList es) rest) ∧
      (∀ (lim : Limits) (rest : Bytes), sortedMap.decode lim (w ++ rest) = .ok (ofList es) rest ↔
        ∀ n ∈ sortedMap.lengths (ofList es), n ≤ lim.maxLength.toNat) ∧
      ∀ fs, sortedMap.encode (ofList fs) = ⟨w, none⟩ ↔ normalForm fs = normalForm es) ∧
    ∀ (lim : Limits) (b r : Bytes) (m : SortedMap String), sortedMap.decode lim b = .ok m r →
      ∃ w, sortedMap.encode m = ⟨w, none⟩ ∧ sortedMap.reencode lim b = .ok w ∧
        sortedMap.reencode lim w = .ok w := by
  refine ⟨fun es => ?_, fun lim b r => ⟨fun m => ?_, fun f => ?_⟩, fun es w hw => ?_,
    fun lim b r m hrun => ?_⟩
  · rw [← SortedMap.items_ofList_eq_normalForm]
    exact ⟨rfl, Shape.encode_sortedMap_eq _, Shape.write_sortedMap_eq _,
      Shape.fault_encode_sortedMap_eq_none_iff⟩
  · rw [Shape.decode_sortedMap_eq_ok_iff]
    apply exists_congr
    intro v
    rw [← SortedMap.items_ofList_eq_normalForm, SortedMap.items_inj, eq_comm (a := m)]
  · exact Shape.decode_sortedMap_eq_error_iff
  · refine ⟨fun rest => Shape.decode_none_of_encode_sortedMap hw,
      fun lim rest => Shape.decode_encode_sortedMap_iff hw, fun fs => ?_⟩
    rw [Shape.encode_sortedMap_eq_iff hw]
    exact SortedMap.ofList_eq_iff
  · obtain ⟨w, hw, hback⟩ := Shape.encode_of_decode_sortedMap hrun
    have hfirst : sortedMap.reencode lim b = .ok w :=
      Shape.reencode_eq_ok_iff.mpr ⟨m, r, hrun, hw⟩
    have hsecond : sortedMap.reencode lim w = .ok w :=
      Shape.reencode_eq_ok_iff.mpr ⟨m, [], hback, hw⟩
    exact ⟨w, hw, hfirst, hsecond⟩

/-- Three entries out of order, two of them for one key, are read as two.  What is written of them
has zero padding and is read back; the sorted entries are written as the same bytes. -/
theorem sortedMap_is_normal_form_of_map_repeated_key :
    let es := [(7, "b"), (3, "a"), (7, "c")]
    let fs := [(3, "a"), (7, "c")]
    let m := ofList es
    let lim : Limits := ⟨3, false⟩
    let b : Bytes := [0, 0, 0, 3, 0, 0, 0, 7, 0, 0, 0, 1, 98, 1, 1, 1, 0, 0, 0, 3, 0, 0, 0, 1, 97,
      0, 0, 0, 0, 0, 0, 7, 0, 0, 0, 1, 99, 2, 2, 2, 9]
    let w : Bytes := [0, 0, 0, 2, 0, 0, 0, 3, 0, 0, 0, 1, 97, 0, 0, 0, 0, 0, 0, 7, 0, 0, 0, 1, 99,
      0, 0, 0]
    (wordMap.decode lim b = .ok ⟨es, none⟩ [9] ∧ sortedMap.decode lim b = .ok m [9] ∧
      sortedMap.reencode lim b = .ok w ∧ sortedMap.reencode lim w = .ok w) ∧
    sortedMap.encode m = ⟨w, none⟩ ∧ sortedMap.decode .none (w ++ [9]) = .ok m [9] ∧
      normalForm fs = normalForm es ∧ sortedMap.encode (ofList fs) = ⟨w, none⟩ := by
  intro es fs m lim b w
  obtain ⟨hmap, hread, hwritten, hagain⟩ := sortedMap_is_normal_form_of_map
  have hb : wordMap.decode lim b = .ok ⟨es, none⟩ [9] := by decide +kernel
  have hw : sortedMap.encode m = ⟨w, none⟩ := by decide +kernel
  have hsame : normalForm fs = normalForm es := by decide
  have hm : sortedMap.decode lim b = .ok m [9] :=
    ((hread lim b [9]).1 m).mpr ⟨⟨es, none⟩, hb, (hmap es).1⟩
  obtain ⟨hback, -, hunique⟩ := hwritten es w hw
  obtain ⟨w', hw', hfirst, hsecond⟩ := hagain lim b [9] m hm
  obtain rfl : w = w' := congrArg Encoding.bytes (hw.symm.trans hw')
  exact ⟨⟨hb, hm, hfirst, hsecond⟩, hw, hback [9], hsame, (hunique fs).mpr hsame⟩

end

end OncWire
