import Mathlib.Tactic.Common
import OncWire.Shape.Encode

/-!
# Laws of encodings

What a composed encoding writes, when it is complete, and how long it is.  An
encoding is complete when no fault stopped it; a composition is complete
exactly when all of its parts are, and then its bytes are theirs one after
another (`fault_append_eq_none_iff`, `append_of_complete`).

Everything is written in whole units of four bytes, before a fault as well
(`Shape.whole_encode`).  An item of a counted run that is written at all
therefore takes at least one unit, so a run of `n` items takes at least `4 * n`
bytes (`mul_length_le_concat`, `four_le_length_item`).
-/

namespace OncWire

namespace Encoding

/-! ### Faults and bytes of compositions -/

/-- A composition is complete exactly when both of its parts are. -/
lemma fault_append_eq_none_iff {a b : Encoding} :
    (a ++ b).fault = none ↔ a.fault = none ∧ b.fault = none := by
  rw [append_def]
  cases h : a.fault with
  | none => simp
  | some f => simp [h]

/-- After a complete part the next one is written. -/
lemma append_of_complete {a : Encoding} (h : a.fault = none) (b : Encoding) :
    a ++ b = ⟨a.bytes ++ b.bytes, b.fault⟩ := by
  rw [append_def, h]

/-- After a fault nothing more is written. -/
lemma append_of_fault {a : Encoding} {f : Fault} (h : a.fault = some f) (b : Encoding) :
    a ++ b = a := by
  rw [append_def, h]

/-- What begins with a word is the same only with the same word and the same continuation. -/
lemma ofWord_append_inj {w w' : UInt32} {a a' : Encoding} :
    ofWord w ++ a = ofWord w' ++ a' ↔ w = w' ∧ a = a' := by
  constructor
  · intro h
    rw [append_of_complete rfl, append_of_complete rfl] at h
    obtain ⟨hbytes, hfault⟩ := Encoding.mk.inj h
    have hlen : (wordBytes w).length = (wordBytes w').length := by
      rw [length_wordBytes, length_wordBytes]
    obtain ⟨hword, hrest⟩ := List.append_inj hbytes hlen
    have hw : wordOfBytes (wordBytes w) = wordOfBytes (wordBytes w') := congrArg wordOfBytes hword
    rw [wordOfBytes_wordBytes, wordOfBytes_wordBytes] at hw
    obtain ⟨bytes, fault⟩ := a
    obtain ⟨bytes', fault'⟩ := a'
    obtain rfl : bytes = bytes' := hrest
    obtain rfl : fault = fault' := hfault
    exact ⟨hw, rfl⟩
  · rintro ⟨rfl, rfl⟩
    rfl

/-- A complete sequence takes at least `k` bytes for each part that does. -/
lemma mul_length_le_concat {k : Nat} {es : List Encoding}
    (hk : ∀ e ∈ es, e.fault = none → k ≤ e.bytes.length) (h : (concat es).fault = none) :
    es.length * k ≤ (concat es).bytes.length := by
  induction es with
  | nil => simp
  | cons e es ih =>
    rw [concat_cons] at h ⊢
    obtain ⟨he, hes⟩ := fault_append_eq_none_iff.mp h
    have hhead := hk e List.mem_cons_self he
    have htail := ih (fun e' he' => hk e' (List.mem_cons_of_mem _ he')) hes
    rw [append_of_complete he, List.length_cons, Nat.succ_mul]
    simp only [List.length_append]
    omega

/-! ### Items of counted runs -/

/-- An item is complete exactly when it is written completely and takes some bytes. -/
lemma fault_item_eq_none_iff {e : Encoding} :
    e.item.fault = none ↔ e.fault = none ∧ e.bytes ≠ [] := by
  unfold item
  split
  · rename_i h
    simp [fail, h]
  · rename_i h
    rw [not_and] at h
    exact ⟨fun he => ⟨he, h he⟩, fun he => he.1⟩

/-- An item that is complete is written as it is. -/
lemma item_of_complete {e : Encoding} (h : e.item.fault = none) : e.item = e := by
  have hne := (fault_item_eq_none_iff.mp h).2
  rw [item, if_neg (fun h => hne h.2)]

/-- An item that takes some bytes is written as it is. -/
lemma item_of_ne_nil {e : Encoding} (h : e.bytes ≠ []) : e.item = e := by
  rw [item, if_neg (fun h' => h h'.2)]

/-- An item that a fault stopped is written as it is. -/
lemma item_of_fault {e : Encoding} {f : Fault} (h : e.fault = some f) : e.item = e := by
  rw [item, if_neg (fun h' => by rw [h] at h'; cases h'.1)]

/-! ### Whole units -/

/-- An encoding that writes whole units of four bytes. -/
def Whole (e : Encoding) : Prop := 4 ∣ e.bytes.length

/-- A word is a whole unit. -/
lemma whole_ofWord (w : UInt32) : (ofWord w).Whole := ⟨1, length_wordBytes w⟩

/-- A hyper is two whole units. -/
lemma whole_ofHyper (h : UInt64) : (ofHyper h).Whole := ⟨2, length_hyperBytes h⟩

/-- A fault writes nothing. -/
lemma whole_fail (f : Fault) : (fail f).Whole := Nat.dvd_zero 4

/-- Whole units after whole units are whole units. -/
lemma Whole.append {a b : Encoding} (ha : a.Whole) (hb : b.Whole) : (a ++ b).Whole := by
  cases h : a.fault with
  | none =>
    rw [append_of_complete h, Whole, List.length_append]
    exact Nat.dvd_add ha hb
  | some f => rwa [append_of_fault h]

/-- A sequence of whole units is whole units. -/
lemma Whole.concat {es : List Encoding} (h : ∀ e ∈ es, e.Whole) : (concat es).Whole := by
  induction es with
  | nil => exact Nat.dvd_zero 4
  | cons e es ih =>
    exact (h e List.mem_cons_self).append (ih fun e' he' => h e' (List.mem_cons_of_mem _ he'))

/-- The word of an outcome is a whole unit. -/
lemma whole_ofExcept (x : Except Fault UInt32) : (ofExcept x).Whole := by
  cases x with
  | ok w => exact whole_ofWord w
  | error f => exact whole_fail f

/-- A length is a whole unit. -/
lemma whole_length (n : Nat) : (length n).Whole := by
  unfold length
  split
  · exact whole_ofWord _
  · exact whole_fail _

/-- Data is filled up to whole units. -/
lemma whole_data (bs : Bytes) : (data bs).Whole := by
  rw [data, append_assoc]
  refine (whole_length _).append ?_
  rw [ofBytes_append_ofBytes, Whole, ofBytes, List.length_append, length_padding]
  exact four_dvd_add_padLength _

/-- Refusing an item without bytes keeps whole units. -/
lemma Whole.item {e : Encoding} (h : e.Whole) : e.item.Whole := by
  unfold Encoding.item
  split
  · exact whole_fail _
  · exact h

/-- An item of whole units that is complete takes at least one unit. -/
lemma Whole.four_le_length_item {e : Encoding} (h : e.Whole) (he : e.item.fault = none) :
    4 ≤ e.item.bytes.length := by
  rw [item_of_complete he]
  exact Nat.le_of_dvd (List.length_pos_iff.mpr (fault_item_eq_none_iff.mp he).2) h

/-- Two items of whole units that are complete take at least two units. -/
lemma eight_le_length_entry {a b : Encoding} (ha : a.Whole) (hb : b.Whole)
    (h : (a.item ++ b.item).fault = none) : 8 ≤ (a.item ++ b.item).bytes.length := by
  obtain ⟨hfa, hfb⟩ := fault_append_eq_none_iff.mp h
  have hla := ha.four_le_length_item hfa
  have hlb := hb.four_le_length_item hfb
  rw [append_of_complete hfa, List.length_append]
  omega

end Encoding

namespace Shape

/-! ### Counted runs -/

/-- A run is written as its count and then item by item. -/
lemma encode_seq (s : Shape) (v : Counted s.Val) :
    (seq .known s).encode v =
      .length v.count ++ .concat (v.items.map fun x => (s.encode x).item) := by
  rw [encode, Encoding.run, List.map_map]
  rfl

/-- The items of a run of pairs are written pair by pair. -/
lemma run_flatMap_pair {α : Type} (n : Nat) (xs : List α) (f g : α → Encoding) :
    Encoding.run n (xs.flatMap fun x => [f x, g x]) =
      .length n ++ .concat (xs.map fun x => (f x).item ++ (g x).item) := by
  rw [Encoding.run]
  congr 1
  induction xs with
  | nil => rfl
  | cons x xs ih =>
    simp only [List.flatMap_cons, List.cons_append, List.nil_append, List.map_cons,
      Encoding.concat_cons]
    rw [ih, Encoding.append_assoc]

/-- A map is written as its count and then entry by entry. -/
lemma encode_map (k s : Shape) (v : Counted (k.Val × s.Val)) :
    (map .known k s).encode v =
      .length v.count ++
        .concat (v.items.map fun x => (k.encode x.1).item ++ (s.encode x.2).item) :=
  run_flatMap_pair v.count v.items (fun x => k.encode x.1) fun x => s.encode x.2

/-- A sorted map is written as its count and then entry by entry. -/
lemma encode_sortedMap (v : SortedMap String) :
    sortedMap.encode v =
      .length v.items.length ++ .concat
        (v.items.map fun x => (Encoding.ofWord x.1).item ++ (Encoding.data (utf8 x.2)).item) :=
  run_flatMap_pair v.items.length v.items (fun x => .ofWord x.1) fun x => .data (utf8 x.2)

end Shape

/-- The nodes of a linked list are whole units. -/
lemma Chain.whole_nodes (ws : List UInt32) : (Chain.nodes ws).Whole := by
  induction ws with
  | nil => exact Encoding.whole_ofWord 0
  | cons w ws ih => exact ((Encoding.whole_ofWord 1).append (Encoding.whole_ofWord w)).append ih

/-- Every value is written in whole units of four bytes, as far as it is written. -/
theorem Shape.whole_encode (s : Shape) (v : s.Val) : (s.encode v).Whole := by
  induction s with
  | void => exact Nat.dvd_zero 4
  | word k => exact Encoding.whole_ofExcept _
  | hyper k => exact Encoding.whole_ofHyper _
  | huge signed => exact Encoding.whole_fail _
  | any skipped => exact v.elim
  | text => exact Encoding.whole_data _
  | bytes => exact Encoding.whole_data v
  | option s ih =>
    cases v with
    | none => exact Encoding.whole_ofWord 0
    | some x => exact (Encoding.whole_ofWord 1).append (ih x)
  | seq c s ih =>
    cases c with
    | unknown => exact Encoding.whole_fail _
    | known =>
      rw [encode_seq]
      refine (Encoding.whole_length _).append (Encoding.Whole.concat fun e he => ?_)
      obtain ⟨x, -, rfl⟩ := List.mem_map.mp he
      exact (ih x).item
  | map c k t ihk iht =>
    cases c with
    | unknown => exact Encoding.whole_fail _
    | known =>
      rw [encode_map]
      refine (Encoding.whole_length _).append (Encoding.Whole.concat fun e he => ?_)
      obtain ⟨x, -, rfl⟩ := List.mem_map.mp he
      exact (ihk x.1).item.append (iht x.2).item
  | array n s ih =>
    refine Encoding.Whole.concat fun e he => ?_
    obtain ⟨x, -, rfl⟩ := List.mem_map.mp he
    exact ih x
  | pair s t ihs iht => exact (ihs v.1).append (iht v.2)
  | record name s ih => exact ih v
  | variants name n arm ih => exact (Encoding.whole_ofWord _).append (ih v.1 v.2)
  | union tag arm ih => exact (Encoding.whole_ofExcept _).append (ih v.1 v.2)
  | unassigned code name => exact v.elim
  | surplus s t ihs iht => exact (ihs v.1).append (iht v.2)
  | chain => exact (Encoding.whole_ofWord _).append (Chain.whole_nodes _)
  | sortedMap =>
    rw [encode_sortedMap]
    refine (Encoding.whole_length _).append (Encoding.Whole.concat fun e he => ?_)
    obtain ⟨x, -, rfl⟩ := List.mem_map.mp he
    exact (Encoding.whole_ofWord x.1).item.append (Encoding.whole_data _).item

end OncWire
