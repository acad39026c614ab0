import Mathlib.Logic.Equiv.Defs
import Mathlib.Tactic.Common
import OncWire.Proofs.Layout
import OncWire.Proofs.Truncation
import OncWire.Proofs.Width

/-!
# Maps as lists of pairs

A map is written as the list of its entries: a count, then each key followed by its
value.  Only the checks around the entries differ.  Before it reads any entry, a reader
of a map asks for eight bytes for each of them, a reader of a list for four; and a
writer of a map asks of each key and of each value that it take bytes, a writer of a
list only of each pair.

Where neither keys nor values are of zero width, no check makes a difference to what
is written or accepted.  A key and a value take four bytes each, so the bytes for all
the entries have to be there in any case (`Decoder.length_bind_eq_ok_iff`), and a
reader of a map that does not fail for its count goes on like a reader of the list
(`Decoder.length_bind_eq_error`).
-/

namespace OncWire

/-- Items that are the same as others make runs that are the same as others. -/
def Counted.congr {α β : Type} (e : α ≃ β) : Counted α ≃ Counted β where
  toFun v := ⟨v.items.map e, v.declared⟩
  invFun v := ⟨v.items.map e.symm, v.declared⟩
  left_inv v := by simp
  right_inv v := by simp

/-- As many items are counted as before. -/
lemma Counted.count_congr {α β : Type} (e : α ≃ β) (v : Counted α) :
    (Counted.congr e v).count = v.count := by
  have hlen : (v.items.map e).length = v.items.length := List.length_map e
  exact congrArg v.declared.getD hlen

namespace Decoder

variable {α β : Type} {lim : Limits}

/-- Repeating what hands on its value through a function is repeating the item and then applying
the function to each value. -/
lemma times_map (d : Decoder α) (g : α → β) (n : Nat) :
    times (do return g (← d)) n = (do
      let xs ← times d n
      return ⟨xs.val.map g, by rw [List.length_map, xs.property]⟩) := by
  induction n with
  | zero => rfl
  | succ n ih =>
    simp only [times, ih, bind_assoc, pure_bind]
    rfl

section Units

variable {unit unit' n : Nat} {g : Nat → Decoder β} {b r : Bytes}

/-- A count may be checked with any smaller unit than what its items take. -/
lemma length_bind_eq_ok_iff {v : β} (hunit : unit ≤ unit') (htakes : ∀ n, Takes (n * unit') (g n)) :
    (length lim unit' >>= g) b = .ok v r ↔ (length lim unit >>= g) b = .ok v r := by
  simp only [bind_eq_ok_iff, length_eq_ok_iff]
  constructor
  · rintro ⟨n, q, ⟨hmax, hrest, hb⟩, hv⟩
    have hmul : n * unit ≤ n * unit' := Nat.mul_le_mul_left n hunit
    exact ⟨n, q, ⟨hmax, Nat.le_trans hmul hrest, hb⟩, hv⟩
  · rintro ⟨n, q, ⟨hmax, -, hb⟩, hv⟩
    -- The items were read, so the bytes for them are there.
    have hlen := htakes n hv
    exact ⟨n, q, ⟨hmax, by omega, hb⟩, hv⟩

/-- With a smaller unit for the check of the count every other fault stays the same. -/
lemma length_bind_eq_error {f : Fault} (hunit : unit ≤ unit')
    (h : (length lim unit' >>= g) b = .error f r)
    (hcount : ∀ w, b = wordBytes w ++ r → f ≠ .malformedLength w r.length) :
    (length lim unit >>= g) b = .error f r := by
  rcases bind_eq_error_iff.mp h with hlength | ⟨n, q, hn, hrest⟩
  · refine bind_of_error (length_eq_error_iff.mpr ?_)
    rcases length_eq_error_iff.mp hlength with hshort | ⟨w, hb, hmax | ⟨-, -, hf⟩⟩
    · exact .inl hshort
    · exact .inr ⟨w, hb, .inl hmax⟩
    · exact (hcount w hb hf).elim
  · obtain ⟨hmax, hlen, hb⟩ := length_eq_ok_iff.mp hn
    have hmul : n * unit ≤ n * unit' := Nat.mul_le_mul_left n hunit
    have hn' : length lim unit b = .ok n q := length_eq_ok_iff.mpr ⟨hmax, Nat.le_trans hmul hlen, hb⟩
    exact (bind_of_ok hn').trans hrest

end Units

end Decoder

namespace Shape

variable {c : Count} {k s : Shape} {lim : Limits}

/-- A key and a value are the tuple of both. -/
def entry (k s : Shape) : k.Val × s.Val ≃ (fields [k, s]).Val where
  toFun x := (x.1, x.2, ())
  invFun x := (x.1, x.2.1)
  left_inv _ := rfl
  right_inv _ := rfl

/-- The values of a map are the values of the list of its entries, each of them as a tuple. -/
def entries (c : Count) (k s : Shape) : (map c k s).Val ≃ (seq c (fields [k, s])).Val :=
  Counted.congr (entry k s)

/-! ### Writing -/

/-- A key and its value that take bytes are written as the tuple of both. -/
lemma encode_entry (hk : k.zeroWidth = false) (hs : s.zeroWidth = false) (x : k.Val × s.Val) :
    (k.encode x.1).item ++ (s.encode x.2).item =
      ((fields [k, s]).encode (entry k s x)).item := by
  have hkey := hasUnit_encode hk x.1
  have hvalue := hasUnit_encode hs x.2
  have htuple : (fields [k, s]).encode (entry k s x) = k.encode x.1 ++ s.encode x.2 :=
    congrArg (k.encode x.1 ++ ·) (Encoding.append_nothing _)
  rw [htuple, hkey.item_eq, hvalue.item_eq, (hkey.left _).item_eq]

/-- A map is written as the list of its entries. -/
lemma encode_map_eq_seq (hk : k.zeroWidth = false) (hs : s.zeroWidth = false)
    (v : (map c k s).Val) :
    (map c k s).encode v = (seq c (fields [k, s])).encode (entries c k s v) := by
  cases c with
  | unknown => rfl
  | known =>
    have hcount : (entries .known k s v).count = v.count := Counted.count_congr _ v
    have hitems : v.items.map (fun x => (k.encode x.1).item ++ (s.encode x.2).item) =
        (v.items.map (entry k s)).map fun x => ((fields [k, s]).encode x).item := by
      rw [List.map_map]
      exact List.map_congr_left fun x _ => encode_entry hk hs x
    rw [encode_map, encode_seq, hcount, hitems]
    rfl

/-! ### Reading -/

/-- Reads the entries of a map behind their count. -/
def readEntries (lim : Limits) (k s : Shape) (n : Nat) : Decoder (Counted (k.Val × s.Val)) := do
  return ⟨(← Decoder.times ((pair k s).decode lim) n).val, none⟩

/-- A map is read as its entries behind a count that allows eight bytes for each of them. -/
lemma decode_map_eq (lim : Limits) :
    (map c k s).decode lim = Decoder.length lim 8 >>= readEntries lim k s := rfl

/-- A list of tuples of two is read as the same entries behind a count that allows four bytes. -/
lemma decode_seq_eq (lim : Limits) :
    (seq c (fields [k, s])).decode lim = (do
      return entries c k s (← Decoder.length lim 4 >>= readEntries lim k s)) := by
  have htuple : (fields [k, s]).decode lim = (do
      return entry k s (← (pair k s).decode lim)) := by
    simp only [decode, bind_assoc, pure_bind]
    rfl
  rw [decode, htuple]
  simp only [readEntries, Decoder.times_map, bind_assoc, pure_bind]
  rfl

/-- Entries that take bytes take at least eight bytes each. -/
lemma takes_readEntries (hk : k.zeroWidth = false) (hs : s.zeroWidth = false) (n : Nat) :
    Decoder.Takes (n * 8) (readEntries lim k s n) :=
  (((takes_four hk).entry (takes_four hs)).times n).map _

end Shape

/-! ### The law -/

/-- A map whose keys and values take bytes is the list of its entries, though it is bounded
differently.

It is written as the list of its entries, with the same fault if there is one and also with a
declared count or without a known one, and so it comes to any sink.  It is read from the same bytes,
and leaves the same.  A fault on the way is the same too, unless it is that the count promises more
entries of eight bytes than there are bytes for. -/
theorem map_agrees_with_list_of_entries :
    ∀ (c : Count) (k s : Shape), k.zeroWidth = false → s.zeroWidth = false →
      let list := Shape.seq c (.fields [k, s])
      let entries := Shape.entries c k s
      (∀ v : (Shape.map c k s).Val, (Shape.map c k s).encode v = list.encode (entries v) ∧
        ∀ w : Writer,
          (((Shape.map c k s).write v).outcome w).1 = ((list.write (entries v)).outcome w).1 ∧
          (((Shape.map c k s).write v).outcome w).2.sink =
            ((list.write (entries v)).outcome w).2.sink) ∧
      (∀ (lim : Limits) (b r : Bytes) (v : (Shape.map c k s).Val),
        (Shape.map c k s).decode lim b = .ok v r ↔ list.decode lim b = .ok (entries v) r) ∧
      ∀ (lim : Limits) (b r : Bytes) (f : Fault), (Shape.map c k s).decode lim b = .error f r →
        (∀ w, b = wordBytes w ++ r → f ≠ .malformedLength w r.length) →
        list.decode lim b = .error f r := by
  intro c k s hk hs list entries
  have hunit : 4 ≤ 8 := by decide
  refine ⟨fun v => ?_, fun lim b r v => ?_, fun lim b r f h hcount => ?_⟩
  · have hform : (Shape.map c k s).encode v = list.encode (entries v) :=
      Shape.encode_map_eq_seq hk hs v
    refine ⟨hform, fun w => ?_⟩
    obtain ⟨count, hmap, -⟩ := (Shape.map c k s).write_yields v w
    obtain ⟨count', hlist, -⟩ := list.write_yields (entries v) w
    rw [hmap, hlist, hform]
    exact ⟨rfl, rfl⟩
  · rw [Shape.decode_map_eq, Shape.decode_seq_eq, Decoder.map_eq_ok_iff,
      Decoder.length_bind_eq_ok_iff hunit (Shape.takes_readEntries hk hs)]
    constructor
    · exact fun hread => ⟨v, hread, rfl⟩
    · rintro ⟨v', hread, hv⟩
      rwa [← entries.injective hv]
  · rw [Shape.decode_map_eq] at h
    rw [Shape.decode_seq_eq, Decoder.map_eq_error_iff]
    exact Decoder.length_bind_eq_error hunit h hcount

/-- Where the count promises too much for entries and not for items, the list is begun. -/
example :
    let b : Bytes := [0, 0, 0, 2, 0, 0, 0, 7, 0, 0, 0, 1, 0, 0, 0, 7]
    (Shape.map .known .uint32 (.word .bool)).decode .none b =
        .error (.malformedLength 2 12) [0, 0, 0, 7, 0, 0, 0, 1, 0, 0, 0, 7] ∧
      (Shape.seq .known (.fields [.uint32, .word .bool])).decode .none b =
        .error .unexpectedEof [] := by
  decide +kernel

/-- An entry with a declared count is written as a tuple, also to a sink that is almost full; it is
read as a tuple, and refused as one. -/
theorem map_agrees_with_list_of_entries_one_entry :
    let map : Shape := .map .known .uint32 (.word .bool)
    let list : Shape := .seq .known (.fields [.uint32, .word .bool])
    let v : map.Val := ⟨[(7, true)], some 2⟩
    let w : Writer := ⟨{ buffer := [], limit := some 9 }, 0⟩
    let b : Bytes := [0, 0, 0, 1, 0, 0, 0, 7, 0, 0, 0, 1, 9]
    let d : Bytes := [0, 0, 0, 1, 0, 0, 0, 7, 0, 0, 0, 2, 9]
    Shape.uint32.zeroWidth = false ∧ (Shape.word .bool).zeroWidth = false ∧
    (map.encode v = list.encode ⟨[(7, true, ())], some 2⟩ ∧
      ((map.write v).outcome w).2.sink.buffer = [0, 0, 0, 2, 0, 0, 0, 7, 0] ∧
      ((list.write ⟨[(7, true, ())], some 2⟩).outcome w).2.sink.buffer =
        [0, 0, 0, 2, 0, 0, 0, 7, 0]) ∧
    (map.decode .none b = .ok ⟨[(7, true)], none⟩ [9] ∧
      list.decode .none b = .ok ⟨[(7, true, ())], none⟩ [9]) ∧
    map.decode .none d = .error (.invalidBool 2) [9] ∧
      list.decode .none d = .error (.invalidBool 2) [9] := by
  intro map list v w b d
  obtain ⟨hform, hread, hfault⟩ :=
    map_agrees_with_list_of_entries .known .uint32 (.word .bool) rfl rfl
  have hwrite : ((map.write v).outcome w).2.sink.buffer = [0, 0, 0, 2, 0, 0, 0, 7, 0] := by
    decide +kernel
  have hb : map.decode .none b = .ok ⟨[(7, true)], none⟩ [9] := by decide +kernel
  have hd : map.decode .none d = .error (.invalidBool 2) [9] := by decide +kernel
  have hsink : ((map.write v).outcome w).2.sink =
      ((list.write ⟨[(7, true, ())], some 2⟩).outcome w).2.sink := ((hform v).2 w).2
  refine ⟨rfl, rfl, ⟨(hform v).1, hwrite, hsink ▸ hwrite⟩, ⟨hb, ?_⟩, hd, ?_⟩
  · exact (hread .none b [9] ⟨[(7, true)], none⟩).mp hb
  · exact hfault .none d [9] (.invalidBool 2) hd fun _ _ => nofun

end OncWire
