import Mathlib.Tactic.Common
import OncWire.Proofs.Admissible
import OncWire.Proofs.Truncation

/-!
# Where writing stops

A value is laid out as a list of places, in the order in which they are written
(`Shape.layout`): scalars and other words, hypers, lengths, data, and those that
never have a form on the wire, which are integers of 128 bits, runs whose count
is not known, and items of a counted run that take no bytes.  Writing goes from
place to place and stops at the first one that is refused.  The fault is that of
this place, and the bytes are those of the places before it
(`encode_stops_at_first_fault`).

The layout is read off the shape and the value.  A writer finds an item without
bytes by comparing what it has counted before and after it; in the layout it is
an item whose shape has zero width.  The two agree, because a value of zero width
is written as nothing, and any other value that is written completely takes at
least one unit (`Shape.encode_of_zeroWidth`, `Shape.hasUnit_encode`).
-/

namespace OncWire

/-! ### Encodings of at least one unit -/

namespace Encoding

/-- An encoding that takes at least four bytes if it is complete. -/
def HasUnit (e : Encoding) : Prop := e.fault = none → 4 ≤ e.bytes.length

namespace HasUnit

variable {a b : Encoding}

/-- What comes after the first part takes nothing away from it. -/
lemma left (h : a.HasUnit) (b : Encoding) : (a ++ b).HasUnit := by
  intro hfault
  obtain ⟨ha, -⟩ := fault_append_eq_none_iff.mp hfault
  have hlen := h ha
  rw [append_of_complete ha, List.length_append]
  omega

/-- What comes before the last part takes nothing away from it. -/
lemma right (a : Encoding) (h : b.HasUnit) : (a ++ b).HasUnit := by
  intro hfault
  obtain ⟨ha, hb⟩ := fault_append_eq_none_iff.mp hfault
  have hlen := h hb
  rw [append_of_complete ha, List.length_append]
  omega

/-- A word is one unit. -/
lemma ofWord (w : UInt32) : (ofWord w).HasUnit := fun _ => Nat.le_of_eq (length_wordBytes w).symm

/-- A hyper is two units. -/
lemma ofHyper (h : UInt64) : (ofHyper h).HasUnit := by
  intro _
  have hlen : (hyperBytes h).length = 8 := length_hyperBytes h
  rw [Encoding.ofHyper, Encoding.ofBytes, hlen]
  decide

/-- A fault completes nothing. -/
lemma fail (f : Fault) : (fail f).HasUnit := by
  intro h
  cases h

/-- The word of an outcome is one unit. -/
lemma ofExcept (x : Except Fault UInt32) : (ofExcept x).HasUnit := by
  cases x with
  | ok w => exact ofWord w
  | error f => exact fail f

/-- A length is one unit. -/
lemma length (n : Nat) : (length n).HasUnit := by
  unfold Encoding.length
  split
  · exact ofWord _
  · exact fail _

/-- Data takes one unit for its length. -/
lemma data (bs : Bytes) : (data bs).HasUnit := by
  rw [Encoding.data, append_assoc]
  exact (length _).left _

/-- An item that takes at least one unit is written as it is. -/
lemma item_eq (h : a.HasUnit) : a.item = a := by
  cases hfault : a.fault with
  | some f => exact item_of_fault hfault
  | none =>
    have hlen := h hfault
    refine item_of_ne_nil ?_
    rintro hnil
    rw [hnil, List.length_nil] at hlen
    omega

end HasUnit

end Encoding

/-! ### Values of zero width -/

namespace Shape

/-- A value of zero width is written as nothing. -/
theorem encode_of_zeroWidth {s : Shape} (h : s.zeroWidth = true) (v : s.Val) :
    s.encode v = .nothing := by
  induction s with
  | void => rfl
  | array n s ih =>
    obtain ⟨items, rfl⟩ := v
    simp only [zeroWidth, Bool.or_eq_true, beq_iff_eq] at h
    have hitems : ∀ x ∈ items, s.encode x = .nothing := by
      intro x hx
      rcases h with hn | hs
      · rw [List.length_eq_zero_iff.mp hn] at hx
        cases hx
      · exact ih hs x
    rw [encode, List.map_congr_left hitems]
    clear h hitems
    induction items with
    | nil => rfl
    | cons x items ihitems => rwa [List.map_cons, Encoding.concat_cons, Encoding.nothing_append]
  | pair s t ihs iht | surplus s t ihs iht =>
    simp only [zeroWidth, Bool.and_eq_true] at h
    rw [encode, ihs h.1, iht h.2, Encoding.nothing_append]
  | record name s ih => exact ih h v
  | _ => cases h

/-- A value that is not of zero width takes at least four bytes when it is written completely. -/
theorem hasUnit_encode {s : Shape} (h : s.zeroWidth = false) (v : s.Val) :
    (s.encode v).HasUnit := by
  induction s with
  | void => cases h
  | word k => exact Encoding.HasUnit.ofExcept _
  | hyper k => exact Encoding.HasUnit.ofHyper _
  | huge signed => exact Encoding.HasUnit.fail _
  | any skipped => exact v.elim
  | text => exact Encoding.HasUnit.data _
  | bytes => exact Encoding.HasUnit.data v
  | option s ih =>
    cases v with
    | none => exact Encoding.HasUnit.ofWord 0
    | some x => exact (Encoding.HasUnit.ofWord 1).left _
  | seq c s ih =>
    cases c with
    | unknown => exact Encoding.HasUnit.fail _
    | known => exact (Encoding.HasUnit.length _).left _
  | map c k t ihk iht =>
    cases c with
    | unknown => exact Encoding.HasUnit.fail _
    | known => exact (Encoding.HasUnit.length _).left _
  | array n s ih =>
    obtain ⟨items, rfl⟩ := v
    simp only [zeroWidth, Bool.or_eq_false_iff, beq_eq_false_iff_ne] at h
    cases items with
    | nil => exact absurd rfl h.1
    | cons x items => exact (ih h.2 x).left _
  | pair s t ihs iht | surplus s t ihs iht =>
    simp only [zeroWidth, Bool.and_eq_false_iff] at h
    rcases h with hs | ht
    · exact (ihs hs v.1).left _
    · exact Encoding.HasUnit.right _ (iht ht v.2)
  | record name s ih => exact ih h v
  | variants name n arm ih => exact (Encoding.HasUnit.ofWord _).left _
  | union tag arm ih => exact (Encoding.HasUnit.ofExcept _).left _
  | unassigned code name => exact v.elim
  | chain => exact (Encoding.HasUnit.ofWord _).left _
  | sortedMap => exact (Encoding.HasUnit.length _).left _

end Shape

/-! ### Places -/

/-- One place in a value, in the order in which the value is written. -/
inductive Place
  /-- A scalar of one word, or the discriminant of a union. -/
  | scalar (k : Word) (v : k.Val)
  /-- A flag, the index of a variant, or a word that is not checked. -/
  | word (w : UInt32)
  /-- A scalar of two words. -/
  | hyper (h : UInt64)
  /-- The length of a string or the count of a run. -/
  | length (n : Nat)
  /-- The bytes of a string with their padding. -/
  | filled (bs : Bytes)
  /-- An integer of 128 bits. -/
  | huge (signed : Bool)
  /-- A run whose count is not known. -/
  | uncounted
  /-- An item of a counted run, of a shape whose values take no bytes. -/
  | hollow

namespace Place

/-- The fault for which a place is refused, if it is. -/
def fault : Place → Option Fault
  | scalar .even n => if n % 2 = 0 then none else some (.refused (.oddWritten n))
  | length n => Fault.ofLength? 4294967295 n
  | huge signed => some (.refused (.hugeInteger signed))
  | uncounted => some .lengthRequired
  | hollow => some (.unsupported .zeroWidthItem)
  | _ => none

/-- The bytes of a place that is not refused. -/
def bytes : Place → Bytes
  | scalar k v => (Encoding.ofExcept (k.encode v)).bytes
  | word w => wordBytes w
  | hyper h => hyperBytes h
  | length n => wordBytes (UInt32.ofNat n)
  | filled bs => bs ++ padding bs.length
  | _ => []

/-- The places of data of variable length. -/
def ofData (bs : Bytes) : List Place := [length bs.length, filled bs]

/-- The places of an item of a counted run. -/
def ofItem (zeroWidth : Bool) (ps : List Place) : List Place :=
  if zeroWidth then [hollow] else ps

/-- What is written at a place. -/
def encoding (p : Place) : Encoding :=
  match p.fault with
  | none => .ofBytes p.bytes
  | some f => .fail f

/-- What is written at places in order, up to the first that is refused. -/
def written (ps : List Place) : Encoding := .concat (ps.map encoding)

/-- What is written at a place ends with its fault. -/
lemma fault_encoding (p : Place) : p.encoding.fault = p.fault := by
  unfold encoding
  cases p.fault <;> rfl

/-- A scalar is written as its word, if there is one. -/
lemma encoding_scalar (k : Word) (v : k.Val) :
    (scalar k v).encoding = .ofExcept (k.encode v) := by
  cases k with
  | even =>
    by_cases h : v % 2 = 0
    · simp [encoding, fault, bytes, Word.encode, h, Encoding.ofExcept, Encoding.ofWord,
        Encoding.ofBytes]
    · simp [encoding, fault, Word.encode, h, Encoding.ofExcept]
  | _ => rfl

/-- A length is written as its word, if it fits one. -/
lemma encoding_length (n : Nat) : (length n).encoding = .length n := by
  unfold Encoding.length
  split
  case isTrue h =>
    have hfault : (length n).fault = none := if_neg (by omega)
    rw [encoding, hfault]
    rfl
  case isFalse h =>
    have hfault : (length n).fault = some (.lengthOverflow 4294967295 n) := if_pos (by omega)
    rw [encoding, hfault]

/-- The places that are refused are those of five kinds. -/
lemma exists_fault_iff {ps : List Place} :
    (∃ p ∈ ps, p.fault ≠ none) ↔
      (∃ signed, huge signed ∈ ps) ∨ uncounted ∈ ps ∨ (∃ n > 4294967295, length n ∈ ps) ∨
      (∃ n : UInt32, n % 2 ≠ 0 ∧ scalar .even n ∈ ps) ∨ hollow ∈ ps := by
  constructor
  · rintro ⟨p, hp, hfault⟩
    cases p with
    | huge signed => exact .inl ⟨signed, hp⟩
    | uncounted => exact .inr (.inl hp)
    | length n =>
      have hn : n > 4294967295 := by
        by_contra hn
        exact hfault (if_neg hn)
      exact .inr (.inr (.inl ⟨n, hn, hp⟩))
    | scalar k v =>
      cases k with
      | even =>
        have hodd : v % 2 ≠ 0 := fun heven => hfault (if_pos heven)
        exact .inr (.inr (.inr (.inl ⟨v, hodd, hp⟩)))
      | _ => exact absurd rfl hfault
    | hollow => exact .inr (.inr (.inr (.inr hp)))
    | word w => exact absurd rfl hfault
    | hyper h => exact absurd rfl hfault
    | filled bs => exact absurd rfl hfault
  · rintro (⟨signed, hp⟩ | hp | ⟨n, hn, hp⟩ | ⟨n, hodd, hp⟩ | hp)
    · exact ⟨_, hp, Option.some_ne_none _⟩
    · exact ⟨_, hp, Option.some_ne_none _⟩
    · have hfault : (length n).fault = some (.lengthOverflow 4294967295 n) := if_pos hn
      exact ⟨_, hp, by rw [hfault]; exact Option.some_ne_none _⟩
    · have hfault : (scalar .even n).fault = some (.refused (.oddWritten n)) := if_neg hodd
      exact ⟨_, hp, by rw [hfault]; exact Option.some_ne_none _⟩
    · exact ⟨_, hp, Option.some_ne_none _⟩

/-! ### Places in order -/

/-- The first place comes first. -/
lemma written_cons (p : Place) (ps : List Place) : written (p :: ps) = p.encoding ++ written ps :=
  rfl

/-- Only one place is written as it is. -/
lemma written_singleton (p : Place) : written [p] = p.encoding := by
  rw [written_cons]
  exact Encoding.append_nothing _

/-- Places after others are written after them. -/
lemma written_append (ps qs : List Place) : written (ps ++ qs) = written ps ++ written qs := by
  rw [written, List.map_append, Encoding.concat_append]
  rfl

/-- The places of the items of a list are written item by item. -/
lemma written_flatMap {α : Type} (xs : List α) (f : α → List Place) :
    written (xs.flatMap f) = .concat (xs.map fun x => written (f x)) := by
  induction xs with
  | nil => rfl
  | cons x xs ih => rw [List.flatMap_cons, written_append, ih, List.map_cons, Encoding.concat_cons]

/-- Data is written as its length, its bytes and padding. -/
lemma written_ofData (bs : Bytes) : written (ofData bs) = .data bs := by
  rw [ofData, written_cons, encoding_length, written_singleton, Encoding.data,
    Encoding.append_assoc]
  rfl

/-- Writing is complete exactly when no place is refused. -/
lemma fault_written_eq_none_iff {ps : List Place} :
    (written ps).fault = none ↔ ∀ p ∈ ps, p.fault = none := by
  induction ps with
  | nil => exact ⟨fun _ p hp => (List.not_mem_nil hp).elim, fun _ => rfl⟩
  | cons p ps ih =>
    rw [written_cons, Encoding.fault_append_eq_none_iff, ih, fault_encoding, List.forall_mem_cons]

/-- Where no place is refused, the bytes of all of them are written. -/
lemma written_of_complete {ps : List Place} (h : ∀ p ∈ ps, p.fault = none) :
    written ps = .ofBytes (ps.flatMap bytes) := by
  induction ps with
  | nil => rfl
  | cons p ps ih =>
    obtain ⟨hp, hps⟩ := List.forall_mem_cons.mp h
    have hhead : p.encoding = .ofBytes p.bytes := by rw [encoding, hp]
    rw [written_cons, hhead, ih hps, Encoding.ofBytes_append_ofBytes, List.flatMap_cons]

/-- Writing yields some bytes without a fault exactly when no place is refused and these are the
bytes of all places. -/
lemma written_eq_complete_iff {ps : List Place} {bs : Bytes} :
    written ps = ⟨bs, none⟩ ↔ (∀ p ∈ ps, p.fault = none) ∧ bs = ps.flatMap bytes := by
  constructor
  · intro h
    have hnone : ∀ p ∈ ps, p.fault = none := fault_written_eq_none_iff.mp (by rw [h])
    rw [written_of_complete hnone] at h
    exact ⟨hnone, (congrArg Encoding.bytes h).symm⟩
  · rintro ⟨hnone, rfl⟩
    rw [written_of_complete hnone]
    rfl

/-- The first place that is refused decides the fault, and the bytes are those of the places before
it. -/
lemma written_of_first_fault {before after : List Place} {p : Place} {f : Fault}
    (h : ∀ q ∈ before, q.fault = none) (hp : p.fault = some f) :
    written (before ++ p :: after) = ⟨before.flatMap bytes, some f⟩ := by
  have hfail : p.encoding = .fail f := by rw [encoding, hp]
  rw [written_append, written_of_complete h, written_cons, hfail, Encoding.fail_append,
    Encoding.append_of_complete rfl]
  simp [Encoding.ofBytes, Encoding.fail]

/-- If a place is refused, there is a first one. -/
lemma exists_first_fault {ps : List Place} (h : ∃ p ∈ ps, p.fault ≠ none) :
    ∃ before p after f, ps = before ++ p :: after ∧ (∀ q ∈ before, q.fault = none) ∧
      p.fault = some f := by
  obtain ⟨p, hmem, hp⟩ := h
  have hfound : (ps.find? fun q => q.fault.isSome).isSome :=
    List.find?_isSome.mpr ⟨p, hmem, Option.isSome_iff_ne_none.mpr hp⟩
  obtain ⟨q, hq⟩ := Option.isSome_iff_exists.mp hfound
  obtain ⟨hfault, before, after, hps, hbefore⟩ := List.find?_eq_some_iff_append.mp hq
  obtain ⟨f, hf⟩ := Option.isSome_iff_exists.mp hfault
  refine ⟨before, q, after, f, hps, fun a ha => ?_, hf⟩
  simpa using hbefore a ha

/-- Writing ends with a fault exactly at the first place that is refused. -/
lemma written_eq_fault_iff {ps : List Place} {bs : Bytes} {f : Fault} :
    written ps = ⟨bs, some f⟩ ↔ ∃ before p after, ps = before ++ p :: after ∧
      (∀ q ∈ before, q.fault = none) ∧ p.fault = some f ∧ bs = before.flatMap bytes := by
  constructor
  · intro h
    have hrefused : ∃ p ∈ ps, p.fault ≠ none := by
      by_contra hnone
      push Not at hnone
      have hcomplete := fault_written_eq_none_iff.mpr hnone
      rw [h] at hcomplete
      cases hcomplete
    obtain ⟨before, p, after, g, rfl, hbefore, hp⟩ := exists_first_fault hrefused
    rw [written_of_first_fault hbefore hp] at h
    obtain ⟨rfl, hfault⟩ := Encoding.mk.inj h
    exact ⟨before, p, after, rfl, hbefore, hp.trans hfault, rfl⟩
  · rintro ⟨before, p, after, rfl, hbefore, hp, rfl⟩
    exact written_of_first_fault hbefore hp

end Place

/-! ### The layout of a value -/

/-- The places of the nodes of a linked list after the first. -/
def Chain.layout : List UInt32 → List Place
  | [] => [.word 0]
  | w :: ws => .word 1 :: .word w :: layout ws

/-- The nodes of a linked list are written as they are laid out. -/
lemma Chain.nodes_eq_written (ws : List UInt32) : Chain.nodes ws = Place.written (layout ws) := by
  induction ws with
  | nil => rfl
  | cons w ws ih =>
    rw [nodes, layout, Place.written_cons, Place.written_cons, ← ih, Encoding.append_assoc]
    rfl

namespace Shape

/-- The places of a value, in the order in which they are written. -/
def layout : (s : Shape) → s.Val → List Place
  | void, _ => []
  | word k, v => [.scalar k v]
  | hyper k, v => [.hyper (k.encode v)]
  | huge signed, _ => [.huge signed]
  | text, v => Place.ofData (utf8 v)
  | bytes, v => Place.ofData v
  | option _, none => [.word 0]
  | option s, some v => .word 1 :: s.layout v
  | seq .unknown _, _ => [.uncounted]
  | seq .known s, v =>
    .length v.count :: v.items.flatMap fun x => Place.ofItem s.zeroWidth (s.layout x)
  | map .unknown _ _, _ => [.uncounted]
  | map .known k s, v =>
    .length v.count :: v.items.flatMap fun x =>
      Place.ofItem k.zeroWidth (k.layout x.1) ++ Place.ofItem s.zeroWidth (s.layout x.2)
  | array _ s, v => v.val.flatMap fun x => s.layout x
  | pair s t, (v, w) => s.layout v ++ t.layout w
  | record _ s, v => s.layout v
  | variants _ _ arm, ⟨i, v⟩ => .word (UInt32.ofNat i) :: (arm i).layout v
  | union tag arm, ⟨d, v⟩ => .scalar tag d :: (arm d).layout v
  | surplus s t, (v, w) => s.layout v ++ t.layout w
  | chain, v => .word v.head :: Chain.layout v.tail
  | sortedMap, v =>
    .length v.items.length :: v.items.flatMap fun x => .word x.1 :: Place.ofData (utf8 x.2)

/-- An item of a counted run is written as it is laid out: one of zero width is refused, and any
other is written as it is. -/
lemma item_encode {s : Shape} {v : s.Val} (h : s.encode v = Place.written (s.layout v)) :
    (s.encode v).item = Place.written (Place.ofItem s.zeroWidth (s.layout v)) := by
  cases hzero : s.zeroWidth with
  | true =>
    rw [encode_of_zeroWidth hzero]
    rfl
  | false => rw [(hasUnit_encode hzero v).item_eq, h, Place.ofItem, if_neg Bool.false_ne_true]

/-- A value is written as it is laid out. -/
theorem encode_eq_written (s : Shape) (v : s.Val) : s.encode v = Place.written (s.layout v) := by
  induction s with
  | void => rfl
  | word k => rw [layout, Place.written_singleton, Place.encoding_scalar, encode]
  | hyper k => rfl
  | huge signed => rfl
  | any skipped => exact v.elim
  | text => exact (Place.written_ofData _).symm
  | bytes => exact (Place.written_ofData v).symm
  | option s ih =>
    cases v with
    | none => rfl
    | some x =>
      rw [encode, ih x]
      rfl
  | seq c s ih =>
    cases c with
    | unknown => rfl
    | known =>
      have hitems : v.items.map (fun x => (s.encode x).item) =
          v.items.map fun x => Place.written (Place.ofItem s.zeroWidth (s.layout x)) :=
        List.map_congr_left fun x _ => item_encode (ih x)
      rw [encode_seq, hitems, layout, Place.written_cons, Place.encoding_length,
        Place.written_flatMap]
  | map c k t ihk iht =>
    cases c with
    | unknown => rfl
    | known =>
      have hitems : v.items.map (fun x => (k.encode x.1).item ++ (t.encode x.2).item) =
          v.items.map fun x => Place.written
            (Place.ofItem k.zeroWidth (k.layout x.1) ++ Place.ofItem t.zeroWidth (t.layout x.2)) :=
        List.map_congr_left fun x _ => by
          rw [Place.written_append, item_encode (ihk x.1), item_encode (iht x.2)]
      rw [encode_map, hitems, layout, Place.written_cons, Place.encoding_length,
        Place.written_flatMap]
  | array n s ih =>
    have hitems : v.val.map (fun x => s.encode x) =
        v.val.map fun x => Place.written (s.layout x) :=
      List.map_congr_left fun x _ => ih x
    rw [encode, hitems, layout, Place.written_flatMap]
  | pair s t ihs iht | surplus s t ihs iht =>
    rw [encode, layout, ihs v.1, iht v.2, Place.written_append]
  | record name s ih => exact ih v
  | variants name n arm ih =>
    rw [encode, ih v.1 v.2]
    rfl
  | union tag arm ih => rw [encode, layout, ih v.1 v.2, Place.written_cons, Place.encoding_scalar]
  | unassigned code name => exact v.elim
  | chain =>
    rw [encode, Chain.nodes_eq_written]
    rfl
  | sortedMap =>
    have hitems : v.items.map
        (fun x => (Encoding.ofWord x.1).item ++ (Encoding.data (utf8 x.2)).item) =
        v.items.map fun x => Place.written (.word x.1 :: Place.ofData (utf8 x.2)) :=
      List.map_congr_left fun x _ => by
        rw [(Encoding.HasUnit.ofWord x.1).item_eq, (Encoding.HasUnit.data (utf8 x.2)).item_eq,
          Place.written_cons, Place.written_ofData]
        rfl
    rw [encode_sortedMap, hitems, layout, Place.written_cons, Place.encoding_length,
      Place.written_flatMap]

end Shape

/-! ### The law -/

/-- Whether a value takes any bytes is decided by its shape alone: one of zero width is written as
nothing, and any other takes at least four bytes if it is written completely.

Writing a value is complete exactly when none of its places is refused, and then it yields the bytes
of all of them.  It fails exactly where the value has an integer of 128 bits, a run whose count is
not known, a length or count above the greatest word, an odd number that has to be even, or an item
of zero width in a counted run.  The first such place decides the fault, and the bytes are those of
the places before it.  A writer without a limit receives just these bytes behind what it holds, and
reports the same fault. -/
theorem encode_stops_at_first_fault (s : Shape) (v : s.Val) :
    (s.zeroWidth = true → s.encode v = .nothing) ∧
    (s.zeroWidth = false → (s.encode v).fault = none → 4 ≤ (s.encode v).bytes.length) ∧
    (∀ bs, s.encode v = ⟨bs, none⟩ ↔
      (∀ p ∈ s.layout v, p.fault = none) ∧ bs = (s.layout v).flatMap Place.bytes) ∧
    ((s.encode v).fault ≠ none ↔
      (∃ signed, .huge signed ∈ s.layout v) ∨ .uncounted ∈ s.layout v ∨
      (∃ n > 4294967295, .length n ∈ s.layout v) ∨
      (∃ n : UInt32, n % 2 ≠ 0 ∧ .scalar .even n ∈ s.layout v) ∨ .hollow ∈ s.layout v) ∧
    (∀ bs f, s.encode v = ⟨bs, some f⟩ ↔ ∃ before p after, s.layout v = before ++ p :: after ∧
      (∀ q ∈ before, q.fault = none) ∧ p.fault = some f ∧ bs = before.flatMap Place.bytes) ∧
    ∀ w : Writer, w.sink.limit = none → ∃ count,
      (s.write v).outcome w = ((s.encode v).fault,
        ⟨{ w.sink with buffer := w.sink.buffer ++ (s.encode v).bytes }, count⟩) := by
  have hlayout := s.encode_eq_written v
  have hfails : (s.encode v).fault ≠ none ↔ ∃ p ∈ s.layout v, p.fault ≠ none := by
    rw [hlayout, Ne, Place.fault_written_eq_none_iff]
    push Not
    rfl
  refine ⟨fun h => Shape.encode_of_zeroWidth h v, fun h => Shape.hasUnit_encode h v, fun bs => ?_,
    hfails.trans Place.exists_fault_iff, fun bs f => ?_, fun w => s.outcome_write_of_unlimited v⟩
  · rw [hlayout]
    exact Place.written_eq_complete_iff
  · rw [hlayout]
    exact Place.written_eq_fault_iff

/-- An array of empty structures is written as nothing.  A map to such values is refused behind its
first key, whether it stands alone or is written behind other bytes. -/
theorem encode_stops_at_first_fault_map_to_empty_values :
    let empty : Shape := .array 2 (.pair .void (.array 0 .uint32))
    let s : Shape := .map .known .text empty
    let x : empty.Val := ⟨[((), ⟨[], rfl⟩), ((), ⟨[], rfl⟩)], rfl⟩
    let v : s.Val := ⟨[("a", x), ("b", x)], none⟩
    let bs : Bytes := [0, 0, 0, 2, 0, 0, 0, 1, 97, 0, 0, 0]
    let w : Writer := ⟨{ buffer := [9] }, 1⟩
    (empty.zeroWidth = true ∧ empty.encode x = .nothing) ∧
    (Shape.zeroWidth .text = false ∧ (Shape.encode .text "").fault = none ∧
      4 ≤ (Shape.encode .text "").bytes.length) ∧
    (s.encode v = ⟨bs, some (.unsupported .zeroWidthItem)⟩ ∧ .hollow ∈ s.layout v) ∧
    w.sink.limit = none ∧ ∃ count,
      (s.write v).outcome w = ((s.encode v).fault,
        ⟨{ w.sink with buffer := w.sink.buffer ++ (s.encode v).bytes }, count⟩) := by
  intro empty s x v bs w
  obtain ⟨hnothing, -⟩ := encode_stops_at_first_fault empty x
  obtain ⟨-, hunit, -⟩ := encode_stops_at_first_fault .text ""
  obtain ⟨-, -, -, -, hfirst, hwrite⟩ := encode_stops_at_first_fault s v
  have hzero : empty.zeroWidth = true := rfl
  have hcomplete : (Shape.encode .text "").fault = none := rfl
  have hlayout : s.layout v = [.length 2, .length 1, .filled [97]] ++ .hollow ::
      [.length 1, .filled [98], .hollow] := rfl
  refine ⟨⟨hzero, hnothing hzero⟩, ⟨rfl, hcomplete, hunit rfl hcomplete⟩, ⟨?_, ?_⟩, rfl,
    hwrite w rfl⟩
  · refine (hfirst bs _).mpr ⟨_, _, _, hlayout, ?_, rfl, rfl⟩
    simp [Place.fault, Fault.ofLength?]
  · rw [hlayout]
    simp

end OncWire
