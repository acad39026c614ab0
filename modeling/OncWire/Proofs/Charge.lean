import Mathlib.Algebra.BigOperators.Group.List.Basic
import Mathlib.Algebra.GroupWithZero.Nat
import OncWire.Proofs.Canonical
import OncWire.Proofs.Locality

/-!
# What bytes pay for

The counts in an input come from whoever wrote it.  Each of them is checked against
all the bytes that are left, so counts at several levels may be checked against the
same bytes, and more items may be promised than there are bytes to hold them.  But no
value holds more than its bytes pay for: each item of a run, entry of a map and node
of a linked list is charged to words of its own, and data to its own bytes.

What carries this through all levels is that a value of a shape that takes bytes
leaves one word of its own uncharged (`Shape.pays_decode`).  That word pays for the
value as an item of the run around it.
-/

namespace OncWire

/-! ### What a value holds -/

/-- How much of each kind a value holds, at all levels together. -/
structure Census where
  /-- The items of counted runs. -/
  items : Nat := 0
  /-- The entries of maps. -/
  entries : Nat := 0
  /-- The nodes of linked lists. -/
  nodes : Nat := 0
  /-- The bytes of strings and byte strings. -/
  octets : Nat := 0
  deriving DecidableEq, Repr

namespace Census

/-- Nothing is held. -/
instance : Zero Census := ⟨{}⟩

/-- What two values hold together. -/
instance : Add Census where
  add c c' := ⟨c.items + c'.items, c.entries + c'.entries, c.nodes + c'.nodes,
    c.octets + c'.octets⟩

/-- The bytes to be paid: a word for an item, two for an entry and one for a node, and data as it
is. -/
def charge (c : Census) : Nat := 4 * c.items + 8 * c.entries + 4 * c.nodes + c.octets

/-- There is no charge for nothing. -/
@[simp] lemma charge_zero : charge 0 = 0 := rfl

/-- Charges add up. -/
@[simp] lemma charge_add (c c' : Census) : (c + c').charge = c.charge + c'.charge := by
  unfold charge
  change 4 * (c.items + c'.items) + 8 * (c.entries + c'.entries) + 4 * (c.nodes + c'.nodes) +
    (c.octets + c'.octets) = _
  omega

/-- An item is charged as a word. -/
@[simp] lemma charge_items (n : Nat) : charge { items := n } = 4 * n := rfl

/-- An entry is charged as two words. -/
@[simp] lemma charge_entries (n : Nat) : charge { entries := n } = 8 * n := by
  rw [charge, Nat.mul_zero, Nat.zero_add]
  rfl

/-- A node is charged as a word. -/
@[simp] lemma charge_nodes (n : Nat) : charge { nodes := n } = 4 * n := by
  rw [charge, Nat.mul_zero, Nat.mul_zero, Nat.zero_add, Nat.add_zero]

/-- Data is charged as it is. -/
@[simp] lemma charge_octets (n : Nat) : charge { octets := n } = n := Nat.zero_add n

/-- The charge for what many values hold is the sum of their charges. -/
@[simp] lemma charge_sum {α : Type} (f : α → Census) (xs : List α) :
    (xs.map f).sum.charge = (xs.map fun x => (f x).charge).sum := by
  induction xs with
  | nil => exact charge_zero
  | cons x xs ih => rw [List.map_cons, List.sum_cons, charge_add, ih, List.map_cons, List.sum_cons]

end Census

namespace Shape

/-- What a value holds. -/
def census : (s : Shape) → s.Val → Census
  | text, v => { octets := (utf8 v).length }
  | bytes, v => { octets := v.length }
  | option _, none => 0
  | option s, some v => s.census v
  | seq _ s, v => { items := v.items.length } + (v.items.map fun x => s.census x).sum
  | map _ k s, v =>
    { entries := v.items.length } + (v.items.map fun x => k.census x.1 + s.census x.2).sum
  | array _ s, v => (v.val.map fun x => s.census x).sum
  | pair s t, v => s.census v.1 + t.census v.2
  | record _ s, v => s.census v
  | variants _ _ arm, v => (arm v.1).census v.2
  | union _ arm, v => (arm v.1).census v.2
  | surplus s t, v => s.census v.1 + t.census v.2
  | chain, v => { nodes := v.toList.length }
  | sortedMap, v =>
    { entries := v.items.length } + (v.items.map fun x => { octets := (utf8 x.2).length }).sum
  | _, _ => 0

/-- The bytes of a value that are not charged: one word, if it takes any. -/
def uncharged (s : Shape) : Nat := if s.zeroWidth then 0 else 4

/-- The least number of bytes that each unit takes, where a value begins with the number of its
units. -/
def unit? : Shape → Option Nat
  | text => some 1
  | bytes => some 1
  | seq _ _ => some 4
  | map _ _ _ => some 8
  | sortedMap => some 8
  | _ => none

end Shape

/-- A sum to which each item of a list adds the same amount. -/
lemma sum_map_add_const {α : Type} (f : α → Nat) (c : Nat) (xs : List α) :
    (xs.map fun x => f x + c).sum = (xs.map f).sum + xs.length * c := by
  rw [List.sum_map_add, List.map_const', List.sum_replicate, Nat.nsmul_eq_mul]

namespace SortedMap

variable {α : Type}

/-- An insertion adds one entry at most. -/
lemma sum_map_insertEntry_le (f : UInt32 × α → Nat) (e : UInt32 × α) (fs : List (UInt32 × α)) :
    ((insertEntry e fs).map f).sum ≤ f e + (fs.map f).sum := by
  induction fs with
  | nil => exact Nat.le_refl _
  | cons g gs ih =>
    unfold insertEntry
    split
    · exact Nat.le_refl _
    · split
      · simp only [List.map_cons, List.sum_cons]
        omega
      · simp only [List.map_cons, List.sum_cons]
        omega

/-- Entries that are put into a map one after another add what they hold at most. -/
lemma sum_map_foldl_insert_le (f : UInt32 × α → Nat) (m : SortedMap α) (es : List (UInt32 × α)) :
    ((es.foldl insert m).items.map f).sum ≤ (m.items.map f).sum + (es.map f).sum := by
  induction es generalizing m with
  | nil => exact Nat.le_refl _
  | cons e es ih =>
    have hrest := ih (m.insert e)
    have hinsert : ((m.insert e).items.map f).sum ≤ f e + (m.items.map f).sum :=
      sum_map_insertEntry_le f e m.items
    rw [List.foldl_cons, List.map_cons, List.sum_cons]
    omega

/-- A map of a list of entries holds no more than these entries do. -/
lemma sum_map_ofList_le (f : UInt32 × α → Nat) (es : List (UInt32 × α)) :
    ((ofList es).items.map f).sum ≤ (es.map f).sum := by
  have hempty := sum_map_foldl_insert_le f empty es
  rwa [empty, List.map_nil, List.sum_nil, Nat.zero_add] at hempty

end SortedMap

namespace Decoder

variable {α β : Type} {lim : Limits}

/-! ### Paying -/

/-- Whenever it yields a value, the decoder has taken at least the bytes that the value costs. -/
def Pays (cost : α → Nat) (d : Decoder α) : Prop :=
  ∀ ⦃b r : Bytes⦄ ⦃v : α⦄, d b = .ok v r → r.length + cost v ≤ b.length

namespace Pays

/-- What pays for a value pays for less. -/
lemma mono {cost cost' : α → Nat} {d : Decoder α} (h : Pays cost d) (hle : ∀ v, cost' v ≤ cost v) :
    Pays cost' d := by
  intro b r v hrun
  have hpaid := h hrun
  have hcost := hle v
  omega

/-- A decoder pays for what it takes at least, whatever the value. -/
lemma of_takes {n : Nat} {d : Decoder α} (h : Takes n d) : Pays (fun _ => n) d :=
  fun _ _ _ hrun => h hrun

/-- The two parts of an entry are paid one after the other. -/
lemma entry {d : Decoder α} {e : Decoder β} {cost : α → Nat} {cost' : β → Nat} (hd : Pays cost d)
    (he : Pays cost' e) :
    Pays (fun v => cost v.1 + cost' v.2) (do let x ← d; return (x, ← e) : Decoder (α × β)) := by
  intro b r v hrun
  obtain ⟨x, q, hx, hrest⟩ := bind_eq_ok_iff.mp hrun
  obtain ⟨y, q', hy, hpure⟩ := bind_eq_ok_iff.mp hrest
  cases hpure
  have hfirst := hd hx
  have hsecond := he hy
  change r.length + (cost x + cost' y) ≤ b.length
  omega

/-- Repeated items are paid one by one. -/
lemma times {d : Decoder α} {cost : α → Nat} (hd : Pays cost d) (n : Nat) :
    Pays (fun xs => (xs.val.map cost).sum) (times d n) := by
  intro b r xs hrun
  induction n generalizing b with
  | zero =>
    cases hrun
    exact Nat.le_refl _
  | succ n ih =>
    obtain ⟨x, q, ys, hx, hys, hxs⟩ := times_succ_eq_ok_iff.mp hrun
    have hfirst := hd hx
    have hrest : r.length + (ys.val.map cost).sum ≤ q.length := ih hys
    have hsum : (xs.val.map cost).sum = cost x + (ys.val.map cost).sum := by
      rw [hxs, List.map_cons, List.sum_cons]
    change r.length + (xs.val.map cost).sum ≤ b.length
    omega

/-- The items of a run are paid behind a word for their count. -/
lemma counted {d : Decoder α} {cost : α → Nat} {total : β → Nat} (hd : Pays cost d) (unit : Nat)
    (g : List α → β) (h : ∀ xs, total (g xs) ≤ 4 + (xs.map cost).sum) :
    Pays total (do let n ← Decoder.length lim unit; return g (← Decoder.times d n).val) := by
  intro b r u hrun
  obtain ⟨n, q, hn, hrest⟩ := bind_eq_ok_iff.mp hrun
  obtain ⟨xs, q', hxs, hpure⟩ := bind_eq_ok_iff.mp hrest
  cases hpure
  have hcount := Takes.length unit hn
  have hitems : r.length + (xs.val.map cost).sum ≤ q.length := hd.times n hxs
  have hle := h xs.val
  omega

/-- Data is paid behind a word for its length. -/
lemma data : Pays (fun bs => 4 + bs.length) (Decoder.data lim) := by
  intro b r bs hrun
  obtain ⟨n, q, hn, hbs⟩ := bind_eq_ok_iff.mp hrun
  have hlength := Takes.length 1 hn
  have hdata := Takes.padded n hbs
  obtain ⟨rfl, -⟩ := padded_eq_ok_iff.mp hbs
  change r.length + (4 + bs.length) ≤ b.length
  omega

/-- A string is paid as data. -/
lemma text : Pays (fun s => 4 + (utf8 s).length) (Decoder.text lim) :=
  fun _ _ _ hrun => data (text_eq_ok_iff.mp hrun)

end Pays

end Decoder

namespace Chain

/-! ### Linked lists -/

/-- Reading a linked list is reading a node and then a linked list, as far as there are nodes. -/
lemma decode_eq_node : Chain.decode = node Chain.decode := by
  funext b
  have hfuel : Chain.decode b = node (decodeNodes b.length) b :=
    decode_eq_decodeNodes (Nat.le_refl _)
  rw [hfuel]
  refine node_congr fun q hq => ?_
  exact decodeNodes_congr (by omega) (by omega)

/-- Whatever reads a node and then goes on by itself reads linked lists: it goes on with fewer
bytes each time, so it comes to an end, and no bound on the number of nodes has a part in it. -/
lemma run_eq_of_eq_node {d : Decoder Chain} (h : d = node d) {n : Nat} {b : Bytes}
    (hb : b.length < n) : d b = Chain.decode b := by
  induction n generalizing b with
  | zero => exact absurd hb (Nat.not_lt_zero _)
  | succ n ih =>
    have hnode : node d b = node Chain.decode b := node_congr fun q hq => ih (by omega)
    rw [decode_eq_node, ← hnode, ← h]

/-- The reader of linked lists is the only one that reads a node and then goes on by itself. -/
lemma eq_node_iff {d : Decoder Chain} : d = node d ↔ d = Chain.decode := by
  constructor
  · intro h
    exact funext fun b => run_eq_of_eq_node h (Nat.lt_succ_self b.length)
  · rintro rfl
    exact decode_eq_node

end Chain

namespace Shape

open Decoder (Pays Takes)

/-! ### Values of shapes -/

/-- A word is not charged for a value that takes bytes. -/
lemma uncharged_of_width {s : Shape} (h : s.zeroWidth = false) : s.uncharged = 4 := by
  rw [uncharged, h]
  rfl

/-- The items of an array leave as much uncharged as the array does. -/
lemma uncharged_array_le (n : Nat) (s : Shape) : (array n s).uncharged ≤ n * s.uncharged := by
  cases hwidth : (array n s).zeroWidth with
  | true =>
    rw [uncharged, hwidth]
    exact Nat.zero_le _
  | false =>
    rw [uncharged_of_width hwidth]
    simp only [zeroWidth, Bool.or_eq_false_iff, beq_eq_false_iff_ne] at hwidth
    rw [uncharged_of_width hwidth.2]
    omega

/-- The parts of a pair leave as much uncharged as the pair does. -/
lemma uncharged_pair_le (s t : Shape) : (pair s t).uncharged ≤ s.uncharged + t.uncharged := by
  cases hwidth : (pair s t).zeroWidth with
  | true =>
    rw [uncharged, hwidth]
    exact Nat.zero_le _
  | false =>
    rw [uncharged_of_width hwidth]
    rcases Bool.and_eq_false_iff.mp hwidth with hs | ht
    · rw [uncharged_of_width hs]
      omega
    · rw [uncharged_of_width ht]
      omega

/-- What is read behind a word leaves that word uncharged. -/
lemma paid_behind_word {x : UInt32} {q r : Bytes} {m n : Nat} (h : r.length + (m + n) ≤ q.length) :
    r.length + (m + 4) ≤ (wordBytes x ++ q).length := by
  rw [List.length_append, length_wordBytes]
  omega

/-- Every value that is read is paid by its bytes, with a word to spare if it takes any. -/
lemma pays_decode {s : Shape} (hs : s.ZeroWidthItemFree) (lim : Limits) :
    Pays (fun v => (s.census v).charge + s.uncharged) (s.decode lim) := by
  induction s with
  | void => exact Pays.of_takes (takes_zero _)
  | word k => exact Pays.of_takes (takes_four rfl)
  | hyper k => exact Pays.of_takes (takes_four rfl)
  | huge signed => exact Pays.of_takes (takes_four rfl)
  | any skipped => exact Pays.of_takes (takes_four rfl)
  | text =>
    refine Pays.text.mono fun v => ?_
    rw [census, Census.charge_octets, uncharged_of_width rfl]
    omega
  | bytes =>
    refine Pays.data.mono fun v => ?_
    rw [census, Census.charge_octets, uncharged_of_width rfl]
    omega
  | option s ih =>
    intro b r v hrun
    rcases decode_option_eq_ok_iff.mp hrun with ⟨rfl, rfl⟩ | ⟨x, q, rfl, rfl, hx⟩
    · exact paid_behind_word (n := 0) (Nat.le_refl _)
    · exact paid_behind_word (ih hs hx)
  | seq c s ih =>
    refine (ih hs.2).counted 4 (fun xs => (⟨xs, none⟩ : Counted s.Val)) fun xs => ?_
    have hcharge : ((seq c s).census ⟨xs, none⟩).charge =
        4 * xs.length + (xs.map fun x => (s.census x).charge).sum := by
      rw [census, Census.charge_add, Census.charge_items, Census.charge_sum]
    rw [uncharged_of_width hs.1, sum_map_add_const, hcharge, uncharged_of_width rfl]
    omega
  | map c k t ihk iht =>
    obtain ⟨hk, ht, hsk, hst⟩ := hs
    have hentry : Pays (fun x => (k.census x.1 + t.census x.2).charge + 8)
        ((pair k t).decode lim) := by
      refine ((ihk hsk).entry (iht hst)).mono fun x => ?_
      rw [uncharged_of_width hk, uncharged_of_width ht, Census.charge_add]
      omega
    refine hentry.counted 8 (fun xs => (⟨xs, none⟩ : Counted (k.Val × t.Val))) fun xs => ?_
    have hcharge : ((map c k t).census ⟨xs, none⟩).charge =
        8 * xs.length + (xs.map fun x => (k.census x.1 + t.census x.2).charge).sum := by
      rw [census, Census.charge_add, Census.charge_entries, Census.charge_sum]
    rw [sum_map_add_const, hcharge, uncharged_of_width rfl]
    omega
  | array n s ih =>
    refine ((ih hs).times n).mono fun xs => ?_
    have hwidth := uncharged_array_le n s
    rw [sum_map_add_const, xs.property, census, Census.charge_sum]
    omega
  | pair s t ihs iht =>
    refine ((ihs hs.1).entry (iht hs.2)).mono fun v => ?_
    have hwidth := uncharged_pair_le s t
    rw [census, Census.charge_add]
    omega
  | record name s ih => exact ih hs
  | variants name n arm ih =>
    intro b r v hrun
    obtain ⟨x, q, -, rfl, hv⟩ := decode_variants_eq_ok_iff.mp hrun
    exact paid_behind_word (ih v.1 (hs v.1) hv)
  | union tag arm ih =>
    intro b r v hrun
    obtain ⟨x, q, -, rfl, hv⟩ := decode_union_eq_ok_iff.mp hrun
    exact paid_behind_word (ih v.1 (hs v.1) hv)
  | unassigned code name => exact Pays.of_takes (takes_four rfl)
  | surplus s t ihs _ => exact fun _ _ _ hrun => (decode_surplus_ne_ok hrun).elim
  | chain =>
    intro b r c hrun
    obtain ⟨w, rfl, hw⟩ := Chain.append_of_decode hrun
    have hnodes : c.toList.length = c.tail.length + 1 := rfl
    change r.length + (Census.charge { nodes := c.toList.length } + 4) ≤ (w ++ r).length
    rw [Census.charge_nodes, List.length_append]
    omega
  | sortedMap =>
    have hentry : Pays (fun x : UInt32 × String => (utf8 x.2).length + 8)
        (do let key ← Decoder.word; return (key, ← Decoder.text lim)) := by
      refine ((Pays.of_takes Takes.word).entry Pays.text).mono fun x => ?_
      omega
    refine hentry.counted 8 SortedMap.ofList fun xs => ?_
    -- An entry that a later one replaces has been paid as well.
    have hkept := SortedMap.sum_map_ofList_le (fun x => (utf8 x.2).length + 8) xs
    rw [sum_map_add_const] at hkept
    rw [census, Census.charge_add, Census.charge_entries, Census.charge_sum,
      uncharged_of_width rfl]
    simp only [Census.charge_octets]
    omega

/-- A number of units that the bytes after it cannot hold is refused, and no unit is read. -/
lemma decode_of_short {s : Shape} {unit : Nat} (hunit : s.unit? = some unit) (lim : Limits)
    {n : UInt32} {rest : Bytes} (h : rest.length < n.toNat * unit) :
    s.decode lim (wordBytes n ++ rest) =
      .error (if lim.maxLength < n then .lengthOverflow lim.maxLength.toNat n.toNat
        else .malformedLength n rest.length) rest := by
  have hlength : Decoder.length lim unit (wordBytes n ++ rest) =
      .error (if lim.maxLength < n then .lengthOverflow lim.maxLength.toNat n.toNat
        else .malformedLength n rest.length) rest := by
    rw [Decoder.length_wordBytes_append, if_pos h]
    split_ifs <;> rfl
  cases s with
  | text =>
    cases hunit
    exact Decoder.bind_of_error (Decoder.bind_of_error hlength)
  | bytes =>
    cases hunit
    exact Decoder.bind_of_error hlength
  | seq c s =>
    cases hunit
    exact Decoder.bind_of_error hlength
  | map c k t =>
    cases hunit
    exact Decoder.bind_of_error hlength
  | sortedMap =>
    cases hunit
    exact Decoder.bind_of_error hlength
  | _ => cases hunit

/-- What a value holds is charged to the bytes that were taken for it. -/
lemma charge_le_of_decode {s : Shape} (hs : s.ZeroWidthItemFree) {lim : Limits} {b r : Bytes}
    {v : s.Val} (hrun : s.decode lim b = .ok v r) :
    ∃ w, b = w ++ r ∧ (s.census v).charge ≤ w.length := by
  obtain ⟨w, rfl, -⟩ := ((Decoder.Stable.closed lim).shape s).ok_append hrun
  have hpaid : r.length + ((s.census v).charge + s.uncharged) ≤ (w ++ r).length :=
    pays_decode hs lim hrun
  rw [List.length_append] at hpaid
  exact ⟨w, rfl, by omega⟩

end Shape

/-! ### The law -/

/-- Where every item of a counted run takes bytes, as in every type with a wire form, reading ends
on every input.  It ends with a fault, or with a value that holds no more than the bytes that were
taken pay for, over all its levels: four of them for each item, eight for each entry, four for each
node, and one for each byte of data.  A linked list takes eight bytes for each node, and is read
without any bound on their number.  And a length or count that the bytes after it cannot hold is
refused before any of these are taken. -/
theorem decode_ends_and_census_paid :
    (∀ (s : Shape) (lim : Limits) (b : Bytes), s.ZeroWidthItemFree →
      (∃ f w r, s.decode lim b = .error f r ∧ b = w ++ r) ∨
      ∃ v w r, s.decode lim b = .ok v r ∧ b = w ++ r ∧
        let c := s.census v
        4 * c.items + 8 * c.entries + 4 * c.nodes + c.octets ≤ w.length) ∧
    (∀ (α : Type) [Wire α] [LawfulWire α] (lim : Limits) (b : Bytes),
      (∃ f w r, (Wire.decode lim : Decoder α) b = .error f r ∧ b = w ++ r) ∨
      ∃ (a : α) (w r : Bytes), Wire.decode lim b = .ok a r ∧ b = w ++ r ∧
        let c := (Wire.shape α).census (Wire.toVal a)
        4 * c.items + 8 * c.entries + 4 * c.nodes + c.octets ≤ w.length) ∧
    (∀ (lim : Limits) (d : Decoder Chain), d = Chain.node d ↔ d = Shape.chain.decode lim) ∧
    (∀ (lim : Limits) (b r : Bytes) (c : Chain), Shape.chain.decode lim b = .ok c r →
      ∃ w, b = w ++ r ∧ w.length = 8 * c.toList.length) ∧
    ∀ (s : Shape) (unit : Nat) (lim : Limits) (n : UInt32) (rest : Bytes), s.unit? = some unit →
      rest.length < n.toNat * unit →
      s.decode lim (wordBytes n ++ rest) =
        .error (if lim.maxLength < n then .lengthOverflow lim.maxLength.toNat n.toNat
          else .malformedLength n rest.length) rest := by
  refine ⟨fun s lim b hs => ?_, fun α _ _ lim b => ?_, fun lim d => ?_,
    fun lim b r c hrun => ?_, fun s unit lim n rest hunit hshort => ?_⟩
  · cases hrun : s.decode lim b with
    | error f r =>
      obtain ⟨w, hb, -⟩ := ((Decoder.Stable.closed lim).shape s).error_append hrun
      exact .inl ⟨f, w, r, rfl, hb⟩
    | ok v r =>
      obtain ⟨w, hb, hcharge⟩ := Shape.charge_le_of_decode hs hrun
      exact .inr ⟨v, w, r, rfl, hb, hcharge⟩
  · have hfree := LawfulWire.zeroWidthItemFree (α := α)
    cases hrun : (Wire.decode lim : Decoder α) b with
    | error f r =>
      obtain ⟨w, hb, -⟩ := (stable_decode lim).error_append hrun
      exact .inl ⟨f, w, r, rfl, hb⟩
    | ok a r =>
      have hval := LawfulWire.decode_eq_ok_iff.mp hrun
      obtain ⟨w, hb, hcharge⟩ := Shape.charge_le_of_decode hfree hval
      exact .inr ⟨a, w, r, rfl, hb, hcharge⟩
  · exact Chain.eq_node_iff
  · exact Chain.append_of_decode hrun
  · exact Shape.decode_of_short hunit lim hshort

/-- A map of lists of strings is paid at each level, a linked list of two nodes takes sixteen bytes,
and a count without its entries is refused. -/
theorem decode_ends_and_census_paid_map_and_chain :
    let s : Shape := .map .known .uint32 (.seq .known .text)
    let v : s.Val := ⟨[(7, ⟨["ab", "c"], none⟩)], none⟩
    let b : Bytes := [0, 0, 0, 1, 0, 0, 0, 7, 0, 0, 0, 2, 0, 0, 0, 2, 97, 98, 0, 0,
      0, 0, 0, 1, 99, 0, 0, 0, 9]
    let c : Bytes := [0, 0, 0, 5, 0, 0, 0, 1, 0, 0, 0, 6, 0, 0, 0, 0, 9]
    let rest : Bytes := [0, 0, 0, 7]
    (s.ZeroWidthItemFree ∧ s.decode .none b = .ok v [9] ∧ s.census v = ⟨2, 1, 0, 3⟩ ∧
      ∃ w, b = w ++ [9] ∧ 4 * 2 + 8 * 1 + 4 * 0 + 3 ≤ w.length) ∧
    (Shape.chain.decode .none c = .ok ⟨5, [6]⟩ [9] ∧ ∃ w, c = w ++ [9] ∧ w.length = 8 * 2) ∧
    s.unit? = some 8 ∧ rest.length < UInt32.toNat 255 * 8 ∧
      s.decode .none (wordBytes 255 ++ rest) = .error (.malformedLength 255 4) rest := by
  intro s v b c rest
  have hs : s.ZeroWidthItemFree := ⟨rfl, rfl, trivial, rfl, trivial⟩
  have hv : s.decode .none b = .ok v [9] := by decide +kernel
  have hcensus : s.census v = ⟨2, 1, 0, 3⟩ := by decide +kernel
  have hc : Shape.chain.decode .none c = .ok ⟨5, [6]⟩ [9] := by decide +kernel
  have hshort : rest.length < UInt32.toNat 255 * 8 := by decide
  obtain ⟨hpaid, -, -, hchain, hforged⟩ := decode_ends_and_census_paid
  have hcharge : ∃ w, b = w ++ [9] ∧ 4 * 2 + 8 * 1 + 4 * 0 + 3 ≤ w.length := by
    rcases hpaid s .none b hs with ⟨f, w, r, hrun, -⟩ | ⟨u, w, r, hrun, hb, hle⟩
    · rw [hv] at hrun
      cases hrun
    · rw [hv] at hrun
      cases hrun
      rw [hcensus] at hle
      exact ⟨w, hb, hle⟩
  exact ⟨⟨hs, hv, hcensus, hcharge⟩, ⟨hc, hchain .none c [9] ⟨5, [6]⟩ hc⟩, rfl, hshort,
    hforged s 8 .none 255 rest rfl hshort⟩

end OncWire
