import Mathlib.Tactic.Common
import OncWire.Proofs.Layout
import OncWire.Proofs.Locality
import OncWire.Proofs.RoundTrip

/-!
# Counts that are not the number of items

A writer writes the count that is declared for a run and does not compare it with the
items.  A reader goes by the count.  If it is too small, the items behind it are left;
if it is too great, either the check of the count or the first missing item fails, and
in no case are the items of the run passed off as all that was declared
(`decode_declared_count`).

Which of the two faults is raised depends on how long the items are.  The check asks
for a fixed number of bytes for each item, so it lets a count pass that the items are
long enough for; the reader then takes all of them and finds the end of the input
where the next one should begin (`Shape.decode_nil`).
-/

namespace OncWire

/-- The bytes of some items, one after another. -/
def itemBytes {α : Type} (enc : α → Encoding) (xs : List α) : Bytes :=
  xs.flatMap fun x => (enc x).bytes

/-- Complete items are written one after another. -/
lemma Encoding.concat_map_of_complete {α : Type} {enc : α → Encoding} {xs : List α}
    (h : ∀ x ∈ xs, (enc x).fault = none) : concat (xs.map enc) = ⟨itemBytes enc xs, none⟩ := by
  induction xs with
  | nil => rfl
  | cons x xs ih =>
    rw [List.map_cons, concat_cons, append_of_complete (h x List.mem_cons_self),
      ih fun y hy => h y (List.mem_cons_of_mem _ hy)]
    rfl

/-! ### Repetition with a wrong count -/

namespace Decoder

variable {α β : Type} {lim : Limits} {unit n : Nat} {d : Decoder α} {enc : α → Encoding}
  {xs : List α}

/-- The decoder reads each of some items from its own form, which is complete and takes at least
`unit` bytes, and where nothing is left it misses an item. -/
structure ReadsItems (d : Decoder α) (enc : α → Encoding) (unit : Nat) (xs : List α) : Prop where
  /-- Each item is written completely. -/
  complete (x : α) (hx : x ∈ xs) : (enc x).fault = none
  /-- Each item takes at least `unit` bytes. -/
  long (x : α) (hx : x ∈ xs) : unit ≤ (enc x).bytes.length
  /-- Each item is read from its own form. -/
  read (x : α) (hx : x ∈ xs) : Reads d (enc x) x
  /-- Where nothing is left an item is missed, if there are any. -/
  missing (hne : xs ≠ []) : d [] = .error .unexpectedEof []

namespace ReadsItems

/-- What is read of all items is read of those after the first. -/
lemma tail {x : α} (h : ReadsItems d enc unit (x :: xs)) : ReadsItems d enc unit xs where
  complete y hy := h.complete y (List.mem_cons_of_mem _ hy)
  long y hy := h.long y (List.mem_cons_of_mem _ hy)
  read y hy := h.read y (List.mem_cons_of_mem _ hy)
  missing _ := h.missing (List.cons_ne_nil x xs)

/-- The items take at least `unit` bytes each. -/
lemma mul_length_le (h : ReadsItems d enc unit xs) :
    unit * xs.length ≤ (itemBytes enc xs).length := by
  have hunit : ∀ e ∈ xs.map enc, e.fault = none → unit ≤ e.bytes.length := by
    intro e he _
    obtain ⟨x, hx, rfl⟩ := List.mem_map.mp he
    exact h.long x hx
  have hconcat := Encoding.concat_map_of_complete h.complete
  have hlen := Encoding.mul_length_le_concat hunit (by rw [hconcat])
  rwa [hconcat, List.length_map, Nat.mul_comm] at hlen

/-- A repetition that asks for no more items than there are leaves the others. -/
lemma times_of_le (h : ReadsItems d enc unit xs) (hn : n ≤ xs.length) :
    times d n (itemBytes enc xs) =
      .ok ⟨xs.take n, List.length_take_of_le hn⟩ (itemBytes enc (xs.drop n)) := by
  have hfront : ∀ x ∈ xs.take n, x ∈ xs := fun x hx => List.mem_of_mem_take hx
  have hread : Reads (times d n) (.concat ((xs.take n).map enc))
      ⟨xs.take n, List.length_take_of_le hn⟩ :=
    Reads.times ⟨xs.take n, List.length_take_of_le hn⟩ fun x hx => h.read x (hfront x hx)
  rw [Encoding.concat_map_of_complete fun x hx => h.complete x (hfront x hx)] at hread
  have hrun := hread rfl (itemBytes enc (xs.drop n))
  have hsplit : itemBytes enc (xs.take n) ++ itemBytes enc (xs.drop n) = itemBytes enc xs := by
    rw [itemBytes, itemBytes, ← List.flatMap_append, List.take_append_drop, itemBytes]
  rwa [hsplit] at hrun

/-- A repetition that asks for more items than there are comes to the end of the input. -/
lemma times_of_lt (h : ReadsItems d enc unit xs) (hne : d [] = .error .unexpectedEof [])
    (hn : xs.length < n) : times d n (itemBytes enc xs) = .error .unexpectedEof [] := by
  induction xs generalizing n with
  | nil =>
    obtain ⟨n, rfl⟩ : ∃ k, n = k + 1 := ⟨n - 1, by rw [List.length_nil] at hn; omega⟩
    exact bind_of_error hne
  | cons x xs ih =>
    rw [List.length_cons] at hn
    obtain ⟨n, rfl⟩ : ∃ k, n = k + 1 := ⟨n - 1, by omega⟩
    have hx := h.read x List.mem_cons_self (h.complete x List.mem_cons_self) (itemBytes enc xs)
    have hcons : itemBytes enc (x :: xs) = (enc x).bytes ++ itemBytes enc xs := rfl
    rw [hcons, times, bind_of_ok hx]
    exact bind_of_error (ih h.tail (by omega))

/-- What becomes of a run whose count need not be the number of its items. -/
lemma counted (h : ReadsItems d enc unit xs) (hunit : 0 < unit) (hlim : n ≤ lim.maxLength.toNat)
    (g : List α → β) :
    (do let n ← length lim unit; return g (← times d n).val : Decoder β)
        (wordBytes (UInt32.ofNat n) ++ itemBytes enc xs) =
      if n ≤ xs.length then .ok (g (xs.take n)) (itemBytes enc (xs.drop n))
      else if (itemBytes enc xs).length < unit * n then
        .error (.malformedLength (UInt32.ofNat n) (itemBytes enc xs).length) (itemBytes enc xs)
      else .error .unexpectedEof [] := by
  have hmax := lim.maxLength.toNat_lt
  have hword : (UInt32.ofNat n).toNat = n := by
    rw [UInt32.toNat_ofNat']
    omega
  have hallowed : ¬ lim.maxLength < UInt32.ofNat n := by
    rw [UInt32.lt_iff_toNat_lt, hword]
    omega
  have hcount := length_wordBytes_append lim unit (UInt32.ofNat n) (itemBytes enc xs)
  rw [if_neg hallowed, hword, Nat.mul_comm] at hcount
  have hlen := h.mul_length_le
  by_cases hn : n ≤ xs.length
  · have hroom : unit * n ≤ unit * xs.length := Nat.mul_le_mul_left unit hn
    rw [if_neg (by omega)] at hcount
    rw [if_pos hn, bind_of_ok hcount, bind_of_ok (h.times_of_le hn)]
    rfl
  · rw [if_neg hn]
    by_cases hroom : (itemBytes enc xs).length < unit * n
    · rw [if_pos hroom] at hcount ⊢
      exact bind_of_error hcount
    · rw [if_neg hroom] at hcount ⊢
      -- A count above zero asks for some bytes, and only items can have provided them.
      have hne : xs ≠ [] := by
        rintro rfl
        have hpos : 0 < unit * n := Nat.mul_pos hunit (by omega)
        exact hroom hpos
      rw [bind_of_ok hcount]
      exact bind_of_error (h.times_of_lt (h.missing hne) (by omega))

end ReadsItems

end Decoder

/-! ### Where nothing is left -/

namespace Shape

variable {s k : Shape} {lim : Limits} {b r : Bytes}

/-- What is read of a value of zero width anywhere is read of it where nothing is left. -/
lemma decode_nil_of_zeroWidth {v : s.Val} (h : s.zeroWidth = true)
    (hrun : s.decode lim b = .ok v r) : s.decode lim [] = .ok v [] := by
  induction s generalizing b r with
  | void => rfl
  | array n s ih =>
    simp only [zeroWidth, Bool.or_eq_true, beq_iff_eq] at h
    rcases h with rfl | hs
    · cases hrun
      rfl
    · change Decoder.times (s.decode lim) n b = .ok v r at hrun
      change Decoder.times (s.decode lim) n [] = .ok v []
      induction n generalizing b with
      | zero =>
        cases hrun
        rfl
      | succ n ihn =>
        obtain ⟨x, q, ys, hx, hys, hxs⟩ := Decoder.times_succ_eq_ok_iff.mp hrun
        exact Decoder.times_succ_eq_ok_iff.mpr ⟨x, [], ys, ih hs hx, ihn hys, hxs⟩
  | pair s t ihs iht =>
    simp only [zeroWidth, Bool.and_eq_true] at h
    obtain ⟨q, hx, hy⟩ := decode_pair_eq_ok_iff.mp hrun
    exact decode_pair_eq_ok_iff.mpr ⟨[], ihs h.1 hx, iht h.2 hy⟩
  | record name s ih => exact ih h hrun
  | surplus s t _ _ => exact (decode_surplus_ne_ok hrun).elim
  | _ => cases h

/-- Where a value that takes bytes can be read at all, it is missed where nothing is left. -/
lemma decode_nil {v : s.Val} (h : s.zeroWidth = false) (hrun : s.decode lim b = .ok v r) :
    s.decode lim [] = .error .unexpectedEof [] := by
  have hword : Decoder.word [] = .error .unexpectedEof [] := rfl
  induction s generalizing b r with
  | void => cases h
  | word _ | option _ _ | variants _ _ _ _ | union _ _ _ => exact Decoder.bind_of_error hword
  | hyper k => rfl
  | huge signed | unassigned _ _ => cases hrun
  | any skipped => exact v.elim
  | text | bytes | seq _ _ _ | map _ _ _ _ _ | chain | sortedMap => rfl
  | array n s ih =>
    simp only [zeroWidth, Bool.or_eq_false_iff, beq_eq_false_iff_ne] at h
    obtain ⟨n, rfl⟩ : ∃ k, n = k + 1 := ⟨n - 1, by omega⟩
    obtain ⟨x, q, ys, hx, -, -⟩ := Decoder.times_succ_eq_ok_iff.mp hrun
    exact Decoder.bind_of_error (ih h.2 hx)
  | pair s t ihs iht =>
    obtain ⟨q, hx, hy⟩ := decode_pair_eq_ok_iff.mp hrun
    cases hs : s.zeroWidth with
    | false => exact Decoder.bind_of_error (ihs hs hx)
    | true =>
      have ht : t.zeroWidth = false := by rwa [zeroWidth, hs, Bool.true_and] at h
      refine (Decoder.bind_of_ok (decode_nil_of_zeroWidth hs hx)).trans ?_
      exact Decoder.bind_of_error (iht ht hy)
  | record name s ih => exact ih h hrun
  | surplus s t _ _ => exact (decode_surplus_ne_ok hrun).elim

/-! ### Items that are read back -/

/-- The value is written completely, and read back from its form. -/
def RoundTrips (s : Shape) (lim : Limits) (v : s.Val) : Prop :=
  (s.encode v).fault = none ∧ s.decode lim (s.encode v).bytes = .ok v []

/-- What is read back from its form alone is read back in front of other bytes. -/
lemma RoundTrips.reads {v : s.Val} (h : s.RoundTrips lim v) :
    Decoder.Reads (s.decode lim) (s.encode v) v := by
  intro _ rest
  obtain ⟨-, -, hmore⟩ := ((Decoder.Stable.closed lim).shape s).ok_append h.2
  exact hmore rest

/-- The items of a list that are read back can be counted in units of four bytes. -/
lemma readsItems_list {xs : List s.Val} (hs : s.zeroWidth = false)
    (h : ∀ x ∈ xs, s.RoundTrips lim x) :
    Decoder.ReadsItems (s.decode lim) s.encode 4 xs where
  complete x hx := (h x hx).1
  long x hx := hasUnit_encode hs x (h x hx).1
  read x hx := (h x hx).reads
  missing hne := by
    obtain ⟨x, hx⟩ := List.exists_mem_of_ne_nil xs hne
    exact decode_nil hs (h x hx).2

/-- The entries of a map whose keys and values are read back can be counted in units of eight
bytes. -/
lemma readsItems_map {xs : List (k.Val × s.Val)} (hk : k.zeroWidth = false)
    (hs : s.zeroWidth = false) (h : ∀ x ∈ xs, k.RoundTrips lim x.1 ∧ s.RoundTrips lim x.2) :
    Decoder.ReadsItems ((pair k s).decode lim) (pair k s).encode 8 xs where
  complete x hx := Encoding.fault_append_eq_none_iff.mpr ⟨(h x hx).1.1, (h x hx).2.1⟩
  long x hx := by
    obtain ⟨hkey, hvalue⟩ := h x hx
    have hlenkey := hasUnit_encode hk x.1 hkey.1
    have hlenvalue := hasUnit_encode hs x.2 hvalue.1
    rw [encode, Encoding.append_of_complete hkey.1, List.length_append]
    omega
  read x hx := Decoder.Reads.entry (h x hx).1.reads (h x hx).2.reads
  missing hne := by
    obtain ⟨x, hx⟩ := List.exists_mem_of_ne_nil xs hne
    exact Decoder.bind_of_error (decode_nil hk (h x hx).1.2)

end Shape

/-! ### The law -/

/-- A declared count that is not the number of items never makes a reader take the items for the
whole run.

Items that are read back and take bytes are written behind any count that fits a word, whatever
their number.  A reader whose limit admits the count takes as many items and leaves the others if
there are that many.  Otherwise it refuses the count if the bytes of all the items cannot hold that
many of at least four bytes, and else it takes them all and finds the end of the input.  So it is
with the entries of a map, in units of eight bytes. -/
theorem decode_declared_count :
    (∀ (s : Shape) (lim : Limits) (xs : List s.Val) (n : Nat), s.zeroWidth = false →
      n ≤ lim.maxLength.toNat → (∀ x ∈ xs, s.RoundTrips lim x) →
      let items := itemBytes s.encode
      let w := wordBytes (UInt32.ofNat n) ++ items xs
      (Shape.seq .known s).encode ⟨xs, some n⟩ = ⟨w, none⟩ ∧
      (Shape.seq .known s).decode lim w =
        if n ≤ xs.length then .ok ⟨xs.take n, none⟩ (items (xs.drop n))
        else if (items xs).length < 4 * n then
          .error (.malformedLength (UInt32.ofNat n) (items xs).length) (items xs)
        else .error .unexpectedEof []) ∧
    ∀ (k s : Shape) (lim : Limits) (xs : List (k.Val × s.Val)) (n : Nat), k.zeroWidth = false →
      s.zeroWidth = false → n ≤ lim.maxLength.toNat →
      (∀ x ∈ xs, k.RoundTrips lim x.1 ∧ s.RoundTrips lim x.2) →
      let entries := itemBytes fun x : k.Val × s.Val => k.encode x.1 ++ s.encode x.2
      let w := wordBytes (UInt32.ofNat n) ++ entries xs
      (Shape.map .known k s).encode ⟨xs, some n⟩ = ⟨w, none⟩ ∧
      (Shape.map .known k s).decode lim w =
        if n ≤ xs.length then .ok ⟨xs.take n, none⟩ (entries (xs.drop n))
        else if (entries xs).length < 8 * n then
          .error (.malformedLength (UInt32.ofNat n) (entries xs).length) (entries xs)
        else .error .unexpectedEof [] := by
  have hcount : ∀ (lim : Limits) (n : Nat), n ≤ lim.maxLength.toNat →
      Encoding.length n = .ofWord (UInt32.ofNat n) := fun lim n hlim => by
    have hmax := lim.maxLength.toNat_lt
    exact if_pos (by omega)
  constructor
  · intro s lim xs n hs hlim h items w
    have hitems := Shape.readsItems_list hs h
    refine ⟨?_, hitems.counted (by decide) hlim fun xs => (⟨xs, none⟩ : Counted s.Val)⟩
    have hbare : xs.map (fun x => (s.encode x).item) = xs.map s.encode :=
      List.map_congr_left fun x _ => (Shape.hasUnit_encode hs x).item_eq
    rw [Shape.encode_seq, hbare, Encoding.concat_map_of_complete hitems.complete]
    exact congrArg (· ++ _) (hcount lim n hlim)
  · intro k s lim xs n hk hs hlim h entries w
    have hentries := Shape.readsItems_map hk hs h
    refine ⟨?_, hentries.counted (by decide) hlim
      fun xs => (⟨xs, none⟩ : Counted (k.Val × s.Val))⟩
    have hbare : xs.map (fun x => (k.encode x.1).item ++ (s.encode x.2).item) =
        xs.map (Shape.pair k s).encode :=
      List.map_congr_left fun x _ => by
        rw [(Shape.hasUnit_encode hk x.1).item_eq, (Shape.hasUnit_encode hs x.2).item_eq,
          Shape.encode]
    rw [Shape.encode_map, hbare, Encoding.concat_map_of_complete hentries.complete]
    exact congrArg (· ++ _) (hcount lim n hlim)

/-- Of two strings in twenty bytes one is read where one is declared.  Four leave room for the check
and end with the input; six are refused at once.  One entry in twelve bytes is refused where two are
declared. -/
theorem decode_declared_count_texts_and_entry :
    let s : Shape := .text
    let xs : List s.Val := ["ab", "cdefg"]
    let list : Shape := .seq .known s
    let map : Shape := .map .known .uint32 s
    let texts : Bytes := [0, 0, 0, 2, 97, 98, 0, 0, 0, 0, 0, 5, 99, 100, 101, 102, 103, 0, 0, 0]
    let entry : Bytes := [0, 0, 0, 7, 0, 0, 0, 1, 97, 0, 0, 0]
    (s.zeroWidth = false ∧ ∀ x ∈ xs, s.RoundTrips .none x) ∧
    list.encode ⟨xs, some 1⟩ = ⟨[0, 0, 0, 1] ++ texts, none⟩ ∧
    list.decode .none ([0, 0, 0, 1] ++ texts) = .ok ⟨["ab"], none⟩ (texts.drop 8) ∧
    list.decode .none ([0, 0, 0, 4] ++ texts) = .error .unexpectedEof [] ∧
    list.decode .none ([0, 0, 0, 6] ++ texts) = .error (.malformedLength 6 20) texts ∧
    (Shape.uint32.RoundTrips .none 7 ∧ s.RoundTrips .none "a") ∧
    map.encode ⟨[(7, "a")], some 2⟩ = ⟨[0, 0, 0, 2] ++ entry, none⟩ ∧
    map.decode .none ([0, 0, 0, 2] ++ entry) = .error (.malformedLength 2 12) entry := by
  intro s xs list map texts entry
  have hxs : ∀ x ∈ xs, s.RoundTrips .none x := by
    unfold Shape.RoundTrips
    decide +kernel
  have hentry : Shape.uint32.RoundTrips .none 7 ∧ s.RoundTrips .none "a" := by
    unfold Shape.RoundTrips
    decide +kernel
  have hlist := fun n hn => decode_declared_count.1 s .none xs n rfl hn hxs
  obtain ⟨hone, hfirst⟩ := hlist 1 (by decide)
  obtain ⟨-, hfour⟩ := hlist 4 (by decide)
  obtain ⟨-, hsix⟩ := hlist 6 (by decide)
  have htexts : itemBytes s.encode xs = texts := by decide +kernel
  rw [htexts] at hone hfirst hfour hsix
  obtain ⟨htwo, hshort⟩ := decode_declared_count.2 .uint32 s .none [(7, "a")] 2 rfl rfl (by decide)
    (List.forall_mem_singleton.mpr hentry)
  have hbytes : itemBytes (fun x : UInt32 × String => Shape.uint32.encode x.1 ++ s.encode x.2)
      [(7, "a")] = entry := by decide +kernel
  rw [hbytes] at htwo hshort
  exact ⟨⟨rfl, hxs⟩, hone, hfirst, hfour, hsix, hentry, htwo, hshort⟩

end OncWire
