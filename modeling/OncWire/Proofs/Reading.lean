import Mathlib.Tactic.Common
import OncWire.Shape.Decode

/-!
# Runs of decoders

How a composed decoder runs, and what each elementary decoder does on every
input: when it yields a value, which fault it raises otherwise, and what it
leaves.  A composed decoder runs its parts one after another and stops at the
first fault (`bind_eq_ok_iff`, `bind_eq_error_iff`).

Shapes are read by composing a few elementary decoders, so a property of
decoders that holds of these and survives composition holds of every shape.
`Decoder.Closed` collects what has to be checked of such a property, and
`Decoder.Closed.shape` is the resulting induction over shapes.
-/

namespace OncWire

namespace Decoder

variable {α β : Type}

/-! ### Composition -/

/-- A decoder that yields a value takes nothing. -/
lemma pure_run (v : α) (b : Bytes) : (pure v : Decoder α) b = .ok v b := rfl

/-- A decoder that fails takes nothing. -/
lemma throw_run (f : Fault) (b : Bytes) : (throw f : Decoder α) b = .error f b := rfl

/-- After a value the next decoder goes on with the bytes that are left. -/
lemma bind_of_ok {d : Decoder α} {g : α → Decoder β} {b r : Bytes} {v : α} (h : d b = .ok v r) :
    (d >>= g) b = g v r := by
  simp only [bind, EStateM.bind, h]

/-- A fault ends a composed decoder where it arose. -/
lemma bind_of_error {d : Decoder α} {g : α → Decoder β} {b r : Bytes} {f : Fault}
    (h : d b = .error f r) : (d >>= g) b = .error f r := by
  simp only [bind, EStateM.bind, h]

/-- A composed decoder yields a value exactly when both of its parts do. -/
lemma bind_eq_ok_iff {d : Decoder α} {g : α → Decoder β} {b r : Bytes} {u : β} :
    (d >>= g) b = .ok u r ↔ ∃ v q, d b = .ok v q ∧ g v q = .ok u r := by
  cases h : d b with
  | ok v q => simp [bind_of_ok h]
  | error f q => simp [bind_of_error h]

/-- A composed decoder fails exactly when its first part does, or else its second. -/
lemma bind_eq_error_iff {d : Decoder α} {g : α → Decoder β} {b r : Bytes} {f : Fault} :
    (d >>= g) b = .error f r ↔
      d b = .error f r ∨ ∃ v q, d b = .ok v q ∧ g v q = .error f r := by
  cases h : d b with
  | ok v q => simp [bind_of_ok h]
  | error g q => simp [bind_of_error h]

/-- A value is handed on exactly when it is there. -/
lemma map_eq_ok_iff {d : Decoder α} {g : α → β} {b r : Bytes} {u : β} :
    (do return g (← d) : Decoder β) b = .ok u r ↔ ∃ v, d b = .ok v r ∧ g v = u := by
  rw [bind_eq_ok_iff]
  simp only [pure_run, EStateM.Result.ok.injEq]
  constructor
  · rintro ⟨v, q, hv, rfl, rfl⟩
    exact ⟨v, hv, rfl⟩
  · rintro ⟨v, hv, rfl⟩
    exact ⟨v, r, hv, rfl, rfl⟩

/-- Handing on a value changes no fault. -/
lemma map_eq_error_iff {d : Decoder α} {g : α → β} {b r : Bytes} {f : Fault} :
    (do return g (← d) : Decoder β) b = .error f r ↔ d b = .error f r := by
  rw [bind_eq_error_iff]
  simp [pure_run]

/-- Composed decoders with the same first part agree on an input where they go on alike. -/
lemma bind_run_congr {d : Decoder α} {g g' : α → Decoder β} {b : Bytes}
    (h : ∀ v q, d b = .ok v q → g v q = g' v q) : (d >>= g) b = (d >>= g') b := by
  cases hd : d b with
  | ok v q => rw [bind_of_ok hd, bind_of_ok hd, h v q hd]
  | error f q => rw [bind_of_error hd, bind_of_error hd]

/-! ### Words and hypers -/

/-- Taking `n` bytes succeeds exactly where the input has them in front. -/
lemma take_eq_ok_iff {n : Nat} {b bs r : Bytes} :
    take n b = .ok bs r ↔ bs.length = n ∧ b = bs ++ r := by
  rw [← splitAt?_eq_some_iff, take]
  cases h : splitAt? n b with
  | none => simp
  | some p => simp [Prod.ext_iff]

/-- Taking `n` bytes fails exactly where there are fewer, and then takes none. -/
lemma take_eq_error_iff {n : Nat} {b r : Bytes} {f : Fault} :
    take n b = .error f r ↔ f = .unexpectedEof ∧ r = b ∧ b.length < n := by
  rw [← splitAt?_eq_none_iff, take]
  cases h : splitAt? n b with
  | none => simp [eq_comm]
  | some p => simp

/-- A word is taken exactly where the input begins with its bytes. -/
lemma word_eq_ok_iff {b r : Bytes} {w : UInt32} : word b = .ok w r ↔ b = wordBytes w ++ r := by
  constructor
  · intro h
    obtain ⟨bs, q, hbs, hq⟩ := bind_eq_ok_iff.mp h
    obtain ⟨hlen, rfl⟩ := take_eq_ok_iff.mp hbs
    cases hq
    rw [wordBytes_wordOfBytes hlen]
  · rintro rfl
    exact word_append w r

/-- Taking a word fails exactly where there are less than four bytes. -/
lemma word_eq_error_iff {b r : Bytes} {f : Fault} :
    word b = .error f r ↔ f = .unexpectedEof ∧ r = b ∧ b.length < 4 := by
  rw [← take_eq_error_iff, word, bind_eq_error_iff]
  simp [pure_run]

/-- A hyper is taken exactly where the input begins with its bytes. -/
lemma hyper_eq_ok_iff {b r : Bytes} {h : UInt64} : hyper b = .ok h r ↔ b = hyperBytes h ++ r := by
  constructor
  · intro hrun
    obtain ⟨bs, q, hbs, hq⟩ := bind_eq_ok_iff.mp hrun
    obtain ⟨hlen, rfl⟩ := take_eq_ok_iff.mp hbs
    cases hq
    rw [hyperBytes_hyperOfBytes hlen]
  · rintro rfl
    exact hyper_append h r

/-- Taking a hyper fails exactly where there are less than eight bytes. -/
lemma hyper_eq_error_iff {b r : Bytes} {f : Fault} :
    hyper b = .error f r ↔ f = .unexpectedEof ∧ r = b ∧ b.length < 8 := by
  rw [← take_eq_error_iff, hyper, bind_eq_error_iff]
  simp [pure_run]

/-- Outcomes are passed on without taking anything. -/
lemma ofExcept_eq_ok_iff {e : Except Fault α} {b r : Bytes} {v : α} :
    ofExcept e b = .ok v r ↔ e = .ok v ∧ r = b := by
  cases e with
  | ok u => simp [ofExcept, pure_run, eq_comm]
  | error f => simp [ofExcept, throw_run]

/-! ### Lengths and counts -/

/-- What becomes of a length or count once its word is there. -/
lemma length_wordBytes_append (lim : Limits) (unit : Nat) (w : UInt32) (r : Bytes) :
    length lim unit (wordBytes w ++ r) =
      if lim.maxLength < w then .error (.lengthOverflow lim.maxLength.toNat w.toNat) r
      else if r.length < w.toNat * unit then .error (.malformedLength w r.length) r
      else .ok w.toNat r := by
  rw [length, bind_of_ok (word_append w r)]
  by_cases hmax : lim.maxLength < w
  · rw [if_pos hmax, if_pos hmax]
    rfl
  · rw [if_neg hmax, if_neg hmax]
    have hleft : remaining r = .ok r.length r := rfl
    refine (bind_of_ok hleft).trans ?_
    by_cases hrest : r.length < w.toNat * unit
    · rw [if_pos hrest, if_pos hrest]
      rfl
    · rw [if_neg hrest, if_neg hrest]
      rfl

/-- A length or count is honoured exactly when it is within the limit and the bytes that are left
can hold that many units. -/
lemma length_eq_ok_iff {lim : Limits} {unit n : Nat} {b r : Bytes} :
    length lim unit b = .ok n r ↔
      n ≤ lim.maxLength.toNat ∧ n * unit ≤ r.length ∧ b = wordBytes (UInt32.ofNat n) ++ r := by
  have hlim := lim.maxLength.toNat_lt
  constructor
  · intro h
    obtain ⟨w, q, hw, -⟩ := bind_eq_ok_iff.mp h
    obtain rfl := word_eq_ok_iff.mp hw
    rw [length_wordBytes_append] at h
    split at h
    · cases h
    · rename_i hmax
      split at h
      · cases h
      · rename_i hrest
        cases h
        rw [UInt32.lt_iff_toNat_lt] at hmax
        exact ⟨by omega, by omega, by rw [UInt32.ofNat_toNat]⟩
  · rintro ⟨hmax, hrest, rfl⟩
    have hn : (UInt32.ofNat n).toNat = n := by
      rw [UInt32.toNat_ofNat']
      omega
    rw [length_wordBytes_append, hn, if_neg (by rw [UInt32.lt_iff_toNat_lt, hn]; omega),
      if_neg (by omega)]

/-- A length or count is refused because its word is cut short, or because it is above the limit,
or because the bytes that are left cannot hold that many units. -/
lemma length_eq_error_iff {lim : Limits} {unit : Nat} {b r : Bytes} {f : Fault} :
    length lim unit b = .error f r ↔
      (f = .unexpectedEof ∧ r = b ∧ b.length < 4) ∨
      ∃ w, b = wordBytes w ++ r ∧
        (lim.maxLength < w ∧ f = .lengthOverflow lim.maxLength.toNat w.toNat ∨
          ¬ lim.maxLength < w ∧ r.length < w.toNat * unit ∧ f = .malformedLength w r.length) := by
  constructor
  · intro h
    rcases bind_eq_error_iff.mp h with hw | ⟨w, q, hw, -⟩
    · exact .inl (word_eq_error_iff.mp hw)
    · obtain rfl := word_eq_ok_iff.mp hw
      rw [length_wordBytes_append] at h
      split at h
      · cases h
        exact .inr ⟨w, rfl, .inl ⟨‹_›, rfl⟩⟩
      · split at h
        · cases h
          exact .inr ⟨w, rfl, .inr ⟨‹_›, ‹_›, rfl⟩⟩
        · cases h
  · rintro (hshort | ⟨w, rfl, ⟨hmax, rfl⟩ | ⟨hmax, hrest, rfl⟩⟩)
    · exact bind_of_error (word_eq_error_iff.mpr hshort)
    · rw [length_wordBytes_append, if_pos hmax]
    · rw [length_wordBytes_append, if_neg hmax, if_pos hrest]

/-! ### Data -/

/-- Data is taken exactly where the input holds it with its padding, which has to be zero for a
strict reader. -/
lemma padded_eq_ok_iff {lim : Limits} {n : Nat} {b bs r : Bytes} :
    padded lim n b = .ok bs r ↔
      bs.length = n ∧ ∃ pad : Bytes, pad.length = padLength n ∧ b = bs ++ (pad ++ r) ∧
        (lim.strictPadding → ∀ x ∈ pad, x = 0) := by
  unfold padded
  simp only [bind_eq_ok_iff, take_eq_ok_iff]
  constructor
  · rintro ⟨bs', q, ⟨hbs, rfl⟩, pad, q', ⟨hpad, rfl⟩, h⟩
    split at h
    · cases h
    · rename_i hstrict
      cases h
      refine ⟨hbs, pad, hpad, rfl, fun hs x hx => ?_⟩
      by_contra hne
      exact hstrict ⟨hs, x, hx, hne⟩
  · rintro ⟨hbs, pad, hpad, rfl, hstrict⟩
    refine ⟨bs, pad ++ r, ⟨hbs, rfl⟩, pad, r, ⟨hpad, rfl⟩, ?_⟩
    rw [if_neg]
    · rfl
    · rintro ⟨hs, x, hx, hne⟩
      exact hne (hstrict hs x hx)

/-- Data is refused because it or its padding is cut short, or because a strict reader finds
padding that is not zero. -/
lemma padded_eq_error_iff {lim : Limits} {n : Nat} {b r : Bytes} {f : Fault} :
    padded lim n b = .error f r ↔
      (f = .unexpectedEof ∧ r = b ∧ b.length < n) ∨
      ∃ bs : Bytes, bs.length = n ∧
        (f = .unexpectedEof ∧ b = bs ++ r ∧ r.length < padLength n ∨
          ∃ pad : Bytes, pad.length = padLength n ∧ b = bs ++ (pad ++ r) ∧
            lim.strictPadding ∧ (∃ x ∈ pad, x ≠ 0) ∧ f = .invalidPadding) := by
  unfold padded
  simp only [bind_eq_error_iff, take_eq_error_iff, take_eq_ok_iff]
  constructor
  · rintro (hshort | ⟨bs, q, ⟨hbs, rfl⟩, ⟨rfl, rfl, hshort⟩ | ⟨pad, q', ⟨hpad, rfl⟩, h⟩⟩)
    · exact .inl hshort
    · exact .inr ⟨bs, hbs, .inl ⟨rfl, rfl, hshort⟩⟩
    · split at h
      · rename_i hstrict
        cases h
        exact .inr ⟨bs, hbs, .inr ⟨pad, hpad, rfl, hstrict.1, hstrict.2, rfl⟩⟩
      · cases h
  · rintro (hshort | ⟨bs, hbs, ⟨rfl, rfl, hshort⟩ | ⟨pad, hpad, rfl, hs, hne, rfl⟩⟩)
    · exact .inl hshort
    · exact .inr ⟨bs, r, ⟨hbs, rfl⟩, .inl ⟨rfl, rfl, hshort⟩⟩
    · refine .inr ⟨bs, pad ++ r, ⟨hbs, rfl⟩, .inr ⟨pad, r, ⟨hpad, rfl⟩, ?_⟩⟩
      rw [if_pos ⟨hs, hne⟩]
      rfl

/-- A string is taken exactly where its UTF-8 form can be taken as data. -/
lemma text_eq_ok_iff {lim : Limits} {b r : Bytes} {s : String} :
    text lim b = .ok s r ↔ data lim b = .ok (utf8 s) r := by
  unfold text
  rw [bind_eq_ok_iff]
  constructor
  · rintro ⟨bs, q, hbs, h⟩
    cases ht : ofUtf8? bs with
    | some t =>
      rw [ht] at h
      cases h
      rw [hbs, utf8_of_ofUtf8? ht]
    | none =>
      rw [ht] at h
      cases h
  · intro h
    refine ⟨utf8 s, r, h, ?_⟩
    rw [ofUtf8?_utf8]
    rfl

/-! ### Repetition -/

/-- Repeating an item once more takes the item first. -/
lemma times_succ_eq_ok_iff {d : Decoder α} {n : Nat} {b r : Bytes}
    {xs : { items : List α // items.length = n + 1 }} :
    times d (n + 1) b = .ok xs r ↔
      ∃ x q ys, d b = .ok x q ∧ times d n q = .ok ys r ∧ xs.val = x :: ys.val := by
  rw [times]
  simp only [bind_eq_ok_iff]
  constructor
  · rintro ⟨x, q, hx, ys, q', hys, h⟩
    cases h
    exact ⟨x, q, ys, hx, hys, rfl⟩
  · rintro ⟨x, q, ys, hx, hys, hxs⟩
    refine ⟨x, q, hx, ys, r, hys, ?_⟩
    rw [pure_run]
    congr 1
    exact Subtype.ext hxs.symm

/-- What holds of every value that a decoder yields holds of each item of a repetition. -/
lemma forall_of_times {d : Decoder α} {p : α → Prop}
    (h : ∀ ⦃b r : Bytes⦄ ⦃x : α⦄, d b = .ok x r → p x) {n : Nat} {b r : Bytes}
    {xs : { items : List α // items.length = n }} (hrun : times d n b = .ok xs r) :
    ∀ x ∈ xs.val, p x := by
  induction n generalizing b with
  | zero =>
    cases hrun
    exact fun x hx => nomatch hx
  | succ n ih =>
    obtain ⟨x, q, ys, hx, hys, hxs⟩ := times_succ_eq_ok_iff.mp hrun
    rw [hxs]
    intro y hy
    rcases List.mem_cons.mp hy with rfl | hy
    · exact h hx
    · exact ih hys y hy

/-! ### Properties of all decoders of shapes -/

/-- A property of decoders that holds of taking a word and survives composition. -/
structure Composable (P : {α : Type} → Decoder α → Prop) : Prop where
  /-- Yielding a value has it. -/
  pure {α : Type} (v : α) : P (pure v)
  /-- Failing has it. -/
  throw {α : Type} (f : Fault) : P (throw f : Decoder α)
  /-- Composition keeps it. -/
  bind {α β : Type} {d : Decoder α} {g : α → Decoder β} : P d → (∀ v, P (g v)) → P (d >>= g)
  /-- Taking a word has it. -/
  word : P word

namespace Composable

variable {P : {α : Type} → Decoder α → Prop}

/-- Passing on an outcome has such a property. -/
lemma ofExcept (h : Composable P) (e : Except Fault α) : P (ofExcept e) := by
  cases e with
  | ok v => exact h.pure v
  | error f => exact h.throw f

/-- Repetition keeps such a property. -/
lemma times (h : Composable P) {d : Decoder α} (hd : P d) (n : Nat) : P (times d n) := by
  induction n with
  | zero => exact h.pure _
  | succ n ih => exact h.bind hd fun x => h.bind ih fun xs => h.pure _

/-- Taking the two parts of an entry keeps such a property. -/
lemma entry (h : Composable P) {d : Decoder α} {e : Decoder β} (hd : P d) (he : P e) :
    P (do let x ← d; return (x, ← e) : Decoder (α × β)) :=
  h.bind hd fun x => h.bind he fun y => h.pure (x, y)

/-- Taking the nodes of a linked list has such a property. -/
lemma decodeNodes (h : Composable P) (fuel : Nat) : P (Chain.decodeNodes fuel) := by
  induction fuel with
  | zero => exact h.throw _
  | succ fuel ih =>
    refine h.bind h.word fun w => h.bind h.word fun flag => ?_
    split
    · exact h.pure _
    · split
      · exact h.bind ih fun c => h.pure _
      · exact h.throw _

end Composable

/-- A property of decoders that holds of all the elementary ones and survives composition. -/
structure Closed (lim : Limits) (P : {α : Type} → Decoder α → Prop) : Prop
    extends Composable P where
  /-- Taking a hyper has it. -/
  hyper : P hyper
  /-- Taking a length or count has it. -/
  length (unit : Nat) : P (length lim unit)
  /-- Taking data and its padding has it. -/
  padded (n : Nat) : P (padded lim n)
  /-- Taking a linked list has it. -/
  chain : P Chain.decode

namespace Closed

variable {lim : Limits} {P : {α : Type} → Decoder α → Prop}

/-- Taking data of variable length has such a property. -/
lemma data (h : Closed lim P) : P (data lim) := h.bind (h.length 1) h.padded

/-- Taking a string has such a property. -/
lemma text (h : Closed lim P) : P (text lim) := by
  refine h.bind h.data fun bs => ?_
  split
  · exact h.pure _
  · exact h.throw _

/-- Reading a value of any shape has such a property. -/
theorem shape (h : Closed lim P) (s : Shape) : P (s.decode lim) := by
  induction s with
  | void => exact h.pure _
  | word k => exact h.bind h.word fun w => h.ofExcept _
  | hyper k => exact h.bind h.hyper fun w => h.pure _
  | huge signed => exact h.throw _
  | any skipped => exact h.throw _
  | text => exact h.text
  | bytes => exact h.data
  | option s ih =>
    refine h.bind h.word fun flag => ?_
    split
    · exact h.pure _
    · split
      · exact h.bind ih fun v => h.pure _
      · exact h.throw _
  | seq c s ih => exact h.bind (h.length 4) fun n => h.bind (h.times ih n) fun xs => h.pure _
  | map c k v ihk ihv =>
    exact h.bind (h.length 8) fun n => h.bind (h.times (h.entry ihk ihv) n) fun xs => h.pure _
  | array n s ih => exact h.times ih n
  | pair s t ihs iht => exact h.bind ihs fun v => h.bind iht fun w => h.pure _
  | record name s ih => exact ih
  | variants name n arm ih =>
    refine h.bind h.word fun index => ?_
    split
    · exact h.bind (ih _) fun v => h.pure _
    · exact h.throw _
  | union tag arm ih =>
    exact h.bind h.word fun w => h.bind (h.ofExcept _) fun d => h.bind (ih d) fun v => h.pure _
  | unassigned code name => exact h.throw _
  | surplus s t ihs iht => exact h.bind ihs fun v => h.throw _
  | chain => exact h.chain
  | sortedMap =>
    exact h.bind (h.length 8) fun n =>
      h.bind (h.times (h.entry h.word h.text) n) fun xs => h.pure _

end Closed

end Decoder

end OncWire
