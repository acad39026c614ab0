import Mathlib.Tactic.Common
import OncWire.Proofs.Charge
import OncWire.Proofs.Sessions

/-!
# Whole units of four bytes

Everything on the wire fills whole units of four bytes.  A writer without a limit
receives whole units for every value, after a fault as well
(`Shape.whole_encode`).  A reader takes whole units in every step, whether the
step yields a value or refuses one; only where the input runs out it may stop
inside a unit, and then less is left than the word, the hyper or the padding that
it asked for (`Decoder.TakesUnits`).

The bound on what is left comes from the check of lengths.  A length that passes it
has its data in the input, so data is never cut short, and what runs out after it is
the padding (`Decoder.TakesUnits.padded`).  Both halves are collected in
`written_and_read_in_units`.
-/

namespace OncWire

/-- No complaint is taken for the end of the input. -/
@[simp] lemma Fault.ofComplaint_ne_unexpectedEof (why : Complaint) :
    ofComplaint why ≠ .unexpectedEof := by
  rcases ofComplaint_eq_refused_or why with h | ⟨code, name, h⟩ <;> simp [h]

/-- A word that stands for no value is not taken for the end of the input. -/
lemma Word.decode_ne_unexpectedEof (k : Word) (w : UInt32) :
    k.decode w ≠ .error .unexpectedEof := by
  intro h
  cases k with
  | bool | char =>
    simp only [decode] at h
    repeat' split at h
    all_goals cases h
  | narrow k =>
    simp only [decode] at h
    split at h
    all_goals cases h
  | int32 | float32 => cases h
  | uint32 | enumeration e | even | nonzero =>
    simp only [decode] at h
    generalize ofWord _ w = v at h
    cases v with
    | ok v => cases h
    | error why => exact Fault.ofComplaint_ne_unexpectedEof why (Except.error.inj h)

/-- A hyper occurs in a shape. -/
def Shape.HasHyper : Shape → Prop
  | hyper _ => True
  | option s => s.HasHyper
  | seq _ s => s.HasHyper
  | map _ k v => k.HasHyper ∨ v.HasHyper
  | array _ s => s.HasHyper
  | pair s t => s.HasHyper ∨ t.HasHyper
  | record _ s => s.HasHyper
  | variants _ _ arm => ∃ i, (arm i).HasHyper
  | union _ arm => ∃ d, (arm d).HasHyper
  | surplus s t => s.HasHyper ∨ t.HasHyper
  | _ => False

/-! ### What one decoder takes -/

namespace Decoder

variable {α β : Type} {lim : Limits} {n : Nat}

/-- On the given input the decoder takes whole units of four bytes unless the input runs out, and
where it runs out fewer than `n` bytes are left. -/
structure TakesUnits (n : Nat) (d : Decoder α) (b : Bytes) : Prop where
  /-- A value is taken off the front of the input in whole units. -/
  ok_append ⦃r : Bytes⦄ ⦃v : α⦄ : d b = .ok v r → ∃ w, b = w ++ r ∧ 4 ∣ w.length
  /-- A fault is raised behind whole units, or else less than `n` bytes before the end. -/
  error_append ⦃r : Bytes⦄ ⦃f : Fault⦄ : d b = .error f r → ∃ w, b = w ++ r ∧
    (f ≠ .unexpectedEof → 4 ∣ w.length) ∧ (f = .unexpectedEof → r.length < n)

namespace TakesUnits

/-- Yielding a value takes nothing. -/
lemma pure (v : α) (b : Bytes) : TakesUnits n (pure v : Decoder α) b where
  ok_append r u h := by
    cases h
    exact ⟨[], rfl, Nat.dvd_zero 4⟩
  error_append r f h := by cases h

/-- Failing takes nothing, and does not say that the input ran out. -/
lemma throw {f : Fault} (hf : f ≠ .unexpectedEof) (b : Bytes) :
    TakesUnits n (throw f : Decoder α) b where
  ok_append r v h := by cases h
  error_append r g h := by
    cases h
    exact ⟨[], rfl, fun _ => Nat.dvd_zero 4, fun heof => absurd heof hf⟩

/-- Whole units after whole units are whole units. -/
lemma bind {d : Decoder α} {g : α → Decoder β} {b : Bytes} (hd : TakesUnits n d b)
    (hg : ∀ v q, d b = .ok v q → TakesUnits n (g v) q) : TakesUnits n (d >>= g) b where
  ok_append r u h := by
    obtain ⟨v, q, hv, hu⟩ := bind_eq_ok_iff.mp h
    obtain ⟨w, hb, hw⟩ := hd.ok_append hv
    obtain ⟨w', hq, hw'⟩ := (hg v q hv).ok_append hu
    refine ⟨w ++ w', by rw [hb, hq, List.append_assoc], ?_⟩
    rw [List.length_append]
    exact Nat.dvd_add hw hw'
  error_append r f h := by
    rcases bind_eq_error_iff.mp h with hf | ⟨v, q, hv, hf⟩
    · exact hd.error_append hf
    · obtain ⟨w, hb, hw⟩ := hd.ok_append hv
      obtain ⟨w', hq, hw', heof⟩ := (hg v q hv).error_append hf
      refine ⟨w ++ w', by rw [hb, hq, List.append_assoc], fun hne => ?_, heof⟩
      rw [List.length_append]
      exact Nat.dvd_add hw (hw' hne)

/-- Handing on a value takes nothing more. -/
lemma map {d : Decoder α} {b : Bytes} (hd : TakesUnits n d b) (g : α → β) :
    TakesUnits n (do return g (← d)) b :=
  hd.bind fun v q _ => pure (g v) q

/-- Passing on an outcome takes nothing. -/
lemma ofExcept {x : Except Fault α} (h : x ≠ .error .unexpectedEof) (b : Bytes) :
    TakesUnits n (ofExcept x) b := by
  cases x with
  | ok v => exact pure v b
  | error f => exact throw (fun hf => h (by rw [hf])) b

/-- A word is a whole unit. -/
lemma word (hn : 4 ≤ n) (b : Bytes) : TakesUnits n word b where
  ok_append r w h := by
    obtain rfl := word_eq_ok_iff.mp h
    exact ⟨wordBytes w, rfl, 1, length_wordBytes w⟩
  error_append r f h := by
    obtain ⟨rfl, rfl, hlen⟩ := word_eq_error_iff.mp h
    exact ⟨[], rfl, fun _ => Nat.dvd_zero 4, fun _ => Nat.lt_of_lt_of_le hlen hn⟩

/-- A hyper is two whole units. -/
lemma hyper (hn : 8 ≤ n) (b : Bytes) : TakesUnits n hyper b where
  ok_append r h hrun := by
    obtain rfl := hyper_eq_ok_iff.mp hrun
    exact ⟨hyperBytes h, rfl, 2, length_hyperBytes h⟩
  error_append r f h := by
    obtain ⟨rfl, rfl, hlen⟩ := hyper_eq_error_iff.mp h
    exact ⟨[], rfl, fun _ => Nat.dvd_zero 4, fun _ => Nat.lt_of_lt_of_le hlen hn⟩

/-- A length or count is a whole unit, also one that is refused. -/
lemma length (hn : 4 ≤ n) (unit : Nat) (b : Bytes) : TakesUnits n (length lim unit) b where
  ok_append r m h := by
    obtain ⟨-, -, rfl⟩ := length_eq_ok_iff.mp h
    exact ⟨wordBytes (UInt32.ofNat m), rfl, 1, length_wordBytes _⟩
  error_append r f h := by
    rcases length_eq_error_iff.mp h with ⟨rfl, rfl, hlen⟩ | ⟨w, rfl, hrefused⟩
    · exact ⟨[], rfl, fun _ => Nat.dvd_zero 4, fun _ => Nat.lt_of_lt_of_le hlen hn⟩
    · refine ⟨wordBytes w, rfl, fun _ => ⟨1, length_wordBytes w⟩, ?_⟩
      rintro rfl
      rcases hrefused with ⟨-, hf⟩ | ⟨-, -, hf⟩
      · cases hf
      · cases hf

/-- Data that the input holds is taken with its padding in whole units, and nothing but the padding
can run out. -/
lemma padded (hn : 4 ≤ n) {m : Nat} {b : Bytes} (hm : m ≤ b.length) :
    TakesUnits n (padded lim m) b := by
  have hunits (bs pad : Bytes) (hbs : bs.length = m) (hpad : pad.length = padLength m) :
      4 ∣ (bs ++ pad).length := by
    rw [List.length_append, hbs, hpad]
    exact four_dvd_add_padLength m
  constructor
  · intro r bs h
    obtain ⟨hbs, pad, hpad, rfl, -⟩ := padded_eq_ok_iff.mp h
    exact ⟨bs ++ pad, (List.append_assoc bs pad r).symm, hunits bs pad hbs hpad⟩
  · intro r f h
    rcases padded_eq_error_iff.mp h with ⟨-, -, hlen⟩ |
      ⟨bs, hbs, ⟨rfl, rfl, hlen⟩ | ⟨pad, hpad, rfl, -, -, rfl⟩⟩
    · omega
    · refine ⟨bs, rfl, fun hne => absurd rfl hne, fun _ => ?_⟩
      have hshort : padLength m < 4 := by
        unfold padLength
        omega
      omega
    · refine ⟨bs ++ pad, (List.append_assoc bs pad r).symm, fun _ => hunits bs pad hbs hpad, ?_⟩
      intro heof
      cases heof

/-- Data of variable length is taken in whole units: a length that passes the check has its data in
the input. -/
lemma data (hn : 4 ≤ n) (b : Bytes) : TakesUnits n (data lim) b := by
  refine (length hn 1 b).bind fun m q hm => padded hn ?_
  obtain ⟨-, hlen, -⟩ := length_eq_ok_iff.mp hm
  omega

/-- A string is taken in whole units, also one that is not well formed. -/
lemma text (hn : 4 ≤ n) (b : Bytes) : TakesUnits n (text lim) b := by
  refine (data hn b).bind fun bs q _ => ?_
  split
  · exact pure _ q
  · exact throw (by simp) q

/-- Repetition keeps whole units. -/
lemma times {d : Decoder α} (hd : ∀ b, TakesUnits n d b) (m : Nat) (b : Bytes) :
    TakesUnits n (times d m) b := by
  induction m generalizing b with
  | zero => exact pure _ b
  | succ m ih => exact (hd b).bind fun x q _ => (ih q).bind fun xs q' _ => pure _ q'

/-- An entry takes the whole units of its parts. -/
lemma entry {d : Decoder α} {e : Decoder β} (hd : ∀ b, TakesUnits n d b)
    (he : ∀ b, TakesUnits n e b) (b : Bytes) :
    TakesUnits n (do let x ← d; return (x, ← e) : Decoder (α × β)) b :=
  (hd b).bind fun x q _ => (he q).map fun y => (x, y)

/-- A linked list is taken in whole units. -/
lemma chain (hn : 4 ≤ n) (b : Bytes) : TakesUnits n Chain.decode b := by
  induction hlen : b.length using Nat.strongRecOn generalizing b with
  | ind k ih =>
    rw [Chain.decode_eq_node]
    refine (word hn b).bind fun w q hw => (word hn q).bind fun flag q' hflag => ?_
    obtain rfl := word_eq_ok_iff.mp hw
    obtain rfl := word_eq_ok_iff.mp hflag
    have hshorter : q'.length < k := by
      rw [← hlen, List.length_append, List.length_append, length_wordBytes, length_wordBytes]
      omega
    split
    · exact pure _ q'
    · split
      · exact (ih q'.length hshorter q' rfl).map _
      · exact throw (by simp) q'

/-- In terms of the outcome: what is left is the end of the input, behind whole units unless the
input ran out. -/
lemma outcome {d : Decoder α} {b : Bytes} (h : TakesUnits n d b) :
    ∃ w, b = w ++ Reading.rest (d b) ∧
      (Reading.toExcept (d b) ≠ .error .unexpectedEof → 4 ∣ w.length) ∧
      (Reading.toExcept (d b) = .error .unexpectedEof → (Reading.rest (d b)).length < n) := by
  cases hrun : d b with
  | ok v r =>
    obtain ⟨w, hb, hw⟩ := h.ok_append hrun
    exact ⟨w, hb, fun _ => hw, fun heof => by cases heof⟩
  | error f r =>
    obtain ⟨w, hb, hw, hr⟩ := h.error_append hrun
    refine ⟨w, hb, fun hne => hw fun hf => hne (congrArg Except.error hf), fun heof => ?_⟩
    exact hr (Except.error.inj heof)

end TakesUnits

/-- A session goes forward in whole units as long as the input does not run out. -/
lemma session_takes_units {ds : List (Decoder α)} (h : ∀ d ∈ ds, ∀ b, TakesUnits n d b)
    (b : Bytes) : ∃ w, b = w ++ (session ds b).2 ∧
      ((∀ o ∈ (session ds b).1, o.1 ≠ .error .unexpectedEof) → 4 ∣ w.length) := by
  induction ds generalizing b with
  | nil => exact ⟨[], rfl, fun _ => Nat.dvd_zero 4⟩
  | cons d ds ih =>
    obtain ⟨w, hb, hw, -⟩ := (h d List.mem_cons_self b).outcome
    obtain ⟨w', hrest, hw'⟩ := ih (fun e he => h e (List.mem_cons_of_mem _ he)) (Reading.rest (d b))
    rw [session_cons]
    refine ⟨w ++ w', by rw [List.append_assoc, ← hrest, ← hb], fun hsteps => ?_⟩
    obtain ⟨hfirst, hothers⟩ := List.forall_mem_cons.mp hsteps
    rw [List.length_append]
    exact Nat.dvd_add (hw hfirst) (hw' hothers)

/-- Data runs out in the word of its length or in its padding, and never in between. -/
lemma data_eq_unexpectedEof {b r : Bytes} (h : data lim b = .error .unexpectedEof r) :
    (r = b ∧ b.length < 4) ∨ ∃ bs : Bytes,
      b = wordBytes (UInt32.ofNat bs.length) ++ (bs ++ r) ∧ r.length < padLength bs.length := by
  rcases bind_eq_error_iff.mp h with hlength | ⟨m, q, hm, hpadded⟩
  · rcases length_eq_error_iff.mp hlength with ⟨-, rfl, hshort⟩ | ⟨w, -, ⟨-, hf⟩ | ⟨-, -, hf⟩⟩
    · exact .inl ⟨rfl, hshort⟩
    · cases hf
    · cases hf
  · obtain ⟨-, hlen, rfl⟩ := length_eq_ok_iff.mp hm
    rcases padded_eq_error_iff.mp hpadded with ⟨-, -, hshort⟩ |
      ⟨bs, rfl, ⟨-, rfl, hshort⟩ | ⟨pad, -, -, -, -, hf⟩⟩
    · omega
    · exact .inr ⟨bs, rfl, hshort⟩
    · cases hf

/-- A string runs out where its data does. -/
lemma text_eq_unexpectedEof {b r : Bytes} (h : text lim b = .error .unexpectedEof r) :
    data lim b = .error .unexpectedEof r := by
  rcases bind_eq_error_iff.mp h with hdata | ⟨bs, q, -, hmatch⟩
  · exact hdata
  · cases ht : ofUtf8? bs with
    | some t =>
      rw [ht] at hmatch
      cases hmatch
    | none =>
      rw [ht] at hmatch
      cases hmatch

end Decoder

/-! ### Values of shapes -/

namespace Shape

open Decoder (TakesUnits)

/-- Every value is taken in whole units.  Where the input runs out, less than a word is left, or
less than a hyper if there is one in the shape. -/
theorem takes_units {s : Shape} {n : Nat} (hn : 4 ≤ n) (hs : s.HasHyper → 8 ≤ n) (lim : Limits)
    (b : Bytes) : TakesUnits n (s.decode lim) b := by
  induction s generalizing b with
  | void => exact TakesUnits.pure _ b
  | word k =>
    refine (TakesUnits.word hn b).bind fun w q _ => ?_
    exact TakesUnits.ofExcept (k.decode_ne_unexpectedEof w) q
  | hyper k => exact (TakesUnits.hyper (hs trivial) b).map _
  | huge signed => exact TakesUnits.throw (by simp) b
  | any skipped => exact TakesUnits.throw (by simp) b
  | text => exact TakesUnits.text hn b
  | bytes => exact TakesUnits.data hn b
  | option s ih =>
    refine (TakesUnits.word hn b).bind fun flag q _ => ?_
    split
    · exact TakesUnits.pure _ q
    · split
      · exact (ih hs q).map _
      · exact TakesUnits.throw (by simp) q
  | seq c s ih =>
    exact (TakesUnits.length hn 4 b).bind fun m q _ => (TakesUnits.times (ih hs) m q).map _
  | map c k t ihk iht =>
    refine (TakesUnits.length hn 8 b).bind fun m q _ => TakesUnits.map ?_ _
    exact TakesUnits.times
      (TakesUnits.entry (ihk fun h => hs (.inl h)) (iht fun h => hs (.inr h))) m q
  | array m s ih => exact TakesUnits.times (ih hs) m b
  | pair s t ihs iht =>
    exact TakesUnits.entry (ihs fun h => hs (.inl h)) (iht fun h => hs (.inr h)) b
  | record name s ih => exact ih hs b
  | variants name m arm ih =>
    refine (TakesUnits.word hn b).bind fun index q _ => ?_
    split
    case isTrue h => exact (ih ⟨index.toNat, h⟩ (fun hi => hs ⟨_, hi⟩) q).map _
    case isFalse => exact TakesUnits.throw (by simp) q
  | union tag arm ih =>
    refine (TakesUnits.word hn b).bind fun w q _ => ?_
    refine (TakesUnits.ofExcept (tag.decode_ne_unexpectedEof w) q).bind fun d q' _ => ?_
    exact (ih d (fun hd => hs ⟨d, hd⟩) q').map _
  | unassigned code name => exact TakesUnits.throw (by simp) b
  | surplus s t ihs iht =>
    exact (ihs (fun h => hs (.inl h)) b).bind fun v q _ => TakesUnits.throw (by simp) q
  | chain => exact TakesUnits.chain hn b
  | sortedMap =>
    refine (TakesUnits.length hn 8 b).bind fun m q _ => TakesUnits.map ?_ _
    exact TakesUnits.times (TakesUnits.entry (TakesUnits.word hn) (TakesUnits.text hn)) m q

/-- Keeping the shape of a value takes nothing more. -/
lemma reader_takes_units (s : Shape) {n : Nat} (hn : 4 ≤ n) (hs : s.HasHyper → 8 ≤ n)
    (lim : Limits) (b : Bytes) : TakesUnits n (reader lim s) b :=
  (takes_units hn hs lim b).map _

end Shape

/-! ### The law -/

open Shape in
/-- Values are written and read in whole units of four bytes.

What a writer without a limit receives of a value are whole units, whether the value is written
completely or not.

In a session of a reader each step goes forward in the input.  It takes whole units unless it says
that the input ran out, and then less than a hyper is left, or less than a word if its shape has no
hyper.  So a session in which the input never runs out has taken whole units.

The data of a string or byte string is never what runs out: it is the word of the length or the
padding. -/
theorem written_and_read_in_units :
    (∀ (s : Shape) (v : s.Val) (w : Writer), w.sink.limit = none →
      ((s.write v).outcome w).2.sink.buffer = w.sink.buffer ++ (s.encode v).bytes ∧
      4 ∣ (s.encode v).bytes.length) ∧
    (∀ (lim : Limits) (b : Bytes) (before after : List Shape) (s : Shape),
      let run := Decoder.session (before.map (reader lim)) b
      ∃ (o : Except Fault Item) (taken r : Bytes),
        (Decoder.session ((before ++ s :: after).map (reader lim)) b).1 =
          run.1 ++ (o, r) :: (Decoder.session (after.map (reader lim)) r).1 ∧
        run.2 = taken ++ r ∧
        (o ≠ .error .unexpectedEof → 4 ∣ taken.length) ∧
        (o = .error .unexpectedEof → r.length < 8 ∧ (¬ s.HasHyper → r.length < 4))) ∧
    (∀ (lim : Limits) (b : Bytes) (ss : List Shape),
      let run := Decoder.session (ss.map (reader lim)) b
      ∃ taken, b = taken ++ run.2 ∧
        ((∀ o ∈ run.1, o.1 ≠ .error .unexpectedEof) → 4 ∣ taken.length)) ∧
    ∀ (lim : Limits) (b r : Bytes),
      bytes.decode lim b = .error .unexpectedEof r ∨ text.decode lim b = .error .unexpectedEof r →
      (r = b ∧ b.length < 4) ∨ ∃ bs : Bytes,
        b = wordBytes (UInt32.ofNat bs.length) ++ (bs ++ r) ∧ r.length < padLength bs.length := by
  refine ⟨fun s v w hw => ⟨?_, s.whole_encode v⟩, fun lim b before after s => ?_,
    fun lim b ss => ?_, ?_⟩
  · obtain ⟨count, hrun⟩ := s.outcome_write_of_unlimited v hw
    rw [hrun]
  · intro run
    have hhyper := s.reader_takes_units (n := 8) (by decide) (fun _ => Nat.le_refl 8) lim run.2
    obtain ⟨taken, htaken, hunits, height⟩ := hhyper.outcome
    refine ⟨_, taken, _, ?_, htaken, hunits, fun heof => ⟨height heof, fun hs => ?_⟩⟩
    · rw [List.map_append, List.map_cons, Decoder.session_append, Decoder.session_cons]
    · have hword := s.reader_takes_units (Nat.le_refl 4) (fun h => absurd h hs) lim run.2
      obtain ⟨-, -, -, hfour⟩ := hword.outcome
      exact hfour heof
  · refine Decoder.session_takes_units (n := 8) (fun d hd => ?_) b
    obtain ⟨s, -, rfl⟩ := List.mem_map.mp hd
    exact s.reader_takes_units (by decide) (fun _ => Nat.le_refl 8) lim
  · rintro lim b r (hbytes | htext)
    · exact Decoder.data_eq_unexpectedEof hbytes
    · exact Decoder.data_eq_unexpectedEof (Decoder.text_eq_unexpectedEof htext)

open Shape in
/-- A map with a refused value adds whole units to a buffer of one byte.  A reader goes on behind a
word that is no boolean and stops in the padding of the string after it. -/
theorem written_and_read_in_units_string_without_padding :
    let s : Shape := .map .known .uint32 .void
    let v : s.Val := ⟨[(7, ())], none⟩
    let w : Writer := ⟨{ buffer := [5] }, 0⟩
    let b : Bytes := [0, 0, 0, 2, 0, 0, 0, 1, 65, 0, 0]
    let ss : List Shape := [.word .bool, .text]
    (w.sink.limit = none ∧ (s.encode v).fault = some (.unsupported .zeroWidthItem) ∧
      ((s.write v).outcome w).2.sink.buffer = w.sink.buffer ++ (s.encode v).bytes ∧
      4 ∣ (s.encode v).bytes.length) ∧
    ((Decoder.session (ss.map (reader .none)) b).1 =
        [(.error (.invalidBool 2), b.drop 4), (.error .unexpectedEof, [0, 0])] ∧
      ¬ Shape.text.HasHyper ∧ ([0, 0] : Bytes).length < 4) ∧
    ((∀ o ∈ (Decoder.session ((ss.take 1).map (reader .none)) b).1,
        o.1 ≠ .error .unexpectedEof) ∧
      ∃ taken, b = taken ++ (Decoder.session ((ss.take 1).map (reader .none)) b).2 ∧
        4 ∣ taken.length) ∧
    text.decode .none (b.drop 4) = .error .unexpectedEof [0, 0] ∧ ∃ bs : Bytes,
      b.drop 4 = wordBytes (UInt32.ofNat bs.length) ++ (bs ++ [0, 0]) ∧
        ([0, 0] : Bytes).length < padLength bs.length := by
  intro s v w b ss
  obtain ⟨hwrite, hstep, hrun, hdata⟩ := written_and_read_in_units
  have hsession : (Decoder.session (ss.map (reader .none)) b).1 =
      [(.error (.invalidBool 2), b.drop 4), (.error .unexpectedEof, [0, 0])] := rfl
  have hfirst : (Decoder.session ((ss.take 1).map (reader .none)) b).1 =
      [(.error (.invalidBool 2), b.drop 4)] := rfl
  have hbool : ∀ o ∈ (Decoder.session ((ss.take 1).map (reader .none)) b).1,
      o.1 ≠ .error .unexpectedEof := by
    rw [hfirst]
    simp
  have htext : text.decode .none (b.drop 4) = .error .unexpectedEof [0, 0] := rfl
  have hnohyper : ¬ Shape.text.HasHyper := not_false
  obtain ⟨hbuffer, hunits⟩ := hwrite s v w rfl
  refine ⟨⟨rfl, rfl, hbuffer, hunits⟩, ⟨hsession, hnohyper, ?_⟩, ⟨hbool, ?_⟩, htext, ?_⟩
  · obtain ⟨o, taken, r, hsteps, -, -, heof⟩ := hstep .none b [.word .bool] [] .text
    have hpair : (.error .unexpectedEof, [0, 0]) = (o, r) :=
      (List.cons.inj (List.cons.inj (hsession.symm.trans hsteps)).2).1
    obtain ⟨rfl, rfl⟩ := Prod.mk.inj hpair
    exact (heof rfl).2 hnohyper
  · obtain ⟨taken, htaken, haligned⟩ := hrun .none b (ss.take 1)
    exact ⟨taken, htaken, haligned hbool⟩
  · rcases hdata .none (b.drop 4) [0, 0] (.inr htext) with ⟨hrest, -⟩ | hpadding
    · cases hrest
    · exact hpadding

end OncWire
