import Mathlib.Data.List.Forall2
import OncWire.Proofs.Encoding
import OncWire.Session

/-!
# Writing to a sink with a limit

A sink with a limit cuts what is written to it short and does nothing else.  A
value is handed over in many small writes, any of which may stop in the middle,
and the writer counts only whole writes; still a step of a session adds to the
buffer exactly the first bytes of what it would write to an empty buffer
without a limit, as many as there is room for, and it reports its own outcome
if they all fit and the refusal of the sink otherwise (`session_eq_truncated`).

A computation yields an encoding (`Writing.Yields`) when from every state it
writes the bytes of the encoding in this way, whatever the writer has counted
before.  This survives composition along `++`, because the bytes taken up by two
writes are a cut of the bytes of both (`Sink.absorb_append`), and the count tells an
item without bytes from the others, because a computation that succeeds has
counted all the bytes that it wrote.
-/

namespace OncWire

/-! ### Cutting to a room -/

/-- Whether a room holds all of the given bytes. -/
def fits : Option Nat → Bytes → Bool
  | none, _ => true
  | some n, bs => bs.length ≤ n

/-- The first of the given bytes, as many as a room holds. -/
def cut : Option Nat → Bytes → Bytes
  | none, bs => bs
  | some n, bs => bs.take n

/-- A room holds no bytes at all. -/
@[simp] lemma fits_nil (room : Option Nat) : fits room [] = true := by
  cases room <;> simp [fits]

/-- Nothing is left of no bytes. -/
@[simp] lemma cut_nil (room : Option Nat) : cut room [] = [] := by
  cases room <;> simp [cut]

/-- Fewer bytes are left exactly where not all of them fit. -/
lemma length_cut_lt_iff {room : Option Nat} {bs : Bytes} :
    (cut room bs).length < bs.length ↔ fits room bs = false := by
  cases room with
  | none => simp [cut, fits]
  | some n =>
    simp only [cut, fits, List.length_take, decide_eq_false_iff_not]
    omega

namespace Sink

/-- The room that is left below a limit once a buffer holds the given bytes. -/
def roomAfter (limit : Option Nat) (buffer : Bytes) : Option Nat :=
  limit.map (· - buffer.length)

/-- The room that is left in a sink. -/
def room (k : Sink) : Option Nat := roomAfter k.limit k.buffer

/-- The sink after it took up as many of the given bytes as it has room for. -/
def absorb (k : Sink) (bs : Bytes) : Sink := { k with buffer := k.buffer ++ cut k.room bs }

/-- Taking up no bytes changes nothing. -/
@[simp] lemma absorb_nil (k : Sink) : k.absorb [] = k := by
  simp [absorb]

/-- A sink takes up what it has room for, and fails if that is not all. -/
lemma accept_eq (k : Sink) (bs : Bytes) :
    k.accept bs = (if fits k.room bs then none else some (.io k.refusal), k.absorb bs) := by
  have hfit : k.fitting bs = cut k.room bs := by
    unfold fitting room roomAfter
    cases k.limit <;> rfl
  rw [accept, hfit]
  cases h : fits k.room bs with
  | true =>
    have hlen : ¬ (cut k.room bs).length < bs.length := by
      rw [length_cut_lt_iff, h]
      decide
    rw [if_neg hlen]
    rfl
  | false =>
    rw [if_pos (length_cut_lt_iff.mpr h)]
    rfl

/-- Bytes that are taken up in two writes are taken up as in one. -/
lemma absorb_append (k : Sink) (as bs : Bytes) :
    (k.absorb as).absorb bs = k.absorb (as ++ bs) := by
  obtain ⟨buffer, limit, refusal⟩ := k
  cases limit with
  | none => simp [absorb, room, roomAfter, cut]
  | some n =>
    have hroom : n - (buffer ++ as.take (n - buffer.length)).length =
        n - buffer.length - as.length := by
      rw [List.length_append, List.length_take]
      omega
    simp only [absorb, room, roomAfter, cut, Option.map_some, hroom, List.take_append,
      List.append_assoc]

/-- Bytes fit exactly when they fit one part after the other. -/
lemma fits_append (k : Sink) (as bs : Bytes) :
    fits k.room (as ++ bs) = (fits k.room as && fits (k.absorb as).room bs) := by
  obtain ⟨buffer, limit, refusal⟩ := k
  cases limit with
  | none => rfl
  | some n =>
    rw [Bool.eq_iff_iff, Bool.and_eq_true]
    simp only [fits, room, roomAfter, absorb, cut, Option.map_some, List.length_append,
      List.length_take, decide_eq_true_eq]
    omega

/-- What does not fit keeps out all that follows. -/
lemma absorb_append_of_not_fits {k : Sink} {as : Bytes} (h : fits k.room as = false)
    (bs : Bytes) : k.absorb (as ++ bs) = k.absorb as := by
  obtain ⟨buffer, limit, refusal⟩ := k
  cases limit with
  | none => cases h
  | some n =>
    simp only [fits, room, roomAfter, Option.map_some, decide_eq_false_iff_not] at h
    simp only [absorb, room, roomAfter, cut, Option.map_some]
    rw [List.take_append_of_le_length (by omega)]

end Sink

/-! ### Computations that write -/

namespace Writing

/-- Two computations in a row stop at the first fault. -/
lemma outcome_seq (m m' : Writing) (w : Writer) :
    outcome (do m; m') w =
      match outcome m w with
      | (none, after) => outcome m' after
      | (some f, after) => (some f, after) := by
  unfold outcome
  simp only [bind, EStateM.bind]
  cases m w <;> rfl

/-- An item is refused when the count of bytes has not moved. -/
lemma outcome_item (m : Writing) (w : Writer) :
    outcome (item m) w =
      match outcome m w with
      | (none, after) =>
        (if after.written = w.written then some (.unsupported .zeroWidthItem) else none, after)
      | (some f, after) => (some f, after) := by
  have hget (k : Writer) : (get : EStateM Fault Writer Writer) k = .ok k k := rfl
  unfold outcome item
  simp only [bind, EStateM.bind, hget]
  cases m w with
  | error f after => rfl
  | ok u after =>
    by_cases h : after.written = w.written
    · simp only [if_pos h]
      rfl
    · simp only [if_neg h]
      rfl

/-- From every state the computation writes the bytes of the encoding, as many as there is room
for.  If they all fit it ends as the encoding does, and otherwise with the refusal of the sink.  If
it succeeds it has counted them all. -/
def Yields (m : Writing) (e : Encoding) : Prop :=
  ∀ w : Writer, ∃ count,
    outcome m w = (if fits w.sink.room e.bytes then e.fault else some (.io w.sink.refusal),
      ⟨w.sink.absorb e.bytes, count⟩) ∧
    (fits w.sink.room e.bytes → e.fault = none → count = w.written + e.bytes.length)

namespace Yields

variable {m m' : Writing} {e e' : Encoding}

/-- Doing nothing writes nothing. -/
lemma nothing : Yields (return ()) .nothing := by
  intro w
  refine ⟨w.written, ?_, fun _ _ => rfl⟩
  simp [outcome, Encoding.nothing, pure, EStateM.pure]

/-- A fault writes nothing. -/
lemma fail (f : Fault) : Yields (throw f) (.fail f) := by
  intro w
  have hrun : outcome (throw f) w = (some f, w) := rfl
  refine ⟨w.written, ?_, fun _ h => by cases h⟩
  rw [hrun]
  simp [Encoding.fail]

/-- One write hands over its bytes. -/
lemma put (bs : Bytes) : Yields (put bs) (.ofBytes bs) := by
  intro w
  unfold outcome Writing.put
  rw [Sink.accept_eq]
  cases h : fits w.sink.room bs with
  | true => exact ⟨w.written + bs.length, by simp [Encoding.ofBytes, h], fun _ _ => rfl⟩
  | false => exact ⟨w.written, by simp [Encoding.ofBytes, h], by simp [Encoding.ofBytes, h]⟩

/-- Two computations in a row write one after the other. -/
lemma seq (h : Yields m e) (h' : Yields m' e') : Yields (do m; m') (e ++ e') := by
  intro w
  obtain ⟨count, hrun, hcount⟩ := h w
  rw [outcome_seq, hrun]
  -- What does not fit into the sink stops the first part, before any fault of its own.
  cases hfit : fits w.sink.room e.bytes with
  | false =>
    refine ⟨count, ?_, ?_⟩
    · cases hfault : e.fault with
      | none =>
        simp [Encoding.append_of_complete hfault, Sink.fits_append, hfit,
          Sink.absorb_append_of_not_fits hfit]
      | some f => simp [Encoding.append_of_fault hfault, hfit]
    · intro hall
      cases hfault : e.fault with
      | none => simp [Encoding.append_of_complete hfault, Sink.fits_append, hfit] at hall
      | some f => simp [Encoding.append_of_fault hfault, hfit] at hall
  | true =>
    cases hfault : e.fault with
    | some f =>
      rw [Encoding.append_of_fault hfault]
      exact ⟨count, by simp [hfit, hfault], fun _ hnone => by rw [hfault] at hnone; cases hnone⟩
    | none =>
      obtain ⟨count', hrun', hcount'⟩ := h' ⟨w.sink.absorb e.bytes, count⟩
      have hcount := hcount hfit hfault
      rw [Encoding.append_of_complete hfault]
      refine ⟨count', ?_, ?_⟩
      · simp only [if_true, hrun', Sink.absorb_append, Sink.fits_append, hfit, Bool.true_and]
        rfl
      · intro hall hnone
        rw [Sink.fits_append, hfit, Bool.true_and] at hall
        have hcount' : count' = count + e'.bytes.length := hcount' hall hnone
        rw [hcount', hcount, List.length_append, Nat.add_assoc]

/-- An item that takes no bytes is refused, and every other is written as it is. -/
lemma item (h : Yields m e) : Yields (item m) e.item := by
  intro w
  obtain ⟨count, hrun, hcount⟩ := h w
  rw [outcome_item, hrun]
  by_cases hnil : e.bytes = []
  · have hfit : fits w.sink.room e.bytes = true := by rw [hnil, fits_nil]
    cases hfault : e.fault with
    | none =>
      have hcount := hcount hfit hfault
      rw [hnil] at hcount
      refine ⟨count, ?_, ?_⟩
      · simp [Encoding.item, hnil, hfault, Encoding.fail, hcount]
      · simp [Encoding.item, hnil, hfault, Encoding.fail]
    | some f =>
      rw [Encoding.item_of_fault hfault]
      exact ⟨count, by simp [hfit, hfault], fun _ hnone => by rw [hfault] at hnone; cases hnone⟩
  · rw [Encoding.item_of_ne_nil hnil]
    refine ⟨count, ?_, hcount⟩
    cases hfit : fits w.sink.room e.bytes with
    | false => simp
    | true =>
      cases hfault : e.fault with
      | some f => simp
      | none =>
        -- All the bytes were counted, so the count tells that there were some.
        have hpos := List.length_pos_iff.mpr hnil
        have hmoved : count ≠ w.written := by
          rw [hcount hfit hfault]
          omega
        simp [hmoved]

/-- Computations in a row write one after another. -/
lemma inOrder {ms : List Writing} {es : List Encoding} (h : List.Forall₂ Yields ms es) :
    Yields (inOrder ms) (.concat es) := by
  induction h with
  | nil => exact nothing
  | cons hm _ ih => exact hm.seq ih

/-- A word is one write. -/
lemma word (v : UInt32) : Yields (word v) (.ofWord v) := put _

/-- The word of an outcome is one write. -/
lemma ofExcept (x : Except Fault UInt32) : Yields (ofExcept x) (.ofExcept x) := by
  cases x with
  | ok v => exact word v
  | error f => exact fail f

/-- A length is one write. -/
lemma length (n : Nat) : Yields (length n) (.length n) := by
  unfold Writing.length Encoding.length
  split
  · exact word _
  · exact fail _

/-- Data is written in three writes. -/
lemma data (bs : Bytes) : Yields (data bs) (.data bs) := by
  rw [Encoding.data, Encoding.append_assoc]
  exact (length _).seq ((put bs).seq (put _))

/-- A counted run writes its count and then its items. -/
lemma run (n : Nat) {ms : List Writing} {es : List Encoding} (h : List.Forall₂ Yields ms es) :
    Yields (run n ms) (.run n es) := by
  refine (length n).seq (inOrder ?_)
  rw [List.forall₂_map_left_iff, List.forall₂_map_right_iff]
  exact h.imp fun _ _ hm => hm.item

/-- A counted run of entries writes its count and then the two parts of each entry. -/
lemma runEntries {α : Type} (n : Nat) (xs : List α) {f f' : α → Writing} {g g' : α → Encoding}
    (h : ∀ x, Yields (f x) (g x)) (h' : ∀ x, Yields (f' x) (g' x)) :
    Yields (Writing.run n (xs.flatMap fun x => [f x, f' x]))
      (.run n (xs.flatMap fun x => [g x, g' x])) := by
  refine run n ?_
  induction xs with
  | nil => exact .nil
  | cons x xs ih => exact .cons (h x) (.cons (h' x) ih)

end Yields

end Writing

/-- The nodes of a linked list are written one after another. -/
lemma Chain.writeNodes_yields (ws : List UInt32) :
    (Chain.writeNodes ws).Yields (Chain.nodes ws) := by
  induction ws with
  | nil => exact Writing.Yields.word 0
  | cons w ws ih =>
    rw [Chain.nodes, Encoding.append_assoc]
    exact (Writing.Yields.word 1).seq ((Writing.Yields.word w).seq ih)

/-- Writing a value piece by piece writes its form. -/
theorem Shape.write_yields (s : Shape) (v : s.Val) : (s.write v).Yields (s.encode v) := by
  induction s with
  | void => exact Writing.Yields.nothing
  | word k => exact Writing.Yields.ofExcept _
  | hyper k => exact Writing.Yields.put _
  | huge signed => exact Writing.Yields.fail _
  | any skipped => exact v.elim
  | text => exact Writing.Yields.data _
  | bytes => exact Writing.Yields.data v
  | option s ih =>
    cases v with
    | none => exact Writing.Yields.word 0
    | some x => exact (Writing.Yields.word 1).seq (ih x)
  | seq c s ih =>
    cases c with
    | unknown => exact Writing.Yields.fail _
    | known =>
      refine Writing.Yields.run _ ?_
      rw [List.forall₂_map_left_iff, List.forall₂_map_right_iff, List.forall₂_same]
      exact fun x _ => ih x
  | map c k t ihk iht =>
    cases c with
    | unknown => exact Writing.Yields.fail _
    | known =>
      exact Writing.Yields.runEntries v.count v.items (fun x => ihk x.1) fun x => iht x.2
  | array n s ih =>
    refine Writing.Yields.inOrder ?_
    rw [List.forall₂_map_left_iff, List.forall₂_map_right_iff, List.forall₂_same]
    exact fun x _ => ih x
  | pair s t ihs iht => exact (ihs v.1).seq (iht v.2)
  | record name s ih => exact ih v
  | variants name n arm ih => exact (Writing.Yields.word _).seq (ih v.1 v.2)
  | union tag arm ih => exact (Writing.Yields.ofExcept _).seq (ih v.1 v.2)
  | unassigned code name => exact v.elim
  | surplus s t ihs iht => exact (ihs v.1).seq (iht v.2)
  | chain => exact (Writing.Yields.word _).seq (Chain.writeNodes_yields _)
  | sortedMap =>
    exact Writing.Yields.runEntries v.items.length v.items (fun x => Writing.Yields.word x.1)
      fun x => Writing.Yields.data (utf8 x.2)

/-- A sink without a limit takes up all that is written of a value. -/
lemma Shape.outcome_write_of_unlimited (s : Shape) (v : s.Val) {w : Writer}
    (h : w.sink.limit = none) : ∃ count,
    (s.write v).outcome w = ((s.encode v).fault,
      ⟨{ w.sink with buffer := w.sink.buffer ++ (s.encode v).bytes }, count⟩) := by
  obtain ⟨count, hrun, -⟩ := s.write_yields v w
  have hroom : w.sink.room = none := by
    rw [Sink.room, Sink.roomAfter, h, Option.map_none]
  refine ⟨count, ?_⟩
  rw [hrun, Sink.absorb, hroom]
  rfl

/-! ### Sessions -/

namespace Step

/-- What a step writes to an empty buffer without a limit, and how it ends there. -/
def alone (step : Step) : Encoding :=
  let (fault, after) := step.run ⟨{ buffer := [] }, 0⟩
  ⟨after.sink.buffer, fault⟩

/-- The form of what a step writes. -/
def form : Step → Encoding
  | write s v => s.encode v
  | writeAnew s v => s.encode v
  | acknowledge status xid => .ofBytes (acceptedHeader status xid)

/-- Every step writes its form, whatever was counted before. -/
lemma run_eq (step : Step) (w : Writer) : ∃ count,
    step.run w = (if fits w.sink.room step.form.bytes then step.form.fault
        else some (.io w.sink.refusal),
      ⟨w.sink.absorb step.form.bytes, count⟩) := by
  cases step with
  | write s v =>
    obtain ⟨count, hrun, -⟩ := s.write_yields v w
    exact ⟨count, hrun⟩
  | writeAnew s v =>
    obtain ⟨count, hrun, -⟩ := s.write_yields v ⟨w.sink, 0⟩
    refine ⟨w.written, ?_⟩
    rw [run, hrun]
    rfl
  | acknowledge status xid =>
    refine ⟨w.written, ?_⟩
    rw [run, Sink.accept_eq]
    rfl

/-- On an empty buffer without a limit a step writes its form. -/
lemma alone_eq_form (step : Step) : step.alone = step.form := by
  obtain ⟨count, hrun⟩ := step.run_eq ⟨{ buffer := [] }, 0⟩
  rw [alone, hrun]
  rfl

/-- The outcomes of a session by plain truncation: each step adds the first bytes of what it writes
alone, as many as there is room for, and it ends as it does alone if they all fit. -/
def truncated (limit : Option Nat) (refusal : String) :
    List Step → Bytes → List (Option Fault × Bytes)
  | [], _ => []
  | step :: steps, buffer =>
    let room := Sink.roomAfter limit buffer
    let after := buffer ++ cut room step.alone.bytes
    (if fits room step.alone.bytes then step.alone.fault else some (.io refusal), after) ::
      truncated limit refusal steps after

/-- A session on any sink is plain truncation of what its steps write alone, and in the end the
buffer holds the first bytes of all that they write.  It makes no difference whether a value is
written by the writer of the session or by a new one, nor what was counted before. -/
theorem session_eq_truncated (k : Sink) (count : Nat) (steps : List Step) :
    (session steps ⟨k, count⟩).1 = truncated k.limit k.refusal steps k.buffer ∧
    (session steps ⟨k, count⟩).2.sink.buffer =
      k.buffer ++ cut k.room (steps.flatMap fun step => step.alone.bytes) ∧
    ∀ (s : Shape) (v : s.Val), (write s v).alone = (writeAnew s v).alone := by
  refine ⟨?_, ?_, fun s v => ?_⟩
  · induction steps generalizing k count with
    | nil => rfl
    | cons step steps ih =>
      obtain ⟨count', hrun⟩ := step.run_eq ⟨k, count⟩
      rw [session, hrun]
      simp only [truncated, alone_eq_form]
      rw [ih]
      rfl
  · induction steps generalizing k count with
    | nil => simp [session]
    | cons step steps ih =>
      obtain ⟨count', hrun⟩ := step.run_eq ⟨k, count⟩
      have habsorb := congrArg Sink.buffer (k.absorb_append step.alone.bytes
        (steps.flatMap fun step => step.alone.bytes))
      rw [session, hrun, List.flatMap_cons]
      simp only [← alone_eq_form]
      rw [ih]
      exact habsorb
  · rw [alone_eq_form, alone_eq_form]
    rfl

end Step

end OncWire
