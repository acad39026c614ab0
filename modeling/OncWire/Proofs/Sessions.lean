import Mathlib.Tactic.Common
import OncWire.Proofs.Locality
import OncWire.Proofs.Truncation

/-!
# Sessions and products

A session reads or writes one value after another and goes on after a fault.  A product
(a tuple, a structure, an array) is read and written part by part and ends at the
first fault.  Up to there the two are the same: what a product yields, where it fails and
what it leaves can be told from the session of its parts (`sessions_compose`).

On the side of the reader both are compared with a list of decoders run in turn
(`Decoder.inTurn`).  A session agrees with it as long as every step succeeds
(`inTurn_of_succeeds`, `inTurn_of_first_fault`), and the fields of a product are read by
such a list (`Shape.inTurn_reader`).
-/

namespace OncWire

/-! ### Reading in turn -/

namespace Decoder

variable {α : Type}

/-- Runs one decoder after another, up to the first fault. -/
def inTurn : List (Decoder α) → Decoder (List α)
  | [] => return []
  | d :: ds => do
    let x ← d
    return x :: (← inTurn ds)

/-- A session is its first step and then a session on the bytes that this step left. -/
lemma session_cons (d : Decoder α) (ds : List (Decoder α)) (b : Bytes) :
    session (d :: ds) b =
      ((Reading.toExcept (d b), Reading.rest (d b)) :: (session ds (Reading.rest (d b))).1,
        (session ds (Reading.rest (d b))).2) := rfl

/-- A session goes on where an earlier one stopped. -/
lemma session_append (ds es : List (Decoder α)) (b : Bytes) :
    session (ds ++ es) b =
      ((session ds b).1 ++ (session es (session ds b).2).1, (session es (session ds b).2).2) := by
  induction ds generalizing b with
  | nil => rfl
  | cons d ds ih => rw [List.cons_append, session_cons, session_cons, ih, List.cons_append]

/-- Where every step of a session succeeds, its decoders in turn yield the values of the steps. -/
lemma inTurn_of_succeeds {ds : List (Decoder α)} {b : Bytes}
    (h : ∀ o ∈ (session ds b).1, ∃ x, o.1 = .ok x) :
    ∃ xs, inTurn ds b = .ok xs (session ds b).2 ∧
      (session ds b).1.map Prod.fst = xs.map .ok := by
  induction ds generalizing b with
  | nil => exact ⟨[], rfl, rfl⟩
  | cons d ds ih =>
    rw [session_cons] at h ⊢
    cases hd : d b with
    | error f q =>
      rw [hd] at h
      obtain ⟨x, hx⟩ := h _ List.mem_cons_self
      cases hx
    | ok x q =>
      rw [hd] at h
      obtain ⟨xs, hxs, hvalues⟩ := ih fun o ho => h o (List.mem_cons_of_mem _ ho)
      refine ⟨x :: xs, ?_, congrArg (Except.ok x :: ·) hvalues⟩
      rw [inTurn, bind_of_ok hd]
      exact map_eq_ok_iff.mpr ⟨xs, hxs, rfl⟩

/-- The first step of a session that fails decides how its decoders end in turn. -/
lemma inTurn_of_first_fault {ds : List (Decoder α)} {b r : Bytes} {f : Fault}
    {before after : List (Except Fault α × Bytes)}
    (hrun : (session ds b).1 = before ++ (.error f, r) :: after)
    (h : ∀ o ∈ before, ∃ x, o.1 = .ok x) : inTurn ds b = .error f r := by
  induction ds generalizing b before with
  | nil =>
    have hnil : [] = before ++ (.error f, r) :: after := hrun
    simp at hnil
  | cons d ds ih =>
    rw [session_cons] at hrun
    rw [inTurn]
    cases before with
    | nil =>
      obtain ⟨hhead, -⟩ := List.cons.inj hrun
      cases hd : d b with
      | ok x q =>
        rw [hd] at hhead
        cases hhead
      | error g q =>
        rw [hd] at hhead
        cases hhead
        exact bind_of_error hd
    | cons o before =>
      obtain ⟨hhead, htail⟩ := List.cons.inj hrun
      obtain ⟨x, hx⟩ := h o List.mem_cons_self
      cases hd : d b with
      | error g q =>
        rw [hd] at hhead
        subst hhead
        cases hx
      | ok y q =>
        rw [hd] at htail
        rw [bind_of_ok hd]
        exact map_eq_error_iff.mpr (ih htail fun o ho => h o (List.mem_cons_of_mem _ ho))

end Decoder

/-! ### The parts of a product -/

namespace Shape

/-- A value together with its shape. -/
abbrev Item := (s : Shape) × s.Val

/-- Reads a value of a shape and keeps the shape with it. -/
def reader (lim : Limits) (s : Shape) : Decoder Item := do return ⟨s, ← s.decode lim⟩

/-- The values of the fields of a product, in order. -/
def parts : (ss : List Shape) → (fields ss).Val → List Item
  | [], _ => []
  | s :: ss, v => ⟨s, v.1⟩ :: parts ss v.2

/-- Keeping the shape changes neither the outcome of reading nor what is left. -/
lemma outcome_reader (lim : Limits) (s : Shape) (b : Bytes) :
    Reading.toExcept (reader lim s b) = (Reading.toExcept (s.decode lim b)).map (Sigma.mk s) ∧
      Reading.rest (reader lim s b) = Reading.rest (s.decode lim b) := by
  cases h : s.decode lim b with
  | ok v r =>
    have hrun : reader lim s b = .ok ⟨s, v⟩ r := Decoder.map_eq_ok_iff.mpr ⟨v, h, rfl⟩
    rw [hrun]
    exact ⟨rfl, rfl⟩
  | error f r =>
    have hrun : reader lim s b = .error f r := Decoder.map_eq_error_iff.mpr h
    rw [hrun]
    exact ⟨rfl, rfl⟩

/-- What reading leaves is the end of what was there, after a fault as well. -/
lemma rest_decode_suffix (lim : Limits) (s : Shape) (b : Bytes) :
    Reading.rest (s.decode lim b) <:+ b := by
  have hstable := (Decoder.Stable.closed lim).shape s
  cases h : s.decode lim b with
  | ok v r =>
    obtain ⟨w, rfl, -⟩ := hstable.ok_append h
    exact List.suffix_append w r
  | error f r =>
    obtain ⟨w, rfl, -⟩ := hstable.error_append h
    exact List.suffix_append w r

/-- The fields of a product are read in turn. -/
lemma inTurn_reader (lim : Limits) (ss : List Shape) :
    Decoder.inTurn (ss.map (reader lim)) = do return parts ss (← (fields ss).decode lim) := by
  induction ss with
  | nil => rfl
  | cons s ss ih =>
    have hpair : (fields (s :: ss)).decode lim = (do
        let v ← s.decode lim
        return (v, ← (fields ss).decode lim)) := rfl
    rw [List.map_cons, Decoder.inTurn, ih, reader, hpair]
    simp only [bind_assoc, pure_bind, parts]

/-- The items of an array are read in turn. -/
lemma inTurn_replicate_reader (lim : Limits) (n : Nat) (s : Shape) :
    Decoder.inTurn (List.replicate n (reader lim s)) =
      do return (← (array n s).decode lim).val.map (Sigma.mk s) := by
  rw [decode]
  induction n with
  | zero => rfl
  | succ n ih =>
    rw [List.replicate_succ, Decoder.inTurn, ih, reader, Decoder.times]
    simp only [bind_assoc, pure_bind, List.map_cons]

/-- The fields of a product are written in order. -/
lemma write_fields (ss : List Shape) (v : (fields ss).Val) :
    (fields ss).write v = Writing.inOrder ((parts ss v).map fun x => x.1.write x.2) := by
  induction ss with
  | nil => rfl
  | cons s ss ih =>
    have hpair : (fields (s :: ss)).write v = (do
        s.write v.1
        (fields ss).write v.2) := rfl
    rw [hpair, ih v.2]
    rfl

/-- The parts of a product have the shapes of its fields. -/
lemma map_fst_parts (ss : List Shape) (v : (fields ss).Val) : (parts ss v).map Sigma.fst = ss := by
  induction ss with
  | nil => rfl
  | cons s ss ih => exact congrArg (s :: ·) (ih v.2)

/-- Values of the shapes of its fields are the parts of a product. -/
lemma exists_parts {ss : List Shape} {xs : List Item} (h : xs.map Sigma.fst = ss) :
    ∃ v, parts ss v = xs := by
  induction xs generalizing ss with
  | nil =>
    subst h
    exact ⟨(), rfl⟩
  | cons x xs ih =>
    subst h
    obtain ⟨v, hv⟩ := ih rfl
    exact ⟨(x.2, v), congrArg (x :: ·) hv⟩

/-- Values that all have one shape are the items of an array. -/
lemma exists_items {n : Nat} {s : Shape} {xs : List Item}
    (h : xs.map Sigma.fst = List.replicate n s) :
    ∃ v : (array n s).Val, v.val.map (Sigma.mk s) = xs := by
  induction n generalizing xs with
  | zero =>
    obtain rfl : xs = [] := List.map_eq_nil_iff.mp h
    exact ⟨⟨[], rfl⟩, rfl⟩
  | succ n ih =>
    rw [List.replicate_succ, List.map_eq_cons_iff] at h
    obtain ⟨⟨_, x⟩, ys, rfl, rfl, hys⟩ := h
    obtain ⟨⟨vs, hvs⟩, rfl⟩ := ih hys
    exact ⟨⟨x :: vs, congrArg (· + 1) hvs⟩, rfl⟩

end Shape

/-! ### Writing in order -/

namespace Step

open Shape (Item)

/-- The step that writes a value with the writer of the session. -/
def ofItem (x : Item) : Step := .write x.1 x.2

/-- A session is its first step and then a session of the writer after it. -/
lemma session_cons (step : Step) (steps : List Step) (w : Writer) :
    session (step :: steps) w =
      (((step.run w).1, (step.run w).2.sink.buffer) :: (session steps (step.run w).2).1,
        (session steps (step.run w).2).2) := rfl

/-- Where every step of a session succeeds, writing the values in order does as well, and it leaves
the same writer. -/
lemma outcome_of_succeeds {xs : List Item} {w : Writer}
    (h : ∀ o ∈ (session (xs.map ofItem) w).1, o.1 = none) :
    (Writing.inOrder (xs.map fun x => x.1.write x.2)).outcome w =
      (none, (session (xs.map ofItem) w).2) := by
  induction xs generalizing w with
  | nil => rfl
  | cons x xs ih =>
    simp only [List.map_cons, session_cons] at h ⊢
    have hfirst : ((x.1.write x.2).outcome w).1 = none := h _ List.mem_cons_self
    have hrest := ih fun o ho => h o (List.mem_cons_of_mem _ ho)
    rw [Writing.inOrder, Writing.outcome_seq]
    rcases hrun : (x.1.write x.2).outcome w with ⟨fault, w'⟩
    rw [hrun] at hfirst
    obtain rfl : fault = none := hfirst
    have hstep : (ofItem x).run w = (none, w') := hrun
    rw [hstep] at hrest ⊢
    exact hrest

/-- The first step of a session that fails decides how writing the values in order ends, and what
the buffer holds then. -/
lemma outcome_of_first_fault {xs : List Item} {w : Writer} {f : Fault} {buffer : Bytes}
    {before after : List (Option Fault × Bytes)}
    (hrun : (session (xs.map ofItem) w).1 = before ++ (some f, buffer) :: after)
    (h : ∀ o ∈ before, o.1 = none) :
    ∃ w', (Writing.inOrder (xs.map fun x => x.1.write x.2)).outcome w = (some f, w') ∧
      w'.sink.buffer = buffer := by
  induction xs generalizing w before with
  | nil =>
    have hnil : [] = before ++ (some f, buffer) :: after := hrun
    simp at hnil
  | cons x xs ih =>
    rw [List.map_cons, session_cons] at hrun
    rw [List.map_cons, Writing.inOrder, Writing.outcome_seq]
    rcases hfirst : (x.1.write x.2).outcome w with ⟨fault, w'⟩
    have hstep : (ofItem x).run w = (fault, w') := hfirst
    rw [hstep] at hrun
    cases before with
    | nil =>
      obtain ⟨hhead, -⟩ := List.cons.inj hrun
      obtain ⟨rfl, hbuffer⟩ := Prod.mk.inj hhead
      exact ⟨w', rfl, hbuffer⟩
    | cons o before =>
      obtain ⟨hhead, htail⟩ := List.cons.inj hrun
      have ho := h o List.mem_cons_self
      subst hhead
      obtain rfl : fault = none := ho
      exact ih htail fun o ho => h o (List.mem_cons_of_mem _ ho)

end Step

/-! ### The law -/

open Shape in
/-- Sessions compose, and a product is what a session of its parts is up to the first fault.

Reading: each step of a session answers as reading from the bytes that the step before left, be it
after a value or after a fault, and what it leaves is the end of these bytes.  If all steps
succeed, a product of their shapes is read as the values of the steps, with the same rest; the
first step that fails decides the fault of the product and the bytes that it leaves.

Writing: if all steps that write the parts of a product succeed, the product is written with the
same writer after it; the first step that fails decides the fault of the product and what the buffer
holds then.

A structure is read and written as its fields are, and an array as a product of as many equal
fields, whose values are those of the array. -/
theorem sessions_compose :
    (∀ (lim : Limits) (b : Bytes) (before after : List Shape) (s : Shape),
      let run := Decoder.session (before.map (reader lim)) b
      let fresh : Reading s.Val := s.decode lim run.2
      let more := Decoder.session (after.map (reader lim)) fresh.rest
      Decoder.session ((before ++ s :: after).map (reader lim)) b =
        (run.1 ++ (fresh.toExcept.map (Sigma.mk s), fresh.rest) :: more.1, more.2) ∧
      fresh.rest <:+ run.2) ∧
    (∀ (lim : Limits) (b : Bytes) (ss : List Shape),
      let run := Decoder.session (ss.map (reader lim)) b
      ((∀ o ∈ run.1, ∃ x, o.1 = .ok x) →
        ∃ v, (fields ss).decode lim b = .ok v run.2 ∧
          run.1.map Prod.fst = (parts ss v).map .ok) ∧
      ∀ before after f r, run.1 = before ++ (.error f, r) :: after →
        (∀ o ∈ before, ∃ x, o.1 = .ok x) → (fields ss).decode lim b = .error f r) ∧
    (∀ (ss : List Shape) (v : (fields ss).Val) (w : Writer),
      let run := Step.session ((parts ss v).map Step.ofItem) w
      ((∀ o ∈ run.1, o.1 = none) → (Step.write (fields ss) v).run w = (none, run.2)) ∧
      ∀ before after f buffer, run.1 = before ++ (some f, buffer) :: after →
        (∀ o ∈ before, o.1 = none) →
          ∃ w', (Step.write (fields ss) v).run w = (some f, w') ∧ w'.sink.buffer = buffer) ∧
    (∀ (name : String) (ss : List Shape),
      (∀ lim, (record name (fields ss)).decode lim = (fields ss).decode lim) ∧
      ∀ v, (record name (fields ss)).write v = (fields ss).write v) ∧
    ∀ (n : Nat) (s : Shape),
      (∀ lim, (do return (← (array n s).decode lim).val.map (Sigma.mk s) : Decoder (List Item)) =
        do return parts _ (← (fields (List.replicate n s)).decode lim)) ∧
      (∀ (v : (array n s).Val) (u : (fields (List.replicate n s)).Val),
        parts _ u = v.val.map (Sigma.mk s) →
          (array n s).write v = (fields (List.replicate n s)).write u) ∧
      (∀ v : (array n s).Val, ∃ u, parts (List.replicate n s) u = v.val.map (Sigma.mk s)) ∧
      ∀ u, ∃ v : (array n s).Val, v.val.map (Sigma.mk s) = parts (List.replicate n s) u := by
  refine ⟨fun lim b before after s => ⟨?_, ?_⟩, fun lim b ss => ⟨fun h => ?_, ?_⟩,
    fun ss v w => ⟨fun h => ?_, ?_⟩, fun name ss => ⟨fun lim => rfl, fun v => rfl⟩,
    fun n s => ⟨fun lim => ?_, fun v u h => ?_, fun v => ?_, fun u => ?_⟩⟩
  · obtain ⟨houtcome, hrest⟩ :=
      outcome_reader lim s (Decoder.session (before.map (reader lim)) b).2
    rw [List.map_append, List.map_cons, Decoder.session_append, Decoder.session_cons, houtcome,
      hrest]
  · exact rest_decode_suffix lim s _
  · obtain ⟨xs, hxs, hvalues⟩ := Decoder.inTurn_of_succeeds h
    rw [inTurn_reader] at hxs
    obtain ⟨v, hv, rfl⟩ := Decoder.map_eq_ok_iff.mp hxs
    exact ⟨v, hv, hvalues⟩
  · intro before after f r hrun h
    have hfault := Decoder.inTurn_of_first_fault hrun h
    rw [inTurn_reader] at hfault
    exact Decoder.map_eq_error_iff.mp hfault
  · rw [Step.run, write_fields]
    exact Step.outcome_of_succeeds h
  · intro before after f buffer hrun h
    rw [Step.run, write_fields]
    exact Step.outcome_of_first_fault hrun h
  · rw [← inTurn_replicate_reader, ← inTurn_reader, List.map_replicate]
  · rw [write_fields, h, write, List.map_map]
    rfl
  · refine exists_parts ?_
    rw [List.map_map]
    have hlength : (v.val.map (Sigma.fst ∘ Sigma.mk s)).length = n := by
      rw [List.length_map, v.property]
    exact List.eq_replicate_iff.mpr ⟨hlength, by simp⟩
  · exact exists_items (map_fst_parts _ u)

open Shape in
/-- Three words are read as one product.  If the second is no boolean, a session goes on with the
third and the product ends.  An odd number ends the writing of a product behind what came before it,
and two equal fields are written as an array. -/
theorem sessions_compose_at_stray_boolean_and_odd_number :
    let ss : List Shape := [.uint32, .word .bool, .uint32]
    let b : Bytes := [0, 0, 0, 7, 0, 0, 0, 1, 0, 0, 0, 8, 9]
    let c : Bytes := [0, 0, 0, 7, 0, 0, 0, 2, 0, 0, 0, 8, 9]
    let ts : List Shape := [.uint32, .word .even]
    let k : Writer := ⟨{ buffer := [5], limit := some 9 }, 0⟩
    let v : (array 2 .uint32).Val := ⟨[1, 2], rfl⟩
    let u : (fields (List.replicate 2 .uint32)).Val := (1, 2, ())
    ((∀ o ∈ (Decoder.session (ss.map (reader .none)) b).1, ∃ x, o.1 = .ok x) ∧
      ∃ v, (fields ss).decode .none b = .ok v [9]) ∧
    ((Decoder.session (ss.map (reader .none)) c).1 =
        [(.ok ⟨.uint32, 7⟩, c.drop 4)] ++ (.error (.invalidBool 2), c.drop 8) ::
          [(.ok ⟨.uint32, 8⟩, [9])] ∧
      (fields ss).decode .none c = .error (.invalidBool 2) (c.drop 8)) ∧
    ((∀ o ∈ (Step.session ((parts ts (7, 4, ())).map Step.ofItem) k).1, o.1 = none) ∧
      ((Step.write (fields ts) (7, 4, ())).run k).1 = none) ∧
    ((Step.session ((parts ts (7, 3, ())).map Step.ofItem) k).1 =
        [(none, [5, 0, 0, 0, 7])] ++ (some (.refused (.oddWritten 3)), [5, 0, 0, 0, 7]) :: [] ∧
      ∃ w', (Step.write (fields ts) (7, 3, ())).run k = (some (.refused (.oddWritten 3)), w') ∧
        w'.sink.buffer = [5, 0, 0, 0, 7]) ∧
    parts _ u = v.val.map (Sigma.mk .uint32) ∧
      (array 2 .uint32).write v = (fields (List.replicate 2 .uint32)).write u := by
  intro ss b c ts k v u
  obtain ⟨-, hread, hwrite, -, harray⟩ := sessions_compose
  have hb : (Decoder.session (ss.map (reader .none)) b).1 =
      [(.ok ⟨.uint32, 7⟩, b.drop 4), (.ok ⟨.word .bool, true⟩, b.drop 8),
        (.ok ⟨.uint32, 8⟩, [9])] := rfl
  have hsucceeds : ∀ o ∈ (Decoder.session (ss.map (reader .none)) b).1, ∃ x, o.1 = .ok x := by
    rw [hb]
    simp
  have hc : (Decoder.session (ss.map (reader .none)) c).1 =
      [(.ok ⟨.uint32, 7⟩, c.drop 4)] ++ (.error (.invalidBool 2), c.drop 8) ::
        [(.ok ⟨.uint32, 8⟩, [9])] := rfl
  have heven : ∀ o ∈ (Step.session ((parts ts (7, 4, ())).map Step.ofItem) k).1, o.1 = none := by
    decide +kernel
  have hodd : (Step.session ((parts ts (7, 3, ())).map Step.ofItem) k).1 =
      [(none, [5, 0, 0, 0, 7])] ++ (some (.refused (.oddWritten 3)), [5, 0, 0, 0, 7]) :: [] := by
    decide +kernel
  have hparts : parts _ u = v.val.map (Sigma.mk .uint32) := rfl
  refine ⟨⟨hsucceeds, ?_⟩, ⟨hc, ?_⟩, ⟨heven, ?_⟩, ⟨hodd, ?_⟩, hparts, ?_⟩
  · obtain ⟨v, hv, -⟩ := (hread .none b ss).1 hsucceeds
    exact ⟨v, hv⟩
  · exact (hread .none c ss).2 _ _ _ _ hc (by simp)
  · rw [(hwrite ts (7, 4, ()) k).1 heven]
  · exact (hwrite ts (7, 3, ()) k).2 _ _ _ _ hodd (by simp)
  · exact (harray 2 .uint32).2.1 v u hparts

end OncWire
