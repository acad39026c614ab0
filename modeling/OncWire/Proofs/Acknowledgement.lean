import Mathlib.Tactic.Common
import OncWire.Proofs.ReplyHeader
import OncWire.Proofs.Truncation

/-!
# Acknowledging a call in one write

The header of an accepted reply with an empty verifier can be handed over in one write,
or through its shape, a word at a time.  A sink that fills up in between sees these
writes at different places, and the writer of the session counts them differently.
Neither can be told from the outside: a step of a session does what its form says
(`Step.run_eq`), so steps of equal form can stand for each other wherever they occur
(`Step.session_congr`), and the two forms are equal (`ReplyMessage.encode_accepted`).
-/

namespace OncWire

/-! ### Steps of equal form -/

namespace Step

variable {step step' : Step} {steps steps' : List Step} {w w' : Writer}

/-- Steps of equal form end alike on equal sinks and leave them alike. -/
lemma run_congr (hform : step.form = step'.form) (hsink : w.sink = w'.sink) :
    (step.run w).1 = (step'.run w').1 ∧ (step.run w).2.sink = (step'.run w').2.sink := by
  obtain ⟨count, hrun⟩ := step.run_eq w
  obtain ⟨count', hrun'⟩ := step'.run_eq w'
  rw [hrun, hrun', hform, hsink]
  exact ⟨rfl, rfl⟩

/-- Sessions whose steps have equal forms have the same outcomes on equal sinks and leave them
alike, whatever the writers have counted before. -/
lemma session_congr (hform : steps.map form = steps'.map form) (hsink : w.sink = w'.sink) :
    (session steps w).1 = (session steps' w').1 ∧
      (session steps w).2.sink = (session steps' w').2.sink := by
  induction steps generalizing steps' w w' with
  | nil =>
    obtain rfl : steps' = [] := List.map_eq_nil_iff.mp hform.symm
    exact ⟨rfl, hsink⟩
  | cons step steps ih =>
    cases steps' with
    | nil => cases hform
    | cons step' steps' =>
      obtain ⟨hhead, htail⟩ := List.cons.inj hform
      obtain ⟨hfault, hafter⟩ := run_congr hhead hsink
      obtain ⟨houtcomes, hlast⟩ := ih htail hafter
      simp only [session]
      rw [hfault, hafter, houtcomes]
      exact ⟨rfl, hlast⟩

end Step

/-! ### The header of an accepted reply -/

/-- The header of an accepted reply with an empty verifier is written as it is laid out. -/
lemma ReplyMessage.encode_accepted (status : AcceptStat) (xid : UInt32) :
    Wire.encode (accepted xid status) = ⟨acceptedHeader status xid, none⟩ := by
  have hempty : (accepted xid status).body.verifierLength = 0 := rfl
  have hlayout : (accepted xid status).form (padding 0) = acceptedHeader status xid := rfl
  rw [encode_eq_form (by rw [hempty]; exact Nat.zero_le _), hempty, hlayout]

open Step in
/-- Acknowledging a call in one write cannot be told from writing the header of the accepted reply
through its shape.  On every sink, with any contents, limit and refusal, the step ends alike and
leaves the sink alike, be the value written by the writer of the session or by a new one; and so do
the steps before and after it in any session.

The bytes that are handed over are the whole form of that header, twenty-four of them, and those of
a success are prepared as such.  In front of any results they are received as that reply. -/
theorem acknowledge_agrees_with_write (status : AcceptStat) (xid : UInt32) :
    let reply := ReplyMessage.accepted xid status
    let value := Wire.toVal reply
    (∀ step ∈ [write _ value, writeAnew _ value],
      (∀ w : Writer,
        ((acknowledge status xid).run w).1 = (step.run w).1 ∧
        ((acknowledge status xid).run w).2.sink = (step.run w).2.sink) ∧
      ∀ (before after : List Step) (w : Writer),
        let fast := session (before ++ acknowledge status xid :: after) w
        let plain := session (before ++ step :: after) w
        fast.1 = plain.1 ∧ fast.2.sink = plain.2.sink) ∧
    Wire.encode reply = ⟨acceptedHeader status xid, none⟩ ∧
    (acceptedHeader status xid).length = 24 ∧
    Wire.encode (ReplyMessage.accepted xid .success) = ⟨successReply xid, none⟩ ∧
    ∀ results : Bytes,
      (decodeReply (acceptedHeader status xid ++ results)).result = .ok reply results := by
  intro reply value
  have hencode := ReplyMessage.encode_accepted status xid
  refine ⟨fun step hstep => ?_, hencode, length_acceptedHeader status xid,
    ReplyMessage.encode_accepted .success xid, fun results => ?_⟩
  · have hwritten : step.form = Wire.encode reply := by
      rcases List.mem_pair.mp hstep with rfl | rfl <;> rfl
    have hform : (acknowledge status xid).form = step.form := by
      rw [hwritten, hencode]
      rfl
    refine ⟨fun w => run_congr hform rfl, fun before after w => session_congr ?_ rfl⟩
    rw [List.map_append, List.map_append, List.map_cons, List.map_cons, hform]
  · exact decodeReply_eq_ok_iff.mpr
      ⟨ReplyMessage.decode_of_encode hencode results, rfl, Nat.zero_le _⟩

/-- A sink that fills up in the third word holds the same ten bytes either way. -/
example :
    let w : Writer := ⟨{ buffer := [9], limit := some 11, refusal := "full" }, 0⟩
    let fast := (Step.acknowledge .garbageArgs 7).run w
    let plain := (Step.write _ (Wire.toVal (ReplyMessage.accepted 7 .garbageArgs))).run w
    fast.1 = some (.io "full") ∧ plain.1 = some (.io "full") ∧
      fast.2.sink.buffer = [9, 0, 0, 0, 7, 0, 0, 0, 1, 0, 0] ∧
      plain.2.sink.buffer = [9, 0, 0, 0, 7, 0, 0, 0, 1, 0, 0] := by
  decide +kernel

end OncWire
