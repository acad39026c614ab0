import Mathlib.Tactic.Common
import OncWire.Message.Receive
import OncWire.Proofs.Width

/-!
# What a decoder depends on

The outcome of a decoder depends only on the bytes that it takes.  Bytes that come
after them change neither a value nor a fault, except for the two faults that say
that the input is too short (`Fault.IsShortage`); and where fewer bytes are given
than were taken, one of these two faults is raised (`Decoder.Local`).

The checks of lengths and counts look at the number of all the bytes that are left,
so the law is not immediate; but a check that is passed is passed with more bytes as
well, and a check that fails raises one of the two faults.  Being stable in this
sense survives composition (`Decoder.Stable.closed`).  Where the items of every
counted run take bytes, the check asks for no more bytes than the items take, and
then nothing but the bytes that are taken has to be there (`Shape.selfDelimiting`).
-/

namespace OncWire

/-- The fault says that the input is too short. -/
def Fault.IsShortage : Fault → Prop
  | unexpectedEof => True
  | malformedLength _ _ => True
  | _ => False

namespace Decoder

variable {α β : Type} {lim : Limits}

/-! ### More bytes -/

/-- A decoder on whose outcome more bytes have no influence, unless the input was too short. -/
structure Stable (d : Decoder α) : Prop where
  /-- A value is taken off the front of the input, whatever follows. -/
  ok_append ⦃b r : Bytes⦄ ⦃v : α⦄ : d b = .ok v r →
    ∃ w, b = w ++ r ∧ ∀ t, d (b ++ t) = .ok v (r ++ t)
  /-- A fault is raised somewhere in the input, whatever follows if it is no shortage. -/
  error_append ⦃b r : Bytes⦄ ⦃f : Fault⦄ : d b = .error f r →
    ∃ w, b = w ++ r ∧ (¬ f.IsShortage → ∀ t, d (b ++ t) = .error f (r ++ t))

namespace Stable

/-- Yielding a value is stable. -/
lemma pure (v : α) : Stable (pure v : Decoder α) where
  ok_append b r u h := by
    cases h
    exact ⟨[], rfl, fun t => rfl⟩
  error_append b r f h := by cases h

/-- Failing is stable. -/
lemma throw (f : Fault) : Stable (throw f : Decoder α) where
  ok_append b r v h := by cases h
  error_append b r g h := by
    cases h
    exact ⟨[], rfl, fun _ t => rfl⟩

/-- Composition keeps a decoder stable. -/
lemma bind {d : Decoder α} {g : α → Decoder β} (hd : d.Stable) (hg : ∀ v, (g v).Stable) :
    (d >>= g).Stable where
  ok_append b r u h := by
    obtain ⟨v, q, hv, hu⟩ := bind_eq_ok_iff.mp h
    obtain ⟨w, hb, hvt⟩ := hd.ok_append hv
    obtain ⟨w', hq, hut⟩ := (hg v).ok_append hu
    refine ⟨w ++ w', by rw [hb, hq, List.append_assoc], fun t => ?_⟩
    rw [bind_of_ok (hvt t), hut]
  error_append b r f h := by
    rcases bind_eq_error_iff.mp h with hf | ⟨v, q, hv, hf⟩
    · obtain ⟨w, hb, hft⟩ := hd.error_append hf
      exact ⟨w, hb, fun hne t => bind_of_error (hft hne t)⟩
    · obtain ⟨w, hb, hvt⟩ := hd.ok_append hv
      obtain ⟨w', hq, hft⟩ := (hg v).error_append hf
      refine ⟨w ++ w', by rw [hb, hq, List.append_assoc], fun hne t => ?_⟩
      rw [bind_of_ok (hvt t), hft hne]

/-- Taking a number of bytes is stable. -/
lemma take (n : Nat) : (take n).Stable where
  ok_append b r bs h := by
    obtain ⟨hlen, rfl⟩ := take_eq_ok_iff.mp h
    refine ⟨bs, rfl, fun t => take_eq_ok_iff.mpr ⟨hlen, ?_⟩⟩
    rw [List.append_assoc]
  error_append b r f h := by
    obtain ⟨rfl, rfl, -⟩ := take_eq_error_iff.mp h
    exact ⟨[], rfl, fun hne => (hne trivial).elim⟩

/-- Taking a length or count is stable: a check that is passed is passed with more bytes too. -/
lemma length (unit : Nat) : (length lim unit).Stable where
  ok_append b r n h := by
    obtain ⟨hmax, hrest, rfl⟩ := length_eq_ok_iff.mp h
    refine ⟨wordBytes (UInt32.ofNat n), rfl, fun t => length_eq_ok_iff.mpr ⟨hmax, ?_, ?_⟩⟩
    · rw [List.length_append]
      omega
    · rw [List.append_assoc]
  error_append b r f h := by
    rcases length_eq_error_iff.mp h with ⟨rfl, rfl, -⟩ | ⟨w, rfl, ⟨hmax, rfl⟩ | ⟨-, -, rfl⟩⟩
    · exact ⟨[], rfl, fun hne => (hne trivial).elim⟩
    · refine ⟨wordBytes w, rfl, fun _ t => length_eq_error_iff.mpr (.inr ⟨w, ?_, .inl ⟨hmax, rfl⟩⟩)⟩
      rw [List.append_assoc]
    · exact ⟨wordBytes w, rfl, fun hne => (hne trivial).elim⟩

/-- Taking data and its padding is stable. -/
lemma padded (n : Nat) : (padded lim n).Stable := by
  refine (take n).bind fun bs => (take _).bind fun pad => ?_
  split
  · exact (throw _).bind fun _ => pure bs
  · exact pure bs

/-- Being stable survives composition. -/
lemma composable : Composable Stable where
  pure := pure
  throw := throw
  bind := bind
  word := (take 4).bind fun _ => pure _

end Stable

end Decoder

namespace Chain

/-- One node of a linked list, and after it what the given decoder reads. -/
def node (next : Decoder Chain) : Decoder Chain := do
  let w ← Decoder.word
  let flag ← Decoder.word
  if flag = 0 then return ⟨w, []⟩
  else if flag = 1 then return ⟨w, (← next).toList⟩
  else throw (.invalidOption flag)

/-- What comes after a node matters only on inputs that are eight bytes shorter. -/
lemma node_congr {next next' : Decoder Chain} {b : Bytes}
    (h : ∀ q : Bytes, q.length + 8 = b.length → next q = next' q) : node next b = node next' b := by
  refine Decoder.bind_run_congr fun w q hw => Decoder.bind_run_congr fun flag q' hflag => ?_
  obtain rfl := Decoder.word_eq_ok_iff.mp hw
  obtain rfl := Decoder.word_eq_ok_iff.mp hflag
  have hlen : q'.length + 8 = (wordBytes w ++ (wordBytes flag ++ q')).length := by
    simp only [List.length_append, length_wordBytes]
    omega
  have hnext : next q' = next' q' := h q' hlen
  split
  · rfl
  · split
    · cases hrun : next' q' with
      | ok c r => rw [Decoder.bind_of_ok hrun, Decoder.bind_of_ok (hnext.trans hrun)]
      | error f r => rw [Decoder.bind_of_error hrun, Decoder.bind_of_error (hnext.trans hrun)]
    · rfl

/-- More fuel than there are nodes in the input makes no difference. -/
lemma decodeNodes_congr {m n : Nat} {b : Bytes} (hm : b.length < 8 * m) (hn : b.length < 8 * n) :
    decodeNodes m b = decodeNodes n b := by
  induction m generalizing n b with
  | zero => omega
  | succ m ih =>
    obtain ⟨n, rfl⟩ : ∃ k, n = k + 1 := ⟨n - 1, by omega⟩
    -- A node takes eight bytes and one unit of fuel, so both bounds survive it.
    have hnodes : node (decodeNodes m) b = node (decodeNodes n) b :=
      node_congr fun q hq => ih (by omega) (by omega)
    exact hnodes

/-- On inputs up to a length, reading a linked list is reading its nodes with some fixed fuel. -/
lemma decode_eq_decodeNodes {n : Nat} {b : Bytes} (h : b.length ≤ n) :
    Chain.decode b = decodeNodes (n + 1) b :=
  decodeNodes_congr (m := b.length / 8 + 1) (by omega) (by omega)

end Chain

namespace Decoder

variable {α β : Type} {lim : Limits}

namespace Stable

/-- A decoder is stable if on inputs up to any length it agrees with one that is. -/
lemma of_agree {d : Decoder α}
    (h : ∀ n, ∃ d' : Decoder α, d'.Stable ∧ ∀ b : Bytes, b.length ≤ n → d b = d' b) :
    d.Stable where
  ok_append b r v hrun := by
    obtain ⟨d', hd', hagree⟩ := h b.length
    obtain ⟨w, hb, -⟩ := hd'.ok_append ((hagree b (Nat.le_refl _)).symm.trans hrun)
    refine ⟨w, hb, fun t => ?_⟩
    obtain ⟨d', hd', hagree⟩ := h (b ++ t).length
    have hshort := hagree b (by rw [List.length_append]; omega)
    obtain ⟨-, -, hlong⟩ := hd'.ok_append (hshort.symm.trans hrun)
    exact (hagree (b ++ t) (Nat.le_refl _)).trans (hlong t)
  error_append b r f hrun := by
    obtain ⟨d', hd', hagree⟩ := h b.length
    obtain ⟨w, hb, -⟩ := hd'.error_append ((hagree b (Nat.le_refl _)).symm.trans hrun)
    refine ⟨w, hb, fun hne t => ?_⟩
    obtain ⟨d', hd', hagree⟩ := h (b ++ t).length
    have hshort := hagree b (by rw [List.length_append]; omega)
    obtain ⟨-, -, hlong⟩ := hd'.error_append (hshort.symm.trans hrun)
    exact (hagree (b ++ t) (Nat.le_refl _)).trans (hlong hne t)

/-- Being stable holds of every decoder of shapes. -/
lemma closed (lim : Limits) : Closed lim Stable where
  toComposable := composable
  hyper := (take 8).bind fun _ => pure _
  length := length
  padded := padded
  chain := of_agree fun n => ⟨Chain.decodeNodes (n + 1), composable.decodeNodes _,
    fun _ => Chain.decode_eq_decodeNodes⟩

end Stable

/-- A decoder whose outcome depends only on the bytes that it takes: it is stable, and it needs all
the bytes that it takes. -/
structure Local (d : Decoder α) : Prop extends Stable d where
  /-- Fewer bytes than were taken for a value are too few. -/
  shortage_of_lt ⦃b r : Bytes⦄ ⦃v : α⦄ : d b = .ok v r →
    ∀ p t, b = p ++ t → p.length < b.length - r.length →
      ∃ f q, d p = .error f q ∧ f.IsShortage

/-- Every stable decoder needs all the bytes that it takes: any other outcome on fewer bytes would
persist when the rest is added. -/
lemma Stable.local {d : Decoder α} (hd : d.Stable) : d.Local where
  toStable := hd
  shortage_of_lt b r v h p t hb hlt := by
    subst hb
    cases hp : d p with
    | ok u q =>
      obtain ⟨w, rfl, hmore⟩ := hd.ok_append hp
      rw [hmore t] at h
      cases h
      simp only [List.length_append] at hlt
      omega
    | error f q =>
      by_contra hnone
      obtain ⟨w, -, hmore⟩ := hd.error_append hp
      have hne : ¬ f.IsShortage := fun hf => hnone ⟨f, q, rfl, hf⟩
      rw [hmore hne t] at h
      cases h

/-! ### Fewer bytes -/

/-- A decoder that takes a value from bytes that hold nothing else, and from the same bytes in front
of any others. -/
def SelfDelimiting (d : Decoder α) : Prop :=
  ∀ ⦃b r : Bytes⦄ ⦃v : α⦄, d b = .ok v r → ∃ w, b = w ++ r ∧ ∀ t, d (w ++ t) = .ok v t

namespace SelfDelimiting

/-- Yielding a value needs no bytes. -/
lemma pure (v : α) : SelfDelimiting (pure v : Decoder α) := by
  intro b r u h
  cases h
  exact ⟨[], rfl, fun t => rfl⟩

/-- A fault is no value. -/
lemma throw (f : Fault) : SelfDelimiting (throw f : Decoder α) := by
  intro b r v h
  cases h

/-- Composed decoders need the bytes of both parts. -/
lemma bind {d : Decoder α} {g : α → Decoder β} (hd : d.SelfDelimiting)
    (hg : ∀ v, (g v).SelfDelimiting) : (d >>= g).SelfDelimiting := by
  intro b r u h
  obtain ⟨v, q, hv, hu⟩ := bind_eq_ok_iff.mp h
  obtain ⟨w, rfl, hvt⟩ := hd hv
  obtain ⟨w', rfl, hut⟩ := hg v hu
  refine ⟨w ++ w', by rw [List.append_assoc], fun t => ?_⟩
  rw [List.append_assoc, bind_of_ok (hvt _), hut]

/-- Taking a number of bytes needs those bytes. -/
lemma take (n : Nat) : (take n).SelfDelimiting := by
  intro b r bs h
  obtain ⟨hlen, rfl⟩ := take_eq_ok_iff.mp h
  exact ⟨bs, rfl, fun t => take_append hlen t⟩

/-- Needing only what is taken survives composition. -/
lemma composable : Composable SelfDelimiting where
  pure := pure
  throw := throw
  bind := bind
  word := (take 4).bind fun _ => pure _

/-- Taking data and its padding needs their bytes. -/
lemma padded (n : Nat) : (padded lim n).SelfDelimiting := by
  refine (take n).bind fun bs => (take _).bind fun pad => ?_
  split
  · exact (throw _).bind fun _ => pure bs
  · exact pure bs

/-- A count needs no more bytes than its items take, if each of them takes the bytes that are asked
for in the check of the count. -/
lemma length_bind {unit : Nat} {g : Nat → Decoder β} (hg : ∀ n, (g n).SelfDelimiting)
    (htakes : ∀ n, Takes (n * unit) (g n)) : (length lim unit >>= g).SelfDelimiting := by
  intro b r u h
  obtain ⟨n, q, hn, hu⟩ := bind_eq_ok_iff.mp h
  obtain ⟨hmax, -, rfl⟩ := length_eq_ok_iff.mp hn
  -- The items take as many bytes as the check asks for, so their bytes alone pass it.
  have hlen := htakes n hu
  obtain ⟨w, rfl, hut⟩ := hg n hu
  rw [List.length_append] at hlen
  refine ⟨wordBytes (UInt32.ofNat n) ++ w, by rw [List.append_assoc], fun t => ?_⟩
  have hrest : n * unit ≤ (w ++ t).length := by
    rw [List.length_append]
    omega
  rw [List.append_assoc, bind_of_ok (length_eq_ok_iff.mpr ⟨hmax, hrest, rfl⟩), hut]

/-- A counted run needs no more bytes than its count and its items take. -/
lemma counted {d : Decoder α} {unit : Nat} (hd : d.SelfDelimiting) (htakes : Takes unit d)
    (g : List α → β) :
    SelfDelimiting (do let n ← length lim unit; return g (← times d n).val) :=
  length_bind (fun n => (composable.times hd n).bind fun _ => pure _)
    fun n => (htakes.times n).map _

/-- Data of variable length needs its own bytes. -/
lemma data : (data lim).SelfDelimiting :=
  length_bind padded fun n => (Takes.padded n).mono (by omega)

/-- A string needs its own bytes. -/
lemma text : (text lim).SelfDelimiting := by
  refine data.bind fun bs => ?_
  split
  · exact pure _
  · exact throw _

/-- A linked list needs its own bytes. -/
lemma chain : Chain.decode.SelfDelimiting := by
  intro b r c h
  have hfuel : ∀ n, b.length ≤ n → ∃ w, b = w ++ r ∧
      ∀ t, Chain.decodeNodes (n + 1) (w ++ t) = .ok c t := by
    intro n hn
    rw [Chain.decode_eq_decodeNodes hn] at h
    exact composable.decodeNodes _ h
  obtain ⟨w, rfl, -⟩ := hfuel b.length (Nat.le_refl _)
  refine ⟨w, rfl, fun t => ?_⟩
  -- One fuel that is enough for both inputs stands between the two runs.
  obtain ⟨w', hw, hnodes⟩ := hfuel ((w ++ r).length + t.length) (by omega)
  obtain rfl : w = w' := List.append_cancel_right hw
  rw [Chain.decode_eq_decodeNodes (n := (w ++ r).length + t.length), hnodes]
  simp only [List.length_append]
  omega

end SelfDelimiting

end Decoder

namespace Shape

open Decoder (SelfDelimiting Takes)

/-! ### Values of shapes -/

/-- Where every item of a counted run takes bytes, a value is read from its own bytes alone. -/
lemma selfDelimiting {s : Shape} (hs : s.ZeroWidthItemFree) (lim : Limits) :
    (s.decode lim).SelfDelimiting := by
  have hclosed := SelfDelimiting.composable
  induction s with
  | void => exact hclosed.pure _
  | word k => exact hclosed.bind hclosed.word fun _ => hclosed.ofExcept _
  | hyper k =>
    exact hclosed.bind ((SelfDelimiting.take 8).bind fun _ => hclosed.pure _) fun _ =>
      hclosed.pure _
  | huge signed => exact hclosed.throw _
  | any skipped => exact hclosed.throw _
  | text => exact SelfDelimiting.text
  | bytes => exact SelfDelimiting.data
  | option s ih =>
    refine hclosed.bind hclosed.word fun flag => ?_
    split
    · exact hclosed.pure _
    · split
      · exact hclosed.bind (ih hs) fun _ => hclosed.pure _
      · exact hclosed.throw _
  | seq c s ih =>
    exact SelfDelimiting.counted (ih hs.2) (takes_four hs.1)
      fun xs => (⟨xs, none⟩ : Counted s.Val)
  | map c k t ihk iht =>
    obtain ⟨hk, ht, hsk, hst⟩ := hs
    exact SelfDelimiting.counted (hclosed.entry (ihk hsk) (iht hst))
      ((takes_four hk).entry (takes_four ht)) fun xs => (⟨xs, none⟩ : Counted (k.Val × t.Val))
  | array n s ih => exact hclosed.times (ih hs) n
  | pair s t ihs iht => exact hclosed.entry (ihs hs.1) (iht hs.2)
  | record name s ih => exact ih hs
  | variants name n arm ih =>
    refine hclosed.bind hclosed.word fun index => ?_
    split
    · exact hclosed.bind (ih _ (hs _)) fun _ => hclosed.pure _
    · exact hclosed.throw _
  | union tag arm ih =>
    exact hclosed.bind hclosed.word fun _ => hclosed.bind (hclosed.ofExcept _) fun d =>
      hclosed.bind (ih d (hs d)) fun _ => hclosed.pure _
  | unassigned code name => exact hclosed.throw _
  | surplus s t ihs _ => exact hclosed.bind (ihs hs.1) fun _ => hclosed.throw _
  | chain => exact SelfDelimiting.chain
  | sortedMap =>
    exact SelfDelimiting.counted (hclosed.entry hclosed.word SelfDelimiting.text)
      (Takes.word.entry Takes.text) SortedMap.ofList

end Shape

/-- Items without bytes are read from any bytes that satisfy the check of their count, but those
bytes have to be there. -/
example :
    (Shape.seq .known .void).decode .none [0, 0, 0, 1, 7, 7, 7, 7] =
        .ok ⟨[()], none⟩ [7, 7, 7, 7] ∧
      (Shape.seq .known .void).decode .none [0, 0, 0, 1] = .error (.malformedLength 1 0) [] := by
  decide +kernel

/-! ### Headers -/

/-- Reading a value of a type with a wire form is stable. -/
lemma stable_decode {α : Type} [Wire α] (lim : Limits) :
    Decoder.Stable (Wire.decode lim : Decoder α) := by
  have hclosed := Decoder.Stable.closed lim
  exact hclosed.bind (hclosed.shape _) fun v => hclosed.pure _

/-- Receiving a header is reading it and then passing a verdict. -/
lemma result_receive {α : Type} [Wire α] (lim : Limits) (judge : α → Verdict) :
    (fun b => (receive lim judge b).result) = (do
      let header ← Wire.decode lim
      match (judge header).fault with
      | none => return header
      | some f => throw f : Decoder α) := by
  funext b
  rw [receive]
  cases h : (Wire.decode lim b : Reading α) with
  | error f r => rw [Decoder.bind_of_error h]
  | ok header r =>
    rw [Decoder.bind_of_ok h]
    cases hfault : (judge header).fault <;> simp only [hfault] <;> rfl

/-- Receiving a header is stable. -/
lemma stable_receive {α : Type} [Wire α] (lim : Limits) (judge : α → Verdict) :
    Decoder.Stable fun b => (receive lim judge b).result := by
  rw [result_receive]
  have hclosed := Decoder.Stable.closed lim
  refine hclosed.bind (stable_decode lim) fun header => ?_
  cases (judge header).fault with
  | none => exact hclosed.pure header
  | some f => exact hclosed.throw f

/-- A header is received from its own bytes alone, if every item of its counted runs takes bytes. -/
lemma selfDelimiting_receive {α : Type} [Wire α] (h : (Wire.shape α).ZeroWidthItemFree)
    (lim : Limits) (judge : α → Verdict) :
    Decoder.SelfDelimiting fun b => (receive lim judge b).result := by
  rw [result_receive]
  have hclosed := Decoder.SelfDelimiting.composable
  refine hclosed.bind (hclosed.bind (Shape.selfDelimiting h lim) fun v => hclosed.pure _)
    fun header => ?_
  cases (judge header).fault with
  | none => exact hclosed.pure header
  | some f => exact hclosed.throw f

/-! ### The law -/

/-- The outcome of reading a value of any shape or type, and of receiving a call or a reply, depends
only on the bytes that are taken for it.  Where every item of a counted run takes bytes, as in every
call and reply, nothing else has to be there. -/
theorem decode_local_and_selfDelimiting :
    (∀ (s : Shape) (lim : Limits), (s.decode lim).Local ∧
      (s.ZeroWidthItemFree → (s.decode lim).SelfDelimiting)) ∧
    (∀ (α : Type) [Wire α] (lim : Limits), (Wire.decode lim : Decoder α).Local ∧
      ((Wire.shape α).ZeroWidthItemFree → (Wire.decode lim : Decoder α).SelfDelimiting)) ∧
    (∀ lim : Limits, Decoder.Local (fun b => (decodeCall lim b).result) ∧
      Decoder.SelfDelimiting fun b => (decodeCall lim b).result) ∧
    Decoder.Local (fun b => (decodeReply b).result) ∧
    Decoder.SelfDelimiting fun b => (decodeReply b).result := by
  have hstable := Decoder.Stable.closed
  have hexact := Decoder.SelfDelimiting.composable
  refine ⟨fun s lim => ⟨((hstable lim).shape s).local, fun hs => s.selfDelimiting hs lim⟩,
    fun α _ lim => ⟨?_, fun hs => ?_⟩, fun lim => ⟨?_, ?_⟩, ?_, ?_⟩
  · exact ((hstable lim).bind ((hstable lim).shape _) fun v => (hstable lim).pure _).local
  · exact hexact.bind (Shape.selfDelimiting hs lim) fun v => hexact.pure _
  · exact (stable_receive lim CallMessage.verdict).local
  · exact selfDelimiting_receive LawfulWire.zeroWidthItemFree lim CallMessage.verdict
  · exact (stable_receive .none ReplyMessage.verdict).local
  · exact selfDelimiting_receive LawfulWire.zeroWidthItemFree .none ReplyMessage.verdict

/-- A list of strings is read from its own bytes alone, and from any part of them not at all. -/
theorem decode_local_and_selfDelimiting_texts :
    let s : Shape := .seq .known .text
    let v : s.Val := ⟨["a"], none⟩
    let w : Bytes := [0, 0, 0, 1, 0, 0, 0, 1, 97, 0, 0, 0]
    s.ZeroWidthItemFree ∧ s.decode .none (w ++ [9]) = .ok v [9] ∧
      s.decode .none w = .ok v [] ∧
      ∀ p t : Bytes, w ++ [9] = p ++ t → p.length < 12 →
        ∃ f q, s.decode .none p = .error f q ∧ f.IsShortage := by
  intro s v w
  have hs : s.ZeroWidthItemFree := ⟨rfl, trivial⟩
  have hv : s.decode .none (w ++ [9]) = .ok v [9] := by decide +kernel
  obtain ⟨hlocal, hexact⟩ := decode_local_and_selfDelimiting.1 s .none
  refine ⟨hs, hv, ?_, fun p t hp hlt => hlocal.shortage_of_lt hv p t hp hlt⟩
  obtain ⟨w', hw, hmore⟩ := hexact hs hv
  obtain rfl : w = w' := List.append_cancel_right hw
  have hnil := hmore []
  rwa [List.append_nil] at hnil

end OncWire
