import Mathlib.Tactic.Common
import OncWire.Proofs.Locality

/-!
# Refused words

Most faults of a reader are about one word: a discriminant that selects nothing, a
flag, a narrow integer, an odd number, a length or a count.  Such a fault blames the
word (`Fault.word?`), and what it says about it holds (`Fault.TrueOf`).  Moreover the
word is the last one that was taken, so whoever looks at the four bytes before the
ones that are left finds it there.

A word is refused by the decoder that took it or, as with flags and discriminants, by
one that goes on after it.  `Decoder.Truthful` therefore speaks of a decoder behind
some bytes that were taken before, and composition passes these on.
-/

namespace OncWire

/-! ### What a fault says -/

/-- The word that a fault is about: a length or count as a word, and a number out of range as the
word that stands for it, in two's complement if it is negative. -/
def Fault.word? : Fault → Option UInt32
  | unmappedDiscriminant w _ => some w
  | invalidBool w => some w
  | invalidOption w => some w
  | integerOutOfRange _ n => some (UInt32.ofInt n)
  | lengthOverflow _ got => some (UInt32.ofNat got)
  | malformedLength w _ => some w
  | refused (.oddRead w) => some w
  | _ => none

/-- What a fault says about the word `w` is true for a reader with the given limits, where `left`
bytes are left.  That a discriminant selects nothing is taken as given by `unmapped`. -/
def Fault.TrueOf (lim : Limits) (unmapped : UInt32 → String → Prop) (w : UInt32) (left : Nat) :
    Fault → Prop
  | unmappedDiscriminant _ title => unmapped w title
  | invalidBool _ => 2 ≤ w.toNat
  | invalidOption _ => 2 ≤ w.toNat
  | integerOutOfRange k n => n = k.number w ∧ (n < k.least ∨ k.greatest < n)
  | lengthOverflow max got => max = lim.maxLength.toNat ∧ got = w.toNat ∧ max < got
  | malformedLength _ remaining =>
    remaining = left ∧ w.toNat ≤ lim.maxLength.toNat ∧ ∃ unit ∈ [1, 4, 8], left < w.toNat * unit
  | refused (.oddRead _) => w % 2 = 1
  | _ => True

/-- A word selects nothing where a scalar is read: it is the code of no member of the enumeration
of that title. -/
def Word.Unmaps : Word → UInt32 → String → Prop
  | enumeration e, w, title => title = e.title ∧ ∀ m : e.Member, Enumerated.code m ≠ w
  | _, _, _ => False

namespace Shape

/-- A word selects nothing in some part of a shape: it is no code of an enumeration, no index of a
variant, or the code of a discriminant whose arm is unassigned. -/
def Unmaps : Shape → UInt32 → String → Prop
  | word k, w, title => k.Unmaps w title
  | option s, w, title => s.Unmaps w title
  | seq _ s, w, title => s.Unmaps w title
  | map _ k v, w, title => k.Unmaps w title ∨ v.Unmaps w title
  | array _ s, w, title => s.Unmaps w title
  | pair s t, w, title => s.Unmaps w title ∨ t.Unmaps w title
  | record _ s, w, title => s.Unmaps w title
  | variants name n arm, w, title =>
    (n ≤ w.toNat ∧ title = s!"{name} variant index below {n}") ∨ ∃ i, (arm i).Unmaps w title
  | union tag arm, w, title =>
    tag.Unmaps w title ∨ ∃ d, (tag.encode d = .ok w ∧ arm d = unassigned w title) ∨
      (arm d).Unmaps w title
  | surplus s _, w, title => s.Unmaps w title
  | _, _, _ => False

/-- Unassigned arms stand only in unions, and each of them gives the code of its own discriminant. -/
def ReportsCodes : Shape → Prop
  | option s => s.ReportsCodes
  | seq _ s => s.ReportsCodes
  | map _ k v => k.ReportsCodes ∧ v.ReportsCodes
  | array _ s => s.ReportsCodes
  | pair s t => s.ReportsCodes ∧ t.ReportsCodes
  | record _ s => s.ReportsCodes
  | variants _ _ arm => ∀ i, (arm i).ReportsCodes
  | union tag arm => ∀ d,
    (∃ w title, tag.encode d = .ok w ∧ arm d = unassigned w title) ∨ (arm d).ReportsCodes
  | unassigned _ _ => False
  | surplus s t => s.ReportsCodes ∧ t.ReportsCodes
  | _ => True

end Shape

/-- A type whose unassigned arms give the codes of their own discriminants. -/
class CodedWire (α : Type) [Wire α] : Prop where
  /-- Unassigned arms give the codes of their discriminants. -/
  reportsCodes : (Wire.shape α).ReportsCodes

namespace CodedWire

instance : CodedWire OpaqueAuth where
  reportsCodes := by simp [Wire.shape, Shape.ReportsCodes]

instance : CodedWire AuthSysParms where
  reportsCodes := by simp [Wire.shape, Shape.ReportsCodes]

instance : CodedWire CallBody where
  reportsCodes := by simp [Wire.shape, Shape.ReportsCodes]

instance : CodedWire CallMessage where
  reportsCodes := by simp [Wire.shape, Shape.ReportsCodes]

instance : CodedWire MismatchInfo where
  reportsCodes := by simp [Wire.shape, Shape.ReportsCodes]

instance : CodedWire AcceptedReply where
  reportsCodes := by simp [Wire.shape, Shape.ReportsCodes]

instance : CodedWire RejectedReply where
  reportsCodes
    | .rpcMismatch => .inr (reportsCodes (α := MismatchInfo))
    | .authError => .inr trivial

instance : CodedWire ReplyBody where
  reportsCodes
    | .accepted => .inr (reportsCodes (α := AcceptedReply))
    | .denied => .inr (reportsCodes (α := RejectedReply))

instance : CodedWire ReplyMessage where
  reportsCodes := ⟨trivial, trivial, reportsCodes (α := ReplyBody), trivial⟩

instance : CodedWire MessageBody where
  reportsCodes
    | .call => .inr (reportsCodes (α := CallBody))
    | .reply => .inr (reportsCodes (α := ReplyBody))

instance : CodedWire Message where
  reportsCodes := ⟨trivial, reportsCodes (α := MessageBody), trivial⟩

instance : CodedWire Outcome where
  reportsCodes
    | .success | .garbageArgs => .inr trivial
    | .progUnavail | .progMismatch | .procUnavail | .systemErr => .inl ⟨_, _, rfl, rfl⟩

instance : CodedWire Creds where
  reportsCodes
    | .sys => .inr (reportsCodes (α := AuthSysParms))
    | .none | .rpcsecGss => .inr trivial
    | .short | .dh => .inl ⟨_, _, rfl, rfl⟩

instance : CodedWire Switch where
  reportsCodes
    | false | true => .inr trivial

instance : CodedWire Wide where
  reportsCodes
    | .call => .inr trivial
    | .reply => .inr ⟨trivial, trivial⟩

end CodedWire

/-! ### Words that are refused -/

/-- The number that a word stands for gives the word back. -/
lemma Narrow.ofInt_number (k : Narrow) (w : UInt32) : UInt32.ofInt (k.number w) = w := by
  have hlt := w.toNat_lt
  have hsigned : w.toInt32.toInt % 4294967296 = w.toNat := by
    have hbits : w.toInt32.toInt = w.toBitVec.toInt := rfl
    have hnat : w.toBitVec.toNat = w.toNat := rfl
    rw [hbits, BitVec.toInt_eq_toNat_cond, hnat]
    split <;> omega
  have hmod : k.number w % 4294967296 = w.toNat := by
    cases k with
    | int8 | int16 => exact hsigned
    | uint8 | uint16 =>
      have hunsigned : (w.toNat : Int) % 4294967296 = w.toNat := by omega
      exact hunsigned
  apply UInt32.toNat_inj.mp
  simp only [UInt32.ofInt, UInt32.toNat_ofNat']
  omega

/-- A word that is neither of two flags is at least two. -/
lemma two_le_toNat {w : UInt32} (hzero : w ≠ 0) (hone : w ≠ 1) : 2 ≤ w.toNat := by
  have h0 : w.toNat ≠ 0 := fun h => hzero (UInt32.toNat_inj.mp h)
  have h1 : w.toNat ≠ 1 := fun h => hone (UInt32.toNat_inj.mp h)
  omega

/-- What a fault says stays true if more is known to select nothing. -/
lemma Fault.TrueOf.mono {lim : Limits} {unmapped unmapped' : UInt32 → String → Prop} {w : UInt32}
    {left : Nat} {f : Fault} (h : f.TrueOf lim unmapped w left)
    (hmono : ∀ w title, unmapped w title → unmapped' w title) :
    f.TrueOf lim unmapped' w left := by
  cases f with
  | unmappedDiscriminant x title => exact hmono w title h
  | refused why => cases why <;> exact h
  | _ => exact h

/-- Where a scalar is refused for its word, the fault is about that word and is true of it. -/
lemma Word.trueOf_of_decode {k : Word} {w x : UInt32} {f : Fault} (h : k.decode w = .error f)
    (hx : f.word? = some x) (lim : Limits) (left : Nat) : x = w ∧ f.TrueOf lim k.Unmaps w left := by
  cases k with
  | bool =>
    simp only [decode] at h
    split at h
    case isTrue => cases h
    case isFalse hzero =>
      split at h
      case isTrue => cases h
      case isFalse hone =>
        cases h
        cases hx
        exact ⟨rfl, two_le_toNat hzero hone⟩
  | narrow k =>
    simp only [decode] at h
    split at h
    case h_1 => cases h
    case h_2 hnone =>
      cases h
      cases hx
      exact ⟨k.ofInt_number w, rfl, Narrow.ofWord?_eq_none_iff.mp hnone⟩
  | int32 | uint32 | float32 => cases h
  | char =>
    simp only [decode] at h
    split at h
    case isTrue => cases h
    case isFalse =>
      cases h
      cases hx
  | enumeration e =>
    rw [decode_enumeration] at h
    split at h
    case h_1 => cases h
    case h_2 hnone =>
      cases h
      cases hx
      exact ⟨rfl, rfl, Enumerated.ofCode?_eq_none_iff.mp hnone⟩
  | even =>
    rw [decode_even] at h
    split at h
    case isTrue => cases h
    case isFalse hodd =>
      cases h
      cases hx
      have htrue : w % 2 = 1 := by grind
      exact ⟨rfl, htrue⟩
  | nonzero =>
    rw [decode_nonzero] at h
    split at h
    case isTrue => cases h
    case isFalse =>
      cases h
      cases hx

/-! ### Truthful decoders -/

namespace Decoder

variable {α β : Type} {lim : Limits} {unmapped : UInt32 → String → Prop} {taken : Bytes}

/-- A decoder behind the bytes `taken`, each of whose faults about a word is true of that word and
leaves the bytes right behind it. -/
def Truthful (lim : Limits) (unmapped : UInt32 → String → Prop) (taken : Bytes) (d : Decoder α) :
    Prop :=
  ∀ ⦃b r : Bytes⦄ ⦃f : Fault⦄ ⦃w : UInt32⦄, d b = .error f r → f.word? = some w →
    (∃ front, taken ++ b = front ++ (wordBytes w ++ r)) ∧ f.TrueOf lim unmapped w r.length

namespace Truthful

/-- Yielding a value raises no fault. -/
lemma pure (v : α) : Truthful lim unmapped taken (pure v : Decoder α) := by
  intro b r f w h
  cases h

/-- A fault that is about no word has nothing to be true of. -/
lemma throw {f : Fault} (hf : f.word? = none) :
    Truthful lim unmapped taken (throw f : Decoder α) := by
  intro b r g w h hw
  cases h
  rw [hf] at hw
  cases hw

/-- A fault may be raised about the word that was just taken. -/
lemma throw_word {f : Fault} {w : UInt32} (hw : f.word? = some w)
    (hf : ∀ left, f.TrueOf lim unmapped w left) :
    Truthful lim unmapped (wordBytes w) (MonadExcept.throw f : Decoder α) := by
  intro b r g x h hx
  cases h
  obtain rfl : w = x := Option.some.inj (hw.symm.trans hx)
  exact ⟨⟨[], rfl⟩, hf _⟩

/-- What is true of the decoder alone is true behind any bytes. -/
lemma behind {d : Decoder α} (hd : Truthful lim unmapped [] d) (taken : Bytes) :
    Truthful lim unmapped taken d := by
  intro b r f w h hw
  obtain ⟨⟨front, hb⟩, htrue⟩ := hd h hw
  have hb' : b = front ++ (wordBytes w ++ r) := hb
  refine ⟨⟨taken ++ front, ?_⟩, htrue⟩
  rw [hb', List.append_assoc]

/-- The second part of a composed decoder stands behind what the first part took. -/
lemma bind {d : Decoder α} {g : α → Decoder β} (hd : Truthful lim unmapped taken d)
    (hstable : d.Stable) (hg : ∀ v, Truthful lim unmapped [] (g v)) :
    Truthful lim unmapped taken (d >>= g) := by
  intro b r f w h hw
  rcases bind_eq_error_iff.mp h with hfirst | ⟨v, q, hv, hsecond⟩
  · exact hd hfirst hw
  · obtain ⟨p, hb, -⟩ := hstable.ok_append hv
    rw [hb, ← List.append_assoc]
    exact (hg v).behind (taken ++ p) hsecond hw

/-- Handing on a value changes no fault. -/
lemma map {d : Decoder α} (hd : Truthful lim unmapped taken d) (g : α → β) :
    Truthful lim unmapped taken (do return g (← d)) := by
  intro b r f w h hw
  exact hd (map_eq_error_iff.mp h) hw

/-- What goes on after a word may raise faults about it. -/
lemma word_bind {g : UInt32 → Decoder β} (hg : ∀ w, Truthful lim unmapped (wordBytes w) (g w)) :
    Truthful lim unmapped [] (Decoder.word >>= g) := by
  intro b r f x h hx
  rcases bind_eq_error_iff.mp h with hshort | ⟨w, q, hw, hrest⟩
  · obtain ⟨rfl, -, -⟩ := word_eq_error_iff.mp hshort
    cases hx
  · rw [word_eq_ok_iff.mp hw]
    exact hg w hrest hx

/-- Taking a word raises no fault about it. -/
lemma word : Truthful lim unmapped [] Decoder.word := by
  intro b r f w h hw
  obtain ⟨rfl, -, -⟩ := word_eq_error_iff.mp h
  cases hw

/-- Taking a hyper raises no fault about a word. -/
lemma hyper : Truthful lim unmapped [] Decoder.hyper := by
  intro b r f w h hw
  obtain ⟨rfl, -, -⟩ := hyper_eq_error_iff.mp h
  cases hw

/-- Taking a scalar of one word is truthful, and what goes on after it may raise faults about its
word. -/
lemma scalar_bind {k : Word} (hk : ∀ w title, k.Unmaps w title → unmapped w title)
    {g : k.Val → Decoder β}
    (hg : ∀ w v, k.decode w = .ok v → Truthful lim unmapped (wordBytes w) (g v)) :
    Truthful lim unmapped [] (Decoder.word >>= fun w => Decoder.ofExcept (k.decode w) >>= g) := by
  refine word_bind fun w => ?_
  cases hdecode : k.decode w with
  | ok v => exact hg w v hdecode
  | error f =>
    intro b r f' x h hx
    cases h
    obtain ⟨rfl, htrue⟩ := Word.trueOf_of_decode hdecode hx lim b.length
    exact ⟨⟨[], rfl⟩, htrue.mono hk⟩

/-- A flag is refused truthfully. -/
lemma flag {d e : Decoder α} (hd : Truthful lim unmapped [] d) (he : Truthful lim unmapped [] e) :
    Truthful lim unmapped [] (do
      let w ← Decoder.word
      if w = 0 then d else if w = 1 then e else MonadExcept.throw (Fault.invalidOption w)) := by
  refine word_bind fun w => ?_
  split
  case isTrue => exact hd.behind _
  case isFalse hzero =>
    split
    case isTrue => exact he.behind _
    case isFalse hone => exact throw_word rfl fun _ => two_le_toNat hzero hone

/-- A length or count is refused truthfully. -/
lemma length {unit : Nat} (hunit : unit ∈ [1, 4, 8]) :
    Truthful lim unmapped [] (Decoder.length lim unit) := by
  intro b r f x h hx
  rcases length_eq_error_iff.mp h with ⟨rfl, -, -⟩ | ⟨w, rfl, ⟨hmax, rfl⟩ | ⟨hmax, hrest, rfl⟩⟩
  · cases hx
  · obtain rfl : UInt32.ofNat w.toNat = x := Option.some.inj hx
    rw [UInt32.ofNat_toNat]
    exact ⟨⟨[], rfl⟩, rfl, rfl, UInt32.lt_iff_toNat_lt.mp hmax⟩
  · obtain rfl : w = x := Option.some.inj hx
    rw [UInt32.lt_iff_toNat_lt] at hmax
    exact ⟨⟨[], rfl⟩, rfl, by omega, unit, hunit, hrest⟩

/-- Data and padding are refused for no word. -/
lemma padded (n : Nat) : Truthful lim unmapped taken (Decoder.padded lim n) := by
  intro b r f w h hw
  rcases padded_eq_error_iff.mp h with ⟨rfl, -⟩ | ⟨bs, -, ⟨rfl, -⟩ | ⟨pad, -, -, -, -, rfl⟩⟩
  all_goals cases hw

/-- Data of variable length is refused truthfully. -/
lemma data : Truthful lim unmapped [] (Decoder.data lim) :=
  (length (by decide)).bind (Stable.length 1) padded

/-- A string is refused truthfully. -/
lemma text : Truthful lim unmapped [] (Decoder.text lim) := by
  refine data.bind (Stable.closed lim).data fun bs => ?_
  split
  · exact pure _
  · exact throw rfl

/-- Repetition keeps a decoder truthful. -/
lemma times {d : Decoder α} (hd : Truthful lim unmapped [] d) (hstable : d.Stable) (n : Nat) :
    Truthful lim unmapped [] (Decoder.times d n) := by
  induction n with
  | zero => exact pure _
  | succ n ih => exact hd.bind hstable fun _ => ih.map _

/-- Taking the two parts of an entry keeps decoders truthful. -/
lemma entry {d : Decoder α} {e : Decoder β} (hd : Truthful lim unmapped [] d) (hstable : d.Stable)
    (he : Truthful lim unmapped [] e) :
    Truthful lim unmapped [] (do let x ← d; return (x, ← e)) :=
  hd.bind hstable fun _ => he.map _

/-- A counted run of truthful items is truthful. -/
lemma counted {d : Decoder α} {unit : Nat} (hunit : unit ∈ [1, 4, 8])
    (hd : Truthful lim unmapped [] d) (hstable : d.Stable) (g : List α → β) :
    Truthful lim unmapped [] (do
      let n ← Decoder.length lim unit
      return g (← Decoder.times d n).val) :=
  (length hunit).bind (Stable.length unit) fun n => (hd.times hstable n).map _

/-- The nodes of a linked list are refused truthfully. -/
lemma decodeNodes (fuel : Nat) : Truthful lim unmapped [] (Chain.decodeNodes fuel) := by
  induction fuel with
  | zero => exact throw rfl
  | succ fuel ih =>
    exact word.bind Stable.composable.word fun w => flag (pure _) (ih.map _)

/-- A linked list is refused truthfully. -/
lemma chain : Truthful lim unmapped [] Chain.decode := by
  intro b r f w h
  exact decodeNodes (b.length / 8 + 1) h

end Truthful

end Decoder

/-- Every fault about a word, on the way to a value of a shape, is true of that word. -/
lemma Shape.truthful_decode {s : Shape} (hs : s.ReportsCodes) (lim : Limits)
    {unmapped : UInt32 → String → Prop} (h : ∀ w title, s.Unmaps w title → unmapped w title) :
    Decoder.Truthful lim unmapped [] (s.decode lim) := by
  have hclosed := Decoder.Stable.closed lim
  have hfour : 4 ∈ [1, 4, 8] := by decide
  have height : 8 ∈ [1, 4, 8] := by decide
  induction s with
  | void => exact .pure _
  | word k =>
    have hscalar : Decoder.Truthful lim unmapped []
        (Decoder.word >>= fun w => Decoder.ofExcept (k.decode w) >>= pure) :=
      .scalar_bind h fun _ v _ => .pure v
    simpa only [decode, bind_pure] using hscalar
  | hyper k => exact Decoder.Truthful.hyper.map _
  | huge signed => exact .throw rfl
  | any skipped => exact .throw rfl
  | text => exact .text
  | bytes => exact .data
  | option s ih => exact .flag (.pure _) ((ih hs h).map _)
  | seq c s ih =>
    exact .counted hfour (ih hs h) (hclosed.shape s) fun xs => (⟨xs, none⟩ : Counted s.Val)
  | map c k t ihk iht =>
    have hkey := ihk hs.1 fun w title hw => h w title (.inl hw)
    have hvalue := iht hs.2 fun w title hw => h w title (.inr hw)
    exact .counted height (hkey.entry (hclosed.shape k) hvalue)
      (hclosed.entry (hclosed.shape k) (hclosed.shape t))
      fun xs => (⟨xs, none⟩ : Counted (k.Val × t.Val))
  | array n s ih => exact (ih hs h).times (hclosed.shape s) n
  | pair s t ihs iht =>
    have hfirst := ihs hs.1 fun w title hw => h w title (.inl hw)
    have hsecond := iht hs.2 fun w title hw => h w title (.inr hw)
    exact hfirst.entry (hclosed.shape s) hsecond
  | record name s ih => exact ih hs h
  | variants name n arm ih =>
    refine .word_bind fun index => ?_
    split
    case isTrue hindex =>
      exact ((ih _ (hs _) fun w title hw => h w title (.inr ⟨_, hw⟩)).map _).behind _
    case isFalse hindex =>
      exact .throw_word rfl fun _ => h _ _ (.inl ⟨Nat.not_lt.mp hindex, rfl⟩)
  | union tag arm ih =>
    refine .scalar_bind (fun w title hw => h w title (.inl hw)) fun w d hd => ?_
    have hcode : tag.encode d = .ok w := Word.encode_of_decode hd
    rcases hs d with ⟨w', title, hcode', harm⟩ | harm
    · obtain rfl : w = w' := Except.ok.inj (hcode.symm.trans hcode')
      have hread : Decoder.Truthful lim unmapped (wordBytes w) ((arm d).decode lim) := by
        rw [harm, decode_unassigned]
        exact .throw_word rfl fun _ => h w title (.inr ⟨d, .inl ⟨hcode, harm⟩⟩)
      exact hread.map _
    · exact ((ih d harm fun w title hw => h w title (.inr ⟨d, .inr hw⟩)).map _).behind _
  | unassigned code name => exact hs.elim
  | surplus s t ihs iht =>
    exact (ihs hs.1 h).bind (hclosed.shape s) fun v => .throw rfl
  | chain => exact .chain
  | sortedMap =>
    exact .counted height (Decoder.Truthful.word.entry hclosed.word .text)
      (hclosed.entry hclosed.word hclosed.text) SortedMap.ofList

/-! ### The law -/

/-- A fault about a word tells the truth about the wire, whatever value was to be read and under
whatever limits.

The word that the fault is about stands right before the bytes that are left, and what the fault
says about it is so: a discriminant selects nothing under the given title in the shape, a flag is
neither of the two, a number is out of the range of the integer that is named, a length is above the
limit that is named, or it is within that limit and promises more than the bytes that are left,
whose number is the one that is named.

A complaint about a discriminant becomes a fault about the same word, also where the discriminant
does not come from the wire. -/
theorem faults_tell_the_truth :
    (∀ (s : Shape) (lim : Limits) (b r : Bytes) (f : Fault) (w : UInt32), s.ReportsCodes →
      s.decode lim b = .error f r → f.word? = some w →
        (∃ front, b = front ++ (wordBytes w ++ r)) ∧ f.TrueOf lim s.Unmaps w r.length) ∧
    (∀ (α : Type) [Wire α] [CodedWire α] (lim : Limits) (b r : Bytes) (f : Fault) (w : UInt32),
      (Wire.decode lim b : Reading α) = .error f r → f.word? = some w →
        (∃ front, b = front ++ (wordBytes w ++ r)) ∧
          f.TrueOf lim (Wire.shape α).Unmaps w r.length) ∧
    ∀ (w : UInt32) (title : String),
      Fault.ofComplaint (.unmapped w title) = .unmappedDiscriminant w title ∧
        (Fault.ofComplaint (.unmapped w title)).word? = some w := by
  refine ⟨fun s lim b r f w hs h hw => ?_, fun α _ _ lim b r f w h hw => ?_, fun w title => ?_⟩
  · exact s.truthful_decode hs lim (fun _ _ hw => hw) h hw
  · have hshape : (Wire.shape α).decode lim b = .error f r := Decoder.map_eq_error_iff.mp h
    exact Shape.truthful_decode CodedWire.reportsCodes lim (fun _ _ hw => hw) hshape hw
  · rw [Fault.ofComplaint_unmapped]
    exact ⟨rfl, rfl⟩

/-- A negative number out of range is reported in two's complement. -/
example : (Shape.word (.narrow .int8)).decode .none (wordBytes 0xffffff7f ++ [9]) =
      .error (.integerOutOfRange .int8 (-129)) [9] ∧
    (Fault.integerOutOfRange .int8 (-129)).word? = some 0xffffff7f := by
  decide +kernel

/-- In a map, the discriminant of a union that has no arm for it is the last word taken, and so is
the length of a verifier above the limit of the reader. -/
theorem faults_tell_the_truth_unassigned_and_verifier :
    let s : Shape := .map .known (.enumeration .msgType) (.option (Wire.shape Outcome))
    let b : Bytes := [0, 0, 0, 1, 0, 0, 0, 0, 0, 0, 0, 1, 0, 0, 0, 5, 9]
    let c : Bytes := [0, 0, 0, 7, 0, 0, 0, 1, 0, 0, 0, 0, 0, 0, 0, 2, 0, 0, 0, 5, 9, 9, 9]
    (s.ReportsCodes ∧ s.decode .none b = .error (.unmappedDiscriminant 5 "Outcome") [9] ∧
      (Fault.unmappedDiscriminant 5 "Outcome").word? = some 5 ∧
      (∃ front, b = front ++ (wordBytes 5 ++ [9])) ∧ s.Unmaps 5 "Outcome") ∧
    (Wire.decode ⟨4, false⟩ c : Reading Message) = .error (.lengthOverflow 4 5) [9, 9, 9] ∧
      (Fault.lengthOverflow 4 5).word? = some 5 ∧
      ∃ front, c = front ++ (wordBytes 5 ++ [9, 9, 9]) := by
  intro s b c
  obtain ⟨hshape, htype, -⟩ := faults_tell_the_truth
  have hs : s.ReportsCodes := ⟨trivial, CodedWire.reportsCodes (α := Outcome)⟩
  have hb : s.decode .none b = .error (.unmappedDiscriminant 5 "Outcome") [9] := by
    decide +kernel
  have hc : (Wire.decode ⟨4, false⟩ c : Reading Message) =
      .error (.lengthOverflow 4 5) [9, 9, 9] := by decide +kernel
  have hunmapped := hshape s .none b [9] _ 5 hs hb rfl
  have hlength := htype Message ⟨4, false⟩ c [9, 9, 9] _ 5 hc rfl
  exact ⟨⟨hs, hb, rfl, hunmapped.1, hunmapped.2⟩, hc, rfl, hlength.1⟩

end OncWire
