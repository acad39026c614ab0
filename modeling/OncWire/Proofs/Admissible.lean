import Mathlib.Tactic.Common
import OncWire.Samples
import OncWire.Message

/-!
# Classes of shapes and values

The conditions under which the laws of the wire format hold.  On shapes: that
the indices of all variants fit a word (`Shape.WellFormed`), that a value that
was read can be written again (`Shape.Rewritable`), that entries are kept as they
are read (`Shape.SortedMapFree`), and that no counted run has items without bytes
(`Shape.ZeroWidthItemFree`).  On values: that no count is
declared and no surplus value is carried (`Shape.Plain`), and the lengths and
counts that a reader compares with its limit (`Shape.lengths`).

The types that are written through a shape meet all the conditions on shapes,
and their plain values are the plain values of their shapes (`LawfulWire`).
-/

namespace OncWire

namespace Shape

/-! ### Shapes -/

/-- Every index of a variant fits a word. -/
def WellFormed : Shape → Prop
  | option s => s.WellFormed
  | seq _ s => s.WellFormed
  | map _ k v => k.WellFormed ∧ v.WellFormed
  | array _ s => s.WellFormed
  | pair s t => s.WellFormed ∧ t.WellFormed
  | record _ s => s.WellFormed
  | variants _ n arm => n ≤ 4294967296 ∧ ∀ i, (arm i).WellFormed
  | union _ arm => ∀ d, (arm d).WellFormed
  | surplus s t => s.WellFormed ∧ t.WellFormed
  | _ => True

/-- Every count is known, and no entries are put in another order when they are read. -/
def Rewritable : Shape → Prop
  | option s => s.Rewritable
  | seq c s => c = .known ∧ s.Rewritable
  | map c k v => c = .known ∧ k.Rewritable ∧ v.Rewritable
  | array _ s => s.Rewritable
  | pair s t => s.Rewritable ∧ t.Rewritable
  | record _ s => s.Rewritable
  | variants _ _ arm => ∀ i, (arm i).Rewritable
  | union _ arm => ∀ d, (arm d).Rewritable
  | surplus s t => s.Rewritable ∧ t.Rewritable
  | sortedMap => False
  | _ => True

/-- No entries are put in another order, or left out, when they are read. -/
def SortedMapFree : Shape → Prop
  | option s => s.SortedMapFree
  | seq _ s => s.SortedMapFree
  | map _ k v => k.SortedMapFree ∧ v.SortedMapFree
  | array _ s => s.SortedMapFree
  | pair s t => s.SortedMapFree ∧ t.SortedMapFree
  | record _ s => s.SortedMapFree
  | variants _ _ arm => ∀ i, (arm i).SortedMapFree
  | union _ arm => ∀ d, (arm d).SortedMapFree
  | surplus s t => s.SortedMapFree ∧ t.SortedMapFree
  | sortedMap => False
  | _ => True

/-- Whether the values of a shape take no bytes at all. -/
def zeroWidth : Shape → Bool
  | void => true
  | array n s => n == 0 || s.zeroWidth
  | pair s t => s.zeroWidth && t.zeroWidth
  | record _ s => s.zeroWidth
  | surplus s t => s.zeroWidth && t.zeroWidth
  | _ => false

/-- The items of every counted run take some bytes. -/
def ZeroWidthItemFree : Shape → Prop
  | option s => s.ZeroWidthItemFree
  | seq _ s => s.zeroWidth = false ∧ s.ZeroWidthItemFree
  | map _ k v =>
    k.zeroWidth = false ∧ v.zeroWidth = false ∧ k.ZeroWidthItemFree ∧ v.ZeroWidthItemFree
  | array _ s => s.ZeroWidthItemFree
  | pair s t => s.ZeroWidthItemFree ∧ t.ZeroWidthItemFree
  | record _ s => s.ZeroWidthItemFree
  | variants _ _ arm => ∀ i, (arm i).ZeroWidthItemFree
  | union _ arm => ∀ d, (arm d).ZeroWidthItemFree
  | surplus s t => s.ZeroWidthItemFree ∧ t.ZeroWidthItemFree
  | _ => True

/-- What can be rewritten keeps its entries. -/
lemma Rewritable.sortedMapFree {s : Shape} (h : s.Rewritable) : s.SortedMapFree := by
  induction s with
  | option s ih => exact ih h
  | seq c s ih => exact ih h.2
  | map c k t ihk iht => exact ⟨ihk h.2.1, iht h.2.2⟩
  | array n s ih => exact ih h
  | pair s t ihs iht => exact ⟨ihs h.1, iht h.2⟩
  | record name s ih => exact ih h
  | variants name n arm ih => exact fun i => ih i (h i)
  | union tag arm ih => exact fun d => ih d (h d)
  | surplus s t ihs iht => exact ⟨ihs h.1, iht h.2⟩
  | sortedMap => exact h.elim
  | _ => trivial

/-! ### Values -/

/-- No count is declared for the items of a run, and no arm carries a surplus value. -/
def Plain : (s : Shape) → s.Val → Prop
  | option s, v => ∀ x ∈ v, s.Plain x
  | seq _ s, v => v.declared = none ∧ ∀ x ∈ v.items, s.Plain x
  | map _ k s, v => v.declared = none ∧ ∀ x ∈ v.items, k.Plain x.1 ∧ s.Plain x.2
  | array _ s, v => ∀ x ∈ v.val, s.Plain x
  | pair s t, v => s.Plain v.1 ∧ t.Plain v.2
  | record _ s, v => s.Plain v
  | variants _ _ arm, v => (arm v.1).Plain v.2
  | union _ arm, v => (arm v.1).Plain v.2
  | surplus _ _, _ => False
  | _, _ => True

/-- The lengths of all strings and byte strings in a value and the counts of all its runs. -/
def lengths : (s : Shape) → s.Val → List Nat
  | text, v => [(utf8 v).length]
  | bytes, v => [v.length]
  | option _, none => []
  | option s, some v => s.lengths v
  | seq _ s, v => v.items.length :: v.items.flatMap fun x => s.lengths x
  | map _ k s, v => v.items.length :: v.items.flatMap fun x => k.lengths x.1 ++ s.lengths x.2
  | array _ s, v => v.val.flatMap fun x => s.lengths x
  | pair s t, v => s.lengths v.1 ++ t.lengths v.2
  | record _ s, v => s.lengths v
  | variants _ _ arm, v => (arm v.1).lengths v.2
  | union _ arm, v => (arm v.1).lengths v.2
  | surplus s t, v => s.lengths v.1 ++ t.lengths v.2
  | sortedMap, v => v.items.length :: v.items.map fun x => (utf8 x.2).length
  | _, _ => []

/-- A counted run in a value has an item whose shape takes no bytes. -/
def HasZeroWidthItem : (s : Shape) → s.Val → Prop
  | option s, v => ∃ x ∈ v, s.HasZeroWidthItem x
  | seq _ s, v => ∃ x ∈ v.items, s.zeroWidth ∨ s.HasZeroWidthItem x
  | map _ k s, v => ∃ x ∈ v.items,
    (k.zeroWidth ∨ k.HasZeroWidthItem x.1) ∨ s.zeroWidth ∨ s.HasZeroWidthItem x.2
  | array _ s, v => ∃ x ∈ v.val, s.HasZeroWidthItem x
  | pair s t, v => s.HasZeroWidthItem v.1 ∨ t.HasZeroWidthItem v.2
  | record _ s, v => s.HasZeroWidthItem v
  | variants _ _ arm, v => (arm v.1).HasZeroWidthItem v.2
  | union _ arm, v => (arm v.1).HasZeroWidthItem v.2
  | surplus s t, v => s.HasZeroWidthItem v.1 ∨ t.HasZeroWidthItem v.2
  | _, _ => False

end Shape

/-! ### Types with a wire form -/

/-- A type whose shape meets all conditions and has no other plain values than those that come
from the type. -/
class LawfulWire (α : Type) [Wire α] : Prop where
  /-- The shape is well formed. -/
  wellFormed : (Wire.shape α).WellFormed
  /-- What is read can be written again. -/
  rewritable : (Wire.shape α).Rewritable
  /-- The items of every counted run take some bytes. -/
  zeroWidthItemFree : (Wire.shape α).ZeroWidthItemFree
  /-- Nothing of a plain value is lost on the way to the type. -/
  toVal_ofVal (v : (Wire.shape α).Val) (hv : (Wire.shape α).Plain v) :
    Wire.toVal (Wire.ofVal v : α) = v

namespace LawfulWire

instance : LawfulWire OpaqueAuth where
  wellFormed := by simp [Wire.shape, Shape.WellFormed]
  rewritable := by simp [Wire.shape, Shape.Rewritable]
  zeroWidthItemFree := by simp [Wire.shape, Shape.ZeroWidthItemFree]
  toVal_ofVal _ _ := rfl

instance : LawfulWire AuthSysParms where
  wellFormed := by simp [Wire.shape, Shape.WellFormed]
  rewritable := by simp [Wire.shape, Shape.Rewritable]
  zeroWidthItemFree := by simp [Wire.shape, Shape.ZeroWidthItemFree, Shape.zeroWidth]
  toVal_ofVal v hv := by
    obtain ⟨stamp, name, uid, gid, ⟨gids, declared⟩, ⟨⟩⟩ := v
    obtain rfl : declared = none := by simpa [Wire.shape, Shape.Plain] using hv
    rfl

instance : LawfulWire CallBody where
  wellFormed := by simp [Wire.shape, Shape.WellFormed]
  rewritable := by simp [Wire.shape, Shape.Rewritable]
  zeroWidthItemFree := by simp [Wire.shape, Shape.ZeroWidthItemFree]
  toVal_ofVal _ _ := rfl

instance : LawfulWire CallMessage where
  wellFormed := by simp [Wire.shape, Shape.WellFormed]
  rewritable := by simp [Wire.shape, Shape.Rewritable]
  zeroWidthItemFree := by simp [Wire.shape, Shape.ZeroWidthItemFree]
  toVal_ofVal _ _ := rfl

instance : LawfulWire MismatchInfo where
  wellFormed := by simp [Wire.shape, Shape.WellFormed]
  rewritable := by simp [Wire.shape, Shape.Rewritable]
  zeroWidthItemFree := by simp [Wire.shape, Shape.ZeroWidthItemFree]
  toVal_ofVal _ _ := rfl

instance : LawfulWire AcceptedReply where
  wellFormed := by simp [Wire.shape, Shape.WellFormed]
  rewritable := by simp [Wire.shape, Shape.Rewritable]
  zeroWidthItemFree := by simp [Wire.shape, Shape.ZeroWidthItemFree]
  toVal_ofVal _ _ := rfl

instance : LawfulWire RejectedReply where
  wellFormed
    | .rpcMismatch => wellFormed (α := MismatchInfo)
    | .authError => trivial
  rewritable
    | .rpcMismatch => rewritable (α := MismatchInfo)
    | .authError => trivial
  zeroWidthItemFree
    | .rpcMismatch => zeroWidthItemFree (α := MismatchInfo)
    | .authError => trivial
  toVal_ofVal v _ := by
    obtain ⟨d, v⟩ := v
    cases d <;> rfl

instance : LawfulWire ReplyBody where
  wellFormed
    | .accepted => wellFormed (α := AcceptedReply)
    | .denied => wellFormed (α := RejectedReply)
  rewritable
    | .accepted => rewritable (α := AcceptedReply)
    | .denied => rewritable (α := RejectedReply)
  zeroWidthItemFree
    | .accepted => zeroWidthItemFree (α := AcceptedReply)
    | .denied => zeroWidthItemFree (α := RejectedReply)
  toVal_ofVal v hv := by
    obtain ⟨d, v⟩ := v
    cases d with
    | accepted => rfl
    | denied => exact congrArg (Sigma.mk ReplyStat.denied) (toVal_ofVal (α := RejectedReply) v hv)

instance : LawfulWire ReplyMessage where
  wellFormed := ⟨trivial, trivial, wellFormed (α := ReplyBody), trivial⟩
  rewritable := ⟨trivial, trivial, rewritable (α := ReplyBody), trivial⟩
  zeroWidthItemFree := ⟨trivial, trivial, zeroWidthItemFree (α := ReplyBody), trivial⟩
  toVal_ofVal := fun (xid, mtype, body, ()) hv =>
    congrArg (fun b => (xid, mtype, b, ())) (toVal_ofVal (α := ReplyBody) body hv.2.2.1)

instance : LawfulWire MessageBody where
  wellFormed
    | .call => wellFormed (α := CallBody)
    | .reply => wellFormed (α := ReplyBody)
  rewritable
    | .call => rewritable (α := CallBody)
    | .reply => rewritable (α := ReplyBody)
  zeroWidthItemFree
    | .call => zeroWidthItemFree (α := CallBody)
    | .reply => zeroWidthItemFree (α := ReplyBody)
  toVal_ofVal v hv := by
    obtain ⟨d, v⟩ := v
    cases d with
    | call => rfl
    | reply => exact congrArg (Sigma.mk MsgType.reply) (toVal_ofVal (α := ReplyBody) v hv)

instance : LawfulWire Message where
  wellFormed := ⟨trivial, wellFormed (α := MessageBody), trivial⟩
  rewritable := ⟨trivial, rewritable (α := MessageBody), trivial⟩
  zeroWidthItemFree := ⟨trivial, zeroWidthItemFree (α := MessageBody), trivial⟩
  toVal_ofVal := fun (xid, body, ()) hv =>
    congrArg (fun b => (xid, b, ())) (toVal_ofVal (α := MessageBody) body hv.2.1)

instance : LawfulWire Outcome where
  wellFormed d := by cases d <;> simp [Shape.WellFormed]
  rewritable d := by cases d <;> simp [Shape.Rewritable]
  zeroWidthItemFree d := by cases d <;> simp [Shape.ZeroWidthItemFree]
  toVal_ofVal v _ := by
    obtain ⟨d, v⟩ := v
    cases d with
    | success | garbageArgs => rfl
    | progUnavail | progMismatch | procUnavail | systemErr => exact v.elim

instance : LawfulWire Creds where
  wellFormed
    | .sys => wellFormed (α := AuthSysParms)
    | .none | .short | .dh | .rpcsecGss => trivial
  rewritable
    | .sys => rewritable (α := AuthSysParms)
    | .none | .short | .dh | .rpcsecGss => trivial
  zeroWidthItemFree
    | .sys => zeroWidthItemFree (α := AuthSysParms)
    | .none | .short | .dh | .rpcsecGss => trivial
  toVal_ofVal v hv := by
    obtain ⟨d, v⟩ := v
    cases d with
    | none | rpcsecGss => rfl
    | sys => exact congrArg (Sigma.mk AuthFlavor.sys) (toVal_ofVal (α := AuthSysParms) v hv)
    | short | dh => exact v.elim

instance : LawfulWire Switch where
  wellFormed d := by cases d <;> simp [Shape.WellFormed]
  rewritable d := by cases d <;> simp [Shape.Rewritable]
  zeroWidthItemFree d := by cases d <;> simp [Shape.ZeroWidthItemFree]
  toVal_ofVal v _ := by
    obtain ⟨d, v⟩ := v
    cases d <;> rfl

instance : LawfulWire Wide where
  wellFormed d := by cases d <;> simp [Shape.WellFormed]
  rewritable d := by cases d <;> simp [Shape.Rewritable]
  zeroWidthItemFree d := by cases d <;> simp [Shape.ZeroWidthItemFree]
  toVal_ofVal v _ := by
    obtain ⟨d, v⟩ := v
    cases d <;> rfl

end LawfulWire

end OncWire
