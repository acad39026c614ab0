import OncWire.Decoder
import OncWire.Shape

/-!
# Reading values

`Shape.decode` reads a value of a shape.  Each form is read in the order in
which it is written, and every discriminant, flag and count is checked as soon
as its word is taken.  What a reader of values complains about, and not the
decoder itself, becomes a fault by `Fault.ofComplaint`.
-/

namespace OncWire

namespace Chain

/-- Reads a linked list of at most `fuel` nodes: in each a word, then the flag for the next. -/
def decodeNodes : (fuel : Nat) → Decoder Chain
  | 0 => throw .unexpectedEof
  | fuel + 1 => do
    let w ← Decoder.word
    let flag ← Decoder.word
    if flag = 0 then return ⟨w, []⟩
    else if flag = 1 then return ⟨w, (← decodeNodes fuel).toList⟩
    else throw (.invalidOption flag)

/-- Reads a linked list.  A node takes eight bytes, so the bytes that are left bound the number
of nodes. -/
def decode : Decoder Chain := do
  decodeNodes ((← Decoder.remaining) / 8 + 1)

end Chain

namespace Shape

/-- Reads a value of a shape. -/
def decode (lim : Limits) : (s : Shape) → Decoder s.Val
  | void => return ()
  | word k => do
    Decoder.ofExcept (k.decode (← Decoder.word))
  | hyper k => return k.decode (← Decoder.hyper)
  | huge signed => throw (.ofComplaint (.hugeInteger signed))
  | any skipped => throw (.unsupported (if skipped then .skippedValue else .anyValue))
  | text => Decoder.text lim
  | bytes => Decoder.data lim
  | option s => do
    let flag ← Decoder.word
    if flag = 0 then return none
    else if flag = 1 then return some (← s.decode lim)
    else throw (.invalidOption flag)
  | seq _ s => do
    let n ← Decoder.length lim 4
    return ⟨(← Decoder.times (s.decode lim) n).val, none⟩
  | map _ k v => do
    let n ← Decoder.length lim 8
    let entry : Decoder (k.Val × v.Val) := do
      let key ← k.decode lim
      return (key, ← v.decode lim)
    return ⟨(← Decoder.times entry n).val, none⟩
  | array n s => Decoder.times (s.decode lim) n
  | pair s t => do
    let v ← s.decode lim
    return (v, ← t.decode lim)
  | record _ s => s.decode lim
  | variants name n arm => do
    let index ← Decoder.word
    if h : index.toNat < n then
      return ⟨⟨index.toNat, h⟩, ← (arm ⟨index.toNat, h⟩).decode lim⟩
    else
      throw (.unmappedDiscriminant index s!"{name} variant index below {n}")
  | union tag arm => do
    let d ← Decoder.ofExcept (tag.decode (← Decoder.word))
    return ⟨d, ← (arm d).decode lim⟩
  | unassigned code name => throw (.ofComplaint (.unmapped code name))
  | surplus s _ => do
    let _ ← s.decode lim
    throw (.ofComplaint .missingArm)
  | chain => Chain.decode
  | sortedMap => do
    let n ← Decoder.length lim 8
    let entry : Decoder (UInt32 × String) := do
      let key ← Decoder.word
      return (key, ← Decoder.text lim)
    return SortedMap.ofList (← Decoder.times entry n).val

/-- A discriminant without an arm is refused under the name of the union. -/
theorem decode_unassigned (lim : Limits) (code : UInt32) (name : String) :
    (unassigned code name).decode lim = throw (.unmappedDiscriminant code name) :=
  congrArg throw (Fault.ofComplaint_unmapped code name)

end Shape

end OncWire
