import OncWire.Shape
import OncWire.Writer

/-!
# Writing values to a sink

`Shape.write` hands the form of a value to the sink of a writer piece by piece,
so what a full sink has taken up may end in the middle of a value.
-/

namespace OncWire

/-- Writes the nodes of a linked list after the first. -/
def Chain.writeNodes : List UInt32 → Writing
  | [] => .word 0
  | w :: ws => do
    Writing.word 1
    Writing.word w
    writeNodes ws

namespace Shape

/-- Writes a value of a shape. -/
def write : (s : Shape) → s.Val → Writing
  | void, _ => return ()
  | word k, v => .ofExcept (k.encode v)
  | hyper k, v => .hyper (k.encode v)
  | huge signed, _ => throw (.refused (.hugeInteger signed))
  | text, v => .data (utf8 v)
  | bytes, v => .data v
  | option _, none => .word 0
  | option s, some v => do
    Writing.word 1
    s.write v
  | seq .unknown _, _ => throw .lengthRequired
  | seq .known s, v => .run v.count (v.items.map fun x => s.write x)
  | map .unknown _ _, _ => throw .lengthRequired
  | map .known k s, v =>
    .run v.count (v.items.flatMap fun (key, value) => [k.write key, s.write value])
  | array _ s, v => .inOrder (v.val.map fun x => s.write x)
  | pair s t, (v, w) => do
    s.write v
    t.write w
  | record _ s, v => s.write v
  | variants _ _ arm, ⟨i, v⟩ => do
    Writing.word (UInt32.ofNat i)
    (arm i).write v
  | union tag arm, ⟨d, v⟩ => do
    Writing.ofExcept (tag.encode d)
    (arm d).write v
  | surplus s t, (v, w) => do
    s.write v
    t.write w
  | chain, v => do
    Writing.word v.head
    Chain.writeNodes v.tail
  | sortedMap, v =>
    .run v.items.length (v.items.flatMap fun (key, value) => [.word key, .data (utf8 value)])

end Shape

end OncWire
