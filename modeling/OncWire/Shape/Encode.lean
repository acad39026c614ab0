import OncWire.Encoding
import OncWire.Shape

/-!
# Writing values

`Shape.encode` gives the bytes of a value of a shape.  Every form is a whole
number of four-byte units, and nothing but the shape tells where one ends.
-/

namespace OncWire

/-- The nodes of a linked list after the first: a flag and a word for each, then the flag that
ends the list. -/
def Chain.nodes : List UInt32 → Encoding
  | [] => .ofWord 0
  | w :: ws => .ofWord 1 ++ .ofWord w ++ nodes ws

namespace Shape

/-- The form of a value on the wire. -/
def encode : (s : Shape) → s.Val → Encoding
  | void, _ => .nothing
  | word k, v => .ofExcept (k.encode v)
  | hyper k, v => .ofHyper (k.encode v)
  | huge signed, _ => .fail (.refused (.hugeInteger signed))
  | text, v => .data (utf8 v)
  | bytes, v => .data v
  | option _, none => .ofWord 0
  | option s, some v => .ofWord 1 ++ s.encode v
  | seq .unknown _, _ => .fail .lengthRequired
  | seq .known s, v => .run v.count (v.items.map fun x => s.encode x)
  | map .unknown _ _, _ => .fail .lengthRequired
  | map .known k s, v =>
    .run v.count (v.items.flatMap fun (key, value) => [k.encode key, s.encode value])
  | array _ s, v => .concat (v.val.map fun x => s.encode x)
  | pair s t, (v, w) => s.encode v ++ t.encode w
  | record _ s, v => s.encode v
  | variants _ _ arm, ⟨i, v⟩ => .ofWord (UInt32.ofNat i) ++ (arm i).encode v
  | union tag arm, ⟨d, v⟩ => .ofExcept (tag.encode d) ++ (arm d).encode v
  | surplus s t, (v, w) => s.encode v ++ t.encode w
  | chain, v => .ofWord v.head ++ Chain.nodes v.tail
  | sortedMap, v =>
    .run v.items.length
      (v.items.flatMap fun (key, value) => [.ofWord key, .data (utf8 value)])

end Shape

end OncWire
