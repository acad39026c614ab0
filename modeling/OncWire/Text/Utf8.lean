import OncWire.Bytes

/-!
# Text as bytes

The UTF-8 form of a string as a byte string, and its strict reading: no
overlong form, no surrogate, nothing above the last code point.  The two are
inverse: `ofUtf8?_utf8` and `utf8_of_ofUtf8?`.
-/

namespace OncWire

/-- The UTF-8 form of a string. -/
def utf8 (s : String) : Bytes := s.toUTF8.data.toList

/-- The string whose UTF-8 form is given, if there is one. -/
def ofUtf8? (bs : Bytes) : Option String := String.fromUTF8? ⟨bs.toArray⟩

/-- The UTF-8 form of a string is read as that string. -/
@[simp] theorem ofUtf8?_utf8 (s : String) : ofUtf8? (utf8 s) = some s := by
  have hbytes : ByteArray.mk (utf8 s).toArray = s.toByteArray := rfl
  rw [ofUtf8?, hbytes, String.fromUTF8?, dif_pos s.isValidUTF8]
  rfl

/-- A byte string that is read as a string is its UTF-8 form. -/
theorem utf8_of_ofUtf8? {bs : Bytes} {s : String} (h : ofUtf8? bs = some s) : utf8 s = bs := by
  unfold ofUtf8? String.fromUTF8? at h
  split at h
  case isTrue hvalid =>
    obtain rfl := Option.some.inj h
    rfl
  case isFalse => simp at h

end OncWire
