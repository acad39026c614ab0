/-!
# Byte strings

Everything on the wire is a string of bytes cut into units of four.  This file
holds byte strings, the big-endian form of a number with a fixed count of
digits, the zero bytes that fill a string up to a whole unit, and the step
that cuts a given number of bytes off the front of an input.

The big-endian form and its reading are inverse: `ofBigEndian_bigEndian` and
`bigEndian_ofBigEndian`.  Cutting loses nothing: `splitAt?_eq_some_iff`.
-/

namespace OncWire

/-- A string of bytes, first byte first. -/
abbrev Bytes := List UInt8

/-! ### Big-endian numbers -/

/-- What a digit with `k` more digits after it counts in base 256. -/
def weight : Nat → Nat
  | 0 => 1
  | k + 1 => 256 * weight k

/-- The last `k` base-256 digits of `n`, the most significant first. -/
def bigEndian : Nat → Nat → Bytes
  | 0, _ => []
  | k + 1, n => UInt8.ofNat (n / weight k) :: bigEndian k n

/-- The number whose base-256 digits are the given bytes, the most significant first. -/
def ofBigEndian (bs : Bytes) : Nat :=
  bs.foldl (fun n b => n * 256 + b.toNat) 0

/-- Every digit counts. -/
theorem weight_pos (k : Nat) : 0 < weight k := by
  induction k with
  | zero => decide
  | succ k ih =>
    rw [weight]
    omega

@[simp] theorem length_bigEndian (k n : Nat) : (bigEndian k n).length = k := by
  induction k with
  | zero => rfl
  | succ k ih => simp [bigEndian, ih]

/-- The digits read so far are a multiple of what the remaining digits can express. -/
theorem foldl_digits (bs : Bytes) (a : Nat) :
    bs.foldl (fun n b => n * 256 + b.toNat) a = a * weight bs.length + ofBigEndian bs := by
  induction bs generalizing a with
  | nil => simp [ofBigEndian, weight]
  | cons b bs ih =>
    simp only [ofBigEndian, List.foldl_cons, List.length_cons, ih (a * 256 + b.toNat),
      ih (0 * 256 + b.toNat), weight]
    grind

/-- The first byte weighs as much as the number of bytes after it says. -/
theorem ofBigEndian_cons (b : UInt8) (bs : Bytes) :
    ofBigEndian (b :: bs) = b.toNat * weight bs.length + ofBigEndian bs := by
  simpa [ofBigEndian] using foldl_digits bs (0 * 256 + b.toNat)

/-- A number of `k` digits is below what a digit before them counts. -/
theorem ofBigEndian_lt (bs : Bytes) : ofBigEndian bs < weight bs.length := by
  induction bs with
  | nil => simp [ofBigEndian, weight]
  | cons b bs ih =>
    have hb := b.toNat_lt
    rw [ofBigEndian_cons, List.length_cons, weight]
    have : (b.toNat + 1) * weight bs.length ≤ 256 * weight bs.length :=
      Nat.mul_le_mul_right _ (by omega)
    grind

/-- Reading back `k` digits gives the number modulo what a digit before them counts. -/
theorem ofBigEndian_bigEndian (k n : Nat) : ofBigEndian (bigEndian k n) = n % weight k := by
  induction k with
  | zero => simp [bigEndian, ofBigEndian, weight, Nat.mod_one]
  | succ k ih =>
    have hdigit : (UInt8.ofNat (n / weight k)).toNat = n / weight k % 256 := UInt8.toNat_ofNat'
    rw [bigEndian, ofBigEndian_cons, ih, length_bigEndian, hdigit, weight, Nat.mul_comm 256,
      Nat.mod_mul, Nat.mul_comm, Nat.add_comm]

/-- Digits do not depend on what the digits before them count. -/
theorem bigEndian_add_mul (k n m : Nat) : bigEndian k (m * weight k + n) = bigEndian k n := by
  induction k generalizing m with
  | zero => rfl
  | succ k ih =>
    have hm : m * weight (k + 1) + n = (m * 256) * weight k + n := by
      rw [weight, Nat.mul_assoc]
    rw [bigEndian, bigEndian, hm, ih (m * 256), Nat.mul_comm (m * 256),
      Nat.mul_add_div (weight_pos k)]
    congr 1
    apply UInt8.toNat_inj.mp
    simp only [UInt8.toNat_ofNat']
    omega

/-- Writing the digits of the number that was read gives the bytes back. -/
theorem bigEndian_ofBigEndian (bs : Bytes) : bigEndian bs.length (ofBigEndian bs) = bs := by
  induction bs with
  | nil => rfl
  | cons b bs ih =>
    rw [List.length_cons, ofBigEndian_cons, bigEndian, bigEndian_add_mul, ih]
    have hlt := ofBigEndian_lt bs
    rw [Nat.mul_comm, Nat.mul_add_div (weight_pos _), Nat.div_eq_of_lt hlt]
    simp

/-! ### Words and hypers -/

/-- Four digits are enough for a word. -/
theorem weight_four : weight 4 = 4294967296 := rfl

/-- Eight digits are enough for a hyper. -/
theorem weight_eight : weight 8 = 18446744073709551616 := rfl

/-- The four bytes of a word. -/
def wordBytes (w : UInt32) : Bytes := bigEndian 4 w.toNat

/-- The eight bytes of a hyper. -/
def hyperBytes (h : UInt64) : Bytes := bigEndian 8 h.toNat

/-- The word that four bytes stand for. -/
def wordOfBytes (bs : Bytes) : UInt32 := UInt32.ofNat (ofBigEndian bs)

/-- The hyper that eight bytes stand for. -/
def hyperOfBytes (bs : Bytes) : UInt64 := UInt64.ofNat (ofBigEndian bs)

@[simp] theorem length_wordBytes (w : UInt32) : (wordBytes w).length = 4 :=
  length_bigEndian 4 _

@[simp] theorem length_hyperBytes (h : UInt64) : (hyperBytes h).length = 8 :=
  length_bigEndian 8 _

@[simp] theorem wordOfBytes_wordBytes (w : UInt32) : wordOfBytes (wordBytes w) = w := by
  apply UInt32.toNat_inj.mp
  have := w.toNat_lt
  simp only [wordOfBytes, wordBytes, ofBigEndian_bigEndian, weight_four, UInt32.toNat_ofNat']
  omega

@[simp] theorem hyperOfBytes_hyperBytes (h : UInt64) : hyperOfBytes (hyperBytes h) = h := by
  apply UInt64.toNat_inj.mp
  have := h.toNat_lt
  simp only [hyperOfBytes, hyperBytes, ofBigEndian_bigEndian, weight_eight, UInt64.toNat_ofNat']
  omega

/-- Any four bytes are the form of the word that they stand for. -/
theorem wordBytes_wordOfBytes {bs : Bytes} (h : bs.length = 4) :
    wordBytes (wordOfBytes bs) = bs := by
  have hlt := ofBigEndian_lt bs
  rw [h, weight_four] at hlt
  rw [wordBytes, wordOfBytes, UInt32.toNat_ofNat', Nat.mod_eq_of_lt (by simpa using hlt), ← h,
    bigEndian_ofBigEndian]

/-- Any eight bytes are the form of the hyper that they stand for. -/
theorem hyperBytes_hyperOfBytes {bs : Bytes} (h : bs.length = 8) :
    hyperBytes (hyperOfBytes bs) = bs := by
  have hlt := ofBigEndian_lt bs
  rw [h, weight_eight] at hlt
  rw [hyperBytes, hyperOfBytes, UInt64.toNat_ofNat', Nat.mod_eq_of_lt (by simpa using hlt), ← h,
    bigEndian_ofBigEndian]

/-! ### Padding -/

/-- How many bytes take a string of `n` bytes to a whole number of units. -/
def padLength (n : Nat) : Nat := (4 - n % 4) % 4

/-- The zero bytes written after `n` bytes of data. -/
def padding (n : Nat) : Bytes := List.replicate (padLength n) 0

@[simp] theorem length_padding (n : Nat) : (padding n).length = padLength n :=
  List.length_replicate

/-- Data and its padding fill whole units. -/
theorem four_dvd_add_padLength (n : Nat) : 4 ∣ n + padLength n := by
  unfold padLength
  omega

/-! ### Cutting the front off an input -/

/-- The first `n` bytes and the bytes after them, if there are that many. -/
def splitAt? : Nat → Bytes → Option (Bytes × Bytes)
  | 0, bs => some ([], bs)
  | _ + 1, [] => none
  | n + 1, b :: bs => (splitAt? n bs).map fun (front, rest) => (b :: front, rest)

/-- A cut succeeds exactly where the input is the front followed by the rest. -/
theorem splitAt?_eq_some_iff {n : Nat} {bs front rest : Bytes} :
    splitAt? n bs = some (front, rest) ↔ front.length = n ∧ bs = front ++ rest := by
  induction n generalizing bs front with
  | zero =>
    simp only [splitAt?, Option.some.injEq, Prod.mk.injEq, List.length_eq_zero_iff]
    constructor
    · rintro ⟨rfl, rfl⟩; simp
    · rintro ⟨rfl, rfl⟩; simp
  | succ n ih =>
    cases bs with
    | nil => cases front <;> simp [splitAt?]
    | cons b bs =>
      simp only [splitAt?, Option.map_eq_some_iff, Prod.exists, Prod.mk.injEq]
      constructor
      · rintro ⟨f, r, hfr, rfl, rfl⟩
        obtain ⟨hf, rfl⟩ := ih.mp hfr
        simp [hf]
      · rintro ⟨hlen, heq⟩
        cases front with
        | nil => simp at hlen
        | cons c f =>
          simp only [List.cons_append, List.cons.injEq] at heq
          obtain ⟨rfl, rfl⟩ := heq
          exact ⟨f, rest, ih.mpr ⟨by simpa using hlen, rfl⟩, rfl, rfl⟩

/-- A cut fails exactly where the input is too short. -/
theorem splitAt?_eq_none_iff {n : Nat} {bs : Bytes} : splitAt? n bs = none ↔ bs.length < n := by
  induction n generalizing bs with
  | zero => simp [splitAt?]
  | succ n ih =>
    cases bs with
    | nil => simp [splitAt?]
    | cons b bs => simp [splitAt?, ih]

end OncWire
