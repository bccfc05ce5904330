/-!
# Words in network byte order

Results:
* `word16_bytes16`, `word32_bytes32`: a word is the word of its bytes.
* `bytes16_word16`, `bytes32_word32`: bytes are the bytes of their word.
* `words32_flatMap_bytes32`, `flatMap_bytes32_words32`: the same for a list of words and a byte
  string of whole words.
-/

namespace CallBridge.Net

/-- The word of sixteen bits with a high and a low byte. -/
def word16 (high low : UInt8) : UInt16 := UInt16.ofNat (high.toNat * 256 + low.toNat)

/-- The bytes of a word of sixteen bits, the high one first. -/
def bytes16 (w : UInt16) : List UInt8 :=
  [UInt8.ofNat (w.toNat / 256), UInt8.ofNat (w.toNat % 256)]

/-- The word of 32 bits with four bytes, the highest first. -/
def word32 (b3 b2 b1 b0 : UInt8) : UInt32 :=
  UInt32.ofNat (((b3.toNat * 256 + b2.toNat) * 256 + b1.toNat) * 256 + b0.toNat)

/-- The bytes of a word of 32 bits, the highest first. -/
def bytes32 (w : UInt32) : List UInt8 :=
  [UInt8.ofNat (w.toNat / 16777216), UInt8.ofNat (w.toNat / 65536 % 256),
    UInt8.ofNat (w.toNat / 256 % 256), UInt8.ofNat (w.toNat % 256)]

/-- The words of 32 bits that a byte string holds, without an incomplete last one. -/
def words32 : List UInt8 → List UInt32
  | b3 :: b2 :: b1 :: b0 :: rest => word32 b3 b2 b1 b0 :: words32 rest
  | _ => []

theorem word16_bytes16 (w : UInt16) :
    word16 (UInt8.ofNat (w.toNat / 256)) (UInt8.ofNat (w.toNat % 256)) = w := by
  have h : w.toNat < 65536 := w.toNat_lt
  apply UInt16.toNat_inj.1
  simp only [word16, UInt8.toNat_ofNat', UInt16.toNat_ofNat']
  omega

theorem word32_bytes32 (w : UInt32) :
    word32 (UInt8.ofNat (w.toNat / 16777216)) (UInt8.ofNat (w.toNat / 65536 % 256))
      (UInt8.ofNat (w.toNat / 256 % 256)) (UInt8.ofNat (w.toNat % 256)) = w := by
  have h : w.toNat < 4294967296 := w.toNat_lt
  apply UInt32.toNat_inj.1
  simp only [word32, UInt8.toNat_ofNat', UInt32.toNat_ofNat']
  omega

theorem words32_flatMap_bytes32 (ws : List UInt32) : words32 (ws.flatMap bytes32) = ws := by
  induction ws with
  | nil => rfl
  | cons w ws ih =>
    simp only [List.flatMap_cons, bytes32, List.cons_append, List.nil_append, words32,
      word32_bytes32]
    exact congrArg (w :: ·) ih

theorem bytes16_word16 (b1 b0 : UInt8) : bytes16 (word16 b1 b0) = [b1, b0] := by
  have h1 := b1.toNat_lt
  have h0 := b0.toNat_lt
  have hn : (word16 b1 b0).toNat = b1.toNat * 256 + b0.toNat := by
    rw [word16, UInt16.toNat_ofNat']
    omega
  have e1 : (b1.toNat * 256 + b0.toNat) / 256 = b1.toNat := by omega
  have e0 : (b1.toNat * 256 + b0.toNat) % 256 = b0.toNat := by omega
  rw [bytes16, hn, e1, e0, UInt8.ofNat_toNat, UInt8.ofNat_toNat]

theorem bytes32_word32 (b3 b2 b1 b0 : UInt8) :
    bytes32 (word32 b3 b2 b1 b0) = [b3, b2, b1, b0] := by
  have h3 := b3.toNat_lt
  have h2 := b2.toNat_lt
  have h1 := b1.toNat_lt
  have h0 := b0.toNat_lt
  generalize hn : ((b3.toNat * 256 + b2.toNat) * 256 + b1.toNat) * 256 + b0.toNat = n
  have hw : (word32 b3 b2 b1 b0).toNat = n := by
    rw [word32, UInt32.toNat_ofNat', hn]
    omega
  have e3 : n / 16777216 = b3.toNat := by omega
  have e2 : n / 65536 % 256 = b2.toNat := by omega
  have e1 : n / 256 % 256 = b1.toNat := by omega
  have e0 : n % 256 = b0.toNat := by omega
  rw [bytes32, hw, e3, e2, e1, e0, UInt8.ofNat_toNat, UInt8.ofNat_toNat, UInt8.ofNat_toNat,
    UInt8.ofNat_toNat]

theorem length_flatMap_bytes32 (ws : List UInt32) :
    (ws.flatMap bytes32).length = 4 * ws.length := by
  induction ws with
  | nil => rfl
  | cons w ws ih =>
    rw [List.flatMap_cons, List.length_append, ih, List.length_cons, bytes32]
    show 4 + 4 * ws.length = 4 * (ws.length + 1)
    omega

/-- A byte string of `k` whole words is written by its `k` words. -/
theorem flatMap_bytes32_words32 : ∀ {bytes : List UInt8} {k : Nat}, bytes.length = 4 * k →
    (words32 bytes).flatMap bytes32 = bytes ∧ (words32 bytes).length = k
  | [], k, h => by
    have hk : k = 0 := by rw [List.length_nil] at h; omega
    exact ⟨rfl, hk.symm⟩
  | b3 :: b2 :: b1 :: b0 :: rest, k, h => by
    simp only [List.length_cons] at h
    obtain ⟨hb, hl⟩ := flatMap_bytes32_words32 (show rest.length = 4 * (k - 1) by omega)
    constructor
    · rw [words32, List.flatMap_cons, bytes32_word32, hb]
      rfl
    · rw [words32, List.length_cons, hl]
      omega
  | [b3], k, h => by simp only [List.length_cons, List.length_nil] at h; omega
  | [b3, b2], k, h => by simp only [List.length_cons, List.length_nil] at h; omega
  | [b3, b2, b1], k, h => by simp only [List.length_cons, List.length_nil] at h; omega

end CallBridge.Net
