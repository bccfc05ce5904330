/-!
# Linear audio as bytes

Audio moves through the bridge as signed samples of sixteen bits in little-endian byte order. A
trailing odd byte is no sample and is dropped. Reading into a buffer changes the front of it and
leaves the rest alone.

This is the PCM that `get` and `put` of the media core's streams and sources exchange.

Results:
* `samples_bytes`: samples written as bytes are read back.
* `bytes_samples`: bytes read as samples are written back, if they come in pairs.
* `length_samples`: two bytes make a sample.
* `samples_append`: audio may be cut between two samples.
* `take_overlay`, `drop_overlay`: what reading into a buffer changes and what it keeps.
-/

namespace CallBridge.Audio

/-- The sample made of a low and a high byte. -/
def sample (low high : UInt8) : Int16 := Int16.ofNat (low.toNat + 256 * high.toNat)

/-- The low and the high byte of a sample. -/
def sampleBytes (x : Int16) : List UInt8 :=
  [UInt8.ofNat (x.toUInt16.toNat % 256), UInt8.ofNat (x.toUInt16.toNat / 256)]

/-- The samples that a byte string holds. -/
def samples : List UInt8 → List Int16
  | low :: high :: rest => sample low high :: samples rest
  | _ => []

/-- The bytes of a list of samples. -/
def bytes (xs : List Int16) : List UInt8 := xs.flatMap sampleBytes

/-- A buffer after a read has put some bytes at its front. -/
def overlay (front buffer : List UInt8) : List UInt8 := front ++ buffer.drop front.length

theorem sample_sampleBytes (x : Int16) :
    samples (sampleBytes x) = [x] := by
  have h : x.toUInt16.toNat < 65536 := x.toUInt16.toNat_lt
  simp only [sampleBytes, samples, sample, UInt8.toNat_ofNat']
  rw [show x.toUInt16.toNat % 256 % 2 ^ 8 + 256 * (x.toUInt16.toNat / 256 % 2 ^ 8) =
    x.toUInt16.toNat by omega]
  congr 1
  apply Int16.toBitVec_inj.1
  simp [Int16.ofNat]

theorem samples_bytes (xs : List Int16) : samples (bytes xs) = xs := by
  induction xs with
  | nil => rfl
  | cons x xs ih =>
    have h := sample_sampleBytes x
    simp only [sampleBytes, samples, List.cons.injEq, and_true] at h
    simp only [bytes, List.flatMap_cons, sampleBytes, List.cons_append, List.nil_append, samples, h]
    exact congrArg (x :: ·) ih

theorem sampleBytes_sample (low high : UInt8) : sampleBytes (sample low high) = [low, high] := by
  have hlow := low.toNat_lt
  have hhigh := high.toNat_lt
  have hword : (sample low high).toUInt16.toNat = low.toNat + 256 * high.toNat := by
    rw [sample, Int16.toUInt16_ofNat', UInt16.toNat_ofNat']
    omega
  have hl : (low.toNat + 256 * high.toNat) % 256 = low.toNat := by omega
  have hh : (low.toNat + 256 * high.toNat) / 256 = high.toNat := by omega
  rw [sampleBytes, hword, hl, hh, UInt8.ofNat_toNat, UInt8.ofNat_toNat]

theorem bytes_samples : ∀ {bs : List UInt8}, bs.length % 2 = 0 → bytes (samples bs) = bs
  | [], _ => rfl
  | [_], h => by cases h
  | low :: high :: rest, h => by
    have hrest : rest.length % 2 = 0 := by
      simp only [List.length_cons] at h
      omega
    rw [samples, bytes, List.flatMap_cons, sampleBytes_sample, ← bytes, bytes_samples hrest]
    rfl

theorem length_samples : ∀ bs : List UInt8, (samples bs).length = bs.length / 2
  | [] => rfl
  | [_] => by simp [samples]
  | _ :: _ :: rest => by simp only [samples, List.length_cons, length_samples rest]; omega

theorem samples_append : ∀ {front : List UInt8}, front.length % 2 = 0 → ∀ rest : List UInt8,
    samples (front ++ rest) = samples front ++ samples rest
  | [], _, _ => rfl
  | [_], h, _ => by cases h
  | low :: high :: front, h, rest => by
    have hfront : front.length % 2 = 0 := by
      simp only [List.length_cons] at h
      omega
    exact congrArg (sample low high :: ·) (samples_append hfront rest)

theorem length_bytes (xs : List Int16) : (bytes xs).length = 2 * xs.length := by
  induction xs with
  | nil => rfl
  | cons x xs ih =>
    rw [bytes, List.flatMap_cons, List.length_append, ← bytes, ih]
    simp [sampleBytes]; omega

theorem bytes_append (xs ys : List Int16) : bytes (xs ++ ys) = bytes xs ++ bytes ys :=
  List.flatMap_append

theorem take_overlay (front buffer : List UInt8) :
    (overlay front buffer).take front.length = front := by simp [overlay]

theorem drop_overlay (front buffer : List UInt8) :
    (overlay front buffer).drop front.length = buffer.drop front.length := by simp [overlay]

theorem length_overlay {front buffer : List UInt8} (h : front.length ≤ buffer.length) :
    (overlay front buffer).length = buffer.length := by
  simp [overlay]; omega

end CallBridge.Audio
