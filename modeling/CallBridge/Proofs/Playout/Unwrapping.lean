import CallBridge.Proofs.Playout.FullBuffer

/-!
# Timestamps across wrap-arounds

A sender counts its samples without end, but only the low 32 bits of its count travel with a frame.
The buffer widens what comes to the timestamp closest to the highest one so far. Where each true
timestamp lies within half of the range of 32 bits of the highest true one before it, the widened
timestamps are the true ones up to one shift, which is a multiple of 2³².

The machine computes all this in words of 64 bits, with a cut at zero. Below 2⁶² no step of that
leaves the range of its words, and the cut never does anything.

Results:
* `JitterBuffer.widened_eq`, `JitterBuffer.lastStamp_useAll`: what a buffer widens and remembers.
* `extend_true`: one timestamp is widened to the true one, shifted.
* `extend?_eq`, `widen?_eq`: the arithmetic of the machine is exact.
* `unwrapping_exact`: any sequence of timestamps with reorderings and wrap-arounds.
-/

namespace CallBridge.Playout

/-! ## The timestamps of a run -/

/-- The timestamp that comes with a use; an empty frame brings none. -/
def Use.stamp? : Use → Option UInt32
  | .put stamp _ pcm => if pcm.isEmpty then none else some stamp
  | .read _ => none

/-- Timestamps widened one after the other, each in view of the highest one before it. -/
def widenAll : Option Nat → List UInt32 → List Nat
  | _, [] => []
  | last, stamp :: rest => extend last stamp :: widenAll (highest last (extend last stamp)) rest

theorem length_widenAll (last : Option Nat) (stamps : List UInt32) :
    (widenAll last stamps).length = stamps.length := by
  induction stamps generalizing last with
  | nil => rfl
  | cons stamp rest ih => rw [widenAll, List.length_cons, List.length_cons, ih]

theorem highest_none (ext : Nat) : highest none ext = some ext := by
  rw [highest, Option.getD_none, Nat.zero_max]

theorem foldl_highest_some (exts : List Nat) (last : Nat) :
    exts.foldl highest (some last) = some (exts.foldl max last) := by
  induction exts generalizing last with
  | nil => rfl
  | cons ext exts ih => exact ih _

theorem foldl_highest (exts : List Nat) : exts.foldl highest none = exts.max? := by
  cases exts with
  | nil => rfl
  | cons ext exts =>
    rw [List.foldl_cons, highest_none, foldl_highest_some, List.max?_cons']

namespace Queue

/-- A queue of any mode remembers the highest widened timestamp. -/
theorem lastStamp_put_any (q : Queue) (stamp : UInt32) {pcm : List Int16} (hpcm : pcm ≠ []) :
    (q.put stamp pcm).lastStamp = highest q.lastStamp (extend q.lastStamp stamp) := by
  rw [put_noted q stamp hpcm]
  unfold putExtended
  split
  · rfl
  · split <;> rfl

end Queue

namespace JitterBuffer

/-- The timestamps to which a buffer widens those that come in some uses. -/
def widened (b : JitterBuffer) : List Use → List Nat
  | [] => []
  | .put stamp arrivalNanos pcm :: us =>
    let rest := (b.put stamp arrivalNanos pcm).widened us
    if pcm.isEmpty then rest else extend b.queue.lastStamp stamp :: rest
  | .read out :: us => (b.read out).1.widened us

/-- What a use leaves as the highest timestamp. -/
theorem lastStamp_use (b : JitterBuffer) (u : Use) :
    (b.use u).queue.lastStamp = match u.stamp? with
      | none => b.queue.lastStamp
      | some stamp => highest b.queue.lastStamp (extend b.queue.lastStamp stamp) := by
  cases u with
  | read out => exact (b.queue.read_frame b.target (out.length / 2)).2.2.1
  | put stamp arrivalNanos pcm =>
    rw [use, queue_put, Use.stamp?]
    by_cases hpcm : pcm = []
    · subst hpcm
      rfl
    · rw [if_neg (by simpa using hpcm)]
      exact b.queue.lastStamp_put_any stamp hpcm

/-- Neither the mode nor what was read meanwhile matters to how timestamps are widened. -/
theorem widened_eq (b : JitterBuffer) (us : List Use) :
    b.widened us = widenAll b.queue.lastStamp (us.filterMap Use.stamp?) := by
  induction us generalizing b with
  | nil => rfl
  | cons u us ih =>
    have hlast := b.lastStamp_use u
    cases u with
    | read out =>
      rw [widened, ih]
      exact congrArg (widenAll · _) hlast
    | put stamp arrivalNanos pcm =>
      rw [widened, ih, List.filterMap_cons]
      unfold Use.stamp? at hlast ⊢
      by_cases hpcm : pcm.isEmpty = true
      · simp only [hpcm, if_true] at hlast ⊢
        exact congrArg (widenAll · _) hlast
      · simp only [hpcm, Bool.false_eq_true, if_false] at hlast ⊢
        exact congrArg (extend b.queue.lastStamp stamp :: widenAll · _) hlast

/-- A buffer remembers the highest timestamp of all that it widened. -/
theorem lastStamp_useAll (b : JitterBuffer) (us : List Use) :
    (b.useAll us).queue.lastStamp = (b.widened us).foldl highest b.queue.lastStamp := by
  rw [widened_eq]
  induction us generalizing b with
  | nil => rfl
  | cons u us ih =>
    have hlast := b.lastStamp_use u
    refine (ih (b.use u)).trans ?_
    rw [hlast, List.filterMap_cons]
    cases u.stamp? <;> rfl

end JitterBuffer

/-! ## True timestamps -/

/-- Each timestamp lies within half of the range of 32 bits of the highest one before it. -/
def NearHighest (ts : List Nat) : Prop :=
  ∀ before t after m, ts = before ++ t :: after → before.max? = some m →
    m ≤ t + 2147483648 ∧ t < m + 2147483648

/-- Each timestamp lies within half of the range of 32 bits of the highest one before it, where one
came before all of them. -/
def NearFrom (m : Nat) (ts : List Nat) : Prop :=
  ∀ before t after, ts = before ++ t :: after →
    before.foldl max m ≤ t + 2147483648 ∧ t < before.foldl max m + 2147483648

theorem nearHighest_cons {t : Nat} {ts : List Nat} :
    NearHighest (t :: ts) ↔ NearFrom t ts := by
  constructor
  · rintro h before u after rfl
    exact h (t :: before) u after _ rfl List.max?_cons'
  · intro h before u after m hsplit hm
    cases before with
    | nil => cases hm
    | cons t' before =>
      obtain ⟨rfl, rfl⟩ := List.cons.inj hsplit
      rw [List.max?_cons', Option.some.injEq] at hm
      exact hm ▸ h before u after rfl

theorem nearFrom_nil (m : Nat) : NearFrom m [] := by
  intro before t after hsplit
  simp at hsplit

theorem nearFrom_cons {m t : Nat} {ts : List Nat} :
    NearFrom m (t :: ts) ↔
      (m ≤ t + 2147483648 ∧ t < m + 2147483648) ∧ NearFrom (max m t) ts := by
  constructor
  · intro h
    refine ⟨h [] t ts rfl, ?_⟩
    rintro before u after rfl
    exact h (t :: before) u after rfl
  · rintro ⟨hhead, htail⟩ before u after hsplit
    cases before with
    | nil =>
      obtain ⟨rfl, rfl⟩ := List.cons.inj hsplit
      exact hhead
    | cons t' before =>
      obtain ⟨rfl, rfl⟩ := List.cons.inj hsplit
      exact htail before u after rfl

/-- The highest widened timestamp is the highest true one, shifted by a multiple of 2³², and so far
above zero that no timestamp close to it is below. -/
structure Shifted (shift : Int) (m last : Nat) : Prop where
  whole : (4294967296 : Int) ∣ shift
  shifted : (last : Int) = m + shift
  above : 4294967296 ≤ last

/-- The signed difference of two timestamps is that of the numbers that they stand for, brought into
the range around zero. -/
theorem toInt_sub_ofNat (t last : Nat) :
    (UInt32.ofNat t - UInt32.ofNat last).toInt32.toInt = ((t : Int) - last).bmod 4294967296 := by
  rw [UInt32.toInt32_sub, Int32.toInt_sub, UInt32.toInt32_ofNat', UInt32.toInt32_ofNat',
    Int32.toInt_ofNat', Int32.toInt_ofNat']
  exact Int.bmod_sub_bmod.trans Int.sub_bmod_bmod

/-- A timestamp close to the highest one is widened to the true one, shifted. -/
theorem extend_true {shift : Int} {m last t : Nat} (h : Shifted shift m last)
    (hlow : m ≤ t + 2147483648) (hhigh : t < m + 2147483648) :
    (extend (some last) (UInt32.ofNat t) : Int) = t + shift := by
  obtain ⟨⟨k, hk⟩, hshifted, habove⟩ := h
  have hdiff : (UInt32.ofNat t - UInt32.ofNat last).toInt32.toInt = (t : Int) - m := by
    have hmod : (t : Int) - last = t - m - (4294967296 : Nat) * k := by omega
    rw [toInt_sub_ofNat, hmod, Int.sub_mul_bmod_self_left, Int.bmod_eq_of_le (by omega) (by omega)]
  rw [extend, hdiff]
  omega

theorem Shifted.next {shift : Int} {m last t : Nat} (h : Shifted shift m last) {ext : Nat}
    (hext : (ext : Int) = t + shift) : Shifted shift (max m t) (max last ext) := by
  obtain ⟨hwhole, hshifted, habove⟩ := h
  exact ⟨hwhole, by omega, by omega⟩

/-- However often the timestamps wrap around, all of them are shifted by the same. -/
theorem widenAll_true {shift : Int} {m last : Nat} {ts : List Nat} (h : Shifted shift m last)
    (hnear : NearFrom m ts) :
    (widenAll (some last) (ts.map UInt32.ofNat)).map (fun e : Nat => (e : Int)) =
      ts.map fun t : Nat => (t : Int) + shift := by
  induction ts generalizing m last with
  | nil => rfl
  | cons t ts ih =>
    obtain ⟨⟨hlow, hhigh⟩, hrest⟩ := nearFrom_cons.1 hnear
    have hext := extend_true h hlow hhigh
    rw [List.map_cons, widenAll, List.map_cons, List.map_cons]
    exact List.cons_eq_cons.2 ⟨hext, ih (h.next hext) hrest⟩

/-- The first timestamp is put above 2³². -/
theorem shifted_first (t : Nat) :
    Shifted (extend none (UInt32.ofNat t) - t) t (extend none (UInt32.ofNat t)) := by
  have hfirst : extend none (UInt32.ofNat t) = t % 4294967296 + 4294967296 := by
    rw [Queue.extend_first, UInt32.toNat_ofNat']
  rw [hfirst]
  exact ⟨by omega, by omega, by omega⟩

theorem exists_shift {ts : List Nat} (h : NearHighest ts) : ∃ shift : Int,
    (widenAll none (ts.map UInt32.ofNat)).map (fun e : Nat => (e : Int)) =
      ts.map fun t : Nat => (t : Int) + shift := by
  cases ts with
  | nil => exact ⟨0, rfl⟩
  | cons t ts =>
    refine ⟨(extend none (UInt32.ofNat t) : Int) - t, ?_⟩
    rw [List.map_cons, widenAll, highest_none, List.map_cons, List.map_cons]
    exact List.cons_eq_cons.2 ⟨by omega, widenAll_true (shifted_first t) (nearHighest_cons.1 h)⟩

/-! ## The arithmetic of the machine -/

/-- The sum of two words, unless it leaves their range. -/
def addWords? (a b : UInt64) : Option UInt64 :=
  if a.toNat + b.toNat < UInt64.size then some (a + b) else none

/-- A word read with a sign, unless that changes what it says. -/
def signed? (a : UInt64) : Option Int64 := if 0 ≤ a.toInt64 then some a.toInt64 else none

/-- The sum of two signed words, unless it leaves their range. -/
def addSigned? (a b : Int64) : Option Int64 :=
  if (a + b).toInt = a.toInt + b.toInt then some (a + b) else none

/-- A signed word read without its sign, unless it is negative and would have to be cut at zero. -/
def unsigned? (a : Int64) : Option UInt64 := if 0 ≤ a then some a.toUInt64 else none

/-- A timestamp widened in words of 64 bits, unless a step of that is not exact. -/
def extend? (last : Option UInt64) (stamp : UInt32) : Option UInt64 :=
  match last with
  | none => addWords? stamp.toUInt64 4294967296
  | some last => do
    let signed ← signed? last
    let sum ← addSigned? signed (stamp - last.toUInt32).toInt32.toInt64
    unsigned? sum

/-- The highest widened timestamp after another one came, in words of 64 bits. -/
def highestWord (last : Option UInt64) (ext : UInt64) : UInt64 :=
  match last with
  | none => ext
  | some last => if last < ext then ext else last

/-- Timestamps widened one after the other in words of 64 bits, unless a step is not exact. -/
def widen? : Option UInt64 → List UInt32 → Option (List UInt64)
  | _, [] => some []
  | last, stamp :: rest => do
    let ext ← extend? last stamp
    let exts ← widen? (some (highestWord last ext)) rest
    some (ext :: exts)

theorem extend?_first (stamp : UInt32) :
    extend? none stamp = some (UInt64.ofNat (extend none stamp)) := by
  have hsum : stamp.toUInt64.toNat + (4294967296 : UInt64).toNat < UInt64.size := by
    have := stamp.toNat_lt
    rw [UInt32.toNat_toUInt64]
    show _ + 4294967296 < 18446744073709551616
    omega
  rw [extend?, addWords?, if_pos hsum]
  refine congrArg some (UInt64.toNat_inj.1 ?_)
  rw [UInt64.toNat_add, UInt32.toNat_toUInt64, UInt64.toNat_ofNat', Queue.extend_first]
  rfl

/-- Far from both ends of its range a timestamp is widened exactly. -/
theorem extend?_eq {last : Nat} (hlow : 2147483648 ≤ last) (hhigh : last < 4611686018427387904)
    (stamp : UInt32) :
    extend? (some (UInt64.ofNat last)) stamp =
      some (UInt64.ofNat (extend (some last) stamp)) := by
  let delta := (stamp - UInt32.ofNat last).toInt32
  obtain ⟨ext, hext⟩ : ∃ ext : Nat, (ext : Int) = last + delta.toInt :=
    ⟨(last + delta.toInt).toNat, by have := delta.le_toInt; omega⟩
  have hdelta : -2147483648 ≤ delta.toInt ∧ delta.toInt < 2147483648 :=
    ⟨delta.le_toInt, delta.toInt_lt⟩
  have hlast : (Int64.ofNat last).toInt = last := Int64.toInt_ofNat_of_lt (by omega)
  have hword : (Int64.ofNat ext).toInt = ext := Int64.toInt_ofNat_of_lt (by omega)
  have hsum : (Int64.ofNat last + delta.toInt64).toInt =
      (Int64.ofNat last).toInt + delta.toInt64.toInt := by
    rw [Int64.toInt_add, Int32.toInt_toInt64, hlast]
    exact Int.bmod_eq_of_le (by omega) (by omega)
  have hplace : Int64.ofNat last + delta.toInt64 = Int64.ofNat ext := by
    apply Int64.toInt_inj.1
    rw [hsum, hword, hlast, Int32.toInt_toInt64, hext]
  have hsigned : signed? (UInt64.ofNat last) = some (Int64.ofNat last) := by
    rw [signed?, UInt64.toInt64_ofNat', if_pos]
    rw [Int64.le_iff_toInt_le, hlast]
    exact Int.natCast_nonneg last
  have hadd : addSigned? (Int64.ofNat last) delta.toInt64 = some (Int64.ofNat ext) := by
    rw [addSigned?, if_pos hsum, hplace]
  have hunsigned : unsigned? (Int64.ofNat ext) = some (UInt64.ofNat ext) := by
    rw [unsigned?, Int64.toUInt64_ofNat', if_pos]
    rw [Int64.le_iff_toInt_le, hword]
    exact Int.natCast_nonneg ext
  have hwide : extend (some last) stamp = ext := by
    show ((last : Int) + delta.toInt).toNat = ext
    rw [← hext, Int.toNat_natCast]
  rw [extend?, UInt64.toUInt32_ofNat', hwide, hsigned, Option.bind_eq_bind, Option.bind_some]
  show (addSigned? (Int64.ofNat last) delta.toInt64).bind unsigned? = _
  rw [hadd, Option.bind_some, hunsigned]

theorem highestWord_eq {last ext : Nat} (hlast : last < 4611686018427387904)
    (hext : ext < 4611686018427387904) :
    highestWord (some (UInt64.ofNat last)) (UInt64.ofNat ext) = UInt64.ofNat (max last ext) := by
  have hlt : UInt64.ofNat last < UInt64.ofNat ext ↔ last < ext := by
    rw [UInt64.lt_iff_toNat_lt, UInt64.toNat_ofNat', UInt64.toNat_ofNat',
      Nat.mod_eq_of_lt (by omega), Nat.mod_eq_of_lt (by omega)]
  simp only [highestWord, hlt]
  split
  · next h => rw [Nat.max_eq_right (Nat.le_of_lt h)]
  · next h => rw [Nat.max_eq_left (Nat.le_of_not_lt h)]

/-- As long as the timestamps stay far from the end of their range, all of them are widened
exactly. -/
theorem widen?_eq {last : Nat} (hlow : 2147483648 ≤ last) (hhigh : last < 4611686018427387904)
    {stamps : List UInt32}
    (hexts : ∀ e ∈ widenAll (some last) stamps, e < 4611686018427387904) :
    widen? (some (UInt64.ofNat last)) stamps =
      some ((widenAll (some last) stamps).map UInt64.ofNat) := by
  induction stamps generalizing last with
  | nil => rfl
  | cons stamp rest ih =>
    rw [widenAll] at hexts ⊢
    have hext : extend (some last) stamp < 4611686018427387904 := hexts _ List.mem_cons_self
    have hlow' : 2147483648 ≤ max last (extend (some last) stamp) := by omega
    have hrest := ih hlow' (by omega) fun e he => hexts e (List.mem_cons_of_mem _ he)
    simp only [widen?, extend?_eq hlow hhigh, highestWord_eq hhigh hext, hrest, Option.bind_eq_bind,
      Option.bind_some]
    rfl

theorem widen?_first {stamps : List UInt32}
    (hexts : ∀ e ∈ widenAll none stamps, e < 4611686018427387904) :
    widen? none stamps = some ((widenAll none stamps).map UInt64.ofNat) := by
  cases stamps with
  | nil => rfl
  | cons stamp rest =>
    rw [widenAll] at hexts ⊢
    have hfirst : 4294967296 ≤ extend none stamp := Nat.le_add_left _ _
    have hext : extend none stamp < 4611686018427387904 := hexts _ List.mem_cons_self
    rw [highest_none] at hexts ⊢
    have hrest := widen?_eq (by omega) hext fun e he => hexts e (List.mem_cons_of_mem _ he)
    simp only [widen?, extend?_first, highestWord, hrest, Option.bind_eq_bind, Option.bind_some]
    rfl

/-! ## Sequences of timestamps -/

/-- **Main theorem**: however often the timestamps of a sender wrap around, a buffer widens them to
timestamps that differ as the true ones do, as long as each true one lies within 2³¹ of the highest
one before it.

That holds for a new buffer of any mode, whatever is read meanwhile. The buffer remembers the
highest of them. As long as they stay below 2⁶², computing them in words of 64 bits is exact: no sum
leaves its range, no sign is lost, and nothing is cut at zero. -/
theorem unwrapping_exact (mode : Mode) (rate : UInt32) (times : DelayTimes) {us : List Use}
    {ts : List Nat} (hstamps : us.filterMap Use.stamp? = ts.map UInt32.ofNat)
    (hnear : NearHighest ts)
    (hbound : ∀ e ∈ (JitterBuffer.empty mode rate times).widened us, e < 4611686018427387904) :
    let exts := (JitterBuffer.empty mode rate times).widened us
    exts.length = ts.length ∧
      (∀ (i j : Nat) (ei ej ti tj : Nat), exts[i]? = some ei → exts[j]? = some ej →
        ts[i]? = some ti → ts[j]? = some tj → (ei : Int) - ej = ti - tj) ∧
      ((JitterBuffer.empty mode rate times).useAll us).queue.lastStamp = exts.max? ∧
      widen? none (us.filterMap Use.stamp?) = some (exts.map UInt64.ofNat) := by
  intro exts
  have hexts : exts = widenAll none (ts.map UInt32.ofNat) :=
    hstamps ▸ JitterBuffer.widened_eq _ us
  obtain ⟨shift, hshift⟩ := exists_shift hnear
  rw [← hexts] at hshift
  have hplace {i e t : Nat} (he : exts[i]? = some e) (ht : ts[i]? = some t) :
      (e : Int) = t + shift := by
    have hboth := congrArg (·[i]?) hshift
    simp only [List.getElem?_map, he, ht, Option.map_some, Option.some.injEq] at hboth
    exact hboth
  refine ⟨by rw [hexts, length_widenAll, List.length_map],
    fun i j ei ej ti tj hei hej hti htj => ?_, ?_, ?_⟩
  · have := hplace hei hti
    have := hplace hej htj
    omega
  · rw [JitterBuffer.lastStamp_useAll]
    exact foldl_highest _
  · rw [hstamps, hexts]
    exact widen?_first fun e he => hbound e (by rwa [← hexts] at he)

/-- Frames of a sender whose count wraps around twice, some of them out of order, with reads between
them. -/
def wrappingUses : List Use :=
  [.put 4294967290 0 [1], .put 4 1000 [2], .read [0, 0], .put 4294967295 2000 [3], .put 7 2000 [],
    .put 2147483651 3000 [4], .put 4294967294 4000 [5], .read [], .put 10 5000 [6],
    .put 4294967290 6000 [7]]

/-- The true timestamps of the frames of `wrappingUses`. -/
def wrappingStamps : List Nat :=
  [4294967290, 4294967300, 4294967295, 6442450947, 8589934590, 8589934602, 8589934586]

theorem unwrapping_exact_wrapping :
    wrappingUses.filterMap Use.stamp? = wrappingStamps.map UInt32.ofNat ∧
      NearHighest wrappingStamps ∧
      (JitterBuffer.empty .adaptive 8000 ⟨0, 200, 0⟩).widened wrappingUses =
        [8589934586, 8589934596, 8589934591, 10737418243, 12884901886, 12884901898, 12884901882] ∧
      ((JitterBuffer.empty .adaptive 8000 ⟨0, 200, 0⟩).useAll wrappingUses).queue.lastStamp =
        some 12884901898 := by
  have hstamps : wrappingUses.filterMap Use.stamp? = wrappingStamps.map UInt32.ofNat := by decide
  have hnear : NearHighest wrappingStamps := by
    simp only [wrappingStamps, nearHighest_cons, nearFrom_cons]
    exact ⟨by decide, by decide, by decide, by decide, by decide, by decide, nearFrom_nil _⟩
  have hexts : (JitterBuffer.empty .adaptive 8000 ⟨0, 200, 0⟩).widened wrappingUses =
      [8589934586, 8589934596, 8589934591, 10737418243, 12884901886, 12884901898, 12884901882] := by
    rw [JitterBuffer.widened_eq, hstamps]
    decide
  have hexact := unwrapping_exact .adaptive 8000 ⟨0, 200, 0⟩ hstamps hnear (by
    rw [hexts]
    decide)
  exact ⟨hstamps, hnear, hexts, hexact.2.2.1.trans (by rw [hexts]; rfl)⟩

end CallBridge.Playout
