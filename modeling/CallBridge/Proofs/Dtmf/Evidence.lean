import CallBridge.Proofs.Dtmf.Presses

/-!
# What stands behind an event

Every event that a detector reports can be found in the blocks that it heard: two blocks of the key
right behind each other, the first of which came at the start of the event, then the blocks through
which the press went on, and two blocks without the key in the end. The duration is that of some of
these blocks, two at least, cut down to a word of 32 bits: a tone of seven weeks and some seconds is
reported as one of some seconds.

Timestamps of events are those of blocks. A run of blocks that a press begins with may begin before
the press before it ends, but not before the first block of that press, so events start in order
where blocks come in order. The invariant is that neither the press in progress nor the run that is
known began before the last event did, nor the run before the press.

Results:
* `Key.telephoneEvents_code`: the code of a key is the place of its character.
* `Debouncer.exists_spell_of_completed`: the blocks of a press that is completed.
* `Debouncer.Since.step`, `Debouncer.isChain_starts`: presses are completed in the order in which
  they started.
* `Detector.exists_blocks_hearsBy`: the blocks that a detector hears in audio.
* `Detector.onBlocksChecked_eq`: when the words of the machine hold what is counted.
* `events_sound`: what stands behind the events of a detector.
* `mem_events_tone`, `not_durations_sound`: the duration of a long tone is that of no blocks.
-/

namespace CallBridge.Dtmf

/-- The characters of the telephone events of RFC 4733, each at the place of its event code. -/
def telephoneEvents : List Char :=
  ['0', '1', '2', '3', '4', '5', '6', '7', '8', '9', '*', '#', 'A', 'B', 'C', 'D']

theorem Key.telephoneEvents_code (k : Key) : telephoneEvents[k.code]? = some k.digit := by
  have h : ∀ i j : Fin 4, telephoneEvents[Key.code ⟨i, j⟩]? = some (Key.digit ⟨i, j⟩) := by decide
  exact h k.row k.column

/-- Blocks whose timestamps never go back. -/
def InTime (blocks : List Block) : Prop := blocks.Pairwise fun b c => b.1 ≤ c.1

namespace Debouncer

/-! ## The blocks of a press -/

/-- A press is completed at one of the blocks. -/
theorem exists_of_mem_completed {d : Debouncer} {blocks : List Block} {p : Press}
    (h : p ∈ d.completed blocks) : ∃ before b later, blocks = before ++ b :: later ∧
      ((d.after before).advance b.2).2 = some p := by
  induction blocks generalizing d with
  | nil => cases h
  | cons b blocks ih =>
    rcases List.mem_append.1 h with h | h
    · exact ⟨[], b, blocks, rfl, Option.mem_toList.1 h⟩
    · obtain ⟨before, c, later, rfl, hdone⟩ := ih h
      exact ⟨b :: before, c, later, rfl, hdone⟩

/-- The blocks of a press that is completed: the spell that it began with, of whose blocks it counts
no others, and two blocks without its key. -/
theorem exists_spell_of_completed {blocks : List Block} {p : Press}
    (h : p ∈ start.completed blocks) : ∃ earlier spell u v later,
      blocks = earlier ++ (spell ++ [u, v]) ++ later ∧ Opens p.key p.start earlier spell ∧
      startBlocks ≤ p.blocks ∧ p.blocks ≤ count p.key spell ∧ u.2 ≠ some p.key ∧
      v.2 ≠ some p.key := by
  obtain ⟨before, v, later, rfl, hdone⟩ := exists_of_mem_completed h
  rcases (start.after before).advance_cases v.2 with ⟨q, -, -, h'⟩ | ⟨q, -, -, -, h'⟩ |
    ⟨q, hactive, hv, hmissing, h'⟩ | ⟨key, ts, -, -, -, h'⟩ | ⟨-, h'⟩ <;>
    cases (congrArg Prod.snd h').symm.trans hdone
  obtain ⟨earlier, spell, gap, rfl, hopens, hcount, hlength, hgap, hwithout⟩ := exists_spell hactive
  -- The press misses one block already, and the last block is the second one.
  have hone : gap.length = 1 := by
    rw [endBlocks] at hgap
    omega
  obtain ⟨u, rfl⟩ := List.length_eq_one_iff.1 hone
  refine ⟨earlier, spell, u, v, later, ?_, hopens, startBlocks_le (p := q) hactive, hcount,
    hwithout u (List.mem_singleton_self u), hv⟩
  simp only [List.append_assoc, List.cons_append, List.nil_append]

/-- A press in progress counts no more blocks than were heard. -/
theorem blocks_le_of_active {blocks : List Block} {p : Press}
    (h : (start.after blocks).active = some p) : p.blocks ≤ blocks.length := by
  obtain ⟨earlier, spell, gap, rfl, -, hcount, -⟩ := exists_spell h
  have hspell : count p.key spell ≤ spell.length := List.countP_le_length
  simp only [List.length_append]
  omega

theorem blocks_le_of_mem_completed {blocks : List Block} {p : Press}
    (h : p ∈ start.completed blocks) : p.blocks ≤ blocks.length := by
  have hcount := blocks_le_of_completed h
  have hnone : start.credit p.key = 0 := rfl
  rw [hnone, Nat.zero_add] at hcount
  exact hcount.trans List.countP_le_length

/-! ## The order of the starts -/

/-- A run that is known after a block began with this block, or was known before. -/
theorem runOf_cases {last : Option (Key × UInt64)} {ts t : UInt64} {heard : Option Key} {k : Key}
    (h : runOf last ts heard = some (k, t)) : t = ts ∨ ∃ k', last = some (k', t) := by
  obtain ⟨key, -, hrun⟩ := Option.map_eq_some_iff.1 h
  rcases last with _ | ⟨k', t'⟩
  · cases hrun
    exact .inl rfl
  · dsimp only at hrun
    split at hrun <;> cases hrun
    · exact .inr ⟨k', rfl⟩
    · exact .inl rfl

/-- The run that is known and the press in progress began at a timestamp or later and not after
another one, the run not before the press. -/
structure Since (low high : UInt64) (d : Debouncer) : Prop where
  le : low ≤ high
  run : ∀ k t, d.last = some (k, t) → low ≤ t ∧ t ≤ high
  press : ∀ p, d.active = some p →
    (low ≤ p.start ∧ p.start ≤ high) ∧ ∀ k t, d.last = some (k, t) → p.start ≤ t

theorem Since.start : Since 0 0 start where
  le := UInt64.le_refl 0
  run k t h := by cases h
  press p h := by cases h

section

variable {low high ts : UInt64} {d : Debouncer}

/-- What a run began after, it begins after when one more block came. -/
theorem le_run_step {x : UInt64} (hlast : ∀ k t, d.last = some (k, t) → x ≤ t) (hts : x ≤ ts)
    (heard : Option Key) : ∀ k t, (d.step ts heard).1.last = some (k, t) → x ≤ t := by
  intro k t h
  rcases runOf_cases h with rfl | ⟨k', hk'⟩
  · exact hts
  · exact hlast k' t hk'

/-- A press that a block completes did not start before those before it, and nothing that is known
then began before the press. -/
theorem Since.step (h : Since low high d) (hts : high ≤ ts) (heard : Option Key) :
    match (d.step ts heard).2 with
    | none => Since low ts (d.step ts heard).1
    | some p => low ≤ p.start ∧ Since p.start ts (d.step ts heard).1 := by
  have hlow : low ≤ ts := UInt64.le_trans h.le hts
  have hrun : ∀ x, x ≤ ts → (∀ k t, d.last = some (k, t) → x ≤ t) →
      ∀ k t, (d.step ts heard).1.last = some (k, t) → x ≤ t ∧ t ≤ ts := by
    intro x hx hlast k t hk
    refine ⟨le_run_step hlast hx heard k t hk, ?_⟩
    rcases runOf_cases hk with rfl | ⟨k', hk'⟩
    · exact UInt64.le_refl t
    · exact UInt64.le_trans (h.run k' t hk').2 hts
  have hsame := hrun low hlow fun k t hk => (h.run k t hk).1
  -- What is known of the press in progress holds on when one more block came.
  have hgoes : ∀ p, d.active = some p → (low ≤ p.start ∧ p.start ≤ ts) ∧
      ∀ k t, (d.step ts heard).1.last = some (k, t) → p.start ≤ t ∧ t ≤ ts := by
    intro p hp
    obtain ⟨⟨hfrom, hto⟩, hlast⟩ := h.press p hp
    exact ⟨⟨hfrom, UInt64.le_trans hto hts⟩, hrun p.start (UInt64.le_trans hto hts) hlast⟩
  rw [done_step]
  rcases d.advance_cases heard with ⟨p, hactive, -, h'⟩ | ⟨p, hactive, -, -, h'⟩ |
    ⟨p, hactive, -, -, h'⟩ | ⟨key, t, -, hlast, -, h'⟩ | ⟨-, h'⟩
  · obtain ⟨hpress, hfrom⟩ := hgoes p hactive
    rw [h']
    refine ⟨hlow, hsame, fun q hq => ?_⟩
    rw [active_step, h'] at hq
    cases hq
    exact ⟨hpress, fun k t hk => (hfrom k t hk).1⟩
  · obtain ⟨hpress, hfrom⟩ := hgoes p hactive
    rw [h']
    refine ⟨hlow, hsame, fun q hq => ?_⟩
    rw [active_step, h'] at hq
    cases hq
    exact ⟨hpress, fun k t hk => (hfrom k t hk).1⟩
  · obtain ⟨hpress, hfrom⟩ := hgoes p hactive
    rw [h']
    refine ⟨hpress.1, hpress.2, hfrom, fun q hq => ?_⟩
    rw [active_step, h'] at hq
    cases hq
  · -- A press that begins starts where the run did.
    obtain ⟨hfrom, hto⟩ := h.run key t hlast
    have hbefore := hrun t (UInt64.le_trans hto hts) fun k t' hk => by
      cases hlast.symm.trans hk
      exact UInt64.le_refl t
    rw [h']
    refine ⟨hlow, hsame, fun q hq => ?_⟩
    rw [active_step, h'] at hq
    cases hq
    exact ⟨⟨hfrom, UInt64.le_trans hto hts⟩, fun k t' hk => (hbefore k t' hk).1⟩
  · rw [h']
    refine ⟨hlow, hsame, fun q hq => ?_⟩
    rw [active_step, h'] at hq
    cases hq

/-- **Step and run**: presses are completed in the order in which they started. -/
theorem isChain_starts (h : Since low high d) {blocks : List Block}
    (hhigh : ∀ b ∈ blocks, high ≤ b.1) (htime : InTime blocks) :
    (low :: (d.completed blocks).map (·.start)).IsChain (· ≤ ·) := by
  induction blocks generalizing d low high with
  | nil => exact List.isChain_singleton low
  | cons b blocks ih =>
    obtain ⟨hlater, htime⟩ := List.pairwise_cons.1 htime
    have hstep := h.step (hhigh b List.mem_cons_self) b.2
    rw [completed]
    cases hdone : (d.step b.1 b.2).2 with
    | none =>
      rw [hdone] at hstep
      exact ih hstep hlater htime
    | some p =>
      rw [hdone] at hstep
      exact List.isChain_cons_cons.2 ⟨hstep.1, ih hstep.2 hlater htime⟩

end

end Debouncer

/-! ## Audio in blocks -/

namespace Detector

theorem onBlocks_withPartial (d : Detector) (rest : List Int16) (blocks : List Block) :
    ({ d with partialBlock := rest }).onBlocks blocks =
      { d.onBlocks blocks with partialBlock := rest } := by
  induction blocks generalizing d with
  | nil => rfl
  | cons b blocks ih => exact ih (d.onBlock b.1 b.2)

/-- What a detector was given to hear in a block, at some timestamp. -/
def IsHeard (d : Detector) (analysis : Analysis) (ts : UInt64) (b : Block) : Prop :=
  b.1 = ts ∧ ∃ xs : List Int16, xs.length = d.blockLength ∧ b.2 = analysis xs

/-- Samples that arrive are heard in blocks. -/
theorem exists_blocks_feed (analysis : Analysis) (ts : UInt64) (d : Detector) (xs : List Int16) :
    ∃ blocks rest, (∀ b ∈ blocks, d.IsHeard analysis ts b) ∧
      feed analysis ts d xs = { d.onBlocks blocks with partialBlock := rest } := by
  induction d, xs using feed.induct analysis ts with
  | case1 d xs block hfull ih =>
    obtain ⟨blocks, rest, hheard, hfeed⟩ := ih
    refine ⟨(ts, analysis block) :: blocks, rest, List.forall_mem_cons.2 ⟨?_, hheard⟩, ?_⟩
    · exact ⟨rfl, block, hfull.2, rfl⟩
    · rw [feed_of_full analysis ts d hfull]
      exact hfeed
  | case2 d xs block hpartial =>
    exact ⟨[], xs, fun b hb => absurd hb List.not_mem_nil, feed_of_partial analysis ts d hpartial⟩

theorem blockLength_onBlocks (d : Detector) (blocks : List Block) :
    (d.onBlocks blocks).blockLength = d.blockLength := by
  induction blocks generalizing d with
  | nil => rfl
  | cons b blocks ih => exact ih (d.onBlock b.1 b.2)

/-- Pieces of audio that come in time are heard in blocks that do. -/
theorem exists_blocks_hearsBy (analysis : Analysis) (d : Detector) {pieces : Pieces}
    (htime : pieces.Pairwise fun x y => x.1 ≤ y.1) :
    ∃ blocks rest, InTime blocks ∧
      (∀ b ∈ blocks, ∃ piece ∈ pieces, d.IsHeard analysis piece.1 b) ∧
      d.hearsBy analysis pieces = { d.onBlocks blocks with partialBlock := rest } := by
  induction pieces generalizing d with
  | nil =>
    exact ⟨[], d.partialBlock, List.Pairwise.nil, fun b hb => absurd hb List.not_mem_nil, rfl⟩
  | cons piece pieces ih =>
    obtain ⟨hlater, htime⟩ := List.pairwise_cons.1 htime
    obtain ⟨blocks, rest, hheard, hfeed⟩ :=
      exists_blocks_feed analysis piece.1 d (d.partialBlock ++ Audio.samples piece.2)
    obtain ⟨blocks', rest', htime', hheard', hpieces⟩ :=
      ih { d.onBlocks blocks with partialBlock := rest } htime
    refine ⟨blocks ++ blocks', rest', ?_, ?_, ?_⟩
    · refine List.pairwise_append.2 ⟨?_, htime', fun b hb c hc => ?_⟩
      · refine List.pairwise_of_forall_mem_list fun b hb c hc => ?_
        rw [(hheard b hb).1, (hheard c hc).1]
        exact UInt64.le_refl piece.1
      · obtain ⟨piece', hpiece', hc, -⟩ := hheard' c hc
        rw [(hheard b hb).1, hc]
        exact hlater piece' hpiece'
    · intro b hb
      rcases List.mem_append.1 hb with hb | hb
      · exact ⟨piece, List.mem_cons_self, hheard b hb⟩
      · obtain ⟨piece', hpiece', hts, xs, hxs, hb⟩ := hheard' b hb
        have hlength : xs.length = (d.onBlocks blocks).blockLength := hxs
        exact ⟨piece', List.mem_cons_of_mem piece hpiece', hts, xs,
          hlength.trans (d.blockLength_onBlocks blocks), hb⟩
    · rw [hearsBy_cons, process, hfeed, hpieces, onBlocks_withPartial, onBlocks, onBlocks, onBlocks,
        List.foldl_append]

end Detector

/-! ## Events -/

/-- The length of a number of blocks in whole milliseconds. -/
def Detector.millis (d : Detector) (blocks : Nat) : Nat :=
  blocks * d.blockLength * 1000 / d.rate.toNat

theorem Detector.millis_mono (d : Detector) {m n : Nat} (h : m ≤ n) : d.millis m ≤ d.millis n :=
  Nat.div_le_div_right (Nat.mul_le_mul_right 1000 (Nat.mul_le_mul_right d.blockLength h))

/-- The duration of an event has the low bits of the milliseconds that the press lasted. -/
theorem Detector.durationMs_eventOf (d : Detector) (p : Press) :
    (d.eventOf p).durationMs.toNat = d.millis p.blocks % UInt32.size := UInt32.toNat_ofNat' ..

theorem Detector.durationMs_eventOf_eq_iff (d : Detector) (p : Press) :
    (d.eventOf p).durationMs.toNat = d.millis p.blocks ↔ d.millis p.blocks < UInt32.size := by
  rw [durationMs_eventOf]
  exact ⟨fun h => h ▸ Nat.mod_lt _ (by decide), Nat.mod_eq_of_lt⟩

/-! ## The words of the machine -/

namespace Detector

/-- The detector after a block was heard, if the blocks of the press in progress can be counted in a
word of 32 bits, and the samples of a press that ends, a thousand times, in one of 64 bits. -/
def onBlockChecked (d : Detector) (ts : UInt64) (heard : Option Key) : Option Detector :=
  if (d.debouncer.step ts heard).1.active.all (·.blocks < UInt32.size) &&
      (d.debouncer.step ts heard).2.all (·.blocks * d.blockLength * 1000 < UInt64.size) then
    some (d.onBlock ts heard)
  else none

/-- The detector after some blocks were heard, if all that is computed fits into its words. -/
def onBlocksChecked (d : Detector) (blocks : List Block) : Option Detector :=
  blocks.foldlM (fun d b => d.onBlockChecked b.1 b.2) d

theorem onBlocks_append (d : Detector) (blocks more : List Block) :
    d.onBlocks (blocks ++ more) = (d.onBlocks blocks).onBlocks more := List.foldl_append

theorem debouncer_onBlocks (d : Detector) (blocks : List Block) :
    (d.onBlocks blocks).debouncer = d.debouncer.after blocks := by
  induction blocks generalizing d with
  | nil => rfl
  | cons b blocks ih => exact ih (d.onBlock b.1 b.2)

theorem le_rate_ofRate (rate : UInt32) : 8000 ≤ (ofRate rate).rate.toNat := by
  show 8000 ≤ (if rate ≤ 8000 then 8000 else rate).toNat
  split
  · decide
  · next h => exact UInt32.le_iff_toNat_le.1 (UInt32.le_of_lt (UInt32.not_le.1 h))

/-- A block lasts a millisecond and longer. -/
theorem le_millis (rate : UInt32) (n : Nat) : n ≤ (ofRate rate).millis n := by
  have hrate := le_rate_ofRate rate
  rw [millis, Nat.le_div_iff_mul_le (by omega), Nat.mul_assoc]
  refine Nat.mul_le_mul_left n ?_
  rw [blockLength]
  omega

/-- Where the milliseconds of some blocks fit into a word of 32 bits, their number does, and their
samples, a thousand times, fit into one of 64 bits. -/
theorem fits_of_millis (rate : UInt32) {n : Nat} (h : (ofRate rate).millis n < UInt32.size) :
    n < UInt32.size ∧ n * (ofRate rate).blockLength * 1000 < UInt64.size := by
  have hrate := le_rate_ofRate rate
  have hword := (ofRate rate).rate.toNat_lt_size
  refine ⟨Nat.lt_of_le_of_lt (le_millis rate n) h, ?_⟩
  rw [millis, Nat.div_lt_iff_lt_mul (by omega)] at h
  refine Nat.lt_of_lt_of_le h ?_
  calc UInt32.size * (ofRate rate).rate.toNat
    _ ≤ UInt32.size * UInt32.size := Nat.mul_le_mul_left _ hword.le
    _ = UInt64.size := rfl

/-- What was heard in less than seven weeks fits into the words. -/
theorem onBlocksChecked_eq (rate : UInt32) {blocks : List Block}
    (h : (ofRate rate).millis blocks.length < UInt32.size) :
    (ofRate rate).onBlocksChecked blocks = some ((ofRate rate).onBlocks blocks) := by
  induction blocks using List.reverseRecOn with
  | nil => rfl
  | append_singleton blocks b ih =>
    have hless : (ofRate rate).millis blocks.length < UInt32.size :=
      Nat.lt_of_le_of_lt ((ofRate rate).millis_mono (by simp)) h
    have hbefore : (blocks.foldlM (fun d b => d.onBlockChecked b.1 b.2) (ofRate rate) :
        Option Detector) = some ((ofRate rate).onBlocks blocks) := ih hless
    have hdebouncer : ((ofRate rate).onBlocks blocks).debouncer = Debouncer.start.after blocks :=
      (ofRate rate).debouncer_onBlocks blocks
    have hactive : ((Debouncer.start.after blocks).step b.1 b.2).1 =
        Debouncer.start.after (blocks ++ [b]) := (Debouncer.start.after_append blocks [b]).symm
    have hfits {n : Nat} (hn : n ≤ (blocks ++ [b]).length) := fits_of_millis rate
      (Nat.lt_of_le_of_lt ((ofRate rate).millis_mono hn) h)
    have hstep : ((ofRate rate).onBlocks blocks).onBlockChecked b.1 b.2 =
        some (((ofRate rate).onBlocks blocks).onBlock b.1 b.2) := by
      rw [onBlockChecked, hdebouncer, blockLength_onBlocks, hactive, if_pos]
      rw [Bool.and_eq_true, Option.all_eq_true, Option.all_eq_true]
      refine ⟨fun p hp => ?_, fun p hp => ?_⟩
      · exact decide_eq_true (hfits (Debouncer.blocks_le_of_active hp)).1
      · have hmem : p ∈ Debouncer.start.completed (blocks ++ [b]) := by
          rw [Debouncer.completed_append]
          refine List.mem_append_right _ (List.mem_append_left _ ?_)
          exact Option.mem_toList.2 hp
        exact decide_eq_true (hfits (Debouncer.blocks_le_of_mem_completed hmem)).2
    rw [onBlocksChecked, List.foldlM_append, hbefore, onBlocks_append]
    exact congrArg (· >>= pure) hstep

end Detector

/-- Blocks that stand behind an event of a detector: they begin with two blocks of its key, the
first one at its start, and end with two blocks without it. The event lasts as long as some of them,
two at least, and no more than hold the key, in milliseconds without the fraction. Of these the word
of 32 bits that keeps them has the low bits, which are all of them exactly if they fit. So the
duration is true of every press of less than seven weeks. -/
structure StandsBehind (d : Detector) (press : List Block) (e : Event) : Prop where
  begins : ∃ ts rest, press = (e.start, some e.key) :: (ts, some e.key) :: rest
  ends : ∃ held u v, press = held ++ [u, v] ∧ u.2 ≠ some e.key ∧ v.2 ≠ some e.key
  lasts : ∃ m, 2 ≤ m ∧ m ≤ count e.key press ∧ e.durationMs.toNat = d.millis m % UInt32.size ∧
    (e.durationMs.toNat = d.millis m ↔ d.millis m < UInt32.size)
  short : d.millis press.length < UInt32.size →
    ∃ m, 2 ≤ m ∧ m ≤ press.length ∧ e.durationMs.toNat = d.millis m
  code : telephoneEvents[e.key.code]? = some e.key.digit

/-- The blocks of a press that is completed stand behind its event. -/
theorem Detector.standsBehind (d : Detector) {p : Press} {earlier spell : List Block} {u v : Block}
    (hspell : Debouncer.Opens p.key p.start earlier spell) (hstart : startBlocks ≤ p.blocks)
    (hcount : p.blocks ≤ count p.key spell) (hu : u.2 ≠ some p.key) (hv : v.2 ≠ some p.key) :
    StandsBehind d (spell ++ [u, v]) (d.eventOf p) where
  begins := by
    obtain ⟨ts, rest, rfl, -⟩ := hspell.spell
    exact ⟨ts, rest ++ [u, v], rfl⟩
  ends := ⟨spell, u, v, rfl, hu, hv⟩
  lasts := by
    have hle : p.blocks ≤ count p.key (spell ++ [u, v]) := by
      rw [count_append]
      exact Nat.le_add_right_of_le hcount
    exact ⟨p.blocks, hstart, hle, d.durationMs_eventOf p, d.durationMs_eventOf_eq_iff p⟩
  short hshort := by
    have hle : p.blocks ≤ (spell ++ [u, v]).length := by
      rw [List.length_append]
      exact Nat.le_add_right_of_le (hcount.trans List.countP_le_length)
    exact ⟨p.blocks, hstart, hle, (d.durationMs_eventOf_eq_iff p).2
      (Nat.lt_of_le_of_lt (d.millis_mono hle) hshort)⟩
  code := p.key.telephoneEvents_code

/-- **Main theorem**: how far the events of a detector are sound.

A new detector hears blocks whose timestamps never go back, whatever is heard in them. Behind every
event stand blocks of its key that it heard one after the other: two that follow each other from the
start of the event on, and those that its duration is computed from, two at least, which are no more
than were heard until the press ended. The duration is theirs exactly if their milliseconds fit into
a word of 32 bits, and else what is left of these in such a word. The event carries the code of its
key in RFC 4733, and no event starts before the one before it. Whatever the analysis, such blocks
are what a detector hears in audio that comes in time. No other word of the machine runs over in
less than seven weeks. -/
theorem events_sound (rate : UInt32) {blocks : List Block} (htime : InTime blocks) :
    let d := Detector.ofRate rate
    (∀ e ∈ (d.onBlocks blocks).events, ∃ earlier press later,
      blocks = earlier ++ press ++ later ∧ StandsBehind d press e) ∧
    ((d.onBlocks blocks).events.map (·.start)).Pairwise (· ≤ ·) ∧
    (∀ (analysis : Analysis) (pieces : Pieces), pieces.Pairwise (fun x y => x.1 ≤ y.1) →
      ∃ heard, InTime heard ∧
        (∀ b ∈ heard, ∃ piece ∈ pieces, d.IsHeard analysis piece.1 b) ∧
        (d.hearsBy analysis pieces).events = (d.onBlocks heard).events) ∧
    (d.millis blocks.length < UInt32.size →
      d.onBlocksChecked blocks = some (d.onBlocks blocks)) := by
  intro d
  have hevents : (d.onBlocks blocks).events = (Debouncer.start.completed blocks).map d.eventOf :=
    d.events_onBlocks blocks
  rw [hevents]
  refine ⟨fun e he => ?_, ?_, fun analysis pieces hpieces => ?_, Detector.onBlocksChecked_eq rate⟩
  · obtain ⟨p, hp, rfl⟩ := List.mem_map.1 he
    obtain ⟨earlier, spell, u, v, later, hblocks, hopens, hstart, hcount, hu, hv⟩ :=
      Debouncer.exists_spell_of_completed hp
    exact ⟨earlier, spell ++ [u, v], later, hblocks,
      d.standsBehind hopens hstart hcount hu hv⟩
  · rw [List.map_map]
    have hchain := Debouncer.isChain_starts Debouncer.Since.start
      (fun b _ => UInt64.zero_le) htime
    exact (List.isChain_iff_pairwise.1 hchain).of_cons
  · obtain ⟨heard, rest, hheard, hfrom, heq⟩ := d.exists_blocks_hearsBy analysis hpieces
    exact ⟨heard, hheard, hfrom, by rw [heq]⟩

/-- Two blocks of the key five, and right behind them four of the key seven. -/
def rollover : List Block :=
  fiveTwice ++ sevenTwice ++ sevenTwice.map (fun b => (b.1 + 410, b.2)) ++
    [(1435, none), (1640, none)]

/-- The press of the second key begins before that of the first one ends. -/
theorem events_sound_rollover :
    InTime rollover ∧
    ((Detector.ofRate 8000).onBlocks rollover).events =
      [⟨⟨1, 1⟩, 51, 0⟩, ⟨⟨2, 0⟩, 76, 615⟩] ∧
    ∃ earlier press later, rollover = earlier ++ press ++ later ∧
      StandsBehind (Detector.ofRate 8000) press ⟨⟨2, 0⟩, 76, 615⟩ := by
  have htime : InTime rollover := by
    unfold InTime
    decide
  have hevents : ((Detector.ofRate 8000).onBlocks rollover).events =
      [⟨⟨1, 1⟩, 51, 0⟩, ⟨⟨2, 0⟩, 76, 615⟩] := by decide
  exact ⟨htime, hevents, (events_sound 8000 htime).1 _ (by rw [hevents]; decide)⟩

/-! ## Long tones -/

/-- A tone of a key through two blocks and a number of others, and the end of it. -/
def tone (k : Key) (n : Nat) : List Block :=
  (0, some k) :: ((0, some k) :: List.replicate n (0, some k) ++ [(0, none), (0, none)])

theorem inTime_tone (k : Key) (n : Nat) : InTime (tone k n) := by
  refine List.pairwise_of_forall_mem_list fun b hb c hc => ?_
  have hstamp : ∀ b ∈ tone k n, b.1 = 0 := by
    intro b hb
    simp only [tone, List.mem_cons, List.mem_append, List.mem_replicate, List.not_mem_nil,
      or_false] at hb
    rcases hb with rfl | (rfl | ⟨-, rfl⟩) | rfl | rfl <;> rfl
  rw [hstamp b hb, hstamp c hc]
  exact UInt64.le_refl 0

/-- A tone is reported with all its blocks. -/
theorem mem_events_tone (d : Detector) (h : d.debouncer = Debouncer.start) (k : Key) (n : Nat) :
    ⟨k, d.durationOf (n + 2), 0⟩ ∈ (d.onBlocks (tone k n)).events := by
  have hheld : ∀ b ∈ (0, some k) :: List.replicate n ((0 : UInt64), some k), b.2 = some k :=
    List.forall_mem_cons.2 ⟨rfl, fun b hb => by rw [List.eq_of_mem_replicate hb]⟩
  have hcompleted : Debouncer.start.completed (tone k n) = _ :=
    Debouncer.completed_of_known hheld nofun nofun
  rw [if_neg (List.cons_ne_nil _ _), List.length_cons, List.length_replicate] at hcompleted
  rw [d.events_onBlocks, h, hcompleted]
  exact List.mem_append_right _ (List.mem_singleton_self _)

/-- A tone of 167608480 blocks at 8000 Hz, which go on for 4294967300 milliseconds, is reported with
4 milliseconds: less than two blocks take. -/
theorem not_durations_sound :
    ¬ ∀ (rate : UInt32) (blocks : List Block), InTime blocks →
      ∀ e ∈ ((Detector.ofRate rate).onBlocks blocks).events, ∃ n, 2 ≤ n ∧ n ≤ blocks.length ∧
        e.durationMs.toNat = (Detector.ofRate rate).millis n := by
  intro h
  obtain ⟨n, htwo, -, hduration⟩ := h 8000 _ (inTime_tone ⟨1, 1⟩ 167608478) _
    (mem_events_tone (Detector.ofRate 8000) rfl ⟨1, 1⟩ 167608478)
  have hfour : ((Detector.ofRate 8000).durationOf (167608478 + 2)).toNat = 4 := by decide
  have hleast : 51 ≤ (Detector.ofRate 8000).millis n :=
    ((Detector.ofRate 8000).millis_mono htwo).trans' (by decide)
  rw [← hduration, hfour] at hleast
  exact absurd hleast (by decide)

end CallBridge.Dtmf
