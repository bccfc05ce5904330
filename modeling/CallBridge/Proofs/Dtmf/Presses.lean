import CallBridge.Proofs.Dtmf.Framing
import Mathlib.Data.List.Chain
import Mathlib.Data.List.Induction

/-!
# Key presses and the blocks that hold them

A run is a stretch of two blocks of one key or more that two blocks without it follow. It is to be
reported by one event: of the press that it is a part of, which began with the first block of a run
and counts all blocks of the key from there. So it is, unless the second block of the run that the
press began with ended the press of another key. That block is not counted as the beginning of a
press: a run of two blocks is then lost, and a longer one is reported with a block too little.

Results:
* `Debouncer.completed_held`, `Debouncer.after_opening`: a press that goes on, and one that begins.
* `Debouncer.exists_opening`: the spell of blocks that a press in progress stands for.
* `Debouncer.spell_reported_iff`: when a spell is reported.
* `Debouncer.completed_overtaking`: what is reported instead.
* `press_reported_iff`: which runs are reported.
* `not_press_reported`: not all of them are.
-/

namespace CallBridge.Dtmf

/-- A block: the timestamp of the audio that completed it, and what was heard in it. -/
abbrev Block := UInt64 × Option Key

/-- The number of blocks that hold a key. -/
def count (k : Key) (blocks : List Block) : Nat := blocks.countP (·.2 = some k)

/-- Blocks through which a press goes on: no two neighbours without the key, and none at the
end. -/
inductive Held (k : Key) : List Block → Prop where
  | nil : Held k []
  | hold (ts : UInt64) {blocks : List Block} (h : Held k blocks) : Held k ((ts, some k) :: blocks)
  | gap (ts ts' : UInt64) {heard : Option Key} {blocks : List Block} (hgap : heard ≠ some k)
      (h : Held k blocks) : Held k ((ts, heard) :: (ts', some k) :: blocks)

/-- Blocks that make a press of a key: two of the key, the first at a timestamp, and those through
which it goes on. -/
def IsSpell (k : Key) (ts : UInt64) (spell : List Block) : Prop :=
  ∃ ts' rest, spell = (ts, some k) :: (ts', some k) :: rest ∧ Held k rest

/-- Blocks that do not end with one of a key. -/
def EndsWithout (k : Key) (blocks : List Block) : Prop :=
  ∀ b, blocks.getLast? = some b → b.2 ≠ some k

/-- A stretch of two blocks of a key or more, as long as can be, before two blocks without it. -/
structure IsRun (k : Key) (before run : List Block) (u v : Block) : Prop where
  two : 2 ≤ run.length
  holds : ∀ b ∈ run, b.2 = some k
  left : EndsWithout k before
  first : u.2 ≠ some k
  second : v.2 ≠ some k

/-! ## Steps -/

namespace Debouncer

section

variable {d : Debouncer} {p : Press} {k : Key}

theorem advance_hold (h : d.active = some p) :
    d.advance (some p.key) = (some { p with blocks := p.blocks + 1, missing := 0 }, none) := by
  simp only [advance, h, if_true]

theorem advance_miss (h : d.active = some p) {heard : Option Key} (hk : heard ≠ some p.key)
    (hm : p.missing = 0) : d.advance heard = (some { p with missing := 1 }, none) := by
  simp only [advance, h, if_neg hk, hm]
  rfl

theorem advance_end (h : d.active = some p) {heard : Option Key} (hk : heard ≠ some p.key)
    (hm : p.missing ≠ 0) :
    d.advance heard = (none, some { p with missing := p.missing + 1 }) := by
  have hend : endBlocks ≤ p.missing + 1 := Nat.succ_le_succ (Nat.pos_of_ne_zero hm)
  simp only [advance, h, if_neg hk, if_pos hend]

theorem advance_begin (h : d.active = none) {ts : UInt64} (hl : d.last = some (k, ts)) :
    d.advance (some k) = (some ⟨k, ts, startBlocks, 0⟩, none) := by
  simp only [advance, h, hl, if_true]

theorem advance_idle (h : d.active = none) {heard : Option Key}
    (hl : ∀ key ts, d.last = some (key, ts) → heard ≠ some key) :
    d.advance heard = (none, none) := by
  cases heard with
  | none => simp only [advance, h]
  | some key =>
    rcases hlast : d.last with _ | ⟨key', ts⟩
    · simp only [advance, h, hlast]
    · have hne : key ≠ key' := fun heq => hl key' ts hlast (congrArg some heq)
      simp only [advance, h, hlast, if_neg hne]

/-- All that a block can do to a press in progress or to the lack of one. -/
theorem advance_cases (d : Debouncer) (heard : Option Key) :
    (∃ p, d.active = some p ∧ heard = some p.key ∧
      d.advance heard = (some { p with blocks := p.blocks + 1, missing := 0 }, none)) ∨
    (∃ p, d.active = some p ∧ heard ≠ some p.key ∧ p.missing = 0 ∧
      d.advance heard = (some { p with missing := 1 }, none)) ∨
    (∃ p, d.active = some p ∧ heard ≠ some p.key ∧ p.missing ≠ 0 ∧
      d.advance heard = (none, some { p with missing := p.missing + 1 })) ∨
    (∃ key ts, d.active = none ∧ d.last = some (key, ts) ∧ heard = some key ∧
      d.advance heard = (some ⟨key, ts, startBlocks, 0⟩, none)) ∨
    (d.active = none ∧ d.advance heard = (none, none)) := by
  rcases hactive : d.active with _ | p
  · by_cases hlast : ∃ key ts, d.last = some (key, ts) ∧ heard = some key
    · obtain ⟨key, ts, hlast, rfl⟩ := hlast
      exact .inr (.inr (.inr (.inl ⟨key, ts, rfl, hlast, rfl, advance_begin hactive hlast⟩)))
    · exact .inr (.inr (.inr (.inr ⟨rfl, advance_idle hactive fun key ts hl hk =>
        hlast ⟨key, ts, hl, hk⟩⟩)))
  · by_cases hk : heard = some p.key
    · exact .inl ⟨p, rfl, hk, hk ▸ advance_hold hactive⟩
    · by_cases hm : p.missing = 0
      · exact .inr (.inl ⟨p, rfl, hk, hm, advance_miss hactive hk hm⟩)
      · exact .inr (.inr (.inl ⟨p, rfl, hk, hm, advance_end hactive hk hm⟩))

/-- The key of a run is that of the last block. -/
theorem key_last_step (d : Debouncer) (ts : UInt64) (heard : Option Key) :
    (d.step ts heard).1.last.map Prod.fst = heard := by
  cases heard with
  | none => rfl
  | some key =>
    rcases hlast : d.last with _ | ⟨key', ts'⟩
    · simp only [step, runOf, hlast, Option.map_some]
    · by_cases hkey : key' = key
      · simp only [step, runOf, hlast, Option.map_some, if_pos hkey]
      · simp only [step, runOf, hlast, Option.map_some, if_neg hkey]

/-- A run begins with the first block of its key. -/
theorem last_step_new (h : d.last.map Prod.fst ≠ some k) (ts : UInt64) :
    (d.step ts (some k)).1.last = some (k, ts) := by
  rcases hlast : d.last with _ | ⟨key, ts'⟩
  · simp only [step, runOf, hlast, Option.map_some]
  · have hne : key ≠ k := fun heq => h (by rw [hlast, heq]; rfl)
    simp only [step, runOf, hlast, Option.map_some, if_neg hne]

/-- A run goes on with further blocks of its key. -/
theorem last_step_same {ts : UInt64} (h : d.last = some (k, ts)) (ts' : UInt64) :
    (d.step ts' (some k)).1.last = some (k, ts) := by
  simp only [step, runOf, h, Option.map_some, if_true]

end

/-! ## Blocks one after the other -/

/-- What is known after some blocks. -/
def after (d : Debouncer) (blocks : List Block) : Debouncer :=
  blocks.foldl (fun d b => (d.step b.1 b.2).1) d

/-- The presses that some blocks complete, one after the other. -/
def completed (d : Debouncer) : List Block → List Press
  | [] => []
  | b :: blocks => (d.step b.1 b.2).2.toList ++ (d.step b.1 b.2).1.completed blocks

theorem after_append (d : Debouncer) (blocks more : List Block) :
    d.after (blocks ++ more) = (d.after blocks).after more := List.foldl_append

theorem completed_append (d : Debouncer) (blocks more : List Block) :
    d.completed (blocks ++ more) = d.completed blocks ++ (d.after blocks).completed more := by
  induction blocks generalizing d with
  | nil => rfl
  | cons b blocks ih =>
    rw [List.cons_append, completed, completed, ih, List.append_assoc]
    rfl

theorem active_step (d : Debouncer) (ts : UInt64) (heard : Option Key) :
    (d.step ts heard).1.active = (d.advance heard).1 := rfl

theorem done_step (d : Debouncer) (ts : UInt64) (heard : Option Key) :
    (d.step ts heard).2 = (d.advance heard).2 := rfl

/-- A block that completes no press. -/
theorem completed_cons_of_none {d : Debouncer} {b : Block} (h : (d.advance b.2).2 = none)
    (blocks : List Block) :
    d.completed (b :: blocks) = (d.step b.1 b.2).1.completed blocks := by
  rw [completed, done_step, h]
  rfl

/-- A block that completes a press. -/
theorem completed_cons_of_some {d : Debouncer} {b : Block} {p : Press}
    (h : (d.advance b.2).2 = some p) (blocks : List Block) :
    d.completed (b :: blocks) = p :: (d.step b.1 b.2).1.completed blocks := by
  rw [completed, done_step, h]
  rfl

end Debouncer

theorem count_cons_self (k : Key) (ts : UInt64) (blocks : List Block) :
    count k ((ts, some k) :: blocks) = count k blocks + 1 :=
  List.countP_cons_of_pos (decide_eq_true rfl)

theorem count_cons_other {k : Key} {b : Block} (h : b.2 ≠ some k) (blocks : List Block) :
    count k (b :: blocks) = count k blocks :=
  List.countP_cons_of_neg (by rw [decide_eq_true_eq]; exact h)

theorem count_append (k : Key) (blocks more : List Block) :
    count k (blocks ++ more) = count k blocks + count k more := List.countP_append

namespace Debouncer

section

variable {d : Debouncer} {k : Key} {ts : UInt64} {n : Nat}

/-! ## A press that goes on -/

theorem completed_held (h : d.active = some ⟨k, ts, n, 0⟩) {blocks : List Block}
    (hb : Held k blocks) :
    d.completed blocks = [] ∧ (d.after blocks).active = some ⟨k, ts, n + count k blocks, 0⟩ := by
  induction hb generalizing d n with
  | nil => exact ⟨rfl, h⟩
  | hold t hb ih =>
    have hstep := advance_hold h
    have hrest := ih (d := (d.step t (some k)).1) (n := n + 1) (congrArg Prod.fst hstep)
    rw [completed_cons_of_none (congrArg Prod.snd hstep), count_cons_self, Nat.add_comm _ 1,
      ← Nat.add_assoc]
    exact hrest
  | @gap t t' heard blocks hgap hb ih =>
    have hmiss := advance_miss h hgap rfl
    have hstep := advance_hold (d := (d.step t heard).1) (congrArg Prod.fst hmiss)
    have hrest := ih (d := ((d.step t heard).1.step t' (some k)).1) (n := n + 1)
      (congrArg Prod.fst hstep)
    rw [completed_cons_of_none (congrArg Prod.snd hmiss),
      completed_cons_of_none (congrArg Prod.snd hstep), count_cons_other hgap, count_cons_self,
      Nat.add_comm _ 1, ← Nat.add_assoc]
    exact hrest

/-- Two blocks without the key end a press. -/
theorem completed_ending (h : d.active = some ⟨k, ts, n, 0⟩) {u v : Block} (hu : u.2 ≠ some k)
    (hv : v.2 ≠ some k) : d.completed [u, v] = [⟨k, ts, n, endBlocks⟩] := by
  have hmiss := advance_miss h hu rfl
  have hend := advance_end (d := (d.step u.1 u.2).1) (congrArg Prod.fst hmiss) hv Nat.one_ne_zero
  rw [completed_cons_of_none (congrArg Prod.snd hmiss),
    completed_cons_of_some (congrArg Prod.snd hend)]
  rfl

/-- A press in progress counts the blocks of its key until it ends. -/
theorem completed_goesOn (h : d.active = some ⟨k, ts, n, 0⟩) {blocks : List Block}
    (hb : Held k blocks) {u v : Block} (hu : u.2 ≠ some k) (hv : v.2 ≠ some k) :
    d.completed (blocks ++ [u, v]) = [⟨k, ts, n + count k blocks, endBlocks⟩] := by
  obtain ⟨hnone, hactive⟩ := completed_held h hb
  rw [completed_append, hnone, completed_ending hactive hu hv]
  rfl

/-! ## A press that begins -/

/-- Where no press is in progress, or one that misses its key already, two blocks of a key begin a
press. -/
theorem after_opening (hlast : d.last.map Prod.fst ≠ some k)
    (hfree : ∀ p, d.active = some p → p.key ≠ k ∧ p.missing ≠ 0) (ts ts' : UInt64) :
    (d.completed [(ts, some k), (ts', some k)]).filter (·.key = k) = [] ∧
      (d.after [(ts, some k), (ts', some k)]).active = some ⟨k, ts, startBlocks, 0⟩ := by
  have hrun : (d.step ts (some k)).1.last = some (k, ts) := last_step_new hlast ts
  rcases hactive : d.active with _ | p
  · have hidle : d.advance (some k) = (none, none) := advance_idle hactive fun key t hl hk =>
      hlast (by rw [hl, hk]; rfl)
    have hbegin := advance_begin (d := (d.step ts (some k)).1) (congrArg Prod.fst hidle) hrun
    refine ⟨?_, congrArg Prod.fst hbegin⟩
    rw [completed_cons_of_none (congrArg Prod.snd hidle),
      completed_cons_of_none (congrArg Prod.snd hbegin)]
    rfl
  · obtain ⟨hkey, hmissing⟩ := hfree p hactive
    have hend := advance_end hactive (fun hk => hkey (Option.some.inj hk).symm) hmissing
    have hbegin := advance_begin (d := (d.step ts (some k)).1) (congrArg Prod.fst hend) hrun
    refine ⟨?_, congrArg Prod.fst hbegin⟩
    rw [completed_cons_of_some (congrArg Prod.snd hend),
      completed_cons_of_none (congrArg Prod.snd hbegin)]
    exact List.filter_cons_of_neg (by rw [decide_eq_true_eq]; exact hkey)

/-- Where the press of another key is in progress and the last block held that key, two blocks of a
key end that press and begin none. -/
theorem after_overtaking (hlast : d.last.map Prod.fst ≠ some k) {p : Press}
    (hactive : d.active = some p) (hkey : p.key ≠ k) (hmissing : p.missing = 0)
    (ts ts' : UInt64) :
    (d.completed [(ts, some k), (ts', some k)]).filter (·.key = k) = [] ∧
      d.after [(ts, some k), (ts', some k)] = ⟨some (k, ts), none⟩ := by
  have hne : some k ≠ some p.key := fun hk => hkey (Option.some.inj hk).symm
  have hmiss := advance_miss hactive hne hmissing
  have hend := advance_end (d := (d.step ts (some k)).1) (congrArg Prod.fst hmiss) hne
    Nat.one_ne_zero
  have hrun : (d.step ts (some k)).1.last = some (k, ts) := last_step_new hlast ts
  refine ⟨?_, ?_⟩
  · rw [completed_cons_of_none (congrArg Prod.snd hmiss),
      completed_cons_of_some (congrArg Prod.snd hend)]
    exact List.filter_cons_of_neg (by rw [decide_eq_true_eq]; exact hkey)
  · have hlast' := last_step_same hrun ts'
    exact congr (congrArg Debouncer.mk hlast') (congrArg Prod.fst hend)

/-! ## No press counts too much -/

end

/-- The blocks that a press of a key in progress counts. -/
def counted (k : Key) : Option Press → Nat
  | some p => if p.key = k then p.blocks else 0
  | none => 0

/-- The blocks of a key that a press may count already. -/
def credit (d : Debouncer) (k : Key) : Nat :=
  max (counted k d.active) (if d.last.map Prod.fst = some k then 1 else 0)

theorem credit_step (d : Debouncer) (k : Key) (ts : UInt64) (heard : Option Key) :
    (d.step ts heard).1.credit k ≤ d.credit k + if heard = some k then 1 else 0 := by
  unfold credit
  rw [active_step, key_last_step]
  rcases d.advance_cases heard with ⟨p, hactive, rfl, h⟩ | ⟨p, hactive, hne, -, h⟩ |
    ⟨p, hactive, hne, -, h⟩ | ⟨key, t, hactive, hlast, rfl, h⟩ | ⟨hactive, h⟩
  · rw [h, hactive]
    by_cases hk : p.key = k
    · simp only [counted, hk, if_true]
      omega
    · simp only [counted, hk, if_false, Option.some.injEq]
      omega
  · rw [h, hactive]
    by_cases hk : p.key = k
    · simp only [counted, hk, if_true]
      omega
    · simp only [counted, hk, if_false]
      omega
  · rw [h]
    simp only [counted]
    omega
  · rw [h, hactive, hlast]
    by_cases hk : key = k
    · simp only [counted, hk, if_true, Option.map_some, startBlocks]
      omega
    · simp only [counted, hk, if_false, Option.map_some, Option.some.injEq]
      omega
  · rw [h]
    simp only [counted]
    omega

theorem blocks_le_credit {d : Debouncer} {ts : UInt64} {heard : Option Key} {p : Press}
    (h : (d.step ts heard).2 = some p) : p.blocks ≤ d.credit p.key := by
  rw [done_step] at h
  rcases d.advance_cases heard with ⟨q, -, -, h'⟩ | ⟨q, -, -, -, h'⟩ | ⟨q, hactive, -, -, h'⟩ |
    ⟨key, t, -, -, -, h'⟩ | ⟨-, h'⟩ <;> rw [h'] at h <;> cases h
  rw [credit, hactive, counted, if_pos rfl]
  exact Nat.le_max_left ..

/-- A press counts no block twice. -/
theorem blocks_le_of_completed {d : Debouncer} {blocks : List Block} {p : Press}
    (h : p ∈ d.completed blocks) : p.blocks ≤ d.credit p.key + count p.key blocks := by
  induction blocks generalizing d with
  | nil => cases h
  | cons b blocks ih =>
    rcases List.mem_append.1 h with h | h
    · exact Nat.le_trans (blocks_le_credit (Option.mem_toList.1 h)) (Nat.le_add_right ..)
    · have hrest := ih h
      have hstep := d.credit_step p.key b.1 b.2
      have hcount : count p.key (b :: blocks) =
          count p.key blocks + if b.2 = some p.key then 1 else 0 := by
        split
        · next hb => exact List.countP_cons_of_pos (decide_eq_true hb)
        · next hb => exact count_cons_other hb blocks
      omega

/-! ## Since the first block -/

theorem key_last_after (d : Debouncer) (blocks : List Block) (b : Block) :
    (d.after (blocks ++ [b])).last.map Prod.fst = b.2 := by
  rw [after_append]
  exact key_last_step _ b.1 b.2

theorem key_last_of_endsWithout {k : Key} {blocks : List Block} (h : EndsWithout k blocks) :
    (start.after blocks).last.map Prod.fst ≠ some k := by
  rcases List.eq_nil_or_concat blocks with rfl | ⟨blocks, b, rfl⟩
  · exact fun hnone => nomatch hnone
  · rw [List.concat_eq_append] at h ⊢
    rw [key_last_after]
    exact h b List.getLast?_concat

/-- A press in progress counts the blocks that it began with. -/
theorem startBlocks_le {blocks : List Block} {p : Press}
    (h : (start.after blocks).active = some p) : startBlocks ≤ p.blocks := by
  induction blocks using List.reverseRecOn generalizing p with
  | nil => cases h
  | append_singleton blocks b ih =>
    rw [after_append] at h
    rcases (start.after blocks).advance_cases b.2 with
      ⟨q, hactive, -, h'⟩ | ⟨q, hactive, -, -, h'⟩ | ⟨q, -, -, -, h'⟩ | ⟨key, ts, -, -, -, h'⟩ |
      ⟨-, h'⟩
    · cases (congrArg Prod.fst h').symm.trans h
      exact Nat.le_succ_of_le (ih hactive)
    · cases (congrArg Prod.fst h').symm.trans h
      exact ih (p := q) hactive
    · cases (congrArg Prod.fst h').symm.trans h
    · cases (congrArg Prod.fst h').symm.trans h
      exact Nat.le_refl _
    · cases (congrArg Prod.fst h').symm.trans h

/-- The presses of a key that are completed, split behind two blocks of the key. -/
theorem filter_completed_opening (d : Debouncer) (k : Key) (ts ts' : UInt64)
    (rest more : List Block) :
    (d.completed ((ts, some k) :: (ts', some k) :: rest ++ more)).filter (·.key = k) =
      (d.completed [(ts, some k), (ts', some k)]).filter (·.key = k) ++
        ((d.after [(ts, some k), (ts', some k)]).completed (rest ++ more)).filter (·.key = k) := by
  rw [← List.filter_append, ← completed_append]
  rfl

/-! ## Spells -/

/-- A press of a key begins with the first block of a spell: no press of it is in progress before,
and the block before is without it. -/
structure Opens (k : Key) (ts : UInt64) (earlier spell : List Block) : Prop where
  spell : IsSpell k ts spell
  left : EndsWithout k earlier
  idle : ∀ p, (start.after earlier).active = some p → p.key ≠ k

/-- Blocks after which a press is in progress and misses nothing. The second block of another key
that follows them ends it. -/
def Overtakes (earlier : List Block) : Prop :=
  ∃ p, (start.after earlier).active = some p ∧ p.missing = 0

/-- Of the key's presses that are completed while a spell goes by and two blocks without the key,
there is exactly one, which began with the spell and counts all its blocks of the key. -/
def Reports (k : Key) (ts : UInt64) (earlier spell : List Block) (u v : Block) : Prop :=
  ((start.after earlier).completed (spell ++ [u, v])).filter (·.key = k) =
    [⟨k, ts, count k spell, endBlocks⟩]

section

variable {k : Key} {ts : UInt64} {earlier spell : List Block} {u v : Block}

/-- Where a press of its key is in progress already, the event counts more blocks than those of the
spell. -/
theorem not_reports_of_key {p : Press} (hactive : (start.after earlier).active = some p)
    (hspell : IsSpell p.key ts spell) (hu : u.2 ≠ some p.key) (hv : v.2 ≠ some p.key) :
    ¬ Reports p.key ts earlier spell u v := by
  obtain ⟨ts', rest, rfl, hrest⟩ := hspell
  have hstep := advance_hold hactive
  have hall := completed_goesOn (d := ((start.after earlier).step ts (some p.key)).1)
    (congrArg Prod.fst hstep) (Held.hold ts' hrest) hu hv
  intro h
  rw [Reports, List.cons_append, completed_cons_of_none (congrArg Prod.snd hstep), hall,
    count_cons_self, count_cons_self, count_cons_self] at h
  have hblocks := congrArg (fun ps => ps.map (·.blocks)) h
  simp only [List.filter_cons, List.filter_nil, decide_true, if_true, List.map_cons,
    List.map_nil, List.cons.injEq, and_true] at hblocks
  have hstart := startBlocks_le hactive
  rw [startBlocks] at hstart
  omega

/-- Where the press of another key misses nothing, the second block of the spell is taken for the
end of that press, and no event counts it. -/
theorem not_reports_of_overtaking (hleft : EndsWithout k earlier) {p : Press}
    (hactive : (start.after earlier).active = some p) (hkey : p.key ≠ k) (hmissing : p.missing = 0)
    (hspell : IsSpell k ts spell) (hu : u.2 ≠ some k) (hv : v.2 ≠ some k) :
    ¬ Reports k ts earlier spell u v := by
  obtain ⟨ts', rest, rfl, -⟩ := hspell
  obtain ⟨hnone, hstate⟩ := after_overtaking (key_last_of_endsWithout hleft) hactive hkey hmissing
    ts ts'
  intro h
  rw [Reports, filter_completed_opening, hnone, List.nil_append, hstate] at h
  have hmem : (⟨k, ts, count k ((ts, some k) :: (ts', some k) :: rest), endBlocks⟩ : Press) ∈
      (Debouncer.mk (some (k, ts)) none).completed (rest ++ [u, v]) :=
    (List.mem_filter.1 (by rw [h]; exact List.mem_singleton_self _)).1
  have hle := blocks_le_of_completed hmem
  have hend : count k (rest ++ [u, v]) = count k rest := by
    rw [count, List.countP_append]
    exact congrArg (_ + ·) ((count_cons_other hu _).trans (count_cons_other hv _))
  simp only [hend, count_cons_self, credit, counted, Option.map_some, if_true] at hle
  omega

/-- **Step and run**: a spell is reported if no press is in progress before it, or one of another
key that misses its key already, and only then. -/
theorem spell_reported_iff (hleft : EndsWithout k earlier) (hspell : IsSpell k ts spell)
    (hu : u.2 ≠ some k) (hv : v.2 ≠ some k) : Reports k ts earlier spell u v ↔
      ∀ p, (start.after earlier).active = some p → p.key ≠ k ∧ p.missing ≠ 0 := by
  constructor
  · intro h p hactive
    have hkey : p.key ≠ k := by
      rintro rfl
      exact not_reports_of_key hactive hspell hu hv h
    exact ⟨hkey, fun hmissing =>
      not_reports_of_overtaking hleft hactive hkey hmissing hspell hu hv h⟩
  · intro hfree
    obtain ⟨ts', rest, rfl, hrest⟩ := hspell
    obtain ⟨hnone, hactive⟩ := after_opening (key_last_of_endsWithout hleft) hfree ts ts'
    have hcount : count k ((ts, some k) :: (ts', some k) :: rest) = startBlocks + count k rest := by
      rw [count_cons_self, count_cons_self, startBlocks]
      omega
    rw [Reports, filter_completed_opening, hnone, completed_goesOn hactive hrest hu hv, hcount,
      List.nil_append]
    exact List.filter_cons_of_pos (decide_eq_true rfl)

end

end Debouncer

/-! ## Where a press began -/

namespace Held

variable {k : Key} {blocks more : List Block}

theorem append (h : Held k blocks) (h' : Held k more) : Held k (blocks ++ more) := by
  induction h with
  | nil => exact h'
  | hold ts _ ih => exact .hold ts ih
  | gap ts ts' hgap _ ih => exact .gap ts ts' hgap ih

theorem of_forall (h : ∀ b ∈ blocks, b.2 = some k) : Held k blocks := by
  induction blocks with
  | nil => exact .nil
  | cons b blocks ih =>
    obtain ⟨ts, heard⟩ := b
    obtain rfl : heard = some k := h _ List.mem_cons_self
    exact .hold ts (ih fun b hb => h b (List.mem_cons_of_mem _ hb))

/-- A block without the key may come in between. -/
theorem bridge {gap : List Block} (hgap : gap.length < endBlocks) (hg : ∀ b ∈ gap, b.2 ≠ some k)
    {b : Block} (hb : b.2 = some k) (h : Held k more) : Held k (gap ++ b :: more) := by
  obtain ⟨ts', heard'⟩ := b
  obtain rfl : heard' = some k := hb
  match gap, hgap with
  | [], _ => exact .hold ts' h
  | [(ts, heard)], _ => exact .gap ts ts' (hg _ List.mem_cons_self) h

theorem getLast (h : Held k blocks) {b : Block} (hb : blocks.getLast? = some b) :
    b.2 = some k := by
  induction h with
  | nil => cases hb
  | @hold ts blocks _ ih =>
    cases blocks with
    | nil => cases hb; rfl
    | cons c blocks => exact ih (by rwa [List.getLast?_cons_cons] at hb)
  | @gap ts ts' heard blocks _ _ ih =>
    rw [List.getLast?_cons_cons] at hb
    cases blocks with
    | nil => cases hb; rfl
    | cons c blocks => exact ih (by rwa [List.getLast?_cons_cons] at hb)

end Held

namespace IsSpell

variable {k : Key} {ts : UInt64} {spell : List Block}

theorem append (h : IsSpell k ts spell) {more : List Block} (hmore : Held k more) :
    IsSpell k ts (spell ++ more) := by
  obtain ⟨ts', rest, rfl, hrest⟩ := h
  exact ⟨ts', rest ++ more, rfl, hrest.append hmore⟩

theorem of_forall {b : Block} (hb : b.2 = some k) {blocks : List Block}
    (h : ∀ c ∈ blocks, c.2 = some k) (hne : blocks ≠ []) : IsSpell k b.1 (b :: blocks) := by
  obtain ⟨ts, heard⟩ := b
  obtain rfl : heard = some k := hb
  cases blocks with
  | nil => exact absurd rfl hne
  | cons c blocks =>
    obtain ⟨ts', heard⟩ := c
    obtain rfl : heard = some k := h _ List.mem_cons_self
    exact ⟨ts', blocks, rfl, .of_forall fun c hc => h c (List.mem_cons_of_mem _ hc)⟩

/-- A spell has the blocks of its key that a press begins with. -/
theorem startBlocks_le_count (h : IsSpell k ts spell) : startBlocks ≤ count k spell := by
  obtain ⟨ts', rest, rfl, -⟩ := h
  rw [count_cons_self, count_cons_self, startBlocks]
  omega

/-- A spell ends with a block of its key. -/
theorem getLast (h : IsSpell k ts spell) : ∃ b, spell.getLast? = some b ∧ b.2 = some k := by
  obtain ⟨ts', rest, rfl, hrest⟩ := h
  have hheld : Held k ((ts, some k) :: (ts', some k) :: rest) := .hold ts (.hold ts' hrest)
  have hlast := List.getLast?_eq_some_getLast
    (List.cons_ne_nil (ts, some k) ((ts', some k) :: rest))
  exact ⟨_, hlast, hheld.getLast hlast⟩

end IsSpell

namespace Debouncer

/-- The run that is known began with the first block of its key. -/
theorem exists_run {blocks : List Block} {k : Key} {ts : UInt64}
    (h : (start.after blocks).last = some (k, ts)) :
    ∃ earlier run, blocks = earlier ++ (ts, some k) :: run ∧ (∀ b ∈ run, b.2 = some k) ∧
      EndsWithout k earlier := by
  induction blocks using List.reverseRecOn with
  | nil => cases h
  | append_singleton blocks b ih =>
    obtain ⟨t, heard⟩ := b
    have hkey := key_last_after start blocks (t, heard)
    rw [h] at hkey
    obtain rfl : some k = heard := hkey
    rw [after_append] at h
    by_cases hlast : (start.after blocks).last.map Prod.fst = some k
    · obtain ⟨⟨k', ts'⟩, hrun, rfl⟩ := Option.map_eq_some_iff.1 hlast
      cases (last_step_same hrun t).symm.trans h
      obtain ⟨earlier, run, rfl, hrun, hleft⟩ := ih hrun
      refine ⟨earlier, run ++ [(t, some k')], ?_, ?_, hleft⟩
      · rw [List.append_assoc, List.cons_append]
      · intro b hb
        rcases List.mem_append.1 hb with hb | hb
        · exact hrun b hb
        · rw [List.mem_singleton.1 hb]
    · cases (last_step_new hlast t).symm.trans h
      refine ⟨blocks, [], rfl, fun b hb => absurd hb List.not_mem_nil, ?_⟩
      intro b hb hk
      obtain ⟨blocks, rfl⟩ := List.getLast?_eq_some_iff.1 hb
      exact hlast ((key_last_after start blocks b).trans hk)

/-- Blocks of its key leave a press in progress. -/
theorem active_of_forall {d : Debouncer} {p : Press} (h : d.active = some p) {blocks : List Block}
    (hb : ∀ b ∈ blocks, b.2 = some p.key) : ∃ q, (d.after blocks).active = some q := by
  induction blocks generalizing d p with
  | nil => exact ⟨p, h⟩
  | cons b blocks ih =>
    have hstep : (d.step b.1 b.2).1.active =
        some { p with blocks := p.blocks + 1, missing := 0 } := by
      rw [hb b List.mem_cons_self]
      exact congrArg Prod.fst (advance_hold h)
    exact ih hstep fun c hc => hb c (List.mem_cons_of_mem b hc)

/-- A block that begins a press is the last one of a spell. -/
theorem exists_opens {blocks : List Block} {key : Key} {ts : UInt64} {b : Block}
    (hidle : (start.after blocks).active = none)
    (hlast : (start.after blocks).last = some (key, ts)) (hb : b.2 = some key) :
    ∃ earlier spell, blocks ++ [b] = earlier ++ spell ∧ Opens key ts earlier spell := by
  obtain ⟨earlier, run, rfl, hrun, hleft⟩ := exists_run hlast
  refine ⟨earlier, (ts, some key) :: (run ++ [b]), ?_, ?_, hleft, ?_⟩
  · rw [List.append_assoc, List.cons_append]
  · refine IsSpell.of_forall (b := (ts, some key)) rfl (fun c hc => ?_)
      (List.append_ne_nil_of_right_ne_nil _ (List.cons_ne_nil _ _))
    rcases List.mem_append.1 hc with hc | hc
    · exact hrun c hc
    · rw [List.mem_singleton.1 hc]
      exact hb
  · -- Had a press of the key been in progress, it would still be.
    rintro p hp rfl
    have hall : ∀ c ∈ (ts, some p.key) :: run, c.2 = some p.key :=
      List.forall_mem_cons.2 ⟨rfl, hrun⟩
    obtain ⟨q, hq⟩ := active_of_forall hp hall
    rw [after_append, hq] at hidle
    cases hidle

/-- A press in progress began with a spell of its key, of whose blocks it counts no others, and
misses the blocks since then. -/
theorem exists_spell {blocks : List Block} {p : Press} (h : (start.after blocks).active = some p) :
    ∃ earlier spell gap, blocks = earlier ++ spell ++ gap ∧ Opens p.key p.start earlier spell ∧
      p.blocks ≤ count p.key spell ∧ gap.length = p.missing ∧ gap.length < endBlocks ∧
      ∀ b ∈ gap, b.2 ≠ some p.key := by
  induction blocks using List.reverseRecOn generalizing p with
  | nil => cases h
  | append_singleton blocks b ih =>
    rw [after_append] at h
    have hactive' : ((start.after blocks).advance b.2).1 = some p := h
    rcases (start.after blocks).advance_cases b.2 with ⟨q, hactive, hb, h'⟩ |
      ⟨q, hactive, hb, hmissing, h'⟩ | ⟨q, -, -, -, h'⟩ | ⟨key, ts, hidle, hlast, hb, h'⟩ | ⟨-, h'⟩
    · cases (congrArg Prod.fst h').symm.trans hactive'
      obtain ⟨earlier, spell, gap, rfl, hopens, hcount, -, hgap, hwithout⟩ := ih hactive
      refine ⟨earlier, spell ++ (gap ++ [b]), [], ?_, ?_, ?_, rfl, Nat.two_pos, ?_⟩
      · simp only [List.append_assoc, List.append_nil]
      · exact ⟨hopens.spell.append (.bridge hgap hwithout hb .nil), hopens.left, hopens.idle⟩
      · have hone : count q.key [b] = 1 := List.countP_singleton.trans (if_pos (decide_eq_true hb))
        show q.blocks + 1 ≤ count q.key (spell ++ (gap ++ [b]))
        rw [count_append, count_append, hone]
        omega
      · exact fun b hb => absurd hb List.not_mem_nil
    · cases (congrArg Prod.fst h').symm.trans hactive'
      obtain ⟨earlier, spell, gap, rfl, hopens, hcount, hlength, -, -⟩ := ih hactive
      obtain rfl := List.eq_nil_of_length_eq_zero (hlength.trans hmissing)
      refine ⟨earlier, spell, [b], ?_, hopens, hcount, rfl, Nat.one_lt_two, ?_⟩
      · rw [List.append_nil]
      · intro c hc
        rw [List.mem_singleton.1 hc]
        exact hb
    · cases (congrArg Prod.fst h').symm.trans hactive'
    · cases (congrArg Prod.fst h').symm.trans hactive'
      obtain ⟨earlier, spell, hblocks, hopens⟩ := exists_opens hidle hlast hb
      refine ⟨earlier, spell, [], ?_, hopens, hopens.spell.startBlocks_le_count, rfl, Nat.two_pos,
        fun b hb => nomatch hb⟩
      rw [List.append_nil, hblocks]
    · cases (congrArg Prod.fst h').symm.trans hactive'

/-! ## Runs -/

/-- A run is the end of a spell that begins a press. -/
theorem exists_opening {k : Key} {before run : List Block} {u v : Block}
    (h : IsRun k before run u v) :
    ∃ earlier lead ts, before = earlier ++ lead ∧ Opens k ts earlier (lead ++ run) := by
  obtain ⟨b, c, rest, rfl⟩ : ∃ b c rest, run = b :: c :: rest := by
    match run, h.two with
    | b :: c :: rest, _ => exact ⟨b, c, rest, rfl⟩
  have hrest : ∀ x ∈ c :: rest, x.2 = some k := fun x hx => h.holds x (List.mem_cons_of_mem b hx)
  by_cases hbusy : ∃ p, (start.after before).active = some p ∧ p.key = k
  · obtain ⟨p, hactive, rfl⟩ := hbusy
    obtain ⟨earlier, spell, gap, rfl, hopens, -, -, hgap, hwithout⟩ := exists_spell hactive
    refine ⟨earlier, spell ++ gap, p.start, List.append_assoc .., ?_, hopens.left, hopens.idle⟩
    rw [List.append_assoc]
    exact hopens.spell.append
      (.bridge hgap hwithout (h.holds b List.mem_cons_self) (.of_forall hrest))
  · refine ⟨before, [], b.1, (List.append_nil before).symm, ?_, h.left,
      fun p hp hk => hbusy ⟨p, hp, hk⟩⟩
    exact .of_forall (h.holds b List.mem_cons_self) hrest (List.cons_ne_nil c rest)

/-- The run is covered by exactly one of the key's events. It began with the first block of the
first run that it covers, and counts all blocks of the key from there. -/
def IsReported (k : Key) (before run : List Block) (u v : Block) : Prop :=
  ∃ earlier lead ts, before = earlier ++ lead ∧ EndsWithout k earlier ∧
    IsSpell k ts (lead ++ run) ∧ Reports k ts earlier (lead ++ run) u v

theorem isReported_iff {k : Key} {before run : List Block} {u v : Block}
    (h : IsRun k before run u v) : IsReported k before run u v ↔
      ∃ earlier lead ts, before = earlier ++ lead ∧ Opens k ts earlier (lead ++ run) ∧
        ¬ Overtakes earlier := by
  constructor
  · rintro ⟨earlier, lead, ts, hbefore, hleft, hspell, hreports⟩
    have hfree := (spell_reported_iff hleft hspell h.first h.second).1 hreports
    exact ⟨earlier, lead, ts, hbefore, ⟨hspell, hleft, fun p hp => (hfree p hp).1⟩,
      fun ⟨p, hp, hmissing⟩ => (hfree p hp).2 hmissing⟩
  · rintro ⟨earlier, lead, ts, hbefore, hopens, hnone⟩
    refine ⟨earlier, lead, ts, hbefore, hopens.left, hopens.spell,
      (spell_reported_iff hopens.left hopens.spell h.first h.second).2 fun p hp => ?_⟩
    exact ⟨hopens.idle p hp, fun hmissing => hnone ⟨p, hp, hmissing⟩⟩

/-- No block of a key follows right behind one of another key. -/
def KeysApart (blocks : List Block) : Prop :=
  blocks.IsChain fun b c => ∀ key key', b.2 = some key → c.2 = some key' → key = key'

theorem not_overtakes_of_keysApart {k : Key} {ts : UInt64} {earlier spell : List Block}
    (h : KeysApart (earlier ++ spell)) (hopens : Opens k ts earlier spell) :
    ¬ Overtakes earlier := by
  rintro ⟨p, hactive, hmissing⟩
  obtain ⟨first, spell', gap, hsplit, hopens', -, hlength, -, -⟩ := exists_spell hactive
  obtain rfl := List.eq_nil_of_length_eq_zero (hlength.trans hmissing)
  obtain ⟨b, hb, hkey⟩ := hopens'.spell.getLast
  obtain ⟨ts'', rest, rfl, -⟩ := hopens.spell
  have hlast : earlier.getLast? = some b := by
    rw [hsplit, List.append_nil, List.getLast?_append, hb]
    rfl
  have hadjacent := (List.isChain_append.1 h).2.2 b hlast _ rfl
  exact hopens.idle p hactive (hadjacent p.key k hkey rfl)

/-- Where a run is known but no press is in progress, further blocks of its key begin a press that
counts one block of the run. -/
theorem completed_of_known {k : Key} {ts : UInt64} {rest : List Block} {u v : Block}
    (hrest : ∀ b ∈ rest, b.2 = some k) (hu : u.2 ≠ some k) (hv : v.2 ≠ some k) :
    (Debouncer.mk (some (k, ts)) none).completed (rest ++ [u, v]) =
      if rest = [] then [] else [⟨k, ts, rest.length + 1, endBlocks⟩] := by
  cases rest with
  | nil =>
    have hidle : (Debouncer.mk (some (k, ts)) none).advance u.2 = (none, none) :=
      advance_idle rfl fun key t hl => by cases hl; exact hu
    have hquiet := step_idle (d := ((Debouncer.mk (some (k, ts)) none).step u.1 u.2).1)
      (congrArg Prod.fst hidle) v.1 v.2
    rw [List.nil_append, completed_cons_of_none (congrArg Prod.snd hidle),
      completed_cons_of_none hquiet]
    rfl
  | cons b rest =>
    obtain ⟨t, heard⟩ := b
    obtain ⟨hheld, hmore⟩ := List.forall_mem_cons.1 hrest
    obtain rfl : heard = some k := hheld
    have hbegin := advance_begin (d := ⟨some (k, ts), none⟩) rfl rfl
    have hgoes := completed_goesOn
      (d := ((Debouncer.mk (some (k, ts)) none).step t (some k)).1) (congrArg Prod.fst hbegin)
      (.of_forall hmore) hu hv
    have hcount : count k rest = rest.length :=
      List.countP_eq_length.2 fun x hx => decide_eq_true (hmore x hx)
    rw [List.cons_append, completed_cons_of_none (congrArg Prod.snd hbegin), hgoes, hcount,
      if_neg (List.cons_ne_nil _ _), List.length_cons, startBlocks, Nat.add_comm 2]

/-- A run that overtakes the press of another key is lost if it has two blocks, and reported with a
block too little otherwise. -/
theorem completed_overtaking {k : Key} {before run : List Block} {u v : Block}
    (h : IsRun k before run u v) {p : Press} (hactive : (start.after before).active = some p)
    (hkey : p.key ≠ k) (hmissing : p.missing = 0) :
    ∃ ts, run.head?.map Prod.fst = some ts ∧
      ((start.after before).completed (run ++ [u, v])).filter (·.key = k) =
        if run.length = 2 then [] else [⟨k, ts, run.length - 1, endBlocks⟩] := by
  obtain ⟨⟨ts, heard⟩, ⟨ts', heard'⟩, rest, rfl⟩ : ∃ b c rest, run = b :: c :: rest := by
    match run, h.two with
    | b :: c :: rest, _ => exact ⟨b, c, rest, rfl⟩
  obtain ⟨hheld, hheld', hrest⟩ :=
    (List.forall_mem_cons.1 h.holds).imp_right List.forall_mem_cons.1
  obtain rfl : heard = some k := hheld
  obtain rfl : heard' = some k := hheld'
  obtain ⟨hnone, hstate⟩ := after_overtaking (key_last_of_endsWithout h.left) hactive hkey hmissing
    ts ts'
  refine ⟨ts, rfl, ?_⟩
  rw [filter_completed_opening, hnone, List.nil_append, hstate,
    completed_of_known hrest h.first h.second]
  cases rest with
  | nil => rfl
  | cons b rest =>
    rw [if_neg (List.cons_ne_nil b rest), if_neg (by simp only [List.length_cons]; omega)]
    exact List.filter_cons_of_pos (decide_eq_true rfl)

end Debouncer

/-! ## Events -/

namespace Detector

/-- The detector after some blocks were heard. -/
def onBlocks (d : Detector) (blocks : List Block) : Detector :=
  blocks.foldl (fun d b => d.onBlock b.1 b.2) d

/-- There is an event for every press that is completed. -/
theorem events_onBlocks (d : Detector) (blocks : List Block) :
    (d.onBlocks blocks).events =
      d.events ++ (d.debouncer.completed blocks).map d.eventOf := by
  induction blocks generalizing d with
  | nil => exact (List.append_nil _).symm
  | cons b blocks ih =>
    have hrest : (d.onBlocks (b :: blocks)).events = _ := ih (d.onBlock b.1 b.2)
    rw [hrest, onBlock_eq, Debouncer.completed, List.map_append, List.append_assoc]
    cases (d.debouncer.step b.1 b.2).2 <;> rfl

end Detector

open Debouncer

/-- **Main theorem**: a run is reported unless its press begins with the end of another one.

A run of a key is the end of a spell that begins a press of it. The run is covered by exactly one
event, which began with the first block of the first run that it covers and counts all blocks of the
key from there, if such a spell does not overtake the press of another key, and only then. So every
run is reported where no block of a key follows right behind one of another key. A run that
overtakes a press with its own first blocks is lost if it has two, and reported with a block too
little otherwise. The events of a detector are those of the presses that are completed, in their
order. -/
theorem press_reported_iff {k : Key} {before run : List Block} {u v : Block}
    (h : IsRun k before run u v) :
    (IsReported k before run u v ↔
      ∃ earlier lead ts, before = earlier ++ lead ∧ Opens k ts earlier (lead ++ run) ∧
        ¬ Overtakes earlier) ∧
    (∃ earlier lead ts, before = earlier ++ lead ∧ Opens k ts earlier (lead ++ run)) ∧
    (KeysApart (before ++ run) → IsReported k before run u v) ∧
    (∀ p, (start.after before).active = some p → p.key ≠ k → p.missing = 0 →
      ∃ ts, run.head?.map Prod.fst = some ts ∧
        ((start.after before).completed (run ++ [u, v])).filter (·.key = k) =
          if run.length = 2 then [] else [⟨k, ts, run.length - 1, endBlocks⟩]) ∧
    ∀ rate rest, let d := Detector.ofRate rate
      (d.onBlocks (before ++ run ++ u :: v :: rest)).events =
        (start.completed (before ++ run ++ u :: v :: rest)).map d.eventOf := by
  refine ⟨isReported_iff h, exists_opening h, fun hapart => ?_, fun p hactive hkey hmissing =>
    completed_overtaking h hactive hkey hmissing, fun rate rest => ?_⟩
  · obtain ⟨earlier, lead, ts, rfl, hopens⟩ := exists_opening h
    rw [List.append_assoc] at hapart
    exact (isReported_iff h).2
      ⟨earlier, lead, ts, rfl, hopens, not_overtakes_of_keysApart hapart hopens⟩
  · exact (Detector.ofRate rate).events_onBlocks _

/-- Two blocks of the key five. -/
def fiveTwice : List Block := [(0, some ⟨1, 1⟩), (205, some ⟨1, 1⟩)]

/-- Two blocks of the key seven. -/
def sevenTwice : List Block := [(615, some ⟨2, 0⟩), (820, some ⟨2, 0⟩)]

/-- The two blocks of the second key end the press of the first one, and that is all. -/
example : start.completed (fiveTwice ++ sevenTwice ++ [(1025, none), (1230, none)]) =
    [⟨⟨1, 1⟩, 0, 2, 2⟩] := by decide

theorem isRun_sevenTwice {before : List Block} (h : EndsWithout ⟨2, 0⟩ before) :
    IsRun ⟨2, 0⟩ before sevenTwice (1025, none) (1230, none) where
  two := Nat.le_refl 2
  holds b hb := by
    simp only [sevenTwice, List.mem_cons, List.not_mem_nil, or_false] at hb
    rcases hb with rfl | rfl <;> rfl
  left := h
  first := nofun
  second := nofun

/-- After a pause the second key is reported. -/
theorem press_reported_iff_pause :
    IsRun ⟨2, 0⟩ (fiveTwice ++ [(410, none)]) sevenTwice (1025, none) (1230, none) ∧
    IsReported ⟨2, 0⟩ (fiveTwice ++ [(410, none)]) sevenTwice (1025, none) (1230, none) := by
  have hrun : IsRun ⟨2, 0⟩ (fiveTwice ++ [(410, none)]) sevenTwice (1025, none) (1230, none) :=
    isRun_sevenTwice fun b hb => by cases hb; decide
  have hapart : KeysApart (fiveTwice ++ [(410, none)] ++ sevenTwice) := by
    simp [KeysApart, fiveTwice, sevenTwice]
  exact ⟨hrun, (press_reported_iff hrun).2.2.1 hapart⟩

/-- A key that is pressed right behind another one, without a pause, is not reported. -/
theorem not_press_reported :
    ¬ ∀ (k : Key) (before run : List Block) (u v : Block), IsRun k before run u v →
      IsReported k before run u v := by
  intro hall
  have hrun : IsRun ⟨2, 0⟩ fiveTwice sevenTwice (1025, none) (1230, none) :=
    isRun_sevenTwice fun b hb => by cases hb; decide
  obtain ⟨earlier, lead, ts, hbefore, hopens, hnone⟩ :=
    (isReported_iff hrun).1 (hall _ _ _ _ _ hrun)
  cases lead with
  | nil =>
    rw [List.append_nil] at hbefore
    subst hbefore
    exact hnone ⟨⟨⟨1, 1⟩, 0, 2, 0⟩, by decide, rfl⟩
  | cons b lead =>
    -- All blocks before the run hold the other key.
    obtain ⟨ts', rest, hspell, -⟩ := hopens.spell
    have hb : b ∈ fiveTwice := by
      rw [hbefore]
      exact List.mem_append_right _ List.mem_cons_self
    obtain rfl : b = (ts, some ⟨2, 0⟩) := (List.cons.inj hspell).1
    simp [fiveTwice] at hb

end CallBridge.Dtmf
