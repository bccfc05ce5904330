import CallBridge.Proofs.Playout.Frames
import Mathlib.Data.List.Sort

/-!
# Audio put together again

Audio is cut into frames, and each frame travels with the 32 low bits of the place of its first
sample. Some frames may be lost; the others come in at an adaptive queue in any order, some of them
several times. Where all of the audio fits into the queue and is shorter than half of the range of
the timestamps, the queue widens every timestamp to the place that it stands for, wherever the count
of the sender began. It then holds the frames just as they were laid out, and nothing is dropped.

Results:
* `Laid.laidOut`, `Laid.sublist`: frames that lie behind each other, and some of these.
* `extend_near`, `extend_none`: a timestamp is widened to the place that it stands for.
* `Queue.put_roomy`: what a queue with room does with a frame before it is read.
* `Gathered.put`: a frame that comes in joins those that came before.
* `Gathered.gather`: frames of the audio gather in a new queue, in whatever order they come in.
* `Gathered.complete`: once all frames came in, the queue holds them.
-/

namespace CallBridge.Playout

/-! ## Laying out -/

/-- Frames laid out one behind the other from a place on. -/
def laidOut : Nat → List (List Int16) → List Frame
  | _, [] => []
  | place, pcm :: rest => (place, pcm) :: laidOut (place + pcm.length) rest

theorem sampleCount_laidOut (place : Nat) (pcms : List (List Int16)) :
    sampleCount (laidOut place pcms) = pcms.flatten.length := by
  induction pcms generalizing place with
  | nil => rfl
  | cons pcm rest ih => rw [laidOut, sampleCount, ih, List.flatten_cons, List.length_append]

/-- A frame lies between the places where the audio begins and ends. -/
theorem mem_laidOut {place : Nat} {pcms : List (List Int16)} {f : Frame}
    (h : f ∈ laidOut place pcms) :
    f.2 ∈ pcms ∧ place ≤ f.1 ∧ f.1 + f.2.length ≤ place + pcms.flatten.length := by
  induction pcms generalizing place with
  | nil => cases h
  | cons pcm rest ih =>
    rw [List.flatten_cons, List.length_append]
    rcases List.mem_cons.1 h with rfl | h
    · exact ⟨List.mem_cons_self, Nat.le_refl _, by simp only; omega⟩
    · obtain ⟨hmem, hbegin, hend⟩ := ih h
      exact ⟨List.mem_cons_of_mem _ hmem, by omega, by omega⟩

theorem ascending_laidOut (place : Nat) {pcms : List (List Int16)} (h : ∀ pcm ∈ pcms, pcm ≠ []) :
    Ascending (laidOut place pcms) := by
  induction pcms generalizing place with
  | nil => exact List.Pairwise.nil
  | cons pcm rest ih =>
    refine List.pairwise_cons.2 ⟨fun f hf => ?_, ih _ fun p hp => h p (List.mem_cons_of_mem _ hp)⟩
    have hbegin := (mem_laidOut hf).2.1
    have hlength := List.length_pos_iff.2 (h pcm List.mem_cons_self)
    show place < f.1
    omega

/-- A frame with its place counted from another one. -/
def Frame.behind (base : Nat) (f : Frame) : Frame := (base + f.1, f.2)

theorem Ascending.behind {fs : List Frame} (h : Ascending fs) (base : Nat) :
    Ascending (fs.map (Frame.behind base)) :=
  List.pairwise_map.2 (h.imp fun hlt => Nat.add_lt_add_left hlt base)

theorem flatMap_behind (base : Nat) (fs : List Frame) :
    (fs.map (Frame.behind base)).flatMap (·.2) = fs.flatMap (·.2) := by
  rw [List.flatMap_map]
  rfl

theorem sampleCount_behind (base : Nat) (fs : List Frame) :
    sampleCount (fs.map (Frame.behind base)) = sampleCount fs := by
  induction fs with
  | nil => rfl
  | cons f fs ih => rw [List.map_cons, sampleCount, sampleCount, ih]; rfl

/-- Frames lie behind each other, a sample in each, within half of the range of the timestamps. -/
structure Laid (fs : List Frame) : Prop where
  ascending : Ascending fs
  filled : ∀ f ∈ fs, f.2 ≠ []
  near : ∀ f ∈ fs, f.1 < 2147483648

theorem Laid.laidOut {pcms : List (List Int16)} (hpcms : ∀ pcm ∈ pcms, pcm ≠ [])
    (hshort : pcms.flatten.length < 2147483648) : Laid (laidOut 0 pcms) where
  ascending := ascending_laidOut 0 hpcms
  filled f hf := hpcms f.2 (mem_laidOut hf).1
  near f hf := by
    have := (mem_laidOut hf).2.2
    omega

theorem Laid.sublist {fs gs : List Frame} (h : Laid gs) (hsub : fs.Sublist gs) : Laid fs where
  ascending := List.Pairwise.sublist hsub h.ascending
  filled f hf := h.filled f (hsub.subset hf)
  near f hf := h.near f (hsub.subset hf)

/-! ## Frames in order -/

/-- Frames in order are found in order among others. -/
theorem Ascending.sublist_of_subset {fs gs : List Frame} (hf : Ascending fs) (hg : Ascending gs)
    (h : ∀ f ∈ fs, f ∈ gs) : fs.Sublist gs := by
  have hanti : Std.Antisymm fun f g : Frame => f.1 < g.1 :=
    ⟨fun f g hfg hgf => absurd hgf (Nat.lt_asymm hfg)⟩
  have hnodup : fs.Nodup := hf.imp fun {f g} hlt heq => Nat.ne_of_lt hlt (congrArg Prod.fst heq)
  exact List.sublist_of_subperm_of_pairwise (List.subperm_of_subset hnodup h) hf hg

theorem Ascending.eq {fs gs : List Frame} (hf : Ascending fs) (hg : Ascending gs)
    (h : ∀ f, f ∈ fs ↔ f ∈ gs) : fs = gs :=
  (hf.sublist_of_subset hg fun f => (h f).1).antisymm (hg.sublist_of_subset hf fun f => (h f).2)

/-- Frames in order are told apart by their keys. -/
theorem Ascending.eq_of_key {fs : List Frame} (h : Ascending fs) {f g : Frame} (hf : f ∈ fs)
    (hg : g ∈ fs) (hkey : f.1 = g.1) : f = g := by
  have hnodup : (fs.map (·.1)).Nodup := List.pairwise_map.2 (h.imp Nat.ne_of_lt)
  exact List.inj_on_of_nodup_map hnodup hf hg hkey

theorem sampleCount_le_of_sublist {fs gs : List Frame} (h : fs.Sublist gs) :
    sampleCount fs ≤ sampleCount gs := by
  induction h with
  | slnil => exact Nat.le_refl _
  | cons f _ ih =>
    rw [sampleCount]
    omega
  | cons_cons f _ ih =>
    rw [sampleCount, sampleCount]
    omega

theorem mem_insertFrame_iff {fs : List Frame} (h : Ascending fs) (key : Nat) (pcm : List Int16)
    (f : Frame) : f ∈ (insertFrame key pcm fs).1 ↔ f = (key, pcm) ∨ f ∈ fs ∧ f.1 ≠ key := by
  rw [(insertFrame_perm h key pcm).mem_iff, List.mem_cons, List.mem_filter, decide_eq_true_eq]

/-! ## Timestamps -/

theorem toInt_place {place : Nat} (h : place < 2147483648) :
    (UInt32.ofNat place).toInt32.toInt = place := by
  rw [UInt32.toInt32_ofNat']
  exact Int32.toInt_ofNat_of_lt h

/-- A timestamp close to the highest one so far is widened to the place that it stands for. -/
theorem extend_near {stamp : UInt32} {base last place : Nat} (hbase : UInt32.ofNat base = stamp)
    (hlast : last < 2147483648) (hplace : place < 2147483648) :
    extend (some (base + last)) (stamp + UInt32.ofNat place) = base + place := by
  have hdiff : stamp + UInt32.ofNat place - UInt32.ofNat (base + last) =
      UInt32.ofNat place - UInt32.ofNat last := by
    rw [UInt32.ofNat_add, hbase]
    grind
  rw [extend]
  simp only [hdiff, UInt32.toInt32_sub, Int32.toInt_sub, toInt_place hlast, toInt_place hplace]
  rw [Int.bmod_eq_of_le (by omega) (by omega)]
  omega

/-- The first timestamp is put so high that there is room for all places before it. -/
theorem extend_none (stamp : UInt32) {place : Nat} (h : place < 2147483648) :
    ∃ base, UInt32.ofNat base = stamp ∧
      extend none (stamp + UInt32.ofNat place) = base + place := by
  have hsize : UInt32.size = 4294967296 := rfl
  refine ⟨extend none (stamp + UInt32.ofNat place) - place, ?_, ?_⟩ <;>
    rw [Queue.extend_first, hsize]
  · have hwrap : UInt32.ofNat 4294967296 = 0 := rfl
    rw [UInt32.ofNat_sub (by omega), UInt32.ofNat_add, UInt32.ofNat_toNat, hwrap]
    grind
  · omega

/-! ## Coming in -/

namespace Queue

theorem shed_of_le {greatest buffered : Nat} (h : buffered ≤ greatest) (fs : List Frame)
    (drops : Nat) : shed greatest fs buffered drops = (fs, buffered, drops) := by
  cases fs with
  | nil => rfl
  | cons f rest => rw [shed, if_neg (by omega)]

/-- An adaptive queue that was never read and has room for a frame takes it to its place. -/
theorem put_roomy {q : Queue} (hmode : q.mode = .adaptive) (hnext : q.nextStamp = none)
    (hbuffered : q.buffered = sampleCount q.frames) {stamp : UInt32} {pcm : List Int16}
    (hpcm : pcm ≠ []) {ext : Nat} (hext : extend q.lastStamp stamp = ext)
    (hroom : sampleCount (insertFrame ext pcm q.frames).1 ≤ q.greatest) :
    q.put stamp pcm = { q with
      lastStamp := highest q.lastStamp ext
      frames := (insertFrame ext pcm q.frames).1
      buffered := sampleCount (insertFrame ext pcm q.frames).1 } := by
  have hcount : q.buffered + pcm.length - replacedCount ext pcm q.frames =
      sampleCount (insertFrame ext pcm q.frames).1 := by
    have := sampleCount_insertFrame ext pcm q.frames
    omega
  unfold replacedCount at hcount
  have hnoted : (q.noteStamp ext).mode = .adaptive := by rw [noteStamp_eq, hmode]
  have hintime : (q.noteStamp ext).isLate ext = false := by
    rw [noteStamp_eq, isLate, hmode, hnext]
  rw [put, if_neg (by simpa using hpcm), hext]
  show (q.noteStamp ext).putExtended ext pcm = _
  rw [putExtended_adaptive hnoted, if_neg (by rw [hintime]; exact Bool.false_ne_true),
    noteStamp_eq]
  simp only [enqueue, hcount, shed_of_le hroom]

end Queue

/-- The queue after a frame came in whose place is counted from a timestamp. -/
def Queue.putAt (stamp : UInt32) (q : Queue) (f : Frame) : Queue :=
  q.put (stamp + UInt32.ofNat f.1) f.2

/-- A queue that was never read holds the frames that arrived, each of them once, with their places
counted from the one that their timestamps stand for. -/
structure Gathered (base : Nat) (arrived : List Frame) (q : Queue) : Prop where
  adaptive : q.mode = .adaptive
  next : q.nextStamp = none
  pending : q.pending = []
  ascending : Ascending q.frames
  frames : ∀ f, f ∈ q.frames ↔ f ∈ arrived.map (Frame.behind base)
  buffered : q.buffered = sampleCount q.frames
  last : (arrived = [] ∧ q.lastStamp = none) ∨
    ∃ place < 2147483648, q.lastStamp = some (base + place)

namespace Gathered

theorem start (base greatest : Nat) : Gathered base [] (Queue.empty .adaptive greatest) where
  adaptive := rfl
  next := rfl
  pending := rfl
  ascending := .nil
  frames f := by simp [Queue.empty]
  buffered := rfl
  last := .inl ⟨rfl, rfl⟩

section Laid

/-! Some frames lie behind each other. -/

variable {laid : List Frame} (hlaid : Laid laid) {base : Nat} {arrived : List Frame} {q : Queue}

include hlaid in
/-- Frames among them in order have no more samples than they have. -/
theorem sampleCount_le {fs : List Frame} (h : Ascending fs)
    (hmem : ∀ f ∈ fs, f ∈ laid.map (Frame.behind base)) : sampleCount fs ≤ sampleCount laid :=
  (sampleCount_le_of_sublist (h.sublist_of_subset (hlaid.ascending.behind base) hmem)).trans_eq
    (sampleCount_behind base laid)

include hlaid in
/-- Where a frame is inserted, one of the same place is the same frame. -/
theorem mem_insert (h : Gathered base arrived q) (harrived : ∀ f ∈ arrived, f ∈ laid)
    {f : Frame} (hf : f ∈ laid) (g : Frame) :
    g ∈ (insertFrame (base + f.1) f.2 q.frames).1 ↔
      g ∈ (arrived ++ [f]).map (Frame.behind base) := by
  rw [mem_insertFrame_iff h.ascending, h.frames, List.map_append, List.mem_append,
    List.map_singleton, List.mem_singleton]
  constructor
  · rintro (hg | ⟨hg, -⟩)
    · exact .inr hg
    · exact .inl hg
  · rintro (hg | hg)
    · obtain ⟨g, hmem, rfl⟩ := List.mem_map.1 hg
      by_cases hkey : g.1 = f.1
      · exact .inl (congrArg _ (hlaid.ascending.eq_of_key (harrived g hmem) hf hkey))
      · refine .inr ⟨hg, fun hsame => hkey ?_⟩
        exact Nat.add_left_cancel hsame
    · exact .inl hg

include hlaid in
/-- A frame that comes in joins those that came before; one that came before takes its own place. -/
theorem put (h : Gathered base arrived q) (harrived : ∀ f ∈ arrived, f ∈ laid)
    (hroom : sampleCount laid ≤ q.greatest) {stamp : UInt32} {f : Frame} (hf : f ∈ laid)
    (hext : extend q.lastStamp (stamp + UInt32.ofNat f.1) = base + f.1) :
    Gathered base (arrived ++ [f]) (q.putAt stamp f) ∧
      (q.putAt stamp f).greatest = q.greatest := by
  have hascending := ascending_insertFrame h.ascending (base + f.1) f.2
  have hframes := h.mem_insert hlaid harrived hf
  have hmem : ∀ g ∈ (insertFrame (base + f.1) f.2 q.frames).1,
      g ∈ laid.map (Frame.behind base) := by
    intro g hg
    refine List.map_subset _ (fun x hx => ?_) ((hframes g).1 hg)
    rcases List.mem_append.1 hx with hx | hx
    · exact harrived x hx
    · exact List.mem_singleton.1 hx ▸ hf
  have hput := Queue.put_roomy h.adaptive h.next h.buffered (hlaid.filled f hf) hext
    ((sampleCount_le hlaid hascending hmem).trans hroom)
  rw [Queue.putAt, hput]
  refine ⟨⟨h.adaptive, h.next, h.pending, hascending, hframes, rfl, .inr ?_⟩, rfl⟩
  have hplace := hlaid.near f hf
  rcases h.last with ⟨-, hlast⟩ | ⟨last, hlt, hlast⟩
  · exact ⟨f.1, hplace, by rw [hlast, highest, Option.getD_none, Nat.zero_max]⟩
  · exact ⟨max last f.1, by omega, by rw [hlast, highest, Option.getD_some, Nat.add_max_add_left]⟩

include hlaid in
/-- Whatever frames come in after the first one, they join it. -/
theorem run (h : Gathered base arrived q) (harrived : ∀ f ∈ arrived, f ∈ laid)
    (hfirst : arrived ≠ []) (hroom : sampleCount laid ≤ q.greatest) {stamp : UInt32}
    (hbase : UInt32.ofNat base = stamp) {fs : List Frame} (hfs : ∀ f ∈ fs, f ∈ laid) :
    Gathered base (arrived ++ fs) (fs.foldl (Queue.putAt stamp) q) := by
  induction fs generalizing arrived q with
  | nil => rwa [List.append_nil]
  | cons f fs ih =>
    have hf : f ∈ laid := hfs f List.mem_cons_self
    obtain ⟨last, hlt, hlast⟩ := h.last.resolve_left fun hnone => hfirst hnone.1
    have hext : extend q.lastStamp (stamp + UInt32.ofNat f.1) = base + f.1 := by
      rw [hlast, extend_near hbase hlt (hlaid.near f hf)]
    obtain ⟨hput, hgreatest⟩ := h.put hlaid harrived hroom hf hext
    have hboth : ∀ g ∈ arrived ++ [f], g ∈ laid := by
      intro g hg
      rcases List.mem_append.1 hg with hg | hg
      · exact harrived g hg
      · exact List.mem_singleton.1 hg ▸ hf
    rw [List.append_cons]
    exact ih hput hboth (by simp) (hgreatest ▸ hroom) fun g hg => hfs g (List.mem_cons_of_mem f hg)

include hlaid in
/-- Frames gather in a new queue, wherever the sender began to count. -/
theorem gather {greatest : Nat} (hroom : sampleCount laid ≤ greatest) (stamp : UInt32)
    {fs : List Frame} (hfs : ∀ f ∈ fs, f ∈ laid) :
    ∃ base, Gathered base fs (fs.foldl (Queue.putAt stamp) (Queue.empty .adaptive greatest)) := by
  cases fs with
  | nil => exact ⟨0, start 0 greatest⟩
  | cons f fs =>
    have hf : f ∈ laid := hfs f List.mem_cons_self
    obtain ⟨base, hbase, hext⟩ := extend_none stamp (hlaid.near f hf)
    obtain ⟨hput, hgreatest⟩ := (start base greatest).put hlaid (by simp) hroom hf hext
    exact ⟨base, hput.run hlaid (by simpa using hf) (by simp) (hgreatest ▸ hroom) hbase
      fun g hg => hfs g (List.mem_cons_of_mem f hg)⟩

include hlaid in
/-- Once every frame came in, the queue holds them. -/
theorem complete (h : Gathered base arrived q) (harrived : ∀ f, f ∈ arrived ↔ f ∈ laid) :
    q.frames = laid.map (Frame.behind base) := by
  refine h.ascending.eq (hlaid.ascending.behind base) fun f => ?_
  rw [h.frames, List.mem_map, List.mem_map]
  simp only [harrived]

end Laid

end Gathered

end CallBridge.Playout
