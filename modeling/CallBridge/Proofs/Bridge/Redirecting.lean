import CallBridge.Bridge.Session
import CallBridge.Rehearsal.ScriptedStream

/-!
# What redirecting a description changes

The pairs of a session serve the audio lines of a description in their order. Lines of other kinds
are passed over, and a line that is switched off takes its pair without being redirected to it. So
the pair for a line is found by the number of audio lines before it, whatever else stands between
them.

Results:
* `getElem?_redirectMedia`: what becomes of the line in a place.
* `redirect_redirect`: what was redirected stays so.
* `redirects_exactly`: what changes in a description, and when there are too few pairs.
-/

namespace CallBridge.Bridge

open Sdp (Connection Media Description)

/-- The number of audio lines before a place. -/
def audioBefore (lines : List Media) (i : Nat) : Nat := (lines.take i).countP (·.isAudio)

/-! ## Places among the audio lines -/

theorem audioBefore_cons (m : Media) (lines : List Media) (i : Nat) :
    audioBefore (m :: lines) (i + 1) =
      audioBefore lines i + if m.isAudio then 1 else 0 := by
  rw [audioBefore, List.take_succ_cons, List.countP_cons, audioBefore]

/-- An audio line takes a place among the audio lines, and any other line takes none. -/
theorem audioBefore_succ {lines : List Media} {i : Nat} {m : Media} (h : lines[i]? = some m) :
    audioBefore lines (i + 1) = audioBefore lines i + if m.isAudio then 1 else 0 := by
  rw [audioBefore, List.take_add_one, h, List.countP_append, audioBefore, Option.toList_some,
    List.countP_singleton]

/-! ## One line -/

section

variable (address : String) (port : UInt16) (m : Media)

theorem redirectLine_active {m : Media} (h : m.port ≠ 0) : redirectLine address port m =
    { m with port, connection := m.connection.map (redirectConnection address) } :=
  if_pos (decide_eq_true h)

theorem redirectLine_inactive {m : Media} (h : m.port = 0) : redirectLine address port m = m :=
  if_neg (by rw [Media.isActive, h]; decide)

theorem isAudio_redirectLine : (redirectLine address port m).isAudio = m.isAudio := by
  unfold redirectLine
  split <;> rfl

theorem map_redirectConnection_twice (c : Option Connection) :
    (c.map (redirectConnection address)).map (redirectConnection address) =
      c.map (redirectConnection address) := by
  rw [Option.map_map]
  rfl

/-- A line that was redirected to port zero is off from then on. -/
theorem redirectLine_twice :
    redirectLine address port (redirectLine address port m) = redirectLine address port m := by
  by_cases hm : m.port = 0
  · rw [redirectLine_inactive address port hm, redirectLine_inactive address port hm]
  · rw [redirectLine_active address port hm]
    by_cases hport : port = 0
    · exact redirectLine_inactive address port hport
    · rw [redirectLine_active address port hport, map_redirectConnection_twice]

end

/-! ## All lines -/

section

variable (address : String) (ports : List UInt16) (lines : List Media)

/-- The line in a place is redirected to the port in its place among the audio lines. -/
theorem getElem?_redirectMedia {i : Nat} {m : Media} (h : lines[i]? = some m) :
    (redirectMedia address ports lines)[i]? =
      some (if m.isAudio then (ports[audioBefore lines i]?.map (redirectLine address · m)).getD m
        else m) := by
  fun_induction redirectMedia address ports lines generalizing i with
  | case1 => cases h
  | case2 => rw [h, List.getElem?_nil, Option.map_none, Option.getD_none, ite_self]
  | case3 port ports first lines haudio ih =>
    cases i with
    | zero =>
      obtain rfl : first = m := Option.some.inj h
      rw [if_pos haudio]
      rfl
    | succ i =>
      rw [audioBefore_cons, if_pos haudio]
      exact ih h
  | case4 port ports first lines haudio ih =>
    cases i with
    | zero =>
      obtain rfl : first = m := Option.some.inj h
      rw [if_neg haudio]
      rfl
    | succ i =>
      rw [audioBefore_cons, if_neg haudio]
      exact ih h

theorem redirectMedia_twice : redirectMedia address ports (redirectMedia address ports lines) =
    redirectMedia address ports lines := by
  fun_induction redirectMedia address ports lines with
  | case1 => rfl
  | case2 => exact redirectMedia_nil address _
  | case3 port ports m lines haudio ih =>
    rw [redirectMedia, isAudio_redirectLine, if_pos haudio, redirectLine_twice, ih]
  | case4 port ports m lines haudio ih => rw [redirectMedia, if_neg haudio, ih]

theorem countP_redirectMedia :
    (redirectMedia address ports lines).countP (·.isAudio) = lines.countP (·.isAudio) := by
  fun_induction redirectMedia address ports lines with
  | case1 => rfl
  | case2 => rfl
  | case3 port ports m lines haudio ih =>
    rw [List.countP_cons, List.countP_cons, isAudio_redirectLine, ih]
  | case4 port ports m lines haudio ih => rw [List.countP_cons, List.countP_cons, ih]

end

/-! ## Descriptions -/

theorem redirect_outcome (address : String) (ports : List UInt16) (d : Description) :
    (redirect address ports d).2 =
      if ports.length < d.media.countP (·.isAudio) then
        .error (.structureMismatch (d.media.countP (·.isAudio)) ports.length)
      else .ok () := by
  rw [List.countP_eq_length_filter]
  rfl

theorem redirect_redirect (address : String) (ports : List UInt16) (d : Description) :
    redirect address ports (redirect address ports d).1 = redirect address ports d := by
  refine Prod.ext ?_ ?_
  · simp only [redirect, redirectMedia_twice, map_redirectConnection_twice]
  · rw [redirect_outcome, redirect_outcome]
    simp only [redirect, countP_redirectMedia]

variable {σ : Type} [Rtp.MediaStream σ]

/-- **Main theorem**: the ports and addresses that are replaced in a description, and no others.

The pair for a line is the one in its place among the audio lines: each audio line takes a place,
whether it is on or off, and no other line does. An audio line that is on and has a pair gets the
port of the pair's stream for the leg, and the new address where it states a connection. Every other
line stays as it is, and so does everything outside the lines but the address of the connection, if
there is one. The request fails exactly if there are more audio lines than pairs, and says how many
there are of both. Asking once more changes nothing more, and is answered alike. -/
theorem redirects_exactly (s : Session σ) (l : Leg) (address : String) (sdp : Description) :
    let sdp' := (s.replaceAddress l address sdp).1
    let answer := (s.replaceAddress l address sdp).2
    let place := audioBefore sdp.media
    let lines := sdp.media.countP (·.isAudio)
    (place 0 = 0 ∧ ∀ i m, sdp.media[i]? = some m →
      place (i + 1) = place i + if m.isAudio then 1 else 0) ∧
    (∀ i m p, sdp.media[i]? = some m → m.isAudio → m.port ≠ 0 → s.pairs[place i]? = some p →
      sdp'.media[i]? = some { m with
        port := p.port l
        connection := m.connection.map fun c => { c with address } }) ∧
    (∀ i m, sdp.media[i]? = some m → (m.isAudio → m.port ≠ 0 → s.pairs[place i]? = none) →
      sdp'.media[i]? = some m) ∧
    sdp'.media.length = sdp.media.length ∧
    sdp' = { sdp with
      connection := sdp.connection.map fun c => { c with address }
      media := sdp'.media } ∧
    answer = (if s.pairs.length < lines then .error (.structureMismatch lines s.pairs.length)
      else .ok ()) ∧
    s.replaceAddress l address sdp' = (sdp', answer) := by
  have hports (k : Nat) : (s.ports l)[k]? = s.pairs[k]?.map (·.port l) := List.getElem?_map ..
  refine ⟨⟨rfl, fun i m => audioBefore_succ⟩, fun i m p hm haudio hactive hp => ?_,
    fun i m hm hkept => ?_, length_redirectMedia .., rfl, ?_,
    redirect_redirect address (s.ports l) sdp⟩
  · have hline := getElem?_redirectMedia address (s.ports l) sdp.media hm
    rw [if_pos haudio, hports, hp] at hline
    exact hline.trans (congrArg some (redirectLine_active address (p.port l) hactive))
  · refine (getElem?_redirectMedia address (s.ports l) sdp.media hm).trans (congrArg some ?_)
    by_cases haudio : m.isAudio
    · rw [if_pos haudio, hports]
      by_cases hactive : m.port = 0
      · cases s.pairs[audioBefore sdp.media i]? with
        | none => rfl
        | some p => exact redirectLine_inactive address (p.port l) hactive
      · rw [hkept haudio hactive]
        rfl
    · rw [if_neg haudio]
  · have hlength : (s.ports l).length = s.pairs.length := List.length_map ..
    rw [← hlength]
    exact redirect_outcome address (s.ports l) sdp

/-- A session of three pairs. -/
def threePairs : Session Rehearsal.ScriptedStream :=
  let media (port : UInt16) := LegMedia.ofStream (Rehearsal.ScriptedStream.onPort port)
  { Session.fresh ⟨"s"⟩ "g" ⟨false, false⟩ (Rtp.Receiver.idle []) with
    pairs := [5000, 5004, 5008].map fun port => ⟨⟨media port, media (port + 2)⟩, .simple⟩ }

/-- A description of four audio lines, one of them off, and a video line. -/
def mixedLines : Description :=
  { Description.empty with
    media := [.audio 7000 [], { Media.audio 7002 [] with kind := .video }, .audio 0 [],
      { Media.audio 7004 [] with connection := some (.ip4 "10.0.0.9") }, .audio 7006 []] }

theorem redirects_exactly_mixedLines :
    let sdp' := (threePairs.replaceAddress .b "192.0.2.1" mixedLines).1
    sdp'.media[2]? = some (.audio 0 []) ∧
      sdp'.media[3]? =
        some { Media.audio 5010 [] with connection := some (.ip4 "192.0.2.1") } ∧
      (threePairs.replaceAddress .b "192.0.2.1" mixedLines).2 = .error (.structureMismatch 4 3) ∧
      threePairs.replaceAddress .b "192.0.2.1" sdp' =
        (sdp', .error (.structureMismatch 4 3)) := by
  obtain ⟨-, hserved, hkept, -, -, hanswer, hagain⟩ :=
    redirects_exactly threePairs .b "192.0.2.1" mixedLines
  have hfails : (threePairs.replaceAddress .b "192.0.2.1" mixedLines).2 =
      .error (.structureMismatch 4 3) := hanswer
  refine ⟨hkept 2 _ rfl fun _ h => absurd rfl h, ?_, hfails, hfails ▸ hagain⟩
  exact hserved 3 _ (threePairs.pairs[2]) rfl rfl (by decide) rfl

end CallBridge.Bridge
