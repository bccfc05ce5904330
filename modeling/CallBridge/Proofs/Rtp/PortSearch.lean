import CallBridge.Rtp.PortAllocator
import CallBridge.Settings.Basic
import Mathlib.Data.List.Iterate
import Mathlib.Data.List.Rotate

/-!
# The search for a port

A stream is given the first even port of the range that can be bound, in cyclic order from where the
last search stopped. The search is watched with every attempt that it makes to bind a port, so that
the ports that it tries can be told from those that it leaves alone.

The bounds of the range may be odd, and the upper one may be the last port there is. The number of
attempts is that of the even ports in between, and the step over the end of the range comes right
behind the last of them, so that the attempts of a search that fails are a turn around the range.

Results:
* `mem_ports_iff`: the ports that streams may receive on.
* `iterate_next`: the way of the cursor is a turn around the range.
* `searchM_noting`, `searchM_run`: the attempts of a search, and what it comes to.
* `allocate_eq`: what is answered to a request.
* `Sound.search`, `Sound.allocates`: the cursor stays at even ports of the range.
* `search?_word`, `allocate?_word`: no step of the arithmetic leaves the words of a port.
* `port_search`: which ports are tried, and what is answered.
-/

namespace CallBridge.Rtp.PortAllocator

/-! ## The ports of a range -/

/-- The even ports of the range in ascending order. -/
def ports (a : PortAllocator) : List Nat := List.range' a.first a.slots 2

/-- The even ports of the range in cyclic order from the cursor on. -/
def around (a : PortAllocator) : List Nat := a.ports.rotate (a.ports.idxOf a.cursor)

/-- The range has two ports or more, and the cursor is at an even one of them. -/
structure Sound (a : PortAllocator) : Prop where
  low_pos : 0 < a.low
  low_lt : a.low < a.high
  high_lt : a.high < UInt16.size
  even : a.cursor % 2 = 0
  low_le : a.low ≤ a.cursor
  le_high : a.cursor ≤ a.high

section

variable {a : PortAllocator}

/-- The first port that is ever tried is the lower bound or the port behind it. -/
theorem Sound.first_eq (h : a.Sound) : a.first = a.low + a.low % 2 := by
  have hlow := h.low_lt
  have hhigh := h.high_lt
  rw [UInt16.size] at hhigh
  unfold first evenFrom
  split <;> omega

theorem Sound.two_mul_slots (h : a.Sound) :
    a.first + 2 * a.slots ≤ a.high + 2 ∧ a.high < a.first + 2 * a.slots := by
  have hfirst := h.first_eq
  have hlow := h.low_lt
  unfold slots
  omega

theorem mem_ports_iff (h : a.Sound) {p : Nat} :
    p ∈ a.ports ↔ p % 2 = 0 ∧ a.low ≤ p ∧ p ≤ a.high := by
  have hfirst := h.first_eq
  have hslots := h.two_mul_slots
  rw [ports, List.mem_range']
  constructor
  · rintro ⟨i, hi, rfl⟩
    omega
  · rintro ⟨heven, hlow, hhigh⟩
    exact ⟨(p - a.first) / 2, by omega, by omega⟩

theorem nodup_ports (a : PortAllocator) : a.ports.Nodup := List.nodup_range' 2

theorem Sound.cursor_mem (h : a.Sound) : a.cursor ∈ a.ports :=
  (mem_ports_iff h).2 ⟨h.even, h.low_le, h.le_high⟩

/-- A turn around the range comes by every port of it, once. -/
theorem mem_around_iff (h : a.Sound) {p : Nat} :
    p ∈ a.around ↔ p % 2 = 0 ∧ a.low ≤ p ∧ p ≤ a.high := by
  rw [around, List.mem_rotate, mem_ports_iff h]

theorem nodup_around (a : PortAllocator) : a.around.Nodup :=
  List.nodup_rotate.2 a.nodup_ports

/-! ## The way around the range -/

/-- Up to the end of the range the cursor goes from one even port to the next. -/
theorem next_iterate (h : a.Sound) {k n : Nat} (hn : k + n < a.slots) :
    a.next^[n] (a.first + 2 * k) = a.first + 2 * (k + n) := by
  induction n with
  | zero => rfl
  | succ n ih =>
    have hslots := h.two_mul_slots
    rw [Function.iterate_succ_apply', ih (Nat.lt_of_succ_lt hn), next, if_neg (by omega)]
    omega

/-- Behind the last even port of the range comes the first one. -/
theorem next_iterate_over (h : a.Sound) {k : Nat} (hk : k < a.slots) :
    a.next^[a.slots - k] (a.first + 2 * k) = a.first := by
  obtain ⟨n, hn⟩ : ∃ n, a.slots - k = n + 1 := ⟨a.slots - k - 1, by omega⟩
  have hslots := h.two_mul_slots
  rw [hn, Function.iterate_succ_apply', next_iterate h (by omega), next, if_pos (by omega)]

theorem iterate_next_up (h : a.Sound) {k n : Nat} (hn : k + n ≤ a.slots) :
    List.iterate a.next (a.first + 2 * k) n = List.range' (a.first + 2 * k) n 2 := by
  refine List.ext_getElem (by rw [List.length_iterate, List.length_range']) fun i hi _ => ?_
  rw [List.length_iterate] at hi
  rw [List.getElem_iterate, List.getElem_range', next_iterate h (by omega)]
  omega

/-- With as many steps as the range has even ports, the cursor makes a turn around the range. -/
theorem iterate_next (h : a.Sound) : List.iterate a.next a.cursor a.slots = a.around := by
  obtain ⟨k, hk, hcursor⟩ := List.mem_range'.1 h.cursor_mem
  have hlength : k < a.ports.length := by rwa [ports, List.length_range']
  have hindex : a.ports.idxOf a.cursor = k := by
    have hget : a.ports[k] = a.cursor := by simp only [ports, List.getElem_range', hcursor]
    rw [← hget]
    exact a.nodup_ports.idxOf_getElem k hlength
  have hports : a.ports = List.range' a.first k 2 ++ List.range' a.cursor (a.slots - k) 2 := by
    rw [hcursor, List.range'_append, Nat.add_sub_cancel' (Nat.le_of_lt hk), ports]
  have hover := next_iterate_over h hk
  rw [← hcursor] at hover
  have hturn := List.iterate_add a.next a.cursor (a.slots - k) k
  rw [Nat.sub_add_cancel (Nat.le_of_lt hk), hover] at hturn
  have hup := iterate_next_up h (k := k) (n := a.slots - k) (by omega)
  have hagain := iterate_next_up h (k := 0) (n := k) (by omega)
  rw [← hcursor] at hup
  rw [hturn, hup, around, hindex, List.rotate_eq_drop_append_take (Nat.le_of_lt hlength), hports,
    List.drop_left' (List.length_range' ..), List.take_left' (List.length_range' ..)]
  exact congrArg (_ ++ ·) hagain

end

/-! ## Attempts that are watched -/

/-- The search with an action for every attempt to bind a port. -/
def searchM {m : Type → Type} [Monad m] (attempt : Nat → m Bool) :
    Nat → PortAllocator → m (PortAllocator × Option Nat)
  | 0, a => pure (a, none)
  | tries + 1, a => do
    let moved := { a with cursor := a.next a.cursor }
    if ← attempt a.cursor then pure (moved, some a.cursor) else searchM attempt tries moved

/-- An attempt that is noted. -/
def noting (free : Nat → Bool) (port : Nat) : StateM (List Nat) Bool :=
  fun tried => (free port, tried ++ [port])

/-- The ports that a request tries to bind, one after the other. -/
def attempts (free : Nat → Bool) (a : PortAllocator) : List Nat :=
  ((searchM (noting free) a.slots a).run []).2

/-- Of some ports in a row, those that are tried until one can be bound, and that one. -/
def untilFree (free : Nat → Bool) (ports : List Nat) : List Nat :=
  ports.takeWhile (!free ·) ++ (ports.find? free).toList

theorem untilFree_cons (free : Nat → Bool) (port : Nat) (ports : List Nat) :
    untilFree free (port :: ports) =
      port :: if free port then [] else untilFree free ports := by
  unfold untilFree
  cases hfree : free port with
  | true => simp [hfree]
  | false => simp [hfree]

theorem untilFree_of_none {free : Nat → Bool} {ports : List Nat} (h : ports.find? free = none) :
    untilFree free ports = ports := by
  induction ports with
  | nil => rfl
  | cons port ports ih =>
    rw [List.find?_cons] at h
    cases hfree : free port with
    | true => simp [hfree] at h
    | false =>
      rw [hfree] at h
      rw [untilFree_cons, hfree, if_neg Bool.false_ne_true, ih h]

/-- The first attempt of a search, and what comes of it. -/
theorem searchM_noting_succ (free : Nat → Bool) (tries : Nat) (a : PortAllocator)
    (tried : List Nat) : (searchM (noting free) (tries + 1) a).run tried =
      if free a.cursor then
        (({ a with cursor := a.next a.cursor }, some a.cursor), tried ++ [a.cursor])
      else (searchM (noting free) tries { a with cursor := a.next a.cursor }).run
        (tried ++ [a.cursor]) := by
  have hfirst : (searchM (noting free) (tries + 1) a).run tried =
      (if free a.cursor then pure ({ a with cursor := a.next a.cursor }, some a.cursor)
        else searchM (noting free) tries { a with cursor := a.next a.cursor } :
          StateM (List Nat) (PortAllocator × Option Nat)).run (tried ++ [a.cursor]) := rfl
  rw [hfirst]
  split
  · rfl
  · rfl

/-- **Step and run**: the search tries the ports on the way of the cursor until one can be bound. -/
theorem searchM_noting (free : Nat → Bool) (tries : Nat) (a : PortAllocator) (tried : List Nat) :
    (searchM (noting free) tries a).run tried =
      (search free tries a, tried ++ untilFree free (List.iterate a.next a.cursor tries)) := by
  induction tries generalizing a tried with
  | zero => exact congrArg (Prod.mk _) (List.append_nil tried).symm
  | succ tries ih =>
    rw [searchM_noting_succ, search, List.iterate, untilFree_cons]
    cases hfree : free a.cursor with
    | true => rfl
    | false =>
      have hrest := ih { a with cursor := a.next a.cursor } (tried ++ [a.cursor])
      rw [List.append_assoc] at hrest
      exact hrest

/-- **Step and run**: the answer is the first port on the way of the cursor that can be bound. -/
theorem snd_search (free : Nat → Bool) (tries : Nat) (a : PortAllocator) :
    (search free tries a).2 = (List.iterate a.next a.cursor tries).find? free := by
  induction tries generalizing a with
  | zero => rfl
  | succ tries ih =>
    rw [search, List.iterate, List.find?_cons]
    cases hfree : free a.cursor with
    | true => rfl
    | false => exact ih { a with cursor := a.next a.cursor }

/-- A request, watched: what the search comes to, and the ports that it tries. -/
theorem searchM_run {a : PortAllocator} (h : a.Sound) (free : Nat → Bool) :
    (searchM (noting free) a.slots a).run [] =
      (search free a.slots a, untilFree free a.around) := by
  rw [searchM_noting, iterate_next h]
  rfl

theorem attempts_eq {a : PortAllocator} (h : a.Sound) (free : Nat → Bool) :
    a.attempts free = untilFree free a.around := congrArg (·.2) (searchM_run h free)

/-- What is answered to a request: the first port in cyclic order that can be bound, if there is
one. -/
theorem allocate_eq {a : PortAllocator} (h : a.Sound) (free : Nat → Bool) :
    (allocate free a).2 = match a.around.find? free with
      | some port => .ok port
      | none => .error (.portsExhausted a.low a.high) := by
  have hfound := snd_search free a.slots a
  rw [iterate_next h] at hfound
  rw [← hfound, allocate]
  rcases search free a.slots a with ⟨a', _ | port⟩ <;> rfl

/-! ## Runs -/

theorem Sound.moved {a : PortAllocator} (h : a.Sound) :
    Sound { a with cursor := a.next a.cursor } := by
  have hfirst := h.first_eq
  have hcursor : a.first ≤ a.cursor := by
    have hlow := h.low_le
    have heven := h.even
    omega
  obtain ⟨heven, hlow, hhigh⟩ :=
    cursor_next h.low_lt (Nat.le_of_lt_succ h.high_lt) h.even hcursor
  exact ⟨h.low_pos, h.low_lt, h.high_lt, heven,
    Nat.le_trans (by omega : a.low ≤ a.first) hlow, hhigh⟩

/-- A search moves the cursor and leaves the range alone. -/
theorem Sound.search {a : PortAllocator} (h : a.Sound) (free : Nat → Bool) (tries : Nat) :
    (search free tries a).1.Sound ∧ (search free tries a).1.low = a.low ∧
      (search free tries a).1.high = a.high := by
  induction tries generalizing a with
  | zero => exact ⟨h, rfl, rfl⟩
  | succ tries ih =>
    rw [PortAllocator.search]
    cases free a.cursor with
    | true => exact ⟨h.moved, rfl, rfl⟩
    | false => exact ih h.moved

/-- The allocator after some requests, at each of which certain ports could be bound. -/
def allocates (a : PortAllocator) (history : List (Nat → Bool)) : PortAllocator :=
  history.foldl (fun a free => (allocate free a).1) a

theorem fst_allocate (free : Nat → Bool) (a : PortAllocator) :
    (allocate free a).1 = (search free a.slots a).1 := by
  unfold allocate
  rcases search free a.slots a with ⟨a', _ | port⟩ <;> rfl

theorem Sound.allocates {a : PortAllocator} (h : a.Sound) (history : List (Nat → Bool)) :
    (a.allocates history).Sound ∧ (a.allocates history).low = a.low ∧
      (a.allocates history).high = a.high := by
  induction history generalizing a with
  | nil => exact ⟨h, rfl, rfl⟩
  | cons free history ih =>
    obtain ⟨hsound, hlow, hhigh⟩ := h.search free a.slots
    rw [← fst_allocate] at hsound hlow hhigh
    obtain ⟨hrest, hlow', hhigh'⟩ := ih hsound
    exact ⟨hrest, hlow'.trans hlow, hhigh'.trans hhigh⟩

theorem Sound.ofRange {low high : Nat} (hpos : 0 < low) (hlt : low < high)
    (hhigh : high < UInt16.size) : (ofRange low high).Sound := by
  have heven : evenFrom low = low + low % 2 := by
    rw [UInt16.size] at hhigh
    unfold evenFrom
    split <;> omega
  refine ⟨hpos, hlt, hhigh, ?_, ?_, ?_⟩
  · show evenFrom low % 2 = 0
    omega
  · show low ≤ evenFrom low
    omega
  · show evenFrom low ≤ high
    omega

/-! ## The arithmetic of ports -/

/-- The sum of two words, unless it leaves their range. -/
def sum? (x y : UInt16) : Option UInt16 :=
  if x.toNat + y.toNat < UInt16.size then some (x + y) else none

/-- The difference of two words, unless it is below zero. -/
def difference? (x y : UInt16) : Option UInt16 :=
  if y ≤ x then some (x - y) else none

/-- The first even port from a port on, in words. -/
def evenFrom? (port : UInt16) : Option UInt16 := if port % 2 = 0 then some port else sum? port 1

/-- The number of ports that are tried before giving up, in words. -/
def slots? (low high : UInt16) : Option UInt16 := do
  let first ← evenFrom? low
  let span ← difference? high first
  sum? (span / 2) 1

/-- The port after a port on the way around the range, in words. -/
def next? (low high port : UInt16) : Option UInt16 := do
  let first ← evenFrom? low
  let last ← difference? high 1
  if last ≤ port then some first else sum? port 2

/-- The search in words, unless a step of its arithmetic leaves their range: the cursor, and the
first port that can be bound. -/
def search? (free : Nat → Bool) (low high : UInt16) :
    Nat → UInt16 → Option (UInt16 × Option UInt16)
  | 0, cursor => some (cursor, none)
  | tries + 1, cursor => do
    let moved ← next? low high cursor
    if free cursor.toNat then some (moved, some cursor) else search? free low high tries moved

/-- A request for a port in words. -/
def allocate? (free : Nat → Bool) (low high cursor : UInt16) :
    Option (UInt16 × Option UInt16) := do
  let slots ← slots? low high
  search? free low high slots.toNat cursor

theorem toNat_word {x : Nat} (h : x < UInt16.size) : (UInt16.ofNat x).toNat = x :=
  UInt16.toNat_ofNat_of_lt' h

theorem sum?_word {x y : Nat} (h : x + y < UInt16.size) :
    sum? (UInt16.ofNat x) (UInt16.ofNat y) = some (UInt16.ofNat (x + y)) := by
  rw [sum?, toNat_word (Nat.lt_of_le_of_lt (Nat.le_add_right x y) h),
    toNat_word (Nat.lt_of_le_of_lt (Nat.le_add_left y x) h), if_pos h, UInt16.ofNat_add]

theorem le_word_iff {x y : Nat} (hx : x < UInt16.size) (hy : y < UInt16.size) :
    UInt16.ofNat x ≤ UInt16.ofNat y ↔ x ≤ y := by
  rw [UInt16.le_iff_toNat_le, toNat_word hx, toNat_word hy]

theorem difference?_word {x y : Nat} (hx : x < UInt16.size) (hle : y ≤ x) :
    difference? (UInt16.ofNat x) (UInt16.ofNat y) = some (UInt16.ofNat (x - y)) := by
  rw [difference?, if_pos ((le_word_iff (Nat.lt_of_le_of_lt hle hx) hx).2 hle),
    UInt16.ofNat_sub hle]

theorem evenFrom?_word {low : Nat} (h : low + 1 < UInt16.size) :
    evenFrom? (UInt16.ofNat low) = some (UInt16.ofNat (evenFrom low)) := by
  have heven : UInt16.ofNat low % 2 = 0 ↔ low % 2 = 0 := by
    rw [← UInt16.toNat_inj, UInt16.toNat_mod, toNat_word (Nat.lt_of_succ_lt h)]
    rfl
  rw [evenFrom?, evenFrom]
  by_cases hlow : low % 2 = 0
  · rw [if_pos (heven.2 hlow), if_pos hlow]
  · have hcut : min (low + 1) 65535 = low + 1 := Nat.min_eq_left (Nat.le_of_lt_succ h)
    rw [if_neg fun hword => hlow (heven.1 hword), if_neg hlow, hcut]
    exact sum?_word h

section

variable {a : PortAllocator} (h : a.Sound)
include h

theorem slots?_word :
    slots? (UInt16.ofNat a.low) (UInt16.ofNat a.high) = some (UInt16.ofNat a.slots) := by
  have hfirst := h.first_eq
  have hlow := h.low_lt
  have hhigh := h.high_lt
  rw [UInt16.size] at hhigh
  have hspan : UInt16.ofNat (a.high - a.first) / 2 = UInt16.ofNat ((a.high - a.first) / 2) := by
    rw [← UInt16.toNat_inj, UInt16.toNat_div, toNat_word (by rw [UInt16.size]; omega),
      toNat_word (by rw [UInt16.size]; omega)]
    rfl
  rw [slots?, evenFrom?_word (Nat.lt_of_le_of_lt hlow h.high_lt), Option.bind_eq_bind,
    Option.bind_some, difference?_word (y := evenFrom a.low) h.high_lt
      (show a.first ≤ a.high by omega), Option.bind_some]
  show sum? (UInt16.ofNat (a.high - a.first) / 2) (UInt16.ofNat 1) = _
  rw [hspan]
  exact sum?_word (by rw [UInt16.size]; omega)

theorem next?_word : next? (UInt16.ofNat a.low) (UInt16.ofNat a.high) (UInt16.ofNat a.cursor) =
    some (UInt16.ofNat (a.next a.cursor)) := by
  have hlow := h.low_lt
  have hhigh := h.high_lt
  have hcursor : a.cursor < UInt16.size := Nat.lt_of_le_of_lt h.le_high h.high_lt
  have hlast : difference? (UInt16.ofNat a.high) 1 = some (UInt16.ofNat (a.high - 1)) :=
    difference?_word h.high_lt (Nat.one_le_of_lt hlow)
  rw [next?, evenFrom?_word (Nat.lt_of_le_of_lt hlow hhigh), Option.bind_eq_bind,
    Option.bind_some, hlast, Option.bind_some, next]
  by_cases hend : a.high - 1 ≤ a.cursor
  · rw [if_pos ((le_word_iff (by omega) hcursor).2 hend), if_pos hend]
    rfl
  · have hsum : a.cursor + 2 < UInt16.size := by omega
    rw [if_neg fun hword => hend ((le_word_iff (by omega) hcursor).1 hword), if_neg hend]
    exact sum?_word hsum

/-- **Step and run**: no step of a search leaves the words of a port. -/
theorem search?_word (free : Nat → Bool) (tries : Nat) :
    search? free (UInt16.ofNat a.low) (UInt16.ofNat a.high) tries (UInt16.ofNat a.cursor) =
      some (UInt16.ofNat (search free tries a).1.cursor,
        (search free tries a).2.map UInt16.ofNat) := by
  induction tries generalizing a with
  | zero => rfl
  | succ tries ih =>
    have hcursor : a.cursor < UInt16.size := Nat.lt_of_le_of_lt h.le_high h.high_lt
    rw [search?, next?_word h, Option.bind_eq_bind, Option.bind_some, toNat_word hcursor, search]
    cases free a.cursor with
    | true => rfl
    | false => exact ih h.moved

theorem allocate?_word (free : Nat → Bool) :
    allocate? free (UInt16.ofNat a.low) (UInt16.ofNat a.high) (UInt16.ofNat a.cursor) =
      some (UInt16.ofNat (search free a.slots a).1.cursor,
        (search free a.slots a).2.map UInt16.ofNat) := by
  have hslots : a.slots < UInt16.size := by
    have hturn := h.two_mul_slots
    have hhigh := h.high_lt
    have hfirst := h.first_eq
    have hpos := h.low_pos
    rw [UInt16.size] at hhigh ⊢
    omega
  rw [allocate?, slots?_word h, Option.bind_eq_bind, Option.bind_some, toNat_word hslots]
  exact search?_word h free a.slots

end

/-! ## Main theorem -/

open Settings (Transport)

/-- Settings that are accepted give a range of ports. -/
theorem Sound.ofTransport {t : Transport} (hvalid : t.validate = .ok ()) :
    (PortAllocator.ofRange t.portMin.toNat t.portMax.toNat).Sound := by
  have hrange : ¬ (t.portMin = 0 ∨ t.portMax ≤ t.portMin) := by
    intro hbad
    rw [Transport.validate, if_pos hbad] at hvalid
    cases hvalid
  obtain ⟨hzero, hle⟩ := not_or.1 hrange
  refine Sound.ofRange ?_ ?_ t.portMax.toNat_lt
  · exact Nat.pos_of_ne_zero fun h => hzero (UInt16.toNat_inj.1 h)
  · exact UInt16.lt_iff_toNat_lt.1 (UInt16.not_le.1 hle)

/-- **Main theorem**: how a port is found.

Settings that are accepted have a range of ports, from which streams were given ports before, with
whatever could be bound at the time. The cursor is at an even port of the range. A request for a
port tries even ports of the range alone, in cyclic order from the cursor on, none of them twice,
until one can be bound, and that one is the answer. The range is exhausted if and only if none of
its even ports can be bound, and then each of them was tried, just once. The machine computes all
this in words of 16 bits, and no step of that leaves their range. -/
theorem port_search {t : Transport} (hvalid : t.validate = .ok ()) (history : List (Nat → Bool))
    (free : Nat → Bool) :
    let a := (PortAllocator.ofRange t.portMin.toNat t.portMax.toNat).allocates history
    let exhausted : Outcome Nat := .error (.portsExhausted t.portMin.toNat t.portMax.toNat)
    (a.cursor % 2 = 0 ∧ t.portMin.toNat ≤ a.cursor ∧ a.cursor ≤ t.portMax.toNat) ∧
    (a.around.Nodup ∧
      ∀ p, p ∈ a.around ↔ p % 2 = 0 ∧ t.portMin.toNat ≤ p ∧ p ≤ t.portMax.toNat) ∧
    (searchM (noting free) a.slots a).run [] =
      (search free a.slots a, untilFree free a.around) ∧
    (∀ p, (allocate free a).2 = .ok p ↔ a.around.find? free = some p) ∧
    ((allocate free a).2 = exhausted ↔
      ∀ p, p % 2 = 0 → t.portMin.toNat ≤ p → p ≤ t.portMax.toNat → free p = false) ∧
    ((allocate free a).2 = exhausted → a.attempts free = a.around) ∧
    allocate? free t.portMin t.portMax (UInt16.ofNat a.cursor) =
      some (UInt16.ofNat (allocate free a).1.cursor,
        (a.around.find? free).map UInt16.ofNat) := by
  intro a exhausted
  obtain ⟨hsound, hlow, hhigh⟩ : a.Sound ∧ a.low = t.portMin.toNat ∧ a.high = t.portMax.toNat :=
    (Sound.ofTransport hvalid).allocates history
  have hmem : ∀ p, p ∈ a.around ↔ p % 2 = 0 ∧ t.portMin.toNat ≤ p ∧ p ≤ t.portMax.toNat := by
    intro p
    rw [mem_around_iff hsound, hlow, hhigh]
  have hanswer := allocate_eq hsound free
  rw [hlow, hhigh] at hanswer
  have hexhausted : (allocate free a).2 = exhausted ↔ a.around.find? free = none := by
    rw [hanswer]
    cases a.around.find? free with
    | none => exact ⟨fun _ => rfl, fun _ => rfl⟩
    | some port => exact ⟨nofun, nofun⟩
  refine ⟨⟨hsound.even, hlow ▸ hsound.low_le, hhigh ▸ hsound.le_high⟩, ⟨a.nodup_around, hmem⟩,
    searchM_run hsound free, fun p => ?_, ?_, fun h => ?_, ?_⟩
  · rw [hanswer]
    cases a.around.find? free with
    | none => exact ⟨nofun, nofun⟩
    | some port => rw [Except.ok.injEq, Option.some.injEq]
  · rw [hexhausted, List.find?_eq_none]
    constructor
    · intro hnone p heven hlow hhigh
      exact Bool.eq_false_iff.2 (hnone p ((hmem p).2 ⟨heven, hlow, hhigh⟩))
    · intro hnone p hp
      obtain ⟨heven, hlow, hhigh⟩ := (hmem p).1 hp
      exact Bool.eq_false_iff.1 (hnone p heven hlow hhigh)
  · rw [attempts_eq hsound, untilFree_of_none (hexhausted.1 h)]
  · have hwords := allocate?_word hsound free
    rw [snd_search, iterate_next hsound, ← fst_allocate, hlow, hhigh, UInt16.ofNat_toNat,
      UInt16.ofNat_toNat] at hwords
    exact hwords

/-- The last three ports of all, two of which are even. -/
def lastPorts : Transport := { Transport.standard with portMin := 65532, portMax := 65535 }

/-- When the last even port was given away last, and only the one before is free, both are tried. -/
theorem port_search_lastPorts :
    lastPorts.validate = .ok () ∧
    let a := (PortAllocator.ofRange 65532 65535).allocates [fun _ => true]
    a.attempts (· = 65532) = [65534, 65532] ∧ (allocate (· = 65532) a).2 = .ok 65532 := by
  have hvalid : lastPorts.validate = .ok () := by decide
  have hsearch := port_search hvalid [fun _ => true] (· = 65532)
  exact ⟨hvalid, (congrArg (·.2) hsearch.2.2.1).trans (by decide),
    (hsearch.2.2.2.1 65532).2 (by decide)⟩

end CallBridge.Rtp.PortAllocator
