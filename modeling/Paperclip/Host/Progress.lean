import Paperclip.Host.Machine
import Paperclip.Packages.Fields

/-!
# The progress of a session's main loop

A session writes a counter to its witness file from the loop that draws. The supervisor reads the file
whenever it polls, and reports a session whose counter has stood still for too long.

* `ProgressWatch.poll`: one look at the file.
* `progressEvents`: what the runtime makes of it.
* `Pulse`: when the counter last went up, from what can be read alone.
* `Watched`: a session is reported exactly when its counter has stood still for the limit.
-/

namespace Paperclip.Host

open Packages

/-! ## The witness file -/

/-- One observation of a session's main loop. -/
structure Tick where
  count : ℕ
  /-- When the session says it wrote this, in milliseconds. -/
  at_ : ℕ
  deriving DecidableEq, Repr

/-- Why a witness could not be read. -/
inductive ProgressError where
  | malformed (detail : String)
  deriving DecidableEq, Repr

/-- The fields of a text, between white space. -/
def splitWhitespace (text : List Char) : List (List Char) :=
  (text.splitOnP isWhitespace).filter (· ≠ [])

/-- A field of the witness, or why there is none. -/
def field (fields : List (List Char)) (index : ℕ) (missing invalid : String) :
    Except ProgressError ℕ :=
  match fields[index]? with
  | none => .error (.malformed missing)
  | some text =>
    match parseU64 text with
    | none => .error (.malformed invalid)
    | some value => .ok value

/-- Reads the witness. A file that is missing, or not text, is no witness yet. -/
def readWitness (file : Option String) : Except ProgressError (Option Tick) :=
  match file with
  | none => .ok none
  | some raw => do
    let fields := splitWhitespace raw.toList
    let count ← field fields 0 "empty" "first field is not a counter"
    let at_ ← field fields 1 "no timestamp" "second field is not a timestamp"
    return some ⟨count, at_⟩

/-! ## The watch -/

/-- What the main loop is doing. -/
inductive Progress where
  | advancing (tick : Tick)
  | quiet (stalledFor : ℕ)
  | stalled (stalledFor : ℕ)
  deriving DecidableEq, Repr

/-- Watches a session's witness. -/
structure ProgressWatch where
  last : Option Tick
  lastChange : Option ℕ
  deriving DecidableEq, Repr

namespace ProgressWatch

def new : ProgressWatch := ⟨none, none⟩

/-- What to make of a witness that does not move the counter on. -/
def still (w : ProgressWatch) (observed : Option Tick) (now stall : ℕ) : Progress × ProgressWatch :=
  let stalledFor := now - w.lastChange.getD now
  (if stall ≤ stalledFor then .stalled stalledFor else .quiet stalledFor,
    { last := if observed.isSome then observed else w.last,
      lastChange := some (w.lastChange.getD now) })

/-- Looks at the witness. -/
def poll (w : ProgressWatch) (file : Option String) (now stall : ℕ) :
    Except ProgressError Progress × ProgressWatch :=
  match readWitness file with
  | .error error => (.error error, w)
  | .ok observed =>
    match observed, w.last with
    | some new, some old =>
      if old.count < new.count then (.ok (.advancing new), ⟨some new, some now⟩)
      else
        let (progress, w) := w.still observed now stall
        (.ok progress, w)
    | some new, none => (.ok (.advancing new), ⟨some new, some now⟩)
    | none, _ =>
      let (progress, w) := w.still observed now stall
      (.ok progress, w)

end ProgressWatch

/-- A look at the file: when, and what it held. -/
structure Poll where
  now : ℕ
  file : Option String
  deriving DecidableEq, Repr

/-- What the runtime makes of a look. A witness that it cannot read it only logs. -/
def progressEvents (owner : Foreground) (stall : ℕ) (w : ProgressWatch) (p : Poll) :
    List Event × ProgressWatch :=
  let (progress, w) := w.poll p.file p.now stall
  match progress with
  | .ok (.stalled stalledFor) => ([.progressStalled owner stalledFor], w)
  | .ok _ => ([], w)
  | .error _ => ([], w)

/-- The watch after some looks. -/
def watched (owner : Foreground) (stall : ℕ) (polls : List Poll) : ProgressWatch :=
  polls.foldl (fun w p => (progressEvents owner stall w p).2) .new

/-- The session is reported at this look. -/
def Reported (owner : Foreground) (stall : ℕ) (before : List Poll) (p : Poll) : Prop :=
  ∃ stalledFor, .progressStalled owner stalledFor ∈
    (progressEvents owner stall (watched owner stall before) p).1

/-! ## The counter -/

/-- The counter that a look can read. -/
def Poll.readable (p : Poll) : Option ℕ :=
  match readWitness p.file with
  | .ok (some tick) => some tick.count
  | _ => none

/-- When the counter last went up, or was first looked at. -/
structure Pulse where
  count : Option ℕ
  since : Option ℕ
  /-- A look has been made the limit after that. -/
  due : Bool
  deriving DecidableEq, Repr

namespace Pulse

def start : Pulse := ⟨none, none, false⟩

/-- The look finds the counter higher than the last that could be read. -/
def Increases (u : Pulse) (p : Poll) : Prop :=
  ∃ n, p.readable = some n ∧ ∀ m, u.count = some m → m < n

instance (u : Pulse) (p : Poll) : Decidable (u.Increases p) :=
  match h : p.readable, hu : u.count with
  | none, _ => .isFalse fun ⟨_, hn, _⟩ => by simp [h] at hn
  | some n, none => .isTrue ⟨n, h, by simp [hu]⟩
  | some n, some m => decidable_of_iff (m < n) (by simp [Increases, h, hu])

/-- The time since when the counter stands still, if the look does not find it higher. -/
def still (u : Pulse) (p : Poll) : ℕ := u.since.getD p.now

/-- After a look. -/
def see (stall : ℕ) (u : Pulse) (p : Poll) : Pulse :=
  if u.Increases p then ⟨p.readable, some p.now, false⟩
  else ⟨p.readable.or u.count, some (u.still p), u.due || decide (u.still p + stall ≤ p.now)⟩

/-- After some looks. -/
def after (stall : ℕ) (polls : List Poll) : Pulse := polls.foldl (see stall) .start

end Pulse

/-- The counter has stood still for the limit at this look. -/
def Stalls (stall : ℕ) (before : List Poll) (p : Poll) : Prop :=
  ¬ (Pulse.after stall before).Increases p ∧ (Pulse.after stall before).still p + stall ≤ p.now

/-- A session is reported at the first look made the limit after its counter last went up, and at
none before that. -/
structure Watched (owner : Foreground) (stall : ℕ) (polls : List Poll) : Prop where
  caught : ∀ before p after, polls = before ++ p :: after → Stalls stall before p →
    (Pulse.after stall before).due = false → Reported owner stall before p
  spared : ∀ before p after, polls = before ++ p :: after → Reported owner stall before p →
    Stalls stall before p

/-- The look finds no file, or a witness. -/
def Poll.heard (p : Poll) : Bool := (readWitness p.file).isOk

/-- The watch can tell that the counter stands still: it hears this look and, as long as nothing could
be read, it has heard another the limit ago. -/
def Noticed (stall : ℕ) (before : List Poll) (p : Poll) : Prop :=
  p.heard = true ∧ ((Pulse.after stall before).count = none →
    ∃ q, (before ++ [p]).find? (·.heard) = some q ∧ q.now + stall ≤ p.now)

/-! ## What the watch knows -/

section
variable {owner : Foreground} {stall : ℕ} {before : List Poll} {p : Poll}

theorem after_concat : Pulse.after stall (before ++ [p]) =
    (Pulse.after stall before).see stall p := by
  rw [Pulse.after, List.foldl_concat]
  rfl

theorem watched_concat : watched owner stall (before ++ [p]) =
    (progressEvents owner stall (watched owner stall before) p).2 := by
  rw [watched, List.foldl_concat]
  rfl

/-- What the watch knows of the counter. -/
structure Knows (w : ProgressWatch) (u : Pulse) (before : List Poll) : Prop where
  count : w.last.map (·.count) = u.count
  /-- Once something could be read, the watch has its time. -/
  since : u.count ≠ none → w.lastChange = u.since
  begun : u.count ≠ none → u.since ≠ none
  /-- Before that it has the time of the first look that it heard. -/
  heard : u.count = none → w.lastChange = (before.find? (·.heard)).map (·.now)
  first : u.count = none → u.since = before.head?.map (·.now)
  past : ∀ t, u.since = some t → ∃ q ∈ before, q.now = t

theorem knows_start : Knows .new .start [] :=
  ⟨rfl, fun h => absurd rfl h, fun h => absurd rfl h, fun _ => rfl, fun _ => rfl, nofun⟩

variable {w : ProgressWatch} {u : Pulse}

/-- A look finds the counter higher, finds it still, or finds nothing that is a witness. -/
theorem events_cases (owner : Foreground) (stall : ℕ) (p : Poll)
    (hc : w.last.map (·.count) = u.count) :
    (u.Increases p ∧ ∃ tick, p.readable = some tick.count ∧
      progressEvents owner stall w p = ([], ⟨some tick, some p.now⟩)) ∨
    (¬ u.Increases p ∧ p.heard = true ∧ ∃ last, last.map (·.count) = p.readable.or u.count ∧
      progressEvents owner stall w p =
        (if stall ≤ p.now - w.lastChange.getD p.now then
          [.progressStalled owner (p.now - w.lastChange.getD p.now)] else [],
          ⟨last, some (w.lastChange.getD p.now)⟩)) ∨
    (¬ u.Increases p ∧ p.heard = false ∧ p.readable = none ∧
      progressEvents owner stall w p = ([], w)) := by
  cases hread : readWitness p.file with
  | error error =>
    have hr : p.readable = none := by rw [Poll.readable, hread]
    refine .inr (.inr ⟨?_, by rw [Poll.heard, hread]; rfl, hr, ?_⟩)
    · rintro ⟨n, hn, -⟩
      rw [hr] at hn
      cases hn
    · simp only [progressEvents, ProgressWatch.poll, hread]
  | ok observed =>
    have hh : p.heard = true := by rw [Poll.heard, hread]; rfl
    cases observed with
    | none =>
      have hr : p.readable = none := by rw [Poll.readable, hread]
      refine .inr (.inl ⟨?_, hh, w.last, by rw [hr, hc]; rfl, ?_⟩)
      · rintro ⟨n, hn, -⟩
        rw [hr] at hn
        cases hn
      · simp only [progressEvents, ProgressWatch.poll, hread, ProgressWatch.still,
          Option.isSome_none, Bool.false_eq_true, if_false]
        split_ifs <;> rfl
    | some tick =>
      have hr : p.readable = some tick.count := by rw [Poll.readable, hread]
      cases hl : w.last with
      | none =>
        rw [hl] at hc
        refine .inl ⟨⟨tick.count, hr, fun m hm => by rw [← hc] at hm; cases hm⟩, tick, hr, ?_⟩
        simp only [progressEvents, ProgressWatch.poll, hread, hl]
      | some old =>
        rw [hl] at hc
        have hcount : u.count = some old.count := hc.symm
        have hinc : u.Increases p ↔ old.count < tick.count := by
          simp [Pulse.Increases, hr, hcount]
        by_cases hlt : old.count < tick.count
        · refine .inl ⟨hinc.2 hlt, tick, hr, ?_⟩
          simp only [progressEvents, ProgressWatch.poll, hread, hl, if_pos hlt]
        · refine .inr (.inl ⟨fun h => hlt (hinc.1 h), hh, some tick, by rw [hr]; rfl, ?_⟩)
          simp only [progressEvents, ProgressWatch.poll, hread, hl, if_neg hlt, ProgressWatch.still,
            Option.isSome_some, if_true]
          split_ifs <;> rfl

/-- A look that finds the counter higher starts the pulse again. -/
theorem see_increases (h : u.Increases p) :
    u.see stall p = ⟨p.readable, some p.now, false⟩ := if_pos h

theorem see_still (h : ¬ u.Increases p) : u.see stall p =
    ⟨p.readable.or u.count, some (u.still p), u.due || decide (u.still p + stall ≤ p.now)⟩ :=
  if_neg h

/-- A counter that is read for the first time goes up. -/
theorem count_of_still (h : ¬ u.Increases p) (hu : u.count = none) : p.readable = none := by
  cases hr : p.readable with
  | none => rfl
  | some n => exact absurd ⟨n, hr, fun m hm => by rw [hu] at hm; cases hm⟩ h

/-- A look that does not find the counter higher keeps its time, or is the first. -/
theorem Knows.still_spec (k : Knows w u before) :
    (u.count = none → some (u.still p) = (before ++ [p]).head?.map (·.now)) ∧
      ∃ q ∈ before ++ [p], q.now = u.still p := by
  constructor
  · intro hu
    rw [Pulse.still, k.first hu]
    cases before <;> rfl
  · cases hs : u.since with
    | none => exact ⟨p, by simp, by rw [Pulse.still, hs]; rfl⟩
    | some t =>
      obtain ⟨q, hq, hn⟩ := k.past t hs
      exact ⟨q, by simp [hq], by rw [Pulse.still, hs, hn]; rfl⟩

/-- A look keeps what the watch knows. -/
theorem Knows.see (k : Knows w u before) :
    Knows (progressEvents owner stall w p).2 (u.see stall p) (before ++ [p]) := by
  obtain ⟨hinc, tick, hr, hev⟩ | ⟨hinc, hh, last, hlast, hev⟩ | ⟨hinc, hh, hr, hev⟩ :=
    events_cases owner stall p k.count
  · rw [hev, see_increases hinc, hr]
    refine ⟨rfl, fun _ => rfl, fun _ => nofun, nofun, nofun, ?_⟩
    rintro t ⟨⟩
    exact ⟨p, by simp, rfl⟩
  · obtain ⟨hfirst, q, hq, hn⟩ := k.still_spec (p := p)
    rw [hev, see_still hinc]
    have old (hu : p.readable.or u.count = none) : u.count = none := by
      simpa using (Option.or_eq_none_iff.1 hu).2
    refine ⟨hlast, fun hu => ?_, fun _ => nofun, fun hu => ?_, fun hu => hfirst (old hu), ?_⟩
    · have hu' : u.count ≠ none := fun h => hu (by rw [h, count_of_still hinc h]; rfl)
      rw [k.since hu', Pulse.still]
    · rw [k.heard (old hu), List.find?_append, List.find?_cons_of_pos hh]
      cases before.find? (·.heard) <;> rfl
    · rintro t ⟨⟩
      exact ⟨q, hq, hn⟩
  · obtain ⟨hfirst, q, hq, hn⟩ := k.still_spec (p := p)
    rw [hev, see_still hinc, hr, Option.none_or]
    refine ⟨k.count, fun hu => ?_, fun _ => nofun, fun hu => ?_, fun hu => hfirst hu, ?_⟩
    · obtain ⟨t, ht⟩ := Option.ne_none_iff_exists'.1 (k.begun hu)
      rw [k.since hu, Pulse.still, ht]
      rfl
    · rw [k.heard hu, List.find?_append, List.find?_cons_of_neg (by simp [hh]), List.find?_nil,
        Option.or_none]
    · rintro t ⟨⟩
      exact ⟨q, hq, hn⟩

/-- What the watch knows after some looks. -/
theorem knows_after (owner : Foreground) (stall : ℕ) (before : List Poll) :
    Knows (watched owner stall before) (Pulse.after stall before) before := by
  induction before using List.reverseRecOn with
  | nil => exact knows_start
  | append_singleton before p ih =>
    rw [watched_concat, after_concat]
    exact ih.see

/-! ## Reports -/

/-- A look is reported if the watch hears it, and its counter has stood still for as long as the watch
knows. -/
theorem reported_iff : Reported owner stall before p ↔
    ¬ (Pulse.after stall before).Increases p ∧ p.heard = true ∧
      stall ≤ p.now - (watched owner stall before).lastChange.getD p.now := by
  obtain ⟨hinc, tick, hr, hev⟩ | ⟨hinc, hh, last, hlast, hev⟩ | ⟨hinc, hh, hr, hev⟩ :=
    events_cases owner stall p (knows_after owner stall before).count
  · simp [Reported, hev, hinc]
  · rw [Reported, hev]
    split_ifs with hs
    · simp [hinc, hh, hs]
    · simp [hs]
  · simp [Reported, hev, hh]

/-- Until something can be read, the watch counts from the first look that it hears. -/
theorem find_heard (before : List Poll) (hh : p.heard = true) :
    ∃ q, (before ++ [p]).find? (·.heard) = some q ∧
    q.now = ((before.find? (·.heard)).map (·.now)).getD p.now ∧ q ∈ before ++ [p] := by
  have hfind : (before ++ [p]).find? (·.heard) = (before.find? (·.heard)).or (some p) := by
    rw [List.find?_append, List.find?_cons_of_pos hh]
  cases hb : before.find? (·.heard) with
  | none => exact ⟨p, by rw [hfind, hb]; rfl, rfl, by simp⟩
  | some q =>
    exact ⟨q, by rw [hfind, hb]; rfl, rfl, List.mem_append_left _ (List.mem_of_find?_eq_some hb)⟩

/-- What the watch makes of a look that does not find the counter higher. -/
theorem reported_still (hn : ∀ q ∈ before, q.now ≤ p.now)
    (hinc : ¬ (Pulse.after stall before).Increases p) :
    Reported owner stall before p ↔ p.heard = true ∧
      (if (Pulse.after stall before).count = none then
        ∃ q, (before ++ [p]).find? (·.heard) = some q ∧ q.now + stall ≤ p.now
      else (Pulse.after stall before).still p + stall ≤ p.now) := by
  have k := knows_after owner stall before
  rw [reported_iff, and_iff_right hinc]
  refine and_congr_right fun hh => ?_
  split_ifs with hu
  · obtain ⟨q, hfind, hq, hmem⟩ := find_heard before hh
    have hle : q.now ≤ p.now := by
      rcases List.mem_append.1 hmem with hm | hm
      · exact hn q hm
      · rw [List.mem_singleton.1 hm]
    rw [k.heard hu, ← hq, hfind]
    constructor
    · intro hs
      exact ⟨q, rfl, by omega⟩
    · rintro ⟨_, ⟨⟩, hs⟩
      omega
  · rw [k.since hu, Pulse.still]
    obtain ⟨t, ht⟩ := Option.ne_none_iff_exists'.1 (k.begun hu)
    obtain ⟨q, hq, rfl⟩ := k.past t ht
    have hle := hn q hq
    rw [ht, Option.getD_some]
    omega

/-- No look that the watch hears came before the first. -/
theorem still_le (hs : (before ++ [p]).Pairwise (·.now ≤ ·.now))
    (hu : (Pulse.after stall before).count = none) {q : Poll} (hq : q ∈ before ++ [p]) :
    (Pulse.after stall before).still p ≤ q.now := by
  have hfirst := ((knows_after .stock stall before).still_spec (p := p)).1 hu
  cases hb : before ++ [p] with
  | nil => simp at hb
  | cons first rest =>
    rw [hb] at hfirst hs hq
    rw [Option.some.inj hfirst]
    rcases List.mem_cons.1 hq with rfl | hq
    · exact le_refl _
    · exact (List.pairwise_cons.1 hs).1 q hq

end

/-- A session is caught when it stalls, and only then, exactly if the first look made the limit after
its counter last went up is one that the watch hears. -/
theorem watched_iff (owner : Foreground) (stall : ℕ) (polls : List Poll)
    (hmono : polls.Pairwise (·.now ≤ ·.now)) :
    Watched owner stall polls ↔ ∀ before p after, polls = before ++ p :: after →
      Stalls stall before p → (Pulse.after stall before).due = false → Noticed stall before p := by
  have times {before after : List Poll} {p : Poll} (heq : polls = before ++ p :: after) :
      (∀ q ∈ before, q.now ≤ p.now) ∧ (before ++ [p]).Pairwise (·.now ≤ ·.now) := by
    rw [heq] at hmono
    refine ⟨fun q hq => (List.pairwise_append.1 hmono).2.2 q hq p (List.mem_cons_self ..), ?_⟩
    rw [List.append_cons] at hmono
    exact (List.pairwise_append.1 hmono).1
  constructor
  · intro h before p after heq hs hd
    have hr := (reported_still (times heq).1 hs.1).1 (h.caught before p after heq hs hd)
    refine ⟨hr.1, fun hu => ?_⟩
    rw [if_pos hu] at hr
    exact hr.2
  · intro h
    refine ⟨fun before p after heq hs hd => ?_, fun before p after heq hr => ?_⟩
    · obtain ⟨hh, hn⟩ := h before p after heq hs hd
      refine (reported_still (times heq).1 hs.1).2 ⟨hh, ?_⟩
      split_ifs with hu
      · exact hn hu
      · exact hs.2
    · have hinc := (reported_iff.1 hr).1
      obtain ⟨hh, hn⟩ := (reported_still (times heq).1 hinc).1 hr
      refine ⟨hinc, ?_⟩
      split_ifs at hn with hu
      · obtain ⟨q, hfind, hle⟩ := hn
        have := still_le (times heq).2 hu (List.mem_of_find?_eq_some hfind)
        omega
      · exact hn

instance (stall : ℕ) (before : List Poll) (p : Poll) : Decidable (Stalls stall before p) :=
  inferInstanceAs (Decidable (_ ∧ _))

/-- A counter that does not move for forty units. -/
def stuck : List Poll := [⟨0, some "1 0"⟩, ⟨40, some "1 0"⟩]

theorem stuck_watched : Watched .home 30 stuck := by
  refine (watched_iff .home 30 stuck (by decide)).2 fun before p after heq hs _ => ?_
  rcases before with _ | ⟨first, _ | ⟨second, rest⟩⟩
  · cases heq
    exact absurd hs (by decide +kernel)
  · cases heq
    exact ⟨by decide +kernel, by decide +kernel⟩
  · simp [stuck] at heq

/-- A counter that does not move, in a file that is garbage by then. -/
def corrupt : List Poll := [⟨0, some "1 0"⟩, ⟨40, some "garbage"⟩, ⟨400, some "garbage"⟩]

/-- The session is never reported. -/
theorem corrupt_not_watched : ¬ ∀ polls : List Poll, polls.Pairwise (·.now ≤ ·.now) →
    Watched .home 30 polls := by
  intro h
  obtain ⟨-, hh, -⟩ := reported_iff.1 ((h corrupt (by decide)).caught [⟨0, some "1 0"⟩]
    ⟨40, some "garbage"⟩ [⟨400, some "garbage"⟩] rfl (by decide +kernel) (by decide +kernel))
  revert hh
  decide +kernel

end Paperclip.Host
