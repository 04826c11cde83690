import Mathlib.Analysis.Real.Sqrt
import Mathlib.Data.List.AList
import Paperclip.Input.Evdev
import Paperclip.Protocol.Message

/-!
# Gesture arbitration

Which pointer events the system claims for itself, and which pass through to the app. Coordinates
are real numbers.

* `GestureDetector.arbitrate`: what an event belongs to, and the histories after it.
* `GestureDetector.confirmPinch`: the escape pinch. `edgeOf`, `inwardTravel`: the edge swipe.
* `Lawful`: a contact is the app's, then one gesture's until it ends, and never at its first event.
* `Turn.IsFair`: a `Down` that makes no contact the system's, and takes none from it.
* `lawful_iff`: the law of a contact is kept exactly where every `Down` is fair.
-/

namespace Paperclip.Compositor

open Protocol Input

/-- A point of the canvas. -/
structure Point where
  x : ℝ
  y : ℝ

/-- How close to an edge an edge swipe begins. -/
def EDGE_ZONE_DEPTH : ℝ := 48

/-- How far inward an edge swipe goes. -/
def EDGE_SWIPE_MIN_TRAVEL : ℝ := 96

/-- How much closer the contacts of an escape pinch draw together. -/
def PINCH_MIN_CLOSING : ℝ := 150

/-- How many contacts an escape pinch takes, at least. -/
def MIN_PINCH_FINGERS : ℕ := 4

/-- One of the edges of the panel. -/
inductive Edge where
  | top
  | bottom
  | left
  | right
  deriving DecidableEq, Repr

/-- A gesture that the system claims for itself. -/
inductive SystemGesture where
  | escape
  | edgeSwipe (edge : Edge)
  deriving DecidableEq, Repr

/-- What a pointer event belongs to. -/
inductive Verdict where
  | system (gesture : SystemGesture)
  | app
  deriving DecidableEq, Repr

/-- The edge that a point is close to, unless it is close to more than one. -/
noncomputable def edgeOf (point : Point) (screen : Size) : Option Edge :=
  let nearTop := decide (point.y ≤ EDGE_ZONE_DEPTH)
  let nearBottom := decide (point.y ≥ screen.height.toNat - EDGE_ZONE_DEPTH)
  let nearLeft := decide (point.x ≤ EDGE_ZONE_DEPTH)
  let nearRight := decide (point.x ≥ screen.width.toNat - EDGE_ZONE_DEPTH)
  match nearTop, nearBottom, nearLeft, nearRight with
  | true, false, false, false => some .top
  | false, true, false, false => some .bottom
  | false, false, true, false => some .left
  | false, false, false, true => some .right
  | _, _, _, _ => none

/-- How far a contact has moved away from an edge. -/
def inwardTravel (origin last : Point) : Edge → ℝ
  | .top => last.y - origin.y
  | .bottom => origin.y - last.y
  | .left => last.x - origin.x
  | .right => origin.x - last.x

noncomputable def distance (a b : Point) : ℝ := √((a.x - b.x) ^ 2 + (a.y - b.y) ^ 2)

/-- The largest of a number and the distances between any two points. -/
noncomputable def maxDistanceFrom (max_ : ℝ) : List Point → ℝ
  | [] => max_
  | point :: rest =>
    maxDistanceFrom (rest.foldl (fun max_ other => max max_ (distance point other)) max_) rest

/-- The largest distance between any two points. -/
noncomputable def maxPairwiseDistance (points : List Point) : ℝ := maxDistanceFrom 0 points

/-- The history of a contact. -/
structure Track where
  pointer : Pointer
  origin : Point
  last : Point
  edge : Option Edge
  claimed : Option SystemGesture

noncomputable def Track.new (event : PointerEvent Point) (screen : Size) : Track where
  pointer := event.pointer
  origin := event.at_
  last := event.at_
  edge := edgeOf event.at_ screen
  claimed := none

/-- Whether an event is the last of its contact. -/
def endsContact : PointerPhase → Bool
  | .up | .cancelled => true
  | _ => false

/-- The gesture arbiter of a panel. -/
structure GestureDetector where
  screen : Size
  contacts : AList fun _ : ContactId => Track

namespace GestureDetector

def new (screen : Size) : GestureDetector := ⟨screen, ∅⟩

/-- Changes the history of a contact that there is. -/
def modify (d : GestureDetector) (contact : ContactId) (f : Track → Track) : GestureDetector :=
  match d.contacts.lookup contact with
  | some track => { d with contacts := d.contacts.insert contact (f track) }
  | none => d

/-- Notes where a contact has begun, or where it has got to. -/
noncomputable def record (d : GestureDetector) (event : PointerEvent Point) : GestureDetector :=
  if event.phase = .down then
    { d with contacts := d.contacts.insert event.contact (.new event d.screen) }
  else d.modify event.contact fun track => { track with last := event.at_ }

def claim (d : GestureDetector) (contact : ContactId) (gesture : SystemGesture) : GestureDetector :=
  d.modify contact fun track => { track with claimed := some gesture }

/-- The touch contacts that nothing has claimed. -/
def unclaimedTouches (d : GestureDetector) : List ContactId :=
  (d.contacts.entries.filter fun entry =>
    entry.2.pointer == .touch && entry.2.claimed.isNone).map (·.1)

/-- Whether there are enough unclaimed touches, and they have closed in far enough. -/
def IsPinched (d : GestureDetector) : Prop :=
  let tracks := d.unclaimedTouches.filterMap fun contact => d.contacts.lookup contact
  MIN_PINCH_FINGERS ≤ d.unclaimedTouches.length ∧
    PINCH_MIN_CLOSING ≤
      maxPairwiseDistance (tracks.map (·.origin)) - maxPairwiseDistance (tracks.map (·.last))

open Classical in
/-- Claims all the unclaimed touches, if they pinch. -/
noncomputable def confirmPinch (d : GestureDetector) : GestureDetector :=
  if d.IsPinched then d.unclaimedTouches.foldl (fun d contact => d.claim contact .escape) d else d

/-- What the events of a contact belong to now. -/
noncomputable def verdict (d : GestureDetector) (contact : ContactId) : Verdict :=
  match d.contacts.lookup contact with
  | some track =>
    match track.claimed with
    | some gesture => .system gesture
    | none =>
      match track.edge with
      | some edge =>
        if EDGE_SWIPE_MIN_TRAVEL ≤ inwardTravel track.origin track.last edge then
          .system (.edgeSwipe edge)
        else .app
      | none => .app
  | none => .app

/-- Classifies an event, and keeps the history of its contact. -/
noncomputable def arbitrate (d : GestureDetector) (event : PointerEvent Point) :
    Verdict × GestureDetector :=
  if event.phase = .hover then (.app, d)
  else
    let d := (d.record event).confirmPinch
    let verdict := d.verdict event.contact
    let d := match verdict with
      | .system gesture => d.claim event.contact gesture
      | .app => d
    let d := if endsContact event.phase then
      { d with contacts := d.contacts.erase event.contact } else d
    (verdict, d)

end GestureDetector

/-- The gesture that an event belongs to, if it is not the app's. -/
def Verdict.gesture? : Verdict → Option SystemGesture
  | system gesture => some gesture
  | app => none

/-! ## Runs -/

/-- An event, what it found, what it belongs to and what it left. -/
structure Turn where
  before : GestureDetector
  event : PointerEvent Point
  verdict : Verdict
  after : GestureDetector

namespace GestureDetector

/-- The turn of a detector at an event. -/
noncomputable def turn (d : GestureDetector) (event : PointerEvent Point) : Turn :=
  ⟨d, event, (d.arbitrate event).1, (d.arbitrate event).2⟩

/-- The turns of a run. -/
noncomputable def turns (d : GestureDetector) : List (PointerEvent Point) → List Turn
  | [] => []
  | event :: rest => d.turn event :: (d.arbitrate event).2.turns rest

/-- The gesture that has claimed a contact. -/
def claimOf (d : GestureDetector) (contact : ContactId) : Option SystemGesture :=
  (d.contacts.lookup contact).bind (·.claimed)

end GestureDetector

/-- Whether a turn is the last of a contact. -/
def Turn.Ends (t : Turn) (contact : ContactId) : Prop :=
  t.event.contact = contact ∧ endsContact t.event.phase

/-- What the verdicts on a contact are. -/
structure Lawful (turns : List Turn) : Prop where
  /-- The first event of a contact is the app's. -/
  down : ∀ t ∈ turns, t.event.phase = .down → t.verdict = .app
  /-- What was one gesture's is this gesture's until the contact ends. -/
  steady : ∀ past t mid u future, turns = past ++ t :: (mid ++ u :: future) →
    t.event.phase ≠ .hover → u.event.phase ≠ .hover → u.event.contact = t.event.contact →
      (∀ x ∈ t :: mid, ¬ x.Ends t.event.contact) →
        ∀ gesture, t.verdict = .system gesture → u.verdict = .system gesture
  /-- A contact that is claimed is claimed until it ends. -/
  kept : ∀ t ∈ turns, ∀ contact gesture, t.before.claimOf contact = some gesture →
    t.Ends contact ∨ t.after.claimOf contact = some gesture

/-- A `Down` is fair if its contact is not the system's, and if it does not complete a pinch that it
is a finger of. -/
def Turn.IsFair (t : Turn) : Prop :=
  t.event.phase = .down → t.before.claimOf t.event.contact = none ∧
    ¬ (t.event.pointer = .touch ∧ (t.before.record t.event).IsPinched)

namespace GestureDetector

variable {d : GestureDetector} {event : PointerEvent Point} {contact c : ContactId}
  {gesture : SystemGesture} {track : Track} {turns past rest mid future : List Turn} {t u : Turn}

/-! ## Claims -/

theorem lookup_modify (f : Track → Track) : (d.modify contact f).contacts.lookup c =
    if c = contact then (d.contacts.lookup c).map f else d.contacts.lookup c := by
  unfold modify
  by_cases hc : c = contact
  · subst hc
    rw [if_pos rfl]
    split
    · next track h => rw [h, Option.map_some, AList.lookup_insert]
    · next h => rw [h, Option.map_none]
  · rw [if_neg hc]
    split
    · exact AList.lookup_insert_ne hc
    · rfl

theorem claimOf_claim_self (h : d.contacts.lookup contact = some track) :
    (d.claim contact gesture).claimOf contact = some gesture := by
  simp [claimOf, claim, lookup_modify, h]

theorem lookup_claim_of_ne (h : c ≠ contact) :
    (d.claim contact gesture).contacts.lookup c = d.contacts.lookup c := by
  rw [claim, lookup_modify, if_neg h]

theorem claimOf_claim_of_ne (h : c ≠ contact) :
    (d.claim contact gesture).claimOf c = d.claimOf c := by
  rw [claimOf, lookup_claim_of_ne h, claimOf]

/-- Only a `Down` makes a contact nobody's. -/
theorem claimOf_record (h : ¬ (event.phase = .down ∧ c = event.contact)) :
    (d.record event).claimOf c = d.claimOf c := by
  unfold record
  split
  · next hdown =>
    have hc : c ≠ event.contact := fun hc => h ⟨hdown, hc⟩
    simp only [claimOf, AList.lookup_insert_ne hc]
  · rw [claimOf, lookup_modify]
    split
    · cases hl : d.contacts.lookup c <;> simp [claimOf, hl]
    · rfl

theorem lookup_record_down (h : event.phase = .down) :
    (d.record event).contacts.lookup event.contact = some (.new event d.screen) := by
  rw [record, if_pos h]
  exact AList.lookup_insert _

theorem mem_unclaimedTouches : c ∈ d.unclaimedTouches ↔
    ∃ track, d.contacts.lookup c = some track ∧ track.pointer = .touch ∧ track.claimed = none := by
  simp only [unclaimedTouches, List.mem_map, List.mem_filter, Bool.and_eq_true, beq_iff_eq,
    Option.isNone_iff_eq_none]
  constructor
  · rintro ⟨⟨_, track⟩, ⟨hm, htouch, hnone⟩, rfl⟩
    exact ⟨track, AList.mem_lookup_iff.mpr hm, htouch, hnone⟩
  · rintro ⟨track, hl, htouch, hnone⟩
    exact ⟨⟨c, track⟩, ⟨AList.mem_lookup_iff.mp hl, htouch, hnone⟩, rfl⟩

section Pinch

variable {contacts : List ContactId}

/-- What nothing claims is as it was. -/
theorem lookup_claims (h : c ∉ contacts) :
    (contacts.foldl (fun d contact => d.claim contact .escape) d).contacts.lookup c =
      d.contacts.lookup c := by
  induction contacts generalizing d with
  | nil => rfl
  | cons contact contacts ih =>
    rw [List.mem_cons, not_or] at h
    rw [List.foldl_cons, ih h.2, lookup_claim_of_ne h.1]

theorem claimOf_claims (h : (d.contacts.lookup c).isSome) (hc : c ∈ contacts) :
    (contacts.foldl (fun d contact => d.claim contact .escape) d).claimOf c = some .escape := by
  induction contacts generalizing d with
  | nil => exact absurd hc List.not_mem_nil
  | cons contact contacts ih =>
    rw [List.foldl_cons]
    have hsome : ((d.claim contact .escape).contacts.lookup c).isSome := by
      rw [claim, lookup_modify]
      split <;> simpa using h
    by_cases hm : c ∈ contacts
    · exact ih hsome hm
    · obtain rfl : c = contact := by simpa [hm] using hc
      obtain ⟨track, ht⟩ := Option.isSome_iff_exists.mp h
      rw [claimOf, lookup_claims hm]
      exact claimOf_claim_self ht

/-- A pinch takes nothing that is claimed. -/
theorem claimOf_confirmPinch (h : d.claimOf c = some gesture) :
    d.confirmPinch.claimOf c = some gesture := by
  unfold confirmPinch
  split
  · have hm : c ∉ d.unclaimedTouches := by
      rw [mem_unclaimedTouches]
      rintro ⟨track, hl, -, hnone⟩
      rw [claimOf, hl, Option.bind_some, hnone] at h
      cases h
    rw [claimOf, lookup_claims hm]
    exact h
  · exact h

end Pinch

/-! ## Verdicts -/

theorem verdict_of_claimOf (h : d.claimOf c = some gesture) : d.verdict c = .system gesture := by
  unfold verdict
  cases hl : d.contacts.lookup c with
  | none => simp [claimOf, hl] at h
  | some track =>
    rw [claimOf, hl, Option.bind_some] at h
    simp only [h]

/-- What is the app's is claimed by nothing, and what is not is the history of a contact. -/
theorem verdict_cases : (d.verdict c = .app ∧ d.claimOf c = none) ∨
    ∃ gesture track, d.verdict c = .system gesture ∧ d.contacts.lookup c = some track := by
  cases hv : d.verdict c with
  | app =>
    refine .inl ⟨rfl, ?_⟩
    by_contra hclaim
    obtain ⟨gesture, hg⟩ := Option.ne_none_iff_exists'.mp hclaim
    rw [verdict_of_claimOf hg] at hv
    cases hv
  | system gesture =>
    cases hl : d.contacts.lookup c with
    | none => simp [verdict, hl] at hv
    | some track => exact .inr ⟨gesture, track, rfl, rfl⟩

/-- A contact that has not moved is the app's. -/
theorem verdict_new {screen : Size} (h : d.contacts.lookup c = some (.new event screen)) :
    d.verdict c = .app := by
  have hstill : ∀ edge, ¬ EDGE_SWIPE_MIN_TRAVEL ≤ inwardTravel event.at_ event.at_ edge := by
    intro edge
    cases edge <;> norm_num [inwardTravel, EDGE_SWIPE_MIN_TRAVEL]
  unfold verdict
  simp only [h, Track.new]
  split
  · next edge _ => rw [if_neg (hstill edge)]
  · rfl

/-! ## Turns -/

theorem arbitrate_hover (h : event.phase = .hover) : d.arbitrate event = (.app, d) := by
  rw [arbitrate, if_pos h]

theorem arbitrate_verdict (h : event.phase ≠ .hover) :
    (d.arbitrate event).1 = (d.record event).confirmPinch.verdict event.contact := by
  rw [arbitrate, if_neg h]

/-- The contact of an event is claimed by what the event belongs to. -/
theorem claimOf_arbitrate_self (h : event.phase ≠ .hover) (hends : endsContact event.phase = false) :
    (d.arbitrate event).2.claimOf event.contact = (d.arbitrate event).1.gesture? := by
  rw [arbitrate, if_neg h]
  dsimp only
  rw [hends]
  rcases @verdict_cases (d.record event).confirmPinch event.contact with
    ⟨hv, hclaim⟩ | ⟨gesture, track, hv, hl⟩
  · rw [hv]
    exact hclaim
  · rw [hv]
    exact claimOf_claim_self hl

/-- Other contacts are claimed by a pinch only. -/
theorem claimOf_arbitrate_of_ne (h : event.phase ≠ .hover) (hc : c ≠ event.contact) :
    (d.arbitrate event).2.claimOf c = (d.record event).confirmPinch.claimOf c := by
  rw [arbitrate, if_neg h]
  dsimp only
  have herase : ∀ d : GestureDetector, (if endsContact event.phase then
      { d with contacts := d.contacts.erase event.contact } else d).claimOf c = d.claimOf c := by
    intro d
    split
    · simp only [claimOf, AList.lookup_erase_ne hc]
    · rfl
  rw [herase]
  split
  · exact claimOf_claim_of_ne hc
  · rfl

/-- A claim of a contact that the event does not begin over survives the event's pinch. -/
theorem claimOf_confirmed (h : d.claimOf c = some gesture)
    (hfair : ¬ (event.phase = .down ∧ c = event.contact)) :
    (d.record event).confirmPinch.claimOf c = some gesture :=
  claimOf_confirmPinch ((claimOf_record hfair).trans h)

/-- An event of a contact that is claimed belongs to what has claimed it. -/
theorem verdict_of_claimed (h : d.claimOf event.contact = some gesture)
    (hphase : event.phase ≠ .hover) (hdown : event.phase ≠ .down) :
    (d.arbitrate event).1 = .system gesture := by
  rw [arbitrate_verdict hphase]
  exact verdict_of_claimOf (claimOf_confirmed h fun hd => hdown hd.1)

/-- A fair event takes no contact from the system before it ends. -/
theorem claimOf_of_fair (hfair : (d.turn event).IsFair) (h : d.claimOf c = some gesture) :
    (d.turn event).Ends c ∨ (d.arbitrate event).2.claimOf c = some gesture := by
  by_cases hphase : event.phase = .hover
  · exact .inr (by rw [arbitrate_hover hphase]; exact h)
  have hdown : ¬ (event.phase = .down ∧ c = event.contact) := by
    rintro ⟨hd, rfl⟩
    have hnone : d.claimOf event.contact = none := (hfair hd).1
    rw [hnone] at h
    cases h
  by_cases hc : c = event.contact
  · subst hc
    by_cases hends : endsContact event.phase = true
    · exact .inl ⟨rfl, hends⟩
    · refine .inr ?_
      rw [claimOf_arbitrate_self hphase (by simpa using hends),
        verdict_of_claimed h hphase fun hd => hdown ⟨hd, rfl⟩]
      rfl
  · exact .inr ((claimOf_arbitrate_of_ne hphase hc).trans (claimOf_confirmed h hdown))

/-- A fair `Down` is the app's. -/
theorem verdict_of_fair (hfair : (d.turn event).IsFair) (hdown : event.phase = .down) :
    (d.arbitrate event).1 = .app := by
  rw [arbitrate_verdict (by rw [hdown]; simp)]
  obtain ⟨-, hpinch⟩ := hfair hdown
  have hlookup : (d.record event).confirmPinch.contacts.lookup event.contact =
      some (.new event d.screen) := by
    unfold confirmPinch
    split
    · next hpinched =>
      have hm : event.contact ∉ (d.record event).unclaimedTouches := by
        rw [mem_unclaimedTouches]
        rintro ⟨track, hl, htouch, -⟩
        rw [lookup_record_down hdown, Option.some.injEq] at hl
        subst hl
        exact hpinch ⟨htouch, hpinched⟩
      rw [lookup_claims hm]
      exact lookup_record_down hdown
    · exact lookup_record_down hdown
  exact verdict_new hlookup

/-- A `Down` that completes a pinch is the pinch's. -/
theorem verdict_of_pinched (hdown : event.phase = .down) (htouch : event.pointer = .touch)
    (hpinched : (d.record event).IsPinched) : (d.arbitrate event).1 = .system .escape := by
  have hm : event.contact ∈ (d.record event).unclaimedTouches :=
    mem_unclaimedTouches.mpr ⟨_, lookup_record_down hdown, htouch, rfl⟩
  have hclaim : (d.record event).confirmPinch.claimOf event.contact = some .escape := by
    rw [confirmPinch, if_pos hpinched]
    exact claimOf_claims (by rw [lookup_record_down hdown]; rfl) hm
  rw [arbitrate_verdict (by rw [hdown]; simp)]
  exact verdict_of_claimOf hclaim

/-- A `Down` that is not fair is the system's, or takes its contact from the system. -/
theorem unfair_breaks (hdown : event.phase = .down) (happ : (d.arbitrate event).1 = .app)
    (hkept : ∀ gesture, d.claimOf event.contact = some gesture →
      (d.turn event).Ends event.contact ∨ (d.arbitrate event).2.claimOf event.contact = some gesture) :
    (d.turn event).IsFair := by
  intro _
  have hphase : event.phase ≠ .hover := by rw [hdown]; simp
  have hends : endsContact event.phase = false := by rw [hdown]; rfl
  constructor
  · by_contra hclaim
    obtain ⟨gesture, hg⟩ := Option.ne_none_iff_exists'.mp hclaim
    rcases hkept gesture hg with ⟨-, h⟩ | h
    · rw [show (d.turn event).event.phase = event.phase from rfl, hends] at h
      cases h
    · rw [claimOf_arbitrate_self hphase hends, happ] at h
      cases h
  · rintro ⟨htouch, hpinched⟩
    have hescape : (d.arbitrate event).1 = .system .escape :=
      verdict_of_pinched hdown htouch hpinched
    rw [hescape] at happ
    cases happ

/-! ## All runs -/

theorem turns_eq_append {events : List (PointerEvent Point)} (h : d.turns events = past ++ rest) :
    ∃ (d' : GestureDetector) (events' : List (PointerEvent Point)), d'.turns events' = rest := by
  induction past generalizing d events with
  | nil => exact ⟨d, events, h⟩
  | cons t past ih =>
    cases events with
    | nil => cases h
    | cons event events => exact ih (List.cons.inj h).2

theorem turns_eq_cons {events : List (PointerEvent Point)} (h : d.turns events = t :: rest) :
    ∃ event events', t = d.turn event ∧ t.after.turns events' = rest := by
  cases events with
  | nil => cases h
  | cons event events =>
    obtain ⟨rfl, hrest⟩ := List.cons.inj h
    exact ⟨event, events, rfl, hrest⟩

theorem mem_turns {events : List (PointerEvent Point)} (h : t ∈ d.turns events) :
    ∃ (d' : GestureDetector) (event : PointerEvent Point), t = d'.turn event := by
  obtain ⟨past, future, h⟩ := List.append_of_mem h
  obtain ⟨d', events', h⟩ := turns_eq_append h
  obtain ⟨event, -, ht, -⟩ := turns_eq_cons h
  exact ⟨d', event, ht⟩

/-- A claim is there until the contact ends. -/
theorem claimOf_mid {events : List (PointerEvent Point)}
    (h : d.turns events = mid ++ u :: future) (hfair : ∀ t ∈ d.turns events, t.IsFair)
    (hmid : ∀ x ∈ mid, ¬ x.Ends c) (hclaim : d.claimOf c = some gesture) :
    u.before.claimOf c = some gesture := by
  induction mid generalizing d events with
  | nil =>
    obtain ⟨event, -, rfl, -⟩ := turns_eq_cons h
    exact hclaim
  | cons x mid ih =>
    obtain ⟨event, events', rfl, hrest⟩ := turns_eq_cons h
    have hx : (d.turn event).IsFair := hfair _ (h ▸ List.mem_cons_self)
    have hafter := (claimOf_of_fair hx hclaim).resolve_left (hmid _ List.mem_cons_self)
    refine ih hrest (fun t ht => hfair t ?_) (fun x hx => hmid x (List.mem_cons_of_mem _ hx)) hafter
    rw [h]
    exact List.mem_cons_of_mem _ (hrest ▸ ht)

end GestureDetector

open GestureDetector in
/-- The law of a contact is kept in a run exactly if every `Down` of it is fair. -/
theorem lawful_iff (screen : Size) (events : List (PointerEvent Point)) :
    Lawful ((GestureDetector.new screen).turns events) ↔
      ∀ t ∈ (GestureDetector.new screen).turns events, t.IsFair := by
  constructor
  · intro h t ht hdown
    obtain ⟨d, event, rfl⟩ := mem_turns ht
    exact unfair_breaks hdown (h.down _ ht hdown) (fun gesture => h.kept _ ht _ gesture) hdown
  · intro hfair
    refine ⟨fun t ht hdown => ?_, ?_, fun t ht c gesture hclaim => ?_⟩
    · obtain ⟨d, event, rfl⟩ := mem_turns ht
      exact verdict_of_fair (hfair _ ht) hdown
    · intro past t mid u future hturns hphase hu hcontact hlive gesture hverdict
      obtain ⟨d, events', h⟩ := turns_eq_append hturns
      obtain ⟨event, events'', rfl, hrest⟩ := turns_eq_cons h
      have hends : endsContact event.phase = false := by
        have := hlive _ List.mem_cons_self
        simpa [Turn.Ends, turn] using this
      have hclaim : (d.arbitrate event).2.claimOf event.contact = some gesture :=
        (claimOf_arbitrate_self (d := d) hphase hends).trans
          (congrArg Verdict.gesture? hverdict)
      have hsub : ∀ t ∈ (d.turn event).after.turns events'',
          t ∈ (GestureDetector.new screen).turns events := by
        intro t ht
        rw [hturns]
        exact List.mem_append_right _ (List.mem_cons_of_mem _ (hrest ▸ ht))
      have hbefore := claimOf_mid hrest (fun t ht => hfair t (hsub t ht))
        (fun x hx => hlive x (List.mem_cons_of_mem _ hx)) hclaim
      have humem : u ∈ (GestureDetector.new screen).turns events := by
        rw [hturns]
        simp
      obtain ⟨d', event', rfl⟩ := mem_turns humem
      have hclaimed : d'.claimOf event'.contact = some gesture := by
        rw [show event'.contact = event.contact from hcontact]
        exact hbefore
      refine verdict_of_claimed hclaimed hu fun hdown => ?_
      have hnone : d'.claimOf event'.contact = none := (hfair _ humem hdown).1
      rw [hnone] at hclaimed
      cases hclaimed
    · obtain ⟨d, event, rfl⟩ := mem_turns ht
      exact claimOf_of_fair (hfair _ ht) hclaim

/-! ## A pinch that a fourth finger completes -/

namespace Sample

open GestureDetector

def SCREEN : Size := ⟨1620, 2160⟩

/-- A touch half-way down the screen. -/
noncomputable def touch (x : ℝ) (phase : PointerPhase) (contact : UInt64) : PointerEvent Point :=
  .new ⟨x, 1000⟩ phase .touch ⟨contact⟩

/-- Three fingers come down far from each other, and close in. -/
noncomputable def closing : List (PointerEvent Point) :=
  [touch 300 .down 0, touch 800 .down 1, touch 1300 .down 2, touch 800 .moved 0, touch 800 .moved 1,
    touch 800 .moved 2]

/-- The histories of the three fingers. -/
noncomputable def closed : GestureDetector := closing.foldl record (.new SCREEN)

/-- A point that is far from all edges is close to none. -/
theorem edgeOf_far {point : Point} {screen : Size} (htop : ¬ point.y ≤ EDGE_ZONE_DEPTH)
    (hbottom : ¬ point.y ≥ screen.height.toNat - EDGE_ZONE_DEPTH)
    (hleft : ¬ point.x ≤ EDGE_ZONE_DEPTH)
    (hright : ¬ point.x ≥ screen.width.toNat - EDGE_ZONE_DEPTH) : edgeOf point screen = none := by
  unfold edgeOf
  rw [decide_eq_false htop, decide_eq_false hbottom, decide_eq_false hleft, decide_eq_false hright]

theorem edgeOf_middle {x : ℝ} (hleft : 48 < x) (hright : x < 1572) :
    edgeOf ⟨x, 1000⟩ SCREEN = none := by
  have hheight : SCREEN.height.toNat = 2160 := rfl
  have hwidth : SCREEN.width.toNat = 1620 := rfl
  refine edgeOf_far ?_ ?_ ?_ ?_
  · norm_num [EDGE_ZONE_DEPTH]
  · norm_num [EDGE_ZONE_DEPTH, hheight]
  · simpa [EDGE_ZONE_DEPTH] using hleft
  · rw [hwidth, EDGE_ZONE_DEPTH]
    norm_num
    linarith

/-- All contacts are the app's, and began far from all edges. -/
def Idle (d : GestureDetector) : Prop :=
  d.screen = SCREEN ∧ ∀ c track, d.contacts.lookup c = some track →
    track.claimed = none ∧ track.edge = none

variable {d : GestureDetector} {x : ℝ} {phase : PointerPhase} {contact : UInt64}

theorem Idle.record (h : Idle d) (hleft : 48 < x) (hright : x < 1572) :
    Idle (d.record (touch x phase contact)) := by
  obtain ⟨hscreen, hidle⟩ := h
  unfold GestureDetector.record
  split
  · refine ⟨hscreen, fun c track hl => ?_⟩
    by_cases hc : c = ⟨contact⟩
    · subst hc
      rw [show (touch x phase contact).contact = ⟨contact⟩ from rfl, AList.lookup_insert,
        Option.some.injEq] at hl
      subst hl
      refine ⟨rfl, ?_⟩
      rw [hscreen]
      exact edgeOf_middle hleft hright
    · rw [AList.lookup_insert_ne (show c ≠ (touch x phase contact).contact from hc)] at hl
      exact hidle c track hl
  · refine ⟨?_, fun c track hl => ?_⟩
    · unfold GestureDetector.modify
      split <;> exact hscreen
    · rw [lookup_modify] at hl
      split at hl
      · obtain ⟨track', hl', rfl⟩ := Option.map_eq_some_iff.mp hl
        exact hidle c track' hl'
      · exact hidle c track hl

/-- Fewer than four idle fingers are the app's. -/
theorem Idle.arbitrate (h : Idle (d.record (touch x phase contact)))
    (hphase : phase = .down ∨ phase = .moved)
    (hfew : (d.record (touch x phase contact)).contacts.entries.length < MIN_PINCH_FINGERS) :
    d.arbitrate (touch x phase contact) = (.app, d.record (touch x phase contact)) := by
  have hpinch : ¬ (d.record (touch x phase contact)).IsPinched := by
    rintro ⟨hmany, -⟩
    rw [unclaimedTouches, List.length_map] at hmany
    exact absurd (hmany.trans (List.length_filter_le _ _)) (not_le.mpr hfew)
  have hverdict : (d.record (touch x phase contact)).verdict ⟨contact⟩ = .app := by
    unfold verdict
    cases hl : (d.record (touch x phase contact)).contacts.lookup ⟨contact⟩ with
    | none => rfl
    | some track =>
      obtain ⟨hclaimed, hedge⟩ := h.2 _ track hl
      simp only [hclaimed, hedge]
  have hhover : ¬ (touch x phase contact).phase = .hover := by
    rcases hphase with rfl | rfl <;> simp [touch, PointerEvent.new]
  have hends : endsContact (touch x phase contact).phase = false := by
    rcases hphase with rfl | rfl <;> rfl
  rw [GestureDetector.arbitrate, if_neg hhover, confirmPinch, if_neg hpinch]
  dsimp only
  rw [show (touch x phase contact).contact = ⟨contact⟩ from rfl, hverdict, hends]
  rfl

/-- The three fingers are the app's while they close in. -/
theorem turns_closing (event : PointerEvent Point) :
    closed.turn event ∈ (GestureDetector.new SCREEN).turns (closing ++ [event]) := by
  have h₀ : Idle (.new SCREEN) := ⟨rfl, fun c track h => by cases h⟩
  have h₁ := @Idle.record _ 300 .down 0 h₀ (by norm_num) (by norm_num)
  have h₂ := @Idle.record _ 800 .down 1 h₁ (by norm_num) (by norm_num)
  have h₃ := @Idle.record _ 1300 .down 2 h₂ (by norm_num) (by norm_num)
  have h₄ := @Idle.record _ 800 .moved 0 h₃ (by norm_num) (by norm_num)
  have h₅ := @Idle.record _ 800 .moved 1 h₄ (by norm_num) (by norm_num)
  have h₆ := @Idle.record _ 800 .moved 2 h₅ (by norm_num) (by norm_num)
  simp only [closing, List.cons_append, List.nil_append, turns,
    h₁.arbitrate (.inl rfl) (show 1 < 4 by norm_num),
    h₂.arbitrate (.inl rfl) (show 2 < 4 by norm_num),
    h₃.arbitrate (.inl rfl) (show 3 < 4 by norm_num),
    h₄.arbitrate (.inr rfl) (show 3 < 4 by norm_num),
    h₅.arbitrate (.inr rfl) (show 3 < 4 by norm_num),
    h₆.arbitrate (.inr rfl) (show 3 < 4 by norm_num)]
  iterate 6 refine List.mem_cons_of_mem _ ?_
  exact List.mem_singleton.mpr rfl

theorem distance_level (a b : ℝ) : distance ⟨a, 1000⟩ ⟨b, 1000⟩ = |a - b| := by
  simp [distance, Real.sqrt_sq_eq_abs]

/-- A fourth finger comes down where the three have closed in. -/
theorem pinched : (closed.record (touch 800 .down 3)).IsPinched := by
  refine ⟨show 4 ≤ 4 from le_rfl, ?_⟩
  show 150 ≤ maxPairwiseDistance [⟨800, 1000⟩, ⟨1300, 1000⟩, ⟨800, 1000⟩, ⟨300, 1000⟩] -
    maxPairwiseDistance [⟨800, 1000⟩, ⟨800, 1000⟩, ⟨800, 1000⟩, ⟨800, 1000⟩]
  simp only [maxPairwiseDistance, maxDistanceFrom, List.foldl, distance_level]
  norm_num

end Sample

/-- The first event of a fourth finger is the system's. -/
theorem fourth_finger_is_claimed : ¬ ∀ (screen : Size) (events : List (PointerEvent Point)),
    Lawful ((GestureDetector.new screen).turns events) := by
  intro h
  have happ := (h Sample.SCREEN (Sample.closing ++ [Sample.touch 800 .down 3])).down _
    (Sample.turns_closing _) rfl
  have hescape := GestureDetector.verdict_of_pinched rfl rfl Sample.pinched
  cases hescape.symm.trans happ

end Paperclip.Compositor
