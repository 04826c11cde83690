import Mathlib.Data.List.Perm.Basic
import Mathlib.Algebra.Field.Rat
import Mathlib.Algebra.Order.Ring.Unbundled.Rat
import Paperclip.AppStore.App

/-!
# One change at a time

The App Store with its workers: what is pressed, what the workers say, and the queue between them in
any order.

* `Session`: the app, the requests that workers are at, and what they said that is not delivered.
* `Session.perform`: a press, a worker's word, or the delivery of one.
* `Session.unfinished`: the apps with a change that was accepted and whose outcome is not folded in.
* `OneChange`: a change is accepted only with none unfinished, and the screen shows the unfinished
  one.
* `Session.Strays`: the failure of a request that only reads is delivered during a change.
* `one_change`: a run without that has one change at a time.
-/

namespace Paperclip.AppStore

open Packages Sdk

/-- What a worker may answer. -/
def Request.answered : Request → Outcome → Bool
  | .refresh, .refreshed _ => true
  | .refresh, .failed none _ _ => true
  | .notes app _, .notes app' _ => app' = app
  | .notes app _, .failed (some app') _ _ => app' = app
  | .install app _, .installed app' _ => app' = app
  | .install app _, .failed (some app') _ _ => app' = app
  | .rollback app, .rolledBack app' _ => app' = app
  | .rollback app, .failed (some app') _ _ => app' = app
  | _, _ => false

/-- The app, its workers, and what they said. -/
structure Session (K : Type) where
  app : AppStoreApp K
  running : List Request
  queue : List (Request × Completion)
  deriving DecidableEq

/-- What happens next. -/
inductive Act (K : Type) where
  | pointer (pointer : PointerEvent K)
  /-- A message that changes nothing, or a frame. -/
  | other
  | report (index : ℕ) (step : String) (percent : Option ℕ)
  | finish (index : ℕ) (outcome : Outcome)
  | deliver
  deriving DecidableEq

/-- The change that a word of a worker ends. -/
def ends (word : Request × Completion) : Option AppId :=
  match word.2 with
  | .progress _ _ => none
  | .done _ => word.1.changes

namespace Session

/-- A session that begins. -/
def start {K : Type} (inventory : Inventory) : Session K := ⟨.new (.new inventory), [], []⟩

/-- The changes that were accepted and whose outcome is not folded in. -/
def unfinished {K : Type} (s : Session K) : List AppId :=
  s.running.filterMap Request.changes ++ s.queue.filterMap ends

section

variable {K : Type} [Field K] [LinearOrder K] (bounds : Protocol.Size)

/-- One step. Only an install reports the steps on its way. -/
def perform (s : Session K) : Act K → Option (Session K)
  | .pointer pointer =>
    let reaction := s.app.event bounds (.pointer pointer)
    some ⟨reaction.app, s.running ++ reaction.dispatched.toList, s.queue⟩
  | .other => some { s with app := (s.app.event bounds .other).app }
  | .report index step percent =>
    match s.running[index]? with
    | some (.install app version) =>
      some { s with queue := s.queue ++ [(.install app version, .progress step percent)] }
    | _ => none
  | .finish index outcome =>
    match s.running[index]? with
    | none => none
    | some request =>
      if request.answered outcome then
        some { s with running := s.running.eraseIdx index
                      queue := s.queue ++ [(request, .done outcome)] }
      else none
  | .deliver =>
    match s.queue with
    | [] => none
    | word :: rest => some ⟨(s.app.event bounds (.completed word.2)).app, s.running, rest⟩

/-- The steps in order. -/
def performs (s : Session K) : List (Act K) → Option (Session K)
  | [] => some s
  | act :: rest => do
    let s' ← s.perform bounds act
    s'.performs rest

/-- The sessions that steps of a kind lead to. -/
inductive Reaches (allowed : Session K → Act K → Prop) (s : Session K) : Session K → Prop where
  | refl : Reaches allowed s s
  | step {s' s'' : Session K} {act : Act K} (h : Reaches allowed s s') (ha : allowed s' act)
      (hs : s'.perform bounds act = some s'') : Reaches allowed s s''

end

/-- The failure of a request that only reads is delivered while a change is unfinished. -/
def Strays {K : Type} (s : Session K) (act : Act K) : Prop :=
  act = .deliver ∧ s.unfinished ≠ [] ∧
    ∃ request app message advice rest, request.changes = none ∧
      s.queue = (request, .done (.failed app message advice)) :: rest

end Session

/-- A change is accepted only with every change before it finished, and the screen says which one is
unfinished. -/
structure OneChange {K : Type} (s : Session K) : Prop where
  accepts : ∀ request app, request.changes = some app →
    (s.app.screen.begin_ request).1 = true → s.unfinished = []
  one : s.unfinished.length ≤ 1
  working : ∀ app, s.app.screen.busy = some app ↔ app ∈ s.unfinished

/-- The unfinished change is the one that the screen shows, and workers answer what they were
asked. -/
structure Session.Sound {K : Type} (s : Session K) : Prop where
  unfinished : s.unfinished = s.app.screen.busy.toList
  answered : ∀ request outcome, (request, Completion.done outcome) ∈ s.queue →
    request.answered outcome = true

/-- A reaction hands over a change just as it goes into flight. -/
def Reaction.Fair {K : Type} (screen : AppStoreScreen) (reaction : Reaction K) : Prop :=
  reaction.app.screen.busy.toList =
    screen.busy.toList ++ (reaction.dispatched.bind Request.changes).toList

section

variable {K : Type} {app : AppStoreApp K}

theorem fair_ignored : app.ignored.Fair app.screen := (List.append_nil _).symm

/-- What does not touch the operation in flight and hands over no change. -/
theorem Reaction.Fair.of_busy {screen : AppStoreScreen} {reaction : Reaction K}
    (hb : reaction.app.screen.busy = screen.busy)
    (hd : ∀ request, reaction.dispatched = some request → request.changes = none) :
    reaction.Fair screen := by
  have hn : reaction.dispatched.bind Request.changes = none := by
    rcases h : reaction.dispatched with _ | request
    · rfl
    · exact hd request h
  rw [Reaction.Fair, hb, hn, Option.toList_none, List.append_nil]

theorem fair_start {request : Request} {changed : AppId} (h : request.changes = some changed)
    (row : Option (Rect K)) : (app.start request row).Fair app.screen := by
  unfold AppStoreApp.start
  rw [AppStoreScreen.begin_of_changes h]
  by_cases hw : app.screen.working.isSome
  · rw [if_pos hw]
    exact fair_ignored
  · rw [if_neg hw]
    have hb : app.screen.busy = none :=
      AppStoreScreen.busy_eq_none.2 (Option.not_isSome_iff_eq_none.1 hw)
    rw [Reaction.Fair, hb]
    dsimp only [Option.bind_some]
    rw [h]
    rfl

end

section

variable {K : Type} [Field K] [LinearOrder K] {app : AppStoreApp K} {bounds : Protocol.Size}

theorem fair_pressList (list : ListLayout K) (at_ : PointerEvent K) :
    (app.pressList list at_).Fair app.screen := by
  unfold AppStoreApp.pressList
  split
  · refine .of_busy rfl fun request hr => ?_
    obtain rfl := Option.some.inj hr
    rfl
  · split
    · split
      · exact fair_ignored
      · split
        · exact fair_ignored
        · next hp => exact fair_start (AppStoreScreen.changes_primaryAction hp) _
    · split
      · exact fair_ignored
      · split
        · exact fair_ignored
        · exact .of_busy (AppStoreScreen.busy_open _) fun _ => AppStoreScreen.changes_open

theorem fair_pressDetail (showing : AppId) (detail : DetailLayout K) (at_ : PointerEvent K) :
    (app.pressDetail showing detail at_).Fair app.screen := by
  unfold AppStoreApp.pressDetail
  split
  · refine .of_busy AppStoreScreen.busy_back fun request hr => ?_
    cases hr
  · split
    · next hp => exact fair_start (AppStoreScreen.changes_primaryAction hp) _
    · split
      · exact fair_start rfl _
      · exact fair_ignored

theorem fair_press (pointer : PointerEvent K) : (app.press bounds pointer).Fair app.screen := by
  unfold AppStoreApp.press
  split
  · exact fair_ignored
  · split
    · exact fair_pressList _ _
    · exact fair_pressDetail _ _ _

end

section

variable {K : Type} {s : Session K} {app : AppStoreApp K}

theorem length_toList (o : Option AppId) : o.toList.length ≤ 1 := by
  cases o with
  | none => exact Nat.zero_le _
  | some app => exact Nat.le_refl _

/-- A change goes in flight at the end of the list, which is empty then. -/
theorem append_middle {before after : Option AppId} {added : Option AppId} {a b : List AppId}
    (h : a ++ b = before.toList) (hf : after.toList = before.toList ++ added.toList) :
    (a ++ added.toList) ++ b = after.toList := by
  cases added with
  | none => rw [hf, Option.toList_none, List.append_nil, List.append_nil, h]
  | some app =>
    have hl := length_toList after
    rw [hf, List.length_append, Option.toList_some, List.length_singleton] at hl
    have hn : before.toList = [] := List.length_eq_zero_iff.1 (by omega)
    obtain ⟨rfl, rfl⟩ := List.append_eq_nil_iff.1 (h.trans hn)
    rw [hf, hn, List.append_nil]

/-- Two orders of at most one change are the same. -/
theorem eq_toList_of_perm {a b : List AppId} {o : Option AppId} (hp : a.Perm b)
    (h : b = o.toList) : a = o.toList := by
  subst h
  cases o with
  | none => exact List.perm_nil.1 hp
  | some app => exact List.perm_singleton.1 hp

/-- What holds of a session with one change at most. -/
theorem Session.Sound.oneChange (h : s.Sound) : OneChange s := by
  refine ⟨fun request app hc hb => ?_, ?_, fun app => ?_⟩
  · rw [AppStoreScreen.begin_of_changes hc] at hb
    split at hb
    · cases hb
    · next hw =>
      rw [h.unfinished, AppStoreScreen.busy_eq_none.2 (Option.not_isSome_iff_eq_none.1 hw),
        Option.toList_none]
  · rw [h.unfinished]
    exact length_toList _
  · rw [h.unfinished, Option.mem_toList]

theorem Session.Sound.start (inventory : Inventory) : (Session.start inventory : Session K).Sound :=
  ⟨rfl, fun _ _ h => by cases h⟩

/-- A word that is no outcome is added. -/
theorem Session.Sound.report (h : s.Sound) (request : Request) (step : String)
    (percent : Option ℕ) :
    Session.Sound { s with queue := s.queue ++ [(request, .progress step percent)] } := by
  refine ⟨?_, fun request' outcome hm => ?_⟩
  · have hq : (s.queue ++ [(request, Completion.progress step percent)]).filterMap ends =
        s.queue.filterMap ends := by
      rw [List.filterMap_append]
      exact List.append_nil _
    rw [← h.unfinished, Session.unfinished, Session.unfinished, hq]
  · rcases List.mem_append.1 hm with hm | hm
    · exact h.answered _ _ hm
    · cases List.mem_singleton.1 hm

/-- A worker ends, and what it answers waits. -/
theorem Session.Sound.finish (h : s.Sound) {index : ℕ} {request : Request} {outcome : Outcome}
    (hi : s.running[index]? = some request) (ha : request.answered outcome = true) :
    Session.Sound { s with running := s.running.eraseIdx index
                           queue := s.queue ++ [(request, .done outcome)] } := by
  refine ⟨?_, fun request' outcome' hm => ?_⟩
  · refine eq_toList_of_perm ?_ h.unfinished
    obtain ⟨hlt, hget⟩ := List.getElem?_eq_some_iff.1 hi
    have hp : (request :: s.running.eraseIdx index).Perm s.running := by
      rw [← hget]
      exact List.getElem_cons_eraseIdx_perm hlt
    have hf := hp.filterMap Request.changes
    unfold Session.unfinished
    refine .trans ?_ (hf.append_right _)
    rw [List.filterMap_append, ← List.append_assoc]
    refine List.perm_append_comm.trans ?_
    rw [← List.append_assoc]
    refine List.Perm.append_right _ ?_
    rw [← List.singleton_append (l := s.running.eraseIdx index), List.filterMap_append]
    exact List.Perm.refl _
  · rcases List.mem_append.1 hm with hm | hm
    · exact h.answered _ _ hm
    · cases List.mem_singleton.1 hm
      exact ha

/-- An outcome that answers a change ends what is in flight. -/
theorem busy_apply_of_changes {screen : AppStoreScreen} {request : Request} {outcome : Outcome}
    (ha : request.answered outcome = true) (hc : request.changes.isSome) :
    (screen.apply outcome).busy = none := by
  rw [AppStoreScreen.busy_apply]
  cases request with
  | refresh => cases hc
  | notes app version => cases hc
  | install app version =>
    cases outcome with
    | refreshed inventory => cases ha
    | notes app text => cases ha
    | installed app version => rfl
    | rolledBack app version => rfl
    | failed app message advice => rfl
  | rollback app =>
    cases outcome with
    | refreshed inventory => cases ha
    | notes app text => cases ha
    | installed app version => rfl
    | rolledBack app version => rfl
    | failed app message advice => rfl

/-- An outcome of what only reads leaves what is in flight, unless it is a failure. -/
theorem busy_apply_of_reads (screen : AppStoreScreen) {request : Request} {outcome : Outcome}
    (ha : request.answered outcome = true) (hc : request.changes = none) :
    (screen.apply outcome).busy = screen.busy ∨
      ∃ app message advice, outcome = .failed app message advice := by
  rw [AppStoreScreen.busy_apply]
  cases outcome with
  | refreshed inventory => exact .inl rfl
  | notes app text => exact .inl rfl
  | failed app message advice => exact .inr ⟨app, message, advice, rfl⟩
  | installed app version =>
    cases request with
    | refresh => cases ha
    | notes app' version' => cases ha
    | install app' version' => cases hc
    | rollback app' => cases hc
  | rolledBack app version =>
    cases request with
    | refresh => cases ha
    | notes app' version' => cases ha
    | install app' version' => cases hc
    | rollback app' => cases hc

end

section

variable {K : Type} [Field K] [LinearOrder K] {bounds : Protocol.Size} {s s' : Session K}

/-- A word is delivered. -/
theorem Session.Sound.deliver (h : s.Sound) (hn : ¬ s.Strays .deliver)
    {word : Request × Completion} {rest : List (Request × Completion)}
    (hq : s.queue = word :: rest) :
    Session.Sound ⟨(s.app.event bounds (.completed word.2)).app, s.running, rest⟩ := by
  have hu := h.unfinished
  obtain ⟨request, completion⟩ := word
  refine ⟨?_, fun request' outcome hm => h.answered _ _ (hq ▸ List.mem_cons_of_mem _ hm)⟩
  cases completion with
  | progress step percent =>
    rw [Session.unfinished, hq] at hu
    exact hu.trans (congrArg Option.toList (AppStoreScreen.busy_report step percent).symm)
  | done outcome =>
    have ha := h.answered request outcome (hq ▸ List.mem_cons_self)
    change s.running.filterMap Request.changes ++ rest.filterMap ends =
      (s.app.screen.apply outcome).busy.toList
    rcases hc : request.changes with _ | changed
    · have hr : s.unfinished = s.running.filterMap Request.changes ++ rest.filterMap ends := by
        rw [Session.unfinished, hq, List.filterMap_cons_none]
        exact hc
      rw [← hr]
      rcases busy_apply_of_reads s.app.screen ha hc with hb | ⟨app, message, advice, ho⟩
      · rw [hb, hu]
      · -- A failure that is delivered with nothing unfinished ends nothing.
        have hnil : s.unfinished = [] := by
          by_contra hne
          exact hn ⟨rfl, hne, request, app, message, advice, rest, hc, ho ▸ hq⟩
        rw [hnil, ho, AppStoreScreen.busy_apply, Option.toList_none]
    · have hr : s.unfinished =
          s.running.filterMap Request.changes ++ changed :: rest.filterMap ends := by
        rw [Session.unfinished, hq, List.filterMap_cons_some]
        exact hc
      have hl := length_toList s.app.screen.busy
      rw [← hu, hr, List.length_append, List.length_cons] at hl
      rw [busy_apply_of_changes ha (by rw [hc]; rfl), Option.toList_none]
      exact List.append_eq_nil_iff.2
        ⟨List.length_eq_zero_iff.1 (by omega), List.length_eq_zero_iff.1 (by omega)⟩

/-- A step that does not stray keeps one change at a time. -/
theorem Session.Sound.perform (h : s.Sound) {act : Act K} (hn : ¬ s.Strays act)
    (hs : s.perform bounds act = some s') : s'.Sound := by
  cases act with
  | pointer pointer =>
    obtain rfl := Option.some.inj hs
    refine ⟨?_, h.answered⟩
    have hd : ∀ o : Option Request,
        o.toList.filterMap Request.changes = (o.bind Request.changes).toList := by
      intro o
      rcases o with _ | request
      · rfl
      · rcases hc : request.changes with _ | app
        · simp [hc]
        · simp [hc]
    rw [Session.unfinished, List.filterMap_append, hd]
    exact append_middle h.unfinished (fair_press pointer)
  | other =>
    obtain rfl := Option.some.inj hs
    exact h
  | report index step percent =>
    unfold Session.perform at hs
    dsimp only at hs
    split at hs
    · obtain rfl := Option.some.inj hs
      exact h.report _ _ _
    · cases hs
  | finish index outcome =>
    unfold Session.perform at hs
    dsimp only at hs
    split at hs
    · cases hs
    · next hi =>
      split at hs
      · next ha =>
        obtain rfl := Option.some.inj hs
        exact h.finish hi ha
      · cases hs
  | deliver =>
    unfold Session.perform at hs
    dsimp only at hs
    split at hs
    · cases hs
    · next hq =>
      obtain rfl := Option.some.inj hs
      exact h.deliver hn hq

/-- In a run in which no failure of a request that only reads is delivered during a change, a change
is accepted only with every change before it finished, and the screen shows the unfinished one. -/
theorem one_change (bounds : Protocol.Size) (inventory : Inventory) {s : Session K}
    (h : (Session.start inventory).Reaches bounds (fun s act => ¬ s.Strays act) s) :
    OneChange s := by
  suffices hs : s.Sound from hs.oneChange
  induction h with
  | refl => exact .start inventory
  | step _ ha hs ih => exact ih.perform ha hs

end

/-! ## A refresh that fails -/

/-- A chess that is offered and not installed. -/
def chess : AppEntry where
  app := ⟨"dev.calum.chess"⟩
  name := "Chess"
  installed := none
  fallback := none
  onDisk := []
  available := some (.new 0 1 0)
  availablePrerelease := none
  health := none
  state := .available

def offered : Inventory := ⟨[chess], none, by decide⟩

/-- The session whose install has been pressed. -/
def installing : Session ℚ where
  app.screen := { AppStoreScreen.new offered with working := some ⟨chess.app, "STARTING", none⟩ }
  app.pendingDamage := .regions [⟨56, 164, 1508, 184⟩]
  running := [.install chess.app (.new 0 1 0)]
  queue := []

theorem press_install :
    (Session.start offered).perform SCREEN (.pointer ⟨1300, 200, .up⟩) = some installing := by
  decide +kernel

theorem one_change_installing : OneChange installing :=
  one_change SCREEN offered (.step .refl (fun h => by cases h.1) press_install)

/-- The refresh that was pressed during the install has failed, and the install goes on. -/
def stranded : Session ℚ where
  app.screen := { AppStoreScreen.new offered with
    failure := some ⟨"the catalog is not reachable", "Check the home network."⟩ }
  app.pendingDamage := .full
  running := [.install chess.app (.new 0 1 0)]
  queue := []

/-- A refresh that fails during an install makes room for a second change. -/
theorem failed_refresh_frees :
    installing.performs SCREEN [.pointer ⟨1400, 2000, .up⟩,
        .finish 1 (.failed none "the catalog is not reachable" "Check the home network."),
        .deliver] = some stranded ∧
      (stranded.app.screen.begin_ (.install chess.app (.new 0 1 0))).1 = true ∧
      ¬ OneChange stranded := by
  refine ⟨by decide +kernel, by decide, fun h => ?_⟩
  have := h.accepts (.install chess.app (.new 0 1 0)) chess.app rfl (by decide)
  revert this
  decide

end Paperclip.AppStore
