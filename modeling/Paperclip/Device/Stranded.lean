import Paperclip.Crash.Safe
import Paperclip.Device.Takeover

/-!
# Who is left to bring stock back

At the end of a session stock was seen to be active, or was never asked to stop, or a watchdog still
waits to start it.

* `Netted`: that one of the three holds.
* `ComesBack`: the answers with which the session itself brings stock back.
* `netted_iff`: the watchdog is never what is left, since dropping the takeover disarms it.
-/

namespace Paperclip.Device

open Crash StartBudget

/-- Stock is reported active. -/
def observes (e : Event deviceSig) : Bool :=
  match e with
  | ⟨.isActive, .ok true⟩ => true
  | ⟨.waitActive _, .ok true⟩ => true
  | _ => false

/-- What a step makes of what was seen of stock. -/
def watch (seen : Bool) (e : Event deviceSig) : Bool :=
  if e.op = DeviceOp.stop then false else seen || observes e

/-- Stock was observed active after the last stop request. -/
def observedSince (l : List (Event deviceSig)) : Bool := l.foldl watch false

/-- Something is left to bring stock back, or nothing needs to. -/
def Netted (l : List (Event deviceSig)) : Prop :=
  observedSince l = true ∨ (∀ e ∈ l, e.op ≠ DeviceOp.stop) ∨
    (DetachedWatchdog.after l).guardian.isSome = true

/-- The steps that are about stock. -/
def DeviceOp.service : DeviceOp → Bool
  | isActive | stop | resetFailed | writeStarts _ | start | waitActive _ => true
  | _ => false

/-- The steps about stock, with their answers. -/
def service (l : List (Event deviceSig)) : List (Event deviceSig) := l.filter (·.op.service)

/-- A start that goes through, and what the wait for it reports. -/
def started (text : String) (up : Bool) : List (Event deviceSig) :=
  [⟨.resetFailed, .ok ()⟩, ⟨.writeStarts text, .ok ()⟩, ⟨.start, .ok ()⟩,
    ⟨.waitActive RESTORE_TIMEOUT, .ok up⟩]

/-- The answers with which stock comes back: it is active, or the first start or the second brings it
up. -/
inductive ComesBack : List (Event deviceSig) → Prop
  | active : ComesBack [⟨.isActive, .ok true⟩]
  | first (text) : ComesBack (⟨.isActive, .ok false⟩ :: started text true)
  | second (text text') :
      ComesBack (⟨.isActive, .ok false⟩ :: started text false ++ started text' true)

section
variable {l l' x : List (Event deviceSig)}

theorem service_append : service (l ++ l') = service l ++ service l' := List.filter_append ..

theorem watch_of_not_service {seen : Bool} {e : Event deviceSig} (h : e.op.service = false) :
    watch seen e = seen := by
  obtain ⟨o, r⟩ := e
  cases o <;> first | (simp [watch, observes]; done) | cases h

/-- What is not about stock is not an observation. -/
theorem observedSince_service : observedSince (service l) = observedSince l := by
  have h (seen : Bool) : (service l).foldl watch seen = l.foldl watch seen := by
    induction l generalizing seen with
    | nil => rfl
    | cons e rest ih =>
      cases he : e.op.service with
      | true =>
        simp only [service, List.filter_cons, he, if_true, List.foldl_cons]
        exact ih _
      | false =>
        simp only [service, List.filter_cons, he, Bool.false_eq_true, if_false, List.foldl_cons,
          watch_of_not_service he]
        exact ih _
  exact h false

/-- After the stop, an observation is one of what came after it. -/
theorem observedSince_stop {earlier : List (Event deviceSig)} {r : Except DeviceError Unit} :
    observedSince (earlier ++ (⟨.stop, r⟩ : Event deviceSig) :: l) = observedSince l := by
  rw [observedSince, List.foldl_append, List.foldl_cons]
  rfl

theorem ComesBack.observed (h : ComesBack l) : observedSince l = true := by
  cases h <;> rfl

/-- Steps without a stop. -/
def Going (l : List (Event deviceSig)) : Prop := ∀ e ∈ l, e.op ≠ DeviceOp.stop

theorem Going.append (h : Going l) (h' : Going l') : Going (l ++ l') := by
  intro e he
  rcases List.mem_append.1 he with he | he
  · exact h e he
  · exact h' e he

/-- Without a stop every observation counts. -/
theorem Going.observedSince (h : Going l) : observedSince l = l.any observes := by
  have hf (seen : Bool) : l.foldl watch seen = (seen || l.any observes) := by
    induction l generalizing seen with
    | nil => simp
    | cons e rest ih =>
      have he : watch seen e = (seen || observes e) := if_neg (h e (List.mem_cons_self ..))
      rw [List.foldl_cons, ih (fun e he => h e (List.mem_cons_of_mem _ he)), he, List.any_cons,
        Bool.or_assoc]
  rw [Device.observedSince, hf, Bool.false_or]

/-- Only the steps about stock can be a stop. -/
theorem going_service : Going (service l) ↔ Going l := by
  constructor
  · intro h e he hs
    exact h e (List.mem_filter.2 ⟨he, by rw [hs]; rfl⟩) hs
  · exact fun h e he => h e (List.mem_filter.1 he).1

/-- A part that does nothing about stock leaves what was done. -/
theorem every_service {α : Type} {p : DeviceM α} (hp : p.Only fun op : DeviceOp => op.service = false)
    (hl : service l = x) : p.Every (fun _ l' => service l' = x) l := by
  induction p generalizing l with
  | done a => exact hl
  | fail e => exact hl
  | step op k ih =>
    intro r
    refine ih r (hp.2 r) ?_
    rw [service_append, hl]
    simp [service, hp.1]

/-- One step about stock. -/
theorem service_concat {done : List (Event deviceSig)} (hl : service l = x ++ done) {o : DeviceOp}
    (ho : o.service = true) (r : o.Ret) :
    service (l ++ [(⟨o, r⟩ : Event deviceSig)]) = x ++ (done ++ [⟨o, r⟩]) := by
  rw [service_append, hl, List.append_assoc]
  simp [service, ho]

/-- One step about something else. -/
theorem service_skip (hl : service l = x) {o : DeviceOp} (ho : o.service = false) (r : o.Ret) :
    service (l ++ [(⟨o, r⟩ : Event deviceSig)]) = x := by
  rw [service_append, hl]
  simp [service, ho]

/-! ## Restoring stock -/

/-- A part did these steps about stock, with what its outcome says of them. -/
def Did {α : Type} (x : List (Event deviceSig))
    (Q : Except DeviceError α → List (Event deviceSig) → Prop) (r : Except DeviceError α)
    (l : List (Event deviceSig)) : Prop :=
  ∃ done, service l = x ++ done ∧ Going done ∧ Q r done

theorem every_startOnce_did {stamp : ℕ} (hl : service l = x) : (Stock.startOnce stamp).Every
    (Did x fun r done => match r with
      | .ok _ => ∃ text, done = [⟨.resetFailed, .ok ()⟩, ⟨.writeStarts text, .ok ()⟩,
          ⟨.start, .ok ()⟩]
      | .error _ => done.any observes = false) l := by
  unfold Stock.startOnce record
  intro (cleared : Except DeviceError Unit)
  have h₁ := service_concat (hl.trans (List.append_nil x).symm) (o := .resetFailed) rfl cleared
  cases cleared with
  | error e => exact ⟨_, h₁, by simp [Going], rfl⟩
  | ok _ =>
    intro (contents : Option String) (written : Except IoError Unit)
    have h₂ := service_skip h₁ (o := .readStarts) rfl contents
    have h₃ := service_concat h₂ (o := .writeStarts (render (kept contents stamp))) rfl written
    cases written with
    | error e => exact ⟨_, h₃, by simp [Going], rfl⟩
    | ok _ =>
      intro (begun : Except DeviceError Unit)
      have h₄ := service_concat h₃ (o := .start) rfl begun
      cases begun with
      | error e => exact ⟨_, h₄, by simp [Going], rfl⟩
      | ok _ => exact ⟨_, h₄, by simp [Going], _, rfl⟩

/-- A start that is waited for goes through or is not seen to. -/
theorem every_tryStart_did {stamp : ℕ} (hl : service l = x) : (Stock.tryStart stamp).Every
    (Did x fun r done => match r with
      | .ok up => ∃ text, done = started text up
      | .error _ => done.any observes = false) l := by
  refine (every_startOnce_did hl).bind (fun _ l₁ hq => ?_) (fun _ _ hq => hq)
  obtain ⟨done, h₁, hg, text, rfl⟩ := hq
  intro (active : Except DeviceError Bool)
  have h₂ := service_concat h₁ (o := .waitActive RESTORE_TIMEOUT) rfl active
  have hg' : Going (_ ++ [(⟨.waitActive RESTORE_TIMEOUT, active⟩ : Event deviceSig)]) :=
    hg.append (by simp [Going])
  cases active with
  | error e => exact ⟨_, h₂, hg', rfl⟩
  | ok up => exact ⟨_, h₂, hg', text, rfl⟩

/-- Restoring stock sees it active only when it comes back. -/
theorem every_restore_did {stock : Stock} {stamp : ℕ} (hl : service l = x) :
    (stock.restore stamp).Every (Did x fun _ done => done.any observes = true → ComesBack done) l := by
  unfold Stock.restore
  intro (active : Except DeviceError Bool)
  have h₁ := service_concat (hl.trans (List.append_nil x).symm) (o := .isActive) rfl active
  match active with
  | .error e => exact ⟨_, h₁, by simp [Going], nofun⟩
  | .ok true => exact ⟨_, h₁, by simp [Going], fun _ => .active⟩
  | .ok false =>
    have hg₁ : Going [(⟨.isActive, .ok false⟩ : Event deviceSig)] := by simp [Going]
    refine (every_tryStart_did h₁).bind (fun up l₁ hq => ?_) (fun _ _ hq => ?_)
    · obtain ⟨done, h₂, hg₂, text, rfl⟩ := hq
      rw [List.append_assoc] at h₂
      cases up with
      | true => exact ⟨_, h₂, hg₁.append hg₂, fun _ => .first text⟩
      | false =>
        refine (every_tryStart_did h₂).bind (fun up l₂ hq => ?_) (fun _ _ hq => ?_)
        · obtain ⟨done, h₃, hg₃, text', rfl⟩ := hq
          rw [List.append_assoc] at h₃
          have hg := (hg₁.append hg₂).append hg₃
          cases up with
          | true => exact ⟨_, h₃, hg, fun _ => .second text text'⟩
          | false => exact ⟨_, h₃, hg, nofun⟩
        · obtain ⟨done, h₃, hg₃, ho⟩ := hq
          rw [List.append_assoc] at h₃
          refine ⟨_, h₃, (hg₁.append hg₂).append hg₃, fun hs => ?_⟩
          simp [started, observes, ho] at hs
    · obtain ⟨done, h₂, hg₂, ho⟩ := hq
      rw [List.append_assoc] at h₂
      refine ⟨_, h₂, hg₁.append hg₂, fun hs => ?_⟩
      simp [observes, ho] at hs

/-! ## The parts of a session -/

theorem only_restoreLocks (vendor : VendorLockState) :
    vendor.restore.Only fun op : DeviceOp => op.service = false := by
  have look : ((if vendor.epdPresent = true then do
      let present ← call .epdExists
      if present then return () else Prog.fail .epdGone
    else return () : DeviceM Unit)).Only fun op : DeviceOp => op.service = false := by
    split
    · refine ⟨rfl, fun (present : Bool) => ?_⟩
      cases present <;> trivial
    · trivial
  unfold VendorLockState.restore
  cases vendor.registry with
  | some contents =>
    refine ⟨rfl, fun (written : Except IoError Unit) => ?_⟩
    cases written with
    | error e => trivial
    | ok _ => exact look
  | none =>
    refine ⟨rfl, fun (removed : Except IoError Unit) => ?_⟩
    match removed with
    | .error .other => trivial
    | .error .notFound => exact look
    | .ok _ => exact look

/-- Waiting for the panel comes to an end, and does nothing about stock. -/
theorem every_lookUntilFree_service (vendor : VendorLockState) (n : ℕ) (hl : service l = x) :
    (Takeover.lookUntilFree vendor n).Every
      (fun r l' => (∃ freed, r = .ok freed) ∧ service l' = x) l := by
  induction n generalizing l with
  | zero => exact fun current => ⟨⟨_, rfl⟩, service_skip hl (o := .readRegistry) rfl current⟩
  | succ n ih =>
    intro (current : Option String)
    have h₁ := service_skip hl (o := .readRegistry) rfl current
    change Prog.Every _ (if decide (current = vendor.registry) = true then pure true else
      Takeover.lookUntilFree vendor n) _
    split
    · exact ⟨⟨_, rfl⟩, h₁⟩
    · exact ih h₁

theorem every_waitIfRestored_service (t : Takeover) (result : Except DeviceError Unit)
    (hl : service l = x) : (t.waitIfRestored result).Every
      (fun r l' => (∃ freed, r = .ok freed) ∧ service l' = x) l := by
  cases result with
  | error e => exact ⟨⟨false, rfl⟩, hl⟩
  | ok _ =>
    exact fun looks => every_lookUntilFree_service _ looks
      (service_skip hl (o := .looks) rfl looks)

/-- What giving the display back did about stock. -/
def Gave {α : Type} (x : List (Event deviceSig)) : Except DeviceError α → List (Event deviceSig) →
    Prop :=
  Did x fun _ done => done.any observes = true → ComesBack done

theorem gave_nothing {α : Type} {r : Except DeviceError α} (hl : service l = x) : Gave x r l :=
  ⟨[], by rw [hl, List.append_nil], by simp [Going], nofun⟩

/-- What follows and is not about stock changes nothing. -/
theorem Gave.skip {α β : Type} {r : Except DeviceError α} {q : Except DeviceError β}
    (h : Gave x r l) {o : DeviceOp} (ho : o.service = false) (a : o.Ret) :
    Gave x q (l ++ [(⟨o, a⟩ : Event deviceSig)]) := by
  obtain ⟨done, hl, hg, hc⟩ := h
  exact ⟨done, service_skip hl ho a, hg, hc⟩

/-- Giving the display back restores stock, and spends the takeover. -/
theorem every_releaseInner_gave {t : Takeover} {stamp : ℕ} (hr : t.released = false)
    (hl : service l = x) : (t.releaseInner stamp).Every
      (fun r l' => (∃ result t', r = .ok (result, t') ∧ t'.released = true) ∧ Gave x r l') l := by
  unfold Takeover.releaseInner
  rw [if_neg (by simp [hr])]
  refine Prog.Every.attempt_bind ((every_service (only_restoreLocks _) hl).mono ?_)
  intro locksRestored l₁ h₁
  refine (every_waitIfRestored_service _ locksRestored h₁).bind ?_ (fun _ _ h => by simp at h)
  intro freed l₂ h₂
  refine Prog.Every.attempt_bind ((every_restore_did h₂.2).mono fun restored l₃ h₃ => ?_)
  cases freed with
  | false => cases restored <;> exact ⟨⟨_, _, rfl, rfl⟩, h₃⟩
  | true =>
    cases hw : t.wake <;> cases restored <;>
      simp only [if_true, Bool.false_eq_true, if_false]
    · exact ⟨⟨_, _, rfl, rfl⟩, h₃⟩
    · exact fun _ => ⟨⟨_, _, rfl, rfl⟩, Gave.skip h₃ rfl _⟩
    · exact fun _ => ⟨⟨_, _, rfl, rfl⟩, Gave.skip h₃ rfl _⟩
    · intro _ _
      exact ⟨⟨_, _, rfl, rfl⟩, Gave.skip (Gave.skip (q := .ok ()) h₃ rfl _) rfl _⟩

/-- The last step dropped the watchdog. -/
def Dropped (l : List (Event deviceSig)) : Prop := ∃ earlier, l = earlier ++ [⟨.dropWatchdog, ()⟩]

/-- What a session did about stock when all of it has been dropped. -/
def Over (x : List (Event deviceSig)) (r : Except DeviceError Unit) (l : List (Event deviceSig)) :
    Prop := Gave x r l ∧ Dropped l

theorem every_dropRest_over {α : Type} {t : Takeover} {r : Except DeviceError α}
    (h : Gave x r l) :
    ((do
      if t.wake then call .releaseWake
      call .dropWatchdog : DeviceM Unit)).Every (Over x) l := by
  split
  · exact fun _ _ => ⟨Gave.skip (Gave.skip (q := .ok ()) h rfl _) rfl _, _, rfl⟩
  · exact fun _ => ⟨h.skip rfl _, _, rfl⟩

/-- Dropping a takeover that is held gives the display back. -/
theorem every_drop_over {t : Takeover} (hr : t.released = false) (hl : service l = x) :
    t.drop.Every (Over x) l := by
  unfold Takeover.drop
  intro (stamp : ℕ)
  have h₁ := service_skip hl (o := .now) rfl stamp
  exact (every_releaseInner_gave hr h₁).bind (fun _ _ hq => every_dropRest_over hq.2)
    (fun _ _ hq => by simp at hq)

/-- Dropping one that was given back only drops its parts. -/
theorem every_drop_spent_over {α : Type} {t : Takeover} {r : Except DeviceError α}
    (hr : t.released = true) (h : Gave x r l) : t.drop.Every (Over x) l := by
  unfold Takeover.drop
  intro (stamp : ℕ)
  have hinner : (t.releaseInner stamp).Every (fun r l' => r = .ok (.ok (), t) ∧ Gave x r l')
      (l ++ [(⟨.now, stamp⟩ : Event deviceSig)]) := by
    rw [Takeover.releaseInner_released hr]
    exact ⟨rfl, h.skip rfl _⟩
  refine hinner.bind ?_ ?_
  · rintro _ l' ⟨⟨⟩, hs⟩
    exact every_dropRest_over hs
  · rintro _ l' ⟨⟨⟩, hs⟩

theorem every_release_over {t : Takeover} {stamp : ℕ} (hr : t.released = false)
    (hl : service l = x) : (t.release stamp).Every (Over x) l := by
  unfold Takeover.release
  refine (every_releaseInner_gave hr hl).bind ?_ (fun _ _ hq => by simp at hq)
  rintro _ l' ⟨⟨result, t', ⟨⟩, ht⟩, hg⟩
  refine (every_drop_spent_over ht hg).bind (fun _ _ ho => ?_) (fun _ _ ho => ho)
  exact Prog.every_ofExcept.2 ho

/-! ## Acquiring -/

/-- What acquiring did about stock: nothing that stops it, or a stop that answered `r`. -/
def Stopped (r : Except DeviceError Unit) (l : List (Event deviceSig)) : Prop :=
  Going (service l) ∨ service l = [⟨.isActive, .ok true⟩, ⟨.stop, r⟩]

theorem Stopped.skip {r : Except DeviceError Unit} (h : Stopped r l) {o : DeviceOp}
    (ho : o.service = false) (a : o.Ret) : Stopped r (l ++ [(⟨o, a⟩ : Event deviceSig)]) := by
  rw [Stopped, service_skip rfl ho]
  exact h

theorem stopped_nothing {r : Except DeviceError Unit} (h : service l = []) : Stopped r l := by
  refine .inl ?_
  rw [h]
  simp [Going]

theorem every_stopForSession_stopped {stock : Stock} {now : ℕ} (hl : service l = []) :
    (stock.stopForSession now).Every (fun r l' => match r with
      | .ok _ => Stopped (.ok ()) l'
      | .error _ => ∃ e, Stopped (.error e) l') l := by
  have hallowed : (allowsSession now).Only fun op : DeviceOp => op.service = false := by
    refine ⟨rfl, fun (contents : Option String) => ?_⟩
    change Prog.Only _ (if START_BUDGET ≤ recent contents now then
      Prog.fail (DeviceError.budgetSpent (recent contents now)) else pure ())
    split <;> trivial
  unfold Stock.stopForSession
  refine (every_service hallowed hl).bind (fun _ l₁ h₁ => ?_)
    (fun _ _ h₁ => ⟨.notBack, stopped_nothing h₁⟩)
  intro (active : Except DeviceError Bool)
  have h₂ : service (l₁ ++ [(⟨.isActive, active⟩ : Event deviceSig)]) = [⟨.isActive, active⟩] := by
    rw [service_append, h₁]
    rfl
  have still (r : Except DeviceError Unit) :
      Stopped r (l₁ ++ [(⟨.isActive, active⟩ : Event deviceSig)]) := by
    refine .inl ?_
    rw [h₂]
    simp [Going]
  match active with
  | .error e => exact ⟨e, still _⟩
  | .ok false => exact still _
  | .ok true =>
    intro (stopped : Except DeviceError Unit)
    have h₃ : service (l₁ ++ [⟨.isActive, .ok true⟩] ++ [(⟨.stop, stopped⟩ : Event deviceSig)]) =
        [⟨.isActive, .ok true⟩, ⟨.stop, stopped⟩] := by
      rw [service_append, h₂]
      rfl
    cases stopped with
    | error e => exact ⟨e, .inr h₃⟩
    | ok _ => exact .inr h₃

theorem every_stopGuarded_stopped {stock : Stock} {within now : ℕ} (hl : service l = []) :
    (Takeover.stopGuarded stock within now).Every (fun r l' => match r with
      | .ok _ => Stopped (.ok ()) l'
      | .error _ => ∃ e, Stopped (.error e) l') l := by
  unfold Takeover.stopGuarded
  intro (armed : Except DeviceError Unit)
  have h₁ := service_skip hl (o := .arm within) rfl armed
  cases armed with
  | error e => exact ⟨e, stopped_nothing h₁⟩
  | ok _ =>
    refine Prog.Every.attempt_bind ((every_stopForSession_stopped h₁).mono fun r l' h' => ?_)
    cases r with
    | ok _ => exact h'
    | error e =>
      intro (answer : Except DeviceError Unit)
      obtain ⟨e', h'⟩ := h'
      exact ⟨e', h'.skip rfl _⟩

theorem every_acquire_stopped {stock : Stock} {within now : ℕ} :
    (Takeover.acquire stock within now).Every (fun r l' => match r with
      | .ok t => t.released = false ∧ Stopped (.ok ()) l'
      | .error _ => Dropped l' ∧ ∃ e, Stopped (.error e) l') [] := by
  have fail {l' : List (Event deviceSig)} (h : ∃ e, Stopped (.error e) l') (answer : Unit) :
      Dropped (l' ++ [(⟨.dropWatchdog, answer⟩ : Event deviceSig)]) ∧
        ∃ e, Stopped (.error e) (l' ++ [(⟨.dropWatchdog, answer⟩ : Event deviceSig)]) := by
    obtain ⟨e, h⟩ := h
    exact ⟨⟨l', rfl⟩, e, h.skip rfl _⟩
  unfold Takeover.acquire
  refine every_dropping ?_
  intro (health : StockHealth)
  have hgate : (demand (waitUntilSafeToStop health)).Every (fun _ l' => service l' = [])
      [(⟨.health, health⟩ : Event deviceSig)] := Prog.every_ofExcept.2 rfl
  refine hgate.bind (fun _ l₁ h₁ => ?_) (fun e l₁ h₁ => fail ⟨e, stopped_nothing h₁⟩)
  intro (fit : Except DeviceError Unit)
  have h₂ := service_skip h₁ (o := .preflight) rfl fit
  cases fit with
  | error e => exact fail ⟨e, stopped_nothing h₂⟩
  | ok _ =>
    intro (locks : Except DeviceError VendorLockState)
    have h₃ := service_skip h₂ (o := .captureLocks) rfl locks
    cases locks with
    | error e => exact fail ⟨e, stopped_nothing h₃⟩
    | ok locks =>
      intro (awake : Except DeviceError Unit)
      have h₄ := service_skip h₃ (o := .acquireWake) rfl awake
      cases awake with
      | error e => exact fail ⟨e, stopped_nothing h₄⟩
      | ok _ =>
        refine every_dropping ((every_stopGuarded_stopped h₄).bind (fun _ _ hq => ⟨rfl, hq⟩) ?_)
        intro e l' hq answer
        obtain ⟨e', hq⟩ := hq
        exact fail ⟨e', hq.skip (o := .releaseWake) rfl answer⟩

/-! ## The whole session -/

/-- The session itself brings stock back: the stop went through, and the answers to what followed
were those with which stock comes back. -/
def BroughtBack (l : List (Event deviceSig)) : Prop :=
  ∃ answers, service l = [⟨.isActive, .ok true⟩, ⟨.stop, .ok ()⟩] ++ answers ∧ ComesBack answers

/-- Dropping the watchdog disarms it. -/
theorem Dropped.guardian (h : Dropped l) : (DetachedWatchdog.after l).guardian = none := by
  obtain ⟨earlier, rfl⟩ := h
  rw [DetachedWatchdog.after, List.foldl_concat]
  rfl

/-- What a session did when all of it has been dropped. -/
theorem every_session {stock : Stock} {within now : ℕ} {ending : Ending} :
    (session stock within now ending).Every (fun _ l' => Dropped l' ∧
      (Going l' ∨ (observedSince l' = true → BroughtBack l'))) [] := by
  have closing {l l' : List (Event deviceSig)} {r : Except DeviceError Unit} (hs : Stopped (.ok ()) l)
      (ho : Over (service l) r l') :
      Dropped l' ∧ (Going l' ∨ (observedSince l' = true → BroughtBack l')) := by
    obtain ⟨⟨done, hl, hg, hc⟩, hdrop⟩ := ho
    refine ⟨hdrop, ?_⟩
    rcases hs with hs | hs
    · refine .inl (going_service.1 ?_)
      rw [hl]
      exact hs.append hg
    · refine .inr fun hobs => ⟨done, by rw [hl, hs], hc ?_⟩
      rwa [← observedSince_service, hl, hs, List.cons_append, List.singleton_append,
        ← List.singleton_append, observedSince_stop, hg.observedSince] at hobs
  unfold session
  refine every_acquire_stopped.bind (fun t l hq => ?_) (fun _ l hq => ?_)
  · obtain ⟨hr, hs⟩ := hq
    cases ending with
    | release stamp => exact (every_release_over hr rfl).mono fun _ _ ho => closing hs ho
    | drop => exact (every_drop_over hr rfl).mono fun _ _ ho => closing hs ho
  · obtain ⟨hdrop, e, hs⟩ := hq
    refine ⟨hdrop, ?_⟩
    rcases hs with hs | hs
    · exact .inl (going_service.1 hs)
    · refine .inr fun hobs => ?_
      rw [← observedSince_service, hs] at hobs
      cases hobs

/-- A session leaves stock seen active, never stopped or under an armed watchdog exactly when it never
stopped stock, or the stop and a start that followed it went through. -/
theorem netted_iff {W : Type} (h : Handler deviceSig W) (w : W) (stock : Stock) (within now : ℕ)
    (ending : Ending) : Netted ((session stock within now ending).answers h w) ↔
      (∀ e ∈ (session stock within now ending).answers h w, e.op ≠ DeviceOp.stop) ∨
        BroughtBack ((session stock within now ending).answers h w) := by
  have hall : (session stock within now ending).Every (fun _ l' => Dropped l' ∧
      (Going l' ∨ (observedSince l' = true → BroughtBack l'))) [] := every_session
  obtain ⟨hdrop, hrun⟩ := hall.run h w
  rw [List.nil_append] at hdrop hrun
  constructor
  · rintro (hobs | hgo | hdog)
    · exact hrun.imp_right fun hb => hb hobs
    · exact .inl hgo
    · rw [hdrop.guardian] at hdog
      cases hdog
  · rintro (hgo | ⟨answers, hl, hc⟩)
    · exact .inr (.inl hgo)
    · refine .inl ?_
      rw [← observedSince_service, hl, List.cons_append, List.singleton_append,
        ← List.singleton_append, observedSince_stop]
      exact hc.observed

end

/-- A tablet on which stock stops, and does not come back. The world is whether stock is active. -/
def gone : Handler deviceSig Bool
  | .health, active => (⟨true, [], true, some 0⟩, active)
  | .preflight, active | .acquireWake, active | .arm _, active | .disarm, active
  | .resetFailed, active | .start, active => (.ok (), active)
  | .captureLocks, active => (.ok ⟨none, false⟩, active)
  | .releaseWake, active | .dropWatchdog, active => ((), active)
  | .isActive, active => (.ok active, active)
  | .stop, _ => (.ok (), false)
  | .waitActive _, active => (.ok false, active)
  | .readStarts, active | .readRegistry, active => (none, active)
  | .writeStarts _, active | .writeRegistry _, active | .removeRegistry, active => (.ok (), active)
  | .epdExists, active => (true, active)
  | .looks, active | .now, active => (0, active)

/-- Both starts fail, and the watchdog that should be the remaining hope goes with the takeover. -/
theorem gone_not_netted :
    ¬ Netted ((session .new 300 0 (.release 0)).answers gone true) := by
  rintro (hobs | hgo | hdog)
  · exact absurd hobs (by decide +kernel)
  · have hstop : ((session .new 300 0 (.release 0)).answers gone true).any
        (fun e => decide (e.op = DeviceOp.stop)) = true := by decide +kernel
    obtain ⟨e, he, hs⟩ := List.any_eq_true.1 hstop
    exact hgo e he (of_decide_eq_true hs)
  · exact absurd hdog (by decide +kernel)

end Paperclip.Device
