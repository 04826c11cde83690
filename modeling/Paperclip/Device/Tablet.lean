import Paperclip.Crash.Safe
import Paperclip.Device.Record
import Paperclip.Device.Takeover

/-!
# Sessions and the record

A tablet with a clock and a record of starts, of which nothing else is assumed, and what one session
makes of the two. The stamp of a start is taken before the locks are waited for, so it may be older
than the start.

* `Tablet`, `Diary`: the tablet, and what its sessions did so far.
* `sitting`: a session with the looks at the clock that it takes.
* `Tablet.Current`: the record holds the stamp of every start.
* `Tablet.sitting_safe`: wherever a session is killed, the record is current, and it issued nothing,
  or passed its check and issued two starts at most.
-/

namespace Paperclip.Device

open Crash StartBudget

/-! ## Tablets -/

/-- A tablet: what it answers, its clock and the record of starts. -/
structure Tablet (W : Type) where
  handler : Handler deviceSig W
  time : W → ℕ
  record : W → Option String
  passes (op : DeviceOp) (w : W) : time w ≤ time (handler op w).2
  fits (w : W) : time w / second < 2 ^ 64
  tells (w : W) : time w ≤ (handler .now w).1 ∧ (handler .now w).1 ≤ time (handler .now w).2
  writes (text : String) (w : W) : (handler (.writeStarts text) w).1 = .ok () →
    record (handler (.writeStarts text) w).2 = some text
  /-- Only sessions write the record. -/
  keeps (op : DeviceOp) (w : W) : (∀ text, op ≠ .writeStarts text) →
    record (handler op w).2 = record w

/-- A start that was issued, with its stamp in the record, in seconds. -/
structure Start where
  issued : ℕ
  stamp : ℕ
  deriving DecidableEq, Repr

/-- What the sessions so far did. -/
structure Diary where
  /-- What the clock said when it was last looked at. -/
  clock : ℕ
  starts : List Start
  /-- The record could not be read or written. -/
  missed : Bool
  deriving DecidableEq, Repr

namespace Diary

def new : Diary := ⟨0, [], false⟩

def stamps (d : Diary) : List ℕ := d.starts.map (·.stamp)

end Diary

/-- One session, with the looks at the clock that its caller takes. -/
def sitting (within : ℕ) (released : Bool) : DeviceM Unit := do
  let now ← call .now
  let t ← Takeover.acquire .new within now
  if released then
    let now ← call .now
    t.release now
  else t.drop

namespace Tablet

variable {W : Type} (t : Tablet W)

/-- What a step adds to the diary. -/
def see (s : Step deviceSig W) (d : Diary) : Diary :=
  match s with
  | ⟨.now, now, _, _⟩ => { d with clock := now }
  | ⟨.readStarts, contents, before, _⟩ =>
    { d with missed := d.missed || decide (contents ≠ t.record before) }
  | ⟨.writeStarts _, .error _, _, _⟩ => { d with missed := true }
  | ⟨.start, _, before, _⟩ =>
    { d with starts := d.starts ++ [⟨t.time before, d.clock / second⟩] }
  | _ => d

/-- The tablet with the diary. -/
def noted : Handler deviceSig (W × Diary) := fun op x =>
  ((t.handler op x.1).1, (t.handler op x.1).2,
    t.see ⟨op, (t.handler op x.1).1, x.1, (t.handler op x.1).2⟩ x.2)

/-- What a session that begins in `w` reads off the clock for its check. -/
def checked (w : W) : ℕ := (t.handler .now w).1

end Tablet

/-! ## What a session keeps -/

section

variable {W : Type} {t : Tablet W} {x x₀ y z : W × Diary} {n checked : ℕ}

/-- The record holds the stamp of every start, as far as it still matters. -/
structure Tablet.Current (t : Tablet W) (x : W × Diary) : Prop where
  clock : x.2.clock ≤ t.time x.1
  recorded : x.2.missed = false → ∀ later, x.2.clock ≤ later →
    live later x.2.stamps ≤ live later (stamps ((t.record x.1).getD ""))

/-- At most `n` starts were issued since. -/
def Since (x₀ : W × Diary) (n : ℕ) (x : W × Diary) : Prop :=
  ∃ new, x.2.starts = x₀.2.starts ++ new ∧ new.length ≤ n

/-- The check passed. -/
def Admitted (x₀ : W × Diary) (checked : ℕ) (x : W × Diary) : Prop :=
  x.2.missed = false → live checked x₀.2.stamps < START_BUDGET

/-- Steps that neither issue a start nor write the record nor look at the clock. -/
def Quiet (op : DeviceOp) : Prop :=
  match op with
  | .now | .writeStarts _ | .start => False
  | _ => True

/-- What such steps leave. -/
structure Tablet.Calm (t : Tablet W) (x y : W × Diary) : Prop where
  time : t.time x.1 ≤ t.time y.1
  record : t.record y.1 = t.record x.1
  clock : y.2.clock = x.2.clock
  starts : y.2.starts = x.2.starts
  missed : y.2.missed = false → x.2.missed = false

theorem Tablet.Calm.refl : t.Calm x x := ⟨le_rfl, rfl, rfl, rfl, id⟩

theorem Tablet.Calm.trans (h : t.Calm x y) (h' : t.Calm y z) : t.Calm x z :=
  ⟨h.time.trans h'.time, h'.record.trans h.record, h'.clock.trans h.clock,
    h'.starts.trans h.starts, h.missed ∘ h'.missed⟩

theorem Tablet.calm_step {o : DeviceOp} (h : Quiet o) : t.Calm x (t.noted o x).2 := by
  refine ⟨t.passes o x.1, t.keeps o x.1 (by rintro text rfl; exact h), ?_, ?_, ?_⟩ <;>
    cases o <;> first | exact h.elim | rfl | exact id | skip
  intro hm
  exact (Bool.or_eq_false_iff.1 hm).1

theorem Tablet.Current.calm (h : t.Current x) (c : t.Calm x y) : t.Current y := by
  refine ⟨c.clock ▸ h.clock.trans c.time, fun hm later hl => ?_⟩
  rw [Diary.stamps, c.starts, c.record]
  exact h.recorded (c.missed hm) later (c.clock ▸ hl)

theorem Since.calm (h : Since x₀ n x) (c : t.Calm x y) : Since x₀ n y := by
  obtain ⟨new, hs, hn⟩ := h
  exact ⟨new, c.starts.trans hs, hn⟩

theorem Admitted.calm (h : Admitted x₀ checked x) (c : t.Calm x y) : Admitted x₀ checked y :=
  fun hm => h (c.missed hm)

/-- A quiet part keeps what calm keeps. -/
theorem Tablet.quiet_safe {ε α : Type} {I : W × Diary → Prop} {p : Prog deviceSig ε α}
    (hI : ∀ x y, I x → t.Calm x y → I y) (hp : p.Only Quiet) (hx : I x) :
    p.Safe t.noted I (fun _ => I) x :=
  Prog.Safe.of_only hp (fun _ _ hq h => hI _ _ h (t.calm_step hq)) hx

/-! ## The check -/

/-- A quiet part, where only a success matters. -/
theorem Tablet.quiet_onOk {α : Type} {p : DeviceM α} (hp : p.Only Quiet) (h : t.Calm x y) :
    p.Safe t.noted (t.Calm x) (Prog.OnOk fun _ => t.Calm x) y :=
  (t.quiet_safe (fun _ _ => Tablet.Calm.trans) hp h).mono (fun _ h => h) fun _ _ _ h _ _ => h

theorem Tablet.quiet_dropping {α : Type} {drop : DeviceM Unit} {p : DeviceM α}
    {T : α → W × Diary → Prop} (hd : drop.Only Quiet)
    (hp : p.Safe t.noted (t.Calm x) (Prog.OnOk T) y) :
    (dropping drop p).Safe t.noted (t.Calm x) (Prog.OnOk T) y := by
  refine Prog.Safe.attempt_bind (hp.mono (fun _ h => h) fun r z hc hq => ?_)
  cases r with
  | ok a => exact ⟨hc, hq⟩
  | error e =>
    refine (t.quiet_safe (fun _ _ => Tablet.Calm.trans) hd hc).bind (fun _ w hw => ?_) ?_
    · exact ⟨hw, fun _ h => nomatch h⟩
    · exact fun _ _ _ _ h => nomatch h

/-- The check lets a session begin only if the record that it read counts few starts. -/
theorem Tablet.allowsSession_admits (hx : t.Current x) (hnow : x.2.clock ≤ checked)
    (h : t.Calm x y) : (allowsSession checked).Safe t.noted (t.Calm x)
      (Prog.OnOk fun _ z => t.Calm x z ∧ Admitted x checked z) y := by
  have hz : t.Calm x (t.noted .readStarts y).2 := h.trans (t.calm_step trivial)
  refine ⟨h, ?_⟩
  simp only [Prog.bind_done]
  split_ifs with hr
  · exact ⟨hz, fun _ h => nomatch h⟩
  · refine ⟨hz, fun _ _ => ⟨hz, fun hm => ?_⟩⟩
    have hread : (t.handler .readStarts y.1).1 = t.record x.1 := by
      rw [← h.record]
      simpa using (Bool.or_eq_false_iff.1 hm).2
    have hle := hx.recorded (hz.missed hm) checked hnow
    have hr : ¬ START_BUDGET ≤ recent (t.handler .readStarts y.1).1 checked := hr
    rw [hread, recent_eq] at hr
    simp only [START_BUDGET, U32_MAX] at hr ⊢
    omega

/-- A quiet part before another. -/
theorem Tablet.quiet_bind {α β : Type} {p : DeviceM α} {f : α → DeviceM β} {T : β → W × Diary → Prop}
    (hp : p.Only Quiet) (h : t.Calm x y)
    (hf : ∀ a z, t.Calm x z → (f a).Safe t.noted (t.Calm x) (Prog.OnOk T) z) :
    (p.bind f).Safe t.noted (t.Calm x) (Prog.OnOk T) y :=
  (t.quiet_onOk hp h).bind_onOk hf

theorem call_quiet {o : DeviceOp} (ho : Quiet o) : (call o).Only Quiet := Prog.only_ask.2 ho

theorem stopForSession_admits {stock : Stock} (hx : t.Current x) (hnow : x.2.clock ≤ checked)
    (h : t.Calm x y) : (stock.stopForSession checked).Safe t.noted (t.Calm x)
      (Prog.OnOk fun _ z => t.Calm x z ∧ Admitted x checked z) y := by
  refine (t.allowsSession_admits hx hnow h).bind_onOk fun _ z₁ ⟨hc, ha⟩ => ?_
  have hkeep : ∀ z w, t.Calm x z ∧ Admitted x checked z → t.Calm z w →
      t.Calm x w ∧ Admitted x checked w := fun z w hz c => ⟨hz.1.trans c, hz.2.calm c⟩
  refine (t.quiet_safe hkeep ?_ ⟨hc, ha⟩).mono (fun _ h => h.1) fun _ _ _ h _ _ => h
  refine (call_quiet (o := .isActive) trivial).bind fun active => Prog.only_ofExcept.bind fun active => ?_
  split_ifs
  · trivial
  · exact (call_quiet (o := .stop) trivial).bind fun _ => Prog.only_ofExcept.bind fun _ => trivial

/-- A session that takes the display passed the check. -/
theorem Tablet.acquire_admits {stock : Stock} {within : ℕ} (hx : t.Current x)
    (hnow : x.2.clock ≤ checked) : (Takeover.acquire stock within checked).Safe t.noted (t.Calm x)
      (Prog.OnOk fun a z => t.Calm x z ∧ a.released = false ∧ Admitted x checked z) x := by
  refine t.quiet_dropping (call_quiet trivial) ?_
  refine t.quiet_bind (call_quiet trivial) .refl fun health y₁ h₁ => ?_
  refine t.quiet_bind Prog.only_ofExcept h₁ fun _ y₂ h₂ => ?_
  refine t.quiet_bind (call_quiet trivial) h₂ fun fit y₃ h₃ => ?_
  refine t.quiet_bind Prog.only_ofExcept h₃ fun _ y₄ h₄ => ?_
  refine t.quiet_bind (call_quiet trivial) h₄ fun locks y₅ h₅ => ?_
  refine t.quiet_bind Prog.only_ofExcept h₅ fun locks y₆ h₆ => ?_
  refine t.quiet_bind (call_quiet trivial) h₆ fun awake y₇ h₇ => ?_
  refine t.quiet_bind Prog.only_ofExcept h₇ fun _ y₈ h₈ => ?_
  refine t.quiet_dropping (call_quiet trivial) ?_
  refine Prog.Safe.bind_onOk (T := fun _ z => t.Calm x z ∧ Admitted x checked z) ?_
    fun stock z hz => ⟨hz.1, fun a ha => by cases ha; exact ⟨hz.1, rfl, hz.2⟩⟩
  refine t.quiet_bind (call_quiet trivial) h₈ fun armed y₉ h₉ => ?_
  refine t.quiet_bind Prog.only_ofExcept h₉ fun _ y₁₀ h₁₀ => ?_
  refine Prog.Safe.attempt_bind ((stopForSession_admits hx hnow h₁₀).mono (fun _ h => h)
    fun r z hc hq => ?_)
  cases r with
  | ok stock => exact ⟨hc, fun _ h => by cases h; exact hq _ rfl⟩
  | error e =>
    exact (t.quiet_onOk (call_quiet (o := .disarm) trivial) hc).bind_onOk
      fun _ w hw => ⟨hw, fun _ h => nomatch h⟩

/-! ## The starts -/

/-- A session that was admitted and issued at most `n` starts, with what the clock said last. -/
structure Tablet.Underway (t : Tablet W) (x₀ : W × Diary) (checked now n : ℕ) (x : W × Diary) :
    Prop where
  current : t.Current x
  clock : x.2.clock = now
  since : Since x₀ n x
  admitted : Admitted x₀ checked x

variable {now : ℕ}

theorem Tablet.Underway.calm (h : t.Underway x₀ checked now n x) (c : t.Calm x y) :
    t.Underway x₀ checked now n y :=
  ⟨h.current.calm c, c.clock.trans h.clock, h.since.calm c, h.admitted.calm c⟩

theorem Tablet.Underway.more (h : t.Underway x₀ checked now n x) :
    t.Underway x₀ checked now (n + 1) x := by
  obtain ⟨new, hs, hn⟩ := h.since
  exact ⟨h.current, h.clock, ⟨new, hs, hn.trans n.le_succ⟩, h.admitted⟩

/-- The record holds a stamp more than there were starts. -/
def Tablet.Ahead (t : Tablet W) (x : W × Diary) : Prop :=
  x.2.missed = false → ∀ later, x.2.clock ≤ later →
    live later x.2.stamps + live later [x.2.clock / second] ≤
      live later (stamps ((t.record x.1).getD ""))

/-- A write puts the record ahead of what was read, or is known to have failed. -/
theorem Tablet.write_ahead {contents : Option String} (h : t.Underway x₀ checked now n x)
    (hread : x.2.missed = false → contents = t.record x.1) :
    t.Underway x₀ checked now n (t.noted (.writeStarts (render (kept contents now))) x).2 ∧
      ((t.noted (.writeStarts (render (kept contents now))) x).1 = .ok () →
        t.Ahead (t.noted (.writeStarts (render (kept contents now))) x).2) := by
  have hclock : x.2.clock ≤ t.time (t.handler (.writeStarts (render (kept contents now))) x.1).2 :=
    h.current.clock.trans (t.passes _ x.1)
  cases hw : (t.handler (.writeStarts (render (kept contents now))) x.1).1 with
  | error e =>
    have hz : (t.noted (.writeStarts (render (kept contents now))) x).2.2 =
        { x.2 with missed := true } := by simp [Tablet.noted, Tablet.see, hw]
    refine ⟨⟨⟨by rwa [hz], fun hm => ?_⟩, ?_, ?_, fun hm => ?_⟩, fun hok => ?_⟩
    · simp [hz] at hm
    · rw [hz, h.clock]
    · rw [Since, hz]
      exact h.since
    · simp [hz] at hm
    · rw [Tablet.noted, hw] at hok
      cases hok
  | ok _ =>
    have hz : (t.noted (.writeStarts (render (kept contents now))) x).2.2 = x.2 := by
      simp [Tablet.noted, Tablet.see, hw]
    have hrec : t.record (t.noted (.writeStarts (render (kept contents now))) x).2.1 =
        some (render (kept contents now)) := t.writes _ _ hw
    have hfits : now / second < 2 ^ 64 :=
      (Nat.div_le_div_right (h.clock ▸ h.current.clock)).trans_lt (t.fits x.1)
    -- Each stamp that was counted still is, and the new one with them.
    have hahead (hm : x.2.missed = false) (later : ℕ) (hl : x.2.clock ≤ later) :
        live later x.2.stamps + live later [x.2.clock / second] ≤
          live later (stamps (render (kept contents now))) := by
      rw [h.clock, live_kept (h.clock ▸ hl) hfits, hread hm]
      exact Nat.add_le_add_right (h.current.recorded hm later hl) _
    refine ⟨⟨⟨by rwa [hz], fun hm later hl => ?_⟩, ?_, ?_, ?_⟩, fun _ hm later hl => ?_⟩
    · rw [hz] at hm hl ⊢
      rw [hrec]
      exact (Nat.le_add_right _ _).trans (hahead hm later hl)
    · rw [hz, h.clock]
    · rw [Since, hz]
      exact h.since
    · rw [Admitted, hz]
      exact h.admitted
    · rw [hz] at hm hl ⊢
      rw [hrec]
      exact hahead hm later hl

/-- Recording a start puts the record ahead, or is known to have failed. -/
theorem Tablet.record_ahead (h : t.Underway x₀ checked now n x) :
    (StartBudget.record now).Safe t.noted (t.Underway x₀ checked now n)
      (fun r y => t.Underway x₀ checked now n y ∧ (r = .ok () → t.Ahead y)) x := by
  have hy := h.calm (t.calm_step (o := .readStarts) trivial)
  have hread : (t.noted .readStarts x).2.2.missed = false →
      (t.handler .readStarts x.1).1 = t.record (t.noted .readStarts x).2.1 := by
    intro hm
    rw [show t.record (t.noted .readStarts x).2.1 = t.record x.1 from t.keeps _ _ nofun]
    simpa using (Bool.or_eq_false_iff.1 hm).2
  obtain ⟨hz, ha⟩ := t.write_ahead hy hread
  have hmap (r : Except IoError Unit) (hr : r.mapError (DeviceError.io "write to") = .ok ()) :
      r = .ok () := by
    cases r with
    | ok _ => rfl
    | error e => cases hr
  exact ⟨h, hy, Prog.safe_ofExcept.2 ⟨hz, hz, fun hok => ha (hmap _ hok)⟩⟩

/-- A start that the record is ahead of keeps the record current. -/
theorem Tablet.start_underway (h : t.Underway x₀ checked now n x) (ha : t.Ahead x) :
    t.Underway x₀ checked now (n + 1) (t.noted .start x).2 := by
  have hrec : t.record (t.noted .start x).2.1 = t.record x.1 := t.keeps _ _ nofun
  obtain ⟨new, hs, hn⟩ := h.since
  refine ⟨⟨h.current.clock.trans (t.passes .start x.1), fun hm later hl => ?_⟩, h.clock,
    ⟨new ++ [⟨t.time x.1, x.2.clock / second⟩], ?_, by simpa using hn⟩, h.admitted⟩
  · rw [hrec]
    simpa [Tablet.noted, Tablet.see, Diary.stamps] using ha hm later hl
  · simp [Tablet.noted, Tablet.see, hs]

/-- A quiet part of a session. -/
theorem Tablet.quiet_underway {ε α : Type} {p : Prog deviceSig ε α} (hp : p.Only Quiet)
    (h : t.Underway x₀ checked now n x) :
    p.Safe t.noted (t.Underway x₀ checked now n) (fun _ => t.Underway x₀ checked now n) x :=
  t.quiet_safe (fun _ _ => Tablet.Underway.calm) hp h

theorem Tablet.startOnce_underway (h : t.Underway x₀ checked now n x) :
    (Stock.startOnce now).Safe t.noted (t.Underway x₀ checked now (n + 1))
      (fun _ => t.Underway x₀ checked now (n + 1)) x := by
  have hclear : (call .resetFailed >>= fun cleared => Prog.ofExcept cleared : DeviceM Unit).Only
      Quiet := (call_quiet (o := .resetFailed) trivial).bind fun _ => Prog.only_ofExcept
  have more {y : W × Diary} : t.Underway x₀ checked now n y → t.Underway x₀ checked now (n + 1) y :=
    Tablet.Underway.more
  rw [Stock.startOnce, ← bind_assoc]
  refine ((t.quiet_underway hclear h).mono (fun _ => more) fun _ _ _ h => h).bind
    (fun _ y hy => ?_) fun _ _ hy => hy.more
  refine ((t.record_ahead hy).mono (fun _ => more) fun _ _ _ h => h).bind
    (fun _ z hz => ?_) fun _ _ hy => hy.1.more
  exact ⟨hz.1.more, t.quiet_underway Prog.only_ofExcept (t.start_underway hz.1 (hz.2 rfl))⟩

theorem Tablet.tryStart_underway (h : t.Underway x₀ checked now n x) :
    (Stock.tryStart now).Safe t.noted (t.Underway x₀ checked now (n + 1))
      (fun _ => t.Underway x₀ checked now (n + 1)) x := by
  refine (t.startOnce_underway h).bind (fun _ y hy => ?_) fun _ _ hy => hy
  exact t.quiet_underway ((call_quiet (o := .waitActive _) trivial).bind
    fun _ => Prog.only_ofExcept) hy

/-- A restore issues two starts at most. -/
theorem Tablet.restore_underway {stock : Stock} (h : t.Underway x₀ checked now 0 x) :
    (stock.restore now).Safe t.noted (t.Underway x₀ checked now 2)
      (fun _ => t.Underway x₀ checked now 2) x := by
  have hask : (call .isActive >>= fun active => Prog.ofExcept active : DeviceM Bool).Only
      Quiet := (call_quiet (o := .isActive) trivial).bind fun _ => Prog.only_ofExcept
  rw [Stock.restore, ← bind_assoc]
  refine ((t.quiet_underway hask h).mono (fun _ h => h.more.more) fun _ _ _ h => h).bind
    (fun active y hy => ?_) fun _ _ hy => hy.more.more
  split_ifs
  · exact ⟨hy.more.more, hy.more.more⟩
  refine ((t.tryStart_underway hy).mono (fun _ h => h.more) fun _ _ _ h => h).bind
    (fun active z hz => ?_) fun _ _ hz => hz.more
  split_ifs
  · exact ⟨hz.more, hz.more⟩
  refine (t.tryStart_underway hz).bind (fun active w hw => ?_) fun _ _ hw => hw
  split_ifs
  · exact ⟨hw, hw⟩
  · exact ⟨hw, hw⟩

theorem restore_quiet (locks : VendorLockState) : locks.restore.Only Quiet := by
  have hepd : (if locks.epdPresent then do
      let present ← call .epdExists
      if present then return () else Prog.fail .epdGone
    else return () : DeviceM Unit).Only Quiet := by
    split_ifs
    · refine (call_quiet (o := .epdExists) trivial).bind fun present => ?_
      split_ifs <;> trivial
    · trivial
  rw [VendorLockState.restore]
  cases locks.registry with
  | none =>
    refine (call_quiet (o := .removeRegistry) trivial).bind fun removed => ?_
    rcases removed with (_ | _) | _
    · exact hepd
    · trivial
    · exact hepd
  | some contents =>
    exact (call_quiet (o := .writeRegistry contents) trivial).bind fun _ =>
      Prog.only_ofExcept.bind fun _ => hepd

theorem lookUntilFree_quiet (locks : VendorLockState) (k : ℕ) :
    (Takeover.lookUntilFree locks k).Only Quiet := by
  have hclear : locks.isClear.Only Quiet :=
    (call_quiet (o := .readRegistry) trivial).bind fun _ => trivial
  induction k with
  | zero => exact hclear
  | succ k ih =>
    refine hclear.bind fun clear => ?_
    split_ifs
    · trivial
    · exact ih

/-- Giving the display back issues two starts at most, and is done once. -/
theorem Tablet.releaseInner_underway {a : Takeover} (ha : a.released = false)
    (h : t.Underway x₀ checked now 0 x) :
    (a.releaseInner now).Safe t.noted (t.Underway x₀ checked now 2)
      (fun r y => t.Underway x₀ checked now 2 y ∧ ∀ p, r = .ok p → p.2.released = true) x := by
  have hwait (restored : Except DeviceError Unit) :
      ({ a with released := true }.waitIfRestored restored).Only Quiet := by
    cases restored with
    | ok _ => exact (call_quiet (o := .looks) trivial).bind fun k => lookUntilFree_quiet _ k
    | error e => trivial
  rw [Takeover.releaseInner, if_neg (by rw [ha]; decide)]
  refine ((t.quiet_underway (restore_quiet _).attempt h).mono (fun _ h => h.more.more)
    fun _ _ _ h => h).bind (fun locksRestored y hy => ?_) fun _ _ hy => ⟨hy.more.more, fun _ hp => by cases hp⟩
  refine ((t.quiet_underway (hwait locksRestored) hy).mono (fun _ h => h.more.more)
    fun _ _ _ h => h).bind (fun freed z hz => ?_) fun _ _ hy => ⟨hy.more.more, fun _ hp => by cases hp⟩
  refine Prog.Safe.attempt_bind ((t.restore_underway hz).mono (fun _ h => h)
    fun restored w _ hw => ?_)
  have hdone {r : Except DeviceError Unit} {b : Takeover} {y : W × Diary}
      (hy : t.Underway x₀ checked now 2 y) (hb : b.released = true) :
      (Prog.done (r, b) : DeviceM (Except DeviceError Unit × Takeover)).Safe t.noted
        (t.Underway x₀ checked now 2)
        (fun r y => t.Underway x₀ checked now 2 y ∧ ∀ p, r = .ok p → p.2.released = true) y :=
    ⟨hy, hy, fun p hp => by cases hp; exact hb⟩
  cases freed with
  | false => cases restored <;> exact hdone hw rfl
  | true =>
    cases hwake : a.wake <;> cases restored
    · exact hdone hw rfl
    · exact ⟨hw, hdone (hw.calm (t.calm_step trivial)) rfl⟩
    · exact ⟨hw, hdone (hw.calm (t.calm_step trivial)) rfl⟩
    · have hr := hw.calm (t.calm_step (o := .releaseWake) trivial)
      exact ⟨hw, hr, hdone (hr.calm (t.calm_step trivial)) rfl⟩

/-! ## Sessions -/

/-- A session that was admitted and issued at most `n` starts. -/
structure Tablet.Over (t : Tablet W) (x₀ : W × Diary) (checked n : ℕ) (x : W × Diary) : Prop where
  current : t.Current x
  since : Since x₀ n x
  admitted : Admitted x₀ checked x

theorem Tablet.Over.calm (h : t.Over x₀ checked n x) (c : t.Calm x y) : t.Over x₀ checked n y :=
  ⟨h.current.calm c, h.since.calm c, h.admitted.calm c⟩

theorem Tablet.Over.more (h : t.Over x₀ checked 0 x) : t.Over x₀ checked 2 x := by
  obtain ⟨new, hs, hn⟩ := h.since
  exact ⟨h.current, ⟨new, hs, by omega⟩, h.admitted⟩

theorem Tablet.Underway.over (h : t.Underway x₀ checked now n x) : t.Over x₀ checked n x :=
  ⟨h.current, h.since, h.admitted⟩

/-- A look at the clock keeps the record current. -/
theorem Tablet.now_current (h : t.Current x) : t.Current (t.noted .now x).2 := by
  refine ⟨(t.tells x.1).2, fun hm later hl => ?_⟩
  rw [show t.record (t.noted .now x).2.1 = t.record x.1 from t.keeps _ _ nofun]
  exact h.recorded hm later ((h.clock.trans (t.tells x.1).1).trans hl)

theorem Tablet.now_over (h : t.Over x₀ checked n x) :
    t.Over x₀ checked n (t.noted .now x).2 ∧
      t.Underway x₀ checked (t.noted .now x).1 n (t.noted .now x).2 :=
  ⟨⟨t.now_current h.current, h.since, h.admitted⟩, t.now_current h.current, rfl, h.since, h.admitted⟩

/-- What is left of a takeover that was given back issues no start. -/
theorem Tablet.drop_parts {a : Takeover} (h : t.Over x₀ checked 2 x) :
    ((do
      if a.wake then call .releaseWake
      call .dropWatchdog : DeviceM Unit)).Safe t.noted (t.Over x₀ checked 2)
        (fun _ => t.Over x₀ checked 2) x := by
  refine t.quiet_safe (fun _ _ => Tablet.Over.calm) ?_ h
  split_ifs
  · exact (call_quiet (o := .releaseWake) trivial).bind fun _ => call_quiet trivial
  · exact call_quiet trivial

theorem Tablet.drop_released {a : Takeover} (ha : a.released = true) (h : t.Over x₀ checked 2 x) :
    a.drop.Safe t.noted (t.Over x₀ checked 2) (fun _ => t.Over x₀ checked 2) x := by
  refine ⟨h, ?_⟩
  simp only [Takeover.releaseInner_released ha]
  exact t.drop_parts (t.now_over h).1

theorem Tablet.drop_over {a : Takeover} (ha : a.released = false) (h : t.Over x₀ checked 0 x) :
    a.drop.Safe t.noted (t.Over x₀ checked 2) (fun _ => t.Over x₀ checked 2) x := by
  refine ⟨h.more, ((t.releaseInner_underway ha (t.now_over h).2).mono (fun _ h => h.over)
    fun _ _ _ h => h).bind (fun p y hy => ?_) fun _ _ hy => hy.1.over⟩
  exact t.drop_parts hy.1.over

theorem Tablet.release_over {a : Takeover} (ha : a.released = false)
    (h : t.Underway x₀ checked now 0 x) :
    (a.release now).Safe t.noted (t.Over x₀ checked 2) (fun _ => t.Over x₀ checked 2) x := by
  refine ((t.releaseInner_underway ha h).mono (fun _ h => h.over)
    fun _ _ _ h => h).bind (fun p y hy => ?_) fun _ _ hy => hy.1.over
  refine (t.drop_released (hy.2 p rfl) hy.1.over).bind (fun _ z hz => ?_) fun _ _ hz => hz
  exact Prog.safe_ofExcept.2 ⟨hz, hz⟩

/-- Where a session may be killed: it issued nothing yet, or passed its check and issued two starts at
most. -/
structure Tablet.Point (t : Tablet W) (x₀ : W × Diary) (checked : ℕ) (x : W × Diary) : Prop where
  current : t.Current x
  starts : x.2.starts = x₀.2.starts ∨ Since x₀ 2 x ∧ Admitted x₀ checked x

theorem Tablet.Over.point (h : t.Over x₀ checked 2 x) : t.Point x₀ checked x :=
  ⟨h.current, .inr ⟨h.since, h.admitted⟩⟩

theorem Tablet.sitting_safe (h : t.Current x) (within : ℕ) (released : Bool) :
    (sitting within released).Safe t.noted (t.Point x (t.checked x.1))
      (fun _ => t.Point x (t.checked x.1)) x := by
  have hnow := t.now_current h
  have hcalm (y : W × Diary) (hc : t.Calm (t.noted .now x).2 y) : t.Point x (t.checked x.1) y :=
    ⟨hnow.calm hc, .inl hc.starts⟩
  have hacquire : (Takeover.acquire .new within (t.checked x.1)).Safe t.noted
      (t.Point x (t.checked x.1)) (fun r y => t.Point x (t.checked x.1) y ∧ ∀ a, r = .ok a →
        t.Calm (t.noted .now x).2 y ∧ a.released = false ∧ Admitted x (t.checked x.1) y)
      (t.noted .now x).2 :=
    (t.acquire_admits hnow le_rfl).mono hcalm fun _ _ hc hq => ⟨hcalm _ hc, hq⟩
  refine ⟨⟨h, .inl rfl⟩, hacquire.bind (fun a y hy => ?_) fun _ y hy => hy.1⟩
  obtain ⟨hc, ha, hadm⟩ := hy.2 a rfl
  have hover : t.Over x (t.checked x.1) 0 y :=
    ⟨hnow.calm hc, ⟨[], by rw [hc.starts, List.append_nil]; rfl, le_rfl⟩, hadm⟩
  split_ifs
  · exact ⟨hover.more.point, (t.release_over ha (t.now_over hover).2).mono
      (fun _ h => h.point) fun _ _ _ h => h.point⟩
  · exact (t.drop_over ha hover).mono (fun _ h => h.point) fun _ _ _ h => h.point

end

end Paperclip.Device
