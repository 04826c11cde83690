import Paperclip.Updater.Departure
import Paperclip.Updater.Orderly
import Paperclip.Updater.Selection

/-!
# A reconcile that is run again

A reconcile can be stopped at any step, any number of times. What it would leave depends only on the
journal, the releases and the snapshot, and on the platform state where there is no snapshot; it
changes none of these before the last step, which closes the journal. So the reconcile that is run
to its end leaves the same layout wherever the others stopped.

* `World.layout`: the links, the journal and the platform state. `World.settled`: the layout that a
  reconcile leaves.
* `reconcile_settles`: every point of a reconcile settles where its start does.
* `Interrupted`: the worlds that reconciles from a world leave when they are stopped.
-/

namespace Paperclip.Updater

open Crash Files Prog

/-! ## Layouts -/

/-- The links, the journal, and the entries of the platform state. -/
@[ext] structure Layout where
  current : Option Link
  previous : Option Link
  journal : Option JournalFile
  state : Option (Path → Option Entry)

namespace World

variable (w : World)

def layout : Layout :=
  ⟨w.link .current, w.link .previous, w.journal, w.state.map Files.Tree.get⟩

/-- Whether both links can be read. -/
def Readable : Prop := ∀ slot, ∃ v, w.link slot = linkTo v

/-- Whether what `current` is to name is there. -/
def CanRevert (r : Record) : Prop := ∀ v, r.from_ = some v → (w.release v).isSome

/-- The platform state once the snapshot of `r` is put back, if there is one. -/
def restored (r : Record) : Option (Path → Option Entry) :=
  match r.snapshot.bind w.disk.dir with
  | some t => some t.plain
  | none => w.state.map Files.Tree.get

/-- The layout once the candidate of `r` is discarded. -/
def discarded (r : Record) : Layout :=
  { w.layout with journal := some (.record { r with staged := none, phase := .failed }) }

/-- The layout once the links and the platform state are back at what they were before `r`. -/
def reverted (r : Record) : Layout where
  current := linkTo r.from_
  previous := (view (w, [])).fallbackLink r.previousBefore
  journal := some (.record { r with phase := .rolledBack })
  state := w.restored r

open Classical in
/-- The layout that a reconcile leaves. -/
noncomputable def settled : Layout :=
  match w.journal with
  | some (.record r) =>
    match r.phase with
    | .prepare => if w.Readable then w.discarded r else w.layout
    | .activate | .verify => if w.CanRevert r then w.reverted r else w.layout
    | .commit | .rolledBack | .failed => w.layout
  | _ => w.layout

/-- A record in flight names only directories of its own. -/
def Tidy : Prop := ∀ r, w.journal = some (.record r) → r.phase.isTerminal = false → r.Tidy

end World

theorem linkRead_eq_ok {slot : Slot} {target : Option Link} {v : Option Version} :
    linkRead slot target = .ok v ↔ target = linkTo v := by
  rcases target with - | (k | text) <;> cases v <;> simp [linkRead, linkTo]

section Settled

variable {w w' : World} {r : Record}

theorem settled_idle (h : Idle w.journal) : w.settled = w.layout := by
  unfold World.settled
  rcases hj : w.journal with - | (r | reason)
  · rfl
  · rw [hj] at h
    have hterminal : r.phase.isTerminal = true := h
    cases hphase : r.phase
    case prepare | activate | verify => rw [hphase] at hterminal; cases hterminal
    all_goals simp only [hphase]
  · rfl

theorem settled_prepare (hj : w.journal = some (.record r)) (hphase : r.phase = .prepare) :
    (w.Readable → w.settled = w.discarded r) ∧ (¬ w.Readable → w.settled = w.layout) := by
  unfold World.settled
  simp only [hj, hphase]
  exact ⟨fun h => if_pos h, fun h => if_neg h⟩

theorem settled_revert (hj : w.journal = some (.record r))
    (hphase : r.phase = .activate ∨ r.phase = .verify) :
    (w.CanRevert r → w.settled = w.reverted r) ∧ (¬ w.CanRevert r → w.settled = w.layout) := by
  unfold World.settled
  rcases hphase with hphase | hphase <;> simp only [hj, hphase] <;>
    exact ⟨fun h => if_pos h, fun h => if_neg h⟩

theorem restored_none (h : r.snapshot.bind w.disk.dir = none) :
    w.restored r = w.state.map Files.Tree.get := by
  rw [World.restored, h]

theorem restored_some {t : Tree} (h : r.snapshot.bind w.disk.dir = some t) :
    w.restored r = some t.plain := by
  rw [World.restored, h]

end Settled

/-! ## What a part of a reconcile leaves alone -/

/-- No session runs, and what `U` and `N` do not name is on the disk as it was. -/
structure Apart (U : Place → Prop) (N : Doc → Prop) (w w' : World) : Prop where
  running : w'.running = false
  dir : ∀ p, ¬ U p → w'.disk.dir p = w.disk.dir p
  doc : ∀ d, ¬ N d → w'.disk.doc d = w.disk.doc d

section Apart

variable {s : Session} {U : Place → Prop} {N : Doc → Prop} {w w' w'' : World} {α : Type}

theorem Apart.self (hw : w.running = false) : Apart U N w w := ⟨hw, fun _ _ => rfl, fun _ _ => rfl⟩

theorem Apart.trans (h : Apart U N w w') (h' : Apart U N w' w'') : Apart U N w w'' where
  running := h'.running
  dir p hp := (h'.dir p hp).trans (h.dir p hp)
  doc d hd := (h'.doc d hd).trans (h.doc d hd)

theorem Apart.mono {U' : Place → Prop} {N' : Doc → Prop} (h : Apart U N w w')
    (hU : ∀ p, U p → U' p) (hN : ∀ d, N d → N' d) : Apart U' N' w w' :=
  ⟨h.running, fun p hp => h.dir p fun hu => hp (hU p hu), fun d hd => h.doc d fun hn => hd (hN d hn)⟩

/-- A step that stays within `U` and `N`, while no session runs. -/
theorem Apart.step {op : UpdaterSig.Op} (hop : Within U N op) (h : Apart U N w w') :
    Apart U N w (handle s op w').2 := by
  rcases op with o | o
  · have hdisk : (handle s (.inl o) w').2.disk = (o.exec s.order w'.disk).2 :=
      congrArg (fun d => (o.exec s.order d).2) (settle_of_not_running h.running)
    refine ⟨h.running, fun p hp => ?_, fun d hd => ?_⟩
    · rw [hdisk, FsOp.exec_dir _ _ _ fun hm => hp (hop.1 _ hm)]
      exact h.dir p hp
    · rw [hdisk, FsOp.exec_doc _ _ _ fun hm => hd (hop.2 _ hm)]
      exact h.doc d hd
  · exact hop.elim

/-- Every point of a program that stays within `U` and `N` is apart from them. -/
theorem apart_of_only {p : SessionProg α} (hp : p.Only (Within U N)) (h : Apart U N w w') :
    p.Safe (handle s) (Apart U N w) (fun _ => Apart U N w) w' :=
  Safe.of_only hp (fun _ _ hop h => h.step hop) h

/-- What a rule about views says of a program, without the log. -/
theorem Runs.safe {A : View → Prop} {Q : Except UpdateError α → View → Prop} {p : SessionProg α}
    (h : Runs s A p (view (w, [])) Q) :
    p.Safe (handle s) (fun w' => ∃ log, A (view (w', log)))
      (fun r w' => ∃ log, Q r (view (w', log))) w := by
  refine safe_iff.mpr ⟨fun w' hw' => ?_, _, h.ends⟩
  obtain ⟨log, hlog⟩ := exists_logged_point (handle s) emit [] hw'
  exact ⟨log, h.visits hlog⟩

/-- A document that is not among `N`, and a directory that is not among `U`. -/
theorem Apart.layout (h : Apart U N w w') (hU : ¬ U .platformState) (hN : ∀ d, ¬ N d) :
    w'.layout = w.layout := by
  simp only [World.layout, World.link, World.journal, World.state, h.dir _ hU, h.doc _ (hN _)]

end Apart

/-! ## Every point of a reconcile -/

/-- At rest, with the same layout to come. -/
structure Settles (w w' : World) : Prop where
  running : w'.running = false
  tidy : w'.Tidy
  settled : w'.settled = w.settled

section Reconcile

variable {s : Session} {w w' : World} {r : Record}

/-- The end of a reconcile: the layout is there, and nothing is in flight if it succeeded. -/
def Settled (w : World) (res : Except UpdateError Reconciled) (w' : World) : Prop :=
  w'.layout = w.settled ∧ ((∃ done, res = .ok done) ↔ Idle w'.journal)

theorem Settled.ok {done : Reconciled} (h : w'.layout = w.settled) (hidle : Idle w'.journal) :
    Settled w (.ok done) w' := ⟨h, fun _ => hidle, fun _ => ⟨done, rfl⟩⟩

theorem Settled.error {e : UpdateError} (h : w'.layout = w.settled) (hopen : ¬ Idle w'.journal) :
    Settled w (.error e) w' := ⟨h, ⟨fun ⟨_, h⟩ => (by cases h), fun h => absurd h hopen⟩⟩

theorem not_idle (hj : w'.journal = some (.record r)) (hphase : r.phase.isTerminal = false) :
    ¬ Idle w'.journal := fun h => by
  rw [hj] at h
  cases hphase.symm.trans h

/-- A world with a closed journal has settled. -/
theorem Settles.closed (hrun : w'.running = false) (hj : w'.journal = some (.record r))
    (hr : r.phase.isTerminal = true) (h : w'.layout = w.settled) : Settles w w' where
  running := hrun
  tidy r' hr' hphase := by
    rw [hj] at hr'
    cases hr'
    rw [hr] at hphase
    cases hphase
  settled := by
    rw [← h]
    exact settled_idle (hj ▸ hr)

/-- A world that is apart from the journal has the same record, and it is as tidy. -/
theorem Apart.settles {U : Place → Prop} {N : Doc → Prop} (h : Apart U N w w') (hN : ¬ N .journal)
    (htidy : w.Tidy) (hsettled : w'.settled = w.settled) : Settles w w' where
  running := h.running
  tidy r hr := htidy r ((h.doc .journal hN).symm.trans hr)
  settled := hsettled

section Discard

/-- Discarding a candidate where the links can be read. -/
theorem discard_readable (hw : w.running = false) (htidy : w.Tidy)
    (hj : w.journal = some (.record r)) (hphase : r.phase = .prepare) (hread : w.Readable) :
    (discard r).Safe (handle s) (Settles w) (Settled w) w := by
  have ht : r.Tidy := htidy r hj (by rw [hphase]; rfl)
  have hsettled := (settled_prepare hj hphase).1 hread
  have hframe := apart_of_only (s := s)
    (only_discard (U := (· ≠ .platformState)) (N := (· = .journal)) (fun p hp => by
      obtain ⟨_, rfl⟩ := ht.1 p hp
      simp) (by simp) rfl) (Apart.self hw)
  have hlayout : ∀ {w'}, Apart (· ≠ .platformState) (· = .journal) w w' →
      w'.layout = { w.layout with journal := w'.journal } := fun {w'} h => by
    simp only [World.layout, World.link, World.state, h.dir .platformState (fun hp => hp rfl),
      h.doc (.link _) (by simp)]
  -- the journal is closed in the last step, and has the record until then
  have hclosed : ∀ {w'}, Apart (· ≠ .platformState) (· = .journal) w w' →
      w'.journal = some (.record { r with staged := none, phase := .failed }) →
      w'.layout = w.settled := fun {w'} h hjournal => by
    rw [hlayout h, hsettled, hjournal]
    rfl
  have hrule := (runs_discard (s := s) (V := view (w, [])) (r := r)
    (A := fun V => V.journal = w.journal ∨
      V.journal = some (.record { r with staged := none, phase := .failed }))
    (fun slot => by cases slot <;> exact hread _) ht.1 (fun _ _ => .inl rfl) fun _ _ => .inr rfl).safe
  refine (hframe.and hrule).mono ?_ ?_
  · rintro w' ⟨hapart, log, hjournal | hjournal⟩
    · have hjournal : w'.journal = w.journal := hjournal
      have hsame : w'.layout = w.layout := (hlayout hapart).trans (by rw [hjournal]; rfl)
      have hread' : w'.Readable := fun slot => by
        rw [World.link, hapart.doc (.link slot) (by simp)]
        exact hread slot
      refine ⟨hapart.running, fun r' hr' => htidy r' (hjournal ▸ hr'), ?_⟩
      rw [hsettled, (settled_prepare (hjournal.trans hj) hphase).1 hread', World.discarded, hsame]
      rfl
    · exact .closed hapart.running hjournal rfl (hclosed hapart hjournal)
  · rintro res w' - ⟨hapart, log, rfl, R, -, hV⟩
    have hjournal : w'.journal = some (.record { r with staged := none, phase := .failed }) :=
      congrArg View.journal hV
    exact .ok (hclosed hapart hjournal) (hjournal ▸ rfl)

/-- Where a link cannot be read the candidate stays, and so does its record. -/
theorem discard_unreadable (hw : w.running = false) (htidy : w.Tidy)
    (hj : w.journal = some (.record r)) (hphase : r.phase = .prepare) (hread : ¬ w.Readable) :
    (discard r).Safe (handle s) (Settles w) (Settled w) w := by
  have ht : r.Tidy := htidy r hj (by rw [hphase]; rfl)
  have hsettled := (settled_prepare hj hphase).2 hread
  have hlayout : ∀ {w'}, Apart (· ≠ .platformState) (fun _ => False) w w' → w'.layout = w.layout :=
    fun h => h.layout (fun hp => hp rfl) fun _ => id
  suffices happart : (discard r).Safe (handle s) (Apart (· ≠ .platformState) (fun _ => False) w)
      (fun res w' => (∃ e, res = .error e) ∧ Apart (· ≠ .platformState) (fun _ => False) w w') w by
    refine happart.mono (fun w' h => ?_) ?_
    · have hread' : ¬ w'.Readable := fun hr => hread fun slot => by
        have hlink := hr slot
        rwa [World.link, h.doc (.link slot) id] at hlink
      have hjournal : w'.journal = w.journal := h.doc .journal id
      refine h.settles id htidy ?_
      rw [hsettled, (settled_prepare (hjournal.trans hj) hphase).2 hread', hlayout h]
    · rintro res w' - ⟨⟨e, rfl⟩, h⟩
      exact .error ((hlayout h).trans hsettled.symm)
        (not_idle ((h.doc .journal id).trans hj) (by rw [hphase]; rfl))
  have hstaged : (removeStaged r.staged : SessionProg Unit).Only
      (Within (· ≠ .platformState) fun _ => False) := by
    cases hs : r.staged with
    | none => trivial
    | some p =>
      obtain ⟨_, rfl⟩ := ht.1 p hs
      exact (only_removeTree (by simp)).ignore
  have hlook : ∀ slot {w'}, Apart (· ≠ .platformState) (fun _ => False) w w' →
      (readSelection slot : SessionProg (Option Version)).Safe (handle s)
        (Apart (· ≠ .platformState) (fun _ => False) w) (fun res w'' =>
          Apart (· ≠ .platformState) (fun _ => False) w w'' ∧ ∀ v, res = .ok v →
            w.link slot = linkTo v) w' := fun slot w' h => by
    refine ((apart_of_only (only_readSelection slot) h).and
      (runs_readSelection slot (A := fun _ => True) trivial).safe).mono (fun _ h => h.1) ?_
    rintro res w'' - ⟨h', log, hres, -⟩
    refine ⟨h', fun v hv => ?_⟩
    have hlink : w'.link slot = w.link slot := h.doc (.link slot) id
    rw [← hlink]
    cases slot <;> exact linkRead_eq_ok.mp (hres.symm.trans hv)
  refine (apart_of_only hstaged (Apart.self hw)).bind (fun _ w₁ h₁ => ?_) fun e w₁ h₁ => ⟨⟨e, rfl⟩, h₁⟩
  refine (hlook .current h₁).bind (fun c w₂ hq => ?_) fun e w₂ hq => ⟨⟨e, rfl⟩, hq.1⟩
  obtain ⟨h₂, hcurrent⟩ := hq
  refine (hlook .previous h₂).bind (fun p w₃ hq => ?_) fun e w₃ hq => ⟨⟨e, rfl⟩, hq.1⟩
  refine absurd (fun slot => ?_) hread
  cases slot
  · exact ⟨c, hcurrent c rfl⟩
  · exact ⟨p, hq.2 p rfl⟩

end Discard

section Revert

/-- The places that a revert writes to: the platform state only if there is a snapshot. -/
def Rewrites (w : World) (r : Record) (p : Place) : Prop :=
  p = .restoring ∨ p = .platformState ∧ (r.snapshot.bind w.disk.dir).isSome

/-- What a revert does before it closes the journal. -/
abbrev Reverting (w : World) (r : Record) : World → Prop := Apart (Rewrites w r) (· ≠ .journal) w

theorem not_rewrites_snapshots {name : String} : ¬ Rewrites w r (.snapshots name) := by
  rintro (h | ⟨h, -⟩) <;> cases h

theorem not_rewrites_release {v : Version} : ¬ Rewrites w r (releaseDir v) := by
  rintro (h | ⟨h, -⟩) <;> cases h

namespace Reverting

theorem snapshot (h : Reverting w r w') (ht : r.Tidy) :
    r.snapshot.bind w'.disk.dir = r.snapshot.bind w.disk.dir := by
  cases hs : r.snapshot with
  | none => rfl
  | some p =>
    obtain ⟨name, rfl⟩ := ht.2 p hs
    exact h.dir _ not_rewrites_snapshots

theorem release (h : Reverting w r w') : w'.release = w.release :=
  funext fun _ => h.dir _ not_rewrites_release

theorem restored (h : Reverting w r w') (ht : r.Tidy) : w'.restored r = w.restored r := by
  have hsame := h.snapshot ht
  cases hs : r.snapshot.bind w.disk.dir with
  | none =>
    have hstate : ¬ Rewrites w r .platformState := by
      rintro (h | ⟨-, h⟩)
      · cases h
      · rw [hs] at h
        cases h
    rw [restored_none hs, restored_none (hsame.trans hs)]
    exact congrArg (Option.map Files.Tree.get) (h.dir _ hstate)
  | some t => rw [restored_some hs, restored_some (hsame.trans hs)]

theorem reverted (h : Reverting w r w') (ht : r.Tidy) : w'.reverted r = w.reverted r := by
  have hlink : (view (w', [])).fallbackLink r.previousBefore =
      (view (w, [])).fallbackLink r.previousBefore := by
    unfold View.fallbackLink
    rw [show (view (w', [])).release = (view (w, [])).release from h.release]
  simp only [World.reverted, hlink, h.restored ht]

theorem settles (h : Reverting w r w') (htidy : w.Tidy) (hj : w.journal = some (.record r))
    (hphase : r.phase = .activate ∨ r.phase = .verify) (hcan : w.CanRevert r) : Settles w w' := by
  have ht : r.Tidy := htidy r hj (by rcases hphase with hphase | hphase <;> rw [hphase] <;> rfl)
  have hjournal : w'.journal = w.journal := h.doc .journal (by simp)
  have hcan' : w'.CanRevert r := fun v hv => by
    rw [h.release]
    exact hcan v hv
  refine Apart.settles h (by simp) htidy ?_
  rw [(settled_revert hj hphase).1 hcan, (settled_revert (hjournal.trans hj) hphase).1 hcan',
    h.reverted ht]

end Reverting

/-- A restore leaves the platform state of the snapshot, or the one that was there. -/
theorem restoreSnapshot_reverting {w₁ : World} (h : Reverting w r w₁) (ht : r.Tidy) :
    (restoreSnapshot r : SessionProg Bool).Safe (handle s) (Apart (Rewrites w r) (fun _ => False) w₁)
      (fun res w' => Apart (Rewrites w r) (fun _ => False) w₁ w' ∧ (∃ b, res = .ok b) ∧
        w'.state.map Files.Tree.get = w.restored r) w₁ := by
  have hself : Apart (Rewrites w r) (fun _ => False) w₁ w₁ := Apart.self h.running
  rw [← h.restored ht]
  cases hb : r.snapshot.bind w₁.disk.dir with
  | none =>
    rw [restored_none hb]
    unfold restoreSnapshot
    cases hs : r.snapshot with
    | none => exact ⟨hself, hself, ⟨_, rfl⟩, rfl⟩
    | some p =>
      have hp : w₁.disk.dir p = none := by rwa [hs] at hb
      have hlook := safe_of_idle (s := s) ((only_isDirectory (U := fun _ => False)
        (N := fun _ => False) p).mono fun _ => Within.fsOnly) h.running
        (isDirectory_spec (serves_idle s) trivial)
      refine (((apart_of_only (only_isDirectory p) hself).and hlook).mono (fun _ h => h.1)
        fun _ _ _ h => h).bind (fun b w₂ hq => ?_) fun e w₂ hq => by cases hq.2.1
      obtain ⟨happart, hres, hdir⟩ := hq
      rw [hp] at hres
      cases hres
      exact ⟨happart, happart, ⟨_, rfl⟩, congrArg (Option.map Files.Tree.get) (hdir .platformState trivial)⟩
  | some t =>
    rw [restored_some hb]
    obtain ⟨p, hs, hp⟩ := Option.bind_eq_some_iff.mp hb
    obtain ⟨name, rfl⟩ := ht.2 p hs
    have hthere : (r.snapshot.bind w.disk.dir).isSome := by rw [← h.snapshot ht, hb]; rfl
    have honly : (restoreSnapshot r : SessionProg Bool).Only
        (Within (Rewrites w r) fun _ => False) :=
      only_restoreSnapshot (.inr ⟨rfl, hthere⟩) (.inl rfl) r
    have hrestore := safe_of_idle (honly.mono fun _ => Within.fsOnly) h.running
      (restoreSnapshot_idle (s := s) hs (by simp) hp)
    refine ((apart_of_only honly hself).and hrestore).mono (fun _ h => h.1) ?_
    rintro res w' - ⟨happart, rfl, t', hstate, hget⟩
    refine ⟨happart, ⟨_, rfl⟩, ?_⟩
    rw [hstate]
    exact congrArg some (funext hget)

/-- Putting the links and the state back, where what `current` is to name is there. -/
theorem revert_there (hw : w.running = false) (htidy : w.Tidy) (hj : w.journal = some (.record r))
    (hphase : r.phase = .activate ∨ r.phase = .verify) (hcan : w.CanRevert r) :
    ((revertLinks r).bind fun _ => (restoreSnapshot r).bind fun stateRestored =>
      (Journal.advance r .rolledBack).bind fun _ =>
        Prog.done (Reconciled.reverted r.to_ r.from_ stateRestored) :
      SessionProg Reconciled).Safe (handle s) (Settles w) (Settled w) w := by
  have ht : r.Tidy := htidy r hj (by rcases hphase with hphase | hphase <;> rw [hphase] <;> rfl)
  have hsettles : ∀ {w'}, Reverting w r w' → Settles w w' := fun h =>
    h.settles htidy hj hphase hcan
  -- the links
  have hlinks := (apart_of_only (s := s) (only_revertLinks (U := Rewrites w r)
    (N := (· ≠ .journal)) (fun slot => by simp) r) (Apart.self hw)).and
    (runs_revertLinks (s := s) (A := fun _ => True) (V := view (w, [])) r trivial
      (fun _ => trivial) fun _ => trivial).safe
  refine (hlinks.mono (fun _ h => hsettles h.1) fun _ _ _ h => h).bind (fun _ w₁ hq => ?_) ?_
  swap
  · rintro e w₁ ⟨-, log, ⟨h, -⟩ | ⟨⟨v, hv, hgone, -⟩, -⟩⟩
    · cases h
    · exact absurd (hcan v hv) (by rw [show w.release v = (view (w, [])).release v from rfl, hgone]; simp)
  obtain ⟨h₁, log, ⟨-, -, hview⟩ | ⟨⟨_, _, _, h⟩, -⟩⟩ := hq
  swap
  · cases h
  have hcurrent₁ : w₁.link .current = linkTo r.from_ := congrArg View.current hview
  have hprevious₁ : w₁.link .previous = (view (w, [])).fallbackLink r.previousBefore :=
    congrArg View.previous hview
  -- the platform state
  refine ((restoreSnapshot_reverting h₁ ht).mono (fun w' h => hsettles (h₁.trans (h.mono
    (fun _ => id) fun _ => False.elim))) fun _ _ _ h => h).bind (fun b w₂ hq => ?_) ?_
  swap
  · rintro e w₂ ⟨-, ⟨b, h⟩, -⟩
    cases h
  obtain ⟨h₂, -, hstate⟩ := hq
  have hreverting := h₁.trans (h₂.mono (fun _ => id) fun _ => False.elim)
  -- the journal
  have hclose := (apart_of_only (s := s) (only_advance (U := fun _ => False) (N := (· = .journal))
    rfl r .rolledBack) (Apart.self h₂.running)).and
    (runs_advance (s := s) (V := view (w₂, [])) (A := fun V => V.journal = w₂.journal ∨
      V.journal = some (.record { r with phase := .rolledBack })) r .rolledBack (.inl rfl)
      (.inr rfl)).safe
  have hend : ∀ {w'}, Apart (fun _ => False) (· = .journal) w₂ w' →
      w'.journal = some (.record { r with phase := .rolledBack }) → w'.layout = w.settled := by
    intro w' h hjournal
    rw [(settled_revert hj hphase).1 hcan]
    refine Layout.ext ?_ ?_ hjournal ?_
    · exact (h.doc (.link .current) (by simp)).trans ((h₂.doc (.link .current) id).trans hcurrent₁)
    · exact (h.doc (.link .previous) (by simp)).trans
        ((h₂.doc (.link .previous) id).trans hprevious₁)
    · exact (congrArg (Option.map Files.Tree.get) (h.dir .platformState id)).trans hstate
  refine (hclose.mono ?_ fun _ _ _ h => h).bind (fun _ w₃ hq => ?_) ?_
  · rintro w' ⟨h, log, hjournal | hjournal⟩
    · refine hsettles (hreverting.trans ⟨h.running, fun p _ => h.dir p id, fun d hd => ?_⟩)
      rw [not_not.mp hd]
      exact hjournal
    · exact .closed h.running hjournal rfl (hend h hjournal)
  · obtain ⟨h₃, log, -, hview⟩ := hq
    have hjournal : w₃.journal = some (.record { r with phase := .rolledBack }) :=
      congrArg View.journal hview
    exact ⟨.closed h₃.running hjournal rfl (hend h₃ hjournal),
      .ok (hend h₃ hjournal) (hjournal ▸ rfl)⟩
  · rintro e w₃ ⟨-, log, h, -⟩
    cases h

/-- Where what `current` is to name is gone, nothing changes. -/
theorem revert_gone (hw : w.running = false) (htidy : w.Tidy) (hj : w.journal = some (.record r))
    (hphase : r.phase = .activate ∨ r.phase = .verify) (hcan : ¬ w.CanRevert r) {α : Type}
    {f : Unit → SessionProg α} :
    ((revertLinks r).bind f).Safe (handle s) (Settles w)
      (fun res w' => (∃ e, res = .error e) ∧ w'.layout = w.settled ∧ ¬ Idle w'.journal) w := by
  have hsettled := (settled_revert hj hphase).2 hcan
  have hsame : ∀ {w' log}, Apart (fun _ => False) (· ≠ .journal) w w' →
      (view (w', log)).current = w.link .current ∧ (view (w', log)).previous = w.link .previous →
      w'.layout = w.layout := fun h hlinks =>
    Layout.ext hlinks.1 hlinks.2 (h.doc .journal (by simp))
      (congrArg (Option.map Files.Tree.get) (h.dir .platformState id))
  have hlinks := (apart_of_only (s := s) (only_revertLinks (U := fun _ => False)
    (N := (· ≠ .journal)) (fun slot => by simp) r) (Apart.self hw)).and
    (runs_revertLinks (s := s) (V := view (w, [])) (A := fun V => V.current = w.link .current ∧
      V.previous = w.link .previous) r ⟨rfl, rfl⟩ (fun h => absurd h hcan)
      fun h => absurd h hcan).safe
  refine (hlinks.mono ?_ fun _ _ _ h => h).bind (fun _ w₁ hq => ?_) ?_
  · rintro w' ⟨h, log, hlinks⟩
    have hjournal : w'.journal = w.journal := h.doc .journal (by simp)
    have hcan' : ¬ w'.CanRevert r := fun hr => hcan fun v hv => by
      have hthere := hr v hv
      rwa [World.release, h.dir _ id] at hthere
    refine h.settles (by simp) htidy ?_
    rw [hsettled, (settled_revert (hjournal.trans hj) hphase).2 hcan', hsame h hlinks]
  · obtain ⟨-, log, ⟨-, hthere, -⟩ | ⟨⟨_, _, _, h⟩, -⟩⟩ := hq
    · exact absurd hthere hcan
    · cases h
  · rintro e w' ⟨h, log, ⟨-, hthere, -⟩ | ⟨-, hview⟩⟩
    · exact absurd hthere hcan
    · refine ⟨⟨e, rfl⟩, (hsame h ⟨congrArg View.current hview,
        congrArg View.previous hview⟩).trans hsettled.symm, ?_⟩
      exact not_idle ((h.doc .journal (by simp)).trans hj)
        (by rcases hphase with hphase | hphase <;> rw [hphase] <;> rfl)

end Revert

/-- The layout to come is about the disk alone. -/
theorem settled_of_disk (h : w'.disk = w.disk) : w'.settled = w.settled := by
  obtain ⟨disk, tick, clock, running⟩ := w
  obtain ⟨disk', tick', clock', running'⟩ := w'
  cases h
  rfl

/-- Reading the journal is one look at it. -/
theorem run_readJournal : (Journal.read : SessionProg (Option Record)).run (handle s) w =
    (journalRead w.journal, w.next s (settle s w)) := by
  have hdoc : (settle s w).doc .journal = w.journal := settle_doc _
  have hget : (io (.get .journal) : SessionProg (Option JournalFile)).run (handle s) w =
      (.ok w.journal, w.next s (settle s w)) := by
    rw [← hdoc]
    rfl
  unfold Journal.read
  refine (run_bind _ _ _ _).trans ?_
  rw [hget]
  rcases w.journal with - | (r | reason) <;> rfl

theorem readJournal_settles (hw : w.running = false) :
    (Journal.read : SessionProg (Option Record)).Safe (handle s)
      (fun w' => w'.running = false ∧ w'.disk = w.disk) (fun res w' => res = journalRead w.journal ∧
        w'.running = false ∧ w'.disk = w.disk) w := by
  have honly : (Journal.read : SessionProg (Option Record)).Only
      fun op : UpdaterSig.Op => op = .inl (.get .journal) := by
    refine Only.bind (Only.mapError (only_fs.mpr rfl)) fun file => ?_
    split <;> trivial
  refine safe_iff.mpr ⟨fun w' hw' => ?_, ?_⟩
  · refine (Safe.of_only (I := fun w' => w'.running = false ∧ w'.disk = w.disk) honly ?_
      ⟨hw, rfl⟩).points hw'
    rintro op w' rfl ⟨hrun, hdisk⟩
    exact ⟨hrun, (settle_of_not_running hrun).trans hdisk⟩
  · rw [run_readJournal]
    exact ⟨rfl, hw, settle_of_not_running hw⟩

/-- Every point of a reconcile has the layout to come of its start, and its end has that layout. -/
theorem reconcile_settles (hw : w.running = false) (htidy : w.Tidy) :
    (reconcile : SessionProg Reconciled).Safe (handle s) (Settles w) (Settled w) w := by
  have hsame : ∀ {w'}, w'.running = false → w'.disk = w.disk → Settles w w' := fun hrun h =>
    ⟨hrun, fun r hr => htidy r (by rw [← hr, World.journal, World.journal, h]), settled_of_disk h⟩
  have hlayout : ∀ {w' : World}, w'.disk = w.disk → w'.layout = w.layout := fun h => by
    simp only [World.layout, World.link, World.journal, World.state, h]
  refine ((readJournal_settles hw).mono (fun w' h => hsame h.1 h.2) fun _ _ _ h => h).bind
    (fun file w₁ hq => ?_) fun e w₁ hq => ?_
  swap
  · obtain ⟨hres, -, hdisk⟩ := hq
    rcases hj : w.journal with - | (r | reason) <;> rw [hj] at hres
    · cases hres
    · cases hres
    · have hj₁ : w₁.journal = some (.corrupt reason) := by
        rw [← hj, World.journal, World.journal, hdisk]
      exact .error (by rw [hlayout hdisk, World.settled, hj]) fun h => by rwa [hj₁] at h
  obtain ⟨hres, hrun, hdisk⟩ := hq
  have hself := hsame hrun hdisk
  have hj₁ : w₁.journal = w.journal := by rw [World.journal, World.journal, hdisk]
  have hidle : ∀ {done}, Idle w₁.journal → (Prog.done done : SessionProg Reconciled).Safe (handle s)
      (Settles w) (Settled w) w₁ := fun h =>
    ⟨hself, .ok ((settled_idle h).symm.trans hself.settled) h⟩
  -- the rest starts from a world with the same disk
  have hmono : ∀ {p : SessionProg Reconciled}, p.Safe (handle s) (Settles w₁) (Settled w₁) w₁ →
      p.Safe (handle s) (Settles w) (Settled w) w₁ := fun h => h.mono
    (fun _ h => ⟨h.running, h.tidy, h.settled.trans hself.settled⟩)
    fun _ _ _ h => ⟨h.1.trans hself.settled, h.2⟩
  rw [← hj₁] at hres
  rcases hj : w₁.journal with - | (r | reason) <;> rw [hj] at hres <;> cases hres
  · exact hidle (hj ▸ trivial)
  have hrevert : ∀ (hphase : r.phase = .activate ∨ r.phase = .verify), ((revertLinks r).bind fun _ =>
      (restoreSnapshot r).bind fun stateRestored => (Journal.advance r .rolledBack).bind fun _ =>
        Prog.done (Reconciled.reverted r.to_ r.from_ stateRestored) : SessionProg Reconciled).Safe
        (handle s) (Settles w) (Settled w) w₁ := by
    intro hphase
    by_cases hcan : w₁.CanRevert r
    · exact hmono (revert_there hrun hself.tidy hj hphase hcan)
    · refine hmono ((revert_gone hrun hself.tidy hj hphase hcan).mono (fun _ h => h) ?_)
      rintro res w' - ⟨⟨e, rfl⟩, h, hopen⟩
      exact .error h hopen
  cases hphase : r.phase <;> simp only [hphase]
  case prepare =>
    by_cases hread : w₁.Readable
    · exact hmono (discard_readable hrun hself.tidy hj hphase hread)
    · exact hmono (discard_unreadable hrun hself.tidy hj hphase hread)
  case activate => exact hrevert (.inl hphase)
  case verify => exact hrevert (.inr hphase)
  all_goals
    refine hidle ?_
    rw [hj]
    show r.phase.isTerminal = true
    rw [hphase]
    rfl

/-- Where no transaction is in flight, a reconcile does nothing. -/
theorem run_reconcile_idle (h : Idle w.journal) :
    ((reconcile : SessionProg Reconciled).run (handle s) w) =
      (.ok .nothing, w.next s (settle s w)) := by
  refine (run_bind _ _ _ _).trans ?_
  rw [run_readJournal]
  rcases hj : w.journal with - | (r | reason) <;> rw [hj] at h
  · rfl
  · obtain ⟨phase, from_, previousBefore, to_, staged, snapshot, attempts, reached⟩ := r
    cases phase
    case prepare | activate | verify => cases (show false = true from h)
    all_goals rfl
  · exact h.elim

end Reconcile

/-! ## Histories -/

section Histories

variable {s : Session} {u : Upgrade} {w w₀ x : World} {r : Record} {α : Type}

/-- The steps that write no record in flight. -/
def Closing : UpdaterSig.Op → Prop
  | .inl o => .journal ∈ o.names → ∃ r, r.phase.isTerminal = true ∧ o = .put .journal (.record r)
  | .inr _ => False

theorem closing_of_within {U : Place → Prop} {N : Doc → Prop} {op : UpdaterSig.Op} (h : Within U N op)
    (hN : ¬ N .journal) : Closing op := by
  cases op with
  | inl o => exact fun hm => absurd (h.2 _ hm) hN
  | inr o => exact h.elim

theorem closing_advance (r : Record) {phase : Phase} (h : phase.isTerminal = true) :
    (Journal.advance r phase : SessionProg Record).Only Closing :=
  Only.bind (Only.mapError (only_fs.mpr fun _ => ⟨_, h, rfl⟩)) fun _ => trivial

/-- A reconcile writes no record in flight. -/
theorem closing_reconcile : (reconcile : SessionProg Reconciled).Only Closing := by
  have hclosing : ∀ {α : Type} {p : SessionProg α},
      p.Only (Within (fun _ => True) (· ≠ .journal)) → p.Only Closing := fun h =>
    h.mono fun _ hop => closing_of_within hop (by simp)
  refine (hclosing only_readJournal).bind fun record => ?_
  split
  · trivial
  next record =>
  have hrevert : ((revertLinks record).bind fun _ => (restoreSnapshot record).bind
      fun stateRestored => (Journal.advance record .rolledBack).bind fun _ =>
        Prog.done (.reverted record.to_ record.from_ stateRestored) :
      SessionProg Reconciled).Only Closing :=
    (hclosing (only_revertLinks (fun slot => by simp) _)).bind fun _ =>
      (hclosing (only_restoreSnapshot trivial trivial _)).bind fun _ =>
        (closing_advance _ rfl).bind fun _ => trivial
  have hclose : ((Journal.advance { record with staged := none } .failed).bind fun _ =>
      Prog.done (.discardedStaging record.to_) : SessionProg Reconciled).Only Closing :=
    (closing_advance _ rfl).bind fun _ => trivial
  split
  · refine Only.bind ?_ fun _ => (hclosing (only_readSelection _)).bind fun selected =>
      (hclosing (only_readSelection _)).bind fun fallback => ?_
    · cases hs : record.staged with
      | none => trivial
      | some p => exact hclosing (only_removeTree trivial).ignore
    · dsimp only
      split
      · exact (hclosing (only_removeTree trivial).ignore).bind fun _ => hclose
      · exact hclose
  · exact hrevert
  · exact hrevert
  all_goals trivial

/-- A step that writes no record in flight leaves the one that is there. -/
theorem World.Tidy.step {op : UpdaterSig.Op} (h : w.Tidy) (hop : Closing op) :
    (handle s op w).2.Tidy := by
  rcases op with o | o
  · intro r hr hphase
    by_cases hm : Doc.journal ∈ o.names
    · obtain ⟨r', hr', rfl⟩ := hop hm
      have hput : (handle s (.inl (.put .journal (.record r'))) w).2.journal = some (.record r') :=
        Disk.setDoc_doc_self _ _
      cases hr.symm.trans hput
      cases hr'.symm.trans hphase
    · refine h r ?_ hphase
      rw [← hr]
      exact ((FsOp.exec_doc _ _ _ hm).trans (settle_doc _)).symm
  · exact hop.elim

theorem Stage.tidy {O : Origin} {committed : Bool} {V : View} (h : Stage O committed V)
    (hO : ∀ r, O.found.journal = some (.record r) → r.phase.isTerminal = false → r.Tidy) (r : Record)
    (hr : V.journal = some (.record r)) (hphase : r.phase.isTerminal = false) : r.Tidy := by
  have hown : ∀ {r'}, V.journal = some (.record r') → O.Owns r' → r.Tidy := fun hj howns => by
    cases hr.symm.trans hj
    exact howns.tidy
  cases h with
  | begun untouched journal release => exact hO r (journal ▸ hr) hphase
  | preparing r' records => exact hown records.journal records.owns
  | refused r' records => exact hown records.journal records.owns
  | rolling r' holds => exact hown holds.journal holds.owns
  | reverted r' holds => exact hown holds.journal holds.owns
  | stopped r' holds => exact hown holds.journal holds.owns
  | committed r' journal phase =>
    cases hr.symm.trans journal
    rw [phase] at hphase
    cases hphase

/-- Along every history the record in flight is tidy. -/
theorem Reaches.tidy (h₀ : Idle w₀.journal) (h : Reaches (fun _ _ _ => True) w₀ w) : w.Tidy := by
  induction h with
  | start =>
    intro r hr hphase
    rw [hr] at h₀
    cases hphase.symm.trans h₀
  | restart h hdisk ih => exact fun r hr => ih r (by rw [← hr, World.journal, World.journal, hdisk])
  | @call x y h u s c hc hy ih =>
    cases c with
    | transaction t =>
      obtain ⟨log, hlog⟩ := exists_logged_point (handle s) emit [] hy
      exact (runs_transaction u t s x (A := fun V => ∀ r, V.journal = some (.record r) →
        r.phase.isTerminal = false → r.Tidy) ih fun O hO V hV => hV.1.tidy (hO ▸ ih)).visits hlog
    | reconcile =>
      exact (Safe.of_only (I := World.Tidy) closing_reconcile (fun _ _ hop h => h.step hop) ih).points hy

/-- What reconciles from `w` leave that are stopped, each at any of its steps. No session runs when
the next one starts. -/
inductive Interrupted (w : World) : World → Prop where
  | start : Interrupted w w
  | again {x y z : World} (h : Interrupted w x) (s : Session) (hy : y ∈ reconcile.points (handle s) x)
      (hdisk : z.disk = y.disk) (hrun : z.running = false) : Interrupted w z

theorem Interrupted.settles (hw : w.running = false) (htidy : w.Tidy) (h : Interrupted w x) :
    Settles w x := by
  induction h with
  | start => exact ⟨hw, htidy, rfl⟩
  | again h s hy hdisk hrun ih =>
    have hy := (reconcile_settles ih.running ih.tidy).points hy
    refine ⟨hrun, fun r hr => hy.tidy r (by rw [← hr, World.journal, World.journal, hdisk]), ?_⟩
    exact (settled_of_disk hdisk).trans (hy.settled.trans ih.settled)

/-- A reconcile that was stopped, any number of times and anywhere, ends as one that was not: with
the same links, journal and platform state, and with success if the other has it. After a success
every reconcile that finds the same journal does nothing. -/
theorem reconcile_restartable (h₀ : Idle w₀.journal) (h : Reaches (fun _ _ _ => True) w₀ w)
    (hw : w.running = false) (hx : Interrupted w x) (s s' : Session) :
    (reconcile.run (handle s) x).2.layout = (reconcile.run (handle s') w).2.layout ∧
      ((∃ done, (reconcile.run (handle s) x).1 = .ok done) ↔
        ∃ done, (reconcile.run (handle s') w).1 = .ok done) ∧
      ∀ done, (reconcile.run (handle s) x).1 = .ok done → ∀ (s'' : Session) (w' : World),
        w'.journal = (reconcile.run (handle s) x).2.journal →
        (reconcile.run (handle s'') w').1 = .ok .nothing ∧
          (reconcile.run (handle s'') w').2.disk = settle s'' w' := by
  have htidy := h.tidy h₀
  have hsettles := hx.settles hw htidy
  obtain ⟨hlayout, hok⟩ := (reconcile_settles (s := s) hsettles.running hsettles.tidy).result
  obtain ⟨hlayout', hok'⟩ := (reconcile_settles (s := s') hw htidy).result
  have hsame := hlayout.trans (hsettles.settled.trans hlayout'.symm)
  have hjournal : (reconcile.run (handle s) x).2.journal = (reconcile.run (handle s') w).2.journal :=
    congrArg Layout.journal hsame
  refine ⟨hsame, ?_, fun done hdone s'' w' hw' => ?_⟩
  · rw [hok, hok', hjournal]
  · have hidle : Idle w'.journal := hw' ▸ hok.mp ⟨done, hdone⟩
    rw [run_reconcile_idle hidle]
    exact ⟨rfl, rfl⟩

end Histories

namespace Sample

/-- The world once the session is gone. -/
def atRest (w : World) : World := { w with running := false }

theorem atRest_disk (w : World) : (atRest w).disk = w.disk := rfl

/-- What an upgrade leaves whose session did not come up. -/
def cut : World := atRest ((run upgrade (some bundle)).run (handle broken) before).2

theorem cut_reaches : Reaches (fun _ _ _ => True) before cut :=
  .restart (.call .start upgrade broken (.transaction (.run (some bundle))) trivial
    (run_mem_points _ _ _)) (atRest_disk _)

theorem lt_length_points : 4 < (reconcile.points (handle willing) cut).length := by
  decide +kernel

/-- What a reconcile leaves of it that stops after its fourth step. -/
def recut : World := atRest ((reconcile.points (handle willing) cut).get ⟨4, lt_length_points⟩)

theorem recut_interrupted : Interrupted cut recut :=
  .again .start willing (List.get_mem _ _) (atRest_disk _) rfl

end Sample

theorem reconcile_restartable_recut :
    (reconcile.run (handle Sample.willing) Sample.recut).2.layout =
        (reconcile.run (handle Sample.willing) Sample.cut).2.layout ∧
      ((∃ done, (reconcile.run (handle Sample.willing) Sample.recut).1 = .ok done) ↔
        ∃ done, (reconcile.run (handle Sample.willing) Sample.cut).1 = .ok done) ∧
      ∀ done, (reconcile.run (handle Sample.willing) Sample.recut).1 = .ok done →
        ∀ (s'' : Session) (w' : World),
          w'.journal = (reconcile.run (handle Sample.willing) Sample.recut).2.journal →
          (reconcile.run (handle s'') w').1 = .ok .nothing ∧
            (reconcile.run (handle s'') w').2.disk = settle s'' w' :=
  reconcile_restartable (show Idle Sample.before.journal from trivial) Sample.cut_reaches rfl
    Sample.recut_interrupted _ _

end Paperclip.Updater
