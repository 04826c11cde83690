import Paperclip.Updater.Footprints
import Paperclip.Updater.World

/-!
# Restoring a snapshot

While no session runs nobody else writes, so a restore cannot fail, and it leaves the files and the
directories of the snapshot.
-/

namespace Paperclip.Updater

open Crash Files Prog

/-- The session that writes nothing. -/
def idle (s : Session) : Session := { s with writes := fun _ t => t }

theorem settle_idle_dir (s : Session) (w : World) (p : Place) :
    (settle (idle s) w).dir p = w.disk.dir p := by
  unfold settle
  split
  · next t _ ht =>
    by_cases hp : p = .platformState
    · subst hp
      rw [Disk.setDir_dir_self, ht]
      rfl
    · rw [Disk.setDir_dir_ne _ _ hp]
  · rfl

theorem serves_idle (s : Session) :
    Serves (handle (idle s)) World.disk (settle (idle s)) s.order fun _ => True where
  ret _ _ := rfl
  next _ _ := rfl
  mine w p _ := settle_idle_dir s w p

/-- Filesystem steps alone. -/
def FsOnly : (withFs sessionSig Place Doc Doc.Content).Op → Prop
  | .inl _ => True
  | .inr _ => False

theorem Within.fsOnly {U : Place → Prop} {N : Doc → Prop}
    {op : (withFs sessionSig Place Doc Doc.Content).Op} (h : Within U N op) : FsOnly op := by
  cases op with
  | inl o => trivial
  | inr o => exact h.elim

/-- While no session runs, what a program does to the disk does not depend on what one would
write. -/
theorem safe_of_idle {ε α : Type} {s : Session} {p : Prog (withFs sessionSig Place Doc Doc.Content) ε α}
    {C : World → Prop} {Q : Except ε α → World → Prop} {w : World} (hp : p.Only FsOnly)
    (hw : w.running = false) (h : p.Safe (handle (idle s)) C Q w) : p.Safe (handle s) C Q w := by
  refine Safe.congr (I := fun w => w.running = false) hp ?_ ?_ hw h
  · rintro (o | o) w hop hw
    · simp only [handle, settle_of_not_running hw]
      rfl
    · exact hop.elim
  · rintro (o | o) w hop hw
    · exact hw
    · exact hop.elim

section Places

variable {W : Type} {h : Handler (withFs sessionSig Place Doc Doc.Content) W}
  {disk settle : W → Disk Place Doc Doc.Content} {order : Tree.Order} {own : Place → Prop} {p : Place}
  {w : W}

theorem isDirectory_spec (hs : Serves h disk settle order own) (hp : own p) :
    (isDirectory p : SessionProg Bool).Safe h (fun _ => True)
      (fun r w' => r = .ok ((disk w).dir p).isSome ∧
        ∀ q, own q → (disk w').dir q = (disk w).dir q) w := by
  have hkeep : ∀ q, own q → (disk (h (.inl (.isDir p [])) w).2).dir q = (disk w).dir q := fun q hq =>
    hs.frame hq (by simp [FsOp.places]) w
  have hret : (h (.inl (.isDir p [])) w).1 = .ok ((disk w).dir p).isSome := by
    rw [hs.ret]
    simp only [FsOp.exec, hs.mine w p hp]
    cases (disk w).dir p <;> simp [Tree.isDir]
  refine Safe.bind (Q := fun r w' => r = .ok (.ok ((disk w).dir p).isSome) ∧
      ∀ q, own q → (disk w').dir q = (disk w).dir q)
    (Safe.attempt ((safe_fs (.isDir p [])).mpr ⟨trivial, trivial, by rw [hret], hkeep⟩)) ?_ ?_
  · rintro r w' ⟨hr, hw'⟩
    cases hr
    exact ⟨trivial, rfl, hw'⟩
  · rintro e w' ⟨hr, -⟩
    cases hr

/-- What is there goes, and everything else stays. -/
theorem removeIfExists_spec (hs : Serves h disk settle order own) (hp : own p) :
    (removeIfExists p : SessionProg Unit).Safe h (fun _ => True)
      (fun r w' => r = .ok () ∧ (disk w').dir p = none ∧
        ∀ q, q ≠ p → own q → (disk w').dir q = (disk w).dir q) w := by
  refine (isDirectory_spec hs hp).bind (fun b w₁ hq => ?_) fun e w' hq => by cases hq.1
  obtain ⟨hb, hw₁⟩ := hq
  cases hb
  split
  · have hframe : ∀ q, q ≠ p → own q → (removeTree p : Prog (withFs sessionSig Place Doc Doc.Content)
        IoError Unit).Safe h (fun w' => (disk w').dir q = (disk w₁).dir q)
        (fun _ w' => (disk w').dir q = (disk w₁).dir q) w₁ := fun q hq hown =>
      hs.within hown (U := (· = p)) (N := fun _ => False) hq (only_removeTree (by rfl))
    refine Safe.mapError (safe_iff.mpr ⟨fun _ _ => trivial, ?_⟩)
    have hspec := (removeTree_spec hs (p := p) (w := w₁) hp).result
    refine ⟨?_, hspec.2, fun q hq hown => ((hframe q hq hown).result).trans (hw₁ q hown)⟩
    rw [hspec.1]
    rfl
  · next hn =>
    have hnone : (disk w).dir p = none := by simpa using hn
    exact ⟨trivial, rfl, (hw₁ p hp).trans hnone, fun q _ hown => hw₁ q hown⟩

end Places

section Restore

variable {s : Session} {w : World} {p : Place}

/-- While nobody else writes, every look at a place sees what is there. -/
theorem steady_idle {t : Tree} :
    Steady (handle (idle s)) (settle (idle s)) p t fun w => w.disk.dir p = some t where
  lost o w hp hw := ((serves_idle s).frame trivial hp w).symm.trans hw
  sees o w _ hp hw := (settle_idle_dir s w p).trans (((serves_idle s).frame trivial hp w).symm.trans hw)
  there w hw := by rw [settle_idle_dir, hw]; rfl

/-- A copy of a tree that nobody writes to, to a place where there is nothing. -/
theorem copyTree_idle {q : Place} {t : Tree} (hpq : p ≠ q) (ht : w.disk.dir p = some t)
    (hq : w.disk.dir q = none) :
    ((copyTree p q (maxDepth + 1) []).mapError .io : SessionProg Unit).Safe (handle (idle s))
      (fun _ => True) (fun r w' => r = .ok () ∧ (∃ t', w'.disk.dir q = some t' ∧
        ∀ x, t'.get x = t.plain x) ∧ ∀ p', p' ≠ q → w'.disk.dir p' = w.disk.dir p') w := by
  have hspec := (copyTree_spec (S := sessionSig) (serves_idle s) (steady_idle (t := t)) (w := w)
    trivial hpq fun _ => hq).result
  have hframe : ∀ p', p' ≠ q → (((copyTree p q (maxDepth + 1) []).run (handle (idle s)) w).2).disk.dir p' =
      w.disk.dir p' := fun p' hp' =>
    ((serves_idle s).within trivial (U := (· = q)) (N := fun _ => False) hp'
      (only_copyTree (by rfl) _ _)).result
  obtain ⟨hr, hcopy⟩ := hspec ((hframe p hpq).trans ht)
  refine Safe.mapError (safe_iff.mpr ⟨fun _ _ => trivial, ?_, hcopy, hframe⟩)
  rw [hr]
  rfl

/-- A restore puts the files and the directories of the snapshot in place of the platform state. -/
theorem restoreSnapshot_idle {r : Record} {t : Tree} (hr : r.snapshot = some p)
    (hp : p ≠ .restoring) (ht : w.disk.dir p = some t) :
    (restoreSnapshot r : SessionProg Bool).Safe (handle (idle s)) (fun _ => True)
      (fun res w' => res = .ok true ∧ ∃ t', w'.state = some t' ∧ ∀ x, t'.get x = t.plain x) w := by
  unfold restoreSnapshot
  rw [hr]
  have hs := serves_idle s
  refine (isDirectory_spec hs trivial).bind (fun b w₁ hq => ?_) fun e w' hq => by cases hq.1
  obtain ⟨hb, hw₁⟩ := hq
  cases hb
  rw [ht]
  refine (removeIfExists_spec hs (p := .restoring) trivial).bind (fun _ w₂ hq => ?_)
    fun e w' hq => by cases hq.1
  obtain ⟨-, hnone, hw₂⟩ := hq
  have ht₂ : w₂.disk.dir p = some t := by rw [hw₂ p hp trivial, hw₁ p trivial, ht]
  refine (copyTree_idle hp ht₂ hnone).bind (fun _ w₃ hq => ?_) fun e w' hq => by cases hq.1
  obtain ⟨-, ⟨t', ht', hget⟩, -⟩ := hq
  refine (removeIfExists_spec hs (p := .platformState) trivial).bind (fun _ w₄ hq => ?_)
    fun e w' hq => by cases hq.1
  obtain ⟨-, hgone, hw₄⟩ := hq
  have hrename := FsOp.exec_rename_ok s.order (d := settle (idle s) w₄) (p := .restoring)
    (q := .platformState) (t := t') (by rw [settle_idle_dir, hw₄ _ (by simp) trivial, ht'])
    (.inl (by rw [settle_idle_dir, hgone]))
  refine Safe.bind (Q := fun r w' => r = .ok () ∧ w'.state = some t') (Safe.mapError
    ((safe_fs (.rename Place.restoring Place.platformState)).mpr ⟨trivial, trivial, ?_⟩)) ?_ ?_
  · simp only [(serves_idle s).ret]
    refine ⟨by rw [hrename]; rfl, ?_⟩
    rw [World.state, (serves_idle s).next, hrename]
    exact Disk.setDir_dir_self _ _
  · rintro - w' ⟨-, hw'⟩
    exact ⟨trivial, rfl, t', hw', hget⟩
  · rintro e w' ⟨h, -⟩
    cases h

/-- Without a snapshot there is nothing to restore. -/
theorem restoreSnapshot_none {r : Record} (hr : r.snapshot = none ∨
      ∃ p, r.snapshot = some p ∧ w.disk.dir p = none) :
    (restoreSnapshot r : SessionProg Bool).Safe (handle (idle s)) (fun _ => True)
      (fun res w' => res = .ok false ∧ ∀ q, w'.disk.dir q = w.disk.dir q) w := by
  unfold restoreSnapshot
  rcases hr with hr | ⟨p, hr, hp⟩
  · rw [hr]
    exact ⟨trivial, rfl, fun _ => rfl⟩
  · rw [hr]
    refine (isDirectory_spec (serves_idle s) trivial).bind (fun b w₁ hq => ?_)
      fun e w' hq => by cases hq.1
    obtain ⟨hb, hw₁⟩ := hq
    cases hb
    rw [hp]
    exact ⟨trivial, rfl, fun q => hw₁ q trivial⟩

end Restore

end Paperclip.Updater
