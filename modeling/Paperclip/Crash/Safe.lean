import Paperclip.Crash.Prog

/-!
# Crash triples

`p.Safe h C Q w`: started in `w`, every point of `p` satisfies the crash condition `C`, and the
outcome and the last world satisfy `Q`. The crash condition is what a recovery procedure may
assume, the postcondition what a caller may; one proof walks the program and gives both.

* `Safe.bind`, `Safe.attempt`, `Safe.each`: the structural rules.
* `Only P p`: every step `p` can take satisfies `P`, whatever the answers. A program that only
  takes steps which keep an invariant is safe for it (`Safe.of_only`): this is the frame rule
  for the parts of a program that stay away from what the invariant reads.
-/

namespace Crash.Prog

variable {S : Sig} {W E ε ε' α β : Type} {h : Handler S W} {C C' : W → Prop}
  {Q Q' : Except ε α → W → Prop}

/-- Every point of the run satisfies `C`, and its end satisfies `Q`. -/
def Safe (h : Handler S W) (C : W → Prop) (Q : Except ε α → W → Prop) : Prog S ε α → W → Prop
  | done a, w => C w ∧ Q (.ok a) w
  | fail e, w => C w ∧ Q (.error e) w
  | step op k, w => C w ∧ (k (h op w).1).Safe h C Q (h op w).2

@[simp] theorem safe_done {a : α} {w : W} : (done a : Prog S ε α).Safe h C Q w ↔ C w ∧ Q (.ok a) w :=
  Iff.rfl

@[simp] theorem safe_fail {e : ε} {w : W} :
    (fail e : Prog S ε α).Safe h C Q w ↔ C w ∧ Q (.error e) w := Iff.rfl

theorem safe_step {op : S.Op} {k : S.Ret op → Prog S ε α} {w : W} :
    (step op k).Safe h C Q w ↔ C w ∧ (k (h op w).1).Safe h C Q (h op w).2 := Iff.rfl

@[simp] theorem safe_ask {op : S.Op} {Q : Except ε (S.Ret op) → W → Prop} {w : W} :
    (ask op : Prog S ε _).Safe h C Q w ↔ C w ∧ C (h op w).2 ∧ Q (.ok (h op w).1) (h op w).2 :=
  Iff.rfl

@[simp] theorem safe_ofExcept {r : Except ε α} {w : W} :
    (ofExcept r : Prog S ε α).Safe h C Q w ↔ C w ∧ Q r w := by
  cases r <;> rfl

/-- What a triple says about the points and the end of the run. -/
theorem safe_iff {p : Prog S ε α} {w : W} :
    p.Safe h C Q w ↔ (∀ w' ∈ p.points h w, C w') ∧ Q (p.run h w).1 (p.run h w).2 := by
  induction p generalizing w with
  | done a => simp [points, run]
  | fail e => simp [points, run]
  | step op k ih => simp [safe_step, points, run, ih, and_assoc]

theorem Safe.points {p : Prog S ε α} {w w' : W} (hp : p.Safe h C Q w) (hw : w' ∈ p.points h w) :
    C w' := (safe_iff.mp hp).1 w' hw

theorem Safe.result {p : Prog S ε α} {w : W} (hp : p.Safe h C Q w) :
    Q (p.run h w).1 (p.run h w).2 := (safe_iff.mp hp).2

theorem Safe.here {p : Prog S ε α} {w : W} (hp : p.Safe h C Q w) : C w :=
  hp.points (p.mem_points_self h w)

/-- The end of a run is one of its points. -/
theorem Safe.result_point {p : Prog S ε α} {w : W} (hp : p.Safe h C Q w) :
    C (p.run h w).2 := hp.points (p.run_mem_points h w)

theorem Safe.mono {p : Prog S ε α} {w : W} (hp : p.Safe h C Q w) (hC : ∀ w, C w → C' w)
    (hQ : ∀ r w, C w → Q r w → Q' r w) : p.Safe h C' Q' w :=
  safe_iff.mpr ⟨fun _ hw => hC _ (hp.points hw), hQ _ _ hp.result_point hp.result⟩

theorem Safe.and {p : Prog S ε α} {w : W} (hp : p.Safe h C Q w) (hp' : p.Safe h C' Q' w) :
    p.Safe h (fun w => C w ∧ C' w) (fun r w => Q r w ∧ Q' r w) w :=
  safe_iff.mpr ⟨fun _ hw => ⟨hp.points hw, hp'.points hw⟩, hp.result, hp'.result⟩

/-- The sequencing rule: what `f` needs is the postcondition of `p`, and a failure of `p` is a
failure of the whole. -/
theorem Safe.bind {p : Prog S ε α} {f : α → Prog S ε β} {R : Except ε β → W → Prop} {w : W}
    (hp : p.Safe h C Q w) (hf : ∀ a w', Q (.ok a) w' → (f a).Safe h C R w')
    (he : ∀ e w', Q (.error e) w' → R (.error e) w') : (p.bind f).Safe h C R w := by
  induction p generalizing w with
  | done a => exact hf a w hp.2
  | fail e => exact ⟨hp.1, he e w hp.2⟩
  | step op k ih => exact ⟨hp.1, ih _ hp.2⟩

/-- The sequencing rule after a part that cannot fail. -/
theorem Safe.bind_ok {p : Prog S ε α} {f : α → Prog S ε β} {R : Except ε β → W → Prop}
    {T : α → W → Prop} {w : W} (hp : p.Safe h C (fun r w' => ∃ a, r = .ok a ∧ T a w') w)
    (hf : ∀ a w', T a w' → (f a).Safe h C R w') : (p.bind f).Safe h C R w := by
  refine hp.bind (fun a w' hq => ?_) (fun e w' hq => ?_)
  · obtain ⟨_, heq, ht⟩ := hq
    cases heq
    exact hf a w' ht
  · obtain ⟨_, heq, -⟩ := hq
    cases heq

theorem Safe.attempt {p : Prog S ε α} {R : Except ε' (Except ε α) → W → Prop} {w : W}
    (hp : p.Safe h C (fun r w' => R (.ok r) w') w) : (p.attempt : Prog S ε' _).Safe h C R w := by
  induction p generalizing w with
  | done a => exact hp
  | fail e => exact hp
  | step op k ih => exact ⟨hp.1, ih _ hp.2⟩

/-- The rule for a part whose failure is handed on. -/
theorem Safe.attempt_bind {p : Prog S ε α} {f : Except ε α → Prog S ε' β}
    {R : Except ε' β → W → Prop} {w : W} (hp : p.Safe h C (fun r w' => (f r).Safe h C R w') w) :
    (p.attempt.bind f).Safe h C R w := by
  induction p generalizing w with
  | done a => exact hp.2
  | fail e => exact hp.2
  | step op k ih => exact ⟨hp.1, ih _ hp.2⟩

theorem Safe.ignore {p : Prog S ε α} {R : Except ε' Unit → W → Prop} {w : W}
    (hp : p.Safe h C (fun _ w' => R (.ok ()) w') w) : (p.ignore : Prog S ε' Unit).Safe h C R w := by
  refine Safe.bind_ok (T := fun _ w' => C w' ∧ R (.ok ()) w')
    (Safe.attempt (hp.mono (fun _ h => h) fun r w' hC hq => ⟨r, rfl, hC, hq⟩)) ?_
  exact fun _ _ h => h

theorem Safe.mapError {p : Prog S ε α} {g : ε → ε'} {R : Except ε' α → W → Prop} {w : W}
    (hp : p.Safe h C (fun r w' => R (r.mapError g) w') w) :
    (p.mapError g).Safe h C R w := by
  induction p generalizing w with
  | done a => exact hp
  | fail e => exact hp
  | step op k ih => exact ⟨hp.1, ih _ hp.2⟩

/-- What a part leaves if it succeeds. -/
def OnOk (Q : α → W → Prop) (r : Except ε α) (w : W) : Prop := ∀ a, r = .ok a → Q a w

/-- The sequencing rule when only a success matters. -/
theorem Safe.bind_onOk {p : Prog S ε α} {f : α → Prog S ε β} {T : α → W → Prop}
    {R : β → W → Prop} {w : W} (hp : p.Safe h C (OnOk T) w)
    (hf : ∀ a w', T a w' → (f a).Safe h C (OnOk R) w') : (p.bind f).Safe h C (OnOk R) w :=
  hp.bind (fun a w' hq => hf a w' (hq a rfl)) fun _ _ _ _ h => by cases h

theorem Safe.mapError_onOk {p : Prog S ε α} {g : ε → ε'} {T : α → W → Prop} {w : W}
    (hp : p.Safe h C (OnOk T) w) : (p.mapError g).Safe h C (OnOk T) w := by
  refine Safe.mapError (hp.mono (fun _ h => h) fun r w' _ hq a ha => ?_)
  cases r with
  | ok _ => cases ha; exact hq a rfl
  | error _ => cases ha

/-- The loop rule: `I done` holds of the world when the items `done` have had their turn. -/
theorem Safe.each {f : β → Prog S ε Unit} {Q : Except ε Unit → W → Prop} {xs : List β}
    {I : List β → W → Prop} {w : W} (hI : I [] w) (hC : ∀ w', I xs w' → C w' ∧ Q (.ok ()) w')
    (hf : ∀ ys x zs w', xs = ys ++ x :: zs → I ys w' →
      (f x).Safe h C (fun r w'' => match r with
        | .ok _ => I (ys ++ [x]) w''
        | .error e => Q (.error e) w'') w') : (Prog.each f xs).Safe h C Q w := by
  suffices H : ∀ zs ys w', xs = ys ++ zs → I ys w' → (Prog.each f zs).Safe h C Q w' from
    H xs [] w rfl hI
  intro zs
  induction zs with
  | nil =>
    intro ys w' hx hi
    rw [List.append_nil] at hx
    exact hC w' (hx ▸ hi)
  | cons z zs ih =>
    intro ys w' hx hi
    refine (hf ys z zs w' hx hi).bind (fun _ w'' hq => ?_) (fun e w'' hq => hq)
    exact ih (ys ++ [z]) w'' (by rw [hx, List.append_assoc]; rfl) hq

/-! ## Programs that only take some steps -/

/-- Every step the program can take satisfies `P`. -/
def Only (P : S.Op → Prop) : Prog S ε α → Prop
  | done _ => True
  | fail _ => True
  | step op k => P op ∧ ∀ r, (k r).Only P

variable {P P' : S.Op → Prop}

@[simp] theorem only_done {a : α} : (done a : Prog S ε α).Only P := trivial

@[simp] theorem only_fail {e : ε} : (fail e : Prog S ε α).Only P := trivial

@[simp] theorem only_ask {op : S.Op} : (ask op : Prog S ε _).Only P ↔ P op :=
  ⟨fun hp => hp.1, fun hp => ⟨hp, fun _ => trivial⟩⟩

@[simp] theorem only_ofExcept {r : Except ε α} : (ofExcept r : Prog S ε α).Only P := by
  cases r <;> trivial

theorem Only.bind {p : Prog S ε α} {f : α → Prog S ε β} (hp : p.Only P) (hf : ∀ a, (f a).Only P) :
    (p.bind f).Only P := by
  induction p with
  | done a => exact hf a
  | fail e => trivial
  | step op k ih => exact ⟨hp.1, fun r => ih r (hp.2 r)⟩

theorem Only.attempt {p : Prog S ε α} (hp : p.Only P) :
    (p.attempt : Prog S ε' (Except ε α)).Only P := by
  induction p with
  | done a => trivial
  | fail e => trivial
  | step op k ih => exact ⟨hp.1, fun r => ih r (hp.2 r)⟩

theorem Only.ignore {p : Prog S ε α} (hp : p.Only P) : (p.ignore : Prog S ε' Unit).Only P :=
  hp.attempt.bind fun _ => trivial

theorem Only.mapError {p : Prog S ε α} {g : ε → ε'} (hp : p.Only P) : (p.mapError g).Only P := by
  induction p with
  | done a => trivial
  | fail e => trivial
  | step op k ih => exact ⟨hp.1, fun r => ih r (hp.2 r)⟩

theorem Only.embed {T : Sig} {P : T.Op → Prop} {f : S.Op → T.Op}
    {g : (op : S.Op) → T.Ret (f op) → S.Ret op} {p : Prog S ε α} (hp : p.Only fun op => P (f op)) :
    (p.embed f g).Only P := by
  induction p with
  | done a => trivial
  | fail e => trivial
  | step op k ih => exact ⟨hp.1, fun r => ih _ (hp.2 _)⟩

theorem Only.each {f : β → Prog S ε Unit} {xs : List β} (hf : ∀ x, (f x).Only P) :
    (Prog.each f xs).Only P := by
  induction xs with
  | nil => trivial
  | cons x xs ih => exact (hf x).bind fun _ => ih

theorem Only.mono {p : Prog S ε α} (hp : p.Only P) (hPP : ∀ op, P op → P' op) : p.Only P' := by
  induction p with
  | done a => trivial
  | fail e => trivial
  | step op k ih => exact ⟨hPP _ hp.1, fun r => ih r (hp.2 r)⟩

theorem only_true (p : Prog S ε α) : p.Only fun _ => True := by
  induction p with
  | done a => trivial
  | fail e => trivial
  | step op k ih => exact ⟨trivial, ih⟩

/-- A step of a run satisfies `P`, and is what the handler makes of it. -/
theorem Only.of_trace {p : Prog S ε α} {w : W} {s : Step S W} (hp : p.Only P)
    (hs : s ∈ p.trace h w) : P s.op ∧ h s.op s.before = (s.ret, s.after) := by
  induction p generalizing w with
  | done a => cases hs
  | fail e => cases hs
  | step op k ih =>
    rcases List.mem_cons.mp hs with rfl | hs
    · exact ⟨hp.1, rfl⟩
    · exact ih _ (hp.2 _) hs

/-- A program whose steps all keep `I` keeps it at every point. -/
theorem Safe.of_only {I : W → Prop} {p : Prog S ε α} {w : W} (hp : p.Only P)
    (hop : ∀ op w, P op → I w → I (h op w).2) (hw : I w) : p.Safe h I (fun _ => I) w := by
  induction p generalizing w with
  | done a => exact ⟨hw, hw⟩
  | fail e => exact ⟨hw, hw⟩
  | step op k ih => exact ⟨hw, ih _ (hp.2 _) (hop op w hp.1 hw)⟩

theorem safe_true (p : Prog S ε α) (w : W) : p.Safe h (fun _ => True) (fun _ _ => True) w :=
  Safe.of_only (I := fun _ => True) (only_true p) (fun _ _ _ _ => trivial) trivial

theorem safe_onOk_true (p : Prog S ε α) (w : W) :
    p.Safe h (fun _ => True) (OnOk fun _ _ => True) w :=
  (safe_true p w).mono (fun _ h => h) fun _ _ _ _ _ _ => trivial

/-- Two handlers that agree on the steps a program takes, as long as `I` holds, have the same
triples. -/
theorem Safe.congr {h' : Handler S W} {I : W → Prop} {p : Prog S ε α} {w : W} (hp : p.Only P)
    (heq : ∀ op w, P op → I w → h op w = h' op w) (hI : ∀ op w, P op → I w → I (h op w).2)
    (hw : I w) (hs : p.Safe h' C Q w) : p.Safe h C Q w := by
  induction p generalizing w with
  | done a => exact hs
  | fail e => exact hs
  | step op k ih =>
    have hs' := hs.2
    rw [← heq op w hp.1 hw] at hs'
    exact ⟨hs.1, ih _ (hp.2 _) (hI op w hp.1 hw) hs'⟩

/-- A triple that does not mention the log holds of the logged handler. -/
theorem Safe.logged {f : Step S W → List E} {p : Prog S ε α} {w : W} (hs : p.Safe h C Q w)
    (l : List E) :
    p.Safe (h.logged f) (fun x => C x.1) (fun r x => Q r x.1) (w, l) := by
  induction p generalizing w l with
  | done a => exact hs
  | fail e => exact hs
  | step op k ih => exact ⟨hs.1, ih _ hs.2 _⟩

end Crash.Prog
