import Paperclip.Crash.Safe

/-!
# Programs that only look

`Looks h p f`: `p` changes nothing, and its outcome is `f` of the world it finds.

* `Looks.bind`, `Looks.mapError`: such programs in turn are one.
* `Looks.then_safe`: what follows one starts in the same world, and may rely on what it saw.

`Yields h J p r`: where `J` holds, `p` keeps it and its outcome is `r`, whatever else changes.

* `Yields.bind`, `Yields.mapError`, `Yields.each`: the structural rules.
-/

namespace Crash.Prog

variable {S : Sig} {W ε ε' α β : Type} {h : Handler S W}

/-- The program changes nothing, and answers with what it finds. -/
def Looks (h : Handler S W) (p : Prog S ε α) (f : W → Except ε α) : Prop :=
  ∀ w, p.Safe h (· = w) (fun r w' => w' = w ∧ r = f w) w

theorem looks_done (a : α) : Looks h (done a : Prog S ε α) fun _ => .ok a :=
  fun _ => ⟨rfl, rfl, rfl⟩

theorem looks_ofExcept (r : Except ε α) : Looks h (ofExcept r : Prog S ε α) fun _ => r :=
  fun _ => safe_ofExcept.2 ⟨rfl, rfl, rfl⟩

theorem Looks.bind {p : Prog S ε α} {g : α → Prog S ε β} {f : W → Except ε α}
    {k : α → W → Except ε β} (hp : Looks h p f) (hg : ∀ a, Looks h (g a) (k a)) :
    Looks h (p.bind g) fun w => (f w).bind fun a => k a w := by
  intro w
  refine (hp w).bind (fun a w' hq => ?_) fun e w' hq => ?_
  · obtain ⟨rfl, ha⟩ := hq
    refine (hg a w').mono (fun _ h => h) fun r w'' _ hr => ⟨hr.1, ?_⟩
    show r = (f w').bind fun a => k a w'
    rw [hr.2, ← ha]
    rfl
  · refine ⟨hq.1, ?_⟩
    show Except.error e = (f w).bind fun a => k a w
    rw [← hq.2]
    rfl

theorem Looks.mapError {p : Prog S ε α} {f : W → Except ε α} (g : ε → ε') (hp : Looks h p f) :
    Looks h (p.mapError g) fun w => (f w).mapError g := fun w =>
  Safe.mapError ((hp w).mono (fun _ h => h) fun r w' _ hq => ⟨hq.1, by rw [hq.2]⟩)

theorem Looks.congr {p : Prog S ε α} {f g : W → Except ε α} (hp : Looks h p f)
    (hfg : ∀ w, f w = g w) : Looks h p g := by
  rwa [show g = f from (funext hfg).symm]

/-- What follows a look starts in the same world. -/
theorem Looks.then_safe {p : Prog S ε α} {g : α → Prog S ε β} {f : W → Except ε α} {C : W → Prop}
    {R : Except ε β → W → Prop} {w : W} (hp : Looks h p f) (hC : C w)
    (hok : ∀ a, f w = .ok a → (g a).Safe h C R w) (he : ∀ e, f w = .error e → R (.error e) w) :
    (p.bind g).Safe h C R w := by
  have hlook : p.Safe h C (fun r w' => w' = w ∧ r = f w) w :=
    (hp w).mono (fun _ h => h ▸ hC) fun _ _ _ h => h
  refine hlook.bind (fun a w' hq => ?_) fun e w' hq => ?_
  · obtain ⟨rfl, ha⟩ := hq
    exact hok a ha.symm
  · obtain ⟨rfl, ha⟩ := hq
    exact he e ha.symm

/-! ## Programs whose outcome is known -/

variable {J : W → Prop}

/-- Where `J` holds, the program keeps it and its outcome is `r`. -/
def Yields (h : Handler S W) (J : W → Prop) (p : Prog S ε α) (r : Except ε α) : Prop :=
  ∀ w, J w → p.Safe h (fun _ => True) (fun r' w' => r' = r ∧ J w') w

theorem yields_done (a : α) : Yields h J (done a : Prog S ε α) (.ok a) :=
  fun _ hw => ⟨trivial, rfl, hw⟩

theorem yields_fail (e : ε) : Yields h J (fail e : Prog S ε α) (.error e) :=
  fun _ hw => ⟨trivial, rfl, hw⟩

theorem yields_ofExcept (r : Except ε α) : Yields h J (ofExcept r : Prog S ε α) r :=
  fun _ hw => safe_ofExcept.2 ⟨trivial, rfl, hw⟩

theorem Yields.bind {p : Prog S ε α} {g : α → Prog S ε β} {r : Except ε α}
    {k : α → Except ε β} (hp : Yields h J p r) (hg : ∀ a, Yields h J (g a) (k a)) :
    Yields h J (p.bind g) (r.bind k) := by
  intro w hw
  refine (hp w hw).bind (fun a w' hq => ?_) fun e w' hq => ?_
  · obtain ⟨rfl, hw'⟩ := hq
    exact hg a w' hw'
  · obtain ⟨rfl, hw'⟩ := hq
    exact ⟨rfl, hw'⟩

theorem Yields.mapError {p : Prog S ε α} {r : Except ε α} (g : ε → ε') (hp : Yields h J p r) :
    Yields h J (p.mapError g) (r.mapError g) := fun w hw =>
  Safe.mapError ((hp w hw).mono (fun _ h => h) fun _ _ _ hq => ⟨by rw [hq.1], hq.2⟩)

theorem Yields.each {f : β → Prog S ε Unit} {k : β → Except ε Unit}
    (hf : ∀ x, Yields h J (f x) (k x)) (xs : List β) :
    Yields h J (Prog.each f xs) (xs.forM k) := by
  induction xs with
  | nil => exact yields_done ()
  | cons x rest ih => exact (hf x).bind fun _ => ih

/-- What follows a program whose outcome is known. -/
theorem Yields.then_safe {p : Prog S ε α} {g : α → Prog S ε β} {r : Except ε α}
    {R : Except ε β → W → Prop} {w : W} (hp : Yields h J p r) (hw : J w)
    (hok : ∀ a w', r = .ok a → J w' → (g a).Safe h (fun _ => True) R w')
    (he : ∀ e w', r = .error e → R (.error e) w') :
    (p.bind g).Safe h (fun _ => True) R w := by
  refine (hp w hw).bind (fun a w' hq => ?_) fun e w' hq => ?_
  · exact hok a w' hq.1.symm hq.2
  · exact he e w' hq.1.symm

end Crash.Prog
