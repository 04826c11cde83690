import Paperclip.Boot.Launcher

/-!
# The boot breaker

What a diary shows of a device whose launches are bounded, and when it does.

* `Allowed`: what each event of a diary may rely on: an attempt is recorded only below the bound, and
  never while autostart is barred; a session is started only in a launch that was recorded; and only
  the status of its own session lets a launch reset the counter.
* `Alone`: the launch has the device to itself: it finds no other session, nor what one left.
* `boot_breaker`: as long as every launch is alone, every event was allowed.
* `graded_on_the_dead`: a launch that found a session running is graded on the status of that session,
  after it died.
-/

namespace Paperclip.Boot

open Crash Packages Prog

/-! ## Diaries -/

/-- How many launches there were since the last one that reached Home, or since the operator reset the
counter. -/
def streak : List Event → ℕ
  | [] => 0
  | .launched :: past => streak past + 1
  | .home :: _ | .reset :: _ => 0
  | _ :: past => streak past

/-- The launcher began when nothing might be started, and the operator has not acted since. -/
def blocked : List Event → Bool
  | [] => false
  | .began barred :: _ => barred
  | .reset :: _ | .enabled :: _ => false
  | _ :: past => blocked past

/-- The launcher has declined, and the operator has not acted since. -/
def pending : List Event → Bool
  | [] => false
  | .declined :: _ => true
  | .reset :: _ | .enabled :: _ => false
  | _ :: past => pending past

/-- The launcher has recorded an attempt, and started nothing since. -/
def launching : List Event → Bool
  | [] => false
  | .launched :: _ => true
  | .began _ :: _ | .ended :: _ | .started _ _ :: _ | .found _ :: _ => false
  | _ :: past => launching past

/-- The session that the launcher has started. -/
def mine : List Event → Option ℕ
  | [] => none
  | .started session _ :: _ => some session
  | .began _ :: _ | .ended :: _ => none
  | _ :: past => mine past

/-- The session whose status was read last. -/
def seen : List Event → Option ℕ
  | [] => none
  | .read session :: _ => some session
  | .began _ :: _ | .ended :: _ => none
  | _ :: past => seen past

/-- What an event may rely on. -/
def Allowed (past : List Event) : Event → Prop
  | .launched => streak past < MAX_BOOT_ATTEMPTS ∧ blocked past = false ∧ pending past = false
  | .started _ _ | .found _ => launching past = true
  | .home => ∃ session, mine past = some session ∧ seen past = some session
  | _ => True

/-- The launch has the device to itself. -/
def Alone (past : List Event) : Event → Prop
  | .found _ => False
  | .started _ left => left = false
  | .outside => mine past = none
  | _ => True

/-- Every event of a diary is as `P` says, given what came before. -/
def Always (P : List Event → Event → Prop) : List Event → Prop
  | [] => True
  | event :: past => P past event ∧ Always P past

theorem Always.of_suffix {P : List Event → Event → Prop} {past diary : List Event}
    (h : Always P diary) (hs : past <:+ diary) : Always P past := by
  induction diary with
  | nil => rwa [List.suffix_nil.mp hs]
  | cons event rest ih =>
    rcases List.suffix_cons_iff.mp hs with rfl | hs
    · exact h
    · exact ih h.2 hs

/-! ## What the files say -/

/-- A counter reads as it was written. -/
theorem read_toText {counter : BootCounter} (h : counter.attempts < 2 ^ 32) :
    BootCounter.read (some counter.toText) = .ok counter := by
  have htext : counter.toText.toList = Nat.toDigits 10 counter.attempts ++ ['\n'] := by
    simp [BootCounter.toText, toString, Nat.repr_eq_ofList_toDigits]
  have hnumber : parseU32 (trim counter.toText.toList) = some counter.attempts := by
    rw [htext, trim_concat _ (by decide), trim_toDigits, parseU32, parseU64_toDigits (by omega)]
    exact Option.filter_some_pos (by simpa using h)
  unfold BootCounter.read BootCounter.parse
  dsimp only
  rw [hnumber]

/-- A spoiled counter is not read. -/
theorem read_unreadable (text : Unreadable) :
    BootCounter.read (some text.1) = .error (.corruptCounter text.1) := by
  unfold BootCounter.read BootCounter.parse
  dsimp only
  rw [text.2]

/-! ## The invariant -/

/-- The files agree with the diary. -/
structure Good (w : World) : Prop where
  kept : Always Allowed w.diary
  counted : ∀ counter, BootCounter.read w.counter = .ok counter → streak w.diary ≤ counter.attempts
  declined : pending w.diary = true → w.barred = true
  begun : blocked w.diary = true → w.barred = true

/-- What holds of the world as long as every launch was alone. -/
def Sound (P : World → Prop) (w : World × ℕ) : Prop :=
  Always Alone w.1.diary → Good w.1 ∧ P w.1

/-- What others' moves do not undo. -/
def Stable (P : World → Prop) : Prop :=
  ∀ w m, Always Alone (w.apply m).diary → P w → P (w.apply m)

theorem World.barred_eq (w : World) : w.barred = true ↔
    w.marker.isSome = true ∨
      ∀ counter, BootCounter.read w.counter = .ok counter → counter.exhausted = true := by
  unfold World.barred
  rw [Bool.or_eq_true]
  refine or_congr Iff.rfl ?_
  cases BootCounter.read w.counter with
  | ok counter => exact ⟨fun h _ hc => Except.ok.inj hc ▸ h, fun h => h counter rfl⟩
  | error e => exact ⟨fun _ _ hc => (by cases hc), fun _ => rfl⟩

theorem suffix_note (w : World) (event : Event) : w.diary <:+ (w.note event).diary :=
  List.suffix_cons _ _

theorem suffix_apply (w : World) (m : Move) : w.diary <:+ (w.apply m).diary := by
  cases m with
  | status text =>
    unfold World.apply
    dsimp only
    split <;> exact List.suffix_rfl
  | session first =>
    unfold World.apply
    dsimp only
    split
    · exact List.suffix_rfl
    · exact List.suffix_cons _ _
  | reset => exact List.suffix_cons _ _
  | enable => exact List.suffix_cons _ _
  | exit => exact List.suffix_rfl
  | disable reason => exact List.suffix_rfl
  | spoil text => exact List.suffix_rfl

/-- A performed operation has no effect or all of it, and all of it if it succeeds. -/
theorem perform_cases {ε : Type} (turn : Turn) (error : String → ε) (before after : World) :
    (∃ e, turn.perform error before after = (.error e, before)) ∨
      (turn.perform error before after).2 = after := by
  unfold Turn.perform
  split
  · exact .inr rfl
  · exact .inl ⟨_, rfl⟩
  · exact .inr rfl

theorem suffix_perform {ε : Type} (turn : Turn) (error : String → ε) {before after : World}
    (h : before.diary <:+ after.diary) :
    before.diary <:+ (turn.perform error before after).2.diary := by
  rcases perform_cases turn error before after with ⟨e, he⟩ | he
  · rw [he]
  · rw [he]
    exact h

theorem suffix_exec (turn : Turn) (op : Call) (w : World) :
    w.diary <:+ (exec turn op w).2.diary := by
  cases op with
  | readCounter =>
    unfold exec
    dsimp only
    split
    · exact List.suffix_rfl
    · exact List.suffix_rfl
    · split
      · dsimp only
        split
        · exact suffix_note _ _
        · exact List.suffix_rfl
      · exact List.suffix_rfl
  | writeCounter counter => exact suffix_perform turn _ (List.suffix_cons _ _)
  | start =>
    refine suffix_perform turn _ ?_
    unfold World.startHost
    split
    · exact suffix_note _ _
    · exact List.suffix_cons _ _
  | readStatus =>
    unfold exec
    dsimp only
    split
    · exact suffix_note _ _
    · exact List.suffix_rfl
  | disable reason => exact suffix_perform turn _ List.suffix_rfl
  | prepare what => exact suffix_perform turn _ List.suffix_rfl
  | removeStatus =>
    have hdiary : w.diary <:+ { w with status := none }.diary := List.suffix_rfl
    exact suffix_perform turn id hdiary
  | isDisabled => exact List.suffix_rfl
  | alive => exact List.suffix_rfl
  | late => exact List.suffix_rfl

theorem Good.barred {w w' : World} (h : Good w) (hd : w'.diary = w.diary) (hb : w'.barred = true)
    (hc : ∀ counter, BootCounter.read w'.counter = .ok counter →
      BootCounter.read w.counter = .ok counter) : Good w' where
  kept := hd ▸ h.kept
  counted counter hr := hd ▸ h.counted counter (hc counter hr)
  declined _ := hb
  begun _ := hb

/-- An event that says nothing about launches, and changes no file. -/
theorem Good.note {w : World} (h : Good w) {event : Event} (ha : Allowed w.diary event)
    (hs : streak (event :: w.diary) = streak w.diary)
    (hp : pending (event :: w.diary) = true → w.barred = true)
    (hb : blocked (event :: w.diary) = true → w.barred = true) : Good (w.note event) where
  kept := ⟨ha, h.kept⟩
  counted counter hr := hs ▸ h.counted counter hr
  declined := hp
  begun := hb

theorem good_stable : Stable Good := by
  intro w m _ h
  cases m with
  | status text =>
    unfold World.apply
    dsimp only
    split
    · exact ⟨h.kept, h.counted, h.declined, h.begun⟩
    · exact h
  | exit => exact ⟨h.kept, h.counted, h.declined, h.begun⟩
  | session first =>
    unfold World.apply
    dsimp only
    split
    · exact h
    · exact ⟨⟨trivial, h.kept⟩, h.counted, h.declined, h.begun⟩
  | reset =>
    refine ⟨⟨trivial, h.kept⟩, fun _ _ => Nat.zero_le _, fun hp => ?_, fun hb => ?_⟩
    · cases hp
    · cases hb
  | enable =>
    refine ⟨⟨trivial, h.kept⟩, h.counted, fun hp => ?_, fun hb => ?_⟩
    · cases hp
    · cases hb
  | disable reason => exact h.barred rfl rfl fun _ hr => hr
  | spoil text =>
    have hread : ∀ counter, BootCounter.read (some text.1) ≠ .ok counter := fun counter hr => by
      rw [read_unreadable] at hr
      cases hr
    refine h.barred rfl ((World.barred_eq _).mpr (.inr fun counter hr => absurd hr (hread counter)))
      fun counter hr => absurd hr (hread counter)

theorem Sound.apply {P : World → Prop} (hP : Stable P) (moves : List Move) {w : World} {n : ℕ}
    (h : Sound P (w, n)) (k : ℕ) : Sound P (moves.foldl World.apply w, k) := by
  induction moves generalizing w n with
  | nil => exact h
  | cons m rest ih =>
    refine ih (n := n) fun hd => ?_
    obtain ⟨hgood, hp⟩ := h (hd.of_suffix (suffix_apply w m))
    exact ⟨good_stable w m hd hgood, hP w m hd hp⟩

/-! ## Programs of the launcher -/

/-- Started where `P` holds, the program leaves `R`, whatever others do in between. -/
def Leads {ε α : Type} (P : World → Prop) (p : Prog calls ε α) (R : α → World → Prop) : Prop :=
  ∀ script w, Sound P w → p.Safe (handler script) (Sound fun _ => True)
    (OnOk fun a => Sound (R a)) w

section Rules

variable {ε ε' α β : Type} {P P' : World → Prop} {R R' : α → World → Prop}

theorem Sound.mono (hP : ∀ w, P w → P' w) {w : World × ℕ} (h : Sound P w) : Sound P' w :=
  fun hd => ⟨(h hd).1, hP _ (h hd).2⟩

theorem leads_done {a : α} (h : ∀ w, P w → R a w) : Leads P (done a : Prog calls ε α) R :=
  fun _ _ hw => ⟨hw.mono fun _ _ => trivial, fun _ hr => Except.ok.inj hr ▸ hw.mono h⟩

theorem leads_fail {e : ε} : Leads P (fail e : Prog calls ε α) R :=
  fun _ _ hw => ⟨hw.mono fun _ _ => trivial, fun _ hr => by cases hr⟩

theorem leads_ofExcept {r : Except ε α} (h : ∀ a, r = .ok a → ∀ w, P w → R a w) :
    Leads P (ofExcept r : Prog calls ε α) R := by
  cases r with
  | ok a => exact leads_done (h a rfl)
  | error e => exact leads_fail

theorem Leads.bind {p : Prog calls ε α} {f : α → Prog calls ε β} {T : β → World → Prop}
    (hp : Leads P p R) (hf : ∀ a, Leads (R a) (f a) T) : Leads P (p.bind f) T :=
  fun script w hw => (hp script w hw).bind_onOk fun a w' hw' => hf a script w' hw'

theorem Leads.mapError {p : Prog calls ε α} {g : ε → ε'} (hp : Leads P p R) :
    Leads P (p.mapError g) R := fun script w hw => (hp script w hw).mapError_onOk

theorem Leads.mono {p : Prog calls ε α} (hp : Leads P p R) (hR : ∀ a w, R a w → R' a w) :
    Leads P p R' := fun script w hw =>
  (hp script w hw).mono (fun _ h => h) fun _ _ _ hq a ha => (hq a ha).mono (hR a)

theorem Leads.pre {p : Prog calls ε α} (hp : Leads P' p R) (hP : ∀ w, P w → P' w) :
    Leads P p R := fun script w hw => hp script w (hw.mono hP)

/-- One operation: what holds before it, after others' moves, leads to what holds after it. -/
theorem leads_ask {op : Call} {R : op.Ret → World → Prop} (hP : Stable P)
    (hexec : ∀ turn w, Always Alone (exec turn op w).2.diary → Good w → P w →
      Good (exec turn op w).2 ∧ R (exec turn op w).1 (exec turn op w).2) :
    Leads P (ask (S := calls) op : Prog calls ε _) R := by
  rintro script ⟨w, n⟩ hw
  have hbefore := hw.apply hP (script n).moves n
  have hafter : Sound (R (handler script op (w, n)).1) (handler script op (w, n)).2 := fun hd => by
    obtain ⟨hgood, hp⟩ := hbefore (hd.of_suffix (suffix_exec _ _ _))
    exact hexec _ _ hd hgood hp
  exact ⟨hw.mono fun _ _ => trivial, hafter.mono fun _ _ => trivial,
    fun _ hr => Except.ok.inj hr ▸ hafter⟩

/-- One operation that may fail. -/
theorem leads_try {op : Call} {p : Prog calls ε α} {f : op.Ret → Except ε α} (hP : Stable P)
    (hp : p = (ask (S := calls) op).bind fun r => ofExcept (f r))
    (hexec : ∀ turn w, Always Alone (exec turn op w).2.diary → Good w → P w →
      Good (exec turn op w).2 ∧ ∀ a, f (exec turn op w).1 = .ok a → R a (exec turn op w).2) :
    Leads P p R :=
  hp ▸ (leads_ask (R := fun r w => ∀ a, f r = .ok a → R a w) hP hexec).bind fun _ =>
    leads_ofExcept fun a ha _ hR => hR a ha

end Rules

/-! ## The launcher -/

section Launcher

/-- Nothing has barred the launch since it began. -/
def Clear (w : World) : Prop := pending w.diary = false ∧ blocked w.diary = false

/-- What barred the launch, if anything did, is to be seen in the counter. -/
def Marked (w : World) : Prop :=
  (pending w.diary = true ∨ blocked w.diary = true) →
    ∀ counter, BootCounter.read w.counter = .ok counter → counter.exhausted = true

/-- There is room for another attempt. -/
def Room (w : World) : Prop :=
  Clear w ∧ ∀ counter, BootCounter.read w.counter = .ok counter → counter.exhausted = false

/-- The counter as it was read, before an attempt is recorded. -/
def Counted (counter : BootCounter) (w : World) : Prop :=
  Clear w ∧ counter.exhausted = false ∧ streak w.diary ≤ counter.attempts

/-- An attempt is recorded, and nothing started yet. -/
def Recorded (w : World) : Prop := Clear w ∧ launching w.diary = true

/-- The session is the launch's own, and so is what is left of it. -/
def Own (session : ℕ) (w : World) : Prop :=
  Clear w ∧ mine w.diary = some session ∧ (∀ other, w.host = some other → other = session) ∧
    ∀ text other, w.status = some (text, other) → other = session

/-- The launch has started a session of its own. -/
def Started (w : World) : Prop := ∃ session, Own session w

/-- It has read a status of its session. -/
def Read (w : World) : Prop := ∃ session, Own session w ∧ seen w.diary = some session

/-- What a move adds to the diary. -/
theorem diary_apply (w : World) (m : Move) : (w.apply m).diary = w.diary ∨
    ∃ event, (event = .reset ∨ event = .enabled ∨ event = .outside) ∧
      (w.apply m).diary = event :: w.diary := by
  cases m with
  | status text =>
    unfold World.apply
    dsimp only
    split <;> exact .inl rfl
  | session first =>
    unfold World.apply
    dsimp only
    split
    · exact .inl rfl
    · exact .inr ⟨.outside, .inr (.inr rfl), rfl⟩
  | reset => exact .inr ⟨.reset, .inl rfl, rfl⟩
  | enable => exact .inr ⟨.enabled, .inr (.inl rfl), rfl⟩
  | exit => exact .inl rfl
  | disable reason => exact .inl rfl
  | spoil text => exact .inl rfl

/-- What a move does to the counter. -/
theorem counter_apply (w : World) (m : Move) : (w.apply m).counter = w.counter ∨
    (∀ counter, BootCounter.read (w.apply m).counter ≠ .ok counter) ∨
      BootCounter.read (w.apply m).counter = .ok ⟨0⟩ ∧ (w.apply m).diary = .reset :: w.diary := by
  cases m with
  | status text =>
    unfold World.apply
    dsimp only
    split <;> exact .inl rfl
  | session first =>
    unfold World.apply
    dsimp only
    split <;> exact .inl rfl
  | reset => exact .inr (.inr ⟨read_toText (by decide), rfl⟩)
  | spoil text =>
    refine .inr (.inl fun counter hr => ?_)
    cases (read_unreadable text).symm.trans hr
  | enable => exact .inl rfl
  | exit => exact .inl rfl
  | disable reason => exact .inl rfl

theorem Clear.apply {w : World} (h : Clear w) (m : Move) : Clear (w.apply m) := by
  unfold Clear
  rcases diary_apply w m with hd | ⟨event, rfl | rfl | rfl, hd⟩ <;> rw [hd]
  · exact h
  · exact ⟨rfl, rfl⟩
  · exact ⟨rfl, rfl⟩
  · exact h

theorem marked_stable : Stable Marked := by
  intro w m _ h hbarred counter hr
  have hkept : (w.apply m).diary = w.diary ∨ (w.apply m).diary = .outside :: w.diary := by
    rcases diary_apply w m with hd | ⟨event, rfl | rfl | rfl, hd⟩
    · exact .inl hd
    · rw [hd] at hbarred
      exact hbarred.elim (fun h => by cases h) fun h => by cases h
    · rw [hd] at hbarred
      exact hbarred.elim (fun h => by cases h) fun h => by cases h
    · exact .inr hd
  have hpast : pending w.diary = true ∨ blocked w.diary = true := by
    rcases hkept with hd | hd <;> rw [hd] at hbarred <;> exact hbarred
  rcases counter_apply w m with hc | hc | ⟨-, hd⟩
  · exact h hpast counter (hc ▸ hr)
  · exact absurd hr (hc counter)
  · rcases hkept with hd' | hd' <;> rw [hd] at hd'
    · exact absurd hd' (List.cons_ne_self _ _)
    · cases hd'

theorem room_stable : Stable Room := by
  intro w m _ h
  refine ⟨h.1.apply m, fun counter hr => ?_⟩
  rcases counter_apply w m with hc | hc | ⟨hc, -⟩
  · exact h.2 counter (hc ▸ hr)
  · exact absurd hr (hc counter)
  · cases hc.symm.trans hr
    rfl

theorem counted_stable (counter : BootCounter) : Stable (Counted counter) := by
  intro w m _ h
  refine ⟨h.1.apply m, h.2.1, ?_⟩
  rcases diary_apply w m with hd | ⟨event, rfl | rfl | rfl, hd⟩ <;> rw [hd]
  · exact h.2.2
  · exact Nat.zero_le _
  · exact h.2.2
  · exact h.2.2

theorem recorded_stable : Stable Recorded := by
  intro w m _ h
  refine ⟨h.1.apply m, ?_⟩
  rcases diary_apply w m with hd | ⟨event, rfl | rfl | rfl, hd⟩ <;> rw [hd] <;> exact h.2

/-- A launch that is alone keeps its session to itself. -/
theorem own_stable (session : ℕ) : Stable (Own session) := by
  intro w m hd h
  obtain ⟨hclear, hmine, hhost, hstatus⟩ := h
  refine ⟨hclear.apply m, ?_⟩
  cases m with
  | status text =>
    unfold World.apply
    dsimp only
    split
    · next s hs =>
      refine ⟨hmine, hhost, fun _ other hother => ?_⟩
      cases hother
      exact hhost _ hs
    · exact ⟨hmine, hhost, hstatus⟩
  | session first =>
    unfold World.apply at hd ⊢
    dsimp only at hd ⊢
    split
    · exact ⟨hmine, hhost, hstatus⟩
    · next hs =>
      rw [hs] at hd
      exact absurd (hmine.symm.trans hd.1) (Option.some_ne_none _)
  | exit => exact ⟨hmine, fun _ h => (by cases h), hstatus⟩
  | reset => exact ⟨hmine, hhost, hstatus⟩
  | enable => exact ⟨hmine, hhost, hstatus⟩
  | disable reason => exact ⟨hmine, hhost, hstatus⟩
  | spoil text => exact ⟨hmine, hhost, hstatus⟩

theorem started_stable : Stable Started :=
  fun w m hd ⟨session, h⟩ => ⟨session, own_stable session w m hd h⟩

theorem read_stable : Stable Read := by
  rintro w m hd ⟨session, h, hseen⟩
  refine ⟨session, own_stable session w m hd h, ?_⟩
  rcases diary_apply w m with hd | ⟨event, rfl | rfl | rfl, hd⟩ <;> rw [hd] <;> exact hseen

/-! ### The operations -/

theorem leads_isDisabled : Leads (fun _ => True) (ask (S := calls) .isDisabled : LauncherProg _)
    fun disabled w => disabled = false → Marked w := by
  refine leads_ask (fun _ _ _ _ => trivial) fun turn w _ hgood _ => ⟨hgood, fun hmarker hb => ?_⟩
  have hbarred : w.barred = true := hb.elim hgood.declined hgood.begun
  refine ((World.barred_eq w).mp hbarred).resolve_left fun h => ?_
  cases hmarker.symm.trans h

/-- The counter is read, and declined if it is exhausted. -/
theorem exec_readCounter (turn : Turn) (w : World) (hgood : Good w) :
    Good (exec turn .readCounter w).2 ∧
      ∀ counter, (exec turn .readCounter w).1 = .ok counter →
        BootCounter.read w.counter = .ok counter ∧
          (counter.exhausted = false → (exec turn .readCounter w).2 = w) := by
  unfold exec
  dsimp only
  split
  · exact ⟨hgood, fun _ h => by cases h⟩
  · exact ⟨hgood, fun _ h => by cases h⟩
  · split
    · next counter hr =>
      dsimp only
      split
      · next he =>
        have hbarred : w.barred = true := by
          refine (World.barred_eq w).mpr (.inr fun counter' hr' => ?_)
          cases hr.symm.trans hr'
          exact he
        refine ⟨hgood.note trivial rfl (fun _ => hbarred) hgood.begun, fun counter' hc => ?_⟩
        cases hc
        exact ⟨hr, fun h => by cases he.symm.trans h⟩
      · refine ⟨hgood, fun counter' hc => ?_⟩
        cases hc
        exact ⟨hr, fun _ => rfl⟩
    · exact ⟨hgood, fun _ h => by cases h⟩

/-- A counter that is read, and has room, clears the launch. -/
theorem leads_readCounter : Leads Marked readCounter fun counter w =>
    counter.exhausted = false → Room w := by
  refine leads_try marked_stable rfl fun turn w _ hgood hmarked => ?_
  obtain ⟨hgood', hread⟩ := exec_readCounter turn w hgood
  refine ⟨hgood', fun counter hc he => ?_⟩
  obtain ⟨hr, hsame⟩ := hread counter hc
  have hclear : ¬ (pending w.diary = true ∨ blocked w.diary = true) := fun hb => by
    cases he.symm.trans (hmarked hb counter hr)
  rw [not_or, Bool.not_eq_true, Bool.not_eq_true] at hclear
  rw [hsame he]
  refine ⟨hclear, fun counter' hr' => ?_⟩
  cases hr.symm.trans hr'
  exact he

theorem leads_recordAttempt : Leads Room recordAttempt fun _ => Recorded := by
  have hread : Leads Room readCounter Counted := by
    refine leads_try room_stable rfl fun turn w _ hgood hroom => ?_
    obtain ⟨hgood', hread⟩ := exec_readCounter turn w hgood
    refine ⟨hgood', fun counter hc => ?_⟩
    obtain ⟨hr, hsame⟩ := hread counter hc
    have he := hroom.2 counter hr
    rw [hsame he]
    exact ⟨hroom.1, he, hgood.counted counter hr⟩
  refine hread.bind fun counter => Leads.bind (R := fun _ => Recorded) ?_ fun _ =>
    leads_done fun _ h => h
  refine leads_try (counted_stable counter) rfl fun turn w _ hgood hcounted => ?_
  obtain ⟨⟨hpending, hblocked⟩, he, hstreak⟩ := hcounted
  have hroom : counter.attempts < MAX_BOOT_ATTEMPTS := by
    simpa [BootCounter.exhausted] using he
  have hafter : Good ({ w with counter := some (BootCounter.toText ⟨counter.attempts + 1⟩) }.note
      .launched) := by
    refine ⟨⟨⟨Nat.lt_of_le_of_lt hstreak hroom, hblocked, hpending⟩, hgood.kept⟩,
      fun counter' hr => ?_, fun h => absurd (hpending.symm.trans h) Bool.false_ne_true,
      fun h => absurd (hblocked.symm.trans h) Bool.false_ne_true⟩
    have hvalue : counter.attempts + 1 < 2 ^ 32 := by
      unfold MAX_BOOT_ATTEMPTS at hroom
      omega
    cases (read_toText hvalue).symm.trans hr
    exact Nat.succ_le_succ hstreak
  show Good (turn.perform BootError.store w _).2 ∧ ∀ _, (turn.perform BootError.store w _).1 = _ →
    Recorded (turn.perform BootError.store w _).2
  rw [if_neg (Nat.succ_ne_zero _)]
  rcases perform_cases turn BootError.store w _ with ⟨e, hw⟩ | hw
  · rw [hw]
    exact ⟨hgood, fun _ h => by cases h⟩
  · rw [hw]
    exact ⟨hafter, fun _ _ => ⟨⟨hpending, hblocked⟩, rfl⟩⟩

/-- A preparation changes nothing that the launch relies on. -/
theorem leads_prepare {P : World → Prop} (hP : Stable P) (what : Preparation) :
    Leads P (prepare what) fun _ => P := by
  refine leads_try hP rfl fun turn w _ hgood hp => ?_
  have hsame : (exec turn (.prepare what) w).2 = w := by
    show (turn.perform id w w).2 = w
    rcases perform_cases turn id w w with ⟨e, hw⟩ | hw
    · rw [hw]
    · exact hw
  rw [hsame]
  exact ⟨hgood, fun _ _ => hp⟩

theorem leads_removeStatus : Leads Recorded (ask (S := calls) .removeStatus : LauncherProg _)
    fun _ => Recorded := by
  refine leads_ask recorded_stable fun turn w _ hgood hp => ?_
  show Good (turn.perform id w _).2 ∧ Recorded (turn.perform id w _).2
  rcases perform_cases turn id w { w with status := none } with ⟨e, hw⟩ | hw
  · rw [hw]
    exact ⟨hgood, hp⟩
  · rw [hw]
    exact ⟨⟨hgood.kept, hgood.counted, hgood.declined, hgood.begun⟩, hp⟩

/-- A launch that is alone has a session of its own. -/
theorem leads_start : Leads Recorded
    (Prog.step (S := calls) .start .ofExcept : LauncherProg Unit) fun _ => Started := by
  refine leads_try recorded_stable
    (show _ = (ask (S := calls) .start).bind fun r => ofExcept (id r) from rfl)
    fun turn w hd hgood hp => ?_
  rcases perform_cases turn id w (w.startHost turn.first) with ⟨e, hw⟩ | hw
  · rw [show exec turn .start w = _ from hw]
    exact ⟨hgood, fun _ h => by cases h⟩
  rw [show (exec turn .start w).2 = _ from hw] at hd ⊢
  unfold World.startHost at hd ⊢
  split at hd
  · exact hd.1.elim
  refine ⟨⟨⟨hp.2, hgood.kept⟩, hgood.counted, hgood.declined, hgood.begun⟩, fun _ _ =>
    ⟨w.sessions, hp.1, rfl, fun other hother => (Option.some.inj hother).symm,
      fun text other hstatus => ?_⟩⟩
  have hleft : (w.newSession turn.first).isLeft w.sessions = false := hd.1
  unfold World.isLeft at hleft
  rw [show (w.newSession turn.first).status = some (text, other) from hstatus] at hleft
  simpa using hleft

theorem leads_readStatus : Leads Started (ask (S := calls) .readStatus : LauncherProg _)
    fun status w => Started w ∧ (status ≠ none → Read w) := by
  refine leads_ask started_stable fun turn w _ hgood hp => ?_
  unfold exec
  dsimp only
  split
  · next text session hfault hstatus =>
    obtain ⟨own, hown⟩ := hp
    obtain rfl : session = own := hown.2.2.2 text session hstatus
    have hread : Own session (w.note (.read session)) := hown
    exact ⟨⟨⟨trivial, hgood.kept⟩, hgood.counted, hgood.declined, hgood.begun⟩, ⟨session, hread⟩,
      fun _ => ⟨session, hread, rfl⟩⟩
  · exact ⟨hgood, hp, fun h => absurd rfl h⟩

/-- What a launch that reached Home has read. -/
def Graded (reached : Reached) (w : World) : Prop :=
  match reached with
  | .home => Read w
  | .other _ _ => True

theorem leads_poll (slept : ℕ) {next : ℕ → LauncherProg Reached}
    (hnext : ∀ elapsed, Leads Started (next elapsed) Graded) :
    Leads Started (poll slept next) Graded := by
  have hlook {op : Call} (hsame : ∀ turn w, (exec turn op w).2 = w) :
      Leads Started (ask (S := calls) op : LauncherProg _) fun _ => Started :=
    leads_ask started_stable fun turn w _ hgood hp => by
      rw [hsame]
      exact ⟨hgood, hp⟩
  refine leads_readStatus.bind fun status => ?_
  split
  · next reached hreached =>
    refine leads_done fun w hw => ?_
    cases reached with
    | home =>
      refine hw.2 fun hnone => ?_
      rw [hnone] at hreached
      cases hreached
    | other state diagnosis => trivial
  · refine Leads.pre ?_ fun _ hw => hw.1
    refine (hlook fun _ _ => rfl).bind fun alive => ?_
    refine (hlook fun _ _ => rfl).bind fun late => ?_
    split
    · exact leads_done fun _ _ => trivial
    · exact (hlook fun _ _ => rfl).bind fun _ => hnext _

/-- A launch only reaches Home by a status of its own session. -/
theorem leads_watchForHome (left : ℕ) : Leads Started (watchForHome left) Graded := by
  have hexpired : Leads Started expired Graded :=
    leads_readStatus.bind fun _ => leads_done fun _ _ => trivial
  induction left with
  | zero => exact leads_poll _ fun _ => hexpired
  | succ left ih =>
    refine leads_poll _ fun elapsed => ?_
    split
    · exact hexpired
    · exact ih

/-- The counter is reset by a launch that reached Home. -/
theorem leads_markGood : Leads Read markGood fun _ _ => True := by
  refine leads_try read_stable rfl fun turn w _ hgood hread => ?_
  obtain ⟨session, ⟨⟨hpending, hblocked⟩, hmine, -, -⟩, hseen⟩ := hread
  refine ⟨?_, fun _ _ => trivial⟩
  show Good (turn.perform BootError.store w _).2
  rcases perform_cases turn BootError.store w _ with ⟨e, hw⟩ | hw
  · rw [hw]
    exact hgood
  · rw [hw]
    exact ⟨⟨⟨session, hmine, hseen⟩, hgood.kept⟩, fun _ _ => Nat.zero_le _,
      fun h => absurd (hpending.symm.trans h) Bool.false_ne_true,
      fun h => absurd (hblocked.symm.trans h) Bool.false_ne_true⟩

theorem leads_launch : Leads Room launch fun _ _ => True := by
  refine leads_recordAttempt.mapError.bind fun _ => ?_
  refine (leads_prepare recorded_stable _).bind fun _ => ?_
  refine (leads_prepare recorded_stable _).bind fun _ => ?_
  refine (leads_prepare recorded_stable _).bind fun _ => ?_
  refine (leads_prepare recorded_stable _).bind fun _ => ?_
  have hbringUp : Leads Recorded bringUp fun _ => Started :=
    leads_removeStatus.bind fun _ => (leads_prepare recorded_stable _).bind
      fun _ => leads_start.mapError
  refine hbringUp.bind fun _ => (leads_prepare started_stable _).bind fun _ => ?_
  refine (leads_watchForHome POLLS).bind fun reached => ?_
  cases reached with
  | home => exact leads_markGood.mapError
  | other state diagnosis => exact leads_done fun _ _ => trivial

theorem leads_disable (reason : String) : Leads (fun _ => True)
    (Prog.step (S := calls) (.disable reason) .ofExcept : Prog calls BootError Unit)
    fun _ _ => True := by
  refine leads_try (fun _ _ _ _ => trivial)
    (show _ = (ask (S := calls) (.disable reason)).bind fun r => ofExcept (id r) from rfl)
    fun turn w _ hgood _ => ⟨?_, fun _ _ => trivial⟩
  show Good (turn.perform BootError.store w _).2
  rcases perform_cases turn BootError.store w _ with ⟨e, hw⟩ | hw
  · rw [hw]
    exact hgood
  · rw [hw]
    exact hgood.barred rfl rfl fun _ hr => hr

/-- The launcher keeps the files to the diary, wherever it is killed. -/
theorem leads_run : Leads (fun _ => True) run fun _ _ => True := by
  refine leads_isDisabled.bind fun disabled => ?_
  cases disabled with
  | true => exact leads_done fun _ _ => trivial
  | false =>
    refine Leads.pre ?_ fun _ hw => hw rfl
    refine leads_readCounter.mapError.bind fun counter => ?_
    cases he : counter.exhausted with
    | true =>
      have hskip : counter.decide false = .skip (.attemptsExhausted counter.attempts) := by
        simp [BootCounter.decide, he]
      rw [hskip]
      exact ((leads_disable _).pre fun _ _ => trivial).mapError
    | false =>
      have hlaunch : counter.decide false = .launch := by simp [BootCounter.decide, he]
      rw [hlaunch]
      exact leads_launch.pre fun _ hw => hw rfl

end Launcher

/-! ## Sequences of boots -/

/-- As long as every launch is alone, the files agree with the diary. -/
theorem arises_good {w : World} (h : Arises w) (hd : Always Alone w.diary) : Good w := by
  induction h with
  | first counter marker =>
    exact ⟨trivial, fun _ _ => Nat.zero_le _, fun h => absurd h Bool.false_ne_true,
      fun h => absurd h Bool.false_ne_true⟩
  | boot h ih =>
    obtain ⟨hkept, hcounted, hdeclined, hbegun⟩ := ih hd
    exact ⟨hkept, hcounted, hdeclined, hbegun⟩
  | move h m ih => exact good_stable _ m hd (ih (hd.of_suffix (suffix_apply _ m)))
  | @launcher w h script w' h' ih =>
    have hbegin : Sound (fun _ => True) (w.note (.began w.barred), 0) := fun hd' =>
      ⟨(ih hd'.2).note trivial rfl (ih hd'.2).declined fun hb => hb, trivial⟩
    have hend := ((leads_run script _ hbegin).points h' hd.2).1
    exact hend.note trivial rfl hend.declined hend.begun

/-- As long as every launch is alone: attempts are recorded at most `MAX_BOOT_ATTEMPTS` times in a row,
none once the launcher has declined or began while it was barred, until the operator acts; each start
is in a recorded launch; and a launch resets the counter only by the status of its own session. -/
theorem boot_breaker {w : World} (h : Arises w) (hd : Always Alone w.diary) :
    Always Allowed w.diary :=
  (arises_good h hd).kept

/-! ## Two boots -/

namespace Tablet

/-- A tablet that was never booted. -/
def fresh : World := ⟨none, none, none, none, 0, []⟩

/-- The supervisor is at Home from its first pass on. -/
def arriving (_ : ℕ) : Turn := ⟨[.status "state=home\n"], none, some "state=stock\n", 0⟩

/-- The same, but the counter cannot be written when Home was reached. -/
def interrupted (n : ℕ) : Turn :=
  { arriving n with fault := if n = 13 then some (.before "no space left on device") else none }

/-- The supervisor of before writes its status once more, is found running, and dies. -/
def dying (n : ℕ) : Turn where
  moves := if n = 10 then [.status "state=home\n"] else if n = 12 then [.exit] else []
  fault := none
  first := none
  late := 0

/-- What a launcher leaves that is not killed. -/
def after (script : ℕ → Turn) (w : World) : World :=
  (run.run (handler script) (w.note (.began w.barred), 0)).2.1.note .ended

theorem arises_after {w : World} (h : Arises w) (script : ℕ → Turn) : Arises (after script w) :=
  .launcher h script (run_mem_points _ _ _)

end Tablet

open Tablet in
/-- A boot that reaches Home. -/
theorem boot_breaker_arriving : Event.home ∈ (after arriving fresh).diary ∧
    Always Allowed (after arriving fresh).diary := by
  have hdiary : (after arriving fresh).diary =
      [.ended, .home, .read 0, .started 0 false, .launched, .began false] := by
    decide +kernel
  refine ⟨by rw [hdiary]; decide, boot_breaker (arises_after (.first none none) arriving) ?_⟩
  rw [hdiary]
  exact ⟨trivial, trivial, trivial, rfl, trivial, trivial, trivial⟩

open Tablet in
/-- The launcher is started again while the session of its first launch is at Home. It is graded on
the status of that session, which has died, and resets the counter. -/
theorem graded_on_the_dead : Arises (after dying (after interrupted fresh)) ∧
    (after dying (after interrupted fresh)).host = none ∧
    ¬ Always Allowed (after dying (after interrupted fresh)).diary := by
  have hdiary : (after dying (after interrupted fresh)).diary =
      [.ended, .home, .read 0, .found 0, .launched, .began false, .ended, .read 0, .started 0 false,
        .launched, .began false] ∧ (after dying (after interrupted fresh)).host = none := by
    decide +kernel
  refine ⟨arises_after (arises_after (.first none none) interrupted) dying, hdiary.2, ?_⟩
  rw [hdiary.1]
  rintro ⟨-, ⟨session, hmine, -⟩, -⟩
  cases hmine

end Paperclip.Boot
