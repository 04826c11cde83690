import Paperclip.Packages.Extraction
import Paperclip.Updater.Recovery

/-!
# What a prepared release is

The stream is the attacker's, so what is installed is what the signed manifest names: `prepare` leaves
the manifest, its signature and the components, each with the bytes that were signed for, and makes
executable the components below `bin/`, each after its digest was checked.

* `Check`: the log of this module, the files that were read and the files that were made executable.
* `Prepared`: the staged release. `CheckedFirst`: the order of the log.
-/

namespace Paperclip.Updater

open Crash Files Packages Protocol Prog

/-! ## The log -/

/-- A file was read, or made executable. `entry` is what was at the path. -/
inductive Check where
  | looked (p : Place) (x : Path) (entry : Option Entry)
  | madeExecutable (p : Place) (x : Path) (entry : Option Entry)

/-- What an operation on the filesystem tells. -/
def checkFs (before : World) : (o : FsOp Place Doc Doc.Content) → Except IoError o.Ok → List Check
  | .lookup p x, .ok entry => [.looked p x entry]
  | .setExecutable p x, _ => [.madeExecutable p x ((before.disk.dir p).bind fun t => t.get x)]
  | _, _ => []

/-- What a step tells. -/
def check (step : Step UpdaterSig World) : List Check :=
  match step.op, step.ret with
  | .inl o, answer => checkFs step.before o answer
  | .inr _, _ => []

/-- A world with what was read and made executable. -/
abbrev Checked := World × List Check

/-- The handler with the log. -/
abbrev checked (s : Session) : Handler UpdaterSig Checked := (handle s).logged check

/-! ## What is signed -/

/-- A manifest whose document has a good signature. -/
def Signed (ext : Externals) (manifest : PlatformManifest) : Prop :=
  ∃ document armoured, ext.verify document armoured = .ok () ∧ parse ext document = .ok ⟨manifest⟩

/-- The component is signed for with these bytes. -/
def Component.Matches (component : Component) (ext : Externals) (bytes : Bytes) : Prop :=
  bytes.length = component.size ∧ ext.digestOf bytes = component.digest

/-- Whether the component is below `bin/` and is the file at `x`. -/
def Component.marks (component : Component) (x : Path) : Bool :=
  startsWith component.path "bin/" && resolve component.path == some x

/-- Whatever was made executable is a component below `bin/` of a signed manifest, and had been read
with the bytes that are signed for, which it still has. -/
def CheckedFirst (ext : Externals) (log : List Check) : Prop :=
  ∀ before p x entry after, log = before ++ .madeExecutable p x entry :: after →
    ∃ manifest, Signed ext manifest ∧ ∃ component ∈ manifest.components, component.marks x = true ∧
      ∃ bytes mode mode', component.Matches ext bytes ∧
        .looked p x (some (.file bytes mode)) ∈ before ∧ entry = some (.file bytes mode')

/-- A release that is staged for `manifest`: its regular files are those that are signed for, with the
bytes that are, and the executable ones are the components below `bin/`. -/
structure Prepared (ext : Externals) (manifest : PlatformManifest) (t : Tree) : Prop where
  document : ∃ document mode armoured mode', t.get [MANIFEST_FILE_NAME] = some (.file document mode) ∧
    t.get [SIGNATURE_FILE_NAME] = some (.file armoured mode') ∧
    ext.verify document armoured = .ok () ∧ parse ext document = .ok ⟨manifest⟩
  regular : ∀ x, (∃ bytes mode, t.get x = some (.file bytes mode)) ↔
    x = [MANIFEST_FILE_NAME] ∨ x = [SIGNATURE_FILE_NAME] ∨
      ∃ component ∈ manifest.components, resolve component.path = some x
  bytes : ∀ component ∈ manifest.components, ∃ x bytes mode, resolve component.path = some x ∧
    t.get x = some (.file bytes mode) ∧ component.Matches ext bytes
  executable : ∀ x bytes mode, t.get x = some (.file bytes mode) →
    (mode = true ↔ ∃ component ∈ manifest.components, component.marks x = true)
  plain : ∀ x, t.get x ≠ some .special

/-- Every file of the tree is the content of an entry of the bundle. -/
def MadeOf (bundle : Option TarStream) (t : Tree) : Prop :=
  ∃ source, bundle = some source ∧ ∀ x bytes mode, t.get x = some (.file bytes mode) →
    ∃ entry ∈ source.entries, ∃ name : RelativePath, name.components = x ∧ entry.Makes name bytes

/-! ## Reading -/

section Specs

variable {s : Session} {staging : Place} {t : Tree} {σ : Checked} {ε α : Type}

theorem serves_checked (s : Session) :
    Serves (checked s) (fun σ => σ.1.disk) (fun σ => settle s σ.1) s.order (· ≠ .platformState) where
  ret _ _ := rfl
  next _ _ := rfl
  mine _ _ hp := settle_dir hp

/-- The tree at `p`. -/
def At (p : Place) (t : Tree) (σ : Checked) : Prop := σ.1.disk.dir p = some t

/-- The log only grows. -/
theorem log_grows (p : Prog UpdaterSig ε α) (σ : Checked) :
    p.Safe (checked s) (fun _ => True) (fun _ σ' => ∀ e ∈ σ.2, e ∈ σ'.2) σ := by
  exact (Safe.of_only (I := fun σ' => ∀ e ∈ σ.2, e ∈ σ'.2) (only_true p)
    (fun op σ' _ h e he => List.mem_append_left _ (h e he)) fun _ he => he).mono
    (fun _ _ => trivial) fun _ _ _ h => h

/-- The steps that make nothing executable. -/
def Quiet : UpdaterSig.Op → Prop
  | .inl o => o.setsMode = false
  | .inr _ => True

theorem check_quiet {step : Step UpdaterSig World} (h : Quiet step.op) {p : Place} {x : Path}
    {entry : Option Entry} : .madeExecutable p x entry ∉ check step := by
  obtain ⟨op, ret, before, after⟩ := step
  rcases op with o | o
  · cases o
    case setExecutable => cases h
    case lookup q y =>
      intro hm
      cases ret with
      | ok entry => simp [check, checkFs] at hm
      | error e => cases hm
    all_goals exact fun hm => by cases hm
  · exact fun hm => by cases hm

theorem CheckedFirst.append {ext : Externals} {log new : List Check} (h : CheckedFirst ext log)
    (hnew : ∀ p x entry, .madeExecutable p x entry ∉ new) : CheckedFirst ext (log ++ new) := by
  intro before p x entry after heq
  rcases List.append_eq_append_iff.mp heq with ⟨rest, rfl, hrest⟩ | ⟨rest, rfl, hrest⟩
  · exact absurd (hrest ▸ by simp) (hnew p x entry)
  · cases rest with
    | nil =>
      rw [List.nil_append] at hrest
      exact absurd (hrest ▸ List.mem_cons_self) (hnew p x entry)
    | cons e rest =>
      obtain ⟨rfl, rfl⟩ := List.cons_eq_cons.mp hrest
      exact h before p x entry rest rfl

/-- A file that is what was read and signed for is made executable. -/
theorem CheckedFirst.mark {ext : Externals} {log : List Check} {p : Place} {x : Path}
    {entry : Option Entry} (h : CheckedFirst ext log)
    (hnew : ∃ manifest, Signed ext manifest ∧ ∃ component ∈ manifest.components,
      component.marks x = true ∧ ∃ bytes mode mode', component.Matches ext bytes ∧
        .looked p x (some (.file bytes mode)) ∈ log ∧ entry = some (.file bytes mode')) :
    CheckedFirst ext (log ++ [.madeExecutable p x entry]) := by
  intro before p' x' entry' after heq
  rcases List.append_eq_append_iff.mp heq with ⟨rest, rfl, hrest⟩ | ⟨rest, rfl, hrest⟩
  · cases rest with
    | nil =>
      cases hrest
      rwa [List.append_nil]
    | cons e rest =>
      obtain ⟨-, hnil⟩ := List.cons_eq_cons.mp hrest
      exact absurd hnil.symm (by simp)
  · cases rest with
    | nil =>
      rw [List.nil_append] at hrest
      cases hrest
      rwa [List.append_nil] at hnew
    | cons e rest =>
      obtain ⟨rfl, rfl⟩ := List.cons_eq_cons.mp hrest
      exact h before p' x' entry' rest rfl

/-- A program that makes nothing executable keeps the order of the log. -/
theorem Safe.quiet {ext : Externals} {p : Prog UpdaterSig ε α} {Q : Except ε α → Checked → Prop}
    (hp : p.Only Quiet) (hσ : CheckedFirst ext σ.2)
    (h : p.Safe (checked s) (fun _ => True) Q σ) :
    p.Safe (checked s) (fun σ' => CheckedFirst ext σ'.2)
      (fun r σ' => CheckedFirst ext σ'.2 ∧ Q r σ') σ :=
  ((Safe.of_only (I := fun σ' : Checked => CheckedFirst ext σ'.2) hp
    (fun _ _ hop hI => hI.append fun _ _ _ => check_quiet hop) hσ).and h).mono
      (fun _ h => h.1) fun _ _ _ h => h

/-- The component's file was read, and is what is signed for. -/
def Seen (ext : Externals) (staging : Place) (t : Tree) (log : List Check) (component : Component) :
    Prop :=
  ∃ x bytes mode, resolve component.path = some x ∧ t.get x = some (.file bytes mode) ∧
    component.Matches ext bytes ∧ .looked staging x (some (.file bytes mode)) ∈ log

/-- What reading a file tells. -/
theorem readFile_spec (hp : staging ≠ .platformState) (hσ : At staging t σ) (x : Path) :
    (readFile staging x : Prog UpdaterSig IoError Bytes).Safe (checked s) (fun _ => True)
      (fun r σ' => At staging t σ' ∧ ∀ bytes, r = .ok bytes → ∃ mode,
        t.get x = some (.file bytes mode) ∧ .looked staging x (some (.file bytes mode)) ∈ σ'.2) σ := by
  have hs := serves_checked s
  have hret : (checked s (.inl (.lookup staging x)) σ).1 =
      .ok (if x = [] then some .dir else t.get x) := by
    rw [hs.ret]
    simp only [FsOp.exec, hs.mine σ staging hp, show σ.1.disk.dir staging = some t from hσ,
      Option.bind_some]
    rfl
  have hkeep : At staging t (checked s (.inl (.lookup staging x)) σ).2 :=
    (hs.frame hp (by simp [FsOp.places]) σ).trans hσ
  have hlog : .looked staging x (if x = [] then some .dir else t.get x) ∈
      (checked s (.inl (.lookup staging x)) σ).2.2 := by
    refine List.mem_append_right _ ?_
    show _ ∈ checkFs σ.1 (.lookup staging x) (checked s (.inl (.lookup staging x)) σ).1
    rw [hret]
    exact List.mem_singleton_self _
  refine Safe.bind (Q := fun r σ' => r = .ok (if x = [] then some .dir else t.get x) ∧
    At staging t σ' ∧ .looked staging x (if x = [] then some .dir else t.get x) ∈ σ'.2)
    ((safe_fs (.lookup staging x)).mpr ⟨trivial, trivial, hret, hkeep, hlog⟩)
    (fun entry σ' hq => ?_) fun e σ' hq => by cases hq.1
  obtain ⟨hentry, hat, hlooked⟩ := hq
  cases hentry
  split
  · next bytes mode hfile =>
    refine ⟨trivial, hat, fun bytes' h => ?_⟩
    cases h
    rw [hfile] at hlooked
    split at hfile
    · cases hfile
    · exact ⟨mode, hfile, hlooked⟩
  · exact ⟨trivial, hat, fun _ h => (by cases h)⟩
  · exact ⟨trivial, hat, fun _ h => (by cases h)⟩
  · exact ⟨trivial, hat, fun _ h => (by cases h)⟩

theorem readFile_mapError_spec (g : IoError → UpdateError) (hp : staging ≠ .platformState)
    (hσ : At staging t σ) (x : Path) :
    ((readFile staging x).mapError g : SessionProg Bytes).Safe (checked s) (fun _ => True)
      (fun r σ' => At staging t σ' ∧ ∀ bytes, r = .ok bytes → ∃ mode,
        t.get x = some (.file bytes mode) ∧ .looked staging x (some (.file bytes mode)) ∈ σ'.2) σ := by
  refine Safe.mapError ((readFile_spec hp hσ x).mono (fun _ h => h) fun r σ' _ hq => ⟨hq.1, ?_⟩)
  intro bytes h
  cases r with
  | ok bytes' => cases h; exact hq.2 bytes rfl
  | error e => cases h

/-- The manifest of a release is the one its signed document says. -/
theorem readRelease_spec (ext : Externals) (hp : staging ≠ .platformState) (hσ : At staging t σ) :
    (readRelease ext staging : SessionProg VerifiedPlatform).Safe (checked s) (fun _ => True)
      (fun r σ' => At staging t σ' ∧ ∀ verified, r = .ok verified →
        ∃ document mode armoured mode', t.get [MANIFEST_FILE_NAME] = some (.file document mode) ∧
          t.get [SIGNATURE_FILE_NAME] = some (.file armoured mode') ∧
          ext.verify document armoured = .ok () ∧ parse ext document = .ok verified) σ := by
  refine (readFile_mapError_spec .io hp hσ _).bind (fun document σ₁ hq => ?_)
    fun e σ₁ hq => ⟨hq.1, fun _ h => (by cases h)⟩
  obtain ⟨hσ₁, hdocument⟩ := hq
  obtain ⟨mode, hdocument, -⟩ := hdocument document rfl
  split
  · exact ⟨trivial, hσ₁, fun _ h => (by cases h)⟩
  refine (readFile_mapError_spec .io hp hσ₁ _).bind (fun armoured σ₂ hq => ?_)
    fun e σ₂ hq => ⟨hq.1, fun _ h => (by cases h)⟩
  obtain ⟨hσ₂, hread⟩ := hq
  obtain ⟨mode', harmoured, -⟩ := hread armoured rfl
  refine Safe.bind (Q := fun r σ' => r = ext.verify document armoured ∧ σ' = σ₂)
    (safe_ofExcept.mpr ⟨trivial, rfl, rfl⟩) (fun _ σ' hq => ?_)
    fun e σ' hq => ⟨hq.2 ▸ hσ₂, fun _ h => (by cases h)⟩
  obtain ⟨hverify, rfl⟩ := hq
  exact safe_ofExcept.mpr ⟨trivial, hσ₂, fun verified hparse =>
    ⟨document, mode, armoured, mode', hdocument, harmoured, hverify.symm, hparse⟩⟩

/-- A component that is checked was read, and is what is signed for. -/
theorem verifyComponent_spec (ext : Externals) (policy : ComponentPolicy) (component : Component)
    (hp : staging ≠ .platformState) (hσ : At staging t σ) :
    (verifyComponent ext policy staging component : SessionProg Unit).Safe (checked s)
      (fun _ => True) (fun r σ' => At staging t σ' ∧
        (r = .ok () → Seen ext staging t σ'.2 component)) σ := by
  unfold verifyComponent
  extract_lets failed unreadable
  split
  · exact ⟨trivial, hσ, fun h => (by cases h)⟩
  next path hpath =>
  refine (readFile_mapError_spec _ hp hσ _).bind (fun metadata σ₁ hq => ?_)
    fun e σ₁ hq => ⟨hq.1, fun h => (by cases h)⟩
  obtain ⟨hσ₁, hmetadata⟩ := hq
  obtain ⟨mode, hmetadata, -⟩ := hmetadata metadata rfl
  split
  · exact ⟨trivial, hσ₁, fun h => (by cases h)⟩
  next hsize =>
  refine (readFile_mapError_spec _ hp hσ₁ _).bind (fun bytes σ₂ hq => ?_)
    fun e σ₂ hq => ⟨hq.1, fun h => (by cases h)⟩
  obtain ⟨hσ₂, hbytes⟩ := hq
  obtain ⟨mode', hbytes, hlooked⟩ := hbytes bytes rfl
  have hsame : metadata = bytes := by
    rw [hmetadata] at hbytes
    cases hbytes
    rfl
  extract_lets digest
  split
  · exact ⟨trivial, hσ₂, fun h => (by cases h)⟩
  next hdigest =>
  have hseen : ∀ σ' : Checked, (∀ e ∈ σ₂.2, e ∈ σ'.2) → Seen ext staging t σ'.2 component :=
    fun σ' hgrow => ⟨path, bytes, mode', hpath, hbytes,
      ⟨by rw [← hsame]; exact not_not.mp hsize, not_not.mp hdigest⟩, hgrow _ hlooked⟩
  split
  · split
    · refine ((readFile_mapError_spec _ hp hσ₂ _).and (log_grows _ σ₂)).mono (fun _ h => trivial)
        (fun _ _ _ h => h) |>.bind (fun header σ₃ hq => ?_)
        fun e σ₃ hq => ⟨hq.1.1, fun h => (by cases h)⟩
      split
      · exact ⟨trivial, hq.1.1, fun h => (by cases h)⟩
      · split
        · exact ⟨trivial, hq.1.1, fun h => (by cases h)⟩
        · exact ⟨trivial, hq.1.1, fun _ => hseen σ₃ hq.2⟩
    · exact ⟨trivial, hσ₂, fun _ => hseen σ₂ fun _ h => h⟩
  · exact ⟨trivial, hσ₂, fun _ => hseen σ₂ fun _ h => h⟩

theorem verifyPayload_spec (ext : Externals) (policy : ComponentPolicy)
    (manifest : PlatformManifest) (hp : staging ≠ .platformState) (hσ : At staging t σ) :
    (verifyPayload ext manifest staging policy : SessionProg Unit).Safe (checked s)
      (fun _ => True) (fun r σ' => At staging t σ' ∧ (r = .ok () →
        ∀ component ∈ manifest.components, Seen ext staging t σ'.2 component)) σ := by
  refine Safe.each (I := fun done σ' => At staging t σ' ∧
    ∀ component ∈ done, Seen ext staging t σ'.2 component) ⟨hσ, fun _ h => (by cases h)⟩
    (fun σ' h => ⟨trivial, h.1, fun _ => h.2⟩) fun done component rest σ' _ hI => ?_
  refine ((verifyComponent_spec ext policy component hp hI.1).and (log_grows _ σ')).mono
    (fun _ _ => trivial) fun r σ'' _ hq => ?_
  cases r with
  | error e => exact ⟨hq.1.1, fun h => (by cases h)⟩
  | ok u =>
    refine ⟨hq.1.1, fun component' hm => ?_⟩
    rcases List.mem_append.mp hm with hm | hm
    · obtain ⟨x, bytes, mode, hx, hget, hmatch, hlog⟩ := hI.2 component' hm
      exact ⟨x, bytes, mode, hx, hget, hmatch, hq.2 _ hlog⟩
    · rw [List.mem_singleton.mp hm]
      exact hq.1.2 rfl

/-! ## Making executable -/

/-- The entry, executable if it was or is to be. -/
def markAs (mark : Bool) : Entry → Entry
  | .file bytes mode => .file bytes (mode || mark)
  | e => e

/-- The tree `t` once the components `done` were made executable. -/
def Marked (t t' : Tree) (done : List Component) : Prop :=
  ∀ x, t'.get x = (t.get x).map (markAs (done.any fun component => component.marks x))

theorem marked_nil (t : Tree) : Marked t t [] := fun x => by
  cases hx : t.get x with
  | none => rfl
  | some e => cases e <;> simp [markAs]

/-- One more component made executable. -/
theorem Marked.mark {t' t'' : Tree} {done : List Component} {component : Component} {x : Path}
    {bytes : Bytes} {mode : Bool} (h : Marked t t' done) (hx : resolve component.path = some x)
    (hbin : startsWith component.path "bin/" = true) (hget : t.get x = some (.file bytes mode))
    (h' : ∀ y, t''.get y = if y = x then some (.file bytes true) else t'.get y) :
    Marked t t'' (done ++ [component]) := by
  intro y
  rw [h', List.any_append]
  split
  · next hy =>
    rw [hy, hget]
    simp [markAs, Component.marks, hbin, hx]
  · next hy =>
    have hmarks : component.marks y = false := by
      simp [Component.marks, hbin, hx, Ne.symm hy]
    rw [h y, List.any_cons, hmarks, List.any_nil, Bool.or_false, Bool.or_false]

/-- A component that is not below `bin/` marks nothing. -/
theorem Marked.skip {t' : Tree} {done : List Component} {component : Component}
    (h : Marked t t' done) (hbin : startsWith component.path "bin/" = false) :
    Marked t t' (done ++ [component]) := by
  intro y
  rw [h y, List.any_append]
  simp [Component.marks, hbin]

theorem setExecutable_spec {ext : Externals} {manifest : PlatformManifest} {component : Component}
    {t' : Tree} {done : List Component} (hp : staging ≠ .platformState)
    (hsigned : Signed ext manifest) (hmem : component ∈ manifest.components)
    (hσ : At staging t' σ) (hmarked : Marked t t' done)
    (hseen : Seen ext staging t σ.2 component) (hfirst : CheckedFirst ext σ.2) :
    (setExecutable staging component : SessionProg Unit).Safe (checked s)
      (fun σ' => CheckedFirst ext σ'.2) (fun r σ' => CheckedFirst ext σ'.2 ∧ (r = .ok () →
        ∃ t'', At staging t'' σ' ∧ Marked t t'' (done ++ [component]))) σ := by
  obtain ⟨x, bytes, mode, hx, hget, hmatch, hlog⟩ := hseen
  unfold setExecutable
  split
  swap
  · next hbin =>
    exact ⟨hfirst, hfirst, fun _ => ⟨t', hσ, hmarked.skip (by simpa using hbin)⟩⟩
  next hbin =>
  rw [hx]
  have hfile : t'.get x = some (.file bytes (mode || done.any fun component => component.marks x)) := by
    rw [hmarked x, hget]
    rfl
  have hs := serves_checked s
  obtain ⟨t'', hset⟩ := Tree.setFile_ok hfile bytes true
  have hexec := FsOp.exec_setExecutable (F := Doc) (D := Doc.Content) s.order
    ((hs.mine σ staging hp).trans hσ) hfile hset
  have hnext : CheckedFirst ext (checked s (.inl (.setExecutable staging x)) σ).2.2 := by
    have hentry : ((σ.1.disk.dir staging).bind fun t => t.get x) = some (.file bytes
        (mode || done.any fun component => component.marks x)) := by
      rw [show σ.1.disk.dir staging = some t' from hσ, Option.bind_some, hfile]
    exact hfirst.mark ⟨manifest, hsigned, component, hmem, by simp [Component.marks, hbin, hx],
      bytes, mode, _, hmatch, hlog, hentry⟩
  refine Safe.mapError ((safe_fs (.setExecutable staging x)).mpr ⟨hfirst, hnext, hnext, fun _ => ?_⟩)
  refine ⟨t'', ?_, hmarked.mark hx hbin hget fun y => ?_⟩
  · rw [At, hs.next, hexec]
    exact Disk.setDir_dir_self _ _
  · rw [Tree.get_setFile hset]

/-- The loop over the components. -/
theorem setExecutables_spec {ext : Externals} {manifest : PlatformManifest}
    (hp : staging ≠ .platformState) (hsigned : Signed ext manifest) (hσ : At staging t σ)
    (hseen : ∀ component ∈ manifest.components, Seen ext staging t σ.2 component)
    (hfirst : CheckedFirst ext σ.2) :
    (Prog.each (setExecutable staging) manifest.components : SessionProg Unit).Safe (checked s)
      (fun σ' => CheckedFirst ext σ'.2) (fun r σ' => CheckedFirst ext σ'.2 ∧ (r = .ok () →
        ∃ t', At staging t' σ' ∧ Marked t t' manifest.components)) σ := by
  refine Safe.each (I := fun done σ' => CheckedFirst ext σ'.2 ∧ (∀ e ∈ σ.2, e ∈ σ'.2) ∧
    ∃ t', At staging t' σ' ∧ Marked t t' done) ⟨hfirst, fun _ h => h, t, hσ, marked_nil t⟩
    (fun σ' h => ⟨h.1, h.1, fun _ => h.2.2⟩) fun done component rest σ' heq hI => ?_
  obtain ⟨hfirst', hgrow, t', ht', hmarked⟩ := hI
  have hmem : component ∈ manifest.components := heq ▸ by simp
  obtain ⟨x, bytes, mode, hx, hget, hmatch, hlog⟩ := hseen component hmem
  refine ((setExecutable_spec hp hsigned hmem ht' hmarked
    ⟨x, bytes, mode, hx, hget, hmatch, hgrow _ hlog⟩ hfirst').and (log_grows _ σ')).mono
    (fun _ h => h.1) fun r σ'' _ hq => ?_
  cases r with
  | error e => exact ⟨hq.1.1, fun h => (by cases h)⟩
  | ok u => exact ⟨hq.1.1, fun e he => hq.2 e (hgrow e he), hq.1.2 rfl⟩

/-! ## Preparing a release -/

/-- A path of the archive resolves to the place of its file. -/
theorem resolve_text (name : RelativePath) : resolve name.text = some name.components := by
  unfold resolve
  extract_lets parts
  have hall := name.mem_components
  have hne := name.components_ne_nil
  rw [RelativePath.components] at hall hne
  split
  · next last hlast =>
    have hl := hall last (List.mem_of_getLast? hlast)
    rw [if_neg (by simp [hl.1, hl.2.1])]
    refine congrArg some (List.filter_eq_self.mpr fun c hc => ?_)
    simp [(hall c hc).1, (hall c hc).2.1]
  · next hnone => exact absurd (List.getLast?_eq_none_iff.mp hnone) hne

/-- The file of a listed name is one that is signed for. -/
theorem isListed_components {manifest : PlatformManifest} {name : RelativePath}
    (h : isListed manifest name = true) :
    name.components = [MANIFEST_FILE_NAME] ∨ name.components = [SIGNATURE_FILE_NAME] ∨
      ∃ component ∈ manifest.components, resolve component.path = some name.components := by
  rw [isListed, Bool.or_eq_true, Bool.or_eq_true, beq_iff_eq, beq_iff_eq, List.any_eq_true] at h
  rcases h with (h | h) | ⟨component, hm, h⟩
  · exact .inl (by rw [RelativePath.components, h]; decide)
  · exact .inr (.inl (by rw [RelativePath.components, h]; decide))
  · exact .inr (.inr ⟨component, hm, by rw [beq_iff_eq.mp h, resolve_text]⟩)

/-- A file of the marked tree was unpacked, and only its mode is new. -/
theorem Marked.unpacked {t' : Tree} {done : List TarEntry} {names : List RelativePath}
    {marked : List Component} {x : Path} {bytes : Bytes} {mode : Bool} (hmarked : Marked t t' marked)
    (hun : Unpacked done names t) (hx : t'.get x = some (.file bytes mode)) :
    t.get x = some (.file bytes false) ∧
      mode = marked.any fun component => component.marks x := by
  rw [hmarked x] at hx
  obtain ⟨e, he, hmark⟩ := Option.map_eq_some_iff.mp hx
  rcases hun.made x e he with rfl | ⟨-, -, -, -, -, bytes', -, rfl⟩
  · cases hmark
  · cases hmark
    exact ⟨he, Bool.false_or _⟩

/-- What was unpacked, listed, checked and marked is a prepared release. -/
theorem prepared_of_marked {ext : Externals} {manifest : PlatformManifest} {log : List Check}
    {done : List TarEntry} {names : List RelativePath} {t' : Tree} (hun : Unpacked done names t)
    (hlisted : ∀ name ∈ names, isListed manifest name = true)
    (hdocument : ∃ document mode armoured mode', t.get [MANIFEST_FILE_NAME] = some (.file document mode) ∧
      t.get [SIGNATURE_FILE_NAME] = some (.file armoured mode') ∧
      ext.verify document armoured = .ok () ∧ parse ext document = .ok ⟨manifest⟩)
    (hseen : ∀ component ∈ manifest.components, Seen ext staging t log component)
    (hmarked : Marked t t' manifest.components) : Prepared ext manifest t' := by
  have hfile : ∀ x bytes mode, t.get x = some (.file bytes mode) → t'.get x =
      some (.file bytes (mode || manifest.components.any fun component => component.marks x)) := by
    intro x bytes mode hx
    rw [hmarked x, hx]
    rfl
  obtain ⟨document, mode, armoured, mode', hmanifest, hsignature, hverify, hparse⟩ := hdocument
  refine ⟨⟨document, _, armoured, _, hfile _ _ _ hmanifest, hfile _ _ _ hsignature, hverify, hparse⟩,
    fun x => ⟨?_, ?_⟩, fun component hm => ?_, fun x bytes mode hx => ?_, fun x hx => ?_⟩
  · rintro ⟨bytes, mode, hx⟩
    rcases hun.made x _ (hmarked.unpacked hun hx).1 with h | ⟨name, hn, rfl, -⟩
    · cases h
    · exact isListed_components (hlisted name hn)
  · rintro (rfl | rfl | ⟨component, hm, hx⟩)
    · exact ⟨_, _, hfile _ _ _ hmanifest⟩
    · exact ⟨_, _, hfile _ _ _ hsignature⟩
    · obtain ⟨y, bytes, mode, hy, hget, -⟩ := hseen component hm
      cases hx.symm.trans hy
      exact ⟨_, _, hfile _ _ _ hget⟩
  · obtain ⟨x, bytes, mode, hx, hget, hmatch, -⟩ := hseen component hm
    exact ⟨x, bytes, _, hx, hfile _ _ _ hget, hmatch⟩
  · rw [(hmarked.unpacked hun hx).2, List.any_eq_true]
  · rw [hmarked x] at hx
    obtain ⟨e, he, hmark⟩ := Option.map_eq_some_iff.mp hx
    rcases hun.made x e he with rfl | ⟨-, -, -, -, -, bytes', -, rfl⟩ <;> cases hmark

/-- Nothing is made executable before it was checked, at any point; and a preparation that succeeds
leaves a release that is the one its signed manifest describes. -/
theorem prepare_spec (u : Upgrade) (bundle : Option TarStream) (hp : staging ≠ .platformState)
    (hfirst : CheckedFirst u.ext σ.2) :
    (prepare u bundle staging : SessionProg VerifiedPlatform).Safe (checked s)
      (fun σ' => CheckedFirst u.ext σ'.2) (fun r σ' => ∀ verified, r = .ok verified →
        ∃ t, At staging t σ' ∧ Prepared u.ext verified.manifest t ∧ MadeOf bundle t) σ := by
  have hbuilds : Builds Quiet staging := fun _ _ _ h => h
  refine (Safe.quiet (Only.mapError (only_fs.mpr (hbuilds (.createDirAll staging) (by
    simp [FsOp.places]) rfl rfl))) hfirst (Safe.of_only (I := fun _ => True) (only_true _)
    (fun _ _ _ _ => trivial) trivial)).bind
    (fun _ σ₁ hq => ?_) fun _ _ _ _ h => by cases h
  split
  · exact ⟨hq.1, fun _ h => (by cases h)⟩
  next source =>
  refine (Safe.quiet (only_extractTree (extracts_of_builds hbuilds) source u.limits).mapError hq.1
    (extractTree_spec (serves_checked s).tries hp source u.limits).mapError_onOk).bind
    (fun tree σ₂ hq => ?_) fun _ _ _ _ h => by cases h
  obtain ⟨t, ht, hun⟩ := hq.2 tree rfl
  refine (Safe.quiet (only_readRelease hbuilds.reads u.ext staging) hq.1
    (readRelease_spec u.ext hp ht)).bind (fun verified σ₃ hq => ?_) fun _ _ _ _ h => by cases h
  obtain ⟨hfirst₃, ht₃, hdocument⟩ := hq
  have hdocument := hdocument verified rfl
  refine (Safe.quiet (only_verifyPayload hbuilds.reads u.ext verified.manifest staging u.policy) hfirst₃
    (verifyPayload_spec u.ext u.policy verified.manifest hp ht₃)).bind (fun _ σ₄ hq => ?_)
    fun _ _ _ _ h => by cases h
  obtain ⟨hfirst₄, ht₄, hseen⟩ := hq
  split
  · exact ⟨hfirst₄, fun _ h => (by cases h)⟩
  next hlisted =>
  obtain ⟨document, mode, armoured, mode', hmanifest, hsignature, hverify, hparse⟩ := hdocument
  refine (setExecutables_spec hp ⟨document, armoured, hverify, hparse⟩ ht₄ (hseen rfl) hfirst₄).bind
    (fun _ σ₅ hq => ?_) fun _ _ _ _ h => by cases h
  obtain ⟨hfirst₅, hmarked⟩ := hq
  obtain ⟨t', ht', hmarked⟩ := hmarked rfl
  refine ⟨hfirst₅, fun verified' h => ?_⟩
  cases h
  refine ⟨t', ht', prepared_of_marked hun (fun name hn => ?_)
    ⟨document, mode, armoured, mode', hmanifest, hsignature, hverify, hparse⟩ (hseen rfl) hmarked,
    source, rfl, fun x bytes mode hx => ?_⟩
  · simpa using List.find?_eq_none.mp hlisted name hn
  · rcases hun.made x _ (hmarked.unpacked hun hx).1 with h | ⟨name, -, hname, entry, he, _, hmakes, h⟩
    · cases h
    · cases h
      exact ⟨entry, he, name, hname, hmakes⟩

end Specs

/-- What preparing a bundle does from any world, with an empty log. -/
theorem prepare_safe (u : Upgrade) (bundle : Option TarStream) (transaction : Nat) (s : Session)
    (w : World) :
    (prepare u bundle (.staging transaction) : SessionProg VerifiedPlatform).Safe (checked s)
      (fun x => CheckedFirst u.ext x.2) (fun r x => ∀ verified, r = .ok verified →
        ∃ t, At (.staging transaction) t x ∧ Prepared u.ext verified.manifest t ∧ MadeOf bundle t)
      (w, []) :=
  prepare_spec u bundle (by simp) fun before p x entry after h => absurd h (by simp)

/-- What a bundle can give a release of is signed for that version. -/
theorem Brings.signed {u : Upgrade} {bundle : Option TarStream} {v : Version}
    (h : Brings u bundle v) : ∃ (manifest : PlatformManifest) (t : Tree),
      Prepared u.ext manifest t ∧ MadeOf bundle t ∧ manifest.version = v := by
  obtain ⟨manifest, ⟨s, w, transaction, hok⟩, hv⟩ := h
  have hresult := (prepare_safe u bundle transaction s w).result
  rw [run_logged] at hresult
  obtain ⟨t, -, hprepared, hmade⟩ := hresult _ hok
  exact ⟨manifest, t, hprepared, hmade, hv⟩

/-- Whatever the bundle is, a release that is prepared is the one that its signed manifest describes,
made of entries of the bundle, and no file is made executable before its digest was checked, even
where the preparation fails or is interrupted. -/
theorem prepared_is_signed (u : Upgrade) (bundle : Option TarStream) (transaction : Nat) (s : Session)
    (w : World) :
    (∀ x ∈ (prepare u bundle (.staging transaction)).points (checked s) (w, []),
      CheckedFirst u.ext x.2) ∧
    ∀ verified, ((prepare u bundle (.staging transaction)).run (handle s) w).1 = .ok verified →
      ∃ t, ((prepare u bundle (.staging transaction)).run (handle s) w).2.disk.dir
        (.staging transaction) = some t ∧ Prepared u.ext verified.manifest t ∧ MadeOf bundle t := by
  have hsafe := prepare_safe u bundle transaction s w
  have hresult := hsafe.result
  rw [run_logged] at hresult
  exact ⟨fun x hx => hsafe.points hx, hresult⟩

theorem prepared_is_signed_bundle : ∃ (verified : VerifiedPlatform) (t : Tree),
    ((prepare Sample.upgrade (some Sample.bundle) (.staging 0)).run (handle Sample.willing)
      Sample.before).2.disk.dir (.staging 0) = some t ∧
      Prepared Sample.externals verified.manifest t ∧ MadeOf (some Sample.bundle) t := by
  have hok : ((prepare Sample.upgrade (some Sample.bundle) (.staging 0)).run (handle Sample.willing)
      Sample.before).1.toOption.isSome = true := by decide +kernel
  cases hr : ((prepare Sample.upgrade (some Sample.bundle) (.staging 0)).run (handle Sample.willing)
      Sample.before).1 with
  | error e =>
    rw [hr] at hok
    cases hok
  | ok verified =>
    exact ⟨verified, (prepared_is_signed Sample.upgrade (some Sample.bundle) 0 Sample.willing
      Sample.before).2 verified hr⟩

end Paperclip.Updater
