import Paperclip.Crash.Looks
import Paperclip.Packages.Unpacking
import Paperclip.Updater.Prepare

/-!
# Which bundles are prepared

Once a bundle is unpacked, what `prepare` answers depends on what was unpacked, and on nothing else.

* `graded`: the answer, from the tree and the names that came out of the bundle.
* `prepare_cases`: what is so where a preparation succeeds. `prepare_ok`: where it does.
-/

namespace Paperclip.Updater

open Crash Files Packages Protocol Prog

/-! ## What is read of a tree -/

/-- The bytes of a regular file. -/
def bytesAt (t : Tree) (x : Path) : Except IoError Bytes :=
  match if x = [] then some .dir else t.get x with
  | some (.file bytes _) => .ok bytes
  | some .dir => .error .isADirectory
  | some .special => .error (.other "No such device or address")
  | none => .error .notFound

/-- The check of one component. -/
def checkComponent (ext : Externals) (policy : ComponentPolicy) (t : Tree) (component : Component) :
    Except UpdateError Unit := do
  let failed (reason : String) : UpdateError := .component component.name reason
  let unreadable (e : IoError) := failed s!"{component.path}: {ioText e}"
  match resolve component.path with
  | none => .error (unreadable .notADirectory)
  | some path =>
    let metadata ← (bytesAt t path).mapError unreadable
    if metadata.length ≠ component.size then
      .error (failed s!"the manifest says {component.size} bytes, the file is {metadata.length}")
    else
      let bytes ← (bytesAt t path).mapError unreadable
      let digest := ext.digestOf bytes
      if digest ≠ component.digest then
        .error (failed s!"the manifest says {component.digest.text}, the file is {digest.text}")
      else
        match policy.machine with
        | some machine =>
          if startsWith component.path "bin/" then
            let header ← (bytesAt t path).mapError unreadable
            match inspectEntrypoint header with
            | .error _ => .error (failed s!"{component.path} is not a usable entrypoint")
            | .ok target =>
              if target.machine ≠ machine then
                .error (failed (s!"built for ELF machine {target.machine}, " ++
                  s!"this platform needs {machine}"))
              else .ok ()
          else .ok ()
        | none => .ok ()

/-- The manifest of a release. -/
def releaseAt (ext : Externals) (t : Tree) : Except UpdateError VerifiedPlatform := do
  let document ← (bytesAt t [MANIFEST_FILE_NAME]).mapError .io
  if MAX_MANIFEST_BYTES < document.length then
    .error (.manifest s!"{document.length} bytes, over the {MAX_MANIFEST_BYTES} limit")
  else
    let armoured ← (bytesAt t [SIGNATURE_FILE_NAME]).mapError .io
    ext.verify document armoured
    parse ext document

/-- Whether what was unpacked is a release. -/
def graded (u : Upgrade) (t : Tree) (names : List RelativePath) :
    Except UpdateError VerifiedPlatform := do
  let verified ← releaseAt u.ext t
  verified.manifest.components.forM (checkComponent u.ext u.policy t)
  match names.find? fun name => !isListed verified.manifest name with
  | some name => .error (.component name.text "in the bundle, but not in the signed manifest")
  | none => .ok verified

section Looking

variable {s : Session} {staging : Place} {t : Tree}

/-- The tree is at `p`. -/
def Has (p : Place) (t : Tree) (w : World) : Prop := w.disk.dir p = some t

theorem yields_readFile (hp : staging ≠ .platformState) (x : Path) :
    Yields (handle s) (Has staging t) (readFile staging x : Prog UpdaterSig IoError Bytes)
      (bytesAt t x) := by
  intro w hw
  have hs := serves s
  have hret : (handle s (.inl (.lookup staging x)) w).1 =
      .ok (if x = [] then some .dir else t.get x) := by
    rw [hs.ret]
    simp only [FsOp.exec, hs.mine w staging hp, show w.disk.dir staging = some t from hw,
      Option.bind_some]
    rfl
  have hkeep : Has staging t (handle s (.inl (.lookup staging x)) w).2 :=
    (hs.frame hp (by simp [FsOp.places]) w).trans hw
  refine Safe.bind (Q := fun r w' => r = .ok (if x = [] then some .dir else t.get x) ∧
    Has staging t w') ((safe_fs (.lookup staging x)).mpr ⟨trivial, trivial, hret, hkeep⟩)
    (fun entry w' hq => ?_) fun e w' hq => by cases hq.1
  obtain ⟨hentry, hw'⟩ := hq
  cases hentry
  rw [bytesAt]
  generalize (if x = [] then some Entry.dir else t.get x) = found
  cases found with
  | none => exact ⟨trivial, rfl, hw'⟩
  | some e => cases e <;> exact ⟨trivial, rfl, hw'⟩

theorem yields_verifyComponent (ext : Externals) (policy : ComponentPolicy)
    (hp : staging ≠ .platformState) (component : Component) :
    Yields (handle s) (Has staging t)
      (verifyComponent ext policy staging component : SessionProg Unit)
      (checkComponent ext policy t component) := by
  unfold verifyComponent checkComponent
  extract_lets failed unreadable
  have hread (path : Path) : Yields (handle s) (Has staging t)
      ((readFile staging path).mapError unreadable : SessionProg Bytes)
      ((bytesAt t path).mapError unreadable) := (yields_readFile hp path).mapError _
  cases resolve component.path with
  | none => exact yields_fail _
  | some path =>
    dsimp only
    refine (hread path).bind fun metadata => ?_
    by_cases hsize : metadata.length ≠ component.size
    · rw [if_pos hsize, if_pos hsize]
      exact yields_fail _
    rw [if_neg hsize, if_neg hsize]
    refine (hread path).bind fun bytes => ?_
    by_cases hdigest : ext.digestOf bytes ≠ component.digest
    · rw [if_pos hdigest, if_pos hdigest]
      exact yields_fail _
    rw [if_neg hdigest, if_neg hdigest]
    cases policy.machine with
    | none => exact yields_done ()
    | some machine =>
      dsimp only
      by_cases hbin : startsWith component.path "bin/" = true
      · rw [if_pos hbin, if_pos hbin]
        refine (hread path).bind fun header => ?_
        cases inspectEntrypoint header with
        | error e => exact yields_fail _
        | ok target =>
          dsimp only
          by_cases hmachine : target.machine ≠ machine
          · rw [if_pos hmachine, if_pos hmachine]
            exact yields_fail _
          · rw [if_neg hmachine, if_neg hmachine]
            exact yields_done ()
      · rw [if_neg hbin, if_neg hbin]
        exact yields_done ()

theorem yields_readRelease (ext : Externals) (hp : staging ≠ .platformState) :
    Yields (handle s) (Has staging t) (readRelease ext staging : SessionProg VerifiedPlatform)
      (releaseAt ext t) := by
  unfold readRelease releaseAt
  refine ((yields_readFile hp _).mapError _).bind fun document => ?_
  by_cases hlong : MAX_MANIFEST_BYTES < document.length
  · rw [if_pos hlong, if_pos hlong]
    exact yields_fail _
  rw [if_neg hlong, if_neg hlong]
  refine ((yields_readFile hp _).mapError _).bind fun armoured => ?_
  exact (yields_ofExcept _).bind fun _ => yields_ofExcept _

theorem yields_verifyPayload (ext : Externals) (policy : ComponentPolicy)
    (manifest : PlatformManifest) (hp : staging ≠ .platformState) :
    Yields (handle s) (Has staging t) (verifyPayload ext manifest staging policy : SessionProg Unit)
      (manifest.components.forM (checkComponent ext policy t)) :=
  Yields.each (yields_verifyComponent ext policy hp) _

end Looking

/-! ## When a release is graded -/

section Grading

variable {ext : Externals} {policy : ComponentPolicy} {t : Tree} {component : Component}
  {verified : VerifiedPlatform} {u : Upgrade} {names : List RelativePath}

theorem bytesAt_ok {x : Path} {bytes : Bytes} :
    bytesAt t x = .ok bytes ↔ ∃ mode, t.get x = some (.file bytes mode) := by
  unfold bytesAt
  by_cases hx : x = []
  · subst hx
    simp
  · rw [if_neg hx]
    cases t.get x with
    | none => simp
    | some e => cases e <;> simp

/-- The bytes run on a machine that the policy asks for. -/
def ComponentPolicy.Runs (policy : ComponentPolicy) (path : String) (bytes : Bytes) : Prop :=
  ∀ machine, policy.machine = some machine → startsWith path "bin/" = true →
    ∃ target, inspectEntrypoint bytes = .ok target ∧ target.machine = machine

theorem mapError_eq_ok {ε ε' α : Type} {r : Except ε α} {g : ε → ε'} {a : α} :
    r.mapError g = .ok a ↔ r = .ok a := by
  cases r <;> simp [Except.mapError]

theorem bind_eq_ok {ε α β : Type} {r : Except ε α} {f : α → Except ε β} {b : β} :
    (r >>= f) = .ok b ↔ ∃ a, r = .ok a ∧ f a = .ok b := by
  cases r <;> simp [Bind.bind, Except.bind]

theorem forM_eq_ok {ε α : Type} {f : α → Except ε Unit} {xs : List α} :
    xs.forM f = .ok () ↔ ∀ x ∈ xs, f x = .ok () := by
  induction xs with
  | nil => exact ⟨fun _ _ h => (by cases h), fun _ => rfl⟩
  | cons x rest ih =>
    rw [List.forall_mem_cons, ← ih]
    exact bind_eq_ok.trans ⟨fun ⟨_, hx, hrest⟩ => ⟨hx, hrest⟩, fun ⟨hx, hrest⟩ => ⟨(), hx, hrest⟩⟩

/-- A component is passed just if it is a file with the bytes that are signed for, which run where
they must. -/
theorem checkComponent_ok : checkComponent ext policy t component = .ok () ↔
    ∃ x bytes mode, resolve component.path = some x ∧ t.get x = some (.file bytes mode) ∧
      component.Matches ext bytes ∧ policy.Runs component.path bytes := by
  unfold checkComponent Component.Matches ComponentPolicy.Runs
  extract_lets failed unreadable
  cases resolve component.path with
  | none => simp
  | some x =>
    dsimp only
    simp only [bind_eq_ok, mapError_eq_ok, bytesAt_ok]
    constructor
    · rintro ⟨bytes, ⟨mode, hget⟩, h⟩
      split at h
      · cases h
      next hsize =>
      obtain ⟨_, hread, h⟩ := bind_eq_ok.1 h
      obtain ⟨mode', hget'⟩ := bytesAt_ok.1 (mapError_eq_ok.1 hread)
      cases hget.symm.trans hget'
      split at h
      · cases h
      next hdigest =>
      refine ⟨x, bytes, mode, rfl, hget, ⟨not_not.1 hsize, not_not.1 hdigest⟩, ?_⟩
      intro machine hmachine hbin
      rw [hmachine] at h
      dsimp only at h
      rw [if_pos hbin] at h
      obtain ⟨_, hread, h⟩ := bind_eq_ok.1 h
      obtain ⟨mode', hget'⟩ := bytesAt_ok.1 (mapError_eq_ok.1 hread)
      cases hget.symm.trans hget'
      split at h
      · cases h
      next target htarget =>
      split at h
      · cases h
      · next hsame => exact ⟨target, htarget, not_not.1 hsame⟩
    · rintro ⟨_, bytes, mode, hx, hget, ⟨hsize, hdigest⟩, hruns⟩
      cases hx
      have hread := bytesAt_ok.2 ⟨mode, hget⟩
      refine ⟨bytes, ⟨mode, hget⟩, ?_⟩
      rw [if_neg (not_not.2 hsize), hread]
      refine bind_eq_ok.2 ⟨bytes, rfl, ?_⟩
      rw [if_neg (not_not.2 hdigest)]
      split
      · next machine hmachine =>
        split
        · next hbin =>
          obtain ⟨target, htarget, hsame⟩ := hruns machine hmachine hbin
          refine bind_eq_ok.2 ⟨bytes, rfl, ?_⟩
          rw [htarget]
          dsimp only
          rw [if_neg (not_not.2 hsame)]
        · rfl
      · rfl

theorem releaseAt_ok : releaseAt ext t = .ok verified ↔
    ∃ document mode armoured mode', t.get [MANIFEST_FILE_NAME] = some (.file document mode) ∧
      document.length ≤ MAX_MANIFEST_BYTES ∧
      t.get [SIGNATURE_FILE_NAME] = some (.file armoured mode') ∧
      ext.verify document armoured = .ok () ∧ parse ext document = .ok verified := by
  unfold releaseAt
  simp only [bind_eq_ok, mapError_eq_ok, bytesAt_ok, ite_eq_iff]
  grind

theorem graded_ok : graded u t names = .ok verified ↔ releaseAt u.ext t = .ok verified ∧
    (∀ component ∈ verified.manifest.components,
      checkComponent u.ext u.policy t component = .ok ()) ∧
    ∀ name ∈ names, isListed verified.manifest name = true := by
  unfold graded
  refine bind_eq_ok.trans ⟨?_, ?_⟩
  · rintro ⟨found, hrelease, h⟩
    obtain ⟨_, hchecked, h⟩ := bind_eq_ok.1 h
    split at h
    · cases h
    next hlisted =>
    cases h
    exact ⟨hrelease, forM_eq_ok.1 hchecked, fun name hn => by
      simpa using List.find?_eq_none.1 hlisted name hn⟩
  · rintro ⟨hrelease, hchecked, hlisted⟩
    refine ⟨verified, hrelease, bind_eq_ok.2 ⟨(), forM_eq_ok.2 hchecked, ?_⟩⟩
    have hnone : names.find? (fun name => !isListed verified.manifest name) = none :=
      List.find?_eq_none.2 fun name hn => by simp [hlisted name hn]
    rw [hnone]

/-- The files that components were passed for. -/
theorem graded_files (h : graded u t names = .ok verified) {component : Component}
    (hc : component ∈ verified.manifest.components) :
    ∃ x bytes mode, resolve component.path = some x ∧ t.get x = some (.file bytes mode) := by
  obtain ⟨x, bytes, mode, hx, hget, -⟩ := checkComponent_ok.1 ((graded_ok.1 h).2.1 component hc)
  exact ⟨x, bytes, mode, hx, hget⟩

end Grading

/-! ## Preparing -/

section Preparing

variable {s : Session} {staging : Place} {t t' : Tree} {w : World} {u : Upgrade}

/-- What is so where a preparation succeeds. -/
theorem prepare_cases (stream : TarStream) (hp : staging ≠ .platformState) :
    (prepare u (some stream) staging : SessionProg VerifiedPlatform).Safe (handle s)
      (fun _ => True) (OnOk fun verified _ => stream.ending = none ∧
        stream.entries.length ≤ u.limits.entries ∧
        (∀ entry ∈ stream.entries, entry.Taken u.limits) ∧
        ∃ t, Laid (made stream.entries) stream.entries t ∧
          graded u t ((made stream.entries).map (·.1)) = .ok verified) w := by
  refine (safe_onOk_true _ w).bind_onOk fun _ w₁ _ => ?_
  refine (extractTree_cases (serves s).tries hp stream u.limits).mapError_onOk.bind_onOk
    fun tree w₂ hq => ?_
  obtain ⟨rfl, hended, hfew, htaken, t, ht, hlaid⟩ := hq
  refine (yields_readRelease u.ext hp).then_safe ht (fun verified w₃ hrelease ht₃ => ?_)
    fun _ _ _ _ h => by cases h
  refine (yields_verifyPayload u.ext u.policy verified.manifest hp).then_safe ht₃
    (fun _ w₄ hchecked _ => ?_) fun _ _ _ _ h => by cases h
  split
  · exact ⟨trivial, fun _ h => (by cases h)⟩
  next hlisted =>
  refine (safe_onOk_true _ w₄).bind_onOk fun _ w₅ _ => ⟨trivial, fun verified' h => ?_⟩
  cases h
  refine ⟨hended, hfew, htaken, t, hlaid, graded_ok.2 ⟨hrelease, forM_eq_ok.1 hchecked, ?_⟩⟩
  exact fun name hn => by simpa using List.find?_eq_none.1 hlisted name hn

theorem setExecutable_fits {component : Component} {done : List Component} {x : Path}
    {bytes : Bytes} {mode : Bool} (hp : staging ≠ .platformState) (hw : Has staging t' w)
    (hmarked : Marked t t' done) (hx : resolve component.path = some x)
    (hget : t.get x = some (.file bytes mode)) :
    (setExecutable staging component : SessionProg Unit).Safe (handle s) (fun _ => True)
      (fun r w' => r = .ok () ∧ ∃ t'', Has staging t'' w' ∧ Marked t t'' (done ++ [component]))
      w := by
  unfold setExecutable
  split
  swap
  · next hbin => exact ⟨trivial, rfl, t', hw, hmarked.skip (by simpa using hbin)⟩
  next hbin =>
  rw [hx]
  have hfile : t'.get x =
      some (.file bytes (mode || done.any fun component => component.marks x)) := by
    rw [hmarked x, hget]
    rfl
  have hs := serves s
  obtain ⟨t'', hset⟩ := Tree.setFile_ok hfile bytes true
  have hexec := FsOp.exec_setExecutable (F := Doc) (D := Doc.Content) s.order
    ((hs.mine w staging hp).trans hw) hfile hset
  refine Safe.mapError ((safe_fs (.setExecutable staging x)).mpr ⟨trivial, trivial, ?_⟩)
  rw [hs.ret, hexec]
  refine ⟨rfl, t'', ?_, hmarked.mark hx hbin hget fun y => ?_⟩
  · rw [Has, hs.next, hexec]
    exact Disk.setDir_dir_self _ _
  · rw [Tree.get_setFile hset]

/-- What a preparation does where its stream can be unpacked and is graded well. -/
theorem prepare_ok {entries : List TarEntry} {verified : VerifiedPlatform}
    (hp : staging ≠ .platformState) (hwhole : ∀ entry ∈ entries, entry.Whole u.limits)
    (hfew : entries.length ≤ u.limits.entries) (hapart : Unrelated ((made entries).map place))
    (hw : w.disk.dir staging = none ∨ w.disk.dir staging = some .empty)
    (hgraded : ∀ t, Laid (made entries) entries t →
      graded u t ((made entries).map (·.1)) = .ok verified) :
    (prepare u (some ⟨entries, none⟩) staging : SessionProg VerifiedPlatform).Safe (handle s)
      (fun _ => True) (fun r w' => r = .ok verified ∧ ∃ t t', Laid (made entries) entries t ∧
        Has staging t' w' ∧ Marked t t' verified.manifest.components) w := by
  refine Safe.bind_ok (T := fun _ w' => Has staging .empty w')
    (Safe.mapError ((safe_fs (.createDirAll staging)).mpr ⟨trivial, trivial, ?_⟩))
    fun _ w₁ hw₁ => ?_
  · have hs := serves s
    rw [hs.ret]
    refine ⟨(), rfl, ?_⟩
    rw [Has, hs.next]
    simp only [FsOp.exec, hs.mine w staging hp]
    rcases hw with hw | hw
    · rw [hw]
      exact Disk.setDir_dir_self _ _
    · rw [hw]
      exact (hs.mine w staging hp).trans hw
  refine Safe.bind_ok (T := fun tree w' => tree = .of (made entries) ∧
    ∃ t, Has staging t w' ∧ Laid (made entries) entries t)
    (Safe.mapError ((extractTree_fits (serves s) hp hwhole hfew hapart hw₁).mono (fun _ h => h)
      fun r w' _ hq => ⟨_, by rw [hq.1]; rfl, rfl, hq.2⟩)) fun tree w₂ hq => ?_
  obtain ⟨rfl, t, ht, hlaid⟩ := hq
  have hgood := hgraded t hlaid
  obtain ⟨hrelease, hchecked, hlisted⟩ := graded_ok.1 hgood
  refine (yields_readRelease u.ext hp).then_safe ht (fun verified' w₃ hr ht₃ => ?_)
    fun e _ he => by rw [hrelease] at he; cases he
  cases hrelease.symm.trans hr
  refine (yields_verifyPayload u.ext u.policy verified.manifest hp).then_safe ht₃
    (fun _ w₄ _ ht₄ => ?_) fun e _ he => by rw [forM_eq_ok.2 hchecked] at he; cases he
  have hnone : (ExtractedTree.of (made entries)).names.find?
      (fun name => !isListed verified.manifest name) = none :=
    List.find?_eq_none.2 fun name hn => by simp [hlisted name hn]
  rw [hnone]
  refine Safe.bind_ok (T := fun _ w' => ∃ t', Has staging t' w' ∧
    Marked t t' verified.manifest.components) (Safe.each (I := fun done w' => ∃ t',
      Has staging t' w' ∧ Marked t t' done) ⟨t, ht₄, marked_nil t⟩
      (fun w' h => ⟨trivial, (), rfl, h⟩) ?_) fun _ w₅ hq => ?_
  · rintro done component rest w' hcomponents ⟨t₁, ht₁, hmarked⟩
    have hc : component ∈ verified.manifest.components := by rw [hcomponents]; simp
    obtain ⟨x, bytes, mode, hx, hget⟩ := graded_files hgood hc
    refine (setExecutable_fits hp ht₁ hmarked hx hget).mono (fun _ h => h) ?_
    rintro r w'' - ⟨rfl, h⟩
    exact h
  · obtain ⟨t₁, ht₁, hmarked⟩ := hq
    exact ⟨trivial, rfl, t, t₁, hlaid, ht₁, hmarked⟩

end Preparing

end Paperclip.Updater
