import Paperclip.Order.Ratchet
import Paperclip.Packages.Catalog

/-!
# The history of a catalog's cache

A history is a list of visits. A visit is one call of `view`, by a process that may be killed between
two of its steps on the cache. The log of a history has the documents that were accepted, which is when
the signature of an index takes its place beside it, and those that were returned as a view.

* `Visit.run`, `history`: what the visits leave.
* `Visit.outcome`: the four ways in which a visit can end.
* `Sound`: what every visit keeps.
-/

namespace Paperclip.Packages

open Crash Files Protocol Ratchet

/-- What a step on the cache directory answers and does. -/
def handleCache : Handler (withFs noCalls Unit CacheFile fun _ => Bytes) Cache
  | .inl o, d => o.exec .byDepth d
  | .inr o, _ => nomatch o

/-- The document that a step accepts. -/
def accepts (step : Step (withFs noCalls Unit CacheFile fun _ => Bytes) Cache) : List Bytes :=
  match step.op with
  | .inl (.put (.signature stem) _) => (step.before.doc (.document stem)).toList
  | _ => []

/-- The cache, and the log of the documents that were accepted or returned. -/
abbrev Account := Cache × List Bytes

/-- The handler that keeps the log. -/
abbrev account : Handler (withFs noCalls Unit CacheFile fun _ => Bytes) Account :=
  handleCache.logged accepts

/-- The document that a call returns. -/
def returned : Except CatalogError CatalogView → List Bytes
  | .ok view => [view.document]
  | .error _ => []

/-- One call of `view`. A call with a `cut` is killed after so many steps, if it takes that many. -/
structure Visit (K : Type) where
  catalog : Catalog K
  listing : Listing
  cut : Option ℕ

variable {K : Type}

namespace Visit

/-- What the call does. -/
def program (crates : Crates K) (visit : Visit K) : CacheProg noCalls CatalogView :=
  visit.catalog.view crates visit.listing

/-- What a call that was not killed leaves: its view is in the log too. -/
def finish (ended : Except CatalogError CatalogView × Account) : Account :=
  (ended.2.1, ended.2.2 ++ returned ended.1)

/-- What the visit leaves. -/
def run (crates : Crates K) (visit : Visit K) (w : Account) : Account :=
  match visit.cut.bind fun n => ((visit.program crates).points account w)[n]? with
  | some w' => w'
  | none => finish ((visit.program crates).run account w)

end Visit

/-- What the visits leave, from an empty cache. -/
def history (crates : Crates K) (visits : List (Visit K)) : Account :=
  visits.foldl (fun w visit => visit.run crates w) (⟨∅, ∅⟩, [])

/-- What every visit keeps holds of every history. -/
theorem history_induction {crates : Crates K} {I : Account → Prop} {visits : List (Visit K)}
    (h₀ : I (⟨∅, ∅⟩, [])) (h : ∀ w, ∀ visit ∈ visits, I w → I (visit.run crates w)) :
    I (history crates visits) := by
  suffices H : ∀ vs : List (Visit K), (∀ v ∈ vs, v ∈ visits) → ∀ w, I w →
      I (vs.foldl (fun w visit => visit.run crates w) w) from H visits (fun _ hv => hv) _ h₀
  intro vs
  induction vs with
  | nil => exact fun _ _ hw => hw
  | cons v vs ih =>
    intro hvs w hw
    exact ih (fun u hu => hvs u (List.mem_cons_of_mem _ hu)) _ (h w v (hvs v List.mem_cons_self) hw)

/-! ## What a visit can do -/

/-- The cached pair of a stem. -/
def cachedPair (d : Cache) (stem : String) : Option CachedIndex :=
  match d.doc (.document stem), d.doc (.signature stem) with
  | some document, some signature => some ⟨document, signature⟩
  | _, _ => none

@[simp] theorem setDocument_signature (d : Cache) (stem stem' : String) (b : Bytes) :
    (d.setDoc (.document stem) b).doc (.signature stem') = d.doc (.signature stem') :=
  Disk.setDoc_doc_ne _ _ (by simp)

@[simp] theorem setSignature_document (d : Cache) (stem stem' : String) (b : Bytes) :
    (d.setDoc (.signature stem) b).doc (.document stem') = d.doc (.document stem') :=
  Disk.setDoc_doc_ne _ _ (by simp)

/-- A visit whose index passes the checks. -/
structure Acceptable (crates : Crates K) (catalog : Catalog K) (d : Cache) (bytes signature : Bytes)
    (verified : VerifiedIndex) : Prop where
  fetched : catalog.fetched = .ok (bytes, signature)
  verifies : verifyIndex crates catalog.keys bytes signature = .ok verified
  follows : checkSerial crates catalog.keys verified.index bytes
    (cachedPair d (cacheStem verified.index.catalog)) = .ok ()

/-- The two files of an index. -/
abbrev stemOfIndex (verified : VerifiedIndex) : String := cacheStem verified.index.catalog

/-- How a visit ends, by what it does to the files and to the log. -/
inductive Outcome (crates : Crates K) (visit : Visit K) (w : Account) : Account → Prop
  | same {w' : Account} (hd : w'.1.docs = w.1.docs) (hl : w'.2 = w.2) : Outcome crates visit w w'
  | stale {w' : Account} {stem : String} {cached : CachedIndex} {verified : VerifiedIndex}
      (hp : cachedPair w.1 stem = some cached)
      (hv : verifyIndex crates visit.catalog.keys cached.document cached.signature = .ok verified)
      (hd : w'.1.docs = w.1.docs) (hl : w'.2 = w.2 ++ [cached.document]) :
      Outcome crates visit w w'
  | torn {w' : Account} {bytes signature : Bytes} {verified : VerifiedIndex}
      (ha : Acceptable crates visit.catalog w.1 bytes signature verified) (hc : visit.cut = some 4)
      (hd : w'.1.docs = (w.1.setDoc (.document (stemOfIndex verified)) bytes).docs)
      (hl : w'.2 = w.2) : Outcome crates visit w w'
  | replaced {w' : Account} {bytes signature : Bytes} {verified : VerifiedIndex}
      (ha : Acceptable crates visit.catalog w.1 bytes signature verified)
      (hd : w'.1.docs = ((w.1.setDoc (.document (stemOfIndex verified)) bytes).setDoc
        (.signature (stemOfIndex verified)) signature).docs)
      (hl : w'.2 = w.2 ++ [bytes] ∨ w'.2 = w.2 ++ [bytes] ++ [bytes]) : Outcome crates visit w w'

section Programs

variable {crates : Crates K} {catalog : Catalog K} {w : Account} {α : Type}

theorem account_get (f : CacheFile) (w : Account) :
    account (.inl (.get f)) w = (.ok (w.1.doc f), w) := by
  simp [Handler.logged, handleCache, FsOp.exec, accepts]

theorem account_docNames (w : Account) :
    account (.inl .docNames) w = (.ok w.1.docs.keys, w) := by
  simp [Handler.logged, handleCache, FsOp.exec, accepts]

theorem account_createDirAll (w : Account) :
    ∃ d : Cache, d.docs = w.1.docs ∧ account (.inl (.createDirAll ())) w = (.ok (), d, w.2) := by
  refine ⟨if (w.1.dir ()).isSome then w.1 else w.1.setDir () .empty, ?_, ?_⟩
  · split <;> rfl
  · simp [Handler.logged, handleCache, FsOp.exec, accepts]

theorem account_putDocument (stem : String) (b : Bytes) (w : Account) :
    account (.inl (.put (.document stem) b)) w = (.ok (), w.1.setDoc (.document stem) b, w.2) := by
  simp [Handler.logged, handleCache, FsOp.exec, accepts]

theorem account_putSignature (stem : String) (b : Bytes) (w : Account) :
    account (.inl (.put (.signature stem) b)) w =
      (.ok (), w.1.setDoc (.signature stem) b, w.2 ++ (w.1.doc (.document stem)).toList) := by
  simp [Handler.logged, handleCache, FsOp.exec, accepts]

/-- A reading of the cache takes two steps, which change nothing, and gives the pair. -/
theorem points_readCache (stem : String) (f : Option CachedIndex → CacheProg noCalls α) :
    ((readCache stem).bind f).points account w =
      w :: w :: (f (cachedPair w.1 stem)).points account w := by
  simp only [readCache, Prog.bind_eq, fs, Prog.attempt, Prog.bind_step, Prog.points, account_get,
    Prog.ofExcept_ok, Prog.bind_done, cachedPair]
  cases w.1.doc (.document stem) <;> cases w.1.doc (.signature stem) <;> rfl

theorem run_readCache (stem : String) (f : Option CachedIndex → CacheProg noCalls α) :
    ((readCache stem).bind f).run account w = (f (cachedPair w.1 stem)).run account w := by
  simp only [readCache, Prog.bind_eq, fs, Prog.attempt, Prog.bind_step, Prog.run, account_get,
    Prog.ofExcept_ok, Prog.bind_done, cachedPair]
  cases w.1.doc (.document stem) <;> cases w.1.doc (.signature stem) <;> rfl

theorem safe_readCache {C : Account → Prop} {Q : Except CatalogError α → Account → Prop}
    {stem : String} {f : Option CachedIndex → CacheProg noCalls α} (hw : C w)
    (hf : (f (cachedPair w.1 stem)).Safe account C Q w) :
    ((readCache stem).bind f).Safe account C Q w := by
  rw [Prog.safe_iff] at hf ⊢
  rw [points_readCache, run_readCache]
  refine ⟨fun w' h => ?_, hf.2⟩
  rcases List.mem_cons.mp h with rfl | h
  · exact hw
  rcases List.mem_cons.mp h with rfl | h
  · exact hw
  · exact hf.1 w' h

/-- What a view from the cache is. -/
def FromCache (crates : Crates K) (keys : TrustedKeys K) (d : Cache)
    (r : Except CatalogError CatalogView) : Prop :=
  ∀ view, r = .ok view → ∃ stem cached, cachedPair d stem = some cached ∧
    view.document = cached.document ∧
    ∃ verified, verifyIndex crates keys cached.document cached.signature = .ok verified ∧
      view.index = verified.index ∧ view.stale = true

theorem safe_firstCached (keys : TrustedKeys K) (unavailable : TransportError)
    (names : List CacheFile) :
    (Catalog.firstCached crates keys unavailable names : CacheProg noCalls _).Safe account
      (· = w) (fun r w' => w' = w ∧ FromCache crates keys w.1 r) w := by
  induction names with
  | nil => exact ⟨rfl, rfl, fun _ h => (by cases h)⟩
  | cons name rest ih =>
    cases name with
    | signature stem => exact ih
    | document stem =>
      refine safe_readCache rfl ?_
      cases hp : cachedPair w.1 stem with
      | none => exact ih
      | some cached =>
        cases hv : verifyIndex crates keys cached.document cached.signature with
        | error e =>
          simp only [hv]
          exact ⟨rfl, rfl, fun _ h => (by cases h)⟩
        | ok verified =>
          simp only [hv]
          refine ⟨rfl, rfl, fun view h => ?_⟩
          cases h
          exact ⟨stem, cached, hp, rfl, verified, hv, rfl, rfl⟩

theorem safe_cachedView (listing : Listing) (unavailable : TransportError) :
    (catalog.cachedView crates listing unavailable : CacheProg noCalls _).Safe account
      (· = w) (fun r w' => w' = w ∧ FromCache crates catalog.keys w.1 r) w := by
  unfold Catalog.cachedView
  split
  · refine Prog.safe_step.mpr ⟨rfl, ?_⟩
    rw [account_docNames]
    exact safe_firstCached _ _ _
  · exact ⟨rfl, rfl, fun _ h => (by cases h)⟩

/-- The points of a view that replaces the cached index. The fifth is torn: the new document, and
the signature of the one before. -/
theorem points_view {bytes signature : Bytes} {verified : VerifiedIndex} (listing : Listing)
    (hc : catalog.cache = true) (ha : Acceptable crates catalog w.1 bytes signature verified) :
    ∃ d : Cache, d.docs = w.1.docs ∧
      let d₁ := d.setDoc (.document (stemOfIndex verified)) bytes
      let d₂ := d₁.setDoc (.signature (stemOfIndex verified)) signature
      (catalog.view crates listing).points account w =
          [w, w, w, (d, w.2), (d₁, w.2), (d₂, w.2 ++ [bytes])] ∧
        (catalog.view crates listing).run account w =
          (.ok ⟨verified.index, verified.signer, false, bytes⟩, d₂, w.2 ++ [bytes]) := by
  obtain ⟨d, hd, hdir⟩ := account_createDirAll w
  refine ⟨d, hd, ?_, ?_⟩
  · simp only [Catalog.view, ha.fetched, ha.verifies, Catalog.accept, hc, if_true, Prog.bind_eq,
      Prog.ofExcept_ok, Prog.bind_done, Prog.bind_assoc, points_readCache, ha.follows, fs,
      Prog.mapError, Prog.bind_step, Prog.points, hdir, account_putDocument, account_putSignature,
      Prog.pure_eq, Disk.setDoc_doc_self, Option.toList_some]
  · simp only [Catalog.view, ha.fetched, ha.verifies, Catalog.accept, hc, if_true, Prog.bind_eq,
      Prog.ofExcept_ok, Prog.bind_done, Prog.bind_assoc, run_readCache, ha.follows, fs,
      Prog.mapError, Prog.bind_step, Prog.run, hdir, account_putDocument, account_putSignature,
      Prog.pure_eq, Disk.setDoc_doc_self, Option.toList_some]

/-- A fetched index that does not pass the checks changes nothing. -/
theorem safe_view_refused {bytes signature : Bytes} (listing : Listing)
    (hc : catalog.cache = true) (hf : catalog.fetched = .ok (bytes, signature))
    (hn : ∀ verified, ¬ Acceptable crates catalog w.1 bytes signature verified) :
    (catalog.view crates listing : CacheProg noCalls _).Safe account (· = w)
      (fun r w' => w' = w ∧ ∃ e, r = .error e) w := by
  simp only [Catalog.view, hf, Prog.bind_eq]
  cases hv : verifyIndex crates catalog.keys bytes signature with
  | error e => exact ⟨rfl, rfl, e, rfl⟩
  | ok verified =>
    simp only [Prog.ofExcept_ok, Prog.bind_done, Catalog.accept, hc, if_true, Prog.bind_eq,
      Prog.bind_assoc]
    refine safe_readCache rfl ?_
    cases hs : checkSerial crates catalog.keys verified.index bytes
        (cachedPair w.1 (cacheStem verified.index.catalog)) with
    | error e => exact ⟨rfl, rfl, e, rfl⟩
    | ok _ => exact absurd ⟨hf, hv, hs⟩ (hn verified)

/-- What a visit leaves if its program leaves the account as it is. -/
theorem run_of_still {visit : Visit K} {Q : Except CatalogError CatalogView → Prop}
    (hs : (visit.program crates).Safe account (· = w) (fun r w' => w' = w ∧ Q r) w) :
    visit.run crates w = w ∨ ∃ r, Q r ∧ visit.run crates w = (w.1, w.2 ++ returned r) := by
  unfold Visit.run
  split
  · next w' h =>
    obtain ⟨n, -, hn⟩ := Option.bind_eq_some_iff.mp h
    exact .inl (hs.points (List.mem_of_getElem? hn))
  · obtain ⟨hw, hq⟩ := hs.result
    exact .inr ⟨_, hq, by rw [Visit.finish, hw]⟩

end Programs

/-- How a visit of a catalog with a cache ends. -/
theorem Visit.outcome {crates : Crates K} {visit : Visit K} {w : Account}
    (hc : visit.catalog.cache = true) : Outcome crates visit w (visit.run crates w) := by
  cases hf : visit.catalog.fetched with
  | error unavailable =>
    have hs : (visit.program crates).Safe account (· = w)
        (fun r w' => w' = w ∧ FromCache crates visit.catalog.keys w.1 r) w := by
      simp only [Visit.program, Catalog.view, hf]
      exact safe_cachedView _ _
    rcases run_of_still hs with h | ⟨r, hr, h⟩
    · rw [h]
      exact .same rfl rfl
    cases r with
    | error e => exact h ▸ .same rfl (List.append_nil _)
    | ok view =>
      obtain ⟨stem, cached, hp, hdoc, verified, hv, -⟩ := hr view rfl
      exact h ▸ .stale hp hv rfl (by rw [returned, hdoc])
  | ok served =>
    obtain ⟨bytes, signature⟩ := served
    by_cases ha : ∃ verified, Acceptable crates visit.catalog w.1 bytes signature verified
    · obtain ⟨verified, ha⟩ := ha
      obtain ⟨d, hd, hp, hr⟩ := points_view visit.listing hc ha
      unfold Visit.run Visit.program
      rw [hp, hr]
      rcases hcut : visit.cut with _ | n
      · exact .replaced ha (by simp [Disk.setDoc, finish, hd]) (.inr rfl)
      match n with
      | 0 | 1 | 2 => exact .same rfl rfl
      | 3 => exact .same hd rfl
      | 4 => exact .torn ha hcut (by simp [Disk.setDoc, hd]) rfl
      | 5 => exact .replaced ha (by simp [Disk.setDoc, hd]) (.inl rfl)
      | n + 6 => exact .replaced ha (by simp [Disk.setDoc, finish, hd]) (.inr rfl)
    · rcases @run_of_still K crates w visit (Q := fun r => ∃ e, r = .error e)
        (safe_view_refused visit.listing hc hf fun v hv => ha ⟨v, hv⟩) with h | ⟨r, ⟨e, rfl⟩, h⟩
      · rw [h]
        exact .same rfl rfl
      · exact h ▸ .same rfl (List.append_nil _)

end Paperclip.Packages
