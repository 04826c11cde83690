import Paperclip.Packages.Serials

/-!
# When the cache of a catalog can be read

The document and its signature take their places one after the other. A visit that is killed between
the two, while it replaces a complete pair by another document, leaves the new document with the old
signature, and a pair that does not verify is an error for every later visit of that catalog, which
reads it before it writes. Without such a visit every complete pair verifies (`Whole`), the next index
is accepted, and the cache can be read afterwards.

* `Tears`: the visits that leave such a pair. `Untorn`: a history without one.
* `accepts_next`: what holds without one; `view_refused`: what such a pair does.
-/

namespace Paperclip.Packages

open Crash Files Protocol Ratchet

variable {K : Type}

/-- Whether a visit is killed after the document of a different index took its place, and before its
signature did. -/
def Tears (crates : Crates K) (visit : Visit K) (w : Account) : Prop :=
  visit.cut = some 4 ∧ ∃ bytes signature verified cached,
    Acceptable crates visit.catalog w.1 bytes signature verified ∧
      cachedPair w.1 (stemOfIndex verified) = some cached ∧ bytes ≠ cached.document

/-- No visit tears the cache. -/
def Untorn (crates : Crates K) : List (Visit K) → Account → Prop
  | [], _ => True
  | visit :: visits, w => ¬ Tears crates visit w ∧ Untorn crates visits (visit.run crates w)

/-- Every complete pair verifies. -/
def Readable (crates : Crates K) (keys : TrustedKeys K) (d : Cache) : Prop :=
  ∀ stem cached, cachedPair d stem = some cached →
    ∃ verified, verifyIndex crates keys cached.document cached.signature = .ok verified

/-- What a visit that does not tear the cache keeps: every complete pair verifies, and its document was
accepted. -/
structure Whole (crates : Crates K) (keys : TrustedKeys K) (w : Account) : Prop
    extends Sound crates w where
  readable : Readable crates keys w.1
  logged : ∀ stem cached, cachedPair w.1 stem = some cached → cached.document ∈ w.2

section Steps

variable {crates : Crates K} {keys : TrustedKeys K} {w w' : Account}

theorem cachedPair_congr {d d' : Cache} (h : d.docs = d'.docs) (stem : String) :
    cachedPair d stem = cachedPair d' stem := by
  unfold cachedPair
  rw [doc_congr h, doc_congr h]

/-- A complete pair once its document was replaced is the old signature with the new document. -/
theorem cachedPair_setDocument {d : Cache} {stem stem' : String} {bytes : Bytes}
    {cached : CachedIndex} (h : cachedPair (d.setDoc (.document stem) bytes) stem' = some cached) :
    stem' = stem ∧ cached.document = bytes ∧ d.doc (.signature stem) = some cached.signature ∨
      cachedPair d stem' = some cached := by
  obtain ⟨hd, hs⟩ := cachedPair_eq_some.mp h
  rw [setDocument_signature] at hs
  by_cases he : stem' = stem
  · subst he
    rw [Disk.setDoc_doc_self] at hd
    exact .inl ⟨rfl, (Option.some.inj hd).symm, hs⟩
  · rw [Disk.setDoc_doc_ne _ _ (by simpa using he)] at hd
    exact .inr (cachedPair_eq_some.mpr ⟨hd, hs⟩)

/-- A complete pair once both files were replaced. -/
theorem cachedPair_replaced {d : Cache} {stem stem' : String} {bytes signature : Bytes}
    {cached : CachedIndex} (h : cachedPair ((d.setDoc (.document stem) bytes).setDoc
      (.signature stem) signature) stem' = some cached) :
    stem' = stem ∧ cached = ⟨bytes, signature⟩ ∨ cachedPair d stem' = some cached := by
  obtain ⟨hd, hs⟩ := cachedPair_eq_some.mp h
  rw [setSignature_document] at hd
  by_cases he : stem' = stem
  · subst he
    rw [Disk.setDoc_doc_self] at hd hs
    obtain ⟨document, signature'⟩ := cached
    cases hd
    cases hs
    exact .inl ⟨rfl, rfl⟩
  · rw [Disk.setDoc_doc_ne _ _ (by simpa using he)] at hd hs
    rw [setDocument_signature] at hs
    exact .inr (cachedPair_eq_some.mpr ⟨hd, hs⟩)

theorem Whole.of_docs (hw : Whole crates keys w) (hs : Sound crates w')
    (hd : w'.1.docs = w.1.docs) (hl : ∀ b ∈ w.2, b ∈ w'.2) : Whole crates keys w' where
  toSound := hs
  readable stem cached hp := hw.readable stem cached (cachedPair_congr hd stem ▸ hp)
  logged stem cached hp := hl _ (hw.logged stem cached (cachedPair_congr hd stem ▸ hp))

/-- The pair once an index was accepted and the next visit was torn. -/
theorem cachedPair_torn {w₁ w₂ : Account} {stem : String} {bytes bytes' signature : Bytes}
    (h₁ : w₁.1.docs = ((w.1.setDoc (.document stem) bytes).setDoc (.signature stem) signature).docs)
    (h₂ : w₂.1.docs = (w₁.1.setDoc (.document stem) bytes').docs) :
    cachedPair w₂.1 stem = some ⟨bytes', signature⟩ := by
  rw [cachedPair_congr h₂]
  refine cachedPair_eq_some.mpr ⟨Disk.setDoc_doc_self _ _, ?_⟩
  rw [setDocument_signature, doc_congr h₁]
  exact Disk.setDoc_doc_self _ _

/-- A visit that does not tear the cache keeps it whole. -/
theorem Whole.visit {visit : Visit K} (hc : visit.catalog.cache = true)
    (hk : visit.catalog.keys = keys) (ht : ¬ Tears crates visit w) (hw : Whole crates keys w) :
    Whole crates keys (visit.run crates w) := by
  have hs := hw.toSound.visit hc
  cases @Visit.outcome K crates visit w hc with
  | same hd hl => exact hw.of_docs hs hd (by simp [hl])
  | stale hp hv hd hl => exact hw.of_docs hs hd fun b hb => by simp [hl, hb]
  | @torn bytes signature verified ha hcut hd hl =>
    have hpair : ∀ stem cached, cachedPair (visit.run crates w).1 stem = some cached →
        cachedPair w.1 stem = some cached := by
      intro stem cached hp
      rw [cachedPair_congr hd] at hp
      rcases cachedPair_setDocument hp with ⟨rfl, hdoc, hsig⟩ | hp
      · obtain ⟨b, hb⟩ := Option.isSome_iff_exists.mp (hw.paired _ (by rw [hsig]; rfl))
        have hold : cachedPair w.1 (stemOfIndex verified) = some ⟨b, cached.signature⟩ :=
          cachedPair_eq_some.mpr ⟨hb, hsig⟩
        have hsame : bytes = b := by
          by_contra hne
          exact ht ⟨hcut, bytes, signature, verified, _, ha, hold, hne⟩
        rw [hold, ← hsame, ← hdoc]
      · exact hp
    exact ⟨hs, fun stem cached hp => hw.readable stem cached (hpair stem cached hp),
      fun stem cached hp => hl ▸ hw.logged stem cached (hpair stem cached hp)⟩
  | @replaced bytes signature verified ha hd hl =>
    have hlog : bytes ∈ (visit.run crates w).2 ∧ ∀ b ∈ w.2, b ∈ (visit.run crates w).2 := by
      rcases hl with hl | hl <;> rw [hl] <;> simp +contextual
    refine ⟨hs, fun stem cached hp => ?_, fun stem cached hp => ?_⟩
    · rw [cachedPair_congr hd] at hp
      rcases cachedPair_replaced hp with ⟨-, rfl⟩ | hp
      · exact ⟨verified, hk ▸ ha.verifies⟩
      · exact hw.readable stem cached hp
    · rw [cachedPair_congr hd] at hp
      rcases cachedPair_replaced hp with ⟨-, rfl⟩ | hp
      · exact hlog.1
      · exact hlog.2 _ (hw.logged stem cached hp)

/-- Every history that no visit tears leaves the cache whole. -/
theorem Whole.visits {visits : List (Visit K)}
    (hc : ∀ visit ∈ visits, visit.catalog.cache = true ∧ visit.catalog.keys = keys)
    (ht : Untorn crates visits w) (hw : Whole crates keys w) :
    Whole crates keys (visits.foldl (fun w visit => visit.run crates w) w) := by
  induction visits generalizing w with
  | nil => exact hw
  | cons visit visits ih =>
    obtain ⟨hcache, hkeys⟩ := hc visit List.mem_cons_self
    exact ih (fun v hv => hc v (List.mem_cons_of_mem _ hv)) ht.2 (hw.visit hcache hkeys ht.1)

theorem whole_empty (crates : Crates K) (keys : TrustedKeys K) :
    Whole crates keys (⟨∅, ∅⟩, []) where
  toSound := sound_empty crates
  readable _ _ h := by cases h
  logged _ _ h := by cases h

/-- A cache that has a complete pair, and in which every complete pair verifies, gives a view. -/
theorem cachedView_ok {catalog : Catalog K} {stem : String} {cached : CachedIndex}
    (hc : catalog.cache = true) (hr : Readable crates catalog.keys w.1)
    (hp : cachedPair w.1 stem = some cached) (listing : Listing) (unavailable : TransportError) :
    ∃ view, ((catalog.cachedView crates listing unavailable : CacheProg noCalls _).run account w).1 =
      .ok view := by
  have hmem : CacheFile.document stem ∈ listing.order w.1.docs.keys := by
    rw [(listing.perm _).mem_iff, ← AList.mem_keys, ← AList.lookup_isSome]
    exact Option.isSome_iff_exists.mpr ⟨_, (cachedPair_eq_some.mp hp).1⟩
  suffices H : ∀ names : List CacheFile, .document stem ∈ names →
      ∃ view, ((Catalog.firstCached crates catalog.keys unavailable names :
        CacheProg noCalls _).run account w).1 = .ok view by
    obtain ⟨view, h⟩ := H _ hmem
    refine ⟨view, ?_⟩
    unfold Catalog.cachedView
    rw [if_pos hc]
    show (Prog.run account _ (account (.inl .docNames) w).2).1 = _
    rw [account_docNames]
    exact h
  intro names
  induction names with
  | nil => exact fun h => absurd h List.not_mem_nil
  | cons name rest ih =>
    intro hm
    cases name with
    | signature _ => exact ih ((List.mem_cons.mp hm).resolve_left (by simp))
    | document stem' =>
      unfold Catalog.firstCached
      rw [Prog.bind_eq, run_readCache]
      cases hp' : cachedPair w.1 stem' with
      | some cached' =>
        obtain ⟨verified, hv⟩ := hr _ _ hp'
        exact ⟨_, by simp only [hv]; rfl⟩
      | none =>
        refine ih ((List.mem_cons.mp hm).resolve_left fun he => ?_)
        cases he
        rw [hp] at hp'
        cases hp'

/-- An index of a serial above the cached one passes the check. -/
theorem Whole.acceptable {catalog : Catalog K} {bytes signature : Bytes} {verified : VerifiedIndex}
    (hw : Whole crates catalog.keys w) (hf : catalog.fetched = .ok (bytes, signature))
    (hv : verifyIndex crates catalog.keys bytes signature = .ok verified)
    (hs : ∀ b ∈ w.2, serialOf crates b < verified.index.serial) :
    Acceptable crates catalog w.1 bytes signature verified := by
  refine ⟨hf, hv, ?_⟩
  cases hp : cachedPair w.1 (cacheStem verified.index.catalog) with
  | none => rfl
  | some cached =>
    obtain ⟨v, hcv⟩ := hw.readable _ _ hp
    have hlt := hs _ (hw.logged _ _ hp)
    rw [serialOf_eq (verifyIndex_ok hcv).1] at hlt
    simp [checkSerial, hcv, bind, Except.bind, not_lt.mpr hlt.le, hlt.ne']

/-- A complete pair that does not verify is an error for every index of its catalog. -/
theorem view_refused {catalog : Catalog K} {bytes signature : Bytes} {verified : VerifiedIndex}
    {cached : CachedIndex} (hc : catalog.cache = true)
    (hf : catalog.fetched = .ok (bytes, signature))
    (hv : verifyIndex crates catalog.keys bytes signature = .ok verified)
    (hp : cachedPair w.1 (stemOfIndex verified) = some cached)
    (he : ∀ v, verifyIndex crates catalog.keys cached.document cached.signature ≠ .ok v)
    (listing : Listing) :
    ∃ e, (catalog.view crates listing : CacheProg noCalls _).run account w = (.error e, w) := by
  obtain ⟨hw, e, hr⟩ := (safe_view_refused listing hc hf fun verified' ha => by
    obtain rfl : verified = verified' := Except.ok.inj (hv.symm.trans ha.verifies)
    have hfollows := ha.follows
    rw [hp] at hfollows
    obtain ⟨v, hcv⟩ := (checkSerial_ok (verifyIndex_ok hv).1 hfollows).1
    exact he v hcv).result
  exact ⟨e, Prod.ext hr hw⟩

/-- A visit that is killed between the two files. -/
theorem Visit.run_torn {visit : Visit K} {bytes signature : Bytes} {verified : VerifiedIndex}
    (hc : visit.catalog.cache = true) (hcut : visit.cut = some 4)
    (ha : Acceptable crates visit.catalog w.1 bytes signature verified) :
    (visit.run crates w).1.docs = (w.1.setDoc (.document (stemOfIndex verified)) bytes).docs ∧
      (visit.run crates w).2 = w.2 := by
  obtain ⟨d, hd, hp, -⟩ := points_view visit.listing hc ha
  unfold Visit.run Visit.program
  simp only [hcut, Option.bind_some]
  rw [hp]
  exact ⟨by simp [Disk.setDoc, hd], rfl⟩

end Steps

/-- Along every history that no visit tears, whatever else is killed, a validly signed index whose
serial is above every one accepted or returned so far is accepted, and afterwards the cache has it,
every complete pair of the cache verifies, and the catalog can be viewed without its transport. -/
theorem accepts_next (crates : Crates K) (keys : TrustedKeys K) (visits : List (Visit K))
    (hc : ∀ visit ∈ visits, visit.catalog.cache = true ∧ visit.catalog.keys = keys)
    (ht : Untorn crates visits (⟨∅, ∅⟩, [])) (next : Visit K)
    (hn : next.catalog.cache = true ∧ next.catalog.keys = keys) (hcut : next.cut = none)
    (bytes signature : Bytes) (verified : VerifiedIndex)
    (hf : next.catalog.fetched = .ok (bytes, signature))
    (hv : verifyIndex crates keys bytes signature = .ok verified)
    (hs : ∀ b ∈ (history crates visits).2, serialOf crates b < verified.index.serial) :
    ((next.program crates).run account (history crates visits)).1 =
        .ok ⟨verified.index, verified.signer, false, bytes⟩ ∧
      cachedPair (next.run crates (history crates visits)).1 (stemOfIndex verified) =
        some ⟨bytes, signature⟩ ∧
      Readable crates keys (next.run crates (history crates visits)).1 ∧
      ∀ listing unavailable, ∃ view, ((next.catalog.cachedView crates listing unavailable :
        CacheProg noCalls _).run account (next.run crates (history crates visits))).1 = .ok view := by
  obtain ⟨hcache, rfl⟩ := hn
  have hw : Whole crates next.catalog.keys (history crates visits) :=
    (whole_empty crates _).visits hc ht
  have ha := hw.acceptable hf hv hs
  obtain ⟨d, hd, -, hr⟩ := points_view next.listing hcache ha
  obtain ⟨hdocs, -⟩ := Visit.run_accepted hcache hcut ha
  have hpair : cachedPair (next.run crates (history crates visits)).1 (stemOfIndex verified) =
      some ⟨bytes, signature⟩ := by
    rw [cachedPair_congr hdocs]
    exact cachedPair_eq_some.mpr ⟨by simp, by simp⟩
  have hw' : Whole crates next.catalog.keys (next.run crates (history crates visits)) :=
    hw.visit hcache rfl fun h => absurd (hcut.symm.trans h.1) (by simp)
  refine ⟨?_, hpair, hw'.readable, fun listing unavailable =>
    cachedView_ok hcache hw'.readable hpair listing unavailable⟩
  unfold Visit.program
  rw [hr]

namespace Sample

/-- A visit that is killed between the two files. -/
def killed (serial : ℕ) : Visit Unit := { visit cached serial with cut := some 4 }

theorem whole_empty : Whole crates keys (⟨∅, ∅⟩, []) := Packages.whole_empty crates keys

/-- Every index of the samples passes the checks after the ones below it. -/
theorem acceptable {w : Account} {serial : ℕ} (visit : Visit Unit)
    (hv : visit.catalog = cached (serves serial) keys) (hm : serial ∈ [1, 2, 3])
    (hw : Whole crates keys w) (hs : ∀ b ∈ w.2, serialOf crates b < serial) :
    Acceptable crates visit.catalog w.1 (document serial) (signature serial) ⟨index serial, keyId⟩ := by
  rw [hv]
  exact hw.acceptable (fetched _ rfl) (verifyIndex_document hm) hs

/-- One index with the signature of another. -/
def tornPair : CachedIndex := ⟨document 2, signature 1⟩

theorem verifyIndex_torn (v : VerifiedIndex) :
    verifyIndex crates keys tornPair.document tornPair.signature ≠ .ok v := by
  have hne : sign (Domain.catalog.message (document 1)) ≠
      sign (Domain.catalog.message (document 2)) := by
    decide +kernel
  intro h
  simp only [verifyIndex, tornPair, readSignature_signature] at h
  obtain ⟨_, hs, h⟩ := bind_ok h
  cases hs
  obtain ⟨verified, hv, -⟩ := bind_ok h
  have hv := mapError_ok hv
  unfold TrustedKeys.verify at hv
  split at hv
  · cases hv
  · split at hv
    · next hs => exact hne (by simpa [crates] using hs)
    · cases hv

end Sample

/-- After a first visit that was killed between the two files, the next index is accepted. -/
theorem accepts_next_first :
    (((Sample.visit Sample.cached 2).program Sample.crates).run account
      (history Sample.crates [Sample.killed 1])).1 =
        .ok ⟨Sample.index 2, Sample.keyId, false, Sample.document 2⟩ :=
  (accepts_next Sample.crates Sample.keys [Sample.killed 1]
    (by simp [Sample.killed, Sample.visit, Sample.cached, Catalog.withCache, Catalog.new])
    ⟨fun ⟨_, _, _, _, _, _, h, _⟩ => (by cases h), trivial⟩
    (Sample.visit Sample.cached 2) ⟨rfl, rfl⟩ rfl (Sample.document 2) (Sample.signature 2)
    ⟨Sample.index 2, Sample.keyId⟩ (Sample.fetched _ rfl) (Sample.verifyIndex_document (by simp))
    (fun b hb => by
      have ha := Sample.acceptable (Sample.killed 1) rfl (by simp) Sample.whole_empty (by simp)
      rw [history, List.foldl_cons, List.foldl_nil, (Visit.run_torn rfl rfl ha).2] at hb
      exact absurd hb List.not_mem_nil)).1

/-- What a visit leaves that is killed between the two files while it replaces an index. -/
theorem Sample.torn : ∃ w : Account,
    history Sample.crates [Sample.visit Sample.cached 1, Sample.killed 2] = w ∧
      w.2 = [Sample.document 1, Sample.document 1] ∧
        cachedPair w.1 (cacheStem "home") = some Sample.tornPair := by
  have hw₁ := @Whole.visit _ _ _ _ (Sample.visit Sample.cached 1) rfl rfl
    (fun h => (by cases h.1)) Sample.whole_empty
  obtain ⟨hd₁, hl₁⟩ := Visit.run_accepted rfl rfl
    (Sample.acceptable (Sample.visit Sample.cached 1) rfl (by simp) Sample.whole_empty (by simp))
  have hh : history Sample.crates [Sample.visit Sample.cached 1, Sample.killed 2] =
      (Sample.killed 2).run Sample.crates
        ((Sample.visit Sample.cached 1).run Sample.crates (⟨∅, ∅⟩, [])) := by
    rw [history, List.foldl_cons, List.foldl_cons, List.foldl_nil]
  rw [hh]
  generalize (Sample.visit Sample.cached 1).run Sample.crates (⟨∅, ∅⟩, []) = w₁ at *
  have hs₁ : serialOf Sample.crates (Sample.document 1) = 1 :=
    serialOf_eq (Sample.readIndex_document (by simp))
  obtain ⟨hd₂, hl₂⟩ := Visit.run_torn rfl rfl
    (Sample.acceptable (Sample.killed 2) rfl (by simp) hw₁ (by simp [hl₁, hs₁]))
  exact ⟨_, rfl, hl₂.trans hl₁, cachedPair_torn hd₁ hd₂⟩

/-- After a visit that is killed between the two files while it replaces another index, the next index
is validly signed, its serial is above all, and it is refused. -/
theorem torn_cache_wedges :
    verifyIndex Sample.crates Sample.keys (Sample.document 3) (Sample.signature 3) =
        .ok ⟨Sample.index 3, Sample.keyId⟩ ∧
      ∀ w, history Sample.crates [Sample.visit Sample.cached 1, Sample.killed 2] = w →
        (∀ b ∈ w.2, serialOf Sample.crates b < 3) ∧
          ∀ view, (((Sample.visit Sample.cached 3).program Sample.crates).run account w).1 ≠
            .ok view := by
  refine ⟨Sample.verifyIndex_document (by simp), ?_⟩
  rintro w rfl
  obtain ⟨w, hw, hl, hp⟩ := Sample.torn
  rw [hw]
  refine ⟨fun b hb => ?_, fun view h => ?_⟩
  · rw [hl] at hb
    obtain rfl : b = Sample.document 1 := by simpa using hb
    rw [serialOf_eq (Sample.readIndex_document (by simp))]
    decide
  · have hf := @Sample.fetched (Sample.visit Sample.cached 3).catalog 3 rfl
    have hv := @Sample.verifyIndex_document 3 (by simp)
    obtain ⟨e, he⟩ := @view_refused _ _ _ (Sample.visit Sample.cached 3).catalog _ _ _ _ rfl hf hv
      hp Sample.verifyIndex_torn (Sample.visit Sample.cached 3).listing
    unfold Visit.program at h
    rw [he] at h
    cases h

end Paperclip.Packages
