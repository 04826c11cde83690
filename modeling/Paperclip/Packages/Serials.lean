import Paperclip.Packages.History

/-!
# A catalog with a cache never goes backwards

Serials are only comparable within one catalog name. Along every history of catalogs with a cache, a
document that was accepted or returned follows all those before it: its serial is not below theirs,
and an equal serial means equal bytes. What carries this is that the cached document follows
everything in the log (`Sound`), which a torn pair keeps too.

A catalog without a cache has no memory, so nothing holds it back.
-/

namespace Paperclip.Packages

open Crash Files Protocol Ratchet

variable {K : Type}

/-- The name of the catalog that an index is of. -/
def catalogOf (crates : Crates K) (bytes : Bytes) : Option String :=
  (readIndex crates bytes).toOption.map fun index => index.catalog

/-- The stem that an index is cached under. -/
def stemOf (crates : Crates K) (bytes : Bytes) : Option String :=
  (catalogOf crates bytes).map cacheStem

/-- The serial of an index. -/
def serialOf (crates : Crates K) (bytes : Bytes) : ℕ :=
  ((readIndex crates bytes).toOption.map fun index => index.serial).getD 0

/-- What every visit keeps: a cached document is named by its stem, a signature has a document beside
it, and the cached document follows the whole log, which is itself in order. -/
structure Sound (crates : Crates K) (w : Account) : Prop where
  named : ∀ stem b, w.1.doc (.document stem) = some b → stemOf crates b = some stem
  paired : ∀ stem, (w.1.doc (.signature stem)).isSome → (w.1.doc (.document stem)).isSome
  covered : ∀ a ∈ w.2, ∃ stem, stemOf crates a = some stem ∧
    (w.1.doc (.signature stem)).isSome ∧
      ∀ b, w.1.doc (.document stem) = some b → Follows (stemOf crates) (serialOf crates) a b
  ordered : w.2.Pairwise (Follows (stemOf crates) (serialOf crates))

section Lemmas

variable {crates : Crates K} {keys : TrustedKeys K} {w w' : Account} {bytes : Bytes}
  {index : CatalogIndex}

theorem stemOf_eq (h : readIndex crates bytes = .ok index) :
    stemOf crates bytes = some (cacheStem index.catalog) := by
  simp [stemOf, catalogOf, h, Except.toOption]

theorem serialOf_eq (h : readIndex crates bytes = .ok index) :
    serialOf crates bytes = index.serial := by
  simp [serialOf, h, Except.toOption]

theorem readIndex_of_stemOf {stem : String} (h : stemOf crates bytes = some stem) :
    ∃ index, readIndex crates bytes = .ok index := by
  cases hr : readIndex crates bytes with
  | ok index => exact ⟨index, rfl⟩
  | error e => simp [stemOf, catalogOf, hr, Except.toOption] at h

/-- Documents of one catalog are cached under one stem. -/
theorem stemOf_congr {a b : Bytes} (h : catalogOf crates a = catalogOf crates b) :
    stemOf crates a = stemOf crates b := congrArg (Option.map cacheStem) h

/-- What the check of the serial says. -/
theorem checkSerial_ok {previous : CachedIndex} (hr : readIndex crates bytes = .ok index)
    (h : checkSerial crates keys index bytes (some previous) = .ok ()) :
    (∃ cached, verifyIndex crates keys previous.document previous.signature = .ok cached) ∧
      Follows (stemOf crates) (serialOf crates) previous.document bytes := by
  obtain ⟨cached, hv, h⟩ := bind_ok h
  refine ⟨⟨cached, hv⟩, fun _ => ?_⟩
  rw [serialOf_eq hr, serialOf_eq (verifyIndex_ok hv).1]
  split at h
  · cases h
  split at h
  · cases h
  next hlt hne =>
  refine ⟨not_lt.mp hlt, fun he => ?_⟩
  by_contra hb
  exact hne ⟨he.symm, fun h => hb h.symm⟩

theorem cachedPair_eq_some {d : Cache} {stem : String} {cached : CachedIndex} :
    cachedPair d stem = some cached ↔
      d.doc (.document stem) = some cached.document ∧
        d.doc (.signature stem) = some cached.signature := by
  unfold cachedPair
  cases d.doc (.document stem) <;> cases d.doc (.signature stem) <;> cases cached <;> simp

theorem doc_congr {d d' : Cache} (h : d.docs = d'.docs) (f : CacheFile) : d.doc f = d'.doc f :=
  congrArg (AList.lookup f) h

/-- A cached document follows everything in the log. -/
theorem Sound.cached_follows {stem : String} (hs : Sound crates w)
    (hd : w.1.doc (.document stem) = some bytes) :
    ∀ a ∈ w.2, Follows (stemOf crates) (serialOf crates) a bytes := by
  intro a hm he
  obtain ⟨stem', hstem, -, hcov⟩ := hs.covered a hm
  obtain rfl : stem' = stem :=
    Option.some.inj (hstem.symm.trans (he.trans (hs.named stem bytes hd)))
  exact hcov bytes hd he

/-- An index that passes the checks follows everything in the log. -/
theorem Sound.follows {catalog : Catalog K} {signature : Bytes} {verified : VerifiedIndex}
    (hs : Sound crates w) (ha : Acceptable crates catalog w.1 bytes signature verified) :
    ∀ a ∈ w.2, Follows (stemOf crates) (serialOf crates) a bytes := by
  intro a hm
  have hr := (verifyIndex_ok ha.verifies).1
  obtain ⟨stem, hstem, hsig, hcov⟩ := hs.covered a hm
  by_cases hne : stemOf crates a = stemOf crates bytes
  · obtain rfl : stem = cacheStem verified.index.catalog :=
      Option.some.inj (hstem.symm.trans (hne.trans (stemOf_eq hr)))
    obtain ⟨b, hb⟩ := Option.isSome_iff_exists.mp (hs.paired _ hsig)
    obtain ⟨s, hs'⟩ := Option.isSome_iff_exists.mp hsig
    have hp : cachedPair w.1 (cacheStem verified.index.catalog) = some ⟨b, s⟩ :=
      cachedPair_eq_some.mpr ⟨hb, hs'⟩
    have hf := ha.follows
    rw [hp] at hf
    exact (hcov b hb).trans (checkSerial_ok hr hf).2 ((hs.named _ b hb).trans (stemOf_eq hr).symm)
  · exact .of_ne hne

/-- A document joins the log when it follows the log and the cached document is the same, signature
included. -/
theorem Sound.log {stem : String} (hs : Sound crates w)
    (hd : w.1.doc (.document stem) = some bytes) (hsig : (w.1.doc (.signature stem)).isSome)
    (hf : ∀ a ∈ w.2, Follows (stemOf crates) (serialOf crates) a bytes) :
    Sound crates (w.1, w.2 ++ [bytes]) where
  named := hs.named
  paired := hs.paired
  covered a ha := by
    rcases List.mem_append.mp ha with ha | ha
    · exact hs.covered a ha
    · obtain rfl := List.mem_singleton.mp ha
      refine ⟨stem, hs.named _ _ hd, hsig, fun b hb => ?_⟩
      rw [hd] at hb
      cases hb
      exact .refl _
  ordered := pairwise_concat hs.ordered hf

/-- The cache may change in its directories alone. -/
theorem Sound.congr (hs : Sound crates w) (hd : w'.1.docs = w.1.docs) (hl : w'.2 = w.2) :
    Sound crates w' where
  named stem b h := hs.named stem b (doc_congr hd _ ▸ h)
  paired stem h := by
    rw [doc_congr hd] at h ⊢
    exact hs.paired stem h
  covered a ha := by
    obtain ⟨stem, h₁, h₂, h₃⟩ := hs.covered a (hl ▸ ha)
    exact ⟨stem, h₁, by rwa [doc_congr hd], fun b hb => h₃ b (doc_congr hd _ ▸ hb)⟩
  ordered := hl ▸ hs.ordered

/-- The document of an index that passes the checks takes its place. -/
theorem Sound.setDocument {catalog : Catalog K} {signature : Bytes} {verified : VerifiedIndex}
    (hs : Sound crates w) (ha : Acceptable crates catalog w.1 bytes signature verified) :
    Sound crates (w.1.setDoc (.document (stemOfIndex verified)) bytes, w.2) where
  named stem b h := by
    by_cases he : stem = stemOfIndex verified
    · subst he
      rw [Disk.setDoc_doc_self] at h
      cases h
      exact stemOf_eq (verifyIndex_ok ha.verifies).1
    · rw [Disk.setDoc_doc_ne _ _ (by simpa using he)] at h
      exact hs.named stem b h
  paired stem h := by
    rw [setDocument_signature] at h
    by_cases he : stem = stemOfIndex verified
    · subst he
      rw [Disk.setDoc_doc_self]
      rfl
    · rw [Disk.setDoc_doc_ne _ _ (by simpa using he)]
      exact hs.paired stem h
  covered a hm := by
    obtain ⟨stem, h₁, h₂, h₃⟩ := hs.covered a hm
    refine ⟨stem, h₁, by rwa [setDocument_signature], fun b hb => ?_⟩
    by_cases he : stem = stemOfIndex verified
    · subst he
      rw [Disk.setDoc_doc_self] at hb
      cases hb
      exact hs.follows ha a hm
    · rw [Disk.setDoc_doc_ne _ _ (by simpa using he)] at hb
      exact h₃ b hb
  ordered := hs.ordered

/-- A signature takes its place beside a document. -/
theorem Sound.setSignature {stem : String} {signature : Bytes} (hs : Sound crates w)
    (hd : (w.1.doc (.document stem)).isSome) :
    Sound crates (w.1.setDoc (.signature stem) signature, w.2) where
  named stem' b h := hs.named stem' b (by rwa [setSignature_document] at h)
  paired stem' h := by
    rw [setSignature_document]
    by_cases he : stem' = stem
    · exact he ▸ hd
    · rw [Disk.setDoc_doc_ne _ _ (by simpa using he)] at h
      exact hs.paired stem' h
  covered a hm := by
    obtain ⟨stem', h₁, h₂, h₃⟩ := hs.covered a hm
    refine ⟨stem', h₁, ?_, fun b hb => h₃ b (by rwa [setSignature_document] at hb)⟩
    by_cases he : stem' = stem
    · subst he
      rw [Disk.setDoc_doc_self]
      rfl
    · rwa [Disk.setDoc_doc_ne _ _ (by simpa using he)]
  ordered := hs.ordered

end Lemmas

/-- Every visit of a catalog with a cache keeps the account sound. -/
theorem Sound.visit {crates : Crates K} {visit : Visit K} {w : Account}
    (hc : visit.catalog.cache = true) (hs : Sound crates w) : Sound crates (visit.run crates w) := by
  cases @Visit.outcome K crates visit w hc with
  | same hd hl => exact hs.congr hd hl
  | stale hp hv hd hl =>
    obtain ⟨hdoc, hsig⟩ := cachedPair_eq_some.mp hp
    exact (hs.log hdoc (by rw [hsig]; rfl) (hs.cached_follows hdoc)).congr hd hl
  | torn ha _ hd hl => exact (hs.setDocument ha).congr hd hl
  | @replaced bytes signature verified ha hd hl =>
    have hs' := @Sound.setSignature K crates _ (stemOfIndex verified) signature (hs.setDocument ha) (by simp)
    have hlog := @Sound.log K crates _ bytes (stemOfIndex verified) hs' (by simp) (by simp) (hs.follows ha)
    rcases hl with hl | hl
    · exact hlog.congr hd hl
    · refine (@Sound.log K crates _ bytes (stemOfIndex verified) hlog (by simp) (by simp)
        fun a hm => ?_).congr hd hl
      rcases List.mem_append.mp hm with hm | hm
      · exact hs.follows ha a hm
      · rw [List.mem_singleton.mp hm]
        exact .refl _

theorem sound_empty (crates : Crates K) : Sound crates (⟨∅, ∅⟩, []) where
  named _ _ h := by cases h
  paired _ h := by cases h
  covered _ h := by cases h
  ordered := .nil

/-- A view is of the index that its document spells. -/
theorem view_document {crates : Crates K} {visit : Visit K} {w : Account} {view : CatalogView}
    (h : ((visit.program crates).run account w).1 = .ok view) :
    readIndex crates view.document = .ok view.index := by
  unfold Visit.program at h
  cases hf : visit.catalog.fetched with
  | error unavailable =>
    have hs := (@safe_cachedView K crates visit.catalog w visit.listing unavailable).result
    simp only [Catalog.view, hf] at h
    obtain ⟨_, cached, -, hd, verified, hv, hi, -⟩ := hs.2 view h
    rw [hd, hi]
    exact (verifyIndex_ok hv).1
  | ok served =>
    simp only [Catalog.view, hf, Prog.bind_eq] at h
    cases hv : verifyIndex crates visit.catalog.keys served.1 served.2 with
    | error e => simp [hv, Prog.run] at h
    | ok verified =>
      simp only [hv, Prog.ofExcept_ok, Prog.bind_done, Prog.run_bind] at h
      split at h
      · cases h
        exact (verifyIndex_ok hv).1
      · cases h

/-- Along every history of catalogs with a cache, whatever is served and wherever a visit is killed,
every document that is accepted or returned follows those before it: of the same catalog, its serial
is not lower, and an equal serial means equal bytes. -/
theorem serials_never_decrease (crates : Crates K) (visits : List (Visit K))
    (hc : ∀ visit ∈ visits, visit.catalog.cache = true) :
    (∀ b ∈ (history crates visits).2, ∃ index, readIndex crates b = .ok index) ∧
      (history crates visits).2.Pairwise (Follows (catalogOf crates) (serialOf crates)) ∧
      ∀ visit ∈ visits, ∀ w view, ((visit.program crates).run account w).1 = .ok view →
        readIndex crates view.document = .ok view.index := by
  have hs : Sound crates (history crates visits) :=
    history_induction (sound_empty crates) fun w visit hv hw => hw.visit (hc visit hv)
  refine ⟨fun b hb => ?_, hs.ordered.imp fun h => h.refine stemOf_congr, fun _ _ _ _ => view_document⟩
  obtain ⟨_, hstem, -⟩ := hs.covered b hb
  exact readIndex_of_stemOf hstem

/-- A visit that is not killed, of an index that passes the checks. -/
theorem Visit.run_accepted {crates : Crates K} {visit : Visit K} {w : Account}
    {bytes signature : Bytes} {verified : VerifiedIndex} (hc : visit.catalog.cache = true)
    (hcut : visit.cut = none) (ha : Acceptable crates visit.catalog w.1 bytes signature verified) :
    (visit.run crates w).1.docs = ((w.1.setDoc (.document (stemOfIndex verified)) bytes).setDoc
        (.signature (stemOfIndex verified)) signature).docs ∧
      (visit.run crates w).2 = w.2 ++ [bytes] ++ [bytes] := by
  obtain ⟨d, hd, -, hr⟩ := points_view visit.listing hc ha
  unfold Visit.run Visit.program
  simp only [hcut, Option.bind_none]
  rw [hr]
  exact ⟨by simp [Disk.setDoc, finish, hd], rfl⟩

/-- A visit of a catalog without a cache returns whatever verifies. -/
theorem Visit.run_uncached {crates : Crates K} {visit : Visit K} {w : Account}
    {bytes signature : Bytes} {verified : VerifiedIndex} (hc : visit.catalog.cache = false)
    (hcut : visit.cut = none) (hf : visit.catalog.fetched = .ok (bytes, signature))
    (hv : verifyIndex crates visit.catalog.keys bytes signature = .ok verified) :
    visit.run crates w = (w.1, w.2 ++ [bytes]) := by
  unfold Visit.run Visit.program
  simp [hcut, Catalog.view, hf, hv, Catalog.accept, hc, Prog.run, finish, returned]

namespace Sample

/-- The text of an index of the catalog `home`. -/
def text (serial : ℕ) : String :=
  s!"[catalog]\nname = \"home\"\nserial = {serial}\ngenerated = 0\n"

def document (serial : ℕ) : Bytes := encodeUtf8 (text serial)

/-- What a key makes of a message: its end, backwards. -/
def sign (message : Bytes) : Raw 64 :=
  ⟨(message.reverse ++ List.replicate 64 0).take 64, by simp⟩

def crates : Crates Unit where
  verifyStrict _ message raw := raw = sign message
  sha256 bytes := ⟨(bytes ++ List.replicate 32 0).take 32, by simp⟩
  indexToml document :=
    match [1, 2, 3].find? fun serial => text serial = document with
    | some serial => .ok ⟨"home", serial, 0, []⟩
    | none => .error "not an index"
  releaseToml _ := .error "not a release"
  version _ := none

def keyId : KeyId := ⟨⟨[0, 1, 2, 3, 4, 5, 6, 7], rfl⟩⟩

def keys : TrustedKeys Unit := TrustedKeys.trust ∅ ⟨(), keyId⟩

/-- The signature file of an index. -/
def signature (serial : ℕ) : Bytes :=
  encodeUtf8 (Signature.toArmoured ⟨keyId, sign (Domain.catalog.message (document serial))⟩)

/-- A transport that serves an index. -/
def serves (serial : ℕ) : Transport where
  fetch path _ :=
    if path = INDEX_FILE_NAME then .ok (document serial)
    else if path = INDEX_FILE_NAME ++ SIGNATURE_SUFFIX then .ok (signature serial)
    else .error (.unavailable path)
  openFile path _ := .error (.unavailable path)

def listing : Listing := ⟨id, fun _ => .refl _⟩

def index (serial : ℕ) : CatalogIndex := ⟨⟨"home", serial, 0, []⟩, rfl⟩

theorem fetched (catalog : Catalog Unit) {serial : ℕ} (h : catalog.transport = serves serial) :
    catalog.fetched = .ok (document serial, signature serial) := by
  unfold Catalog.fetched
  rw [h]
  rfl

theorem indexToml_text : ∀ serial ∈ [1, 2, 3],
    crates.indexToml (text serial) = .ok ⟨"home", serial, 0, []⟩ := by
  simp only [List.mem_cons, List.not_mem_nil, or_false, forall_eq_or_imp, forall_eq]
  refine ⟨?_, ?_, ?_⟩ <;> rfl

theorem length_document : ∀ serial ∈ [1, 2, 3], (document serial).length ≤ MAX_INDEX_BYTES := by
  decide +kernel

theorem readIndex_document {serial : ℕ} (h : serial ∈ [1, 2, 3]) :
    readIndex crates (document serial) = .ok (index serial) := by
  have hd : decodeUtf8 (document serial) = some (text serial) := decodeUtf8_encodeUtf8 _
  have hl := length_document serial h
  unfold readIndex documentText
  simp only [if_neg (not_lt.mpr hl), hd, bind, Except.bind, indexToml_text serial h, Except.mapError]
  rfl

theorem readSignature_signature (serial : ℕ) : readSignature (signature serial) =
    .ok ⟨keyId, sign (Domain.catalog.message (document serial))⟩ := by
  simp [readSignature, signature, decodeUtf8_encodeUtf8, Signature.parse_toArmoured,
    Except.mapError]

theorem verifyIndex_document {serial : ℕ} (h : serial ∈ [1, 2, 3]) :
    verifyIndex crates keys (document serial) (signature serial) = .ok ⟨index serial, keyId⟩ := by
  have hs := readSignature_signature serial
  have hk : keys.lookup keyId = some ⟨(), keyId⟩ := AList.lookup_insert _
  obtain ⟨verified, hv⟩ : ∃ verified, keys.verify crates .catalog (document serial)
      ⟨keyId, sign (Domain.catalog.message (document serial))⟩ = .ok verified := by
    unfold TrustedKeys.verify
    split
    · next h => rw [hk] at h; cases h
    · rw [dif_pos (by simp [crates])]
      exact ⟨_, rfl⟩
  obtain ⟨hb, hd, hsig⟩ := TrustedKeys.verify_ok hv
  simp [verifyIndex, hs, hv, Except.mapError, bind, Except.bind, parseIndex, hd, hb,
    readIndex_document h, Except.map, hsig]
/-- A visit that finds the index served, and is not killed. -/
def visit (catalog : Transport → TrustedKeys Unit → Catalog Unit) (serial : ℕ) : Visit Unit :=
  ⟨catalog (serves serial) keys, listing, none⟩

def cached (transport : Transport) (keys : TrustedKeys Unit) : Catalog Unit :=
  (Catalog.new transport keys).withCache

end Sample

/-- Two visits of a catalog that goes on from one index to the next. -/
theorem serials_never_decrease_session :
    (history Sample.crates [Sample.visit Sample.cached 1, Sample.visit Sample.cached 2]).2.Pairwise
      (Follows (catalogOf Sample.crates) (serialOf Sample.crates)) :=
  (serials_never_decrease Sample.crates _ (by simp [Sample.visit, Sample.cached,
    Catalog.withCache])).2.1

/-- A catalog without a cache goes back to the index that it is served. -/
theorem uncached_goes_back : ¬ ∀ visits : List (Visit Unit),
    (history Sample.crates visits).2.Pairwise
      (Follows (catalogOf Sample.crates) (serialOf Sample.crates)) := by
  intro h
  have hv (serial : ℕ) (hm : serial ∈ [1, 2, 3]) (w : Account) :
      (Sample.visit Catalog.new serial).run Sample.crates w = (w.1, w.2 ++ [Sample.document serial]) :=
    Visit.run_uncached rfl rfl (Sample.fetched _ rfl) (Sample.verifyIndex_document hm)
  have hlog : (history Sample.crates [Sample.visit Catalog.new 2, Sample.visit Catalog.new 1]).2 =
      [Sample.document 2, Sample.document 1] := by
    unfold history
    rw [List.foldl_cons, List.foldl_cons, List.foldl_nil, hv 2 (by simp), hv 1 (by simp)]
    rfl
  have hp := h [Sample.visit Catalog.new 2, Sample.visit Catalog.new 1]
  rw [hlog] at hp
  have h₂ := @Sample.readIndex_document 2 (by simp)
  have h₁ := @Sample.readIndex_document 1 (by simp)
  obtain ⟨hle, -⟩ := (List.pairwise_pair.mp hp) (by simp [catalogOf, h₁, h₂, Except.toOption,
    Sample.index])
  rw [serialOf_eq h₁, serialOf_eq h₂] at hle
  exact absurd hle (by decide)

end Paperclip.Packages
