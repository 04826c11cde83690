import Paperclip.Packages.Serials

/-!
# Catalogs that share a cache

Visits of several catalogs, in any order, on one cache directory. What one of them answers is compared
with what it answers where the visits of the others have not been made.

* `Call`: a visit, and the catalog that it is of.
* `OwnFirst`: the first pair that a listing of the cache meets is the catalog's own.
* `Agree`: two caches in which the files of one catalog are the same, and the second has no others.
* `catalogs_are_independent`: where names have stems of their own and every offline visit meets its own
  pair first, the answers are the same. `garden_is_shown_home`: they are not without.
-/

namespace Paperclip.Packages

open Crash Files Protocol

variable {K : Type}

/-- A visit, and the name of the catalog that it is of. -/
structure Call (K : Type) where
  name : String
  visit : Visit K

/-- What the visit answers, unless it is killed before. -/
def Visit.answer (crates : Crates K) (visit : Visit K) (w : Account) :
    Except CatalogError CatalogView :=
  ((visit.program crates).run account w).1

/-- Whatever verifies of what is served bears the name of the catalog. -/
def Call.Honest (crates : Crates K) (call : Call K) : Prop :=
  ∀ bytes signature verified, call.visit.catalog.fetched = .ok (bytes, signature) →
    verifyIndex crates call.visit.catalog.keys bytes signature = .ok verified →
    verified.index.catalog = call.name

/-- The stem of the first complete pair of a listing. -/
def firstStem (d : Cache) : List CacheFile → Option String
  | [] => none
  | .signature _ :: rest => firstStem d rest
  | .document stem :: rest => if (cachedPair d stem).isSome then some stem else firstStem d rest

/-- The first complete pair that the visit meets, if it meets any, is the catalog's own. -/
def Call.OwnFirst (call : Call K) (d : Cache) : Prop :=
  ∀ stem ∈ firstStem d (call.visit.listing.order d.docs.keys), stem = cacheStem call.name

/-- The visit reaches its catalog, or has no cache, or meets its own pair first. -/
def Call.Served (call : Call K) (d : Cache) : Prop :=
  (∃ served, call.visit.catalog.fetched = .ok served) ∨ call.visit.catalog.cache = false ∨
    call.OwnFirst d

/-- What the calls leave. -/
def Call.history (crates : Crates K) (calls : List (Call K)) : Account :=
  Packages.history crates (calls.map Call.visit)

/-- The calls of one catalog. -/
def callsOf (name : String) (calls : List (Call K)) : List (Call K) :=
  calls.filter fun call => call.name = name

section

variable {crates : Crates K} {w w' : Account} {d d' : Cache} {stem : String}

/-! ## The answer of a visit -/

theorem cachedPair_isSome : (cachedPair d stem).isSome = true ↔
    (d.doc (.document stem)).isSome = true ∧ (d.doc (.signature stem)).isSome = true := by
  unfold cachedPair
  cases d.doc (.document stem) <;> cases d.doc (.signature stem) <;> simp

theorem firstStem_some {names : List CacheFile} (h : firstStem d names = some stem) :
    (cachedPair d stem).isSome = true := by
  induction names with
  | nil => cases h
  | cons name rest ih =>
    cases name with
    | signature other => exact ih h
    | document other =>
      rw [firstStem] at h
      split at h
      · next hpair =>
        cases h
        exact hpair
      · exact ih h

theorem firstStem_none {names : List CacheFile} (h : firstStem d names = none)
    (hmem : .document stem ∈ names) : (cachedPair d stem).isSome = false := by
  induction names with
  | nil => cases hmem
  | cons name rest ih =>
    cases name with
    | signature other => exact ih h ((List.mem_cons.1 hmem).resolve_left (by simp))
    | document other =>
      rw [firstStem] at h
      split at h
      · cases h
      · next hpair =>
        rcases List.mem_cons.1 hmem with heq | hmem
        · cases heq
          exact Bool.eq_false_iff.2 hpair
        · exact ih h hmem

/-- A complete pair is listed. -/
theorem mem_listing (listing : Listing) (h : (cachedPair d stem).isSome = true) :
    .document stem ∈ listing.order d.docs.keys := by
  rw [(listing.perm _).mem_iff]
  exact AList.mem_keys.2 (AList.lookup_isSome.1 (cachedPair_isSome.1 h).1)

/-- What a visit shows of the first complete pair. -/
def shown (crates : Crates K) (keys : TrustedKeys K) (d : Cache) (unavailable : TransportError)
    (names : List CacheFile) : Except CatalogError CatalogView :=
  match (firstStem d names).bind (cachedPair d) with
  | none => .error (.transport unavailable)
  | some cached => do
    let verified ← verifyIndex crates keys cached.document cached.signature
    return ⟨verified.index, verified.signer, true, cached.document⟩

theorem run_firstCached (keys : TrustedKeys K) (unavailable : TransportError)
    (names : List CacheFile) :
    ((Catalog.firstCached crates keys unavailable names : CacheProg noCalls _).run account w).1 =
      shown crates keys w.1 unavailable names := by
  induction names with
  | nil => rfl
  | cons name rest ih =>
    cases name with
    | signature other => exact ih
    | document other =>
      unfold Catalog.firstCached
      rw [Prog.bind_eq, run_readCache, shown, firstStem]
      cases hpair : cachedPair w.1 other with
      | none => exact ih
      | some cached =>
        rw [Option.isSome_some, if_pos rfl, Option.bind_some, hpair]
        dsimp only
        cases verifyIndex crates keys cached.document cached.signature <;> rfl

/-- What a visit answers out of reach of its catalog. -/
theorem answer_offline {visit : Visit K} {unavailable : TransportError}
    (hf : visit.catalog.fetched = .error unavailable) : visit.answer crates w =
      if visit.catalog.cache then
        shown crates visit.catalog.keys w.1 unavailable (visit.listing.order w.1.docs.keys)
      else .error (.transport unavailable) := by
  unfold Visit.answer Visit.program Catalog.view
  rw [hf]
  dsimp only
  unfold Catalog.cachedView
  split
  · show (Prog.run account (Prog.bind ((fs .docNames).attempt) _) w).1 = _
    simp only [fs, Prog.attempt, Prog.bind_step, Prog.run, account_docNames, Prog.ofExcept_ok,
      Prog.bind_done]
    exact run_firstCached _ _ _
  · rfl

/-- What a visit answers that reaches its catalog depends on the pair of the index that is served. -/
theorem answer_online {visit : Visit K} {bytes signature : Bytes}
    (hf : visit.catalog.fetched = .ok (bytes, signature)) : visit.answer crates w =
      (verifyIndex crates visit.catalog.keys bytes signature).bind fun verified =>
        (if visit.catalog.cache then checkSerial crates visit.catalog.keys verified.index bytes
          (cachedPair w.1 (stemOfIndex verified)) else .ok ()).map fun _ =>
            ⟨verified.index, verified.signer, false, bytes⟩ := by
  unfold Visit.answer Visit.program
  cases hv : verifyIndex crates visit.catalog.keys bytes signature with
  | error e =>
    unfold Catalog.view
    rw [hf]
    dsimp only
    rw [hv]
    rfl
  | ok verified =>
    show _ = Except.map _ (if visit.catalog.cache then _ else _)
    cases hc : visit.catalog.cache with
    | false =>
      unfold Catalog.view Catalog.accept
      rw [hf]
      dsimp only
      rw [hv, hc]
      rfl
    | true =>
      rw [if_pos rfl]
      cases hs : checkSerial crates visit.catalog.keys verified.index bytes
          (cachedPair w.1 (stemOfIndex verified)) with
      | error e =>
        simp only [Catalog.view, hf, hv, Catalog.accept, hc, if_true, Prog.bind_eq, Prog.ofExcept_ok,
          Prog.bind_done, Prog.bind_assoc, run_readCache, hs, Prog.ofExcept_error, Prog.bind_fail,
          Prog.run, Except.map]
      | ok _ =>
        obtain ⟨d, -, -, hrun⟩ := points_view visit.listing hc ⟨hf, hv, hs⟩
        rw [hrun]
        rfl

/-! ## What a visit leaves -/

/-- The files that a visit leaves whose index passes the checks. -/
def landed (cut : Option ℕ) (d : Cache) (stem : String) (bytes signature : Bytes) : Cache :=
  match cut with
  | some 0 | some 1 | some 2 | some 3 => d
  | some 4 => d.setDoc (.document stem) bytes
  | _ => (d.setDoc (.document stem) bytes).setDoc (.signature stem) signature

theorem docs_accepted {visit : Visit K} {bytes signature : Bytes} {verified : VerifiedIndex}
    (hc : visit.catalog.cache = true)
    (ha : Acceptable crates visit.catalog w.1 bytes signature verified) :
    (visit.run crates w).1.docs =
      (landed visit.cut w.1 (stemOfIndex verified) bytes signature).docs := by
  obtain ⟨d, hd, hp, hr⟩ := points_view visit.listing hc ha
  unfold Visit.run Visit.program
  rw [hp, hr]
  rcases hcut : visit.cut with _ | n
  · simp [landed, Disk.setDoc, Visit.finish, hd]
  rcases n with _ | _ | _ | _ | _ | _ | n
  · rfl
  · rfl
  · rfl
  · exact hd
  · simp [landed, Disk.setDoc, hd]
  · simp [landed, Disk.setDoc, hd]
  · simp [landed, Disk.setDoc, Visit.finish, hd]

/-- A visit that accepts nothing leaves the files as they are. -/
theorem docs_refused {visit : Visit K} (h : visit.catalog.cache = true → ∀ bytes signature verified,
    ¬ Acceptable crates visit.catalog w.1 bytes signature verified) :
    (visit.run crates w).1.docs = w.1.docs := by
  have hstill : (visit.program crates).Safe account (· = w) (fun _ w' => w' = w ∧ True) w := by
    cases hc : visit.catalog.cache with
    | false =>
      unfold Visit.program Catalog.view Catalog.cachedView Catalog.accept
      rw [hc]
      cases visit.catalog.fetched with
      | error e => exact ⟨rfl, rfl, trivial⟩
      | ok served =>
        dsimp only
        cases verifyIndex crates visit.catalog.keys served.1 served.2 <;> exact ⟨rfl, rfl, trivial⟩
    | true =>
      cases hf : visit.catalog.fetched with
      | error unavailable =>
        have hs : (visit.program crates).Safe account (· = w)
            (fun r w' => w' = w ∧ FromCache crates visit.catalog.keys w.1 r) w := by
          simp only [Visit.program, Catalog.view, hf]
          exact safe_cachedView _ _
        exact hs.mono (fun _ h => h) fun _ _ _ hq => ⟨hq.1, trivial⟩
      | ok served =>
        exact (safe_view_refused visit.listing hc hf fun v hv => h hc _ _ v hv).mono
          (fun _ h => h) fun _ _ _ hq => ⟨hq.1, trivial⟩
  rcases run_of_still (Q := fun _ => True) hstill with heq | ⟨r, -, heq⟩ <;> rw [heq]

/-! ## Two caches -/

/-- The files of one catalog are the same in two caches, and the second has no others. -/
structure Agree (stem : String) (d d' : Cache) : Prop where
  document : d.doc (.document stem) = d'.doc (.document stem)
  signature : d.doc (.signature stem) = d'.doc (.signature stem)
  alone : ∀ other ≠ stem, d'.doc (.document other) = none

theorem Agree.pair (h : Agree stem d d') : cachedPair d stem = cachedPair d' stem := by
  unfold cachedPair
  rw [h.document, h.signature]

theorem Agree.congr {e e' : Cache} (h : Agree stem d d') (hd : e.docs = d.docs)
    (hd' : e'.docs = d'.docs) : Agree stem e e' where
  document := by rw [doc_congr hd, doc_congr hd', h.document]
  signature := by rw [doc_congr hd, doc_congr hd', h.signature]
  alone other hne := by rw [doc_congr hd', h.alone other hne]

theorem Agree.setDocument (h : Agree stem d d') (bytes : Bytes) :
    Agree stem (d.setDoc (.document stem) bytes) (d'.setDoc (.document stem) bytes) where
  document := by simp
  signature := by simp [h.signature]
  alone other hne := by
    rw [Disk.setDoc_doc_ne _ _ (by simpa using hne), h.alone other hne]

theorem Agree.setSignature (h : Agree stem d d') (bytes : Bytes) :
    Agree stem (d.setDoc (.signature stem) bytes) (d'.setDoc (.signature stem) bytes) where
  document := by simp [h.document]
  signature := by simp
  alone other hne := by simp [h.alone other hne]

/-- The catalog's own index lands in both. -/
theorem Agree.landed (h : Agree stem d d') (cut : Option ℕ) (bytes signature : Bytes) :
    Agree stem (landed cut d stem bytes signature) (landed cut d' stem bytes signature) := by
  unfold Packages.landed
  split
  · exact h
  · exact h
  · exact h
  · exact h
  · exact h.setDocument bytes
  · exact (h.setDocument bytes).setSignature signature

/-- The index of another catalog lands beside its files. -/
theorem Agree.landed_other (h : Agree stem d d') (cut : Option ℕ) {other : String}
    (hne : other ≠ stem) (bytes signature : Bytes) :
    Agree stem (Packages.landed cut d other bytes signature) d' := by
  have hdocument : Agree stem (d.setDoc (.document other) bytes) d' :=
    ⟨by rw [Disk.setDoc_doc_ne _ _ (by simpa using hne.symm), h.document], by simp [h.signature], h.alone⟩
  have hsignature : Agree stem
      ((d.setDoc (.document other) bytes).setDoc (.signature other) signature) d' :=
    ⟨by simp [hdocument.document],
      by rw [Disk.setDoc_doc_ne _ _ (by simpa using hne.symm), hdocument.signature], h.alone⟩
  unfold Packages.landed
  split
  · exact h
  · exact h
  · exact h
  · exact h
  · exact hdocument
  · exact hsignature

/-! ## One visit -/

/-- The first pair of a cache that has no files but those of one catalog is that catalog's. -/
theorem Agree.first (h : Agree stem d d') (listing : Listing) :
    firstStem d' (listing.order d'.docs.keys) =
      if (cachedPair d stem).isSome then some stem else none := by
  cases hfirst : firstStem d' (listing.order d'.docs.keys) with
  | none =>
    split
    · next hpair =>
      rw [h.pair] at hpair
      rw [firstStem_none hfirst (mem_listing listing hpair)] at hpair
      cases hpair
    · rfl
  | some other =>
    have hother := firstStem_some hfirst
    have hsame : other = stem := by
      by_contra hne
      rw [cachedPair_isSome, h.alone other hne] at hother
      cases hother.1
    subst hsame
    rw [h.pair, if_pos hother]

/-- A visit answers the same where its catalog has the files to itself. -/
theorem Agree.answer {call : Call K} (h : Agree (cacheStem call.name) w.1 w'.1)
    (hhonest : call.Honest crates) (hserved : call.Served w.1) :
    call.visit.answer crates w = call.visit.answer crates w' := by
  cases hf : call.visit.catalog.fetched with
  | error unavailable =>
    rw [answer_offline hf, answer_offline hf]
    cases hc : call.visit.catalog.cache with
    | false => rfl
    | true =>
      have hown : call.OwnFirst w.1 := by
        rcases hserved with ⟨served, hs⟩ | hs | hs
        · rw [hf] at hs
          cases hs
        · rw [hc] at hs
          cases hs
        · exact hs
      -- in both, the first pair is the catalog's own, if it has one
      have hfirst : firstStem w.1 (call.visit.listing.order w.1.docs.keys) =
          firstStem w'.1 (call.visit.listing.order w'.1.docs.keys) := by
        rw [h.first]
        cases hstem : firstStem w.1 (call.visit.listing.order w.1.docs.keys) with
        | none =>
          split
          · next hpair =>
            rw [firstStem_none hstem (mem_listing _ hpair)] at hpair
            cases hpair
          · rfl
        | some other =>
          have hother := firstStem_some hstem
          obtain rfl := hown other hstem
          rw [if_pos hother]
      rw [if_pos rfl, if_pos rfl, shown, shown, ← hfirst]
      cases hstem : firstStem w.1 (call.visit.listing.order w.1.docs.keys) with
      | none => rfl
      | some other =>
        obtain rfl := hown other hstem
        rw [Option.bind_some, Option.bind_some, h.pair]
  | ok served =>
    rw [answer_online hf, answer_online hf]
    cases hv : verifyIndex crates call.visit.catalog.keys served.1 served.2 with
    | error e => rfl
    | ok verified =>
      show Except.map _ (if _ then _ else _) = Except.map _ (if _ then _ else _)
      rw [show stemOfIndex verified = cacheStem call.name from
        congrArg cacheStem (hhonest _ _ _ hf hv), h.pair]

theorem Call.Honest.lands {call : Call K} (hhonest : call.Honest crates) {bytes signature : Bytes}
    {verified : VerifiedIndex}
    (ha : Acceptable crates call.visit.catalog d bytes signature verified) :
    stemOfIndex verified = cacheStem call.name :=
  congrArg cacheStem (hhonest _ _ _ ha.fetched ha.verifies)

/-- Whether an index is accepted depends on the catalog's own pair. -/
theorem Call.Honest.acceptable {call : Call K} (hhonest : call.Honest crates)
    (hpair : cachedPair d (cacheStem call.name) = cachedPair d' (cacheStem call.name))
    {bytes signature : Bytes} {verified : VerifiedIndex}
    (ha : Acceptable crates call.visit.catalog d bytes signature verified) :
    Acceptable crates call.visit.catalog d' bytes signature verified := by
  refine ⟨ha.fetched, ha.verifies, ?_⟩
  have hfollows := ha.follows
  rw [show cacheStem verified.index.catalog = cacheStem call.name from hhonest.lands ha] at hfollows ⊢
  rwa [← hpair]

/-- What a visit of the catalog leaves. -/
theorem Agree.own {call : Call K} (h : Agree (cacheStem call.name) w.1 w'.1)
    (hhonest : call.Honest crates) :
    Agree (cacheStem call.name) (call.visit.run crates w).1 (call.visit.run crates w').1 := by
  by_cases haccept : call.visit.catalog.cache = true ∧ ∃ bytes signature verified,
      Acceptable crates call.visit.catalog w.1 bytes signature verified
  · obtain ⟨hc, bytes, signature, verified, ha⟩ := haccept
    have hd := docs_accepted hc ha
    have hd' := docs_accepted hc (hhonest.acceptable h.pair ha)
    rw [hhonest.lands ha] at hd hd'
    exact (h.landed _ bytes signature).congr hd hd'
  · have hd : (call.visit.run crates w).1.docs = w.1.docs :=
      docs_refused fun hc bytes signature verified ha => haccept ⟨hc, bytes, signature, verified, ha⟩
    have hd' : (call.visit.run crates w').1.docs = w'.1.docs :=
      docs_refused fun hc bytes signature verified ha =>
        haccept ⟨hc, bytes, signature, verified, hhonest.acceptable h.pair.symm ha⟩
    exact h.congr hd hd'

/-- What a visit of another catalog leaves. -/
theorem Agree.other {call : Call K} (h : Agree stem w.1 w'.1) (hhonest : call.Honest crates)
    (hne : cacheStem call.name ≠ stem) : Agree stem (call.visit.run crates w).1 w'.1 := by
  by_cases haccept : call.visit.catalog.cache = true ∧ ∃ bytes signature verified,
      Acceptable crates call.visit.catalog w.1 bytes signature verified
  · obtain ⟨hc, bytes, signature, verified, ha⟩ := haccept
    have hd := docs_accepted hc ha
    rw [hhonest.lands ha] at hd
    exact (h.landed_other _ hne bytes signature).congr hd rfl
  · exact h.congr (docs_refused fun hc bytes signature verified ha =>
      haccept ⟨hc, bytes, signature, verified, ha⟩) rfl

/-! ## Every order of visits -/

/-- Along calls whose stems are apart, the files of one catalog are those that its own calls leave. -/
theorem agree_history {name : String} (calls : List (Call K))
    (hhonest : ∀ call ∈ calls, call.Honest crates)
    (hstems : ∀ call ∈ calls, cacheStem call.name = cacheStem name → call.name = name) :
    Agree (cacheStem name) (Call.history crates calls).1
      (Call.history crates (callsOf name calls)).1 := by
  induction calls using List.reverseRecOn with
  | nil => exact ⟨rfl, rfl, fun _ _ => rfl⟩
  | append_singleton calls call ih =>
    have ih := ih (fun c hc => hhonest c (List.mem_append_left _ hc))
      fun c hc => hstems c (List.mem_append_left _ hc)
    have hlast : call ∈ calls ++ [call] := List.mem_append_right _ (List.mem_singleton_self _)
    have hstep (calls : List (Call K)) : Call.history crates (calls ++ [call]) =
        call.visit.run crates (Call.history crates calls) := by
      simp [Call.history, history]
    rw [hstep, callsOf, List.filter_append, ← callsOf]
    by_cases hname : call.name = name
    · rw [List.filter_cons_of_pos (by simpa using hname), List.filter_nil, hstep]
      subst hname
      exact ih.own (hhonest call hlast)
    · rw [List.filter_cons_of_neg (by simpa using hname), List.filter_nil, List.append_nil]
      exact ih.other (hhonest call hlast) fun heq => hname (hstems call hlast heq)

end

/-- Where the names of the catalogs have stems of their own, and every call that cannot reach its
catalog meets that catalog's pair first, every call answers what it answers after the calls of its own
catalog alone. -/
theorem catalogs_are_independent (crates : Crates K) (calls : List (Call K))
    (hhonest : ∀ call ∈ calls, call.Honest crates)
    (hstems : ∀ call ∈ calls, ∀ other ∈ calls,
      cacheStem other.name = cacheStem call.name → other.name = call.name)
    (hserved : ∀ before call after, calls = before ++ call :: after →
      call.Served (Call.history crates before).1) :
    ∀ before call after, calls = before ++ call :: after →
      call.visit.answer crates (Call.history crates before) =
        call.visit.answer crates (Call.history crates (callsOf call.name before)) := by
  rintro before call after rfl
  have hbefore : ∀ other ∈ before, other ∈ before ++ call :: after := fun other h =>
    List.mem_append_left _ h
  have hcall : call ∈ before ++ call :: after := List.mem_append_right _ List.mem_cons_self
  have hagree := agree_history before (fun c hc => hhonest c (hbefore c hc)) fun c hc =>
    hstems call hcall c (hbefore c hc)
  exact hagree.answer (hhonest call hcall) (hserved before call after rfl)

/-! ## A catalog that is shown another -/

namespace Sample

/-- A call that reaches the catalog `home`. -/
def home : Call Unit := ⟨"home", visit cached 1⟩

/-- Nothing is reached. -/
def unreachable : Transport where
  fetch path _ := .error (.unavailable path)
  openFile path _ := .error (.unavailable path)

/-- A call that cannot reach the catalog `garden`. -/
def garden : Call Unit := ⟨"garden", ⟨cached unreachable keys, listing, none⟩⟩

theorem home_honest : home.Honest crates := by
  intro bytes signature verified hf hv
  have hserved := hf.symm.trans (fetched (cached (serves 1) keys) rfl)
  cases hserved
  have := hv.symm.trans (verifyIndex_document (by simp : 1 ∈ [1, 2, 3]))
  cases this
  rfl

theorem garden_honest : garden.Honest crates := fun _ _ _ hf => by cases hf

theorem garden_fetched :
    garden.visit.catalog.fetched = .error (.unavailable INDEX_FILE_NAME) := rfl

theorem honest : ∀ call ∈ [garden, home], call.Honest crates :=
  List.forall_mem_cons.2 ⟨garden_honest, List.forall_mem_singleton.2 home_honest⟩

/-- What `home` leaves, and the first pair that a visit meets in it. -/
theorem home_cached : cachedPair (Call.history crates [home]).1 "home" =
      some ⟨document 1, signature 1⟩ ∧
    firstStem (Call.history crates [home]).1
      (listing.order (Call.history crates [home]).1.docs.keys) = some "home" := by
  have hstem : cacheStem "home" = "home" := by decide
  have haccept : Acceptable crates home.visit.catalog (⟨∅, ∅⟩ : Cache) (document 1) (signature 1)
      ⟨index 1, keyId⟩ := ⟨fetched _ rfl, verifyIndex_document (by simp), rfl⟩
  have hdocs : (Call.history crates [home]).1.docs =
      (landed none (⟨∅, ∅⟩ : Cache) "home" (document 1) (signature 1)).docs := by
    have := docs_accepted (w := (⟨∅, ∅⟩, [])) rfl haccept
    rwa [show stemOfIndex ⟨index 1, keyId⟩ = "home" from hstem] at this
  have hpair : cachedPair (Call.history crates [home]).1 "home" =
      some ⟨document 1, signature 1⟩ :=
    cachedPair_eq_some.2 ⟨(doc_congr hdocs _).trans (by simp [landed]),
      (doc_congr hdocs _).trans (by simp [landed])⟩
  have hagree : Agree "home" (Call.history crates [home]).1 (Call.history crates [home]).1 := by
    have : Agree (cacheStem "home") (Call.history crates [home]).1
        (Call.history crates (callsOf "home" [home])).1 := agree_history [home]
      (List.forall_mem_singleton.2 home_honest) (List.forall_mem_singleton.2 fun _ => rfl)
    rwa [hstem] at this
  refine ⟨hpair, ?_⟩
  rw [hagree.first listing, hpair]
  rfl

end Sample

/-- `garden` is out of reach before `home` is fetched. -/
theorem catalogs_are_independent_session :
    Sample.home.visit.answer Sample.crates (Call.history Sample.crates [Sample.garden]) =
      Sample.home.visit.answer Sample.crates
        (Call.history Sample.crates (callsOf Sample.home.name [Sample.garden])) := by
  refine catalogs_are_independent Sample.crates [Sample.garden, Sample.home] Sample.honest ?_ ?_
    [Sample.garden] Sample.home [] rfl
  · have hstem : cacheStem "garden" ≠ cacheStem "home" := by decide
    intro call hcall other hother heq
    simp only [List.mem_cons, List.not_mem_nil, or_false] at hcall hother
    rcases hcall with rfl | rfl <;> rcases hother with rfl | rfl
    · rfl
    · exact absurd heq.symm hstem
    · exact absurd heq hstem
    · rfl
  · intro before call after heq
    rcases List.cons_eq_append_iff.1 heq with ⟨rfl, h⟩ | ⟨rest, rfl, h⟩
    · cases h
      exact .inr (.inr fun stem h => by cases h)
    · rcases List.cons_eq_append_iff.1 h with ⟨rfl, h⟩ | ⟨rest', rfl, h⟩
      · cases h
        exact .inl ⟨_, Sample.fetched _ rfl⟩
      · simp at h

/-- `garden` is out of reach after `home` is fetched, and is shown as what `home` offers. -/
theorem garden_is_shown_home : ¬ ∀ (crates : Crates Unit) (calls : List (Call Unit)),
    (∀ call ∈ calls, call.Honest crates) → ∀ before call after, calls = before ++ call :: after →
      call.visit.answer crates (Call.history crates before) =
        call.visit.answer crates (Call.history crates (callsOf call.name before)) := by
  intro h
  have hanswer := h Sample.crates [Sample.home, Sample.garden]
    (List.forall_mem_cons.2 ⟨Sample.home_honest, List.forall_mem_singleton.2 Sample.garden_honest⟩)
    [Sample.home] Sample.garden [] rfl
  obtain ⟨hpair, hfirst⟩ := Sample.home_cached
  have hverify := Sample.verifyIndex_document (by simp : 1 ∈ [1, 2, 3])
  have hshown : Sample.garden.visit.answer Sample.crates
      (Call.history Sample.crates [Sample.home]) =
        .ok ⟨Sample.index 1, Sample.keyId, true, Sample.document 1⟩ := by
    refine (answer_offline Sample.garden_fetched).trans ((if_pos rfl).trans ?_)
    rw [shown, show Sample.garden.visit.listing = Sample.listing from rfl, hfirst, Option.bind_some,
      hpair]
    show Except.bind (verifyIndex _ Sample.keys _ _) _ = _
    rw [hverify]
    rfl
  have halone : Sample.garden.visit.answer Sample.crates
      (Call.history Sample.crates (callsOf "garden" [Sample.home])) =
        .error (.transport (.unavailable INDEX_FILE_NAME)) := by
    exact (answer_offline Sample.garden_fetched).trans rfl
  cases (hshown.symm.trans hanswer).trans halone

end Paperclip.Packages
