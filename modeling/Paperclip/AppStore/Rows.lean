import Paperclip.AppStore.Survey

/-!
# What the rows say is so

* `Row`: a row against the disk, the records of launches and the catalog.
* `Exact`: one row for each app that can be launched or installed, each of them right.
* `survey_exact`: a survey fails only where the records of an app cannot be read, and otherwise its
  rows are exact.
-/

namespace Paperclip.AppStore

open Crash Files Packages Store

variable {K : Type} (tools : Tools K) (ledger : Ledger) (files : AppId → HealthFile)
  (view : Option CatalogView) (d : StoreDisk)

/-- The app has a directory in the store. -/
def Present (app : AppId) : Prop := (d.dir (.app app)).isSome

/-- A catalog in view lists this version of the app. -/
def Offers (app : AppId) (version : Version) : Prop :=
  ∃ catalog, view = some catalog ∧ catalog.index.Lists app version

/-- The host does not launch the version that is selected. -/
def Refused (row : AppEntry) : Prop :=
  ∃ version, row.installed = some version ∧ ledger.shouldLaunch version
    ⟨(files row.app).readable, .done⟩ (files row.app).bytes = .ok false

/-- What each state says of a row. -/
def Means (row : AppEntry) : AppState → Prop
  | .failing => Refused ledger files row
  | .updateAvailable => ¬ Refused ledger files row ∧ ∃ installed available,
      row.installed = some installed ∧ row.available = some available ∧ installed.lt available
  | .upToDate => ¬ Refused ledger files row ∧ ∃ installed available,
      row.installed = some installed ∧ row.available = some available ∧ available.le installed
  | .installedNotOffered => ¬ Refused ledger files row ∧ row.installed.isSome ∧
      row.available = none ∧ view.isSome
  | .installed => ¬ Refused ledger files row ∧ row.installed.isSome ∧ view = none
  | .available => row.installed = none ∧ row.available.isSome
  | .nothingSelected => row.installed = none ∧ row.available = none ∧ row.onDisk ≠ []

/-- A row against the device and the catalog. -/
structure Row (row : AppEntry) : Prop where
  installed : ∀ version, row.installed = some version ↔ Present d row.app ∧
    d.doc (.current row.app) = some (.release version) ∧ Complete tools d row.app version
  fallback : ∀ version, row.fallback = some version ↔ Present d row.app ∧
    d.doc (.previous row.app) = some (.release version) ∧ Complete tools d row.app version
  onDisk : ∀ version, version ∈ row.onDisk ↔ Present d row.app ∧ Complete tools d row.app version
  oldestFirst : row.onDisk.Pairwise Version.lt
  available : ∀ version, row.available = some version ↔ Offers view row.app version ∧
    version.pre = [] ∧ ∀ other, Offers view row.app other → other.pre = [] → other.le version
  prerelease : ∀ version, row.availablePrerelease = some version ↔ Offers view row.app version ∧
    version.pre ≠ [] ∧ ∀ other, Offers view row.app other → other.le version
  state : Means ledger files view row row.state

/-- One row for each app with a complete release or a stable one on offer, and each is right. -/
structure Exact (inventory : Inventory) : Prop where
  sorted : inventory.entries.Pairwise AppEntry.Before
  listed : ∀ app, (∃ row ∈ inventory.entries, row.app = app) ↔
    (Present d app ∧ ∃ version, Complete tools d app version) ∨
      ∃ version, Offers view app version ∧ version.pre = []
  rows : ∀ row ∈ inventory.entries, Row tools ledger files view d row

/-- The records of an app can be read: the selection, the markers, and, where something is complete,
the record of launches and the fallback. -/
def Readable (app : AppId) : Prop :=
  (currentIn tools d app).isOk ∧ (installedIn tools d app).isOk ∧
    ((∃ version, Complete tools d app version) →
      (healthOf ledger files app).isOk ∧ (previousIn tools d app).isOk)

/-- What the rows of the first pass are made of. -/
structure Surveyed (app : AppId) (row : AppEntry) : Prop where
  read : ∃ installed onDisk health, currentIn tools d app = .ok installed ∧
    installedIn tools d app = .ok onDisk ∧ healthOf ledger files app = .ok health ∧
      row = entryOf view app (nameIn tools view d app installed) installed onDisk health
  usable : ∃ version, Complete tools d app version

variable {tools ledger files view d} {app : AppId} {version : Version}

/-! ## The store -/

theorem mem_appsIn : app ∈ appsIn d ↔ Present d app := by
  have hkeys : Place.app app ∈ d.dirs.keys ↔ Present d app := by
    rw [Present, Disk.dir, AList.lookup_isSome]
    exact AList.mem_keys.symm
  rw [← hkeys, appsIn, List.mem_insertionSort, List.mem_filterMap]
  constructor
  · rintro ⟨place, hplace, h⟩
    cases place <;> simp_all
  · exact fun h => ⟨_, h, rfl⟩

theorem nodup_appsIn : (appsIn d).Nodup := by
  refine (List.perm_insertionSort _ _).nodup_iff.2 (List.Nodup.filterMap ?_ d.dirs.nodupKeys)
  intro p q a hp hq
  cases p <;> cases q <;> simp_all

theorem mem_versionsIn : version ∈ versionsIn app d.dirs.keys ↔
    (d.dir (.release app version)).isSome := by
  have hkeys : Place.release app version ∈ d.dirs.keys ↔ (d.dir (.release app version)).isSome := by
    rw [Disk.dir, AList.lookup_isSome]
    exact AList.mem_keys.symm
  rw [← hkeys, versionsIn, List.mem_filterMap]
  constructor
  · rintro ⟨place, hplace, h⟩
    cases place <;> simp_all
  · exact fun h => ⟨_, h, by simp⟩

theorem nodup_versionsIn : (versionsIn app d.dirs.keys).Nodup := by
  refine List.Nodup.filterMap ?_ d.dirs.nodupKeys
  intro p q a hp hq
  cases p <;> cases q <;> simp_all

theorem Complete.isSome (h : Complete tools d app version) :
    (d.dir (.release app version)).isSome := by
  obtain ⟨marker, hm⟩ := h
  cases hd : d.dir (.release app version) with
  | none =>
    rw [markerAt, hd] at hm
    cases hm
  | some tree => rfl

/-- Of these versions, those that are complete are listed. -/
theorem completeIn_spec {versions listed : List Version}
    (h : completeIn tools d app versions = .ok listed) : listed.Sublist versions ∧
      ∀ version ∈ versions, Complete tools d app version → version ∈ listed := by
  induction versions generalizing listed with
  | nil =>
    cases h
    exact ⟨.slnil, fun _ h => by cases h⟩
  | cons first rest ih =>
    unfold completeIn at h
    cases hm : markerAt tools d (.release app first) with
    | error e => rw [hm] at h; cases h
    | ok marker =>
      cases hr : completeIn tools d app rest with
      | error e => rw [hm, hr] at h; cases h
      | ok others =>
        obtain ⟨hsub, hmem⟩ := ih hr
        rw [hm, hr] at h
        cases marker with
        | none =>
          cases h
          refine ⟨hsub.cons _, fun version hv hc => ?_⟩
          rcases List.mem_cons.1 hv with rfl | hv
          · obtain ⟨marker, hmarker⟩ := hc
            rw [hm] at hmarker
            cases hmarker
          · exact hmem version hv hc
        | some marker =>
          cases h
          refine ⟨hsub.cons_cons _, fun version hv hc => ?_⟩
          rcases List.mem_cons.1 hv with rfl | hv
          · exact List.mem_cons_self
          · exact List.mem_cons_of_mem _ (hmem version hv hc)

/-- The complete releases are listed, oldest first. -/
theorem installedIn_spec {listed : List Version} (h : installedIn tools d app = .ok listed) :
    (∀ version, version ∈ listed ↔ Complete tools d app version) ∧ listed.Pairwise Version.lt := by
  have hmem (version : Version) (hv : version ∈ listed) : Complete tools d app version :=
    mem_installedIn h hv
  unfold installedIn at h
  cases hc : completeIn tools d app (versionsIn app d.dirs.keys) with
  | error e => rw [hc] at h; cases h
  | ok versions =>
    rw [hc] at h
    cases h
    obtain ⟨hsub, hall⟩ := completeIn_spec hc
    refine ⟨fun version => ⟨hmem version, fun h => (List.mem_insertionSort _).2
      (hall version (mem_versionsIn.2 (Complete.isSome h)) h)⟩, ?_⟩
    have : Std.Total Version.le := ⟨Version.le_total⟩
    have : IsTrans Version Version.le := ⟨fun _ _ _ => Version.le_trans⟩
    have hle : (versions.insertionSort Version.le).Pairwise Version.le :=
      List.pairwise_insertionSort _ _
    have hne : (versions.insertionSort Version.le).Nodup :=
      (List.perm_insertionSort _ _).nodup_iff.2 (hsub.nodup nodup_versionsIn)
    exact (hle.and hne).imp fun h => Version.not_le.1 fun h' =>
      h.2 (Version.le_antisymm h.1 h')

theorem currentIn_iff {named : Option Version} (h : currentIn tools d app = .ok named) :
    named = some version ↔
      d.doc (.current app) = some (.release version) ∧ Complete tools d app version := by
  constructor
  · rintro rfl
    exact currentIn_ok h
  · rintro ⟨hd, hc⟩
    exact Except.ok.inj (h.symm.trans (currentIn_of_doc hd hc))

theorem previousIn_iff {named : Option Version} (h : previousIn tools d app = .ok named) :
    named = some version ↔
      d.doc (.previous app) = some (.release version) ∧ Complete tools d app version := by
  constructor
  · rintro rfl
    unfold previousIn at h
    cases hd : d.doc (.previous app) with
    | none => rw [hd] at h; cases h
    | some selection =>
      rw [hd] at h
      cases selection with
      | corrupt => cases h
      | release v =>
        obtain ⟨hv, hc⟩ := usableIn_ok (show usableIn tools d app (some v) = _ from h)
        cases hv
        exact ⟨rfl, hc⟩
  · rintro ⟨hd, hc⟩
    exact Except.ok.inj (h.symm.trans (previousIn_of_doc hd hc))

/-! ## The first pass -/

/-- An app has a row if something of it is complete. -/
theorem rowIn_spec {found : Option AppEntry} (h : rowIn tools ledger files view d app = .ok found) :
    (found = none ∧ ¬ ∃ version, Complete tools d app version) ∨ ∃ row, found = some row ∧
      Surveyed tools ledger files view d app row := by
  unfold rowIn at h
  cases hi : currentIn tools d app with
  | error e => rw [hi] at h; cases h
  | ok installed =>
    cases hl : installedIn tools d app with
    | error e => rw [hi, hl] at h; cases h
    | ok onDisk =>
      have hmem := (installedIn_spec hl).1
      rw [hi, hl] at h
      replace h : (if installed = none ∧ onDisk = [] then .ok none
        else ((healthOf ledger files app).mapError SurveyError.ledger).bind fun health =>
          .ok (some (entryOf view app (nameIn tools view d app installed) installed onDisk
            health))) = Except.ok found := h
      split at h
      · next hnone =>
        cases h
        refine .inl ⟨rfl, fun ⟨version, hc⟩ => ?_⟩
        have := (hmem version).2 hc
        rw [hnone.2] at this
        cases this
      · next hsome =>
        cases hh : healthOf ledger files app with
        | error e => rw [hh] at h; cases h
        | ok health =>
          rw [hh] at h
          cases h
          refine .inr ⟨_, rfl, ⟨installed, onDisk, health, hi, hl, hh, rfl⟩, ?_⟩
          cases hon : onDisk with
          | cons version rest => exact ⟨version, (hmem version).1 (hon ▸ List.mem_cons_self)⟩
          | nil =>
            obtain ⟨version, hv⟩ := Option.ne_none_iff_exists'.1 fun hnone => hsome ⟨hnone, hon⟩
            exact ⟨version, ((currentIn_iff hi).1 hv).2⟩

theorem Surveyed.app_eq {row : AppEntry} (h : Surveyed tools ledger files view d app row) :
    row.app = app := by
  obtain ⟨⟨installed, onDisk, health, -, -, -, rfl⟩, -⟩ := h
  rfl

/-- The rows of the first pass: one for each app of which something is complete. -/
theorem rowsIn_spec {known : List AppId} {entries : List AppEntry}
    (h : rowsIn tools ledger files view d known = .ok entries) :
    (entries.map (·.app)).Sublist known ∧
      (∀ row ∈ entries, Surveyed tools ledger files view d row.app row) ∧
      ∀ app ∈ known, (∃ version, Complete tools d app version) →
        ∃ row ∈ entries, row.app = app := by
  induction known generalizing entries with
  | nil =>
    cases h
    exact ⟨.slnil, fun _ h => (by cases h), fun _ h => (by cases h)⟩
  | cons app rest ih =>
    unfold rowsIn at h
    cases hf : rowIn tools ledger files view d app with
    | error e => rw [hf] at h; cases h
    | ok found =>
      cases hr : rowsIn tools ledger files view d rest with
      | error e => rw [hf, hr] at h; cases h
      | ok others =>
        obtain ⟨hsub, hrows, hall⟩ := ih hr
        rw [hf, hr] at h
        cases h
        rcases rowIn_spec hf with ⟨rfl, hnone⟩ | ⟨row, rfl, hrow⟩
        · refine ⟨hsub.cons _, hrows, fun a ha hc => ?_⟩
          rcases List.mem_cons.1 ha with rfl | ha
          · exact absurd hc hnone
          · exact hall a ha hc
        · have happ := hrow.app_eq
          refine ⟨?_, fun r hr => ?_, fun a ha hc => ?_⟩
          · show ((row :: others).map (·.app)).Sublist _
            rw [List.map_cons, happ]
            exact hsub.cons_cons _
          · rcases List.mem_cons.1 hr with rfl | hr
            · exact happ.symm ▸ hrow
            · exact hrows r hr
          · rcases List.mem_cons.1 ha with rfl | ha
            · exact ⟨row, List.mem_cons_self, happ⟩
            · obtain ⟨r, hr, hra⟩ := hall a ha hc
              exact ⟨r, List.mem_cons_of_mem _ hr, hra⟩

/-! ## The second pass -/

/-- The second pass gives each row its fallback. -/
theorem fallbacksIn_spec {entries rows : List AppEntry}
    (h : fallbacksIn tools d entries = .ok rows) :
    List.Forall₂ (fun entry row => ∃ fallback, previousIn tools d entry.app = .ok fallback ∧
      row = { entry with fallback := fallback }) entries rows := by
  induction entries generalizing rows with
  | nil =>
    cases h
    exact .nil
  | cons entry rest ih =>
    unfold fallbacksIn at h
    cases hp : previousIn tools d entry.app with
    | error e => rw [hp] at h; cases h
    | ok fallback =>
      cases hr : fallbacksIn tools d rest with
      | error e => rw [hp, hr] at h; cases h
      | ok others =>
        rw [hp, hr] at h
        cases h
        exact .cons ⟨fallback, hp, rfl⟩ (ih hr)

/-! ## What is only offered -/

/-- The rows after the entries of an index were added. -/
structure Added (catalog : CatalogView) (listed : List IndexEntry) (entries rows : List AppEntry) :
    Prop where
  nodup : (rows.map (·.app)).Nodup
  kept : ∀ row ∈ entries, row ∈ rows
  added : ∀ row ∈ rows, row ∈ entries ∨ row.app ∉ entries.map (·.app) ∧
    ∃ entry newest, catalog.index.newestStable entry.app = some newest ∧
      row = offeredEntry catalog entry newest
  listed : ∀ entry ∈ listed, (catalog.index.newestStable entry.app).isSome →
    ∃ row ∈ rows, row.app = entry.app

theorem added_foldl {catalog : CatalogView} {entries : List AppEntry}
    (h : (entries.map (·.app)).Nodup) (listed : List IndexEntry) :
    Added catalog listed entries (listed.foldl (addOffered catalog) entries) := by
  induction listed using List.reverseRecOn with
  | nil => exact ⟨h, fun _ h => h, fun _ h => .inl h, fun _ h => (by cases h)⟩
  | append_singleton listed entry ih =>
    rw [List.foldl_append, List.foldl_cons, List.foldl_nil]
    generalize listed.foldl (addOffered catalog) entries = rows at ih
    unfold addOffered
    split
    · next hany =>
      refine { ih with listed := fun e he hsome => ?_ }
      rcases List.mem_append.1 he with he | he
      · exact ih.listed e he hsome
      · cases List.mem_singleton.1 he
        obtain ⟨row, hrow, happ⟩ := List.any_eq_true.1 hany
        exact ⟨row, hrow, of_decide_eq_true happ⟩
    · next hany =>
      have hnew : entry.app ∉ rows.map (·.app) := by
        rintro hmem
        obtain ⟨row, hrow, happ⟩ := List.mem_map.1 hmem
        exact hany (List.any_eq_true.2 ⟨row, hrow, decide_eq_true happ⟩)
      split
      · next hnone =>
        refine { ih with listed := fun e he hsome => ?_ }
        rcases List.mem_append.1 he with he | he
        · exact ih.listed e he hsome
        · cases List.mem_singleton.1 he
          rw [hnone] at hsome
          cases hsome
      · next newest hnewest =>
        refine ⟨?_, fun row hrow => List.mem_append_left _ (ih.kept row hrow), fun row hrow => ?_,
          fun e he hsome => ?_⟩
        · rw [List.map_append, List.nodup_append]
          refine ⟨ih.nodup, List.nodup_singleton _, fun a ha b hb hab => ?_⟩
          cases List.mem_singleton.1 hb
          subst hab
          exact hnew ha
        · rcases List.mem_append.1 hrow with hrow | hrow
          · exact ih.added row hrow
          · cases List.mem_singleton.1 hrow
            refine .inr ⟨fun hmem => hnew ?_, entry, newest, hnewest, rfl⟩
            obtain ⟨row, hrow, happ⟩ := List.mem_map.1 hmem
            exact List.mem_map.2 ⟨row, ih.kept row hrow, happ⟩
        · rcases List.mem_append.1 he with he | he
          · obtain ⟨row, hrow, happ⟩ := ih.listed e he hsome
            exact ⟨row, List.mem_append_left _ hrow, happ⟩
          · cases List.mem_singleton.1 he
            exact ⟨_, List.mem_append_right _ List.mem_cons_self, rfl⟩

/-! ## The rows -/

/-- A state that is recorded as failing is one in which the host does not launch. -/
theorem neverStarted_iff {installed : Option Version} {health : Option Health}
    (h : healthOf ledger files app = .ok health) : neverStarted installed health = true ↔
      ∃ version, installed = some version ∧ ledger.shouldLaunch version
        ⟨(files app).readable, .done⟩ (files app).bytes = .ok false := by
  unfold healthOf at h
  cases installed with
  | none => cases health <;> simp [neverStarted]
  | some selected =>
    simp only [Option.some.injEq, exists_eq_left']
    unfold Ledger.shouldLaunch
    show _ ↔ (ledger.health (files app).readable (files app).bytes).bind _ = _
    rw [h]
    cases health with
    | none => simp [neverStarted, Except.bind, pure, Except.pure]
    | some health =>
      by_cases hversion : health.version = selected
      · simp [neverStarted, Except.bind, pure, Except.pure, hversion]
      · simp [neverStarted, Except.bind, pure, Except.pure, hversion]

/-- What is offered is the greatest stable version. -/
theorem newestOffered_iff : (newestOffered view app).map (·.version) = some version ↔
    Offers view app version ∧ version.pre = [] ∧
      ∀ other, Offers view app other → other.pre = [] → other.le version := by
  unfold newestOffered Offers
  cases view with
  | none => simp
  | some catalog =>
    simp only [Option.bind_some, Option.some.injEq, exists_eq_left']
    cases hn : catalog.index.newestStable app with
    | none =>
      refine ⟨fun h => (by cases h), fun h => ?_⟩
      exact absurd h.2.1 (CatalogIndex.newestStable_none hn h.1)
    | some newest =>
      obtain ⟨hmem, happ, hpre, hall⟩ := CatalogIndex.newestStable_some hn
      rw [Option.map_some, Option.some.injEq]
      constructor
      · rintro rfl
        exact ⟨⟨newest, hmem, happ, rfl⟩, hpre, hall⟩
      · rintro ⟨hlists, hvpre, hvall⟩
        exact Version.le_antisymm (hvall _ ⟨newest, hmem, happ, rfl⟩ hpre) (hall _ hlists hvpre)

/-- What is shown as a prerelease is the greatest version, where that is one. -/
theorem prerelease_iff : prerelease view app = some version ↔
    Offers view app version ∧ version.pre ≠ [] ∧
      ∀ other, Offers view app other → other.le version := by
  unfold prerelease Offers
  cases view with
  | none => simp
  | some catalog =>
    simp only [Option.bind_some, Option.some.injEq, exists_eq_left']
    cases hn : catalog.index.newestAny app with
    | none =>
      refine ⟨fun h => (by cases h), fun h => ?_⟩
      exact absurd h.1 (CatalogIndex.newestAny_none hn)
    | some newest =>
      obtain ⟨hmem, happ, hall⟩ := CatalogIndex.newestAny_some hn
      rw [Option.map_some, Option.filter_eq_some_iff, Option.some.injEq, decide_eq_true_iff]
      constructor
      · rintro ⟨rfl, hpre⟩
        exact ⟨⟨newest, hmem, happ, rfl⟩, hpre, hall⟩
      · rintro ⟨hlists, hvpre, hvall⟩
        exact ⟨Version.le_antisymm (hvall _ ⟨newest, hmem, happ, rfl⟩) (hall _ hlists), hvpre⟩

/-- The state of a row of which something is on disk. -/
theorem means_stateOf {row : AppEntry} {health : Option Health}
    (hhealth : healthOf ledger files row.app = .ok health)
    (hon : row.installed = none → row.onDisk ≠ []) :
    Means ledger files view row
      (stateOf row.installed row.available row.onDisk health view.isSome) := by
  have hrefused : neverStarted row.installed health = true ↔ Refused ledger files row :=
    neverStarted_iff hhealth
  unfold stateOf
  split
  · next h => exact hrefused.1 h
  · next h =>
    have hnot : ¬ Refused ledger files row := fun hr => h (hrefused.2 hr)
    split
    · next hi ha => exact ⟨hi, by rw [ha]; rfl⟩
    · next hi ha =>
      rw [if_pos (hon hi)]
      exact ⟨hi, ha, hon hi⟩
    · next selected hi ha =>
      split
      · next hv => exact ⟨hnot, by rw [hi]; rfl, ha, hv⟩
      · next hv => exact ⟨hnot, by rw [hi]; rfl, by simpa using hv⟩
    · next selected newest hi ha =>
      split
      · next hlt => exact ⟨hnot, selected, newest, hi, ha, hlt⟩
      · next hlt => exact ⟨hnot, selected, newest, hi, ha, by
          by_contra hle
          exact hlt (Version.not_le.1 hle)⟩

/-- The rows of the two passes are right. -/
theorem Surveyed.row {entry : AppEntry} {fallback : Option Version}
    (h : Surveyed tools ledger files view d app entry) (hpresent : Present d app)
    (hp : previousIn tools d app = .ok fallback) :
    Row tools ledger files view d { entry with fallback := fallback } := by
  obtain ⟨⟨installed, onDisk, health, hi, hl, hh, rfl⟩, usable, husable⟩ := h
  obtain ⟨hmem, hlt⟩ := installedIn_spec hl
  refine ⟨fun version => ?_, fun version => ?_, fun version => ?_, hlt,
    fun version => newestOffered_iff, fun version => prerelease_iff, ?_⟩
  · exact (currentIn_iff hi).trans (and_iff_right hpresent).symm
  · exact (previousIn_iff hp).trans (and_iff_right hpresent).symm
  · exact (hmem version).trans (and_iff_right hpresent).symm
  · let row := { entryOf view app (nameIn tools view d app installed) installed onDisk health with
      fallback := fallback }
    show Means ledger files view row
      (stateOf row.installed row.available row.onDisk health view.isSome)
    refine means_stateOf hh fun _ hnil => ?_
    have := (hmem usable).2 husable
    rw [show onDisk = [] from hnil] at this
    cases this

/-- The rows of what is only offered are right. -/
theorem row_offeredEntry {catalog : CatalogView} {entry newest : IndexEntry}
    (hnewest : catalog.index.newestStable entry.app = some newest)
    (hnone : ¬ (Present d entry.app ∧ ∃ version, Complete tools d entry.app version)) :
    Row tools ledger files (some catalog) d (offeredEntry catalog entry newest) := by
  have hno (version : Version) {p : Prop} : (none : Option Version) = some version ↔
      Present d entry.app ∧ p ∧ Complete tools d entry.app version :=
    ⟨fun h => (by cases h), fun h => absurd ⟨h.1, version, h.2.2⟩ hnone⟩
  refine ⟨fun version => hno version, fun version => hno version, fun version => ?_, .nil,
    fun version => ?_, fun version => prerelease_iff, rfl, rfl⟩
  · exact ⟨fun h => (by cases h), fun h => absurd ⟨h.1, version, h.2⟩ hnone⟩
  · have hoffer : newestOffered (some catalog) entry.app = some newest := hnewest
    have hiff : (newestOffered (some catalog) entry.app).map (·.version) = some version ↔ _ :=
      newestOffered_iff
    exact Iff.trans (by rw [hoffer]; rfl) hiff

/-- The rows with those of what is only offered. -/
structure Merged (view : Option CatalogView) (entries rows : List AppEntry) : Prop where
  nodup : (rows.map (·.app)).Nodup
  kept : ∀ row ∈ entries, row ∈ rows
  added : ∀ row ∈ rows, row ∈ entries ∨ row.app ∉ entries.map (·.app) ∧
    ∃ catalog entry newest, view = some catalog ∧
      catalog.index.newestStable entry.app = some newest ∧ row = offeredEntry catalog entry newest
  offered : ∀ app version, Offers view app version → version.pre = [] → ∃ row ∈ rows, row.app = app

theorem merged_addAllOffered {entries : List AppEntry} (h : (entries.map (·.app)).Nodup) :
    Merged view entries (addAllOffered view entries) := by
  unfold addAllOffered
  cases view with
  | none =>
    refine ⟨h, fun _ h => h, fun _ h => .inl h, ?_⟩
    rintro app version ⟨catalog, hcatalog, -⟩
    cases hcatalog
  | some catalog =>
    have hadded : Added catalog catalog.index.entries entries _ := added_foldl h _
    refine ⟨hadded.nodup, hadded.kept, fun row hrow => ?_, ?_⟩
    · rcases hadded.added row hrow with hold | ⟨hnew, entry, newest, hnewest, heq⟩
      · exact .inl hold
      · exact .inr ⟨hnew, catalog, entry, newest, rfl, hnewest, heq⟩
    · rintro app version ⟨catalog', hcatalog, hlists⟩ hpre
      cases hcatalog
      obtain ⟨entry, he, rfl, rfl⟩ := hlists
      refine hadded.listed entry he (Option.isSome_iff_ne_none.2 fun hnone => ?_)
      exact CatalogIndex.newestStable_none hnone ⟨entry, he, rfl, rfl⟩ hpre

/-- The rows of the two passes: those of the apps of which something is complete. -/
theorem twoPasses_spec {first second : List AppEntry}
    (hf : rowsIn tools ledger files view d (appsIn d) = .ok first)
    (hs : fallbacksIn tools d first = .ok second) : (second.map (·.app)).Nodup ∧
      (∀ row ∈ second, Row tools ledger files view d row) ∧
      ∀ app, app ∈ second.map (·.app) ↔
        Present d app ∧ ∃ version, Complete tools d app version := by
  obtain ⟨hsub, hrows, hall⟩ := rowsIn_spec hf
  have hpasses := fallbacksIn_spec hs
  have hpresent : ∀ row ∈ first, Present d row.app := fun row hrow =>
    mem_appsIn.1 (hsub.subset (List.mem_map_of_mem hrow))
  have happs : second.map (·.app) = first.map (·.app) := by
    refine List.Forall₂.rec rfl (fun {entry row _ _} hhead _ ih => ?_) hpasses
    obtain ⟨fallback, -, rfl⟩ := hhead
    rw [List.map_cons, List.map_cons, ih]
  have hright : ∀ row ∈ second, Row tools ledger files view d row := by
    intro row hrow
    obtain ⟨i, hi, rfl⟩ := List.getElem_of_mem hrow
    have hfirst : i < first.length := hpasses.length_eq ▸ hi
    obtain ⟨fallback, hp, heq⟩ := (List.forall₂_iff_get.1 hpasses).2 i hfirst hi
    have hmem : first[i] ∈ first := List.getElem_mem hfirst
    rw [show second[i] = _ from heq]
    exact (hrows _ hmem).row (hpresent _ hmem) hp
  refine ⟨happs ▸ hsub.nodup nodup_appsIn, hright, fun app => ?_⟩
  rw [happs]
  constructor
  · intro h
    obtain ⟨row, hrow, rfl⟩ := List.mem_map.1 h
    exact ⟨hpresent row hrow, (hrows row hrow).usable⟩
  · rintro ⟨happ, husable⟩
    obtain ⟨row, hrow, rfl⟩ := hall app (mem_appsIn.2 happ) husable
    exact List.mem_map_of_mem hrow

/-- The rows of a survey are exact. -/
theorem surveyIn_exact {inventory : Inventory}
    (h : surveyIn tools ledger files view d = .ok inventory) :
    Exact tools ledger files view d inventory := by
  unfold surveyIn at h
  cases hf : rowsIn tools ledger files view d (appsIn d) with
  | error e => rw [hf] at h; cases h
  | ok first =>
    rw [hf] at h
    replace h : (fallbacksIn tools d first).bind _ = _ := h
    cases hs : fallbacksIn tools d first with
    | error e => rw [hs] at h; cases h
    | ok second =>
      rw [hs] at h
      cases h
      obtain ⟨hnodup, hrows, happs⟩ := twoPasses_spec hf hs
      have hmerged : Merged view second _ := merged_addAllOffered hnodup
      have hmem (row : AppEntry) : row ∈ sortRows (addAllOffered view second) ↔
          row ∈ addAllOffered view second := mem_sortRows hmerged.nodup
      refine ⟨sortRows_sorted _, fun app => ?_, fun row hrow => ?_⟩
      · constructor
        · rintro ⟨row, hrow, rfl⟩
          rcases hmerged.added row ((hmem row).1 hrow) with
            hold | ⟨-, catalog, entry, newest, hv, hn, rfl⟩
          · exact .inl ((happs row.app).1 (List.mem_map_of_mem hold))
          · obtain ⟨hnewest, happ, hpre, -⟩ := CatalogIndex.newestStable_some hn
            exact .inr ⟨newest.version, ⟨catalog, hv, newest, hnewest, happ, rfl⟩, hpre⟩
        · rintro (hinstalled | ⟨version, hoffers, hpre⟩)
          · obtain ⟨row, hrow, happ⟩ := List.mem_map.1 ((happs app).2 hinstalled)
            exact ⟨row, (hmem row).2 (hmerged.kept row hrow), happ⟩
          · obtain ⟨row, hrow, happ⟩ := hmerged.offered app version hoffers hpre
            exact ⟨row, (hmem row).2 hrow, happ⟩
      · rcases hmerged.added row ((hmem row).1 hrow) with
          hold | ⟨hnew, catalog, entry, newest, hv, hn, rfl⟩
        · exact hrows row hold
        · subst hv
          exact row_offeredEntry hn fun hinstalled => hnew ((happs _).2 hinstalled)

/-! ## When there are none -/

theorem isOk_bind {ε α β : Type} {r : Except ε α} {f : α → Except ε β} :
    (r.bind f).isOk ↔ ∃ a, r = .ok a ∧ (f a).isOk := by
  cases r with
  | error e => exact ⟨fun h => (by cases h), fun ⟨a, h, _⟩ => (by cases h)⟩
  | ok a => exact ⟨fun h => ⟨a, rfl, h⟩, fun ⟨_, h, hf⟩ => Except.ok.inj h ▸ hf⟩

theorem isOk_mapError {ε ε' α : Type} {r : Except ε α} {g : ε → ε'} :
    (r.mapError g).isOk ↔ r.isOk := by
  cases r <;> rfl

theorem isOk_iff {ε α : Type} {r : Except ε α} : r.isOk ↔ ∃ a, r = .ok a := by
  cases r with
  | error e => exact ⟨fun h => (by cases h), fun ⟨a, h⟩ => (by cases h)⟩
  | ok a => exact ⟨fun _ => ⟨a, rfl⟩, fun _ => rfl⟩

theorem mapError_eq_ok {ε ε' α : Type} {r : Except ε α} {g : ε → ε'} {a : α} :
    r.mapError g = .ok a ↔ r = .ok a := by
  cases r with
  | error e => exact ⟨fun h => (by cases h), fun h => (by cases h)⟩
  | ok a' => exact ⟨fun h => congrArg _ (Except.ok.inj h), fun h => congrArg _ (Except.ok.inj h)⟩

/-- What an app has on disk, when its selection and its markers can be read. -/
theorem nothing_iff {installed : Option Version} {onDisk : List Version}
    (hi : currentIn tools d app = .ok installed) (hl : installedIn tools d app = .ok onDisk) :
    (installed = none ∧ onDisk = []) ↔ ¬ ∃ version, Complete tools d app version := by
  have hmem := (installedIn_spec hl).1
  constructor
  · rintro ⟨-, rfl⟩ ⟨version, hc⟩
    cases (hmem version).2 hc
  · intro hnone
    refine ⟨Option.eq_none_iff_forall_ne_some.2 fun version hv => ?_,
      List.eq_nil_iff_forall_not_mem.2 fun version hv => hnone ⟨version, (hmem version).1 hv⟩⟩
    exact hnone ⟨version, ((currentIn_iff hi).1 hv).2⟩

theorem rowIn_isOk : (rowIn tools ledger files view d app).isOk ↔
    (currentIn tools d app).isOk ∧ (installedIn tools d app).isOk ∧
      ((∃ version, Complete tools d app version) → (healthOf ledger files app).isOk) := by
  simp only [rowIn, isOk_bind, mapError_eq_ok]
  constructor
  · rintro ⟨installed, hi, onDisk, hl, h⟩
    refine ⟨isOk_iff.2 ⟨_, hi⟩, isOk_iff.2 ⟨_, hl⟩, fun husable => ?_⟩
    rw [if_neg ((nothing_iff hi hl).not.2 (not_not.2 husable)), isOk_bind] at h
    obtain ⟨health, hh, -⟩ := h
    exact isOk_iff.2 ⟨health, mapError_eq_ok.1 hh⟩
  · rintro ⟨hi, hl, hh⟩
    obtain ⟨installed, hi⟩ := isOk_iff.1 hi
    obtain ⟨onDisk, hl⟩ := isOk_iff.1 hl
    refine ⟨installed, hi, onDisk, hl, ?_⟩
    split
    · rfl
    · next h =>
      obtain ⟨health, hh⟩ := isOk_iff.1 (hh (not_not.1 ((nothing_iff hi hl).not.1 h)))
      exact isOk_bind.2 ⟨health, mapError_eq_ok.2 hh, rfl⟩

theorem rowsIn_isOk {known : List AppId} : (rowsIn tools ledger files view d known).isOk ↔
    ∀ app ∈ known, (rowIn tools ledger files view d app).isOk := by
  induction known with
  | nil => exact ⟨fun _ _ h => (by cases h), fun _ => rfl⟩
  | cons app rest ih =>
    rw [List.forall_mem_cons, ← ih, rowsIn, isOk_bind]
    simp only [isOk_bind]
    constructor
    · rintro ⟨entry, hentry, entries, hentries, -⟩
      exact ⟨isOk_iff.2 ⟨entry, hentry⟩, isOk_iff.2 ⟨entries, hentries⟩⟩
    · rintro ⟨hentry, hentries⟩
      obtain ⟨entry, hentry⟩ := isOk_iff.1 hentry
      obtain ⟨entries, hentries⟩ := isOk_iff.1 hentries
      exact ⟨entry, hentry, entries, hentries, rfl⟩

theorem fallbacksIn_isOk {entries : List AppEntry} : (fallbacksIn tools d entries).isOk ↔
    ∀ entry ∈ entries, (previousIn tools d entry.app).isOk := by
  induction entries with
  | nil => exact ⟨fun _ _ h => (by cases h), fun _ => rfl⟩
  | cons entry rest ih =>
    rw [List.forall_mem_cons, ← ih, fallbacksIn, isOk_bind]
    simp only [isOk_bind, mapError_eq_ok]
    constructor
    · rintro ⟨fallback, hfallback, entries, hentries, -⟩
      exact ⟨isOk_iff.2 ⟨fallback, hfallback⟩, isOk_iff.2 ⟨entries, hentries⟩⟩
    · rintro ⟨hfallback, hentries⟩
      obtain ⟨fallback, hfallback⟩ := isOk_iff.1 hfallback
      obtain ⟨entries, hentries⟩ := isOk_iff.1 hentries
      exact ⟨fallback, hfallback, entries, hentries, rfl⟩

/-- There are rows if the records of every app can be read. -/
theorem surveyIn_isOk : (surveyIn tools ledger files view d).isOk ↔
    ∀ app, Present d app → Readable tools ledger files d app := by
  simp only [surveyIn, isOk_bind]
  constructor
  · rintro ⟨first, hf, second, hs, -⟩ app happ
    obtain ⟨-, hrows, hall⟩ := rowsIn_spec hf
    obtain ⟨hi, hl, hh⟩ := rowIn_isOk.1
      (rowsIn_isOk.1 (isOk_iff.2 ⟨first, hf⟩) app (mem_appsIn.2 happ))
    refine ⟨hi, hl, fun husable => ⟨hh husable, ?_⟩⟩
    obtain ⟨row, hrow, rfl⟩ := hall app (mem_appsIn.2 happ) husable
    exact fallbacksIn_isOk.1 (isOk_iff.2 ⟨second, hs⟩) row hrow
  · intro h
    have hrows : ∀ app ∈ appsIn d, (rowIn tools ledger files view d app).isOk := fun app happ =>
      have hreadable := h app (mem_appsIn.1 happ)
      rowIn_isOk.2 ⟨hreadable.1, hreadable.2.1, fun husable => (hreadable.2.2 husable).1⟩
    obtain ⟨first, hf⟩ := isOk_iff.1 (rowsIn_isOk.2 hrows)
    obtain ⟨hsub, hrows, -⟩ := rowsIn_spec hf
    obtain ⟨second, hs⟩ := isOk_iff.1 (fallbacksIn_isOk.2 fun row hrow =>
      ((h row.app (mem_appsIn.1 (hsub.subset (List.mem_map_of_mem hrow)))).2.2
        (hrows row hrow).usable).2)
    exact ⟨first, hf, second, hs, rfl⟩

/-- A survey changes nothing. It fails if the records of some app in the store cannot be read, and
otherwise shows each app that can be launched or installed in one row, and of each what is so. -/
theorem survey_exact (tools : Tools K) (ledger : Ledger) (files : AppId → HealthFile)
    (view : Option CatalogView) (order : Tree.Order) (d : StoreDisk) :
    ∃ outcome, (survey tools ledger files view).run (alone order) d = (outcome, d) ∧
      (outcome.isOk ↔ ∀ app, Present d app → Readable tools ledger files d app) ∧
      ∀ inventory, outcome = .ok inventory → Exact tools ledger files view d inventory := by
  obtain ⟨hd, hr⟩ := (survey_looks tools ledger files view d).result
  exact ⟨_, Prod.ext hr hd, surveyIn_isOk, fun inventory h => surveyIn_exact h⟩

end Paperclip.AppStore
