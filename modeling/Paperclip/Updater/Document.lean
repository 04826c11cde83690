import Paperclip.Packages.Texts
import Paperclip.Updater.Manifest

/-!
# The document of a platform manifest

It is written by hand, line by line, and read by a TOML crate.

* `toDocument`: what is written. `escape`: what stands between the quotes of a text.
* `Document`: the fields as they are read. `Document.ofLines`: from the lines of a document.
* `manifest_round_trips_iff`: a manifest is read back just if its texts have none of the characters
  that TOML wants escaped and `escape` leaves alone. `line_break_in_notes`: one that has.
-/

namespace Paperclip

namespace Updater

open Files Packages Protocol

/-! ## Writing -/

/-- Every `c` of a text, as another text. -/
def replace (c : Char) (other : List Char) (text : List Char) : List Char :=
  text.flatMap fun d => if d = c then other else [d]

/-- TOML escaping for the few characters that can appear in a name or a note. -/
def escape (text : String) : String :=
  String.ofList (replace '"' ['\\', '"'] (replace '\\' ['\\', '\\'] text.toList))

/-- The lines of a component. -/
def Component.toDocument (component : Component) : String :=
  "\n[[component]]\n" ++
  "name = \"" ++ escape component.name ++ "\"\n" ++
  "path = \"" ++ escape component.path ++ "\"\n" ++
  "size = " ++ toString component.size ++ "\n" ++
  "digest = \"" ++ component.digest.text ++ "\"\n"

/-- Renders the document that gets signed. -/
def RawManifest.toDocument (manifest : RawManifest) : String :=
  "version = \"" ++ manifest.version.toString ++ "\"\n" ++
  "protocol = \"" ++ protocolText manifest.protocol ++ "\"\n" ++
  "published = " ++ toString manifest.published ++ "\n" ++
  "state_version = " ++ toString manifest.stateVersion ++ "\n" ++
  "rollback_to_state = " ++ toString manifest.rollbackToState ++ "\n" ++
  (if manifest.notes = "" then "" else "notes = \"" ++ escape manifest.notes ++ "\"\n") ++
  String.join (manifest.components.map Component.toDocument)

/-! ## Reading -/

/-- A component, as written. -/
structure RawComponent where
  name : String
  path : String
  size : ℕ
  digest : String
  deriving DecidableEq

/-- A platform manifest, as written. -/
structure Document where
  version : String
  protocol : String
  published : ℕ
  stateVersion : ℕ
  rollbackToState : ℕ
  notes : Option String
  component : List RawComponent
  deriving DecidableEq

/-- A number below `2 ^ 32`. -/
def u32 (value : ℕ) : Option ℕ := if value < 2 ^ 32 then some value else none

/-- A component from its table, which must have all of its fields and no other. -/
def RawComponent.ofTable (array : List Char × Toml.Table) : Option RawComponent :=
  if array.1 = "component".toList ∧ array.2.only ["name", "path", "size", "digest"] then do
    let name ← array.2.text "name"
    let path ← array.2.text "path"
    let size ← array.2.number "size"
    let digest ← array.2.text "digest"
    return { name, path, size, digest }
  else none

/-- The notes, which may be missing. -/
def Document.notesOf (table : Toml.Table) : Option (Option String) :=
  if table.lookup "notes".toList = none then some none else (table.text "notes").map some

/-- The fields from the lines of a document. None may be missing but the notes, and no other may be
there. -/
def Document.ofLines (lines : List Toml.Line) : Option Document :=
  let (top, arrays) := Toml.split lines
  if top.only ["version", "protocol", "published", "state_version", "rollback_to_state", "notes"] then do
    let version ← top.text "version"
    let protocol ← top.text "protocol"
    let published ← top.number "published"
    let stateVersion ← (top.number "state_version").bind u32
    let rollbackToState ← (top.number "rollback_to_state").bind u32
    let notes ← notesOf top
    let component ← arrays.mapM RawComponent.ofTable
    return { version, protocol, published, stateVersion, rollbackToState, notes, component }
  else none

/-- A component, once its digest is parsed. -/
def RawComponent.toComponent (raw : RawComponent) : Except String Component :=
  if (Packages.Digest.parse raw.digest).isSome then
    .ok ⟨raw.name, raw.path, raw.size, ⟨raw.digest⟩⟩
  else .error s!"component `{raw.name}` digest: `{raw.digest}`"

/-- The fields, once they are parsed. `semver` reads the text of a version. -/
def Document.toManifest (semver : String → Except String Version) (raw : Document) :
    Except String RawManifest := do
  let version ← (semver raw.version).mapError fun source => s!"version `{raw.version}`: {source}"
  let protocol ← (parseProtocol raw.protocol).elim (.error s!"protocol `{raw.protocol}`") .ok
  let components ← raw.component.mapM RawComponent.toComponent
  return {
    version
    protocol
    published := raw.published
    stateVersion := raw.stateVersion
    rollbackToState := raw.rollbackToState
    notes := raw.notes.getD ""
    components }

/-- Reads the fields of a document. -/
def readDocument (toml : Toml.Reader Document Document.ofLines)
    (semver : String → Except String Version) (document : Bytes) : Except String RawManifest :=
  match decodeUtf8 document with
  | none => .error "not UTF-8"
  | some text => (toml.fromStr text).bind (Document.toManifest semver)

/-! ## The lines of a document -/

/-- What the types of the fields promise. -/
structure RawManifest.Typed (manifest : RawManifest) : Prop where
  version : manifest.version.WellFormed
  protocol : manifest.protocol.major < 2 ^ 16 ∧ manifest.protocol.minor < 2 ^ 16
  stateVersion : manifest.stateVersion < 2 ^ 32
  rollbackToState : manifest.rollbackToState < 2 ^ 32
  digests : ∀ component ∈ manifest.components,
    (Packages.Digest.parse component.digest.text).isSome = true

/-- Every number is below `2 ^ 63`. -/
def RawManifest.Small (manifest : RawManifest) : Prop :=
  manifest.published < 2 ^ 63 ∧ ∀ component ∈ manifest.components, component.size < 2 ^ 63

/-- Every text has allowed characters only. -/
def RawManifest.Carried (manifest : RawManifest) : Prop :=
  manifest.notes.toList.all Toml.allowed = true ∧ ∀ component ∈ manifest.components,
    component.name.toList.all Toml.allowed = true ∧ component.path.toList.all Toml.allowed = true

/-- A key with a text. -/
def textLine (key text : String) : Toml.Line := .pair key.toList (.text text.toList)

/-- A key with a number. -/
def numberLine (key : String) (value : ℕ) : Toml.Line := .pair key.toList (.number value)

/-- The lines of a component. -/
def Component.lines (component : Component) : List Toml.Line :=
  [.blank, .header "component".toList, textLine "name" component.name, textLine "path" component.path,
    numberLine "size" component.size, textLine "digest" component.digest.text]

/-- The notes, where there are some. -/
def notesLines (notes : String) : List Toml.Line := if notes = "" then [] else [textLine "notes" notes]

/-- The lines of a document. -/
def RawManifest.lines (manifest : RawManifest) : List Toml.Line :=
  [textLine "version" manifest.version.toString, textLine "protocol" (protocolText manifest.protocol),
    numberLine "published" manifest.published, numberLine "state_version" manifest.stateVersion,
    numberLine "rollback_to_state" manifest.rollbackToState] ++
  notesLines manifest.notes ++ manifest.components.flatMap Component.lines

/-- The fields of a component, as they are written. -/
def Component.written (component : Component) : RawComponent :=
  ⟨component.name, component.path, component.size, component.digest.text⟩

/-- The fields of a manifest, as they are written. -/
def RawManifest.written (manifest : RawManifest) : Document where
  version := manifest.version.toString
  protocol := protocolText manifest.protocol
  published := manifest.published
  stateVersion := manifest.stateVersion
  rollbackToState := manifest.rollbackToState
  notes := if manifest.notes = "" then none else some manifest.notes
  component := manifest.components.map Component.written

section

variable {manifest : RawManifest} {component : Component}

/-- One escape after the other is the escape of TOML. -/
theorem toList_escape (text : String) : (escape text).toList = Toml.escape text.toList := by
  rw [escape, String.toList_ofList, replace, replace, Toml.escape, List.flatMap_assoc]
  congr 1
  funext c
  by_cases hb : c = '\\'
  · subst hb
    rfl
  · by_cases hq : c = '"'
    · subst hq
      rfl
    · simp [hb, hq]

/-- A text that needs no escape. -/
theorem escape_plain {text : List Char} (h : ∀ c ∈ text, c ≠ '\\' ∧ c ≠ '"') :
    Toml.escape text = text := by
  induction text with
  | nil => rfl
  | cons c rest ih =>
    have hc := h c List.mem_cons_self
    have hrest := ih fun d hd => h d (List.mem_cons_of_mem _ hd)
    rw [Toml.escape] at hrest ⊢
    rw [List.flatMap_cons, hrest, if_neg (by simp [hc])]
    rfl

/-- A plain text needs no escape. -/
theorem escape_of_plain {text : List Char} (h : text.all isPlain = true) :
    Toml.escape text = text :=
  escape_plain fun c hc => (isPlain_spec (List.all_eq_true.1 h c hc)).2

theorem allowed_of_plain {text : List Char} (h : text.all isPlain = true) :
    text.all Toml.allowed = true :=
  List.all_eq_true.2 fun c hc => (isPlain_spec (List.all_eq_true.1 h c hc)).1

/-! ## The round trip -/

theorem toList_component (h : (Packages.Digest.parse component.digest.text).isSome = true) :
    component.toDocument.toList = Toml.render component.lines := by
  have hdigest := escape_of_plain (plain_digest h)
  unfold Component.toDocument Component.lines Toml.render
  simp only [String.toList_append, toList_escape, toString, Nat.repr_eq_ofList_toDigits,
    String.toList_ofList]
  simp only [textLine, numberLine, List.flatMap_cons, List.flatMap_nil, Toml.Line.render,
    Toml.Value.render, hdigest]
  simp

/-- What is written are these lines. -/
theorem toList_toDocument (h : manifest.Typed) :
    manifest.toDocument.toList = Toml.render manifest.lines := by
  have hversion := escape_of_plain (plain_version h.version)
  have hprotocol := escape_of_plain (plain_protocol manifest.protocol)
  have hcomponents : (String.join (manifest.components.map Component.toDocument)).toList =
      Toml.render (manifest.components.flatMap Component.lines) := by
    rw [String.toList_join, List.flatMap_map, Toml.render, List.flatMap_assoc]
    exact List.flatMap_congr fun component hc => toList_component (h.digests component hc)
  have hnotes : (if manifest.notes = "" then "" else
      "notes = \"" ++ escape manifest.notes ++ "\"\n").toList =
        Toml.render (notesLines manifest.notes) := by
    unfold notesLines
    split
    · rfl
    · simp [Toml.render, Toml.Line.render, Toml.Value.render, textLine, toList_escape]
  unfold RawManifest.toDocument
  rw [String.toList_append, hcomponents, String.toList_append, hnotes]
  simp [RawManifest.lines, Toml.render, Toml.Line.render, Toml.Value.render, textLine, numberLine,
    Nat.repr_eq_ofList_toDigits, hversion, hprotocol]

theorem textLine_formed {key : String} (h : key.toList ≠ [] ∧ key.toList.all Toml.isBare = true)
    (text : String) : (textLine key text).Formed := ⟨h.1, h.2, trivial⟩

theorem textLine_fits {key : String} (h : key.toList ≠ [] ∧ key.toList.all Toml.isBare = true)
    {text : String} : (textLine key text).Fits ↔ text.toList.all Toml.allowed = true :=
  ⟨fun hfits => hfits.2.2, fun htext => ⟨h.1, h.2, htext⟩⟩

theorem numberLine_fits {key : String} (h : key.toList ≠ [] ∧ key.toList.all Toml.isBare = true)
    {value : ℕ} (hvalue : value < 2 ^ 63) : (numberLine key value).Fits :=
  ⟨h.1, h.2, Nat.le_pred_of_lt hvalue⟩

/-- A component is carried just if its name and its path are. -/
theorem component_lines (hdigest : (Packages.Digest.parse component.digest.text).isSome = true)
    (hsize : component.size < 2 ^ 63) :
    (∀ line ∈ component.lines, line.Formed) ∧ ((∀ line ∈ component.lines, line.Fits) ↔
      component.name.toList.all Toml.allowed = true ∧
        component.path.toList.all Toml.allowed = true) := by
  have hsized : (numberLine "size" component.size).Fits := numberLine_fits (by decide) hsize
  have hheader : "component".toList ≠ [] ∧ "component".toList.all Toml.isBare = true := by decide
  unfold Component.lines
  simp only [List.forall_mem_cons, List.not_mem_nil, false_implies, implies_true, and_true]
  refine ⟨⟨trivial, hheader, textLine_formed (by decide) _, textLine_formed (by decide) _, hsized,
    textLine_formed (by decide) _⟩, ?_⟩
  rw [textLine_fits (by decide), textLine_fits (by decide), textLine_fits (by decide)]
  exact ⟨fun h => ⟨h.2.2.1, h.2.2.2.1⟩, fun h => ⟨trivial, hheader, h.1, h.2, hsized,
    allowed_of_plain (plain_digest hdigest)⟩⟩

theorem notesLines_fits (notes : String) : (∀ line ∈ notesLines notes, line.Formed) ∧
    ((∀ line ∈ notesLines notes, line.Fits) ↔ notes.toList.all Toml.allowed = true) := by
  unfold notesLines
  split
  · next h =>
    subst h
    exact ⟨fun _ h => (by cases h), ⟨fun _ => rfl, fun _ _ h => by cases h⟩⟩
  · rw [List.forall_mem_singleton, List.forall_mem_singleton, textLine_fits (by decide)]
    exact ⟨textLine_formed (by decide) _, Iff.rfl⟩

/-- Every line is carried just if every text is. -/
theorem lines_fits (htyped : manifest.Typed) (hsmall : manifest.Small) :
    (∀ line ∈ manifest.lines, line.Formed) ∧
      ((∀ line ∈ manifest.lines, line.Fits) ↔ manifest.Carried) := by
  have hhead : ∀ line ∈ [textLine "version" manifest.version.toString,
      textLine "protocol" (protocolText manifest.protocol), numberLine "published" manifest.published,
      numberLine "state_version" manifest.stateVersion,
      numberLine "rollback_to_state" manifest.rollbackToState], line.Fits := by
    simp only [List.forall_mem_cons, List.not_mem_nil, false_implies, implies_true, and_true]
    exact ⟨(textLine_fits (by decide)).2 (allowed_of_plain (plain_version htyped.version)),
      (textLine_fits (by decide)).2 (allowed_of_plain (plain_protocol _)),
      numberLine_fits (by decide) hsmall.1,
      numberLine_fits (by decide) (lt_trans htyped.stateVersion (by decide)),
      numberLine_fits (by decide) (lt_trans htyped.rollbackToState (by decide))⟩
  have hcomponent (component : Component) (hc : component ∈ manifest.components) :=
    component_lines (htyped.digests component hc) (hsmall.2 component hc)
  obtain ⟨hformed, hnotes⟩ := notesLines_fits manifest.notes
  unfold RawManifest.lines RawManifest.Carried
  simp only [List.forall_mem_append, List.forall_mem_flatMap]
  refine ⟨⟨⟨fun line hline => (hhead line hline).formed, hformed⟩, fun component hc =>
    (hcomponent component hc).1⟩, ⟨fun h => ⟨hnotes.1 h.1.2, fun component hc =>
    (hcomponent component hc).2.1 (h.2 component hc)⟩, fun h => ⟨⟨hhead, hnotes.2 h.1⟩,
    fun component hc => (hcomponent component hc).2.2 (h.2 component hc)⟩⟩⟩

/-- The fields as they are written are parsed into those that they are written from. -/
theorem toManifest_written (h : manifest.Typed) {semver : String → Except String Version}
    (hsemver : semver manifest.version.toString = .ok manifest.version) :
    manifest.written.toManifest semver = .ok manifest := by
  have hcomponents : ∀ components : List Component,
      (∀ component ∈ components, (Packages.Digest.parse component.digest.text).isSome = true) →
      (components.map Component.written).mapM RawComponent.toComponent = .ok components := by
    intro components hdigests
    induction components with
    | nil => rfl
    | cons component rest ih =>
      have hone : component.written.toComponent = .ok component :=
        if_pos (hdigests component List.mem_cons_self)
      rw [List.map_cons, List.mapM_cons, hone, ih fun c hc => hdigests c (List.mem_cons_of_mem _ hc)]
      rfl
  have hnotes : manifest.written.notes.getD "" = manifest.notes := by
    show (if manifest.notes = "" then none else some manifest.notes).getD "" = _
    split
    · next hempty => exact hempty.symm
    · rfl
  show ((semver manifest.version.toString).mapError _).bind _ = _
  rw [hsemver]
  show Except.bind ((parseProtocol (protocolText manifest.protocol)).elim _ _) _ = _
  rw [parseProtocol_text h.protocol]
  show Except.bind ((manifest.components.map Component.written).mapM RawComponent.toComponent) _ = _
  rw [hcomponents _ h.digests]
  show Except.ok _ = _
  rw [hnotes]
  rfl

/-- The tables of the components, each from its own lines. -/
theorem split_components (components : List Component) :
    ∃ arrays, Toml.split (components.flatMap Component.lines) = ([], arrays) ∧
      arrays.mapM RawComponent.ofTable = some (components.map Component.written) := by
  induction components with
  | nil => exact ⟨[], rfl, rfl⟩
  | cons component rest ih =>
    obtain ⟨arrays, hsplit, hread⟩ := ih
    refine ⟨("component".toList, [("name".toList, .text component.name.toList),
      ("path".toList, .text component.path.toList), ("size".toList, .number component.size),
      ("digest".toList, .text component.digest.text.toList)]) :: arrays, ?_, ?_⟩
    · simp [List.flatMap_cons, Component.lines, textLine, numberLine, Toml.split, hsplit]
    · rw [List.mapM_cons, hread]
      simp [RawComponent.ofTable, Toml.Table.only, Toml.Table.text, Toml.Table.number, List.lookup_cons,
        Component.written]

theorem u32_eq {value : ℕ} (h : value < 2 ^ 32) : u32 value = some value := if_pos h

/-- The fields are read from the lines as they are written. -/
theorem ofLines_lines (h : manifest.Typed) :
    Document.ofLines manifest.lines = some manifest.written := by
  obtain ⟨arrays, hsplit, hread⟩ := split_components manifest.components
  have hstate := u32_eq h.stateVersion
  have hrollback := u32_eq h.rollbackToState
  unfold Document.ofLines RawManifest.lines notesLines
  by_cases hnotes : manifest.notes = "" <;>
    simp [hnotes, textLine, numberLine, Toml.split, hsplit, Toml.Table.only, Toml.Table.text,
      Toml.Table.number, List.lookup_cons, Document.notesOf, hstate, hrollback, hread, RawManifest.written]

end

namespace PlatformManifest

theorem new_self (manifest : PlatformManifest) : new manifest.toRawManifest = .ok manifest := by
  unfold new
  split
  · rfl
  · next h =>
    rw [manifest.checked] at h
    cases h

end PlatformManifest

section

variable (ext : Externals) (toml : Toml.Reader Document Document.ofLines)
  (semver : String → Except String Version) {manifest : PlatformManifest}

/-- A text that cannot be carried breaks the whole document. -/
theorem parse_broken (htyped : manifest.Typed) (hsmall : manifest.Small)
    (hcarried : ¬ manifest.Carried) : ∃ reason,
    parse { ext with parse := readDocument toml semver } (encodeUtf8 manifest.toDocument) =
      .error (.manifest reason) := by
  obtain ⟨hformed, hfits⟩ := lines_fits htyped hsmall
  have hbroken : Toml.Broken manifest.toDocument.toList := by
    rw [toList_toDocument htyped]
    exact Toml.broken_render hformed fun h => hcarried (hfits.1 h)
  obtain ⟨e, he⟩ := toml.refuses _ hbroken
  unfold parse readDocument
  dsimp only
  rw [decodeUtf8_encodeUtf8]
  dsimp only
  rw [he]
  exact ⟨e, rfl⟩

/-- Texts that can be carried are read back. -/
theorem parse_carried (htyped : manifest.Typed) (hsmall : manifest.Small)
    (hsemver : semver manifest.version.toString = .ok manifest.version)
    (hcarried : manifest.Carried) :
    parse { ext with parse := readDocument toml semver } (encodeUtf8 manifest.toDocument) =
      .ok ⟨manifest⟩ := by
  have hread := toml.reads _ _ ((lines_fits htyped hsmall).2.2 hcarried) (ofLines_lines htyped)
  rw [← toList_toDocument htyped, String.ofList_toList] at hread
  unfold parse readDocument
  dsimp only
  rw [decodeUtf8_encodeUtf8]
  dsimp only
  rw [hread]
  have hbind : (Except.ok manifest.written).bind (Document.toManifest semver) =
      manifest.written.toManifest semver := rfl
  rw [hbind, toManifest_written htyped hsemver]
  change (PlatformManifest.new manifest.toRawManifest).map VerifiedPlatform.mk = _
  rw [PlatformManifest.new_self]
  rfl

end

/-- A manifest whose numbers are below `2 ^ 63` is read back from what is written of it just if its
notes, and the names and the paths of its components, have allowed characters only. -/
theorem manifest_round_trips_iff (ext : Externals) (toml : Toml.Reader Document Document.ofLines)
    (semver : String → Except String Version) (manifest : PlatformManifest) (htyped : manifest.Typed)
    (hsmall : manifest.Small) (hsemver : semver manifest.version.toString = .ok manifest.version) :
    parse { ext with parse := readDocument toml semver } (encodeUtf8 manifest.toDocument) =
      .ok ⟨manifest⟩ ↔ manifest.Carried := by
  refine ⟨fun hparse => ?_, parse_carried ext toml semver htyped hsmall hsemver⟩
  by_contra hcarried
  obtain ⟨reason, hbroken⟩ := parse_broken ext toml semver htyped hsmall hcarried
  rw [hparse] at hbroken
  cases hbroken

/-! ## Notes with more than one line -/

namespace Noted

/-- A digest of zeros. -/
def DIGEST : String := "sha256:" ++ String.ofList (List.replicate 64 '0')

/-- A component of one byte. -/
def component (name : String) : Component := ⟨name, "bin/" ++ name, 1, ⟨DIGEST⟩⟩

/-- A platform of the five components, with some notes. -/
def fields (notes : String) : RawManifest where
  version := .new 1 0 0
  protocol := CURRENT
  published := 1700000000
  stateVersion := 1
  rollbackToState := 1
  notes
  components := REQUIRED_COMPONENTS.map component

theorem checked (notes : String) : (fields notes).check = .ok () := by
  rfl

def manifest (notes : String) : PlatformManifest := ⟨fields notes, checked notes⟩

theorem digest_parses : (Packages.Digest.parse DIGEST).isSome = true := by decide +kernel

theorem typed (notes : String) : (manifest notes).Typed where
  version := ⟨show 1 < 2 ^ 64 ∧ 0 < 2 ^ 64 ∧ 0 < 2 ^ 64 by decide, fun _ h => (by cases h),
    fun _ h => by cases h⟩
  protocol := show 1 < 2 ^ 16 ∧ 1 < 2 ^ 16 by decide
  stateVersion := show 1 < 2 ^ 32 by decide
  rollbackToState := show 1 < 2 ^ 32 by decide
  digests component hc := by
    obtain ⟨name, -, rfl⟩ := List.mem_map.1 hc
    exact digest_parses

theorem small (notes : String) : (manifest notes).Small := by
  refine ⟨show 1700000000 < 2 ^ 63 by decide, fun component hc => ?_⟩
  obtain ⟨name, -, rfl⟩ := List.mem_map.1 hc
  exact show 1 < 2 ^ 63 by decide

theorem carried {notes : String} (h : notes.toList.all Toml.allowed = true) :
    (manifest notes).Carried := by
  have hcomponents : ∀ c ∈ REQUIRED_COMPONENTS.map component,
      c.name.toList.all Toml.allowed = true ∧ c.path.toList.all Toml.allowed = true := by decide
  exact ⟨h, hcomponents⟩

/-- The externals, as far as it goes. -/
def ext : Externals where
  verify _ _ := .ok ()
  parse _ := .error ""
  digestOf _ := ⟨""⟩

def toml : Toml.Reader Document Document.ofLines :=
  Toml.Reader.own Document.ofLines fun lines => by
    unfold Document.ofLines
    rw [Toml.split_append_blank]

/-- The reader of versions, as far as it goes. -/
def semver (text : String) : Except String Version :=
  if text = "1.0.0" then .ok (.new 1 0 0) else .error "not read here"

theorem semver_reads (notes : String) :
    semver (manifest notes).version.toString = .ok (manifest notes).version :=
  if_pos (show (Version.new 1 0 0).toString = "1.0.0" by decide)

end Noted

/-- Notes of one line are read back. -/
theorem manifest_round_trips_noted :
    parse { Noted.ext with parse := readDocument Noted.toml Noted.semver }
      (encodeUtf8 (Noted.manifest "Read \"this\".").toDocument) =
        .ok ⟨Noted.manifest "Read \"this\"."⟩ :=
  (manifest_round_trips_iff Noted.ext Noted.toml Noted.semver _ (Noted.typed _) (Noted.small _)
    (Noted.semver_reads _)).2 (Noted.carried (by decide))

/-- Notes of two lines are not read back. -/
theorem line_break_in_notes : ¬ ∀ (ext : Externals) (toml : Toml.Reader Document Document.ofLines)
    (semver : String → Except String Version) (manifest : PlatformManifest), manifest.Typed →
    manifest.Small → semver manifest.version.toString = .ok manifest.version →
    parse { ext with parse := readDocument toml semver } (encodeUtf8 manifest.toDocument) =
      .ok ⟨manifest⟩ := by
  intro h
  have hcarried : ¬ (Noted.manifest "One.\nTwo.").Carried := fun hc => absurd hc.1 (by decide)
  obtain ⟨reason, hbroken⟩ :=
    parse_broken Noted.ext Noted.toml Noted.semver (Noted.typed _) (Noted.small _) hcarried
  rw [h Noted.ext Noted.toml Noted.semver _ (Noted.typed _) (Noted.small _) (Noted.semver_reads _)]
    at hbroken
  cases hbroken

end Updater

end Paperclip
