import Paperclip.Packages.Release
import Paperclip.Packages.Texts
import Paperclip.Toml.Documents

/-!
# What a publisher writes

The two signed documents are written by hand, line by line, and read by a TOML crate.

* `quote`: a basic string, escaped. `Release.toDocument`, `RawIndex.toDocument`: the documents.
* `RawDocument.ofSections`, `RawIndexDocument.ofSections`: the fields from the tables of a document.
* `Release.width`: how long the document of a release is.
* `Release.RoundTrips`, `CatalogIndex.RoundTrips`: a document is within the limit of its reader, and
  read back.
* `signed_documents_round_trip_iff`: a release does just if its document is not too long, which its
  notes can make it; an index does just if no name in it ends with white space, which no name does
  that was parsed.
-/

namespace Paperclip.Packages

open Files Protocol

/-! ## Writing -/

/-- A character of a basic string. -/
def quoteChar (c : Char) : List Char :=
  if c = '"' then ['\\', '"']
  else if c = '\\' then ['\\', '\\']
  else if c = '\n' then ['\\', 'n']
  else if c = '\r' then ['\\', 'r']
  else if c = '\t' then ['\\', 't']
  else if c.toNat < 0x20 ∨ c = '\x7f' then '\\' :: 'u' :: Toml.codeDigits c.toNat
  else [c]

/-- A TOML basic string, escaped. -/
def quote (value : String) : String :=
  "\"" ++ String.ofList (value.toList.flatMap quoteChar) ++ "\""

/-- The text of a digest. -/
def Digest.toString (digest : Digest) : String :=
  "sha256:" ++ String.ofList (encodeHex digest.bytes.1)

/-- A name that can be drawn, from any text. -/
def DisplayName.fromLossy (text : String) : DisplayName :=
  let cleaned := (trim (text.toList.filter fun c => !isControl c)).take MAX_LEN
  if cleaned = [] then ⟨"Unnamed app"⟩ else ⟨String.ofList cleaned⟩

/-- Describes a release. -/
def Release.new (manifest : Manifest) (archive : RelativePath) (size : ℕ) (digest : Digest)
    (published : ℕ) (notes : String) : Except ReleaseError Release :=
  if MAX_NOTES_BYTES < notes.utf8ByteSize then
    .error (.notesTooLong notes.utf8ByteSize MAX_NOTES_BYTES)
  else
    .ok {
      app := manifest.id
      name := ⟨manifest.name⟩
      version := manifest.version
      protocol := manifest.protocol
      archive
      size
      digest
      published
      notes }

/-- Renders the document a publisher writes and signs. -/
def Release.toDocument (release : Release) : String :=
  "# A Paperclip release descriptor. Signed exactly as written;\n" ++
  "# editing any byte of this file invalidates its signature.\n" ++
  "[release]\n" ++
  "app = " ++ quote release.app.text ++ "\n" ++
  "name = " ++ quote release.name.text ++ "\n" ++
  "version = " ++ quote release.version.toString ++ "\n" ++
  "protocol = " ++ quote (protocolText release.protocol) ++ "\n" ++
  "archive = " ++ quote release.archive.text ++ "\n" ++
  "size = " ++ ToString.toString release.size ++ "\n" ++
  "digest = " ++ quote release.digest.toString ++ "\n" ++
  "published = " ++ ToString.toString release.published ++ "\n" ++
  "notes = " ++ quote release.notes ++ "\n"

/-- Builds an index. -/
def CatalogIndex.new (catalog : String) (serial generated : ℕ) (entries : List IndexEntry) :
    Except ReleaseError CatalogIndex :=
  CatalogIndex.of ⟨catalog, serial, generated, entries⟩

def IndexEntry.toDocument (entry : IndexEntry) : String :=
  "\n[[release]]\n" ++
  "app = " ++ quote entry.app.text ++ "\n" ++
  "name = " ++ quote entry.name.text ++ "\n" ++
  "version = " ++ quote entry.version.toString ++ "\n" ++
  "descriptor = " ++ quote entry.descriptor.text ++ "\n"

/-- Renders the document a publisher writes and signs. -/
def RawIndex.toDocument (index : RawIndex) : String :=
  "# A Paperclip catalog index. Signed exactly as written;\n" ++
  "# editing any byte of this file invalidates its signature.\n" ++
  "[catalog]\n" ++
  "name = " ++ quote index.catalog ++ "\n" ++
  "serial = " ++ ToString.toString index.serial ++ "\n" ++
  "generated = " ++ ToString.toString index.generated ++ "\n" ++
  String.join (index.entries.map IndexEntry.toDocument)

/-! ## Reading -/

/-- The notes, which may be missing. -/
def RawDocument.notesOf (keys : Toml.Keys) : Option String :=
  if keys.lookup "notes".toList = none then some "" else keys.text "notes"

/-- The fields of a release from the one table of its document. None may be missing but the notes,
and no other may be there. -/
def RawDocument.ofSections (document : Toml.Keys × List Toml.Section) : Option RawDocument :=
  match document with
  | ([], [⟨false, name, keys⟩]) =>
    if name = "release".toList ∧ keys.are ["app", "name", "version", "protocol", "archive", "size",
        "digest", "published", "notes"] then do
      let app ← keys.text "app"
      let name ← keys.text "name"
      let version ← keys.text "version"
      let protocol ← keys.text "protocol"
      let archive ← keys.text "archive"
      let size ← keys.number "size"
      let digest ← keys.text "digest"
      let published ← keys.number "published"
      let notes ← notesOf keys
      return { app, name, version, protocol, archive, size, digest, published, notes }
    else none
  | _ => none

/-- A line of an index from its table. -/
def RawIndexEntry.ofSection (table : Toml.Section) : Option RawIndexEntry :=
  if table.name = "release".toList ∧ table.keys.are ["app", "name", "version", "descriptor"] then do
    let app ← table.keys.text "app"
    let name ← table.keys.text "name"
    let version ← table.keys.text "version"
    let descriptor ← table.keys.text "descriptor"
    return { app, name, version, descriptor }
  else none

/-- The fields of an index from its tables: the one of the catalog, and those of the releases. -/
def RawIndexDocument.ofSections (document : Toml.Keys × List Toml.Section) :
    Option RawIndexDocument :=
  match document.1, document.2.filter (!·.array) with
  | [], [table] =>
    if table.name = "catalog".toList ∧ table.keys.are ["name", "serial", "generated"] then do
      let name ← table.keys.text "name"
      let serial ← table.keys.number "serial"
      let generated ← table.keys.number "generated"
      let release ← (document.2.filter (·.array)).mapM RawIndexEntry.ofSection
      return { name, serial, generated, release }
    else none
  | _, _ => none

/-! ## The lines of the documents -/

/-- How a character is spelled. -/
def quotePiece (c : Char) : Toml.Piece :=
  if (Toml.letter c).isSome then ⟨c, .short⟩
  else if c.toNat < 0x20 ∨ c = '\x7f' then ⟨c, .code⟩
  else ⟨c, .plain⟩

theorem quotePiece_render (c : Char) : (quotePiece c).render = quoteChar c := by
  unfold quotePiece quoteChar
  by_cases hq : c = '"'
  · subst hq
    rfl
  by_cases hb : c = '\\'
  · subst hb
    rfl
  by_cases hn : c = '\n'
  · subst hn
    rfl
  by_cases hr : c = '\r'
  · subst hr
    rfl
  by_cases ht : c = '\t'
  · subst ht
    rfl
  have hletter : ¬ (Toml.letter c).isSome = true := by
    unfold Toml.letter
    split <;> simp_all
  rw [if_neg hletter, if_neg hq, if_neg hb, if_neg hn, if_neg hr, if_neg ht]
  split
  · rfl
  · rfl

theorem quotePiece_char (c : Char) : (quotePiece c).char = c := by
  unfold quotePiece
  split
  · rfl
  · split <;> rfl

/-- Every character is spelled so that it can be read. -/
theorem quotePiece_fits (c : Char) : (quotePiece c).fits = true := by
  unfold quotePiece
  split
  · next h => exact h
  next hletter =>
  split
  · next h =>
    rcases h with h | rfl
    · exact decide_eq_true (Nat.lt_trans h (by decide))
    · decide
  · next h =>
    have hq : c ≠ '"' := by
      rintro rfl
      exact hletter rfl
    have hb : c ≠ '\\' := by
      rintro rfl
      exact hletter rfl
    have hd : c.toNat ≠ 0x7F := fun hd => h (.inr (Char.toNat_inj.1 hd))
    have hle : 0x20 ≤ c.toNat := by omega
    simp [Toml.Piece.fits, Toml.allowed, hq, hb, hd, hle]

/-- A text, as it is spelled. -/
def quoted (text : String) : Toml.Spelled := .text (text.toList.map quotePiece)

theorem toList_quote (text : String) : (quote text).toList = (quoted text).render := by
  simp only [quote, quoted, String.toList_append, String.toList_ofList, Toml.Spelled.render,
    List.flatMap_map, quotePiece_render]
  rfl

theorem quoted_fits (text : String) : (quoted text).Fits := by
  intro piece hpiece
  obtain ⟨c, -, rfl⟩ := List.mem_map.1 hpiece
  exact quotePiece_fits c

theorem quoted_datum (text : String) : (quoted text).datum = .text text.toList := by
  rw [quoted, Toml.Spelled.datum, List.map_map]
  congr 1
  exact (List.map_congr_left fun c _ => quotePiece_char c).trans (List.map_id _)

theorem number_datum (value : ℕ) : (Toml.Spelled.number value).datum = .number value := rfl

/-- The lines of a release. -/
def Release.rows (release : Release) : List (Toml.Row Toml.Spelled) :=
  [.comment " A Paperclip release descriptor. Signed exactly as written;".toList,
    .comment " editing any byte of this file invalidates its signature.".toList,
    .table "release".toList,
    .pair "app".toList (quoted release.app.text),
    .pair "name".toList (quoted release.name.text),
    .pair "version".toList (quoted release.version.toString),
    .pair "protocol".toList (quoted (protocolText release.protocol)),
    .pair "archive".toList (quoted release.archive.text),
    .pair "size".toList (.number release.size),
    .pair "digest".toList (quoted release.digest.toString),
    .pair "published".toList (.number release.published),
    .pair "notes".toList (quoted release.notes)]

/-- The lines of an entry. -/
def IndexEntry.rows (entry : IndexEntry) : List (Toml.Row Toml.Spelled) :=
  [.blank, .array "release".toList,
    .pair "app".toList (quoted entry.app.text),
    .pair "name".toList (quoted entry.name.text),
    .pair "version".toList (quoted entry.version.toString),
    .pair "descriptor".toList (quoted entry.descriptor.text)]

/-- The lines of an index. -/
def RawIndex.rows (index : RawIndex) : List (Toml.Row Toml.Spelled) :=
  [.comment " A Paperclip catalog index. Signed exactly as written;".toList,
    .comment " editing any byte of this file invalidates its signature.".toList,
    .table "catalog".toList,
    .pair "name".toList (quoted index.catalog),
    .pair "serial".toList (.number index.serial),
    .pair "generated".toList (.number index.generated)] ++
  index.entries.flatMap IndexEntry.rows

/-- A text of a line. -/
def line (row : Toml.Row Toml.Spelled) : String := String.ofList (row.render ++ ['\n'])

theorem line_comment (text : String) : line (.comment text.toList) = "#" ++ text ++ "\n" := by
  apply String.toList_injective
  simp [line, Toml.Row.render]

theorem line_table (name : String) : line (.table name.toList) = "[" ++ name ++ "]\n" := by
  apply String.toList_injective
  simp [line, Toml.Row.render]

theorem line_array (name : String) : line (.array name.toList) = "[[" ++ name ++ "]]\n" := by
  apply String.toList_injective
  simp [line, Toml.Row.render]

theorem line_quoted (key value : String) :
    line (.pair key.toList (quoted value)) = key ++ " = " ++ quote value ++ "\n" := by
  apply String.toList_injective
  simp [line, Toml.Row.render, toList_quote]

theorem line_number (key : String) (value : ℕ) :
    line (.pair key.toList (.number value)) = key ++ " = " ++ ToString.toString value ++ "\n" := by
  apply String.toList_injective
  simp [line, Toml.Row.render, Toml.Spelled.render, Nat.repr_eq_ofList_toDigits]

/-- The text of some lines. -/
def lines (rows : List (Toml.Row Toml.Spelled)) : String := String.ofList (Toml.renderRows rows)

theorem lines_nil : lines [] = "" := rfl

theorem lines_append (rows others : List (Toml.Row Toml.Spelled)) :
    lines (rows ++ others) = lines rows ++ lines others := by
  rw [lines, Toml.renderRows, List.flatMap_append, String.ofList_append]
  rfl

theorem lines_cons (row : Toml.Row Toml.Spelled) (rows : List (Toml.Row Toml.Spelled)) :
    lines (row :: rows) = line row ++ lines rows := by
  rw [lines, Toml.renderRows, List.flatMap_cons, String.ofList_append]
  rfl

theorem Release.toDocument_eq (release : Release) : release.toDocument = lines release.rows := by
  unfold toDocument rows
  rw [lines_cons, line_comment, lines_cons, line_comment, lines_cons, line_table]
  iterate 5 rw [lines_cons, line_quoted]
  rw [lines_cons, line_number, lines_cons, line_quoted, lines_cons, line_number, lines_cons,
    line_quoted, lines_nil]
  simp only [String.reduceAppend, ← String.append_assoc, String.append_empty]

theorem IndexEntry.toDocument_eq (entry : IndexEntry) : entry.toDocument = lines entry.rows := by
  have hblank : line .blank = "\n" := rfl
  unfold toDocument rows
  rw [lines_cons, hblank, lines_cons, line_array]
  iterate 4 rw [lines_cons, line_quoted]
  rw [lines_nil]
  simp only [String.reduceAppend, ← String.append_assoc, String.append_empty]

theorem RawIndex.toDocument_eq (index : RawIndex) : index.toDocument = lines index.rows := by
  have hentries : String.join (index.entries.map IndexEntry.toDocument) =
      lines (index.entries.flatMap IndexEntry.rows) := by
    induction index.entries with
    | nil => rfl
    | cons entry entries ih =>
      rw [List.map_cons, String.join_cons, ih, List.flatMap_cons, lines_append, entry.toDocument_eq]
  unfold toDocument rows
  rw [hentries, lines_append, lines_cons, line_comment, lines_cons, line_comment, lines_cons,
    line_table, lines_cons, line_quoted, lines_cons, line_number, lines_cons, line_number,
    lines_nil]
  simp only [String.reduceAppend, ← String.append_assoc, String.append_empty]

/-! ## What the lines say -/

section

variable {release : Release} {index : RawIndex}

theorem pair_fits {key : String} (h : Toml.IsName key.toList) (value : String) :
    (Toml.Row.pair key.toList (quoted value)).Fits :=
  ⟨h, quoted_fits value⟩

theorem Release.rows_fit (hsize : release.size < 2 ^ 63) (hpublished : release.published < 2 ^ 63) :
    ∀ row ∈ release.rows, row.Fits := by
  intro row hrow
  simp only [rows, List.mem_cons, List.not_mem_nil, or_false] at hrow
  rcases hrow with rfl | rfl | rfl | rfl | rfl | rfl | rfl | rfl | rfl | rfl | rfl | rfl
  · exact show List.all _ _ = true by decide
  · exact show List.all _ _ = true by decide
  · exact ⟨by decide, by decide⟩
  · exact pair_fits ⟨by decide, by decide⟩ _
  · exact pair_fits ⟨by decide, by decide⟩ _
  · exact pair_fits ⟨by decide, by decide⟩ _
  · exact pair_fits ⟨by decide, by decide⟩ _
  · exact pair_fits ⟨by decide, by decide⟩ _
  · exact ⟨⟨by decide, by decide⟩, Nat.le_pred_of_lt hsize⟩
  · exact pair_fits ⟨by decide, by decide⟩ _
  · exact ⟨⟨by decide, by decide⟩, Nat.le_pred_of_lt hpublished⟩
  · exact pair_fits ⟨by decide, by decide⟩ _

theorem IndexEntry.rows_fit (entry : IndexEntry) : ∀ row ∈ entry.rows, row.Fits := by
  intro row hrow
  simp only [rows, List.mem_cons, List.not_mem_nil, or_false] at hrow
  rcases hrow with rfl | rfl | rfl | rfl | rfl | rfl
  · trivial
  · exact ⟨by decide, by decide⟩
  · exact pair_fits ⟨by decide, by decide⟩ _
  · exact pair_fits ⟨by decide, by decide⟩ _
  · exact pair_fits ⟨by decide, by decide⟩ _
  · exact pair_fits ⟨by decide, by decide⟩ _

theorem RawIndex.rows_fit (hserial : index.serial < 2 ^ 63)
    (hgenerated : index.generated < 2 ^ 63) : ∀ row ∈ index.rows, row.Fits := by
  intro row hrow
  rcases List.mem_append.1 hrow with hrow | hrow
  · simp only [List.mem_cons, List.not_mem_nil, or_false] at hrow
    rcases hrow with rfl | rfl | rfl | rfl | rfl | rfl
    · exact show List.all _ _ = true by decide
    · exact show List.all _ _ = true by decide
    · exact ⟨by decide, by decide⟩
    · exact pair_fits ⟨by decide, by decide⟩ _
    · exact ⟨⟨by decide, by decide⟩, Nat.le_pred_of_lt hserial⟩
    · exact ⟨⟨by decide, by decide⟩, Nat.le_pred_of_lt hgenerated⟩
  · obtain ⟨entry, -, hrow⟩ := List.mem_flatMap.1 hrow
    exact entry.rows_fit row hrow

/-- The fields of a release, as they are written. -/
def Release.raw (release : Release) : RawDocument where
  app := release.app.text
  name := release.name.text
  version := release.version.toString
  protocol := protocolText release.protocol
  archive := release.archive.text
  size := release.size
  digest := release.digest.toString
  published := release.published
  notes := release.notes

/-- The fields of an entry, as they are written. -/
def IndexEntry.raw (entry : IndexEntry) : RawIndexEntry where
  app := entry.app.text
  name := entry.name.text
  version := entry.version.toString
  descriptor := entry.descriptor.text

theorem Release.ofSections_rows :
    RawDocument.ofSections (Toml.meaning release.rows) = some release.raw := by
  unfold RawDocument.ofSections rows raw
  simp [Toml.meaning, Toml.sections, Toml.Row.map, number_datum, quoted_datum, Toml.Keys.are,
    Toml.Keys.text, Toml.Keys.number, List.lookup_cons, RawDocument.notesOf]

/-- The table of an entry. -/
def IndexEntry.table (entry : IndexEntry) : Toml.Section where
  array := true
  name := "release".toList
  keys := [("app".toList, .text entry.app.text.toList),
    ("name".toList, .text entry.name.text.toList),
    ("version".toList, .text entry.version.toString.toList),
    ("descriptor".toList, .text entry.descriptor.text.toList)]

theorem IndexEntry.ofSection_table (entry : IndexEntry) :
    RawIndexEntry.ofSection entry.table = some entry.raw := by
  unfold RawIndexEntry.ofSection table raw
  simp [Toml.Keys.are, Toml.Keys.text, List.lookup_cons]

theorem sections_entries (entries : List IndexEntry) :
    Toml.sections ((entries.flatMap IndexEntry.rows).map (Toml.Row.map Toml.Spelled.datum)) =
      ([], entries.map IndexEntry.table) := by
  induction entries with
  | nil => rfl
  | cons entry entries ih =>
    rw [List.flatMap_cons, List.map_append]
    simp [IndexEntry.rows, Toml.Row.map, Toml.sections, quoted_datum, ih, IndexEntry.table]

theorem RawIndex.ofSections_rows : RawIndexDocument.ofSections (Toml.meaning index.rows) =
    some ⟨index.catalog, index.serial, index.generated, index.entries.map IndexEntry.raw⟩ := by
  have htables (entries : List IndexEntry) :
      (entries.map IndexEntry.table).filter (·.array) = entries.map IndexEntry.table ∧
        (entries.map IndexEntry.table).filter (!·.array) = [] ∧
        (entries.map IndexEntry.table).mapM RawIndexEntry.ofSection =
          some (entries.map IndexEntry.raw) := by
    induction entries with
    | nil => exact ⟨rfl, rfl, rfl⟩
    | cons entry entries ih =>
      obtain ⟨harray, hplain, hread⟩ := ih
      refine ⟨?_, ?_, ?_⟩
      · rw [List.map_cons, List.filter_cons_of_pos rfl, harray]
      · rw [List.map_cons, List.filter_cons_of_neg (by simp [IndexEntry.table]), hplain]
      · rw [List.map_cons, List.mapM_cons, entry.ofSection_table, hread]
        rfl
  obtain ⟨harray, hplain, hread⟩ := htables index.entries
  unfold RawIndexDocument.ofSections rows
  simp [Toml.meaning, Toml.sections, Toml.Row.map, number_datum, quoted_datum, Toml.Keys.are,
    Toml.Keys.text, Toml.Keys.number, List.lookup_cons, sections_entries, harray, hplain, hread]

end

/-! ## Names -/

namespace DisplayName

variable {name : DisplayName}

/-- A name that has been made. -/
def Made (name : DisplayName) : Prop := ∃ text, parse text = some name ∨ fromLossy text = name

/-- A name with no white space around it. -/
def Trimmed (name : DisplayName) : Prop := trim name.text.toList = name.text.toList

instance : Decidable name.Trimmed := inferInstanceAs (Decidable (_ = _))

theorem mem_trim {text : List Char} {c : Char} (h : c ∈ trim text) : c ∈ text := by
  have h := (List.dropWhile_suffix _).subset (List.mem_reverse.1 h)
  exact (List.dropWhile_suffix _).subset (List.mem_reverse.1 h)

theorem trim_trim (text : List Char) : trim (trim text) = trim text := by
  apply trim_eq
  · intro c hc
    -- What is left begins as it did before its end was trimmed.
    obtain ⟨rest, hrest⟩ := trim_isPrefix text
    have hhead : (text.dropWhile isWhitespace).head? = some c := by
      rw [← hrest, List.head?_append, hc]
      rfl
    have := List.head?_dropWhile_not isWhitespace text
    rw [hhead] at this
    simpa using this
  · intro c hc
    rw [trim, List.getLast?_reverse] at hc
    have := List.head?_dropWhile_not isWhitespace (text.dropWhile isWhitespace).reverse
    rw [hc] at this
    simpa using this

/-- A parsed name has no white space around it. -/
theorem trimmed_of_parse {text : String} (h : parse text = some name) : name.Trimmed := by
  unfold parse at h
  dsimp only at h
  split at h
  · cases h
    rw [Trimmed, String.toList_ofList, trim_trim]
  · cases h

/-- A name can be drawn: it is not blank, not too long, and has no control character. -/
theorem Made.drawable (h : name.Made) : name.text.toList ≠ [] ∧ name.text.toList.length ≤ MAX_LEN ∧
    ¬ name.text.toList.any isControl = true := by
  obtain ⟨text, h | h⟩ := h
  · unfold parse at h
    dsimp only at h
    split at h
    · next hdraw =>
      cases h
      rwa [String.toList_ofList]
    · cases h
  · unfold fromLossy at h
    dsimp only at h
    split at h
    · subst h
      decide
    · next hne =>
      subst h
      rw [String.toList_ofList]
      refine ⟨hne, List.length_take_le .., fun hany => ?_⟩
      obtain ⟨c, hc, hcontrol⟩ := List.any_eq_true.1 hany
      have hkept := List.of_mem_filter (mem_trim (List.mem_of_mem_take hc))
      rw [hcontrol] at hkept
      cases hkept

/-- A name is parsed from its own text just if there is no white space around it. -/
theorem Made.parse_iff (h : name.Made) : parse name.text = some name ↔ name.Trimmed := by
  constructor
  · exact trimmed_of_parse
  · intro htrimmed
    rw [parse, htrimmed]
    rw [if_pos h.drawable, String.ofList_toList]

end DisplayName

/-! ## What the types promise -/

/-- An id that has been parsed. -/
def AppId.Made (id : AppId) : Prop := ∃ text, AppId.parse text = some id

theorem AppId.Made.parse {id : AppId} (h : id.Made) : AppId.parse id.text = some id := by
  obtain ⟨text, h⟩ := h
  unfold AppId.parse at h
  dsimp only at h
  split at h
  · next hok =>
    cases h
    exact if_pos hok
  · cases h

theorem Digest.parse_toString (digest : Digest) : Digest.parse digest.toString = some digest := by
  have hstrip : stripPrefix "sha256:".toList digest.toString.toList =
      some (encodeHex digest.bytes.1) := by
    have htext : digest.toString.toList = "sha256:".toList ++ encodeHex digest.bytes.1 :=
      String.toList_append.trans (congrArg _ String.toList_ofList)
    rw [htext, stripPrefix, if_pos (List.isPrefixOf_iff_prefix.2 (List.prefix_append ..)),
      List.drop_left]
  rw [Digest.parse, hstrip]
  simp [decodeHex_encodeHex]

theorem parsePath_text (path : RelativePath) : parsePath path.text = some path := by
  rw [parsePath, RelativePath.parse_of_valid]
  rfl

/-- A manifest that has been parsed. -/
structure Manifest.Made (manifest : Manifest) : Prop where
  id : manifest.id.Made
  name : ∃ text, DisplayName.parse text = some ⟨manifest.name⟩
  protocol : manifest.protocol.major < 2 ^ 16 ∧ manifest.protocol.minor < 2 ^ 16

/-- An entry of parsed parts, whose name has been made. -/
structure IndexEntry.Made (entry : IndexEntry) : Prop where
  app : entry.app.Made
  name : entry.name.Made

/-! ## The length of a release -/

/-- How many bytes a character of a basic string takes. -/
def quotedCharSize (c : Char) : ℕ :=
  if c = '"' ∨ c = '\\' ∨ c = '\n' ∨ c = '\r' ∨ c = '\t' then 2
  else if c.toNat < 0x20 ∨ c = '\x7f' then 6
  else c.utf8Size

/-- How many bytes a basic string takes. -/
def quotedSize (value : String) : ℕ := 2 + (value.toList.map quotedCharSize).sum

/-- How many bytes a number takes. -/
def numberSize (value : ℕ) : ℕ := (Nat.toDigits 10 value).length

/-- How long the document of a release is: what every release has, and its fields. -/
def Release.width (release : Release) : ℕ :=
  219 + quotedSize release.app.text + quotedSize release.name.text +
    quotedSize release.version.toString + quotedSize (protocolText release.protocol) +
    quotedSize release.archive.text + numberSize release.size +
    quotedSize release.digest.toString + numberSize release.published + quotedSize release.notes

theorem Release.notes_le_width (release : Release) : quotedSize release.notes ≤ release.width :=
  Nat.le_add_left ..

theorem sum_quoteChar (c : Char) : ((quoteChar c).map Char.utf8Size).sum = quotedCharSize c := by
  unfold quotedCharSize
  by_cases hshort : c = '"' ∨ c = '\\' ∨ c = '\n' ∨ c = '\r' ∨ c = '\t'
  · rw [if_pos hshort]
    rcases hshort with rfl | rfl | rfl | rfl | rfl <;> rfl
  rw [if_neg hshort]
  simp only [not_or] at hshort
  obtain ⟨hq, hb, hn, hr, ht⟩ := hshort
  unfold quoteChar
  rw [if_neg hq, if_neg hb, if_neg hn, if_neg hr, if_neg ht]
  split
  · next hcode =>
    have hsmall : c.toNat < 0x80 := by
      rcases hcode with hcode | rfl
      · exact Nat.lt_trans hcode (by decide)
      · decide
    have hdigit : ∀ n < 16, (Toml.hexDigit n).utf8Size = 1 := by decide
    simp only [Toml.codeDigits, List.map_cons, List.map_nil, List.sum_cons, List.sum_nil]
    rw [hdigit _ (by omega), hdigit _ (by omega), hdigit _ (by omega), hdigit _ (by omega)]
    rfl
  · exact Nat.add_zero _

theorem utf8ByteSize_quote (value : String) : (quote value).utf8ByteSize = quotedSize value := by
  have hbody : (String.ofList (value.toList.flatMap quoteChar)).utf8ByteSize =
      (value.toList.map quotedCharSize).sum := by
    rw [utf8ByteSize_ofList]
    induction value.toList with
    | nil => rfl
    | cons c text ih =>
      rw [List.flatMap_cons, List.map_append, List.sum_append, ih, sum_quoteChar, List.map_cons,
        List.sum_cons]
  rw [quote, String.utf8ByteSize_append, String.utf8ByteSize_append, hbody, quotedSize]
  change 1 + _ + 1 = _
  omega

theorem utf8ByteSize_number (value : ℕ) :
    (ToString.toString value).utf8ByteSize = numberSize value := by
  have hdigit : ∀ c ∈ Nat.toDigits 10 value, c.utf8Size = 1 := fun c hc => by
    have hrange : 48 ≤ c.toNat ∧ c.toNat ≤ 57 := Char.isDigit_iff_toNat.1 (mem_toDigits hc)
    have hval : c.val ≤ 127 := UInt32.le_iff_toNat_le.2 (Nat.le_trans hrange.2 (by decide))
    exact if_pos hval
  change (Nat.repr value).utf8ByteSize = _
  rw [Nat.repr_eq_ofList_toDigits, utf8ByteSize_ofList, List.map_congr_left hdigit, List.map_const',
    List.sum_replicate_nat, Nat.mul_one, numberSize]

theorem Release.utf8ByteSize_toDocument (release : Release) :
    release.toDocument.utf8ByteSize = release.width := by
  unfold toDocument width
  simp only [String.utf8ByteSize_append, utf8ByteSize_quote, utf8ByteSize_number]
  change 61 + 59 + 10 + 6 + _ + 1 + 7 + _ + 1 + 10 + _ + 1 + 11 + _ + 1 + 10 + _ + 1 + 7 + _ + 1 +
    9 + _ + 1 + 12 + _ + 1 + 8 + _ + 1 = _
  omega

theorem IndexEntry.utf8ByteSize_toDocument (entry : IndexEntry) :
    entry.toDocument.utf8ByteSize = 53 + quotedSize entry.app.text + quotedSize entry.name.text +
      quotedSize entry.version.toString + quotedSize entry.descriptor.text := by
  unfold toDocument
  simp only [String.utf8ByteSize_append, utf8ByteSize_quote]
  change 13 + 6 + _ + 1 + 7 + _ + 1 + 10 + _ + 1 + 13 + _ + 1 = _
  omega

/-- How long the document of an index is. -/
theorem RawIndex.utf8ByteSize_toDocument (index : RawIndex) :
    index.toDocument.utf8ByteSize = 156 + quotedSize index.catalog + numberSize index.serial +
      numberSize index.generated +
      (String.join (index.entries.map IndexEntry.toDocument)).utf8ByteSize := by
  unfold toDocument
  simp only [String.utf8ByteSize_append, utf8ByteSize_quote, utf8ByteSize_number]
  change 56 + 59 + 10 + 7 + _ + 1 + 9 + _ + 1 + 12 + _ + 1 + _ = _
  omega

theorem length_encodeUtf8 (text : String) : (encodeUtf8 text).length = text.utf8ByteSize := rfl

/-! ## What is written is read -/

section

variable {K : Type} (crates : Crates K)

/-- A release can be read from its document. -/
structure Release.RoundTrips (release : Release) : Prop where
  fits : (encodeUtf8 release.toDocument).length ≤ MAX_RELEASE_BYTES
  reads : readDescriptor crates (encodeUtf8 release.toDocument) = .ok release
  parses : ∀ (keys : TrustedKeys K) (verified : Verified crates keys), verified.domain = .release →
    verified.bytes = encodeUtf8 release.toDocument →
    parseRelease verified = .ok ⟨release, verified.signer⟩

/-- An index can be read from its document. -/
structure CatalogIndex.RoundTrips (index : CatalogIndex) : Prop where
  fits : (encodeUtf8 index.toDocument).length ≤ MAX_INDEX_BYTES
  reads : readIndex crates (encodeUtf8 index.toDocument) = .ok index
  parses : ∀ (keys : TrustedKeys K) (verified : Verified crates keys), verified.domain = .catalog →
    verified.bytes = encodeUtf8 index.toDocument →
    parseIndex verified = .ok ⟨index, verified.signer⟩

variable {crates}

theorem documentText_encodeUtf8 {text : String} {max : ℕ} (h : text.utf8ByteSize ≤ max) :
    documentText (encodeUtf8 text) max = .ok text := by
  rw [documentText, length_encodeUtf8, if_neg (Nat.not_lt.2 h), decodeUtf8_encodeUtf8]

theorem field_some {α : Type} {name value : String} {a : α} :
    field name value (some a) = .ok a := rfl

/-- A release that is not too long is read from its document. -/
theorem Release.reads (htoml : Toml.Reads crates.releaseToml RawDocument.ofSections)
    {release : Release} (hnotes : release.notes.utf8ByteSize ≤ MAX_NOTES_BYTES)
    (happ : release.app.Made) (hname : release.name.Made) (htrimmed : release.name.Trimmed)
    (hversion : crates.version release.version.toString = some release.version)
    (hprotocol : release.protocol.major < 2 ^ 16 ∧ release.protocol.minor < 2 ^ 16)
    (hsize : release.size < 2 ^ 63) (hpublished : release.published < 2 ^ 63)
    (hwidth : release.width ≤ MAX_RELEASE_BYTES) :
    readDescriptor crates (encodeUtf8 release.toDocument) = .ok release := by
  have htext := documentText_encodeUtf8 (release.utf8ByteSize_toDocument.trans_le hwidth)
  have hread := htoml.reads _ _ (release.rows_fit hsize hpublished) release.ofSections_rows
  rw [← lines, ← release.toDocument_eq] at hread
  have hpath := parsePath_text release.archive
  have hdigest := Digest.parse_toString release.digest
  unfold readDescriptor
  rw [htext]
  change (crates.releaseToml release.toDocument).mapError _ >>= _ = _
  rw [hread]
  change (if _ then _ else _) = _
  rw [if_neg (show ¬ MAX_NOTES_BYTES < release.raw.notes.utf8ByteSize from Nat.not_lt.2 hnotes)]
  simp only [raw, happ.parse, hname.parse_iff.2 htrimmed, hversion, parseProtocol_text hprotocol,
    hpath, hdigest, field_some]
  rfl

theorem Release.new_ok {manifest : Manifest} {archive : RelativePath} {size : ℕ} {digest : Digest}
    {published : ℕ} {notes : String} {release : Release}
    (h : Release.new manifest archive size digest published notes = .ok release) :
    notes.utf8ByteSize ≤ MAX_NOTES_BYTES ∧ release =
      ⟨manifest.id, ⟨manifest.name⟩, manifest.version, manifest.protocol, archive, size, digest,
        published, notes⟩ := by
  unfold Release.new at h
  split at h
  · cases h
  · next hnotes =>
    cases h
    exact ⟨Nat.le_of_not_lt hnotes, rfl⟩

/-- An entry is read from its fields just if its name has no white space around it. -/
theorem IndexEntry.Made.read_iff {entry : IndexEntry} (h : entry.Made)
    (hversion : crates.version entry.version.toString = some entry.version) :
    readEntry crates entry.raw = .ok entry ↔ entry.name.Trimmed := by
  have hpath := parsePath_text entry.descriptor
  rw [← h.name.parse_iff]
  unfold readEntry
  simp only [raw, h.app.parse, hversion, hpath, field_some]
  cases hname : DisplayName.parse entry.name.text with
  | none => exact ⟨fun h => (by cases h), fun h => (by cases h)⟩
  | some name =>
    change Except.ok (IndexEntry.mk entry.app name entry.version entry.descriptor) = .ok entry ↔ _
    constructor
    · intro heq
      rw [← Except.ok.inj heq]
    · intro heq
      rw [Option.some.inj heq]

/-- A list is read from what is written of it just if each of its elements is. -/
theorem mapM_map_iff {α β ε : Type} {read : β → Except ε α} {write : α → β} {xs : List α} :
    (xs.map write).mapM read = .ok xs ↔ ∀ x ∈ xs, read (write x) = .ok x := by
  induction xs with
  | nil => exact ⟨fun _ _ hx => (by cases hx), fun _ => rfl⟩
  | cons x xs ih =>
    rw [List.map_cons, List.mapM_cons, List.forall_mem_cons, ← ih]
    cases read (write x) with
    | error e => exact ⟨fun h => (by cases h), fun h => (by cases h.1)⟩
    | ok y =>
      cases (xs.map write).mapM read with
      | error e => exact ⟨fun h => (by cases h), fun h => (by cases h.2)⟩
      | ok ys =>
        change Except.ok (y :: ys) = .ok (x :: xs) ↔ _
        simp only [Except.ok.injEq, List.cons.injEq]

theorem CatalogIndex.toRawIndex_of {raw : RawIndex} {index : CatalogIndex}
    (h : CatalogIndex.of raw = .ok index) : index.toRawIndex = raw := by
  unfold CatalogIndex.of at h
  split at h
  · cases h
    rfl
  · cases h

theorem CatalogIndex.of_ok (index : CatalogIndex) :
    CatalogIndex.of index.toRawIndex = .ok index := by
  unfold CatalogIndex.of
  split
  · rfl
  · next h =>
    rw [index.checked] at h
    cases h

/-- An index that is not too long is read from its document just if no name in it has white space
around it. -/
theorem CatalogIndex.reads_iff (htoml : Toml.Reads crates.indexToml RawIndexDocument.ofSections)
    {index : CatalogIndex} (hmade : ∀ entry ∈ index.entries, entry.Made)
    (hversions : ∀ entry ∈ index.entries,
      crates.version entry.version.toString = some entry.version)
    (hserial : index.serial < 2 ^ 63) (hgenerated : index.generated < 2 ^ 63)
    (hlen : index.toDocument.utf8ByteSize ≤ MAX_INDEX_BYTES) :
    readIndex crates (encodeUtf8 index.toDocument) = .ok index ↔
      ∀ entry ∈ index.entries, entry.name.Trimmed := by
  have hread := htoml.reads _ _ (index.rows_fit hserial hgenerated) index.toRawIndex.ofSections_rows
  rw [← lines, ← index.toRawIndex.toDocument_eq] at hread
  have hentries : (index.entries.map IndexEntry.raw).mapM (readEntry crates) = .ok index.entries ↔
      ∀ entry ∈ index.entries, entry.name.Trimmed :=
    mapM_map_iff.trans
      (forall₂_congr fun entry hentry => (hmade entry hentry).read_iff (hversions entry hentry))
  rw [← hentries]
  unfold readIndex
  rw [documentText_encodeUtf8 hlen]
  change (crates.indexToml index.toDocument).mapError _ >>= _ = _ ↔ _
  rw [hread]
  change (index.entries.map IndexEntry.raw).mapM (readEntry crates) >>= _ = _ ↔ _
  cases (index.entries.map IndexEntry.raw).mapM (readEntry crates) with
  | error e => exact ⟨fun h => (by cases h), fun h => (by cases h)⟩
  | ok entries =>
    change CatalogIndex.of ⟨index.catalog, index.serial, index.generated, entries⟩ = _ ↔ _
    constructor
    · intro hof
      exact congrArg (Except.ok ∘ RawIndex.entries) (CatalogIndex.toRawIndex_of hof).symm
    · intro heq
      rw [Except.ok.inj heq]
      exact index.of_ok

theorem Release.roundTrips_iff {release : Release} : release.RoundTrips crates ↔
    release.width ≤ MAX_RELEASE_BYTES ∧
      readDescriptor crates (encodeUtf8 release.toDocument) = .ok release := by
  rw [← release.utf8ByteSize_toDocument]
  refine ⟨fun h => ⟨h.fits, h.reads⟩, fun h => ⟨h.1, h.2, fun keys verified hdomain hbytes => ?_⟩⟩
  rw [parseRelease, if_neg (not_not.2 hdomain), hbytes, h.2]
  rfl

theorem CatalogIndex.roundTrips_iff {index : CatalogIndex}
    (hlen : index.toDocument.utf8ByteSize ≤ MAX_INDEX_BYTES) : index.RoundTrips crates ↔
      readIndex crates (encodeUtf8 index.toDocument) = .ok index := by
  refine ⟨fun h => h.reads, fun h => ⟨hlen, h, fun keys verified hdomain hbytes => ?_⟩⟩
  rw [parseIndex, if_neg (not_not.2 hdomain), hbytes, h]
  rfl

/-- A release that is made from a manifest is read back just if its document is not too long. An
index is just if no name in it has white space around it. -/
theorem signed_documents_round_trip_iff (crates : Crates K)
    (hrelease : Toml.Reads crates.releaseToml RawDocument.ofSections)
    (hindex : Toml.Reads crates.indexToml RawIndexDocument.ofSections) :
    (∀ (manifest : Manifest) (archive : RelativePath) (size : ℕ) (digest : Digest) (published : ℕ)
      (notes : String) (release : Release), manifest.Made →
      crates.version manifest.version.toString = some manifest.version →
      size < 2 ^ 63 → published < 2 ^ 63 →
      Release.new manifest archive size digest published notes = .ok release →
      (release.RoundTrips crates ↔ release.width ≤ MAX_RELEASE_BYTES)) ∧
    ∀ (catalog : String) (serial generated : ℕ) (entries : List IndexEntry) (index : CatalogIndex),
      (∀ entry ∈ entries, entry.Made ∧
        crates.version entry.version.toString = some entry.version) →
      serial < 2 ^ 63 → generated < 2 ^ 63 →
      CatalogIndex.new catalog serial generated entries = .ok index →
      index.toDocument.utf8ByteSize ≤ MAX_INDEX_BYTES →
      (index.RoundTrips crates ↔ ∀ entry ∈ entries, entry.name.Trimmed) := by
  constructor
  · intro manifest archive size digest published notes release hmade hversion hsize hpublished hnew
    obtain ⟨hnotes, rfl⟩ := Release.new_ok hnew
    obtain ⟨text, hname⟩ := hmade.name
    rw [Release.roundTrips_iff]
    refine ⟨fun h => h.1, fun hwidth => ⟨hwidth, ?_⟩⟩
    exact Release.reads hrelease hnotes hmade.id ⟨text, .inl hname⟩
      (DisplayName.trimmed_of_parse hname) hversion hmade.protocol hsize hpublished hwidth
  · intro catalog serial generated entries index hentries hserial hgenerated hnew hlen
    obtain ⟨raw, hchecked⟩ := index
    obtain rfl : raw = _ := CatalogIndex.toRawIndex_of hnew
    rw [CatalogIndex.roundTrips_iff hlen]
    exact CatalogIndex.reads_iff hindex (fun entry hentry => (hentries entry hentry).1)
      (fun entry hentry => (hentries entry hentry).2) hserial hgenerated hlen

end

/-! ## Samples -/

namespace Sample

/-- Crates that know one version, and trust no signature. -/
def publisher : Crates Unit where
  verifyStrict _ _ _ := false
  sha256 _ := ⟨List.replicate 32 0, rfl⟩
  indexToml := Toml.fromStr "invalid TOML" RawIndexDocument.ofSections
  releaseToml := Toml.fromStr "invalid TOML" RawDocument.ofSections
  version text := if text = "1.0.0" then some (.new 1 0 0) else none

/-- The file of a program. -/
def program : RelativePath := ⟨"bin/chess", by decide +kernel⟩

def chess : Manifest where
  id := ⟨"dev.paperclip.chess"⟩
  name := "Chess"
  version := .new 1 0 0
  protocol := ⟨1, 0⟩
  entrypoint := program
  assets := []

theorem chess_made : chess.Made where
  id := ⟨"dev.paperclip.chess", by decide +kernel⟩
  name := ⟨" Chess ", by decide +kernel⟩
  protocol := ⟨by decide, by decide⟩

theorem publisher_version :
    publisher.version chess.version.toString = some chess.version := by
  decide

def digest : Digest := ⟨publisher.sha256 []⟩

/-- A release with these notes. -/
def release (notes : String) : Release :=
  ⟨chess.id, ⟨chess.name⟩, chess.version, chess.protocol, program, 1024, digest, 1700000000, notes⟩

theorem new_release {notes : String} (h : notes.utf8ByteSize ≤ MAX_NOTES_BYTES) :
    Release.new chess program 1024 digest 1700000000 notes = .ok (release notes) :=
  if_neg (Nat.not_lt.2 h)

/-- An entry with this name. -/
def entry (name : DisplayName) : IndexEntry := ⟨chess.id, name, chess.version, program⟩

/-- An index of one entry. -/
def offering (name : DisplayName) : CatalogIndex :=
  ⟨⟨"stable", 1, 1, [entry name]⟩, rfl⟩

theorem entry_made {name : DisplayName} (h : name.Made) : ∀ e ∈ [entry name], e.Made ∧
    publisher.version e.version.toString = some e.version := by
  intro e he
  obtain rfl := List.mem_singleton.1 he
  exact ⟨⟨chess_made.id, h⟩, publisher_version⟩

theorem index_fits {name : DisplayName} (h : quotedSize name.text ≤ 1000) :
    (offering name).toDocument.utf8ByteSize ≤ MAX_INDEX_BYTES := by
  have happ : quotedSize chess.id.text = 21 := by decide
  have hversion : quotedSize chess.version.toString = 7 := by decide
  have hpath : quotedSize program.text = 11 := by decide
  have hcatalog : quotedSize "stable" = 8 := by decide
  have hserial : numberSize 1 = 1 := by decide
  rw [RawIndex.utf8ByteSize_toDocument]
  simp only [offering, List.map_cons, List.map_nil, String.join_cons, String.join_nil,
    String.append_empty, IndexEntry.utf8ByteSize_toDocument, entry]
  rw [happ, hversion, hpath, hcatalog, hserial]
  have hmax : 1270 ≤ MAX_INDEX_BYTES := by decide
  omega

/-- Notes that are as long as they may be, of one control character. -/
def notes : String := String.ofList (List.replicate MAX_NOTES_BYTES '\x01')

theorem size_notes : notes.utf8ByteSize = MAX_NOTES_BYTES := by
  rw [notes, utf8ByteSize_ofList, List.map_replicate, List.sum_replicate_nat]
  rfl

theorem quotedSize_notes : quotedSize notes = 2 + MAX_NOTES_BYTES * 6 := by
  rw [notes, quotedSize, String.toList_ofList, List.map_replicate, List.sum_replicate_nat]
  rfl

/-- A name that is cut after a blank. -/
def cut : DisplayName := .fromLossy (String.ofList (List.replicate 47 'a' ++ [' ', 'b']))

end Sample

/-- A release with short notes and an index with a parsed name are read back. -/
theorem signed_documents_round_trip_sample :
    (Sample.release "First release.\n").RoundTrips Sample.publisher ∧
      (Sample.offering ⟨"Chess"⟩).RoundTrips Sample.publisher := by
  have h := signed_documents_round_trip_iff Sample.publisher (Toml.reads_own _ _)
    (Toml.reads_own _ _)
  constructor
  · refine (h.1 Sample.chess Sample.program 1024 Sample.digest 1700000000 _ _ Sample.chess_made
      Sample.publisher_version (by decide) (by decide)
      (Sample.new_release (by decide))).2 ?_
    decide
  · refine (h.2 "stable" 1 1 [Sample.entry ⟨"Chess"⟩] _
      (Sample.entry_made ⟨"Chess", .inl (by decide +kernel)⟩) (by decide) (by decide) rfl
      (Sample.index_fits (by decide))).2 ?_
    intro entry hentry
    obtain rfl := List.mem_singleton.1 hentry
    decide

/-- Notes within their bound make a document that is refused, since their escapes are longer. A name
that is cut after a blank is read as another. -/
theorem signed_documents_refused :
    (∃ release, Release.new Sample.chess Sample.program 1024 Sample.digest 1700000000 Sample.notes =
        .ok release ∧ ¬ release.RoundTrips Sample.publisher) ∧
      ∃ index, CatalogIndex.new "stable" 1 1 [Sample.entry Sample.cut] = .ok index ∧
        index.toDocument.utf8ByteSize ≤ MAX_INDEX_BYTES ∧ ¬ index.RoundTrips Sample.publisher := by
  constructor
  · refine ⟨_, Sample.new_release Sample.size_notes.le, fun h => ?_⟩
    have hwidth := (Release.roundTrips_iff.1 h).1
    have hnotes := (Sample.release Sample.notes).notes_le_width
    have hlong : MAX_RELEASE_BYTES < quotedSize Sample.notes := by
      rw [Sample.quotedSize_notes]
      decide
    exact absurd (hnotes.trans hwidth) (Nat.not_le.2 hlong)
  · have hfits : (Sample.offering Sample.cut).toDocument.utf8ByteSize ≤ MAX_INDEX_BYTES :=
      Sample.index_fits (by decide +kernel)
    refine ⟨Sample.offering Sample.cut, rfl, hfits, fun h => ?_⟩
    have hcut : Sample.cut.Made := ⟨_, .inr rfl⟩
    have hmade := Sample.entry_made hcut
    have htrimmed := (CatalogIndex.reads_iff (Toml.reads_own _ _)
      (fun entry hentry => (hmade entry hentry).1) (fun entry hentry => (hmade entry hentry).2)
      (by decide) (by decide) hfits).1 h.reads _ List.mem_cons_self
    exact absurd htrimmed (by decide +kernel)

end Paperclip.Packages
