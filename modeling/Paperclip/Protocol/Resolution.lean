import Paperclip.Protocol

/-!
# Where a package path resolves to

* `IsRelative`: the grammar of a package path, in its own terms.
* `PathBuf`: a path of the file system, which is bytes. `PathBuf.push`: what joins a name to it.
* `PathBuf.components`: what the path is read as. Paths with the same components are the same.
* `RelativePath.resolveWithin`: a package path below a directory.
* `relative_path_grammar`: what is accepted is the grammar, and it names one place below a directory.
-/

namespace Paperclip.Protocol

/-! ## The grammar -/

/-- Whether a text can stand between slashes. -/
structure IsName (name : String) : Prop where
  nonempty : name ≠ ""
  current : name ≠ "."
  parent : name ≠ ".."
  chars : ∀ c ∈ name.toList, c ≠ '/' ∧ c ≠ '\\' ∧ c ≠ '\x00'

/-- Whether a name is one that a shell would expand, or that begins with a drive. -/
def IsElsewhere (name : String) : Prop :=
  ∃ c rest, name.toList = c :: rest ∧ (c = '~' ∨ c.utf8Size = 1 ∧ rest.head? = some ':')

/-- Whether a text is a sequence of names between slashes, and not too long. -/
def IsRelative (text : String) : Prop :=
  ∃ first rest, text = "/".intercalate (first :: rest) ∧ (∀ name ∈ first :: rest, IsName name) ∧
    ¬ IsElsewhere first ∧ text.utf8ByteSize ≤ RelativePath.MAX_LEN

/-! ## Paths of the file system -/

/-- A path of the file system, as its bytes. -/
abbrev PathBuf := List UInt8

/-- The byte of a slash. -/
def SEP : UInt8 := 0x2f

/-- The byte of a dot. -/
def DOT : UInt8 := 0x2e

/-- The bytes of a text. -/
def bytesOf (text : String) : List UInt8 := text.toList.flatMap String.utf8EncodeChar

/-- What a path is read as. -/
inductive PathComponent where
  | rootDir
  | curDir
  | parentDir
  | normal (name : List UInt8)
  deriving DecidableEq, Repr

namespace PathBuf

def isAbsolute (path : PathBuf) : Bool := path.head? == some SEP

/-- Joins a path to another, with a slash where there is none. A path from the root replaces it. -/
def push (self path : PathBuf) : PathBuf :=
  let needSep := self.getLast?.any (· != SEP)
  if isAbsolute path then path
  else if needSep then self ++ SEP :: path
  else self ++ path

/-- What one part between slashes is read as. -/
def component (part : List UInt8) : Option PathComponent :=
  if part = [] ∨ part = [DOT] then none
  else if part = [DOT, DOT] then some .parentDir
  else some (.normal part)

/-- Where a path starts. -/
def start (path : PathBuf) : List PathComponent :=
  if isAbsolute path then [.rootDir]
  else if (path.splitOn SEP).head? = some [DOT] then [.curDir]
  else []

/-- The components of a path. -/
def components (path : PathBuf) : List PathComponent :=
  start path ++ (path.splitOn SEP).filterMap component

/-- Whether a path leads from a directory down to some name in it. -/
def IsInside (path root : PathBuf) : Prop :=
  ∃ names, names ≠ [] ∧ components path = components root ++ names.map .normal

end PathBuf

/-- The path below a directory. -/
def RelativePath.resolveWithin (path : RelativePath) (root : PathBuf) : PathBuf :=
  path.components.foldl (fun resolved component => resolved.push (bytesOf component)) root

/-! ## What is accepted -/

section Grammar

variable {text first : String} {rest names : List String} {c : Char}

/-- What is between slashes is in the text. -/
theorem mem_intercalate {sep : Char} {parts : List (List Char)}
    (h : c ∈ [sep].intercalate parts) : c = sep ∨ ∃ part ∈ parts, c ∈ part := by
  induction parts with
  | nil => cases h
  | cons part parts ih =>
    cases parts with
    | nil => exact .inr ⟨part, List.mem_cons_self, by simpa using h⟩
    | cons next parts =>
      rw [List.intercalate_cons_of_ne_nil (by simp), List.mem_append, List.mem_append,
        List.mem_singleton] at h
      rcases h with (h | h) | h
      · exact .inr ⟨part, List.mem_cons_self, h⟩
      · exact .inl h
      · rcases ih h with h | ⟨part', hm, h⟩
        · exact .inl h
        · exact .inr ⟨part', List.mem_cons_of_mem _ hm, h⟩

theorem mem_intercalate_of_mem {sep : Char} {part : List Char} {parts : List (List Char)}
    (hm : part ∈ parts) (h : c ∈ part) : c ∈ [sep].intercalate parts := by
  induction parts with
  | nil => cases hm
  | cons first parts ih =>
    cases parts with
    | nil =>
      obtain rfl := List.mem_singleton.mp hm
      simpa using h
    | cons next parts =>
      rw [List.intercalate_cons_of_ne_nil (by simp)]
      rcases List.mem_cons.mp hm with rfl | hm
      · exact List.mem_append_left _ (List.mem_append_left _ h)
      · exact List.mem_append_right _ (ih hm)

theorem text_eq_intercalate : text = "/".intercalate (components text) := by
  rw [← String.toList_inj, String.toList_intercalate, components, List.map_map]
  have hid : String.toList ∘ String.ofList = id := funext fun _ => String.toList_ofList
  rw [hid, List.map_id]
  exact (List.intercalate_splitOn '/').symm

theorem mem_text_of_mem {name : String} (hm : name ∈ components text) (h : c ∈ name.toList) :
    c ∈ text.toList := by
  obtain ⟨part, hpart, rfl⟩ := List.mem_map.mp hm
  rw [String.toList_ofList] at h
  have htext : ['/'].intercalate (text.toList.splitOn '/') = text.toList :=
    List.intercalate_splitOn '/'
  rw [← htext]
  exact mem_intercalate_of_mem hpart h

theorem components_intercalate (hnames : ∀ name ∈ names, IsName name) (hne : names ≠ []) :
    components ("/".intercalate names) = names := by
  have hsep : ∀ part ∈ names.map String.toList, '/' ∉ part := by
    intro part hpart
    obtain ⟨name, hname, rfl⟩ := List.mem_map.mp hpart
    exact fun hm => ((hnames name hname).chars '/' hm).1 rfl
  have hsplit := List.splitOn_intercalate '/' hsep (by simpa using hne)
  rw [components, String.toList_intercalate, show "/".toList = ['/'] from rfl, hsplit, List.map_map]
  have hid : String.ofList ∘ String.toList = id := funext fun _ => String.ofList_toList
  rw [hid, List.map_id]

theorem checkComponents_eq_ok (h : ∀ name ∈ names, IsName name) :
    RelativePath.checkComponents names = .ok () := by
  induction names with
  | nil => rfl
  | cons name names ih =>
    obtain ⟨hname, hnames⟩ := List.forall_mem_cons.mp h
    rw [RelativePath.checkComponents, if_neg (not_or.mpr ⟨hname.nonempty, hname.current⟩),
      if_neg hname.parent]
    exact ih hnames

/-- A name comes first in a text that it begins. -/
theorem exists_tail (first : String) (rest : List String) : ∃ tail,
    ("/".intercalate (first :: rest)).toList = first.toList ++ tail ∧ tail.head? ≠ some ':' := by
  cases rest with
  | nil => exact ⟨[], by simp, by simp⟩
  | cons next rest =>
    refine ⟨'/' :: ("/".intercalate (next :: rest)).toList, ?_, by simp⟩
    rw [String.intercalate_cons_of_ne_nil (by simp), String.toList_append, String.toList_append]
    simp

/-- A text has a drive exactly if its first name has. -/
theorem elsewhere_of_text (h : RelativePath.hasDrive text ∨ startsWith text "~")
    (htext : text = "/".intercalate (first :: rest)) (hfirst : first ≠ "") : IsElsewhere first := by
  obtain ⟨tail, htail, hcolon⟩ := exists_tail first rest
  rw [← htext] at htail
  cases hchars : first.toList with
  | nil => exact absurd (String.toList_eq_nil_iff.mp hchars) hfirst
  | cons c cs =>
    rw [hchars, List.cons_append] at htail
    refine ⟨c, cs, hchars, ?_⟩
    rcases h with h | h
    · right
      rw [RelativePath.hasDrive, htail] at h
      cases cs with
      | nil =>
        cases tail with
        | nil => cases h
        | cons d tail =>
          have hd : d ≠ ':' := by simpa using hcolon
          simp [hd] at h
      | cons d cs =>
        by_cases hd : d = ':'
        · subst hd
          simpa using h
        · simp [hd] at h
    · left
      have htilde : ('~' == c && true) = true := by
        rw [startsWith, htail] at h
        exact h
      rw [Bool.and_true, beq_iff_eq] at htilde
      exact htilde.symm

theorem text_of_elsewhere (h : IsElsewhere first) (htext : text = "/".intercalate (first :: rest)) :
    RelativePath.hasDrive text ∨ startsWith text "~" := by
  obtain ⟨c, cs, hchars, h⟩ := h
  obtain ⟨tail, htail, -⟩ := exists_tail first rest
  rw [← htext, hchars] at htail
  rcases h with rfl | ⟨hsize, hcolon⟩
  · right
    rw [startsWith, htail]
    rfl
  · left
    cases cs with
    | nil => cases hcolon
    | cons d cs =>
      obtain rfl := Option.some.inj hcolon
      rw [RelativePath.hasDrive, htail]
      simpa using hsize

/-- What a check of a text comes to. -/
theorem check_eq_ok_iff : RelativePath.check text = .ok () ↔
    text ≠ "" ∧ text.utf8ByteSize ≤ RelativePath.MAX_LEN ∧ '\x00' ∉ text.toList ∧
      '\\' ∉ text.toList ∧ RelativePath.hasDrive text = false ∧ startsWith text "/" = false ∧
        startsWith text "~" = false ∧ RelativePath.checkComponents (components text) = .ok () := by
  unfold RelativePath.check
  split
  · next h => simp [h]
  next hempty =>
  split
  · next h => simp [Nat.not_le_of_lt h]
  next hlen =>
  split
  · next h => simp [List.contains_iff_mem.mp h]
  next hnul =>
  split
  · next h =>
    rcases (Bool.or_eq_true _ _).mp h with h | h
    · simp [List.contains_iff_mem.mp h]
    · simp [h]
  next hposix =>
  rw [Bool.or_eq_true, not_or] at hposix
  split
  · next h => simp [h]
  next habsolute =>
  split
  · next h => simp [h]
  next hhome =>
  simp only [Bool.not_eq_true] at hposix habsolute hhome hnul
  have hback : '\\' ∉ text.toList := by simpa using hposix.1
  have hzero : '\x00' ∉ text.toList := by simpa using hnul
  simp [hempty, Nat.le_of_not_lt hlen, hback, hzero, hposix.2, habsolute, hhome]

/-- A text is accepted exactly if it is in the grammar. -/
theorem check_iff_isRelative : RelativePath.check text = .ok () ↔ IsRelative text := by
  constructor
  · intro h
    have hnames := RelativePath.mem_components ⟨text, h⟩
    have hslash : ∀ name ∈ components text, '/' ∉ name.toList := fun name hname =>
      RelativePath.not_mem_of_mem_components ⟨text, h⟩ hname
    obtain ⟨-, hlen, hnul, hback, hdrive, -, hhome, -⟩ := check_eq_ok_iff.mp h
    have hname : ∀ name ∈ components text, IsName name := by
      intro name hm
      obtain ⟨hempty, hdot, hdots⟩ := hnames name hm
      refine ⟨hempty, hdot, hdots, fun c hc => ⟨?_, ?_, ?_⟩⟩
      · rintro rfl
        exact hslash name hm hc
      · rintro rfl
        exact hback (mem_text_of_mem hm hc)
      · rintro rfl
        exact hnul (mem_text_of_mem hm hc)
    cases hcs : components text with
    | nil => exact absurd hcs (RelativePath.components_ne_nil ⟨text, h⟩)
    | cons first rest =>
      rw [hcs] at hname
      have htext : text = "/".intercalate (first :: rest) := by
        rw [← hcs]
        exact text_eq_intercalate
      refine ⟨first, rest, htext, hname, fun hfirst => ?_, hlen⟩
      rcases text_of_elsewhere hfirst htext with h | h
      · rw [hdrive] at h
        cases h
      · rw [hhome] at h
        cases h
  · rintro ⟨first, rest, htext, hnames, helsewhere, hlen⟩
    have hfirst := hnames first List.mem_cons_self
    have hchars : ∀ c ∈ text.toList, c = '/' ∨ c ≠ '\\' ∧ c ≠ '\x00' := by
      intro c hc
      rw [htext, String.toList_intercalate] at hc
      rcases mem_intercalate hc with h | ⟨part, hpart, hc⟩
      · exact .inl h
      · obtain ⟨name, hname, rfl⟩ := List.mem_map.mp hpart
        exact .inr ((hnames name hname).chars c hc).2
    have helse : ¬ (RelativePath.hasDrive text ∨ startsWith text "~") := fun h =>
      helsewhere (elsewhere_of_text h htext hfirst.nonempty)
    rw [not_or, Bool.not_eq_true, Bool.not_eq_true] at helse
    obtain ⟨tail, htail, -⟩ := exists_tail first rest
    rw [← htext] at htail
    obtain ⟨c, cs, hcs⟩ : ∃ c cs, first.toList = c :: cs := by
      cases h : first.toList with
      | nil => exact absurd (String.toList_eq_nil_iff.mp h) hfirst.nonempty
      | cons c cs => exact ⟨c, cs, rfl⟩
    have hc : c ≠ '/' := (hfirst.chars c (by rw [hcs]; exact List.mem_cons_self)).1
    refine check_eq_ok_iff.mpr ⟨?_, hlen, ?_, ?_, helse.1, ?_, helse.2, ?_⟩
    · rintro rfl
      rw [hcs] at htail
      cases htail
    · intro hm
      rcases hchars _ hm with h | h
      · cases h
      · exact h.2 rfl
    · intro hm
      rcases hchars _ hm with h | h
      · cases h
      · exact h.1 rfl
    · rw [startsWith, htail, hcs]
      show ('/' == c && true) = false
      rw [Bool.and_true, beq_eq_false_iff_ne]
      exact hc.symm
    · rw [htext, components_intercalate hnames (by simp)]
      exact checkComponents_eq_ok hnames

end Grammar

/-! ## Where it leads -/

theorem sep_ne_ofNat {n : ℕ} (hn : n ≠ 0x2f) (hlt : n < 256) : SEP ≠ UInt8.ofNat n := by
  intro heq
  have htoNat := congrArg UInt8.toNat heq
  rw [UInt8.toNat_ofNat_of_lt' hlt] at htoNat
  exact hn htoNat.symm

/-- Only a slash is written with the byte of a slash. -/
theorem sep_not_mem_encode {c : Char} (h : c ≠ '/') : SEP ∉ String.utf8EncodeChar c := by
  have hval : c.val.toNat ≠ 0x2f := fun heq => h (Char.ext (UInt32.toNat_inj.mp heq))
  unfold String.utf8EncodeChar
  dsimp only
  split
  · next hlow => simpa using sep_ne_ofNat hval (by omega)
  split
  · simp only [List.mem_cons, List.not_mem_nil, or_false, not_or]
    exact ⟨sep_ne_ofNat (by omega) (by omega), sep_ne_ofNat (by omega) (by omega)⟩
  split
  · simp only [List.mem_cons, List.not_mem_nil, or_false, not_or]
    exact ⟨sep_ne_ofNat (by omega) (by omega), sep_ne_ofNat (by omega) (by omega),
      sep_ne_ofNat (by omega) (by omega)⟩
  · simp only [List.mem_cons, List.not_mem_nil, or_false, not_or]
    exact ⟨sep_ne_ofNat (by omega) (by omega), sep_ne_ofNat (by omega) (by omega),
      sep_ne_ofNat (by omega) (by omega), sep_ne_ofNat (by omega) (by omega)⟩

section Bytes

variable {name text text' : String}

theorem sep_not_mem_bytesOf (h : ∀ c ∈ name.toList, c ≠ '/') : SEP ∉ bytesOf name := by
  intro hm
  obtain ⟨c, hc, hsep⟩ := List.mem_flatMap.mp hm
  exact sep_not_mem_encode (h c hc) hsep

theorem bytesOf_injective (h : bytesOf text = bytesOf text') : text = text' := by
  have hbytes : text.toList.utf8Encode = text'.toList.utf8Encode := congrArg List.toByteArray h
  rwa [String.utf8Encode_toList, String.utf8Encode_toList, String.toByteArray_inj] at hbytes

/-- The bytes of a name are read as a name. -/
theorem component_bytesOf (h : IsName name) :
    PathBuf.component (bytesOf name) = some (.normal (bytesOf name)) := by
  have hempty : bytesOf name ≠ [] := fun he =>
    h.nonempty (bytesOf_injective (he.trans (show [] = bytesOf "" from rfl)))
  have hdot : bytesOf name ≠ [DOT] := fun he =>
    h.current (bytesOf_injective (he.trans (show [DOT] = bytesOf "." from rfl)))
  have hdots : bytesOf name ≠ [DOT, DOT] := fun he =>
    h.parent (bytesOf_injective (he.trans (show [DOT, DOT] = bytesOf ".." from rfl)))
  rw [PathBuf.component, if_neg (not_or.mpr ⟨hempty, hdot⟩), if_neg hdots]

end Bytes

namespace PathBuf

variable {path root part : PathBuf} {name : String} {names : List String}

/-- What comes after a slash has no say in where a path starts. -/
theorem start_append_sep (rest : PathBuf) : start (path ++ SEP :: rest) = start (path ++ [SEP]) := by
  have hhead : (path ++ SEP :: rest).head? = (path ++ [SEP]).head? := by
    cases path <;> rfl
  have hsplit : ∀ after : List (List UInt8),
      (path.splitOn SEP ++ after).head? = (path.splitOn SEP).head? := fun after =>
    List.head?_append_of_ne_nil _ (List.splitOn_ne_nil SEP path)
  rw [start, start, isAbsolute, isAbsolute, hhead, List.splitOn_append_cons_self,
    List.splitOn_append_cons_self, hsplit, hsplit]

/-- A part after a slash is one component more, if it is one. -/
theorem components_append_sep (hpart : SEP ∉ part) :
    components (path ++ SEP :: part) = components (path ++ [SEP]) ++ (component part).toList := by
  rw [components, components, start_append_sep, List.splitOn_append_cons_self,
    List.splitOn_append_cons_self, List.splitOn_eq_singleton hpart, List.splitOn_nil,
    List.filterMap_append, List.filterMap_append, List.append_assoc, List.append_assoc]
  congr 2

/-- A slash at the end is no component. -/
theorem components_concat_sep (hne : path ≠ []) : components (path ++ [SEP]) = components path := by
  have hhead : (path ++ [SEP]).head? = path.head? := List.head?_append_of_ne_nil path hne
  have hsplit : (path.splitOn SEP ++ [[]]).head? = (path.splitOn SEP).head? :=
    List.head?_append_of_ne_nil _ (List.splitOn_ne_nil SEP path)
  rw [components, components, start, start, isAbsolute, isAbsolute, hhead,
    List.splitOn_append_cons_self, List.splitOn_nil, hsplit, List.filterMap_append]
  simp [component]

theorem not_isAbsolute (hpart : SEP ∉ part) : isAbsolute part = false := by
  cases part with
  | nil => rfl
  | cons b part =>
    have hb : b ≠ SEP := fun h => hpart (h ▸ List.mem_cons_self)
    simp [isAbsolute, hb]

/-- A part alone is a component, unless it is a dot. -/
theorem components_part (hpart : SEP ∉ part) (hdot : part ≠ [DOT]) :
    components part = (component part).toList := by
  rw [components, start, not_isAbsolute hpart, List.splitOn_eq_singleton hpart]
  simp only [Bool.false_eq_true, if_false, List.head?_cons, Option.some.injEq, hdot,
    List.nil_append]
  cases hc : component part <;> simp [hc]

/-- Pushing a name leads to that name. -/
theorem components_push (h : IsName name) :
    components (root.push (bytesOf name)) = components root ++ [.normal (bytesOf name)] := by
  have hpart : SEP ∉ bytesOf name := sep_not_mem_bytesOf fun c hc => (h.chars c hc).1
  have hname : (component (bytesOf name)).toList = [.normal (bytesOf name)] := by
    rw [component_bytesOf h]
    rfl
  have hdot : bytesOf name ≠ [DOT] := fun he =>
    h.current (bytesOf_injective (he.trans (show [DOT] = bytesOf "." from rfl)))
  rw [push, not_isAbsolute hpart]
  rcases List.eq_nil_or_concat root with rfl | ⟨front, last, rfl⟩
  · show components (bytesOf name) = _
    rw [components_part hpart hdot, hname]
    rfl
  by_cases hlast : last = SEP
  · subst hlast
    simp only [List.concat_eq_append, List.getLast?_append, List.getLast?_singleton]
    simp only [Option.some_or, Option.any_some, bne_self_eq_false, Bool.false_eq_true, if_false,
      List.append_assoc, List.singleton_append]
    rw [components_append_sep hpart, hname]
  · simp only [List.concat_eq_append, List.getLast?_append, List.getLast?_singleton]
    have hsep : (last != SEP) = true := bne_iff_ne.mpr hlast
    simp only [Option.some_or, Option.any_some, hsep, Bool.false_eq_true, if_false, if_true]
    rw [components_append_sep hpart, components_concat_sep (by simp), hname]

/-- Pushing names leads down to them. -/
theorem components_pushes (h : ∀ name ∈ names, IsName name) :
    components (names.foldl (fun resolved component => resolved.push (bytesOf component)) root) =
      components root ++ (names.map bytesOf).map .normal := by
  induction names generalizing root with
  | nil => simp
  | cons name names ih =>
    obtain ⟨hname, hnames⟩ := List.forall_mem_cons.mp h
    rw [List.foldl_cons, ih hnames, components_push hname]
    simp

end PathBuf

section Paths

variable {path path' : RelativePath} {root : PathBuf}

theorem RelativePath.isName (path : RelativePath) : ∀ name ∈ path.components, IsName name := by
  obtain ⟨first, rest, htext, hnames, -, -⟩ := check_iff_isRelative.mp path.valid
  rw [RelativePath.components, htext, components_intercalate hnames (by simp)]
  exact hnames

/-- Where a path below a directory leads. -/
theorem components_resolveWithin : PathBuf.components (path.resolveWithin root) =
    PathBuf.components root ++ (path.components.map bytesOf).map .normal :=
  PathBuf.components_pushes path.isName

theorem resolveWithin_isInside : PathBuf.IsInside (path.resolveWithin root) root :=
  ⟨path.components.map bytesOf, by simpa using path.components_ne_nil, components_resolveWithin⟩

theorem resolveWithin_injective (h : PathBuf.components (path.resolveWithin root) =
    PathBuf.components (path'.resolveWithin root)) : path = path' := by
  rw [components_resolveWithin, components_resolveWithin, List.append_cancel_left_eq] at h
  have hbytes := List.map_injective_iff.mpr (fun a b => PathComponent.normal.inj) h
  exact RelativePath.components_injective
    (List.map_injective_iff.mpr (fun a b => bytesOf_injective) hbytes)

end Paths

/-- The texts that are accepted are those of the grammar; every one of them names something below
every directory, and different ones name different things. -/
theorem relative_path_grammar :
    (∀ text, (∃ path, RelativePath.parse text = .ok path) ↔ IsRelative text) ∧
    (∀ (path : RelativePath) (root : PathBuf), PathBuf.IsInside (path.resolveWithin root) root) ∧
    ∀ (path path' : RelativePath) (root : PathBuf),
      PathBuf.components (path.resolveWithin root) = PathBuf.components (path'.resolveWithin root) ↔
        path.text = path'.text := by
  refine ⟨fun text => ?_, fun path root => resolveWithin_isInside, fun path path' root =>
    ⟨fun h => congrArg RelativePath.text (resolveWithin_injective h), fun h => ?_⟩⟩
  · rw [← check_iff_isRelative]
    constructor
    · rintro ⟨path, h⟩
      rw [← RelativePath.parse_text h]
      exact path.valid
    · intro h
      exact ⟨⟨text, h⟩, RelativePath.parse_of_valid ⟨text, h⟩⟩
  · rw [RelativePath.text_injective h]

end Paperclip.Protocol
