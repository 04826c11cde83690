import Mathlib.Data.List.Infix

/-!
# Protocol versions and package paths

* `ProtocolVersion.canRun`: what a platform that speaks one version can run.
* `RelativePath`: a path that stays below the directory it is resolved in. The checks that a text
  must pass are part of the type.
-/

namespace Paperclip.Protocol

/-- A protocol version. Both parts are 16 bits wide where they are parsed. -/
structure ProtocolVersion where
  major : Nat
  minor : Nat
  deriving DecidableEq, Repr

/-- The protocol this platform speaks. -/
def CURRENT : ProtocolVersion := ⟨1, 1⟩

/-- Whether a platform that speaks `self` can run `app`. -/
def ProtocolVersion.canRun (self app : ProtocolVersion) : Bool :=
  self.major == app.major && decide (app.minor ≤ self.minor)

/-- Whether a text starts with another. -/
def startsWith (text start : String) : Bool := start.toList.isPrefixOf text.toList

/-- The parts of a text between slashes. -/
def components (text : String) : List String := (text.toList.splitOn '/').map String.ofList

/-- Why a text is not a package path. -/
inductive PathError where
  | empty
  | absolute
  | notPosix
  | parentEscape
  | emptyComponent
  | homeExpansion
  | nul
  | tooLong (len max : Nat)
  deriving DecidableEq, Repr

namespace RelativePath

/-- Longest accepted path, in bytes. -/
def MAX_LEN : Nat := 512

/-- Whether the second byte is a colon, as after a drive letter. -/
def hasDrive (text : String) : Bool :=
  match text.toList with
  | c :: ':' :: _ => c.utf8Size == 1
  | _ => false

/-- Refuses the components that would not name a place below. -/
def checkComponents : List String → Except PathError Unit
  | [] => .ok ()
  | c :: cs =>
    if c = "" ∨ c = "." then .error .emptyComponent
    else if c = ".." then .error .parentEscape
    else checkComponents cs

/-- The checks on the text of a path. -/
def check (text : String) : Except PathError Unit :=
  if text = "" then .error .empty
  else if MAX_LEN < text.utf8ByteSize then .error (.tooLong text.utf8ByteSize MAX_LEN)
  else if text.toList.contains '\x00' then .error .nul
  else if text.toList.contains '\\' || hasDrive text then .error .notPosix
  else if startsWith text "/" then .error .absolute
  else if startsWith text "~" then .error .homeExpansion
  else checkComponents (components text)

end RelativePath

/-- A path below a directory. -/
structure RelativePath where
  text : String
  valid : RelativePath.check text = .ok ()

namespace RelativePath

/-- Parses a path. -/
def parse (text : String) : Except PathError RelativePath :=
  match h : check text with
  | .ok () => .ok ⟨text, h⟩
  | .error e => .error e

/-- The components of the path, which is also where it resolves to. -/
def components (path : RelativePath) : List String := Protocol.components path.text

theorem parse_text {text : String} {path : RelativePath} (h : parse text = .ok path) :
    path.text = text := by
  unfold parse at h
  split at h <;> cases h
  rfl

theorem parse_of_valid (path : RelativePath) : parse path.text = .ok path := by
  unfold parse
  split
  · rfl
  · next h =>
    rw [path.valid] at h
    cases h

theorem text_injective {path path' : RelativePath} (h : path.text = path'.text) : path = path' := by
  cases path
  cases path'
  cases h
  rfl

instance : DecidableEq RelativePath := fun path path' =>
  decidable_of_iff (path.text = path'.text) ⟨text_injective, congrArg text⟩

private theorem checkComponents_ok {cs : List String} (h : checkComponents cs = .ok ()) :
    ∀ c ∈ cs, c ≠ "" ∧ c ≠ "." ∧ c ≠ ".." := by
  induction cs with
  | nil => exact fun _ hc => absurd hc List.not_mem_nil
  | cons c cs ih =>
    unfold checkComponents at h
    split at h
    · cases h
    next h₁ =>
    split at h
    · cases h
    next h₂ =>
    intro d hd
    rcases List.mem_cons.mp hd with rfl | hd
    · exact ⟨fun he => h₁ (.inl he), fun he => h₁ (.inr he), h₂⟩
    · exact ih h d hd

/-- No component of a path is empty, `.` or `..`. -/
theorem mem_components (path : RelativePath) :
    ∀ c ∈ path.components, c ≠ "" ∧ c ≠ "." ∧ c ≠ ".." := by
  have h := path.valid
  unfold check at h
  repeat' split at h
  all_goals first
    | exact checkComponents_ok h
    | cases h

theorem components_ne_nil (path : RelativePath) : path.components ≠ [] := by
  simp [components, Protocol.components]

private theorem not_mem_splitOn {a : Char} {text part : List Char} (h : part ∈ text.splitOn a) :
    a ∉ part := by
  induction text generalizing part with
  | nil =>
    rw [List.splitOn_nil, List.mem_singleton] at h
    rw [h]
    exact List.not_mem_nil
  | cons c text ih =>
    rw [List.splitOn_cons_eq_if_modifyHead] at h
    split at h
    · rcases List.mem_cons.mp h with rfl | h
      · exact List.not_mem_nil
      · exact ih h
    · next hne =>
      cases hs : text.splitOn a with
      | nil => exact absurd hs (List.splitOn_ne_nil a text)
      | cons first rest =>
        rw [hs, List.modifyHead_cons] at h
        rcases List.mem_cons.mp h with rfl | h
        · have hfirst := ih (hs ▸ List.mem_cons_self)
          rintro hm
          rcases List.mem_cons.mp hm with rfl | hm
          · exact hne (beq_self_eq_true _)
          · exact hfirst hm
        · exact ih (hs ▸ List.mem_cons_of_mem _ h)

/-- No component of a path has a slash in it. -/
theorem not_mem_of_mem_components (path : RelativePath) {c : String} (hc : c ∈ path.components) :
    '/' ∉ c.toList := by
  obtain ⟨part, hpart, rfl⟩ := List.mem_map.mp hc
  rw [String.toList_ofList]
  exact not_mem_splitOn hpart

/-- Paths with the same components are the same. -/
theorem components_injective {path path' : RelativePath}
    (h : path.components = path'.components) : path = path' := by
  have hparts := congrArg (List.map String.toList) h
  simp only [components, Protocol.components, List.map_map] at hparts
  have hid : String.toList ∘ String.ofList = id := funext fun _ => String.toList_ofList
  rw [hid, List.map_id, List.map_id] at hparts
  refine text_injective (String.toList_inj.mp ?_)
  have hjoin := congrArg (List.intercalate ['/']) hparts
  rwa [List.intercalate_splitOn, List.intercalate_splitOn] at hjoin

private theorem length_splitOn_le (mark : Char) (text : List Char) :
    (text.splitOn mark).length ≤ text.length + 1 := by
  induction text with
  | nil =>
    rw [List.splitOn_nil]
    rfl
  | cons c text ih =>
    rw [List.splitOn_cons_eq_if_modifyHead, List.length_cons]
    split
    · rw [List.length_cons]
      omega
    · rw [List.length_modifyHead]
      omega

private theorem length_le_utf8ByteSize (text : List Char) :
    text.length ≤ (String.ofList text).utf8ByteSize := by
  induction text with
  | nil => exact Nat.zero_le _
  | cons c text ih =>
    rw [String.ofList_cons, String.utf8ByteSize_append, String.utf8ByteSize_singleton,
      List.length_cons]
    have := c.utf8Size_pos
    omega

theorem utf8ByteSize_le (path : RelativePath) : path.text.utf8ByteSize ≤ MAX_LEN := by
  have h := path.valid
  by_contra hlong
  rw [check] at h
  split at h
  · cases h
  · rw [if_pos (Nat.lt_of_not_le hlong)] at h
    cases h

/-- A path has no more components than its text has room for. -/
theorem length_components_le (path : RelativePath) : path.components.length ≤ MAX_LEN + 1 := by
  have hsize := utf8ByteSize_le path
  have hchars := length_le_utf8ByteSize path.text.toList
  have hparts := length_splitOn_le '/' path.text.toList
  rw [String.ofList_toList] at hchars
  rw [components, Protocol.components, List.length_map]
  omega

end RelativePath

end Paperclip.Protocol
