import Paperclip.Packages.Fields
import Paperclip.Text.Lines

/-!
# The network reading

What the tablet knows of its Wi-Fi, from the lines that `nmcli` writes.

* `NmcliNetwork`, `read`, `parse_active_line`: the reader. A line is split at the colons that no
  backslash precedes, and the backslashes are taken away on the way.
* `AccessPoint`, `terse`: what `nmcli` lists, and how it writes it: a backslash goes before each
  colon and each backslash of a field.
* `splitUnescaped_terse`: splitting a line gives the fields that it was written from.
* `unescape_eq_iff`: unescaping them once more leaves a field as it is, just if no two backslashes
  stand next to each other in it.
* `read_terse_iff`: when the first active access point is reported under its own name.
-/

namespace Paperclip.Sys

open Packages Text

/-! ## The reader -/

/-- A program and its arguments. -/
structure ProcessCommand where
  program : String
  args : List String
  deriving DecidableEq

/-- What a program that ran left behind. -/
structure ProcessOutput where
  success : Bool
  code : Option Int
  stdout : String
  stderr : String

/-- One reading of network connectivity. -/
structure NetworkReading where
  connected : Bool
  ssid : Option String
  signal_percent : Option UInt8
  deriving DecidableEq

/-- No connection at all. -/
def NetworkReading.DISCONNECTED : NetworkReading where
  connected := false
  ssid := none
  signal_percent := none

/-- The reader, and how it runs a program: `none` is a program that could not be run. -/
structure NmcliNetwork where
  run : ProcessCommand → Option ProcessOutput

/-- Splits at `:`, where what follows a backslash stands for itself. -/
def splitUnescapedFrom (current : List Char) : List Char → List (List Char)
  | [] => [current]
  | '\\' :: next :: rest => splitUnescapedFrom (current ++ [next]) rest
  | ['\\'] => [current]
  | ':' :: rest => current :: splitUnescapedFrom [] rest
  | other :: rest => splitUnescapedFrom (current ++ [other]) rest

def split_unescaped (line : List Char) : List (List Char) := splitUnescapedFrom [] line

/-- Two backslashes become one. -/
def unescape : List Char → List Char
  | '\\' :: '\\' :: rest => '\\' :: unescape rest
  | c :: rest => c :: unescape rest
  | [] => []

/-- A number below `2 ^ 8`, which a sign may precede. -/
def parseU8 (text : List Char) : Option UInt8 :=
  let digits := (stripPrefix ['+'] text).getD text
  let value := digits.foldl (fun n c => n * 10 + (c.toNat - '0'.toNat)) 0
  if digits ≠ [] ∧ digits.all isAsciiDigit ∧ value < 2 ^ 8 then some (UInt8.ofNat value) else none

/-- What a line says, if it is that of the active network. -/
def parse_active_line (line : List Char) : Option NetworkReading :=
  match split_unescaped line with
  | [active, ssid, signal] =>
    if active ≠ ['y', 'e', 's'] then none
    else some {
      connected := true
      ssid := if ssid.isEmpty then none else some (String.ofList (unescape ssid))
      signal_percent := parseU8 signal }
  | _ => none

/-- What `nmcli` is asked. -/
def NmcliNetwork.command : ProcessCommand where
  program := "nmcli"
  args := ["-t", "-f", "active,ssid,signal", "dev", "wifi"]

/-- The reading, or `none` where `nmcli` did not answer. -/
def NmcliNetwork.read (network : NmcliNetwork) : Option NetworkReading := do
  let output ← network.run NmcliNetwork.command
  if !output.success then none
  else some (((lines output.stdout.toList).findSome? parse_active_line).getD .DISCONNECTED)

/-! ## The writer -/

/-- An access point that `nmcli` lists. Its name is on one line. -/
structure AccessPoint where
  active : Bool
  ssid : List Char
  signal : UInt8
  oneLine : '\n' ∉ ssid

/-- A field as it is written: with a backslash before each colon and each backslash. -/
def escape (field : List Char) : List Char :=
  field.flatMap fun c => if c = ':' ∨ c = '\\' then ['\\', c] else [c]

/-- The fields of the line of an access point. -/
def AccessPoint.fields (point : AccessPoint) : List (List Char) :=
  [(if point.active then "yes" else "no").toList, point.ssid, Nat.toDigits 10 point.signal.toNat]

/-- Its line. -/
def AccessPoint.terse (point : AccessPoint) : List Char :=
  [':'].intercalate (point.fields.map escape)

/-- What `nmcli` writes. -/
def terse (points : List AccessPoint) : String :=
  String.ofList (unlines (points.map AccessPoint.terse))

/-- The reading that says what an access point is. -/
def AccessPoint.reading (point : AccessPoint) : NetworkReading where
  connected := true
  ssid := if point.ssid = [] then none else some (String.ofList point.ssid)
  signal_percent := some point.signal

/-- The reading that says what was listed: the first active access point, if there is one. -/
def listed (points : List AccessPoint) : NetworkReading :=
  ((points.find? (·.active)).map AccessPoint.reading).getD .DISCONNECTED

/-! ## Splitting -/

/-- The pieces of a field and what follows it: those of what follows, the first of which has the
field before it. -/
theorem splitUnescapedFrom_escape (current field rest : List Char) :
    splitUnescapedFrom current (escape field ++ rest) =
      splitUnescapedFrom (current ++ field) rest := by
  induction field generalizing current with
  | nil => simp [escape]
  | cons c field ih =>
    rw [escape, List.flatMap_cons, ← escape, List.append_assoc]
    by_cases hc : c = ':' ∨ c = '\\'
    · rw [if_pos hc]
      show splitUnescapedFrom (current ++ [c]) (escape field ++ rest) = _
      rw [ih, List.append_assoc]
      rfl
    · obtain ⟨hcolon, hslash⟩ := not_or.1 hc
      rw [if_neg hc, List.singleton_append, splitUnescapedFrom, ih, List.append_assoc]
      · rfl
      all_goals simp_all

/-- Fields that are written with colons between them are read back. -/
theorem splitUnescaped_intercalate (field : List Char) (fields : List (List Char)) :
    split_unescaped ([':'].intercalate ((field :: fields).map escape)) = field :: fields := by
  induction fields generalizing field with
  | nil =>
    have := splitUnescapedFrom_escape [] field []
    simpa [split_unescaped, splitUnescapedFrom] using this
  | cons next fields ih =>
    have hrest : splitUnescapedFrom [] ([':'].intercalate ((next :: fields).map escape)) = _ :=
      ih next
    rw [List.map_cons, List.map_cons, List.intercalate_cons_cons, ← List.map_cons,
      split_unescaped, List.append_assoc, splitUnescapedFrom_escape, List.singleton_append,
      splitUnescapedFrom, hrest]
    rfl

/-- Splitting a line gives the fields that it was written from. -/
theorem splitUnescaped_terse (point : AccessPoint) :
    split_unescaped point.terse = point.fields := splitUnescaped_intercalate _ _

theorem parseU8_toDigits (n : UInt8) : parseU8 (Nat.toDigits 10 n.toNat) = some n := by
  obtain ⟨hsign, hdigits, hvalue⟩ := toDigits_spec n.toNat
  rw [parseU8, hsign, Option.getD_none, hvalue,
    if_pos ⟨Nat.toDigits_ne_nil, hdigits, n.toNat_lt⟩, UInt8.ofNat_toNat]

/-- The line of an access point is read as one of the active network just if it is active. -/
theorem parseActiveLine_terse (point : AccessPoint) : parse_active_line point.terse =
    if point.active then some { point.reading with
      ssid := if point.ssid = [] then none else some (String.ofList (unescape point.ssid)) }
    else none := by
  rw [parse_active_line, splitUnescaped_terse]
  cases hactive : point.active <;>
    simp [AccessPoint.fields, AccessPoint.reading, hactive, parseU8_toDigits]

/-! ## Lines -/

theorem mem_escape {field : List Char} {c : Char} (h : c ∈ escape field) :
    c ∈ field ∨ c = '\\' := by
  obtain ⟨d, hd, hc⟩ := List.mem_flatMap.1 h
  split_ifs at hc <;> grind

theorem mem_terse {point : AccessPoint} {c : Char} (h : c ∈ point.terse) :
    c = ':' ∨ ∃ field ∈ point.fields, c ∈ escape field := by
  simp only [AccessPoint.terse, AccessPoint.fields, List.map_cons, List.map_nil,
    List.intercalate_cons_cons, List.intercalate_singleton, List.mem_append,
    List.mem_singleton] at h
  rcases h with (h | h) | (h | h) | h
  · exact .inr ⟨_, List.mem_cons_self, h⟩
  · exact .inl h
  · exact .inr ⟨_, .tail _ List.mem_cons_self, h⟩
  · exact .inl h
  · exact .inr ⟨_, .tail _ (.tail _ List.mem_cons_self), h⟩

/-- The line of an access point is one line. -/
theorem oneLine_terse (point : AccessPoint) : '\n' ∉ point.terse := by
  intro h
  rcases mem_terse h with h | ⟨field, hfield, h⟩
  · cases h
  · have hmem : '\n' ∈ field := (mem_escape h).resolve_right (by decide)
    simp only [AccessPoint.fields, List.mem_cons, List.not_mem_nil, or_false] at hfield
    rcases hfield with rfl | rfl | rfl
    · cases hactive : point.active <;> simp [hactive] at hmem
    · exact point.oneLine hmem
    · have := mem_toDigits hmem
      simp [Char.isDigit] at this

/-- It ends with the last digit of the signal. -/
theorem stripReturn_terse (point : AccessPoint) : stripReturn point.terse = point.terse := by
  have hne : escape (Nat.toDigits 10 point.signal.toNat) ≠ [] := by
    cases hdigits : Nat.toDigits 10 point.signal.toNat with
    | nil => exact absurd hdigits Nat.toDigits_ne_nil
    | cons c digits =>
      rw [escape, List.flatMap_cons]
      split <;> simp
  have hlast : point.terse.getLast? = (escape (Nat.toDigits 10 point.signal.toNat)).getLast? := by
    simp only [AccessPoint.terse, AccessPoint.fields, List.map_cons, List.map_nil,
      List.intercalate_cons_cons, List.intercalate_singleton]
    rw [List.getLast?_append_of_ne_nil _ (by simp), List.getLast?_append_of_ne_nil _ hne]
  rw [stripReturn_eq_iff, hlast]
  intro h
  have hmem := (mem_escape (List.mem_of_getLast? h)).resolve_right (by decide)
  have := mem_toDigits hmem
  simp [Char.isDigit] at this

theorem lines_terse (points : List AccessPoint) :
    lines (terse points).toList = points.map AccessPoint.terse := by
  rw [terse, String.toList_ofList, lines_unlines, List.map_map]
  · exact List.map_congr_left fun point _ => stripReturn_terse point
  · simpa using fun point _ => oneLine_terse point

/-! ## Unescaping twice -/

theorem length_unescape_le (field : List Char) : (unescape field).length ≤ field.length := by
  fun_induction unescape field <;> simp <;> omega

/-- A field is left as it is just if no two backslashes stand next to each other in it. -/
theorem unescape_eq_iff (field : List Char) :
    unescape field = field ↔ ¬ ['\\', '\\'] <:+: field := by
  fun_induction unescape field with
  | case1 rest ih =>
    -- one backslash is lost, and none comes back
    refine iff_of_false (fun h => ?_) (fun h => h ⟨[], rest, rfl⟩)
    have hlen := congrArg List.length h
    have := length_unescape_le rest
    simp only [List.length_cons] at hlen
    omega
  | case2 c rest hpair ih =>
    rw [List.cons_inj_right, ih, List.infix_cons_iff, not_or, and_iff_right]
    rintro ⟨rest', heq⟩
    obtain ⟨rfl, rfl⟩ := List.cons.inj heq
    exact hpair _ rfl rfl
  | case3 => simp

/-! ## The reading -/

/-- Of a list, the first that has something to say is the first that qualifies. -/
theorem findSome?_if {α β : Type} (p : α → Bool) (f : α → β) (l : List α) :
    l.findSome? (fun a => if p a then some (f a) else none) = (l.find? p).map f := by
  induction l with
  | nil => rfl
  | cons a l ih =>
    rw [List.findSome?_cons, List.find?_cons]
    cases p a
    · exact ih
    · rfl

/-- The first active access point is reported with its signal, and with its own name just if no
two backslashes stand next to each other in that. -/
theorem read_terse_iff (network : NmcliNetwork) (points : List AccessPoint) (output : ProcessOutput)
    (hrun : network.run NmcliNetwork.command = some output) (hsuccess : output.success = true)
    (hwritten : output.stdout = terse points) :
    network.read = some (listed points) ↔
      ∀ point ∈ points.find? (·.active), ¬ ['\\', '\\'] <:+: point.ssid := by
  have hread : network.read = some (((points.find? (·.active)).map fun point =>
      { point.reading with ssid := if point.ssid = [] then none
                                   else some (String.ofList (unescape point.ssid)) }).getD
        .DISCONNECTED) := by
    simp only [NmcliNetwork.read, hrun, hsuccess, hwritten, lines_terse, Option.bind_eq_bind,
      Option.bind_some, Bool.not_true, Bool.false_eq_true, if_false, List.findSome?_map]
    rw [← findSome?_if]
    congr 3
    exact funext parseActiveLine_terse
  rw [hread, listed, Option.some.injEq]
  cases points.find? (·.active) with
  | none => simp
  | some point =>
    simp only [Option.map_some, Option.getD_some, Option.mem_def, Option.some.injEq,
      forall_eq', ← unescape_eq_iff]
    rw [AccessPoint.reading, NetworkReading.mk.injEq]
    by_cases hnil : point.ssid = []
    · simp [hnil, unescape]
    · simp [hnil, String.ofList_inj]

/-- A network whose name has two backslashes. -/
def share : AccessPoint where
  active := true
  ssid := ['\\', '\\', 'a']
  signal := 55
  oneLine := by decide

/-- Where it is the active one, a network of another name is reported. -/
theorem share_renamed : ∃ network : NmcliNetwork, ∃ output,
    network.run NmcliNetwork.command = some output ∧ output.success = true ∧
      output.stdout = terse [share] ∧ network.read ≠ some (listed [share]) := by
  refine ⟨⟨fun _ => some ⟨true, some 0, terse [share], ""⟩⟩, _, rfl, rfl, rfl, ?_⟩
  decide +kernel

/-- A network with a colon and a backslash in its name is reported under it. -/
theorem read_terse_cafe :
    let point : AccessPoint := ⟨true, ['a', ':', '\\', ':'], 55, by decide⟩
    NmcliNetwork.read ⟨fun _ => some ⟨true, some 0, terse [point], ""⟩⟩ = some (listed [point]) :=
  (read_terse_iff _ _ _ rfl rfl rfl).2 (by decide)

end Paperclip.Sys
