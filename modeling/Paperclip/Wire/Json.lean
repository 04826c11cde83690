import Mathlib.Algebra.Group.Nat.Defs
import Mathlib.Logic.Equiv.Defs

/-!
# Values as JSON

How the values of a type are written as JSON and read back, put together from the parts of the type.
A float that is not finite has no JSON and is written as `null`.

* `Json`: a document. `Floats`: how a crate writes and reads the text of a 32-bit float.
* `Format`: how the values of a type are written and read, and which floats they hold. The law of a
  format: what was written is read back just if the floats in it are finite.
* `Fields`: the fields of a structure, read by their keys. `Entries`: what is written as the entries of
  one object.
* `Enumeration`: which variant a value is, and what is written of it. `external`: the variant is the key
  of an entry. `internal`: the variant is the value of a tag, and the rest are the entries beside it.

Documents that are never written may be refused here although a crate reads them.
-/

namespace Wire

/-- A document. A number with a fraction or an exponent is kept as its text. -/
inductive Json where
  | null
  | bool (b : Bool)
  | nat (n : ℕ)
  | float (text : String)
  | str (s : String)
  | arr (items : List Json)
  | obj (entries : List (String × Json))

/-- How floats are written and read. -/
structure Floats where
  write : Float32 → String
  read : String → Option Float32
  read_write (x : Float32) (h : x.isFinite = true) : read (write x) = some x

/-- Whether floats are finite, all of them. -/
def AllFinite (xs : List Float32) : Prop := ∀ x ∈ xs, x.isFinite = true

@[simp] theorem allFinite_nil : AllFinite [] := fun _ h => absurd h List.not_mem_nil

@[simp] theorem allFinite_singleton (x : Float32) : AllFinite [x] ↔ x.isFinite = true :=
  List.forall_mem_singleton

@[simp] theorem allFinite_append (xs ys : List Float32) :
    AllFinite (xs ++ ys) ↔ AllFinite xs ∧ AllFinite ys := List.forall_mem_append

/-- How the values of a type are written and read back. A value need not have a document. -/
structure Format (α : Type) where
  ser : α → Option Json
  de : Json → Option α
  floats : α → List Float32
  law (a : α) (j : Json) : ser a = some j → (de j = some a ↔ AllFinite (floats a))

namespace Format

variable {α β γ : Type}

/-- A format that loses nothing. -/
def exact (ser : α → Option Json) (de : Json → Option α)
    (h : ∀ a j, ser a = some j → de j = some a) : Format α where
  ser := ser
  de := de
  floats _ := []
  law a j hj := by simp [h a j hj]

/-- The same format, with its floats said otherwise. -/
def reading (f : Format α) (floats : α → List Float32) (h : ∀ a, f.floats a = floats a) :
    Format α where
  ser := f.ser
  de := f.de
  floats := floats
  law a j hj := by rw [← h a]; exact f.law a j hj

def unit : Format Unit :=
  exact (fun _ => some .null) (fun | .null => some () | _ => none) fun _ _ _ => by
    rename_i h
    cases h
    rfl

def bool : Format Bool :=
  exact (fun b => some (.bool b)) (fun | .bool b => some b | _ => none) fun _ _ h => by
    cases h
    rfl

/-- A type of numbers. -/
def number (toNat : α → ℕ) (ofNat : ℕ → Option α) (h : ∀ a, ofNat (toNat a) = some a) : Format α :=
  exact (fun a => some (.nat (toNat a))) (fun | .nat n => ofNat n | _ => none) fun a _ hj => by
    cases hj
    exact h a

/-- The numbers that some bits hold. -/
def nat (bits : ℕ) : Format ℕ :=
  exact (fun n => if n < 2 ^ bits then some (.nat n) else none)
    (fun | .nat n => if n < 2 ^ bits then some n else none | _ => none) fun n j hj => by
      by_cases h : n < 2 ^ bits
      · rw [if_pos h] at hj
        cases hj
        exact if_pos h
      · rw [if_neg h] at hj
        cases hj

/-- A type that is written as a text. -/
def text (toText : α → Option String) (ofText : String → Option α)
    (h : ∀ a s, toText a = some s → ofText s = some a) : Format α :=
  exact (fun a => (toText a).map .str) (fun | .str s => ofText s | _ => none) fun a j hj => by
    obtain ⟨s, hs, rfl⟩ := Option.map_eq_some_iff.1 hj
    exact h a s hs

def string : Format String := text some some fun _ _ h => h.symm

/-- A float, or `null` for one that is not finite. -/
def float (f : Floats) : Format Float32 where
  ser x := some (if x.isFinite then .float (f.write x) else .null)
  de
    | .float text => f.read text
    | .nat n => f.read (toString n)
    | _ => none
  floats x := [x]
  law x j hj := by
    cases hj
    by_cases hx : x.isFinite = true
    · simp [hx, f.read_write x hx]
    · simp [hx]

/-- The format of a type that is the same but for its constructor. -/
def transport (f : Format α) (e : α ≃ β) : Format β where
  ser b := f.ser (e.symm b)
  de j := (f.de j).map e
  floats b := f.floats (e.symm b)
  law b j hj := by
    rw [← f.law _ _ hj, Option.map_eq_some_iff]
    constructor
    · rintro ⟨a, ha, rfl⟩
      rw [ha, e.symm_apply_apply]
    · exact fun h => ⟨_, h, e.apply_symm_apply b⟩

theorem list_law (f : Format α) {l : List α} {items : List Json} (h : l.mapM f.ser = some items) :
    items.mapM f.de = some l ↔ AllFinite (l.flatMap f.floats) := by
  induction l generalizing items with
  | nil =>
    cases h
    simp
  | cons a l ih =>
    simp only [List.mapM_cons, Option.bind_eq_bind, Option.bind_eq_some_iff, Option.pure_def,
      Option.some.injEq] at h
    obtain ⟨j, hj, rest, hrest, rfl⟩ := h
    rw [List.flatMap_cons, allFinite_append, ← f.law a j hj, ← ih hrest]
    simp [Option.bind_eq_some_iff]

/-- The values of a list, one after the other. -/
def list (f : Format α) : Format (List α) where
  ser l := (l.mapM f.ser).map .arr
  de
    | .arr items => items.mapM f.de
    | _ => none
  floats l := l.flatMap f.floats
  law l j hj := by
    obtain ⟨items, hitems, rfl⟩ := Option.map_eq_some_iff.1 hj
    exact f.list_law hitems

/-- A list of values in which there is no float. -/
def plainList (f : Format α) (h : ∀ a, f.floats a = []) : Format (List α) :=
  f.list.reading (fun _ => []) fun _ => List.flatMap_eq_nil_iff.2 fun a _ => h a

/-- Whether `null` is written only for what is lost. -/
def Solid (f : Format α) : Prop := ∀ a, f.ser a = some .null → ¬AllFinite (f.floats a)

/-- What a value is read as, where there may be none. -/
def deOption (f : Format α) : Json → Option (Option α)
  | .null => some none
  | j => (f.de j).map some

theorem deOption_some (f : Format α) (hf : f.Solid) {a : α} {j : Json} (hj : f.ser a = some j) :
    f.deOption j = some (some a) ↔ AllFinite (f.floats a) := by
  cases j with
  | null => simpa [deOption] using hf a hj
  | _ => simp [deOption, ← f.law a _ hj, Option.map_eq_some_iff]

/-- A value, or `null` for none. -/
def option (f : Format α) (hf : f.Solid) : Format (Option α) where
  ser
    | none => some .null
    | some a => f.ser a
  de := f.deOption
  floats o := o.elim [] f.floats
  law
    | none, _, hj => by cases hj; simp [deOption]
    | some a, _, hj => f.deOption_some hf hj

/-- A value in which there is no float, or `null` for none. -/
def plainOption (f : Format α) (hf : f.Solid) (h : ∀ a, f.floats a = []) : Format (Option α) :=
  (f.option hf).reading (fun _ => []) fun
    | none => rfl
    | some a => h a

theorem text_solid {toText : α → Option String} {ofText : String → Option α}
    {h : ∀ a s, toText a = some s → ofText s = some a} : (text toText ofText h).Solid := by
  intro a hj
  obtain ⟨s, -, hs⟩ := Option.map_eq_some_iff.1 hj
  cases hs

theorem nat_solid {bits : ℕ} : (nat bits).Solid := by
  intro n hj
  change (if n < 2 ^ bits then some (Json.nat n) else none) = some .null at hj
  split at hj <;> cases hj

theorem float_solid (fs : Floats) : (float fs).Solid := by
  intro x hj
  have hx : ¬x.isFinite = true := by
    intro hx
    change some (if x.isFinite then Json.float (fs.write x) else .null) = some .null at hj
    rw [if_pos hx] at hj
    cases hj
  rwa [float, allFinite_singleton]

theorem transport_solid {f : Format α} {e : α ≃ β} (hf : f.Solid) : (f.transport e).Solid :=
  fun b hj => hf (e.symm b) hj

end Format

/-! ## Objects -/

/-- What is written as the entries of one object. -/
structure Entries (α : Type) where
  keys : List String
  ser : α → Option (List (String × Json))
  de : List (String × Json) → Option α
  floats : α → List Float32
  ser_keys (a : α) (es : List (String × Json)) : ser a = some es → ∀ e ∈ es, e.1 ∈ keys
  law (a : α) (es : List (String × Json)) : ser a = some es →
    (de es = some a ↔ AllFinite (floats a))

namespace Entries

variable {α : Type}

/-- An object. -/
def format (f : Entries α) : Format α where
  ser a := (f.ser a).map .obj
  de
    | .obj es => f.de es
    | _ => none
  floats := f.floats
  law a j hj := by
    obtain ⟨es, hes, rfl⟩ := Option.map_eq_some_iff.1 hj
    exact f.law a es hes

theorem solid (f : Entries α) : f.format.Solid := by
  intro a hj
  obtain ⟨es, -, hes⟩ := Option.map_eq_some_iff.1 hj
  cases hes

/-- The same entries, with their floats said otherwise. -/
def reading (f : Entries α) (floats : α → List Float32) (h : ∀ a, f.floats a = floats a) :
    Entries α where
  keys := f.keys
  ser := f.ser
  de := f.de
  floats := floats
  ser_keys := f.ser_keys
  law a es hes := by rw [← h a]; exact f.law a es hes

end Entries

/-- Fields of a structure. They are read by their keys, wherever they stand. -/
structure Fields (α : Type) where
  keys : List String
  ser : α → Option (List (String × Json))
  de : (String → Option Json) → Option α
  floats : α → List Float32
  ser_keys (a : α) (es : List (String × Json)) : ser a = some es → ∀ e ∈ es, e.1 ∈ keys
  nodup (a : α) (es : List (String × Json)) : ser a = some es → (es.map Prod.fst).Nodup
  law (a : α) (es : List (String × Json)) (get : String → Option Json) : ser a = some es →
    (∀ key ∈ keys, get key = es.lookup key) → (de get = some a ↔ AllFinite (floats a))

namespace Fields

variable {α β : Type}

/-- A field, and what it is read as where it is missing. -/
def fieldOr (missing : Option α) (key : String) (f : Format α) : Fields α where
  keys := [key]
  ser a := (f.ser a).map fun j => [(key, j)]
  de get :=
    match get key with
    | none => missing
    | some j => f.de j
  floats := f.floats
  ser_keys a es hes := by
    obtain ⟨j, -, rfl⟩ := Option.map_eq_some_iff.1 hes
    simp
  nodup a es hes := by
    obtain ⟨j, -, rfl⟩ := Option.map_eq_some_iff.1 hes
    simp
  law a es get hes hget := by
    obtain ⟨j, hj, rfl⟩ := Option.map_eq_some_iff.1 hes
    rw [hget key (by simp), List.lookup_cons_self]
    exact f.law a j hj

/-- A field that must be there. -/
def field (key : String) (f : Format α) : Fields α := fieldOr none key f

/-- A field that is not written where there is nothing to write. -/
def skipped (key : String) (f : Format α) (hf : f.Solid) : Fields (Option α) where
  keys := [key]
  ser
    | none => some []
    | some a => (f.ser a).map fun j => [(key, j)]
  de get :=
    match get key with
    | none => some none
    | some j => f.deOption j
  floats o := o.elim [] f.floats
  ser_keys o es hes := by
    cases o with
    | none =>
      cases hes
      simp
    | some a =>
      obtain ⟨j, -, rfl⟩ := Option.map_eq_some_iff.1 hes
      simp
  nodup o es hes := by
    cases o with
    | none =>
      cases hes
      simp
    | some a =>
      obtain ⟨j, -, rfl⟩ := Option.map_eq_some_iff.1 hes
      simp
  law o es get hes hget := by
    rw [hget key (by simp)]
    cases o with
    | none =>
      cases hes
      simp
    | some a =>
      obtain ⟨j, hj, rfl⟩ := Option.map_eq_some_iff.1 hes
      rw [List.lookup_cons_self]
      exact f.deOption_some hf hj

theorem lookup_eq_none {es : List (String × Json)} {key : String} (h : ∀ e ∈ es, e.1 ≠ key) :
    es.lookup key = none := by
  rw [List.lookup_eq_none_iff]
  intro e he
  simpa using (h e he).symm

theorem not_mem_of_apart {f : Fields α} {g : Fields β}
    (apart : f.keys.all (!g.keys.contains ·) = true) {key : String} (hf : key ∈ f.keys) :
    key ∉ g.keys := by
  have h := List.all_eq_true.1 apart key hf
  simpa using h

/-- Two fields, or the fields before and after a comma. -/
def and (f : Fields α) (g : Fields β) (apart : f.keys.all (!g.keys.contains ·) = true) :
    Fields (α × β) where
  keys := f.keys ++ g.keys
  ser p := (f.ser p.1).bind fun es => (g.ser p.2).map fun es' => es ++ es'
  de get := (f.de get).bind fun a => (g.de get).map fun b => (a, b)
  floats p := f.floats p.1 ++ g.floats p.2
  ser_keys p es hes := by
    obtain ⟨es₁, h₁, hrest⟩ := Option.bind_eq_some_iff.1 hes
    obtain ⟨es₂, h₂, rfl⟩ := Option.map_eq_some_iff.1 hrest
    intro e he
    rcases List.mem_append.1 he with he | he
    · exact List.mem_append_left _ (f.ser_keys _ _ h₁ e he)
    · exact List.mem_append_right _ (g.ser_keys _ _ h₂ e he)
  nodup p es hes := by
    obtain ⟨es₁, h₁, hrest⟩ := Option.bind_eq_some_iff.1 hes
    obtain ⟨es₂, h₂, rfl⟩ := Option.map_eq_some_iff.1 hrest
    rw [List.map_append, List.nodup_append]
    refine ⟨f.nodup _ _ h₁, g.nodup _ _ h₂, fun key hkey key' hkey' he => ?_⟩
    obtain ⟨e, hmem, rfl⟩ := List.mem_map.1 hkey
    obtain ⟨e', hmem', rfl⟩ := List.mem_map.1 hkey'
    exact not_mem_of_apart apart (f.ser_keys _ _ h₁ e hmem) (he ▸ g.ser_keys _ _ h₂ e' hmem')
  law p es get hes hget := by
    obtain ⟨es₁, h₁, hrest⟩ := Option.bind_eq_some_iff.1 hes
    obtain ⟨es₂, h₂, rfl⟩ := Option.map_eq_some_iff.1 hrest
    have hf := f.law p.1 es₁ get h₁ fun key hkey => by
      have hother : es₂.lookup key = none := lookup_eq_none fun e he hk =>
        not_mem_of_apart apart hkey (by rw [← hk]; exact g.ser_keys _ _ h₂ e he)
      rw [hget key (List.mem_append_left _ hkey), List.lookup_append, hother, Option.or_none]
    have hg := g.law p.2 es₂ get h₂ fun key hkey => by
      have hother : es₁.lookup key = none := lookup_eq_none fun e he hk =>
        not_mem_of_apart apart (by rw [← hk]; exact f.ser_keys _ _ h₁ e he) hkey
      rw [hget key (List.mem_append_right _ hkey), List.lookup_append, hother, Option.none_or]
    rw [allFinite_append, ← hf, ← hg]
    simp [Option.bind_eq_some_iff, Option.map_eq_some_iff, Prod.ext_iff]

/-- The fields of a structure that has no others. -/
def transport (f : Fields α) (e : α ≃ β) : Fields β where
  keys := f.keys
  ser b := f.ser (e.symm b)
  de get := (f.de get).map e
  floats b := f.floats (e.symm b)
  ser_keys b := f.ser_keys (e.symm b)
  nodup b := f.nodup (e.symm b)
  law b es get hes hget := by
    rw [← f.law _ es get hes hget, Option.map_eq_some_iff]
    constructor
    · rintro ⟨a, ha, rfl⟩
      rw [ha, e.symm_apply_apply]
    · exact fun h => ⟨_, h, e.apply_symm_apply b⟩

/-- The entries of a structure. A key of its own may be there once, and other keys are passed over. -/
def entries (f : Fields α) : Entries α where
  keys := f.keys
  ser := f.ser
  de es := if ((es.map Prod.fst).filter (f.keys.contains ·)).Nodup then
      f.de fun key => es.lookup key
    else none
  floats := f.floats
  ser_keys := f.ser_keys
  law a es hes := by
    have hnodup : ((es.map Prod.fst).filter (f.keys.contains ·)).Nodup :=
      (f.nodup a es hes).filter _
    rw [if_pos hnodup]
    exact f.law a es _ hes fun _ _ => rfl

end Fields

/-! ## Enumerations -/

/-- Something that is written with keys of its own. -/
class Keyed (P : Type) where
  keysOf : P → List String

instance : Keyed Json := ⟨fun _ => []⟩

instance : Keyed (List (String × Json)) := ⟨List.map Prod.fst⟩

/-- A variant of an enumeration, with what is written of its values. Of a variant that is `bare` only
one thing is ever written. -/
structure Variant (P α : Type) [Keyed P] where
  name : String
  keys : List String
  bare : Option P
  has : α → Bool
  ser : α → Option P
  de : P → Option α
  floats : α → List Float32
  ser_keys (a : α) (p : P) : ser a = some p → ∀ key ∈ Keyed.keysOf p, key ∈ keys
  bare_ser (a : α) (p q : P) : bare = some p → ser a = some q → q = p
  law (a : α) (p : P) : has a = true → ser a = some p → (de p = some a ↔ AllFinite (floats a))

namespace Variant

variable {P α β : Type} [Keyed P]

/-- A variant without a value, of which `p` is written. -/
def only [DecidableEq α] (name : String) (p : P) (reads : P → Bool) (h : reads p = true) (a : α) :
    Variant P α where
  name := name
  keys := Keyed.keysOf p
  bare := some p
  has b := decide (b = a)
  ser _ := some p
  de q := if reads q then some a else none
  floats _ := []
  ser_keys _ _ hq := by
    cases hq
    exact fun _ => id
  bare_ser _ _ _ hp hq := Option.some.inj (hq.symm.trans hp)
  law b q hb hq := by
    cases hq
    simp [h, of_decide_eq_true hb]

/-- A variant with a value. -/
def carrying (name : String) (inj : β → α) (proj : α → Option β)
    (hinj : ∀ a b, proj a = some b ↔ inj b = a) (ser : β → Option P) (de : P → Option β)
    (floats : β → List Float32) (keys : List String)
    (ser_keys : ∀ b p, ser b = some p → ∀ key ∈ Keyed.keysOf p, key ∈ keys)
    (law : ∀ b p, ser b = some p → (de p = some b ↔ AllFinite (floats b))) : Variant P α where
  name := name
  keys := keys
  bare := none
  has a := (proj a).isSome
  ser a := (proj a).bind ser
  de p := (de p).map inj
  floats a := (proj a).elim [] floats
  ser_keys a p hp := by
    obtain ⟨b, -, hb⟩ := Option.bind_eq_some_iff.1 hp
    exact ser_keys b p hb
  bare_ser _ _ _ hp := by cases hp
  law a p ha hp := by
    obtain ⟨b, hb⟩ := Option.isSome_iff_exists.1 ha
    rw [hb] at hp ⊢
    rw [Option.elim_some, ← law b p hp, Option.map_eq_some_iff]
    constructor
    · rintro ⟨b', hb', he⟩
      rw [← hinj, hb] at he
      rw [hb', Option.some.inj he]
    · exact fun h => ⟨b, h, (hinj a b).1 hb⟩

/-- A variant without a value, beside others that may have one. -/
def unit [DecidableEq α] (name : String) (a : α) : Variant Json α :=
  only name .null (fun | .null => true | _ => false) rfl a

/-- A variant that is written as its value. -/
def newtype (name : String) (f : Format β) (inj : β → α) (proj : α → Option β)
    (hinj : ∀ a b, proj a = some b ↔ inj b = a) : Variant Json α :=
  carrying name inj proj hinj f.ser f.de f.floats [] (fun _ _ _ _ h => h) f.law

/-- A variant without a value, beside whose tag nothing is written. What is there is passed over. -/
def alone [DecidableEq α] (name : String) (a : α) : Variant (List (String × Json)) α :=
  only name [] (fun _ => true) rfl a

/-- A variant beside whose tag the entries of its value are written. -/
def merged (name : String) (f : Entries β) (inj : β → α) (proj : α → Option β)
    (hinj : ∀ a b, proj a = some b ↔ inj b = a) : Variant (List (String × Json)) α :=
  carrying name inj proj hinj f.ser f.de f.floats f.keys
    (fun a es h key hkey => by
      obtain ⟨x, hx, rfl⟩ := List.mem_map.1 hkey
      exact f.ser_keys a es h x hx) f.law

end Variant

/-- The variants of an enumeration. -/
structure Enumeration (P α : Type) [Keyed P] where
  variants : List (Variant P α)
  names : (variants.map (·.name)).Nodup
  covers (a : α) : (variants.find? (·.has a)).isSome = true

namespace Enumeration

variable {P α : Type} [Keyed P] (e : Enumeration P α)

/-- The variant of a value. -/
def variant (a : α) : Variant P α := (e.variants.find? (·.has a)).get (e.covers a)

theorem variant_has (a : α) : (e.variant a).has a = true :=
  List.find?_some (p := fun v : Variant P α => v.has a) (Option.some_get (e.covers a)).symm

theorem find_name {vs : List (Variant P α)} (h : (vs.map (·.name)).Nodup) {v : Variant P α}
    (hv : v ∈ vs) : vs.find? (·.name == v.name) = some v := by
  induction vs with
  | nil => cases hv
  | cons w vs ih =>
    rw [List.map_cons, List.nodup_cons] at h
    rcases List.mem_cons.1 hv with rfl | hv
    · exact List.find?_cons_of_pos (beq_self_eq_true _)
    · rw [List.find?_cons_of_neg, ih h.2 hv]
      intro he
      exact h.1 (List.mem_map.2 ⟨v, hv, (eq_of_beq he).symm⟩)

theorem variant_mem (a : α) : e.variant a ∈ e.variants :=
  List.mem_of_find?_eq_some (Option.some_get (e.covers a)).symm

/-- The variant of a value is found by its name. -/
theorem find_variant (a : α) :
    e.variants.find? (·.name == (e.variant a).name) = some (e.variant a) :=
  find_name e.names (e.variant_mem a)

def floats (a : α) : List Float32 := (e.variant a).floats a

theorem law (a : α) (p : P) (h : (e.variant a).ser a = some p) :
    (e.variant a).de p = some a ↔ AllFinite (e.floats a) :=
  (e.variant a).law a p (e.variant_has a) h

/-- Variants of which none has a value. -/
def named [DecidableEq α] (name : α → String) (all : List α) (names : (all.map name).Nodup)
    (covers : ∀ a, a ∈ all) : Enumeration Json α where
  variants := all.map fun a => .unit (name a) a
  names := by rwa [List.map_map]
  covers a := by
    rw [List.find?_isSome]
    exact ⟨_, List.mem_map_of_mem (covers a), decide_eq_true rfl⟩

theorem named_floats [DecidableEq α] {name : α → String} {all : List α}
    {names : (all.map name).Nodup} {covers : ∀ a, a ∈ all} (a : α) :
    (named name all names covers).floats a = [] := by
  obtain ⟨b, -, hb⟩ := List.mem_map.1 ((named name all names covers).variant_mem a)
  rw [floats, ← hb]
  rfl

end Enumeration

/-- What is read of an entry that is a variant's name and its value. -/
def Enumeration.deEntry {α : Type} (e : Enumeration Json α) (name : String) (j : Json) : Option α :=
  (e.variants.find? (·.name == name)).bind fun v => v.de j

/-- An enumeration whose values are entries: the name of the variant, and the value. -/
def Enumeration.entry {α : Type} (e : Enumeration Json α) : Entries α where
  keys := e.variants.map (·.name)
  ser a := ((e.variant a).ser a).map fun j => [((e.variant a).name, j)]
  de
    | [(name, j)] => e.deEntry name j
    | _ => none
  floats := e.floats
  ser_keys a es hes := by
    obtain ⟨j, -, rfl⟩ := Option.map_eq_some_iff.1 hes
    simpa using ⟨e.variant a, e.variant_mem a, rfl⟩
  law a es hes := by
    obtain ⟨j, hj, rfl⟩ := Option.map_eq_some_iff.1 hes
    change e.deEntry _ j = some a ↔ _
    rw [Enumeration.deEntry, e.find_variant]
    exact e.law a j hj

/-- An enumeration whose values are objects of one entry, or the name alone where a variant has no
value. -/
def Enumeration.external {α : Type} (e : Enumeration Json α) : Format α where
  ser a := ((e.variant a).ser a).map fun j =>
    if (e.variant a).bare.isSome then .str (e.variant a).name else .obj [((e.variant a).name, j)]
  de
    | .str name => (e.variants.find? (·.name == name)).bind fun v => v.bare.bind v.de
    | .obj [(name, j)] => e.deEntry name j
    | _ => none
  floats := e.floats
  law a j hj := by
    obtain ⟨p, hp, rfl⟩ := Option.map_eq_some_iff.1 hj
    rw [← e.law a p hp]
    cases hbare : (e.variant a).bare with
    | none =>
      rw [if_neg (by simp)]
      change e.deEntry _ p = some a ↔ _
      rw [Enumeration.deEntry, e.find_variant, Option.bind_some]
    | some q =>
      change ((e.variants.find? (·.name == (e.variant a).name)).bind fun v => v.bare.bind v.de) =
        some a ↔ _
      rw [e.find_variant, Option.bind_some, hbare, Option.bind_some,
        (e.variant a).bare_ser a q p hbare hp]

/-- The names of an enumeration of which no variant has a value. -/
def Format.names {α : Type} [DecidableEq α] (name : α → String) (all : List α)
    (names : (all.map name).Nodup) (covers : ∀ a, a ∈ all) : Format α :=
  (Enumeration.named name all names covers).external.reading (fun _ => [])
    Enumeration.named_floats

/-- An enumeration whose values are the entries beside a tag that names the variant. -/
def Enumeration.internal {α : Type} (e : Enumeration (List (String × Json)) α) (tag : String)
    (fresh : e.variants.all (!·.keys.contains tag) = true) : Entries α where
  keys := tag :: e.variants.flatMap (·.keys)
  ser a := ((e.variant a).ser a).map fun es => (tag, .str (e.variant a).name) :: es
  de es :=
    match es.filter (·.1 == tag) with
    | [(_, .str name)] => (e.variants.find? (·.name == name)).bind fun v =>
        v.de (es.filter (·.1 != tag))
    | _ => none
  floats := e.floats
  ser_keys a es hes := by
    obtain ⟨es', hes', rfl⟩ := Option.map_eq_some_iff.1 hes
    intro x hx
    rcases List.mem_cons.1 hx with rfl | hx
    · exact List.mem_cons_self
    · exact List.mem_cons_of_mem _ (List.mem_flatMap.2 ⟨_, e.variant_mem a,
        (e.variant a).ser_keys a es' hes' _ (List.mem_map_of_mem hx)⟩)
  law a es hes := by
    obtain ⟨es', hes', rfl⟩ := Option.map_eq_some_iff.1 hes
    have hother : ∀ x ∈ es', (x.1 == tag) = false := fun x hx => by
      rw [beq_eq_false_iff_ne]
      intro he
      have htag := List.all_eq_true.1 fresh _ (e.variant_mem a)
      simp only [Bool.not_eq_true', List.contains_eq_mem, decide_eq_false_iff_not] at htag
      refine htag ?_
      rw [← he]
      exact (e.variant a).ser_keys a es' hes' _ (List.mem_map_of_mem hx)
    have htags : ((tag, Json.str (e.variant a).name) :: es').filter (·.1 == tag) =
        [(tag, .str (e.variant a).name)] := by
      rw [List.filter_cons, if_pos (beq_self_eq_true tag), List.filter_eq_nil_iff.2]
      intro x hx
      simp [hother x hx]
    have hrest : ((tag, Json.str (e.variant a).name) :: es').filter (·.1 != tag) = es' := by
      rw [List.filter_cons, if_neg (by simp), List.filter_eq_self]
      intro x hx
      simp [bne, hother x hx]
    rw [← e.law a es' hes', htags, hrest]
    dsimp only
    rw [e.find_variant, Option.bind_some]

end Wire
