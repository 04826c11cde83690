import Mathlib.Data.List.Sort

/-!
# Semantic versions

The versions that name releases. Equality is of all five parts, the build metadata included: it is
the equality of the text, so two versions have one directory name only if they are equal.

* `Version.compare`: the order of releases. A pre-release comes before its release, and build
  metadata breaks the ties that precedence leaves.
-/

namespace Paperclip

/-- A version. An identifier of `pre` or `build` is what stands between two dots. -/
structure Version where
  major : Nat
  minor : Nat
  patch : Nat
  pre : List String
  build : List String
  deriving DecidableEq, Repr

namespace Version

/-- `major.minor.patch` with neither a pre-release nor build metadata. -/
def new (major minor patch : Nat) : Version := ⟨major, minor, patch, [], []⟩

/-- Numbers come before words; numbers compare by value and then by leading zeros. -/
def compareIdentifier (a b : String) : Ordering :=
  match a.toList.all Char.isDigit, b.toList.all Char.isDigit with
  | false, true => .gt
  | true, false => .lt
  | false, false => compare a b
  | true, true =>
    let a' := a.toList.dropWhile (· == '0')
    let b' := b.toList.dropWhile (· == '0')
    ((compare a'.length b'.length).then (compare (String.ofList a') (String.ofList b'))).then
      (compare a.length b.length)

/-- Identifier by identifier; a list that ends first comes first. -/
def compareIdentifiers : List String → List String → Ordering
  | [], [] => .eq
  | [], _ :: _ => .lt
  | _ :: _, [] => .gt
  | a :: as, b :: bs => (compareIdentifier a b).then (compareIdentifiers as bs)

/-- The order of pre-releases, where none is the greatest. -/
def comparePre : List String → List String → Ordering
  | [], [] => .eq
  | [], _ :: _ => .gt
  | _ :: _, [] => .lt
  | a, b => compareIdentifiers a b

/-- The total order of versions. -/
def compare (v w : Version) : Ordering :=
  ((((Ord.compare v.major w.major).then (Ord.compare v.minor w.minor)).then
    (Ord.compare v.patch w.patch)).then (comparePre v.pre w.pre)).then
      (compareIdentifiers v.build w.build)

/-- Whether `v` comes before `w`. -/
def lt (v w : Version) : Prop := v.compare w = .lt

/-- Whether `v` is `w` or comes before it. -/
def le (v w : Version) : Prop := v.compare w ≠ .gt

instance (v w : Version) : Decidable (v.lt w) := inferInstanceAs (Decidable (_ = _))

instance : DecidableRel le := fun _ _ => inferInstanceAs (Decidable (_ ≠ _))

/-- The text of a version, which is also the name of a release directory. -/
def toString (v : Version) : String :=
  let core := s!"{v.major}.{v.minor}.{v.patch}"
  let pre := if v.pre = [] then "" else "-" ++ ".".intercalate v.pre
  let build := if v.build = [] then "" else "+" ++ ".".intercalate v.build
  core ++ pre ++ build

instance : ToString Version := ⟨toString⟩

end Version

end Paperclip
