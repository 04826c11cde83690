import Mathlib.Algebra.Group.Nat.Defs
import Mathlib.Data.List.Basic
import Mathlib.Data.Nat.Notation

/-!
# Finding the pen and the touchscreen

Which of the nodes of `/dev/input` a session reads.

* `classify`: what a node is, from the bits it advertises.
* `resolve`: the node of a role, by the name that was confirmed and by what the bits say.
* `OrderFree`: the order of the nodes decides nothing, and a name on a node of another role is
  reported.
* `Torn`: the confirmed name is on a node of the role and on one of another role.
* `orderFree_iff`: the order decides nothing just if no name is torn.
-/

namespace Paperclip.Device

/-- What a node appears to be. -/
inductive InputRole where
  | pen
  | touch
  | powerKey
  | other
  deriving DecidableEq, Repr

/-- A bitmap of what a node advertises. -/
structure Capabilities where
  bits : List UInt8
  deriving DecidableEq, Repr

/-- The node advertises `code`. -/
def Capabilities.has (caps : Capabilities) (code : ℕ) : Bool :=
  match caps.bits[code / 8]? with
  | none => false
  | some value => value.toNat / 2 ^ (code % 8) % 2 = 1

def btnToolPen : ℕ := 0x140
def keyPower : ℕ := 0x74
def absMtPositionX : ℕ := 0x35

/-- What a node is. A pen reports positions too, so that the pen is asked for first. -/
def classify (keys abs : Capabilities) : InputRole :=
  if keys.has btnToolPen then .pen
  else if abs.has absMtPositionX then .touch
  else if keys.has keyPower then .powerKey
  else .other

def penName : String := "Elan marker input"
def touchName : String := "Elan touch input"

/-- The name that was confirmed for a role. -/
def expectedName : InputRole → Option String
  | .pen => some penName
  | .touch => some touchName
  | .powerKey => none
  | .other => none

/-- A node and what it turned out to be. -/
structure InputNode where
  path : String
  name : String
  role : InputRole
  deriving DecidableEq, Repr

/-- The only node with a role. -/
def sole (nodes : List InputNode) (role : InputRole) : Option InputNode :=
  match nodes.filter (·.role = role) with
  | [first] => some first
  | _ => none

/-- How a role was resolved, or why it was not. -/
inductive Resolution where
  | confirmed (node : InputNode)
  | nameChanged (node : InputNode) (expected : String)
  | contradictory (node : InputNode)
  | unresolved
  deriving DecidableEq, Repr

/-- The node to read from. -/
def Resolution.node : Resolution → Option InputNode
  | .confirmed node => some node
  | .nameChanged node _ => some node
  | .contradictory _ => none
  | .unresolved => none

/-- The kinds of a resolution. -/
inductive ResolutionKind where
  | confirmed
  | nameChanged
  | contradictory
  | unresolved
  deriving DecidableEq, Repr

def Resolution.kind : Resolution → ResolutionKind
  | .confirmed _ => .confirmed
  | .nameChanged _ _ => .nameChanged
  | .contradictory _ => .contradictory
  | .unresolved => .unresolved

/-- The first node with the confirmed name, if it is not of the role. -/
def impostor (nodes : List InputNode) (role : InputRole) : Option InputNode := do
  let expected ← expectedName role
  let named ← nodes.find? (·.name = expected)
  if named.role ≠ role then some named else none

/-- A role by its only node. -/
def resolveSole (nodes : List InputNode) (role : InputRole) : Resolution :=
  match sole nodes role with
  | none => .unresolved
  | some node =>
    match expectedName role with
    | some expected =>
      if node.name ≠ expected then .nameChanged node expected else .confirmed node
    | none => .confirmed node

/-- Resolves a role against the names and the bits. -/
def resolve (nodes : List InputNode) (role : InputRole) : Resolution :=
  match impostor nodes role with
  | some named => .contradictory named
  | none => resolveSole nodes role

/-- The node has the name that was confirmed for the role. -/
def Bears (node : InputNode) (role : InputRole) : Prop := expectedName role = some node.name

/-- The order of the nodes decides nothing, and a name on a node of another role is reported. -/
structure OrderFree (nodes : List InputNode) (role : InputRole) : Prop where
  kind : ∀ nodes' : List InputNode, nodes'.Perm nodes →
    (resolve nodes' role).kind = (resolve nodes role).kind
  node : ∀ nodes' : List InputNode, nodes'.Perm nodes →
    (resolve nodes' role).node = (resolve nodes role).node
  contradictory : (resolve nodes role).kind = .contradictory ↔
    ∃ node ∈ nodes, Bears node role ∧ node.role ≠ role

/-- The confirmed name is on a node of the role and on one of another role. -/
def Torn (nodes : List InputNode) (role : InputRole) : Prop :=
  (∃ node ∈ nodes, Bears node role ∧ node.role = role) ∧
    ∃ node ∈ nodes, Bears node role ∧ node.role ≠ role

section

variable {nodes nodes' : List InputNode} {role : InputRole}

theorem sole_eq_some {node : InputNode} :
    sole nodes role = some node ↔
      nodes.filter (fun node => decide (node.role = role)) = [node] := by
  unfold sole
  split
  · next first hf => rw [hf, Option.some.injEq, List.cons.injEq, and_iff_left rfl]
  · next hn =>
    constructor
    · intro h
      cases h
    · intro h
      exact absurd h (hn node)

/-- The only node of a role is so in every order. -/
theorem sole_perm (h : nodes'.Perm nodes) (role : InputRole) :
    sole nodes' role = sole nodes role := by
  have hp := h.filter (fun node => decide (node.role = role))
  apply Option.ext
  intro node
  rw [sole_eq_some, sole_eq_some]
  constructor
  · intro hf
    rw [hf] at hp
    exact List.perm_singleton.1 hp.symm
  · intro hf
    rw [hf] at hp
    exact List.perm_singleton.1 hp

theorem resolveSole_perm (h : nodes'.Perm nodes) (role : InputRole) :
    resolveSole nodes' role = resolveSole nodes role := by
  unfold resolveSole
  rw [sole_perm h]

/-- A role by its only node is no contradiction. -/
theorem resolveSole_kind : (resolveSole nodes role).kind ≠ .contradictory := by
  unfold resolveSole
  repeat' split
  all_goals simp [Resolution.kind]

/-- What an impostor is. -/
theorem impostor_some {named : InputNode} (h : impostor nodes role = some named) :
    named ∈ nodes ∧ Bears named role ∧ named.role ≠ role := by
  obtain ⟨expected, he, h⟩ := Option.bind_eq_some_iff.1 h
  obtain ⟨found, hf, h⟩ := Option.bind_eq_some_iff.1 h
  split at h
  · next hr =>
    obtain rfl := Option.some.inj h
    have hn : found.name = expected := by simpa using List.find?_some hf
    exact ⟨List.mem_of_find?_eq_some hf, by rw [Bears, he, hn], hr⟩
  · cases h

/-- Without an impostor, the name is on no node or on one of the role. -/
theorem impostor_none (h : impostor nodes role = none) :
    (∀ node ∈ nodes, ¬ Bears node role) ∨ ∃ node ∈ nodes, Bears node role ∧ node.role = role := by
  rcases he : expectedName role with _ | expected
  · left
    intro node _ hb
    rw [Bears, he] at hb
    cases hb
  rcases hf : nodes.find? (·.name = expected) with _ | found
  · left
    intro node hm hb
    rw [Bears, he] at hb
    have := List.find?_eq_none.1 hf node hm
    simp [Option.some.inj hb] at this
  · right
    have hn : found.name = expected := by simpa using List.find?_some hf
    refine ⟨found, List.mem_of_find?_eq_some hf, by rw [Bears, he, hn], ?_⟩
    by_contra hr
    simp [impostor, he, hf, hr] at h

theorem resolve_of_impostor {named : InputNode} (h : impostor nodes role = some named) :
    resolve nodes role = .contradictory named := by
  rw [resolve, h]

theorem resolve_of_none (h : impostor nodes role = none) :
    resolve nodes role = resolveSole nodes role := by
  rw [resolve, h]

/-- Without a node of another role under the name there is no impostor. -/
theorem impostor_eq_none (h : ¬ ∃ node ∈ nodes, Bears node role ∧ node.role ≠ role) :
    impostor nodes role = none := by
  rcases hi : impostor nodes role with _ | named
  · rfl
  · exact absurd ⟨named, impostor_some hi⟩ h

/-- Without a node of the role under the name, a node under the name makes an impostor. -/
theorem exists_impostor (h : ∃ node ∈ nodes, Bears node role)
    (hn : ¬ ∃ node ∈ nodes, Bears node role ∧ node.role = role) :
    ∃ named, impostor nodes role = some named := by
  rcases hi : impostor nodes role with _ | named
  · obtain ⟨node, hm, hb⟩ := h
    rcases impostor_none hi with hno | hyes
    · exact absurd hb (hno node hm)
    · exact absurd hyes hn
  · exact ⟨named, rfl⟩

/-- A torn name is resolved by the node that comes first. -/
theorem exists_perm_of_torn (h : Torn nodes role) :
    ∃ nodes' : List InputNode, nodes'.Perm nodes ∧ (resolve nodes' role).kind ≠ .contradictory := by
  obtain ⟨⟨node, hm, hb, hr⟩, -⟩ := h
  refine ⟨node :: nodes.erase node, (List.perm_cons_erase hm).symm, ?_⟩
  have hi : impostor (node :: nodes.erase node) role = none := by
    simp only [Bears] at hb
    simp [impostor, hb, hr]
  rw [resolve_of_none hi]
  exact resolveSole_kind

/-- With the name on nodes of other roles alone, every order has an impostor. -/
theorem resolve_of_other (ht : ¬ Torn nodes role)
    (ho : ∃ node ∈ nodes, Bears node role ∧ node.role ≠ role) (hp : nodes'.Perm nodes) :
    ∃ named, resolve nodes' role = .contradictory named := by
  obtain ⟨other, hm, hb, hr⟩ := ho
  obtain ⟨named, hi⟩ := exists_impostor ⟨other, hp.mem_iff.2 hm, hb⟩ (fun ⟨node, hm', hn⟩ =>
    ht ⟨⟨node, hp.mem_iff.1 hm', hn⟩, ⟨other, hm, hb, hr⟩⟩)
  exact ⟨named, resolve_of_impostor hi⟩

/-- With the name on no node of another role, the only node of the role decides. -/
theorem resolve_of_agreed (ha : ¬ ∃ node ∈ nodes, Bears node role ∧ node.role ≠ role)
    (hp : nodes'.Perm nodes) : resolve nodes' role = resolveSole nodes role := by
  have hi : impostor nodes' role = none :=
    impostor_eq_none fun ⟨node, hm, hn⟩ => ha ⟨node, hp.mem_iff.1 hm, hn⟩
  rw [resolve_of_none hi, resolveSole_perm hp]

/-- The order of the nodes decides nothing, and a name on a node of another role is reported, just
if the confirmed name is not both on a node of the role and on one of another role. -/
theorem orderFree_iff (nodes : List InputNode) (role : InputRole) :
    OrderFree nodes role ↔ ¬ Torn nodes role := by
  constructor
  · intro h ht
    obtain ⟨nodes', hp, hk⟩ := exists_perm_of_torn ht
    exact hk (h.kind nodes' hp ▸ h.contradictory.2 ht.2)
  · intro ht
    by_cases ho : ∃ node ∈ nodes, Bears node role ∧ node.role ≠ role
    · obtain ⟨named, hr⟩ := resolve_of_other ht ho (.refl _)
      refine ⟨fun nodes' hp => ?_, fun nodes' hp => ?_, fun _ => ho, fun _ => by rw [hr]; rfl⟩
      · obtain ⟨named', hr'⟩ := resolve_of_other ht ho hp
        rw [hr, hr']
        rfl
      · obtain ⟨named', hr'⟩ := resolve_of_other ht ho hp
        rw [hr, hr']
        rfl
    · have hr := resolve_of_agreed ho (.refl _)
      refine ⟨fun nodes' hp => ?_, fun nodes' hp => ?_, fun hk => ?_, fun h => absurd h ho⟩
      · rw [resolve_of_agreed ho hp, hr]
      · rw [resolve_of_agreed ho hp, hr]
      · rw [hr] at hk
        exact absurd hk resolveSole_kind

end

/-- Two nodes of one name: the one advertises the button of a pen, the other positions alone. -/
def twoMarkers : List InputNode :=
  [⟨"/dev/input/event2", penName, classify ⟨List.replicate 40 0 ++ [1]⟩ ⟨[]⟩⟩,
    ⟨"/dev/input/event3", penName, classify ⟨[]⟩ ⟨[0, 0, 0, 0, 0, 0, 0x20]⟩⟩]

/-- The marker of the two that comes first decides, so that the other is not reported. -/
theorem twoMarkers_order : ¬ OrderFree twoMarkers .pen := by
  intro h
  have hk := h.kind twoMarkers.reverse twoMarkers.reverse_perm
  revert hk
  decide

end Paperclip.Device
