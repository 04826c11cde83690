import Paperclip.Compositor.Ownership

/-!
# Who is in the foreground

`Fronted s`: the foreground names a connected client, and while Home is connected it is Home or an
app. Which clients are connected, and in which role, moves the foreground (`Follows`); what they
draw does not.

Two things leave the panel with a stopped frame while Home is connected (`Strands`): Home connects
to it, or the last client that registered as Home has gone and an older one is still there. There is
no other: `foreground_is_home_iff`.
-/

namespace Paperclip.Compositor

open Protocol

/-- The role a connected client registered as. -/
def clientRole (s : Compositor) (id : ClientId) : Option ClientRole := (s.clients id).map (·.role)

/-- The foreground is connected; and while Home is connected it is in the foreground, unless an app
is. -/
structure Fronted (s : Compositor) : Prop where
  connected : ∀ id, s.foreground = .client id → (s.clientRole id).isSome
  home : (∃ id, s.clientRole id = some .home) →
    (∀ id, s.foreground = .client id → s.clientRole id ≠ some .app) →
    ∃ id, s.foreground = .client id ∧ s.clientRole id = some .home

/-- The connection that an input ends. -/
def closes (s : Compositor) : Input → Option ClientId
  | .hangUp id => (s.clients id).map fun _ => id
  | .request id request =>
    match s.clients id with
    | some client => if (client.refusal request).isSome then some id else none
    | none => none
  | .connect _ | .sleep | .wake => none

/-- Home connects to a panel that shows a stopped frame; or the foreground goes, no Home client is
registered once it has gone, and one is connected. -/
def Strands (s : Compositor) (input : Input) : Prop :=
  (∃ hello label, input = .connect hello ∧ hello.role = .home ∧ s.foreground = .stopped label) ∨
    ∃ id, s.closes input = some id ∧ s.foregroundClient = some id ∧
      (s.home = none ∨ s.home = some id) ∧ ∃ other ≠ id, s.clientRole other = some .home

/-! ## Connections and the foreground -/

/-- What is left when the client has gone, up to what is drawn. -/
def left (s : Compositor) (id : ClientId) (client : Client) : Compositor :=
  let s := s.forget id
  if s.foregroundClient = some id then
    match s.home with
    | none => { s with foreground := .stopped client.label }
    | some home => { s with foreground := .client home }
  else s

/-- The same connections, and the same foreground. -/
structure Alike (s t : Compositor) : Prop where
  role : t.clientRole = s.clientRole
  home : t.home = s.home
  foreground : t.foreground = s.foreground
  nextId : t.nextId = s.nextId

/-- What an input does to the connections and the foreground. -/
inductive Follows (s : Compositor) : Input → Compositor → Prop where
  | connected (hello : ClientHello) : Follows s (.connect hello) (s.connect hello).1
  | closed {input : Input} {id : ClientId} {client : Client} {s' : Compositor}
      (hcloses : s.closes input = some id) (hclient : s.clients id = some client)
      (halike : Alike (s.left id client) s') : Follows s input s'
  | kept {input : Input} {s' : Compositor} (hconnect : ∀ hello, input ≠ .connect hello)
      (hcloses : s.closes input = none) (halike : Alike s s') : Follows s input s'

section Follow

variable {o : Outcomes} {s s' t : Compositor} {id other : ClientId} {client : Client}

theorem Alike.refl (s : Compositor) : Alike s s := ⟨rfl, rfl, rfl, rfl⟩

theorem Alike.trans (h : Alike s s') (h' : Alike s' t) : Alike s t :=
  ⟨h'.role.trans h.role, h'.home.trans h.home, h'.foreground.trans h.foreground,
    h'.nextId.trans h.nextId⟩

/-- A change of what a client has drawn. -/
theorem Alike.setSurface (hclient : s.clients id = some client) (surface : Surface) :
    Alike s (s.setClient id (some { client with surface })) := by
  refine ⟨funext fun other => ?_, rfl, rfl, rfl⟩
  by_cases h : other = id
  · simp [clientRole, setClient, h, hclient]
  · simp [clientRole, setClient, h]

theorem Shows.alike {hs : List Happening} (h : Shows o s s' hs) : Alike s s' := by
  cases h with
  | nothing | unswapped => exact .refl s
  | covered _ hclient | shown _ hclient => exact .setSurface hclient _

theorem disconnect_of_unknown (hclient : s.clients id = none) : s.disconnect o id = (s, []) := by
  rw [disconnect, hclient]

/-- A client in the background goes. -/
theorem disconnect_of_back (hclient : s.clients id = some client)
    (hfront : s.foregroundClient ≠ some id) : (s.disconnect o id).1 = s.forget id := by
  rw [disconnect, hclient]
  dsimp only
  rw [if_neg (by exact hfront)]

/-- The foreground goes, and no Home client is registered. -/
theorem disconnect_of_last (hclient : s.clients id = some client)
    (hfront : s.foregroundClient = some id) (hhome : (s.forget id).home = none) :
    (s.disconnect o id).1 = { s.forget id with foreground := .stopped client.label } := by
  rw [disconnect, hclient]
  dsimp only
  rw [if_pos (by exact hfront)]
  split
  · rfl
  · next home h =>
    rw [hhome] at h
    cases h

/-- The foreground goes, and Home is shown. -/
theorem disconnect_of_home {home : ClientId} (hclient : s.clients id = some client)
    (hfront : s.foregroundClient = some id) (hhome : (s.forget id).home = some home) :
    (s.disconnect o id).1 =
      (presentForeground o { s.forget id with foreground := .client home }).1 := by
  rw [disconnect, hclient]
  dsimp only
  rw [if_pos (by exact hfront)]
  split
  · next h =>
    rw [hhome] at h
    cases h
  · next home' h =>
    obtain rfl := Option.some.inj (hhome.symm.trans h)
    rfl

theorem disconnect_alike (o : Outcomes) (hclient : s.clients id = some client) :
    Alike (s.left id client) (s.disconnect o id).1 := by
  unfold disconnect left
  rw [hclient]
  dsimp only
  by_cases hf : (s.forget id).foregroundClient = some id
  · rw [if_pos hf, if_pos hf]
    cases (s.forget id).home with
    | none => exact .refl _
    | some home => exact (presentForeground_shows o _).alike
  · rw [if_neg hf, if_neg hf]
    exact .refl _

theorem step_follows (o : Outcomes) (s : Compositor) (input : Input) :
    Follows s input (s.step o input).1 := by
  cases input with
  | connect hello => exact .connected hello
  | hangUp id =>
    show Follows s (.hangUp id) (s.disconnect o id).1
    cases hclient : s.clients id with
    | none =>
      refine .kept (by simp) (by simp [closes, hclient]) ?_
      rw [disconnect, hclient]
      exact .refl s
    | some client => exact .closed (by simp [closes, hclient]) hclient (disconnect_alike o hclient)
  | request id request =>
    show Follows s (.request id request) (s.handleRequest o id request).1
    unfold handleRequest
    split
    · next hclient => exact .kept (by simp) (by simp [closes, hclient]) (.refl s)
    next client hclient =>
    split
    · next slot =>
      split
      · next surface hattach =>
        exact .kept (by simp) (by simp [closes, hclient, Client.refusal, hattach])
          (.setSurface hclient surface)
      · next e herror =>
        exact .closed (by simp [closes, hclient, Client.refusal, herror]) hclient
          (disconnect_alike o hclient)
    · next damage =>
      split
      · next slot surface hcommit =>
        refine .kept (by simp) (by simp [closes, hclient, Client.refusal, hcommit]) ?_
        dsimp only
        split
        · exact (Alike.setSurface hclient surface).trans (presentForeground_shows o _).alike
        · exact .setSurface hclient surface
      · next e herror =>
        exact .closed (by simp [closes, hclient, Client.refusal, herror]) hclient
          (disconnect_alike o hclient)
  | sleep =>
    refine .kept (by simp) rfl ?_
    show Alike s (s.sleep o).1
    unfold sleep
    split
    · exact .refl s
    · split <;> exact ⟨rfl, rfl, rfl, rfl⟩
  | wake =>
    refine .kept (by simp) rfl ?_
    show Alike s (s.wake o).1
    unfold wake
    split
    · exact .refl s
    · have hunlocked : Alike s { s with locked := false } := ⟨rfl, rfl, rfl, rfl⟩
      dsimp only
      split
      · exact hunlocked.trans (presentForeground_shows o _).alike
      · exact hunlocked
      · exact hunlocked

/-! ## Reachable compositors -/

/-- The foreground and Home are connected, and what connects next is new. -/
structure Rooted (s : Compositor) : Prop where
  client : ∀ id, s.foreground = .client id → (s.clientRole id).isSome
  home : ∀ id, s.home = some id → s.clientRole id = some .home
  nobody : s.foreground = .none → ∀ id, s.clientRole id = none
  bound : ∀ id, s.nextId ≤ id → s.clientRole id = none

theorem rooted_bind (panelSize : Size) : Rooted (bind panelSize) where
  client id h := by cases h
  home id h := by cases h
  nobody _ _ := rfl
  bound _ _ := rfl

theorem Alike.rooted (h : Rooted s) (ha : Alike s t) : Rooted t where
  client := by
    rw [ha.foreground, ha.role]
    exact h.client
  home := by
    rw [ha.home, ha.role]
    exact h.home
  nobody := by
    rw [ha.foreground, ha.role]
    exact h.nobody
  bound := by
    rw [ha.nextId, ha.role]
    exact h.bound

theorem clientRole_forget (s : Compositor) (id : ClientId) (foreground : Foreground) :
    clientRole { s.forget id with foreground } = Function.update s.clientRole id none := by
  funext other
  by_cases h : other = id
  · simp [clientRole, forget, setClient, h]
  · simp [clientRole, forget, setClient, h]

theorem clientRole_connect (s : Compositor) (hello : ClientHello) :
    (s.connect hello).1.clientRole = Function.update s.clientRole s.nextId (some hello.role) := by
  funext other
  by_cases h : other = s.nextId
  · simp [clientRole, connect, setClient, h]
  · simp [clientRole, connect, setClient, h]

theorem home_forget (s : Compositor) (id : ClientId) :
    (s.forget id).home = if s.home = some id then none else s.home := rfl

/-- A connection that ends leaves the foreground alone, unless it is the foreground's. -/
theorem left_cases (s : Compositor) (id : ClientId) (client : Client) :
    (s.foregroundClient ≠ some id ∧ s.left id client = { s.forget id with foreground := s.foreground }) ∨
    (s.foregroundClient = some id ∧ (s.forget id).home = none ∧
      s.left id client = { s.forget id with foreground := .stopped client.label }) ∨
    ∃ home, s.foregroundClient = some id ∧ (s.forget id).home = some home ∧
      s.left id client = { s.forget id with foreground := .client home } := by
  unfold left
  dsimp only
  by_cases hf : (s.forget id).foregroundClient = some id
  · rw [if_pos hf]
    cases hhome : (s.forget id).home with
    | none => exact .inr (.inl ⟨hf, rfl, by simp⟩)
    | some home => exact .inr (.inr ⟨home, hf, rfl, rfl⟩)
  · rw [if_neg hf]
    exact .inl ⟨hf, rfl⟩

theorem foregroundClient_eq (s : Compositor) (id : ClientId) :
    s.foregroundClient = some id ↔ s.foreground = .client id := by
  unfold foregroundClient
  cases s.foreground <;> simp

theorem Rooted.connect (h : Rooted s) (hello : ClientHello) : Rooted (s.connect hello).1 where
  client id hid := by
    rw [clientRole_connect]
    by_cases heq : id = s.nextId
    · simp [heq]
    · rw [Function.update_of_ne heq]
      change (if _ then _ else _) = Foreground.client id at hid
      split at hid
      · exact absurd (Foreground.client.inj hid).symm heq
      · exact h.client id hid
  home id hid := by
    rw [clientRole_connect]
    change (if _ then _ else _) = some id at hid
    split at hid
    · next hrole =>
      obtain rfl := Option.some.inj hid
      rw [Function.update_self, hrole]
    · have hold := h.home id hid
      have hne : id ≠ s.nextId := by
        rintro rfl
        rw [h.bound _ le_rfl] at hold
        cases hold
      rw [Function.update_of_ne hne, hold]
  nobody hnone := by
    change (if _ then _ else _) = Foreground.none at hnone
    split at hnone
    · cases hnone
    · next hkept => exact absurd (.inl hnone) hkept
  bound id hle := by
    have hlt : s.nextId < id := hle
    rw [clientRole_connect, Function.update_of_ne hlt.ne']
    exact h.bound id hlt.le

theorem home_of_forget {home : ClientId} (h : (s.forget id).home = some home) :
    home ≠ id ∧ s.home = some home := by
  rw [home_forget] at h
  split at h
  · cases h
  · next hne =>
    refine ⟨?_, h⟩
    rintro rfl
    exact hne h

theorem returnsHome_of_forget {home : ClientId} (hfront : s.foregroundClient = some id)
    (h : (s.forget id).home = some home) : s.returnsHome id = some home := by
  obtain ⟨hne, hold⟩ := home_of_forget h
  rw [returnsHome, if_pos ⟨hfront, fun heq => hne (Option.some.inj (hold.symm.trans heq))⟩, hold]

/-- The foreground may be given to any client that is left, or to a stopped frame. -/
theorem Rooted.forget (h : Rooted s) (id : ClientId) {foreground : Foreground}
    (hclient : ∀ front, foreground = .client front → front ≠ id ∧ (s.clientRole front).isSome)
    (hnone : foreground = .none → s.foreground = .none) :
    Rooted { s.forget id with foreground } where
  client front hfront := by
    obtain ⟨hne, hrole⟩ := hclient front hfront
    rw [clientRole_forget, Function.update_of_ne hne]
    exact hrole
  home home hhome := by
    obtain ⟨hne, hold⟩ := home_of_forget hhome
    rw [clientRole_forget, Function.update_of_ne hne]
    exact h.home home hold
  nobody hfront other := by
    rw [clientRole_forget]
    by_cases heq : other = id
    · simp [heq]
    · rw [Function.update_of_ne heq]
      exact h.nobody (hnone hfront) other
  bound other hle := by
    rw [clientRole_forget]
    by_cases heq : other = id
    · simp [heq]
    · rw [Function.update_of_ne heq]
      exact h.bound other hle

theorem Rooted.left (h : Rooted s) (id : ClientId) (client : Client) :
    Rooted (s.left id client) := by
  rcases left_cases s id client with ⟨hf, heq⟩ | ⟨-, -, heq⟩ | ⟨home, -, hhome, heq⟩
  · rw [heq]
    refine h.forget id (fun front hfront => ⟨?_, h.client front hfront⟩) (fun hnone => hnone)
    rintro rfl
    exact hf ((foregroundClient_eq s front).mpr hfront)
  · rw [heq]
    exact h.forget id (fun _ hfront => by cases hfront) (fun hnone => by cases hnone)
  · obtain ⟨hne, hold⟩ := home_of_forget hhome
    rw [heq]
    refine h.forget id (fun front hfront => ?_) (fun hnone => by cases hnone)
    obtain rfl := Foreground.client.inj hfront
    exact ⟨hne, by rw [h.home _ hold]; rfl⟩

theorem Rooted.follows {input : Input} (h : Rooted s) (hf : Follows s input s') : Rooted s' := by
  cases hf with
  | connected hello => exact h.connect hello
  | closed _ _ halike => exact halike.rooted (h.left _ _)
  | kept _ _ halike => exact halike.rooted h

/-- A stopped frame is shown while Home is connected. -/
def Stranded (s : Compositor) : Prop :=
  (∃ label, s.foreground = .stopped label) ∧ ∃ id, s.clientRole id = some .home

theorem Rooted.fronted_iff (h : Rooted s) : Fronted s ↔ ¬ Stranded s := by
  constructor
  · rintro hf ⟨⟨label, hlabel⟩, hhome⟩
    obtain ⟨id, hid, -⟩ := hf.home hhome (by simp [hlabel])
    rw [hlabel] at hid
    cases hid
  · intro hn
    refine ⟨h.client, ?_⟩
    rintro ⟨id, hid⟩ happ
    cases hf : s.foreground with
    | none =>
      rw [h.nobody hf id] at hid
      cases hid
    | stopped label => exact absurd ⟨⟨label, hf⟩, id, hid⟩ hn
    | client front =>
      refine ⟨front, rfl, ?_⟩
      obtain ⟨role, hrole⟩ := Option.isSome_iff_exists.mp (h.client front hf)
      cases role with
      | home => exact hrole
      | app => exact absurd hrole (happ front hf)

theorem Alike.stranded (ha : Alike s t) : Stranded t ↔ Stranded s := by
  unfold Stranded
  rw [ha.foreground, ha.role]

/-- A compositor is stranded by the client that leaves a stopped frame to Home. -/
theorem stranded_left (hn : ¬ Stranded s) (id : ClientId) (client : Client) :
    Stranded (s.left id client) ↔ s.foregroundClient = some id ∧ (s.forget id).home = none ∧
      ∃ other ≠ id, s.clientRole other = some .home := by
  rcases left_cases s id client with ⟨hf, heq⟩ | ⟨hf, hhome, heq⟩ | ⟨home, hf, hhome, heq⟩
  · rw [heq]
    refine ⟨fun hs => absurd ?_ hn, fun h => absurd h.1 hf⟩
    obtain ⟨hstopped, other, hother⟩ := hs
    rw [clientRole_forget] at hother
    refine ⟨hstopped, other, ?_⟩
    by_cases hid : other = id
    · simp [hid] at hother
    · rwa [Function.update_of_ne hid] at hother
  · rw [heq]
    unfold Stranded
    rw [clientRole_forget]
    constructor
    · rintro ⟨-, other, hother⟩
      have hid : other ≠ id := by
        rintro rfl
        simp at hother
      rw [Function.update_of_ne hid] at hother
      exact ⟨hf, hhome, other, hid, hother⟩
    · rintro ⟨-, -, other, hid, hother⟩
      exact ⟨⟨client.label, rfl⟩, other, by rwa [Function.update_of_ne hid]⟩
  · rw [heq]
    constructor
    · rintro ⟨⟨label, hlabel⟩, -⟩
      cases hlabel
    · rintro ⟨-, hnone, -⟩
      rw [hhome] at hnone
      cases hnone

theorem stranded_connect (hello : ClientHello) :
    Stranded (s.connect hello).1 ↔ hello.role = .home ∧ ∃ label, s.foreground = .stopped label := by
  constructor
  · rintro ⟨⟨label, hlabel⟩, id, hid⟩
    change (if _ then _ else _) = Foreground.stopped label at hlabel
    split at hlabel
    · cases hlabel
    · next hkept =>
      refine ⟨?_, label, hlabel⟩
      cases hrole : hello.role with
      | home => rfl
      | app => exact absurd (.inr hrole) hkept
  · rintro ⟨hrole, label, hlabel⟩
    refine ⟨⟨label, ?_⟩, s.nextId, ?_⟩
    · show (if _ then _ else _) = Foreground.stopped label
      rw [if_neg (by simp [hlabel, hrole]), hlabel]
    · rw [clientRole_connect, Function.update_self, hrole]

/-- The two ways to strand a compositor. -/
theorem stranded_iff {input : Input} (hn : ¬ Stranded s) (hf : Follows s input s') :
    Stranded s' ↔ Strands s input := by
  cases hf with
  | connected hello =>
    rw [stranded_connect]
    constructor
    · rintro ⟨hrole, label, hlabel⟩
      exact .inl ⟨hello, label, rfl, hrole, hlabel⟩
    · rintro (⟨hello', label, heq, hrole, hlabel⟩ | ⟨id, hcloses, -⟩)
      · rw [Input.connect.inj heq]
        exact ⟨hrole, label, hlabel⟩
      · cases hcloses
  | @closed input id client _ hcloses hclient halike =>
    rw [halike.stranded, stranded_left hn]
    have hhome : (s.forget id).home = none ↔ s.home = none ∨ s.home = some id := by
      rw [home_forget]
      split <;> simp_all
    rw [hhome]
    constructor
    · rintro ⟨hfront, hhome, hother⟩
      exact .inr ⟨id, hcloses, hfront, hhome, hother⟩
    · rintro (⟨hello, label, rfl, -⟩ | ⟨id', hcloses', hrest⟩)
      · cases hcloses
      · obtain rfl := Option.some.inj (hcloses.symm.trans hcloses')
        exact hrest
  | kept hconnect hcloses halike =>
    rw [halike.stranded]
    refine ⟨fun hs => absurd hs hn, ?_⟩
    rintro (⟨hello, label, heq, -⟩ | ⟨id, hcloses', -⟩)
    · exact absurd heq (hconnect hello)
    · rw [hcloses] at hcloses'
      cases hcloses'

end Follow

/-- Every compositor of a run is fronted if and only if no step of it strands one. -/
theorem foreground_is_home_iff (panelSize : Size) (inputs : List (Input × Outcomes)) :
    (∀ past, past <+: inputs → Fronted ((bind panelSize).run [] past).1) ↔
      Along (fun s _ input => ¬ Strands s input) (bind panelSize) inputs := by
  have hrooted := rooted_bind panelSize
  have hstart : ¬ Stranded (bind panelSize) := by
    rintro ⟨⟨label, hlabel⟩, -⟩
    cases hlabel
  generalize bind panelSize = s at hrooted hstart
  generalize ([] : List Happening) = log
  induction inputs generalizing s log with
  | nil =>
    refine ⟨fun _ => trivial, fun _ past hpast => ?_⟩
    rw [List.prefix_nil.mp hpast]
    exact hrooted.fronted_iff.mpr hstart
  | cons first rest ih =>
    obtain ⟨input, o⟩ := first
    have hfollows := step_follows o s input
    have hnext := hrooted.follows hfollows
    have hiff := stranded_iff hstart hfollows
    constructor
    · intro h
      have hafter : ¬ Stranded (s.step o input).1 := hnext.fronted_iff.mp
        (h [(input, o)] (by simp))
      refine ⟨fun hs => hafter (hiff.mpr hs), (ih _ hnext hafter (log ++ (s.step o input).2)).mp fun past hpast => ?_⟩
      exact h ((input, o) :: past) (by simpa using hpast)
    · rintro ⟨hkept, hrest⟩ past hpast
      have hafter : ¬ Stranded (s.step o input).1 := fun hs => hkept (hiff.mp hs)
      rcases List.prefix_cons_iff.mp hpast with rfl | ⟨later, rfl, hlater⟩
      · exact hrooted.fronted_iff.mpr hstart
      · exact (ih _ hnext hafter _).mpr hrest later hlater

/-- Home dies in the foreground and is started again: it is connected, and the stopped frame stays. -/
theorem home_stays_behind : ¬ Fronted ((bind Sample.panel).run [] [
    (.connect ⟨.home, "Home", Sample.panel⟩, {}), (.hangUp 0, {}),
    (.connect ⟨.home, "Home", Sample.panel⟩, {})]).1 := by
  intro h
  obtain ⟨id, hid, -⟩ := h.home ⟨1, rfl⟩ (fun id hid => by cases hid)
  cases hid

end Paperclip.Compositor
