import Mathlib.Algebra.GroupWithZero.Nat
import Mathlib.Data.List.Basic
import StatEngine.Network.Basic

/-!
# What there is to see of a network

A node is made for one thing and stays made for it (`Kind`). What changes is what it holds on to: the
subscriptions it made, and, if it is cached, its `Flags`. The views of a network are functions of the
positions of its nodes, and every change of a network changes few of them.

## Main definitions

* `kind?`, `flags?`, `held`, `recorded` and `followed`: what a node is made for, its flags, its
  subscriptions, those of a formula to what it read, and those of an aggregate to its members;
* `relight`: the network with other flags.
-/

namespace StatEngine.Network

variable {N A σ : Type}

/-- What a node is made for. -/
inductive Kind (N A : Type) where
  | input (action : A)
  | absent
  | formula (source : FormulaSource N) (path : Path (Stat N))
  | cached (inner : Nat)
  | exposed (inner : Nat)
  | wrapped (inner : Nat)
  | aggregate (collection : Nat) (form : Form)

/-- The state of a cached node: whether a value is kept, whether the node was read since it last
announced a change, whether a change came in meanwhile, and whether it is being computed. -/
structure Flags (N : Type) where
  value : Option (Option (Amount N))
  observed : Bool
  stale : Bool
  entered : Bool

/-- The flags of a cached node. -/
def CachedNode.flags (c : CachedNode N A) : Flags N :=
  ⟨c.cache, c.observed, c.stale, c.guard.entered⟩

/-- A cached node with other flags. -/
def CachedNode.withFlags (c : CachedNode N A) (flags : Flags N) : CachedNode N A :=
  { c with
    cache := flags.value
    observed := flags.observed
    stale := flags.stale
    guard := ⟨flags.entered⟩ }

namespace Body

/-- What a node is made for. -/
def kind : Body N A → Kind N A
  | .input action => .input action
  | .absent => .absent
  | .formula f => .formula f.source f.path
  | .cached c => .cached c.inner
  | .exposed inner => .exposed inner
  | .wrapped inner _ => .wrapped inner
  | .aggregate a => .aggregate a.collection a.form

/-- The flags, if the node is cached. -/
def flags? : Body N A → Option (Flags N)
  | .cached c => some c.flags
  | _ => none

/-- The subscriptions a node made. -/
def held : Body N A → List Subscription
  | .formula f => f.dependencies.map (·.2) ++ f.trigger.toList
  | .cached c => c.subscription.toList
  | .wrapped _ subscription => subscription.toList
  | .aggregate a => a.subscription.toList ++ a.members.map (·.2)
  | _ => []

/-- What a formula read, with its subscriptions to that. -/
def recorded : Body N A → List (DependencyKey × Subscription)
  | .formula f => f.dependencies
  | _ => []

/-- The members an aggregate follows, with its subscriptions to them. -/
def followed : Body N A → List (Nat × Subscription)
  | .aggregate a => a.members
  | _ => []

/-- The listeners of the announcement of a cached node that is never held back. -/
def received : Body N A → List (Attached A)
  | .cached c => c.received
  | _ => []

end Body

/-- What the node at a position is made for. -/
def kind? (n : Network N A σ) (id : Nat) : Option (Kind N A) := (n.body? id).map (·.kind)

/-- The flags of the cached node at a position. -/
def flags? (n : Network N A σ) (id : Nat) : Option (Flags N) := ((n.body? id).map (·.flags?)).join

/-- The subscriptions of the node at a position. -/
def held (n : Network N A σ) (id : Nat) : List Subscription :=
  ((n.body? id).map (·.held)).getD []

/-- What the formula at a position read, with its subscriptions to that. -/
def recorded (n : Network N A σ) (id : Nat) : List (DependencyKey × Subscription) :=
  ((n.body? id).map (·.recorded)).getD []

/-- The members the aggregate at a position follows, with its subscriptions to them. -/
def followed (n : Network N A σ) (id : Nat) : List (Nat × Subscription) :=
  ((n.body? id).map (·.followed)).getD []

/-- The value that is kept at a position. -/
def value? (n : Network N A σ) (id : Nat) : Option (Option (Amount N)) :=
  (n.flags? id).bind (·.value)

/-- Whether the node at a position was read since it last announced a change. -/
def isObserved (n : Network N A σ) (id : Nat) : Bool := ((n.flags? id).map (·.observed)).getD false

/-- Whether the node at a position is being computed. -/
def isEntered (n : Network N A σ) (id : Nat) : Bool := ((n.flags? id).map (·.entered)).getD false

section Bodies

variable {n : Network N A σ} {id : Nat}

theorem body?_eq_some_iff {body : Body N A} :
    n.body? id = some body ↔ ∃ node, n.nodes[id]? = some node ∧ node.body = body := by
  simp [body?]

theorem cached?_eq_some_iff {c : CachedNode N A} :
    n.cached? id = some c ↔ n.body? id = some (.cached c) := by
  obtain hnode | ⟨⟨body, listeners, gone⟩, hnode⟩ := Option.eq_none_or_eq_some n.nodes[id]?
  · simp [cached?, body?, hnode]
  · cases body <;> simp [cached?, body?, hnode]

theorem formula?_eq_some_iff {f : FormulaNode N} :
    n.formula? id = some f ↔ n.body? id = some (.formula f) := by
  obtain hnode | ⟨⟨body, listeners, gone⟩, hnode⟩ := Option.eq_none_or_eq_some n.nodes[id]?
  · simp [formula?, body?, hnode]
  · cases body <;> simp [formula?, body?, hnode]

theorem aggregate?_eq_some_iff {a : AggregateNode} :
    n.aggregate? id = some a ↔ n.body? id = some (.aggregate a) := by
  obtain hnode | ⟨⟨body, listeners, gone⟩, hnode⟩ := Option.eq_none_or_eq_some n.nodes[id]?
  · simp [aggregate?, body?, hnode]
  · cases body <;> simp [aggregate?, body?, hnode]

end Bodies

/-! ## Changes of a node -/

/-- A node with another body. -/
def Node.mapBody (f : Body N A → Body N A) (node : Node N A) : Node N A :=
  { node with body := f node.body }

/-- The network with other bodies. -/
def mapBodies (n : Network N A σ) (f : Nat → Body N A → Body N A) : Network N A σ :=
  { n with nodes := n.nodes.mapIdx fun id node => node.mapBody (f id) }

/-- A body with other flags. -/
def Body.relight (f : Flags N → Flags N) : Body N A → Body N A
  | .cached c => .cached (c.withFlags (f c.flags))
  | body => body

/-- The network with other flags. -/
def relight (n : Network N A σ) (f : Nat → Flags N → Flags N) : Network N A σ :=
  n.mapBodies fun id => Body.relight (f id)

section MapBodies

variable (n : Network N A σ) (f : Nat → Body N A → Body N A)

@[simp]
theorem body?_mapBodies (id : Nat) : (n.mapBodies f).body? id = (n.body? id).map (f id) := by
  simp [body?, mapBodies, Node.mapBody, Function.comp_def]

@[simp]
theorem size_mapBodies : (n.mapBodies f).nodes.size = n.nodes.size := by simp [mapBodies]

end MapBodies

@[simp]
theorem Body.kind_relight (f : Flags N → Flags N) (body : Body N A) :
    (body.relight f).kind = body.kind := by cases body <;> rfl

@[simp]
theorem Body.flags?_relight (f : Flags N → Flags N) (body : Body N A) :
    (body.relight f).flags? = body.flags?.map f := by cases body <;> rfl

@[simp]
theorem Body.held_relight (f : Flags N → Flags N) (body : Body N A) :
    (body.relight f).held = body.held := by cases body <;> rfl

@[simp]
theorem Body.recorded_relight (f : Flags N → Flags N) (body : Body N A) :
    (body.relight f).recorded = body.recorded := by cases body <;> rfl

@[simp]
theorem Body.followed_relight (f : Flags N → Flags N) (body : Body N A) :
    (body.relight f).followed = body.followed := by cases body <;> rfl

@[simp]
theorem Body.received_relight (f : Flags N → Flags N) (body : Body N A) :
    (body.relight f).received = body.received := by cases body <;> rfl

/-! ## Single nodes -/

/-- The network with another body at one position. -/
def mapBody (n : Network N A σ) (id : Nat) (f : Body N A → Body N A) : Network N A σ :=
  n.mapBodies fun i body => if i = id then f body else body

/-- Change a cached body. -/
def Body.mapCached (f : CachedNode N A → CachedNode N A) : Body N A → Body N A
  | .cached c => .cached (f c)
  | body => body

/-- Change a formula body. -/
def Body.mapFormula (f : FormulaNode N → FormulaNode N) : Body N A → Body N A
  | .formula x => .formula (f x)
  | body => body

/-- Change an aggregate body. -/
def Body.mapAggregate (f : AggregateNode → AggregateNode) : Body N A → Body N A
  | .aggregate a => .aggregate (f a)
  | body => body

section MapBody

variable (n : Network N A σ) (id : Nat)

theorem modify_nodes_eq_mapIdx (f : Node N A → Node N A) :
    n.nodes.modify id f = n.nodes.mapIdx fun i node => if i = id then f node else node := by
  refine Array.ext_getElem? fun i => ?_
  rw [Array.getElem?_modify, Array.getElem?_mapIdx]
  by_cases h : id = i
  · simp [h]
  · simp [h, Ne.symm h]

/-- Changing what a node does, and nothing else of it, changes its body. -/
theorem modify_eq_mapBody {f : Body N A → Body N A} {g : Node N A → Node N A}
    (h : ∀ node, g node = node.mapBody f) :
    { n with nodes := n.nodes.modify id g } = n.mapBody id f := by
  rw [modify_nodes_eq_mapIdx, mapBody, mapBodies]
  congr 2
  funext i node
  split
  · exact h node
  · rfl

theorem modifyCached_eq_mapBody (f : CachedNode N A → CachedNode N A) :
    n.modifyCached id f = n.mapBody id (Body.mapCached f) :=
  n.modify_eq_mapBody id fun ⟨body, _, _⟩ => by cases body <;> rfl

theorem modifyFormula_eq_mapBody (f : FormulaNode N → FormulaNode N) :
    n.modifyFormula id f = n.mapBody id (Body.mapFormula f) :=
  n.modify_eq_mapBody id fun ⟨body, _, _⟩ => by cases body <;> rfl

theorem modifyAggregate_eq_mapBody (f : AggregateNode → AggregateNode) :
    n.modifyAggregate id f = n.mapBody id (Body.mapAggregate f) :=
  n.modify_eq_mapBody id fun ⟨body, _, _⟩ => by cases body <;> rfl

end MapBody

section Views

variable (n : Network N A σ) (id : Nat)

theorem body?_mapBody (f : Body N A → Body N A) (i : Nat) :
    (n.mapBody id f).body? i = if i = id then (n.body? i).map f else n.body? i := by
  rw [mapBody, body?_mapBodies]
  split
  · rfl
  · exact Option.map_id'

/-- What other bodies have in common with the former ones is seen unchanged. -/
theorem map_body?_mapBodies {β : Type} (view : Body N A → β) {f : Nat → Body N A → Body N A}
    (h : ∀ i body, view (f i body) = view body) :
    ((n.mapBodies f).body? id).map view = (n.body? id).map view := by
  rw [body?_mapBodies, Option.map_map]
  congr 1
  funext body
  exact h id body

theorem listeners_received :
    n.listeners (.received id) = ((n.body? id).map (·.received)).getD [] := by
  obtain hnode | ⟨⟨body, attached, gone⟩, hnode⟩ := Option.eq_none_or_eq_some n.nodes[id]?
  · simp [listeners, cached?, body?, hnode]
  · cases body <;> simp [listeners, cached?, body?, hnode, Body.received]

/-- The listeners are unchanged if no cached body has others. -/
theorem listeners_mapBodies {f : Nat → Body N A → Body N A}
    (h : ∀ i body, (f i body).received = body.received) (topic : Topic) :
    (n.mapBodies f).listeners topic = n.listeners topic := by
  cases topic with
  | received id => rw [listeners_received, listeners_received, n.map_body?_mapBodies id Body.received h]
  | changed id => simp [listeners, mapBodies, Node.mapBody, Function.comp_def]
  | _ => rfl

/-- What owns a topic is there whatever the bodies are. -/
theorem isPresent_mapBodies (f : Nat → Body N A → Body N A) (topic : Topic) :
    (n.mapBodies f).isPresent topic = n.isPresent topic := by
  cases topic with
  | received id | changed id =>
    simp [isPresent, mapBodies, Node.mapBody, Function.comp_def]
  | _ => rfl

variable (f : Nat → Flags N → Flags N)

@[simp]
theorem kind?_relight : (n.relight f).kind? id = n.kind? id :=
  n.map_body?_mapBodies id Body.kind fun _ => Body.kind_relight _

@[simp]
theorem held_relight : (n.relight f).held id = n.held id :=
  congrArg (·.getD []) (n.map_body?_mapBodies id Body.held fun _ => Body.held_relight _)

@[simp]
theorem recorded_relight : (n.relight f).recorded id = n.recorded id :=
  congrArg (·.getD []) (n.map_body?_mapBodies id Body.recorded fun _ => Body.recorded_relight _)

@[simp]
theorem followed_relight : (n.relight f).followed id = n.followed id :=
  congrArg (·.getD []) (n.map_body?_mapBodies id Body.followed fun _ => Body.followed_relight _)

@[simp]
theorem listeners_relight (topic : Topic) : (n.relight f).listeners topic = n.listeners topic :=
  n.listeners_mapBodies (fun _ => Body.received_relight _) topic

@[simp]
theorem isPresent_relight (topic : Topic) : (n.relight f).isPresent topic = n.isPresent topic :=
  n.isPresent_mapBodies _ topic

@[simp]
theorem flags?_relight : (n.relight f).flags? id = (n.flags? id).map (f id) := by
  cases h : n.body? id <;> simp [flags?, relight, h]

@[simp]
theorem size_relight : (n.relight f).nodes.size = n.nodes.size := n.size_mapBodies _

@[simp]
theorem relight_relight (g : Nat → Flags N → Flags N) :
    (n.relight f).relight g = n.relight fun i flags => g i (f i flags) := by
  simp only [relight, mapBodies]
  congr 1
  refine Array.ext_getElem? fun i => ?_
  simp only [Array.getElem?_mapIdx, Option.map_map]
  congr 1
  funext ⟨body, attached, gone⟩
  cases body <;> rfl

/-- Networks with the same flags are the same if they are the same otherwise. -/
theorem relight_congr {f g : Nat → Flags N → Flags N}
    (h : ∀ i flags, n.flags? i = some flags → f i flags = g i flags) : n.relight f = n.relight g := by
  simp only [relight, mapBodies]
  congr 1
  refine Array.ext_getElem? fun i => ?_
  simp only [Array.getElem?_mapIdx]
  cases hnode : n.nodes[i]? with
  | none => rfl
  | some node =>
    obtain ⟨body, attached, gone⟩ := node
    cases body with
    | cached c =>
      have := h i c.flags (by simp [flags?, body?, hnode, Body.flags?])
      simp [Node.mapBody, Body.relight, this]
    | _ => rfl

theorem relight_id : n.relight (fun _ flags => flags) = n := by
  simp only [relight, mapBodies]
  have : (n.nodes.mapIdx fun i node => node.mapBody (Body.relight fun flags => flags)) = n.nodes := by
    refine Array.ext_getElem? fun i => ?_
    rw [Array.getElem?_mapIdx]
    cases n.nodes[i]? with
    | none => rfl
    | some node =>
      obtain ⟨body, attached, gone⟩ := node
      cases body <;> rfl
  rw [this]

/-- Changing flags is changing the cached node they belong to. -/
theorem modifyCached_eq_relight {g : CachedNode N A → CachedNode N A} {f : Flags N → Flags N}
    (h : ∀ c, g c = c.withFlags (f c.flags)) :
    n.modifyCached id g = n.relight fun i flags => if i = id then f flags else flags := by
  rw [modifyCached_eq_mapBody, mapBody, relight]
  congr 1
  funext i body
  split
  · cases body with
    | cached c => exact congrArg Body.cached (h c)
    | _ => rfl
  · cases body <;> rfl

end Views

/-! ## Listeners -/

/-- Whether there is a topic that listeners can be attached to. -/
def hasTopic (n : Network N A σ) : Topic → Prop
  | .changed id => id < n.nodes.size
  | .received id => (n.flags? id).isSome
  | .members id => id < n.collections.size
  | .paths id => id < n.pathSets.size
  | .layers id => id < n.layered.size
  | .listing => True
  | .named id => id < n.events.size

/-- A cached body with other listeners. -/
def Body.mapReceived (f : List (Attached A) → List (Attached A)) : Body N A → Body N A :=
  mapCached fun c => { c with received := f c.received }

section Listeners

variable (n : Network N A σ) (topic : Topic) (f : List (Attached A) → List (Attached A))

theorem modifyListeners_received (id : Nat) :
    n.modifyListeners (.received id) f = n.mapBody id (Body.mapReceived f) :=
  n.modifyCached_eq_mapBody id _

/-- What other listeners leave of a node is seen unchanged. -/
theorem map_body?_modifyListeners {β : Type} (view : Body N A → β)
    (h : ∀ body, view (body.mapReceived f) = view body) (id : Nat) :
    ((n.modifyListeners topic f).body? id).map view = (n.body? id).map view := by
  cases topic with
  | received c =>
    rw [modifyListeners_received, mapBody, map_body?_mapBodies n id view]
    intro i body
    split
    · exact h body
    · rfl
  | changed c =>
    simp only [body?, modifyListeners, Array.getElem?_modify, Option.map_map]
    split
    · simp [Function.comp_def]
    · rfl
  | _ => rfl

@[simp]
theorem kind?_modifyListeners (id : Nat) : (n.modifyListeners topic f).kind? id = n.kind? id :=
  n.map_body?_modifyListeners topic f Body.kind (fun body => by cases body <;> rfl) id

@[simp]
theorem held_modifyListeners (id : Nat) : (n.modifyListeners topic f).held id = n.held id :=
  congrArg (·.getD [])
    (n.map_body?_modifyListeners topic f Body.held (fun body => by cases body <;> rfl) id)

@[simp]
theorem recorded_modifyListeners (id : Nat) : (n.modifyListeners topic f).recorded id = n.recorded id :=
  congrArg (·.getD [])
    (n.map_body?_modifyListeners topic f Body.recorded (fun body => by cases body <;> rfl) id)

@[simp]
theorem followed_modifyListeners (id : Nat) : (n.modifyListeners topic f).followed id = n.followed id :=
  congrArg (·.getD [])
    (n.map_body?_modifyListeners topic f Body.followed (fun body => by cases body <;> rfl) id)

@[simp]
theorem flags?_modifyListeners (id : Nat) : (n.modifyListeners topic f).flags? id = n.flags? id :=
  congrArg Option.join
    (n.map_body?_modifyListeners topic f Body.flags? (fun body => by cases body <;> rfl) id)

@[simp]
theorem size_modifyListeners : (n.modifyListeners topic f).nodes.size = n.nodes.size := by
  cases topic <;> simp [modifyListeners, modifyCached]

theorem isPresent_modifyListeners (t : Topic) :
    (n.modifyListeners topic f).isPresent t = n.isPresent t := by
  cases topic <;> cases t <;>
    simp only [modifyListeners, modifyCached, isPresent, Array.getElem?_modify, Array.size_modify]
  all_goals first
    | rfl
    | split <;> simp only [Option.map_map, Function.comp_def]
  -- what is left are the listeners of a cached node, which its body holds
  all_goals
    congr 2
    funext node
    cases node.body <;> rfl

variable {topic}

theorem listeners_modifyListeners_self (h : n.hasTopic topic) :
    (n.modifyListeners topic f).listeners topic = f (n.listeners topic) := by
  cases topic with
  | received id =>
    obtain ⟨flags, hflags⟩ := Option.isSome_iff_exists.mp h
    rw [modifyListeners_received, listeners_received, listeners_received, body?_mapBody, if_pos rfl]
    cases hbody : n.body? id with
    | none => simp [flags?, hbody] at hflags
    | some body =>
      cases body with
      | cached c => rfl
      | _ => simp [flags?, hbody, Body.flags?] at hflags
  | listing => rfl
  | _ => simp_all [modifyListeners, listeners, hasTopic, Array.getElem_modify]

theorem listeners_modifyListeners_of_ne {t : Topic} (h : t ≠ topic) :
    (n.modifyListeners topic f).listeners t = n.listeners t := by
  cases topic with
  | received id =>
    cases t with
    | received id' =>
      rw [modifyListeners_received, listeners_received, listeners_received, body?_mapBody,
        if_neg (by simpa using h)]
    | changed id' =>
      simp only [modifyListeners_received, listeners, mapBody, mapBodies, Array.getElem?_mapIdx,
        Option.map_map]
      rfl
    | _ => rfl
  | changed id =>
    cases t with
    | received id' =>
      have : (n.modifyListeners (.changed id) f).body? id' = n.body? id' := by
        simp only [body?, modifyListeners, Array.getElem?_modify]
        split <;> simp [Function.comp_def]
      rw [listeners_received, listeners_received, this]
    | changed id' =>
      simp only [modifyListeners, listeners, Array.getElem?_modify]
      rw [if_neg (by simpa [eq_comm] using h)]
    | _ => rfl
  | _ =>
    cases t <;> first
      | rfl
      | simp only [modifyListeners, listeners, Array.getElem?_modify]
        rw [if_neg (by simpa [eq_comm] using h)]
      | exact absurd rfl h

/-- A topic that is not there has no listeners. -/
theorem listeners_eq_nil_of_not_hasTopic (h : ¬ n.hasTopic topic) : n.listeners topic = [] := by
  cases topic with
  | received id =>
    rw [listeners_received]
    cases hbody : n.body? id with
    | none => rfl
    | some body =>
      cases body with
      | cached c => simp [hasTopic, flags?, hbody, Body.flags?] at h
      | _ => rfl
  | listing => exact absurd trivial h
  | _ => simp_all [hasTopic, listeners]

end Listeners

@[simp]
theorem hasTopic_modifyListeners (n : Network N A σ) (topic t : Topic)
    (f : List (Attached A) → List (Attached A)) :
    (n.modifyListeners topic f).hasTopic t ↔ n.hasTopic t := by
  cases t with
  | received id => simp [hasTopic]
  | changed id => simp [hasTopic]
  | listing => exact Iff.rfl
  | _ => cases topic <;> simp [hasTopic, modifyListeners, modifyCached]

/-! ## Subscriptions -/

section Subscriptions

variable (n : Network N A σ)

/-- The network with a listener more. -/
def subscribed (topic : Topic) (listener : Listener A) : Network N A σ :=
  (n.subscribe topic listener).2

variable (topic : Topic) (listener : Listener A) (id : Nat)

@[simp]
theorem kind?_subscribed : (n.subscribed topic listener).kind? id = n.kind? id :=
  n.kind?_modifyListeners topic _ id

@[simp]
theorem flags?_subscribed : (n.subscribed topic listener).flags? id = n.flags? id :=
  n.flags?_modifyListeners topic _ id

@[simp]
theorem held_subscribed : (n.subscribed topic listener).held id = n.held id :=
  n.held_modifyListeners topic _ id

@[simp]
theorem recorded_subscribed : (n.subscribed topic listener).recorded id = n.recorded id :=
  n.recorded_modifyListeners topic _ id

@[simp]
theorem followed_subscribed : (n.subscribed topic listener).followed id = n.followed id :=
  n.followed_modifyListeners topic _ id

@[simp]
theorem size_subscribed : (n.subscribed topic listener).nodes.size = n.nodes.size :=
  n.size_modifyListeners topic _

@[simp]
theorem isPresent_subscribed (t : Topic) :
    (n.subscribed topic listener).isPresent t = n.isPresent t :=
  n.isPresent_modifyListeners topic _ t

@[simp]
theorem hasTopic_subscribed (t : Topic) :
    (n.subscribed topic listener).hasTopic t ↔ n.hasTopic t :=
  n.hasTopic_modifyListeners topic t _

variable {topic}

theorem listeners_subscribed_self (h : n.hasTopic topic) :
    (n.subscribed topic listener).listeners topic
      = n.listeners topic ++ [⟨n.nextToken, listener⟩] :=
  n.listeners_modifyListeners_self _ h

theorem listeners_subscribed_of_ne {t : Topic} (h : t ≠ topic) :
    (n.subscribed topic listener).listeners t = n.listeners t :=
  n.listeners_modifyListeners_of_ne _ h

theorem listeners_unsubscribe (s : Subscription) (t : Topic) :
    (n.unsubscribe s).listeners t
      = (n.listeners t).filter fun attached => decide (⟨t, attached.token⟩ ≠ s) := by
  obtain ⟨topic, token⟩ := s
  by_cases ht : t = topic
  · subst ht
    by_cases h : n.hasTopic t
    · rw [unsubscribe, listeners_modifyListeners_self _ _ h]
      congr 1
      funext attached
      by_cases h : attached.token = token <;> simp [bne, h]
    · rw [listeners_eq_nil_of_not_hasTopic n h, listeners_eq_nil_of_not_hasTopic]
      · rfl
      · simpa [unsubscribe] using h
  · rw [unsubscribe, listeners_modifyListeners_of_ne _ _ ht]
    simp [ht]

theorem listeners_unsubscribeAll (given : List Subscription) (t : Topic) :
    (n.unsubscribeAll given).listeners t
      = (n.listeners t).filter fun attached => decide (⟨t, attached.token⟩ ∉ given) := by
  induction given generalizing n with
  | nil => simp [unsubscribeAll]
  | cons s given ih =>
    rw [unsubscribeAll, List.foldl_cons, ← unsubscribeAll, ih, listeners_unsubscribe,
      List.filter_filter]
    congr 1
    funext attached
    simp [Bool.and_comm]

/-- Nothing but listeners changes when subscriptions are given back. -/
theorem unsubscribeAll_induction {P : Network N A σ → Prop}
    (hstep : ∀ m topic f, P m → P (m.modifyListeners topic f)) (h : P n)
    (given : List Subscription) : P (n.unsubscribeAll given) := by
  induction given generalizing n with
  | nil => exact h
  | cons s given ih => exact ih _ (hstep _ _ _ h)

variable (given : List Subscription)

@[simp]
theorem kind?_unsubscribeAll : (n.unsubscribeAll given).kind? id = n.kind? id :=
  n.unsubscribeAll_induction (P := fun m => m.kind? id = n.kind? id)
    (fun m topic f h => (m.kind?_modifyListeners topic f id).trans h) rfl given

@[simp]
theorem flags?_unsubscribeAll : (n.unsubscribeAll given).flags? id = n.flags? id :=
  n.unsubscribeAll_induction (P := fun m => m.flags? id = n.flags? id)
    (fun m topic f h => (m.flags?_modifyListeners topic f id).trans h) rfl given

@[simp]
theorem held_unsubscribeAll : (n.unsubscribeAll given).held id = n.held id :=
  n.unsubscribeAll_induction (P := fun m => m.held id = n.held id)
    (fun m topic f h => (m.held_modifyListeners topic f id).trans h) rfl given

@[simp]
theorem recorded_unsubscribeAll : (n.unsubscribeAll given).recorded id = n.recorded id :=
  n.unsubscribeAll_induction (P := fun m => m.recorded id = n.recorded id)
    (fun m topic f h => (m.recorded_modifyListeners topic f id).trans h) rfl given

@[simp]
theorem followed_unsubscribeAll : (n.unsubscribeAll given).followed id = n.followed id :=
  n.unsubscribeAll_induction (P := fun m => m.followed id = n.followed id)
    (fun m topic f h => (m.followed_modifyListeners topic f id).trans h) rfl given

@[simp]
theorem size_unsubscribeAll : (n.unsubscribeAll given).nodes.size = n.nodes.size :=
  n.unsubscribeAll_induction (P := fun m => m.nodes.size = n.nodes.size)
    (fun m topic f h => (m.size_modifyListeners topic f).trans h) rfl given

@[simp]
theorem isPresent_unsubscribeAll (t : Topic) :
    (n.unsubscribeAll given).isPresent t = n.isPresent t :=
  n.unsubscribeAll_induction (P := fun m => m.isPresent t = n.isPresent t)
    (fun m topic f h => (m.isPresent_modifyListeners topic f t).trans h) rfl given

@[simp]
theorem hasTopic_unsubscribeAll (t : Topic) :
    (n.unsubscribeAll given).hasTopic t ↔ n.hasTopic t :=
  n.unsubscribeAll_induction (P := fun m => m.hasTopic t ↔ n.hasTopic t)
    (fun m topic f h => (m.hasTopic_modifyListeners topic t f).trans h) Iff.rfl given

@[simp]
theorem nextToken_unsubscribeAll : (n.unsubscribeAll given).nextToken = n.nextToken :=
  n.unsubscribeAll_induction (P := fun m => m.nextToken = n.nextToken)
    (fun m topic f h => by cases topic <;> exact h) rfl given

@[simp]
theorem released_unsubscribeAll : (n.unsubscribeAll given).released = n.released :=
  n.unsubscribeAll_induction (P := fun m => m.released = n.released)
    (fun m topic f h => by cases topic <;> exact h) rfl given

@[simp]
theorem buffer_unsubscribeAll : (n.unsubscribeAll given).buffer = n.buffer :=
  n.unsubscribeAll_induction (P := fun m => m.buffer = n.buffer)
    (fun m topic f h => by cases topic <;> exact h) rfl given

@[simp]
theorem host_unsubscribeAll : (n.unsubscribeAll given).host = n.host :=
  n.unsubscribeAll_induction (P := fun m => m.host = n.host)
    (fun m topic f h => by cases topic <;> exact h) rfl given

end Subscriptions

/-! ## New nodes -/

/-- The network with a node more. -/
def pushNode (n : Network N A σ) (body : Body N A) : Network N A σ :=
  { n with nodes := n.nodes.push ⟨body, [], false⟩ }

section PushNode

variable (n : Network N A σ) (body : Body N A)

theorem body?_pushNode (id : Nat) :
    (n.pushNode body).body? id = if id = n.nodes.size then some body else n.body? id := by
  simp only [body?, pushNode, Array.getElem?_push]
  split <;> rfl

@[simp]
theorem size_pushNode : (n.pushNode body).nodes.size = n.nodes.size + 1 := by simp [pushNode]

theorem body?_eq_none {id : Nat} (h : n.nodes.size ≤ id) : n.body? id = none := by
  simp [body?, Array.getElem?_eq_none h]

theorem kind?_pushNode (id : Nat) :
    (n.pushNode body).kind? id = if id = n.nodes.size then some body.kind else n.kind? id := by
  rw [kind?, body?_pushNode]
  split <;> rfl

theorem flags?_pushNode (id : Nat) :
    (n.pushNode body).flags? id = if id = n.nodes.size then body.flags? else n.flags? id := by
  rw [flags?, body?_pushNode]
  split <;> rfl

theorem held_pushNode (id : Nat) :
    (n.pushNode body).held id = if id = n.nodes.size then body.held else n.held id := by
  rw [held, body?_pushNode]
  split <;> rfl

theorem recorded_pushNode (id : Nat) :
    (n.pushNode body).recorded id = if id = n.nodes.size then body.recorded else n.recorded id := by
  rw [recorded, body?_pushNode]
  split <;> rfl

theorem followed_pushNode (id : Nat) :
    (n.pushNode body).followed id = if id = n.nodes.size then body.followed else n.followed id := by
  rw [followed, body?_pushNode]
  split <;> rfl

theorem isPresent_pushNode_self : (n.pushNode body).isPresent (.changed n.nodes.size) := by
  simp [isPresent, pushNode]

theorem isPresent_pushNode_of_isPresent {id : Nat} (h : n.isPresent (.changed id)) :
    (n.pushNode body).isPresent (.changed id) := by
  simp only [isPresent, pushNode, Array.getElem?_push] at h ⊢
  split
  · rfl
  · exact h

theorem hasTopic_pushNode {topic : Topic} (h : n.hasTopic topic) :
    (n.pushNode body).hasTopic topic := by
  cases topic with
  | changed id =>
    rw [hasTopic, size_pushNode]
    exact Nat.lt_succ_of_lt h
  | received id =>
    have hid : id ≠ n.nodes.size := by
      rintro rfl
      simp [hasTopic, flags?, n.body?_eq_none (Nat.le_refl _)] at h
    rwa [hasTopic, flags?_pushNode, if_neg hid]
  | _ => exact h

theorem listeners_pushNode (h : body.received = []) (topic : Topic) :
    (n.pushNode body).listeners topic = n.listeners topic := by
  cases topic with
  | received id =>
    rw [listeners_received, listeners_received, body?_pushNode]
    split
    · next hid => rw [n.body?_eq_none (Nat.le_of_eq hid.symm)]; exact h
    · rfl
  | changed id =>
    simp only [listeners, pushNode, Array.getElem?_push]
    split
    · next hid => rw [Array.getElem?_eq_none (Nat.le_of_eq hid.symm)]; rfl
    · rfl
  | _ => rfl

end PushNode

/-- The network with a node more that makes a subscription. -/
def pushHolding (n : Network N A σ) (topic : Topic) (listener : Nat → Listener A)
    (body : Subscription → Body N A) : Network N A σ :=
  (n.subscribed topic (listener n.nodes.size)).pushNode (body ⟨topic, n.nextToken⟩)

theorem mapIdx_push_modify {α : Type} (xs : Array α) (x : α) (f : α → α) :
    ((xs.push x).mapIdx fun i y => if i = xs.size then f y else y) = xs.push (f x) := by
  refine Array.ext_getElem? fun i => ?_
  rw [Array.getElem?_mapIdx, Array.getElem?_push, Array.getElem?_push]
  split
  · rfl
  · exact Option.map_id'

theorem modify_push {α : Type} {xs : Array α} {id : Nat} (h : id < xs.size) (x : α) (f : α → α) :
    (xs.push x).modify id f = (xs.modify id f).push x := by
  refine Array.ext_getElem? fun i => ?_
  simp only [Array.getElem?_modify, Array.getElem?_push, Array.size_modify]
  split
  · next hid => rw [if_neg (by omega), if_neg (by omega)]
  · rfl

theorem mapBody_pushNode (n : Network N A σ) (body : Body N A) (f : Body N A → Body N A) :
    (n.pushNode body).mapBody n.nodes.size f = n.pushNode (f body) := by
  have := mapIdx_push_modify n.nodes ⟨body, [], false⟩ (Node.mapBody f)
  refine (congrArg (fun nodes => { n with nodes := nodes }) ?_).trans
    (congrArg (fun nodes => { n with nodes := nodes }) this)
  congr 1
  funext i node
  by_cases h : i = n.nodes.size <;> simp [Node.mapBody, h]

theorem subscribed_pushNode (n : Network N A σ) {topic : Topic} (h : n.hasTopic topic)
    (listener : Listener A) (body : Body N A) :
    (n.pushNode body).subscribed topic listener = (n.subscribed topic listener).pushNode body := by
  cases topic with
  | changed id =>
    have hid : id < n.nodes.size := h
    simp only [subscribed, subscribe, modifyListeners, pushNode, modify_push hid]
  | received id =>
    have hid : id < n.nodes.size := by
      by_contra hge
      simp [hasTopic, flags?, n.body?_eq_none (Nat.le_of_not_lt hge)] at h
    simp only [subscribed, subscribe, modifyListeners, modifyCached, pushNode, modify_push hid]
  | _ => rfl

/-- Making a node and having it subscribe is making a node that has subscribed. -/
theorem mapBody_subscribed_pushNode (n : Network N A σ) {topic : Topic} (h : n.hasTopic topic)
    (listener : Listener A) (body : Body N A) (f : Body N A → Body N A) :
    ((n.pushNode body).subscribed topic listener).mapBody n.nodes.size f
      = (n.subscribed topic listener).pushNode (f body) := by
  rw [subscribed_pushNode n h, ← size_subscribed n topic listener, mapBody_pushNode]

/-! ## All of a node -/

/-- All there is to see of a node. -/
structure View (N A : Type) where
  kind : Kind N A
  flags? : Option (Flags N)
  held : List Subscription
  recorded : List (DependencyKey × Subscription)
  followed : List (Nat × Subscription)

/-- All there is to see of a body. -/
def Body.view (body : Body N A) : View N A :=
  ⟨body.kind, body.flags?, body.held, body.recorded, body.followed⟩

/-- All there is to see of the node at a position. -/
def view? (n : Network N A σ) (id : Nat) : Option (View N A) := (n.body? id).map (·.view)

section ViewOf

variable {n n' : Network N A σ} {id id' : Nat} (h : n'.view? id' = n.view? id)
include h

theorem kind?_of_view : n'.kind? id' = n.kind? id := by
  have := congrArg (Option.map (·.kind)) h
  simp only [view?, Body.view, Option.map_map, Function.comp_def] at this
  rw [kind?, kind?, this]

theorem flags?_of_view : n'.flags? id' = n.flags? id := by
  have := congrArg (Option.map (·.flags?)) h
  simp only [view?, Body.view, Option.map_map, Function.comp_def] at this
  rw [flags?, flags?, this]

theorem held_of_view : n'.held id' = n.held id := by
  have := congrArg (Option.map (·.held)) h
  simp only [view?, Body.view, Option.map_map, Function.comp_def] at this
  rw [held, held, this]

theorem recorded_of_view : n'.recorded id' = n.recorded id := by
  have := congrArg (Option.map (·.recorded)) h
  simp only [view?, Body.view, Option.map_map, Function.comp_def] at this
  rw [recorded, recorded, this]

theorem followed_of_view : n'.followed id' = n.followed id := by
  have := congrArg (Option.map (·.followed)) h
  simp only [view?, Body.view, Option.map_map, Function.comp_def] at this
  rw [followed, followed, this]

end ViewOf

section ViewIn

variable (n : Network N A σ) (id : Nat)

@[simp]
theorem view?_modifyListeners (topic : Topic) (f : List (Attached A) → List (Attached A)) :
    (n.modifyListeners topic f).view? id = n.view? id :=
  n.map_body?_modifyListeners topic f Body.view (fun body => by cases body <;> rfl) id

@[simp]
theorem view?_subscribed (topic : Topic) (listener : Listener A) :
    (n.subscribed topic listener).view? id = n.view? id := n.view?_modifyListeners id topic _

@[simp]
theorem view?_unsubscribeAll (given : List Subscription) :
    (n.unsubscribeAll given).view? id = n.view? id :=
  n.unsubscribeAll_induction (P := fun m => m.view? id = n.view? id)
    (fun m topic f h => (m.view?_modifyListeners id topic f).trans h) rfl given

theorem view?_pushNode (body : Body N A) :
    (n.pushNode body).view? id = if id = n.nodes.size then some body.view else n.view? id := by
  rw [view?, body?_pushNode]
  split <;> rfl

theorem view?_pushHolding (topic : Topic) (listener : Nat → Listener A)
    (body : Subscription → Body N A) :
    (n.pushHolding topic listener body).view? id
      = if id = n.nodes.size then some (body ⟨topic, n.nextToken⟩).view else n.view? id := by
  rw [pushHolding, view?_pushNode, size_subscribed, view?_subscribed]

theorem view?_mapBody_of_ne {i : Nat} (h : i ≠ id) (f : Body N A → Body N A) :
    (n.mapBody id f).view? i = n.view? i := by rw [view?, body?_mapBody, if_neg h, view?]

theorem view?_eq_none (h : n.nodes.size ≤ id) : n.view? id = none := by
  rw [view?, n.body?_eq_none h]
  rfl

end ViewIn

end StatEngine.Network
