import CodeAtlas.Proofs.Repository.Store
import Mathlib.Data.List.Induction

/-!
# A cache that is shared

Many requests, insertions and invalidations go on at one cache at once. Reading, removing, inserting
and invalidating come one after another, but between the steps of one request others may act and time
may go by. A request that has read an entry and finds it expired later removes what is then under its
name only if that is expired too, so a graph that was put there in between stays.
-/

namespace CodeAtlas.GraphStore

/-! ### Steps -/

/-- How far a request has come: it has read the store, or found what it had read expired, or it is
over, without a graph or with the one that answered it at some moment. -/
inductive Lookup where
  | read (key : String) (branch : Option String) (found : Option StoredGraph)
  | expired (key : String)
  | missed
  | answered (key : String) (branch : Option String) (moment : Nat) (graph : RepoGraph)

/-- What a request does next, and the cache after it. -/
def Lookup.proceed (now : Nat) (c : GraphStore) : Lookup → Lookup × GraphStore
  | .read key branch found =>
    match judge found now branch with
    | .hit graph => (.answered key branch now graph, c.count (.hit graph))
    | .expired => (.expired key, c)
    | other => (.missed, c.count other)
  | .expired key => (.missed, (c.dropExpired now key).count .expired)
  | done => (done, c)

/-- A request takes nothing but expired entries out, however late it goes on. -/
theorem Lookup.proceed_keeps {now : Nat} {c : GraphStore} (distinct : (c.entries.map Prod.fst).Nodup)
    (l : Lookup) : Keeps now c (l.proceed now c).2 := by
  cases l with
  | read key branch found =>
    simp only [Lookup.proceed]
    cases judge found now branch with
    | absent => exact (Keeps.refl now c).count .absent
    | expired => exact Keeps.refl now c
    | otherBranch => exact (Keeps.refl now c).count .otherBranch
    | hit graph => exact (Keeps.refl now c).count (.hit graph)
  | expired key => exact (dropExpired_keeps distinct key).count .expired
  | missed => exact Keeps.refl now c
  | answered => exact Keeps.refl now c

/-- A cache with the time on its clock and all requests that have been made. -/
structure Shared where
  now : Nat
  store : GraphStore
  lookups : List Lookup

/-- What may happen next. -/
inductive Action where
  | wait (time : Nat)
  /-- A request begins and reads the store. -/
  | look (owner repo : String) (branch : Option String)
  /-- A request goes on, the first being number zero. -/
  | proceed (number : Nat)
  | insert (graph : RepoGraph) (requested : Option String)
  | invalidate (owner repo : String)

namespace Shared

/-- A cache as it is set up, at any time. -/
def start (settings : CacheSettings) (now : Nat) : Shared :=
  ⟨now, empty settings, []⟩

/-- A shared cache after an action. To go on with a request that has not been made does nothing. -/
def step (s : Shared) : Action → Shared
  | .wait time => { s with now := s.now + time }
  | .look owner repo branch =>
    let read := Lookup.read (keyOf owner repo) branch (s.store.find? (keyOf owner repo))
    { s with lookups := s.lookups ++ [read] }
  | .proceed number =>
    match s.lookups[number]? with
    | some l =>
      let (l, store) := l.proceed s.now s.store
      { s with store, lookups := s.lookups.set number l }
    | none => s
  | .insert graph requested => { s with store := s.store.insert s.now graph requested }
  | .invalidate owner repo => { s with store := (s.store.invalidate owner repo).2 }

/-- A shared cache after actions. -/
def run (s : Shared) (actions : List Action) : Shared :=
  actions.foldl step s

section

variable {s : Shared}

theorem step_proceed {number : Nat} {l : Lookup} (found : s.lookups[number]? = some l) :
    s.step (.proceed number) = ⟨s.now, (l.proceed s.now s.store).2,
      s.lookups.set number (l.proceed s.now s.store).1⟩ := by
  simp only [step, found]

theorem step_proceed_none {number : Nat} (none : s.lookups[number]? = none) :
    s.step (.proceed number) = s := by
  simp only [step, none]

/-- What is left of a request that is over. -/
def outcome (key : String) (branch : Option String) (now : Nat) : Option RepoGraph → Lookup
  | some graph => .answered key branch now graph
  | none => .missed

/-- A request that nothing comes between is answered, and leaves the cache, as in one step. -/
theorem run_look (s : Shared) (owner repo : String) (branch : Option String) :
    s.run [.look owner repo branch, .proceed s.lookups.length, .proceed s.lookups.length] =
      ⟨s.now, (s.store.get s.now owner repo branch).2,
        s.lookups ++ [outcome (keyOf owner repo) branch s.now
          (s.store.get s.now owner repo branch).1]⟩ := by
  simp only [run, List.foldl_cons, List.foldl_nil, step, List.getElem?_concat_length, get_fst,
    get_snd, Lookup.proceed]
  cases judge (s.store.find? (keyOf owner repo)) s.now branch <;>
    simp [outcome]

/-! ### What leaves the cache -/

/-- Why a live entry is no longer there after an action: it was invalidated, a graph was inserted
under its name, or one was inserted under another name while the other live entries filled the cache,
of which it was the one to give way first. -/
inductive Leaves (s : Shared) (x : String × StoredGraph) : Action → Prop where
  | invalidated {owner repo : String} : x.1 = keyOf owner repo → Leaves s x (.invalidate owner repo)
  | replaced {graph : RepoGraph} {requested : Option String} : x.1 = graph.key →
      Leaves s x (.insert graph requested)
  | evicted {graph : RepoGraph} {requested : Option String} : x ∈ s.store.liveOthers s.now graph.key →
      (s.store.liveOthers s.now graph.key).length = s.store.capacity →
      (∀ y ∈ s.store.liveOthers s.now graph.key, x.2.expiresAt < y.2.expiresAt ∨
        x.2.expiresAt = y.2.expiresAt ∧ x.1 ≤ y.1) →
      Leaves s x (.insert graph requested)

/-- A live entry that is gone after an action has gone for one of these reasons. -/
theorem leaves_of_step (sound : s.store.Sound) (action : Action) {x : String × StoredGraph}
    (before : x ∈ s.store.entries) (live : x.2.isLive s.now = true)
    (gone : x ∉ (s.step action).store.entries) : Leaves s x action := by
  cases action with
  | wait time => exact absurd before gone
  | look owner repo branch => exact absurd before gone
  | proceed number =>
    cases found : s.lookups[number]? with
    | none =>
      rw [step_proceed_none found] at gone
      exact absurd before gone
    | some l =>
      rw [step_proceed found] at gone
      exact absurd ((l.proceed_keeps sound.distinct).live x before live) gone
  | insert graph requested =>
    by_cases same : x.1 = graph.key
    · exact .replaced same
    · have room := sound.makesRoom s.now graph requested
      have other : x ∈ s.store.liveOthers s.now graph.key :=
        mem_liveOthers_iff.mpr ⟨before, live, same⟩
      have madeRoom : x ∈ s.store.evicted s.now graph requested := by
        by_contra stays
        exact gone (room.kept x other stays)
      exact .evicted other (room.full.mp (List.ne_nil_of_mem madeRoom)) (room.first x madeRoom)
  | invalidate owner repo =>
    by_cases same : x.1 = keyOf owner repo
    · exact .invalidated same
    · exact absurd (List.mem_filter.mpr ⟨before, by simpa using same⟩) gone

end

/-! ### Any number of steps -/

section

variable {s : Shared} {actions : List Action} {key : String} {e : StoredGraph}

/-- The entry under a name is made of a graph that was inserted under it, and expires a fixed time
after that. -/
structure Entered (s : Shared) (actions : List Action) (key : String) (e : StoredGraph) : Prop where
  own : e.graph.key = key
  inserted : ∃ before after, actions = before ++ .insert e.graph e.requestedBranch :: after ∧
    e.expiresAt = (s.run before).now + s.store.ttl

/-- What a request has read was entered, and what has answered it was, and was live and served the
request's branch at the moment of the answer. -/
def Genuine (s : Shared) (actions : List Action) : Lookup → Prop
  | .read key _ found => ∀ e, found = some e → Entered s actions key e
  | .answered key branch moment graph => ∃ e, Entered s actions key e ∧ e.graph = graph ∧
      e.isLive moment = true ∧ e.answersFor branch = true
  | .expired _ | .missed => True

theorem Entered.later (entered : Entered s actions key e) (action : Action) :
    Entered s (actions ++ [action]) key e := by
  obtain ⟨own, before, after, split, expires⟩ := entered
  exact ⟨own, before, after ++ [action], by simp [split], expires⟩

theorem Genuine.later {l : Lookup} (genuine : Genuine s actions l) (action : Action) :
    Genuine s (actions ++ [action]) l := by
  cases l with
  | read key branch found => exact fun e same => (genuine e same).later action
  | answered key branch moment graph =>
    obtain ⟨e, entered, answer⟩ := genuine
    exact ⟨e, entered.later action, answer⟩
  | expired => trivial
  | missed => trivial

/-- A request stays genuine when it goes on. -/
theorem Genuine.proceed {l : Lookup} (genuine : Genuine s actions l) (now : Nat) (c : GraphStore) :
    Genuine s actions (l.proceed now c).1 := by
  cases l with
  | read key branch found =>
    simp only [Lookup.proceed]
    cases judged : judge found now branch with
    | hit graph =>
      obtain ⟨e, same, live, answers, ofGraph⟩ := judge_eq_hit_iff.mp judged
      exact ⟨e, genuine e same, ofGraph, live, answers⟩
    | absent => trivial
    | expired => trivial
    | otherBranch => trivial
  | answered => exact genuine
  | expired => trivial
  | missed => trivial

/-- What is known after some actions. -/
structure Kept (s : Shared) (actions : List Action) (s' : Shared) : Prop where
  sound : s'.store.Sound
  ttl : s'.store.ttl = s.store.ttl
  capacity : s'.store.capacity = s.store.capacity
  entries : ∀ x ∈ s'.store.entries, Entered s actions x.1 x.2
  lookups : ∀ l ∈ s'.lookups, Genuine s actions l

theorem kept_start (settings : CacheSettings) (now : Nat) :
    Kept (start settings now) [] (start settings now) where
  sound := sound_empty settings
  ttl := rfl
  capacity := rfl
  entries _ listed := absurd listed List.not_mem_nil
  lookups _ listed := absurd listed List.not_mem_nil

/-- One more action keeps it. -/
theorem Kept.step {s' : Shared} (kept : Kept s actions s') (same : s' = s.run actions)
    (action : Action) : Kept s (actions ++ [action]) (s'.step action) := by
  have lookups : ∀ l ∈ s'.lookups, Genuine s (actions ++ [action]) l :=
    fun l listed => (kept.lookups l listed).later action
  have entries : ∀ x ∈ s'.store.entries, Entered s (actions ++ [action]) x.1 x.2 :=
    fun x listed => (kept.entries x listed).later action
  cases action with
  | wait time => exact ⟨kept.sound, kept.ttl, kept.capacity, entries, lookups⟩
  | look owner repo branch =>
    refine ⟨kept.sound, kept.ttl, kept.capacity, entries, ?_⟩
    intro l listed
    rcases List.mem_append.mp listed with before | last
    · exact lookups l before
    · rw [List.mem_singleton.mp last]
      intro e found
      exact entries _ ((find?_eq_some_iff kept.sound.distinct).mp found)
  | proceed number =>
    cases found : s'.lookups[number]? with
    | none =>
      rw [step_proceed_none found]
      exact ⟨kept.sound, kept.ttl, kept.capacity, entries, lookups⟩
    | some l =>
      rw [step_proceed found]
      have keeps : Keeps s'.now s'.store (l.proceed s'.now s'.store).2 :=
        l.proceed_keeps kept.sound.distinct
      refine ⟨kept.sound.sublist keeps.capacity keeps.fewer, keeps.ttl.trans kept.ttl,
        keeps.capacity.trans kept.capacity, ?_, ?_⟩
      · exact fun x listed => entries x (keeps.fewer.subset listed)
      · intro l' listed
        rcases List.mem_or_eq_of_mem_set listed with before | rfl
        · exact lookups l' before
        · exact (lookups l (List.mem_of_getElem? found)).proceed _ _
  | insert graph requested =>
    have same' := insert_eq s'.store s'.now graph requested
    refine ⟨kept.sound.insert, (congrArg GraphStore.ttl same').trans kept.ttl,
      (congrArg GraphStore.capacity same').trans kept.capacity, ?_, lookups⟩
    intro x listed
    rcases mem_of_mem_insert listed with old | rfl
    · exact entries x old
    · exact ⟨rfl, actions, [], rfl, by rw [kept.ttl, same]⟩
  | invalidate owner repo =>
    have fewer : (s'.store.invalidate owner repo).2.entries.Sublist s'.store.entries :=
      List.filter_sublist
    exact ⟨kept.sound.sublist rfl fewer, kept.ttl, kept.capacity,
      fun x listed => entries x (fewer.subset listed), lookups⟩

theorem kept_run (settings : CacheSettings) (now : Nat) (actions : List Action) :
    Kept (start settings now) actions ((start settings now).run actions) := by
  induction actions using List.reverseRecOn with
  | nil => exact kept_start settings now
  | append_singleton before action ih =>
    rw [run, List.foldl_append]
    exact ih.step rfl action

end

/-- What holds of a shared cache in every state: there are no more entries than the capacity allows,
no live entry leaves it but by an invalidation, a replacement or for want of room, and what answers a
request was inserted under its name, is live at the moment of the answer and serves its branch. -/
structure Undisturbed (settings : CacheSettings) (now : Nat) (actions : List Action)
    (s : Shared) : Prop where
  capacity : s.store.capacity = max settings.capacity 1
  bounded : s.store.entries.length ≤ max settings.capacity 1
  leaves : ∀ action, ∀ x ∈ s.store.entries, x.2.isLive s.now = true →
    x ∉ (s.step action).store.entries → s.Leaves x action
  answers : ∀ key branch moment graph, Lookup.answered key branch moment graph ∈ s.lookups →
    ∃ e, Entered (start settings now) actions key e ∧ e.graph = graph ∧ e.isLive moment = true ∧
      e.answersFor branch = true

/-- However requests, insertions and invalidations come between each other, no live entry is lost. -/
theorem run_undisturbed (settings : CacheSettings) (now : Nat) (actions : List Action) :
    Undisturbed settings now actions ((start settings now).run actions) := by
  have kept := kept_run settings now actions
  constructor
  case capacity => exact kept.capacity
  case bounded => exact kept.sound.bounded.trans (Nat.le_of_eq kept.capacity)
  case leaves => exact fun action x before live => leaves_of_step kept.sound action before live
  case answers => exact fun key branch moment graph listed => kept.lookups _ listed

end Shared

end CodeAtlas.GraphStore
