/-
# What is seen and changed from a base

A tree has no links, so that a route leads where its steps say, if it leads anywhere: a name
is added to the place, and a step up takes the last name off. Along a route that never leaves
a base, a call meets no other places than those on the way to the base and those beneath it.

What a call sees and what it changes is put as one relation of two runs, in trees that look
alike from the base: the runs give one answer and leave trees that look alike again, and outside
the base nothing is changed, but that directories on the way to it may be made. There is one
rule for each way in which actions are made, and one lemma for each change of a tree.

Key definitions: `Confinement`, `Confinement.Runs`, `Route.resolved`, `Route.Stays`,
`Disk.Alike`, `Disk.Spares`, `Disk.within`.
Key theorems: `Confinement.Runs.bind`, `Disk.of_walk`, `Disk.Alike.find`,
`Disk.Alike.relabel`, `Disk.spares_relabel`.
-/
import ContainerRegistry.Proofs.Coherence
import ContainerRegistry.Proofs.Clearing

namespace ContainerRegistry

open ContainerRegistry.Action

/-! ### Two runs that go alike -/

/-- Which states no call can tell apart, and what a call leaves alone. -/
structure Confinement (σ : Type) where
  /-- The states agree on all that an answer may depend on. -/
  alike : σ → σ → Prop
  /-- The second state has of the first all that is to be left alone. -/
  spares : σ → σ → Prop
  refl : ∀ s, spares s s
  trans : ∀ {s t u}, spares s t → spares t u → spares s u

namespace Confinement

variable {σ τ ε δ α β : Type} {k : Confinement σ} {s s' : σ}

/-- From these two states the actions give one answer and leave states that are alike again, and
the first of them spares what it must. -/
structure Runs (k : Confinement σ) (s s' : σ) (c c' : Action σ ε α) : Prop where
  answer : (c'.outcome s').1 = (c.outcome s).1
  alike : k.alike (c.outcome s).2 (c'.outcome s').2
  spares : k.spares s (c.outcome s).2

/-- From any two states that are alike the action runs alike. -/
def Confines (k : Confinement σ) (c : Action σ ε α) : Prop :=
  ∀ s s', k.alike s s' → k.Runs s s' c c

namespace Runs

theorem pure (h : k.alike s s') (a : α) :
    k.Runs s s' (Pure.pure a : Action σ ε α) (Pure.pure a) :=
  ⟨rfl, h, k.refl s⟩

theorem throw (h : k.alike s s') (e : ε) :
    k.Runs s s' (MonadExcept.throw e : Action σ ε α) (MonadExcept.throw e) :=
  ⟨rfl, h, k.refl s⟩

/-- An action that leaves the states as they are. -/
theorem quiet {c c' : Action σ ε α} (h : k.alike s s') (hs : (c.outcome s).2 = s)
    (hs' : (c'.outcome s').2 = s') (hanswer : (c'.outcome s').1 = (c.outcome s).1) :
    k.Runs s s' c c' where
  answer := hanswer
  alike := by rwa [hs, hs']
  spares := by
    rw [hs]
    exact k.refl s

theorem bind {c c' : Action σ ε α} {next next' : α → Action σ ε β} (h : k.Runs s s' c c')
    (hnext : ∀ a t t', c.outcome s = (.ok a, t) → c'.outcome s' = (.ok a, t') → k.alike t t' →
      k.Runs t t' (next a) (next' a)) : k.Runs s s' (c >>= next) (c' >>= next') := by
  obtain ⟨hanswer, halike, hspares⟩ := h
  rcases hc : c.outcome s with ⟨x, t⟩
  rcases hc' : c'.outcome s' with ⟨x', t'⟩
  rw [hc, hc'] at hanswer halike
  rw [hc] at hspares
  obtain rfl : x' = x := hanswer
  cases x' with
  | error e =>
    constructor
    · rw [outcome_bind, outcome_bind, hc, hc']
    · rw [outcome_bind, outcome_bind, hc, hc']
      exact halike
    · rw [outcome_bind, hc]
      exact hspares
  | ok a =>
    obtain ⟨hanswer, halike, hspares'⟩ := hnext a t t' hc hc' halike
    constructor
    · rw [outcome_bind, outcome_bind, hc, hc']
      exact hanswer
    · rw [outcome_bind, outcome_bind, hc, hc']
      exact halike
    · rw [outcome_bind, hc]
      exact k.trans hspares hspares'

/-- After an action that leaves the states as they are, the next one starts from them. -/
theorem bind_quiet {c c' : Action σ ε α} {next next' : α → Action σ ε β} (h : k.alike s s')
    (hs : (c.outcome s).2 = s) (hs' : (c'.outcome s').2 = s')
    (hanswer : (c'.outcome s').1 = (c.outcome s).1)
    (hnext : ∀ a, (c.outcome s).1 = .ok a → k.Runs s s' (next a) (next' a)) :
    k.Runs s s' (c >>= next) (c' >>= next') := by
  refine bind (quiet h hs hs' hanswer) fun a t t' hc hc' _ => ?_
  rw [hc] at hs
  rw [hc'] at hs'
  obtain rfl : t = s := hs
  obtain rfl : t' = s' := hs'
  exact hnext a (by rw [hc])

theorem bind_get {next next' : σ → Action σ ε β} (h : k.Runs s s' (next s) (next' s')) :
    k.Runs s s' (get >>= next) (get >>= next') := by
  constructor
  · rw [outcome_bind, outcome_bind, outcome_get, outcome_get]
    exact h.answer
  · rw [outcome_bind, outcome_bind, outcome_get, outcome_get]
    exact h.alike
  · rw [outcome_bind, outcome_get]
    exact h.spares

theorem set {t t' : σ} (h : k.alike t t') (hspares : k.spares s t) :
    k.Runs s s' (MonadStateOf.set t : Action σ ε PUnit) (MonadStateOf.set t') :=
  ⟨rfl, h, hspares⟩

theorem modify {f : σ → σ} (h : k.alike (f s) (f s')) (hspares : k.spares s (f s)) :
    k.Runs s s' (modifyThe σ f : Action σ ε PUnit) (modifyThe σ f) :=
  ⟨rfl, h, hspares⟩

theorem map {c c' : Action σ ε α} (f : α → β) (h : k.Runs s s' c c') :
    k.Runs s s' (f <$> c) (f <$> c') := by
  constructor
  · rw [outcome_map, outcome_map, h.answer]
  · rw [outcome_map, outcome_map]
    exact h.alike
  · rw [outcome_map]
    exact h.spares

theorem attempt {c c' : Action σ ε α} (h : k.Runs s s' c c') :
    k.Runs s s' (c.attempt : Action σ δ _) c'.attempt :=
  ⟨congrArg Except.ok h.answer, h.alike, h.spares⟩

theorem mapError {c c' : Action σ ε α} (f : ε → δ) (h : k.Runs s s' c c') :
    k.Runs s s' (c.mapError f) (c'.mapError f) := by
  constructor
  · rw [outcome_mapError, outcome_mapError, h.answer]
  · rw [outcome_mapError, outcome_mapError]
    exact h.alike
  · rw [outcome_mapError]
    exact h.spares

theorem ite {p : Prop} [Decidable p] {c c' e e' : Action σ ε α} (h : k.Runs s s' c c')
    (h' : k.Runs s s' e e') : k.Runs s s' (if p then c else e) (if p then c' else e') := by
  split
  · exact h
  · exact h'

/-- An action that is made only in some case, before what follows in every case. -/
theorem ite_bind {p : Prop} [Decidable p] {c c' : Action σ ε Unit}
    {next next' : Unit → Action σ ε α} (hs : k.alike s s') (h : k.Runs s s' c c')
    (hnext : ∀ t t', k.alike t t' → k.Runs t t' (next ()) (next' ())) :
    k.Runs s s' (if p then c >>= next else next ()) (if p then c' >>= next' else next' ()) :=
  ite (bind h fun _ t t' _ _ ht => hnext t t' ht) (hnext s s' hs)

end Runs
end Confinement

/-! ### Where steps lead -/

/-- The place that a step leads to. -/
def Step.follow (place : List String) : Step → List String
  | .up => place.dropLast
  | .name text => place ++ [text]

/-- A place is beneath a base, or on the way to it. -/
def IsNear (base place : List String) : Prop :=
  base <+: place ∨ place <+: base

/-- What lies above a place that is near is near. -/
theorem IsNear.above {base place above : List String} (h : IsNear base place)
    (hle : above <+: place) : IsNear base above := by
  rcases h with hbase | hway
  · exact List.prefix_or_prefix_of_prefix hbase hle
  · exact Or.inr (hle.trans hway)

namespace Route

variable {r : Route} {base : List String} {x : String}

/-- The place that a route leads to, with every step up resolved. -/
def resolved (r : Route) : List String :=
  r.steps.foldl Step.follow []

/-- A route is on its way to a base or beneath it, wherever it leads through. -/
def Stays (base : List String) (r : Route) : Prop :=
  ∀ front, front <+: r.steps → IsNear base (front.foldl Step.follow [])

theorem Stays.resolved (h : r.Stays base) : IsNear base r.resolved :=
  h r.steps List.prefix_rfl

theorem leading_isPrefix (r : Route) : r.leading <+: r.steps := by
  rw [leading]
  split
  · exact List.prefix_rfl
  · exact List.dropLast_prefix _

/-- A call is about the last name of its route, after the steps before it. -/
theorem steps_of_last? (h : r.last? = some x) : r.steps = r.leading ++ [.name x] := by
  rw [last?] at h
  by_cases hdot : r.ending = .dot
  · rw [if_pos hdot] at h
    cases h
  rw [if_neg hdot] at h
  obtain ⟨front, hsteps⟩ := List.getLast?_eq_some_iff.1 (getLast?_steps h)
  rw [leading, if_neg hdot, hsteps, List.dropLast_concat]

theorem resolved_of_last? (h : r.last? = some x) :
    r.resolved = r.leading.foldl Step.follow [] ++ [x] := by
  rw [Route.resolved, steps_of_last? h, List.foldl_append]
  rfl

end Route

/-- The place that a target stands for. -/
def Target.place : Target → List String
  | reached place => place
  | named parent name => parent ++ [name]

/-- The directory that a target was found in. -/
def Target.directory : Target → List String
  | reached place => place
  | named parent _ => parent

namespace Disk

variable {base : List String} {d d' d'' : Disk} {r r' : Route} {p p' q place old : List String}
  {x x' : String}

/-- **A walk leads where its steps say**, and through directories only. -/
theorem of_walk (h : d.Sound) : ∀ {steps : List Step} {p q : List String},
    d.entryAt? p = some .directory → d.walk p steps = .ok q →
    q = steps.foldl Step.follow p ∧ d.entryAt? q = some .directory
  | [], p, q, hp, hwalk => by
    rw [walk] at hwalk
    obtain rfl := Except.ok.inj hwalk
    exact ⟨rfl, hp⟩
  | .up :: steps, p, q, hp, hwalk => by
    rw [walk] at hwalk
    have hrest := of_walk h (h.directories hp _ (List.dropLast_prefix p)) hwalk
    exact hrest
  | .name text :: steps, p, q, hp, hwalk => by
    rw [walk] at hwalk
    by_cases hlong : Route.longestName < text.utf8ByteSize
    · rw [if_pos hlong] at hwalk
      cases hwalk
    rw [if_neg hlong] at hwalk
    rcases hentry : d.entryAt? (p ++ [text]) with _ | _ | id
    · simp [hentry] at hwalk
    · simp only [hentry] at hwalk
      have hrest := of_walk h hentry hwalk
      exact hrest
    · simp [hentry] at hwalk

theorem of_walk_top (h : d.Sound) {steps : List Step} (hwalk : d.walk [] steps = .ok q) :
    q = steps.foldl Step.follow [] ∧ d.entryAt? q = some .directory :=
  of_walk h d.entryAt?_nil hwalk

/-- **What a route is about lies where the route leads**, in a directory or as one. -/
theorem of_target (h : d.Sound) {t : Target} (htarget : d.target r.steps = .ok t) :
    t.place = r.resolved ∧ d.entryAt? t.directory = some .directory := by
  rw [target] at htarget
  cases hwalk : d.walk [] r.steps.dropLast with
  | error e => simp [hwalk, bind, Except.bind] at htarget
  | ok parent =>
    obtain ⟨hparent, hdirectory⟩ := of_walk_top h hwalk
    have hresolved : ∀ s, r.steps.getLast? = some s → r.resolved = Step.follow parent s := by
      intro s hlast
      rw [Route.resolved, ← List.dropLast_append_getLast? _ hlast, List.foldl_append, ← hparent]
      rfl
    rcases hlast : r.steps.getLast? with _ | _ | text
    · simp only [hwalk, hlast, bind, Except.bind, Except.ok.injEq] at htarget
      have hnil := List.getLast?_eq_none_iff.1 hlast
      rw [hnil] at hparent
      rw [← htarget, Route.resolved, hnil]
      exact ⟨hparent, hdirectory⟩
    · simp only [hwalk, hlast, bind, Except.bind, Except.ok.injEq] at htarget
      rw [← htarget, hresolved _ hlast]
      exact ⟨rfl, h.directories hdirectory _ (List.dropLast_prefix _)⟩
    · by_cases hlong : Route.longestName < text.utf8ByteSize
      · simp [hwalk, hlast, hlong, bind, Except.bind] at htarget
      · simp only [hwalk, hlast, hlong, bind, Except.bind, if_false, Except.ok.injEq] at htarget
        rw [← htarget, hresolved _ hlast]
        exact ⟨rfl, hdirectory⟩

/-- What is found lies where the route leads. -/
theorem entry_of_find (h : d.Sound) {e : Entry} (hfind : d.find r = .ok (q, e)) :
    q = r.resolved ∧ d.entryAt? q = some e := by
  rw [find] at hfind
  rcases htarget : d.target r.steps with e | place | ⟨p, x⟩
  · simp [htarget, bind, Except.bind] at hfind
  · obtain ⟨hplace, hdirectory⟩ := of_target h htarget
    simp only [htarget, bind, Except.bind, Except.ok.injEq, Prod.mk.injEq] at hfind
    obtain ⟨rfl, rfl⟩ := hfind
    exact ⟨hplace, hdirectory⟩
  · obtain ⟨hplace, -⟩ := of_target h htarget
    simp only [htarget, bind, Except.bind] at hfind
    rcases hentry : d.entryAt? (p ++ [x]) with _ | _ | id
    · simp [hentry] at hfind
    · simp only [hentry, Except.ok.injEq, Prod.mk.injEq] at hfind
      obtain ⟨rfl, rfl⟩ := hfind
      exact ⟨hplace, hentry⟩
    · by_cases hasks : r.asksDirectory = true
      · simp [hentry, hasks] at hfind
      · simp only [hentry, if_neg hasks, Except.ok.injEq, Prod.mk.injEq] at hfind
        obtain ⟨rfl, rfl⟩ := hfind
        exact ⟨hplace, hentry⟩

/-! ### Trees that look alike from a base -/

/-- Two sound trees have the same entries on the way to a base and beneath it, and the same bytes
in the files there. -/
structure Alike (base : List String) (d d' : Disk) : Prop where
  sound : d.Sound
  sound' : d'.Sound
  entryAt? : ∀ q, IsNear base q → d'.entryAt? q = d.entryAt? q
  bytes : ∀ q id, base <+: q → d.entryAt? q = some (.file id) → d'.bytes id = d.bytes id
  nextId : d'.nextId = d.nextId

/-- The tree `d'` is `d` outside of a base, but that directories on the way to the base may have
been made. -/
structure Spares (base : List String) (d d' : Disk) : Prop where
  entryAt? : ∀ q, ¬ base <+: q → d'.entryAt? q = d.entryAt? q ∨
    q <+: base ∧ d.entryAt? q = none ∧ d'.entryAt? q = some .directory
  bytes : ∀ q id, ¬ base <+: q → d.entryAt? q = some (.file id) → d'.bytes id = d.bytes id

theorem Spares.refl (base : List String) (d : Disk) : d.Spares base d :=
  ⟨fun _ _ => Or.inl rfl, fun _ _ _ _ => rfl⟩

theorem Spares.trans (h : Spares base d d') (h' : Spares base d' d'') : Spares base d d'' where
  entryAt? q hq := by
    rcases h'.entryAt? q hq with hsame | ⟨hway, hnone, hdirectory⟩
    · rw [hsame]
      exact h.entryAt? q hq
    · rcases h.entryAt? q hq with hsame | ⟨-, -, hmade⟩
      · exact Or.inr ⟨hway, hsame.symm.trans hnone, hdirectory⟩
      · cases hnone.symm.trans hmade
  bytes q id hq he := by
    rcases h.entryAt? q hq with hsame | ⟨-, hnone, -⟩
    · rw [h'.bytes q id hq (hsame.trans he), h.bytes q id hq he]
    · cases hnone.symm.trans he

/-- A caller that stays beneath a base. -/
def within (base : List String) : Confinement Disk where
  alike := Alike base
  spares := Spares base
  refl := Spares.refl base
  trans := Spares.trans

/-! ### Changes beneath the base -/

theorem Alike.addDirectory (h : Alike base d d') (hp : d.entryAt? p = some .directory)
    (hnear : IsNear base (p ++ [x])) :
    Alike base (d.addDirectory (p ++ [x])) (d'.addDirectory (p ++ [x])) where
  sound := (grown_addDirectory (h.sound.directories hp)).sound h.sound
  sound' := by
    have hp' := (h.entryAt? p (hnear.above (List.prefix_append _ _))).trans hp
    exact (grown_addDirectory (h.sound'.directories hp')).sound h.sound'
  entryAt? q hq := by
    rw [entryAt?_addDirectory (by simp), entryAt?_addDirectory (by simp), h.entryAt? q hq]
  bytes q id hq he := by
    rw [entryAt?_addDirectory (by simp)] at he
    split at he
    · cases he
    · exact h.bytes q id hq he
  nextId := h.nextId

theorem spares_addDirectory (hnear : IsNear base (p ++ [x]))
    (hnone : d.entryAt? (p ++ [x]) = none) : Spares base d (d.addDirectory (p ++ [x])) where
  entryAt? q hq := by
    rw [entryAt?_addDirectory (by simp)]
    by_cases he : q = p ++ [x]
    · rw [if_pos he]
      rw [he] at hq ⊢
      exact Or.inr ⟨hnear.resolve_left hq, hnone, rfl⟩
    · exact Or.inl (if_neg he)
  bytes _ _ _ _ := rfl

theorem Alike.addFile (h : Alike base d d') (hp : d.entryAt? p = some .directory)
    (hnone : d.entryAt? (p ++ [x]) = none) (hbase : base <+: p ++ [x]) (bytes : Bytes) :
    Alike base (d.addFile (p ++ [x]) bytes) (d'.addFile (p ++ [x]) bytes) where
  sound := h.sound.addFile hp hnone bytes
  sound' := by
    have hnear : IsNear base (p ++ [x]) := Or.inl hbase
    refine h.sound'.addFile ?_ ?_ bytes
    · rw [h.entryAt? p (hnear.above (List.prefix_append _ _)), hp]
    · rw [h.entryAt? _ hnear, hnone]
  entryAt? q hq := by
    rw [entryAt?_addFile (by simp), entryAt?_addFile (by simp), h.entryAt? q hq, h.nextId]
  bytes q id hq he := by
    rw [bytes_addFile, bytes_addFile, h.nextId]
    by_cases hid : id = d.nextId
    · rw [if_pos hid, if_pos hid]
    · rw [if_neg hid, if_neg hid]
      rw [entryAt?_addFile (by simp)] at he
      split at he
      · exact absurd (Entry.file.inj (Option.some.inj he)).symm hid
      · exact h.bytes q id hq he
  nextId := congrArg (· + 1) h.nextId

theorem spares_addFile (h : d.Sound) (hbase : base <+: p ++ [x]) (bytes : Bytes) :
    Spares base d (d.addFile (p ++ [x]) bytes) where
  entryAt? q hq := by
    have hne : q ≠ p ++ [x] := fun he => hq (he ▸ hbase)
    rw [entryAt?_addFile (by simp), if_neg hne]
    exact Or.inl rfl
  bytes q id _ he := by
    rw [bytes_addFile, if_neg (Nat.ne_of_lt (h.fresh he))]

theorem Alike.setBytes (h : Alike base d d') (id : Nat) (bytes : Bytes) :
    Alike base (d.setBytes id bytes) (d'.setBytes id bytes) where
  sound := h.sound.setBytes id bytes
  sound' := h.sound'.setBytes id bytes
  entryAt? := h.entryAt?
  bytes q id' hq he := by
    rw [bytes_setBytes, bytes_setBytes, h.bytes q id' hq he]
  nextId := h.nextId

/-- The bytes of a file beneath the base are those of no other file. -/
theorem spares_setBytes (h : d.Sound) {id : Nat} (hplace : d.entryAt? place = some (.file id))
    (hbase : base <+: place) (bytes : Bytes) : Spares base d (d.setBytes id bytes) where
  entryAt? _ _ := Or.inl rfl
  bytes q id' hq he := by
    refine (bytes_setBytes d id bytes id').trans (if_neg ?_)
    rintro rfl
    exact hq (h.lone he hplace ▸ hbase)

theorem Alike.prune (h : Alike base d d') (hplace : place ≠ []) :
    Alike base (d.prune place) (d'.prune place) where
  sound := h.sound.prune hplace
  sound' := h.sound'.prune hplace
  entryAt? q hq := by
    rw [entryAt?_prune hplace, entryAt?_prune hplace, h.entryAt? q hq]
  bytes q id hq he := by
    rw [entryAt?_prune hplace] at he
    split at he
    · cases he
    · exact h.bytes q id hq he
  nextId := h.nextId

theorem spares_prune (hplace : place ≠ []) (hbase : base <+: place) :
    Spares base d (d.prune place) where
  entryAt? q hq := by
    rw [entryAt?_prune hplace, if_neg fun hle => hq (hbase.trans hle)]
    exact Or.inl rfl
  bytes _ _ _ _ := rfl

/-- A directory may be emptied. -/
theorem Sound.clear (h : d.Sound) (hp : d.entryAt? p = some .directory) : (d.clear p).Sound := by
  have hfile : ∀ {q id}, (d.clear p).entryAt? q = some (.file id) →
      d.entryAt? q = some (.file id) := by
    intro q id he
    rw [entryAt?_clear] at he
    split at he
    · cases he
    · split at he
      · cases he
      · exact he
  constructor
  case parent =>
    intro q y e he
    have habove : ¬ p <+: q → d.entryAt? q = some .directory →
        (d.clear p).entryAt? q = some .directory := by
      intro hout hdirectory
      have hne : q ≠ p := fun he => hout (he ▸ List.prefix_rfl)
      rw [entryAt?_clear, if_neg hne, if_neg hout, hdirectory]
    rw [entryAt?_clear] at he
    split at he
    · rename_i hq
      subst hq
      exact habove (not_concat_isPrefix q y) (h.parent hp)
    · rename_i hq
      split at he
      · cases he
      · rename_i hout
        exact habove (fun hle => hout (hle.trans (List.prefix_append _ _))) (h.parent he)
  case fresh =>
    intro q id he
    rw [nextId_clear]
    exact h.fresh (hfile he)
  case lone => exact fun hq hr => h.lone (hfile hq) (hfile hr)

theorem Alike.clear (h : Alike base d d') (hplace : d.entryAt? place = some .directory)
    (hbase : base <+: place) : Alike base (d.clear place) (d'.clear place) where
  sound := h.sound.clear hplace
  sound' := h.sound'.clear ((h.entryAt? place (Or.inl hbase)).trans hplace)
  entryAt? q hq := by
    rw [entryAt?_clear, entryAt?_clear, h.entryAt? q hq]
  bytes q id hq he := by
    rw [Disk.bytes, Disk.bytes, contents_clear, contents_clear]
    rw [entryAt?_clear] at he
    split at he
    · cases he
    · split at he
      · cases he
      · exact h.bytes q id hq he
  nextId := by rw [nextId_clear, nextId_clear, h.nextId]

theorem spares_clear (hbase : base <+: place) : Spares base d (d.clear place) where
  entryAt? q hq := by
    have hout : ¬ place <+: q := fun hle => hq (hbase.trans hle)
    have hne : q ≠ place := fun he => hout (he ▸ List.prefix_rfl)
    rw [entryAt?_clear, if_neg hne, if_neg hout]
    exact Or.inl rfl
  bytes _ _ _ _ := by rw [Disk.bytes, Disk.bytes, contents_clear]

theorem Alike.relabel (h : Alike base d d') (hne : old ≠ []) (hold : base <+: old)
    (hp : d.entryAt? p = some .directory) (hinside : ¬ old <+: p) (hnew : base <+: p ++ [x]) :
    Alike base (d.relabel old (p ++ [x])) (d'.relabel old (p ++ [x])) where
  sound := h.sound.relabel hne hp hinside
  sound' := by
    have hnear : IsNear base (p ++ [x]) := Or.inl hnew
    refine h.sound'.relabel hne ?_ hinside
    rw [h.entryAt? p (hnear.above (List.prefix_append _ _)), hp]
  entryAt? q hq := by
    rw [entryAt?_relabel hne (by simp), entryAt?_relabel hne (by simp), h.entryAt? q hq,
      h.entryAt? _ (Or.inl (hold.trans (List.prefix_append _ _)))]
  bytes q id hq he := by
    rw [entryAt?_relabel hne (by simp)] at he
    split at he
    · exact h.bytes _ id (hold.trans (List.prefix_append _ _)) he
    · split at he
      · cases he
      · exact h.bytes q id hq he
  nextId := h.nextId

theorem spares_relabel (hne : old ≠ []) (hold : base <+: old) (hnew : base <+: p ++ [x]) :
    Spares base d (d.relabel old (p ++ [x])) where
  entryAt? q hq := by
    rw [entryAt?_relabel hne (by simp), if_neg fun hle => hq (hnew.trans hle),
      if_neg fun hle => hq (hold.trans hle)]
    exact Or.inl rfl
  bytes _ _ _ _ := rfl

/-! ### What is seen from a base -/

theorem Alike.walk (h : Alike base d d') : ∀ {steps : List Step} {p : List String},
    (∀ front, front <+: steps → IsNear base (front.foldl Step.follow p)) →
    d'.walk p steps = d.walk p steps
  | [], p, _ => by rw [Disk.walk, Disk.walk]
  | .up :: steps, p, hnear => by
    rw [Disk.walk, Disk.walk]
    exact h.walk fun front hfront => hnear (.up :: front) (List.cons_prefix_cons.2 ⟨rfl, hfront⟩)
  | .name text :: steps, p, hnear => by
    have hentry : d'.entryAt? (p ++ [text]) = d.entryAt? (p ++ [text]) :=
      h.entryAt? _ (hnear [.name text] (List.cons_prefix_cons.2 ⟨rfl, List.nil_prefix⟩))
    have hrest : d'.walk (p ++ [text]) steps = d.walk (p ++ [text]) steps :=
      h.walk fun front hfront =>
        hnear (.name text :: front) (List.cons_prefix_cons.2 ⟨rfl, hfront⟩)
    rw [Disk.walk, Disk.walk, hentry, hrest]

theorem Alike.leading (h : Alike base d d') (hr : r.Stays base) :
    d'.walk [] r.leading = d.walk [] r.leading :=
  h.walk fun front hfront => hr front (hfront.trans r.leading_isPrefix)

theorem Alike.target (h : Alike base d d') (hr : r.Stays base) :
    d'.target r.steps = d.target r.steps := by
  rw [Disk.target, Disk.target,
    h.walk fun front hfront => hr front (hfront.trans (List.dropLast_prefix _))]

theorem Alike.find (h : Alike base d d') (hr : r.Stays base) : d'.find r = d.find r := by
  rw [Disk.find, Disk.find, h.target hr]
  rcases htarget : d.target r.steps with e | place | ⟨p, x⟩
  · rfl
  · rfl
  · have hplace : p ++ [x] = r.resolved := (of_target h.sound htarget).1
    have hentry : d'.entryAt? (p ++ [x]) = d.entryAt? (p ++ [x]) :=
      h.entryAt? _ (hplace ▸ hr.resolved)
    simp only [bind, Except.bind, hentry]

theorem Alike.isDirectory (h : Alike base d d') (hr : r.Stays base) :
    d'.isDirectory r = d.isDirectory r := by
  rw [Disk.isDirectory, Disk.isDirectory, h.find hr]

/-- The names in a directory increase. -/
theorem increasing_names (d : Disk) (p : List String) :
    (d.names p).Pairwise fun x y => compare x y = .lt := by
  refine List.Pairwise.filterMap _ (fun q q' hlt x hx y hy => ?_) Std.TreeMap.ordered_keys
  rw [eq_concat_of_last hx, eq_concat_of_last hy, compare_append] at hlt
  exact hlt

theorem names_congr (h : ∀ x, d'.entryAt? (p ++ [x]) = d.entryAt? (p ++ [x])) :
    d'.names p = d.names p := by
  have hmem : ∀ x, x ∈ d'.names p ↔ x ∈ d.names p := fun x => by
    rw [mem_names_iff, mem_names_iff, h]
  have hperm : (d'.names p).Perm (d.names p) :=
    (List.perm_ext_iff_of_nodup (d'.nodup_names p) (d.nodup_names p)).2 hmem
  refine hperm.eq_of_pairwise (fun x y _ _ hxy hyx => ?_) (d'.increasing_names p)
    (d.increasing_names p)
  rw [Std.OrientedOrd.eq_swap, hxy] at hyx
  cases hyx

theorem Alike.names (h : Alike base d d') (hbase : base <+: p) : d'.names p = d.names p :=
  names_congr fun _ => h.entryAt? _ (Or.inl (hbase.trans (List.prefix_append _ _)))

end Disk
end ContainerRegistry
