/-
# Calls that keep to the root

A local driver puts a path after its root and leaves it to the system to take the steps of
both. Nothing looks at the steps up in the path. So long as these never lead above where the
path starts, all that a call is about lies at the root or beneath it, and what lies elsewhere
is neither seen nor changed, but that directories above the root may be made. Content is put by
way of a scratch file beside its place: here the path must have a step, for what is beside the
root is outside.

The paths of a registry are such paths. One whose steps do lead above where it starts leads out
of the root, and whatever is asked of it is done there.

Key definitions: `Step.stayBeneath`, `Path.StaysBeneath`, `Route.LeadsBeneath`,
`Driver.Call.StaysBeneath`, `LocalStore.routes`, `LocalStore.within`, `LocalStore.Contained`.
Key theorems: `LocalStore.Place.staysBeneath_iff`, `Layout.staysBeneath_path`,
`LocalStore.confines_perform`, `LocalStore.contained`, `LocalStore.contained_all`.
-/
import ContainerRegistry.Proofs.Beneath
import ContainerRegistry.Proofs.Overlap

namespace ContainerRegistry

open ContainerRegistry.Action

/-! ### Steps that stay beneath a place -/

namespace Step

variable {base place : List String} {steps : List Step} {depth : Nat}

/-- Whether steps from so deep beneath a place never lead above it. -/
def stayBeneath : Nat → List Step → Bool
  | _, [] => true
  | depth, .name _ :: steps => stayBeneath (depth + 1) steps
  | 0, .up :: _ => false
  | depth + 1, .up :: steps => stayBeneath depth steps

/-- Names lead further down. -/
theorem foldl_follow_names (place names : List String) :
    (names.map Step.name).foldl follow place = place ++ names := by
  induction names generalizing place with
  | nil => exact (List.append_nil place).symm
  | cons x names ih =>
    have hrest : (names.map Step.name).foldl follow (place ++ [x]) = place ++ [x] ++ names := ih _
    rwa [List.append_assoc] at hrest

/-- One step up from beneath a base does not leave it. -/
theorem isPrefix_dropLast (hbase : base <+: place)
    (hdepth : place.length = base.length + (depth + 1)) :
    base <+: place.dropLast ∧ place.dropLast.length = base.length + depth := by
  have hlength : place.dropLast.length = base.length + depth := by
    rw [List.length_dropLast]
    omega
  refine ⟨List.prefix_of_prefix_length_le hbase (List.dropLast_prefix _) ?_, hlength⟩
  omega

theorem isPrefix_of_stayBeneath (h : stayBeneath depth steps = true) (hbase : base <+: place)
    (hdepth : place.length = base.length + depth) :
    ∀ front, front <+: steps → base <+: front.foldl follow place := by
  fun_induction stayBeneath depth steps generalizing place with
  | case1 depth =>
    intro front hfront
    rwa [List.prefix_nil.1 hfront]
  | case2 depth x steps ih =>
    intro front hfront
    rcases List.prefix_cons_iff.1 hfront with rfl | ⟨rest, rfl, hrest⟩
    · exact hbase
    · refine ih h (hbase.trans (List.prefix_append _ [x])) ?_ rest hrest
      rw [List.length_append, hdepth]
      rfl
  | case3 => cases h
  | case4 depth steps ih =>
    intro front hfront
    rcases List.prefix_cons_iff.1 hfront with rfl | ⟨rest, rfl, hrest⟩
    · exact hbase
    · obtain ⟨hbase, hdepth⟩ := isPrefix_dropLast hbase hdepth
      exact ih h hbase hdepth rest hrest

/-- **Steps never lead above a place** just if they are so counted; there is nothing above the
top. -/
theorem stayBeneath_iff (htop : base ≠ []) (hbase : base <+: place)
    (hdepth : place.length = base.length + depth) :
    stayBeneath depth steps = true ↔
      ∀ front, front <+: steps → base <+: front.foldl follow place := by
  refine ⟨fun h => isPrefix_of_stayBeneath h hbase hdepth, fun h => ?_⟩
  fun_induction stayBeneath depth steps generalizing place with
  | case1 => rfl
  | case2 depth x steps ih =>
    refine ih (hbase.trans (List.prefix_append _ [x])) ?_ fun front hfront =>
      h (.name x :: front) (List.cons_prefix_cons.2 ⟨rfl, hfront⟩)
    rw [List.length_append, hdepth]
    rfl
  | case3 steps =>
    -- one step up from the base itself
    have hup : base <+: place.dropLast := h [.up] (List.cons_prefix_cons.2 ⟨rfl, List.nil_prefix⟩)
    have hle := hup.length_le
    have hpos : 0 < base.length := List.length_pos_iff.2 htop
    rw [List.length_dropLast] at hle
    omega
  | case4 depth steps ih =>
    obtain ⟨hbase, hdepth⟩ := isPrefix_dropLast hbase hdepth
    exact ih hbase hdepth fun front hfront =>
      h (.up :: front) (List.cons_prefix_cons.2 ⟨rfl, hfront⟩)

theorem stayBeneath_of_not_mem_up (h : .up ∉ steps) (depth : Nat) :
    stayBeneath depth steps = true := by
  induction steps generalizing depth with
  | nil => simp [stayBeneath]
  | cons s steps ih =>
    cases s with
    | up => exact absurd List.mem_cons_self h
    | name x =>
      rw [stayBeneath]
      exact ih (fun hup => h (List.mem_cons_of_mem _ hup)) (depth + 1)

/-- Steps that stay may be broken off anywhere, and a name may follow. -/
theorem stayBeneath_concat (h : stayBeneath depth steps = true) (x : String) :
    ∀ front, front <+: steps → stayBeneath depth (front ++ [.name x]) = true := by
  fun_induction stayBeneath depth steps with
  | case1 depth =>
    intro front hfront
    rw [List.prefix_nil.1 hfront]
    simp [stayBeneath]
  | case2 depth y steps ih =>
    intro front hfront
    rcases List.prefix_cons_iff.1 hfront with rfl | ⟨rest, rfl, hrest⟩
    · simp [stayBeneath]
    · have hstay := ih h rest hrest
      simpa [stayBeneath] using hstay
  | case3 => cases h
  | case4 depth steps ih =>
    intro front hfront
    rcases List.prefix_cons_iff.1 hfront with rfl | ⟨rest, rfl, hrest⟩
    · simp [stayBeneath]
    · have hstay := ih h rest hrest
      simpa [stayBeneath] using hstay

end Step

/-- The steps of a path. -/
def Path.steps (p : Path) : List Step :=
  p.components.filterMap Component.step?

/-- A path never steps above where it starts. -/
def Path.StaysBeneath (p : Path) : Prop :=
  Step.stayBeneath 0 p.steps = true

instance (p : Path) : Decidable p.StaysBeneath :=
  inferInstanceAs (Decidable (_ = true))

/-- A path stays just if each of its steps leads to the root or beneath it, whatever the root is;
only the top has nothing above it. -/
theorem LocalStore.Place.staysBeneath_iff (place : LocalStore.Place) (htop : place.root ≠ [])
    (p : Path) : p.StaysBeneath ↔
      ∀ front, front <+: p.steps → place.root <+: front.foldl Step.follow place.root :=
  Step.stayBeneath_iff htop List.prefix_rfl rfl

theorem Path.staysBeneath_of_not_mem_up {p : Path} (h : .up ∉ p.components) : p.StaysBeneath := by
  refine Step.stayBeneath_of_not_mem_up (fun hup => ?_) 0
  obtain ⟨c, hc, hstep⟩ := List.mem_filterMap.1 hup
  cases c with
  | up => exact h hc
  | root | here | name text => cases hstep

/-- The paths of a registry stay, and have a step. -/
theorem Layout.staysBeneath_path (r : Resource) :
    (Layout.standard.path r).StaysBeneath ∧ (Layout.standard.path r).steps ≠ [] := by
  have hcomponents : (Layout.standard.path r).components =
      .root :: (Layout.rootNames ++ r.place).map .name := by
    rw [Layout.path_eq_ofNames, Path.components_ofNames (by simp [Layout.rootNames])
      Layout.isName_of_mem_names]
  constructor
  · refine Path.staysBeneath_of_not_mem_up ?_
    rw [hcomponents]
    simp
  · rw [Path.steps, hcomponents]
    simp [Layout.rootNames, Component.step?]

namespace Route

variable {r : Route} {base : List String} {steps : List Step}

/-- A route leads to a base or beneath it, and past no other places than those on the way to the
base and those beneath it. -/
structure LeadsBeneath (base : List String) (r : Route) : Prop where
  stays : r.Stays base
  beneath : base <+: r.resolved

/-- **Steps that stay lead beneath a base** if they follow the names of the base. -/
theorem LeadsBeneath.of_steps (hsteps : r.steps = base.map .name ++ steps)
    (h : Step.stayBeneath 0 steps = true) : r.LeadsBeneath base := by
  have hbeneath : ∀ front, front <+: steps →
      base <+: (base.map Step.name ++ front).foldl Step.follow [] := by
    intro front hfront
    rw [List.foldl_append, Step.foldl_follow_names, List.nil_append]
    exact Step.isPrefix_of_stayBeneath h List.prefix_rfl rfl front hfront
  constructor
  case stays =>
    intro front hfront
    rw [hsteps] at hfront
    rcases List.prefix_or_prefix_of_prefix hfront (List.prefix_append _ _) with hway | ⟨rest, rfl⟩
    · obtain ⟨names, hnames, rfl⟩ := List.prefix_map_iff.1 hway
      rw [Step.foldl_follow_names]
      exact Or.inr hnames
    · exact Or.inl (hbeneath rest ((List.prefix_append_right_inj _).1 hfront))
  case beneath =>
    rw [Route.resolved, hsteps]
    exact hbeneath steps List.prefix_rfl

/-- Another name at the end takes the place of the last name, or follows the last step up. -/
theorem steps_withFileName (r : Route) (x : String) : (r.withFileName x).steps =
    (if r.fileName?.isSome then r.steps.dropLast else r.steps) ++ [.name x] := by
  have hbefore : ∀ before : List Part, (Route.mk (before ++ [.step (.name x)])).steps =
      before.filterMap Part.step? ++ [.name x] := by
    intro before
    rw [Route.steps, List.filterMap_append]
    rfl
  rw [withFileName, hbefore]
  cases hname : r.fileName? with
  | some last =>
    rw [Option.isSome_some, if_pos rfl, ← steps_parent]
    rfl
  | none =>
    rw [Option.isSome_none, if_neg Bool.false_ne_true]
    by_cases hblank : r.parts.getLast? = some .blank
    · -- a blank at the end is no step
      obtain ⟨front, hparts⟩ := List.getLast?_eq_some_iff.1 hblank
      simp only [if_pos hblank, Route.steps]
      rw [hparts, List.dropLast_concat, List.filterMap_append]
      simp [Part.step?]
    · simp only [if_neg hblank]
      rfl

/-- A scratch file beside a place beneath the base lies beneath the base as well. -/
theorem LeadsBeneath.withFileName (hsteps : r.steps = base.map .name ++ steps)
    (h : Step.stayBeneath 0 steps = true) (hne : steps ≠ []) (x : String) :
    (r.withFileName x).LeadsBeneath base := by
  obtain ⟨front, hfront, hbefore⟩ : ∃ front, front <+: steps ∧
      (if r.fileName?.isSome then r.steps.dropLast else r.steps) = base.map .name ++ front := by
    by_cases hname : r.fileName?.isSome = true
    · exact ⟨steps.dropLast, List.dropLast_prefix _, by
        rw [if_pos hname, hsteps, List.dropLast_append_of_ne_nil hne]⟩
    · exact ⟨steps, List.prefix_rfl, by rw [if_neg hname, hsteps]⟩
  refine .of_steps ?_ (Step.stayBeneath_concat h x front hfront)
  rw [steps_withFileName, hbefore, List.append_assoc]

theorem Stays.parent (h : r.Stays base) : r.parent.Stays base := by
  intro front hfront
  rw [steps_parent] at hfront
  exact h front (hfront.trans (List.dropLast_prefix _))

end Route

namespace LocalStore

variable {place : Place} {base : List String} {r : Route} {p source destination : Path}
  {s s' t t' : LocalStore} {α β : Type}

/-- The route of a path that stays leads beneath the root. -/
theorem leadsBeneath_route (place : Place) (h : p.StaysBeneath) :
    (route place p).LeadsBeneath place.root :=
  .of_steps (steps_route place p) h

/-! ### Calls of a driver -/

/-- A driver that stays beneath a base. -/
def within (base : List String) : Confinement LocalStore where
  alike s s' := s.disk.Alike base s'.disk ∧ s'.scratch = s.scratch ∧ s'.tears = s.tears
  spares s s' := s.disk.Spares base s'.disk
  refl s := .refl base s.disk
  trans := .trans

theorem confines_system {c : Disk.Call α} (h : (Disk.within base).Confines c) :
    (within base).Confines (system c) := by
  intro s s' hs
  obtain ⟨hanswer, halike, hspares⟩ := h s.disk s'.disk hs.1
  exact ⟨hanswer, ⟨halike, hs.2⟩, hspares⟩

theorem confines_call {c : Disk.Call α} (p : Path) (context : String)
    (h : (Disk.within base).Confines c) : (within base).Confines (call p context c) :=
  fun s s' hs => (confines_system h s s' hs).mapError _

theorem of_outcome_call {c : Disk.Call α} {context : String} {a : α}
    (h : (call p context c).outcome s = (.ok a, t)) : c.outcome s.disk = (.ok a, t.disk) := by
  rw [outcome_call] at h
  obtain ⟨hanswer, rfl⟩ := Prod.mk.inj h
  rcases hc : c.outcome s.disk with ⟨e | b, d⟩
  · rw [hc] at hanswer
    cases hanswer
  · rw [hc] at hanswer
    rw [Except.ok.inj hanswer]

theorem confines_createParent (hr : r.Stays base) (p : Path) :
    (within base).Confines (createParent p r) :=
  confines_call p _ (Disk.confines_createDirectories hr.parent)

theorem confines_getContent (h : (route place p).LeadsBeneath base) :
    (within base).Confines (getContent place p) := by
  refine confines_call p _ (Disk.confines_looked h.stays fun e d d' hd hentry => ?_)
  cases e with
  | directory => exact Disk.runs_fail hd _
  | file id =>
    refine .bind_get ?_
    rw [hd.bytes _ id h.beneath hentry]
    exact .pure hd _

theorem confines_stat (h : (route place p).LeadsBeneath base) :
    (within base).Confines (stat place p) := by
  refine confines_call p _ (Disk.confines_looked h.stays fun e d d' hd hentry => ?_)
  cases e with
  | directory => exact .pure hd _
  | file id =>
    refine .bind_get ?_
    rw [hd.bytes _ id h.beneath hentry]
    exact .pure hd _

/-- **Content is put** by way of a scratch file, which must lie beneath the base as well. -/
theorem confines_putContent (h : (route place p).LeadsBeneath base)
    (hscratch : ∀ x, ((route place p).withFileName x).LeadsBeneath base) (bytes : Bytes) :
    (within base).Confines (putContent place p bytes) := by
  intro s s' hs
  rw [putContent]
  refine .bind (confines_createParent h.stays p s s' hs) fun _ t t' _ _ ht => .bind_get ?_
  rw [ht.2.1]
  have hbeneath := hscratch (scratchName place (route place p) t.scratch)
  refine .bind (.modify ⟨ht.1, congrArg (· + 1) ht.2.1, ht.2.2⟩ (.refl _ _)) fun _ u u' _ _ hu => ?_
  refine .bind (confines_call p _ (Disk.confines_writeFile hbeneath.stays hbeneath.beneath bytes)
    u u' hu) fun _ v v' _ _ hv => ?_
  exact confines_call p _ (Disk.confines_rename hbeneath.stays hbeneath.beneath h.stays h.beneath)
    v v' hv

theorem confines_readStream (h : (route place p).LeadsBeneath base) (offset : Nat) :
    (within base).Confines (readStream place p offset) := by
  intro s s' hs
  rw [readStream]
  refine .bind (confines_call p _ (Disk.confines_look h.stays) s s' hs) fun x t t' ht _ hu => ?_
  obtain ⟨q, e⟩ := x
  obtain ⟨rfl, hentry⟩ := Disk.of_look hs.1.sound (of_outcome_call ht)
  refine .bind_get ?_
  have hopened : opened t'.disk e = opened t.disk e := by
    cases e with
    | directory => rfl
    | file id => rw [opened, opened, hu.1.bytes _ id h.beneath hentry]
  rw [hopened]
  exact .ite (.throw hu _) (.pure hu _)

/-- A stream is open on the file where the route leads. -/
theorem of_readStream (hs : s.disk.Sound) {offset : Nat} {stream : FileStream}
    (h : (readStream place p offset).outcome s = (.ok stream, t)) :
    ∀ id, stream.file = some id → t.disk.entryAt? (route place p).resolved = some (.file id) := by
  intro id hid
  rw [readStream, outcome_bind] at h
  rcases hlook : (call p "open for reading" (Disk.look (route place p))).outcome s with
    ⟨err | ⟨q, e⟩, u⟩
  · rw [hlook] at h
    cases h
  obtain ⟨rfl, hentry⟩ := Disk.of_look hs (of_outcome_call hlook)
  rw [hlook] at h
  simp only [outcome_bind, outcome_get] at h
  split at h
  · cases h
  · rw [outcome_pure] at h
    obtain ⟨hstream, rfl⟩ := Prod.mk.inj h
    rw [← Except.ok.inj hstream] at hid
    cases e with
    | directory => cases hid
    | file old => rwa [← Option.some.inj hid]

/-- The system deals with failed sources as it is told, whatever the tree. -/
theorem landing_congr (h : s'.tears = s.tears) (source : Source) :
    s'.landing source = s.landing source := by
  rw [landing, landing, h]

theorem confines_writeStream (h : (route place p).LeadsBeneath base) (offset : Nat)
    (source : Source) : (within base).Confines (writeStream place p offset source) := by
  intro s s' hs
  rw [writeStream]
  refine .ite_bind hs (confines_createParent h.stays p s s' hs) fun t t' ht => ?_
  refine .bind (confines_system (Disk.confines_openFile h.stays h.beneath _) t t' ht).attempt
    fun x u u' hu _ hv => ?_
  cases x with
  | error e => exact .ite (.throw hv _) (.throw hv _)
  | ok id =>
    refine .bind_get ?_
    have hentry : u.disk.entryAt? (route place p).resolved = some (.file id) := by
      obtain ⟨hopened, rfl⟩ := Prod.mk.inj hu
      exact Disk.of_openFile ht.1.sound (Prod.ext (Except.ok.inj hopened) rfl)
    rw [hv.1.bytes _ id h.beneath hentry]
    refine .ite (.throw hv _) ?_
    have hlanding : u'.landing source = u.landing source := landing_congr hv.2.2 source
    refine .bind (.modify ?_ (Disk.spares_setBytes hv.1.sound hentry h.beneath _))
      fun _ w w' _ _ hw => ?_
    · rw [hlanding]
      exact ⟨hv.1.setBytes id _, hv.2.1, rfl⟩
    cases source.failure with
    | some e => exact .throw hw _
    | none => exact .pure hw _

theorem confines_list (h : (route place p).LeadsBeneath base) :
    (within base).Confines (list place p) := by
  intro s s' hs
  rw [list]
  refine .bind (confines_system (Disk.confines_children h.stays h.beneath) s s' hs).attempt
    fun x t t' _ _ ht => ?_
  cases x with
  | ok names => exact .pure ht _
  | error e => exact .throw ht _

theorem confines_delete (h : (route place p).LeadsBeneath base) :
    (within base).Confines (delete place p) := by
  intro s s' hs
  rw [delete]
  refine .bind (confines_call p _ (Disk.confines_look h.stays) s s' hs) fun x t t' _ _ ht => ?_
  obtain ⟨q, e⟩ := x
  cases e with
  | directory => exact confines_call p _ (Disk.confines_removeTree h.stays h.beneath) t t' ht
  | file id => exact confines_call p _ (Disk.confines_removeFile h.stays h.beneath) t t' ht

theorem confines_rename (h : (route place source).LeadsBeneath base)
    (h' : (route place destination).LeadsBeneath base) :
    (within base).Confines (rename place source destination) := by
  intro s s' hs
  rw [rename]
  refine .bind (confines_call source _ (Disk.confines_look h.stays) s s' hs) fun _ t t' _ _ ht => ?_
  refine .bind (confines_createParent h'.stays destination t t' ht) fun _ u u' _ _ hu => ?_
  refine .bind_get ?_
  rw [hu.1.isDirectory h'.stays]
  exact .ite_bind hu
    (confines_call destination _ (Disk.confines_removeTree h'.stays h'.beneath) u u' hu)
    (confines_call source _ (Disk.confines_rename h.stays h.beneath h'.stays h'.beneath))

/-! ### Reading to the end -/

/-- A pull leaves the stream open on what it was. -/
theorem file_pull (stream : FileStream) (limit : Option Nat) (s : LocalStore) :
    (pull stream limit s).rest.file = stream.file := by
  cases hfile : stream.file with
  | none =>
    simp only [pull, hfile]
    split <;> exact hfile
  | some id =>
    simp only [pull, hfile]
    rw [stream.file_pullFrom, hfile]

/-- What a pull gives hangs on the file alone that the stream is open on. -/
theorem pull_congr {stream : FileStream} (limit : Option Nat)
    (h : ∀ id, stream.file = some id → s'.disk.bytes id = s.disk.bytes id) :
    pull stream limit s' = pull stream limit s := by
  cases hfile : stream.file with
  | none => simp only [pull, hfile]
  | some id => simp only [pull, hfile, h id hfile]

theorem drain_congr (place : Place) (pieces : List Nat) {stream : FileStream}
    (h : ∀ id, stream.file = some id → s'.disk.bytes id = s.disk.bytes id) :
    (driver place).drain s' pieces stream = (driver place).drain s pieces stream := by
  induction pieces generalizing stream with
  | nil => exact congrArg Pulled.answer (pull_congr none h)
  | cons size pieces ih =>
    have hpull : (driver place).pull stream (some size) s' =
        (driver place).pull stream (some size) s := pull_congr (some size) h
    have hfile : ((driver place).pull stream (some size) s).rest.file = stream.file :=
      file_pull stream (some size) s
    have hrest := @ih ((driver place).pull stream (some size) s).rest (by rwa [hfile])
    rw [Driver.drain, Driver.drain, hpull, hrest]

theorem confines_read (h : (route place p).LeadsBeneath base) (offset : Nat) (pieces : List Nat) :
    (within base).Confines ((driver place).serve (.read p offset pieces)) := by
  intro s s' hs
  refine .bind (confines_readStream h offset s s' hs) fun stream t t' hstream _ ht => .bind_get ?_
  have hdrain : (driver place).drain t' pieces stream = (driver place).drain t pieces stream :=
    drain_congr place pieces fun id hid =>
      ht.1.bytes _ id h.beneath (of_readStream hs.1.sound hstream id hid)
  rw [hdrain]
  cases (driver place).drain t pieces stream with
  | ok bytes => exact .pure ht _
  | error e => exact .throw ht _

end LocalStore

/-! ### All calls -/

/-- The paths of a call never step above where they start, and where content is put they have
a step. -/
def Driver.Call.StaysBeneath : Driver.Call → Prop
  | .file (.put p _) => p.StaysBeneath ∧ p.steps ≠ []
  | .file (.rename source destination) => source.StaysBeneath ∧ destination.StaysBeneath
  | .file (.get p) | .file (.write p _ _) | .file (.read p _ _) | .file (.stat p)
  | .file (.delete p) | .list p => p.StaysBeneath

instance : DecidablePred Driver.Call.StaysBeneath
  | .file (.put p _) => inferInstanceAs (Decidable (p.StaysBeneath ∧ p.steps ≠ []))
  | .file (.rename source destination) =>
    inferInstanceAs (Decidable (source.StaysBeneath ∧ destination.StaysBeneath))
  | .file (.get p) | .file (.write p _ _) | .file (.read p _ _) | .file (.stat p)
  | .file (.delete p) | .list p => inferInstanceAs (Decidable p.StaysBeneath)

namespace LocalStore

variable {place : Place} {s s' : LocalStore} {c : Driver.Call}

/-- The routes that a call is about: those of its paths, and of its scratch file. -/
def routes (place : Place) (s : LocalStore) : Driver.Call → List Route
  | .file (.put p _) =>
    let r := route place p
    [r, r.withFileName (scratchName place r s.scratch)]
  | .file (.rename source destination) => [route place source, route place destination]
  | .file (.get p) | .file (.write p _ _) | .file (.read p _ _) | .file (.stat p)
  | .file (.delete p) | .list p => [route place p]

/-- The scratch file of a path with a step lies beneath the root. -/
theorem leadsBeneath_scratch (place : Place) {p : Path} (h : p.StaysBeneath) (hne : p.steps ≠ [])
    (x : String) : ((route place p).withFileName x).LeadsBeneath place.root :=
  .withFileName (steps_route place p) h hne x

theorem leadsBeneath_routes (place : Place) (s : LocalStore) (hc : c.StaysBeneath) :
    ∀ r ∈ routes place s c, r.LeadsBeneath place.root := by
  have hroute := fun {p : Path} (hp : p.StaysBeneath) => leadsBeneath_route place hp
  rcases c with (⟨p, bytes⟩ | p | ⟨p, offset, source⟩ | ⟨p, offset, pieces⟩ | p | p | ⟨p, p'⟩) | p
  case file.put =>
    rintro r hr
    rcases List.mem_pair.1 hr with rfl | rfl
    · exact hroute hc.1
    · exact leadsBeneath_scratch place hc.1 hc.2 _
  case file.rename =>
    rintro r hr
    rcases List.mem_pair.1 hr with rfl | rfl
    · exact hroute hc.1
    · exact hroute hc.2
  all_goals
    rintro r hr
    rw [List.mem_singleton.1 hr]
    exact hroute hc

/-- **Every call with paths that stay goes alike** in trees that look alike from the root. -/
theorem confines_perform (place : Place) (hc : c.StaysBeneath) :
    (within place.root).Confines ((driver place).perform c) := by
  have hroute := fun {p : Path} (hp : p.StaysBeneath) => leadsBeneath_route place hp
  intro s s' hs
  rcases c with (⟨p, bytes⟩ | p | ⟨p, offset, source⟩ | ⟨p, offset, pieces⟩ | p | p | ⟨p, p'⟩) | p
  case file.put =>
    have hscratch := leadsBeneath_scratch place hc.1 hc.2
    exact ((confines_putContent (hroute hc.1) hscratch bytes s s' hs).map _).map _
  case file.get => exact ((confines_getContent (hroute hc) s s' hs).map _).map _
  case file.write => exact ((confines_writeStream (hroute hc) offset source s s' hs).map _).map _
  case file.read => exact (confines_read (hroute hc) offset pieces s s' hs).map _
  case file.stat => exact ((confines_stat (hroute hc) s s' hs).map _).map _
  case file.delete => exact ((confines_delete (hroute hc) s s' hs).map _).map _
  case file.rename => exact ((confines_rename (hroute hc.1) (hroute hc.2) s s' hs).map _).map _
  case list => exact (confines_list (hroute hc) s s' hs).map _

/-- A call keeps to the root. -/
structure Contained (place : Place) (s : LocalStore) (c : Driver.Call) : Prop where
  /-- What it is about is the root or lies beneath it, with every step up resolved. -/
  beneath : ∀ r ∈ routes place s c, place.root <+: r.resolved
  sound : ((driver place).after s c).disk.Sound
  /-- What lies outside is left as it is, but that directories above the root may be made. -/
  spares : s.disk.Spares place.root ((driver place).after s c).disk
  /-- What lies outside makes no difference to the answer, nor to what lies beneath the root
  then. -/
  blind : ∀ s', (within place.root).alike s s' →
    (((driver place).perform c).outcome s').1 = (((driver place).perform c).outcome s).1 ∧
      (within place.root).alike ((driver place).after s c) ((driver place).after s' c)

theorem alike_self (base : List String) (hs : s.disk.Sound) : (within base).alike s s :=
  ⟨⟨hs, hs, fun _ _ => rfl, fun _ _ _ _ => rfl, rfl⟩, rfl, rfl⟩

/-- A call whose paths stay keeps to the root, whatever else its paths are made of: slashes in a
row, no slash at the front, dots, and steps up as far as the root. -/
theorem contained (place : Place) (hc : c.StaysBeneath) (hs : s.disk.Sound) :
    Contained place s c := by
  have hruns := confines_perform place hc
  obtain ⟨-, halike, hspares⟩ := hruns s s (alike_self _ hs)
  constructor
  case beneath => exact fun r hr => (leadsBeneath_routes place s hc r hr).beneath
  case sound => exact halike.1.sound
  case spares => exact hspares
  case blind =>
    intro s' hs'
    obtain ⟨hanswer, halike, -⟩ := hruns s s' hs'
    exact ⟨hanswer, halike⟩

/-! ### Runs of calls -/

/-- Calls with paths that stay, one after the other, go alike and spare what lies outside. -/
theorem confines_foldl_after (place : Place) {calls : List Driver.Call}
    (hcalls : ∀ c ∈ calls, c.StaysBeneath) (hs : (within place.root).alike s s') :
    (within place.root).alike (calls.foldl (driver place).after s)
        (calls.foldl (driver place).after s') ∧
      s.disk.Spares place.root (calls.foldl (driver place).after s).disk := by
  induction calls generalizing s s' with
  | nil => exact ⟨hs, .refl _ _⟩
  | cons c calls ih =>
    obtain ⟨hc, hcalls⟩ := List.forall_mem_cons.1 hcalls
    obtain ⟨-, halike, hspares⟩ := confines_perform place hc s s' hs
    obtain ⟨hrest, hspares'⟩ := ih hcalls halike
    exact ⟨hrest, hspares.trans hspares'⟩

/-- **Every call of a run keeps to the root**, and all of them together spare what lies outside. -/
theorem contained_all (place : Place) {calls : List Driver.Call}
    (hcalls : ∀ c ∈ calls, c.StaysBeneath) (hs : s.disk.Sound) :
    s.disk.Spares place.root (calls.foldl (driver place).after s).disk ∧
      ∀ before c, before ++ [c] <+: calls →
        Contained place (before.foldl (driver place).after s) c := by
  refine ⟨(confines_foldl_after place hcalls (alike_self _ hs)).2, fun before c hle => ?_⟩
  have hbefore : ∀ d ∈ before, d.StaysBeneath := fun d hd =>
    hcalls d (hle.subset (List.mem_append_left _ hd))
  have hsound := (confines_foldl_after place hbefore (alike_self _ hs)).1.1.sound
  exact contained place (hcalls c (hle.subset (by simp))) hsound

/-- Paths may step up and down again beneath the root. -/
theorem contained_all_detour :
    let calls : List Driver.Call :=
      [.file (.put ⟨"b/..//./y"⟩ [121]), .file (.rename ⟨"/y"⟩ ⟨"b/../z"⟩)]
    let s := calls.foldl (driver ⟨["a"], 7⟩).after ⟨.withFile, 0, []⟩
    s.disk.content? ["a", "z"] = some [121] ∧ Disk.withFile.Spares ["a"] s.disk :=
  ⟨by decide +kernel,
    (@contained_all ⟨.withFile, 0, []⟩ ⟨["a"], 7⟩ _ (by decide) Disk.sound_withFile).1⟩

/-- A rename takes a file out of the root. -/
theorem not_forall_contained :
    ¬ ∀ (place : Place) (s : LocalStore) (c : Driver.Call), s.disk.Sound → Contained place s c := by
  intro h
  have hspares := (h ⟨["a"], 7⟩ ⟨.withFile, 0, []⟩ (.file (.rename ⟨"/x"⟩ ⟨"/../x"⟩))
    Disk.sound_withFile).spares
  have hmoved : ((driver ⟨["a"], 7⟩).after ⟨.withFile, 0, []⟩
      (.file (.rename ⟨"/x"⟩ ⟨"/../x"⟩))).disk.entryAt? ["x"] = some (.file 0) := by
    decide +kernel
  rcases hspares.entryAt? ["x"] (by decide) with hsame | ⟨-, -, hdirectory⟩
  · cases hmoved.symm.trans hsame
  · cases hmoved.symm.trans hdirectory

/-- Content that is put at the root itself is left in a scratch file beside the root. -/
example : ((driver ⟨["a"], 7⟩).after ⟨.withFile, 0, []⟩ (.file (.put ⟨"/"⟩ [121]))).disk.content?
    [".a.7.0"] = some [121] := rfl

end LocalStore
end ContainerRegistry
