/-
# System calls beneath a base

A system call whose route stays beneath a base cannot tell trees apart that look alike from
there, and spares what lies elsewhere. For each call this is read off its steps: the route is
given to the system, what it leads to is looked up, and the tree is changed where it leads.
Making directories may be about places on the way to the base; all other calls that change
the tree are about places beneath it.

Key theorems: `Disk.confines_looked`, `Disk.confines_createDirectories`,
`Disk.confines_writeFile`, `Disk.confines_rename`, `Disk.confines_removeTree`.
-/
import ContainerRegistry.Proofs.Confinement

namespace ContainerRegistry

open ContainerRegistry.Action

namespace Disk

variable {base : List String} {d d' d'' : Disk} {r r' : Route} {p q : List String} {x : String}
  {α β : Type}

/-! ### Rules for calls -/

/-- Giving a route to the system changes nothing. -/
theorem runs_submit (h : Alike base d d') {next next' : Call β}
    (hnext : (within base).Runs d d' next next') :
    (within base).Runs d d' (submit r >>= fun _ => next) (submit r >>= fun _ => next') :=
  .bind_quiet h (outcome_submit_snd r d) (outcome_submit_snd r d')
    (by rw [outcome_submit_eq, outcome_submit_eq]) fun _ _ => hnext

/-- Nor does an answer that is known. -/
theorem runs_answer (h : Alike base d d') {a : Except Errno α} {next next' : α → Call β}
    (hnext : ∀ v, a = .ok v → (within base).Runs d d' (next v) (next' v)) :
    (within base).Runs d d' (answer a >>= next) (answer a >>= next') :=
  .bind_quiet h (outcome_answer_snd a d) (outcome_answer_snd a d')
    (by rw [outcome_answer, outcome_answer]) fun v hv => hnext v (of_outcome_answer hv)

theorem runs_fail (h : Alike base d d') (e : Errno) :
    (within base).Runs d d' (fail e : Call α) (fail e) :=
  .throw h _

theorem confines_look (hr : r.Stays base) : (within base).Confines (look r) := by
  intro d d' h
  refine .quiet h (outcome_look_snd r d) (outcome_look_snd r d') ?_
  have hfind : d'.find r = d.find r := Alike.find h hr
  rw [outcome_look_eq, outcome_look_eq, hfind]

/-- What is looked at lies where the route leads. -/
theorem of_look (h : d.Sound) {e : Entry} (hlook : (look r).outcome d = (.ok (q, e), d'')) :
    q = r.resolved ∧ d''.entryAt? q = some e := by
  rw [outcome_look_eq] at hlook
  cases hfault : r.fault? with
  | some fault => simp [hfault] at hlook
  | none =>
    rw [hfault, Option.elim_none] at hlook
    cases hfind : d.find r with
    | error e => simp [hfind, Except.mapError] at hlook
    | ok found =>
      simp only [hfind, Except.mapError, Prod.mk.injEq, Except.ok.injEq] at hlook
      obtain ⟨rfl, rfl⟩ := hlook
      exact entry_of_find h hfind

/-- What goes on after an action that leaves the tree alone starts from its answer. -/
theorem ok_of_bind {c : Call α} {next : α → Call β} {b : β} (hquiet : (c.outcome d).2 = d)
    (h : (c >>= next).outcome d = (.ok b, d'')) :
    ∃ a, (c.outcome d).1 = .ok a ∧ (next a).outcome d = (.ok b, d'') := by
  rcases outcome_bind_cases hquiet with ⟨e, herr⟩ | ⟨a, ha, hgo⟩
  · cases herr.symm.trans h
  · exact ⟨a, ha, hgo.symm.trans h⟩

/-- After a look, a call is about the entry where the route leads. -/
theorem confines_looked (hr : r.Stays base) {next : List String × Entry → Call β}
    (hnext : ∀ e d d', Alike base d d' → d.entryAt? r.resolved = some e →
      (within base).Runs d d' (next (r.resolved, e)) (next (r.resolved, e))) :
    (within base).Confines (look r >>= next) := by
  intro d d' h
  refine .bind (confines_look hr d d' h) fun x t t' ht _ h' => ?_
  obtain ⟨q, e⟩ := x
  obtain ⟨rfl, hentry⟩ := of_look h.sound ht
  exact hnext e t t' h' hentry

/-! ### Making directories -/

theorem confines_makeDirectory (hr : r.Stays base) : (within base).Confines (makeDirectory r) := by
  intro d d' h
  rw [makeDirectory]
  refine runs_submit h (.bind_get ?_)
  rw [Alike.target h hr]
  refine runs_answer h fun t htarget => ?_
  obtain ⟨hplace, hdirectory⟩ := of_target h.sound htarget
  cases t with
  | reached place => exact runs_fail h _
  | named p x =>
    have hnear : IsNear base (p ++ [x]) := by
      have hresolved := hr.resolved
      rwa [← hplace] at hresolved
    simp only [h.entryAt? _ hnear]
    cases hentry : d.entryAt? (p ++ [x]) with
    | some e => exact runs_fail h _
    | none => exact .set (h.addDirectory hdirectory hnear) (spares_addDirectory hnear hentry)

theorem confines_ensureDirectory (hr : r.Stays base) :
    (within base).Confines (ensureDirectory r) := by
  intro d d' h
  rw [ensureDirectory]
  refine .bind (confines_makeDirectory hr d d' h).attempt fun x t t' _ _ h => ?_
  cases x with
  | ok _ => exact .pure h _
  | error e =>
    refine .bind_get ?_
    rw [Alike.isDirectory h hr]
    exact .ite (.pure h _) (.throw h _)

/-- **Making directories** on a way that stays makes them on the way or beneath. -/
theorem confines_createReversed : ∀ {parts : List Part}, (Route.mk parts.reverse).Stays base →
    (within base).Confines (createReversed parts)
  | [], _ => fun _ _ h => .pure h _
  | .blank :: above, hr | .dot :: above, hr => by
    have hsteps : (Route.mk above.reverse).Stays base := by
      intro front hfront
      refine hr front (hfront.trans ?_)
      simp [Route.steps, Part.step?]
    have hrest := confines_createReversed hsteps
    exact hrest
  | .step s :: above, hr => by
    have habove : (Route.mk above.reverse).Stays base := by
      intro front hfront
      refine hr front (hfront.trans ?_)
      simp [Route.steps]
    intro d d' h
    rw [createReversed]
    refine .bind (confines_makeDirectory hr d d' h).attempt fun x t t' _ _ h => ?_
    split
    · exact .pure h _
    · exact .bind (confines_createReversed habove t t' h) fun _ u u' _ _ h =>
        confines_ensureDirectory hr u u' h
    · refine .bind_get ?_
      rw [Alike.isDirectory h hr]
      exact .ite (.pure h _) (.throw h _)

theorem confines_createDirectories (hr : r.Stays base) :
    (within base).Confines (createDirectories r) := by
  refine confines_createReversed ?_
  rwa [List.reverse_reverse]

/-! ### Writing files -/

theorem confines_openFile (hr : r.Stays base) (hbase : base <+: r.resolved) (create : Bool) :
    (within base).Confines (openFile r create) := by
  intro d d' h
  rw [openFile]
  refine runs_submit h (.bind_get ?_)
  rw [Alike.leading h hr, Alike.target h hr]
  refine .ite (runs_answer h fun _ _ => runs_fail h _) (runs_answer h fun t htarget => ?_)
  obtain ⟨hplace, hdirectory⟩ := of_target h.sound htarget
  rw [← hplace] at hbase
  cases t with
  | reached place => exact runs_fail h _
  | named p x =>
    have hbase : base <+: p ++ [x] := hbase
    simp only [h.entryAt? _ (Or.inl hbase), h.nextId]
    rcases hentry : d.entryAt? (p ++ [x]) with _ | _ | id
    · dsimp only
      refine .ite (runs_fail h _) ?_
      refine .bind (.set (h.addFile hdirectory hentry hbase []) (spares_addFile h.sound hbase []))
        fun _ t t' _ _ h => .pure h _
    · exact runs_fail h _
    · dsimp only
      exact .ite (runs_fail h _) (.pure h _)

/-- A file that is opened lies where the route leads. -/
theorem of_openFile (h : d.Sound) {create : Bool} {id : Nat}
    (hopen : (openFile r create).outcome d = (.ok id, d'')) :
    d''.entryAt? r.resolved = some (.file id) := by
  rw [openFile] at hopen
  obtain ⟨-, -, hopen⟩ := ok_of_bind (outcome_submit_snd r d) hopen
  rw [outcome_bind, outcome_get] at hopen
  simp only at hopen
  split at hopen
  · obtain ⟨_, -, hfailed⟩ := ok_of_bind (outcome_answer_snd _ d) hopen
    cases hfailed
  obtain ⟨t, htarget, hopen⟩ := ok_of_bind (outcome_answer_snd _ d) hopen
  obtain ⟨hplace, -⟩ := of_target h (of_outcome_answer htarget)
  rw [← hplace]
  cases t with
  | reached place => cases hopen
  | named p y =>
    rcases hentry : d.entryAt? (p ++ [y]) with _ | _ | old
    · -- the file is made
      simp only [hentry] at hopen
      split at hopen
      · cases hopen
      · obtain ⟨rfl, rfl⟩ : d.nextId = id ∧ d.addFile (p ++ [y]) [] = d'' := by
          simpa only [outcome_bind, outcome_set, outcome_pure, Prod.mk.injEq,
            Except.ok.injEq] using hopen
        exact (entryAt?_addFile (by simp) [] _).trans (if_pos rfl)
    · simp only [hentry] at hopen
      cases hopen
    · -- the file is there
      simp only [hentry] at hopen
      split at hopen
      · cases hopen
      · obtain ⟨rfl, rfl⟩ : old = id ∧ d = d'' := by
          simpa only [outcome_pure, Prod.mk.injEq, Except.ok.injEq] using hopen
        exact hentry

theorem confines_writeFile (hr : r.Stays base) (hbase : base <+: r.resolved) (bytes : Bytes) :
    (within base).Confines (writeFile r bytes) := by
  intro d d' h
  refine .bind (confines_openFile hr hbase true d d' h) fun id t t' ht _ h' => ?_
  have hentry := of_openFile h.sound ht
  exact .modify (Alike.setBytes h' id bytes) (spares_setBytes (Alike.sound h') hentry hbase bytes)

/-! ### Renaming and removing -/

/-- The place of the last name of a route is where the route leads. -/
theorem place_of_leading (h : d.Sound) (hlast : r.last? = some x)
    (hwalk : d.walk [] r.leading = .ok p) :
    p ++ [x] = r.resolved ∧ d.entryAt? p = some .directory := by
  obtain ⟨hp, hdirectory⟩ := of_walk_top h hwalk
  exact ⟨by rw [Route.resolved_of_last? hlast, hp], hdirectory⟩

/-- **Renaming** beneath the base changes nothing else. -/
theorem confines_rename (hr : r.Stays base) (hbase : base <+: r.resolved) (hr' : r'.Stays base)
    (hbase' : base <+: r'.resolved) : (within base).Confines (rename r r') := by
  intro d d' h
  rw [rename]
  refine runs_submit h (runs_submit h (.bind_get ?_))
  rw [Alike.leading h hr, Alike.leading h hr']
  refine runs_answer h fun p hwalk => runs_answer h fun p' hwalk' => ?_
  rcases hlast : r.last? with _ | x
  · exact runs_fail h _
  rcases hlast' : r'.last? with _ | x'
  · exact runs_fail h _
  obtain ⟨hplace, -⟩ := place_of_leading h.sound hlast hwalk
  obtain ⟨hplace', hp'⟩ := place_of_leading h.sound hlast' hwalk'
  rw [← hplace] at hbase
  rw [← hplace'] at hbase'
  dsimp only
  refine .ite (runs_fail h _) ?_
  simp only [h.entryAt? _ (Or.inl hbase), h.entryAt? _ (Or.inl hbase')]
  rcases d.entryAt? (p ++ [x]) with _ | entry
  · exact runs_fail h _
  dsimp only
  refine .ite (runs_fail h _) (.ite (runs_fail h _) ?_)
  by_cases hinside : isWithin (p ++ [x]) p' = true
  · simp only [if_pos hinside]
    exact runs_fail h _
  simp only [if_neg hinside]
  refine .ite (runs_fail h _) ?_
  have hmove : (within base).Runs d d' (ε := IoError) (set (d.relabel (p ++ [x]) (p' ++ [x'])))
      (set (d'.relabel (p ++ [x]) (p' ++ [x']))) :=
    .set (h.relabel (by simp) hbase hp' (mt List.isPrefixOf_iff_prefix.2 hinside) hbase')
      (spares_relabel (by simp) hbase hbase')
  rcases d.entryAt? (p' ++ [x']) with _ | _ | id
  · exact hmove
  · dsimp only
    rw [Alike.names h hbase']
    exact .ite (runs_fail h _) (.ite (.pure h _) (.ite hmove (runs_fail h _)))
  · exact .ite (runs_fail h _) (.ite (.pure h _) hmove)

theorem confines_removeDirectory (hr : r.Stays base) (hbase : base <+: r.resolved) :
    (within base).Confines (removeDirectory r) := by
  intro d d' h
  rw [removeDirectory]
  refine runs_submit h (.bind_get ?_)
  rw [Alike.leading h hr]
  refine runs_answer h fun p hwalk => ?_
  rcases hlast : r.last? with _ | x
  · exact runs_fail h _
  obtain ⟨hplace, -⟩ := place_of_leading h.sound hlast hwalk
  rw [← hplace] at hbase
  simp only [h.entryAt? _ (Or.inl hbase), Alike.names h hbase]
  rcases d.entryAt? (p ++ [x]) with _ | _ | id
  · exact runs_fail h _
  · dsimp only
    exact .ite (.set (h.prune (by simp)) (spares_prune (by simp) hbase)) (runs_fail h _)
  · exact runs_fail h _

/-- **Removing a tree** beneath the base removes nothing else. -/
theorem confines_removeTree (hr : r.Stays base) (hbase : base <+: r.resolved) :
    (within base).Confines (removeTree r) := by
  refine confines_looked hr fun e d d' h hentry => ?_
  cases e with
  | file id => exact runs_fail h _
  | directory =>
    refine .bind (.modify (h.clear hentry hbase) (spares_clear hbase)) fun _ t t' _ _ h => ?_
    refine .bind (confines_removeDirectory hr hbase t t' h).attempt fun x u u' _ _ h => ?_
    cases x with
    | ok _ => exact .pure h _
    | error e => exact .ite (.pure h _) (.throw h _)

theorem confines_removeFile (hr : r.Stays base) (hbase : base <+: r.resolved) :
    (within base).Confines (removeFile r) := by
  refine confines_looked hr fun e d d' h hentry => ?_
  cases e with
  | directory => exact runs_fail h _
  | file id =>
    have hplace : r.resolved ≠ [] := fun he => by
      rw [he, entryAt?_nil] at hentry
      cases hentry
    exact .modify (h.prune hplace) (spares_prune hplace hbase)

theorem confines_children (hr : r.Stays base) (hbase : base <+: r.resolved) :
    (within base).Confines (children r) := by
  refine confines_looked hr fun e d d' h _ => ?_
  cases e with
  | file id => exact runs_fail h _
  | directory =>
    refine .bind_get ?_
    rw [h.names hbase]
    exact .pure h _

end Disk
end ContainerRegistry
