/-
# Drivers that may fail over a store in memory

An unreliable driver keeps its files in a store in memory. A call on it does what
the store does, or it fails and leaves the store as it is; a write may besides
land any part of its source, whether it fails or not, and a stream may break.
Which of this a driver does is left open, so that what is proved of every
unreliable driver holds however and whenever storage fails. A driver that never
fails but in its writes says so by `fails`.

The driver in memory is one, and so is the driver that fails on request over it,
with faults for any of its methods.

Key definitions: `Mirrors`, `Lands`, `Unreliable`, `MemoryStore.reliable`,
`Faulty.unreliable`.
Key theorems: `Mirrors.ensures`, `Unreliable.pull_cases`, `Unreliable.stat_path`,
`Unreliable.getContent_path`, `Unreliable.readStream_path`, `Unreliable.rename_path`,
`Unreliable.writeStream_path`.
-/
import ContainerRegistry.Proofs.Ensures
import ContainerRegistry.Proofs.Memory
import ContainerRegistry.Storage.Faulty

namespace ContainerRegistry

open ContainerRegistry.Action

/-- A call does what a call on the store does, or it fails and does nothing. -/
def Mirrors {σ α β : Type} (view : View σ MemoryStore) (fails : Prop) (read : α → β)
    (call : Action σ StorageError α) (model : Action MemoryStore StorageError β) : Prop :=
  ∀ t, call.Ensures view t fun x t' =>
    (x.map read = (model.outcome t).1 ∧ t' = (model.outcome t).2) ∨
      (fails ∧ (∃ e, x = .error e) ∧ t' = t)

/-- What mirrors a call is answered as the call is, or fails. -/
theorem Mirrors.ensures {σ α : Type} {view : View σ MemoryStore} {fails : Prop}
    {call : Action σ StorageError α} {model : Action MemoryStore StorageError α}
    (h : Mirrors view fails id call model) {t : MemoryStore}
    {post : Except StorageError α → MemoryStore → Prop}
    (answered : post (model.outcome t).1 (model.outcome t).2)
    (fault : fails → ∀ e, post (.error e) t) : call.Ensures view t post := by
  refine (h t).mono ?_
  rintro x t' (⟨hx, rfl⟩ | ⟨hfails, ⟨e, rfl⟩, rfl⟩)
  · rw [Except.map_id, id] at hx
    exact hx ▸ answered
  · exact fault hfails e

/-- A write fails and does nothing, or a part of its source lands at the offset; a
write that does not fail reports how much. -/
def Lands {σ : Type} (view : View σ MemoryStore) (p : Path) (offset : Nat) (source : Source)
    (call : Action σ StorageError Transfer) : Prop :=
  ∀ t, call.Ensures view t fun x t' =>
    ((∃ e, x = .error e) ∧ t' = t) ∨
      ∃ n, n ≤ source.bytes.length ∧ offset ≤ ((t.file? p).getD []).length ∧
        t' = t.put p (splice ((t.file? p).getD []) offset (source.bytes.take n)) ∧
        ∀ transfer, x = .ok transfer → transfer.written = n

/-- A driver over a store in memory that may fail. -/
structure Unreliable where
  State : Type
  Stream : Type
  driver : Driver State Stream
  /-- The store in a state, and the states that occur. -/
  view : View State MemoryStore
  /-- What a stream has to give, if it does not break. -/
  rest : Stream → Bytes
  /-- The streams that occur. -/
  sound : Stream → Prop
  /-- Whether calls other than writes may fail on their own. -/
  fails : Prop
  getContent : ∀ p, Mirrors view fails id (driver.getContent p) (MemoryStore.getContent p)
  putContent : ∀ p bytes,
    Mirrors view fails id (driver.putContent p bytes) (MemoryStore.putContent p bytes)
  readStream : ∀ p offset,
    Mirrors view fails rest (driver.readStream p offset) (MemoryStore.readStream p offset)
  sound_readStream : ∀ p offset t,
    (driver.readStream p offset).Ensures view t fun x _ => ∀ stream, x = .ok stream → sound stream
  pull : ∀ stream limit s, sound stream → view.admits s →
    (driver.pull stream limit s).bytes <+: upTo limit (rest stream) ∧
      ((driver.pull stream limit s).failure = none →
        (driver.pull stream limit s).bytes = upTo limit (rest stream)) ∧
      (¬ fails → (driver.pull stream limit s).failure = none)
  writeStream : ∀ p offset source,
    Lands view p offset source (driver.writeStream p offset source)
  stat : ∀ p, Mirrors view fails id (driver.stat p) (MemoryStore.stat p)
  list : ∀ p, Mirrors view fails id (driver.list p) (MemoryStore.list p)
  rename : ∀ p q, Mirrors view fails id (driver.rename p q) (MemoryStore.rename p q)
  delete : ∀ p, Mirrors view fails id (driver.delete p) (MemoryStore.delete p)

/-! ### The driver in memory -/

namespace MemoryStore

/-- The whole store is seen. -/
def whole : View MemoryStore MemoryStore :=
  ⟨fun _ => True, id⟩

theorem mirrors_self {α : Type} (call : Action MemoryStore StorageError α) :
    Mirrors whole False id call call := by
  intro t s _ hst
  obtain rfl : s = t := hst
  refine ⟨trivial, Or.inl ⟨?_, rfl⟩⟩
  cases (call.outcome s).1 <;> rfl

theorem lands_writeStream (p : Path) (offset : Nat) (source : Source) :
    Lands whole p offset source (writeStream p offset source) := by
  intro t s _ hst
  obtain rfl : s = t := hst
  refine ⟨trivial, ?_⟩
  rw [outcome_writeStream]
  cases source.failure with
  | some e => exact Or.inl ⟨⟨_, rfl⟩, rfl⟩
  | none =>
    by_cases hoffset : ((s.file? p).getD []).length < offset
    · simp only [if_pos hoffset]
      exact Or.inl ⟨⟨_, rfl⟩, rfl⟩
    · simp only [if_neg hoffset]
      refine Or.inr ⟨source.bytes.length, Nat.le_refl _, Nat.not_lt.1 hoffset, ?_, ?_⟩
      · rw [List.take_length]
        rfl
      · intro transfer h
        cases h
        rfl

/-- A source that does not fail lands whole at the end of a file. -/
theorem ensures_writeStream {t : MemoryStore} {p : Path} {bytes : Bytes}
    (hfile : t.file? p = some bytes) (content : Bytes)
    {post : Except StorageError Transfer → MemoryStore → Prop}
    (landed : post (.ok ⟨content.length, content.length⟩) (t.put p (bytes ++ content))) :
    (writeStream p bytes.length (.ofBytes content)).Ensures whole t post := by
  intro s _ hst
  obtain rfl : s = t := hst
  refine ⟨trivial, ?_⟩
  rw [outcome_writeStream]
  simpa [Source.ofBytes, hfile, splice_length, whole] using landed

/-- The driver in memory, which fails only as it must. -/
def reliable : Unreliable where
  State := MemoryStore
  Stream := Bytes
  driver := driver
  view := whole
  rest := id
  sound _ := True
  fails := False
  getContent p := mirrors_self (getContent p)
  putContent p bytes := mirrors_self (putContent p bytes)
  readStream p offset := mirrors_self (readStream p offset)
  sound_readStream _ _ _ _ _ _ := ⟨trivial, fun _ _ => trivial⟩
  pull _ _ _ _ _ := ⟨List.prefix_rfl, fun _ => rfl, fun _ => rfl⟩
  writeStream := lands_writeStream
  stat p := mirrors_self (stat p)
  list p := mirrors_self (list p)
  rename p q := mirrors_self (rename p q)
  delete p := mirrors_self (delete p)

theorem not_reliable_fails : ¬ reliable.fails :=
  id

end MemoryStore

/-! ### The driver that fails on request -/

namespace Faulty

/-- A fault that strikes is one for the method, and the faults that wait on are
for methods that there were faults for. -/
theorem strike_spec {allowed : Method → Prop} {method : Method} {p : Path} :
    ∀ {faults : List Fault}, (∀ f ∈ faults, allowed f.method) →
      (∀ f, (strike method p faults).1 = some f → allowed method) ∧
        ∀ f ∈ (strike method p faults).2, allowed f.method
  | [], _ => by simp [strike]
  | f :: fs, h => by
    have hf : allowed f.method := h f List.mem_cons_self
    have hfs : ∀ g ∈ fs, allowed g.method := fun g hg => h g (List.mem_cons_of_mem _ hg)
    obtain ⟨hstruck, hrest⟩ := strike_spec hfs
    rw [strike]
    split
    · rename_i hmeets
      have hmethod : f.method = method := by
        simp only [meets, Bool.and_eq_true, beq_iff_eq] at hmeets
        exact hmeets.1
      split
      · refine ⟨by simp, fun g hg => ?_⟩
        rcases List.mem_cons.1 hg with rfl | hg
        · exact hf
        · exact hfs g hg
      · exact ⟨fun _ _ => hmethod ▸ hf, hfs⟩
    · refine ⟨hstruck, fun g hg => ?_⟩
      rcases List.mem_cons.1 hg with rfl | hg
      · exact hf
      · exact hrest g hg

/-- The store beneath, with faults for certain methods waiting. -/
def beneath (allowed : Method → Prop) : View (Faulty MemoryStore) MemoryStore :=
  ⟨fun s => ∀ f ∈ s.faults, allowed f.method, Faulty.inner⟩

/-- Whether a method other than writing may fail. -/
def failsBesidesWrites (allowed : Method → Prop) : Prop :=
  ∃ method, method ≠ .writeStream ∧ allowed method

/-- With faults for writes alone nothing else fails. -/
theorem not_failsBesidesWrites : ¬ failsBesidesWrites (· = .writeStream) :=
  fun ⟨_, hne, heq⟩ => hne heq

variable {allowed : Method → Prop}

theorem outcome_struck {σ : Type} (method : Method) (p : Path) (s : Faulty σ) :
    (struck method p).outcome s =
      (.ok (strike method p s.faults).1, { s with faults := (strike method p s.faults).2 }) :=
  rfl

theorem ensures_struck {method : Method} {p : Path} {t : MemoryStore}
    {post : Except StorageError (Option Fault) → MemoryStore → Prop}
    (hnone : post (.ok none) t) (hsome : allowed method → ∀ f, post (.ok (some f)) t) :
    (struck method p).Ensures (beneath allowed) t post := by
  intro s hs hst
  obtain ⟨hallowed, hrest⟩ := strike_spec hs
  rw [outcome_struck]
  refine ⟨hrest, ?_⟩
  obtain rfl : s.inner = t := hst
  cases h : (strike method p s.faults).1 with
  | none => exact hnone
  | some f => exact hsome (hallowed f h) f

theorem ensures_pass {α : Type} {call : Action MemoryStore StorageError α} {t : MemoryStore}
    {post : Except StorageError α → MemoryStore → Prop}
    (h : post (call.outcome t).1 (call.outcome t).2) :
    (pass call).Ensures (beneath allowed) t post := by
  intro s hs hst
  obtain rfl : s.inner = t := hst
  exact ⟨hs, h⟩

theorem mirrors_guarded {α : Type} {method : Method} (hmethod : method ≠ .writeStream) (p : Path)
    (call : Action MemoryStore StorageError α) :
    Mirrors (beneath allowed) (failsBesidesWrites allowed) id (guarded method p call) call := by
  intro t
  refine Ensures.bind (ensures_struck ?_ ?_)
  · have hsame : ((call.outcome t).1).map id = (call.outcome t).1 := by
      cases (call.outcome t).1 <;> rfl
    exact ensures_pass (Or.inl ⟨hsame, rfl⟩)
  · intro hallowed f
    exact Ensures.throw (Or.inr ⟨⟨method, hmethod, hallowed⟩, ⟨_, rfl⟩, rfl⟩)

/-- A stream may break only where reading may fail. -/
def Sound (allowed : Method → Prop) (stream : Stream Bytes) : Prop :=
  stream.breaks.isSome = true → failsBesidesWrites allowed

/-- Opening a stream beneath, to break or not. -/
theorem ensures_opened (p : Path) (offset : Nat) (breaks : Option (Nat × String))
    (hbreaks : breaks.isSome = true → failsBesidesWrites allowed) (t : MemoryStore) :
    Ensures (beneath allowed)
      (do return (⟨← pass (MemoryStore.readStream p offset), breaks⟩ : Stream Bytes)) t fun x t' =>
        (x.map Stream.inner = ((MemoryStore.readStream p offset).outcome t).1 ∧
          t' = ((MemoryStore.readStream p offset).outcome t).2) ∧
        ∀ stream, x = .ok stream → Sound allowed stream := by
  refine Ensures.bind (ensures_pass ?_)
  cases h : ((MemoryStore.readStream p offset).outcome t).1 with
  | error e =>
    refine ⟨⟨rfl, rfl⟩, ?_⟩
    intro stream hstream
    cases hstream
  | ok bytes =>
    refine Ensures.pure ⟨⟨rfl, rfl⟩, ?_⟩
    intro stream hstream
    cases hstream
    exact hbreaks

theorem ensures_readStream (p : Path) (offset : Nat) (t : MemoryStore) :
    (readStream MemoryStore.driver p offset).Ensures (beneath allowed) t fun x t' =>
      ((x.map Stream.inner = ((MemoryStore.readStream p offset).outcome t).1 ∧
          t' = ((MemoryStore.readStream p offset).outcome t).2) ∨
        (failsBesidesWrites allowed ∧ (∃ e, x = .error e) ∧ t' = t)) ∧
        ∀ stream, x = .ok stream → Sound allowed stream := by
  refine Ensures.bind (ensures_struck ?_ ?_)
  · exact (ensures_opened p offset none (by simp) t).mono fun _ _ h => ⟨Or.inl h.1, h.2⟩
  · intro hallowed f
    have hfails : failsBesidesWrites allowed := ⟨.readStream, by simp, hallowed⟩
    simp only [Then]
    split
    · exact (ensures_opened p offset _ (fun _ => hfails) t).mono fun _ _ h => ⟨Or.inl h.1, h.2⟩
    · refine Ensures.throw ⟨Or.inr ⟨hfails, ⟨_, rfl⟩, rfl⟩, ?_⟩
      intro stream hstream
      cases hstream

/-- A pull gives the first bytes of what is wanted, and all of it unless it fails. -/
theorem pull_spec (stream : Stream Bytes) (limit : Option Nat) (s : Faulty MemoryStore)
    (hsound : Sound allowed stream) :
    (pull MemoryStore.driver stream limit s).bytes <+: upTo limit stream.inner ∧
      ((pull MemoryStore.driver stream limit s).failure = none →
        (pull MemoryStore.driver stream limit s).bytes = upTo limit stream.inner) ∧
      (¬ failsBesidesWrites allowed →
        (pull MemoryStore.driver stream limit s).failure = none) := by
  obtain ⟨inner, _ | ⟨left, message⟩⟩ := stream
  · exact ⟨List.prefix_rfl, fun _ => rfl, fun _ => rfl⟩
  · obtain ⟨taken, htaken⟩ : ∃ taken, taken = inner.take ((limit.map (min left)).getD left) :=
      ⟨_, rfl⟩
    have hpre : taken <+: upTo limit inner := by
      rw [htaken]
      cases limit with
      | none => exact List.take_prefix _ _
      | some n => exact List.take_prefix_take_left (Nat.min_le_right _ _)
    simp only [pull, MemoryStore.driver, upTo, ← htaken]
    by_cases hlimit : limit = some taken.length
    · rw [if_pos hlimit]
      refine ⟨hpre, fun _ => hpre.eq_of_length_le ?_, fun _ => rfl⟩
      rw [hlimit, upTo, List.length_take]
      exact Nat.min_le_left _ _
    · rw [if_neg hlimit]
      exact ⟨hpre, fun h => absurd h (by simp), fun hfails => absurd (hsound rfl) hfails⟩

/-- The part of a source that a fault lets land. -/
theorem ensures_writePart (p : Path) (offset : Nat) (source : Source) (f : Fault)
    (t : MemoryStore) :
    (writePart MemoryStore.driver p offset source f).Ensures (beneath allowed) t fun x t' =>
      ((∃ e, x = .error e) ∧ t' = t) ∨
        ∃ n, n ≤ source.bytes.length ∧ offset ≤ ((t.file? p).getD []).length ∧
          t' = t.put p (splice ((t.file? p).getD []) offset (source.bytes.take n)) ∧
          ∀ transfer, x = .ok transfer → transfer.written = n := by
  rw [writePart]
  cases source.failure with
  | some e => exact Ensures.throw (Or.inl ⟨⟨_, rfl⟩, rfl⟩)
  | none =>
    refine Ensures.bind (ensures_pass ?_)
    simp only [MemoryStore.driver, MemoryStore.outcome_writeStream, Source.ofBytes]
    split
    · exact Or.inl ⟨⟨_, rfl⟩, rfl⟩
    · rename_i hoffset
      refine Ensures.pure (Or.inr ⟨min f.keep source.bytes.length, Nat.min_le_right _ _,
        Nat.not_lt.1 hoffset, ?_, ?_⟩)
      · rw [List.take_eq_take_min]
      · intro transfer h
        cases h
        exact List.length_take

theorem lands_writeStream (p : Path) (offset : Nat) (source : Source) :
    Lands (beneath allowed) p offset source (writeStream MemoryStore.driver p offset source) := by
  intro t
  refine Ensures.bind (ensures_struck ?_ ?_)
  · exact ensures_pass (MemoryStore.lands_writeStream p offset source t t trivial rfl).2
  · intro _ f
    simp only [Then]
    split
    · exact Ensures.throw (Or.inl ⟨⟨_, rfl⟩, rfl⟩)
    · exact ensures_writePart p offset source f t
    · refine Ensures.bind ((ensures_writePart p offset source f t).mono fun x t' h => ?_)
      cases x with
      | error e => exact h
      | ok transfer =>
        obtain ⟨⟨e, he⟩, -⟩ | ⟨n, hn, hoffset, ht', -⟩ := h
        · cases he
        · exact Ensures.throw (Or.inr ⟨n, hn, hoffset, ht', by simp⟩)

/-- The driver that fails on request over one in memory, with faults for certain
methods. -/
def unreliable (allowed : Method → Prop) : Unreliable where
  State := Faulty MemoryStore
  Stream := Stream Bytes
  driver := driver MemoryStore.driver
  view := beneath allowed
  rest := Stream.inner
  sound := Sound allowed
  fails := failsBesidesWrites allowed
  getContent p := mirrors_guarded (by simp) p _
  putContent p _ := mirrors_guarded (by simp) p _
  readStream p offset t := (ensures_readStream p offset t).mono fun _ _ h => h.1
  sound_readStream p offset t := (ensures_readStream p offset t).mono fun _ _ h => h.2
  pull stream limit s hsound _ := pull_spec stream limit s hsound
  writeStream := lands_writeStream
  stat p := mirrors_guarded (by simp) p _
  list p := mirrors_guarded (by simp) p _
  rename p _ := mirrors_guarded (by simp) p _
  delete p := mirrors_guarded (by simp) p _

end Faulty

/-! ### Calls on the files of resources -/

namespace Unreliable

variable {d : Unreliable} {l : Layout} {t : MemoryStore}

/-- A pull gives all that is wanted, or a prefix of it when the stream breaks. -/
theorem pull_cases (d : Unreliable) {stream : d.Stream} (limit : Option Nat) {s : d.State}
    (hsound : d.sound stream) (hs : d.view.admits s) :
    ((d.driver.pull stream limit s).failure = none ∧
      (d.driver.pull stream limit s).bytes = upTo limit (d.rest stream)) ∨
    ((∃ e, (d.driver.pull stream limit s).failure = some e) ∧ d.fails ∧
      (d.driver.pull stream limit s).bytes <+: upTo limit (d.rest stream)) := by
  obtain ⟨hpre, hwhole, hreliable⟩ := d.pull stream limit s hsound hs
  cases hfailure : (d.driver.pull stream limit s).failure with
  | none => exact Or.inl ⟨rfl, hwhole hfailure⟩
  | some e =>
    have hfails : d.fails := by
      refine Classical.byContradiction fun hnot => ?_
      cases (hreliable hnot).symm.trans hfailure
    exact Or.inr ⟨⟨e, rfl⟩, hfails, hpre⟩

theorem getContent_path {p : Path} {post : Except StorageError Bytes → MemoryStore → Prop}
    (found : ∀ bytes, t.file? p = some bytes → post (.ok bytes) t)
    (missing : t.file? p = none → ∀ e, e.isNotFound = true → post (.error e) t)
    (fault : d.fails → ∀ e, post (.error e) t) :
    (d.driver.getContent p).Ensures d.view t post := by
  refine (d.getContent p).ensures ?_ fault
  rw [MemoryStore.outcome_getContent]
  cases hfile : t.file? p with
  | some bytes => exact found bytes hfile
  | none => exact missing hfile _ rfl

theorem putContent_path {p : Path} {bytes : Bytes}
    {post : Except StorageError Unit → MemoryStore → Prop}
    (stored : post (.ok ()) (t.put p bytes)) (fault : d.fails → ∀ e, post (.error e) t) :
    (d.driver.putContent p bytes).Ensures d.view t post := by
  refine (d.putContent p bytes).ensures ?_ fault
  rw [MemoryStore.outcome_putContent]
  exact stored

/-- The file of a resource is never found to be a directory. -/
theorem stat_path (ht : t.LaidOut l) {r : Resource} (hr : r.isFile = true)
    {post : Except StorageError Metadata → MemoryStore → Prop}
    (found : ∀ bytes, t.file? (l.path r) = some bytes → post (.ok ⟨bytes.length, false⟩) t)
    (missing : t.file? (l.path r) = none → ∀ e, e.isNotFound = true → post (.error e) t)
    (fault : d.fails → ∀ e, post (.error e) t) :
    (d.driver.stat (l.path r)).Ensures d.view t post := by
  refine (d.stat _).ensures ?_ fault
  rw [MemoryStore.outcome_stat]
  cases hfile : t.file? (l.path r) with
  | some bytes => exact found bytes hfile
  | none =>
    have hfree : ¬ t.occupied (l.path r) = true := by
      rw [ht.occupied_file_iff hr, hfile]
      simp
    simp only [if_neg hfree]
    exact missing hfile _ rfl

theorem readStream_path {p : Path} {offset : Nat}
    {post : Except StorageError d.Stream → MemoryStore → Prop}
    (opened : ∀ bytes stream, t.file? p = some bytes → offset ≤ bytes.length →
      d.sound stream → d.rest stream = bytes.drop offset → post (.ok stream) t)
    (beyond : ∀ bytes, t.file? p = some bytes → bytes.length < offset → ∀ e, post (.error e) t)
    (missing : t.file? p = none → ∀ e, e.isNotFound = true → post (.error e) t)
    (fault : d.fails → ∀ e, post (.error e) t) :
    (d.driver.readStream p offset).Ensures d.view t post := by
  refine ((d.readStream p offset t).and (d.sound_readStream p offset t)).mono ?_
  rintro x t' ⟨⟨hx, rfl⟩ | ⟨hfails, ⟨e, rfl⟩, rfl⟩, hsound⟩
  · rw [MemoryStore.outcome_readStream] at hx ⊢
    cases hfile : t.file? p with
    | some bytes =>
      simp only [hfile] at hx ⊢
      by_cases hlong : bytes.length < offset
      · simp only [if_pos hlong] at hx ⊢
        cases x with
        | ok stream => cases hx
        | error e => exact beyond bytes hfile hlong e
      · simp only [if_neg hlong] at hx ⊢
        cases x with
        | ok stream =>
          exact opened bytes stream hfile (Nat.not_lt.1 hlong) (hsound stream rfl)
            (by simpa [Except.map] using hx)
        | error e => cases hx
    | none =>
      simp only [hfile] at hx ⊢
      cases x with
      | ok stream => cases hx
      | error e =>
        simp only [Except.map, Except.error.injEq] at hx
        exact hx ▸ missing hfile _ rfl
  · exact fault hfails e

/-- Moving one file onto the place of another. -/
theorem rename_path (ht : t.LaidOut l) {a b : Resource} (ha : a.isFile = true)
    {post : Except StorageError Unit → MemoryStore → Prop}
    (moved : ∀ bytes, t.file? (l.path a) = some bytes →
      post (.ok ()) (t.move (l.path a) (l.path b)))
    (missing : t.file? (l.path a) = none → ∀ e, post (.error e) t)
    (fault : d.fails → ∀ e, post (.error e) t) :
    (d.driver.rename (l.path a) (l.path b)).Ensures d.view t post := by
  refine (d.rename _ _).ensures ?_ fault
  rw [MemoryStore.outcome_rename]
  cases hfile : t.file? (l.path a) with
  | some bytes =>
    have hoccupied : t.occupied (l.path a) = true := (ht.occupied_file_iff ha).2 ⟨bytes, hfile⟩
    rw [if_pos hoccupied]
    exact moved bytes hfile
  | none =>
    have hfree : ¬ t.occupied (l.path a) = true := by
      rw [ht.occupied_file_iff ha, hfile]
      simp
    rw [if_neg hfree]
    exact missing hfile _

theorem delete_path {p : Path} {post : Except StorageError Unit → MemoryStore → Prop}
    (removed : post (.ok ()) (t.remove p)) (kept : ∀ e, post (.error e) t) :
    (d.driver.delete p).Ensures d.view t post := by
  refine (d.delete p).ensures ?_ fun _ => kept
  rw [MemoryStore.outcome_delete]
  split
  · exact removed
  · exact kept _

/-- A write at the end of a file appends a part of its source. -/
theorem writeStream_path {p : Path} {bytes : Bytes} (hfile : t.file? p = some bytes)
    {source : Source} {post : Except StorageError Transfer → MemoryStore → Prop}
    (landed : ∀ n x, n ≤ source.bytes.length →
      (∀ transfer, x = .ok transfer → transfer.written = n) →
      post x (t.put p (bytes ++ source.bytes.take n)))
    (refused : ∀ e, post (.error e) t) :
    (d.driver.writeStream p bytes.length source).Ensures d.view t post := by
  refine (d.writeStream p _ source t).mono ?_
  rintro x t' (⟨⟨e, rfl⟩, rfl⟩ | ⟨n, hn, -, rfl, hwritten⟩)
  · exact refused e
  · rw [hfile, Option.getD_some, splice_length]
    exact landed n x hn hwritten

end Unreliable
end ContainerRegistry
