/-
# Hashing piece by piece

Content arrives in pieces that know nothing of the blocks of a hash. A hash under way keeps the
chaining value after the whole blocks, the bytes since then and the number of all bytes. What it
holds back is what that number leaves over of whole blocks (`IsSound`), whatever was fed; so an
update compresses the whole blocks of what was held back and what arrives, and holds back the
rest (`absorb`). The state after any pieces is then that after their concatenation in one piece,
and finishing it is hashing the concatenation.

A running digest that was copied has no tie to its copy. Any number of them may be started,
continued, copied and spent in any order, and no answer tells this from keeping all the bytes of
each and hashing them at its end.

Key definitions: `Sha2.Variant.IsSound`, `Sha2.Variant.absorb`, `Digesting`,
`Algorithm.HashesInPieces`.
Key theorems: `Sha2.Variant.feedAll_eq_absorb`, `Digesting.Represents.answers`,
`RunningDigest.incremental`.
-/
import ContainerRegistry.Digest.Running

namespace ContainerRegistry

/-! ### Blocks and what is held back -/

namespace Sha2.Variant

variable {α : Type} [Word α] (v : Variant α) {s : State α}

/-- What is held back is what the bytes so far leave over of whole blocks. -/
def IsSound (s : State α) : Prop :=
  s.pending.length = s.count % v.blockBytes

/-- Takes bytes block by block: what is held back comes before them. -/
def absorb (s : State α) (bytes : Bytes) : State α :=
  let held := s.pending.reverse ++ bytes
  let whole := held.length / v.blockBytes
  ⟨(v.blocks whole held).foldl v.compress s.words, (held.drop (whole * v.blockBytes)).reverse,
    s.count + bytes.length⟩

theorem isSound_start : v.IsSound v.start := by
  simp [IsSound, start]

theorem isSound_feed (hw : 0 < Word.size α) (hs : v.IsSound s) (b : UInt8) :
    v.IsSound (v.feed s b) := by
  have hpositive : 1 < v.blockBytes := v.one_lt_blockBytes hw
  unfold IsSound at hs
  unfold feed
  simp only
  split
  case isTrue hfull =>
    exact hfull.symm
  case isFalse hopen =>
    -- no block is filled, so that the count stops short of the next edge
    have hlt : s.count % v.blockBytes < v.blockBytes := Nat.mod_lt _ (by omega)
    have hnext : (s.count + 1) % v.blockBytes = (s.count % v.blockBytes + 1) % v.blockBytes :=
      (Nat.mod_add_mod _ _ _).symm
    have hroom : s.count % v.blockBytes + 1 ≠ v.blockBytes := by
      intro hedge
      exact hopen (by rw [hnext, hedge, Nat.mod_self])
    show s.pending.length + 1 = (s.count + 1) % v.blockBytes
    rw [hnext, Nat.mod_eq_of_lt (by omega), hs]

theorem isSound_feedAll (hw : 0 < Word.size α) (bytes : Bytes) (hs : v.IsSound s) :
    v.IsSound (v.feedAll s bytes) := by
  induction bytes generalizing s with
  | nil => exact hs
  | cons b bytes ih => exact ih (v.isSound_feed hw hs b)

/-- Blocks are read off the bytes that they make up. -/
theorem blocks_take : ∀ (count : Nat) (bytes : Bytes),
    v.blocks count (bytes.take (count * v.blockBytes)) = v.blocks count bytes
  | 0, _ => rfl
  | count + 1, bytes => by
    have hsize : (count + 1) * v.blockBytes = count * v.blockBytes + v.blockBytes := by
      rw [Nat.add_mul, Nat.one_mul]
    have hfirst : min v.blockBytes ((count + 1) * v.blockBytes) = v.blockBytes := by omega
    have hrest : (count + 1) * v.blockBytes - v.blockBytes = count * v.blockBytes := by omega
    unfold blocks
    rw [List.take_take, hfirst, List.drop_take, hrest, blocks_take count]

/-- From a block's edge, whole blocks are compressed and the rest is held back. -/
theorem feedAll_edge (hw : 0 < Word.size α) (edge : s.count % v.blockBytes = 0)
    (fresh : s.pending = []) (bytes : Bytes) : v.feedAll s bytes = v.absorb s bytes := by
  have hpositive : 0 < v.blockBytes := Nat.zero_lt_of_lt (v.one_lt_blockBytes hw)
  obtain ⟨whole, hwhole⟩ : ∃ whole, bytes.length / v.blockBytes = whole := ⟨_, rfl⟩
  have hdivide : whole * v.blockBytes + bytes.length % v.blockBytes = bytes.length := by
    rw [← hwhole, Nat.mul_comm]
    exact Nat.div_add_mod _ _
  have hlow : bytes.length % v.blockBytes < v.blockBytes := Nat.mod_lt _ hpositive
  have hfront : (bytes.take (whole * v.blockBytes)).length = whole * v.blockBytes := by
    rw [List.length_take]
    omega
  have hback : (bytes.drop (whole * v.blockBytes)).length = bytes.length % v.blockBytes := by
    rw [List.length_drop]
    omega
  have hcount : s.count + whole * v.blockBytes + bytes.length % v.blockBytes =
      s.count + bytes.length := by
    omega
  calc v.feedAll s bytes
      = v.feedAll (v.feedAll s (bytes.take (whole * v.blockBytes)))
          (bytes.drop (whole * v.blockBytes)) := by
        rw [← feedAll_append, List.take_append_drop]
    _ = v.feedAll ⟨(v.blocks whole bytes).foldl v.compress s.words, [],
          s.count + whole * v.blockBytes⟩ (bytes.drop (whole * v.blockBytes)) := by
        rw [feedAll_blocks v hw whole _ s edge fresh hfront, hfront, blocks_take]
    _ = ⟨(v.blocks whole bytes).foldl v.compress s.words,
          (bytes.drop (whole * v.blockBytes)).reverse, s.count + bytes.length⟩ := by
        rw [feedAll_short _ _ _ (by simp [edge, hback, hlow]), List.append_nil, hback, hcount]
    _ = v.absorb s bytes := by
        simp only [absorb, fresh, List.reverse_nil, List.nil_append, hwhole]

/-- What is held back arrived after a block's edge. -/
theorem feedAll_pending (hw : 0 < Word.size α) (hs : v.IsSound s) :
    v.feedAll ⟨s.words, [], s.count - s.pending.length⟩ s.pending.reverse = s ∧
      (s.count - s.pending.length) % v.blockBytes = 0 := by
  have hpositive : 0 < v.blockBytes := Nat.zero_lt_of_lt (v.one_lt_blockBytes hw)
  have hlow : s.count % v.blockBytes < v.blockBytes := Nat.mod_lt _ hpositive
  have hle : s.count % v.blockBytes ≤ s.count := Nat.mod_le _ _
  have hedge : (s.count - s.pending.length) % v.blockBytes = 0 := by
    rw [hs]
    exact Nat.sub_mod_eq_zero_of_mod_eq (Nat.mod_mod _ _).symm
  have hcount : s.count - s.pending.length + s.pending.length = s.count := by
    rw [hs]
    exact Nat.sub_add_cancel hle
  refine ⟨?_, hedge⟩
  rw [feedAll_short _ _ _ (by rw [hedge, List.length_reverse, hs]; omega), List.reverse_reverse,
    List.length_reverse, List.append_nil, hcount]

/-- **Feeding byte by byte is taking block by block.** -/
theorem feedAll_eq_absorb (hw : 0 < Word.size α) (hs : v.IsSound s) (bytes : Bytes) :
    v.feedAll s bytes = v.absorb s bytes := by
  obtain ⟨hheld, hedge⟩ := v.feedAll_pending hw hs
  have hcount : s.count - s.pending.length + (s.pending.length + bytes.length) =
      s.count + bytes.length := by
    have hle : s.pending.length ≤ s.count := hs ▸ Nat.mod_le _ _
    omega
  calc v.feedAll s bytes
      = v.feedAll ⟨s.words, [], s.count - s.pending.length⟩ (s.pending.reverse ++ bytes) := by
        rw [feedAll_append, hheld]
    _ = v.absorb ⟨s.words, [], s.count - s.pending.length⟩ (s.pending.reverse ++ bytes) :=
        v.feedAll_edge hw hedge rfl _
    _ = v.absorb s bytes := by
        simp only [absorb, List.reverse_nil, List.nil_append, List.length_append,
          List.length_reverse, hcount]

end Sha2.Variant

/-! ### Pieces -/

namespace RunningDigest

/-- What is held back is what the bytes so far leave over of whole blocks. -/
def IsSound : RunningDigest → Prop
  | sha256 state => Sha2.sha256.IsSound state
  | sha512 state => Sha2.sha512.IsSound state

/-- Takes bytes block by block. -/
def absorb : RunningDigest → Bytes → RunningDigest
  | sha256 state, data => sha256 (Sha2.sha256.absorb state data)
  | sha512 state, data => sha512 (Sha2.sha512.absorb state data)

theorem isSound_start (a : Algorithm) : a.start.IsSound := by
  cases a with
  | sha256 => exact Sha2.sha256.isSound_start
  | sha512 => exact Sha2.sha512.isSound_start

theorem isSound_update {r : RunningDigest} (hr : r.IsSound) (data : Bytes) :
    (r.update data).IsSound := by
  cases r with
  | sha256 state => exact Sha2.sha256.isSound_feedAll (by decide) data hr
  | sha512 state => exact Sha2.sha512.isSound_feedAll (by decide) data hr

theorem update_eq_absorb {r : RunningDigest} (hr : r.IsSound) (data : Bytes) :
    r.update data = r.absorb data := by
  cases r with
  | sha256 state => exact congrArg sha256 (Sha2.sha256.feedAll_eq_absorb (by decide) hr data)
  | sha512 state => exact congrArg sha512 (Sha2.sha512.feedAll_eq_absorb (by decide) hr data)

/-- Pieces that arrive one by one are their concatenation. -/
theorem foldl_update (chunks : List Bytes) (r : RunningDigest) :
    chunks.foldl update r = r.update chunks.flatten := by
  induction chunks generalizing r with
  | nil => rw [List.foldl_nil, List.flatten_nil, update_nil]
  | cons chunk chunks ih => rw [List.foldl_cons, ih, List.flatten_cons, update_append]

end RunningDigest

/-- Bytes that are hashed in pieces come to the digest of the whole. -/
structure Algorithm.HashesInPieces (a : Algorithm) : Prop where
  /-- However the bytes were cut, their whole blocks are compressed and the rest is held back. -/
  state : ∀ chunks : List Bytes,
    chunks.foldl RunningDigest.update a.start = a.start.absorb chunks.flatten
  /-- A piece completes the block of what is held back, wherever the pieces before it ended. -/
  advance : ∀ (chunks : List Bytes) (data : Bytes),
    (chunks.foldl RunningDigest.update a.start).update data =
      (chunks.foldl RunningDigest.update a.start).absorb data
  whole : ∀ chunks : List Bytes,
    (chunks.foldl RunningDigest.update a.start).finish = Digest.ofBytes a chunks.flatten
  /-- What is hashed so far can be finished, and continued all the same. -/
  snapshot : ∀ before after : List Bytes,
    let running := before.foldl RunningDigest.update a.start
    running.finish = Digest.ofBytes a before.flatten ∧
      (after.foldl RunningDigest.update running).finish =
        Digest.ofBytes a (before ++ after).flatten

theorem Algorithm.hashesInPieces (a : Algorithm) : a.HashesInPieces := by
  have hsound : ∀ chunks : List Bytes, (chunks.foldl RunningDigest.update a.start).IsSound := by
    intro chunks
    rw [RunningDigest.foldl_update]
    exact RunningDigest.isSound_update (RunningDigest.isSound_start a) _
  have hwhole : ∀ chunks : List Bytes,
      (chunks.foldl RunningDigest.update a.start).finish = Digest.ofBytes a chunks.flatten := by
    intro chunks
    rw [RunningDigest.foldl_update, RunningDigest.finish_update_start]
  constructor
  case state =>
    intro chunks
    rw [RunningDigest.foldl_update]
    exact RunningDigest.update_eq_absorb (RunningDigest.isSound_start a) _
  case advance =>
    intro chunks data
    exact RunningDigest.update_eq_absorb (hsound chunks) data
  case whole => exact hwhole
  case snapshot =>
    intro before after
    refine ⟨hwhole before, ?_⟩
    rw [← List.foldl_append]
    exact hwhole (before ++ after)

/-! ### Copies -/

/-- What is done with digests under way. They are numbered as they come up. -/
inductive DigestEvent where
  | start (a : Algorithm)
  | update (i : Nat) (data : Bytes)
  /-- The copy comes up as the next one. -/
  | clone (i : Nat)
  /-- Asks for the digest, which spends what it is asked of. -/
  | finish (i : Nat)

/-- A way to come to the digest of bytes that arrive in pieces. -/
structure Digesting (δ : Type) where
  start : Algorithm → δ
  update : δ → Bytes → δ
  finish : δ → Digest

namespace Digesting

/-- The digests under way after an event, and the answer. One that is spent is no more. -/
def step {δ : Type} (m : Digesting δ) (held : List (Option δ)) :
    DigestEvent → List (Option δ) × Option Digest
  | .start a => (held ++ [some (m.start a)], none)
  | .update i data => (held.set i (held[i]?.join.map (m.update · data)), none)
  | .clone i => (held ++ [held[i]?.join], none)
  | .finish i => (held.set i none, held[i]?.join.map m.finish)

/-- The answers to a run of events. -/
def answers {δ : Type} (m : Digesting δ) :
    List (Option δ) → List DigestEvent → List (Option Digest)
  | _, [] => []
  | held, e :: events => (m.step held e).2 :: m.answers (m.step held e).1 events

/-- Hashing while the bytes arrive. -/
def running : Digesting RunningDigest :=
  ⟨Algorithm.start, RunningDigest.update, RunningDigest.finish⟩

/-- Keeping all the bytes and hashing them at the end. -/
def oneShot : Digesting (Algorithm × Bytes) :=
  ⟨fun a => (a, []), fun x data => (x.1, x.2 ++ data), fun x => Digest.ofBytes x.1 x.2⟩

/-- A copy is finished, and the one that it was made of goes on. -/
example (x y : Bytes) : oneShot.answers []
    [.start .sha512, .update 0 x, .clone 0, .finish 1, .update 0 y, .finish 0] =
      [none, none, none, some (Digest.ofBytes .sha512 x), none,
        some (Digest.ofBytes .sha512 (x ++ y))] := rfl

/-- The state `f x` of the way `m` stands for the state `x` of the way `n`: what is done with
either keeps them so, and both come to the same digest. -/
structure Represents {δ ε : Type} (m : Digesting δ) (n : Digesting ε) (f : ε → δ) : Prop where
  start : ∀ a, m.start a = f (n.start a)
  update : ∀ x data, m.update (f x) data = f (n.update x data)
  finish : ∀ x, m.finish (f x) = n.finish x

namespace Represents

variable {δ ε : Type} {m : Digesting δ} {n : Digesting ε} {f : ε → δ}

theorem step (h : m.Represents n f) (held : List (Option ε)) (e : DigestEvent) :
    m.step (held.map (Option.map f)) e =
      ((n.step held e).1.map (Option.map f), (n.step held e).2) := by
  have hget : ∀ i : Nat, (held.map (Option.map f))[i]?.join = held[i]?.join.map f := by
    intro i
    rw [List.getElem?_map]
    cases held[i]? <;> rfl
  cases e with
  | start a =>
    simp only [Digesting.step, List.map_append, List.map_cons, List.map_nil, Option.map_some,
      h.start]
  | update i data =>
    have hupdate : (held[i]?.join.map f).map (m.update · data) =
        (held[i]?.join.map (n.update · data)).map f := by
      rw [Option.map_map, Option.map_map]
      exact congrArg (held[i]?.join.map ·) (funext fun x => h.update x data)
    simp only [Digesting.step, List.map_set, hget, hupdate]
  | clone i =>
    simp only [Digesting.step, List.map_append, List.map_cons, List.map_nil, hget]
  | finish i =>
    have hanswer : (held[i]?.join.map f).map m.finish = held[i]?.join.map n.finish := by
      rw [Option.map_map]
      exact congrArg (held[i]?.join.map ·) (funext h.finish)
    simp only [Digesting.step, List.map_set, Option.map_none, hget, hanswer]

/-- No run of events tells a way from one that represents it. -/
theorem answers (h : m.Represents n f) (events : List DigestEvent) (held : List (Option ε)) :
    m.answers (held.map (Option.map f)) events = n.answers held events := by
  induction events generalizing held with
  | nil => rfl
  | cons e events ih => rw [Digesting.answers, Digesting.answers, h.step, ih]

end Represents

/-- A running digest is the one that was fed all the bytes at once. -/
theorem running_represents :
    running.Represents oneShot fun x => x.1.start.update x.2 where
  start a := (RunningDigest.update_nil a.start).symm
  update x data := (RunningDigest.update_append x.1.start x.2 data).symm
  finish x := RunningDigest.finish_update_start x.1 x.2

end Digesting

/-- **Hashing piece by piece is hashing the whole**: with either algorithm, whatever the cuts,
and with any number of running digests that are copied, continued and finished in any order. -/
theorem RunningDigest.incremental : (∀ a : Algorithm, a.HashesInPieces) ∧
    ∀ events, Digesting.running.answers [] events = Digesting.oneShot.answers [] events :=
  ⟨Algorithm.hashesInPieces, fun events => Digesting.running_represents.answers events []⟩

end ContainerRegistry
