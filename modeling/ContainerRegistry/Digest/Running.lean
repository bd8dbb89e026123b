/-
# Digests computed while content arrives

A running digest has taken some bytes and can take more. Finishing one does not
spend it: the value can still be continued, which is how an upload hashes ahead
and keeps the result only if the bytes are confirmed.

Key definitions: `RunningDigest`, `Algorithm.start`, `RunningDigest.update`,
`RunningDigest.finish`.
Key theorems: `RunningDigest.update_append`, `RunningDigest.finish_update_start`.
-/
import ContainerRegistry.Digest.Basic

namespace ContainerRegistry

/-- A digest of the bytes so far. -/
inductive RunningDigest where
  | sha256 (state : Sha2.State UInt32)
  | sha512 (state : Sha2.State UInt64)
  deriving DecidableEq, Repr

/-- The digest of nothing yet. -/
def Algorithm.start : Algorithm → RunningDigest
  | sha256 => .sha256 Sha2.sha256.start
  | sha512 => .sha512 Sha2.sha512.start

namespace RunningDigest

/-- The algorithm of a running digest. -/
def algorithm : RunningDigest → Algorithm
  | sha256 _ => .sha256
  | sha512 _ => .sha512

/-- Takes more bytes. -/
def update : RunningDigest → Bytes → RunningDigest
  | sha256 state, data => sha256 (Sha2.sha256.feedAll state data)
  | sha512 state, data => sha512 (Sha2.sha512.feedAll state data)

/-- The digest of the bytes so far. -/
def finish : RunningDigest → Digest
  | sha256 state =>
    ⟨.sha256, Hex.encode (Sha2.sha256.finish state), Algorithm.accepts_encode (by
      rw [Sha2.Variant.finish, Sha2.Words.length_bytes]
      rfl)⟩
  | sha512 state =>
    ⟨.sha512, Hex.encode (Sha2.sha512.finish state), Algorithm.accepts_encode (by
      rw [Sha2.Variant.finish, Sha2.Words.length_bytes]
      rfl)⟩

@[simp]
theorem algorithm_start : ∀ a : Algorithm, a.start.algorithm = a
  | .sha256 => rfl
  | .sha512 => rfl

@[simp]
theorem algorithm_update : ∀ (r : RunningDigest) (data : Bytes),
    (r.update data).algorithm = r.algorithm
  | sha256 _, _ => rfl
  | sha512 _, _ => rfl

@[simp]
theorem update_nil : ∀ r : RunningDigest, r.update [] = r
  | sha256 _ => rfl
  | sha512 _ => rfl

/-- Bytes may arrive in any cuts. -/
theorem update_append : ∀ (r : RunningDigest) (x y : Bytes),
    r.update (x ++ y) = (r.update x).update y
  | sha256 _, _, _ => congrArg sha256 (Sha2.Variant.feedAll_append _ _ _ _)
  | sha512 _, _, _ => congrArg sha512 (Sha2.Variant.feedAll_append _ _ _ _)

/-- **A running digest ends as the digest of what it took.** -/
theorem finish_update_start : ∀ (a : Algorithm) (data : Bytes),
    (a.start.update data).finish = Digest.ofBytes a data
  | .sha256, data => Digest.ext rfl <| congrArg Hex.encode <|
    Sha2.Variant.finish_feedAll Sha2.sha256 (by decide) (by decide) data
  | .sha512, data => Digest.ext rfl <| congrArg Hex.encode <|
    Sha2.Variant.finish_feedAll Sha2.sha512 (by decide) (by decide) data

end RunningDigest

end ContainerRegistry
