/-
# Content digests

A digest names content by its hash, as the algorithm, a colon and the hash in
lowercase hexadecimal: `sha256:` and 64 digits, or `sha512:` and 128. A `Digest`
is such a name, so holding one means that its text is well formed. Reading a
text reports the first thing that is wrong: no colon, the algorithm, the number
of bytes after the colon, the digits.

Key definitions: `Algorithm`, `Digest`, `Digest.parse`, `Digest.toText`,
`Digest.ofBytes`, `DigestError`.
Key theorems: `Digest.ext`, `Digest.algorithm_ofBytes`.
-/
import ContainerRegistry.Digest.Sha2
import ContainerRegistry.Text.Hex
import ContainerRegistry.Text.Quoted

namespace ContainerRegistry

/-- The hash algorithms that digests use. -/
inductive Algorithm where
  | sha256
  | sha512
  deriving DecidableEq, Ord, Repr

/-- What is wrong with a text that should be a digest. -/
inductive DigestError where
  | missingAlgorithm (text : String)
  | unsupportedAlgorithm (algorithm : String)
  | invalidLength (text : String) (expected : Nat)
  | invalidHex (text : String)
  deriving DecidableEq, Repr

/-- The report of a digest error. -/
def DigestError.message : DigestError → String
  | .missingAlgorithm text => s!"digest {Quoted.quote text} is missing an algorithm prefix"
  | .unsupportedAlgorithm algorithm => s!"unsupported digest algorithm {Quoted.quote algorithm}"
  | .invalidLength text expected =>
    s!"digest {Quoted.quote text} should have {expected} hex characters"
  | .invalidHex text => s!"digest {Quoted.quote text} is not lowercase hex"

namespace Algorithm

/-- The algorithm's name in digests and paths. -/
def name : Algorithm → String
  | sha256 => "sha256"
  | sha512 => "sha512"

/-- The number of hexadecimal digits of a hash. -/
def hexLength : Algorithm → Nat
  | sha256 => 64
  | sha512 => 128

/-- The algorithm with this name. -/
def parse (text : String) : Except DigestError Algorithm :=
  if text = "sha256" then .ok sha256
  else if text = "sha512" then .ok sha512
  else .error (.unsupportedAlgorithm text)

/-- Whether a text is a hash of this algorithm: as many digits as it takes. -/
def accepts (algorithm : Algorithm) (hex : String) : Bool :=
  hex.toList.length == algorithm.hexLength && hex.toList.all Hex.isDigit

/-- The hash of a byte string. -/
def hash : Algorithm → Bytes → Bytes
  | sha256, data => Sha2.sha256.hash data
  | sha512, data => Sha2.sha512.hash data

theorem accepts_encode {algorithm : Algorithm} {hash : Bytes}
    (h : 2 * hash.length = algorithm.hexLength) : algorithm.accepts (Hex.encode hash) = true := by
  simp only [accepts, Hex.encode, String.toList_ofList, Bool.and_eq_true, beq_iff_eq,
    List.all_eq_true]
  exact ⟨(Hex.length_digits hash).trans h, fun _ hc => Hex.isDigit_of_mem_digits hc⟩

theorem length_hash : ∀ (algorithm : Algorithm) (data : Bytes),
    2 * (algorithm.hash data).length = algorithm.hexLength
  | sha256, data => by rw [hash, Sha2.Variant.hash, Sha2.Words.length_bytes]; rfl
  | sha512, data => by rw [hash, Sha2.Variant.hash, Sha2.Words.length_bytes]; rfl

end Algorithm

/-- The name of content by its hash. -/
structure Digest where
  algorithm : Algorithm
  /-- The hash in lowercase hexadecimal. -/
  hex : String
  wellFormed : algorithm.accepts hex = true
  deriving DecidableEq

namespace Digest

@[ext]
theorem ext {x y : Digest} (algorithm : x.algorithm = y.algorithm) (hex : x.hex = y.hex) :
    x = y := by
  cases x
  cases y
  simp_all

/-- The digest as a text. -/
def toText (d : Digest) : String :=
  d.algorithm.name ++ ":" ++ d.hex

/-- The digest as a programmer sees it. -/
def debugText (d : Digest) : String :=
  s!"Digest({Quoted.quote d.toText})"

/-- The digest that a text names. -/
def parse (text : String) : Except DigestError Digest :=
  match text.toList.dropWhile (· ≠ ':') with
  | [] => .error (.missingAlgorithm text)
  | _ :: rest =>
    match Algorithm.parse (String.ofList (text.toList.takeWhile (· ≠ ':'))) with
    | .error e => .error e
    | .ok algorithm =>
      let hex := String.ofList rest
      if hex.utf8ByteSize ≠ algorithm.hexLength then
        .error (.invalidLength text algorithm.hexLength)
      else if h : algorithm.accepts hex = true then .ok ⟨algorithm, hex, h⟩
      else .error (.invalidHex text)

/-- The digest of content. -/
def ofBytes (algorithm : Algorithm) (data : Bytes) : Digest where
  algorithm := algorithm
  hex := Hex.encode (algorithm.hash data)
  wellFormed := Algorithm.accepts_encode (algorithm.length_hash data)

theorem algorithm_ofBytes (algorithm : Algorithm) (data : Bytes) :
    (ofBytes algorithm data).algorithm = algorithm := rfl

/-- The canonical digest of content. -/
def sha256 (data : Bytes) : Digest :=
  ofBytes .sha256 data

/-- Digests are ordered by algorithm, then by hash. -/
instance : Ord Digest where
  compare x y := (compare x.algorithm y.algorithm).then (compare x.hex y.hex)

end Digest

end ContainerRegistry
