import ImportAtlas.Text.Digits
/-!
# A 64-bit digest

XXH3 with 64 bits, seed zero and the standard secret.  It is quick and well mixed and keeps no
secrets: two keys may share a digest, and who names things by digests has to live with that.

The message is cut into words, little end first, each is disturbed with a word of the secret, and
what is left is multiplied and folded.  Messages of up to 3, 8, 16, 128 and 240 bytes each have a
scheme of their own; longer ones run through eight lanes in stripes of 64 bytes.
-/
namespace ImportAtlas
namespace Digest

abbrev Bytes := List UInt8

/-- The number that the first `n` bytes spell, little end first. -/
def word (n : Nat) (bytes : Bytes) : UInt64 :=
  (bytes.take n).foldr (fun b w => w <<< 8 ||| b.toUInt64) 0

def word64 (bytes : Bytes) : UInt64 := word 8 bytes

def word32 (bytes : Bytes) : UInt64 := word 4 bytes

/-- The eight bytes of a word, big end first. -/
def bigEndian (w : UInt64) : Bytes :=
  [56, 48, 40, 32, 24, 16, 8, 0].map fun shift : UInt64 => (w >>> shift).toUInt8

/-- The standard secret, 192 bytes. -/
def secret : Bytes :=
  [ 0xb8fe6c3923a44bbe, 0x7c01812cf721ad1c, 0xded46de9839097db, 0x7240a4a4b7b3671f,
    0xcb79e64eccc0e578, 0x825ad07dccff7221, 0xb8084674f743248e, 0xe03590e6813a264c,
    0x3c2852bb91c300cb, 0x88d0658b1b532ea3, 0x71644897a20df94e, 0x3819ef46a9deacd8,
    0xa8fa763fe39c343f, 0xf9dcbbc7c70b4f1d, 0x8a51e04bcdb45931, 0xc89f7ec9d9787364,
    0xeac5ac8334d3ebc3, 0xc581a0fffa1363eb, 0x170ddd51b7f0da49, 0xd316552629d4689e,
    0x2b16be587d47a1fc, 0x8ff8b8d17ad031ce, 0x45cb3a8f95160428, 0xafd7fbcabb4b407e ].flatMap
    bigEndian

/-- The secret from the given byte on. -/
def secretAt (i : Nat) : Bytes := secret.drop i

/-! ## Mixing -/

def prime32₁ : UInt64 := 0x9E3779B1
def prime32₂ : UInt64 := 0x85EBCA77
def prime32₃ : UInt64 := 0xC2B2AE3D
def prime64₁ : UInt64 := 0x9E3779B185EBCA87
def prime64₂ : UInt64 := 0xC2B2AE3D27D4EB4F
def prime64₃ : UInt64 := 0x165667B19E3779F9
def prime64₄ : UInt64 := 0x85EBCA77C2B2AE63
def prime64₅ : UInt64 := 0x27D4EB2F165667C5
def mixer₁ : UInt64 := 0x165667919E3779F9
def mixer₂ : UInt64 := 0x9FB21C651E98DF25

def rotateLeft (w : UInt64) (n : UInt64) : UInt64 := w <<< n ||| w >>> (64 - n)

/-- The word folded onto itself. -/
def fold (w : UInt64) (n : UInt64) : UInt64 := w ^^^ w >>> n

/-- Both halves of the full product, one over the other. -/
def foldedProduct (a b : UInt64) : UInt64 :=
  let product := a.toNat * b.toNat
  .ofNat product ^^^ .ofNat (product / UInt64.size)

def reversedBytes (w : UInt64) : UInt64 := word64 (bigEndian w)

def finishShort (w : UInt64) : UInt64 :=
  fold (fold (fold w 33 * prime64₂) 29 * prime64₃) 32

def finish (w : UInt64) : UInt64 := fold (fold w 37 * mixer₁) 32

def finishOf (length : UInt64) (w : UInt64) : UInt64 :=
  let w := (w ^^^ rotateLeft w 49 ^^^ rotateLeft w 24) * mixer₂
  fold ((w ^^^ (w >>> 35 + length)) * mixer₂) 28

/-- Sixteen bytes of a message with sixteen of the secret. -/
def mix16 (bytes key : Bytes) : UInt64 :=
  foldedProduct (word64 bytes ^^^ word64 key) (word64 (bytes.drop 8) ^^^ word64 (key.drop 8))

/-! ## Short messages -/

def ofNone : UInt64 := finishShort (word64 (secretAt 56) ^^^ word64 (secretAt 64))

/-- One to three bytes. -/
def upTo3 (bytes : Bytes) : UInt64 :=
  let n := bytes.length
  let byte (i : Nat) : UInt64 := word 1 (bytes.drop i)
  let combined :=
    byte 0 <<< 16 ||| byte (n / 2) <<< 24 ||| byte (n - 1) ||| UInt64.ofNat n <<< 8
  finishShort (combined ^^^ (word32 secret ^^^ word32 (secretAt 4)))

/-- Four to eight bytes. -/
def upTo8 (bytes : Bytes) : UInt64 :=
  let n := bytes.length
  let combined := word32 (bytes.drop (n - 4)) + word32 bytes <<< 32
  finishOf (.ofNat n) (combined ^^^ (word64 (secretAt 8) ^^^ word64 (secretAt 16)))

/-- Nine to sixteen bytes. -/
def upTo16 (bytes : Bytes) : UInt64 :=
  let n := bytes.length
  let low := word64 bytes ^^^ (word64 (secretAt 24) ^^^ word64 (secretAt 32))
  let high := word64 (bytes.drop (n - 8)) ^^^ (word64 (secretAt 40) ^^^ word64 (secretAt 48))
  finish (.ofNat n + reversedBytes low + high + foldedProduct low high)

/-- Seventeen to 128 bytes: blocks from both ends inwards. -/
def upTo128 (bytes : Bytes) : UInt64 :=
  let n := bytes.length
  let pair (i : Nat) : UInt64 :=
    mix16 (bytes.drop (16 * i)) (secretAt (32 * i)) +
      mix16 (bytes.drop (n - 16 * (i + 1))) (secretAt (32 * i + 16))
  let pairs := (List.range ((n + 31) / 32)).map pair
  finish (pairs.foldl (· + ·) (.ofNat n * prime64₁))

/-- 129 to 240 bytes: eight blocks, the others, and the last sixteen bytes. -/
def upTo240 (bytes : Bytes) : UInt64 :=
  let n := bytes.length
  let early (i : Nat) : UInt64 := mix16 (bytes.drop (16 * i)) (secretAt (16 * i))
  let late (i : Nat) : UInt64 := mix16 (bytes.drop (16 * (i + 8))) (secretAt (16 * i + 3))
  let w := ((List.range 8).map early).foldl (· + ·) (.ofNat n * prime64₁)
  let w := ((List.range (n / 16 - 8)).map late).foldl (· + ·) (finish w)
  finish (w + mix16 (bytes.drop (n - 16)) (secretAt 119))

/-! ## Long messages -/

def initialLanes : List UInt64 :=
  [prime32₃, prime64₁, prime64₂, prime64₃, prime64₄, prime32₂, prime64₅, prime32₁]

/-- The words of eight lanes. -/
def laneWords (bytes : Bytes) : List UInt64 := (List.range 8).map fun i => word64 (bytes.drop (8 * i))

/-- Neighbours of an even and an odd place exchanged. -/
def exchanged : List UInt64 → List UInt64
  | a :: b :: rest => b :: a :: exchanged rest
  | rest => rest

/-- The product of the two halves of a word. -/
def halvesProduct (w : UInt64) : UInt64 := w.toUInt32.toUInt64 * (w >>> 32)

/-- Takes a stripe into the lanes: each word into its neighbour's lane as it is, and disturbed with
the secret and with its halves multiplied into its own. -/
def takeStripe (lanes : List UInt64) (stripe key : Bytes) : List UInt64 :=
  let words := laneWords stripe
  let keyed := List.zipWith (· ^^^ ·) words (laneWords key)
  let products := keyed.map halvesProduct
  List.zipWith (· + ·) lanes (List.zipWith (· + ·) (exchanged words) products)

/-- Stirs the lanes at the end of a block. -/
def scramble (lanes : List UInt64) : List UInt64 :=
  List.zipWith (fun w k => (fold w 47 ^^^ k) * prime32₁) lanes (laneWords (secretAt 128))

def stripesPerBlock : Nat := 16

/-- Takes the stripe of the given number, and stirs after the last of a block. -/
def takeNth (bytes : Bytes) (lanes : List UInt64) (i : Nat) : List UInt64 :=
  let place := i % stripesPerBlock
  let lanes := takeStripe lanes (bytes.drop (64 * i)) (secretAt (8 * place))
  if place + 1 = stripesPerBlock then scramble lanes else lanes

def merged (start : UInt64) : List UInt64 → Bytes → UInt64
  | a :: b :: rest, key =>
    merged (start + foldedProduct (a ^^^ word64 key) (b ^^^ word64 (key.drop 8))) rest (key.drop 16)
  | _, _ => finish start

/-- More than 240 bytes.  The last 64 are a stripe of their own, whatever the others cover. -/
def long (bytes : Bytes) : UInt64 :=
  let n := bytes.length
  let lanes := (List.range ((n - 1) / 64)).foldl (takeNth bytes) initialLanes
  let lanes := takeStripe lanes (bytes.drop (n - 64)) (secretAt 121)
  merged (.ofNat n * prime64₁) lanes (secretAt 11)

def xxh3 (bytes : Bytes) : UInt64 :=
  let n := bytes.length
  if n = 0 then ofNone
  else if n ≤ 3 then upTo3 bytes
  else if n ≤ 8 then upTo8 bytes
  else if n ≤ 16 then upTo16 bytes
  else if n ≤ 128 then upTo128 bytes
  else if n ≤ 240 then upTo240 bytes
  else long bytes

/-! ## In writing -/

/-- Sixteen lower-case hex digits. -/
def hex (w : UInt64) : String :=
  .ofList ((List.range 16).map fun i => Text.digit (w.toNat >>> (4 * (15 - i)) % 16))

/-- The digest of a text, in writing. -/
def ofText (text : String) : String := hex (xxh3 text.toByteArray.toList)

end Digest
end ImportAtlas
