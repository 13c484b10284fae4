/-
The Mersenne twister MT19937: 624 words of 32 bits that are stirred
together and given out one by one.

A seed is any whole number; its sign is ignored, and the 32-bit digits of
its size are mixed into the words, the lowest first. Numbers below a
bound are drawn as so many leading bits as the bound has, again and again
until one is below it. Lists are shuffled from the last place down, each
place exchanged with one that is not behind it.
-/
import Siteswap.Random.Shuffler

namespace Siteswap

/-- The state of the twister: its words, and how many of them were given
out. -/
structure Twister where
  words : Vector UInt32 624
  used : Nat

namespace Twister

-- ============================================================== seeding

/-- The word at place `i`, places taken cyclically. -/
def wordAt (v : Vector UInt32 624) (i : Nat) : UInt32 :=
  v.get (Fin.ofNat 624 i)

/-- The word at place `i` replaced, places taken cyclically. -/
def putWord (v : Vector UInt32 624) (i : Nat) (w : UInt32) : Vector UInt32 624 :=
  v.set (i % 624) w (Nat.mod_lt i (by decide))

/-- A word with its two highest bits added at the low end. -/
def folded (w : UInt32) : UInt32 :=
  w ^^^ (w >>> 30)

/-- The words that a seed of one word gives. -/
def ofWord (seed : UInt32) : Vector UInt32 624 :=
  (List.range' 1 623).foldl
    (fun v i => putWord v i (1812433253 * folded (wordAt v (i - 1)) + UInt32.ofNat i))
    ((Vector.replicate 624 0).set 0 seed)

/-- The 32-bit digits of `n`, the lowest first. -/
def digits (n : Nat) : List UInt32 :=
  if _ : n < UInt32.size then [UInt32.ofNat n]
  else UInt32.ofNat n :: digits (n / UInt32.size)
termination_by n
decreasing_by exact Nat.div_lt_self (by simp only [UInt32.size] at *; omega) (by decide)

/-- The place behind `i` among 1, …, 623. At the end the last word is
taken over to place 0, and places begin anew. -/
def advance (v : Vector UInt32 624) (i : Nat) : Vector UInt32 624 × Nat :=
  if i + 1 < 624 then (v, i + 1) else (putWord v 0 (wordAt v 623), 1)

/-- One word of the key mixed in at place `i`. -/
def mixKey (key : Array UInt32) (s : Vector UInt32 624 × Nat) (n : Nat) :
    Vector UInt32 624 × Nat :=
  let (v, i) := s
  let j := n % key.size
  let w := (wordAt v i ^^^ folded (wordAt v (i - 1)) * 1664525) + key.getD j 0 + UInt32.ofNat j
  advance (putWord v i w) i

/-- The place `i` itself mixed in. -/
def mixPlace (s : Vector UInt32 624 × Nat) (_ : Nat) : Vector UInt32 624 × Nat :=
  let (v, i) := s
  let w := (wordAt v i ^^^ folded (wordAt v (i - 1)) * 1566083941) - UInt32.ofNat i
  advance (putWord v i w) i

def ofSeed (seed : Int) : Twister :=
  let key := (digits seed.natAbs).toArray
  let s := (List.range (max 624 key.size)).foldl (mixKey key) (ofWord 19650218, 1)
  let s := (List.range 623).foldl mixPlace s
  { words := putWord s.1 0 0x80000000, used := 624 }

-- ============================================================== drawing

/-- All words stirred once. -/
def stirred (v : Vector UInt32 624) : Vector UInt32 624 :=
  (List.range 624).foldl
    (fun v i =>
      let y := (wordAt v i &&& 0x80000000) ||| (wordAt v (i + 1) &&& 0x7FFFFFFF)
      let twist : UInt32 := if y &&& 1 = 0 then 0 else 0x9908B0DF
      putWord v i (wordAt v (i + 397) ^^^ (y >>> 1) ^^^ twist))
    v

/-- A word as it is given out. -/
def tempered (y : UInt32) : UInt32 :=
  let y := y ^^^ (y >>> 11)
  let y := y ^^^ ((y <<< 7) &&& 0x9D2C5680)
  let y := y ^^^ ((y <<< 15) &&& 0xEFC60000)
  y ^^^ (y >>> 18)

def draw (t : Twister) : UInt32 × Twister :=
  if t.used < 624 then (tempered (wordAt t.words t.used), { t with used := t.used + 1 })
  else
    let words := stirred t.words
    (tempered (wordAt words 0), { words := words, used := 1 })

/-- A number of `k` bits. Beyond 32 the low words come first. -/
def bits (k : Nat) (t : Twister) : Nat × Twister :=
  let (w, t) := t.draw
  if _ : k ≤ 32 then (w.toNat >>> (32 - k), t)
  else
    let (high, t) := bits (k - 32) t
    (w.toNat + UInt32.size * high, t)
termination_by k

/-- The first of at most `tries` numbers of `k` bits that is below
`n + 1`, else 0. Half of all draws or more are. -/
def belowWithin (n k : Nat) : (tries : Nat) → Twister → Fin (n + 1) × Twister
  | 0, t => (0, t)
  | tries + 1, t =>
    let (r, t) := t.bits k
    if h : r < n + 1 then (⟨r, h⟩, t) else belowWithin n k tries t

/-- A number from 0 to `n`. -/
def upTo (n : Nat) (t : Twister) : Fin (n + 1) × Twister :=
  belowWithin n ((n + 1).log2 + 1) 4096 t

-- ============================================================ shuffling

/-- The places from `i` down exchanged, each with one not behind it. -/
def shuffleFrom : (i : Nat) → (xs : Array Int) → i < xs.size → Twister → Array Int × Twister
  | 0, xs, _, t => (xs, t)
  | i + 1, xs, h, t =>
    let (j, t) := t.upTo (i + 1)
    shuffleFrom i (xs.swap (i + 1) j.val h (by omega)) (by simp; omega) t

def shuffle (t : Twister) (xs : List Int) : List Int × Twister :=
  if h : 0 < xs.length then
    let (a, t) := shuffleFrom (xs.length - 1) xs.toArray (by simp; omega) t
    (a.toList, t)
  else (xs, t)

theorem shuffleFrom_perm (i : Nat) (xs : Array Int) (h : i < xs.size) (t : Twister) :
    (shuffleFrom i xs h t).1.Perm xs := by
  induction i generalizing xs t with
  | zero => exact .refl xs
  | succ i ih => exact (ih _ _ _).trans (Array.swap_perm _ _)

def shuffler : Shuffler Twister where
  shuffle := shuffle
  perm t xs := by
    unfold shuffle
    split
    · exact (shuffleFrom_perm _ _ _ t).toList
    · exact .refl xs

def chance : Chance Twister where
  toShuffler := shuffler
  upTo := upTo

end Twister

end Siteswap
