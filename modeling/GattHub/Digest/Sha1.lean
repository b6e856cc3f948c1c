import GattHub.Octets

/-! The message digest SHA-1. -/

namespace GattHub.Sha1

structure Chain where
  a : UInt32
  b : UInt32
  c : UInt32
  d : UInt32
  e : UInt32

def Chain.initial : Chain := ⟨0x67452301, 0xEFCDAB89, 0x98BADCFE, 0x10325476, 0xC3D2E1F0⟩

def rotate (n w : UInt32) : UInt32 := (w <<< n) ||| (w >>> (32 - n))

/-- The message, a one bit, zeros up to eight bytes short of a block, and the length in bits. -/
def padded (message : Octets) : Octets :=
  message ++ [0x80] ++ List.replicate ((119 - message.length % 64) % 64) 0 ++
    Octets.ofNat 8 (8 * message.length)

/-- Four bytes a word, high byte first. -/
def words : Octets → List UInt32
  | a :: b :: c :: d :: rest =>
    (a.toUInt32 <<< 24 ||| b.toUInt32 <<< 16 ||| c.toUInt32 <<< 8 ||| d.toUInt32) :: words rest
  | _ => []

/-- Adds `n` words of the message schedule to those at hand, newest first. -/
def extend : Nat → List UInt32 → List UInt32
  | 0, ws => ws
  | n + 1, ws =>
    extend n (rotate 1 (ws.getD 2 0 ^^^ ws.getD 7 0 ^^^ ws.getD 13 0 ^^^ ws.getD 15 0) :: ws)

/-- The eighty words that a block of sixteen feeds to the rounds. -/
def schedule (block : List UInt32) : List UInt32 := (extend 64 block.reverse).reverse

/-- The mixing function and constant of a round. -/
def mix (round : Nat) (b c d : UInt32) : UInt32 :=
  if round < 20 then ((b &&& c) ||| (~~~b &&& d)) + 0x5A827999
  else if round < 40 then (b ^^^ c ^^^ d) + 0x6ED9EBA1
  else if round < 60 then ((b &&& c) ||| (b &&& d) ||| (c &&& d)) + 0x8F1BBCDC
  else (b ^^^ c ^^^ d) + 0xCA62C1D6

def Chain.round (s : Chain) (round : Nat) (w : UInt32) : Chain :=
  ⟨rotate 5 s.a + mix round s.b s.c s.d + s.e + w, s.a, rotate 30 s.b, s.c, s.d⟩

def Chain.add (s t : Chain) : Chain := ⟨s.a + t.a, s.b + t.b, s.c + t.c, s.d + t.d, s.e + t.e⟩

def Chain.absorb (s : Chain) (block : List UInt32) : Chain :=
  s.add ((schedule block).zipIdx.foldl (fun t w => t.round w.2 w.1) s)

/-- Blocks of sixteen words. -/
def blocks (ws : List UInt32) : List (List UInt32) :=
  (List.range (ws.length / 16)).map fun i => (ws.drop (16 * i)).take 16

def digest (message : Octets) : Octets :=
  let s := (blocks (words (padded message))).foldl Chain.absorb Chain.initial
  [s.a, s.b, s.c, s.d, s.e].flatMap fun w => Octets.ofNat 4 w.toNat

end GattHub.Sha1
