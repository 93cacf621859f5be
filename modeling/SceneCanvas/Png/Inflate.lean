import SceneCanvas.Buffer

/-!
# Compressed data

`inflate` unpacks a compressed stream: a run of blocks, each stored plainly or coded with prefix
codes for literals, lengths and distances. `store` packs bytes into plainly stored blocks, which
every reader of the format accepts.

A prefix code is given by the length of the code word of every symbol. Code words of one length
are consecutive, in the order of their symbols, and follow those of the lengths below.
-/

namespace SceneCanvas.Png

/-! ### Bits -/

/-- A reader of bits. Its state is the position of the next bit. -/
abbrev BitReader := StateT Nat Option

/-- The next bit; the low bits of a byte come first. -/
def readBit (data : Buffer) : BitReader Nat := fun p =>
  data[p / 8]?.map fun byte => (byte.toNat / Nat.pow 2 (p % 8) % 2, p + 1)

/-- The next `n` bits as a number, its low bits first. -/
def readBits (data : Buffer) : Nat → BitReader Nat
  | 0 => pure 0
  | n + 1 => do
    let low ← readBit data
    let high ← readBits data n
    return low + 2 * high

/-! ### Prefix codes -/

/-- The longest code word. -/
def maxWord : Nat := 15

/-- A prefix code: how many code words there are of every length from one on, and the symbols in
the order of their code words. -/
structure PrefixCode where
  counts : List Nat
  symbols : Array Nat
deriving Repr, Inhabited

namespace PrefixCode

/-- The symbols whose code words have a length. -/
def symbolsOf (lengths : List Nat) (length : Nat) : List Nat :=
  (lengths.zipIdx.filter fun p => p.1 == length).map (·.2)

/-- The code whose code words have the given lengths, symbol by symbol; a symbol of length zero
has no code word. -/
def ofLengths (lengths : List Nat) : PrefixCode :=
  let groups := (List.range maxWord).map fun n => symbolsOf lengths (n + 1)
  ⟨groups.map List.length, groups.flatten.toArray⟩

/-- Read a symbol, given the part of its code word that has been read, the first code word of that
length, and the number of shorter code words. -/
def readFrom (code : PrefixCode) (data : Buffer) (word first shorter : Nat) :
    List Nat → BitReader Nat
  | [] => failure
  | count :: counts => do
    let word := 2 * word + (← readBit data)
    let first := 2 * first
    if word < first + count then
      match code.symbols[shorter + (word - first)]? with
      | some symbol => return symbol
      | none => failure
    else readFrom code data word (first + count) (shorter + count) counts

/-- Read a symbol. -/
def read (code : PrefixCode) (data : Buffer) : BitReader Nat :=
  code.readFrom data 0 0 0 code.counts

end PrefixCode

/-! ### Blocks -/

/-- The least length of every length symbol, and how many further bits it has. -/
def lengthTable : List (Nat × Nat) :=
  [(3, 0), (4, 0), (5, 0), (6, 0), (7, 0), (8, 0), (9, 0), (10, 0), (11, 1), (13, 1), (15, 1),
    (17, 1), (19, 2), (23, 2), (27, 2), (31, 2), (35, 3), (43, 3), (51, 3), (59, 3), (67, 4),
    (83, 4), (99, 4), (115, 4), (131, 5), (163, 5), (195, 5), (227, 5), (258, 0)]

/-- The least distance of every distance symbol, and how many further bits it has. -/
def distanceTable : List (Nat × Nat) :=
  [(1, 0), (2, 0), (3, 0), (4, 0), (5, 1), (7, 1), (9, 2), (13, 2), (17, 3), (25, 3), (33, 4),
    (49, 4), (65, 5), (97, 5), (129, 6), (193, 6), (257, 7), (385, 7), (513, 8), (769, 8),
    (1025, 9), (1537, 9), (2049, 10), (3073, 10), (4097, 11), (6145, 11), (8193, 12), (12289, 12),
    (16385, 13), (24577, 13)]

/-- Read the number that a symbol of a table stands for. -/
def readEntry (data : Buffer) (table : List (Nat × Nat)) (symbol : Nat) : BitReader Nat :=
  match table[symbol]? with
  | some (least, extra) => do return least + (← readBits data extra)
  | none => failure

/-- Append a copy of what stands `distance` bytes before the end; it may overlap itself. -/
def copyBack (out : Buffer) (length distance : Nat) : Buffer :=
  length.fold (fun _ _ out => out.push (out.byteAt (out.size - distance))) out

/-- Read the symbols of a block up to its end, at most `fuel` of them. -/
def readSymbols (data : Buffer) (literals distances : PrefixCode) :
    Nat → Buffer → BitReader Buffer
  | 0, _ => failure
  | fuel + 1, out => do
    let symbol ← literals.read data
    if symbol < 256 then readSymbols data literals distances fuel (out.push (UInt8.ofNat symbol))
    else if symbol = 256 then return out
    else
      let length ← readEntry data lengthTable (symbol - 257)
      let distance ← readEntry data distanceTable (← distances.read data)
      if out.size < distance then failure
      else readSymbols data literals distances fuel (copyBack out length distance)

/-- The lengths of the code words of the fixed literal code. -/
def fixedLiterals : List Nat :=
  List.replicate 144 8 ++ List.replicate 112 9 ++ List.replicate 24 7 ++ List.replicate 8 8

/-- The lengths of the code words of the fixed distance code. -/
def fixedDistances : List Nat := List.replicate 30 5

/-- Read `n` code lengths, at most `fuel` symbols of them. -/
def readLengths (data : Buffer) (code : PrefixCode) (n : Nat) :
    Nat → List Nat → BitReader (List Nat)
  | 0, _ => failure
  | fuel + 1, lengths =>
    if n ≤ lengths.length then pure (lengths.take n)
    else do
      let symbol ← code.read data
      let again (value count : Nat) := lengths ++ List.replicate count value
      match symbol with
      | 16 =>
        match lengths.getLast? with
        | some last => readLengths data code n fuel (again last (3 + (← readBits data 2)))
        | none => failure
      | 17 => readLengths data code n fuel (again 0 (3 + (← readBits data 3)))
      | 18 => readLengths data code n fuel (again 0 (11 + (← readBits data 7)))
      | value => readLengths data code n fuel (again value 1)

/-- The order in which the code lengths of the code for code lengths are given. -/
def lengthOrder : List Nat := [16, 17, 18, 0, 8, 7, 9, 6, 10, 5, 11, 4, 12, 3, 13, 2, 14, 1, 15]

/-- Read the codes of a block that brings its own. -/
def readCodes (data : Buffer) : BitReader (PrefixCode × PrefixCode) := do
  let literals := 257 + (← readBits data 5)
  let distances := 1 + (← readBits data 5)
  let given := lengthOrder.take (4 + (← readBits data 4))
  let lengths ← given.mapM fun symbol => do return (symbol, ← readBits data 3)
  let code := PrefixCode.ofLengths ((List.range 19).map fun s => (lengths.lookup s).getD 0)
  let all ← readLengths data code (literals + distances) (literals + distances + 1) []
  return (.ofLengths (all.take literals), .ofLengths (all.drop literals))

/-- Read a plainly stored block, which starts on a whole byte. -/
def readStored (data out : Buffer) : BitReader Buffer := fun p =>
  let start := (p + 7) / 8
  let length := (data.byteAt start).toNat + 256 * (data.byteAt (start + 1)).toNat
  if start + 4 + length ≤ data.size then
    some (out ++ data.extract (start + 4) (start + 4 + length), 8 * (start + 4 + length))
  else none

/-- Read blocks up to the final one, at most `fuel` of them. -/
def readBlocks (data : Buffer) : Nat → Buffer → BitReader Buffer
  | 0, _ => failure
  | fuel + 1, out => do
    let final ← readBit data
    let kind ← readBits data 2
    let symbols (codes : PrefixCode × PrefixCode) :=
      readSymbols data codes.1 codes.2 (8 * data.size) out
    let out ← match kind with
      | 0 => readStored data out
      | 1 => symbols (.ofLengths fixedLiterals, .ofLengths fixedDistances)
      | 2 => do symbols (← readCodes data)
      | _ => failure
    if final = 1 then return out else readBlocks data fuel out

/-- Unpack a compressed stream, behind its header of two bytes. -/
def inflate (data : Buffer) : Option Buffer :=
  ((readBlocks data (8 * data.size) #[]).run 16).map (·.1)

/-! ### Packing -/

/-- The two bytes of a number, the low one first. -/
def wordBytes (n : Nat) : Buffer := #[UInt8.ofNat (n % 256), UInt8.ofNat (n / 256)]

/-- The most bytes that a stored block holds. -/
def maxStored : Nat := 65535

/-- The stored block of some bytes. -/
def storedBlock (final : Bool) (bytes : Buffer) : Buffer :=
  #[if final then 1 else 0] ++ wordBytes bytes.size ++ wordBytes (maxStored - bytes.size) ++ bytes

/-- Pack bytes into stored blocks. -/
def store (bytes : Buffer) : Buffer :=
  let blocks := bytes.size / maxStored
  (blocks + 1).fold (fun i _ out =>
    out ++ storedBlock (i == blocks) (bytes.extract (i * maxStored) ((i + 1) * maxStored))) #[]

end SceneCanvas.Png
