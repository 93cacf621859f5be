import SceneCanvas.Asset.File
import SceneCanvas.Png.Inflate

/-!
# Image files

Reading and writing of image files in the lossless portable format: a signature, then chunks with
a header, the compressed samples and an end mark. Samples of eight bits are read, in rows from top
to bottom; files with a palette, with other sample sizes or with interlaced rows are not.

Two checksums guard a file, `crc32` every chunk and `adler32` the compressed samples. Both read
bytes from left to right.
-/

namespace SceneCanvas.Png

open Asset (Channels File)

/-! ### Checksums -/

/-- One bit of the division by the polynomial of the checksum. -/
def crcBit (crc : UInt32) : UInt32 :=
  if crc &&& 1 = 1 then (crc >>> 1) ^^^ 0xEDB88320 else crc >>> 1

/-- Take one byte into the remainder. -/
def crcByte (crc : UInt32) (byte : UInt8) : UInt32 :=
  Nat.fold 8 (fun _ _ c => crcBit c) (crc ^^^ byte.toUInt32)

/-- The remainder of some bytes, complemented before and after. -/
def crc32 (bytes : Buffer) : UInt32 := bytes.foldl crcByte 0xFFFFFFFF ^^^ 0xFFFFFFFF

/-- The sum of some bytes and the sum of all partial sums, each up to a prime below `2 ^ 16`. -/
def adler32 (bytes : Buffer) : UInt32 :=
  let (low, high) := bytes.foldl (fun (low, high) byte =>
    let low := (low + byte.toNat) % 65521
    (low, (high + low) % 65521)) (1, 0)
  UInt32.ofNat (high * 65536 + low)

/-! ### Files -/

/-- What every file starts with. -/
def signature : Buffer := #[137, 80, 78, 71, 13, 10, 26, 10]

/-- The four bytes of a number, the high one first. -/
def quadBytes (n : UInt32) : Buffer :=
  #[(n >>> 24).toUInt8, (n >>> 16).toUInt8, (n >>> 8).toUInt8, n.toUInt8]

/-- The number that four bytes spell, the high one first. -/
def quadAt (bytes : Buffer) (i : Nat) : Nat :=
  (List.range 4).foldl (fun n k => 256 * n + (bytes.byteAt (i + k)).toNat) 0

/-- The name of a chunk as bytes. -/
def chunkName (name : String) : Buffer := name.toUTF8.data

/-! ### Writing -/

/-- A chunk: its length, its name, its content and their checksum. -/
def chunk (name : String) (content : Buffer) : Buffer :=
  let body := chunkName name ++ content
  quadBytes content.size.toUInt32 ++ body ++ quadBytes (crc32 body)

/-- The rows of straight pixels, each behind a zero, which says that they are not filtered. -/
def plainRows (width height : Nat) (pixels : Buffer) : Buffer :=
  height.fold (fun y _ out =>
    out.push 0 ++ pixels.extract (y * width * 4) ((y + 1) * width * 4)) #[]

/-- The file of an image of straight pixels. -/
def encode (width height : Nat) (pixels : Buffer) : Buffer :=
  let rows := plainRows width height pixels
  signature
    ++ chunk "IHDR" (quadBytes width.toUInt32 ++ quadBytes height.toUInt32 ++ #[8, 6, 0, 0, 0])
    ++ chunk "IDAT" (#[0x78, 0x01] ++ store rows ++ quadBytes (adler32 rows))
    ++ chunk "IEND" #[]

/-! ### Reading -/

/-- The chunks from position `i` on, at most `fuel` of them, by their names. -/
def readChunks (bytes : Buffer) (i : Nat) : Nat → Option (List (Buffer × Buffer))
  | 0 => none
  | fuel + 1 =>
    let length := quadAt bytes i
    let last := i + 8 + length
    if bytes.size < last + 4 then none
    else
      let body := bytes.extract (i + 4) last
      if (crc32 body).toNat ≠ quadAt bytes last then none
      else
        let name := body.extract 0 4
        let this := (name, body.extract 4 body.size)
        if name == chunkName "IEND" then some [this]
        else (readChunks bytes (last + 4) fuel).map (this :: ·)

/-- What the samples of a colour type stand for. -/
def channels? : UInt8 → Option Channels
  | 0 => some .gray
  | 2 => some .rgb
  | 4 => some .grayAlpha
  | 6 => some .rgba
  | _ => none

/-- Of three neighbours, the one nearest to what continues their slope. -/
def steady (left up corner : UInt8) : UInt8 :=
  let slope : Int := (left.toNat : Int) + up.toNat - corner.toNat
  let off (b : UInt8) : Nat := (slope - b.toNat).natAbs
  if off left ≤ off up ∧ off left ≤ off corner then left
  else if off up ≤ off corner then up
  else corner

/-- What a filter predicts a sample to be, from its neighbours. -/
def predict (filter left up corner : UInt8) : UInt8 :=
  match filter with
  | 0 => 0
  | 1 => left
  | 2 => up
  | 3 => UInt8.ofNat ((left.toNat + up.toNat) / 2)
  | _ => steady left up corner

/-- Undo the filters of `height` rows of `stride` samples, whose pixels have `n` samples each. -/
def unfilter (stride n height : Nat) (raw : Buffer) : Buffer :=
  height.fold (fun y _ out =>
    let filter := raw.byteAt (y * (stride + 1))
    stride.fold (fun x _ out =>
      let at' (inRow above : Bool) : UInt8 :=
        if (inRow && x < n) || (above && y == 0) then 0
        else out.byteAt ((y - above.toNat) * stride + x - (if inRow then n else 0))
      out.push (raw.byteAt (y * (stride + 1) + 1 + x)
        + predict filter (at' true false) (at' false true) (at' true true))) out) #[]

/-- The image of a header chunk and the compressed samples. -/
def decodeSamples? (header data : Buffer) : Option File := do
  let width := quadAt header 0
  let height := quadAt header 4
  let channels ← channels? (header.byteAt 9)
  let stride := width * channels.count
  let raw ← inflate data
  if header.byteAt 8 ≠ 8 ∨ header.byteAt 12 ≠ 0 ∨ width = 0 ∨ height = 0 then none
  else if raw.size < height * (stride + 1) then none
  else if (List.range height).any fun y => 4 < raw.byteAt (y * (stride + 1)) then none
  else some (.image width height channels (unfilter stride channels.count height raw))

/-- The image in a file. -/
def decode? (bytes : Buffer) : Option File := do
  if bytes.extract 0 8 != signature then none
  else
    match ← readChunks bytes 8 bytes.size with
    | (name, header) :: chunks =>
      if name != chunkName "IHDR" then none
      else
        let data := chunks.foldl (fun data c =>
          if c.1 == chunkName "IDAT" then data ++ c.2 else data) #[]
        decodeSamples? header data
    | [] => none

/-- A file by its bytes: an image if they are that of one. -/
def fileOf (bytes : Buffer) : File := (decode? bytes).getD (.bytes bytes)

end SceneCanvas.Png
