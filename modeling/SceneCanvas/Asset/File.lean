import SceneCanvas.Surface

/-!
# Stored files

A stored file is known by what its readers make of it: an image file by its size and its samples,
a font file by the face that it holds, and anything else by its bytes.
-/

namespace SceneCanvas.Asset

/-- What the samples of an image file stand for. -/
inductive Channels where
  | gray
  | grayAlpha
  | rgb
  | rgba
deriving Repr, DecidableEq, Inhabited

namespace Channels

/-- The number of samples of a pixel. -/
def count : Channels → Nat
  | gray => 1
  | grayAlpha => 2
  | rgb => 3
  | rgba => 4

/-- The straight pixel that starts at sample `i`. -/
def pixelAt (channels : Channels) (samples : Buffer) (i : Nat) : Pixel :=
  let s (k : Nat) : UInt8 := samples.byteAt (i + k)
  match channels with
  | gray => ⟨s 0, s 0, s 0, 255⟩
  | grayAlpha => ⟨s 0, s 0, s 0, s 1⟩
  | rgb => ⟨s 0, s 1, s 2, 255⟩
  | rgba => ⟨s 0, s 1, s 2, s 3⟩

end Channels

/-- The face of a font file. -/
structure FontFace where
  family : String
  weight : Nat
  /-- The position of the face in its file. -/
  index : Nat := 0
deriving Repr, BEq, ReflBEq, LawfulBEq, DecidableEq, Inhabited

/-- A file of the storage. -/
inductive File where
  | image (width height : Nat) (channels : Channels) (samples : Buffer)
  | font (face : FontFace)
  | bytes (content : Buffer)
deriving Repr, BEq, DecidableEq, Inhabited

namespace File

/-- The file holds nothing. -/
def isEmpty : File → Bool
  | bytes content => content.isEmpty
  | _ => false

/-- The premultiplied picture that an image file holds. -/
def decode : File → Except SceneError Picture
  | image width height channels samples =>
    .ok ⟨width, height, Buffer.ofPixels (width * height) fun p =>
      (channels.pixelAt samples (p * channels.count)).premultiply⟩
  | _ => .error .undecodable

/-- The bytes of a file that is neither an image nor a font. -/
def rawBytes : File → Buffer
  | bytes content => content
  | _ => #[]

/-- The text of a file, if its bytes are UTF-8. -/
def text? : File → Option String
  | bytes content => String.fromUTF8? ⟨content⟩
  | _ => none

end File

end SceneCanvas.Asset
