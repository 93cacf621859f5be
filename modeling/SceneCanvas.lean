import SceneCanvas.Host.Block
import SceneCanvas.Main
import SceneCanvas.Proofs.Accesses
import SceneCanvas.Proofs.Accuracy
import SceneCanvas.Proofs.BlurOutcome
import SceneCanvas.Proofs.BoxBlur
import SceneCanvas.Proofs.Cancellation
import SceneCanvas.Proofs.CaptionLayer
import SceneCanvas.Proofs.CaptionLayout
import SceneCanvas.Proofs.ColorBounds
import SceneCanvas.Proofs.Comment
import SceneCanvas.Proofs.Confinement
import SceneCanvas.Proofs.Covering
import SceneCanvas.Proofs.Deviation
import SceneCanvas.Proofs.FontMemo
import SceneCanvas.Proofs.Futile
import SceneCanvas.Proofs.LeadingNumeral
import SceneCanvas.Proofs.Lenient
import SceneCanvas.Proofs.LifeCycle
import SceneCanvas.Proofs.Notification
import SceneCanvas.Proofs.Persistence
import SceneCanvas.Proofs.Placement
import SceneCanvas.Proofs.Premultiplied
import SceneCanvas.Proofs.Quantization
import SceneCanvas.Proofs.Quotation
import SceneCanvas.Proofs.SourceOver
import SceneCanvas.Proofs.Straight
import SceneCanvas.Proofs.ToneCut
import SceneCanvas.Proofs.Transparency
import SceneCanvas.Proofs.ZoomWindow
